import Mathlib.Algebra.Group.Nat.Defs
import Mathlib.Data.List.Induction
import Mathlib.Tactic.ByContra

/-! Decimal numerals written one behind the other, and where one of them can be cut in two. -/

namespace Numeral

theorem digitsInjective {n m : Nat} (same : Nat.toDigits 10 n = Nat.toDigits 10 m) : n = m := by
  have value := congrArg (fun digits => Nat.ofDigitChars 10 digits 0) same
  simpa using value

theorem digitsAppend {n : Nat} (positive : 0 < n) (m : Nat) : Nat.toDigits 10 n ++ Nat.toDigits 10 m =
    Nat.toDigits 10 (n * 10 ^ (Nat.toDigits 10 m).length + m) := by
  induction m using Nat.strongRecOn with
  | ind m ih =>
    by_cases small : m < 10
    · rw [Nat.toDigits_append_toDigits (by decide) positive small,Nat.toDigits_of_lt_base small,List.length_singleton]
      congr 1
      omega
    · have front := ih (m / 10) (by omega)
      have more : 0 < n * 10 ^ (Nat.toDigits 10 (m / 10)).length + m / 10 := by
        have : 0 < m / 10 := by omega
        omega
      have last := Nat.toDigits_of_lt_base (Nat.mod_lt m (show 10 > 0 by decide))
      rw [Nat.toDigits_of_base_le (show 1 < 10 by decide) (show 10 ≤ m by omega),← List.append_assoc,front,← last,
        Nat.toDigits_append_toDigits (by decide) more (Nat.mod_lt m (by decide)),List.length_append,last,
        List.length_singleton,Nat.pow_succ,← Nat.mul_assoc]
      congr 1
      have whole := Nat.div_add_mod m 10
      omega

theorem digitsCut {rest : List Char} : ∀ {n : Nat} {front : List Char}, Nat.toDigits 10 n = front ++ rest →
    front ≠ [] → rest ≠ [] → ∃ d, 0 < d ∧ front = Nat.toDigits 10 d := by
  induction rest using List.reverseRecOn with
  | nil => exact fun _ _ more => absurd rfl more
  | append_singleton rest c ih =>
    intro n front cut some _
    have large : 10 ≤ n := by
      by_contra small
      have two := congrArg List.length cut
      rw [Nat.toDigits_of_lt_base (by omega)] at two
      have := List.length_pos_iff.mpr some
      simp only [List.length_singleton,List.length_append] at two
      omega
    rw [Nat.toDigits_of_base_le (by decide) large,← List.append_assoc] at cut
    have shorter := (List.append_inj' cut rfl).1
    by_cases last : rest = []
    · rw [last,List.append_nil] at shorter
      exact ⟨n / 10,by omega,shorter.symm⟩
    · exact ih shorter some last

end Numeral
