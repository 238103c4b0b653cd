import Mathlib.Tactic.Linarith
import Mathlib.Tactic.Ring
import Mathlib.Algebra.Order.Ring.Nat

/-! The quotient of two natural numbers in binary floating point: correctly rounded to a number of
significant bits, ties to even. -/
namespace RoundedQuotient

/- The whole number next to `n / d`, the even one of two. -/
def halfEven (n d : Nat) : Nat :=
  if d < 2 * (n % d) ∨ 2 * (n % d) = d ∧ n / d % 2 = 1 then n / d + 1 else n / d

def exponent (n d : Nat) : Int :=
  let e : Int := (n.log2 : Int) - d.log2
  if d * 2 ^ e.toNat ≤ n * 2 ^ (-e).toNat then e else e - 1

def whole (bits n d : Nat) : Nat :=
  let unit := exponent n d - (bits - 1)
  halfEven (n * 2 ^ (-unit).toNat) (d * 2 ^ unit.toNat) * 2 ^ unit.toNat / 2 ^ (-unit).toNat

theorem halfEvenNear (n d : Nat) : n / d ≤ halfEven n d ∧ 2 * (d * halfEven n d) ≤ 2 * n + d := by
  have split := Nat.div_add_mod n d
  unfold halfEven
  split
  · rename_i up
    refine ⟨Nat.le_succ _,?_⟩
    rw [Nat.mul_succ]
    omega
  · refine ⟨le_rfl,?_⟩
    omega

theorem exponentBelow {n d k : Nat} (small : n < d * 2 ^ k) : exponent n d < k := by
  unfold exponent
  dsimp only
  split
  · rename_i reached
    by_contra above
    have fits : n.log2 - d.log2 ≥ k := by omega
    rw [show (-((n.log2 : Int) - d.log2)).toNat = 0 by omega,pow_zero,Nat.mul_one,
      show ((n.log2 : Int) - d.log2).toNat = n.log2 - d.log2 by omega] at reached
    exact absurd (small.trans_le (Nat.mul_le_mul_left d (Nat.pow_le_pow_right Nat.two_pos fits))) (by omega)
  · by_contra above
    have positive : n ≠ 0 := by
      rintro rfl
      rw [Nat.log2_zero] at above
      omega
    have large : d < 2 ^ (d.log2 + 1) := Nat.lt_log2_self
    have reached : 2 ^ (d.log2 + 1 + k) ≤ n :=
      (Nat.pow_le_pow_right Nat.two_pos (by omega)).trans (Nat.log2_self_le positive)
    rw [pow_add] at reached
    exact absurd (small.trans_le ((Nat.mul_le_mul_right (2 ^ k) large.le).trans reached)) (by omega)

theorem wholeFloor {bits n d k : Nat} (small : n < d * 2 ^ k) (inside : k ≤ bits) (fine : d < 2 ^ (bits + 1 - k)) :
    whole bits n d = n / d := by
  have exponent := exponentBelow small
  unfold whole
  dsimp only
  generalize unit : RoundedQuotient.exponent n d - ((bits : Int) - 1) = u
  have none : u.toNat = 0 := by omega
  rw [none,pow_zero,Nat.mul_one,Nat.mul_one]
  generalize scale : (-u).toNat = s
  have wide : d < 2 ^ (s + 1) := fine.trans_le (Nat.pow_le_pow_right Nat.two_pos (by omega))
  obtain ⟨above,near⟩ := halfEvenNear (n * 2 ^ s) d
  have positive : 0 < d := Nat.pos_of_ne_zero (by rintro rfl; simp at small)
  have split := Nat.div_add_mod n d
  have rest := Nat.mod_lt n positive
  refine Nat.div_eq_of_lt_le ?_ ?_
  · refine ((Nat.le_div_iff_mul_le positive).mpr ?_).trans above
    rw [Nat.mul_right_comm]
    exact Nat.mul_le_mul_right _ (Nat.div_mul_le_self n d)
  · have next : n + 1 ≤ d * (n / d + 1) := by
      rw [Nat.mul_succ]
      omega
    have scaled : (n + 1) * 2 ^ s ≤ d * (n / d + 1) * 2 ^ s := Nat.mul_le_mul_right _ next
    have less : 2 * (d * halfEven (n * 2 ^ s) d) < 2 * (d * ((n / d + 1) * 2 ^ s)) := by
      rw [pow_succ] at wide
      rw [Nat.mul_assoc] at scaled
      linarith
    exact Nat.lt_of_mul_lt_mul_left (Nat.lt_of_mul_lt_mul_left less)

end RoundedQuotient
