import Mathlib.Algebra.Order.Ring.Nat
import Mathlib.Data.Nat.Basic

/-! Pages of a list, and the walk over them up to the first empty one. -/

namespace Paging
variable {α ε : Type}

def page (all : List α) (size n : Nat) : List α := (all.drop ((n - 1) * size)).take size

def emptyPage (count size : Nat) : Nat := (count + size - 1) / size + 1

inductive Walk (fetch : Nat → Except ε (List α)) : Nat → List α → Prop where
  | stop {n : Nat} (empty : fetch n = .ok []) : Walk fetch n []
  | next {n : Nat} {rows rest : List α} (fetched : fetch n = .ok rows) (more : rows ≠ [])
    (walk : Walk fetch (n + 1) rest) : Walk fetch n (rows ++ rest)

section Laws
variable {fetch : Nat → Except ε (List α)} {all rows : List α} {size n : Nat}

theorem pageEmpty (positive : 0 < size) : page all size (n + 1) = [] ↔ all.length ≤ n * size := by
  rw [page,Nat.add_sub_cancel,List.take_eq_nil_iff,List.drop_eq_nil_iff]
  constructor
  · rintro (none | past)
    · omega
    · exact past
  · exact .inr

theorem emptyPageLe (positive : 0 < size) : emptyPage all.length size ≤ n + 1 ↔ all.length ≤ n * size := by
  rw [emptyPage,Nat.add_le_add_iff_right,Nat.div_le_iff_le_mul_add_pred positive,Nat.mul_comm size n]
  omega

theorem walkPages (positive : 0 < size)
    (fetched : ∀ k, 1 ≤ k → k ≤ emptyPage all.length size → fetch k = .ok (page all size k)) : Walk fetch 1 all := by
  -- from any page, by what is left behind it
  suffices walks : ∀ left n, all.length - n * size ≤ left → n + 1 ≤ emptyPage all.length size →
      Walk fetch (n + 1) (all.drop (n * size)) by
    simpa using walks all.length 0 (by omega) (by simp [emptyPage])
  intro left
  induction left with
  | zero =>
    intro n none inside
    have past : all.length ≤ n * size := by omega
    rw [List.drop_eq_nil_of_le past]
    exact .stop ((fetched _ (by omega) inside).trans (congrArg _ ((pageEmpty positive).mpr past)))
  | succ left ih =>
    intro n few inside
    by_cases past : all.length ≤ n * size
    · rw [List.drop_eq_nil_of_le past]
      exact .stop ((fetched _ (by omega) inside).trans (congrArg _ ((pageEmpty positive).mpr past)))
    · have more : page all size (n + 1) ≠ [] := fun none => past ((pageEmpty positive).mp none)
      have further : n + 1 < emptyPage all.length size := by
        by_contra beyond
        exact past ((emptyPageLe positive).mp (by omega))
      have rest := ih (n + 1) (by rw [Nat.succ_mul]; omega) further
      have split : all.drop (n * size) = page all size (n + 1) ++ all.drop ((n + 1) * size) := by
        rw [page,Nat.add_sub_cancel,Nat.succ_mul,← List.drop_drop,List.take_append_drop]
      rw [split]
      exact .next (fetched _ (by omega) inside) more rest

theorem walkStops (walk : Walk fetch n rows) : ∃ m, n ≤ m ∧ fetch m = .ok [] := by
  induction walk with
  | stop empty => exact ⟨_,le_refl _,empty⟩
  | next _ _ _ ih =>
    obtain ⟨m,later,empty⟩ := ih
    exact ⟨m,by omega,empty⟩

theorem walkIff (positive : 0 < size) {fits : Nat → Prop} (below : ∀ {k m}, k ≤ m → fits m → fits k)
    (fetched : ∀ k, 1 ≤ k → fits k → fetch k = .ok (page all size k))
    (refused : ∀ k, 1 ≤ k → ¬ fits k → ∀ rows, fetch k ≠ .ok rows) :
    Walk fetch 1 all ↔ fits (emptyPage all.length size) := by
  constructor
  · intro walk
    obtain ⟨m,later,empty⟩ := walkStops walk
    have fit : fits m := by
      by_contra far
      exact refused m later far _ empty
    obtain ⟨k,rfl⟩ : ∃ k, m = k + 1 := ⟨m - 1,by omega⟩
    rw [fetched _ later fit] at empty
    exact below ((emptyPageLe positive).mpr ((pageEmpty positive).mp (Except.ok.inj empty))) fit
  · intro fit
    exact walkPages positive (fun k first upTo => fetched k first (below upTo fit))

end Laws

end Paging
