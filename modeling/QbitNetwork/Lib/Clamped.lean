import Mathlib.Algebra.BigOperators.Group.List.Basic
import Mathlib.Algebra.Order.Ring.Int
import Mathlib.Data.List.Infix
import Mathlib.Data.List.Perm.Basic

/-! Taking back what was added: to an amount that is moved step by step and never let below zero, and to
a list of which the first copies go. -/
namespace Clamped

def settle (start : Int) (steps : List Int) : Int := steps.foldl (fun held step => max 0 (held + step)) start

theorem settleAppend (start : Int) (steps later : List Int) :
    settle start (steps ++ later) = settle (settle start steps) later := List.foldl_append ..

theorem settleNonneg {start : Int} (held : 0 ≤ start) (steps : List Int) : 0 ≤ settle start steps := by
  induction steps generalizing start with
  | nil => exact held
  | cons step steps ih => exact ih (Int.le_max_left 0 (start + step))

theorem settleSome (start : Int) {steps : List Int} (some : steps ≠ []) : 0 ≤ settle start steps := by
  cases steps with
  | nil => exact absurd rfl some
  | cons step steps => exact settleNonneg (Int.le_max_left ..) steps

theorem settleStill {start : Int} (held : 0 ≤ start) {steps : List Int} (still : ∀ step ∈ steps, step = 0) :
    settle start steps = start := by
  induction steps with
  | nil => rfl
  | cons step steps ih =>
    obtain ⟨rfl,rest⟩ := List.forall_mem_cons.mp still
    have same : max 0 (start + 0) = start := by omega
    rw [show settle start (0 :: steps) = settle (max 0 (start + 0)) steps from rfl,same]
    exact ih rest

theorem settleLe {start : Int} (held : 0 ≤ start) {steps : List Int} {bound : Int} : settle start steps ≤ bound ↔
    start + steps.sum ≤ bound ∧ ∀ tail, tail <:+ steps → tail.sum ≤ bound := by
  induction steps generalizing start with
  | nil =>
    simp only [settle,List.foldl_nil,List.sum_nil,Int.add_zero,List.suffix_nil,forall_eq]
    omega
  | cons step steps ih =>
    have next := @ih (max 0 (start + step)) (Int.le_max_left ..)
    rw [show settle start (step :: steps) = settle (max 0 (start + step)) steps from rfl,next,List.sum_cons]
    constructor
    · rintro ⟨whole,tails⟩
      refine ⟨by omega,fun tail ends => ?_⟩
      rcases List.suffix_cons_iff.mp ends with rfl | later
      · rw [List.sum_cons]
        omega
      · exact tails tail later
    · rintro ⟨whole,tails⟩
      have rest := tails steps (List.suffix_cons ..)
      exact ⟨by omega,fun tail ends => tails tail (ends.trans (List.suffix_cons ..))⟩

theorem settleEq {start : Int} (held : 0 ≤ start) {steps : List Int} {left : Int} : settle start steps = left ↔
    (start + steps.sum ≤ left ∧ ∀ tail, tail <:+ steps → tail.sum ≤ left) ∧
      (start + steps.sum = left ∨ ∃ tail, tail <:+ steps ∧ tail.sum = left) := by
  have below := @settleLe start held steps (left - 1)
  constructor
  · rintro rfl
    obtain ⟨whole,tails⟩ := (settleLe held).mp (le_refl (settle start steps))
    refine ⟨⟨whole,tails⟩,?_⟩
    by_contra never
    rw [not_or,not_exists] at never
    have less : settle start steps ≤ settle start steps - 1 := below.mpr ⟨by omega,fun tail ends => by
      have upper := tails tail ends
      have other : tail.sum ≠ settle start steps := fun same => never.2 tail ⟨ends,same⟩
      omega⟩
    omega
  · rintro ⟨most,reached⟩
    have upper := (settleLe held).mpr most
    have lower : ¬settle start steps ≤ left - 1 := by
      intro less
      obtain ⟨whole,tails⟩ := below.mp less
      rcases reached with same | ⟨tail,ends,same⟩
      · omega
      · have := tails tail ends
        omega
    omega

theorem settleBack {start : Int} (held : 0 ≤ start) {steps : List Int} {left : Int} (back : start + steps.sum = left) :
    settle start steps = left ↔ ∀ tail, tail <:+ steps → tail.sum ≤ left := by
  rw [settleEq held]
  exact ⟨fun all => all.1.2,fun tails => ⟨⟨back.le,tails⟩,.inl back⟩⟩

section Rows
variable {K : Type} [DecidableEq K]

def effect (rows : List (K × Int)) (key : K) : Int := (rows.map (fun row => if row.1 = key then row.2 else 0)).sum

def backSteps (key : K) (rows : List (K × Int)) : List Int := rows.map (fun row => if row.1 = key then -row.2 else 0)

theorem effectAppend (rows later : List (K × Int)) (key : K) : effect (rows ++ later) key = effect rows key + effect later key := by
  rw [effect,List.map_append,List.sum_append]
  rfl

theorem backAppend (key : K) (rows later : List (K × Int)) :
    backSteps key (rows ++ later) = backSteps key rows ++ backSteps key later := List.map_append

theorem backSum (key : K) (rows : List (K × Int)) : (backSteps key rows).sum = -effect rows key := by
  induction rows with
  | nil => rfl
  | cons row rows ih =>
    rw [backSteps,effect,List.map_cons,List.map_cons,List.sum_cons,List.sum_cons]
    rw [backSteps,effect] at ih
    split <;> omega

theorem backTails {key : K} {rows : List (K × Int)} {P : Int → Prop} :
    (∀ tail, tail <:+ backSteps key rows → P tail.sum) ↔ ∀ tail, tail <:+ rows → P (-effect tail key) := by
  constructor
  · intro all tail ends
    rw [← backSum]
    exact all _ (ends.map _)
  · intro all tail ends
    obtain ⟨rest,ends',rfl⟩ := List.suffix_map_iff.mp ends
    have bounded := all rest ends'
    rw [← backSum] at bounded
    exact bounded

structure Returns (rows : List (K × Int)) (key : K) (before after : Int) : Prop where
  short : after ≤ before + effect rows key
  covered : ∀ tail, tail <:+ rows → 0 ≤ before + effect tail key
  back : after = before + effect rows key ∨ ∃ tail, tail <:+ rows ∧ before + effect tail key = 0

theorem settleReturns {rows : List (K × Int)} {key : K} {before after : Int} (held : 0 ≤ after) :
    settle after (backSteps key rows) = before ↔ Returns rows key before after := by
  have most := @backTails K _ key rows (fun sum => sum ≤ before)
  have least := @backTails K _ key rows (fun sum => sum ≠ before)
  have reached := not_congr least
  push Not at reached
  rw [settleEq held,most,reached,backSum]
  constructor
  · rintro ⟨⟨whole,tails⟩,ends⟩
    refine ⟨by omega,fun tail last => ?_,?_⟩
    · have := tails tail last
      omega
    · rcases ends with same | ⟨tail,last,same⟩
      · exact .inl (by omega)
      · exact .inr ⟨tail,last,by omega⟩
  · rintro ⟨short,covered,ends⟩
    refine ⟨⟨by omega,fun tail last => ?_⟩,?_⟩
    · have := covered tail last
      omega
    · rcases ends with same | ⟨tail,last,same⟩
      · exact .inl (by omega)
      · exact .inr ⟨tail,last,by omega⟩

end Rows

end Clamped

namespace FirstCopies
variable {α : Type} [DecidableEq α]

def again (xs keys : List α) : List α := keys.diff (keys.diff xs)

theorem diffAppend (xs ys keys : List α) : (xs ++ ys).diff keys = xs.diff keys ++ ys.diff (keys.diff xs) := by
  induction keys generalizing xs ys with
  | nil => simp
  | cons key keys ih =>
    rw [List.diff_cons]
    by_cases held : key ∈ xs
    · rw [List.erase_append_left _ held,ih,List.diff_cons,List.cons_diff_of_mem held]
    · rw [List.erase_append_right _ held,ih,List.diff_cons,List.erase_of_not_mem held,List.cons_diff_of_not_mem held,
        List.diff_cons]

theorem appendDiff (xs keys : List α) : (xs ++ keys).diff keys = xs.diff keys ++ again xs keys := diffAppend xs keys keys

end FirstCopies
