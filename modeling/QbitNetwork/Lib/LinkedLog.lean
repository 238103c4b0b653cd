import Mathlib.Data.List.Chain
import Mathlib.Data.List.Induction
import Mathlib.Logic.Relation

/-! A log that grows and shrinks at its end, where every entry follows the one before: the two steps
it is rewritten by keep the links, and the last entry stands for all before it. -/
namespace LinkedLog
variable {α : Type}

inductive Step (follows : α → α → Prop) : List α → List α → Prop where
  | extend {log : List α} {entry : α} (linked : ∀ last, log.getLast? = some last → follows last entry) :
      Step follows log (log ++ [entry])
  | undo (log : List α) (entry : α) : Step follows (log ++ [entry]) log

abbrev Path (follows : α → α → Prop) : List α → List α → Prop := Relation.ReflTransGen (Step follows)

variable {follows : α → α → Prop} {log log' : List α}

theorem linkedSnoc {entry : α} : (log ++ [entry]).IsChain follows ↔
    log.IsChain follows ∧ ∀ last, log.getLast? = some last → follows last entry := by
  rw [List.isChain_append]
  simp [Option.mem_def]

theorem stepLinked (linked : log.IsChain follows) (step : Step follows log log') : log'.IsChain follows := by
  cases step with
  | extend last => exact linkedSnoc.mpr ⟨linked,last⟩
  | undo _ entry => exact (linkedSnoc.mp linked).1

theorem pathLinked (linked : log.IsChain follows) (path : Path follows log log') : log'.IsChain follows := by
  induction path with
  | refl => exact linked
  | tail _ step ih => exact stepLinked ih step

theorem pathUndo (log rest : List α) : Path follows (log ++ rest) log := by
  induction rest using List.reverseRecOn with
  | nil => rw [List.append_nil]
  | append_singleton rest entry ih =>
    rw [← List.append_assoc]
    exact Relation.ReflTransGen.head (.undo (log ++ rest) entry) ih

theorem pathTake (log : List α) (n : Nat) : Path follows log (log.take n) := by
  have path : Path follows (log.take n ++ log.drop n) (log.take n) := pathUndo (log.take n) (log.drop n)
  rwa [List.take_append_drop] at path

theorem pathExtend {rest : List α} (linked : (log ++ rest).IsChain follows) :
    Path follows log (log ++ rest) := by
  induction rest using List.reverseRecOn with
  | nil => rw [List.append_nil]
  | append_singleton rest entry ih =>
    rw [← List.append_assoc] at linked ⊢
    obtain ⟨below,last⟩ := linkedSnoc.mp linked
    exact Relation.ReflTransGen.tail (ih below) (.extend last)

theorem linkedAt (linked : log.IsChain follows) {i : Nat} {a b : α} (here : log[i]? = some a)
    (next : log[i + 1]? = some b) : follows a b := by
  obtain ⟨size,rfl⟩ := List.getElem?_eq_some_iff.mp here
  obtain ⟨size',rfl⟩ := List.getElem?_eq_some_iff.mp next
  exact List.isChain_iff_getElem.mp linked i size'

/- Where an entry tells the one it follows, or else something else is the case, two logs that agree at
one place agree everywhere below, or that is the case. -/
theorem agreeBelow (agrees : α → α → Prop) (otherwise : Prop)
    (tells : ∀ a a' b b', b ∈ log → b' ∈ log' → follows a b → follows a' b' → agrees b b' → agrees a a' ∨ otherwise)
    (linked : log.IsChain follows) (linked' : log'.IsChain follows) {n : Nat} {b b' : α}
    (top : log[n]? = some b) (top' : log'[n]? = some b') (same : agrees b b') {i : Nat} (below : i ≤ n) {a a' : α}
    (here : log[i]? = some a) (here' : log'[i]? = some a') : agrees a a' ∨ otherwise := by
  induction n generalizing b b' with
  | zero =>
    obtain rfl : i = 0 := Nat.le_zero.mp below
    rw [top] at here
    rw [top'] at here'
    cases here
    cases here'
    exact .inl same
  | succ n ih =>
    rcases Nat.lt_or_ge n i with top'' | lower
    · obtain rfl : i = n + 1 := by omega
      rw [top] at here
      rw [top'] at here'
      cases here
      cases here'
      exact .inl same
    · have size := (List.getElem?_eq_some_iff.mp top).1
      have size' := (List.getElem?_eq_some_iff.mp top').1
      have mid := List.getElem?_eq_getElem (show n < log.length by omega)
      have mid' := List.getElem?_eq_getElem (show n < log'.length by omega)
      rcases tells _ _ _ _ (List.mem_of_getElem? top) (List.mem_of_getElem? top') (linkedAt linked mid top)
        (linkedAt linked' mid' top') same with agree | other
      · exact ih mid mid' agree lower
      · exact .inr other

end LinkedLog
