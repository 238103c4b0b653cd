import Mathlib.Data.List.Basic
import Mathlib.Data.List.Perm.Subperm
import Mathlib.Logic.Function.Basic

/-! Filling a bounded room from several queues: one queue after the other, each up to the first element that
does not fit. -/
namespace QueuePacking
variable {α κ : Type} (fits : List α → α → Prop) [∀ taken x, Decidable (fits taken x)]

def takeFrom : List α → List α → List α
  | taken,[] => taken
  | taken,x :: rest => if fits taken x then takeFrom (taken ++ [x]) rest else taken

def pack (queue : κ → List α) (taken : List α) (keys : List κ) : List α :=
  keys.foldl (fun taken key => takeFrom fits taken (queue key)) taken

def Filling : Prop := ∀ taken more x, ¬fits taken x → ¬fits (taken ++ more) x

section Laws
variable {fits}

theorem takeFromPrefix (taken queue : List α) : ∃ n, takeFrom fits taken queue = taken ++ queue.take n ∧
    ∀ x, queue[n]? = some x → ¬fits (taken ++ queue.take n) x := by
  induction queue generalizing taken with
  | nil => exact ⟨0,by simp [takeFrom],by simp⟩
  | cons first rest ih =>
    rw [takeFrom]
    split
    · obtain ⟨n,shape,stop⟩ := ih (taken ++ [first])
      refine ⟨n + 1,by rw [shape,List.take_succ_cons,List.append_assoc,List.singleton_append],fun x next => ?_⟩
      rw [List.getElem?_cons_succ] at next
      have full := stop x next
      rwa [List.append_assoc,List.singleton_append] at full
    · rename_i full
      refine ⟨0,by simp,fun x next => ?_⟩
      rw [List.getElem?_cons_zero,Option.some.injEq] at next
      rwa [← next,List.take_zero,List.append_nil]

theorem takeFromKeeps {holds : List α → Prop} (keeps : ∀ taken x, holds taken → fits taken x → holds (taken ++ [x]))
    {taken : List α} (start : holds taken) (queue : List α) : holds (takeFrom fits taken queue) := by
  induction queue generalizing taken with
  | nil => exact start
  | cons first rest ih =>
    rw [takeFrom]
    split
    · rename_i room
      exact ih (keeps taken first start room)
    · exact start

theorem packKeeps {holds : List α → Prop} (keeps : ∀ taken x, holds taken → fits taken x → holds (taken ++ [x]))
    {taken : List α} (start : holds taken) (queue : κ → List α) (keys : List κ) : holds (pack fits queue taken keys) := by
  induction keys generalizing taken with
  | nil => exact start
  | cons key rest ih => exact ih (takeFromKeeps keeps start (queue key))

variable [DecidableEq κ]

theorem packPrefixes (filling : Filling fits) (queue : κ → List α) {keys : List κ} (single : keys.Nodup) :
    ∀ taken : List α, ∃ count : κ → Nat,
      pack fits queue taken keys = taken ++ keys.flatMap (fun key => (queue key).take (count key)) ∧
      ∀ key ∈ keys, ∀ x, (queue key)[count key]? = some x → ¬fits (pack fits queue taken keys) x := by
  induction keys with
  | nil => exact fun taken => ⟨fun _ => 0,by simp [pack],by simp⟩
  | cons first rest ih =>
    intro taken
    obtain ⟨apart,single⟩ := List.nodup_cons.mp single
    obtain ⟨n,shape,stop⟩ := @takeFromPrefix _ fits _ taken (queue first)
    obtain ⟨count,others,full⟩ := ih single (takeFrom fits taken (queue first))
    have whole : pack fits queue taken (first :: rest) =
        taken ++ (first :: rest).flatMap (fun key => (queue key).take (Function.update count first n key)) := by
      have same : rest.flatMap (fun key => (queue key).take (Function.update count first n key)) =
          rest.flatMap (fun key => (queue key).take (count key)) := by
        refine List.flatMap_congr (fun key inside => ?_)
        have other : key ≠ first := fun equal => apart (equal ▸ inside)
        rw [Function.update_of_ne other]
      change pack fits queue (takeFrom fits taken (queue first)) rest = _
      rw [others,shape,List.flatMap_cons,Function.update_self,same,List.append_assoc]
    refine ⟨Function.update count first n,whole,fun key inside x next => ?_⟩
    by_cases own : key = first
    · subst own
      rw [Function.update_self] at next
      rw [whole,List.flatMap_cons,Function.update_self,← List.append_assoc]
      exact filling _ _ x (stop x next)
    · have later : key ∈ rest := (List.mem_cons.mp inside).resolve_left own
      rw [Function.update_of_ne own] at next
      exact full key later x next

end Laws

section Keyed
variable [DecidableEq κ] {key : α → κ} {queue : κ → List α} {keys : List κ}

theorem keyedPrefix (own : ∀ k, ∀ x ∈ queue k, key x = k) (single : keys.Nodup) (count : κ → Nat) {k : κ} (inside : k ∈ keys) :
    (keys.flatMap (fun k => (queue k).take (count k))).filter (fun x => key x = k) = (queue k).take (count k) := by
  have others : ∀ keys : List κ, k ∉ keys →
      (keys.flatMap (fun k => (queue k).take (count k))).filter (fun x => key x = k) = [] := by
    intro keys absent
    rw [List.filter_eq_nil_iff]
    intro x listed
    obtain ⟨k',here,taken⟩ := List.mem_flatMap.mp listed
    have belongs := own k' x (List.mem_of_mem_take taken)
    simpa using fun same => absent (by rwa [← same,belongs])
  induction keys with
  | nil => cases inside
  | cons first rest ih =>
    obtain ⟨apart,single⟩ := List.nodup_cons.mp single
    rw [List.flatMap_cons,List.filter_append]
    by_cases here : k = first
    · subst here
      rw [others rest apart,List.append_nil,List.filter_eq_self]
      exact fun x listed => by simpa using own k x (List.mem_of_mem_take listed)
    · rw [ih single ((List.mem_cons.mp inside).resolve_left here),List.filter_eq_nil_iff.mpr,List.nil_append]
      intro x listed
      simpa using fun same : key x = k => here (same.symm.trans (own first x (List.mem_of_mem_take listed)))

end Keyed

end QueuePacking
