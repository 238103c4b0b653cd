import Mathlib.Algebra.Order.Field.Basic
import Mathlib.Data.List.Basic
import Mathlib.Tactic.Linarith

/-! A sliding window over a log of times, and what it lets through in any window. -/

namespace SlidingWindow
variable {α : Type} [Field α] [LinearOrder α]

def recent (width now : α) (log : List α) : List α := log.filter (fun t => now - t < width)

structure Bounded (width : α) (most : Nat) (log : List α) : Prop where
  left : ∀ t, log.countP (fun s => t ≤ s ∧ s < t + width) ≤ most
  right : ∀ t, log.countP (fun s => t < s ∧ s ≤ t + width) ≤ most

structure Keeps (width : α) (most : Nat) (log kept : List α) (clock : α) : Prop where
  past : ∀ s ∈ log, s ≤ clock
  earlier : ∀ s ∈ kept, s ≤ clock
  ordered : kept.Pairwise (· ≤ ·)
  same : ∀ now, clock ≤ now → recent width now kept = recent width now log
  bounded : Bounded width most log

section Laws
variable [IsStrictOrderedRing α] {width clock now : α} {most : Nat} {log kept : List α}

omit [IsStrictOrderedRing α] in
theorem keepsNil : Keeps width most ([] : List α) [] clock where
  past := by simp
  earlier := by simp
  ordered := .nil
  same _ _ := rfl
  bounded := ⟨by simp,by simp⟩

omit [IsStrictOrderedRing α] in
theorem keepsLater (keeps : Keeps width most log kept clock) (later : clock ≤ now) :
    Keeps width most log kept now :=
  ⟨fun s inside => (keeps.past s inside).trans later,fun s inside => (keeps.earlier s inside).trans later,
    keeps.ordered,fun t after => keeps.same t (later.trans after),keeps.bounded⟩

theorem recentRecent (later : clock ≤ now) (log : List α) :
    recent width now (recent width clock log) = recent width now log := by
  rw [recent,recent,List.filter_filter]
  refine List.filter_congr (fun s _ => ?_)
  have narrower : now - s < width → clock - s < width := by
    intro seen
    linarith
  simpa using narrower

theorem keepsRecent (keeps : Keeps width most log kept clock) :
    Keeps width most log (recent width clock kept) clock where
  past := keeps.past
  earlier s inside := keeps.earlier s (List.mem_filter.mp inside).1
  ordered := keeps.ordered.filter _
  same now later := (recentRecent later kept).trans (keeps.same now later)
  bounded := keeps.bounded

theorem keepsStale (keeps : Keeps width most log kept clock)
    (stale : ∀ last ∈ kept.getLast?, last < clock - width) : Keeps width most log [] clock where
  past := keeps.past
  earlier := by simp
  ordered := .nil
  same now later := by
    rw [← keeps.same now later]
    refine (List.filter_eq_nil_iff.mpr (fun s inside => ?_)).symm
    obtain ⟨front,last,rfl⟩ := List.eq_nil_or_concat' kept |>.resolve_left (List.ne_nil_of_mem inside)
    have gone := stale last (by simp)
    have before : s ≤ last := by
      rcases List.mem_append.mp inside with inside | inside
      · exact (List.pairwise_append.mp keeps.ordered).2.2 s inside last (List.mem_singleton_self _)
      · exact (List.mem_singleton.mp inside).le
    simp only [decide_eq_true_eq,not_lt]
    linarith
  bounded := keeps.bounded

theorem boundedAppend (keeps : Keeps width most log kept clock) (room : (recent width clock log).length < most) :
    Bounded width most (log ++ [clock]) := by
  -- either way, what the window has of the log is recent when the clock is in it
  have counted : ∀ inside : α → Bool, (inside clock = true → ∀ s ∈ log, inside s = true → clock - s < width) →
      log.countP inside ≤ most → (log ++ [clock]).countP inside ≤ most := by
    intro inside seen before
    rw [List.countP_append,List.countP_singleton]
    split
    · rename_i reached
      have few : log.countP inside ≤ (recent width clock log).length := by
        rw [recent,← List.countP_eq_length_filter]
        exact List.countP_mono_left (fun s listed hit => decide_eq_true (seen reached s listed hit))
      omega
    · exact before
  refine ⟨fun t => counted _ (fun reached s _ hit => ?_) (keeps.bounded.left t),
    fun t => counted _ (fun reached s _ hit => ?_) (keeps.bounded.right t)⟩
  · simp only [decide_eq_true_eq] at reached hit
    linarith [reached.2,hit.1]
  · simp only [decide_eq_true_eq] at reached hit
    linarith [reached.2,hit.1]

theorem keepsAppend (keeps : Keeps width most log kept clock) (room : (recent width clock log).length < most) :
    Keeps width most (log ++ [clock]) (kept ++ [clock]) clock where
  past s inside := by
    rcases List.mem_append.mp inside with inside | inside
    · exact keeps.past s inside
    · exact (List.mem_singleton.mp inside).le
  earlier s inside := by
    rcases List.mem_append.mp inside with inside | inside
    · exact keeps.earlier s inside
    · exact (List.mem_singleton.mp inside).le
  ordered := by
    refine List.pairwise_append.mpr ⟨keeps.ordered,List.pairwise_singleton _ _,fun s inside t last => ?_⟩
    rw [List.mem_singleton.mp last]
    exact keeps.earlier s inside
  same now later := by
    simp only [recent,List.filter_append]
    exact congrArg (· ++ _) (keeps.same now later)
  bounded := boundedAppend keeps room

theorem recentCount (keeps : Keeps width most log kept clock) :
    (recent width clock log).length = log.countP (fun s => clock - width < s ∧ s ≤ clock) := by
  rw [recent,← List.countP_eq_length_filter]
  refine List.countP_congr (fun s inside => ?_)
  have past := keeps.past s inside
  simp only [decide_eq_true_eq]
  constructor
  · intro seen
    exact ⟨by linarith,past⟩
  · intro seen
    linarith [seen.1]

theorem recentFull (keeps : Keeps width most log kept clock) (full : most ≤ (recent width clock log).length) :
    log.countP (fun s => clock - width < s ∧ s ≤ clock) = most := by
  refine le_antisymm ?_ (full.trans (recentCount keeps).le)
  have bounded := keeps.bounded.right (clock - width)
  rwa [sub_add_cancel] at bounded

end Laws

end SlidingWindow
