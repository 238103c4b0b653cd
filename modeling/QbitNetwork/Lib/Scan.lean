/-! Lists read item by item: by a machine that may refuse, with codes none of whose words goes on where
another ends, and by a reader that changes its way of reading with what it reads. -/

namespace Scan
variable {σ α : Type} (read : σ → α → Option σ)

def Stops (s : σ) (rest : List α) : Prop := ∀ x, rest.head? = some x → read s x = none

theorem stopsCons {s : σ} {x : α} {rest : List α} (refused : read s x = none) :
    Stops read s (x :: rest) := by
  intro y head
  cases head
  exact refused

theorem wordUnique {start final : σ} {a b t u : List α} (first : a.foldlM read start = some final)
    (second : b.foldlM read start = some final) (stopsT : Stops read final t)
    (stopsU : Stops read final u) (same : a ++ t = b ++ u) : a = b ∧ t = u := by
  have longer : ∀ {a c t : List α}, a.foldlM read start = some final →
      (a ++ c).foldlM read start = some final → Stops read final (c ++ t) → c = [] := by
    intro a c t first whole stops
    cases c with
    | nil => rfl
    | cons x rest =>
      rw [List.foldlM_append,first] at whole
      simp only [bind,Option.bind,List.foldlM_cons,stops x rfl] at whole
      contradiction
  rcases List.append_eq_append_iff.mp same with ⟨c,rfl,rfl⟩ | ⟨c,rfl,rfl⟩
  · rw [longer first second stopsT,List.append_nil,List.nil_append]
    exact ⟨rfl,rfl⟩
  · rw [longer second first stopsU,List.append_nil,List.nil_append]
    exact ⟨rfl,rfl⟩

theorem foldSteady {s : σ} {items : List α} (steady : ∀ x ∈ items, read s x = some s) :
    items.foldlM read s = some s := by
  induction items with
  | nil => rfl
  | cons x rest ih =>
    rw [List.foldlM_cons,steady x (List.mem_cons_self ..)]
    exact ih (fun y inside => steady y (List.mem_cons_of_mem _ inside))

theorem foldThrough {s t u : σ} {a b : List α} (first : a.foldlM read s = some t)
    (second : b.foldlM read t = some u) : (a ++ b).foldlM read s = some u := by
  rw [List.foldlM_append,first]
  exact second

end Scan

namespace Switching
variable {σ α : Type} (next : σ → α → σ) (fits : σ → α → Prop)

def Readable : σ → List α → Prop
  | _,[] => True
  | s,x :: rest => fits s x ∧ Readable (next s x) rest

theorem readableAppend {xs ys : List α} (s : σ) :
    Readable next fits s (xs ++ ys) ↔ Readable next fits s xs ∧ Readable next fits (xs.foldl next s) ys := by
  induction xs generalizing s with
  | nil => simp [Readable]
  | cons x xs ih => simp only [List.cons_append,Readable,ih,List.foldl_cons,and_assoc]

theorem readableSteady {s : σ} {xs : List α} (steady : ∀ x ∈ xs, fits s x ∧ next s x = s) :
    Readable next fits s xs ∧ xs.foldl next s = s := by
  induction xs with
  | nil => exact ⟨trivial,rfl⟩
  | cons x xs ih =>
    obtain ⟨here,same⟩ := steady x List.mem_cons_self
    obtain ⟨later,final⟩ := ih (fun y inside => steady y (List.mem_cons_of_mem x inside))
    refine ⟨⟨here,?_⟩,?_⟩
    · rw [same]
      exact later
    · rw [List.foldl_cons,same]
      exact final

end Switching
