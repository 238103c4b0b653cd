/-! Computations on an explicit state that keep the state they had reached when they
raise, and the rules for running them over a list. -/

structure Raised (ε σ : Type) where
  exception : ε
  state : σ

namespace Outcome
variable {ε σ τ α : Type}

def raise (exception : ε) (s : σ) : Except (Raised ε σ) σ := .error ⟨exception,s⟩

def stateOf : Except (Raised ε σ) σ → σ
  | .ok s => s
  | .error r => r.state

def within (put : τ → σ) : Except (Raised ε τ) τ → Except (Raised ε σ) σ
  | .ok t => .ok (put t)
  | .error r => .error ⟨r.exception,put r.state⟩

@[simp] theorem withinOk (put : τ → σ) (x : Except (Raised ε τ) τ) (s : σ) :
    within put x = .ok s ↔ ∃ t, x = .ok t ∧ put t = s := by
  cases x <;> simp [within]

@[simp] theorem withinReturns (put : τ → σ) (t : τ) :
    within put (.ok t : Except (Raised ε τ) τ) = .ok (put t) := rfl

@[simp] theorem withinError (put : τ → σ) (x : Except (Raised ε τ) τ) (r : Raised ε σ) :
    within put x = .error r ↔ ∃ r', x = .error r' ∧ (⟨r'.exception,put r'.state⟩ : Raised ε σ) = r := by
  cases x <;> simp [within]

theorem stateOfWithin (put : τ → σ) (x : Except (Raised ε τ) τ) :
    stateOf (within put x) = put (stateOf x) := by
  cases x <;> rfl

@[simp] theorem raiseOk (exception : ε) (s t : σ) : ¬raise exception s = .ok t := by simp [raise]

@[simp] theorem raiseError (exception : ε) (s : σ) (r : Raised ε σ) :
    raise exception s = .error r ↔ (⟨exception,s⟩ : Raised ε σ) = r := by simp [raise]

@[simp] theorem bindOk {β γ δ : Type} (x : Except δ β) (f : β → Except δ γ) (c : γ) :
    x >>= f = .ok c ↔ ∃ b, x = .ok b ∧ f b = .ok c := by
  cases x <;> simp [bind,Except.bind]

theorem bindError {β γ δ : Type} (x : Except δ β) (f : β → Except δ γ) (e : δ) :
    x >>= f = .error e ↔ x = .error e ∨ ∃ b, x = .ok b ∧ f b = .error e := by
  cases x <;> simp [bind,Except.bind]

theorem bindRaises {β : Type} {x : Except (Raised ε σ) β} {f : β → Except (Raised ε σ) σ} {s : σ}
    (first : ∀ r, x = .error r → r.state = s) (next : ∀ b r, f b = .error r → r.state = s)
    {r : Raised ε σ} (run : x >>= f = .error r) : r.state = s := by
  rcases (bindError ..).mp run with raised | ⟨b,-,raised⟩
  · exact first r raised
  · exact next b r raised

theorem forMOk {β δ : Type} {f : β → Except δ Unit} {xs : List β} (run : xs.forM f = .ok ()) :
    ∀ x ∈ xs, f x = .ok () := by
  induction xs with
  | nil => simp
  | cons x rest ih =>
    change (f x >>= fun _ => rest.forM f) = .ok () at run
    obtain ⟨_,here,later⟩ := bindOk .. |>.mp run
    intro other inside
    rcases List.mem_cons.mp inside with rfl | inside
    · exact here
    · exact ih later other inside

theorem mapMOk {β γ δ : Type} {f : β → Except δ γ} {xs : List β} {ys : List γ} (run : xs.mapM f = .ok ys) :
    ∀ x ∈ xs, ∃ y ∈ ys, f x = .ok y := by
  induction xs generalizing ys with
  | nil => simp
  | cons x rest ih =>
    rw [List.mapM_cons,bindOk] at run
    obtain ⟨y,here,run⟩ := run
    obtain ⟨later,ran,made⟩ := (bindOk ..).mp run
    cases made
    intro other inside
    rcases List.mem_cons.mp inside with rfl | inside
    · exact ⟨y,List.mem_cons_self ..,here⟩
    · obtain ⟨y',listed,there⟩ := ih ran other inside
      exact ⟨y',List.mem_cons_of_mem _ listed,there⟩

theorem mapMReturns {β γ δ : Type} {f : β → Except δ γ} {xs : List β} {ys : List γ} (run : xs.mapM f = .ok ys) :
    ys.length = xs.length ∧ ∀ y ∈ ys, ∃ x ∈ xs, f x = .ok y := by
  induction xs generalizing ys with
  | nil =>
    cases run
    simp
  | cons x rest ih =>
    rw [List.mapM_cons,bindOk] at run
    obtain ⟨y,here,run⟩ := run
    obtain ⟨later,ran,made⟩ := (bindOk ..).mp run
    cases made
    obtain ⟨length,origin⟩ := ih ran
    refine ⟨by rw [List.length_cons,List.length_cons,length],fun other inside => ?_⟩
    rcases List.mem_cons.mp inside with rfl | inside
    · exact ⟨x,List.mem_cons_self ..,here⟩
    · obtain ⟨x',listed,there⟩ := origin other inside
      exact ⟨x',List.mem_cons_of_mem _ listed,there⟩

theorem foldStepped {f : σ → α → Except (Raised ε σ) σ} {xs : List α} {s t : σ} (run : xs.foldlM f s = .ok t) :
    ∀ x ∈ xs, ∃ u v, f u x = .ok v := by
  induction xs generalizing s with
  | nil => simp
  | cons x rest ih =>
    rw [List.foldlM_cons,bindOk] at run
    obtain ⟨mid,first,run⟩ := run
    intro other inside
    rcases List.mem_cons.mp inside with rfl | later
    · exact ⟨s,mid,first⟩
    · exact ih run other later

theorem foldTurn {step : σ → α → Except (Raised ε σ) σ} {xs : List α} {s t : σ} (run : xs.foldlM step s = .ok t)
    {i : Nat} {x : α} (found : xs[i]? = some x) : ∃ u v, (xs.take i).foldlM step s = .ok u ∧ step u x = .ok v ∧
      (xs.drop (i + 1)).foldlM step v = .ok t := by
  obtain ⟨within,rfl⟩ := List.getElem?_eq_some_iff.mp found
  rw [← List.take_append_drop i xs,List.drop_eq_getElem_cons within,List.foldlM_append,bindOk] at run
  obtain ⟨u,before,run⟩ := run
  rw [List.foldlM_cons,bindOk] at run
  obtain ⟨v,turn,after⟩ := run
  exact ⟨u,v,before,turn,after⟩

theorem foldInvariant {step : σ → α → Except (Raised ε σ) σ} (kept : σ → Prop)
    (steps : ∀ s x t, kept s → step s x = .ok t → kept t) {xs : List α} {s t : σ}
    (start : kept s) (run : xs.foldlM step s = .ok t) : kept t := by
  induction xs generalizing s with
  | nil => cases run; exact start
  | cons x xs ih =>
    rw [List.foldlM_cons,bindOk] at run
    obtain ⟨mid,first,rest⟩ := run
    exact ih (steps s x mid start first) rest

theorem foldInvariantMem {step : σ → α → Except (Raised ε σ) σ} (kept : σ → Prop) {xs : List α}
    (steps : ∀ s, ∀ x ∈ xs, ∀ t, kept s → step s x = .ok t → kept t) {s t : σ}
    (start : kept s) (run : xs.foldlM step s = .ok t) : kept t := by
  induction xs generalizing s with
  | nil => cases run; exact start
  | cons x xs ih =>
    rw [List.foldlM_cons,bindOk] at run
    obtain ⟨mid,first,rest⟩ := run
    exact ih (fun s y mem => steps s y (List.mem_cons_of_mem x mem))
      (steps s x (List.mem_cons_self ..) mid start first) rest

theorem foldInvariantAt {step : σ → α → Except (Raised ε σ) σ} (kept : σ → Prop) {xs : List α}
    {s t : σ} (steps : ∀ i x u v, xs[i]? = some x → (xs.take i).foldlM step s = .ok u → kept u →
      step u x = .ok v → kept v) (start : kept s) (run : xs.foldlM step s = .ok t) : kept t := by
  induction xs generalizing s with
  | nil => cases run; exact start
  | cons x xs ih =>
    rw [List.foldlM_cons,bindOk] at run
    obtain ⟨mid,first,rest⟩ := run
    refine ih (fun i y u v found reached => ?_) (steps 0 x s mid rfl rfl start first) rest
    refine steps (i + 1) y u v found ?_
    rw [List.take_succ_cons,List.foldlM_cons,bindOk]
    exact ⟨mid,first,reached⟩

theorem foldSimulates {step : σ → α → Except (Raised ε σ) σ} (view : σ → τ) (small : τ → α → τ)
    (steps : ∀ s x t, step s x = .ok t → view t = small (view s) x) {xs : List α} {s t : σ}
    (run : xs.foldlM step s = .ok t) : view t = xs.foldl small (view s) := by
  induction xs generalizing s with
  | nil => cases run; rfl
  | cons x xs ih =>
    rw [List.foldlM_cons,bindOk] at run
    obtain ⟨mid,first,rest⟩ := run
    rw [ih rest,steps s x mid first,List.foldl_cons]

theorem foldProjects {step : σ → α → Except (Raised ε σ) σ} (view : σ → τ) (small : τ → α → Except (Raised ε τ) τ)
    (steps : ∀ s x t, step s x = .ok t → small (view s) x = .ok (view t)) {xs : List α} {s t : σ}
    (run : xs.foldlM step s = .ok t) : xs.foldlM small (view s) = .ok (view t) := by
  induction xs generalizing s with
  | nil => cases run; rfl
  | cons x xs ih =>
    rw [List.foldlM_cons,bindOk] at run
    obtain ⟨mid,first,rest⟩ := run
    rw [List.foldlM_cons,steps s x mid first]
    exact ih rest

theorem foldMirrors {step : σ → α → Except (Raised ε σ) σ} (view : σ → τ) (small : τ → α → Option τ)
    (steps : ∀ s x, (step s x).toOption.map view = small (view s) x) (xs : List α) (s : σ) :
    (xs.foldlM step s).toOption.map view = xs.foldlM small (view s) := by
  induction xs generalizing s with
  | nil => rfl
  | cons x xs ih =>
    rw [List.foldlM_cons,List.foldlM_cons,← steps s x]
    cases step s x with
    | ok mid => exact ih mid
    | error r => rfl

theorem foldTake {step : σ → α → Except (Raised ε σ) σ} {xs : List α} {s t : σ}
    (run : xs.foldlM step s = .ok t) (i : Nat) : ∃ u, (xs.take i).foldlM step s = .ok u := by
  rw [← List.take_append_drop i xs,List.foldlM_append,bindOk] at run
  obtain ⟨u,first,-⟩ := run
  exact ⟨u,first⟩

theorem stateOfBindValue {β : Type} (holds : σ → Prop) {x : Except (Raised ε σ) β}
    {f : β → Except (Raised ε σ) σ} (raised : ∀ r, x = .error r → holds r.state)
    (next : ∀ b, x = .ok b → holds (stateOf (f b))) : holds (stateOf (x >>= f)) := by
  cases x with
  | error r => exact raised r rfl
  | ok b => exact next b rfl

theorem stateOfBind (holds : σ → Prop) {x : Except (Raised ε σ) σ} {f : σ → Except (Raised ε σ) σ}
    (first : holds (stateOf x)) (next : ∀ s, x = .ok s → holds (stateOf (f s))) :
    holds (stateOf (x >>= f)) := by
  cases x with
  | error r => exact first
  | ok s => exact next s rfl

theorem leavesBind (kept : σ → Prop) {x : Except (Raised ε σ) σ} {f : σ → Except (Raised ε σ) σ}
    (first : kept (stateOf x)) (next : ∀ s, x = .ok s → kept s → kept (stateOf (f s))) :
    kept (stateOf (x >>= f)) :=
  stateOfBind kept first (fun s run => next s run (by rw [run] at first; exact first))

/- What a computation leaves: `returns` of the state it returns, `raises` of the exception
and the state where it raises. -/
def Ends (returns : σ → Prop) (raises : ε → σ → Prop) : Except (Raised ε σ) σ → Prop
  | .ok s => returns s
  | .error r => raises r.exception r.state

theorem endsBind (middle : σ → Prop) {returns : σ → Prop} {raises : ε → σ → Prop} {x : Except (Raised ε σ) σ}
    {f : σ → Except (Raised ε σ) σ} (first : Ends middle raises x)
    (next : ∀ s, middle s → Ends returns raises (f s)) : Ends returns raises (x >>= f) := by
  cases x with
  | error r => exact first
  | ok s => exact next s first

theorem endsMono {returns returns' : σ → Prop} {raises raises' : ε → σ → Prop}
    {x : Except (Raised ε σ) σ} (ends : Ends returns raises x) (returned : ∀ s, returns s → returns' s)
    (raised : ∀ e s, raises e s → raises' e s) : Ends returns' raises' x := by
  cases x with
  | error r => exact raised _ _ ends
  | ok s => exact returned s ends

theorem endsSame {holds : σ → Prop} {x : Except (Raised ε σ) σ} (left : holds (stateOf x)) :
    Ends holds (fun _ => holds) x := by
  cases x with
  | error r => exact left
  | ok s => exact left

structure Settles (view : α → σ) (kept : σ → Prop) (x : Except (Raised ε σ) α) : Prop where
  returns : ∀ a, x = .ok a → kept (view a)
  raises : ∀ r, x = .error r → kept r.state

theorem settlesOk {view : α → σ} {kept : σ → Prop} {a : α} (here : kept (view a)) :
    Settles view kept (.ok a : Except (Raised ε σ) α) :=
  ⟨fun _ same => Except.ok.inj same ▸ here,(fun _ same => nomatch same)⟩

theorem settlesError {view : α → σ} {kept : σ → Prop} {r : Raised ε σ} (here : kept r.state) :
    Settles view kept (.error r) :=
  ⟨(fun _ same => nomatch same),fun _ same => Except.error.inj same ▸ here⟩

theorem settlesBind {β : Type} {view : β → σ} {kept : σ → Prop} {x : Except (Raised ε σ) α}
    {f : α → Except (Raised ε σ) β} (raises : ∀ r, x = .error r → kept r.state)
    (next : ∀ a, x = .ok a → Settles view kept (f a)) : Settles view kept (x >>= f) := by
  cases x with
  | ok a => exact next a rfl
  | error r => exact settlesError (raises r rfl)

theorem Settles.imp {view : α → σ} {kept kept' : σ → Prop} {x : Except (Raised ε σ) α}
    (settles : Settles view kept x) (weaker : ∀ s, kept s → kept' s) : Settles view kept' x :=
  ⟨fun a same => weaker _ (settles.returns a same),fun r same => weaker _ (settles.raises r same)⟩

theorem foldEnds {step : σ → α → Except (Raised ε σ) σ} (kept : σ → Prop) (raises : ε → σ → Prop)
    {xs : List α} {s : σ} (steps : ∀ s, ∀ x ∈ xs, kept s → Ends kept raises (step s x))
    (start : kept s) : Ends kept raises (xs.foldlM step s) := by
  induction xs generalizing s with
  | nil => exact start
  | cons x xs ih =>
    rw [List.foldlM_cons]
    refine endsBind kept (steps s x (List.mem_cons_self ..) start) (fun mid reached => ?_)
    exact ih (fun s y inside => steps s y (List.mem_cons_of_mem _ inside)) reached

theorem foldLeaves {step : σ → α → Except (Raised ε σ) σ} (kept : σ → Prop) {xs : List α} {s : σ}
    (steps : ∀ s, ∀ x ∈ xs, kept s → kept (stateOf (step s x))) (start : kept s) :
    kept (stateOf (xs.foldlM step s)) := by
  induction xs generalizing s with
  | nil => exact start
  | cons x xs ih =>
    rw [List.foldlM_cons]
    refine leavesBind kept (steps s x (List.mem_cons_self ..) start) (fun mid _ first => ?_)
    exact ih (fun s y inside => steps s y (List.mem_cons_of_mem _ inside)) first

theorem foldStages {step : σ → α → Except (Raised ε σ) σ} (stage : Nat → σ → Prop) {xs : List α}
    {s : σ} (steps : ∀ i x u, xs[i]? = some x → stage i u → stage (i + 1) (stateOf (step u x)))
    (start : stage 0 s) : ∃ n ≤ xs.length, stage n (stateOf (xs.foldlM step s)) ∧
      ∀ t, xs.foldlM step s = .ok t → n = xs.length := by
  induction xs generalizing s stage with
  | nil => exact ⟨0,Nat.le_refl _,start,fun _ _ => rfl⟩
  | cons x xs ih =>
    have first := steps 0 x s rfl start
    rw [List.foldlM_cons]
    cases found : step s x with
    | error r =>
      rw [found] at first
      exact ⟨1,by simp,first,fun t run => by cases run⟩
    | ok mid =>
      rw [found] at first
      obtain ⟨n,below,reached,whole⟩ := ih (fun i => stage (i + 1))
        (fun i y u here holds => steps (i + 1) y u here holds) first
      refine ⟨n + 1,by simpa using below,reached,fun t run => ?_⟩
      rw [List.length_cons,whole t run]

theorem foldKeeps {step : σ → α → Except (Raised ε σ) σ} (view : σ → τ)
    (steps : ∀ s x, view (stateOf (step s x)) = view s) (xs : List α) (s : σ) :
    view (stateOf (xs.foldlM step s)) = view s := by
  induction xs generalizing s with
  | nil => rfl
  | cons x xs ih =>
    rw [List.foldlM_cons]
    have first := steps s x
    cases found : step s x with
    | error r => rw [found] at first; exact first
    | ok mid =>
      rw [found] at first
      exact (ih mid).trans first

section Yields
variable {β : Type} {meets meets' : α → Prop} {raises : ε → Prop} {x : Except ε α}

end Yields

end Outcome
