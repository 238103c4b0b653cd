import Mathlib.Algebra.Order.Field.Basic
import Mathlib.Tactic.Linarith
import Mathlib.Tactic.Ring

/-! A token bucket, and what it grants in any window of time. -/

structure TokenBucket (α : Type) where
  tokens : α
  lastRefill : α

namespace TokenBucket
variable {α : Type} [Field α] [LinearOrder α]

def refill (rate burst now : α) (b : TokenBucket α) : TokenBucket α :=
  if 0 < now - b.lastRefill then ⟨min burst (b.tokens + (now - b.lastRefill) * rate),now⟩ else b

def take (rate burst now : α) (b : TokenBucket α) : Bool × TokenBucket α :=
  let b := b.refill rate burst now
  if 1 ≤ b.tokens then (true,{ b with tokens := b.tokens - 1 }) else (false,b)

def within (log : List α) (t T : α) : Nat := log.countP (fun s => t ≤ s ∧ s ≤ t + T)

def Bounded (rate burst : α) (log : List α) : Prop :=
  ∀ t T, 0 ≤ T → (within log t T : α) ≤ burst + rate * T

structure Accounts (rate burst : α) (log : List α) (b : TokenBucket α) : Prop where
  past : ∀ s ∈ log, s ≤ b.lastRefill
  tokens : 0 ≤ b.tokens
  full : b.tokens ≤ burst
  since : ∀ t, t ≤ b.lastRefill →
    (log.countP (fun s => t ≤ s) : α) + b.tokens ≤ burst + rate * (b.lastRefill - t)
  bounded : Bounded rate burst log

section Laws
variable [IsStrictOrderedRing α] {rate burst now : α} {log : List α} {b : TokenBucket α}

theorem boundedNil (positive : 0 ≤ rate) (room : 0 ≤ burst) : Bounded rate burst ([] : List α) := by
  intro t T later
  simp only [within,List.countP_nil,Nat.cast_zero]
  positivity

theorem accountsFull (positive : 0 ≤ rate) (room : 0 ≤ burst) (now : α) :
    Accounts rate burst [] ⟨burst,now⟩ where
  past := by simp
  tokens := room
  full := le_refl burst
  since t early := by
    simp only [List.countP_nil,Nat.cast_zero]
    have := mul_nonneg positive (sub_nonneg.mpr early)
    linarith
  bounded := boundedNil positive room

theorem refillTime (ordered : b.lastRefill ≤ now) : (b.refill rate burst now).lastRefill = now := by
  unfold refill
  split
  · rfl
  · exact le_antisymm ordered (by linarith)

theorem refillAccounts (positive : 0 ≤ rate) (accounts : Accounts rate burst log b)
    (ordered : b.lastRefill ≤ now) : Accounts rate burst log (b.refill rate burst now) := by
  unfold refill
  split
  · have gained := mul_nonneg (sub_nonneg.mpr ordered) positive
    have room := accounts.tokens.trans accounts.full
    refine ⟨fun s inside => (accounts.past s inside).trans ordered,
      le_min room (by linarith [accounts.tokens]),min_le_left _ _,fun t early => ?_,accounts.bounded⟩
    by_cases before : t ≤ b.lastRefill
    · have held := accounts.since t before
      have least := min_le_right burst (b.tokens + (now - b.lastRefill) * rate)
      simp only
      nlinarith
    · -- nothing has been granted since the last refill
      have none : log.countP (fun s => t ≤ s) = 0 := by
        rw [List.countP_eq_zero]
        intro s inside
        simpa using lt_of_le_of_lt (accounts.past s inside) (not_le.mp before)
      have least := min_le_left burst (b.tokens + (now - b.lastRefill) * rate)
      have later := mul_nonneg positive (sub_nonneg.mpr early)
      simp only [none,Nat.cast_zero]
      linarith
  · exact accounts

omit [IsStrictOrderedRing α] in
theorem withinLe (log : List α) (t T : α) : within log t T ≤ log.countP (fun s => t ≤ s) := by
  refine List.countP_mono_left (fun s _ inside => ?_)
  simp only [decide_eq_true_eq] at inside ⊢
  exact inside.1

theorem grantAccounts (positive : 0 ≤ rate) (accounts : Accounts rate burst log b) (enough : 1 ≤ b.tokens) :
    Accounts rate burst (log ++ [b.lastRefill]) { b with tokens := b.tokens - 1 } := by
  have counted : ∀ t, t ≤ b.lastRefill →
      ((log ++ [b.lastRefill]).countP (fun s => t ≤ s) : α) + (b.tokens - 1) ≤
        burst + rate * (b.lastRefill - t) := by
    intro t early
    have held := accounts.since t early
    rw [List.countP_append]
    simp only [List.countP_singleton,early,decide_true,if_true]
    push_cast
    linarith
  refine ⟨?_,by simp only; linarith,by simp only; linarith [accounts.full],counted,fun t T later => ?_⟩
  · intro s inside
    rcases List.mem_append.mp inside with inside | inside
    · exact accounts.past s inside
    · exact (List.mem_singleton.mp inside).le
  by_cases inside : t ≤ b.lastRefill ∧ b.lastRefill ≤ t + T
  · -- the window reaches the present, so that all since its start counts
    have few : (within (log ++ [b.lastRefill]) t T : α) ≤
        ((log ++ [b.lastRefill]).countP (fun s => t ≤ s) : α) := by
      exact_mod_cast withinLe ..
    have held := counted t inside.1
    have short : rate * (b.lastRefill - t) ≤ rate * T :=
      mul_le_mul_of_nonneg_left (by linarith [inside.2]) positive
    linarith
  · have same : within (log ++ [b.lastRefill]) t T = within log t T := by
      rw [within,List.countP_append,List.countP_singleton]
      simp [inside,within]
    rw [same]
    exact accounts.bounded t T later

theorem spendAccounts (accounts : Accounts rate burst log b) (enough : 1 ≤ b.tokens) :
    Accounts rate burst log { b with tokens := b.tokens - 1 } := by
  refine ⟨accounts.past,by simp only; linarith,by simp only; linarith [accounts.full],fun t early => ?_,
    accounts.bounded⟩
  have held := accounts.since t early
  simp only
  linarith

theorem takeAccounts (positive : 0 ≤ rate) (accounts : Accounts rate burst log b)
    (ordered : b.lastRefill ≤ now) :
    Accounts rate burst log (b.take rate burst now).2 ∧
      ((b.take rate burst now).1 = true → Accounts rate burst (log ++ [now]) (b.take rate burst now).2) := by
  have refilled := refillAccounts positive accounts ordered
  have time := @refillTime _ _ _ _ rate burst _ _ ordered
  simp only [take]
  split
  · rename_i enough
    have granted := grantAccounts positive refilled enough
    have spent := spendAccounts refilled enough
    rw [time] at granted spent
    simp only [time]
    exact ⟨spent,fun _ => granted⟩
  · exact ⟨refilled,fun granted => Bool.noConfusion granted⟩

theorem laterAccounts (positive : 0 ≤ rate) (accounts : Accounts rate burst log b)
    (ordered : b.lastRefill ≤ now) : Accounts rate burst log { b with lastRefill := now } := by
  refine ⟨fun s inside => (accounts.past s inside).trans ordered,accounts.tokens,accounts.full,
    fun t early => ?_,accounts.bounded⟩
  simp only
  by_cases before : t ≤ b.lastRefill
  · have held := accounts.since t before
    have longer : rate * (b.lastRefill - t) ≤ rate * (now - t) :=
      mul_le_mul_of_nonneg_left (by linarith) positive
    linarith
  · have none : log.countP (fun s => t ≤ s) = 0 := by
      rw [List.countP_eq_zero]
      intro s inside
      simpa using lt_of_le_of_lt (accounts.past s inside) (not_le.mp before)
    have later := mul_nonneg positive (sub_nonneg.mpr early)
    simp only [none,Nat.cast_zero]
    linarith [accounts.full]

theorem refillFull (tokens : 0 ≤ b.tokens) (later : b.lastRefill < now)
    (long : burst ≤ (now - b.lastRefill) * rate) : b.refill rate burst now = ⟨burst,now⟩ := by
  rw [refill,if_pos (sub_pos.mpr later),min_eq_left (by linarith)]

theorem takeTime (ordered : b.lastRefill ≤ now) : (b.take rate burst now).2.lastRefill = now := by
  simp only [take]
  split <;> exact refillTime ordered

end Laws

/- The level at time `t` by the law of refill: a bucket that starts full and gives one token at
each time of the log, the latest first. -/
def level (rate burst : α) : List α → α → α
  | [],_ => burst
  | s :: earlier,t => min burst (level rate burst earlier s - 1 + (t - s) * rate)

def Tracks (rate burst : α) (log : List α) (b : TokenBucket α) : Prop :=
  ∀ t, b.lastRefill ≤ t → level rate burst log t = min burst (b.tokens + (t - b.lastRefill) * rate)

section Levels
variable [IsStrictOrderedRing α] {rate burst now : α} {log : List α} {b : TokenBucket α}

theorem tracksFull (positive : 0 ≤ rate) (full : ∀ t, now ≤ t → level rate burst log t = burst) :
    Tracks rate burst log ⟨burst,now⟩ := by
  intro t later
  have gained := mul_nonneg (sub_nonneg.mpr later) positive
  rw [full t later,min_eq_left (by simp only; linarith)]

theorem fullTracks (positive : 0 ≤ rate) (tracks : Tracks rate burst log ⟨burst,now⟩) {t : α} (later : now ≤ t) :
    level rate burst log t = burst := by
  have gained := mul_nonneg (sub_nonneg.mpr later) positive
  rw [tracks t later,min_eq_left (by simp only; linarith)]

theorem refillTracks (positive : 0 ≤ rate) (tracks : Tracks rate burst log b) (ordered : b.lastRefill ≤ now) :
    Tracks rate burst log (b.refill rate burst now) := by
  unfold refill
  split
  · intro t later
    simp only at later ⊢
    have gained := mul_nonneg (sub_nonneg.mpr later) positive
    -- to refill twice is to refill once
    have once : b.tokens + (now - b.lastRefill) * rate + (t - now) * rate = b.tokens + (t - b.lastRefill) * rate := by
      ring
    rw [tracks t (ordered.trans later),← once]
    rcases le_total burst (b.tokens + (now - b.lastRefill) * rate) with more | less
    · rw [min_eq_left more,min_eq_left (by linarith),min_eq_left (by linarith)]
    · rw [min_eq_right less]
  · exact tracks

omit [IsStrictOrderedRing α] in
theorem tracksLevel (tracks : Tracks rate burst log b) (full : b.tokens ≤ burst) :
    level rate burst log b.lastRefill = b.tokens := by
  rw [tracks _ (le_refl _),sub_self,zero_mul,add_zero,min_eq_right full]

omit [IsStrictOrderedRing α] in
theorem grantTracks (tracks : Tracks rate burst log b) (full : b.tokens ≤ burst) :
    Tracks rate burst (b.lastRefill :: log) { b with tokens := b.tokens - 1 } := by
  intro t _
  rw [level,tracksLevel tracks full]

theorem takeTracks (positive : 0 ≤ rate) (tracks : Tracks rate burst log b) (full : b.tokens ≤ burst)
    (ordered : b.lastRefill ≤ now) :
    ((b.take rate burst now).1 = true ↔ 1 ≤ level rate burst log now) ∧
      Tracks rate burst (if (b.take rate burst now).1 then now :: log else log) (b.take rate burst now).2 := by
  have refilled := refillTracks positive tracks ordered
  have time := @refillTime _ _ _ _ rate burst _ _ ordered
  have room : (b.refill rate burst now).tokens ≤ burst := by
    unfold refill
    split
    · exact min_le_left _ _
    · exact full
  have present := tracksLevel refilled room
  rw [time] at present
  simp only [take,present]
  split
  · rename_i enough
    have granted := grantTracks refilled room
    rw [time] at granted
    simpa [time,enough] using granted
  · rename_i short
    simpa [short] using refilled

end Levels

end TokenBucket
