import QbitNetwork.RateLimiter
import QbitNetwork.Lib.OrderedDict

/-! The rate limiter with a bucket for every key: what it allows each key over any sequence of
checks and clean-ups, and when it refuses. -/
namespace QbitNetwork
open Handshake.RateLimiter (Bucket)

/- `_buckets` in the order of their last use, and the keys that were logged already. -/
structure RateLimiter where
  rate : Rat
  burst : Rat
  buckets : OrderedDict String Bucket := .empty
  loggedKeys : DSet String := ∅

namespace RateLimiter

def maxTracked : Nat := 10000
def staleTtl : Rat := 300

def forget (l : RateLimiter) (key : String) : RateLimiter :=
  { l with buckets := l.buckets.pop key, loggedKeys := l.loggedKeys.erase key }

def evictOne (l : RateLimiter) : RateLimiter :=
  match l.buckets.rows.find? (fun row => row.2.violations = 0) <|> l.buckets.rows.head? with
  | some (key,_) => l.forget key
  | none => l

/- `check`, which reads the clock on entry, and where it makes a bucket once more: at `created`. -/
def check (l : RateLimiter) (key : String) (now created : Rat) : Bool × RateLimiter :=
  let (l,bucket) :=
    match l.buckets.get? key with
    | none => (if maxTracked ≤ l.buckets.size then l.evictOne else l,({ level := ⟨l.burst,created⟩ } : Bucket))
    | some bucket => ({ l with buckets := l.buckets.moveToEnd key },bucket)
  match bucket.level.take l.rate l.burst now with
  | (true,level) => (true,{ l with buckets := l.buckets.set key { bucket with level } })
  | (false,level) =>
    (false,{ l with
      buckets := l.buckets.set key { level, violations := bucket.violations + 1 }
      loggedKeys := l.loggedKeys.insert key })

def stale (now : Rat) (_ : String) (bucket : Bucket) : Bool := bucket.level.lastRefill < now - staleTtl

def cleanup (l : RateLimiter) (now : Rat) : Nat × RateLimiter :=
  let gone := (l.buckets.keep (stale now)).rows.map Prod.fst
  (gone.length,{ l with
    buckets := l.buckets.keep (fun key bucket => !stale now key bucket)
    loggedKeys := gone.foldl Std.ExtTreeSet.erase l.loggedKeys })

def Room (l : RateLimiter) (key : String) : Prop := l.buckets.contains key = true ∨ l.buckets.size < maxTracked

def reading (l : RateLimiter) (key : String) (now created : Rat) : Rat :=
  if l.buckets.contains key then now else created

structure Allowed where
  key : String
  called : Rat
  taken : Rat

structure History where
  limiter : RateLimiter
  clock : Rat
  allowed : List Allowed := []

def History.check (h : History) (key : String) (now created called : Rat) : History where
  limiter := (h.limiter.check key now created).2
  clock := h.limiter.reading key now created
  allowed := h.allowed ++
    if (h.limiter.check key now created).1 then [⟨key,called,h.limiter.reading key now created⟩] else []

def History.cleanup (h : History) (now : Rat) : History :=
  { h with limiter := (h.limiter.cleanup now).2, clock := now }

inductive Reached (rate burst : Rat) : History → Prop where
  | start (clock : Rat) : Reached rate burst { limiter := { rate, burst }, clock }
  | check {h : History} (prior : Reached rate burst h) (key : String) (now created called : Rat)
    (later : h.clock ≤ now) (after : now ≤ created) (began : now ≤ called)
    (ended : called ≤ h.limiter.reading key now created) (room : h.limiter.Room key) :
    Reached rate burst (h.check key now created called)
  | cleanup {h : History} (prior : Reached rate burst h) (now : Rat) (later : h.clock ≤ now) :
    Reached rate burst (h.cleanup now)

def History.calls (h : History) (key : String) : List Rat :=
  (h.allowed.filter (fun call => call.key = key)).map Allowed.called

def History.takes (h : History) (key : String) : List Rat :=
  (h.allowed.filter (fun call => call.key = key)).map Allowed.taken

section Steps
variable {l : RateLimiter} {key : String} {now created : Rat}

def found (l : RateLimiter) (key : String) (created : Rat) : Bucket :=
  (l.buckets.get? key).getD { level := ⟨l.burst,created⟩ }

def consume (rate burst now : Rat) (bucket : Bucket) : Bool × Bucket :=
  match bucket.level.take rate burst now with
  | (true,level) => (true,{ bucket with level })
  | (false,level) => (false,{ level, violations := bucket.violations + 1 })

theorem consumeLevel (rate burst now : Rat) (bucket : Bucket) :
    (consume rate burst now bucket).1 = (bucket.level.take rate burst now).1 ∧
    (consume rate burst now bucket).2.level = (bucket.level.take rate burst now).2 := by
  rw [consume]
  split <;> (rename_i taken; rw [taken]; exact ⟨rfl,rfl⟩)

theorem checkSpec (room : l.Room key) (now created : Rat) :
    (l.check key now created).1 = (consume l.rate l.burst now (l.found key created)).1 ∧
    (l.check key now created).2.rate = l.rate ∧ (l.check key now created).2.burst = l.burst ∧
    ∀ other, (l.check key now created).2.buckets.get? other =
      if other = key then some (consume l.rate l.burst now (l.found key created)).2 else l.buckets.get? other := by
  -- the table in which the bucket is put back, with the rows of the one at the start
  have put : ∀ (d : OrderedDict String Bucket), (∀ other, d.get? other = l.buckets.get? other) →
      ∀ (bucket : Bucket) other, (d.set key bucket).get? other =
        if other = key then some bucket else l.buckets.get? other := by
    intro d same bucket other
    rw [OrderedDict.getSet,same]
  simp only [check,found,consume]
  cases known : l.buckets.get? key with
  | none =>
    have fits : ¬ maxTracked ≤ l.buckets.size := by
      rcases room with there | fits
      · rw [OrderedDict.containsGet,known] at there
        cases there
      · exact not_le.mpr fits
    simp only [if_neg fits,Option.getD_none]
    cases result : TokenBucket.take l.rate l.burst now ⟨l.burst,created⟩ with
    | mk granted level => cases granted <;> exact ⟨rfl,rfl,rfl,put _ (fun _ => rfl) _⟩
  | some bucket =>
    simp only [Option.getD_some]
    cases result : TokenBucket.take l.rate l.burst now bucket.level with
    | mk granted level => cases granted <;> exact ⟨rfl,rfl,rfl,put _ (OrderedDict.getMoveToEnd _ _) _⟩

end Steps

structure Metered (rate burst clock : Rat) (calls takes : List Rat) (level : Option (TokenBucket Rat)) : Prop where
  past : (level.getD ⟨burst,clock⟩).lastRefill ≤ clock
  accounts : TokenBucket.Accounts rate burst calls (level.getD ⟨burst,clock⟩)
  tracks : TokenBucket.Tracks rate burst takes.reverse (level.getD ⟨burst,clock⟩)

section Keys
variable {rate burst clock now created called : Rat} {calls takes : List Rat} {level : Option (TokenBucket Rat)}

theorem meteredStart (positive : 0 < rate) (one : 1 ≤ burst) : Metered rate burst clock [] [] none where
  past := le_refl _
  accounts := TokenBucket.accountsFull positive.le (by linarith) clock
  tracks := TokenBucket.tracksFull positive.le (fun _ _ => rfl)

theorem meteredLater (positive : 0 < rate) (metered : Metered rate burst clock calls takes level)
    (later : clock ≤ now) : Metered rate burst now calls takes level := by
  cases level with
  | some b => exact ⟨metered.past.trans later,metered.accounts,metered.tracks⟩
  | none =>
    exact ⟨le_refl _,TokenBucket.laterAccounts positive.le metered.accounts later,
      TokenBucket.tracksFull positive.le (fun t after =>
        TokenBucket.fullTracks positive.le metered.tracks (later.trans after))⟩

theorem meteredForget (positive : 0 < rate) (enough : burst ≤ staleTtl * rate) {b : TokenBucket Rat}
    (metered : Metered rate burst clock calls takes (some b))
    (gone : b.lastRefill < now - staleTtl) : Metered rate burst now calls takes none := by
  have before : b.lastRefill < now := by
    simp only [staleTtl] at gone
    linarith
  have long : burst ≤ (now - b.lastRefill) * rate :=
    enough.trans (mul_le_mul_of_nonneg_right (by linarith) positive.le)
  have full : b.refill rate burst now = ⟨burst,now⟩ := TokenBucket.refillFull metered.accounts.tokens before long
  refine ⟨le_refl _,?_,?_⟩
  · have accounts := TokenBucket.refillAccounts positive.le metered.accounts before.le
    exact full ▸ accounts
  · have tracks := TokenBucket.refillTracks positive.le metered.tracks before.le
    exact full ▸ tracks

theorem takeFresh (one : 1 ≤ burst) (after : now ≤ created) :
    TokenBucket.take rate burst now ⟨burst,created⟩ = (true,⟨burst - 1,created⟩) := by
  have idle : (⟨burst,created⟩ : TokenBucket Rat).refill rate burst now = ⟨burst,created⟩ := by
    rw [TokenBucket.refill,if_neg (by simpa using after)]
  rw [TokenBucket.take,idle]
  exact if_pos one

theorem meteredTake (positive : 0 < rate) (one : 1 ≤ burst) (metered : Metered rate burst clock calls takes level)
    (later : clock ≤ now) (after : now ≤ created) {reading : Rat}
    (read : reading = if level.isSome then now else created) (began : now ≤ called) (ended : called ≤ reading) :
    (((level.getD ⟨burst,created⟩).take rate burst now).1 = true ↔
      1 ≤ TokenBucket.level rate burst takes.reverse reading) ∧
    Metered rate burst reading
      (calls ++ if ((level.getD ⟨burst,created⟩).take rate burst now).1 then [called] else [])
      (takes ++ if ((level.getD ⟨burst,created⟩).take rate burst now).1 then [reading] else [])
      (some ((level.getD ⟨burst,created⟩).take rate burst now).2) := by
  cases level with
  | some b =>
    obtain rfl : reading = now := by simpa using read
    obtain rfl : called = reading := le_antisymm ended began
    have ordered : b.lastRefill ≤ called := metered.past.trans later
    have full : b.tokens ≤ burst := metered.accounts.full
    obtain ⟨kept,granted⟩ := TokenBucket.takeAccounts positive.le metered.accounts ordered
    obtain ⟨enough,tracks⟩ := TokenBucket.takeTracks positive.le metered.tracks full ordered
    have time : (b.take rate burst called).2.lastRefill = called := TokenBucket.takeTime ordered
    refine ⟨enough,time.le,?_,?_⟩
    · cases given : (b.take rate burst called).1 with
      | true => simpa [given] using granted given
      | false => simpa [given] using kept
    · cases given : (b.take rate burst called).1 with
      | true => simpa [given] using tracks
      | false => simpa [given] using tracks
  | none =>
    obtain rfl : reading = created := by simpa using read
    have full : ∀ t, clock ≤ t → TokenBucket.level rate burst takes.reverse t = burst :=
      fun t => TokenBucket.fullTracks positive.le metered.tracks
    -- the token may be counted at any time of the call
    have called' := TokenBucket.laterAccounts positive.le metered.accounts (later.trans began)
    have granted := TokenBucket.grantAccounts positive.le called' one
    have present : TokenBucket.Tracks rate burst takes.reverse ⟨burst,reading⟩ :=
      TokenBucket.tracksFull positive.le (fun t since => full t ((later.trans after).trans since))
    rw [Option.getD_none,takeFresh one after,full reading (later.trans after)]
    refine ⟨by simpa using one,le_refl _,TokenBucket.laterAccounts positive.le granted ended,?_⟩
    simpa using TokenBucket.grantTracks present (le_refl burst)

end Keys

section Runs
variable {rate burst : Rat} {h : History}

structure Steady (rate burst : Rat) (h : History) : Prop where
  rateSet : h.limiter.rate = rate
  burstSet : h.limiter.burst = burst
  keys : ∀ key, Metered rate burst h.clock (h.calls key) (h.takes key)
    ((h.limiter.buckets.get? key).map Bucket.level)

theorem readingLevel (l : RateLimiter) (key : String) (now created : Rat) :
    l.reading key now created =
      if ((l.buckets.get? key).map Bucket.level).isSome then now else created := by
  rw [reading,OrderedDict.containsGet,Option.isSome_map]

theorem foundLevel (l : RateLimiter) (key : String) (created : Rat) :
    (l.found key created).level = ((l.buckets.get? key).map Bucket.level).getD ⟨l.burst,created⟩ := by
  rw [found]
  cases l.buckets.get? key <;> rfl

theorem steadyCheck (positive : 0 < rate) (one : 1 ≤ burst) (steady : Steady rate burst h) (key : String)
    {now created called : Rat} (later : h.clock ≤ now) (after : now ≤ created) (began : now ≤ called)
    (ended : called ≤ h.limiter.reading key now created) (room : h.limiter.Room key) :
    Steady rate burst (h.check key now created called) := by
  obtain ⟨granted,sameRate,sameBurst,rows⟩ := checkSpec room now created
  obtain ⟨sameGrant,sameLevel⟩ := consumeLevel h.limiter.rate h.limiter.burst now (h.limiter.found key created)
  rw [sameGrant,foundLevel,steady.rateSet,steady.burstSet] at granted
  rw [foundLevel,steady.rateSet,steady.burstSet] at sameLevel
  refine ⟨sameRate.trans steady.rateSet,sameBurst.trans steady.burstSet,fun other => ?_⟩
  have taken := meteredTake positive one (steady.keys key) later after (readingLevel ..) began ended
  by_cases mine : other = key
  · subst mine
    have calls : (h.check other now created called).calls other =
        h.calls other ++ if (h.limiter.check other now created).1 then [called] else [] := by
      simp only [History.calls,History.check,List.filter_append,List.map_append]
      split <;> simp
    have takes : (h.check other now created called).takes other =
        h.takes other ++ if (h.limiter.check other now created).1 then [h.limiter.reading other now created] else [] := by
      simp only [History.takes,History.check,List.filter_append,List.map_append]
      split <;> simp
    rw [calls,takes,granted]
    simp only [History.check]
    rw [rows,if_pos rfl,Option.map_some,steady.rateSet,steady.burstSet,sameLevel]
    exact taken.2
  · have silent : (if (h.limiter.check key now created).1 then
        [Allowed.mk key called (h.limiter.reading key now created)] else []).filter (fun call => call.key = other) = [] := by
      split <;> simp [Ne.symm mine]
    have calls : (h.check key now created called).calls other = h.calls other := by
      simp only [History.calls,History.check,List.filter_append,silent,List.append_nil]
    have takes : (h.check key now created called).takes other = h.takes other := by
      simp only [History.takes,History.check,List.filter_append,silent,List.append_nil]
    rw [calls,takes]
    simp only [History.check]
    rw [rows,if_neg mine]
    exact meteredLater positive (steady.keys other) ((later.trans began).trans ended)

theorem steadyCleanup (positive : 0 < rate) (enough : burst ≤ staleTtl * rate) (steady : Steady rate burst h)
    {now : Rat} (later : h.clock ≤ now) : Steady rate burst (h.cleanup now) := by
  refine ⟨steady.rateSet,steady.burstSet,fun key => ?_⟩
  have metered := steady.keys key
  change Metered rate burst now (h.calls key) (h.takes key)
    (((h.limiter.buckets.keep (fun key bucket => !stale now key bucket)).get? key).map Bucket.level)
  rw [OrderedDict.getKeep]
  cases known : h.limiter.buckets.get? key with
  | none =>
    rw [known] at metered
    exact meteredLater positive metered later
  | some bucket =>
    rw [known] at metered
    rw [Option.filter_some]
    cases gone : stale now key bucket with
    | true => exact meteredForget positive enough metered (of_decide_eq_true gone)
    | false => exact meteredLater positive metered later

theorem steadyReached (positive : 0 < rate) (one : 1 ≤ burst) (enough : burst ≤ staleTtl * rate)
    (reached : Reached rate burst h) : Steady rate burst h := by
  induction reached with
  | start clock => exact ⟨rfl,rfl,fun _ => meteredStart positive one⟩
  | check prior key now created called later after began ended room steady =>
    exact steadyCheck positive one steady key later after began ended room
  | cleanup prior now later steady => exact steadyCleanup positive enough steady later

theorem checksMetered (positive : 0 < rate) (one : 1 ≤ burst) (enough : burst ≤ staleTtl * rate)
    (reached : Reached rate burst h) (key : String) :
    TokenBucket.Bounded rate burst (h.calls key) ∧
    ∀ now created, h.clock ≤ now → now ≤ created → h.limiter.Room key →
      ((h.limiter.check key now created).1 = false ↔
        TokenBucket.level rate burst (h.takes key).reverse (h.limiter.reading key now created) < 1) := by
  have steady := steadyReached positive one enough reached
  refine ⟨(steady.keys key).accounts.bounded,fun now created later after room => ?_⟩
  have read := readingLevel h.limiter key now created
  have ended : now ≤ h.limiter.reading key now created := by
    rw [reading]
    split
    · exact le_refl now
    · exact after
  obtain ⟨granted,-⟩ := meteredTake positive one (steady.keys key) later after read (le_refl now) ended
  rw [← Bool.not_eq_true,(checkSpec room now created).1,(consumeLevel ..).1,foundLevel,steady.rateSet,steady.burstSet,granted,not_le]

end Runs

namespace Devnet

def limiter : RateLimiter := { rate := 1, burst := 2 }

def spent : History :=
  (((History.mk limiter 0 []).check "10.0.0.7" 0 0 0).check "10.0.0.7" 0 0 0).check "10.0.0.8" (1 / 2) (1 / 2) (1 / 2)

def forgotten : History := spent.cleanup 301

theorem spentReached : Reached 1 2 spent := by
  refine .check (.check (.check (.start 0) "10.0.0.7" 0 0 0 ?_ ?_ ?_ ?_ ?_) "10.0.0.7" 0 0 0 ?_ ?_ ?_ ?_ ?_)
    "10.0.0.8" (1 / 2) (1 / 2) (1 / 2) ?_ ?_ ?_ ?_ ?_
  all_goals first | exact .inr (by decide +kernel) | decide +kernel

theorem spentMetered :
    (spent.limiter.check "10.0.0.7" (1 / 2) (1 / 2)).1 = false ∧
    TokenBucket.Bounded (1 : Rat) 2 (forgotten.calls "10.0.0.7") := by
  have forgottenReached : Reached 1 2 forgotten := .cleanup spentReached 301 (by decide +kernel)
  have enough : (2 : Rat) ≤ staleTtl * 1 := by decide +kernel
  have refused := (checksMetered (by decide) (by decide) enough spentReached "10.0.0.7").2 (1 / 2) (1 / 2)
    (by decide +kernel) (by decide +kernel) (.inr (by decide +kernel))
  exact ⟨refused.mpr (by decide +kernel),
    (checksMetered (by decide) (by decide) enough forgottenReached "10.0.0.7").1⟩

end Devnet

end RateLimiter
end QbitNetwork
