import QbitNetwork.Lib.OrderedDict
import QbitNetwork.Lib.SlidingWindow

/-! Attempts to authenticate, by the host they come from: how many are allowed in any window of
time, and when one is refused. -/
namespace QbitNetwork.AuthAttempts

def authRateMax : Nat := 5
def authRateWindow : Rat := 60
def authAttemptsCap : Nat := 10000

/- `_auth_attempts`: the times of the attempts of each host, the latest host last. -/
abbrev Attempts := OrderedDict String (List Rat)

def isLocalhost (host : String) : Bool := host = "127.0.0.1" || host = "::1" || host = "localhost"

def checkAuthRate (a : Attempts) (host : String) (now : Rat) : Bool × Attempts :=
  if isLocalhost host then (true,a)
  else
    let attempts := SlidingWindow.recent authRateWindow now ((a.get? host).getD [])
    if authRateMax ≤ attempts.length then (false,a)
    else
      let a := (a.set host (attempts ++ [now])).moveToEnd host
      -- `popitem` from the front while there are too many
      (true,a.dropOldest (a.size - authAttemptsCap))

def stale (now : Rat) (attempts : List Rat) : Bool := attempts.getLast?.all (fun last => last < now - authRateWindow)

def cleanup (a : Attempts) (now : Rat) : Attempts := a.keep (fun _ attempts => !stale now attempts)

structure History where
  attempts : Attempts := .empty
  clock : Rat
  allowed : List (String × Rat) := []

def History.check (h : History) (host : String) (now : Rat) : History where
  attempts := (checkAuthRate h.attempts host now).2
  clock := now
  allowed := h.allowed ++ if (checkAuthRate h.attempts host now).1 then [(host,now)] else []

def History.cleanup (h : History) (now : Rat) : History :=
  { h with attempts := AuthAttempts.cleanup h.attempts now, clock := now }

def Room (a : Attempts) (host : String) : Prop := isLocalhost host = true ∨ (a.set host []).size ≤ authAttemptsCap

inductive Reached : History → Prop where
  | start (clock : Rat) : Reached { clock }
  | check {h : History} (prior : Reached h) (host : String) (now : Rat) (later : h.clock ≤ now)
    (room : Room h.attempts host) : Reached (h.check host now)
  | cleanup {h : History} (prior : Reached h) (now : Rat) (later : h.clock ≤ now) : Reached (h.cleanup now)

def History.times (h : History) (host : String) : List Rat :=
  (h.allowed.filter (fun call => call.1 = host)).map Prod.snd

def History.kept (h : History) (host : String) : List Rat := (h.attempts.get? host).getD []

section Steps
variable {a : Attempts} {host : String} {now : Rat}

theorem allowedGet (room : Room a host) (remote : isLocalhost host = false)
    (few : (SlidingWindow.recent authRateWindow now ((a.get? host).getD [])).length < authRateMax) (key : String) :
    (checkAuthRate a host now).2.get? key =
      if key = host then some (SlidingWindow.recent authRateWindow now ((a.get? host).getD []) ++ [now])
      else a.get? key := by
  have fits (attempts : List Rat) : ((a.set host attempts).moveToEnd host).size ≤ authAttemptsCap := by
    rw [OrderedDict.sizeMoveToEnd,OrderedDict.sizeSet,← OrderedDict.sizeSet a host []]
    exact room.resolve_left (by simp [remote])
  rw [checkAuthRate,if_neg (by simp [remote]),if_neg (not_le.mpr few)]
  simp only
  rw [Nat.sub_eq_zero_of_le (fits _),OrderedDict.dropOldestZero,OrderedDict.getMoveToEnd,OrderedDict.getSet]

theorem refusedIff : (checkAuthRate a host now).1 = false ↔ isLocalhost host = false ∧
    authRateMax ≤ (SlidingWindow.recent authRateWindow now ((a.get? host).getD [])).length := by
  simp only [checkAuthRate]
  split
  · rename_i loopback
    simp [loopback]
  · rename_i remote
    split
    · rename_i many
      simp [remote,many]
    · rename_i few
      simp [few]

theorem unchanged (refused : isLocalhost host = true ∨ (checkAuthRate a host now).1 = false) :
    (checkAuthRate a host now).2 = a := by
  rcases refused with loopback | refused
  · rw [checkAuthRate,if_pos loopback]
  · obtain ⟨remote,many⟩ := refusedIff.mp refused
    rw [checkAuthRate,if_neg (by simp [remote]),if_pos many]

end Steps

section Runs
variable {h : History} {host : String}

def Kept (h : History) (host : String) : Prop :=
  SlidingWindow.Keeps authRateWindow authRateMax (h.times host) (h.kept host) h.clock

theorem keptCheck (kept : Kept h host) (remote : isLocalhost host = false) (other : String) {now : Rat}
    (later : h.clock ≤ now) (room : Room h.attempts other) : Kept (h.check other now) host := by
  have present := SlidingWindow.keepsLater kept later
  cases allowed : (checkAuthRate h.attempts other now).1 with
  | false =>
    have same : (h.check other now).kept host = h.kept host := by
      rw [History.kept,History.check,unchanged (.inr allowed),History.kept]
    have silent : (h.check other now).times host = h.times host := by
      simp [History.times,History.check,allowed]
    rw [Kept,same,silent]
    exact present
  | true =>
    by_cases mine : other = host
    · subst mine
      -- its own call: what is recent of its row, and the call behind it
      have few : (SlidingWindow.recent authRateWindow now (h.kept other)).length < authRateMax := by
        by_contra many
        rw [refusedIff.mpr ⟨remote,not_lt.mp many⟩] at allowed
        cases allowed
      have times : (h.check other now).times other = h.times other ++ [now] := by
        simp [History.times,History.check,allowed]
      have row : (h.check other now).kept other = SlidingWindow.recent authRateWindow now (h.kept other) ++ [now] := by
        rw [History.kept,History.check,allowedGet room remote few,if_pos rfl]
        rfl
      rw [Kept,times,row]
      have seen := present.same now (le_refl _)
      exact SlidingWindow.keepsAppend (SlidingWindow.keepsRecent present) (by rwa [← seen])
    · -- the call of another host
      have times : (h.check other now).times host = h.times host := by
        simp [History.times,History.check,allowed,mine]
      have row : (h.check other now).kept host = h.kept host := by
        cases remote' : isLocalhost other with
        | true => rw [History.kept,History.check,unchanged (.inl remote'),History.kept]
        | false =>
          have few : (SlidingWindow.recent authRateWindow now ((h.attempts.get? other).getD [])).length < authRateMax := by
            by_contra many
            rw [refusedIff.mpr ⟨remote',not_lt.mp many⟩] at allowed
            cases allowed
          rw [History.kept,History.check,allowedGet room remote' few,if_neg (Ne.symm mine),History.kept]
      rw [Kept,times,row]
      exact present

theorem keptCleanup (kept : Kept h host) {now : Rat} (later : h.clock ≤ now) : Kept (h.cleanup now) host := by
  have present := SlidingWindow.keepsLater kept later
  have row : (h.cleanup now).kept host = if stale now (h.kept host) then [] else h.kept host := by
    have rest (row : Option (List Rat)) : (row.filter (fun attempts => !stale now attempts)).getD [] =
        if stale now (row.getD []) then [] else row.getD [] := by
      cases row with
      | none => simp
      | some attempts =>
        rw [Option.filter_some]
        cases gone : stale now attempts <;> simp [gone]
    have swept : (h.cleanup now).attempts.get? host =
        (h.attempts.get? host).filter (fun attempts => !stale now attempts) := OrderedDict.getKeep ..
    rw [History.kept,swept,rest,History.kept]
  rw [Kept,row]
  split
  · rename_i gone
    refine SlidingWindow.keepsStale present (fun last listed => ?_)
    rw [stale,Option.mem_def.mp listed] at gone
    exact of_decide_eq_true gone
  · exact present

theorem keptReached (reached : Reached h) (remote : isLocalhost host = false) : Kept h host := by
  induction reached with
  | start clock => exact SlidingWindow.keepsNil
  | check prior other now later room kept => exact keptCheck kept remote other later room
  | cleanup prior now later kept => exact keptCleanup kept later

theorem authAttemptsBounded (reached : Reached h) (host : String) :
    (isLocalhost host = false → SlidingWindow.Bounded authRateWindow authRateMax (h.times host)) ∧
    ∀ now, h.clock ≤ now → ((checkAuthRate h.attempts host now).1 = false ↔ isLocalhost host = false ∧
      (h.times host).countP (fun t => now - authRateWindow < t ∧ t ≤ now) = authRateMax) := by
  refine ⟨fun remote => (keptReached reached remote).bounded,fun now later => ?_⟩
  rw [refusedIff]
  refine and_congr_right (fun remote => ?_)
  have present := SlidingWindow.keepsLater (keptReached reached remote) later
  have seen : SlidingWindow.recent authRateWindow now ((h.attempts.get? host).getD []) =
      SlidingWindow.recent authRateWindow now (h.times host) := present.same now (le_refl _)
  rw [seen]
  constructor
  · exact SlidingWindow.recentFull present
  · intro full
    rw [SlidingWindow.recentCount present,full]

end Runs

namespace Devnet

def busy : History :=
  (((((History.mk .empty 0 []).check "10.0.0.7" 0).check "10.0.0.7" 1).check "10.0.0.7" 2).cleanup 30).check
    "10.0.0.7" 31 |>.check "10.0.0.7" 59

theorem busyReached : Reached busy := by
  refine .check (.check (.cleanup (.check (.check (.check (.start 0) "10.0.0.7" 0 ?_ ?_) "10.0.0.7" 1 ?_ ?_)
    "10.0.0.7" 2 ?_ ?_) 30 ?_) "10.0.0.7" 31 ?_ ?_) "10.0.0.7" 59 ?_ ?_
  all_goals first | exact .inr (by decide +kernel) | decide +kernel

theorem busyBounded :
    SlidingWindow.Bounded authRateWindow authRateMax (busy.times "10.0.0.7") ∧
    (checkAuthRate busy.attempts "10.0.0.7" 59).1 = false ∧ (checkAuthRate busy.attempts "10.0.0.7" 60).1 = true := by
  obtain ⟨bounded,refused⟩ := authAttemptsBounded busyReached "10.0.0.7"
  refine ⟨bounded (by decide +kernel),(refused 59 (by decide +kernel)).mpr (by decide +kernel),?_⟩
  rw [← Bool.not_eq_false,refused 60 (by decide +kernel)]
  decide +kernel

end Devnet

end QbitNetwork.AuthAttempts
