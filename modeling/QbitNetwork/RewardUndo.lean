import QbitNetwork.RollbackLaws

/-! The reward of a block and what its undo takes back for it, around the cap of the supply. -/
namespace QbitNetwork

namespace Ledger

def gain (l l' : Ledger) (address : Address) : Int × Int :=
  (l'.getBalance address - l.getBalance address,l'.totalMinted - l.totalMinted)

def scheduled (idx : Int) : Int := initialBlockReward >>> (idx / halvingInterval).toNat

def Roomy (l : Ledger) (idx : Int) : Prop :=
  idx ≤ 0 ∨ maxSupply ≤ l.totalMinted ∨ 2 * scheduled idx ≤ maxSupply - l.totalMinted

theorem rewardLeftRoomy {l : Ledger} (active : l.financialActive = true) (idx : Int) :
    l.rewardLeft idx = 0 ↔ l.Roomy idx := by
  rw [rewardLeftNone,Roomy]
  have nonneg : 0 ≤ scheduled idx := Int.le_shiftRight_of_nonneg (by decide)
  by_cases first : idx ≤ 0
  · have none : l.rewardAt idx = 0 := by
      rw [rewardAt,if_neg (by omega)]
    simp [first,none]
  · have reward : l.rewardAt idx = min (scheduled idx) (max 0 (maxSupply - l.totalMinted)) := by
      rw [rewardAt,if_pos ⟨by omega,active⟩,calcBlockReward,if_neg first]
      rfl
    rw [reward]
    omega

theorem undoRewardGain (l : Ledger) (validator : Address) {reward : Int} (nonneg : 0 ≤ reward) :
    (l.undoReward validator reward).gain l validator = (reward,reward) := by
  unfold undoReward
  split
  · have moved := l.rollbackDebitMoved validator nonneg
    have balance := moved.balance validator
    rw [if_pos rfl] at balance
    refine Prod.ext ?_ ?_
    · show l.getBalance validator - (l.rollbackDebit validator reward).getBalance validator = reward
      omega
    · show l.totalMinted - ((l.rollbackDebit validator reward).totalMinted + -reward) = reward
      rw [moved.minted]
      omega
  · rename_i none
    have zero : reward = 0 := by omega
    rw [zero]
    exact Prod.ext (Int.sub_self _) (Int.sub_self _)

end Ledger

namespace Blockchain
variable [Env]

def rewardCredited (s : Blockchain) (block : Block) : Int × Int :=
  match s.state.openBlock (s.height + 1) >>= fun state => state.applyTxs block (s.height + 1) with
  | .ok state => state.ledger.gain (Outcome.stateOf (state.payReward block (s.height + 1))).ledger block.validator
  | .error _ => (0,0)

def rewardTaken (s : Blockchain) (block : Block) : Int × Int :=
  if 0 < block.index ∧ s.financialActive then
    (s.state.ledger.undoReward block.validator (s.state.ledger.calcBlockReward block.index)).gain
      s.state.ledger block.validator
  else (0,0)

def takings : Blockchain → List Block → List (Int × Int)
  | _,[] => []
  | s,block :: rest => s.rewardTaken block :: takings (s.takeBack block) rest

inductive Climbs (s : Blockchain) : List (Blockchain × Block) → Blockchain → Prop where
  | start : Climbs s [] s
  | submit {moves : List (Blockchain × Block)} {m : Blockchain} (now : Int) (tx : Transaction)
      (prior : Climbs s moves m) : Climbs s moves (m.submitTx now tx).2
  | accept {moves : List (Blockchain × Block)} {m s' : Blockchain} (block : Block) (prior : Climbs s moves m)
      (step : Accepts m block s') : Climbs s (moves ++ [(m,block)]) s'
  | append {moves : List (Blockchain × Block)} {m s' : Blockchain} (block : Block) (prior : Climbs s moves m)
      (position : block.index = m.height + 1) (run : m.appendBlock block = .ok s') :
      Climbs s (moves ++ [(m,block)]) s'

def Undoes (t : Blockchain) (moves : List (Blockchain × Block)) (u : Blockchain) : Prop :=
  (moves.map Prod.snd).foldlM (fun u block => u.popBlock.rollbackBlock block) t = .ok u

def Repays (t : Blockchain) (moves : List (Blockchain × Block)) : Prop :=
  takings t (moves.map Prod.snd) = moves.map (fun move => move.1.rewardCredited move.2)

def HadRoom (moves : List (Blockchain × Block)) : Prop :=
  ∀ move ∈ moves, move.1.state.ledger.Roomy (move.1.height + 1)

section Step
variable {s s' t u : Blockchain} {block : Block}

theorem appliedCredited {c : ChainState} (applied : s.state.applyBlock block (s.height + 1) = .ok c)
    (ledger : s'.state.ledger = c.ledger) :
    s.rewardCredited block = (s.state.ledger.rewardAt (s.height + 1),s.state.ledger.rewardAt (s.height + 1)) ∧
      s'.state.ledger.totalMinted = s.state.ledger.totalMinted + s.state.ledger.rewardAt (s.height + 1) ∧
      s'.state.ledger.financialActive = s.state.ledger.financialActive := by
  simp only [ChainState.applyBlock,Outcome.bindOk] at applied
  obtain ⟨opened,opening,looped,loop,paying⟩ := applied
  have before := (ChainState.openBlockCirculates opening).1.trans (ChainState.applyTxsCirculates loop).1
  have paid := ChainState.payRewardAhead paying
  rw [Ledger.rewardAtSame before.minted before.active] at paid
  have reached : (s.state.openBlock (s.height + 1) >>= fun state => state.applyTxs block (s.height + 1)) = .ok looped :=
    Outcome.bindOk .. |>.mpr ⟨opened,opening,loop⟩
  have balance := paid.balance block.validator
  rw [if_pos rfl] at balance
  refine ⟨?_,?_,?_⟩
  · simp only [rewardCredited,reached,paying,Outcome.stateOf,Ledger.gain]
    exact Prod.ext (by simp only; omega) (by simp only [paid.minted]; omega)
  · rw [ledger,paid.minted,before.minted]
  · rw [ledger,paid.active,before.active]

omit [Env] in
theorem rewardTakenAt (t : Blockchain) (block : Block) : t.rewardTaken block =
    (t.state.ledger.rewardAt block.index,t.state.ledger.rewardAt block.index) := by
  by_cases paying : 0 < block.index ∧ t.state.ledger.financialActive = true
  · have on : 0 < block.index ∧ t.financialActive = true := paying
    rw [rewardTaken,if_pos on,Ledger.rewardAt,if_pos paying]
    exact Ledger.undoRewardGain _ _ (Ledger.blockRewardNonneg ..)
  · have off : ¬(0 < block.index ∧ t.financialActive = true) := paying
    rw [rewardTaken,if_neg off,Ledger.rewardAt,if_neg paying]

theorem rollbackBlockMinted (run : t.rollbackBlock block = .ok u) :
    u.state.ledger.totalMinted = t.state.ledger.totalMinted - t.state.ledger.rewardAt block.index ∧
      u.state.ledger.financialActive = t.state.ledger.financialActive := by
  obtain ⟨m,senderNonce,money,epoch⟩ := rollbackBlockOk run
  have taken := undoMoneySameMint money
  have left := undoEpochSameMint epoch
  have untouched : (block.transactions.foldl (undoTx block) (t.undoStart block m)).state.ledger = m.ledger :=
    (undoTxsMoney block block.transactions (t.undoStart block m)).1
  have kept : Ledger.SameMint m.ledger u.state.ledger := ⟨left.minted.trans (by rw [← untouched]),
    left.active.trans (by rw [← untouched])⟩
  have whole := taken.trans kept
  have amount := rewardTakenAt t block
  by_cases paying : 0 < block.index ∧ t.financialActive = true
  · have on : 0 < block.index ∧ t.state.ledger.financialActive = true := paying
    rw [rewardTaken,if_pos paying] at amount
    rw [if_pos on] at whole
    have minted := (Prod.ext_iff.mp amount).2
    simp only [Ledger.gain] at minted
    refine ⟨by rw [whole.minted]; omega,whole.active.trans ?_⟩
    unfold Ledger.undoReward
    split
    · exact (Ledger.rollbackDebitSameMint ..).active
    · rfl
  · have off : ¬(0 < block.index ∧ t.state.ledger.financialActive = true) := paying
    rw [if_neg off] at whole
    refine ⟨?_,whole.active⟩
    rw [whole.minted,Ledger.rewardAt,if_neg off,Int.sub_zero]

end Step

section Run
variable {s s' : Blockchain} {moves : List (Blockchain × Block)}

structure Raised (m : Blockchain) (block : Block) (s' : Blockchain) : Prop where
  position : block.index = m.height + 1
  height : s'.height = m.height + 1
  latestBlock : s'.latestBlock = some block
  applied : ∃ c, m.state.applyBlock block (m.height + 1) = .ok c ∧ s'.state.ledger = c.ledger

theorem acceptsRaised {m : Blockchain} {block : Block} (coherent : Coherent m) (step : Accepts m block s') :
    Raised m block s' := by
  obtain ⟨c,grown⟩ := acceptsGrown step
  exact ⟨acceptsPosition coherent step,grown.height,grown.latestBlock,c,grown.applied,grown.ledger⟩

theorem appendRaised {m : Blockchain} {block : Block} (position : block.index = m.height + 1)
    (run : m.appendBlock block = .ok s') : Raised m block s' := by
  obtain ⟨c,grown⟩ := appendInnerOk (appendBlockOk run)
  exact ⟨position,grown.height,grown.latestBlock,c,grown.applied,grown.ledger⟩

theorem Raised.coherent {m : Blockchain} {block : Block} (before : Coherent m) (raised : Raised m block s') :
    Coherent s' := by
  have bounded := before.bounded
  refine ⟨by rw [raised.height]; omega,fun tip found => ?_⟩
  rw [raised.latestBlock] at found
  cases found
  rw [raised.height,raised.position]

theorem climbsInOrder (coherent : Coherent s) (active : s.financialActive = true) (climbs : Climbs s moves s') :
    Coherent s' ∧ s'.financialActive = true := by
  have next : ∀ {m s' : Blockchain} {block : Block}, m.financialActive = true → Raised m block s' →
      s'.financialActive = true := by
    intro m s' block on raised
    obtain ⟨c,applied,ledger⟩ := raised.applied
    exact (appliedCredited applied ledger).2.2.trans on
  induction climbs with
  | start => exact ⟨coherent,active⟩
  | @submit moves m now tx prior ih =>
    obtain ⟨height,tip⟩ := submitTip m now tx
    refine ⟨⟨by rw [height]; exact ih.1.bounded,by rw [height,tip]; exact ih.1.tip⟩,?_⟩
    rw [financialActive,submitState]
    exact ih.2
  | accept block prior step ih =>
    have raised := acceptsRaised ih.1 step
    exact ⟨raised.coherent ih.1,next ih.2 raised⟩
  | append block prior position run ih =>
    have raised := appendRaised position run
    exact ⟨raised.coherent ih.1,next ih.2 raised⟩

/- One block more: what its undo takes is what it was given just where there was room for it,
and then the state is as before it for the others. -/
theorem repaysStep {m t u : Blockchain} {block : Block} {rest : List (Blockchain × Block)}
    (on : m.financialActive = true) (raised : Raised m block s') (same : Ledger.SameMint s'.state.ledger t.state.ledger)
    (run : Undoes t ((m,block) :: rest) u) (later : ∀ w, Ledger.SameMint m.state.ledger w.state.ledger →
      Undoes w rest u → (Repays w rest ↔ HadRoom rest)) :
    Repays t ((m,block) :: rest) ↔ HadRoom ((m,block) :: rest) := by
  unfold Undoes at run
  rw [List.map_cons,List.foldlM_cons,Outcome.bindOk] at run
  obtain ⟨w,first,run⟩ := run
  obtain ⟨c,applied,ledger⟩ := raised.applied
  obtain ⟨credited,minted,active⟩ := appliedCredited applied ledger
  have taken := rewardTakenAt t block
  have back := rollbackBlockMinted first
  rw [popState] at back
  dsimp only at back
  have next : t.state.ledger.rewardAt block.index =
      (m.state.ledger.mint (m.state.ledger.rewardAt (m.height + 1))).rewardAt (m.height + 1) := by
    rw [raised.position]
    have whole : t.state.ledger.totalMinted =
        (m.state.ledger.mint (m.state.ledger.rewardAt (m.height + 1))).totalMinted := same.minted.trans minted
    exact Ledger.rewardAtSame whole (same.active.trans active) _
  have room := Ledger.rewardLeftRoomy on (m.height + 1)
  have here : t.takeBack block = w := by
    rw [takeBack,first]
    rfl
  rw [Ledger.rewardLeft,← next] at room
  simp only [Repays,HadRoom,List.map_cons,takings,List.cons.injEq,List.forall_mem_cons,taken,credited,here]
  have head : ((t.state.ledger.rewardAt block.index,t.state.ledger.rewardAt block.index) : Int × Int) =
      (m.state.ledger.rewardAt (m.height + 1),m.state.ledger.rewardAt (m.height + 1)) ↔
      m.state.ledger.Roomy (m.height + 1) := by
    rw [← room,Prod.mk.injEq]
    omega
  rw [head]
  refine and_congr_right (fun roomy => later w ⟨?_,?_⟩ run)
  · have whole := room.mpr roomy
    rw [back.1,same.minted,minted]
    omega
  · exact back.2.trans (same.active.trans active)

theorem repaysRoomy (coherent : Coherent s) (active : s.financialActive = true) (climbs : Climbs s moves s') :
    ∀ (count : Nat) (t u : Blockchain), Ledger.SameMint s'.state.ledger t.state.ledger →
      Undoes t (moves.reverse.take count) u →
      (Repays t (moves.reverse.take count) ↔ HadRoom (moves.reverse.take count)) := by
  have none : ∀ t, Repays t [] ↔ HadRoom [] := by simp [Repays,HadRoom,takings]
  have more : ∀ {moves : List (Blockchain × Block)} {m s' : Blockchain} {block : Block},
      m.financialActive = true → Raised m block s' →
      (∀ (count : Nat) (t u : Blockchain), Ledger.SameMint m.state.ledger t.state.ledger →
        Undoes t (moves.reverse.take count) u →
        (Repays t (moves.reverse.take count) ↔ HadRoom (moves.reverse.take count))) →
      ∀ (count : Nat) (t u : Blockchain), Ledger.SameMint s'.state.ledger t.state.ledger →
        Undoes t ((moves ++ [(m,block)]).reverse.take count) u →
        (Repays t ((moves ++ [(m,block)]).reverse.take count) ↔
          HadRoom ((moves ++ [(m,block)]).reverse.take count)) := by
    intro moves m s' block on raised ih count t u same
    rw [List.reverse_append,List.reverse_singleton,List.singleton_append]
    cases count with
    | zero => exact fun _ => none t
    | succ count =>
      rw [List.take_succ_cons]
      exact fun run => repaysStep on raised same run (fun w kept run => ih count w u kept run)
  induction climbs with
  | start =>
    intro count t u _ _
    rw [List.reverse_nil,List.take_nil]
    exact none t
  | @submit moves m now tx prior ih =>
    rw [submitState]
    exact ih
  | accept block prior step ih =>
    obtain ⟨before,on⟩ := climbsInOrder coherent active prior
    exact more on (acceptsRaised before step) ih
  | append block prior position run ih =>
    obtain ⟨before,on⟩ := climbsInOrder coherent active prior
    exact more on (appendRaised position run) ih

/- Whatever number of blocks is undone, each takes back the reward it was paid, if and only if
none of them was paid where less than two scheduled rewards were left under the cap. -/
theorem rewardsUndone (s s' u : Blockchain) (moves : List (Blockchain × Block)) (coherent : Coherent s)
    (active : s.financialActive = true) (climbs : Climbs s moves s') (count : Nat)
    (undone : Undoes s' (moves.reverse.take count) u) :
    Repays s' (moves.reverse.take count) ↔ HadRoom (moves.reverse.take count) :=
  repaysRoomy coherent active climbs count s' u ⟨rfl,rfl⟩ undone

end Run

end Blockchain

namespace Devnet
attribute [local instance] legacy
open Blockchain

def lastReward : Blockchain :=
  let tip : Block := { genesis.tipBlock with index := 7140006 }
  { active with
    height := 7140006
    finalizedHeight := 7140006
    latestBlock := some tip
    backend := .sqlite { height := 7140006, blocks := (∅ : Dict Int Block).insert 7140006 tip }
    state := { active.state with
      ledger := { active.state.ledger with totalMinted := maxSupply - 625000000 }
      staking := { active.state.staking with currentEpoch := 71400 } } }

def rewardedLast : Blockchain := (lastReward.produceBlock address key 102 102).2

theorem lastRewardCoherent : Coherent lastReward := by
  refine ⟨by decide,?_⟩
  intro block tip
  cases tip
  rfl

theorem lastRun :
    ((lastReward.produceBlock address key 102 102).1 = .accepted ∧ rewardedLast.latestBlock.isSome = true) ∧
    lastReward.financialActive = true ∧ (rewardedLast.popBlock.rollbackBlock rewardedLast.tipBlock).isOk = true ∧
    rewardedLast.rewardTaken rewardedLast.tipBlock ≠ lastReward.rewardCredited rewardedLast.tipBlock := by decide +kernel

theorem rewardedLastAccepts : Accepts lastReward rewardedLast.tipBlock rewardedLast := by
  obtain ⟨⟨answer,made⟩,-⟩ := lastRun
  exact producedAccepts (by rw [rewardedLast]) answer made

def lastMoves : List (Blockchain × Block) := [(lastReward,rewardedLast.tipBlock)]

theorem lastClimbs : Climbs lastReward lastMoves rewardedLast := .accept rewardedLast.tipBlock .start rewardedLastAccepts

theorem undoesSingle [Env] {s t u : Blockchain} {block : Block} (undone : s.popBlock.rollbackBlock block = .ok u) :
    Undoes s ([(t,block)].reverse.take 1) u := by
  simp only [Undoes,List.reverse_singleton,List.take_one,List.head?_cons,Option.toList_some,List.map_cons,List.map_nil,
    List.foldlM_cons,List.foldlM_nil,undone]
  rfl

theorem lastUndone : Undoes rewardedLast (lastMoves.reverse.take 1) (rewardedLast.takeBack rewardedLast.tipBlock) := by
  rw [lastMoves,takeBack]
  exact undoesSingle (okState lastRun.2.2.1)

theorem lastRewardKept : ¬∀ (s s' u : Blockchain) (moves : List (Blockchain × Block)), Coherent s →
    s.financialActive = true → Climbs s moves s' → ∀ count : Nat, Undoes s' (moves.reverse.take count) u →
      Repays s' (moves.reverse.take count) := by
  obtain ⟨-,active,-,apart⟩ := lastRun
  intro claim
  have repaid := claim lastReward rewardedLast _ lastMoves lastRewardCoherent active lastClimbs 1 lastUndone
  simp only [Repays,lastMoves,List.reverse_singleton,List.take_one,List.head?_cons,Option.toList_some,List.map_cons,
    List.map_nil,takings,List.cons.injEq] at repaid
  exact apart repaid.1

theorem rewardsUndoneLast : Repays rewardedLast (lastMoves.reverse.take 1) ↔ HadRoom (lastMoves.reverse.take 1) :=
  rewardsUndone lastReward rewardedLast _ lastMoves lastRewardCoherent lastRun.2.1 lastClimbs 1 lastUndone

end Devnet

end QbitNetwork
