import QbitNetwork.MoneyUndo
import QbitNetwork.StateProofs

/-! Accepted blocks taken back: what `_rollback_block` restores of the balances and of the
unbonding queue, off the epoch boundaries. -/
namespace QbitNetwork

namespace Staking

def queued (tx : Transaction) (idx : Int) : List UnbondingEntry :=
  let vaddr := tx.payload.validatorAddress.getD ""
  let amount := tx.payload.amount.getD 0
  if tx.txType = .UNSTAKE ∧ vaddr ≠ "" ∧ 0 < amount then [⟨tx.sender,vaddr,amount,idx + unbondingPeriod⟩] else []

structure SameQueue (k k' : Staking) : Prop where
  unbonding : k'.unbonding = k.unbonding
  currentEpoch : k'.currentEpoch = k.currentEpoch

theorem queuedOther {tx : Transaction} (other : tx.txType ≠ .UNSTAKE) (idx : Int) : queued tx idx = [] := by
  unfold queued
  rw [if_neg (fun all => other all.1)]

theorem queuedRelease {tx : Transaction} {idx : Int} {entry : UnbondingEntry} (inside : entry ∈ queued tx idx) :
    entry.releaseBlock = idx + unbondingPeriod := by
  unfold queued at inside
  dsimp only at inside
  split at inside
  · rw [List.mem_singleton.mp inside]
  · cases inside

theorem commissionSameQueue (k : Staking) (address : Address) (rate : Option Int) :
    SameQueue k (k.setCommission address rate) := by
  unfold setCommission
  split
  · split <;> exact ⟨rfl,rfl⟩
  · exact ⟨rfl,rfl⟩

theorem registerSameQueue {k k' : Staking} {p : Payload} (run : k.registerValidator p = .ok k') : SameQueue k k' := by
  simp only [registerValidator] at run
  split at run
  · cases run
    exact ⟨rfl,rfl⟩
  · split at run
    · cases run
      exact commissionSameQueue k _ _
    · split at run
      · contradiction
      · cases run
        exact ⟨(commissionSameQueue ..).unbonding,(commissionSameQueue ..).currentEpoch⟩

theorem slashSameQueue (k : Staking) (vaddr : Address) (txId : String) (blockIndex : Int) :
    SameQueue k (k.slash vaddr txId blockIndex) := by
  simp only [slash]
  split <;> exact ⟨rfl,rfl⟩

variable [Env]

theorem applyTxQueues {k k' : Staking} {tx : Transaction} {idx : Int} (run : k.applyTx tx idx = .ok k') :
    k'.unbonding = k.unbonding ++ queued tx idx ∧ k'.currentEpoch = k.currentEpoch := by
  have same : tx.txType ≠ .UNSTAKE → SameQueue k k' →
      k'.unbonding = k.unbonding ++ queued tx idx ∧ k'.currentEpoch = k.currentEpoch := by
    intro other kept
    rw [queuedOther other,List.append_nil]
    exact ⟨kept.unbonding,kept.currentEpoch⟩
  cases kind : tx.txType <;> simp only [applyTx,kind] at run
  case REGISTER_VALIDATOR => exact same (by rw [kind]; decide) (registerSameQueue run)
  all_goals cases run
  case REVOKE_KEY =>
    refine same (by rw [kind]; decide) ?_
    simp only [revokeKey]
    split <;> exact ⟨rfl,rfl⟩
  case UNSTAKE =>
    simp only [unstake,queued,kind,true_and]
    split
    · exact ⟨rfl,rfl⟩
    · exact ⟨(List.append_nil _).symm,rfl⟩
  case EVIDENCE =>
    refine same (by rw [kind]; decide) ?_
    unfold processEvidenceTx
    split
    · exact slashSameQueue ..
    · exact ⟨rfl,rfl⟩
  case STAKE =>
    refine same (by rw [kind]; decide) ?_
    simp only [addStake]
    split <;> exact ⟨rfl,rfl⟩
  case DELEGATE =>
    refine same (by rw [kind]; decide) ?_
    simp only [addStake]
    split <;> exact ⟨rfl,rfl⟩
  all_goals exact same (by rw [kind]; decide) ⟨rfl,rfl⟩

theorem undoTxUnqueues (k : Staking) (lookup : Address → Option Bytes) (tx : Transaction) (blockIndex : Int) :
    (k.undoTx lookup tx blockIndex).unbonding =
      k.unbonding.filter (fun entry => entry ∉ queued tx blockIndex) := by
  have same : queued tx blockIndex = [] → ∀ k' : Staking, k'.unbonding = k.unbonding →
      k'.unbonding = k.unbonding.filter (fun entry => entry ∉ queued tx blockIndex) := by
    intro none k' kept
    rw [none,kept]
    simp
  cases kind : tx.txType <;> simp only [undoTx,kind]
  case UNSTAKE =>
    split
    · rename_i queues
      have here : queued tx blockIndex = [⟨tx.sender,tx.payload.validatorAddress.getD "",tx.payload.amount.getD 0,
          blockIndex + unbondingPeriod⟩] := if_pos ⟨kind,queues⟩
      simp only [here,List.mem_singleton]
    · rename_i idle
      exact same (if_neg (fun all => idle all.2)) k rfl
  case REGISTER_VALIDATOR =>
    refine same (queuedOther (by rw [kind]; decide) _) _ ?_
    split <;> rfl
  case REVOKE_KEY =>
    refine same (queuedOther (by rw [kind]; decide) _) _ ?_
    simp only [undoRevokeKey]
    split
    · split <;> rfl
    · rfl
  case STAKE =>
    refine same (queuedOther (by rw [kind]; decide) _) _ ?_
    split <;> rfl
  case DELEGATE =>
    refine same (queuedOther (by rw [kind]; decide) _) _ ?_
    split <;> rfl
  case EVIDENCE =>
    refine same (queuedOther (by rw [kind]; decide) _) _ ?_
    split <;> rfl
  all_goals exact same (queuedOther (by rw [kind]; decide) _) _ rfl

end Staking

namespace ChainState

theorem openBlockOff {s opened : ChainState} {idx : Int} (calm : epochStarts s.staking idx = false)
    (run : s.openBlock idx = .ok opened) : opened.staking = s.staking.dropMatured idx ∧
      (s.staking.matured idx = [] → opened.ledger = s.ledger) := by
  obtain ⟨mid,matured,run⟩ := Outcome.bindOk .. |>.mp run
  have staking := processMatureStaking matured
  have still : epochStarts mid.staking idx = false := by
    rw [staking]
    exact calm
  simp only [checkEpochTransition,still] at run
  cases run
  refine ⟨staking,fun none => ?_⟩
  simp only [processMatureUnbondings,none,List.foldlM_nil] at matured
  cases matured
  rfl

theorem openBlockStaking {s opened : ChainState} {idx : Int} (run : s.openBlock idx = .ok opened) :
    ∃ epochRewards lastEpochDistributions, opened.staking =
      if epochStarts s.staking idx then
        { s.staking.dropMatured idx with epochRewards, lastEpochDistributions }.enterEpoch (idx / epochLength)
      else s.staking.dropMatured idx := by
  obtain ⟨mid,matured,run⟩ := Outcome.bindOk .. |>.mp run
  have staking := processMatureStaking matured
  have same : epochStarts mid.staking idx = epochStarts s.staking idx := by rw [staking]; rfl
  simp only [checkEpochTransition,same] at run
  cases starts : epochStarts s.staking idx with
  | true =>
    rw [starts,if_pos rfl] at run
    split at run
    · obtain ⟨t,paid,run⟩ := Outcome.bindOk .. |>.mp run
      cases run
      obtain ⟨epochRewards,lastEpochDistributions,kept⟩ := distributeEpochRewardsKeys paid
      exact ⟨epochRewards,lastEpochDistributions,by rw [if_pos rfl,kept,staking]⟩
    · cases run
      exact ⟨mid.staking.epochRewards,mid.staking.lastEpochDistributions,by rw [if_pos rfl,← staking]⟩
  | false =>
    rw [starts] at run
    cases run
    exact ⟨.empty,∅,by rw [staking]; rfl⟩

theorem openBlockEpoch {s opened : ChainState} {idx : Int} (run : s.openBlock idx = .ok opened) :
    idx / epochLength ≤ opened.staking.currentEpoch ∧
      opened.staking.unbonding = (s.staking.dropMatured idx).unbonding := by
  obtain ⟨epochRewards,lastEpochDistributions,staking⟩ := openBlockStaking run
  rw [staking]
  split
  · exact ⟨le_refl _,rfl⟩
  · rename_i calm
    refine ⟨?_,rfl⟩
    simp only [epochStarts,Bool.or_eq_true,decide_eq_true_eq,not_or] at calm
    exact Int.not_lt.mp calm.1

variable [Env]

theorem applyTxsQueues {block : Block} {idx : Int} {rows : List (Transaction × Nat)} {s s' : ChainState}
    (run : rows.foldlM (applyTx block idx) s = .ok s') :
    s'.staking.unbonding = s.staking.unbonding ++ (rows.map Prod.fst).flatMap (Staking.queued · idx) ∧
      s'.staking.currentEpoch = s.staking.currentEpoch := by
  induction rows generalizing s with
  | nil =>
    cases run
    simp
  | cons row rest ih =>
    rw [List.foldlM_cons,Outcome.bindOk] at run
    obtain ⟨mid,first,run⟩ := run
    obtain ⟨later,kept⟩ := ih run
    simp only [applyTx,Outcome.bindOk,Outcome.withinOk] at first
    obtain ⟨charged,charge,_,⟨staking,staked,rfl⟩,tokens,-,rfl⟩ := first
    rw [(chargeTxStaking charge).1] at staked
    obtain ⟨queue,epoch⟩ := Staking.applyTxQueues staked
    refine ⟨?_,kept.trans epoch⟩
    rw [later,queue,List.map_cons,List.flatMap_cons,List.append_assoc]

omit [Env] in
theorem payRewardSameQueue {s c : ChainState} {block : Block} {idx : Int} (run : s.payReward block idx = .ok c) :
    Staking.SameQueue s.staking c.staking := by
  simp only [payReward] at run
  split at run
  · simp only [Outcome.bindOk,Outcome.withinOk] at run
    obtain ⟨_,⟨ledger,-,rfl⟩,run⟩ := run
    cases run
    exact ⟨rfl,rfl⟩
  · cases run
    exact ⟨rfl,rfl⟩

theorem applyBlockStaking {s c : ChainState} {block : Block} {idx : Int} (run : s.applyBlock block idx = .ok c) :
    ∃ opened looped, s.openBlock idx = .ok opened ∧
      block.transactions.foldlM (fun k tx => Staking.applyTx k tx idx) opened.staking = .ok looped ∧
      ∃ epochRewards, c.staking = { looped with epochRewards } := by
  simp only [applyBlock,Outcome.bindOk] at run
  obtain ⟨opened,opening,looped,loop,paying⟩ := run
  obtain ⟨epochRewards,paid⟩ := payRewardKeys paying
  have rows := Outcome.foldProjects ChainState.staking
    (fun k (row : Transaction × Nat) => Staking.applyTx k row.1 idx) (fun _ _ _ step => applyTxStaking step) loop
  refine ⟨opened,looped.staking,opening,?_,epochRewards,paid⟩
  rw [← rows]
  conv_lhs => rw [← List.zipIdx_map_fst 0 block.transactions,List.foldlM_map]

theorem applyBlockQueue {s c : ChainState} {block : Block} {idx : Int} (run : s.applyBlock block idx = .ok c) :
    c.staking.unbonding =
        (s.staking.dropMatured idx).unbonding ++ block.transactions.flatMap (Staking.queued · idx) ∧
      idx / epochLength ≤ c.staking.currentEpoch := by
  simp only [applyBlock,Outcome.bindOk] at run
  obtain ⟨opened,opening,looped,loop,paying⟩ := run
  obtain ⟨epoch,queue⟩ := openBlockEpoch opening
  obtain ⟨grown,kept⟩ := applyTxsQueues loop
  have same := payRewardSameQueue paying
  rw [List.zipIdx_map_fst] at grown
  refine ⟨by rw [same.unbonding,grown,queue],?_⟩
  rw [same.currentEpoch,kept]
  exact epoch

end ChainState

namespace Blockchain
variable [Env]

section Rollback

theorem undoTxsMoney (block : Block) (txs : List Transaction) (s : Blockchain) :
    (txs.foldl (undoTx block) s).state.ledger = s.state.ledger ∧
      (txs.foldl (undoTx block) s).state.staking.unbonding =
        s.state.staking.unbonding.filter (fun entry => entry ∉ txs.flatMap (Staking.queued · block.index)) := by
  induction txs generalizing s with
  | nil => simp
  | cons tx rest ih =>
    obtain ⟨ledger,queue⟩ := ih (undoTx block s tx)
    refine ⟨ledger.trans rfl,queue.trans ?_⟩
    have first : (undoTx block s tx).state.staking.unbonding =
        s.state.staking.unbonding.filter (fun entry => entry ∉ Staking.queued tx block.index) :=
      Staking.undoTxUnqueues ..
    rw [first,List.filter_filter]
    refine List.filter_congr (fun entry _ => ?_)
    simp only [List.flatMap_cons,List.mem_append]
    by_cases here : entry ∈ Staking.queued tx block.index <;> simp [here]

omit [Env] in
theorem undoTrieState (s : Blockchain) (blockIndex : Int) :
    (Outcome.stateOf (s.undoTrie blockIndex)).state = s.state := by
  simp only [undoTrie]
  split
  · split
    · rfl
    · rw [rebuildStateTrie,Outcome.stateOfWithin]
      rfl
  · rw [rebuildStateTrie,Outcome.stateOfWithin]
    rfl

structure Unwound (block : Block) (m : ChainState) (u : Blockchain) : Prop where
  ledger : u.state.ledger = m.ledger
  unbonding : u.state.staking.unbonding = m.staking.unbonding.filter
    (fun entry => entry ∉ block.transactions.flatMap (Staking.queued · block.index))

variable {t : Blockchain} {block : Block} {m : ChainState}

theorem rollbackBlockShape (off : block.index % epochLength ≠ 0) (money : undoMoney t.state block = .ok m) :
    ∃ u, Unwound block m u ∧ u.stateSnapshots = t.stateSnapshots ∧
      t.rollbackBlock block = (u.undoTrie block.index >>= fun s => .ok s.undoTip) := by
  obtain ⟨start,begins,snapshots,shape⟩ : ∃ start : Blockchain, start.state = m ∧
      start.stateSnapshots = t.stateSnapshots ∧ t.rollbackBlock block =
        (let u := block.transactions.foldl recomputeNonce (block.transactions.foldl (undoTx block) start)
         Outcome.within u.withState (undoEpoch u.state block.index) >>= fun s =>
           s.undoTrie block.index >>= fun s => .ok s.undoTip) := by
    have logged : undoMoney (t.undoLog block).state block = .ok m := money
    refine ⟨{ (t.undoLog block).withState m with
      blockByHash := ((t.undoLog block).withState m).blockByHash.erase block.blockHash },rfl,rfl,?_⟩
    simp only [rollbackBlock,logged,Outcome.withinReturns]
    rfl
  obtain ⟨ledger,queue⟩ := undoTxsMoney block block.transactions start
  obtain ⟨state,backend,left,-⟩ := undoTxsShape block block.transactions start
  obtain ⟨senderNonce,recounted,-⟩ := recomputeNonces (block.transactions.foldl (undoTx block) start)
    block.transactions
  rw [begins] at ledger queue
  refine ⟨block.transactions.foldl recomputeNonce (block.transactions.foldl (undoTx block) start),?_,?_,?_⟩
  · rw [recounted]
    exact ⟨ledger,queue⟩
  · rw [recounted,left]
    exact snapshots
  · have still : ∀ u : Blockchain, undoEpoch u.state block.index = .ok u.state := fun u => if_neg off
    rw [shape]
    simp only [still,Outcome.withinReturns]
    rfl

theorem rollbackBlockUnwound (off : block.index % epochLength ≠ 0) (money : undoMoney t.state block = .ok m) :
    Unwound block m (Outcome.stateOf (t.rollbackBlock block)) := by
  obtain ⟨u,unwound,-,shape⟩ := rollbackBlockShape off money
  have state := undoTrieState u block.index
  rw [shape]
  refine Outcome.leavesBind (Unwound block m) ?_ (fun w _ restored => ⟨restored.ledger,restored.unbonding⟩)
  exact ⟨by rw [state]; exact unwound.ledger,by rw [state]; exact unwound.unbonding⟩

theorem rollbackBlockReturns (off : block.index % epochLength ≠ 0) (money : undoMoney t.state block = .ok m)
    (later : 0 ≤ block.index - 1) (held : block.index - 1 ∈ t.stateSnapshots) :
    ∃ u, t.rollbackBlock block = .ok u := by
  obtain ⟨u,-,snapshots,shape⟩ := rollbackBlockShape off money
  obtain ⟨entries,found⟩ := Option.isSome_iff_exists.mp (Std.ExtTreeMap.mem_iff_isSome_getElem?.mp held)
  have kept : (u.stateSnapshots.erase block.index)[block.index - 1]? = some entries := by
    rw [Std.ExtTreeMap.getElem?_erase,snapshots,found]
    split
    · rename_i same
      have := compare_eq_iff_eq.mp same
      omega
    · rfl
  rw [shape]
  simp only [undoTrie,kept,if_pos later]
  exact ⟨_,rfl⟩

end Rollback

section Placed

structure Placed (s : Blockchain) : Prop where
  coherent : Coherent s
  epoch : s.height / epochLength ≤ s.state.staking.currentEpoch
  queue : ∀ entry ∈ s.state.staking.unbonding, entry.releaseBlock ≤ s.height + unbondingPeriod

variable {s s' : Blockchain} {block : Block}

omit [Env] in
theorem Placed.calm (placed : Placed s) (off : (s.height + 1) % epochLength ≠ 0) :
    ChainState.epochStarts s.state.staking (s.height + 1) = false := by
  have epoch := placed.epoch
  have later : s.height + 1 ≠ 0 := by
    intro zero
    rw [zero] at off
    exact off rfl
  simp only [epochLength] at off epoch
  rw [ChainState.epochStarts,Bool.or_eq_false_iff,Bool.and_eq_false_iff]
  simp only [epochLength]
  exact ⟨decide_eq_false (by omega),.inl (beq_eq_false_iff_ne.mpr later)⟩

theorem appliedPlaced {c : ChainState} (placed : Placed s) (applied : s.state.applyBlock block (s.height + 1) = .ok c)
    (height : s'.height = s.height + 1)
    (staking : s'.state.staking = c.staking.pruneDistributions (pruneBefore (s.height + 1))) : s'.height / epochLength ≤
      s'.state.staking.currentEpoch ∧
      ∀ entry ∈ s'.state.staking.unbonding, entry.releaseBlock ≤ s'.height + unbondingPeriod := by
  obtain ⟨queue,epoch⟩ := ChainState.applyBlockQueue applied
  have pruned : ∀ k : Staking, Staking.SameQueue k (k.pruneDistributions (pruneBefore (s.height + 1))) := by
    intro k
    unfold Staking.pruneDistributions
    split <;> exact ⟨rfl,rfl⟩
  have same := pruned c.staking
  rw [height,staking,same.currentEpoch,same.unbonding,queue]
  refine ⟨epoch,fun entry inside => ?_⟩
  rcases List.mem_append.mp inside with old | new
  · have := placed.queue entry (List.mem_filter.mp old).1
    omega
  · obtain ⟨tx,-,queued⟩ := List.mem_flatMap.mp new
    rw [Staking.queuedRelease queued]

theorem acceptsPlaced (placed : Placed s) (step : Accepts s block s') : Placed s' := by
  obtain ⟨c,grown⟩ := acceptsGrown step
  obtain ⟨epoch,queue⟩ := appliedPlaced placed grown.applied grown.height grown.staking
  exact ⟨acceptsCoherent placed.coherent step,epoch,queue⟩

theorem submitPlaced (placed : Placed s) (now : Int) (tx : Transaction) : Placed (s.submitTx now tx).2 := by
  obtain ⟨height,tip⟩ := submitTip s now tx
  have state := submitState s now tx
  refine ⟨⟨?_,?_⟩,?_,?_⟩
  · rw [height]
    exact placed.coherent.bounded
  · rw [height,tip]
    exact placed.coherent.tip
  · rw [height,state]
    exact placed.epoch
  · rw [height,state]
    exact placed.queue

theorem builtPlaced (built : Built s) : Placed s := by
  induction built with
  | memory => exact ⟨builtCoherent .memory,show (-1 : Int) / epochLength ≤ 0 by decide,by simp [new]⟩
  | sqlite => exact ⟨builtCoherent .sqlite,show (-1 : Int) / epochLength ≤ 0 by decide,by simp [new]⟩
  | @initChain s s' address sk pk now prior run ih =>
    by_cases fresh : s.height < 0
    · obtain ⟨_,_,t,staked,_,_,_,-,-,appended,same,-,final⟩ := initChainOk fresh run
      obtain ⟨c,grown⟩ := appendInnerOk appended
      obtain ⟨epoch,queue⟩ := appliedPlaced ih grown.applied grown.height grown.staking
      have kept : staked.height = t.height ∧ Staking.SameQueue t.state.staking staked.state.staking := by
        rw [same]
        split <;> exact ⟨rfl,rfl,rfl⟩
      have height : s'.height = t.height := final ▸ kept.1
      have staking : Staking.SameQueue t.state.staking s'.state.staking := final ▸ kept.2
      refine ⟨initChainCoherent ih.coherent run,?_,?_⟩
      · rw [height,staking.currentEpoch]
        exact epoch
      · rw [height,staking.unbonding]
        exact queue
    · unfold initChain at run
      rw [if_pos (by omega)] at run
      cases run
      exact ih
  | activate address prior run ih =>
    obtain ⟨height,-,-,-,-,-,staking,-⟩ := activateKeeps run
    refine ⟨builtCoherent (.activate address prior run),?_,?_⟩
    · rw [height,staking]
      exact ih.epoch
    · rw [height,staking]
      exact ih.queue
  | submit now tx prior ih => exact submitPlaced ih now tx
  | accept block prior step ih => exact acceptsPlaced ih step

end Placed

def takeBack (s : Blockchain) (block : Block) : Blockchain := Outcome.stateOf (s.popBlock.rollbackBlock block)

omit [Env] in
theorem popState (s : Blockchain) : s.popBlock.state = s.state := by
  unfold popBlock
  split <;> rfl

section Step
variable {s s' : Blockchain} {block : Block}

theorem acceptsUndone (coherent : Coherent s) (off : (s.height + 1) % epochLength ≠ 0) (step : Accepts s block s')
    {t : Blockchain} (agrees : s'.state.ledger.Agrees t.state.ledger) :
    ∃ opened m, s.state.openBlock (s.height + 1) = .ok opened ∧ Unwound block m (t.takeBack block) ∧
      m.staking.unbonding = t.state.staking.unbonding ∧
      opened.ledger.Ahead m.ledger block.validator (s.state.ledger.rewardLeft (s.height + 1)) ∧
      (s.height ∈ t.stateSnapshots → ∃ u, t.popBlock.rollbackBlock block = .ok u) := by
  obtain ⟨c,grown⟩ := acceptsGrown step
  have position := acceptsPosition coherent step
  have bounded := coherent.bounded
  have later : 0 < block.index := by
    rw [position]
    by_contra low
    rw [show s.height + 1 = 0 by omega] at off
    exact off rfl
  have applied := grown.applied
  rw [← position] at off applied ⊢
  rw [grown.ledger] at agrees
  obtain ⟨opened,m,opening,money,queue,ahead⟩ := ChainState.undoMoneyAhead later applied agrees
  rw [← popState t] at money
  refine ⟨opened,m,opening,rollbackBlockUnwound off money,queue,ahead,fun held => ?_⟩
  refine rollbackBlockReturns off money (by omega) ?_
  rw [popSnapshots,position,Int.add_sub_cancel]
  exact held

theorem acceptsSaves (step : Accepts s block s') : s'.stateSnapshots =
    (({ s with trie := s'.trie } : Blockchain).saveSnapshot (s.height + 1)).stateSnapshots := by
  cases step with
  | received now answer =>
    obtain ⟨-,-,t,appended,rfl⟩ := addBlockOk answer
    have saved := appendInnerSaves appended
    exact saved
  | produced address sk now later answer stored =>
    obtain ⟨-,parent,draft,t,u,-,-,-,appended,replaced,rfl⟩ := produceBlockOk answer
    obtain ⟨backend,blockByHash,rfl⟩ := replaceTipOk replaced
    have saved := appendInnerSaves appended
    exact saved

theorem acceptsMinted (step : Accepts s block s') : s'.state.ledger.totalMinted =
    s.state.ledger.totalMinted + s.state.ledger.rewardAt (s.height + 1) := by
  obtain ⟨c,grown⟩ := acceptsGrown step
  have applied := grown.applied
  simp only [ChainState.applyBlock,Outcome.bindOk] at applied
  obtain ⟨opened,opening,looped,loop,paying⟩ := applied
  have before := (ChainState.openBlockCirculates opening).1.trans (ChainState.applyTxsCirculates loop).1
  rw [grown.ledger,(ChainState.payRewardAhead paying).minted,before.minted,
    Ledger.rewardAtSame before.minted before.active]

end Step

section Blocks

inductive Grows (s : Blockchain) : List Block → Blockchain → Prop where
  | start : Grows s [] s
  | submit {blocks : List Block} {m : Blockchain} (now : Int) (tx : Transaction) (prior : Grows s blocks m) :
      Grows s blocks (m.submitTx now tx).2
  | accept {blocks : List Block} {m s' : Blockchain} (block : Block) (prior : Grows s blocks m)
      (off : (m.height + 1) % epochLength ≠ 0) (idle : m.state.staking.matured (m.height + 1) = [])
      (step : Accepts m block s') : Grows s (blocks ++ [block]) s'

variable {s s' : Blockchain} {blocks : List Block}

theorem growsPlaced (placed : Placed s) (grows : Grows s blocks s') : Placed s' := by
  induction grows with
  | start => exact placed
  | submit now tx prior ih => exact submitPlaced ih now tx
  | accept block prior off idle step ih => exact acceptsPlaced ih step

theorem growsHeight (grows : Grows s blocks s') : s'.height = s.height + blocks.length := by
  induction grows with
  | start => simp
  | @submit blocks m now tx prior ih =>
    rw [(submitTip m now tx).1]
    exact ih
  | accept block prior off idle step ih =>
    obtain ⟨c,grown⟩ := acceptsGrown step
    rw [grown.height,ih,List.length_append]
    simp [Int.add_assoc]

theorem growsSnapshots (grows : Grows s blocks s') (saved : s.height ∈ s.stateSnapshots)
    (short : (blocks.length : Int) ≤ maxReorgDepth) :
    ∀ height, s.height ≤ height → height ≤ s'.height → height ∈ s'.stateSnapshots := by
  induction grows with
  | start =>
    intro height low high
    rwa [show height = s.height by omega]
  | @submit blocks m now tx prior ih =>
    have same : (m.submitTx now tx).2.stateSnapshots = m.stateSnapshots := by
      unfold submitTx
      split <;> rfl
    rw [(submitTip m now tx).1,same]
    exact ih short
  | @accept blocks m s' block prior off idle step ih =>
    obtain ⟨c,grown⟩ := acceptsGrown step
    have length := growsHeight prior
    rw [List.length_append,List.length_singleton] at short
    intro height low high
    rw [grown.height] at high
    rw [acceptsSaves step]
    have inserted : height ∈ m.stateSnapshots.insert (m.height + 1) s'.trie.snapshot := by
      rw [Dict.memInsert]
      by_cases top : height = m.height + 1
      · exact .inl top
      · exact .inr (ih (by omega) height low (by omega))
    simp only [saveSnapshot]
    split
    · refine (Dict.memErase ..).mpr ⟨?_,inserted⟩
      simp only [pruneBefore]
      push_cast at short
      omega
    · exact inserted

theorem rewardLeftRoom {m : Blockchain} {block : Block} (step : Accepts m block s')
    (room : initialBlockReward ≤ maxSupply - s'.state.ledger.totalMinted) :
    m.state.ledger.rewardLeft (m.height + 1) = 0 := by
  refine (Ledger.rewardLeftNone ..).mpr (.inr ?_)
  have most := m.state.ledger.rewardAtMost (m.height + 1)
  rw [acceptsMinted step] at room
  omega

theorem growsRestored (placed : Placed s) (grows : Grows s blocks s') :
    initialBlockReward ≤ maxSupply - s'.state.ledger.totalMinted →
    ∀ t : Blockchain, s'.state.ledger.Agrees t.state.ledger →
      s.state.ledger.Agrees (blocks.reverse.foldl takeBack t).state.ledger := by
  induction grows with
  | start => exact fun _ t agrees => agrees
  | submit now tx prior ih =>
    rw [submitState]
    exact ih
  | @accept blocks m s' block prior off idle step ih =>
    intro room t agrees
    have before := growsPlaced placed prior
    obtain ⟨opened,left,opening,unwound,-,ahead,-⟩ := acceptsUndone before.coherent off step agrees
    obtain ⟨-,still⟩ := ChainState.openBlockOff (before.calm off) opening
    rw [rewardLeftRoom step room,still idle,← unwound.ledger] at ahead
    rw [List.reverse_append,List.reverse_singleton,List.singleton_append,List.foldl_cons]
    refine ih ?_ (t.takeBack block) ahead.agrees
    have paid := m.state.ledger.rewardAtNonneg (m.height + 1)
    rw [acceptsMinted step] at room
    omega

theorem growsReturn (placed : Placed s) (grows : Grows s blocks s') :
    initialBlockReward ≤ maxSupply - s'.state.ledger.totalMinted →
    ∀ t : Blockchain, s'.state.ledger.Agrees t.state.ledger →
      (∀ height, s.height ≤ height → height ≤ s'.height → height ∈ t.stateSnapshots) →
      blocks.reverse.foldlM (fun u block => u.popBlock.rollbackBlock block) t =
        .ok (blocks.reverse.foldl takeBack t) := by
  induction grows with
  | start => exact fun _ t _ _ => rfl
  | @submit blocks m now tx prior ih =>
    rw [submitState,(submitTip m now tx).1]
    exact ih
  | @accept blocks m s' block prior off idle step ih =>
    intro room t agrees saved
    have before := growsPlaced placed prior
    have length := growsHeight prior
    obtain ⟨c,grown⟩ := acceptsGrown step
    obtain ⟨opened,left,opening,unwound,-,ahead,returns⟩ := acceptsUndone before.coherent off step agrees
    obtain ⟨-,still⟩ := ChainState.openBlockOff (before.calm off) opening
    rw [rewardLeftRoom step room,still idle,← unwound.ledger] at ahead
    obtain ⟨u,undone⟩ := returns (saved m.height (by omega) (by rw [grown.height]; omega))
    have taken : t.takeBack block = u := by rw [takeBack,undone]; rfl
    rw [List.reverse_append,List.reverse_singleton,List.singleton_append,List.foldl_cons,List.foldlM_cons,undone,taken]
    rw [taken] at ahead
    refine ih ?_ u ahead.agrees (fun height low high => ?_)
    · have paid := m.state.ledger.rewardAtNonneg (m.height + 1)
      rw [acceptsMinted step] at room
      omega
    · rw [(rollbackBlockErases undone).1,popSnapshots,acceptsPosition before.coherent step]
      exact (Dict.memErase ..).mpr ⟨by omega,saved height low (by rw [grown.height]; omega)⟩

theorem moneyRestored (s s' : Blockchain) (blocks : List Block) (placed : Placed s) (grows : Grows s blocks s')
    (room : initialBlockReward ≤ maxSupply - s'.state.ledger.totalMinted) :
    let u := blocks.reverse.foldl takeBack s'
    (∀ address, u.getBalance address = s.getBalance address) ∧
      u.state.ledger.totalMinted = s.state.ledger.totalMinted ∧
      u.state.ledger.totalBurned = s.state.ledger.totalBurned ∧
      ((blocks.length : Int) ≤ maxReorgDepth → s.height ∈ s.stateSnapshots →
        blocks.reverse.foldlM (fun u block => u.popBlock.rollbackBlock block) s' = .ok u) := by
  have restored := growsRestored placed grows room s' (Ledger.agreesRefl _)
  refine ⟨restored.balance,restored.minted,restored.burned,fun short saved => ?_⟩
  exact growsReturn placed grows room s' (Ledger.agreesRefl _) (growsSnapshots grows saved short)

end Blocks

section Queue
variable {s s' : Blockchain} {block : Block}

theorem takeBackQueue (placed : Placed s) (off : (s.height + 1) % epochLength ≠ 0) (step : Accepts s block s') :
    (s'.takeBack block).state.staking.unbonding = (s.state.staking.dropMatured (s.height + 1)).unbonding := by
  obtain ⟨opened,m,-,unwound,same,-⟩ := acceptsUndone placed.coherent off step (Ledger.agreesRefl _)
  obtain ⟨c,grown⟩ := acceptsGrown step
  obtain ⟨queue,-⟩ := ChainState.applyBlockQueue grown.applied
  have position := acceptsPosition placed.coherent step
  have kept : s'.state.staking.unbonding = c.staking.unbonding := by
    rw [grown.staking,Staking.pruneDistributions]
    split <;> rfl
  rw [unwound.unbonding,same,kept,queue,position,List.filter_append]
  -- nothing that was queued before is released as late as what the block queues
  have old : ∀ entry ∈ (s.state.staking.dropMatured (s.height + 1)).unbonding,
      entry ∉ block.transactions.flatMap (Staking.queued · (s.height + 1)) := by
    intro entry inside listed
    obtain ⟨tx,-,queued⟩ := List.mem_flatMap.mp listed
    have early := placed.queue entry (List.mem_filter.mp inside).1
    rw [Staking.queuedRelease queued] at early
    omega
  rw [List.filter_eq_self.mpr (fun entry inside => decide_eq_true (old entry inside)),
    List.filter_eq_nil_iff.mpr (fun entry inside => by simpa using inside),List.append_nil]

def Staker (s : Blockchain) (address : Address) : Prop :=
  (∃ validator, 0 < s.state.staking.stakes.get (validator,address)) ∨
    ∃ entry ∈ s.state.staking.unbonding, entry.staker = address

structure Restored (s : Blockchain) (block : Block) (s' : Blockchain) : Prop where
  balance : ∀ address, s.Staker address → (s'.takeBack block).getBalance address = s.getBalance address
  unbonding : (s'.takeBack block).state.staking.unbonding = s.state.staking.unbonding

structure Restorable (s : Blockchain) (block : Block) : Prop where
  idle : s.state.staking.matured (s.height + 1) = []
  room : s.Staker block.validator → s.state.ledger.rewardAt (s.height + 1) = 0 ∨
    s.state.ledger.rewardAt (s.height + 1) ≤
      maxSupply - s.state.ledger.totalMinted - s.state.ledger.rewardAt (s.height + 1)

theorem unbondingsRestored (s s' : Blockchain) (block : Block) (placed : Placed s)
    (off : (s.height + 1) % epochLength ≠ 0) (step : Accepts s block s') :
    Restored s block s' ↔ Restorable s block := by
  obtain ⟨opened,m,opening,unwound,-,ahead,-⟩ := acceptsUndone placed.coherent off step (Ledger.agreesRefl _)
  obtain ⟨-,still⟩ := ChainState.openBlockOff (placed.calm off) opening
  have queue := takeBackQueue placed off step
  rw [← unwound.ledger] at ahead
  constructor
  · intro restored
    have late := queue.symm.trans restored.unbonding
    have idle : s.state.staking.matured (s.height + 1) = [] := by
      refine List.filter_eq_nil_iff.mpr (fun entry inside => ?_)
      have := List.filter_eq_self.mp late entry inside
      simpa using this
    refine ⟨idle,fun staker => (Ledger.rewardLeftNone ..).mp ?_⟩
    have paid := ahead.balance block.validator
    have same := restored.balance block.validator staker
    rw [still idle,if_pos rfl] at paid
    simp only [getBalance] at same
    omega
  · intro restorable
    rw [still restorable.idle] at ahead
    refine ⟨fun address staker => (ahead.balance address).trans ?_,queue.trans ?_⟩
    · split
      · rename_i own
        rw [(Ledger.rewardLeftNone ..).mpr (restorable.room (own ▸ staker))]
        exact Int.add_zero _
      · exact Int.add_zero _
    · refine List.filter_eq_self.mpr (fun entry inside => ?_)
      have := List.filter_eq_nil_iff.mp restorable.idle entry inside
      simpa using this

end Queue

end Blockchain

namespace Devnet

section Turning
attribute [local instance] turning
open Blockchain

theorem moneyRestoredRepaid :
    let u := [traded.tipBlock,repaid.tipBlock].reverse.foldl takeBack repaid
    u.getBalance payer = trading.getBalance payer ∧ u.getBalance purse = trading.getBalance purse ∧
      u.state.ledger.totalMinted = trading.state.ledger.totalMinted ∧
      u.state.ledger.totalBurned = trading.state.ledger.totalBurned ∧
      [traded.tipBlock,repaid.tipBlock].reverse.foldlM (fun u block => u.popBlock.rollbackBlock block) repaid = .ok u := by
  have run : ((trading.height + 1) % epochLength ≠ 0 ∧ trading.state.staking.matured (trading.height + 1) = []) ∧
      ((repaying.height + 1) % epochLength ≠ 0 ∧ repaying.state.staking.matured (repaying.height + 1) = []) ∧
      initialBlockReward ≤ maxSupply - repaid.state.ledger.totalMinted ∧ trading.height ∈ trading.stateSnapshots := by
    decide +kernel
  obtain ⟨⟨off,idle⟩,⟨offLater,idleLater⟩,room,saved⟩ := run
  have first : Grows trading [traded.tipBlock] repaying := by
    rw [repaying]
    exact .submit 103 repayment (.accept _ .start off idle trades.1)
  obtain ⟨balance,minted,burned,returned⟩ := moneyRestored trading repaid [traded.tipBlock,repaid.tipBlock]
    (builtPlaced tradingBuilt) (.accept _ first offLater idleLater trades.2.2.1) room
  exact ⟨balance payer,balance purse,minted,burned,returned (by decide) saved⟩

theorem unbondingsRestoredTraded : Restored trading traded.tipBlock traded ↔ Restorable trading traded.tipBlock :=
  unbondingsRestored trading traded traded.tipBlock (builtPlaced tradingBuilt) (by decide +kernel) trades.1

end Turning

attribute [local instance] legacy
open Blockchain

def ripe : Blockchain :=
  let tip : Block := { genesis.tipBlock with index := 100 }
  { notarizing with
    height := 100
    latestBlock := some tip
    backend := .sqlite { height := 100, blocks := (∅ : Dict Int Block).insert 100 tip }
    state := { notarizing.state with staking := { notarizing.state.staking with
      currentEpoch := 1
      unbonding := [⟨address,address,1,101⟩] } } }

def ripened : Blockchain := (ripe.produceBlock address key 102 102).2

theorem ripePlaced : Placed ripe := by
  refine ⟨⟨by decide,?_⟩,by decide,?_⟩
  · intro block tip
    cases tip
    rfl
  · intro entry inside
    rw [List.mem_singleton.mp inside]
    decide

theorem unbondingsLost : ¬∀ (s s' : Blockchain) (block : Block), Placed s → (s.height + 1) % epochLength ≠ 0 →
    Accepts s block s' → Restored s block s' := by
  have run : (ripe.produceBlock address key 102 102).1 = .accepted ∧ ripened.latestBlock.isSome = true ∧
      (ripened.takeBack ripened.tipBlock).state.staking.unbonding ≠ ripe.state.staking.unbonding := by decide +kernel
  intro claim
  have step := producedAccepts (by rw [ripened]) run.1 run.2.1
  exact run.2.2 (claim ripe ripened ripened.tipBlock ripePlaced (by decide) step).unbonding

end Devnet

end QbitNetwork
