import QbitNetwork.Unwinding

/-! What `_rollback_block` comes to where it returns, stage by stage. -/
namespace QbitNetwork

namespace Ledger

structure SameMint (l l' : Ledger) : Prop where
  minted : l'.totalMinted = l.totalMinted
  active : l'.financialActive = l.financialActive

theorem SameMint.trans {a b c : Ledger} (first : SameMint a b) (second : SameMint b c) : SameMint a c :=
  ⟨second.minted.trans first.minted,second.active.trans first.active⟩

theorem creditSameMint {l l' : Ledger} {address : Address} {amount : Int} (run : l.credit address amount = .ok l') :
    SameMint l l' := ⟨(creditMoved run).2.minted,(creditMoved run).2.active⟩

theorem rollbackDebitSameMint (l : Ledger) (address : Address) (amount : Int) :
    SameMint l (l.rollbackDebit address amount) := by
  unfold rollbackDebit putBalance
  split
  · exact ⟨rfl,rfl⟩
  · split <;> exact ⟨rfl,rfl⟩

theorem refundTxSameMint {dynamic : Bool} {block : Block} {tx : Transaction} {l l' : Ledger}
    (run : l.refundTx dynamic block tx = .ok l') : SameMint l l' := by
  rw [refundTxHalves,Outcome.bindOk] at run
  obtain ⟨mid,amount,fee⟩ := run
  have half : SameMint l mid := by
    unfold refundAmount at amount
    split at amount
    · split at amount
      · exact creditSameMint amount
      · cases amount
        exact ⟨rfl,rfl⟩
    · split at amount
      · exact creditSameMint amount
      · cases amount
        exact ⟨rfl,rfl⟩
    · split at amount
      · contradiction
      · exact (rollbackDebitSameMint ..).trans (creditSameMint amount)
    · cases amount
      exact ⟨rfl,rfl⟩
  refine half.trans ?_
  simp only [refundFee] at fee
  split at fee
  · split at fee
    · exact (rollbackDebitSameMint ..).trans (creditSameMint fee)
    · cases fee
      exact ⟨rfl,rfl⟩
  · split at fee
    · have debited := rollbackDebitSameMint mid block.validator (txFee dynamic block.baseFee tx / 2)
      have credited := creditSameMint fee
      exact ⟨credited.minted.trans debited.minted,credited.active.trans debited.active⟩
    · cases fee
      exact ⟨rfl,rfl⟩

theorem undoDistributionSameMint {l l' : Ledger} {record : Distribution} (run : l.undoDistribution record = .ok l') :
    SameMint l l' := by
  have debits : ∀ (rows : List (Address × Int)) (l : Ledger),
      SameMint l (rows.foldl (fun l row => l.rollbackDebit row.1 row.2) l) := by
    intro rows
    induction rows with
    | nil => exact fun l => ⟨rfl,rfl⟩
    | cons row rest ih => exact fun l => (rollbackDebitSameMint ..).trans (ih _)
  unfold undoDistribution at run
  refine (debits record.credits l).trans ?_
  refine Outcome.foldInvariant (SameMint (record.credits.foldl (fun l row => l.rollbackDebit row.1 row.2) l)) ?_ ⟨rfl,rfl⟩ run
  intro m row m' kept credited
  exact kept.trans (creditSameMint credited)

end Ledger

namespace Staking

structure SameEpochs (k k' : Staking) : Prop where
  currentEpoch : k'.currentEpoch = k.currentEpoch
  epochs : k'.epochs = k.epochs
  epochValidators : k'.epochValidators = k.epochValidators

theorem SameEpochs.trans {a b c : Staking} (first : SameEpochs a b) (second : SameEpochs b c) : SameEpochs a c :=
  ⟨second.currentEpoch.trans first.currentEpoch,second.epochs.trans first.epochs,
    second.epochValidators.trans first.epochValidators⟩

def epochLeft (k : Staking) (blockIndex : Int) : Staking :=
  if blockIndex % epochLength = 0 then k.leaveEpoch (blockIndex / epochLength) else k

theorem SameEpochs.left {k k' : Staking} (same : SameEpochs k k') (blockIndex : Int) :
    SameEpochs (k.epochLeft blockIndex) (k'.epochLeft blockIndex) := by
  unfold epochLeft leaveEpoch
  dsimp only
  rw [same.epochs]
  split
  · split <;> exact ⟨rfl,rfl,rfl⟩
  · exact same

end Staking

namespace Blockchain
variable [Env]

def undoStart (t : Blockchain) (block : Block) (m : ChainState) : Blockchain :=
  { (t.undoLog block).withState m with blockByHash := t.blockByHash.erase block.blockHash }

theorem rollbackBlockOk {block : Block} {t u : Blockchain} (run : t.rollbackBlock block = .ok u) :
    ∃ m senderNonce, undoMoney t.state block = .ok m ∧
      undoEpoch (let state := (block.transactions.foldl (undoTx block) (t.undoStart block m)).state
        { state with index := { state.index with senderNonce } }) block.index = .ok u.state := by
  simp only [rollbackBlock,Outcome.bindOk,Outcome.withinOk] at run
  obtain ⟨_,⟨m,money,rfl⟩,_,⟨left,epoch,rfl⟩,w,trie,run⟩ := run
  cases run
  obtain ⟨final,rfl⟩ := undoTrieOk trie
  obtain ⟨senderNonce,recounted,-⟩ := recomputeNonces
    (block.transactions.foldl (undoTx block) (t.undoStart block m)) block.transactions
  refine ⟨m,senderNonce,money,?_⟩
  change undoEpoch (block.transactions.foldl recomputeNonce
    (block.transactions.foldl (undoTx block) (t.undoStart block m))).state block.index = _ at epoch
  rw [recounted] at epoch
  exact epoch

theorem undoMoneySameMint {s m : ChainState} {block : Block} (run : undoMoney s block = .ok m) :
    Ledger.SameMint (if 0 < block.index ∧ s.ledger.financialActive then
      s.ledger.undoReward block.validator (s.ledger.calcBlockReward block.index) else s.ledger) m.ledger := by
  unfold undoMoney at run
  split at run
  · rename_i paying
    rw [if_pos paying]
    obtain ⟨ledger,refunds,rfl⟩ := Outcome.withinOk .. |>.mp run
    refine Outcome.foldInvariant (Ledger.SameMint (s.ledger.undoReward block.validator
      (s.ledger.calcBlockReward block.index))) ?_ ⟨rfl,rfl⟩ refunds
    intro l tx l' kept refunded
    exact kept.trans (Ledger.refundTxSameMint refunded)
  · rename_i unpaid
    rw [if_neg unpaid]
    cases run
    exact ⟨rfl,rfl⟩

omit [Env] in
theorem undoEpochSameMint {s s' : ChainState} {blockIndex : Int} (run : undoEpoch s blockIndex = .ok s') :
    Ledger.SameMint s.ledger s'.ledger := by
  simp only [undoEpoch] at run
  split at run
  · split at run
    · simp only [Outcome.bindOk,Outcome.withinOk] at run
      obtain ⟨_,⟨ledger,undone,rfl⟩,run⟩ := run
      cases run
      exact Ledger.undoDistributionSameMint undone
    · cases run
      exact ⟨rfl,rfl⟩
  · cases run
    exact ⟨rfl,rfl⟩

section Left
variable {t : Blockchain} {block : Block}

omit [Env] in
theorem lookupMapStore {f : Store → Store} (same : ∀ d, (f d).validatorRegistry = d.validatorRegistry) (t : Blockchain) :
    (t.mapStore f).findValidatorPkInChain = t.findValidatorPkInChain := by
  funext address
  unfold mapStore Backend.mapStore findValidatorPkInChain
  cases t.backend with
  | memory chainList => rfl
  | sqlite d =>
    simp only [Store.getValidator]
    rw [same]

theorem persistUndoValidators (after : ChainState) (tx : Transaction) (d : Store) :
    (Store.persistUndo after tx d).validatorRegistry = d.validatorRegistry := by
  unfold Store.persistUndo
  split <;> dsimp only
  · rfl
  · split <;> rfl
  · rfl

theorem undoTxsState (block : Block) (txs : List Transaction) (t : Blockchain) :
    (txs.foldl (undoTx block) t).state.tokens = txs.foldl Tokens.undoTx t.state.tokens ∧
      (txs.foldl (undoTx block) t).state.index = txs.foldl unindex t.state.index ∧
      (txs.foldl (undoTx block) t).state.staking =
        txs.foldl (fun k tx => k.undoTx t.findValidatorPkInChain tx block.index) t.state.staking := by
  induction txs generalizing t with
  | nil => exact ⟨rfl,rfl,rfl⟩
  | cons tx rest ih =>
    obtain ⟨tokens,index,staking⟩ := ih (undoTx block t tx)
    have lookup : (undoTx block t tx).findValidatorPkInChain = t.findValidatorPkInChain :=
      lookupMapStore (persistUndoValidators _ tx) _
    rw [lookup] at staking
    exact ⟨tokens,index,staking⟩

structure Left (t : Blockchain) (block : Block) (u : Blockchain) : Prop where
  tokens : u.state.tokens = block.transactions.foldl Tokens.undoTx t.state.tokens
  index : ∃ senderNonce, u.state.index = { block.transactions.foldl unindex t.state.index with senderNonce }
  staking : ∃ epochRewards currentEpoch epochs epochValidators lastEpochDistributions, u.state.staking =
    { block.transactions.foldl (fun k tx => k.undoTx t.findValidatorPkInChain tx block.index)
        { t.state.staking with epochRewards } with
      currentEpoch, epochs, epochValidators, lastEpochDistributions }
  epochs : t.state.staking.Drawn → Staking.SameEpochs (t.state.staking.epochLeft block.index) u.state.staking

theorem undoMoneyLeft {s m : ChainState} (run : undoMoney s block = .ok m) :
    m.tokens = s.tokens ∧ m.index = s.index ∧ ∃ epochRewards, m.staking = { s.staking with epochRewards } := by
  simp only [undoMoney] at run
  split at run
  · obtain ⟨ledger,-,rfl⟩ := (Outcome.withinOk ..).mp run
    refine ⟨rfl,rfl,?_⟩
    unfold Staking.undoEpochReward
    split <;> exact ⟨_,rfl⟩
  · cases run
    exact ⟨rfl,rfl,_,rfl⟩

omit [Env] in
theorem undoEpochLeft (s : ChainState) (blockIndex : Int) :
    (Outcome.stateOf (undoEpoch s blockIndex)).tokens = s.tokens ∧
      (Outcome.stateOf (undoEpoch s blockIndex)).index = s.index ∧
      (∃ currentEpoch epochs epochValidators lastEpochDistributions,
        (Outcome.stateOf (undoEpoch s blockIndex)).staking =
          { s.staking with currentEpoch, epochs, epochValidators, lastEpochDistributions }) ∧
      (s.staking.Drawn →
        Staking.SameEpochs (s.staking.epochLeft blockIndex) (Outcome.stateOf (undoEpoch s blockIndex)).staking) := by
  have leaving : ∀ (k : Staking) (epoch : Int), ∃ currentEpoch epochs epochValidators,
      k.leaveEpoch epoch = { k with currentEpoch, epochs, epochValidators } := by
    intro k epoch
    simp only [Staking.leaveEpoch]
    split <;> exact ⟨_,_,_,rfl⟩
  have returns := fun drawn => undoEpochReturns (s := s) drawn blockIndex
  simp only [undoEpoch] at returns ⊢
  by_cases boundary : blockIndex % epochLength = 0
  · rw [if_pos boundary] at returns ⊢
    split at returns
    · rename_i paying
      rw [if_pos paying]
      generalize s.ledger.undoDistribution _ = undone at returns
      obtain ⟨currentEpoch,epochs,epochValidators,same⟩ := leaving { s.staking with
        lastEpochDistributions := s.staking.lastEpochDistributions.erase (blockIndex / epochLength - 1) }
        (blockIndex / epochLength)
      cases undone with
      | ok ledger =>
        refine ⟨rfl,rfl,⟨currentEpoch,epochs,epochValidators,_,same⟩,fun _ => ?_⟩
        rw [Staking.epochLeft,if_pos boundary]
        show Staking.SameEpochs _ (Staking.leaveEpoch _ _)
        unfold Staking.leaveEpoch
        dsimp only
        split <;> exact ⟨rfl,rfl,rfl⟩
      | error r =>
        refine ⟨rfl,rfl,⟨_,_,_,_,rfl⟩,fun drawn => ?_⟩
        obtain ⟨ledger,staking,answer,-⟩ := returns drawn
        cases answer
    · rename_i calm
      rw [if_neg calm]
      obtain ⟨currentEpoch,epochs,epochValidators,same⟩ := leaving s.staking (blockIndex / epochLength)
      refine ⟨rfl,rfl,⟨currentEpoch,epochs,epochValidators,_,same⟩,fun _ => ?_⟩
      rw [Staking.epochLeft,if_pos boundary]
      exact ⟨rfl,rfl,rfl⟩
  · rw [if_neg boundary]
    refine ⟨rfl,rfl,⟨_,_,_,_,rfl⟩,fun _ => ?_⟩
    rw [Staking.epochLeft,if_neg boundary]
    exact ⟨rfl,rfl,rfl⟩

theorem rollbackBlockStages {m : ChainState} (money : undoMoney t.state block = .ok m) :
    ∃ senderNonce, t.rollbackBlock block =
      (let v := block.transactions.foldl (undoTx block) (t.undoStart block m)
       let u := v.withState { v.state with index := { v.state.index with senderNonce } }
       Outcome.within u.withState (undoEpoch u.state block.index) >>= fun s =>
         s.undoTrie block.index >>= fun s => .ok s.undoTip) := by
  obtain ⟨senderNonce,recounted,-⟩ := recomputeNonces (block.transactions.foldl (undoTx block) (t.undoStart block m))
    block.transactions
  have logged : undoMoney (t.undoLog block).state block = .ok m := money
  refine ⟨senderNonce,?_⟩
  dsimp only
  rw [← recounted]
  simp only [rollbackBlock,logged,Outcome.withinReturns]
  rfl

theorem rollbackBlockState {m : ChainState} (money : undoMoney t.state block = .ok m) :
    ∃ senderNonce, (Outcome.stateOf (t.rollbackBlock block)).state = Outcome.stateOf (undoEpoch
      (let state := (block.transactions.foldl (undoTx block) (t.undoStart block m)).state
       { state with index := { state.index with senderNonce } }) block.index) := by
  obtain ⟨senderNonce,shape⟩ := rollbackBlockStages money
  refine ⟨senderNonce,?_⟩
  rw [shape]
  dsimp only
  generalize block.transactions.foldl (undoTx block) (t.undoStart block m) = v
  refine Outcome.leavesBind (fun u : Blockchain => u.state = _) ?_ (fun w _ left => ?_)
  · rw [Outcome.stateOfWithin]
    rfl
  · refine Outcome.leavesBind (fun u : Blockchain => u.state = _) ?_ (fun x _ left => left)
    rw [undoTrieState]
    exact left

theorem rollbackBlockLeft (refundable : 0 < block.index → Refundable block) :
    Left t block (Outcome.stateOf (t.rollbackBlock block)) := by
  obtain ⟨ledger,staking,money,-⟩ := undoMoneyReturns refundable t.state
  obtain ⟨tokens,index,epochRewards,same⟩ := undoMoneyLeft money
  generalize { t.state with ledger, staking } = m at money tokens index same
  obtain ⟨tokens',index',staking'⟩ := undoTxsState block block.transactions (t.undoStart block m)
  have lookup : (t.undoStart block m).findValidatorPkInChain = t.findValidatorPkInChain :=
    @lookupMapStore (·.deleteReceiptsForBlock block.index) (fun _ => rfl) t
  have start : (t.undoStart block m).state = m := rfl
  rw [start,tokens] at tokens'
  rw [start,index] at index'
  rw [start,lookup,same] at staking'
  obtain ⟨senderNonce,final⟩ := rollbackBlockState money
  dsimp only at final
  generalize (block.transactions.foldl (undoTx block) (t.undoStart block m)).state = v at tokens' index' staking' final
  obtain ⟨tokensLeft,indexLeft,⟨currentEpoch,epochs,epochValidators,lastEpochDistributions,stakingLeft⟩,frozen⟩ :=
    undoEpochLeft { v with index := { v.index with senderNonce } } block.index
  rw [← final] at tokensLeft indexLeft stakingLeft frozen
  refine ⟨tokensLeft.trans tokens',⟨senderNonce,indexLeft.trans ?_⟩,⟨epochRewards,currentEpoch,epochs,epochValidators,
    lastEpochDistributions,stakingLeft.trans ?_⟩,fun drawn => ?_⟩
  · show ({ v.index with senderNonce } : Index) = _
    rw [index']
  · show ({ v.staking with currentEpoch, epochs, epochValidators, lastEpochDistributions } : Staking) = _
    rw [staking']
  · obtain ⟨periods,seats⟩ := Staking.undoTxsPeriods t.findValidatorPkInChain block.transactions block.index
      { t.state.staking with epochRewards }
    have before : Staking.SameEpochs t.state.staking v.staking := by
      rw [staking']
      exact ⟨periods.currentEpoch,periods.epochs,seats⟩
    refine (before.left block.index).trans (frozen ?_)
    show v.staking.Drawn
    rw [staking']
    exact Staking.sameDrawn periods.lastEpochDistributions drawn

theorem acceptsRefundable {s s' : Blockchain} (step : Accepts s block s') : 0 < block.index → Refundable block := by
  intro later
  cases step with
  | received now answer => exact validatedRefundable later (addBlockOk answer).2.1
  | produced address sk now later' answer stored =>
    obtain ⟨-,parent,draft,t,u,-,-,valid,-,replaced,rfl⟩ := produceBlockOk answer
    obtain ⟨backend,blockByHash,rfl⟩ := replaceTipOk replaced
    cases stored
    rw [stampedIndex] at later
    have refundable := validatedRefundable later valid
    refine ⟨?_,refundable.transfers⟩
    rw [stampedIndex]
    exact refundable.fee

end Left

end Blockchain

end QbitNetwork
