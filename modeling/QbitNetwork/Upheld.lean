import QbitNetwork.Attempts
import QbitNetwork.Operations
import QbitNetwork.Rollback

/-! What the staking state keeps through every call, whatever the call answers: a property that
its single steps keep, together with one of the epochs table. -/
namespace QbitNetwork

abbrev EpochTable := Dict Int (Int × List (Address × Int))

structure Staking.Upheld [Env] (K : Staking → Prop) (E : EpochTable → Prop) : Prop where
  applyTx : ∀ k tx idx, K k → K (Outcome.stateOf (Staking.applyTx k tx idx))
  dropMatured : ∀ k idx, K k → K (k.dropMatured idx)
  rewards : ∀ (k : Staking) epochRewards lastEpochDistributions, K k →
    (k.Drawn → Staking.Drawn { k with epochRewards, lastEpochDistributions }) →
      K { k with epochRewards, lastEpochDistributions }
  enterEpoch : ∀ k epoch, K k → K (k.enterEpoch epoch)
  putEpoch : ∀ (k : Staking) e (epoch blockStart : Int), K k → E e → E (e.insert epoch (blockStart,k.epochValidators))
  undoTx : ∀ k lookup tx idx, K k → K (Staking.undoTx k lookup tx idx)
  leaveEpoch : ∀ k epoch, K k → K (k.leaveEpoch epoch)
  autoStake : ∀ k address, K k → K { k with
    stakes := k.stakes.set (address,address) minStake
    totalStake := k.totalStake.set address minStake }
  restore : ∀ k saved, K k → K saved → K { k with
    stakes := saved.stakes, totalStake := saved.totalStake, unbonding := saved.unbonding }
  keepEpochs : ∀ (e : EpochTable) fromIndex, E e → E (e.filter (fun epoch _ => Store.keepEpoch fromIndex epoch))

namespace Backend

def epochs : Backend → Option EpochTable
  | .memory _ => none
  | .sqlite store => some store.epochs

theorem epochsMapStore (b : Backend) {f : Store → Store} (same : ∀ d, (f d).epochs = d.epochs) :
    (b.mapStore f).epochs = b.epochs := by
  cases b with
  | memory chainList => rfl
  | sqlite store => exact congrArg some (same store)

end Backend

namespace Store

theorem epochsFold {α : Type} (f : Store → α → Store) (same : ∀ d x, (f d x).epochs = d.epochs) (xs : List α)
    (d : Store) : (xs.foldl f d).epochs = d.epochs := by
  induction xs generalizing d with
  | nil => rfl
  | cons x rest ih => exact (ih (f d x)).trans (same d x)

theorem persistTxEpochs [Env] (before after : ChainState) (tx : Transaction) (d : Store) :
    (persistTx before after tx d).epochs = d.epochs := by
  have stakes : ∀ (stakers : List Address) (amount : Address → Int) (vaddr : Address) (d : Store),
      (stakers.foldl (fun d staker => d.putStake staker vaddr (amount staker)) d).epochs = d.epochs :=
    fun stakers amount vaddr =>
      epochsFold (fun d staker => d.putStake staker vaddr (amount staker)) (fun _ _ => rfl) stakers
  unfold persistTx
  split <;> dsimp only
  · split <;> rfl
  · split <;> rfl
  · split <;> rfl
  · split <;> rfl
  · split <;> rfl
  · split
    · split <;> exact stakes _ (fun staker => after.staking.stakes.get (_,staker)) ..
    · rfl
  · split <;> rfl
  · split <;> rfl
  · rfl

theorem persistUndoEpochs [Env] (after : ChainState) (tx : Transaction) (d : Store) :
    (persistUndo after tx d).epochs = d.epochs := by
  unfold persistUndo
  split <;> dsimp only
  · rfl
  · show (putTokenBalance _ _ _ _).epochs = _
    simp only [putTokenBalance]
    split <;> rfl
  · rfl

end Store

namespace Blockchain
variable [Env] {K : Staking → Prop} {E : EpochTable → Prop}

structure Upholds (K : Staking → Prop) (E : EpochTable → Prop) (s : Blockchain) : Prop where
  staking : K s.state.staking
  epochs : ∀ e, s.backend.epochs = some e → E e

section Frame
variable {s t : Blockchain}

omit [Env] in
theorem Upholds.beside (held : Upholds K E s) (staking : t.state.staking = s.state.staking)
    (epochs : t.backend.epochs = s.backend.epochs) : Upholds K E t :=
  ⟨staking ▸ held.staking,epochs ▸ held.epochs⟩

omit [Env] in
theorem Upholds.withState (held : Upholds K E s) {state : ChainState} (staking : K state.staking) :
    Upholds K E (s.withState state) := ⟨staking,held.epochs⟩

omit [Env] in
theorem Upholds.mapStore (held : Upholds K E s) {f : Store → Store} (same : ∀ d, (f d).epochs = d.epochs) :
    Upholds K E (s.mapStore f) := held.beside rfl (s.backend.epochsMapStore same)

omit [Env] in
theorem Upholds.rebuilt (held : Upholds K E s) : Upholds K E (Outcome.stateOf s.rebuildStateTrie) := by
  rw [rebuildStateTrie,Outcome.stateOfWithin]
  exact held.beside rfl rfl

end Frame

section Append
variable {s : Blockchain}

theorem openStateUpheld (keeps : Staking.Upheld K E) {state : ChainState} (held : K state.staking) (idx : Int) :
    K (Outcome.stateOf (state.openBlock idx)).staking := by
  have mature : K (Outcome.stateOf (state.processMatureUnbondings idx)).staking := by
    simp only [ChainState.processMatureUnbondings]
    refine Outcome.stateOfBind (fun s : ChainState => K s.staking) ?_ (fun paid run => ?_)
    · rw [Outcome.stateOfWithin]
      exact held
    · obtain ⟨ledger,-,rfl⟩ := (Outcome.withinOk ..).mp run
      exact keeps.dropMatured _ _ held
  refine Outcome.leavesBind (fun s : ChainState => K s.staking) mature (fun s _ held => ?_)
  simp only [ChainState.checkEpochTransition]
  split
  · have paid : K (Outcome.stateOf (s.distributeEpochRewards (idx / epochLength - 1))).staking := by
      have drawn := (ChainState.distributeApart s (idx / epochLength - 1)).drawn
      obtain ⟨epochRewards,lastEpochDistributions,booked⟩ : ∃ epochRewards lastEpochDistributions,
          (Outcome.stateOf (s.distributeEpochRewards (idx / epochLength - 1))).staking =
            { s.staking with epochRewards, lastEpochDistributions } := by
        simp only [ChainState.distributeEpochRewards]
        split <;> exact ⟨_,_,rfl⟩
      rw [booked] at drawn ⊢
      exact keeps.rewards _ _ _ held drawn
    split
    · exact Outcome.leavesBind (fun s : ChainState => K s.staking) paid
        (fun t _ held => keeps.enterEpoch _ _ held)
    · exact keeps.enterEpoch _ _ held
  · exact held

theorem openBlockUpheld (keeps : Staking.Upheld K E) (held : Upholds K E s) (idx : Int) :
    Upholds K E (Outcome.stateOf (s.openBlock idx)) := by
  have reached : Upholds K E (Outcome.stateOf (Outcome.within s.withState (s.state.openBlock idx))) := by
    rw [Outcome.stateOfWithin]
    exact held.withState (openStateUpheld keeps held.staking idx)
  simp only [openBlock]
  refine Outcome.stateOfBind _ reached (fun t run => ?_)
  rw [run] at reached
  show Upholds K E (if ChainState.epochStarts s.state.staking idx then _ else t)
  split
  · refine ⟨reached.staking,fun e found => ?_⟩
    cases stored : t.backend with
    | memory chainList =>
      simp [mapStore,stored,Backend.mapStore,Backend.epochs] at found
    | sqlite d =>
      simp only [mapStore,stored,Backend.mapStore,Backend.epochs,Option.some.injEq] at found
      subst found
      have before : Upholds K E t := reached
      exact keeps.putEpoch _ _ _ _ before.staking (before.epochs d.epochs (by rw [stored]; rfl))
  · exact reached

theorem applyStateUpheld (keeps : Staking.Upheld K E) {state : ChainState} (held : K state.staking) (block : Block)
    (idx : Int) (row : Transaction × Nat) : K (Outcome.stateOf (state.applyTx block idx row)).staking := by
  have charged : ∀ s : ChainState, (Outcome.stateOf (s.chargeTx block idx row.1)).staking = s.staking := by
    intro s
    unfold ChainState.chargeTx
    split
    · rw [Outcome.stateOfWithin]
    · rfl
  simp only [ChainState.applyTx]
  refine Outcome.leavesBind (fun s : ChainState => K s.staking) ?_ (fun s _ held => ?_)
  · rw [charged]
    exact held
  refine Outcome.leavesBind (fun s : ChainState => K s.staking) ?_ (fun s _ held => ?_)
  · rw [Outcome.stateOfWithin]
    exact keeps.applyTx _ _ _ held
  · rw [Outcome.stateOfWithin]
    exact held

theorem applyBlockTxUpheld (keeps : Staking.Upheld K E) {p : Progress} (held : Upholds K E p.chain) (block : Block)
    (idx : Int) (row : Transaction × Nat) :
    Upholds K E (Outcome.stateOf (applyBlockTx block idx p row)).chain := by
  have reached : Upholds K E (Outcome.stateOf (Outcome.within (fun chain => { p with chain })
      (Outcome.within p.chain.withState (ChainState.applyTx block idx p.chain.state row)))).chain := by
    rw [Outcome.stateOfWithin,Outcome.stateOfWithin]
    exact held.withState (applyStateUpheld keeps held.staking block idx row)
  simp only [applyBlockTx]
  refine Outcome.stateOfBind (fun q : Progress => Upholds K E q.chain) reached (fun q run => ?_)
  rw [run] at reached
  have stored := Upholds.mapStore reached (Store.persistTxEpochs p.chain.state q.chain.state row.1)
  exact stored.beside rfl rfl

theorem applyTxsUpheld (keeps : Staking.Upheld K E) (held : Upholds K E s) (block : Block) (idx : Int) :
    Upholds K E (Outcome.stateOf (s.applyTxs block idx)).chain :=
  Outcome.foldLeaves (fun p : Progress => Upholds K E p.chain)
    (fun _ row _ reached => applyBlockTxUpheld keeps reached block idx row) held

theorem settleUpheld (keeps : Staking.Upheld K E) (held : Upholds K E s) (block : Block) (idx : Int)
    (matured : List Address) (receipts : List Receipt) (events : List Event) :
    Upholds K E (s.settleBlock block idx matured receipts events) := by
  have pruned : Upholds K E ((s.saveSnapshot idx).pruneCaches idx) := by
    obtain ⟨index,log,shape,-⟩ := pruneCachesShape (s.saveSnapshot idx) idx
    rw [shape]
    refine ⟨?_,held.epochs⟩
    show K ((s.saveSnapshot idx).state.staking.pruneDistributions (pruneBefore idx))
    have drawn := @Staking.pruneDrawn (s.saveSnapshot idx).state.staking (pruneBefore idx)
    unfold Staking.pruneDistributions at drawn ⊢
    split
    · rename_i prunes
      rw [if_pos prunes] at drawn
      exact keeps.rewards _ _ _ held.staking drawn
    · exact held.staking
  simp only [settleBlock]
  generalize (s.saveSnapshot idx).pruneCaches idx = u at pruned
  have balances : Upholds K E (u.persistBalancesAfterBlock block idx matured) := by
    unfold persistBalancesAfterBlock
    split
    · refine pruned.mapStore (fun d => ?_)
      exact Store.epochsFold (fun d address => d.putBalance address (u.getBalance address)) (fun _ _ => rfl) _ d
    · exact pruned
  generalize u.persistBalancesAfterBlock block idx matured = v at balances
  have written : Upholds K E (v.persistReceipts idx receipts events) := by
    refine balances.mapStore (fun d => ?_)
    have receipts : (receipts.foldl Store.putReceipt d).epochs = d.epochs :=
      Store.epochsFold Store.putReceipt (fun _ _ => rfl) receipts d
    dsimp only
    split <;> exact receipts
  obtain ⟨final,finality,-⟩ := updateFinalityOk (v.persistReceipts idx receipts events) idx
  rw [finality]
  exact written.beside rfl rfl

theorem closeBlockUpheld (keeps : Staking.Upheld K E) {p : Progress} (held : Upholds K E p.chain) (block : Block)
    (idx : Int) (matured : List Address) (opening : List Event) :
    Upholds K E (Outcome.stateOf (closeBlock p block idx matured opening)) := by
  have start : Upholds K E (addReceipts p idx) := held.beside rfl rfl
  simp only [closeBlock]
  generalize addReceipts p idx = s at start
  have rewarded : K (Outcome.stateOf (s.state.payReward block idx)).staking := by
    simp only [ChainState.payReward]
    split
    · refine Outcome.leavesBind (fun s : ChainState => K s.staking) ?_ (fun t _ held => ?_)
      · rw [Outcome.stateOfWithin]
        exact start.staking
      · exact keeps.rewards _ _ t.staking.lastEpochDistributions held (Staking.sameDrawn rfl)
    · exact start.staking
  have paid : Upholds K E (Outcome.stateOf (Outcome.within s.withState (s.state.payReward block idx))) := by
    rw [Outcome.stateOfWithin]
    exact start.withState rewarded
  refine Outcome.leavesBind (Upholds K E) paid (fun t _ paid => ?_)
  have receipts : ∀ (u : Blockchain) receipts, Upholds K E u →
      Upholds K E (Outcome.stateOf (u.checkReceiptsRoot block idx receipts)) := by
    intro u receipts held
    simp only [checkReceiptsRoot]
    split <;> exact held.beside rfl rfl
  refine Outcome.leavesBind (Upholds K E) (receipts _ _ (paid.beside rfl rfl)) (fun u _ checked => ?_)
  have rooted : Upholds K E (Outcome.stateOf (u.checkStateRoot block idx)) := by
    simp only [checkStateRoot]
    refine Outcome.leavesBind (Upholds K E) (Upholds.rebuilt checked) (fun v _ rebuilt => ?_)
    simp only [compareStateRoot]
    split <;> exact Upholds.beside rebuilt rfl rfl
  exact Outcome.leavesBind (Upholds K E) rooted (fun v _ held => settleUpheld keeps held block idx matured _ _)

theorem appendBlockInnerUpheld (keeps : Staking.Upheld K E) (held : Upholds K E s) (block : Block) :
    Upholds K E (Outcome.stateOf (s.appendBlockInner block)) := by
  have stored : Upholds K E (Outcome.stateOf (s.storeBlock block)) := by
    unfold storeBlock
    split
    · refine ⟨held.staking,fun e found => ?_⟩
      cases found
    · rename_i d memory
      split
      · rename_i grown run
        simp only [Store.appendBlock] at run
        split at run
        · contradiction
        · cases run
          refine ⟨held.staking,fun e found => held.epochs e ?_⟩
          rw [memory]
          exact found
      · exact held
  simp only [appendBlockInner]
  refine Outcome.leavesBind (Upholds K E) stored (fun t _ stored => ?_)
  have tipped : Upholds K E (t.advanceTip block (s.height + 1)) := Upholds.beside stored rfl rfl
  refine Outcome.leavesBind (Upholds K E) (openBlockUpheld keeps tipped (s.height + 1)) (fun u _ opened => ?_)
  have applied := applyTxsUpheld keeps opened block (s.height + 1)
  split
  · rename_i r broken
    rw [broken] at applied
    exact applied
  · rename_i p run
    rw [run] at applied
    exact closeBlockUpheld keeps applied block _ _ _

end Append

section Undo
variable {s : Blockchain}

theorem undoTxsUpheld (keeps : Staking.Upheld K E) (block : Block) (txs : List Transaction) (held : Upholds K E s) :
    Upholds K E (txs.foldl (undoTx block) s) := by
  induction txs generalizing s with
  | nil => exact held
  | cons tx rest ih =>
    refine ih ?_
    simp only [undoTx]
    refine Upholds.mapStore ?_ (Store.persistUndoEpochs _ tx)
    exact held.withState (keeps.undoTx _ _ _ _ held.staking)

omit [Env] in
theorem recomputeNoncesUpheld (txs : List Transaction) (held : Upholds K E s) :
    Upholds K E (txs.foldl recomputeNonce s) := by
  induction txs generalizing s with
  | nil => exact held
  | cons tx rest ih => exact ih (held.beside rfl rfl)

theorem undoMoneyUpheld (keeps : Staking.Upheld K E) {state : ChainState} (held : K state.staking) (block : Block) :
    K (Outcome.stateOf (undoMoney state block)).staking := by
  simp only [undoMoney]
  split
  · rw [Outcome.stateOfWithin]
    unfold Staking.undoEpochReward
    split
    · exact keeps.rewards _ _ state.staking.lastEpochDistributions held (Staking.sameDrawn rfl)
    · exact held
  · exact held

theorem undoEpochUpheld (keeps : Staking.Upheld K E) {state : ChainState} (held : K state.staking) (blockIndex : Int) :
    K (Outcome.stateOf (undoEpoch state blockIndex)).staking := by
  simp only [undoEpoch]
  split
  · split
    · refine Outcome.leavesBind (fun s : ChainState => K s.staking) ?_ (fun s _ held => keeps.leaveEpoch _ _ held)
      rw [Outcome.stateOfWithin]
      refine keeps.rewards _ state.staking.epochRewards _ held (fun drawn number record found => ?_)
      simp only [Std.ExtTreeMap.getElem?_erase] at found
      split at found
      · contradiction
      · exact drawn number record found
    · exact keeps.leaveEpoch _ _ held
  · exact held

theorem rollbackBlockUpheld (keeps : Staking.Upheld K E) (held : Upholds K E s) (block : Block) :
    Upholds K E (Outcome.stateOf (s.rollbackBlock block)) := by
  simp only [rollbackBlock]
  have logged : Upholds K E (s.undoLog block) := held.beside rfl (s.backend.epochsMapStore (fun _ => rfl))
  have paid : Upholds K E (Outcome.stateOf (Outcome.within (s.undoLog block).withState
      (undoMoney (s.undoLog block).state block))) := by
    rw [Outcome.stateOfWithin]
    exact logged.withState (undoMoneyUpheld keeps logged.staking block)
  refine Outcome.leavesBind (Upholds K E) paid (fun t _ paid => ?_)
  have unindexed : Upholds K E { t with blockByHash := t.blockByHash.erase block.blockHash } :=
    Upholds.beside paid rfl rfl
  have undone := recomputeNoncesUpheld block.transactions (undoTxsUpheld keeps block block.transactions unindexed)
  generalize block.transactions.foldl recomputeNonce _ = u at undone
  have left : Upholds K E (Outcome.stateOf (Outcome.within u.withState (undoEpoch u.state block.index))) := by
    rw [Outcome.stateOfWithin]
    exact undone.withState (undoEpochUpheld keeps undone.staking block.index)
  refine Outcome.leavesBind (Upholds K E) left (fun v _ left => ?_)
  have restored : Upholds K E (Outcome.stateOf (v.undoTrie block.index)) := by
    have cut : Upholds K E { v with stateSnapshots := v.stateSnapshots.erase block.index } := Upholds.beside left rfl rfl
    simp only [undoTrie]
    split
    · split
      · exact cut.beside rfl rfl
      · exact cut.rebuilt
    · exact cut.rebuilt
  exact Outcome.leavesBind (Upholds K E) restored (fun w _ restored => Upholds.beside restored rfl rfl)

theorem deleteUpheld (keeps : Staking.Upheld K E) {d : Store} (held : Upholds K E s)
    (stored : s.backend = .sqlite d) (fromIndex : Int) :
    Upholds K E { s with backend := .sqlite (d.deleteBlocksFrom fromIndex) } := by
  refine ⟨held.staking,fun e found => ?_⟩
  cases found
  exact keeps.keepEpochs _ _ (held.epochs d.epochs (by rw [stored]; rfl))

omit [Env] in
theorem memoryUpheld {chainList : List Block} (held : Upholds K E s) :
    Upholds K E { s with backend := .memory chainList } := ⟨held.staking,fun _ found => nomatch found⟩

theorem abandonBlockUpheld (keeps : Staking.Upheld K E) (held : Upholds K E s) (block : Block) :
    Upholds K E (Outcome.stateOf (s.abandonBlock block)) := by
  simp only [abandonBlock]
  refine Outcome.leavesBind (Upholds K E) (rollbackBlockUpheld keeps held block) (fun t _ undone => ?_)
  have cut : Upholds K E (match t.backend with
      | .memory chainList =>
        if chainList.getLast? = some block then { t with backend := .memory chainList.dropLast } else t
      | .sqlite store => { t with backend := .sqlite (store.deleteBlocksFrom block.index) }) := by
    split
    · split
      · exact memoryUpheld undone
      · exact undone
    · rename_i d stored
      exact deleteUpheld keeps undone stored block.index
  exact Upholds.beside cut rfl rfl

theorem appendBlockUpheld (keeps : Staking.Upheld K E) (held : Upholds K E s) (block : Block) :
    Upholds K E (Outcome.stateOf (s.appendBlock block)) := by
  have appended := appendBlockInnerUpheld keeps held block
  unfold appendBlock
  split
  · rename_i t run
    rw [run] at appended
    exact appended
  · rename_i message t run
    rw [run] at appended
    have abandoned := abandonBlockUpheld (s := t) keeps appended block
    split
    · rename_i u undone
      rw [undone] at abandoned
      exact abandoned
    · rename_i r undone
      rw [undone] at abandoned
      exact abandoned
  · rename_i r _ run
    rw [run] at appended
    exact appended

theorem rollbackToUpheld (keeps : Staking.Upheld K E) (held : Upholds K E s) (target : Int) :
    Upholds K E (Outcome.stateOf (s.rollbackTo target)) := by
  have cut : Upholds K E (s.mapStore (·.deleteBlocksFrom target)) := by
    cases stored : s.backend with
    | memory chainList =>
      refine ⟨held.staking,fun e found => ?_⟩
      simp [mapStore,stored,Backend.mapStore,Backend.epochs] at found
    | sqlite d =>
      have deleted := deleteUpheld keeps held stored target
      refine ⟨held.staking,fun e found => deleted.epochs e ?_⟩
      simpa [mapStore,stored,Backend.mapStore] using found
  have popped : ∀ {t : Blockchain}, Upholds K E t → Upholds K E t.popBlock := by
    intro t held
    unfold popBlock
    split
    · exact memoryUpheld held
    · exact held
  have undone : Upholds K E (Outcome.stateOf ((s.blocksFrom target).foldlM
      (fun s block => s.popBlock.rollbackBlock block) (s.mapStore (·.deleteBlocksFrom target)))) :=
    Outcome.foldLeaves (Upholds K E) (fun t block _ reached => rollbackBlockUpheld keeps (popped reached) block) cut
  simp only [rollbackTo]
  refine Outcome.leavesBind (Upholds K E) undone (fun t _ reached => ?_)
  split_ifs <;> exact reached

end Undo

section Calls
variable {s : Blockchain}

theorem replaceTipUpheld (held : Upholds K E s) (old new : Block) :
    Upholds K E (Outcome.stateOf (s.replaceTip old new)) := by
  simp only [replaceTip]
  split
  · refine ⟨held.staking,fun _ found => ?_⟩
    cases found
  · rename_i d stored
    split
    · rename_i d' run
      refine ⟨held.staking,fun e found => held.epochs e ?_⟩
      rw [stored]
      unfold Store.updateBlock at run
      split at run
      · cases run
        exact found
      · split at run
        · contradiction
        · cases run
          exact found
    · exact held.beside rfl rfl

theorem initChainUpheld (keeps : Staking.Upheld K E) (held : Upholds K E s) (address : Address) (sk pk : Bytes)
    (now : Int) : Upholds K E (Outcome.stateOf (s.initChain address sk pk now)) := by
  unfold initChain
  split
  · exact held
  · dsimp only
    generalize (if pk.isEmpty then s.state.staking.validators.getD address [] else pk) = key
    generalize (Block.genesis address
      (if key.isEmpty then [] else [registration address sk key now]) now).sign sk = genesis
    refine Outcome.leavesBind (Upholds K E) (appendBlockUpheld keeps held genesis) (fun t _ first => ?_)
    have staked : Upholds K E (if pk.isEmpty then t else t.autoStake address) := by
      split
      · exact first
      · refine Upholds.mapStore ?_ (fun d => rfl)
        exact Upholds.withState first (keeps.autoStake _ address first.staking)
    generalize (if pk.isEmpty then t else t.autoStake address) = staking at staked
    have rooted : Upholds K E staking.stateRoot.2 := staked.beside rfl rfl
    refine Outcome.leavesBind (Upholds K E) (replaceTipUpheld rooted _ _) (fun u _ last => ?_)
    exact Upholds.beside last rfl rfl

omit [Env] in
theorem activateUpheld (held : Upholds K E s) (address : Address) :
    Upholds K E (Outcome.stateOf (s.activateFinancialLayer address)) := by
  unfold activateFinancialLayer
  split
  · exact held
  · dsimp only
    have finish : ∀ {t : Blockchain}, Upholds K E t → Upholds K E (Outcome.stateOf (t.rebuildStateTrie >>= fun t =>
        .ok (if 0 ≤ t.height then
          { t with stateSnapshots := t.stateSnapshots.insert t.height t.trie.snapshot } else t))) := by
      intro t before
      refine Outcome.leavesBind (Upholds K E) before.rebuilt (fun u _ reached => ?_)
      show Upholds K E (if 0 ≤ u.height then _ else u)
      split
      · exact Upholds.beside reached rfl rfl
      · exact reached
    have active : Upholds K E (s.withState { s.state with ledger := { s.state.ledger with financialActive := true } }) :=
      held.beside rfl rfl
    generalize s.withState { s.state with ledger := { s.state.ledger with financialActive := true } } = t
      at active
    split
    · have paid : Upholds K E (Outcome.stateOf (t.allocateGenesis address)) := by
        simp only [allocateGenesis]
        have credited : Upholds K E (Outcome.stateOf (Outcome.within
            (fun ledger => t.withState { t.state with ledger })
            (t.state.ledger.credit address (genesisBalanceQbit * qubitPerQbit)))) := by
          rw [Outcome.stateOfWithin]
          exact active.beside rfl rfl
        refine Outcome.leavesBind (Upholds K E) credited (fun u _ reached => ?_)
        refine Upholds.mapStore ?_ (fun d => rfl)
        exact Upholds.beside reached rfl rfl
      exact Outcome.leavesBind (Upholds K E) paid (fun u _ reached => finish reached)
    · exact finish active

theorem addBlockUpheld (keeps : Staking.Upheld K E) (held : Upholds K E s) (block : Block) (now : Int) :
    Upholds K E (s.addBlock block now).2 := by
  unfold addBlock
  split
  · exact held
  · dsimp only
    split
    · split
      · exact held
      · split
        · exact held
        · have appended := appendBlockUpheld keeps held block
          split
          · rename_i t run
            rw [run] at appended
            exact Upholds.beside appended rfl rfl
          · rename_i message t run
            rw [run] at appended
            exact appended
          · rename_i r _ run
            rw [run] at appended
            exact appended
    · split <;> exact held

theorem produceBlockUpheld (keeps : Staking.Upheld K E) (held : Upholds K E s) (address : Address) (sk : Bytes)
    (now later : Int) : Upholds K E (s.produceBlock address sk now later).2 := by
  unfold produceBlock
  split
  · exact held
  · split
    · exact held
    · rename_i parent tip
      split
      · exact held
      · split
        · exact held
        · split
          · exact held
          · dsimp only
            generalize s.draftBlock parent address sk now = draft
            split
            · exact held
            · split
              · exact held
              · have appended := appendBlockUpheld keeps held draft
                split
                · rename_i r run
                  rw [run] at appended
                  exact appended
                · rename_i t run
                  rw [run] at appended
                  have stamped : Upholds K E (Outcome.stateOf (t.replaceTip draft (stampedBlock draft
                      (t.lastComputedStateRoot.getD t.stateRoot.1) t.lastComputedReceiptsRoot sk))) :=
                    replaceTipUpheld appended _ _
                  split
                  · rename_i r replaced
                    rw [replaced] at stamped
                    exact stamped
                  · rename_i u replaced
                    rw [replaced] at stamped
                    exact Upholds.beside stamped rfl rfl

theorem submitUpheld (held : Upholds K E s) (now : Int) (tx : Transaction) : Upholds K E (s.submitTx now tx).2 := by
  unfold submitTx
  split
  · exact held
  · exact held.beside rfl rfl

end Calls

section Reorganisation
variable {s : Blockchain}

theorem restoreSavedUpheld (keeps : Staking.Upheld K E) {saved : Blockchain} (held : Upholds K E s)
    (before : Upholds K E saved) : Upholds K E (s.restoreSaved saved) :=
  ⟨keeps.restore _ _ held.staking before.staking,held.epochs⟩

theorem refuseRollbackUpheld (keeps : Staking.Upheld K E) {saved : Blockchain} (held : Upholds K E s)
    (before : Upholds K E saved) (forkStart : Int) (savedChain : List Block) (message : String) :
    Upholds K E (s.refuseRollback saved forkStart savedChain message).2 := by
  have restored := restoreSavedUpheld keeps held before
  simp only [refuseRollback]
  generalize s.restoreSaved saved = t at restored
  split
  · exact memoryUpheld restored
  · rename_i d stored
    have cut := deleteUpheld keeps restored stored forkStart
    split <;> exact cut

theorem restoreOriginalUpheld (keeps : Staking.Upheld K E) (held : Upholds K E s) (forkStart : Int)
    (savedChain : List Block) (applied : Bool) (message : String) :
    Upholds K E (s.restoreOriginal forkStart savedChain applied message).2 := by
  have again : ∀ {t : Blockchain}, Upholds K E t → Upholds K E (Outcome.stateOf (savedChain.foldlM appendBlock t)) :=
    fun before => Outcome.foldLeaves (Upholds K E) (fun t block _ reached =>
      appendBlockUpheld keeps reached block) before
  have outcome : Upholds K E (Outcome.stateOf
      (if applied then s.rollbackTo forkStart >>= fun s => savedChain.foldlM appendBlock s
        else Except.ok s >>= fun s => savedChain.foldlM appendBlock s)) := by
    split
    · exact Outcome.leavesBind (Upholds K E) (rollbackToUpheld keeps held forkStart) (fun t _ reached => again reached)
    · exact again held
  dsimp only [restoreOriginal]
  split
  · rename_i run
    rwa [run] at outcome
  · rename_i run
    rwa [run] at outcome

theorem applyForkUpheld (keeps : Staking.Upheld K E) (savedChain : List Block) (now forkStart : Int) {fork : List Block}
    {applied : Bool} {parent : Option Block} (held : Upholds K E s) :
    Upholds K E (applyFork now forkStart savedChain fork applied parent s).2 := by
  induction fork generalizing s applied parent with
  | nil => exact held
  | cons fb rest ih =>
    have restored : ∀ {t : Blockchain}, Upholds K E t → ∀ message,
        Upholds K E (t.restoreOriginal forkStart savedChain applied message).2 :=
      fun before message => restoreOriginalUpheld keeps before forkStart savedChain applied message
    unfold applyFork
    split
    · exact restored held _
    · split
      · exact restored held _
      · exact held
      · have appended := appendBlockUpheld keeps held fb
        split
        · rename_i t run
          rw [run] at appended
          exact ih appended
        · rename_i message t run
          rw [run] at appended
          exact restored appended _
        · rename_i r _ run
          rw [run] at appended
          exact appended

theorem returnDisplacedUpheld (held : Upholds K E s) (fork : List Block) (displaced : List Transaction) :
    Upholds K E (s.returnDisplaced fork displaced) := by
  have back : ∀ (mined : List String) (txs : List Transaction) (s : Blockchain), Upholds K E s →
      Upholds K E (txs.foldl (returnTx mined) s) := by
    intro mined txs
    induction txs with
    | nil => exact fun _ before => before
    | cons tx rest ih =>
      intro s before
      refine ih _ ?_
      unfold returnTx
      split
      · exact before
      · split
        · exact before.beside rfl rfl
        · exact before
  simp only [returnDisplaced]
  exact (back _ _ s held).beside rfl rfl

theorem tryReorgUpheld (keeps : Staking.Upheld K E) (held : Upholds K E s) (fork : List Block) (now : Int) :
    Upholds K E (s.tryReorg fork now).2 := by
  unfold tryReorg
  split
  · exact held
  · rename_i forkStart begun
    dsimp only
    have rolled := rollbackToUpheld keeps held forkStart
    split
    · rename_i r run
      rw [run] at rolled
      exact rolled
    · rename_i t run
      rw [run] at rolled
      have compared : Upholds K E (t.rootMismatch (forkStart - 1)).2 := by
        unfold rootMismatch
        split
        · exact rolled
        · dsimp only
          split <;> exact Upholds.beside rolled rfl rfl
      split
      · rename_i message u mismatch
        rw [mismatch] at compared
        exact refuseRollbackUpheld keeps compared held forkStart _ message
      · rename_i u matched
        rw [matched] at compared
        have forked : Upholds K E (applyFork now forkStart (s.backend.getBlocksRange forkStart (s.height + 1)) fork false
            u.latestBlock u).2 := applyForkUpheld keeps _ now forkStart compared
        split
        · rename_i v answer
          rw [answer] at forked
          exact returnDisplacedUpheld forked fork _
        · exact forked

end Reorganisation

omit [Env] in
theorem answeredUpheld {x : Except (Fault Blockchain) Blockchain} (left : Upholds K E (Outcome.stateOf x)) :
    Upholds K E (answered x).2 := by
  cases x <;> exact left

theorem performUpheld (keeps : Staking.Upheld K E) {s : Blockchain} (held : Upholds K E s) (c : Call) :
    Upholds K E (s.perform c).2 := by
  cases c with
  | initChain address sk pk now => exact answeredUpheld (initChainUpheld keeps held address sk pk now)
  | activate address => exact answeredUpheld (activateUpheld held address)
  | submit now tx => exact submitUpheld held now tx
  | produce address sk now later => exact produceBlockUpheld keeps held address sk now later
  | receive block now => exact addBlockUpheld keeps held block now
  | rollback target => exact answeredUpheld (rollbackToUpheld keeps held target)
  | reorg fork now => exact tryReorgUpheld keeps held fork now

end Blockchain

end QbitNetwork
