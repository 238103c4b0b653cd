import QbitNetwork.Operations
import QbitNetwork.TokenIndices
import QbitNetwork.TokenSupply

/-! The holder indices through every call, however it ends. -/
namespace QbitNetwork

namespace ChainState
variable [Env]

theorem applyTxExact {block : Block} {idx : Int} {s : ChainState} {row : Transaction × Nat}
    (precise : s.tokens.Exact) (moves : Tokens.Moves row.1) :
    (Outcome.stateOf (applyTx block idx s row)).tokens.Exact := by
  simp only [applyTx]
  have start : ({ s with index := s.index.recordTx idx row.2 row.1 } : ChainState).tokens.Exact := precise
  generalize ({ s with index := s.index.recordTx idx row.2 row.1 } : ChainState) = t at start
  have charged : Apart t (Outcome.stateOf (t.chargeTx block idx row.1)) := by
    unfold chargeTx
    split
    · exact apartLedger t _
    · exact apartRefl t
  refine Outcome.stateOfBind (fun t : ChainState => t.tokens.Exact) (charged.tokens ▸ start) (fun u run => ?_)
  rw [run] at charged
  have paid : u.tokens.Exact := charged.tokens ▸ start
  refine Outcome.stateOfBind (fun t : ChainState => t.tokens.Exact) ?_ (fun v run => ?_)
  · rw [Outcome.stateOfWithin]
    exact paid
  · obtain ⟨staking,-,rfl⟩ := (Outcome.withinOk ..).mp run
    rw [Outcome.stateOfWithin]
    exact Tokens.exactApply paid moves

end ChainState

namespace Tokens
variable [Env]

theorem validMoves {tx : Transaction} (valid : tx.validatePayload = .ok ()) : Moves tx := by
  have checked := (validatePayloadOk valid).2.2
  unfold typeCheck at checked
  constructor
  · intro kind amount given
    simp only [kind,mintTokenCheck,Outcome.bindOk] at checked
    obtain ⟨_,-,_,positive,-⟩ := checked
    obtain ⟨other,found,more⟩ := positiveAmountCheckOk positive
    rw [given] at found
    cases found
    exact more
  · intro kind
    simp only [kind,transferTokenCheck,Outcome.bindOk] at checked
    obtain ⟨_,-,_,positive,-⟩ := checked
    obtain ⟨amount,found,more⟩ := positiveAmountCheckOk positive
    rw [found]
    exact more

end Tokens

namespace Backend

def Keeps (b : Backend) (block : Block) : Prop :=
  match b with
  | .memory chainList => block ∈ chainList
  | .sqlite d => ∃ i : Int, d.blocks[i]? = some block

theorem keepsStored {b b' : Backend} {block : Block} (same : b'.stored = b.stored)
    (kept : b'.Keeps block) : b.Keeps block := by
  cases b <;> cases b' <;> simp_all [stored,Keeps]

theorem keepsExtended {b b' : Backend} {block other : Block}
    (grown : b'.stored = Blockchain.extended b.stored block) (kept : b'.Keeps other) :
    other = block ∨ b.Keeps other := by
  cases b with
  | memory chainList =>
    cases b' with
    | memory list =>
      have same : list = chainList ++ [block] := Sum.inl.inj grown
      rcases List.mem_append.mp (same ▸ kept : other ∈ chainList ++ [block]) with old | new
      · exact .inr old
      · exact .inl (List.mem_singleton.mp new)
    | sqlite d => cases grown
  | sqlite d =>
    cases b' with
    | memory list => cases grown
    | sqlite d' =>
      obtain ⟨-,rows⟩ := Prod.mk.inj (Sum.inr.inj grown)
      obtain ⟨i,found⟩ := kept
      rw [rows,Std.ExtTreeMap.getElem?_insert] at found
      split at found
      · exact .inl (Option.some.inj found).symm
      · exact .inr ⟨i,found⟩

theorem keepsDelete {d : Store} {fromIndex : Int} {block : Block}
    (kept : (sqlite (d.deleteBlocksFrom fromIndex)).Keeps block) : (sqlite d).Keeps block := by
  obtain ⟨i,found⟩ := kept
  simp only [Store.deleteBlocksFrom] at found
  rw [Std.ExtTreeMap.getElem?_filter',Option.filter_eq_some_iff] at found
  exact ⟨i,found.1⟩

theorem keepsRange {b : Backend} {start stop : Int} {block : Block}
    (inside : block ∈ b.getBlocksRange start stop) : b.Keeps block := by
  cases b with
  | memory chainList => exact List.mem_of_mem_take (List.mem_of_mem_drop inside)
  | sqlite d =>
    obtain ⟨row,listed,rfl⟩ := List.mem_map.mp inside
    exact ⟨row.1,Std.ExtTreeMap.mem_toList_iff_getElem?_eq_some.mp (List.mem_filter.mp listed).1⟩

end Backend

namespace Blockchain
variable [Env]

def Whole (block : Block) : Prop := ∀ tx ∈ block.transactions, Tokens.Moves tx

structure Steady (s : Blockchain) : Prop where
  tokens : s.state.tokens.Exact
  blocks : ∀ block, s.backend.Keeps block → Whole block
  pool : ∀ tx ∈ s.pool.txPool, Tokens.Moves tx

omit [Env] in
theorem Steady.beside {s t : Blockchain} (steady : Steady s) (tokens : t.state.tokens = s.state.tokens)
    (stored : t.backend.stored = s.backend.stored) (pool : ∀ tx ∈ t.pool.txPool, tx ∈ s.pool.txPool) : Steady t :=
  ⟨tokens ▸ steady.tokens,fun block kept => steady.blocks block (Backend.keepsStored stored kept),
    fun tx inside => steady.pool tx (pool tx inside)⟩

omit [Env] in
theorem Steady.same {s t : Blockchain} (steady : Steady s) (tokens : t.state.tokens = s.state.tokens)
    (stored : t.backend.stored = s.backend.stored) (pool : t.pool.txPool = s.pool.txPool) : Steady t :=
  steady.beside tokens stored (fun _ inside => pool ▸ inside)

omit [Env] in
theorem Steady.withState {s : Blockchain} (steady : Steady s) {state : ChainState}
    (tokens : state.tokens.Exact) : Steady (s.withState state) := ⟨tokens,steady.blocks,steady.pool⟩

omit [Env] in
theorem Steady.mapStore {s : Blockchain} (steady : Steady s) (f : Store → Store)
    (kept : ∀ d, Store.Keeps d (f d)) : Steady (s.mapStore f) :=
  steady.same rfl (Backend.storedMapStore f s.backend kept) rfl

section Append

omit [Env] in
theorem openBlockSteady {s : Blockchain} (steady : Steady s) (idx : Int) :
    Steady (Outcome.stateOf (s.openBlock idx)) := by
  have opened := ChainState.openBlockApart s.state idx
  have reached : Steady (Outcome.stateOf (Outcome.within s.withState (s.state.openBlock idx))) := by
    rw [Outcome.stateOfWithin]
    exact steady.withState (opened.tokens ▸ steady.tokens)
  simp only [openBlock]
  refine Outcome.stateOfBind _ reached (fun t run => ?_)
  rw [run] at reached
  show Steady (if ChainState.epochStarts s.state.staking idx then _ else t)
  split
  · exact reached.mapStore _ (fun d => Store.keepsRefl d)
  · exact reached

theorem applyBlockTxSteady {block : Block} {idx : Int} {p : Progress} {row : Transaction × Nat}
    (steady : Steady p.chain) (moves : Tokens.Moves row.1) :
    Steady (Outcome.stateOf (applyBlockTx block idx p row)).chain := by
  have reached : Steady (Outcome.stateOf (Outcome.within (fun chain => { p with chain })
      (Outcome.within p.chain.withState (ChainState.applyTx block idx p.chain.state row)))).chain := by
    rw [Outcome.stateOfWithin,Outcome.stateOfWithin]
    exact steady.withState (ChainState.applyTxExact steady.tokens moves)
  simp only [applyBlockTx]
  refine Outcome.stateOfBind (fun q : Progress => Steady q.chain) reached (fun q run => ?_)
  rw [run] at reached
  refine (Steady.mapStore reached _ (Store.persistTxKeeps p.chain.state q.chain.state row.1)).beside rfl rfl ?_
  intro tx inside
  show tx ∈ (q.chain.pool).txPool
  revert inside
  show tx ∈ (if revokesSigningKey row.1 then q.chain.pool.purgeSender row.1.sender else q.chain.pool).txPool → _
  split
  · exact purgeAllSubset [row.1.sender] q.chain.pool tx
  · exact id

theorem applyTxsSteady {s : Blockchain} {block : Block} {idx : Int} (steady : Steady s)
    (whole : Whole block) : Steady (Outcome.stateOf (s.applyTxs block idx)).chain := by
  refine Outcome.foldLeaves (fun p : Progress => Steady p.chain) (fun p row inside reached => ?_) steady
  exact applyBlockTxSteady reached (whole row.1 (List.fst_mem_of_mem_zipIdx inside))

theorem settlePool (s : Blockchain) (block : Block) (idx : Int) (matured : List Address)
    (receipts : List Receipt) (events : List Event) :
    (s.settleBlock block idx matured receipts events).pool = s.pool := by
  obtain ⟨index,log,pruned,-⟩ := pruneCachesShape (s.saveSnapshot idx) idx
  unfold settleBlock
  dsimp only
  rw [pruned]
  generalize shape : ({ s.saveSnapshot idx with log } : Blockchain).withState _ = mid
  obtain ⟨backend,written,-⟩ := writtenShape mid block idx matured receipts events
  rw [written]
  obtain ⟨final,finality,-⟩ := updateFinalityOk { mid with backend } idx
  rw [finality,← shape]
  rfl

theorem closeBlockSteady {p : Progress} (steady : Steady p.chain) (block : Block) (idx : Int)
    (matured : List Address) (opening : List Event) :
    Steady (Outcome.stateOf (closeBlock p block idx matured opening)) := by
  have start : Steady (addReceipts p idx) := steady.same rfl rfl rfl
  simp only [closeBlock]
  generalize addReceipts p idx = s at start
  have paid : Steady (Outcome.stateOf (Outcome.within s.withState (s.state.payReward block idx))) := by
    rw [Outcome.stateOfWithin]
    exact start.withState ((ChainState.payRewardApart s.state block idx).tokens ▸ start.tokens)
  refine Outcome.leavesBind Steady paid (fun t _ paid => ?_)
  have checked : ∀ (u : Blockchain) receipts, Steady u →
      Steady (Outcome.stateOf (u.checkReceiptsRoot block idx receipts)) := by
    intro u receipts steady
    simp only [checkReceiptsRoot]
    split <;> exact steady.same rfl rfl rfl
  have before : Steady (t.setBlockLevelEvents idx (opening ++ rewardEvents block.validator (s.rewardOf idx))) :=
    paid.same rfl rfl rfl
  have pruned := checked { (t.setBlockLevelEvents idx (opening ++ rewardEvents block.validator (s.rewardOf idx))) with
    log := (t.setBlockLevelEvents idx (opening ++ rewardEvents block.validator (s.rewardOf idx))).log.pruneBlockLevelEvents
      (pruneBefore idx) } (p.receiptData.map (receiptOf idx p.failedTxIds)) (before.same rfl rfl rfl)
  refine Outcome.leavesBind Steady pruned (fun u _ pruned => ?_)
  have rooted : Steady (Outcome.stateOf (u.checkStateRoot block idx)) := by
    simp only [checkStateRoot]
    have rebuilt : Steady (Outcome.stateOf u.rebuildStateTrie) := by
      rw [rebuildStateTrie,Outcome.stateOfWithin]
      exact pruned.same rfl rfl rfl
    refine Outcome.leavesBind Steady rebuilt (fun v _ rebuilt => ?_)
    simp only [compareStateRoot]
    split <;> exact rebuilt.same rfl rfl rfl
  refine Outcome.leavesBind Steady rooted (fun v _ rooted => ?_)
  have done := settled v block idx matured (p.receiptData.map (receiptOf idx p.failedTxIds))
    (opening ++ rewardEvents block.validator (s.rewardOf idx))
  have pool := settlePool v block idx matured (p.receiptData.map (receiptOf idx p.failedTxIds))
    (opening ++ rewardEvents block.validator (s.rewardOf idx))
  exact Steady.same rooted done.tokens done.stored (congrArg _ pool)

theorem appendBlockInnerSteady {s : Blockchain} {block : Block} (steady : Steady s) (whole : Whole block) :
    Steady (Outcome.stateOf (s.appendBlockInner block)) := by
  simp only [appendBlockInner]
  cases stored : s.storeBlock block with
  | error r =>
    unfold storeBlock at stored
    split at stored
    · contradiction
    · split at stored
      · contradiction
      · cases stored
        exact steady
  | ok t =>
    obtain ⟨backend,rfl,grown⟩ := storeBlockOk stored
    have arrived : Steady (({ s with backend } : Blockchain).advanceTip block (s.height + 1)) := by
      refine ⟨steady.tokens,fun other kept => ?_,steady.pool⟩
      rcases Backend.keepsExtended grown kept with rfl | old
      · exact whole
      · exact steady.blocks other old
    change Steady (Outcome.stateOf (openBlock _ _ >>= _))
    have opened := openBlockSteady arrived (s.height + 1)
    refine Outcome.leavesBind Steady opened (fun t _ opened => ?_)
    have applied : Steady (Outcome.stateOf (Blockchain.applyTxs _ block (s.height + 1))).chain := applyTxsSteady opened whole
    split
    · rename_i r broken
      rw [broken] at applied
      exact applied
    · rename_i p run
      rw [run] at applied
      exact closeBlockSteady applied block _ _ _

end Append

section Undo

theorem undoMoneyTokens (s : ChainState) (block : Block) :
    (Outcome.stateOf (undoMoney s block)).tokens = s.tokens := by
  simp only [undoMoney]
  split
  · rw [Outcome.stateOfWithin]
  · rfl

omit [Env] in
theorem undoEpochTokens (s : ChainState) (blockIndex : Int) :
    (Outcome.stateOf (undoEpoch s blockIndex)).tokens = s.tokens := by
  simp only [undoEpoch]
  split
  · split
    · refine Outcome.stateOfBind (fun t : ChainState => t.tokens = s.tokens) ?_ (fun t run => ?_)
      · rw [Outcome.stateOfWithin]
      · obtain ⟨ledger,-,rfl⟩ := (Outcome.withinOk ..).mp run
        rfl
    · rfl
  · rfl

theorem undoTxsSteady {block : Block} (txs : List Transaction) {s : Blockchain} (steady : Steady s)
    (moves : ∀ tx ∈ txs, Tokens.Moves tx) : Steady (txs.foldl (undoTx block) s) := by
  induction txs generalizing s with
  | nil => exact steady
  | cons tx rest ih =>
    refine ih ?_ (fun other inside => moves other (List.mem_cons_of_mem _ inside))
    simp only [undoTx]
    refine Steady.mapStore ?_ _ (Store.persistUndoKeeps _ tx)
    exact steady.withState (Tokens.exactUndo steady.tokens (moves tx (List.mem_cons_self ..)))

omit [Env] in
theorem recomputeNoncesSteady (txs : List Transaction) {s : Blockchain} (steady : Steady s) :
    Steady (txs.foldl recomputeNonce s) := by
  induction txs generalizing s with
  | nil => exact steady
  | cons tx rest ih => exact ih (steady.same rfl rfl rfl)

omit [Env] in
theorem undoTrieSteady {s : Blockchain} (steady : Steady s) (blockIndex : Int) :
    Steady (Outcome.stateOf (s.undoTrie blockIndex)) := by
  have rebuilt : ∀ {t : Blockchain}, Steady t → Steady (Outcome.stateOf t.rebuildStateTrie) := by
    intro t steady
    rw [rebuildStateTrie,Outcome.stateOfWithin]
    exact steady.same rfl rfl rfl
  simp only [undoTrie]
  split
  · split
    · exact steady.same rfl rfl rfl
    · exact rebuilt (steady.same rfl rfl rfl)
  · exact rebuilt (steady.same rfl rfl rfl)

theorem rollbackBlockSteady {s : Blockchain} {block : Block} (steady : Steady s) (whole : Whole block) :
    Steady (Outcome.stateOf (s.rollbackBlock block)) := by
  simp only [rollbackBlock]
  have logged : Steady (s.undoLog block) :=
    steady.same rfl (Backend.storedMapStore _ s.backend (fun d => Store.keepsRefl d)) rfl
  have paid : Steady (Outcome.stateOf (Outcome.within (s.undoLog block).withState
      (undoMoney (s.undoLog block).state block))) := by
    rw [Outcome.stateOfWithin]
    refine logged.withState ?_
    rw [undoMoneyTokens]
    exact logged.tokens
  refine Outcome.leavesBind Steady paid (fun t _ paid => ?_)
  have unindexed : Steady { t with blockByHash := t.blockByHash.erase block.blockHash } :=
    Steady.same paid rfl rfl rfl
  have undone := recomputeNoncesSteady block.transactions
    (@undoTxsSteady _ block block.transactions _ unindexed whole)
  generalize block.transactions.foldl recomputeNonce _ = u at undone
  have left : Steady (Outcome.stateOf (Outcome.within u.withState (undoEpoch u.state block.index))) := by
    rw [Outcome.stateOfWithin]
    refine undone.withState ?_
    rw [undoEpochTokens]
    exact undone.tokens
  refine Outcome.leavesBind Steady left (fun v _ left => ?_)
  have restored := undoTrieSteady left block.index
  refine Outcome.leavesBind Steady restored (fun w _ restored => ?_)
  exact Steady.same restored rfl rfl rfl

theorem abandonBlockSteady {s : Blockchain} {block : Block} (steady : Steady s) (whole : Whole block) :
    Steady (Outcome.stateOf (s.abandonBlock block)) := by
  have undone := rollbackBlockSteady steady whole
  simp only [abandonBlock]
  refine Outcome.leavesBind Steady undone (fun t _ undone => ?_)
  have cut : Steady (match t.backend with
      | .memory chainList =>
        if chainList.getLast? = some block then { t with backend := .memory chainList.dropLast } else t
      | .sqlite store => { t with backend := .sqlite (store.deleteBlocksFrom block.index) }) := by
    split
    · rename_i chainList stored
      split
      · refine ⟨undone.tokens,fun other kept => undone.blocks other ?_,undone.pool⟩
        rw [stored]
        exact (List.dropLast_sublist chainList).subset kept
      · exact undone
    · rename_i d stored
      refine ⟨undone.tokens,fun other kept => undone.blocks other ?_,undone.pool⟩
      rw [stored]
      exact Backend.keepsDelete kept
  exact Steady.same cut rfl rfl rfl

theorem appendBlockSteady {s : Blockchain} {block : Block} (steady : Steady s) (whole : Whole block) :
    Steady (Outcome.stateOf (s.appendBlock block)) := by
  have appended := appendBlockInnerSteady steady whole
  unfold appendBlock
  split
  · rename_i t run
    rw [run] at appended
    exact appended
  · rename_i message t run
    rw [run] at appended
    have abandoned := abandonBlockSteady (s := t) appended whole
    split
    · rename_i u undone
      rw [undone] at abandoned
      exact abandoned
    · rename_i r undone
      rw [undone] at abandoned
      exact abandoned
  · rename_i r _ run
    rw [run] at appended
    exact appended

end Undo

section Calls

theorem validWhole {s : Blockchain} {now : Int} {block : Block} {parent : Option Block}
    (later : block.index ≠ 0) (valid : s.validateBlock now block parent = .ok ()) : Whole block := by
  obtain ⟨_,-,-,-,-,-,txs⟩ := validateBlockOk later valid
  exact fun tx inside => Tokens.validMoves (transactionsCheckMem txs tx inside).payload

omit [Env] in
theorem blocksFromKept {s : Blockchain} {target : Int} {block : Block}
    (inside : block ∈ s.blocksFrom target) : s.backend.Keeps block := by
  unfold blocksFrom at inside
  split at inside
  · rename_i chainList stored
    rw [stored]
    exact List.mem_of_mem_drop (List.mem_reverse.mp inside)
  · rename_i d stored
    rw [stored]
    obtain ⟨i,-,found⟩ := List.mem_filterMap.mp inside
    exact ⟨i,found⟩

theorem rollbackToSteady {s : Blockchain} (steady : Steady s) (target : Int) :
    Steady (Outcome.stateOf (s.rollbackTo target)) := by
  have wholes : ∀ block ∈ s.blocksFrom target, Whole block := fun block inside =>
    steady.blocks block (blocksFromKept inside)
  have cut : Steady (s.mapStore (·.deleteBlocksFrom target)) := by
    refine ⟨steady.tokens,fun block kept => steady.blocks block ?_,steady.pool⟩
    unfold mapStore at kept
    cases stored : s.backend with
    | memory chainList => rw [stored] at kept; exact kept
    | sqlite d => rw [stored] at kept; exact Backend.keepsDelete kept
  have popped : ∀ {t : Blockchain}, Steady t → Steady t.popBlock := by
    intro t steady
    unfold popBlock
    split
    · rename_i chainList stored
      refine ⟨steady.tokens,fun block kept => steady.blocks block ?_,steady.pool⟩
      rw [stored]
      exact (List.dropLast_sublist chainList).subset kept
    · exact steady
  have undone := Outcome.foldLeaves Steady (fun t block inside reached =>
    rollbackBlockSteady (popped reached) (wholes block inside)) cut
  simp only [rollbackTo]
  refine Outcome.leavesBind Steady undone (fun t _ reached => ?_)
  split_ifs <;> exact reached

theorem replaceTipSteady {s : Blockchain} {old new : Block} (steady : Steady s) (whole : Whole new) :
    Steady (Outcome.stateOf (s.replaceTip old new)) := by
  simp only [replaceTip]
  split
  · rename_i chainList stored
    refine ⟨steady.tokens,fun block kept => ?_,steady.pool⟩
    change block ∈ replaceBlock chainList new at kept
    have before : ∀ block ∈ chainList, Whole block := fun block inside =>
      steady.blocks block (by rw [stored]; exact inside)
    unfold replaceBlock at kept
    split at kept
    · rcases List.mem_or_eq_of_mem_set kept with old | rfl
      · exact before block old
      · exact whole
    · exact before block kept
  · rename_i d stored
    split
    · rename_i d' run
      refine ⟨steady.tokens,fun block kept => ?_,steady.pool⟩
      obtain ⟨i,found⟩ : ∃ i : Int, d'.blocks[i]? = some block := kept
      have before : ∀ {i : Int}, d.blocks[i]? = some block → Whole block := fun found =>
        steady.blocks block (by rw [stored]; exact ⟨_,found⟩)
      unfold Store.updateBlock at run
      split at run
      · cases run
        exact before found
      · split at run
        · contradiction
        · cases run
          rw [Std.ExtTreeMap.getElem?_insert] at found
          split at found
          · cases found
            exact whole
          · exact before found
    · exact steady.same rfl rfl rfl

theorem initChainSteady {s : Blockchain} (steady : Steady s) (address : Address) (sk pk : Bytes)
    (now : Int) : Steady (Outcome.stateOf (s.initChain address sk pk now)) := by
  unfold initChain
  split
  · exact steady
  · dsimp only
    generalize (if pk.isEmpty then s.state.staking.validators.getD address [] else pk) = key
    have whole : Whole ((Block.genesis address
        (if key.isEmpty then [] else [registration address sk key now]) now).sign sk) := by
      intro tx inside
      simp only [Block.signTransactions,Block.genesis] at inside
      split at inside
      · cases inside
      · cases List.mem_singleton.mp inside
        exact ⟨fun mint => by contradiction,fun transfer => by contradiction⟩
    generalize (Block.genesis address
      (if key.isEmpty then [] else [registration address sk key now]) now).sign sk = genesis at whole
    refine Outcome.leavesBind Steady (appendBlockSteady steady whole) (fun t _ first => ?_)
    have staked : Steady (if pk.isEmpty then t else t.autoStake address) := by
      split
      · exact first
      · exact Steady.same first rfl (Backend.storedMapStore _ t.backend (fun d => Store.keepsRefl d)) rfl
    generalize (if pk.isEmpty then t else t.autoStake address) = staking at staked
    have rooted : Steady staking.stateRoot.2 := staked.same rfl rfl rfl
    refine Outcome.leavesBind Steady (replaceTipSteady rooted whole) (fun u _ last => ?_)
    exact Steady.same last rfl rfl rfl

omit [Env] in
theorem activateSteady {s : Blockchain} (steady : Steady s) (address : Address) :
    Steady (Outcome.stateOf (s.activateFinancialLayer address)) := by
  unfold activateFinancialLayer
  split
  · exact steady
  · dsimp only
    have finish : ∀ {t : Blockchain}, Steady t → Steady (Outcome.stateOf (t.rebuildStateTrie >>= fun t =>
        .ok (if 0 ≤ t.height then
          { t with stateSnapshots := t.stateSnapshots.insert t.height t.trie.snapshot } else t))) := by
      intro t before
      have rebuilt : Steady (Outcome.stateOf t.rebuildStateTrie) := by
        rw [rebuildStateTrie,Outcome.stateOfWithin]
        exact before.same rfl rfl rfl
      refine Outcome.leavesBind Steady rebuilt (fun u _ reached => ?_)
      show Steady (if 0 ≤ u.height then _ else u)
      split
      · exact Steady.same reached rfl rfl rfl
      · exact reached
    have active : Steady (s.withState { s.state with ledger := { s.state.ledger with financialActive := true } }) :=
      steady.same rfl rfl rfl
    generalize s.withState { s.state with ledger := { s.state.ledger with financialActive := true } } = t
      at active
    split
    · have paid : Steady (Outcome.stateOf (t.allocateGenesis address)) := by
        simp only [allocateGenesis]
        have credited : Steady (Outcome.stateOf (Outcome.within
            (fun ledger => t.withState { t.state with ledger })
            (t.state.ledger.credit address (genesisBalanceQbit * qubitPerQbit)))) := by
          rw [Outcome.stateOfWithin]
          exact active.same rfl rfl rfl
        refine Outcome.leavesBind Steady credited (fun u _ reached => ?_)
        refine Steady.mapStore ?_ _ (fun d => Store.keepsRefl d)
        exact Steady.same reached rfl rfl rfl
      refine Outcome.leavesBind Steady paid (fun u _ reached => ?_)
      exact finish reached
    · exact finish active

theorem drainSteady {s : Blockchain} (steady : Steady s) (block : Block) : Steady (s.drainPool block) :=
  steady.beside rfl rfl (fun _ inside => (List.mem_filter.mp inside).1)

theorem addBlockSteady {s : Blockchain} {block : Block} {now : Int} (steady : Steady s)
    (first : block.index = 0 → Whole block) : Steady (s.addBlock block now).2 := by
  unfold addBlock
  split
  · exact steady
  · dsimp only
    split
    · split
      · exact steady
      · rename_i valid
        split
        · exact steady
        · have whole : Whole block := by
            by_cases genesis : block.index = 0
            · exact first genesis
            · exact validWhole genesis valid
          have appended := appendBlockSteady steady whole
          split
          · rename_i t run
            rw [run] at appended
            exact drainSteady appended block
          · rename_i message t run
            rw [run] at appended
            exact appended
          · rename_i r _ run
            rw [run] at appended
            exact appended
    · split <;> exact steady

theorem produceBlockSteady {s : Blockchain} (steady : Steady s) (address : Address) (sk : Bytes)
    (now later : Int) : Steady (s.produceBlock address sk now later).2 := by
  unfold produceBlock
  split
  · exact steady
  · split
    · exact steady
    · rename_i parent tip
      have whole : Whole (s.draftBlock parent address sk now) := fun tx inside =>
        steady.pool tx (selectTxsSubset s parent tx inside)
      split
      · exact steady
      · split
        · exact steady
        · split
          · exact steady
          · dsimp only
            generalize s.draftBlock parent address sk now = draft at whole
            split
            · exact steady
            · split
              · exact steady
              · have appended := appendBlockSteady steady whole
                split
                · rename_i r run
                  rw [run] at appended
                  exact appended
                · rename_i t run
                  rw [run] at appended
                  have stamped : Steady (Outcome.stateOf (t.replaceTip draft (stampedBlock draft
                      (t.lastComputedStateRoot.getD t.stateRoot.1) t.lastComputedReceiptsRoot sk))) :=
                    replaceTipSteady appended whole
                  split
                  · rename_i r replaced
                    rw [replaced] at stamped
                    exact stamped
                  · rename_i u replaced
                    rw [replaced] at stamped
                    exact drainSteady stamped _

theorem submitSteady {s : Blockchain} (steady : Steady s) (now : Int) (tx : Transaction) :
    Steady (s.submitTx now tx).2 := by
  unfold submitTx
  split
  · exact steady
  · rename_i run
    simp only [submitCheck,Outcome.bindOk] at run
    obtain ⟨_,-,_,-,_,-,_,-,_,payload,-⟩ := run
    refine ⟨steady.tokens,steady.blocks,fun other inside => ?_⟩
    rcases List.mem_append.mp inside with old | new
    · exact steady.pool other old
    · rw [List.mem_singleton.mp new]
      exact Tokens.validMoves (payloadCheckOk payload)

end Calls

section Reorganisation

omit [Env] in
theorem restoreSavedSteady {s saved : Blockchain} (steady : Steady s) (before : Steady saved) :
    Steady (s.restoreSaved saved) := ⟨before.tokens,steady.blocks,steady.pool⟩

omit [Env] in
theorem refuseRollbackSteady {s saved : Blockchain} (steady : Steady s) (before : Steady saved)
    (forkStart : Int) {savedChain : List Block} (wholes : ∀ block ∈ savedChain, Whole block)
    (message : String) : Steady (s.refuseRollback saved forkStart savedChain message).2 := by
  have restored := restoreSavedSteady steady before
  simp only [refuseRollback]
  generalize s.restoreSaved saved = t at restored
  split
  · rename_i chainList stored
    refine ⟨restored.tokens,fun block kept => ?_,restored.pool⟩
    rcases List.mem_append.mp (kept : block ∈ chainList.take forkStart.toNat ++ savedChain) with old | new
    · exact restored.blocks block (by rw [stored]; exact List.mem_of_mem_take old)
    · exact wholes block new
  · rename_i d stored
    have cut : Steady { t with backend := .sqlite (d.deleteBlocksFrom forkStart) } := by
      refine ⟨restored.tokens,fun block kept => restored.blocks block ?_,restored.pool⟩
      rw [stored]
      exact Backend.keepsDelete kept
    split <;> exact cut

theorem restoreOriginalSteady {s : Blockchain} (steady : Steady s) (forkStart : Int)
    {savedChain : List Block} (wholes : ∀ block ∈ savedChain, Whole block) (applied : Bool)
    (message : String) : Steady (s.restoreOriginal forkStart savedChain applied message).2 := by
  have again : ∀ {t : Blockchain}, Steady t → Steady (Outcome.stateOf (savedChain.foldlM appendBlock t)) :=
    fun before => Outcome.foldLeaves Steady (fun t block inside reached =>
      appendBlockSteady reached (wholes block inside)) before
  have outcome : Steady (Outcome.stateOf
      (if applied then s.rollbackTo forkStart >>= fun s => savedChain.foldlM appendBlock s
        else Except.ok s >>= fun s => savedChain.foldlM appendBlock s)) := by
    split
    · exact Outcome.leavesBind Steady (rollbackToSteady steady forkStart) (fun t _ reached => again reached)
    · exact again steady
  dsimp only [restoreOriginal]
  split
  · rename_i run
    rwa [run] at outcome
  · rename_i run
    rwa [run] at outcome

theorem applyForkSteady {savedChain fork : List Block} {s : Blockchain} {now forkStart : Int}
    {applied : Bool} {parent : Option Block} (steady : Steady s)
    (wholes : ∀ block ∈ savedChain, Whole block) (first : ∀ fb ∈ fork, fb.index = 0 → Whole fb) :
    Steady (applyFork now forkStart savedChain fork applied parent s).2 := by
  induction fork generalizing s applied parent with
  | nil => exact steady
  | cons fb rest ih =>
    have restored : ∀ {t : Blockchain}, Steady t → ∀ message,
        Steady (t.restoreOriginal forkStart savedChain applied message).2 :=
      fun before message => restoreOriginalSteady before forkStart wholes applied message
    unfold applyFork
    split
    · exact restored steady _
    · split
      · exact restored steady _
      · exact steady
      · rename_i valid
        have whole : Whole fb := by
          by_cases genesis : fb.index = 0
          · exact first fb (List.mem_cons_self ..) genesis
          · exact validWhole genesis valid
        have appended := appendBlockSteady steady whole
        split
        · rename_i t run
          rw [run] at appended
          exact ih appended (fun other inside => first other (List.mem_cons_of_mem _ inside))
        · rename_i message t run
          rw [run] at appended
          exact restored appended _
        · rename_i r _ run
          rw [run] at appended
          exact appended

theorem returnDisplacedSteady {s : Blockchain} (steady : Steady s) (fork : List Block)
    {displaced : List Transaction} (moves : ∀ tx ∈ displaced, Tokens.Moves tx) :
    Steady (s.returnDisplaced fork displaced) := by
  have back : ∀ (mined : List String) (txs : List Transaction) (s : Blockchain), Steady s →
      (∀ tx ∈ txs, Tokens.Moves tx) → Steady (txs.foldl (returnTx mined) s) := by
    intro mined txs
    induction txs with
    | nil => exact fun _ before _ => before
    | cons tx rest ih =>
      intro s before moves
      refine ih _ ?_ (fun other inside => moves other (List.mem_cons_of_mem _ inside))
      unfold returnTx
      split
      · exact before
      · split
        · refine ⟨before.tokens,before.blocks,fun other inside => ?_⟩
          rcases List.mem_append.mp inside with old | new
          · exact before.pool other old
          · exact List.mem_singleton.mp new ▸ moves tx (List.mem_cons_self ..)
        · exact before
  simp only [returnDisplaced]
  have all := back ((fork.flatMap Block.transactions).map Transaction.txId)
    (displaced.insertionSort
      (fun a b => a.sender < b.sender ∨ (a.sender = b.sender ∧ a.nonce ≤ b.nonce))) s steady
    (fun tx inside => moves tx ((List.mem_insertionSort ..).mp inside))
  exact all.same rfl rfl rfl

theorem tryReorgSteady {s : Blockchain} {fork : List Block} {now : Int} (steady : Steady s)
    (first : ∀ fb ∈ fork, fb.index = 0 → Whole fb) : Steady (s.tryReorg fork now).2 := by
  unfold tryReorg
  split
  · exact steady
  · rename_i forkStart begun
    dsimp only
    have wholes : ∀ block ∈ s.backend.getBlocksRange forkStart (s.height + 1), Whole block :=
      fun block inside => steady.blocks block (Backend.keepsRange inside)
    have displaced : ∀ tx ∈ (s.blocksFrom forkStart).flatMap Block.transactions, Tokens.Moves tx := by
      intro tx inside
      obtain ⟨block,listed,own⟩ := List.mem_flatMap.mp inside
      exact steady.blocks block (blocksFromKept listed) tx own
    have rolled := rollbackToSteady steady forkStart
    split
    · rename_i r run
      rw [run] at rolled
      exact rolled
    · rename_i t run
      rw [run] at rolled
      have compared : Steady (t.rootMismatch (forkStart - 1)).2 := by
        unfold rootMismatch
        split
        · exact rolled
        · dsimp only
          split <;> exact Steady.same rolled rfl rfl rfl
      split
      · rename_i message u mismatch
        rw [mismatch] at compared
        exact refuseRollbackSteady compared steady forkStart wholes message
      · rename_i u matched
        rw [matched] at compared
        have forked := @applyForkSteady _ _ fork u now forkStart false u.latestBlock compared wholes first
        split
        · rename_i v answer
          rw [answer] at forked
          exact returnDisplacedSteady forked fork displaced
        · exact forked

end Reorganisation

def GivesAmounts (_ : Blockchain) : Call → Prop
  | .receive block _ => block.index = 0 → Whole block
  | .reorg fork _ => ∀ fb ∈ fork, fb.index = 0 → Whole fb
  | _ => True

omit [Env] in
theorem answeredSteady {x : Except (Fault Blockchain) Blockchain} (left : Steady (Outcome.stateOf x)) :
    Steady (answered x).2 := by
  cases x <;> exact left

theorem performSteady {s : Blockchain} (steady : Steady s) (c : Call) (gives : GivesAmounts s c) :
    Steady (s.perform c).2 := by
  cases c with
  | initChain address sk pk now => exact answeredSteady (initChainSteady steady address sk pk now)
  | activate address => exact answeredSteady (activateSteady steady address)
  | submit now tx => exact submitSteady steady now tx
  | produce address sk now later => exact produceBlockSteady steady address sk now later
  | receive block now => exact addBlockSteady steady gives
  | rollback target => exact answeredSteady (rollbackToSteady steady target)
  | reorg fork now => exact tryReorgSteady steady gives

omit [Env] in
theorem steadyNew {backend : Backend} {validators : Dict Address Bytes} (empty : ∀ block, ¬backend.Keeps block) :
    Steady (new backend validators) :=
  ⟨Tokens.exactEmpty,fun block kept => absurd kept (empty block),fun tx inside => by simp [new] at inside⟩

theorem reachedExact {s : Blockchain} {validators : Dict Address Bytes}
    (reached : Reached GivesAmounts (new (.memory []) validators) s ∨ Reached GivesAmounts (new (.sqlite {}) validators) s) :
    s.state.tokens.Exact := by
  have kept : ∀ {start s : Blockchain}, Steady start → Reached GivesAmounts start s → Steady s :=
    fun begins reached => reachedInvariant Steady begins (fun _ c before gives _ => performSteady before c gives) reached
  rcases reached with memory | sqlite
  · exact (kept (steadyNew (fun block inside => by cases inside)) memory).tokens
  · refine (kept (steadyNew ?_) sqlite).tokens
    rintro block ⟨i,found⟩
    simp at found

theorem tokenHoldersExact {validators : Dict Address Bytes} : ∀ s : Blockchain,
    Reached GivesAmounts (new (.memory []) validators) s ∨ Reached GivesAmounts (new (.sqlite {}) validators) s →
      s.state.tokens.Exact := fun _ reached => reachedExact reached

end Blockchain

end QbitNetwork

namespace QbitNetwork.Devnet
attribute [local instance] legacy
open Blockchain

def emptyTransfer : Transaction :=
  Transaction.sign
    { txType := .TRANSFER_TOKEN
      sender := address
      payload := { tokenId := some gold }
      recipient := address
      timestamp := 100 } key key

def moneylessGenesis : Block := (Block.genesis address [mint 5 0,emptyTransfer] 100).sign key

def moneyless : Blockchain := ((new (.memory [])).addBlock moneylessGenesis 100).2

theorem moneylessRefused : ((new (.memory [])).addBlock moneylessGenesis 100).1.Ended ∧
    moneyless.state.tokens.balances[(gold,address)]? = some 0 := by decide +kernel

/- The undo of the transfer that was never applied leaves a balance of zero. -/
theorem tokenHoldersInexact : ¬∀ s : Blockchain,
    Reached (fun _ _ => True) (new (.memory [])) s ∨ Reached (fun _ _ => True) (new (.sqlite {})) s →
      s.state.tokens.Exact := by
  intro claim
  have reached : Reached (fun _ _ => True) (new (.memory [])) moneyless := by
    rw [moneyless]
    exact Reached.receive .start moneylessGenesis 100 trivial moneylessRefused.1
  exact absurd ((claim moneyless (.inl reached)).positive (gold,address) 0 moneylessRefused.2) (by decide)

theorem issueSubmitted : (active.submitTx 101 issue).1.Ended := by decide +kernel

theorem mintSubmitted : (issued.submitTx 103 (mint 5 1)).1.Ended := by decide +kernel

theorem mintedReached : Reached GivesAmounts (new (.memory [])) minted := by
  have begun : Reached GivesAmounts (new (.memory [])) active :=
    (Reached.start.initChain address key key 100 trivial genesisRuns).activate address trivial activeRuns
  have issues : Reached GivesAmounts (new (.memory [])) issued := by
    have submitted : Reached GivesAmounts (new (.memory [])) issuing := by
      rw [issuing]
      exact Reached.submit begun 101 issue trivial issueSubmitted
    rw [issued]
    exact Reached.produce submitted address key 102 102 trivial (issuedAnswer.1 ▸ .accepted)
  have submitted : Reached GivesAmounts (new (.memory [])) minting := by
    rw [minting]
    exact Reached.submit issues 103 (mint 5 1) trivial mintSubmitted
  rw [minted]
  exact Reached.produce submitted address key 104 104 trivial (mintedAnswer.1 ▸ .accepted)

theorem tokenHoldersMinted : minted.state.tokens.Exact :=
  tokenHoldersExact minted (.inl mintedReached)

end QbitNetwork.Devnet
