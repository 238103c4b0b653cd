import QbitNetwork.Append

/-! What a block that is appended changes: the replicated state goes through
`ChainState.applyBlock`, the block becomes the tip, and the other fields keep what they
had. -/
namespace QbitNetwork

namespace Backend

def stored : Backend → List Block ⊕ (Int × Dict Int Block)
  | .memory chainList => .inl chainList
  | .sqlite store => .inr (store.height,store.blocks)

theorem storedMapStore (f : Store → Store) (b : Backend)
    (kept : ∀ d, (f d).height = d.height ∧ (f d).blocks = d.blocks) :
    (b.mapStore f).stored = b.stored := by
  cases b with
  | memory chainList => rfl
  | sqlite store =>
    obtain ⟨height,blocks⟩ := kept store
    simp only [mapStoreSqlite,stored,height,blocks]

end Backend

namespace Store

def Keeps (d d' : Store) : Prop := d'.height = d.height ∧ d'.blocks = d.blocks

theorem keepsRefl (d : Store) : Keeps d d := ⟨rfl,rfl⟩

theorem Keeps.trans {a b c : Store} (first : Keeps a b) (second : Keeps b c) : Keeps a c :=
  ⟨second.1.trans first.1,second.2.trans first.2⟩

theorem keepsFold {α : Type} (f : Store → α → Store) (kept : ∀ d x, Keeps d (f d x)) (xs : List α)
    (d : Store) : Keeps d (xs.foldl f d) := by
  induction xs generalizing d with
  | nil => exact keepsRefl d
  | cons x xs ih => exact (kept d x).trans (ih (f d x))

variable [Env]

theorem persistTxKeeps (before after : ChainState) (tx : Transaction) (d : Store) :
    Keeps d (d.persistTx before after tx) := by
  cases kind : tx.txType <;> simp only [persistTx,kind]
  case EVIDENCE =>
    split
    · generalize (before.staking.stakes.items.filter _).map _ = stakers
      have stakes := keepsFold (fun d staker => d.putStake staker
        (tx.payload.validatorAddress.getD "")
        (after.staking.stakes.get (tx.payload.validatorAddress.getD "",staker)))
        (fun d _ => keepsRefl d) stakers d
      split
      · exact stakes
      · exact stakes
    · exact keepsRefl d
  all_goals (repeat' split) <;> exact ⟨rfl,rfl⟩

end Store

namespace Blockchain
variable [Env]

structure Kept (s s' : Blockchain) : Prop where
  stored : s'.backend.stored = s.backend.stored
  latestBlock : s'.latestBlock = s.latestBlock
  height : s'.height = s.height
  blockByHash : s'.blockByHash = s.blockByHash
  finalizedHeight : s'.finalizedHeight = s.finalizedHeight
  genesisHash : s'.genesisHash = s.genesisHash
  chainNonces : s'.chainNonces = s.chainNonces

omit [Env] in
theorem keptRefl (s : Blockchain) : Kept s s := ⟨rfl,rfl,rfl,rfl,rfl,rfl,rfl⟩

omit [Env] in
theorem Kept.trans {a b c : Blockchain} (first : Kept a b) (second : Kept b c) : Kept a c where
  stored := second.stored.trans first.stored
  latestBlock := second.latestBlock.trans first.latestBlock
  height := second.height.trans first.height
  blockByHash := second.blockByHash.trans first.blockByHash
  finalizedHeight := second.finalizedHeight.trans first.finalizedHeight
  genesisHash := second.genesisHash.trans first.genesisHash
  chainNonces := second.chainNonces.trans first.chainNonces

omit [Env] in
theorem keptState (s : Blockchain) (state : ChainState) : Kept s (s.withState state) :=
  ⟨rfl,rfl,rfl,rfl,rfl,rfl,rfl⟩

omit [Env] in
theorem keptMapStore (s : Blockchain) (f : Store → Store) (kept : ∀ d, Store.Keeps d (f d)) :
    Kept s (s.mapStore f) :=
  ⟨Backend.storedMapStore f _ kept,rfl,rfl,rfl,rfl,rfl,rfl⟩

omit [Env] in
theorem openBlockOk {s s' : Blockchain} {idx : Int} (run : s.openBlock idx = .ok s') :
    s.state.openBlock idx = .ok s'.state ∧ Kept s s' := by
  simp only [openBlock,Outcome.bindOk,Outcome.withinOk] at run
  obtain ⟨_,⟨state,opened,rfl⟩,run⟩ := run
  cases run
  split
  · exact ⟨opened,(keptState s state).trans (keptMapStore _ _ (fun d => Store.keepsRefl d))⟩
  · exact ⟨opened,keptState s state⟩

theorem applyBlockTxOk {block : Block} {idx : Int} {p p' : Progress} {row : Transaction × Nat}
    (run : applyBlockTx block idx p row = .ok p') :
    ChainState.applyTx block idx p.chain.state row = .ok p'.chain.state ∧ Kept p.chain p'.chain := by
  simp only [applyBlockTx,Outcome.bindOk,Outcome.withinOk] at run
  obtain ⟨_,⟨_,⟨state,applied,rfl⟩,rfl⟩,run⟩ := run
  cases run
  refine ⟨applied,(keptState p.chain state).trans ?_⟩
  exact ⟨Backend.storedMapStore _ _ (Store.persistTxKeeps _ _ _),rfl,rfl,rfl,rfl,rfl,rfl⟩

theorem applyTxsOk {s : Blockchain} {block : Block} {idx : Int} {p : Progress}
    (run : s.applyTxs block idx = .ok p) :
    s.state.applyTxs block idx = .ok p.chain.state ∧ Kept s p.chain := by
  unfold applyTxs at run
  constructor
  · unfold ChainState.applyTxs
    exact Outcome.foldProjects (fun p : Progress => p.chain.state) (ChainState.applyTx block idx)
      (fun _ _ _ step => (applyBlockTxOk step).1) run
  · exact Outcome.foldInvariant (fun p : Progress => Kept s p.chain)
      (fun _ _ _ kept step => kept.trans (applyBlockTxOk step).2) (keptRefl s) run

theorem checkReceiptsRootOk {s s' : Blockchain} {block : Block} {idx : Int}
    {receipts : List Receipt} (run : s.checkReceiptsRoot block idx receipts = .ok s') :
    s'.state = s.state ∧ Kept s s' ∧ s'.lastComputedReceiptsRoot = receiptsRoot receipts ∧
      (block.receiptsRoot ≠ "" → block.receiptsRoot = receiptsRoot receipts) := by
  simp only [checkReceiptsRoot] at run
  split at run
  · contradiction
  · cases run
    exact ⟨rfl,⟨rfl,rfl,rfl,rfl,rfl,rfl,rfl⟩,rfl,by tauto⟩

omit [Env] in
theorem rebuildStateTrieOk {s s' : Blockchain} (run : s.rebuildStateTrie = .ok s') :
    ∃ trie, s.state.rebuildStateTrie s.trie = .ok trie ∧ s' = s.withTrie trie := by
  simp only [rebuildStateTrie,Outcome.withinOk] at run
  obtain ⟨trie,rebuilt,rfl⟩ := run
  exact ⟨trie,rebuilt,rfl⟩

theorem checkStateRootOk {s s' : Blockchain} {block : Block} {idx : Int}
    (run : s.checkStateRoot block idx = .ok s') :
    s'.state = s.state ∧ Kept s s' ∧
      ∃ trie, s.state.rebuildStateTrie s.trie = .ok trie ∧ s'.trie = trie.root.2 ∧
        s'.lastComputedStateRoot = some (hex trie.root.1) ∧
        s'.stateSnapshots = s.stateSnapshots ∧
        s'.lastComputedReceiptsRoot = s.lastComputedReceiptsRoot ∧
        (block.stateRoot ≠ "" → block.stateRoot = hex trie.root.1) := by
  simp only [checkStateRoot,Outcome.bindOk] at run
  obtain ⟨mid,rebuilt,run⟩ := run
  obtain ⟨trie,built,rfl⟩ := rebuildStateTrieOk rebuilt
  unfold compareStateRoot at run
  split at run
  · contradiction
  · rename_i matching
    cases run
    refine ⟨rfl,⟨rfl,rfl,rfl,rfl,rfl,rfl,rfl⟩,trie,built,rfl,rfl,rfl,rfl,?_⟩
    intro claimed
    by_contra different
    exact matching ⟨claimed,different⟩

def SameIndex (x y : Index) : Prop :=
  y = { x with txsBySender := y.txsBySender, txsByRecipient := y.txsByRecipient }

omit [Env] in
theorem sameIndexTrans {x y z : Index} (first : SameIndex x y) (second : SameIndex y z) :
    SameIndex x z := by
  unfold SameIndex at *
  rw [second,first]

theorem pruneTxsSame (txs : List Transaction) (x : Index) :
    SameIndex x (txs.foldl Index.pruneTx x) := by
  induction txs generalizing x with
  | nil => rfl
  | cons tx txs ih => exact sameIndexTrans (by rfl) (ih (x.pruneTx tx))

theorem pruneTxIndexOk (s : Blockchain) (idx : Int) :
    ∃ index, s.pruneTxIndex idx = s.withState { s.state with index } ∧
      SameIndex s.state.index index := by
  unfold pruneTxIndex
  split
  · exact ⟨s.state.index,rfl,rfl⟩
  · split
    · split
      · exact ⟨_,rfl,pruneTxsSame ..⟩
      · exact ⟨s.state.index,rfl,rfl⟩
    · exact ⟨s.state.index,rfl,rfl⟩

omit [Env] in
theorem memDownFrom {high low i : Int} : i ∈ downFrom high low ↔ low < i ∧ i ≤ high := by
  simp only [downFrom,List.mem_map,List.mem_range]
  constructor
  · rintro ⟨offset,inside,rfl⟩; omega
  · rintro ⟨above,below⟩; exact ⟨(high - i).toNat,by omega,by omega⟩

omit [Env] in
theorem finalityWalkMem (s : Blockchain) (totalStake : Int) (heights : List Int)
    (seen : List Address) (cumulative found : Int)
    (walk : s.finalityWalk totalStake heights seen cumulative = some found) : found ∈ heights := by
  induction heights generalizing seen cumulative with
  | nil => simp [finalityWalk] at walk
  | cons height rest ih =>
    simp only [finalityWalk] at walk
    split at walk
    · contradiction
    · split at walk
      · cases walk; exact List.mem_cons_self ..
      · exact List.mem_cons_of_mem _ (ih _ _ walk)

omit [Env] in
theorem updateFinalityOk (s : Blockchain) (idx : Int) :
    ∃ final, s.updateFinality idx = { s with finalizedHeight := final } ∧
      s.finalizedHeight ≤ final ∧ (final = s.finalizedHeight ∨ final ≤ idx) := by
  simp only [updateFinality]
  split
  · exact ⟨s.finalizedHeight,rfl,le_refl _,.inl rfl⟩
  · split
    · rename_i final walk
      have inside := memDownFrom.mp (finalityWalkMem s _ _ _ _ _ walk)
      split
      · exact ⟨final,rfl,by omega,.inr inside.2⟩
      · exact ⟨s.finalizedHeight,rfl,le_refl _,.inl rfl⟩
    · exact ⟨s.finalizedHeight,rfl,le_refl _,.inl rfl⟩

def extended (stored : List Block ⊕ (Int × Dict Int Block)) (block : Block) :
    List Block ⊕ (Int × Dict Int Block) :=
  match stored with
  | .inl chainList => .inl (chainList ++ [block])
  | .inr (height,blocks) => .inr (height + 1,blocks.insert (height + 1) block)

theorem storeBlockOk {s s' : Blockchain} {block : Block} (run : s.storeBlock block = .ok s') :
    ∃ backend, s' = { s with backend } ∧ backend.stored = extended s.backend.stored block := by
  unfold storeBlock at run
  split at run
  · rename_i chainList found
    cases run
    exact ⟨_,rfl,by simp [found,Backend.stored,extended]⟩
  · rename_i store found
    split at run
    · rename_i store' appended
      cases run
      simp only [Store.appendBlock] at appended
      split at appended
      · contradiction
      · cases appended
        exact ⟨_,rfl,by simp [found,Backend.stored,extended]⟩
    · contradiction

structure Appended (s : Blockchain) (block : Block) (s' : Blockchain) (c : ChainState) : Prop where
  applied : s.state.applyBlock block (s.height + 1) = .ok c
  ledger : s'.state.ledger = c.ledger
  tokens : s'.state.tokens = c.tokens
  staking : s'.state.staking = c.staking.pruneDistributions (pruneBefore (s.height + 1))
  index : SameIndex c.index s'.state.index
  stored : s'.backend.stored = extended s.backend.stored block
  latestBlock : s'.latestBlock = some block
  height : s'.height = s.height + 1
  blockByHash : s'.blockByHash = s.blockByHash.insert block.blockHash (s.height + 1)
  genesisHash : s'.genesisHash = s.genesisHash
  chainNonces : s'.chainNonces = s.chainNonces
  finalized : s.finalizedHeight ≤ s'.finalizedHeight
  finalizedBound : s'.finalizedHeight = s.finalizedHeight ∨ s'.finalizedHeight ≤ s.height + 1

omit [Env] in
theorem persistBalancesKept (s : Blockchain) (block : Block) (idx : Int) (matured : List Address) :
    Kept s (s.persistBalancesAfterBlock block idx matured) := by
  unfold persistBalancesAfterBlock
  split
  · refine keptMapStore s _ (fun d => ?_)
    exact Store.keepsFold (fun d address => d.putBalance address (s.getBalance address))
      (fun d _ => Store.keepsRefl d) (s.affectedAddresses block idx matured) d
  · exact keptRefl s

omit [Env] in
theorem persistBalancesState (s : Blockchain) (block : Block) (idx : Int) (matured : List Address) :
    (s.persistBalancesAfterBlock block idx matured).state = s.state ∧
      (s.persistBalancesAfterBlock block idx matured).trie = s.trie := by
  unfold persistBalancesAfterBlock
  split <;> exact ⟨rfl,rfl⟩

omit [Env] in
theorem persistReceiptsKept (s : Blockchain) (idx : Int) (receipts : List Receipt)
    (events : List Event) : Kept s (s.persistReceipts idx receipts events) := by
  refine keptMapStore s _ (fun d => ?_)
  have rows := Store.keepsFold Store.putReceipt (fun d _ => Store.keepsRefl d) receipts d
  dsimp only
  split
  · exact rows
  · exact rows.trans (Store.keepsRefl _)

structure Settled (s s' : Blockchain) (idx : Int) : Prop where
  ledger : s'.state.ledger = s.state.ledger
  tokens : s'.state.tokens = s.state.tokens
  staking : s'.state.staking = s.state.staking.pruneDistributions (pruneBefore idx)
  index : SameIndex s.state.index s'.state.index
  stored : s'.backend.stored = s.backend.stored
  latestBlock : s'.latestBlock = s.latestBlock
  height : s'.height = s.height
  blockByHash : s'.blockByHash = s.blockByHash
  genesisHash : s'.genesisHash = s.genesisHash
  chainNonces : s'.chainNonces = s.chainNonces
  trie : s'.trie = s.trie
  finalized : s.finalizedHeight ≤ s'.finalizedHeight
  finalizedBound : s'.finalizedHeight = s.finalizedHeight ∨ s'.finalizedHeight ≤ idx

theorem pruneCachesOk (s : Blockchain) (idx : Int) :
    ∃ index log, s.pruneCaches idx = ({ s with log } : Blockchain).withState { s.state with
        index, staking := s.state.staking.pruneDistributions (pruneBefore idx) } ∧
      SameIndex s.state.index index := by
  simp only [pruneCaches]
  obtain ⟨index,pruned,same⟩ :=
    pruneTxIndexOk { s with log := s.log.pruneReceipts (pruneBefore idx) } idx
  exact ⟨index,s.log.pruneReceipts (pruneBefore idx),by rw [pruned]; rfl,same⟩

theorem settled (s : Blockchain) (block : Block) (idx : Int) (matured : List Address)
    (receipts : List Receipt) (events : List Event) :
    Settled s (s.settleBlock block idx matured receipts events) idx := by
  unfold settleBlock
  obtain ⟨index,log,pruned,same⟩ := pruneCachesOk (s.saveSnapshot idx) idx
  dsimp only
  rw [pruned]
  generalize shape : ({ s.saveSnapshot idx with log } : Blockchain).withState _ = mid
  have kept : Kept s mid := shape ▸ ⟨rfl,rfl,rfl,rfl,rfl,rfl,rfl⟩
  have balances := persistBalancesState mid block idx matured
  have later := (kept.trans (persistBalancesKept mid block idx matured)).trans
    (persistReceiptsKept (mid.persistBalancesAfterBlock block idx matured) idx receipts events)
  obtain ⟨final,finality,up,bound⟩ := updateFinalityOk
    ((mid.persistBalancesAfterBlock block idx matured).persistReceipts idx receipts events) idx
  rw [finality]
  have state : ((mid.persistBalancesAfterBlock block idx matured).persistReceipts idx receipts
      events).state = { s.state with
        index, staking := s.state.staking.pruneDistributions (pruneBefore idx) } :=
    balances.1.trans (shape ▸ rfl)
  have trie : ((mid.persistBalancesAfterBlock block idx matured).persistReceipts idx receipts
      events).trie = s.trie := balances.2.trans (shape ▸ rfl)
  refine ⟨?_,?_,?_,?_,later.stored,later.latestBlock,later.height,later.blockByHash,
    later.genesisHash,later.chainNonces,trie,later.finalizedHeight ▸ up,
    later.finalizedHeight ▸ bound⟩
  · simp only [state]
  · simp only [state]
  · simp only [state]
  · simp only [state]; exact same

theorem appendInnerOk {s s' : Blockchain} {block : Block}
    (run : s.appendBlockInner block = .ok s') : ∃ c, Appended s block s' c := by
  simp only [appendBlockInner,Outcome.bindOk] at run
  obtain ⟨s1,stored,s2,opened,run⟩ := run
  obtain ⟨backend,rfl,extension⟩ := storeBlockOk stored
  obtain ⟨openedState,openedKept⟩ := openBlockOk opened
  split at run
  · contradiction
  · rename_i p applied
    obtain ⟨appliedState,appliedKept⟩ := applyTxsOk applied
    simp only [closeBlock,Outcome.bindOk,Outcome.withinOk] at run
    obtain ⟨_,⟨c,paid,rfl⟩,s4,receipts,s5,root,run⟩ := run
    obtain ⟨state4,kept4,-,-⟩ := checkReceiptsRootOk receipts
    obtain ⟨state5,kept5,-⟩ := checkStateRootOk root
    have done : Settled s5 s' (s.height + 1) := Except.ok.inj run ▸ settled ..
    have state : s5.state = c := state5.trans (state4.trans rfl)
    have closing := kept4.trans kept5
    have applying : Kept p.chain s5 := ⟨closing.stored,closing.latestBlock,closing.height,
      closing.blockByHash,closing.finalizedHeight,closing.genesisHash,closing.chainNonces⟩
    have kept := (openedKept.trans appliedKept).trans applying
    refine ⟨c,?_,?_,?_,?_,state ▸ done.index,?_,?_,?_,?_,?_,?_,?_,?_⟩
    · simp only [ChainState.applyBlock,Outcome.bindOk]
      exact ⟨s2.state,openedState,p.chain.state,appliedState,paid⟩
    · rw [done.ledger,state]
    · rw [done.tokens,state]
    · rw [done.staking,state]
    · rw [done.stored,kept.stored]; exact extension
    · rw [done.latestBlock,kept.latestBlock]; rfl
    · rw [done.height,kept.height]; rfl
    · rw [done.blockByHash,kept.blockByHash]; rfl
    · rw [done.genesisHash,kept.genesisHash]; rfl
    · rw [done.chainNonces,kept.chainNonces]; rfl
    · exact kept.finalizedHeight ▸ done.finalized
    · exact kept.finalizedHeight ▸ done.finalizedBound

end Blockchain

end QbitNetwork
