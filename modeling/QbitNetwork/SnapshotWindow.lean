import QbitNetwork.Commitment
import QbitNetwork.RollbackLaws
import QbitNetwork.StakeUndo
import QbitNetwork.StateProofs

/-! The window of state snapshots behind the tip, which a reorganisation compares its ancestor
with: appends add to it and prune it, undone blocks leave it, and nothing puts back what was pruned. -/
namespace QbitNetwork.Blockchain
variable [Env]

section Unmoved

structure Unmoved (s t : Blockchain) : Prop where
  stored : t.backend.stored = s.backend.stored
  height : t.height = s.height
  latestBlock : t.latestBlock = s.latestBlock
  snapshots : t.stateSnapshots = s.stateSnapshots

omit [Env] in
theorem unmovedRefl (s : Blockchain) : Unmoved s s := ⟨rfl,rfl,rfl,rfl⟩

omit [Env] in
theorem Unmoved.trans {s t u : Blockchain} (first : Unmoved s t) (second : Unmoved t u) : Unmoved s u where
  stored := second.stored.trans first.stored
  height := second.height.trans first.height
  latestBlock := second.latestBlock.trans first.latestBlock
  snapshots := second.snapshots.trans first.snapshots

omit [Env] in
theorem unmovedState (s : Blockchain) (state : ChainState) : Unmoved s (s.withState state) := ⟨rfl,rfl,rfl,rfl⟩

omit [Env] in
theorem unmovedTrie (s : Blockchain) (trie : StateTrie) : Unmoved s (s.withTrie trie) := ⟨rfl,rfl,rfl,rfl⟩

omit [Env] in
theorem unmovedStore (s : Blockchain) (f : Store → Store) (kept : ∀ d, Store.Keeps d (f d)) : Unmoved s (s.mapStore f) :=
  ⟨Backend.storedMapStore f _ kept,rfl,rfl,rfl⟩

omit [Env] in
theorem openBlockUnmoved (s : Blockchain) (idx : Int) : Unmoved s (Outcome.stateOf (s.openBlock idx)) := by
  have opened : Unmoved s (Outcome.stateOf (Outcome.within s.withState (s.state.openBlock idx))) := by
    rw [Outcome.stateOfWithin]
    exact unmovedState s _
  simp only [openBlock]
  refine Outcome.stateOfBind (Unmoved s) opened (fun t run => ?_)
  rw [run] at opened
  simp only [Outcome.stateOf] at opened ⊢
  split
  · exact opened.trans (unmovedStore t _ (fun d => Store.keepsRefl d))
  · exact opened

theorem applyBlockTxUnmoved (block : Block) (idx : Int) (p : Progress) (row : Transaction × Nat) :
    Unmoved p.chain (Outcome.stateOf (applyBlockTx block idx p row)).chain := by
  have applied : Unmoved p.chain (Outcome.stateOf (Outcome.within (fun chain => { p with chain })
      (Outcome.within p.chain.withState (ChainState.applyTx block idx p.chain.state row)))).chain := by
    rw [Outcome.stateOfWithin,Outcome.stateOfWithin]
    exact unmovedState p.chain _
  simp only [applyBlockTx]
  refine Outcome.stateOfBind (fun q : Progress => Unmoved p.chain q.chain) applied (fun q run => ?_)
  rw [run] at applied
  have written := applied.trans (unmovedStore q.chain (Store.persistTx p.chain.state q.chain.state row.1)
    (Store.persistTxKeeps _ _ _))
  exact ⟨written.stored,written.height,written.latestBlock,written.snapshots⟩

theorem applyTxsUnmoved (s : Blockchain) (block : Block) (idx : Int) :
    Unmoved s (Outcome.stateOf (s.applyTxs block idx)).chain :=
  Outcome.foldLeaves (fun p : Progress => Unmoved s p.chain)
    (fun p row _ kept => kept.trans (applyBlockTxUnmoved block idx p row)) (unmovedRefl s)

theorem settleUnmoved (s : Blockchain) (block : Block) (idx : Int) (matured : List Address) (receipts : List Receipt)
    (events : List Event) : Unmoved (s.saveSnapshot idx) (s.settleBlock block idx matured receipts events) := by
  have done := settled s block idx matured receipts events
  exact ⟨done.stored,done.height,done.latestBlock,(settleRoot s block idx matured receipts events).2.2⟩

omit [Env] in
theorem Unmoved.saved {s t : Blockchain} (unmoved : Unmoved s t) (idx : Int) :
    Unmoved ((s.withTrie t.trie).saveSnapshot idx) (t.saveSnapshot idx) := by
  refine ⟨unmoved.stored,unmoved.height,unmoved.latestBlock,?_⟩
  simp only [saveSnapshot,withTrie,unmoved.snapshots]

theorem closeBlockUnmoved {s : Blockchain} {p : Progress} (unmoved : Unmoved s p.chain) (block : Block) (idx : Int)
    (matured : List Address) (opening : List Event) :
    Outcome.Ends (fun t => ∃ trie, Unmoved ((s.withTrie trie).saveSnapshot idx) t) (fun _ t => Unmoved s t)
      (closeBlock p block idx matured opening) := by
  have entered : Unmoved s (addReceipts p idx) :=
    unmoved.trans ⟨rfl,rfl,rfl,rfl⟩
  simp only [closeBlock]
  generalize addReceipts p idx = q at entered
  refine Outcome.endsBind (Unmoved s) ?_ (fun paid reached => ?_)
  · refine Outcome.endsSame ?_
    rw [Outcome.stateOfWithin]
    exact entered.trans (unmovedState q _)
  refine Outcome.endsBind (Unmoved s) ?_ (fun checked reached => ?_)
  · refine Outcome.endsSame ?_
    simp only [checkReceiptsRoot]
    split <;> exact reached.trans ⟨rfl,rfl,rfl,rfl⟩
  refine Outcome.endsBind (Unmoved s) ?_ (fun rooted reached => ?_)
  · refine Outcome.endsBind (Unmoved s) ?_ (fun rebuilt reached => ?_)
    · refine Outcome.endsSame ?_
      rw [rebuildStateTrie,Outcome.stateOfWithin]
      exact reached.trans (unmovedTrie checked _)
    · refine Outcome.endsSame ?_
      simp only [compareStateRoot]
      split <;> exact reached.trans ⟨rfl,rfl,rfl,rfl⟩
  exact ⟨rooted.trie,(reached.saved idx).trans (settleUnmoved ..)⟩

theorem appendInnerUnmoved {s : Blockchain} {chain : List Block} (memory : s.backend = .memory chain) (block : Block) :
    Outcome.Ends
      (fun t => ∃ trie, Unmoved (((s.advanced (.memory (chain ++ [block])) block).withTrie trie).saveSnapshot (s.height + 1)) t)
      (fun _ t => Unmoved (s.advanced (.memory (chain ++ [block])) block) t) (s.appendBlockInner block) := by
  simp only [appendBlockInner,storeBlock,memory]
  change Outcome.Ends _ _ ((s.advanced (.memory (chain ++ [block])) block).openBlock (s.height + 1) >>= _)
  generalize s.advanced (.memory (chain ++ [block])) block = start
  refine Outcome.endsBind (Unmoved start) (Outcome.endsSame (openBlockUnmoved start _)) (fun t reached => ?_)
  have applied := reached.trans (applyTxsUnmoved t block (s.height + 1))
  split
  · rename_i r broken
    rw [broken] at applied
    exact applied
  · rename_i p run
    rw [run] at applied
    exact closeBlockUnmoved applied block _ _ _

end Unmoved

section Undo

theorem undoTxsNamed {txs : List Transaction} {t : Tokens} (named : t.Named)
    (names : ∀ tx ∈ txs, Tokens.NamesToken tx) : (txs.foldl Tokens.undoTx t).Named := by
  induction txs generalizing t with
  | nil => exact named
  | cons tx rest ih =>
    exact ih (Tokens.undoTxNamed named (names tx (List.mem_cons_self ..)))
      (fun other inside => names other (List.mem_cons_of_mem _ inside))

structure Retractable (block : Block) (t : Blockchain) : Prop where
  refundable : 0 < block.index → Refundable block
  drawn : t.state.staking.Drawn
  trie : (0 < block.index ∧ block.index - 1 ∈ t.stateSnapshots) ∨
    (t.state.tokens.Named ∧ ∀ tx ∈ block.transactions, Tokens.NamesToken tx)

theorem undoTrieAnswers {s : Blockchain} {blockIndex : Int}
    (ways : (0 < blockIndex ∧ blockIndex - 1 ∈ s.stateSnapshots) ∨ s.state.tokens.Named) :
    Outcome.Ends (fun _ => True) (fun e _ => ¬e.Caught) (s.undoTrie blockIndex) := by
  rcases ways with ⟨later,kept⟩ | named
  · have left : blockIndex - 1 ∈ s.stateSnapshots.erase blockIndex := by
      rw [Std.ExtTreeMap.mem_erase]
      exact ⟨by simp only [ne_eq,Std.compare_eq_iff_eq]; omega,kept⟩
    simp only [undoTrie]
    rw [Std.ExtTreeMap.getElem?_eq_some_getElem left]
    dsimp only
    rw [if_pos (by omega)]
    trivial
  · exact Outcome.endsMono (undoTrieEnds named blockIndex) (fun _ _ => trivial) (fun _ _ raised => raised)

theorem rollbackBlockAnswers {block : Block} {t : Blockchain} (retractable : Retractable block t) :
    Outcome.Ends (fun _ => True) (fun e _ => ¬e.Caught) (t.rollbackBlock block) := by
  obtain ⟨ledger,staking,money,distributions⟩ := undoMoneyReturns retractable.refundable t.state
  obtain ⟨senderNonce,stages⟩ := rollbackBlockStages money
  obtain ⟨tokens,-,stakes⟩ := undoTxsState block block.transactions (t.undoStart block { t.state with ledger, staking })
  obtain ⟨state,backend,shape,-⟩ := undoTxsShape block block.transactions
    (t.undoStart block { t.state with ledger, staking })
  rw [stages]
  dsimp only
  rw [shape] at tokens stakes ⊢
  have drawn : state.staking.Drawn := by
    rw [show state.staking = _ from stakes]
    refine Staking.sameDrawn (Staking.undoTxsPeriods ..).1.lastEpochDistributions ?_
    exact Staking.sameDrawn distributions retractable.drawn
  obtain ⟨ledger',staking',left,-⟩ := undoEpochReturns
    (s := { state with index := { state.index with senderNonce } }) drawn block.index
  change Outcome.Ends _ _ (Outcome.within _ (undoEpoch { state with index := _ } _) >>= _)
  rw [left]
  simp only [Outcome.withinReturns]
  change Outcome.Ends _ _ (Blockchain.undoTrie _ block.index >>= _)
  refine Outcome.endsBind _ (undoTrieAnswers ?_) (fun _ _ => trivial)
  rcases retractable.trie with kept | ⟨named,names⟩
  · exact .inl kept
  · refine .inr ?_
    show state.tokens.Named
    rw [show state.tokens = _ from tokens]
    exact undoTxsNamed named names

theorem rollbackBlockSnapshots {block : Block} {t u : Blockchain} (run : t.rollbackBlock block = .ok u) :
    u.stateSnapshots = t.stateSnapshots.erase block.index := by
  simp only [rollbackBlock,Outcome.bindOk,Outcome.withinOk] at run
  obtain ⟨_,⟨paid,money,rfl⟩,_,⟨left,epoch,rfl⟩,w,trie,run⟩ := run
  cases run
  obtain ⟨state,backend,shape,-⟩ := undoTxsShape block block.transactions
    { (t.undoLog block).withState paid with
      blockByHash := ((t.undoLog block).withState paid).blockByHash.erase block.blockHash }
  rw [shape] at trie
  obtain ⟨senderNonce,recounted,-⟩ := recomputeNonces
    ({ ({ (t.undoLog block).withState paid with
      blockByHash := ((t.undoLog block).withState paid).blockByHash.erase block.blockHash } :
        Blockchain) with state, backend } : Blockchain) block.transactions
  rw [recounted] at trie
  obtain ⟨final,rfl⟩ := undoTrieOk trie
  rfl

end Undo

section Spans

structure Spans (low : Int) (chain : List Block) (s : Blockchain) : Prop where
  held : Held chain s
  memory : s.backend = .memory chain
  whole : ∀ i, low ≤ i → i ≤ s.height → i ∈ s.stateSnapshots
  above : ∀ i ∈ s.stateSnapshots, i ≤ s.height
  named : chain = [] → s.state.tokens.Named

variable {low : Int} {chain : List Block} {s t : Blockchain}

omit [Env] in
theorem Spans.unmoved (spans : Spans low chain s) (unmoved : Unmoved s t)
    (named : chain = [] → t.state.tokens.Named) : Spans low chain t where
  held := spans.held.beside unmoved.stored unmoved.height unmoved.latestBlock
  memory := storedMemory unmoved.stored spans.memory
  whole := by
    rw [unmoved.height,unmoved.snapshots]
    exact spans.whole
  above := by
    rw [unmoved.height,unmoved.snapshots]
    exact spans.above
  named := named

omit [Env] in
theorem Spans.raise {low' : Int} (spans : Spans low chain s) (less : low ≤ low') : Spans low' chain s :=
  { spans with whole := fun i inside => spans.whole i (less.trans inside) }

omit [Env] in
theorem Spans.drop {block : Block} (spans : Spans low (chain ++ [block]) s) : block.index = chain.length ∧
    s.height = chain.length := by
  refine ⟨spans.held.placed chain.length block (by simp),?_⟩
  rw [spans.held.height]
  simp

omit [Env] in
theorem memSaveSnapshot (s : Blockchain) (idx i : Int) : i ∈ (s.saveSnapshot idx).stateSnapshots ↔
    (i = idx ∨ i ∈ s.stateSnapshots) ∧ ¬(0 ≤ pruneBefore idx ∧ i = pruneBefore idx) := by
  simp only [saveSnapshot]
  split
  · rename_i pruned
    simp only [Std.ExtTreeMap.mem_erase,Std.ExtTreeMap.mem_insert,Std.compare_eq_iff_eq]
    grind
  · rename_i early
    simp only [Std.ExtTreeMap.mem_insert,Std.compare_eq_iff_eq]
    grind

omit [Env] in
theorem memErased {block : Block} (whole : ∀ i, low ≤ i → i ≤ s.height → i ∈ s.stateSnapshots)
    (above : ∀ i ∈ s.stateSnapshots, i ≤ s.height) (erased : t.stateSnapshots = s.stateSnapshots.erase block.index)
    (fits : block.index = t.height + 1) (least : t.height ≤ s.height) (most : s.height ≤ block.index) :
    (∀ i, low ≤ i → i ≤ t.height → i ∈ t.stateSnapshots) ∧ ∀ i ∈ t.stateSnapshots, i ≤ t.height := by
  simp only [erased,Std.ExtTreeMap.mem_erase,ne_eq,Std.compare_eq_iff_eq]
  constructor
  · intro i inside below
    exact ⟨by omega,whole i inside (by omega)⟩
  · rintro i ⟨other,inside⟩
    have := above i inside
    omega

theorem appendedSpans (spans : Spans low chain s) {block : Block} (position : block.index = chain.length)
    (run : s.appendBlockInner block = .ok t) :
    Spans (max low (s.height + 1 - maxReorgDepth)) (chain ++ [block]) t := by
  have inner := appendInnerUnmoved spans.memory block
  rw [run] at inner
  obtain ⟨trie,unmoved⟩ := inner
  obtain ⟨c,grown⟩ := appendInnerOk run
  have kept (i : Int) : i ∈ t.stateSnapshots ↔
      (i = s.height + 1 ∨ i ∈ s.stateSnapshots) ∧ ¬(0 ≤ pruneBefore (s.height + 1) ∧ i = pruneBefore (s.height + 1)) := by
    rw [unmoved.snapshots,memSaveSnapshot]
    rfl
  have tip : t.height = s.height + 1 := grown.height
  refine ⟨appendedHeld spans.held position grown,storedMemory unmoved.stored rfl,?_,?_,by simp⟩
  · intro i inside below
    have := spans.whole i
    rw [kept]
    simp only [pruneBefore,maxReorgDepth] at inside ⊢
    grind
  · intro i inside
    have := spans.above i
    rw [kept] at inside
    grind

theorem refusedSpans (spans : Spans low chain s) (sound : Upholds Staking.Sound (fun _ => True) s)
    (least : chain ≠ [] → low ≤ s.height) {block : Block} (position : block.index = chain.length)
    (refundable : 0 < block.index → Refundable block)
    (names : chain = [] → ∀ tx ∈ block.transactions, Tokens.NamesToken tx) {message : String}
    (run : s.appendBlock block = .error ⟨.valueError message,t⟩) : Spans low chain t := by
  have height := spans.held.height
  have inner := appendInnerUnmoved spans.memory block
  have upheld := appendBlockInnerUpheld Staking.soundUpheld sound block
  unfold appendBlock at run
  split at run
  · cases run
  · rename_i message v failed
    rw [failed] at inner upheld
    have unmoved : Unmoved (s.advanced (.memory (chain ++ [block])) block) v := inner
    have named : chain = [] → v.state.tokens.Named := by
      intro empty
      rcases appendBlockInnerEnds (spans.named empty) sound.staking.drawn block with ⟨backend,-,ends⟩ | taken
      · rw [failed] at ends
        obtain ⟨n,attempt⟩ := ends
        exact attempt.state.named
      · rw [failed] at taken
        cases taken
    have retractable : Retractable block v := by
      refine ⟨refundable,upheld.staking.drawn,?_⟩
      by_cases empty : chain = []
      · exact .inr ⟨named empty,names empty⟩
      · have started := List.length_pos_iff.mpr empty
        refine .inl ⟨by omega,?_⟩
        rw [unmoved.snapshots]
        exact spans.whole _ (by have := least empty; omega) (by omega)
    have answers := rollbackBlockAnswers retractable
    cases undone : v.rollbackBlock block with
    | error r =>
      rw [undone] at answers
      simp only [abandonBlock,undone] at run
      cases run
      exact absurd ⟨_,rfl⟩ answers
    | ok w =>
      have taken := rollbackBlockTaken undone
      have erased := rollbackBlockSnapshots undone
      have memory : w.backend = .memory (chain ++ [block]) := storedMemory (taken.stored.trans unmoved.stored) rfl
      have tip : w.height = s.height := by
        rw [taken.height,unmoved.height]
        show s.height + 1 - 1 = s.height
        omega
      have abandoned : v.abandonBlock block = .ok { w with
          backend := .memory chain
          latestBlock := if 0 ≤ w.height then listAt chain w.height else none } := by
        simp only [abandonBlock,undone]
        change Except.ok _ = _
        rw [memory]
        simp only [List.getLast?_concat,if_true,List.dropLast_concat]
        rfl
      rw [abandoned] at run
      cases run
      obtain ⟨whole,above⟩ := @memErased low s w block spans.whole spans.above
        (erased.trans (congrArg (·.erase block.index) unmoved.snapshots)) (by omega) (by omega) (by omega)
      refine ⟨⟨rfl,tip.trans height,?_,spans.held.placed⟩,rfl,whole,above,fun empty => ?_⟩
      · show (if 0 ≤ w.height then listAt chain w.height else none) = chain.getLast?
        rw [tip,height]
        exact tipAt chain
      · have left := rollbackBlockLeft (t := v) refundable
        rw [undone] at left
        rw [show w.state.tokens = _ from left.tokens]
        exact undoTxsNamed (named empty) (names empty)
  · rename_i r uncaught failed
    cases run
    exact (uncaught _ _ rfl).elim

theorem popSpans {block : Block} (spans : Spans low (chain ++ [block]) s) (started : chain ≠ [])
    (run : s.popBlock.rollbackBlock block = .ok t) : Spans low chain t := by
  obtain ⟨position,tip⟩ := spans.drop
  have popped : s.popBlock = { s with backend := .memory chain } := by
    simp only [popBlock,spans.memory,List.dropLast_concat]
  rw [popped] at run
  have taken := rollbackBlockTaken run
  have erased := rollbackBlockSnapshots run
  have height : t.height = s.height - 1 := taken.height
  have memory : t.backend = .memory chain := storedMemory taken.stored rfl
  obtain ⟨whole,above⟩ := @memErased low s t block spans.whole spans.above erased (by omega) (by omega) (by omega)
  refine ⟨⟨by rw [memory]; rfl,by omega,?_,fun i other found => ?_⟩,memory,whole,above,fun empty => absurd empty started⟩
  · rw [taken.latestBlock,memory,show t.height = (chain.length : Int) - 1 by omega]
    exact storedTipHolds rfl
  · refine spans.held.placed i other ?_
    rw [List.getElem?_append_left (List.getElem?_eq_some_iff.mp found).1]
    exact found

theorem popAllSpans {prior suffix : List Block} (spans : Spans low (prior ++ suffix) s) (started : prior ≠ [])
    (run : suffix.reverse.foldlM (fun s block => s.popBlock.rollbackBlock block) s = .ok t) : Spans low prior t := by
  induction suffix using List.reverseRecOn generalizing s with
  | nil =>
    cases run
    rwa [List.append_nil] at spans
  | append_singleton rest block ih =>
    rw [← List.append_assoc] at spans
    rw [List.reverse_append,List.reverse_singleton,List.singleton_append,List.foldlM_cons,Outcome.bindOk] at run
    obtain ⟨u,undone,run⟩ := run
    exact ih (popSpans spans (by simp [started]) undone) run

theorem rolledSpans {prior suffix : List Block} (spans : Spans low (prior ++ suffix) s) (started : prior ≠ [])
    (run : s.rollbackTo prior.length = .ok t) : Spans low prior t := by
  simp only [rollbackTo,Outcome.bindOk] at run
  obtain ⟨u,undone,run⟩ := run
  have same : u = t := by
    split_ifs at run
    cases run
    rfl
  rw [blocksFromHolds spans.held.holds spans.held.height,Int.toNat_natCast,List.drop_left] at undone
  have start : s.mapStore (·.deleteBlocksFrom prior.length) = s := by
    simp only [mapStore,spans.memory,Backend.mapStore]
    rw [← spans.memory]
  rw [start,same] at undone
  exact popAllSpans spans started undone

theorem replacedSpans {old new : Block} (spans : Spans low (chain ++ [old]) s) (index : new.index = old.index)
    (run : s.replaceTip old new = .ok t) : Spans low (chain ++ [new]) t := by
  have held := replaceTipHeld spans.held index run
  obtain ⟨backend,blockByHash,rfl⟩ := replaceTipOk run
  refine ⟨held,?_,spans.whole,spans.above,by simp⟩
  have holds := held.holds
  simp only [replaceTip,spans.memory] at run
  cases run
  exact congrArg Backend.memory holds

end Spans

section Calls

/- `max(0, h - MAX_REORG_DEPTH)`, the lowest height a reorganisation may go back to. -/
def lowest (height : Int) : Int := max 0 (height - maxReorgDepth)

variable {chain : List Block} {s t : Blockchain} {block : Block}

theorem appendedWindow (spans : Spans (lowest s.height) chain s) (position : block.index = chain.length)
    (run : s.appendBlockInner block = .ok t) : Spans (lowest t.height) (chain ++ [block]) t := by
  obtain ⟨c,grown⟩ := appendInnerOk run
  refine (appendedSpans spans position run).raise ?_
  rw [grown.height]
  simp only [lowest]
  omega

omit [Env] in
theorem lowestBelow (spans : Spans (lowest s.height) chain s) (started : chain ≠ []) : lowest s.height ≤ s.height := by
  have height := spans.held.height
  have positive := List.length_pos_iff.mpr started
  simp only [lowest,maxReorgDepth]
  omega

theorem initChainWindow (spans : Spans (lowest s.height) chain s) {address : Address} {sk pk : Bytes} {now : Int}
    (run : s.initChain address sk pk now = .ok t) : ∃ chain, Spans (lowest t.height) chain t := by
  unfold initChain at run
  split at run
  · cases run
    exact ⟨chain,spans⟩
  · rename_i fresh
    have height := spans.held.height
    have empty : chain = [] := List.length_eq_zero_iff.mp (by omega)
    subst empty
    simp only [Outcome.bindOk] at run
    obtain ⟨u,appended,v,replaced,run⟩ := run
    cases run
    have first := appendedWindow spans rfl (appendBlockOk appended)
    have staked : Unmoved u (if pk.isEmpty then u else u.autoStake address) := by
      split
      · exact unmovedRefl u
      · exact (unmovedState u _).trans (unmovedStore _ _ (fun d => Store.keepsRefl d))
    generalize (if pk.isEmpty then u else u.autoStake address) = w at staked replaced
    have rooted : Unmoved u w.stateRoot.2 := staked.trans (unmovedTrie w _)
    have spans' := replacedSpans (first.unmoved rooted (by simp)) (stampedIndex ..) replaced
    obtain ⟨backend,blockByHash,rfl⟩ := replaceTipOk replaced
    rw [← staked.height] at spans'
    exact ⟨_,spans'.unmoved ⟨rfl,rfl,rfl,rfl⟩ (by simp)⟩

omit [Env] in
theorem activateWindow (spans : Spans (lowest s.height) chain s) {address : Address}
    (run : s.activateFinancialLayer address = .ok t) : Spans (lowest t.height) chain t := by
  obtain ⟨height,latestBlock,-,-,-,-,-,tokens,stored⟩ := activateKeeps run
  rcases activateLeaves run with rfl | ⟨-,c,trie,-,-,snapshots⟩
  · exact spans
  rw [height]
  refine ⟨spans.held.beside stored height latestBlock,storedMemory stored spans.memory,?_,?_,tokens ▸ spans.named⟩
  · intro i inside below
    have kept := spans.whole i inside (height ▸ below)
    rw [snapshots]
    split
    · exact Std.ExtTreeMap.mem_insert.mpr (.inr kept)
    · exact kept
  · intro i inside
    have kept := spans.above i
    rw [snapshots] at inside
    rw [height]
    split at inside
    · rcases Std.ExtTreeMap.mem_insert.mp inside with here | old
      · exact (Std.compare_eq_iff_eq.mp here).ge
      · exact kept old
    · exact kept inside

theorem submitWindow (spans : Spans (lowest s.height) chain s) (now : Int) (tx : Transaction) :
    Spans (lowest (s.submitTx now tx).2.height) chain (s.submitTx now tx).2 := by
  unfold submitTx
  split
  · exact spans
  · exact spans.unmoved ⟨rfl,rfl,rfl,rfl⟩ spans.named

theorem drainWindow (spans : Spans (lowest s.height) chain s) (block : Block) :
    Spans (lowest (s.drainPool block).height) chain (s.drainPool block) :=
  spans.unmoved ⟨rfl,rfl,rfl,rfl⟩ spans.named

def Withdraws (s : Blockchain) (block : Block) : Prop :=
  block.index = 0 → (∃ t, s.appendBlockInner block = .ok t) ∨ ∀ tx ∈ block.transactions, Tokens.NamesToken tx

def Leaves (x : Reply × Blockchain) : Prop :=
  (∀ e, x.1 ≠ .raised e) → ∃ chain, Spans (lowest x.2.height) chain x.2

theorem addBlockWindow (spans : Spans (lowest s.height) chain s) (sound : Upholds Staking.Sound (fun _ => True) s)
    {now : Int} (withdraws : Withdraws s block) : Leaves (s.addBlock block now) := by
  have height := spans.held.height
  unfold addBlock
  split
  · exact fun _ => ⟨chain,spans⟩
  · dsimp only
    split
    · have position : block.index = chain.length := by omega
      split
      · exact fun _ => ⟨chain,spans⟩
      · rename_i valid
        split
        · exact fun _ => ⟨chain,spans⟩
        · split
          · rename_i t run
            exact fun _ => ⟨_,drainWindow (appendedWindow spans position (appendBlockOk run)) block⟩
          · rename_i message t run
            have kept : Spans (lowest s.height) chain t := by
              refine refusedSpans spans sound (lowestBelow spans) position
                (fun later => validatedRefundable later valid) (fun empty => ?_) run
              rcases withdraws (by rw [position,empty]; rfl) with ⟨u,applied⟩ | names
              · rw [appendBlock,applied] at run
                cases run
              · exact names
            have same : t.height = s.height := kept.held.height.trans height.symm
            exact fun _ => ⟨chain,same ▸ kept⟩
          · rename_i r _ run
            exact fun quiet => absurd rfl (quiet r.exception)
    · split <;> exact fun _ => ⟨chain,spans⟩

theorem produceBlockWindow (spans : Spans (lowest s.height) chain s) (address : Address) (sk : Bytes) (now later : Int) :
    Leaves (s.produceBlock address sk now later) := by
  have height := spans.held.height
  unfold produceBlock
  split
  · exact fun _ => ⟨chain,spans⟩
  · split
    · exact fun quiet => absurd rfl (quiet .attributeError)
    · rename_i parent tip
      have position : (s.draftBlock parent address sk now).index = chain.length := by
        have placed := spans.held.coherent.tip parent tip
        show parent.index + 1 = _
        omega
      split
      · exact fun quiet => absurd rfl (quiet _)
      · split
        · exact fun _ => ⟨chain,spans⟩
        · split
          · exact fun _ => ⟨chain,spans⟩
          · dsimp only
            generalize s.draftBlock parent address sk now = draft at position
            split
            · exact fun _ => ⟨chain,spans⟩
            · split
              · rename_i halt _
                cases halt with
                | refused message => exact fun _ => ⟨chain,spans⟩
                | raised exception => exact fun quiet => absurd rfl (quiet exception)
              · split
                · rename_i r _
                  exact fun quiet => absurd rfl (quiet r.exception)
                · rename_i t run
                  have grown := appendedWindow spans position (appendBlockOk run)
                  split
                  · rename_i r _
                    exact fun quiet => absurd rfl (quiet r.exception)
                  · rename_i u replaced
                    have stamped := replacedSpans grown (stampedIndex ..) replaced
                    obtain ⟨backend,blockByHash,rfl⟩ := replaceTipOk replaced
                    exact fun _ => ⟨_,drainWindow stamped _⟩

end Calls

section Reorganisation

/- Where a block of the fork is refused, those before it have come no higher than this; and no genesis
block passes among them. -/
def staysBelow (now highest : Int) : List Block → Option Block → Blockchain → Bool
  | [],_,_ => true
  | fb :: rest,parent,s =>
    if 0 < fb.index ∧ fb.stateRoot = "" then s.height ≤ highest
    else match s.validateBlock now fb parent with
      | .error _ => s.height ≤ highest
      | .ok _ => fb.index ≠ 0 && match s.appendBlock fb with
        | .ok t => staysBelow now highest rest (some fb) t
        | .error _ => s.height ≤ highest

/- Applied to the ancestor, the fork is applied to its end, or is refused before a block of it is
stored above the old tip and above the height at which the pruning begins. -/
def sparesWindow (s : Blockchain) (fork : List Block) (now : Int) : Bool :=
  match s.reorgStart fork with
  | .error _ => true
  | .ok forkStart =>
    match s.rollbackTo forkStart with
    | .error _ => true
    | .ok t =>
      let ancestor := (t.rootMismatch (forkStart - 1)).2
      staysBelow now (max s.height maxReorgDepth) fork ancestor.latestBlock ancestor

variable {low : Int} {chain : List Block} {s t : Blockchain}

theorem reorgStartBounds (held : Held chain s) {fork : List Block} {forkStart : Int}
    (begun : s.reorgStart fork = .ok forkStart) :
    0 < forkStart ∧ forkStart ≤ chain.length ∧ chain.length ≤ forkStart + maxReorgDepth ∧
      chain.length < forkStart + fork.length := by
  have height := held.height
  unfold reorgStart at begun
  split at begun
  · contradiction
  · rename_i first rest
    simp only [Outcome.bindOk,refuseIfOk,not_or,not_lt] at begun
    obtain ⟨_,bounds,_,depth,begun⟩ := begun
    split at begun
    · contradiction
    · rename_i ancestor found
      simp only [Outcome.bindOk,refuseIfOk] at begun
      obtain ⟨_,-,_,longer,same⟩ := begun
      cases same
      rw [getBlockByIndex,Backend.getBlockHolds held.holds,listAt] at found
      split at found
      · exact ⟨by omega,by omega,by omega,by omega⟩
      · contradiction

theorem appendAllSpans {prior suffix : List Block} (spans : Spans low prior s)
    (placed : ∀ (i : Nat) (block : Block), (prior ++ suffix)[i]? = some block → block.index = i)
    (deep : ((prior ++ suffix).length : Int) - 1 - maxReorgDepth ≤ low)
    (run : suffix.foldlM appendBlock s = .ok t) : Spans low (prior ++ suffix) t := by
  induction suffix generalizing prior s with
  | nil =>
    cases run
    rwa [List.append_nil]
  | cons block rest ih =>
    rw [List.foldlM_cons,Outcome.bindOk] at run
    obtain ⟨u,appended,run⟩ := run
    have position : block.index = prior.length := placed prior.length block (by simp)
    have grown := appendedSpans spans position (appendBlockOk appended)
    have height := spans.held.height
    have size : (prior ++ block :: rest).length = prior.length + rest.length + 1 := by simp; omega
    rw [List.append_cons] at placed deep ⊢
    refine ih (grown.raise ?_) placed deep run
    rw [← List.append_cons,size] at deep
    omega

theorem restoredSpans {prior extra savedChain : List Block} (spans : Spans low (prior ++ extra) s) (started : prior ≠ [])
    (placed : ∀ (i : Nat) (block : Block), (prior ++ savedChain)[i]? = some block → block.index = i)
    (deep : ((prior ++ savedChain).length : Int) - 1 - maxReorgDepth ≤ low) {applied : Bool}
    (untouched : applied = false → extra = []) (message : String)
    (quiet : ∀ e, (s.restoreOriginal prior.length savedChain applied message).1 ≠ .raised e) :
    Spans low (prior ++ savedChain) (s.restoreOriginal prior.length savedChain applied message).2 := by
  have outcome : ∀ u, (if applied then s.rollbackTo prior.length >>= fun s => savedChain.foldlM appendBlock s
      else savedChain.foldlM appendBlock s) = .ok u → Spans low (prior ++ savedChain) u := by
    intro u run
    split at run
    · rw [Outcome.bindOk] at run
      obtain ⟨v,rolled,run⟩ := run
      exact appendAllSpans (rolledSpans spans started rolled) placed deep run
    · rename_i fresh
      have none := untouched (by simpa using fresh)
      subst none
      rw [List.append_nil] at spans
      exact appendAllSpans spans placed deep run
  have answer : ∀ x : Except (Fault Blockchain) Blockchain, (∀ u, x = .ok u → Spans low (prior ++ savedChain) u) →
      (∀ e : PyExc, (match x with
        | .ok s => ((.refused message,s) : Reply × Blockchain)
        | .error r => (.raised r.exception,r.state)).1 ≠ .raised e) →
      Spans low (prior ++ savedChain) (match x with
        | .ok s => ((.refused message,s) : Reply × Blockchain)
        | .error r => (.raised r.exception,r.state)).2 := by
    intro x holds quiet
    cases x with
    | ok u => exact holds u rfl
    | error r => exact absurd rfl (quiet r.exception)
  unfold restoreOriginal at quiet ⊢
  cases applied with
  | true => exact answer _ outcome quiet
  | false => exact answer _ outcome quiet

theorem staysBelowCons {now highest : Int} {fb : Block} {rest : List Block} {parent : Option Block}
    (careful : staysBelow now highest (fb :: rest) parent s = true) :
    s.height ≤ highest ∨ s.validateBlock now fb parent = .ok () ∧ ∃ t, s.appendBlock fb = .ok t := by
  unfold staysBelow at careful
  split at careful
  · exact .inl (of_decide_eq_true careful)
  · split at careful
    · exact .inl (of_decide_eq_true careful)
    · rename_i valid
      have below := ((Bool.and_eq_true ..).mp careful).2
      split at below
      · rename_i t run
        exact .inr ⟨valid,t,run⟩
      · exact .inl (of_decide_eq_true below)

theorem staysBelowValid {now highest : Int} {fb : Block} {rest : List Block} {parent : Option Block}
    (careful : staysBelow now highest (fb :: rest) parent s = true) (rooted : ¬(0 < fb.index ∧ fb.stateRoot = ""))
    (valid : s.validateBlock now fb parent = .ok ()) : fb.index ≠ 0 ∧
      ∀ t, s.appendBlock fb = .ok t → staysBelow now highest rest (some fb) t = true := by
  unfold staysBelow at careful
  rw [if_neg rooted,valid] at careful
  obtain ⟨later,below⟩ := (Bool.and_eq_true ..).mp careful
  refine ⟨of_decide_eq_true later,fun t run => ?_⟩
  rwa [run] at below

theorem applyForkWindow {prior savedChain fork : List Block} (extra : List Block) {now : Int} {applied : Bool}
    (spans : Spans (max (lowest ((prior ++ savedChain).length - 1)) (s.height - maxReorgDepth)) (prior ++ extra) s)
    (sound : Upholds Staking.Sound (fun _ => True) s) (started : prior ≠ [])
    (placed : ∀ (i : Nat) (block : Block), (prior ++ savedChain)[i]? = some block → block.index = i)
    (deep : ((prior ++ savedChain).length : Int) ≤ prior.length + maxReorgDepth)
    (untouched : applied = false → extra = []) (longer : savedChain.length < extra.length + fork.length)
    (careful : staysBelow now (max ((prior ++ savedChain).length - 1) maxReorgDepth) fork s.latestBlock s = true) :
    Leaves (applyFork now prior.length savedChain fork applied s.latestBlock s) := by
  have height := spans.held.height
  have positive := List.length_pos_iff.mpr started
  have shallow : lowest ((prior ++ savedChain).length - 1) ≤ prior.length - 1 := by
    simp only [lowest]
    omega
  induction fork generalizing extra s applied with
  | nil =>
    refine fun _ => ⟨_,spans.raise ?_⟩
    show _ ≤ lowest s.height
    simp only [List.length_append,List.length_nil] at height longer
    simp only [lowest,List.length_append]
    omega
  | cons fb rest ih =>
    -- wherever a block is refused, the window still reaches down to that of the old chain
    have restored : ∀ {t : Blockchain}, t.height ≤ max ((prior ++ savedChain).length - 1 : Int) maxReorgDepth →
        Spans (max (lowest ((prior ++ savedChain).length - 1)) (t.height - maxReorgDepth)) (prior ++ extra) t →
        ∀ message, Leaves (t.restoreOriginal prior.length savedChain applied message) := by
      intro t below spans message quiet
      have whole : Spans (lowest ((prior ++ savedChain).length - 1)) (prior ++ extra) t := spans.raise (by
        simp only [lowest]
        omega)
      have back := restoredSpans whole started placed (by simp only [lowest]; omega) untouched message quiet
      exact ⟨_,by rw [back.held.height]; exact back⟩
    have refused := staysBelowCons careful
    unfold applyFork
    split
    · rename_i bare
      rcases refused with below | ⟨-,-⟩
      · exact restored below spans _
      · unfold staysBelow at careful
        rw [if_pos bare] at careful
        exact restored (of_decide_eq_true careful) spans _
    · rename_i rooted
      split
      · rename_i err invalid
        refine restored (refused.resolve_right ?_) spans _
        rintro ⟨valid,-⟩
        rw [valid] at invalid
        cases invalid
      · rename_i exception _
        exact fun quiet => absurd rfl (quiet exception)
      · rename_i valid
        obtain ⟨later,next⟩ := staysBelowValid careful rooted valid
        obtain ⟨above,parent,header,-⟩ := validateBlockOk later valid
        have position : fb.index = (prior ++ extra).length := by
          simp only [headerCheck,Outcome.bindOk,refuseIfOk,ne_eq,not_not] at header
          obtain ⟨_,follows,-⟩ := header
          have tip := spans.held.coherent.tip above parent
          omega
        split
        · rename_i t run
          have inner := appendBlockOk run
          obtain ⟨c,grown⟩ := appendInnerOk inner
          have taller := appendedSpans spans position inner
          have upheld := appendBlockUpheld Staking.soundUpheld sound fb
          rw [run] at upheld
          rw [List.append_assoc] at taller
          have deeper : max (max (lowest ((prior ++ savedChain).length - 1)) (s.height - maxReorgDepth))
              (s.height + 1 - maxReorgDepth) ≤
              max (lowest ((prior ++ savedChain).length - 1)) (t.height - maxReorgDepth) := by
            rw [grown.height]
            omega
          have final := taller.raise deeper
          have left := next t run
          rw [← grown.latestBlock] at left ⊢
          refine ih _ final upheld (fun impossible => by contradiction) ?_ left final.held.height
          simp only [List.length_append,List.length_cons] at longer ⊢
          omega
        · rename_i message t run
          have kept : Spans (max (lowest ((prior ++ savedChain).length - 1)) (s.height - maxReorgDepth)) (prior ++ extra) t := by
            refine refusedSpans spans sound (fun _ => ?_) position (fun above => validatedRefundable above valid)
              (fun empty => absurd (List.append_eq_nil_iff.mp empty).1 started) run
            have size : (prior ++ extra).length = prior.length + extra.length := List.length_append
            have depth : 0 ≤ maxReorgDepth := by decide
            omega
          have same : t.height = s.height := kept.held.height.trans height.symm
          rw [← same] at kept
          refine restored ?_ kept _
          rw [same]
          refine refused.resolve_right ?_
          rintro ⟨-,u,appended⟩
          rw [run] at appended
          cases appended
        · rename_i r _ run
          exact fun quiet => absurd rfl (quiet r.exception)

theorem rootMismatchShape (s : Blockchain) (ancestorIdx : Int) :
    ∃ trie, (s.rootMismatch ancestorIdx).2 = s.withTrie trie := by
  unfold rootMismatch
  split
  · exact ⟨s.trie,rfl⟩
  · dsimp only
    split <;> exact ⟨_,rfl⟩

theorem returnDisplacedShape (s : Blockchain) (fork : List Block) (displaced : List Transaction) :
    ∃ pool, s.returnDisplaced fork displaced = { s with pool } := by
  have back : ∀ (mined : List String) (txs : List Transaction) (s : Blockchain),
      ∃ pool, txs.foldl (returnTx mined) s = { s with pool } := by
    intro mined txs
    induction txs with
    | nil => exact fun s => ⟨s.pool,rfl⟩
    | cons tx rest ih =>
      intro s
      obtain ⟨pool,shape⟩ := ih (returnTx mined s tx)
      refine ⟨pool,shape.trans ?_⟩
      unfold returnTx
      split
      · rfl
      · split <;> rfl
  obtain ⟨pool,shape⟩ := back ((fork.flatMap Block.transactions).map Transaction.txId) (displaced.insertionSort
    (fun a b => a.sender < b.sender ∨ (a.sender = b.sender ∧ a.nonce ≤ b.nonce))) s
  simp only [returnDisplaced,shape]
  exact ⟨_,rfl⟩

omit [Env] in
theorem refusedRollbackSpans {prior suffix : List Block} (before : Spans low (prior ++ suffix) s) (started : prior ≠ [])
    (memory : t.backend = .memory prior) (message : String) :
    Spans low (prior ++ suffix) (t.refuseRollback s prior.length suffix message).2 := by
  have restored : (t.restoreSaved s).backend = .memory prior := memory
  have back : (t.refuseRollback s prior.length suffix message).2 =
      { t.restoreSaved s with backend := .memory (prior ++ suffix) } := by
    simp only [refuseRollback,restored,Int.toNat_natCast,List.take_length]
  rw [back]
  exact ⟨⟨rfl,before.held.height,before.held.latestBlock,before.held.placed⟩,rfl,before.whole,before.above,by simp [started]⟩

theorem tryReorgWindow (spans : Spans (lowest s.height) chain s) (sound : Upholds Staking.Sound (fun _ => True) s)
    {fork : List Block} {now : Int} (careful : s.sparesWindow fork now = true) : Leaves (s.tryReorg fork now) := by
  have height := spans.held.height
  unfold sparesWindow at careful
  unfold tryReorg
  split
  · rename_i halt _
    cases halt with
    | refused message => exact fun _ => ⟨chain,spans⟩
    | raised exception => exact fun quiet => absurd rfl (quiet exception)
  · rename_i forkStart begun
    obtain ⟨above,inside,deep,longer⟩ := reorgStartBounds spans.held begun
    -- the blocks up to the ancestor, and those that the fork displaces
    obtain ⟨prior,suffix,rfl,size⟩ : ∃ prior suffix, chain = prior ++ suffix ∧ forkStart = prior.length :=
      ⟨chain.take forkStart.toNat,chain.drop forkStart.toNat,(List.take_append_drop ..).symm,by
        rw [List.length_take]
        omega⟩
    subst size
    have started : prior ≠ [] := List.length_pos_iff.mp (by omega)
    have saved : s.backend.getBlocksRange prior.length (s.height + 1) = suffix := by
      rw [Backend.getBlocksRangeHolds spans.held.holds,List.take_of_length_le (by omega),Int.toNat_natCast,List.drop_left]
    rw [begun] at careful
    dsimp only at careful ⊢
    rw [saved]
    split
    · rename_i r _
      exact fun quiet => absurd rfl (quiet r.exception)
    · rename_i t run
      rw [run] at careful
      dsimp only at careful
      have rolled := rolledSpans spans started run
      have upheld := rollbackToUpheld Staking.soundUpheld sound prior.length
      rw [run] at upheld
      obtain ⟨trie,compared⟩ := rootMismatchShape t (prior.length - 1)
      split
      · rename_i message u mismatch
        rw [mismatch] at compared
        have back := refusedRollbackSpans spans started
          (show u.backend = _ from (congrArg Blockchain.backend compared).trans rolled.memory) message
        exact fun _ => ⟨_,by rw [back.held.height,← height]; exact back⟩
      · rename_i u matched
        rw [matched] at compared careful
        obtain rfl : u = t.withTrie trie := compared
        have ancestor := rolled.unmoved (unmovedTrie t trie) (fun empty => absurd empty started)
        have upheld' : Upholds Staking.Sound (fun _ => True) (t.withTrie trie) := Upholds.beside upheld rfl rfl
        rw [← List.append_nil prior] at ancestor
        have forked : Leaves (applyFork now prior.length suffix fork false (t.withTrie trie).latestBlock (t.withTrie trie)) := by
          refine applyForkWindow [] (ancestor.raise ?_) upheld' started spans.held.placed (by omega)
            (fun _ => rfl) ?_ ?_
          · rw [← height]
            exact le_max_left ..
          · simp only [List.length_append,List.length_nil] at longer ⊢
            omega
          · rw [← height]
            exact careful
        split
        · rename_i v answer
          rw [answer] at forked
          obtain ⟨chain',final⟩ := forked (fun e impossible => by cases impossible)
          obtain ⟨pool,returned⟩ := returnDisplacedShape v fork ((s.blocksFrom prior.length).flatMap Block.transactions)
          rw [returned]
          exact fun _ => ⟨chain',final.unmoved ⟨rfl,rfl,rfl,rfl⟩ final.named⟩
        · exact forked

end Reorganisation

section Runs

/- A snapshot for each height a reorganisation may go back to and for none above the tip, so that the root
of the ancestor is compared with one after every rollback. -/
structure FullWindow (s : Blockchain) : Prop where
  window : ∀ i, max 0 (s.height - maxReorgDepth) ≤ i → i ≤ s.height → i ∈ s.stateSnapshots
  above : ∀ i ∈ s.stateSnapshots, i ≤ s.height
  guard : ∀ fork forkStart t, s.reorgStart fork = .ok forkStart → s.rollbackTo forkStart = .ok t →
    ∃ entries, t.stateSnapshots[forkStart - 1]? = some entries

def Contained (s : Blockchain) (c : Call) : Prop :=
  (∀ e, (s.perform c).1 ≠ .raised e) ∧ ∀ target, c ≠ .rollback target

def Sparing (s : Blockchain) (c : Call) : Prop :=
  Contained s c ∧ match c with
    | .receive block _ => Withdraws s block
    | .reorg fork now => s.sparesWindow fork now = true
    | _ => True

variable {s : Blockchain}

theorem Spans.covers {chain : List Block} (spans : Spans (lowest s.height) chain s) : FullWindow s where
  window := spans.whole
  above := spans.above
  guard fork forkStart t begun rolled := by
    have height := spans.held.height
    obtain ⟨above,inside,deep,-⟩ := reorgStartBounds spans.held begun
    have size : forkStart = (chain.take forkStart.toNat).length := by
      rw [List.length_take]
      omega
    rw [size] at rolled
    rw [← List.take_append_drop forkStart.toNat chain] at spans
    have back := rolledSpans spans (List.length_pos_iff.mp (by omega)) rolled
    have kept : forkStart - 1 ∈ t.stateSnapshots := by
      refine back.whole _ ?_ (by rw [back.held.height,← size])
      simp only [lowest]
      omega
    exact ⟨_,Std.ExtTreeMap.getElem?_eq_some_getElem kept⟩

theorem performWindow {chain : List Block} (spans : Spans (lowest s.height) chain s)
    (sound : Upholds Staking.Sound (fun _ => True) s) {c : Call} (sparing : Sparing s c) : Leaves (s.perform c) := by
  have answers : ∀ x : Except (Fault Blockchain) Blockchain,
      (∀ t, x = .ok t → ∃ chain, Spans (lowest t.height) chain t) → Leaves (answered x) := by
    intro x holds
    cases x with
    | ok t => exact fun _ => holds t rfl
    | error r => exact fun quiet => absurd rfl (quiet r.exception)
  obtain ⟨⟨-,staying⟩,met⟩ := sparing
  cases c with
  | initChain address sk pk now => exact answers _ (fun t run => initChainWindow spans run)
  | activate address => exact answers _ (fun t run => ⟨chain,activateWindow spans run⟩)
  | submit now tx => exact fun _ => ⟨chain,submitWindow spans now tx⟩
  | produce address sk now later => exact produceBlockWindow spans address sk now later
  | receive block now => exact addBlockWindow spans sound met
  | rollback target => exact absurd rfl (staying target)
  | reorg fork now => exact tryReorgWindow spans sound met

theorem reachedWindow {validators : Dict Address Bytes} (reached : Reached Sparing (new (.memory []) validators) s) :
    (∃ chain, Spans (lowest s.height) chain s) ∧ Upholds Staking.Sound (fun _ => True) s := by
  have begins : Spans (lowest (-1)) [] (new (.memory []) validators) := by
    refine ⟨⟨rfl,rfl,rfl,by simp⟩,rfl,?_,by simp [new],fun _ => ⟨by simp [new],by simp [new]⟩⟩
    intro i inside below
    simp only [lowest,new] at inside below
    omega
  refine reachedInvariant (fun s => (∃ chain, Spans (lowest s.height) chain s) ∧ Upholds Staking.Sound (fun _ => True) s)
    ⟨⟨[],begins⟩,reachedSound (.inl .start)⟩ ?_ reached
  rintro t c ⟨⟨chain,spans⟩,sound⟩ sparing -
  exact ⟨performWindow spans sound sparing sparing.1.1,performUpheld Staking.soundUpheld sound c⟩

theorem windowCoversReorgs {validators : Dict Address Bytes} : ∀ s : Blockchain,
    Reached Sparing (new (.memory []) validators) s → FullWindow s := by
  intro s reached
  obtain ⟨⟨chain,spans⟩,-⟩ := reachedWindow reached
  exact spans.covers

end Runs

end QbitNetwork.Blockchain

namespace QbitNetwork.Devnet
open Blockchain

@[reducible] def dynamic : Env := env 0

section Dynamic
attribute [local instance] dynamic

def founded : Blockchain := Outcome.stateOf ((new (.memory [])).initChain (deriveAddress key) key key 100)

def emptyBlock (parent : Block) (stateRoot : String) : Block :=
  Block.sign
    { index := parent.index + 1
      prevHash := parent.blockHash
      transactions := []
      validator := deriveAddress key
      timestamp := parent.timestamp + 1
      baseFee := expectedBaseFee parent (parent.index + 1)
      stateRoot } key

def brokenFork (stateRoot : String) : Nat → Block → List Block
  | 0,parent => [emptyBlock parent ""]
  | n + 1,parent => emptyBlock parent stateRoot :: brokenFork stateRoot n (emptyBlock parent stateRoot)

def overrun : List Block := brokenFork founded.stateRoot.1 33 founded.tipBlock

def overran : Blockchain := (founded.tryReorg overrun 200).2

def extending : List Block := [emptyBlock founded.tipBlock founded.stateRoot.1]

theorem forksRun :
    ((new (.memory [])).initChain (deriveAddress key) key key 100).isOk = true ∧
    ((founded.tryReorg overrun 200).1 = .refused "fork block #34 missing state_root" ∧
      overran.height = 0 ∧ (0 : Int) ∉ overran.stateSnapshots) ∧
    (founded.tryReorg extending 200).1 = .accepted ∧ founded.sparesWindow extending 200 = true := by decide +kernel

theorem foundedRuns : (new (.memory [])).initChain (deriveAddress key) key key 100 = .ok founded := okState forksRun.1

theorem foundedContained : Contained (new (.memory [])) (.initChain (deriveAddress key) key key 100) := by
  refine ⟨fun e raised => ?_,fun target same => by cases same⟩
  rw [perform,foundedRuns] at raised
  cases raised

theorem windowLost : ¬∀ s : Blockchain, Reached Contained (new (.memory [])) s → FullWindow s := by
  intro claim
  obtain ⟨answer,height,lost⟩ := forksRun.2.1
  have begun : Reached Contained (new (.memory [])) founded :=
    Reached.start.initChain (deriveAddress key) key key 100 foundedContained foundedRuns
  have contained : Contained founded (.reorg overrun 200) := by
    refine ⟨fun e raised => ?_,fun target same => by cases same⟩
    rw [perform,answer] at raised
    cases raised
  have reached : Reached Contained (new (.memory [])) overran := by
    rw [overran]
    exact begun.reorg overrun 200 contained (by rw [answer]; exact .refused _)
  have kept := (claim overran reached).window 0 (by rw [height]; decide) (by rw [height])
  exact lost kept

theorem windowCoversReorgsExtended : FullWindow (founded.tryReorg extending 200).2 := by
  obtain ⟨accepted,spares⟩ := forksRun.2.2
  have begun : Reached Sparing (new (.memory [])) founded :=
    Reached.start.initChain (deriveAddress key) key key 100 ⟨foundedContained,trivial⟩ foundedRuns
  have contained : Contained founded (.reorg extending 200) := by
    refine ⟨fun e raised => ?_,fun target same => by cases same⟩
    rw [perform,accepted] at raised
    cases raised
  refine windowCoversReorgs _ (begun.reorg extending 200 ⟨contained,spares⟩ ?_)
  rw [accepted]
  exact .accepted

end Dynamic

end QbitNetwork.Devnet
