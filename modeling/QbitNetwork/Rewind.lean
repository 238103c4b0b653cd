import QbitNetwork.Storage
import QbitNetwork.Undo

/-! The node's chronicle: what its index, nonces, tokens and snapshots have to do with the
blocks it holds, and how the undo of a block moves it down by one. Nonces are followed only
where `counting` holds, which takes memory mode: SQLite mode prunes the lists of the senders
that nonces are counted again from. -/
namespace QbitNetwork

namespace Blockchain
variable [Env]

open Chronicle (Indexed Fits Sound rows blockRows userTxs)

def Counted (prior : List Block) (x : Index) : Prop :=
  ∀ sender, x.senderNonce.get sender = (userTxs prior sender).length - 1

def Snapped (s : Blockchain) : Prop :=
  0 ≤ s.height → ∀ entries, s.stateSnapshots[s.height]? = some entries → s.trie.entries = entries

def Rooted (s : Blockchain) : Prop :=
  0 ≤ s.height → s.stateSnapshots[s.height]? ≠ none → s.trie.Fresh

variable {counting : Prop}

structure Undoable (counting : Prop) (prior : List Block) (block : Block) (t : Blockchain) : Prop where
  stored : counting → ∃ chainList, t.backend = .memory chainList ∧ prior <+: chainList
  height : t.height = prior.length
  indexed : ∃ n, Indexed counting (rows prior ++ (blockRows block prior.length).take n) t.state.index
  others : counting → ∀ sender ∉ block.transactions.map Transaction.sender,
    t.state.index.senderNonce.get sender = (userTxs prior sender).length - 1
  shared : counting → t.chainNonces = none
  named : t.state.tokens.Named
  drawn : t.state.staking.Drawn

def storedTip (b : Backend) (height : Int) : Option Block :=
  if 0 ≤ height then match b with
    | .memory chainList => chainList.getLast?
    | .sqlite store => store.getBlock height
  else none

structure Undone (counting : Prop) (prior : List Block) (t u : Blockchain) : Prop where
  stored : u.backend.stored = t.backend.stored
  height : u.height = (prior.length : Int) - 1
  latestBlock : u.latestBlock = storedTip u.backend u.height
  indexed : Indexed counting (rows prior) u.state.index
  counted : counting → Counted prior u.state.index
  shared : counting → u.chainNonces = none
  named : u.state.tokens.Named
  drawn : u.state.staking.Drawn
  snapped : u.Snapped
  rooted : u.Rooted
  pool : u.pool = t.pool
  finalized : u.finalizedHeight = min t.finalizedHeight ((prior.length : Int) - 1)

theorem indexedCore {list : List Row} {x : Index} : Indexed counting list x.core ↔ Indexed counting list x :=
  ⟨fun h => ⟨h.byId,h.ids,h.bySender⟩,fun h => ⟨h.byId,h.ids,h.bySender⟩⟩

theorem forgetAllNonces (txs : List Transaction) (x : Index) :
    (txs.foldl Index.forgetTx x).senderNonce = x.senderNonce := by
  induction txs generalizing x with
  | nil => rfl
  | cons tx rest ih => rw [List.foldl_cons,ih]; rfl

theorem forgetBlockRows {prior : List Block} {block : Block} {x : Index} (sound : Sound counting prior)
    (fits : Fits counting prior block) {n : Nat}
    (indexed : Indexed counting (rows prior ++ (blockRows block prior.length).take n) x) :
    Indexed counting (rows prior) (block.transactions.foldl Index.forgetTx x) := by
  have whole := Chronicle.soundIds (Chronicle.soundAppend.mpr ⟨sound,fits⟩)
  rw [Chronicle.rowsAppend] at whole
  have part : ((rows prior ++ (blockRows block prior.length).take n).map (fun row => row.1.txId)).Nodup :=
    whole.sublist ((List.Sublist.append (List.Sublist.refl _) (List.take_sublist ..)).map _)
  have here : ∀ row ∈ (blockRows block prior.length).take n, row.1 ∈ block.transactions := by
    intro row inside
    rw [← Chronicle.blockRowsTxs block prior.length]
    exact List.mem_map_of_mem (List.mem_of_mem_take inside)
  have kept : (rows prior ++ (blockRows block prior.length).take n).filter
      (fun row => row.1.txId ∉ block.transactions.map Transaction.txId) = rows prior := by
    rw [List.filter_append,List.filter_eq_self.mpr,List.filter_eq_nil_iff.mpr,List.append_nil]
    · intro row inside
      simpa using ⟨row.1,here row inside,rfl⟩
    · intro row inside
      have absent : row.1.txId ∉ block.transactions.map Transaction.txId := by
        intro mined
        obtain ⟨tx,own,same⟩ := List.mem_map.mp mined
        have listed := List.mem_map_of_mem (f := fun row : Row => row.1.txId) inside
        rw [← same] at listed
        exact fits.fresh tx own listed
      simpa using absent
  have own : ∀ tx ∈ block.transactions, ∀ row ∈ rows prior ++ (blockRows block prior.length).take n,
      row.1.txId = tx.txId → row.1.sender = tx.sender := by
    intro tx inside row listed same
    rcases List.mem_append.mp listed with old | new
    · have listed := List.mem_map_of_mem (f := fun row : Row => row.1.txId) old
      rw [same] at listed
      exact absurd listed (fits.fresh tx inside)
    · rw [List.inj_on_of_nodup_map fits.distinct (here row new) inside same]
  have left := Chronicle.indexedForgetAll indexed part own
  rwa [kept] at left

theorem undoTrieEnds {s : Blockchain} (named : s.state.tokens.Named) (blockIndex : Int) :
    Outcome.Ends
      (fun u => ∃ trie, u = ({ s with stateSnapshots := s.stateSnapshots.erase blockIndex } :
          Blockchain).withTrie trie ∧
        (0 ≤ blockIndex - 1 → ∀ entries, u.stateSnapshots[blockIndex - 1]? = some entries →
          trie.entries = entries ∧ trie.Fresh))
      (fun e _ => ¬e.Caught) (s.undoTrie blockIndex) := by
  have rebuilt : ∀ s : Blockchain, s.state.tokens.Named →
      Outcome.Ends (fun u => ∃ trie, u = s.withTrie trie) (fun e _ => ¬e.Caught) s.rebuildStateTrie := by
    intro s named
    have ends := rebuildRaises named s.trie
    unfold rebuildStateTrie
    cases run : s.state.rebuildStateTrie s.trie with
    | ok trie => exact ⟨trie,rfl⟩
    | error r =>
      rw [run] at ends
      simp only [Outcome.Ends] at ends
      simp only [Outcome.within,Outcome.Ends,ends]
      rintro ⟨message,caught⟩
      contradiction
  simp only [undoTrie]
  split
  · rename_i entries found
    split
    · refine ⟨_,rfl,fun _ other same => ?_⟩
      have equal : entries = other := Option.some.inj (found.symm.trans same)
      exact ⟨equal,StateTrie.freshRestore _ _⟩
    · rename_i genesis
      refine Outcome.endsMono (rebuilt _ named) ?_ (fun _ _ h => h)
      rintro _ ⟨trie,rfl⟩
      exact ⟨trie,rfl,fun later => absurd later genesis⟩
  · rename_i none
    refine Outcome.endsMono (rebuilt _ named) ?_ (fun _ _ h => h)
    rintro _ ⟨trie,rfl⟩
    exact ⟨trie,rfl,fun _ entries found => absurd (none.symm.trans found) (by simp)⟩

theorem rollbackBlockEnds {prior : List Block} {block : Block} {t : Blockchain}
    (sound : Sound counting prior) (fits : Fits counting prior block)
    (undoable : Undoable counting prior block t) :
    Outcome.Ends (Undone counting prior t) (fun e _ => ¬e.Caught) (t.rollbackBlock block) := by
  obtain ⟨n,indexed⟩ := undoable.indexed
  have position := fits.position
  have later : 0 < block.index → Refundable block := by
    intro positive
    refine fits.refundable ?_
    rintro rfl
    simp at position
    omega
  simp only [rollbackBlock]
  obtain ⟨ledger,staking,paid,same⟩ := undoMoneyReturns later (t.undoLog block).state
  rw [paid]
  simp only [Outcome.withinReturns]
  change Outcome.Ends _ _ (Outcome.within _ _ >>= _)
  generalize shape : ({ (t.undoLog block).withState
      { (t.undoLog block).state with ledger, staking } with
    blockByHash := ((t.undoLog block).withState
      { (t.undoLog block).state with ledger, staking }).blockByHash.erase block.blockHash } :
    Blockchain) = start
  have stored : start.backend.stored = t.backend.stored :=
    shape ▸ Backend.storedMapStore _ t.backend (fun d => Store.keepsRefl d)
  have index : start.state.index = t.state.index := shape ▸ rfl
  have tokens : start.state.tokens = t.state.tokens := shape ▸ rfl
  have drawn : start.state.staking.Drawn := by
    rw [← shape]
    exact Staking.sameDrawn same undoable.drawn
  have height : start.height = t.height := shape ▸ rfl
  have shared : start.chainNonces = t.chainNonces := shape ▸ rfl
  have pool : start.pool = t.pool := shape ▸ rfl
  have finalized : start.finalizedHeight = min t.finalizedHeight ((prior.length : Int) - 1) := by
    rw [← shape]
    simp only [undoLog,withState,position]
    split <;> omega
  obtain ⟨state,backend,left,kept,core,named',drawn'⟩ :=
    undoTxsLeave (tokens ▸ undoable.named) drawn block fits.names
  rw [left]
  obtain ⟨senderNonce,recounted,all⟩ :=
    recomputeNonces ({ start with state, backend } : Blockchain) block.transactions
  rw [recounted]
  obtain ⟨ledger',staking',drawnBack,drawn''⟩ := undoEpochReturns
    (s := (({ start with state, backend } : Blockchain).withState
      { state with index := { state.index with senderNonce } }).state) drawn' block.index
  change Outcome.Ends _ _ (Outcome.within _ (undoEpoch _ _) >>= _)
  rw [drawnBack]
  simp only [Outcome.withinReturns]
  have forgotten : Indexed counting (rows prior) state.index := by
    have fresh := forgetBlockRows sound fits (indexedCore.mpr indexed)
    rw [← index,← core] at fresh
    exact indexedCore.mp fresh
  have counted : counting → ∀ sender, senderNonce.get sender = (userTxs prior sender).length - 1 := by
    intro count sender
    obtain ⟨chainList,memory,below⟩ := undoable.stored count
    rw [all]
    split
    · have here : backend = .memory chainList := by
        have same := kept.trans stored
        rw [memory] at same
        cases found : backend with
        | memory list => rw [found] at same; exact congrArg Backend.memory (Sum.inl.inj same)
        | sqlite store => rw [found] at same; cases same
      have left := @remainingUserNonces _ counting ({ start with state, backend } : Blockchain) _ _ count
        here below forgotten (Chronicle.soundIds sound) sender
      rw [left,Chronicle.soundNonces count sound,Chronicle.upToMax]
    · rename_i absent
      have same : state.index.senderNonce = t.state.index.senderNonce := by
        have nonces := congrArg Index.senderNonce core
        rw [forgetAllNonces,index] at nonces
        exact nonces
      exact (congrArg (fun nonces => nonces.get sender) same).trans (undoable.others count sender absent)
  generalize final : ((({ start with state, backend } : Blockchain).withState _).withState _ :
    Blockchain) = u
  have named'' : u.state.tokens.Named := final ▸ named'
  change Outcome.Ends _ _ (u.undoTrie block.index >>= fun s => .ok s.undoTip)
  refine Outcome.endsBind _ (undoTrieEnds named'' block.index) ?_
  rintro _ ⟨trie,rfl,snapshot⟩
  subst final
  have above : start.height - 1 = block.index - 1 := by
    rw [height,undoable.height,position]
  refine ⟨kept.trans stored,?_,rfl,⟨forgotten.byId,forgotten.ids,forgotten.bySender⟩,counted,
    fun count => shared.trans (undoable.shared count),named',drawn'',?_,?_,pool,finalized⟩
  · show start.height - 1 = _
    rw [height,undoable.height]
  · intro low entries found
    change 0 ≤ start.height - 1 at low
    change (start.stateSnapshots.erase block.index)[start.height - 1]? = _ at found
    rw [above] at low found
    exact (snapshot low entries found).1
  · intro low found
    change 0 ≤ start.height - 1 at low
    change (start.stateSnapshots.erase block.index)[start.height - 1]? ≠ _ at found
    rw [above] at low found
    obtain ⟨entries,there⟩ := Option.ne_none_iff_exists'.mp found
    exact (snapshot low entries there).2

structure Booked (counting : Prop) (chain : List Block) (s : Blockchain) : Prop where
  sound : Sound counting chain
  memory : counting → ∃ chainList, s.backend = .memory chainList
  height : s.height = (chain.length : Int) - 1
  indexed : Indexed counting (rows chain) s.state.index
  counted : counting → Counted chain s.state.index
  shared : counting → s.chainNonces = none
  named : s.state.tokens.Named
  drawn : s.state.staking.Drawn
  snapped : s.Snapped
  pool : ∀ tx ∈ s.pool.txPool, Tokens.NamesToken tx
  finalized : s.finalizedHeight ≤ (chain.length : Int) - 1

structure Chronicled (counting : Prop) (chain : List Block) (s : Blockchain) : Prop
    extends Booked counting chain s where
  holds : s.backend.Holds chain
  latestBlock : s.latestBlock = chain.getLast?

theorem Chronicled.stored {chain : List Block} {s : Blockchain} (chronicled : Chronicled counting chain s)
    (count : counting) : s.backend = .memory chain := by
  obtain ⟨chainList,memory⟩ := chronicled.memory count
  have holds := chronicled.holds
  rw [memory] at holds ⊢
  exact Backend.holdsMemory holds

omit [Env] in
theorem storedMemory {b b' : Backend} {chainList : List Block} (same : b'.stored = b.stored)
    (memory : b = .memory chainList) : b' = .memory chainList := by
  subst memory
  cases b' with
  | memory list => exact congrArg Backend.memory (Sum.inl.inj same)
  | sqlite store => cases same

omit [Env] in
theorem extendedMemory {b b' : Backend} {block : Block} (same : b'.stored = extended b.stored block)
    (memory : ∃ chainList, b = .memory chainList) : ∃ chainList, b' = .memory chainList := by
  obtain ⟨chainList,rfl⟩ := memory
  cases b' with
  | memory list => exact ⟨list,rfl⟩
  | sqlite store => cases same

theorem purgeAllSubset (senders : List Address) (pool : TxPool) :
    ∀ tx ∈ (senders.foldl TxPool.purgeSender pool).txPool, tx ∈ pool.txPool := by
  induction senders generalizing pool with
  | nil => exact fun tx inside => inside
  | cons sender rest ih =>
    intro tx inside
    have left := ih _ tx inside
    simp only [TxPool.purgeSender] at left
    split at left
    · exact left
    · exact (List.mem_filter.mp left).1

theorem attemptRows {chain : List Block} {s t : Blockchain} {block : Block} {backend : Backend} {n : Nat}
    (chronicled : Chronicled counting chain s)
    (attempt : Attempt (s.advanced backend block) ((blockRows block (s.height + 1)).take n) t) :
    t.state.index.core = ((blockRows block chain.length).take n).foldl
      (fun x row => x.recordTx row.2.1 row.2.2 row.1) s.state.index.core := by
  have place : s.height + 1 = (chain.length : Int) := by rw [chronicled.height]; omega
  have recorded := attempt.state.index
  rw [place] at recorded
  exact recorded

theorem attemptUndoable {chain : List Block} {s t : Blockchain} {block : Block} {backend : Backend} {n : Nat}
    (chronicled : Chronicled counting chain s) (fits : Fits counting chain block)
    (grown : backend.stored = extended s.backend.stored block)
    (attempt : Attempt (s.advanced backend block) ((blockRows block (s.height + 1)).take n) t) :
    Undoable counting chain block t := by
  have core := attemptRows chronicled attempt
  have whole := Chronicle.soundIds (Chronicle.soundAppend.mpr ⟨chronicled.sound,fits⟩)
  rw [Chronicle.rowsAppend] at whole
  refine ⟨fun count => ⟨chain ++ [block],?_,List.prefix_append ..⟩,?_,⟨n,?_⟩,?_,
    fun count => attempt.chainNonces.trans (chronicled.shared count),attempt.state.named,attempt.state.drawn⟩
  · obtain ⟨list,memory⟩ := extendedMemory grown (chronicled.memory count)
    have holds := Backend.holdsExtended chronicled.holds grown
    rw [memory] at holds
    exact storedMemory attempt.stored (memory.trans (Backend.holdsMemory holds))
  · rw [attempt.height]
    show s.height + 1 = _
    rw [chronicled.height]
    omega
  · rw [← indexedCore,core]
    refine Chronicle.indexedRecordAll (indexedCore.mpr chronicled.indexed) ?_
    exact whole.sublist ((List.Sublist.append (List.Sublist.refl _) (List.take_sublist ..)).map _)
  · intro count sender absent
    have others : ∀ row ∈ (blockRows block chain.length).take n, 0 < row.2.1 →
        row.1.sender ≠ sender := by
      rintro row inside - rfl
      refine absent (List.mem_map_of_mem ?_)
      rw [← Chronicle.blockRowsTxs block chain.length]
      exact List.mem_map_of_mem (List.mem_of_mem_take inside)
    have kept := Chronicle.recordOthers (x := s.state.index.core) others
    rw [← core] at kept
    exact kept.trans (chronicled.counted count sender)

theorem indexedSame {list : List Row} {x y : Index} (indexed : Indexed counting list x)
    (same : SameIndex x y) (whole : counting → y = x) : Indexed counting list y := by
  refine ⟨?_,?_,fun count => whole count ▸ indexed.bySender count⟩
  · rw [same]
    exact indexed.byId
  · rw [same]
    exact indexed.ids

theorem finishedChronicled {chain : List Block} {s t : Blockchain} {block : Block} {backend : Backend}
    (chronicled : Chronicled counting chain s) (fits : Fits counting chain block)
    (grown : backend.stored = extended s.backend.stored block)
    (finished : Finished (s.advanced backend block) (blockRows block (s.height + 1)) t) :
    Chronicled counting (chain ++ [block]) t := by
  have sound := Chronicle.soundAppend.mpr ⟨chronicled.sound,fits⟩
  have place : s.height + 1 = (chain.length : Int) := by rw [chronicled.height]; omega
  obtain ⟨x,core,same,whole⟩ := finished.index
  rw [place] at core
  have inMemory : counting → ∃ chainList, backend = .memory chainList :=
    fun count => extendedMemory grown (chronicled.memory count)
  have equal : counting → t.state.index = x := fun count => by
    obtain ⟨list,memory⟩ := inMemory count
    exact whole list memory
  have distinct := Chronicle.soundIds sound
  rw [Chronicle.rowsAppend] at distinct
  have size : ((chain ++ [block]).length : Int) - 1 = chain.length := by simp
  have top : t.height = chain.length := by
    rw [finished.height]
    exact place
  refine ⟨⟨sound,?_,?_,?_,?_,fun count => finished.chainNonces.trans (chronicled.shared count),
    finished.named,finished.drawn,?_,?_,?_⟩,?_,?_⟩
  · intro count
    obtain ⟨list,memory⟩ := inMemory count
    exact ⟨list,storedMemory finished.stored memory⟩
  · rw [top,size]
  · refine indexedSame ?_ same equal
    rw [← indexedCore,core,Chronicle.rowsAppend]
    exact Chronicle.indexedRecordAll (indexedCore.mpr chronicled.indexed) distinct
  · intro count sender
    rw [equal count]
    change x.core.senderNonce.get sender = _
    rw [core]
    by_cases first : chain = []
    · subst first
      have genesis : ∀ row ∈ blockRows block ([] : List Block).length, 0 < row.2.1 →
          row.1.sender ≠ sender := by
        intro row inside positive
        have := (Chronicle.memBlockRows inside).1
        simp only [List.length_nil] at this
        omega
      rw [Chronicle.recordOthers genesis]
      exact chronicled.counted count sender
    · have later : ∀ row ∈ blockRows block chain.length, 0 < row.2.1 := by
        intro row inside
        have := List.length_pos_iff.mpr first
        have := (Chronicle.memBlockRows inside).1
        omega
      have continues := fits.continues count first
      rw [← Chronicle.blockRowsTxs block chain.length] at continues
      rw [Chronicle.recordNonces later (by exact chronicled.counted count) continues,
        Chronicle.blockRowsTxs,Chronicle.userTxsAppend chain block sender first,List.length_append]
  · intro _ entries found
    have tip : t.height = (s.advanced backend block).height := finished.height
    rw [tip,finished.snapshot] at found
    exact Option.some.inj found
  · intro tx inside
    obtain ⟨senders,purged⟩ := finished.pool
    rw [purged] at inside
    exact chronicled.pool tx (purgeAllSubset senders _ tx inside)
  · have below := chronicled.finalized
    have bound := finished.finalized.2
    change _ = s.finalizedHeight ∨ _ ≤ s.height + 1 at bound
    rw [size]
    omega
  · exact Backend.holdsStored finished.stored (Backend.holdsExtended chronicled.holds grown)
  · rw [finished.latestBlock,List.getLast?_concat]
    rfl

omit [Env] in
theorem tipAt (chain : List Block) :
    (if 0 ≤ (chain.length : Int) - 1 then listAt chain ((chain.length : Int) - 1) else none) =
      chain.getLast? := by
  cases chain using List.reverseRecOn with
  | nil => rfl
  | append_singleton prior block =>
    rw [List.length_append,List.length_singleton,if_pos (by omega),listAt,if_pos (by omega)]
    simp

omit [Env] in
theorem storedTipHolds {b : Backend} {chain : List Block} (holds : b.Holds chain) :
    storedTip b ((chain.length : Int) - 1) = chain.getLast? := by
  unfold storedTip
  cases b with
  | memory chainList =>
    rw [show chainList = chain from holds]
    cases chain using List.reverseRecOn with
    | nil => rfl
    | append_singleton rest last => rw [if_pos (by simp)]
  | sqlite d =>
    rw [← tipAt chain]
    split
    · exact holds.2 _
    · rfl

theorem abandonBlockEnds {chain : List Block} {s t : Blockchain} {block : Block} {backend : Backend} {n : Nat}
    (chronicled : Chronicled counting chain s) (fits : Fits counting chain block)
    (grown : backend.stored = extended s.backend.stored block)
    (attempt : Attempt (s.advanced backend block) ((blockRows block (s.height + 1)).take n) t) :
    Outcome.Ends (Chronicled counting chain) (fun e _ => ¬e.Caught) (t.abandonBlock block) := by
  have undoable := attemptUndoable chronicled fits grown attempt
  have undone := rollbackBlockEnds chronicled.sound fits undoable
  simp only [abandonBlock]
  refine Outcome.endsBind _ undone (fun u undone => ?_)
  have held : u.backend.Holds (chain ++ [block]) :=
    Backend.holdsStored (undone.stored.trans attempt.stored)
      (Backend.holdsExtended chronicled.holds grown)
  have finalized : u.finalizedHeight ≤ (chain.length : Int) - 1 := by
    rw [undone.finalized]
    omega
  have pool : ∀ tx ∈ u.pool.txPool, Tokens.NamesToken tx := by
    intro tx inside
    obtain ⟨senders,purged⟩ := attempt.pool
    rw [undone.pool,purged] at inside
    exact chronicled.pool tx (purgeAllSubset senders _ tx inside)
  have tip := tipAt chain
  rw [← undone.height] at tip
  cases stored : u.backend with
  | memory chainList =>
    rw [stored] at held
    obtain rfl : chainList = chain ++ [block] := held
    simp only [List.getLast?_concat,if_true,List.dropLast_concat]
    exact ⟨⟨chronicled.sound,fun _ => ⟨chain,rfl⟩,undone.height,undone.indexed,undone.counted,
      undone.shared,undone.named,undone.drawn,undone.snapped,pool,finalized⟩,rfl,tip⟩
  | sqlite d =>
    rw [stored] at held
    have cut := Backend.deleteHolds held block.index
    rw [fits.position,Int.toNat_natCast,List.take_left] at cut
    simp only []
    refine ⟨⟨chronicled.sound,fun count => ?_,undone.height,undone.indexed,undone.counted,
      undone.shared,undone.named,undone.drawn,undone.snapped,pool,finalized⟩,?_,?_⟩
    · obtain ⟨list,memory,-⟩ := undoable.stored count
      have same := storedMemory undone.stored memory
      rw [stored] at same
      cases same
    · rw [fits.position]
      exact cut
    · rw [← tip]
      simp only [getBlockByIndex,fits.position]
      rw [Backend.getBlockHolds cut]

inductive Appending (counting : Prop) (chain : List Block) (s : Blockchain) (block : Block) :
    Except (Fault Blockchain) Blockchain → Prop where
  | applied {t : Blockchain} (run : s.appendBlockInner block = .ok t)
      (chronicled : Chronicled counting (chain ++ [block]) t) : Appending counting chain s block (.ok t)
  | refused {message : String} {t u : Blockchain} (run : s.appendBlockInner block = .error ⟨.valueError message,t⟩)
      (snapshots : t.stateSnapshots = s.stateSnapshots) (undone : t.abandonBlock block = .ok u)
      (chronicled : Chronicled counting chain u) : Appending counting chain s block (.error ⟨.valueError message,u⟩)
  | broken {r : Fault Blockchain} (uncaught : ¬r.exception.Caught) : Appending counting chain s block (.error r)

theorem appendBlockTells {chain : List Block} {s : Blockchain} {block : Block}
    (chronicled : Chronicled counting chain s) (fits : Fits counting chain block) :
    Appending counting chain s block (s.appendBlock block) := by
  rcases appendBlockInnerEnds chronicled.named chronicled.drawn block with ⟨backend,grown,inner⟩ | taken
  · unfold appendBlock
    split
    · rename_i t run
      rw [run] at inner
      exact .applied run (finishedChronicled chronicled fits grown inner)
    · rename_i message t run
      rw [run] at inner
      obtain ⟨n,attempt⟩ := inner
      have abandoned := abandonBlockEnds chronicled fits grown attempt
      split
      · rename_i u undone
        rw [undone] at abandoned
        exact .refused run attempt.snapshots undone abandoned
      · rename_i r undone
        rw [undone] at abandoned
        exact .broken abandoned
    · rename_i r uncaught run
      refine .broken ?_
      rintro ⟨message,same⟩
      obtain ⟨exception,state⟩ := r
      cases same
      exact absurd rfl (uncaught message state)
  · unfold appendBlock
    rw [taken]
    refine .broken ?_
    rintro ⟨message,same⟩
    cases same

theorem appendBlockEnds {chain : List Block} {s : Blockchain} {block : Block}
    (chronicled : Chronicled counting chain s) (fits : Fits counting chain block) :
    Outcome.Ends (Chronicled counting (chain ++ [block])) (fun e t => e.Caught → Chronicled counting chain t)
      (s.appendBlock block) := by
  have told := appendBlockTells chronicled fits
  generalize s.appendBlock block = outcome at told ⊢
  cases told with
  | applied run grown => exact grown
  | refused run snapshots undone kept => exact fun _ => kept
  | broken uncaught => exact fun caught => absurd caught uncaught

def Retracts (base chain : List Block) : Backend → Prop
  | .memory chainList => chainList = chain
  | .sqlite d => (Backend.sqlite d).Holds base

omit [Env] in
theorem retractsStored {base chain : List Block} {b b' : Backend} (same : b'.stored = b.stored)
    (retracts : Retracts base chain b) : Retracts base chain b' := by
  cases b <;> cases b' <;> simp_all [Backend.stored,Retracts,Backend.Holds]

omit [Env] in
theorem retractsHolds {base : List Block} {b : Backend} : Retracts base base b ↔ b.Holds base := by
  cases b <;> rfl

structure Rewound (counting : Prop) (base chain : List Block) (s u : Blockchain) : Prop
    extends Booked counting chain u where
  retracts : Retracts base chain u.backend
  samePool : u.pool = s.pool
  lowered : u.finalizedHeight = min s.finalizedHeight ((chain.length : Int) - 1)

theorem rollbackTip {base prior : List Block} {block : Block} {s t : Blockchain}
    (rewound : Rewound counting base (prior ++ [block]) s t) :
    Outcome.Ends (fun u => Rewound counting base prior s u ∧ u.Rooted ∧
        u.latestBlock = storedTip u.backend ((prior.length : Int) - 1))
      (fun e _ => ¬e.Caught) (t.popBlock.rollbackBlock block) := by
  obtain ⟨sound,fits⟩ := Chronicle.soundAppend.mp rewound.sound
  have popped : ∃ backend, t.popBlock = { t with backend } ∧ Retracts base prior backend := by
    have retracts := rewound.retracts
    unfold popBlock
    split
    · rename_i chainList stored
      rw [stored] at retracts
      obtain rfl : chainList = prior ++ [block] := retracts
      exact ⟨_,rfl,List.dropLast_concat⟩
    · rename_i d stored
      rw [stored] at retracts
      exact ⟨t.backend,rfl,stored ▸ retracts⟩
  obtain ⟨backend,popped,retracts⟩ := popped
  have undoable : Undoable counting prior block t.popBlock := by
    rw [popped]
    refine ⟨fun count => ?_,?_,⟨block.transactions.length,?_⟩,?_,rewound.shared,rewound.named,
      rewound.drawn⟩
    · obtain ⟨chainList,memory⟩ := rewound.memory count
      have same : ({ t with backend } : Blockchain).backend = .memory chainList.dropLast := by
        rw [← popped,popBlock,memory]
      refine ⟨_,same,?_⟩
      change backend = _ at same
      rw [same] at retracts
      exact (show chainList.dropLast = prior from retracts) ▸ List.prefix_refl _
    · simp only [rewound.height,List.length_append,List.length_singleton]
      omega
    · have all : (blockRows block prior.length).take block.transactions.length =
          blockRows block prior.length := by
        refine List.take_of_length_le ?_
        simp [blockRows]
      rw [all,← Chronicle.rowsAppend]
      exact rewound.indexed
    · intro count sender absent
      have counted := rewound.counted count sender
      by_cases first : prior = []
      · subst first
        exact counted
      · rw [Chronicle.userTxsAppend prior block sender first] at counted
        have none : block.transactions.filter (fun tx => tx.sender = sender) = [] := by
          refine List.filter_eq_nil_iff.mpr (fun tx inside own => absent ?_)
          exact List.mem_map.mpr ⟨tx,inside,by simpa using own⟩
        rw [none,List.append_nil] at counted
        exact counted
  refine Outcome.endsMono (rollbackBlockEnds sound fits undoable) (fun u undone => ?_) (fun _ _ h => h)
  have stored : u.backend.stored = backend.stored := undone.stored.trans (by rw [popped])
  have pool : u.pool = t.pool := undone.pool.trans (by rw [popped])
  have lowered : u.finalizedHeight = min s.finalizedHeight ((prior.length : Int) - 1) := by
    rw [undone.finalized,popped]
    dsimp only
    rw [rewound.lowered,List.length_append,List.length_singleton]
    omega
  refine ⟨⟨⟨sound,fun count => ?_,undone.height,undone.indexed,undone.counted,undone.shared,
    undone.named,undone.drawn,undone.snapped,fun tx inside => ?_,by rw [lowered]; omega⟩,
    retractsStored stored retracts,pool.trans rewound.samePool,lowered⟩,undone.rooted,?_⟩
  · obtain ⟨chainList,memory,-⟩ := undoable.stored count
    rw [popped] at memory
    exact ⟨chainList,storedMemory stored memory⟩
  · rw [pool] at inside
    exact rewound.pool tx inside
  · rw [undone.latestBlock,undone.height]

theorem rollbackBlocks {base suffix : List Block} {s t : Blockchain}
    (rewound : Rewound counting base (base ++ suffix) s t)
    (tip : suffix = [] → t.latestBlock = base.getLast?) :
    Outcome.Ends (fun u => Rewound counting base base s u ∧ (t.Rooted ∨ suffix ≠ [] → u.Rooted) ∧
        u.latestBlock = base.getLast?)
      (fun e _ => ¬e.Caught) (suffix.reverse.foldlM (fun s block => s.popBlock.rollbackBlock block) t) := by
  induction suffix using List.reverseRecOn generalizing t with
  | nil =>
    rw [List.append_nil] at rewound
    exact ⟨rewound,fun rooted => rooted.resolve_right (fun some => some rfl),tip rfl⟩
  | append_singleton rest block ih =>
    rw [List.reverse_append,List.reverse_singleton,List.singleton_append,List.foldlM_cons]
    rw [← List.append_assoc] at rewound
    refine Outcome.endsBind _ (rollbackTip rewound) ?_
    rintro u ⟨lower,rooted,latest⟩
    refine Outcome.endsMono (ih lower ?_) (fun _ h => ⟨h.1,fun _ => h.2.1 (.inl rooted),h.2.2⟩)
      (fun _ _ h => h)
    rintro rfl
    rw [List.append_nil] at lower latest
    exact latest.trans (storedTipHolds (retractsHolds.mp lower.retracts))

structure RolledBack (counting : Prop) (base : List Block) (s u : Blockchain) : Prop
    extends Chronicled counting base u where
  samePool : u.pool = s.pool
  lowered : u.finalizedHeight = min s.finalizedHeight ((base.length : Int) - 1)

theorem rollbackFoldEnds {chain : List Block} {s : Blockchain} (chronicled : Chronicled counting chain s)
    (target : Int) :
    Outcome.Ends (fun u => RolledBack counting (chain.take target.toNat) s u ∧
        (s.Rooted ∨ target.toNat < chain.length → u.Rooted))
      (fun e _ => ¬e.Caught) ((chain.drop target.toNat).reverse.foldlM
        (fun s block => s.popBlock.rollbackBlock block) (s.mapStore (·.deleteBlocksFrom target))) := by
  have split : chain.take target.toNat ++ chain.drop target.toNat = chain := List.take_append_drop ..
  have cut : Retracts (chain.take target.toNat) chain
      (s.backend.mapStore (·.deleteBlocksFrom target)) := by
    have holds := chronicled.holds
    cases stored : s.backend with
    | memory chainList =>
      rw [stored] at holds
      exact holds
    | sqlite d =>
      rw [stored] at holds
      exact Backend.deleteHolds holds target
  have top : s.finalizedHeight = min s.finalizedHeight ((chain.length : Int) - 1) := by
    have := chronicled.finalized
    omega
  have start : Rewound counting (chain.take target.toNat) chain s
      (s.mapStore (·.deleteBlocksFrom target)) := by
    refine ⟨⟨chronicled.sound,fun count => ?_,chronicled.height,chronicled.indexed,chronicled.counted,
      chronicled.shared,chronicled.named,chronicled.drawn,chronicled.snapped,chronicled.pool,
      chronicled.finalized⟩,cut,rfl,top⟩
    obtain ⟨chainList,memory⟩ := chronicled.memory count
    exact ⟨chainList,by rw [mapStore,memory]; rfl⟩
  have all := @rollbackBlocks _ counting (chain.take target.toNat) (chain.drop target.toNat) s
    (s.mapStore (·.deleteBlocksFrom target)) (by rwa [split]) ?_
  · refine Outcome.endsMono all ?_ (fun _ _ h => h)
    rintro u ⟨rewound,rooted,latest⟩
    refine ⟨⟨⟨rewound.toBooked,retractsHolds.mp rewound.retracts,latest⟩,rewound.samePool,rewound.lowered⟩,
      fun displaced => rooted (displaced.imp_right (fun short => ?_))⟩
    rw [Ne,List.drop_eq_nil_iff]
    omega
  · intro none
    rw [none,List.append_nil] at split
    rw [split]
    exact chronicled.latestBlock

theorem rollbackToFolds {chain : List Block} {s : Blockchain} (chronicled : Chronicled counting chain s)
    {target : Int} {good : Blockchain → Prop}
    (folded : Outcome.Ends good (fun e _ => ¬e.Caught) ((chain.drop target.toNat).reverse.foldlM
      (fun s block => s.popBlock.rollbackBlock block) (s.mapStore (·.deleteBlocksFrom target)))) :
    Outcome.Ends good (fun e u => e.Caught → good u) (s.rollbackTo target) := by
  simp only [rollbackTo]
  rw [blocksFromHolds chronicled.holds chronicled.height]
  refine Outcome.endsBind _ (Outcome.endsMono folded (fun _ h => h) (fun _ _ h caught => absurd caught h)) ?_
  intro u reached
  split_ifs
  · exact fun _ => reached
  · exact fun _ => reached
  · exact reached

theorem rollbackToEnds {chain : List Block} {s : Blockchain} (chronicled : Chronicled counting chain s)
    (target : Int) :
    Outcome.Ends (fun u => RolledBack counting (chain.take target.toNat) s u ∧
        (s.Rooted ∨ target.toNat < chain.length → u.Rooted))
      (fun e u => e.Caught → RolledBack counting (chain.take target.toNat) s u) (s.rollbackTo target) :=
  Outcome.endsMono (rollbackToFolds chronicled (rollbackFoldEnds chronicled target)) (fun _ h => h)
    (fun _ _ h caught => (h caught).1)

end Blockchain

end QbitNetwork
