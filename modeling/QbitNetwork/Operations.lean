import QbitNetwork.Tracking
import QbitNetwork.Calls

/-! Every operation of the node keeps the chronicle of its blocks. -/
namespace QbitNetwork

namespace Blockchain
variable [Env]

open Chronicle (Fits Sound rows userTxs)

variable {counting : Prop}

theorem Chronicled.beside {chain : List Block} {s t : Blockchain} (chronicled : Chronicled counting chain s)
    (stored : t.backend.stored = s.backend.stored) (height : t.height = s.height)
    (latestBlock : t.latestBlock = s.latestBlock) (index : t.state.index = s.state.index)
    (chainNonces : t.chainNonces = s.chainNonces) (finalized : t.finalizedHeight = s.finalizedHeight)
    (named : t.state.tokens.Named) (drawn : t.state.staking.Drawn) (snapped : t.Snapped)
    (pool : ∀ tx ∈ t.pool.txPool, Tokens.NamesToken tx) : Chronicled counting chain t where
  sound := chronicled.sound
  memory := fun count => by
    obtain ⟨chainList,memory⟩ := chronicled.memory count
    exact ⟨chainList,storedMemory stored memory⟩
  height := height.trans chronicled.height
  indexed := index ▸ chronicled.indexed
  counted := fun count => index ▸ chronicled.counted count
  shared := fun count => chainNonces.trans (chronicled.shared count)
  named := named
  drawn := drawn
  snapped := snapped
  pool := pool
  finalized := finalized ▸ chronicled.finalized
  holds := Backend.holdsStored stored chronicled.holds
  latestBlock := latestBlock.trans chronicled.latestBlock

theorem Chronicled.withPool {chain : List Block} {s : Blockchain} (chronicled : Chronicled counting chain s)
    {pool : TxPool} (names : ∀ tx ∈ pool.txPool, Tokens.NamesToken tx) :
    Chronicled counting chain { s with pool } :=
  chronicled.beside rfl rfl rfl rfl rfl rfl chronicled.named chronicled.drawn chronicled.snapped names

theorem drainChronicled {chain : List Block} {s : Blockchain} (chronicled : Chronicled counting chain s)
    (block : Block) : Chronicled counting chain (s.drainPool block) := by
  refine chronicled.withPool (fun tx inside => chronicled.pool tx ?_)
  exact (List.mem_filter.mp inside).1

theorem rootChronicled {chain : List Block} {s : Blockchain} (chronicled : Chronicled counting chain s) :
    Chronicled counting chain s.stateRoot.2 := by
  refine chronicled.beside rfl rfl rfl rfl rfl rfl chronicled.named chronicled.drawn ?_ chronicled.pool
  intro low entries found
  rw [← chronicled.snapped low entries found]
  exact StateTrie.rootEntries s.trie

theorem stampedTransactions (block : Block) (stateRoot receiptsRoot : String) (sk : Bytes) :
    (stampedBlock block stateRoot receiptsRoot sk).transactions = block.transactions := rfl

theorem stampedBaseFee (block : Block) (stateRoot receiptsRoot : String) (sk : Bytes) :
    (stampedBlock block stateRoot receiptsRoot sk).baseFee = block.baseFee := rfl

theorem replaceTipEnds {prior : List Block} {old new : Block} {s : Blockchain}
    (chronicled : Chronicled counting (prior ++ [old]) s) (index : new.index = old.index)
    (transactions : new.transactions = old.transactions) (baseFee : new.baseFee = old.baseFee) :
    Outcome.Ends (Chronicled counting (prior ++ [new])) (fun e _ => ¬e.Caught) (s.replaceTip old new) := by
  obtain ⟨below,fits⟩ := Chronicle.soundAppend.mp chronicled.sound
  have position := index.trans fits.position
  have fits' : Fits counting prior new := by
    refine ⟨position,?_,?_,?_,?_,?_⟩
    · rw [transactions]; exact fits.distinct
    · rw [transactions]; exact fits.fresh
    · rw [transactions]; exact fits.continues
    · intro started
      have money := fits.refundable started
      refine ⟨?_,?_⟩
      · rw [index,baseFee]; exact money.fee
      · rw [transactions]; exact money.transfers
    · rw [transactions]; exact fits.names
  have listed : rows (prior ++ [new]) = rows (prior ++ [old]) := by
    rw [Chronicle.rowsAppend,Chronicle.rowsAppend,Chronicle.blockRows,Chronicle.blockRows,transactions]
  have users : ∀ sender, userTxs (prior ++ [new]) sender = userTxs (prior ++ [old]) sender := by
    intro sender
    rw [← Chronicle.userTxsRows,← Chronicle.userTxsRows,listed]
  have size : (prior ++ [new]).length = (prior ++ [old]).length := by simp
  have replaced : ∀ blockByHash, ∀ backend : Backend, backend.Holds (prior ++ [new]) →
      (counting → ∃ chainList, backend = .memory chainList) →
      Chronicled counting (prior ++ [new])
        { s with blockByHash, backend, latestBlock := some new } := by
    intro blockByHash backend holds memory
    refine ⟨⟨Chronicle.soundAppend.mpr ⟨below,fits'⟩,memory,?_,?_,fun count sender => ?_,
      chronicled.shared,chronicled.named,chronicled.drawn,chronicled.snapped,chronicled.pool,?_⟩,holds,
      by simp⟩
    · rw [size]
      exact chronicled.height
    · rw [listed]
      exact chronicled.indexed
    · rw [users]
      exact chronicled.counted count sender
    · rw [size]
      exact chronicled.finalized
  have holds := chronicled.holds
  simp only [replaceTip]
  split
  · rename_i chainList stored
    rw [stored] at holds
    refine replaced _ _ ?_ (fun _ => ⟨_,rfl⟩)
    rw [show chainList = prior ++ [old] from holds]
    show replaceBlock (prior ++ [old]) new = prior ++ [new]
    unfold replaceBlock
    rw [if_pos (by omega),position]
    simp
  · rename_i d stored
    rw [stored] at holds
    split
    · rename_i d' run
      refine replaced _ _ (Backend.updateHolds holds position run) (fun count => ?_)
      obtain ⟨chainList,memory⟩ := chronicled.memory count
      rw [stored] at memory
      cases memory
    · rename_i exception run
      rintro ⟨message,rfl⟩
      unfold Store.updateBlock at run
      split at run
      · cases run
      · split at run <;> cases run

omit [Env] in
theorem takeQueueSubset (queue : List Transaction) (taken : List Transaction × Int) :
    ∀ tx ∈ (takeQueue taken queue).1, tx ∈ taken.1 ∨ tx ∈ queue := by
  induction queue generalizing taken with
  | nil => exact fun tx inside => .inl inside
  | cons first rest ih =>
    obtain ⟨txs,totalWeight⟩ := taken
    intro tx inside
    rw [takeQueue] at inside
    split at inside
    · exact .inl inside
    · rcases ih _ tx inside with old | later
      · rcases List.mem_append.mp old with old | here
        · exact .inl old
        · exact .inr (List.mem_singleton.mp here ▸ List.mem_cons_self ..)
      · exact .inr (List.mem_cons_of_mem _ later)

theorem selectTxsSubset (s : Blockchain) (parent : Block) :
    ∀ tx ∈ (s.selectTxs parent).1, tx ∈ s.pool.txPool := by
  simp only [selectTxs]
  split
  · intro tx inside
    simp only [packDynamic] at inside
    generalize expectedBaseFee parent (parent.index + 1) = baseFee at inside
    have eligibleSubset : ∀ tx ∈ eligible baseFee s.pool.txPool, tx ∈ s.pool.txPool :=
      fun tx inside => (List.mem_filter.mp inside).1
    have packed : ∀ (senders : List Address) (taken : List Transaction × Int),
        (∀ tx ∈ taken.1, tx ∈ s.pool.txPool) →
        ∀ tx ∈ (senders.foldl (fun taken sender =>
          takeQueue taken (senderQueue (eligible baseFee s.pool.txPool) sender)) taken).1,
          tx ∈ s.pool.txPool := by
      intro senders
      induction senders with
      | nil => exact fun _ start => start
      | cons sender rest ih =>
        intro taken start
        refine ih _ (fun tx inside => ?_)
        rcases takeQueueSubset _ _ tx inside with old | queued
        · exact start tx old
        · have listed := (List.mem_insertionSort ..).mp queued
          exact eligibleSubset tx (List.mem_filter.mp listed).1
    exact packed _ _ (by simp) tx inside
  · exact fun tx inside => List.mem_of_mem_take inside

omit [Env] in
theorem tokenCheckNames {s : Blockchain} {tx : Transaction} (named : s.state.tokens.Named)
    (run : s.tokenCheck tx = .ok ()) : Tokens.NamesToken tx := by
  have held : ∀ tid reg, s.state.tokens.registry[tid]? = some reg →
      ChainState.validTokenId tid = true := fun tid reg found =>
    named.registry tid (Std.ExtTreeMap.mem_iff_isSome_getElem?.mpr (by simp [found]))
  rintro (mint | transfer)
  · cases found : s.state.tokens.registry[tx.payload.tokenId.getD ""]? with
    | none => simp [tokenCheck,mint,found] at run
    | some reg => exact held _ reg found
  · cases found : s.state.tokens.registry[tx.payload.tokenId.getD ""]? with
    | none => simp [tokenCheck,transfer,found] at run
    | some reg => exact held _ reg found

theorem submitCheckOk {s : Blockchain} {now : Int} {tx : Transaction}
    (run : s.submitCheck now tx = .ok ()) :
    tx.txId ∉ s.state.index.txById ∧ tx.txId ∉ s.pool.poolIds ∧ s.tokenCheck tx = .ok () ∧
      tx.nonce = s.getNonce tx.sender + s.pool.poolSenderCount.get tx.sender := by
  have skip : ∀ (c : Prop) [Decidable c] (check rest : Check), (if c then (do check; rest) else rest) = .ok () →
      rest = .ok () := by
    intro c _ check rest run
    split at run
    · obtain ⟨_,-,run⟩ := Outcome.bindOk .. |>.mp run
      exact run
    · exact run
  simp only [submitCheck,Outcome.bindOk,refuseIfOk] at run
  obtain ⟨_,-,_,-,_,-,_,-,_,-,_,unmined,_,unpooled,run⟩ := run
  have amounts := skip _ _ _ (skip _ _ _ run)
  simp only [Outcome.bindOk] at amounts
  obtain ⟨_,-,_,-,_,-,rest⟩ := amounts
  have afforded := skip _ _ _ rest
  simp only [Outcome.bindOk,refuseIfOk,ne_eq,not_not] at afforded
  obtain ⟨_,-,_,tokens,_,nonce,-⟩ := afforded
  exact ⟨unmined,unpooled,tokens,nonce⟩

theorem submitChronicled {chain : List Block} {s : Blockchain} (chronicled : Chronicled counting chain s)
    (now : Int) (tx : Transaction) : Chronicled counting chain (s.submitTx now tx).2 := by
  unfold submitTx
  split
  · exact chronicled
  · rename_i run
    obtain ⟨-,-,tokens,-⟩ := submitCheckOk run
    refine chronicled.withPool (fun other inside => ?_)
    rcases List.mem_append.mp inside with old | new
    · exact chronicled.pool other old
    · rw [List.mem_singleton.mp new]
      exact tokenCheckNames chronicled.named tokens

theorem Chronicled.withLedger {chain : List Block} {s : Blockchain}
    (chronicled : Chronicled counting chain s) (ledger : Ledger) :
    Chronicled counting chain (s.withState { s.state with ledger }) :=
  chronicled.beside rfl rfl rfl rfl rfl rfl chronicled.named chronicled.drawn chronicled.snapped
    chronicled.pool

theorem allocateReturns {chain : List Block} {s : Blockchain} (chronicled : Chronicled counting chain s)
    (address : Address) : ∃ t, s.allocateGenesis address = .ok t ∧ Chronicled counting chain t := by
  obtain ⟨ledger,paid⟩ := s.state.ledger.creditReturns address
    (show 0 ≤ genesisBalanceQbit * qubitPerQbit by decide)
  simp only [allocateGenesis]
  rw [paid]
  refine ⟨_,rfl,?_⟩
  have paid := (chronicled.withLedger ledger).withLedger
    (ledger.mint (genesisBalanceQbit * qubitPerQbit))
  exact paid.beside (Backend.storedMapStore _ _ (fun d => Store.keepsRefl d)) rfl rfl rfl rfl rfl paid.named
    paid.drawn paid.snapped paid.pool

theorem activateChronicled {chain : List Block} {s : Blockchain} (chronicled : Chronicled counting chain s)
    (address : Address) : Outcome.Ends (Chronicled counting chain) (fun e _ => ¬e.Caught)
      (s.activateFinancialLayer address) := by
  have finish : ∀ {t : Blockchain}, Chronicled counting chain t → Outcome.Ends (Chronicled counting chain)
      (fun e _ => ¬e.Caught) (t.rebuildStateTrie >>= fun t => .ok (if 0 ≤ t.height then
        { t with stateSnapshots := t.stateSnapshots.insert t.height t.trie.snapshot } else t)) := by
    intro t before
    cases run : t.rebuildStateTrie with
    | error r =>
      have ends := rebuildRaises before.named t.trie
      rw [rebuildStateTrie] at run
      obtain ⟨r',raised,rfl⟩ := (Outcome.withinError ..).mp run
      rw [raised] at ends
      rintro ⟨message,same⟩
      simp only [Outcome.Ends] at ends
      rw [ends] at same
      contradiction
    | ok u =>
      obtain ⟨trie,-,rfl⟩ := rebuildStateTrieOk run
      show Chronicled counting chain _
      split
      · refine before.beside rfl rfl rfl rfl rfl rfl before.named before.drawn ?_ before.pool
        intro _ entries found
        simpa [StateTrie.snapshot] using found
      · rename_i low
        exact before.beside rfl rfl rfl rfl rfl rfl before.named before.drawn
          (fun high => absurd high low) before.pool
  unfold activateFinancialLayer
  split
  · exact chronicled
  · dsimp only
    have active := chronicled.withLedger { s.state.ledger with financialActive := true }
    split
    · obtain ⟨t,allocated,after⟩ := allocateReturns active address
      change Outcome.Ends _ _ (Blockchain.allocateGenesis _ address >>= _)
      rw [allocated]
      exact finish after
    · exact finish active

theorem soundPrefix {prior suffix : List Block} (sound : Sound counting (prior ++ suffix)) : Sound counting prior := by
  simpa using Chronicle.soundTake sound prior.length

theorem returnDisplacedChronicled {chain : List Block} {s : Blockchain} (chronicled : Chronicled counting chain s)
    (fork : List Block) {displaced : List Transaction}
    (names : ∀ tx ∈ displaced, Tokens.NamesToken tx) :
    Chronicled counting chain (s.returnDisplaced fork displaced) := by
  have back : ∀ (mined : List String) (txs : List Transaction) (s : Blockchain), Chronicled counting chain s →
      (∀ tx ∈ txs, Tokens.NamesToken tx) → Chronicled counting chain (txs.foldl (returnTx mined) s) := by
    intro mined txs
    induction txs with
    | nil => exact fun _ before _ => before
    | cons tx rest ih =>
      intro s before names
      refine ih _ ?_ (fun other inside => names other (List.mem_cons_of_mem _ inside))
      unfold returnTx
      split
      · exact before
      · split
        · refine before.withPool (fun other inside => ?_)
          rcases List.mem_append.mp inside with old | new
          · exact before.pool other old
          · exact List.mem_singleton.mp new ▸ names tx (List.mem_cons_self ..)
        · exact before
  simp only [returnDisplaced]
  have all := back ((fork.flatMap Block.transactions).map Transaction.txId)
    (displaced.insertionSort
      (fun a b => a.sender < b.sender ∨ (a.sender = b.sender ∧ a.nonce ≤ b.nonce))) s chronicled
    (fun tx inside => names tx ((List.mem_insertionSort ..).mp inside))
  exact all.withPool all.pool

theorem chainNames {chain : List Block} (sound : Sound counting chain) {block : Block} (inside : block ∈ chain) :
    ∀ tx ∈ block.transactions, Tokens.NamesToken tx := by
  obtain ⟨i,found⟩ := List.mem_iff_getElem?.mp inside
  exact (sound i block found).names

def Later (fork : List Block) : Prop :=
  ∀ fb ∈ fork, fb.index ≠ 0 ∧ ∀ tx ∈ fb.transactions, Tokens.NamesToken tx

structure TidyFork (s : Blockchain) (fork : List Block) : Prop where
  blocks : Later fork
  rooted : (∀ first, fork.head? = some first → s.height < first.index) → s.Rooted

theorem rootMismatchLeaves {chain : List Block} {s : Blockchain} (chronicled : Chronicled counting chain s)
    (ancestorIdx : Int) : Chronicled counting chain (s.rootMismatch ancestorIdx).2 ∧
      (s.rootMismatch ancestorIdx).2.stateSnapshots = s.stateSnapshots ∧
      s.trie.Recached (s.rootMismatch ancestorIdx).2.trie := by
  unfold rootMismatch
  split
  · exact ⟨chronicled,rfl,.inl rfl⟩
  · dsimp only
    split <;> exact ⟨rootChronicled chronicled,rfl,StateTrie.recachedRoot s.trie⟩

theorem rootMismatchLog (s : Blockchain) (ancestorIdx : Int) : (s.rootMismatch ancestorIdx).2.log = s.log := by
  unfold rootMismatch
  split
  · rfl
  · dsimp only
    split <;> rfl

theorem rootMatches {chain : List Block} {s : Blockchain} (chronicled : Chronicled counting chain s)
    (started : 0 ≤ s.height) (rooted : s.Rooted) : (s.rootMismatch s.height).1 = none := by
  unfold rootMismatch
  split
  · rfl
  · rename_i entries found
    have fresh := rooted started (by rw [found]; simp)
    have same : s.stateRoot.1 = hex (StateTrie.computeRoot entries) := by
      rw [stateRoot,StateTrie.rootFresh fresh,chronicled.snapped started entries found]
    dsimp only
    rw [if_pos same]

theorem rollbackNothing {chain : List Block} {s t : Blockchain} (chronicled : Chronicled counting chain s)
    {target : Int} (whole : chain.length ≤ target.toNat) (run : s.rollbackTo target = .ok t) :
    t = s.mapStore (·.deleteBlocksFrom target) := by
  simp only [rollbackTo] at run
  rw [blocksFromHolds chronicled.holds chronicled.height,List.drop_of_length_le whole] at run
  change (if _ then _ else if _ then _ else _) = _ at run
  split at run
  · contradiction
  · split at run
    · contradiction
    · exact (Except.ok.inj run).symm

/- A refusal that displaced nothing puts everything back, but for the nonces that blocks are
checked against. -/
theorem refuseRollbackChronicled {chain : List Block} {s u : Blockchain} (saved : Chronicled counting chain s)
    (rolled : Chronicled counting chain u) (uncounted : ¬counting) {forkStart : Int}
    (whole : chain.length ≤ forkStart.toNat) (message : String) :
    ∃ t, u.refuseRollback s forkStart [] message = (.refused message,t) ∧ Chronicled counting chain t ∧
      t.stateSnapshots = s.stateSnapshots ∧ t.trie = u.trie.restore s.trie.snapshot := by
  have restored : ∀ backend : Backend, backend.Holds chain →
      Chronicled counting chain { u.restoreSaved s with backend } := fun backend holds =>
    ⟨⟨saved.sound,fun count => absurd count uncounted,saved.height,
      ⟨rolled.indexed.byId,rolled.indexed.ids,fun count => absurd count uncounted⟩,
      fun count => absurd count uncounted,fun count => absurd count uncounted,saved.named,rolled.drawn,
      saved.snapped,rolled.pool,rolled.finalized⟩,holds,saved.latestBlock⟩
  have holds := rolled.holds
  simp only [refuseRollback]
  have same : (u.restoreSaved s).backend = u.backend := rfl
  rw [same]
  split
  · rename_i chainList stored
    rw [stored] at holds
    refine ⟨_,rfl,restored _ ?_,rfl,rfl⟩
    rw [List.append_nil,show chainList = chain from holds,List.take_of_length_le whole]
    rfl
  · rename_i store stored
    rw [stored] at holds
    refine ⟨_,rfl,restored _ ?_,rfl,rfl⟩
    have cut := Backend.deleteHolds holds forkStart
    rwa [List.take_of_length_le whole] at cut

omit [Env] in
theorem refuseRollbackLog (s saved : Blockchain) (forkStart : Int) (savedChain : List Block) (message : String) :
    (s.refuseRollback saved forkStart savedChain message).2.log = s.log := by
  simp only [refuseRollback]
  split
  · rfl
  · split <;> rfl

theorem reorgStartRange {chain fork : List Block} {s : Blockchain} {forkStart : Int}
    (chronicled : Chronicled counting chain s) (begun : s.reorgStart fork = .ok forkStart) :
    0 < forkStart ∧ forkStart ≤ chain.length ∧
      ∃ first, fork.head? = some first ∧ first.index = forkStart := by
  unfold reorgStart at begun
  split at begun
  · contradiction
  · rename_i first rest
    simp only [Outcome.bindOk,refuseIfOk,not_or,not_lt] at begun
    obtain ⟨_,bounds,_,-,begun⟩ := begun
    have height := chronicled.height
    split at begun
    · contradiction
    · rename_i ancestor found
      simp only [Outcome.bindOk,refuseIfOk] at begun
      obtain ⟨_,-,_,-,same⟩ := begun
      cases same
      rw [getBlockByIndex,Backend.getBlockHolds chronicled.holds,listAt] at found
      split at found
      · exact ⟨by omega,by omega,first,rfl,rfl⟩
      · contradiction

def Arrives (holds : List Block → Blockchain → Prop) (x : Reply × Blockchain) : Prop :=
  x.1.Ended → ∃ chain, holds chain x.2

def Lands (counting : Prop) (x : Reply × Blockchain) : Prop := x.1.Ended → ∃ chain, Chronicled counting chain x.2

def Stamped (block : Block) : Prop := 0 < block.index → block.stateRoot ≠ ""

structure Companion (counting : Prop) (takes : Block → Prop) (holds : List Block → Blockchain → Prop) : Prop where
  chronicled : ∀ {chain : List Block} {s : Blockchain}, holds chain s → Chronicled counting chain s
  taken : ∀ {chain : List Block} {s : Blockchain}, holds chain s → ∀ block ∈ chain, takes block
  admits : ∀ {block : Block}, Stamped block → takes block
  beside : ∀ {chain : List Block} {s t : Blockchain}, holds chain s → Chronicled counting chain t →
    t.stateSnapshots = s.stateSnapshots → s.trie.Recached t.trie → holds chain t
  append : ∀ {chain : List Block} {s : Blockchain} {block : Block}, holds chain s → Fits counting chain block →
    takes block → Outcome.Ends (holds (chain ++ [block])) (fun e t => e.Caught → holds chain t)
      (s.appendBlock block)
  produce : ∀ {chain : List Block} {s : Blockchain} {block : Block} (sk : Bytes), holds chain s →
    Fits counting chain block → Outcome.Ends
      (fun t => Outcome.Ends (fun u => ∃ chain, holds chain u) (fun e _ => ¬e.Caught)
        (t.replaceTip block (stampedBlock block (t.lastComputedStateRoot.getD t.stateRoot.1)
          t.lastComputedReceiptsRoot sk)))
      (fun e t => e.Caught → holds chain t) (s.appendBlock block)
  rollback : ∀ {chain : List Block} {s : Blockchain} (target : Int), holds chain s →
    Outcome.Ends (holds (chain.take target.toNat)) (fun e u => e.Caught → holds (chain.take target.toNat) u)
      (s.rollbackTo target)

structure Company (counting : Prop) (takes drafts : Block → Prop) (holds : List Block → Blockchain → Prop) : Prop where
  chronicled : ∀ {chain : List Block} {s : Blockchain}, holds chain s → Chronicled counting chain s
  taken : ∀ {chain : List Block} {s : Blockchain}, holds chain s → ∀ block ∈ chain, takes block
  beside : ∀ {chain : List Block} {s t : Blockchain}, holds chain s → Chronicled counting chain t →
    t.stateSnapshots = s.stateSnapshots → s.trie.Recached t.trie → t.log = s.log → holds chain t
  append : ∀ {chain : List Block} {s : Blockchain} {block : Block}, holds chain s → Fits counting chain block →
    takes block → Outcome.Ends (holds (chain ++ [block])) (fun e t => e.Caught → holds chain t)
      (s.appendBlock block)
  produce : ∀ {chain : List Block} {s : Blockchain} {block : Block} (sk : Bytes), holds chain s →
    Fits counting chain block → drafts block → Outcome.Ends
      (fun t => Outcome.Ends (fun u => ∃ chain, holds chain u) (fun e _ => ¬e.Caught)
        (t.replaceTip block (stampedBlock block (t.lastComputedStateRoot.getD t.stateRoot.1)
          t.lastComputedReceiptsRoot sk)))
      (fun e t => e.Caught → holds chain t) (s.appendBlock block)
  rollback : ∀ {chain : List Block} {s : Blockchain} (target : Int), holds chain s →
    Outcome.Ends (holds (chain.take target.toNat)) (fun e u => e.Caught → holds (chain.take target.toNat) u)
      (s.rollbackTo target)

theorem Companion.company {takes : Block → Prop} {holds : List Block → Blockchain → Prop}
    (keeps : Companion counting takes holds) : Company counting takes (fun _ => True) holds where
  chronicled := keeps.chronicled
  taken := keeps.taken
  beside := fun held recorded snapshots recached _ => keeps.beside held recorded snapshots recached
  append := keeps.append
  produce := fun sk held fits _ => keeps.produce sk held fits
  rollback := keeps.rollback

def Offered (takes drafts : Block → Prop) (s : Blockchain) : Call → Prop
  | .produce address sk now _ => ∀ parent, s.latestBlock = some parent → drafts (s.draftBlock parent address sk now)
  | .receive block _ => Stamped block → takes block
  | .reorg fork _ => ∀ fb ∈ fork, Stamped fb → takes fb
  | _ => True

section Companions
variable {takes drafts : Block → Prop} {holds : List Block → Blockchain → Prop}

theorem drainHolds (keeps : Company counting takes drafts holds) {chain : List Block} {s : Blockchain} (held : holds chain s)
    (block : Block) : holds chain (s.drainPool block) :=
  keeps.beside held (drainChronicled (keeps.chronicled held) block) rfl (.inl rfl) rfl

theorem addBlockArrives (keeps : Company counting takes drafts holds) {chain : List Block} {s : Blockchain} {block : Block}
    {now : Int} (held : holds chain s) (tidy : Tidy block) (offered : Offered takes drafts s (.receive block now)) :
    Arrives holds (s.addBlock block now) := by
  have before : ∀ message, Arrives holds (.refused message,s) := fun _ _ => ⟨chain,held⟩
  have chronicled := keeps.chronicled held
  unfold addBlock
  split
  · exact before _
  · dsimp only
    split
    · rename_i position
      split
      · rename_i halt refused
        exact fun _ => ⟨chain,held⟩
      · rename_i valid
        split
        · exact before _
        · rename_i rooted
          have fits : Fits counting chain block := by
            have bounded : -1 ≤ s.height := by rw [chronicled.height]; omega
            by_cases first : block.index = 0
            · rw [chronicledEmpty chronicled (by omega)]
              exact genesisFits first (tidy.distinct first) tidy.names
            · rw [if_pos (by omega)] at valid
              exact validatedFits chronicled first valid tidy.names
          have stamped : Stamped block := fun later none => rooted ⟨later,none⟩
          have appended := keeps.append held fits (offered stamped)
          split
          · rename_i t run
            rw [run] at appended
            exact fun _ => ⟨_,drainHolds keeps appended block⟩
          · rename_i message t run
            rw [run] at appended
            exact fun _ => ⟨_,appended ⟨message,rfl⟩⟩
          · rename_i r _ run
            rw [run] at appended
            exact fun ended => ⟨_,appended ended.caught⟩
    · split <;> exact before _

theorem produceBlockArrives (keeps : Company counting takes drafts holds) {chain : List Block} {s : Blockchain}
    {address : Address} {sk : Bytes} {now later : Int} (held : holds chain s)
    (offered : Offered takes drafts s (.produce address sk now later)) : Arrives holds (s.produceBlock address sk now later) := by
  have before : ∀ reply, Arrives holds (reply,s) := fun _ _ => ⟨chain,held⟩
  have chronicled := keeps.chronicled held
  unfold produceBlock
  split
  · exact before _
  · split
    · exact before _
    · rename_i parent tip
      split
      · exact before _
      · split
        · exact before _
        · split
          · exact before _
          · dsimp only
            split
            · exact before _
            · split
              · exact before _
              · rename_i valid
                have names : ∀ tx ∈ (s.draftBlock parent address sk now).transactions,
                    Tokens.NamesToken tx := fun tx inside =>
                  chronicled.pool tx (selectTxsSubset s parent tx inside)
                have above := tipIndex chronicled tip
                have later : (s.draftBlock parent address sk now).index ≠ 0 := by
                  show parent.index + 1 ≠ 0
                  omega
                have appended := keeps.produce sk held (validatedFits chronicled later (tip ▸ valid) names)
                  (offered parent tip)
                split
                · rename_i r run
                  rw [run] at appended
                  exact fun ended => ⟨_,appended ended.caught⟩
                · rename_i t run
                  rw [run] at appended
                  replace appended : Outcome.Ends (fun u => ∃ chain, holds chain u) (fun e _ => ¬e.Caught)
                      (t.replaceTip _ _) := appended
                  split
                  · rename_i r replaced
                    rw [replaced] at appended
                    exact fun ended => absurd ended.caught appended
                  · rename_i u replaced
                    rw [replaced] at appended
                    obtain ⟨chain',stamped⟩ := appended
                    exact fun _ => ⟨chain',drainHolds keeps stamped _⟩

def Stays (holds : List Block → Blockchain → Prop) (x : Except (Fault Blockchain) Blockchain) : Prop :=
  Outcome.Ends (fun t => ∃ chain, holds chain t) (fun e t => e.Caught → ∃ chain, holds chain t) x

omit [Env] in
theorem staysArrives (x : Except (Fault Blockchain) Blockchain) (reply : Reply) : Stays holds x →
    Arrives holds (match x with
      | .ok s => (reply,s)
      | .error r => (.raised r.exception,r.state)) := by
  intro stays
  cases x with
  | error r => exact fun ended => stays ended.caught
  | ok t => exact fun _ => stays

theorem appendAllStays (keeps : Company counting takes drafts holds) {prior suffix : List Block} {s : Blockchain}
    (held : holds prior s) (sound : Sound counting (prior ++ suffix)) (taken : ∀ block ∈ suffix, takes block) :
    Stays holds (suffix.foldlM appendBlock s) := by
  induction suffix generalizing prior s with
  | nil => exact ⟨prior,held⟩
  | cons block rest ih =>
    rw [← List.singleton_append,← List.append_assoc] at sound
    have here := soundPrefix sound
    have appended := keeps.append held (Chronicle.soundAppend.mp here).2 (taken block (List.mem_cons_self ..))
    rw [List.foldlM_cons]
    refine Outcome.endsBind (holds (prior ++ [block])) ?_ (fun t reached =>
      ih reached sound (fun other inside => taken other (List.mem_cons_of_mem _ inside)))
    exact Outcome.endsMono appended (fun _ h => h) (fun _ _ h caught => ⟨prior,h caught⟩)

theorem restoreOriginalArrives (keeps : Company counting takes drafts holds) {prior extra savedChain : List Block}
    {s : Blockchain} {forkStart : Int} {applied : Bool} (held : holds (prior ++ extra) s)
    (sound : Sound counting (prior ++ savedChain)) (taken : ∀ block ∈ savedChain, takes block)
    (start : forkStart.toNat = prior.length) (untouched : applied = false → extra = [])
    (message : String) : Arrives holds (s.restoreOriginal forkStart savedChain applied message) := by
  have rolled := keeps.rollback forkStart held
  rw [start,List.take_left] at rolled
  have outcome : Stays holds
      (if applied then s.rollbackTo forkStart >>= fun s => savedChain.foldlM appendBlock s
        else savedChain.foldlM appendBlock s) := by
    split
    · refine Outcome.endsBind (holds prior) ?_ (fun t reached => appendAllStays keeps reached sound taken)
      exact Outcome.endsMono rolled (fun _ h => h) (fun _ _ h caught => ⟨prior,h caught⟩)
    · rename_i fresh
      have none := untouched (by simpa using fresh)
      subst none
      rw [List.append_nil] at held
      exact appendAllStays keeps held sound taken
  unfold restoreOriginal
  cases applied with
  | true => exact staysArrives _ _ outcome
  | false => exact staysArrives _ _ outcome

theorem applyForkArrives (keeps : Company counting takes drafts holds) {prior savedChain fork extra : List Block}
    {s : Blockchain} {now forkStart : Int} {applied : Bool} (held : holds (prior ++ extra) s)
    (sound : Sound counting (prior ++ savedChain)) (taken : ∀ block ∈ savedChain, takes block)
    (start : forkStart.toNat = prior.length) (untouched : applied = false → extra = [])
    (tidy : Later fork) (offered : ∀ fb ∈ fork, Stamped fb → takes fb) :
    Arrives holds (applyFork now forkStart savedChain fork applied s.latestBlock s) := by
  induction fork generalizing extra s applied with
  | nil => exact fun _ => ⟨_,held⟩
  | cons fb rest ih =>
    have restored : ∀ message, Arrives holds (s.restoreOriginal forkStart savedChain applied message) :=
      fun message => restoreOriginalArrives keeps held sound taken start untouched message
    obtain ⟨later,names⟩ := tidy fb (List.mem_cons_self ..)
    unfold applyFork
    split
    · exact restored _
    · rename_i rooted
      split
      · exact restored _
      · exact fun _ => ⟨_,held⟩
      · rename_i valid
        have stamped : Stamped fb := fun above none => rooted ⟨above,none⟩
        have appended := keeps.append held (validatedFits (keeps.chronicled held) later valid names)
          (offered fb (List.mem_cons_self ..) stamped)
        split
        · rename_i t run
          rw [run] at appended
          have grown : holds (prior ++ (extra ++ [fb])) t := by
            rw [← List.append_assoc]
            exact appended
          have tip : t.latestBlock = some fb := by
            rw [(keeps.chronicled grown).latestBlock,← List.append_assoc,List.getLast?_concat]
          rw [← tip]
          exact ih grown (fun impossible => by contradiction)
            (fun other inside => tidy other (List.mem_cons_of_mem _ inside))
            (fun other inside => offered other (List.mem_cons_of_mem _ inside))
        · rename_i message t run
          rw [run] at appended
          exact restoreOriginalArrives keeps (appended ⟨message,rfl⟩) sound taken start untouched _
        · rename_i r _ run
          rw [run] at appended
          exact fun ended => ⟨_,appended ended.caught⟩

theorem returnDisplacedBeside (s : Blockchain) (fork : List Block) (displaced : List Transaction) :
    (s.returnDisplaced fork displaced).stateSnapshots = s.stateSnapshots ∧
      (s.returnDisplaced fork displaced).trie = s.trie ∧ (s.returnDisplaced fork displaced).log = s.log := by
  have back : ∀ (mined : List String) (txs : List Transaction) (s : Blockchain),
      (txs.foldl (returnTx mined) s).stateSnapshots = s.stateSnapshots ∧
        (txs.foldl (returnTx mined) s).trie = s.trie ∧ (txs.foldl (returnTx mined) s).log = s.log := by
    intro mined txs
    induction txs with
    | nil => exact fun _ => ⟨rfl,rfl,rfl⟩
    | cons tx rest ih =>
      intro s
      have step : (returnTx mined s tx).stateSnapshots = s.stateSnapshots ∧
          (returnTx mined s tx).trie = s.trie ∧ (returnTx mined s tx).log = s.log := by
        unfold returnTx
        split
        · exact ⟨rfl,rfl,rfl⟩
        · split <;> exact ⟨rfl,rfl,rfl⟩
      obtain ⟨snapshots,trie,log⟩ := ih (returnTx mined s tx)
      exact ⟨snapshots.trans step.1,trie.trans step.2.1,log.trans step.2.2⟩
  exact back _ _ s

def Tried (counting : Prop) (s : Blockchain) (fork : List Block) : Prop :=
  Later fork ∧ (counting → TidyFork s fork)

theorem tryReorgArrives (keeps : Company counting takes drafts holds) {chain fork : List Block} {s : Blockchain} {now : Int}
    (held : holds chain s) (tried : Tried counting s fork) (offered : Offered takes drafts s (.reorg fork now)) :
    Arrives holds (s.tryReorg fork now) := by
  have chronicled := keeps.chronicled held
  unfold tryReorg
  split
  · exact fun _ => ⟨chain,held⟩
  · rename_i forkStart begun
    obtain ⟨above,below,first,head,here⟩ := reorgStartRange chronicled begun
    have saved : s.backend.getBlocksRange forkStart (s.height + 1) = chain.drop forkStart.toNat := by
      rw [Backend.getBlocksRangeHolds chronicled.holds,chronicled.height,
        List.take_of_length_le (by omega)]
    have rolled := rollbackToEnds chronicled forkStart
    have kept := keeps.rollback forkStart held
    have size : (chain.take forkStart.toNat).length = forkStart.toNat := by
      rw [List.length_take]
      omega
    dsimp only
    rw [saved]
    split
    · rename_i r run
      rw [run] at kept
      exact fun ended => ⟨_,kept ended.caught⟩
    · rename_i t run
      rw [run] at rolled kept
      have height : t.height = forkStart - 1 := by
        rw [rolled.1.height,size]
        omega
      have left := rootMismatchLeaves rolled.1.toChronicled (forkStart - 1)
      split
      · rename_i message u mismatch
        rw [mismatch] at left
        -- the root cache was stale, so nothing was displaced and no nonces are counted
        have stale : ¬(s.Rooted ∨ forkStart.toNat < chain.length) := by
          intro rooted
          have compared := rootMatches rolled.1.toChronicled (by omega) (rolled.2 rooted)
          rw [height,mismatch] at compared
          contradiction
        have whole : chain.length ≤ forkStart.toNat := by omega
        have uncounted : ¬counting := by
          intro count
          refine stale (.inl ((tried.2 count).rooted (fun other same => ?_)))
          rw [head] at same
          cases same
          have height := chronicled.height
          omega
        rw [List.take_of_length_le whole] at left kept
        rw [List.drop_of_length_le whole]
        obtain ⟨v,refused,recorded,snapshots,trie⟩ :=
          refuseRollbackChronicled chronicled left.1 uncounted whole message
        rw [refused]
        rw [rollbackNothing chronicled whole run] at left
        have log := refuseRollbackLog u s forkStart [] message
        rw [refused,← (show (rootMismatch _ (forkStart - 1)).2 = u by rw [mismatch]),rootMismatchLog] at log
        have nothing : t.log = s.log := by rw [rollbackNothing chronicled whole run]; rfl
        refine fun _ => ⟨chain,keeps.beside held recorded snapshots ?_ (log.trans nothing)⟩
        rw [trie]
        exact left.2.2.restore _
      · rename_i u mismatch
        rw [mismatch] at left
        have compared : holds (chain.take forkStart.toNat ++ []) u := by
          rw [List.append_nil]
          have log := rootMismatchLog t (forkStart - 1)
          rw [mismatch] at log
          exact keeps.beside kept left.1 left.2.1 left.2.2 log
        have taken : ∀ block ∈ chain.drop forkStart.toNat, takes block :=
          fun block inside => keeps.taken held block (List.mem_of_mem_drop inside)
        have sound : Sound counting (chain.take forkStart.toNat ++ chain.drop forkStart.toNat) := by
          rw [List.take_append_drop]
          exact chronicled.sound
        have forked : Arrives holds (applyFork now forkStart (chain.drop forkStart.toNat) fork false u.latestBlock u) :=
          applyForkArrives keeps compared sound taken size.symm (fun _ => rfl) tried.1 offered
        split
        · rename_i v answer
          rw [answer] at forked
          obtain ⟨chain',final⟩ := forked .accepted
          obtain ⟨snapshots,trie,log⟩ := returnDisplacedBeside v fork ((s.blocksFrom forkStart).flatMap Block.transactions)
          refine fun _ => ⟨chain',keeps.beside final ?_ snapshots
            (.inl (congrArg StateTrie.cachedRoot trie)) log⟩
          refine returnDisplacedChronicled (keeps.chronicled final) fork (fun tx inside => ?_)
          obtain ⟨block,listed,own⟩ := List.mem_flatMap.mp inside
          rw [blocksFromHolds chronicled.holds chronicled.height] at listed
          exact chainNames chronicled.sound (List.mem_of_mem_drop (List.mem_reverse.mp listed)) tx own
        · exact forked

theorem beginChainStays (keeps : Company counting takes drafts holds) {chain : List Block} {s : Blockchain}
    (held : holds chain s) (address : Address) (sk pk : Bytes) (now : Int)
    (admitted : ∀ block, (∀ tx ∈ block.transactions, tx.txType = .REGISTER_VALIDATOR) → Stamped block → takes block)
    (restamped : ∀ {old new : Block} {s : Blockchain}, holds [old] s → new.index = old.index →
      new.transactions = old.transactions → new.baseFee = old.baseFee →
      Outcome.Ends (holds [new]) (fun e _ => ¬e.Caught) (s.replaceTip old new)) :
    Stays holds (s.initChain address sk pk now) := by
  unfold initChain
  split
  · exact ⟨chain,held⟩
  · rename_i low
    have empty := chronicledEmpty (keeps.chronicled held) (by omega)
    subst empty
    dsimp only
    generalize (if pk.isEmpty then s.state.staking.validators.getD address [] else pk) = key
    have kind : ∀ tx ∈ (if key.isEmpty then [] else [registration address sk key now]),
        tx.txType = .REGISTER_VALIDATOR := by
      intro tx inside
      split at inside
      · cases inside
      · rw [List.mem_singleton.mp inside]
        rfl
    have fits : Fits counting [] ((Block.genesis address
        (if key.isEmpty then [] else [registration address sk key now]) now).sign sk) := by
      refine genesisFits rfl ?_ (fun tx inside => ?_)
      · show ((if key.isEmpty then [] else [registration address sk key now]).map
          Transaction.txId).Nodup
        split <;> simp
      · have other := kind tx inside
        rintro (mint | transfer)
        · rw [other] at mint; contradiction
        · rw [other] at transfer; contradiction
    have takes := admitted ((Block.genesis address
      (if key.isEmpty then [] else [registration address sk key now]) now).sign sk) kind
        (fun above => absurd above (lt_irrefl (0 : Int)))
    generalize (Block.genesis address
      (if key.isEmpty then [] else [registration address sk key now]) now).sign sk = genesis at fits takes
    refine Outcome.endsBind (holds [genesis]) ?_ (fun t first => ?_)
    · exact Outcome.endsMono (keeps.append held fits takes) (fun _ h => h) (fun _ _ h caught => ⟨[],h caught⟩)
    have staked : holds [genesis] (if pk.isEmpty then t else t.autoStake address) := by
      split
      · exact first
      · have chronicled := keeps.chronicled first
        refine keeps.beside first ?_ rfl (.inl rfl) rfl
        exact chronicled.beside (Backend.storedMapStore _ t.backend (fun d => Store.keepsRefl d)) rfl rfl rfl
          rfl rfl chronicled.named chronicled.drawn chronicled.snapped chronicled.pool
    generalize (if pk.isEmpty then t else t.autoStake address) = staking at staked
    have rooted := keeps.beside staked (rootChronicled (keeps.chronicled staked)) rfl
      (StateTrie.recachedRoot staking.trie) rfl
    have final := restamped rooted (stampedIndex genesis staking.stateRoot.1
      staking.stateRoot.2.lastComputedReceiptsRoot sk) (stampedTransactions ..) (stampedBaseFee ..)
    refine Outcome.endsBind _ (Outcome.endsMono final (fun _ h => h) (fun _ _ h caught => absurd caught h))
      (fun u last => ?_)
    have chronicled := keeps.chronicled last
    refine ⟨_,keeps.beside last ?_ rfl (.inl rfl) rfl⟩
    exact chronicled.beside rfl rfl rfl rfl rfl rfl chronicled.named chronicled.drawn chronicled.snapped
      chronicled.pool

theorem initChainStays (keeps : Companion counting takes holds) {chain : List Block} {s : Blockchain}
    (held : holds chain s) (address : Address) (sk pk : Bytes) (now : Int)
    (restamped : ∀ {old new : Block} {s : Blockchain}, holds [old] s → new.index = old.index →
      new.transactions = old.transactions → new.baseFee = old.baseFee →
      Outcome.Ends (holds [new]) (fun e _ => ¬e.Caught) (s.replaceTip old new)) :
    Stays holds (s.initChain address sk pk now) :=
  beginChainStays keeps.company held address sk pk now (fun _ _ => keeps.admits) restamped

def Careful (s : Blockchain) : Call → Prop
  | .receive block _ => Tidy block
  | .reorg fork _ => TidyFork s fork
  | _ => True

def Orderly (counting : Prop) (s : Blockchain) : Call → Prop
  | .receive block _ => Tidy block
  | .reorg fork _ => Tried counting s fork
  | _ => True

theorem carefulOrderly {s : Blockchain} {c : Call} (careful : Careful s c) : Orderly counting s c := by
  cases c with
  | receive block now => exact careful
  | reorg fork now =>
    have tidy : TidyFork s fork := careful
    exact ⟨tidy.blocks,fun _ => tidy⟩
  | _ => trivial

theorem performKeeps (keeps : Company counting takes drafts holds) {chain : List Block} {s : Blockchain}
    (held : holds chain s) (c : Call) (orderly : Orderly counting s c) (offered : Offered takes drafts s c)
    (begins : ∀ address sk pk now, c = .initChain address sk pk now → Stays holds (s.initChain address sk pk now))
    (activates : ∀ address, c = .activate address → Stays holds (s.activateFinancialLayer address)) :
    Arrives holds (s.perform c) := by
  cases c with
  | initChain address sk pk now => exact staysArrives _ _ (begins address sk pk now rfl)
  | activate address => exact staysArrives _ _ (activates address rfl)
  | submit now tx =>
    have same : (s.submitTx now tx).2.stateSnapshots = s.stateSnapshots ∧ (s.submitTx now tx).2.trie = s.trie ∧
        (s.submitTx now tx).2.log = s.log := by
      simp only [submitTx]
      split <;> exact ⟨rfl,rfl,rfl⟩
    exact fun _ => ⟨chain,keeps.beside held (submitChronicled (keeps.chronicled held) now tx) same.1
      (.inl (congrArg StateTrie.cachedRoot same.2.1)) same.2.2⟩
  | produce address sk now later => exact produceBlockArrives keeps held offered
  | receive block now => exact addBlockArrives keeps held orderly offered
  | rollback target =>
    refine staysArrives _ _ (Outcome.endsMono (keeps.rollback target held) ?_ ?_)
    · exact fun _ h => ⟨_,h⟩
    · exact fun _ _ h caught => ⟨_,h caught⟩
  | reorg fork now => exact tryReorgArrives keeps held orderly offered

theorem performArrives (keeps : Companion counting takes holds) {chain : List Block} {s : Blockchain}
    (held : holds chain s) (c : Call) (orderly : Orderly counting s c)
    (begins : ∀ address sk pk now, c = .initChain address sk pk now → Stays holds (s.initChain address sk pk now))
    (activates : ∀ address, c = .activate address → Stays holds (s.activateFinancialLayer address)) :
    Arrives holds (s.perform c) := by
  refine performKeeps keeps.company held c orderly ?_ begins activates
  cases c with
  | produce address sk now later => exact fun _ _ => trivial
  | receive block now => exact keeps.admits
  | reorg fork now => exact fun _ _ => keeps.admits
  | _ => trivial

end Companions

theorem chronicledCompanion : Companion counting (fun _ => True) (Chronicled counting) where
  chronicled := id
  taken := fun _ _ _ => trivial
  admits := fun _ => trivial
  beside := fun _ recorded _ _ => recorded
  append := fun chronicled fits _ => appendBlockEnds chronicled fits
  produce := by
    intro chain s block sk chronicled fits
    refine Outcome.endsMono (appendBlockEnds chronicled fits) (fun t appended => ?_) (fun _ _ h => h)
    exact Outcome.endsMono (replaceTipEnds appended (stampedIndex ..) (stampedTransactions ..) (stampedBaseFee ..))
      (fun _ h => ⟨_,h⟩) (fun _ _ h => h)
  rollback := fun target chronicled => Outcome.endsMono (rollbackToEnds chronicled target)
    (fun _ h => h.1.toChronicled) (fun _ _ h caught => (h caught).toChronicled)

theorem performLands {chain : List Block} {s : Blockchain} (chronicled : Chronicled counting chain s) (c : Call)
    (careful : Careful s c) : Lands counting (s.perform c) := by
  refine performArrives chronicledCompanion chronicled c (carefulOrderly careful) ?_ ?_
  · intro address sk pk now _
    refine initChainStays chronicledCompanion chronicled address sk pk now ?_
    intro old new s stored index transactions baseFee
    exact @replaceTipEnds _ counting [] old new s stored index transactions baseFee
  · intro address _
    exact Outcome.endsMono (activateChronicled chronicled address) (fun _ h => ⟨chain,h⟩)
      (fun _ _ h caught => absurd caught h)

end Blockchain

end QbitNetwork
