import QbitNetwork.Commitment
import QbitNetwork.Runs

/-! When a block is appended: its execution on the replicated state alone, and the
roots it claims. -/
namespace QbitNetwork

structure Execution where
  state : ChainState
  receiptData : List ReceiptRow := []
  failedTxIds : DSet String := ∅

namespace Execution
variable [Env]

def applyTx (block : Block) (idx : Int) (e : Execution) (row : Transaction × Nat) : Option Execution :=
  match e.state.applyTx block idx row with
  | .error _ => none
  | .ok state => some
      { state
        receiptData := e.receiptData ++ [⟨row.2,row.1.txId,
          ChainState.feePaid block idx e.state.ledger.financialActive row.1,state.buildTxEvents row.1⟩]
        failedTxIds :=
          if row.1.txType = .EVIDENCE then e.failedTxIds.insert row.1.txId else e.failedTxIds }

def receipts (e : Execution) (idx : Int) : List Receipt :=
  e.receiptData.map (Blockchain.receiptOf idx e.failedTxIds)

end Execution

def ChainState.execute [Env] (s : ChainState) (block : Block) (idx : Int) :
    Option (ChainState × List Receipt) := do
  let opened ← (s.openBlock idx).toOption
  let e ← block.transactions.zipIdx.foldlM (Execution.applyTx block idx) { state := opened }
  let paid ← (e.state.payReward block idx).toOption
  some (paid,e.receipts idx)

namespace Blockchain
variable [Env]

def Storable (s : Blockchain) (block : Block) : Prop :=
  match s.backend with
  | .memory _ => True
  | .sqlite store =>
    store.height + 1 ∉ store.blocks ∧ store.hashTaken (store.height + 1) block.blockHash = false

def Executes (s : Blockchain) (block : Block) : Prop :=
  ∃ after receipts trie, s.state.execute block (s.height + 1) = some (after,receipts) ∧
    after.rebuildStateTrie s.trie = .ok trie ∧
    (block.receiptsRoot ≠ "" → block.receiptsRoot = receiptsRoot receipts) ∧
    (block.stateRoot ≠ "" → block.stateRoot = hex trie.root.1)

def executionOf (p : Progress) : Execution := ⟨p.chain.state,p.receiptData,p.failedTxIds⟩

theorem applyBlockTxExecutes (block : Block) (idx : Int) (p : Progress) (row : Transaction × Nat) :
    (applyBlockTx block idx p row).toOption.map executionOf =
      Execution.applyTx block idx (executionOf p) row := by
  simp only [applyBlockTx,Execution.applyTx,executionOf]
  cases p.chain.state.applyTx block idx row <;> rfl

theorem applyTxsExecutes (s : Blockchain) (block : Block) (idx : Int) :
    (s.applyTxs block idx).toOption.map executionOf =
      block.transactions.zipIdx.foldlM (Execution.applyTx block idx) { state := s.state } :=
  Outcome.foldMirrors executionOf _ (applyBlockTxExecutes block idx) _ _

omit [Env] in
theorem toOptionOk {ε α : Type} {x : Except ε α} {a : α} : x.toOption = some a ↔ x = .ok a := by
  cases x <;> simp [Except.toOption]

omit [Env] in
theorem openBlockExecutes (s : Blockchain) (idx : Int) :
    (s.openBlock idx).toOption.map Blockchain.state = (s.state.openBlock idx).toOption := by
  simp only [openBlock]
  cases s.state.openBlock idx with
  | error r => rfl
  | ok state =>
    simp only [Outcome.withinReturns,bind,Except.bind]
    split <;> rfl

theorem storeBlockIff (s : Blockchain) (block : Block) :
    (∃ t, s.storeBlock block = .ok t) ↔ s.Storable block := by
  cases found : s.backend with
  | memory chainList =>
    simp only [storeBlock,Storable,found]
    exact ⟨fun _ => trivial,fun _ => ⟨_,rfl⟩⟩
  | sqlite store =>
    simp only [storeBlock,Storable,found,Store.appendBlock]
    by_cases taken : store.height + 1 ∈ store.blocks ∨
        store.hashTaken (store.height + 1) block.blockHash = true
    · simp only [if_pos taken,reduceCtorEq,exists_false,false_iff]
      rintro ⟨free,unused⟩
      rcases taken with taken | taken
      · exact free taken
      · rw [unused] at taken
        cases taken
    · simp only [if_neg taken]
      push Not at taken
      exact ⟨fun _ => ⟨taken.1,by simpa using taken.2⟩,fun _ => ⟨_,rfl⟩⟩

theorem checkReceiptsRootFine (s : Blockchain) {block : Block} (idx : Int) {receipts : List Receipt}
    (claimed : block.receiptsRoot ≠ "" → block.receiptsRoot = receiptsRoot receipts) :
    s.checkReceiptsRoot block idx receipts =
      .ok { s with lastComputedReceiptsRoot := receiptsRoot receipts } :=
  if_neg (fun wrong => wrong.2 (claimed wrong.1))

theorem checkReceiptsRootTrie {s t : Blockchain} {block : Block} {idx : Int} {receipts : List Receipt}
    (run : s.checkReceiptsRoot block idx receipts = .ok t) : t.trie = s.trie := by
  simp only [checkReceiptsRoot] at run
  split at run
  · contradiction
  · cases run; rfl

theorem checkStateRootIff (s : Blockchain) (block : Block) (idx : Int) :
    (∃ t, s.checkStateRoot block idx = .ok t) ↔
      ∃ trie, s.state.rebuildStateTrie s.trie = .ok trie ∧
        (block.stateRoot ≠ "" → block.stateRoot = hex trie.root.1) := by
  constructor
  · rintro ⟨t,run⟩
    obtain ⟨-,-,trie,rebuilt,-,-,-,-,claimed⟩ := checkStateRootOk run
    exact ⟨trie,rebuilt,claimed⟩
  · rintro ⟨trie,rebuilt,claimed⟩
    have compared : (s.withTrie trie).recordStateRoot.compareStateRoot block idx
        (s.withTrie trie).stateRoot.1 = .ok (s.withTrie trie).recordStateRoot :=
      if_neg (fun wrong => wrong.2 (claimed wrong.1))
    refine ⟨(s.withTrie trie).recordStateRoot,?_⟩
    simp only [checkStateRoot,Outcome.bindOk,Blockchain.rebuildStateTrie,rebuilt,Outcome.withinReturns]
    exact ⟨_,rfl,compared⟩

theorem closeBlockIff (p : Progress) (block : Block) (idx : Int) (matured : List Address)
    (opening : List Event) :
    (∃ t, closeBlock p block idx matured opening = .ok t) ↔
      ∃ after trie, p.chain.state.payReward block idx = .ok after ∧
        after.rebuildStateTrie p.chain.trie = .ok trie ∧
        (block.receiptsRoot ≠ "" → block.receiptsRoot = receiptsRoot ((executionOf p).receipts idx)) ∧
        (block.stateRoot ≠ "" → block.stateRoot = hex trie.root.1) := by
  constructor
  · rintro ⟨t,run⟩
    simp only [closeBlock,Outcome.bindOk,Outcome.withinOk] at run
    obtain ⟨_,⟨after,paid,rfl⟩,checked,receipts,rooted,root,-⟩ := run
    obtain ⟨state,-,-,claimed⟩ := checkReceiptsRootOk receipts
    obtain ⟨trie,rebuilt,root⟩ := (checkStateRootIff ..).mp ⟨rooted,root⟩
    rw [state,checkReceiptsRootTrie receipts] at rebuilt
    exact ⟨after,trie,paid,rebuilt,claimed,root⟩
  · rintro ⟨after,trie,paid,rebuilt,receipts,root⟩
    have rooted : ∀ (s : Blockchain) (rows : List Receipt) (events : List Event),
        rows = (executionOf p).receipts idx → s.state = after → s.trie = p.chain.trie →
        ∃ t, (s.checkReceiptsRoot block idx rows >>= fun s => s.checkStateRoot block idx >>= fun s =>
          .ok (s.settleBlock block idx matured rows events)) = .ok t := by
      rintro s rows events rfl state same
      simp only [checkReceiptsRootFine s idx receipts,Outcome.bindOk]
      rw [← state,← same] at rebuilt
      obtain ⟨t,run⟩ := (checkStateRootIff { s with
        lastComputedReceiptsRoot := receiptsRoot ((executionOf p).receipts idx) } block idx).mpr
        ⟨trie,rebuilt,root⟩
      exact ⟨_,_,rfl,t,run,rfl⟩
    simp only [closeBlock]
    rw [show (addReceipts p idx).state = p.chain.state from rfl,paid]
    exact rooted _ _ _ rfl rfl rfl

theorem executeOk {s : ChainState} {block : Block} {idx : Int} {after : ChainState}
    {receipts : List Receipt} :
    s.execute block idx = some (after,receipts) ↔ ∃ opened e, s.openBlock idx = .ok opened ∧
      block.transactions.zipIdx.foldlM (Execution.applyTx block idx) { state := opened } = some e ∧
      e.state.payReward block idx = .ok after ∧ e.receipts idx = receipts := by
  simp only [ChainState.execute,Option.bind_eq_bind,Option.bind_eq_some_iff,toOptionOk]
  constructor
  · rintro ⟨opened,opening,e,ran,paid,reward,done⟩
    cases done
    exact ⟨opened,e,opening,ran,reward,rfl⟩
  · rintro ⟨opened,e,opening,ran,reward,rfl⟩
    exact ⟨opened,opening,e,ran,after,reward,rfl⟩

theorem executeApplies {s : ChainState} {block : Block} {idx : Int} {after : ChainState} {receipts : List Receipt}
    (run : s.execute block idx = some (after,receipts)) : s.applyBlock block idx = .ok after := by
  have loop {rows : List (Transaction × Nat)} : ∀ {e e' : Execution},
      rows.foldlM (Execution.applyTx block idx) e = some e' →
        rows.foldlM (ChainState.applyTx block idx) e.state = .ok e'.state := by
    induction rows with
    | nil =>
      intro e e' run
      cases run
      rfl
    | cons row rows ih =>
      intro e e' run
      simp only [List.foldlM_cons,Option.bind_eq_bind,Option.bind_eq_some_iff] at run
      obtain ⟨mid,step,rest⟩ := run
      simp only [Execution.applyTx] at step
      split at step
      · cases step
      · rename_i state applied
        cases step
        simp only [List.foldlM_cons,applied]
        exact ih rest
  obtain ⟨opened,e,opening,ran,reward,-⟩ := executeOk.mp run
  simp only [ChainState.applyBlock,ChainState.applyTxs,Outcome.bindOk]
  exact ⟨opened,opening,e.state,loop ran,reward⟩

theorem appendInnerIff (s : Blockchain) (block : Block) :
    (∃ t, s.appendBlockInner block = .ok t) ↔ s.Storable block ∧ s.Executes block := by
  constructor
  · rintro ⟨t,run⟩
    simp only [appendBlockInner,Outcome.bindOk] at run
    obtain ⟨_,stored,opened,opening,run⟩ := run
    obtain ⟨backend,rfl,-⟩ := storeBlockOk stored
    refine ⟨(storeBlockIff ..).mp ⟨_,stored⟩,?_⟩
    split at run
    · contradiction
    · rename_i p applied
      obtain ⟨after,trie,paid,rebuilt,receipts,root⟩ := (closeBlockIff ..).mp ⟨t,run⟩
      have loop := applyTxsExecutes opened block (s.height + 1)
      rw [applied] at loop
      refine ⟨after,_,trie,executeOk.mpr ⟨_,_,(openBlockOk opening).1,loop.symm,paid,rfl⟩,?_,receipts,root⟩
      rw [applyTxsTrie applied,openBlockTrie opening] at rebuilt
      exact rebuilt
  · rintro ⟨storable,after,receipts,trie,executed,rebuilt,claimed,root⟩
    obtain ⟨opened,e,opening,loop,reward,rfl⟩ := executeOk.mp executed
    obtain ⟨backend,stored⟩ := (storeBlockIff ..).mpr storable
    obtain ⟨backend,rfl,-⟩ := storeBlockOk stored
    have begins := (openBlockExecutes (({ s with backend } : Blockchain).advanceTip block
      (s.height + 1)) (s.height + 1)).trans (toOptionOk.mpr opening)
    obtain ⟨begun,ran,rfl⟩ := Option.map_eq_some_iff.mp begins
    have looped := applyTxsExecutes begun block (s.height + 1)
    rw [loop] at looped
    obtain ⟨p,applied,rfl⟩ := Option.map_eq_some_iff.mp looped
    have opens := toOptionOk.mp ran
    have applies := toOptionOk.mp applied
    have trieKept := (applyTxsTrie applies).trans (openBlockTrie opens)
    obtain ⟨t,closed⟩ := (closeBlockIff p block (s.height + 1)
      ((s.state.staking.matured (s.height + 1)).map UnbondingEntry.staker)
      (epochEvents s.state.staking.currentEpoch begun.state.staking.currentEpoch)).mpr
      ⟨after,trie,reward,by rw [trieKept]; exact rebuilt,claimed,root⟩
    refine ⟨t,?_⟩
    simp only [appendBlockInner,stored,Outcome.bindOk]
    exact ⟨_,rfl,begun,opens,by rw [applies]; exact closed⟩

theorem appendInnerReceipts {s t : Blockchain} {block : Block} (run : s.appendBlockInner block = .ok t) :
    ∃ after receipts, s.state.execute block (s.height + 1) = some (after,receipts) ∧
      t.lastComputedReceiptsRoot = receiptsRoot receipts := by
  simp only [appendBlockInner,Outcome.bindOk] at run
  obtain ⟨_,stored,opened,opening,run⟩ := run
  obtain ⟨backend,rfl,-⟩ := storeBlockOk stored
  split at run
  · contradiction
  · rename_i p applied
    simp only [closeBlock,Outcome.bindOk,Outcome.withinOk] at run
    obtain ⟨_,⟨after,paid,rfl⟩,checked,receipts,rooted,root,run⟩ := run
    have loop := applyTxsExecutes opened block (s.height + 1)
    rw [applied] at loop
    obtain ⟨-,-,_,-,-,-,-,kept,-⟩ := checkStateRootOk root
    refine ⟨after,_,executeOk.mpr ⟨_,_,(openBlockOk opening).1,loop.symm,paid,rfl⟩,?_⟩
    rw [← Except.ok.inj run,(settleRoot ..).2.1,kept]
    exact (checkReceiptsRootOk receipts).2.2.1

theorem appendBlockIff (s : Blockchain) (block : Block) :
    (∃ t, s.appendBlock block = .ok t) ↔ s.Storable block ∧ s.Executes block := by
  rw [← appendInnerIff]
  constructor
  · rintro ⟨t,run⟩
    exact ⟨t,appendBlockOk run⟩
  · rintro ⟨t,run⟩
    exact ⟨t,by simp only [appendBlock,run]⟩

end Blockchain

end QbitNetwork
