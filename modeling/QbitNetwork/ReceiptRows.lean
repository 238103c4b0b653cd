import QbitNetwork.Evidence
import QbitNetwork.Producers
import QbitNetwork.ReceiptProofs
import QbitNetwork.Reservations

/-! The receipts a block gets, row by row, and what those of EVIDENCE transactions say. -/
namespace QbitNetwork
namespace Blockchain
variable [Env]

def enterRows (idx : Int) (failed : DSet String) (rows : List ReceiptRow) (log : EventLog) : EventLog :=
  rows.foldl (fun log row => log.addReceipt (receiptOf idx failed row) row.events) log

omit [Env] in
theorem enterRowsLevels (idx : Int) (failed : DSet String) (rows : List ReceiptRow) (log : EventLog) :
    (enterRows idx failed rows log).blockLevelEvents = log.blockLevelEvents := by
  have indexed : ∀ (txId : String) (events : List Event) (log : EventLog),
      (events.foldl (EventLog.indexEvent txId) log).blockLevelEvents = log.blockLevelEvents := by
    intro txId events
    induction events with
    | nil => exact fun log => rfl
    | cons event rest ih =>
      intro log
      rw [List.foldl_cons,ih]
      unfold EventLog.indexEvent
      split <;> rfl
  unfold enterRows
  induction rows generalizing log with
  | nil => rfl
  | cons row rest ih => exact (ih _).trans (indexed ..)

structure Gathered (block : Block) (rows : List ReceiptRow) (failed : DSet String) : Prop where
  placed : rows.map (fun row => (row.txId,row.txIndex)) =
    block.transactions.zipIdx.map (fun row => (row.1.txId,(row.2 : Int)))
  named : ∀ row ∈ rows, ∀ event ∈ row.events, event.kind ≠ ""
  failed : ∀ txId, txId ∈ failed ↔ ∃ tx ∈ block.transactions, tx.txType = .EVIDENCE ∧ tx.txId = txId

section Rows

theorem Gathered.ids {block : Block} {rows : List ReceiptRow} {failed : DSet String}
    (gathered : Gathered block rows failed) :
    rows.map ReceiptRow.txId = block.transactions.map Transaction.txId := by
  have firsts := congrArg (List.map Prod.fst) gathered.placed
  rw [List.map_map,List.map_map] at firsts
  refine Eq.trans firsts ?_
  rw [← List.zipIdx_map_fst 0 block.transactions,List.map_map]
  simp

theorem buildTxEventsNamed (s : ChainState) (tx : Transaction) : ∀ event ∈ s.buildTxEvents tx, event.kind ≠ "" := by
  intro event inside
  unfold ChainState.buildTxEvents at inside
  cases kind : tx.txType <;> rw [kind] at inside <;> rw [List.mem_singleton.mp inside] <;> simp

theorem applyRowsEvents {meets : Event → Prop} (built : ∀ (s : ChainState) (tx : Transaction), ∀ event ∈ s.buildTxEvents tx, meets event)
    {block : Block} {idx : Int} {rows : List (Transaction × Nat)} {p p' : Progress}
    (start : ∀ row ∈ p.receiptData, ∀ event ∈ row.events, meets event)
    (run : rows.foldlM (applyBlockTx block idx) p = .ok p') :
    ∀ row ∈ p'.receiptData, ∀ event ∈ row.events, meets event := by
  refine Outcome.foldInvariant (fun p : Progress => ∀ row ∈ p.receiptData, ∀ event ∈ row.events, meets event)
    (fun p row p' before step => ?_) start run
  simp only [applyBlockTx,Outcome.bindOk,Outcome.withinOk] at step
  obtain ⟨_,⟨_,⟨state,applied,rfl⟩,rfl⟩,step⟩ := step
  cases step
  intro other inside
  rcases List.mem_append.mp inside with old | new
  · exact before other old
  · rw [List.mem_singleton.mp new]
    exact built _ _

theorem applyRowsFailed {block : Block} {idx : Int} {rows : List (Transaction × Nat)} {p p' : Progress}
    (run : rows.foldlM (applyBlockTx block idx) p = .ok p') (txId : String) :
    txId ∈ p'.failedTxIds ↔ txId ∈ p.failedTxIds ∨ ∃ row ∈ rows, row.1.txType = .EVIDENCE ∧ row.1.txId = txId := by
  induction rows generalizing p with
  | nil =>
    cases run
    simp
  | cons row rest ih =>
    rw [List.foldlM_cons,Outcome.bindOk] at run
    obtain ⟨mid,first,run⟩ := run
    simp only [applyBlockTx,Outcome.bindOk,Outcome.withinOk] at first
    obtain ⟨_,⟨_,⟨state,applied,rfl⟩,rfl⟩,first⟩ := first
    cases first
    rw [ih run,List.exists_mem_cons_iff,← or_assoc]
    refine or_congr ?_ Iff.rfl
    by_cases evidence : row.1.txType = .EVIDENCE
    · simp only [evidence,if_true,true_and,Std.ExtTreeSet.mem_insert,Std.compare_eq_iff_eq]
      exact or_comm
    · simp only [evidence,if_false,false_and,or_false]

theorem applyTxsGathered {s : Blockchain} {block : Block} {idx : Int} {p : Progress}
    (run : s.applyTxs block idx = .ok p) : p.chain.log = s.log ∧ Gathered block p.receiptData p.failedTxIds := by
  obtain ⟨log,placed⟩ := applyRowsGathered run
  refine ⟨log,placed,applyRowsEvents buildTxEventsNamed (by simp) run,fun txId => ?_⟩
  rw [applyRowsFailed run]
  constructor
  · rintro (none | ⟨row,inside,evidence,same⟩)
    · exact absurd none (by simp)
    · exact ⟨row.1,List.mem_of_getElem? (List.mem_zipIdx_iff_getElem?.mp inside),evidence,same⟩
  · rintro ⟨tx,inside,evidence,same⟩
    obtain ⟨i,there⟩ := List.mem_iff_getElem?.mp inside
    exact .inr ⟨(tx,i),List.mem_zipIdx_iff_getElem?.mpr there,evidence,same⟩

theorem appendInnerCloses {s s' : Blockchain} {block : Block} (run : s.appendBlockInner block = .ok s') :
    ∃ (t u : Blockchain) (p : Progress) (matured : List Address) (epoch epoch' reward : Int),
      t.applyTxs block (s.height + 1) = .ok p ∧ t.log = s.log ∧
      u.log = EventLog.pruneBlockLevelEvents
        { enterRows (s.height + 1) p.failedTxIds p.receiptData s.log with
          blockLevelEvents := s.log.blockLevelEvents.insert (s.height + 1)
            (epochEvents epoch epoch' ++ rewardEvents block.validator reward) } (pruneBefore (s.height + 1)) ∧
      s' = u.settleBlock block (s.height + 1) matured (p.receiptData.map (receiptOf (s.height + 1) p.failedTxIds))
        (epochEvents epoch epoch' ++ rewardEvents block.validator reward) := by
  simp only [appendBlockInner,Outcome.bindOk] at run
  obtain ⟨s1,stored,s2,opened,run⟩ := run
  obtain ⟨backend,rfl,-⟩ := storeBlockOk stored
  split at run
  · contradiction
  · rename_i p applied
    simp only [closeBlock,Outcome.bindOk,Outcome.withinOk] at run
    obtain ⟨_,⟨c,paid,rfl⟩,s4,checked,s5,rooted,run⟩ := run
    have before : s2.log = s.log := by
      have same := openBlockLog opened
      exact same
    have log : p.chain.log = s.log := (applyTxsGathered applied).1.trans before
    have kept : s5.log = s4.log := by
      simp only [checkStateRoot,Outcome.bindOk] at rooted
      obtain ⟨t,rebuilt,rooted⟩ := rooted
      obtain ⟨trie,-,rfl⟩ := rebuildStateTrieOk rebuilt
      simp only [compareStateRoot] at rooted
      split at rooted
      · contradiction
      · cases rooted
        rfl
    simp only [checkReceiptsRoot] at checked
    split at checked
    · contradiction
    · cases checked
      refine ⟨s2,s5,p,_,_,_,_,applied,before,?_,(Except.ok.inj run).symm⟩
      rw [kept,← log,← enterRowsLevels (s.height + 1) p.failedTxIds p.receiptData p.chain.log]
      rfl

theorem appendInnerRows {s s' : Blockchain} {block : Block} (run : s.appendBlockInner block = .ok s') :
    ∃ rows failed levels, Gathered block rows failed ∧ s'.log = EventLog.pruneReceipts
      { enterRows (s.height + 1) failed rows s.log with blockLevelEvents := levels } (pruneBefore (s.height + 1)) := by
  obtain ⟨t,u,p,matured,epoch,epoch',reward,applied,before,entered,rfl⟩ := appendInnerCloses run
  refine ⟨p.receiptData,p.failedTxIds,u.log.blockLevelEvents,(applyTxsGathered applied).2,?_⟩
  rw [settleLog,entered]
  congr 1
  unfold EventLog.pruneBlockLevelEvents
  split <;> rfl

theorem acceptsRows {s s' : Blockchain} {block : Block} (step : Accepts s block s') :
    ∃ rows failed levels, Gathered block rows failed ∧ s'.log = EventLog.pruneReceipts
      { enterRows (s.height + 1) failed rows s.log with blockLevelEvents := levels } (pruneBefore (s.height + 1)) := by
  cases step with
  | received now answer =>
    obtain ⟨-,-,t,appended,rfl⟩ := addBlockOk answer
    obtain ⟨rows,failed,levels,gathered,log⟩ := appendInnerRows appended
    exact ⟨rows,failed,levels,gathered,log⟩
  | produced address sk now later answer stored =>
    obtain ⟨-,parent,draft,t,u,-,-,-,appended,replaced,rfl⟩ := produceBlockOk answer
    obtain ⟨backend,blockByHash,rfl⟩ := replaceTipOk replaced
    cases stored
    obtain ⟨rows,failed,levels,gathered,log⟩ := appendInnerRows appended
    -- the stamped block has the transactions of the draft
    exact ⟨rows,failed,levels,⟨gathered.placed,gathered.named,gathered.failed⟩,log⟩

end Rows

section Evidence

structure Issues (s : Blockchain) (block : Block) (s' : Blockchain) (receipts : List Receipt) : Prop where
  ids : receipts.map Receipt.txId = block.transactions.map Transaction.txId
  entered : ∃ log : EventLog, s.log.Entered (s.height + 1) receipts log ∧
    s'.log = log.pruneReceipts (pruneBefore (s.height + 1))

theorem evidenceFails {s s' : Blockchain} {block : Block} (step : Accepts s block s') :
    ∃ receipts, Issues s block s' receipts ∧
      ∀ (i : Nat) (tx : Transaction), block.transactions[i]? = some tx → tx.txType = .EVIDENCE →
      ∃ receipt : Receipt, receipts[i]? = some receipt ∧ receipt.status = .failure ∧ receipt.events = [] := by
  obtain ⟨rows,failed,levels,gathered,log⟩ := acceptsRows step
  have entered := EventLog.addReceiptsEntered (receiptOf (s.height + 1) failed) ReceiptRow.events rows
    (fun _ _ => rfl) s.log
  have ids := gathered.ids
  refine ⟨rows.map (receiptOf (s.height + 1) failed),
    ⟨?_,{ enterRows (s.height + 1) failed rows s.log with blockLevelEvents := levels },entered.same rfl rfl,log⟩,
    fun i tx listed evidence => ?_⟩
  · rw [List.map_map]
    exact ids
  · have place := congrArg (fun ids : List String => ids[i]?) ids
    simp only [List.getElem?_map,listed,Option.map_some] at place
    obtain ⟨row,there,same⟩ := Option.map_eq_some_iff.mp place
    have fails : row.txId ∈ failed :=
      same ▸ (gathered.failed _).mpr ⟨tx,List.mem_of_getElem? listed,evidence,rfl⟩
    refine ⟨_,by rw [List.getElem?_map,there]; rfl,?_,?_⟩
    · simp only [receiptOf,if_pos fails]
    · simp [receiptOf,if_pos fails]

def Punished (before after : ChainState) (tx : Transaction) : Prop :=
  Roster.target tx ∉ before.staking.processedEvidence ∧ Roster.target tx ∈ after.staking.processedEvidence

structure Truthful (before after : ChainState) (tx : Transaction) (receipt : Receipt) : Prop where
  slashed : Punished before after tx → receipt.status = .success ∧ ∃ event, receipt.events = [event] ∧
    event.kind = "Slashed" ∧ ("amount",Json.int (before.staking.totalStake.get (Roster.target tx) -
      after.staking.totalStake.get (Roster.target tx))) ∈ event.fields
  void : ¬Punished before after tx → receipt.status = .failure ∧ receipt.events = []

theorem punishedIff {s before after : ChainState} {block : Block} {idx : Int} {i : Nat} {tx : Transaction}
    (turn : ChainState.Turn s block idx i tx before after) (evidence : tx.txType = .EVIDENCE) :
    Punished before after tx ↔ before.staking.evidenceHolds tx.payload = true := by
  have staking : after.staking = before.staking.processEvidenceTx tx idx := by
    have run := ChainState.applyTxStaking turn.taken
    simp only [Staking.applyTx,evidence] at run
    exact (Except.ok.inj run).symm
  unfold Punished
  rw [staking,Staking.processEvidenceTx]
  constructor
  · rintro ⟨fresh,recorded⟩
    by_contra void
    rw [if_neg void] at recorded
    exact fresh recorded
  · intro holds
    rw [if_pos holds]
    have fresh := ((Staking.evidenceConvicts ..).mp holds).2.1
    refine ⟨fresh,?_⟩
    have recorded : Roster.target tx ∈ (before.staking.slash (Roster.target tx) tx.txId idx).roster.processed := by
      rw [Staking.slashRoster]
      exact Set.mem_insert ..
    exact recorded

theorem evidenceReceipts {s s' : Blockchain} {block : Block} (step : Accepts s block s') :
    ∃ receipts, Issues s block s' receipts ∧ ∀ i tx, block.transactions[i]? = some tx → tx.txType = .EVIDENCE →
      ∃ before after receipt, ChainState.Turn s.state block (s.height + 1) i tx before after ∧
        receipts[i]? = some receipt ∧
        (Truthful before after tx receipt ↔ before.staking.evidenceHolds tx.payload = false) := by
  obtain ⟨receipts,issues,fails⟩ := evidenceFails step
  obtain ⟨c,grown⟩ := acceptsGrown step
  refine ⟨receipts,issues,fun i tx listed evidence => ?_⟩
  obtain ⟨before,after,turn⟩ := ChainState.blockTurn grown.applied listed
  obtain ⟨receipt,there,status,events⟩ := fails i tx listed evidence
  refine ⟨before,after,receipt,turn,there,?_⟩
  rw [← Bool.not_eq_true,← punishedIff turn evidence]
  constructor
  · intro truthful punished
    have success := (truthful.slashed punished).1
    rw [status] at success
    cases success
  · intro spared
    exact ⟨fun punished => absurd punished spared,fun _ => ⟨status,events⟩⟩

end Evidence

end Blockchain
end QbitNetwork

namespace QbitNetwork.Devnet
attribute [local instance] legacy
open Blockchain

def accusationHolds (reached : Except (Fault ChainState) ChainState) : Bool :=
  match reached with
  | .ok t => t.staking.evidenceHolds accusation.payload
  | .error _ => false

theorem evidenceReceiptsUntrue : ¬∀ s block s', Accepts s block s' → ∃ receipts, Issues s block s' receipts ∧
    ∀ (i : Nat) (tx : Transaction), block.transactions[i]? = some tx → tx.txType = .EVIDENCE →
      ∃ before after receipt, ChainState.Turn s.state block (s.height + 1) i tx before after ∧
        receipts[i]? = some receipt ∧ Truthful before after tx receipt := by
  intro claim
  obtain ⟨step,transactions⟩ := convicts
  obtain ⟨receipts,issues,told⟩ := claim accused convicted.tipBlock convicted step
  have evidence : accusation.txType = .EVIDENCE := by rw [accusation,Transaction.sign]
  obtain ⟨before,after,receipt,turn,there,truthful⟩ := told 0 accusation (by rw [transactions]; rfl) evidence
  have run : accusationHolds (accused.state.openBlock (accused.height + 1) >>=
        (convicted.tipBlock.transactions.zipIdx.take 0).foldlM
          (ChainState.applyTx convicted.tipBlock (accused.height + 1))) = true ∧
      ((convicted.log.receipts[accusation.txId]?).all (fun receipt => receipt.status = .failure)) = true ∧
      pruneBefore (accused.height + 1) < 0 := by decide +kernel
  obtain ⟨holds,failed,recent⟩ := run
  rw [turn.reached] at holds
  have success := (truthful.slashed ((punishedIff turn evidence).mpr holds)).1
  obtain ⟨log,entered,pruned⟩ := issues.entered
  have ids := issues.ids
  rw [transactions] at ids
  have named : receipt.txId = accusation.txId := by
    have place := congrArg (fun ids : List String => ids[0]?) ids
    simp only [List.getElem?_map,there] at place
    exact Option.some.inj place
  have held := entered.held (by rw [ids]; exact List.nodup_singleton _) receipt (List.mem_of_getElem? there)
  rw [pruned,EventLog.pruneReceiptsGet,if_neg (fun both => absurd both.1 (Int.not_le.mpr recent)),← named,held,
    Option.all_some,success] at failed
  cases failed

theorem evidenceReceiptsConvicted : ∃ receipts, Issues accused convicted.tipBlock convicted receipts ∧
    ∀ (i : Nat) (tx : Transaction), convicted.tipBlock.transactions[i]? = some tx → tx.txType = .EVIDENCE →
      ∃ before after receipt,
        ChainState.Turn accused.state convicted.tipBlock (accused.height + 1) i tx before after ∧
          receipts[i]? = some receipt ∧
          (Truthful before after tx receipt ↔ before.staking.evidenceHolds tx.payload = false) :=
  evidenceReceipts convicts.1

end QbitNetwork.Devnet
