import QbitNetwork.ReceiptRows
import QbitNetwork.StateProofs

/-! The indices over the receipts say what the receipts say, as long as no EVIDENCE comes. -/
namespace QbitNetwork

namespace EventLog

def eventCount (log : EventLog) (kind txId : String) : Nat :=
  ((log.receipts[txId]?).map (fun receipt => receipt.events.countP (·.kind = kind))).getD 0

structure Agrees (log : EventLog) : Prop where
  byType : ∀ kind txId, (log.eventsByType.get kind).count txId = log.eventCount kind txId
  known : ∀ kind, ∀ txId ∈ log.eventsByType.get kind, txId ∈ log.receipts
  byBlock : ∀ i txId, txId ∈ log.eventsByBlock.get i ↔
    ∃ receipt, log.receipts[txId]? = some receipt ∧ receipt.blockIndex = i
  once : ∀ i, (log.eventsByBlock.get i).Nodup

section Mirroring
variable [Env]

structure Mirrors (chain : List Block) (log : EventLog) : Prop where
  byType : ∀ kind txId, (log.eventsByType.get kind).count txId = log.eventCount kind txId
  byBlock : ∀ i txId, txId ∈ log.eventsByBlock.get i ↔
    ∃ receipt, log.receipts[txId]? = some receipt ∧ receipt.blockIndex = i
  once : ∀ i, (log.eventsByBlock.get i).Nodup
  placed : ∀ (txId : String) (receipt : Receipt), log.receipts[txId]? = some receipt →
    ∃ block, listAt chain receipt.blockIndex = some block ∧ txId ∈ block.transactions.map Transaction.txId
  named : ∀ (txId : String) (receipt : Receipt), log.receipts[txId]? = some receipt →
    ∀ event ∈ receipt.events, event.kind ≠ ""

theorem Mirrors.agrees {chain : List Block} {log : EventLog} (mirrors : Mirrors chain log) : Agrees log where
  byType := mirrors.byType
  known := fun kind txId listed => by
    have some := List.count_pos_iff.mpr listed
    rw [mirrors.byType,eventCount] at some
    cases found : log.receipts[txId]? with
    | none => simp [found] at some
    | some receipt => exact Std.ExtTreeMap.mem_iff_isSome_getElem?.mpr (by simp [found])
  byBlock := mirrors.byBlock
  once := mirrors.once

end Mirroring

section Entering
variable {log : EventLog}

theorem indexEventsCount (txId : String) (events : List Event) (named : ∀ event ∈ events, event.kind ≠ "")
    (log : EventLog) (kind other : String) :
    ((events.foldl (indexEvent txId) log).eventsByType.get kind).count other =
      (log.eventsByType.get kind).count other + if other = txId then events.countP (·.kind = kind) else 0 := by
  induction events generalizing log with
  | nil => simp
  | cons event rest ih =>
    have here := named event (List.mem_cons_self ..)
    rw [List.foldl_cons,ih (fun event inside => named event (List.mem_cons_of_mem _ inside)),indexEvent,if_neg here]
    dsimp only
    rw [Table.getUpdate]
    by_cases same : event.kind = kind
    · by_cases own : other = txId
      · simp [same,own,List.count_append]
        omega
      · simp [same,own,List.count_append,Ne.symm own]
    · simp [same]

theorem addReceiptTypes (log : EventLog) (receipt : Receipt) (named : ∀ event ∈ receipt.events, event.kind ≠ "")
    (kind other : String) : ((log.addReceipt receipt receipt.events).eventsByType.get kind).count other =
      (log.eventsByType.get kind).count other +
        if other = receipt.txId then receipt.events.countP (·.kind = kind) else 0 :=
  indexEventsCount receipt.txId receipt.events named
    { log with receipts := log.receipts.insert receipt.txId receipt } kind other

variable [Env] {chain : List Block}

theorem Mirrors.enter {receipt : Receipt} {block : Block} (mirrors : Mirrors chain log)
    (there : listAt chain receipt.blockIndex = some block)
    (inside : receipt.txId ∈ block.transactions.map Transaction.txId)
    (named : ∀ event ∈ receipt.events, event.kind ≠ "") (fresh : log.receipts[receipt.txId]? = none) :
    Mirrors chain (log.addReceipt receipt receipt.events) := by
  obtain ⟨receipts,blocks⟩ := addReceiptTables log receipt receipt.events
  have found : ∀ txId, (log.addReceipt receipt receipt.events).receipts[txId]? =
      if receipt.txId = txId then some receipt else log.receipts[txId]? := by
    intro txId
    rw [receipts,Std.ExtTreeMap.getElem?_insert]
    simp
  have unlisted : ∀ i, receipt.txId ∉ log.eventsByBlock.get i := by
    intro i listed
    obtain ⟨other,held,-⟩ := (mirrors.byBlock i receipt.txId).mp listed
    rw [fresh] at held
    cases held
  refine ⟨fun kind txId => ?_,fun i txId => ?_,fun i => ?_,fun txId other held => ?_,fun txId other held => ?_⟩
  · rw [addReceiptTypes log receipt named,mirrors.byType,eventCount,eventCount,found]
    by_cases same : receipt.txId = txId
    · subst same
      simp [fresh]
    · simp [same,Ne.symm same]
  · rw [blocks,Table.getUpdate,found]
    by_cases here : receipt.blockIndex = i
    · subst here
      rw [if_pos rfl,List.mem_append,List.mem_singleton,mirrors.byBlock]
      by_cases same : receipt.txId = txId
      · simp [same]
      · simp [same,Ne.symm same]
    · rw [if_neg here,mirrors.byBlock]
      by_cases same : receipt.txId = txId
      · subst same
        simp [fresh,here]
      · simp [same]
  · rw [blocks,Table.getUpdate]
    split
    · refine List.nodup_append.mpr ⟨mirrors.once _,List.nodup_singleton _,?_⟩
      intro a listed b own same
      rw [List.mem_singleton.mp own] at same
      exact unlisted _ (same ▸ listed)
    · exact mirrors.once i
  · rw [found] at held
    split at held
    · rename_i same
      cases held
      exact ⟨block,there,same ▸ inside⟩
    · exact mirrors.placed txId other held
  · rw [found] at held
    split at held
    · cases held
      exact named
    · exact mirrors.named txId other held

theorem Mirrors.onto {chain' : List Block} (mirrors : Mirrors chain log)
    (kept : ∀ (i : Int) (block : Block), listAt chain i = some block → ∃ block', listAt chain' i = some block' ∧
      block'.transactions.map Transaction.txId = block.transactions.map Transaction.txId) : Mirrors chain' log where
  byType := mirrors.byType
  byBlock := mirrors.byBlock
  once := mirrors.once
  placed := fun txId receipt held => by
    obtain ⟨block,there,inside⟩ := mirrors.placed txId receipt held
    obtain ⟨block',there',same⟩ := kept _ block there
    exact ⟨block',there',same ▸ inside⟩
  named := mirrors.named

theorem Mirrors.levels (mirrors : Mirrors chain log) (levels : Dict Int (List Event)) :
    Mirrors chain { log with blockLevelEvents := levels } :=
  ⟨mirrors.byType,mirrors.byBlock,mirrors.once,mirrors.placed,mirrors.named⟩

end Entering

section Leaving

theorem pruneReceiptsTypes (log : EventLog) (height : Int) (kind : String) :
    (log.pruneReceipts height).eventsByType.get kind = if 0 ≤ height then
      (log.eventsByType.get kind).filter (· ∉ log.eventsByBlock.get height) else log.eventsByType.get kind := by
  unfold pruneReceipts
  by_cases low : 0 ≤ height
  · rw [if_pos low,if_pos low]
    dsimp only
    rw [Table.getSetRows (fun txIds => txIds.filter (· ∉ log.eventsByBlock.get height)) _ kind _
      ((log.eventsByType.get kind).filter (· ∉ log.eventsByBlock.get height))]
    · by_cases absent : log.eventsByType.get kind = []
      · simp [Table.memItems,absent]
      · simp [Table.memItems,absent]
    · rintro ⟨other,txIds⟩ inside rfl
      rw [← (Table.memItems ..).mp inside |>.1]
  · rw [if_neg low,if_neg low]

theorem forgetReceiptTypes (log : EventLog) (txId : String)
    (named : ∀ receipt, log.receipts[txId]? = some receipt → ∀ event ∈ receipt.events, event.kind ≠ "")
    (kind other : String) : ((log.forgetReceipt txId).eventsByType.get kind).count other =
      (log.eventsByType.get kind).count other - if other = txId then log.eventCount kind txId else 0 := by
  have taken : ∀ (events : List Event) (table : Table String (List String) []), (∀ event ∈ events, event.kind ≠ "") →
      ((events.foldl (fun table event =>
          if event.kind = "" then table else table.update event.kind (·.erase txId)) table).get kind).count other =
        (table.get kind).count other - if other = txId then events.countP (·.kind = kind) else 0 := by
    intro events
    induction events with
    | nil => simp
    | cons event rest ih =>
      intro table named
      have here := named event (List.mem_cons_self ..)
      rw [List.foldl_cons,ih _ (fun event inside => named event (List.mem_cons_of_mem _ inside)),if_neg here,
        Table.getUpdate]
      by_cases same : event.kind = kind
      · by_cases own : other = txId
        · simp [same,own]
          omega
        · simp [same,own]
      · simp [same]
  unfold forgetReceipt eventCount
  split
  · rename_i none
    simp [none]
  · rename_i receipt found
    rw [taken receipt.events log.eventsByType (named receipt found),found]
    rfl

theorem forgetReceiptTables (log : EventLog) (txId : String) :
    (∀ other, (log.forgetReceipt txId).receipts[other]? = if other = txId then none else log.receipts[other]?) ∧
      (log.forgetReceipt txId).eventsByBlock = log.eventsByBlock := by
  unfold forgetReceipt
  split
  · rename_i none
    refine ⟨fun other => ?_,rfl⟩
    split
    · rename_i same
      rw [same,none]
    · rfl
  · refine ⟨fun other => ?_,rfl⟩
    rw [Std.ExtTreeMap.getElem?_erase]
    by_cases same : txId = other
    · simp [same]
    · simp [same,Ne.symm same]

theorem forgetReceipts (txIds : List String) {log : EventLog}
    (byType : ∀ kind txId, (log.eventsByType.get kind).count txId = log.eventCount kind txId)
    (named : ∀ (txId : String) (receipt : Receipt), log.receipts[txId]? = some receipt →
      ∀ event ∈ receipt.events, event.kind ≠ "") :
    (∀ kind txId, ((txIds.foldl forgetReceipt log).eventsByType.get kind).count txId =
        (txIds.foldl forgetReceipt log).eventCount kind txId) ∧
      (∀ txId, (txIds.foldl forgetReceipt log).receipts[txId]? =
        if txId ∈ txIds then none else log.receipts[txId]?) ∧
      (txIds.foldl forgetReceipt log).eventsByBlock = log.eventsByBlock := by
  induction txIds generalizing log with
  | nil => exact ⟨byType,fun txId => by simp,rfl⟩
  | cons first rest ih =>
    obtain ⟨found,blocks⟩ := forgetReceiptTables log first
    have counts : ∀ kind txId, ((log.forgetReceipt first).eventsByType.get kind).count txId =
        (log.forgetReceipt first).eventCount kind txId := by
      intro kind txId
      rw [forgetReceiptTypes log first (named first),byType,eventCount,eventCount,eventCount,found]
      by_cases same : txId = first
      · simp [same]
      · simp [same]
    obtain ⟨later,gone,same⟩ := ih counts (fun txId receipt held => by
      rw [found] at held
      split at held
      · cases held
      · exact named txId receipt held)
    rw [List.foldl_cons]
    refine ⟨later,fun txId => ?_,same.trans blocks⟩
    rw [gone,found]
    by_cases later : txId ∈ rest
    · rw [if_pos later,if_pos (List.mem_cons_of_mem _ later)]
    · by_cases here : txId = first
      · simp [here]
      · simp [here,later]

variable [Env] {log : EventLog} {chain : List Block}

theorem Mirrors.undo {block : Block} (mirrors : Mirrors (chain ++ [block]) log)
    (apart : ∀ other ∈ chain, ∀ txId ∈ other.transactions.map Transaction.txId,
      txId ∉ block.transactions.map Transaction.txId) (levels : Dict Int (List Event)) :
    Mirrors chain
      { (block.transactions.map Transaction.txId).foldl forgetReceipt log with
        eventsByBlock :=
          ((block.transactions.map Transaction.txId).foldl forgetReceipt log).eventsByBlock.set chain.length []
        blockLevelEvents := levels } := by
  obtain ⟨byType,found,blocks⟩ := forgetReceipts (block.transactions.map Transaction.txId) mirrors.byType mirrors.named
  rw [blocks]
  -- a receipt is of the undone block where its transaction is
  have placed : ∀ (txId : String) (receipt : Receipt), log.receipts[txId]? = some receipt →
      if receipt.blockIndex = chain.length then txId ∈ block.transactions.map Transaction.txId else
        txId ∉ block.transactions.map Transaction.txId ∧ ∃ other, listAt chain receipt.blockIndex = some other ∧
          txId ∈ other.transactions.map Transaction.txId := by
    intro txId receipt held
    obtain ⟨other,there,inside⟩ := mirrors.placed txId receipt held
    rw [listAtAppend] at there
    split
    · rename_i here
      rw [if_pos here] at there
      cases there
      exact inside
    · rename_i below
      rw [if_neg below] at there
      refine ⟨apart other ?_ txId inside,other,there,inside⟩
      simp only [listAt] at there
      split at there
      · exact List.mem_of_getElem? there
      · cases there
  have still : ∀ (txId : String) (receipt : Receipt),
      ((block.transactions.map Transaction.txId).foldl forgetReceipt log).receipts[txId]? = some receipt →
        log.receipts[txId]? = some receipt ∧ txId ∉ block.transactions.map Transaction.txId := by
    intro txId receipt held
    rw [found] at held
    split at held
    · cases held
    · rename_i outside
      exact ⟨held,outside⟩
  refine ⟨byType,fun i txId => ?_,fun i => ?_,fun txId receipt held => ?_,fun txId receipt held => ?_⟩
  · dsimp only
    rw [Table.getSet,found]
    by_cases here : (chain.length : Int) = i
    · rw [if_pos here]
      refine ⟨fun none => absurd none (by simp),?_⟩
      rintro ⟨receipt,held,place⟩
      split at held
      · cases held
      · rename_i outside
        have inside := placed txId receipt held
        rw [if_pos (place.trans here.symm)] at inside
        exact absurd inside outside
    · rw [if_neg here,mirrors.byBlock]
      constructor
      · rintro ⟨receipt,held,place⟩
        have outside := placed txId receipt held
        rw [if_neg (fun same => here (same.symm.trans place))] at outside
        exact ⟨receipt,by rw [if_neg outside.1]; exact held,place⟩
      · rintro ⟨receipt,held,place⟩
        split at held
        · cases held
        · exact ⟨receipt,held,place⟩
  · dsimp only
    rw [Table.getSet]
    split
    · exact List.nodup_nil
    · exact mirrors.once i
  · obtain ⟨held,outside⟩ := still txId receipt held
    have there := placed txId receipt held
    split at there
    · exact absurd there outside
    · exact there.2
  · exact mirrors.named txId receipt (still txId receipt held).1

theorem Mirrors.prune (mirrors : Mirrors chain log) (height : Int) : Mirrors chain (log.pruneReceipts height) := by
  by_cases low : 0 ≤ height
  swap
  · rw [pruneReceipts,if_neg low]
    exact mirrors
  have found : ∀ txId, (log.pruneReceipts height).receipts[txId]? =
      if txId ∈ log.eventsByBlock.get height then none else log.receipts[txId]? := by
    intro txId
    rw [pruneReceiptsGet]
    simp only [low,true_and]
  have still : ∀ (txId : String) (receipt : Receipt), (log.pruneReceipts height).receipts[txId]? = some receipt →
      log.receipts[txId]? = some receipt := by
    intro txId receipt held
    rw [found] at held
    split at held
    · cases held
    · exact held
  refine ⟨fun kind txId => ?_,fun i txId => ?_,fun i => ?_,
    fun txId receipt held => mirrors.placed txId receipt (still txId receipt held),
    fun txId receipt held => mirrors.named txId receipt (still txId receipt held)⟩
  · rw [pruneReceiptsTypes,if_pos low,eventCount,found]
    by_cases gone : txId ∈ log.eventsByBlock.get height
    · rw [if_pos gone,List.count_eq_zero_of_not_mem]
      · rfl
      · intro listed
        simpa [gone] using (List.mem_filter.mp listed).2
    · rw [if_neg gone,List.count_filter (by simpa using gone),mirrors.byType,eventCount]
  · rw [pruneReceiptsListed,found]
    by_cases here : height = i
    · subst here
      rw [if_pos ⟨low,rfl⟩]
      refine ⟨fun none => absurd none (by simp),?_⟩
      rintro ⟨receipt,held,place⟩
      split at held
      · cases held
      · rename_i kept
        exact absurd ((mirrors.byBlock height txId).mpr ⟨receipt,held,place⟩) kept
    · rw [if_neg (fun both => here both.2),mirrors.byBlock]
      split
      · rename_i gone
        obtain ⟨receipt,held,place⟩ := (mirrors.byBlock height txId).mp gone
        simp [held,place,here]
      · exact Iff.rfl
  · rw [pruneReceiptsListed]
    split
    · exact List.nodup_nil
    · exact mirrors.once i

end Leaving

end EventLog

namespace Blockchain
variable [Env]

open Chronicle (Fits Sound rows)

omit [Env] in
def Unaccusing (block : Block) : Prop := ∀ tx ∈ block.transactions, tx.txType ≠ .EVIDENCE

section Append
variable {chain : List Block} {s : Blockchain} {block : Block}

theorem fitsApart {counting : Prop} (fits : Fits counting chain block) :
    ∀ other ∈ chain, ∀ txId ∈ other.transactions.map Transaction.txId,
      txId ∉ block.transactions.map Transaction.txId := by
  intro other inside txId own here
  obtain ⟨tx,listed,rfl⟩ := List.mem_map.mp here
  obtain ⟨tx',own,same⟩ := List.mem_map.mp own
  have ids : (rows chain).map (fun row => row.1.txId) = (chain.flatMap Block.transactions).map Transaction.txId := by
    rw [← Chronicle.rowsFromTxs 0 chain,List.map_map]
    rfl
  refine fits.fresh tx listed ?_
  rw [ids,← same]
  exact List.mem_map_of_mem (List.mem_flatMap.mpr ⟨other,inside,own⟩)

theorem enterRowsKeep {idx : Int} {failed : DSet String} (place : listAt chain idx = some block)
    {rows : List ReceiptRow} {log : EventLog} (mirrors : EventLog.Mirrors chain log)
    (distinct : (rows.map ReceiptRow.txId).Nodup) (fresh : ∀ row ∈ rows, log.receipts[row.txId]? = none)
    (inside : ∀ row ∈ rows, row.txId ∈ block.transactions.map Transaction.txId)
    (named : ∀ row ∈ rows, ∀ event ∈ row.events, event.kind ≠ "") (passed : ∀ row ∈ rows, row.txId ∉ failed) :
    EventLog.Mirrors chain (enterRows idx failed rows log) := by
  induction rows generalizing log with
  | nil => exact mirrors
  | cons row rest ih =>
    obtain ⟨absent,distinct⟩ := List.nodup_cons.mp distinct
    have here := List.mem_cons_self (a := row) (l := rest)
    have events : (receiptOf idx failed row).events = row.events := by
      simp [receiptOf,passed row here]
    have entered : EventLog.Mirrors chain
        (log.addReceipt (receiptOf idx failed row) (receiptOf idx failed row).events) :=
      mirrors.enter place (inside row here) (events ▸ named row here) (fresh row here)
    rw [events] at entered
    refine ih entered distinct (fun other later => ?_) (fun other later => inside other (List.mem_cons_of_mem _ later))
      (fun other later => named other (List.mem_cons_of_mem _ later))
      (fun other later => passed other (List.mem_cons_of_mem _ later))
    rw [(EventLog.addReceiptTables ..).1,Std.ExtTreeMap.getElem?_insert]
    split
    · rename_i same
      have same : row.txId = other.txId := by simpa [receiptOf] using same
      exact absurd (same ▸ List.mem_map_of_mem later) absent
    · exact fresh other (List.mem_cons_of_mem _ later)

theorem enterRowsMirrors {counting : Prop} {rows : List ReceiptRow} {failed : DSet String} {log : EventLog}
    (mirrors : EventLog.Mirrors chain log) (fits : Fits counting chain block) (quiet : Unaccusing block)
    (gathered : Gathered block rows failed) :
    EventLog.Mirrors (chain ++ [block]) (enterRows chain.length failed rows log) := by
  have ids := gathered.ids
  have own : ∀ row ∈ rows, row.txId ∈ block.transactions.map Transaction.txId :=
    fun row inside => ids ▸ List.mem_map_of_mem inside
  have grown : EventLog.Mirrors (chain ++ [block]) log := by
    refine mirrors.onto (fun i other there => ⟨other,?_,rfl⟩)
    rw [listAtAppend,if_neg,there]
    rintro rfl
    rw [listAtNat,List.getElem?_eq_none (le_refl _)] at there
    cases there
  refine enterRowsKeep (by rw [listAtAppend,if_pos rfl]) grown (ids ▸ fits.distinct) (fun row inside => ?_) own
    gathered.named (fun row inside fails => ?_)
  · cases held : log.receipts[row.txId]? with
    | none => rfl
    | some receipt =>
      obtain ⟨other,there,listed⟩ := mirrors.placed _ _ held
      simp only [listAt] at there
      split at there
      · exact absurd (own row inside) (fitsApart fits other (List.mem_of_getElem? there) _ listed)
      · cases there
  · obtain ⟨tx,listed,evidence,-⟩ := (gathered.failed _).mp fails
    exact quiet tx listed evidence

theorem applyBlockTxLog (block : Block) (idx : Int) (p : Progress) (row : Transaction × Nat) :
    (Outcome.stateOf (applyBlockTx block idx p row)).chain.log = p.chain.log := by
  simp only [applyBlockTx]
  cases run : p.chain.state.applyTx block idx row with
  | error r => rfl
  | ok c => rfl

theorem checkReceiptsRootLog (s : Blockchain) (block : Block) (idx : Int) (receipts : List Receipt) :
    (Outcome.stateOf (s.checkReceiptsRoot block idx receipts)).log = s.log := by
  simp only [checkReceiptsRoot]
  split <;> rfl

theorem checkStateRootLog (s : Blockchain) (block : Block) (idx : Int) :
    (Outcome.stateOf (s.checkStateRoot block idx)).log = s.log := by
  simp only [checkStateRoot]
  have first : (Outcome.stateOf s.rebuildStateTrie).log = s.log := by
    rw [rebuildStateTrie,Outcome.stateOfWithin]
    rfl
  refine Outcome.stateOfBind (fun t : Blockchain => t.log = s.log) first (fun t rebuilt => ?_)
  rw [rebuilt] at first
  unfold compareStateRoot
  split <;> exact first

theorem closeBlockLeaves {p : Progress} {idx : Int} {matured : List Address} {opening : List Event}
    {r : Fault Blockchain} (run : closeBlock p block idx matured opening = .error r) : ∃ levels,
      r.state.log = { enterRows idx p.failedTxIds p.receiptData p.chain.log with blockLevelEvents := levels } := by
  have pruned : ∀ (log : EventLog) (height : Int), log.pruneBlockLevelEvents height =
      { log with blockLevelEvents := (log.pruneBlockLevelEvents height).blockLevelEvents } := by
    intro log height
    unfold EventLog.pruneBlockLevelEvents
    split <;> rfl
  simp only [closeBlock,Outcome.bindError,Outcome.withinError] at run
  rcases run with ⟨r',-,rfl⟩ | ⟨s1,paid,run⟩
  · exact ⟨(addReceipts p idx).log.blockLevelEvents,rfl⟩
  obtain ⟨c,-,rfl⟩ := (Outcome.withinOk ..).mp paid
  generalize entered : ((addReceipts p idx).withState c).setBlockLevelEvents idx
    (opening ++ rewardEvents block.validator ((addReceipts p idx).rewardOf idx)) = t at run
  have rows : ∀ height, ∃ levels, t.log.pruneBlockLevelEvents height =
      { enterRows idx p.failedTxIds p.receiptData p.chain.log with blockLevelEvents := levels } := by
    intro height
    rw [pruned,← entered]
    exact ⟨_,rfl⟩
  obtain ⟨levels,here⟩ := rows (pruneBefore idx)
  refine ⟨levels,Eq.trans ?_ here⟩
  rcases run with raised | ⟨s2,checked,raised | ⟨s3,-,settled⟩⟩
  · have same := checkReceiptsRootLog { t with log := t.log.pruneBlockLevelEvents (pruneBefore idx) } block idx
      (p.receiptData.map (receiptOf idx p.failedTxIds))
    rw [raised] at same
    exact same
  · have same := checkReceiptsRootLog { t with log := t.log.pruneBlockLevelEvents (pruneBefore idx) } block idx
      (p.receiptData.map (receiptOf idx p.failedTxIds))
    rw [checked] at same
    have later := checkStateRootLog s2 block idx
    rw [raised] at later
    exact later.trans same
  · cases settled

theorem appendInnerLeaves {r : Fault Blockchain} (run : s.appendBlockInner block = .error r) :
    r.state.log = s.log ∨ ∃ rows failed levels, Gathered block rows failed ∧
      r.state.log = { enterRows (s.height + 1) failed rows s.log with blockLevelEvents := levels } := by
  simp only [appendBlockInner,Outcome.bindError] at run
  rcases run with raised | ⟨s1,stored,run⟩
  · left
    unfold storeBlock at raised
    split at raised
    · cases raised
    · split at raised
      · cases raised
      · cases raised
        rfl
  obtain ⟨backend,rfl,-⟩ := storeBlockOk stored
  rcases run with raised | ⟨s2,opened,run⟩
  · left
    simp only [openBlock,Outcome.bindError,Outcome.withinError] at raised
    rcases raised with ⟨r',-,rfl⟩ | ⟨_,-,none⟩
    · rfl
    · cases none
  have before : s2.log = s.log := by
    have same := openBlockLog opened
    exact same
  split at run
  · rename_i r' applied
    left
    cases run
    have kept := Outcome.foldKeeps (fun p : Progress => p.chain.log)
      (applyBlockTxLog block (s.height + 1)) block.transactions.zipIdx { chain := s2 }
    rw [show block.transactions.zipIdx.foldlM _ _ = _ from applied] at kept
    exact kept.trans before
  · rename_i p applied
    obtain ⟨log,gathered⟩ := applyTxsGathered applied
    obtain ⟨levels,left⟩ := closeBlockLeaves run
    exact .inr ⟨p.receiptData,p.failedTxIds,levels,gathered,by rw [left,log,before]⟩

end Append

structure Mirrored (chain : List Block) (s : Blockchain) : Prop where
  chronicled : Chronicled False chain s
  quiet : ∀ block ∈ chain, Unaccusing block
  mirrors : EventLog.Mirrors chain s.log

section Companion
variable {chain : List Block} {s t : Blockchain} {block : Block}

theorem undoLogMirrors (mirrors : EventLog.Mirrors (chain ++ [block]) t.log) (fits : Fits False chain block) :
    EventLog.Mirrors chain (t.undoLog block).log := by
  have undone := mirrors.undo (fitsApart fits)
    ((block.transactions.foldl (fun log tx => log.forgetReceipt tx.txId) t.log).blockLevelEvents.erase block.index)
  rw [List.foldl_map,← fits.position] at undone
  exact undone

theorem Mirrored.grows (mirrored : Mirrored chain s) (fits : Fits False chain block) (quiet : Unaccusing block)
    {rows : List ReceiptRow} {failed : DSet String} (gathered : Gathered block rows failed)
    (levels : Dict Int (List Event)) : EventLog.Mirrors (chain ++ [block])
      { enterRows (s.height + 1) failed rows s.log with blockLevelEvents := levels } := by
  have entered := enterRowsMirrors mirrored.mirrors fits quiet gathered
  rw [mirrored.chronicled.height,Int.sub_add_cancel]
  exact entered.levels levels

theorem Mirrored.applies (mirrored : Mirrored chain s) (fits : Fits False chain block) (quiet : Unaccusing block)
    (run : s.appendBlockInner block = .ok t) (grown : Chronicled False (chain ++ [block]) t) :
    Mirrored (chain ++ [block]) t := by
  obtain ⟨rows,failed,levels,gathered,log⟩ := appendInnerRows run
  refine ⟨grown,fun other inside => ?_,?_⟩
  · rcases List.mem_append.mp inside with old | new
    · exact mirrored.quiet other old
    · exact List.mem_singleton.mp new ▸ quiet
  · rw [log]
    exact (mirrored.grows fits quiet gathered levels).prune _

theorem Mirrored.abandons (mirrored : Mirrored chain s) (fits : Fits False chain block) (quiet : Unaccusing block)
    {message : String} {u : Blockchain} (run : s.appendBlockInner block = .error ⟨.valueError message,t⟩)
    (undone : t.abandonBlock block = .ok u) (chronicled : Chronicled False chain u) : Mirrored chain u := by
  refine ⟨chronicled,mirrored.quiet,?_⟩
  rw [(abandonBlockErases undone).2]
  refine undoLogMirrors ?_ fits
  rcases appendInnerLeaves run with same | ⟨rows,failed,levels,gathered,log⟩
  · rw [show t.log = s.log from same]
    refine mirrored.mirrors.onto (fun i other there => ⟨other,?_,rfl⟩)
    rw [listAtAppend,if_neg,there]
    rintro rfl
    rw [listAtNat,List.getElem?_eq_none (le_refl _)] at there
    cases there
  · rw [show t.log = _ from log]
    exact mirrored.grows fits quiet gathered levels

theorem Mirrored.beside (mirrored : Mirrored chain s) (chronicled : Chronicled False chain t) (log : t.log = s.log) :
    Mirrored chain t :=
  ⟨chronicled,mirrored.quiet,log ▸ mirrored.mirrors⟩

theorem appendMirrored (mirrored : Mirrored chain s) (fits : Fits False chain block) (quiet : Unaccusing block) :
    Outcome.Ends (Mirrored (chain ++ [block])) (fun e t => e.Caught → Mirrored chain t) (s.appendBlock block) := by
  have told := appendBlockTells mirrored.chronicled fits
  generalize s.appendBlock block = outcome at told ⊢
  cases told with
  | applied run grown => exact mirrored.applies fits quiet run grown
  | refused run kept undone left => exact fun _ => mirrored.abandons fits quiet run undone left
  | broken uncaught => exact fun caught => absurd caught uncaught

theorem replaceTipMirrored {prior : List Block} {old new : Block} (mirrored : Mirrored (prior ++ [old]) s)
    (index : new.index = old.index) (transactions : new.transactions = old.transactions)
    (baseFee : new.baseFee = old.baseFee) :
    Outcome.Ends (Mirrored (prior ++ [new])) (fun e _ => ¬e.Caught) (s.replaceTip old new) := by
  have ends := replaceTipEnds mirrored.chronicled index transactions baseFee
  cases run : s.replaceTip old new with
  | error r =>
    rw [run] at ends
    exact ends
  | ok u =>
    rw [run] at ends
    refine ⟨ends,fun other inside => ?_,?_⟩
    · rcases List.mem_append.mp inside with below | tip
      · exact mirrored.quiet other (List.mem_append_left _ below)
      · have quiet := mirrored.quiet old (by simp)
        rw [List.mem_singleton.mp tip]
        unfold Unaccusing at quiet ⊢
        rwa [transactions]
    · rw [(replaceTipBeside run).2.2]
      refine mirrored.mirrors.onto (fun i other there => ?_)
      rw [listAtAppend] at there
      rw [listAtAppend]
      split at there
      · rename_i top
        cases there
        exact ⟨new,by rw [if_pos top],by rw [transactions]⟩
      · rename_i below
        exact ⟨other,by rw [if_neg below,there],rfl⟩

theorem produceMirrored (sk : Bytes) (mirrored : Mirrored chain s) (fits : Fits False chain block)
    (quiet : Unaccusing block) :
    Outcome.Ends
      (fun t => Outcome.Ends (fun u => ∃ chain, Mirrored chain u) (fun e _ => ¬e.Caught)
        (t.replaceTip block (stampedBlock block (t.lastComputedStateRoot.getD t.stateRoot.1)
          t.lastComputedReceiptsRoot sk)))
      (fun e t => e.Caught → Mirrored chain t) (s.appendBlock block) := by
  refine Outcome.endsMono (appendMirrored mirrored fits quiet) (fun t grown => ?_) (fun _ _ h => h)
  have final := replaceTipMirrored grown (stampedIndex block (t.lastComputedStateRoot.getD t.stateRoot.1)
    t.lastComputedReceiptsRoot sk) (stampedTransactions ..) (stampedBaseFee ..)
  exact Outcome.endsMono final (fun _ h => ⟨_,h⟩) (fun _ _ h => h)

omit [Env] in
theorem popLog (s : Blockchain) : s.popBlock.log = s.log := by
  unfold popBlock
  split <;> rfl

theorem rollbackBlocksMirror {base suffix : List Block} (sound : Sound False (base ++ suffix))
    (mirrors : EventLog.Mirrors (base ++ suffix) t.log) {u : Blockchain}
    (run : suffix.reverse.foldlM (fun s block => s.popBlock.rollbackBlock block) t = .ok u) :
    EventLog.Mirrors base u.log := by
  induction suffix using List.reverseRecOn generalizing t with
  | nil =>
    cases run
    rwa [List.append_nil] at mirrors
  | append_singleton rest block ih =>
    rw [List.reverse_append,List.reverse_singleton,List.singleton_append,List.foldlM_cons,Outcome.bindOk] at run
    obtain ⟨mid,first,run⟩ := run
    rw [← List.append_assoc] at sound mirrors
    obtain ⟨below,fits⟩ := Chronicle.soundAppend.mp sound
    refine ih below ?_ run
    rw [(rollbackBlockErases first).2]
    exact undoLogMirrors (by rwa [popLog]) fits

theorem rollbackMirrored (target : Int) (mirrored : Mirrored chain s) :
    Outcome.Ends (Mirrored (chain.take target.toNat)) (fun e u => e.Caught → Mirrored (chain.take target.toNat) u)
      (s.rollbackTo target) := by
  refine rollbackToFolds mirrored.chronicled ?_
  have ends := rollbackFoldEnds mirrored.chronicled target
  cases run : (chain.drop target.toNat).reverse.foldlM (fun s block => s.popBlock.rollbackBlock block)
      (s.mapStore (·.deleteBlocksFrom target)) with
  | error r =>
    rw [run] at ends
    exact ends
  | ok u =>
    rw [run] at ends
    refine ⟨ends.1.toChronicled,fun block inside => mirrored.quiet block (List.mem_of_mem_take inside),?_⟩
    have whole : chain.take target.toNat ++ chain.drop target.toNat = chain := List.take_append_drop ..
    have sound : Sound False (chain.take target.toNat ++ chain.drop target.toNat) :=
      whole.symm ▸ mirrored.chronicled.sound
    refine rollbackBlocksMirror sound ?_ run
    rw [whole]
    exact mirrored.mirrors

theorem mirroredCompany : Company False Unaccusing Unaccusing Mirrored where
  chronicled := Mirrored.chronicled
  taken := Mirrored.quiet
  beside := fun mirrored chronicled _ _ log => mirrored.beside chronicled log
  append := appendMirrored
  produce := produceMirrored
  rollback := rollbackMirrored

end Companion

/- No block that the node is given, or packs, has EVIDENCE in it; blocks from outside are tidy, and
a fork has no block of index 0 in it. -/
def Peaceful (s : Blockchain) : Call → Prop
  | .produce address sk now _ => ∀ parent, s.latestBlock = some parent →
      Unaccusing (s.draftBlock parent address sk now)
  | .receive block _ => Tidy block ∧ Unaccusing block
  | .reorg fork _ => Later fork ∧ ∀ fb ∈ fork, Unaccusing fb
  | _ => True

theorem performMirrored {chain : List Block} {s : Blockchain} (mirrored : Mirrored chain s) (c : Call)
    (peaceful : Peaceful s c) : Arrives Mirrored (s.perform c) := by
  refine performKeeps mirroredCompany mirrored c ?_ ?_ ?_ ?_
  · cases c with
    | receive block now => exact peaceful.1
    | reorg fork now => exact ⟨peaceful.1,fun count => absurd count id⟩
    | _ => trivial
  · cases c with
    | produce address sk now later => exact peaceful
    | receive block now => exact fun _ => peaceful.2
    | reorg fork now => exact fun fb inside _ => peaceful.2 fb inside
    | _ => trivial
  · intro address sk pk now _
    refine beginChainStays mirroredCompany mirrored address sk pk now (fun block kind _ tx inside evidence => ?_) ?_
    · rw [kind tx inside] at evidence
      cases evidence
    · intro old new s stored
      have first : Mirrored ([] ++ [old]) s := stored
      exact replaceTipMirrored first
  · rintro address rfl
    have ends := activateChronicled mirrored.chronicled address
    cases run : s.activateFinancialLayer address with
    | error r =>
      rw [run] at ends
      exact fun caught => absurd caught ends
    | ok t =>
      rw [run] at ends
      exact ⟨chain,mirrored.beside ends (activateLog run)⟩

theorem mirroredNew {validators : Dict Address Bytes} : Mirrored [] (new (.memory []) validators) := by
  refine ⟨chronicledNew,by simp,fun kind txId => ?_,fun i txId => ?_,fun i => ?_,fun txId receipt held => ?_,
    fun txId receipt held => ?_⟩
  · simp [new,EventLog.eventCount]
  · simp [new]
  · simp [new]
  · simp [new] at held
  · simp [new] at held

theorem eventIndexAgrees {validators : Dict Address Bytes} : ∀ s : Blockchain,
    Reached Peaceful (new (.memory []) validators) s → s.log.Agrees := by
  intro s reached
  obtain ⟨chain,mirrored⟩ := reachedInvariant (fun s => ∃ chain, Mirrored chain s) ⟨[],mirroredNew⟩
    (fun _ c ⟨_,mirrored⟩ peaceful ended => performMirrored mirrored c peaceful ended) reached
  exact mirrored.mirrors.agrees

end Blockchain

namespace Devnet
attribute [local instance] legacy
open Blockchain

theorem eventIndexDisagrees : ¬∀ s : Blockchain, Reached (fun _ _ => True) (new (.memory [])) s → s.log.Agrees := by
  intro claim
  have run : (active.submitTx 101 accusation).1.Ended ∧ (accused.produceBlock address key 102 102).1.Ended ∧
      (convicted.log.eventsByType.get "Slashed").count accusation.txId ≠
        convicted.log.eventCount "Slashed" accusation.txId := by decide +kernel
  obtain ⟨submitted,produced,apart⟩ := run
  have begun : Reached (fun _ _ => True) (new (.memory [])) active :=
    (Reached.start.initChain address key key 100 trivial genesisRuns).activate address trivial activeRuns
  have accuses : Reached (fun _ _ => True) (new (.memory [])) accused := by
    rw [accused]
    exact Reached.submit begun 101 accusation trivial submitted
  have reached : Reached (fun _ _ => True) (new (.memory [])) convicted := by
    rw [convicted]
    exact Reached.produce accuses address key 102 102 trivial produced
  exact apart ((claim convicted reached).byType "Slashed" accusation.txId)

theorem eventIndexAgreesNotarized : notarized.log.Agrees := by
  refine eventIndexAgrees notarized (notarizedReached trivial trivial trivial ?_)
  have run : notarizing.latestBlock.all (fun parent => (notarizing.draftBlock parent address key 102).transactions.all
      (fun tx => decide (tx.txType ≠ .EVIDENCE))) = true := by decide +kernel
  intro parent tip tx inside
  rw [tip,Option.all_some,List.all_eq_true] at run
  simpa using run tx inside

end Devnet

end QbitNetwork
