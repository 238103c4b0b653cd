import QbitNetwork.Commitment
import QbitNetwork.MerkleProof
import QbitNetwork.Notarizations

/-! Receipt proofs out of the receipts still held, and the headers they are to be checked
against. -/
namespace QbitNetwork

structure ReceiptProof where
  txId : String
  receipt : Receipt
  proof : List (String × Bool)
  receiptsRoot : String
  blockIndex : Int

section Model
variable [Env]

def receiptProof (receipts : List Receipt) (txIndex : Int) : List (Bytes × Bool) :=
  if receipts.isEmpty ∨ txIndex < 0 ∨ receipts.length ≤ txIndex then []
  else merkleProof (receipts.map Receipt.receiptHash) txIndex.toNat

/- `verify_receipt_proof`, with no answer where the texts are no hexadecimal. -/
def verifyReceiptProof (receiptHash : String) (proof : List (Bytes × Bool)) (root : String) : Option Bool := do
  let leaf ← fromHex receiptHash
  let root ← fromHex root
  some (verifyMerkleProof leaf proof root)

def Blockchain.getReceiptProof (s : Blockchain) (txId : String) : Option ReceiptProof := do
  let receipt ← s.log.receipts[txId]?
  let block ← s.getBlockByIndex receipt.blockIndex
  let blockReceipts := block.transactions.filterMap (fun tx => s.log.receipts[tx.txId]?)
  some
    { txId
      receipt
      proof := hexPath (receiptProof blockReceipts receipt.txIndex)
      receiptsRoot := block.receiptsRoot
      blockIndex := receipt.blockIndex }

def ReceiptProof.checks (p : ReceiptProof) (root : String) : Bool :=
  match readPath p.proof with
  | some path => verifyReceiptProof (hex p.receipt.receiptHash) path root = some true
  | none => false

theorem receiptProofVerifies {receipts : List Receipt} {j : Nat} {receipt : Receipt}
    (found : receipts[j]? = some receipt) :
    verifyReceiptProof (hex receipt.receiptHash) (receiptProof receipts j) (receiptsRoot receipts) = some true := by
  have inside := (List.getElem?_eq_some_iff.mp found).1
  have present : receipts.isEmpty = false := by
    cases receipts with
    | nil => simp at found
    | cons _ _ => rfl
  have leaf : (receipts.map Receipt.receiptHash)[j]? = some receipt.receiptHash := by
    rw [List.getElem?_map,found]
    rfl
  rw [receiptProof,if_neg (by simp [present]; omega),receiptsRoot,if_neg (by simp [present])]
  simp only [verifyReceiptProof,Json.fromHexHex,Int.toNat_natCast,Option.bind_eq_bind,Option.bind_some,
    merkleProofVerifies leaf]

end Model

namespace EventLog

section Tables
variable {log : EventLog}

theorem indexEventsTables (txId : String) (events : List Event) (log : EventLog) :
    (events.foldl (indexEvent txId) log).receipts = log.receipts ∧
      (events.foldl (indexEvent txId) log).eventsByBlock = log.eventsByBlock := by
  induction events generalizing log with
  | nil => exact ⟨rfl,rfl⟩
  | cons event rest ih =>
    rw [List.foldl_cons]
    refine ⟨(ih _).1.trans ?_,(ih _).2.trans ?_⟩ <;> unfold indexEvent <;> split <;> rfl

theorem addReceiptTables (log : EventLog) (receipt : Receipt) (events : List Event) :
    (log.addReceipt receipt events).receipts = log.receipts.insert receipt.txId receipt ∧
      (log.addReceipt receipt events).eventsByBlock =
        log.eventsByBlock.update receipt.blockIndex (· ++ [receipt.txId]) := by
  obtain ⟨receipts,blocks⟩ := indexEventsTables receipt.txId events
    { log with receipts := log.receipts.insert receipt.txId receipt }
  refine ⟨receipts,?_⟩
  simp only [addReceipt]
  rw [blocks]

structure Entered (log : EventLog) (idx : Int) (receipts : List Receipt) (log' : EventLog) : Prop where
  held : (receipts.map Receipt.txId).Nodup → ∀ receipt ∈ receipts, log'.receipts[receipt.txId]? = some receipt
  others : ∀ txId ∉ receipts.map Receipt.txId, log'.receipts[txId]? = log.receipts[txId]?
  listed : log'.eventsByBlock.get idx = log.eventsByBlock.get idx ++ receipts.map Receipt.txId
  beside : ∀ i, i ≠ idx → log'.eventsByBlock.get i = log.eventsByBlock.get i

theorem Entered.same {log' log'' : EventLog} {idx : Int} {receipts : List Receipt}
    (entered : Entered log idx receipts log') (held : log''.receipts = log'.receipts)
    (listed : log''.eventsByBlock = log'.eventsByBlock) : Entered log idx receipts log'' where
  held := held ▸ entered.held
  others := held ▸ entered.others
  listed := listed ▸ entered.listed
  beside := listed ▸ entered.beside

theorem addReceiptsEntered {α : Type} (receiptOf : α → Receipt) (eventsOf : α → List Event) {idx : Int}
    (rows : List α) (place : ∀ row ∈ rows, (receiptOf row).blockIndex = idx) (log : EventLog) :
    Entered log idx (rows.map receiptOf)
      (rows.foldl (fun log row => log.addReceipt (receiptOf row) (eventsOf row)) log) := by
  induction rows generalizing log with
  | nil => exact ⟨by simp,fun _ _ => rfl,by simp,fun _ _ => rfl⟩
  | cons row rest ih =>
    have later := ih (fun other inside => place other (List.mem_cons_of_mem _ inside))
      (log.addReceipt (receiptOf row) (eventsOf row))
    obtain ⟨receipts,blocks⟩ := addReceiptTables log (receiptOf row) (eventsOf row)
    have here := place row (List.mem_cons_self ..)
    rw [List.foldl_cons,List.map_cons]
    refine ⟨fun distinct receipt inside => ?_,fun txId outside => ?_,?_,fun i other => ?_⟩
    · obtain ⟨absent,distinct⟩ := List.nodup_cons.mp distinct
      rcases List.mem_cons.mp inside with rfl | inside
      · rw [later.others _ absent,receipts,Std.ExtTreeMap.getElem?_insert_self]
      · exact later.held distinct receipt inside
    · rw [List.map_cons,List.mem_cons,not_or] at outside
      rw [later.others txId outside.2,receipts,Std.ExtTreeMap.getElem?_insert,
        if_neg (by simpa using Ne.symm outside.1)]
    · rw [later.listed,blocks,Table.getUpdate,if_pos here,here,List.map_cons,List.append_assoc,List.singleton_append]
    · rw [later.beside i other,blocks,Table.getUpdate,if_neg (by rw [here]; exact Ne.symm other)]

theorem eraseAllGet (txIds : List String) (receipts : Dict String Receipt) (txId : String) :
    (txIds.foldl (fun receipts txId => receipts.erase txId) receipts)[txId]? =
      if txId ∈ txIds then none else receipts[txId]? := by
  induction txIds generalizing receipts with
  | nil => simp
  | cons first rest ih =>
    rw [List.foldl_cons,ih,Std.ExtTreeMap.getElem?_erase]
    by_cases later : txId ∈ rest
    · rw [if_pos later,if_pos (List.mem_cons_of_mem _ later)]
    · by_cases here : first = txId
      · simp [here]
      · simp [here,later,Ne.symm here]

theorem pruneReceiptsGet (log : EventLog) (height : Int) (txId : String) :
    (log.pruneReceipts height).receipts[txId]? =
      if 0 ≤ height ∧ txId ∈ log.eventsByBlock.get height then none else log.receipts[txId]? := by
  unfold pruneReceipts
  by_cases low : 0 ≤ height
  · rw [if_pos low]
    dsimp only
    rw [eraseAllGet]
    simp [low]
  · rw [if_neg low,if_neg (fun both => low both.1)]

theorem pruneReceiptsListed (log : EventLog) (height i : Int) :
    (log.pruneReceipts height).eventsByBlock.get i =
      if 0 ≤ height ∧ height = i then [] else log.eventsByBlock.get i := by
  unfold pruneReceipts
  by_cases low : 0 ≤ height
  · rw [if_pos low]
    dsimp only
    rw [Table.getSet]
    simp [low]
  · rw [if_neg low,if_neg (fun both => low both.1)]

end Tables

end EventLog

namespace Blockchain
variable [Env]

section Log

theorem applyRowsGathered {block : Block} {idx : Int} {rows : List (Transaction × Nat)} {p p' : Progress}
    (run : rows.foldlM (applyBlockTx block idx) p = .ok p') :
    p'.chain.log = p.chain.log ∧ p'.receiptData.map (fun row => (row.txId,row.txIndex)) =
      p.receiptData.map (fun row => (row.txId,row.txIndex)) ++ rows.map (fun row => (row.1.txId,(row.2 : Int))) := by
  induction rows generalizing p with
  | nil =>
    cases run
    exact ⟨rfl,by simp⟩
  | cons row rest ih =>
    rw [List.foldlM_cons,Outcome.bindOk] at run
    obtain ⟨mid,first,run⟩ := run
    obtain ⟨log,later⟩ := ih run
    simp only [applyBlockTx,Outcome.bindOk,Outcome.withinOk] at first
    obtain ⟨_,⟨_,⟨state,applied,rfl⟩,rfl⟩,first⟩ := first
    cases first
    exact ⟨log,by rw [later,List.map_append,List.append_assoc]; rfl⟩

omit [Env] in
theorem openBlockLog {s s' : Blockchain} {idx : Int} (run : s.openBlock idx = .ok s') : s'.log = s.log := by
  simp only [openBlock,Outcome.bindOk,Outcome.withinOk] at run
  obtain ⟨_,⟨state,opened,rfl⟩,run⟩ := run
  cases run
  split <;> rfl

theorem settleLog (s : Blockchain) (block : Block) (idx : Int) (matured : List Address)
    (receipts : List Receipt) (events : List Event) :
    (s.settleBlock block idx matured receipts events).log = s.log.pruneReceipts (pruneBefore idx) := by
  simp only [settleBlock]
  obtain ⟨final,finality,-⟩ := updateFinalityOk ((((s.saveSnapshot idx).pruneCaches
    idx).persistBalancesAfterBlock block idx matured).persistReceipts idx receipts events) idx
  rw [finality]
  have pruned : ((s.saveSnapshot idx).pruneCaches idx).log = s.log.pruneReceipts (pruneBefore idx) := by
    simp only [pruneCaches]
    obtain ⟨index,pruned,-⟩ := pruneTxIndexOk
      { s.saveSnapshot idx with log := (s.saveSnapshot idx).log.pruneReceipts (pruneBefore idx) } idx
    rw [pruned]
    rfl
  rw [← pruned]
  simp only [persistBalancesAfterBlock]
  split <;> rfl

structure Logs (s : Blockchain) (block : Block) (s' : Blockchain) (receipts : List Receipt) : Prop where
  ids : receipts.map Receipt.txId = block.transactions.map Transaction.txId
  placed : ∀ (j : Nat) (receipt : Receipt), receipts[j]? = some receipt →
    receipt.blockIndex = s.height + 1 ∧ receipt.txIndex = j
  computed : s'.lastComputedReceiptsRoot = receiptsRoot receipts
  claimed : block.receiptsRoot ≠ "" → block.receiptsRoot = receiptsRoot receipts
  entered : ∃ log : EventLog,
    s.log.Entered (s.height + 1) receipts log ∧ s'.log = log.pruneReceipts (pruneBefore (s.height + 1))

theorem appendInnerLogs {s s' : Blockchain} {block : Block} (run : s.appendBlockInner block = .ok s') :
    ∃ receipts, Logs s block s' receipts := by
  simp only [appendBlockInner,Outcome.bindOk] at run
  obtain ⟨s1,stored,s2,opened,run⟩ := run
  obtain ⟨backend,rfl,-⟩ := storeBlockOk stored
  split at run
  · contradiction
  · rename_i p applied
    simp only [closeBlock,Outcome.bindOk,Outcome.withinOk] at run
    obtain ⟨_,⟨c,paid,rfl⟩,s4,checked,s5,rooted,run⟩ := run
    obtain ⟨log,rows⟩ := applyRowsGathered applied
    generalize gathered : p.receiptData.map (receiptOf (s.height + 1) p.failedTxIds) = receipts at checked run
    have pairs : receipts.map (fun receipt => (receipt.txId,receipt.txIndex)) =
        block.transactions.zipIdx.map (fun row => (row.1.txId,(row.2 : Int))) := by
      rw [← gathered,List.map_map]
      exact rows
    have ids : receipts.map Receipt.txId = block.transactions.map Transaction.txId := by
      have firsts := congrArg (List.map Prod.fst) pairs
      rw [List.map_map,List.map_map] at firsts
      refine Eq.trans firsts ?_
      rw [← List.zipIdx_map_fst 0 block.transactions,List.map_map]
      simp
    have kept : s5.lastComputedReceiptsRoot = s4.lastComputedReceiptsRoot ∧ s5.log = s4.log := by
      simp only [checkStateRoot,Outcome.bindOk] at rooted
      obtain ⟨t,rebuilt,rooted⟩ := rooted
      obtain ⟨trie,-,rfl⟩ := rebuildStateTrieOk rebuilt
      simp only [compareStateRoot] at rooted
      split at rooted
      · contradiction
      · cases rooted
        exact ⟨rfl,rfl⟩
    have final := Except.ok.inj run
    simp only [checkReceiptsRoot] at checked
    split at checked
    · contradiction
    · rename_i agrees
      cases checked
      refine ⟨receipts,ids,fun j receipt found => ?_,?_,fun claims => ?_,?_⟩
      · refine ⟨?_,?_⟩
        · obtain ⟨row,-,rfl⟩ := List.mem_map.mp (gathered ▸ List.mem_of_getElem? found)
          rfl
        · have place := congrArg (fun rows : List (String × Int) => rows[j]?) pairs
          simp only [List.getElem?_map,found,Option.map_some,List.getElem?_zipIdx,Option.map_map] at place
          obtain ⟨tx,-,same⟩ := Option.map_eq_some_iff.mp place.symm
          have second := congrArg Prod.snd same
          simpa using second.symm
      · rw [← final,(settleRoot ..).2.1,kept.1]
      · exact by_contra (fun other => agrees ⟨claims,other⟩)
      · have entered := EventLog.addReceiptsEntered (receiptOf (s.height + 1) p.failedTxIds) ReceiptRow.events
          p.receiptData (fun _ _ => rfl) s.log
        rw [gathered] at entered
        have before : p.chain.log = s.log := by
          have same := openBlockLog opened
          exact log.trans same
        rw [← before] at entered
        refine ⟨_,?_,by rw [← final,settleLog,kept.2]⟩
        rw [← before]
        refine entered.same ?_ ?_
        · dsimp only [EventLog.pruneBlockLevelEvents]
          split <;> rfl
        · dsimp only [EventLog.pruneBlockLevelEvents]
          split <;> rfl

end Log

structure Logged (log : EventLog) (i : Int) (block : Block) : Prop where
  listed : log.eventsByBlock.get i = block.transactions.map Transaction.txId
  receipts : ∃ receipts : List Receipt, receipts.map Receipt.txId = block.transactions.map Transaction.txId ∧
    (∀ (j : Nat) (receipt : Receipt), receipts[j]? = some receipt →
      log.receipts[receipt.txId]? = some receipt ∧ receipt.blockIndex = i ∧ receipt.txIndex = j) ∧
    (block.receiptsRoot ≠ "" → block.receiptsRoot = receiptsRoot receipts)

omit [Env] in
structure Dropped (log : EventLog) (i : Int) (block : Block) : Prop where
  listed : log.eventsByBlock.get i = []
  gone : ∀ tx ∈ block.transactions, log.receipts[tx.txId]? = none

structure Receipted (chain : List Block) (log : EventLog) : Prop where
  blocks : ∀ (i : Nat) (block : Block), chain[i]? = some block → 0 < i → Logged log i block ∨ Dropped log i block
  first : ∀ block, chain[0]? = some block → ∀ txId ∈ log.eventsByBlock.get 0,
    txId ∈ block.transactions.map Transaction.txId
  beyond : ∀ i : Int, chain.length ≤ i → log.eventsByBlock.get i = []

def Apart (chain : List Block) : Prop :=
  chain.Pairwise (fun a b => ∀ tx ∈ a.transactions, ∀ other ∈ b.transactions, tx.txId ≠ other.txId)

section Keeping
variable {chain : List Block} {log log' : EventLog}

theorem apartIds (apart : Apart chain) {i j : Nat} {a b : Block} (other : i ≠ j) (left : chain[i]? = some a)
    (right : chain[j]? = some b) {txId : String} (inLeft : txId ∈ a.transactions.map Transaction.txId) :
    txId ∉ b.transactions.map Transaction.txId := by
  intro inRight
  obtain ⟨tx,own,rfl⟩ := List.mem_map.mp inLeft
  obtain ⟨tx',own',same⟩ := List.mem_map.mp inRight
  obtain ⟨hi,rfl⟩ := List.getElem?_eq_some_iff.mp left
  obtain ⟨hj,rfl⟩ := List.getElem?_eq_some_iff.mp right
  rcases Nat.lt_or_gt_of_ne other with less | more
  · exact List.pairwise_iff_getElem.mp apart i j hi hj less tx own tx' own' same.symm
  · exact List.pairwise_iff_getElem.mp apart j i hj hi more tx' own' tx own same

theorem Logged.beside {i : Int} {block : Block} (logged : Logged log i block)
    (listed : log'.eventsByBlock.get i = log.eventsByBlock.get i)
    (held : ∀ txId ∈ block.transactions.map Transaction.txId, log'.receipts[txId]? = log.receipts[txId]?) :
    Logged log' i block := by
  obtain ⟨receipts,ids,placed,root⟩ := logged.receipts
  refine ⟨listed.trans logged.listed,receipts,ids,fun j receipt found => ?_,root⟩
  obtain ⟨there,place⟩ := placed j receipt found
  refine ⟨(held _ ?_).trans there,place⟩
  rw [← ids]
  exact List.mem_map_of_mem (List.mem_of_getElem? found)

theorem Dropped.beside {i : Int} {block : Block} (dropped : Dropped log i block)
    (listed : log'.eventsByBlock.get i = log.eventsByBlock.get i)
    (held : ∀ txId ∈ block.transactions.map Transaction.txId, log'.receipts[txId]? = log.receipts[txId]?) :
    Dropped log' i block :=
  ⟨listed.trans dropped.listed,fun tx inside =>
    (held _ (List.mem_map_of_mem inside)).trans (dropped.gone tx inside)⟩

theorem receiptedEnter {block : Block} {receipts : List Receipt} (receipted : Receipted chain log)
    (apart : Apart (chain ++ [block])) (distinct : chain ≠ [] → (block.transactions.map Transaction.txId).Nodup)
    (ids : receipts.map Receipt.txId = block.transactions.map Transaction.txId)
    (placed : ∀ (j : Nat) (receipt : Receipt), receipts[j]? = some receipt →
      receipt.blockIndex = chain.length ∧ receipt.txIndex = j)
    (root : block.receiptsRoot ≠ "" → block.receiptsRoot = receiptsRoot receipts)
    (entered : log.Entered chain.length receipts log') : Receipted (chain ++ [block]) log' := by
  have last : (chain ++ [block])[chain.length]? = some block := List.getElem?_concat_length
  have listed : log'.eventsByBlock.get chain.length = block.transactions.map Transaction.txId := by
    rw [entered.listed,receipted.beyond _ (le_refl _),List.nil_append,ids]
  have older : ∀ (i : Nat) (other : Block), chain[i]? = some other →
      ∀ txId ∈ other.transactions.map Transaction.txId, log'.receipts[txId]? = log.receipts[txId]? := by
    intro i other found txId inside
    refine entered.others txId ?_
    rw [ids]
    have below := (List.getElem?_eq_some_iff.mp found).1
    refine apartIds apart (Nat.ne_of_lt below) ?_ last inside
    rw [List.getElem?_append_left below,found]
  refine ⟨fun i other found later => ?_,fun other found => ?_,fun i above => ?_⟩
  · rcases Nat.lt_or_ge i chain.length with below | above
    · rw [List.getElem?_append_left below] at found
      have beside := entered.beside i (by omega)
      exact (receipted.blocks i other found later).imp (·.beside beside (older i other found))
        (·.beside beside (older i other found))
    · have size := (List.getElem?_eq_some_iff.mp found).1
      rw [List.length_append,List.length_singleton] at size
      obtain rfl : i = chain.length := by omega
      cases last.symm.trans found
      have started : chain ≠ [] := List.length_pos_iff.mp later
      refine .inl ⟨listed,receipts,ids,fun j receipt there => ⟨?_,placed j receipt there⟩,root⟩
      exact entered.held (ids ▸ distinct started) receipt (List.mem_of_getElem? there)
  · by_cases first : chain = []
    · subst first
      cases last.symm.trans found
      intro txId inside
      exact (show log'.eventsByBlock.get 0 = _ from listed) ▸ inside
    · have below := List.length_pos_iff.mpr first
      rw [List.getElem?_append_left below] at found
      have beside := entered.beside 0 (by omega)
      rw [beside]
      exact receipted.first other found
  · rw [List.length_append,List.length_singleton] at above
    rw [entered.beside i (by omega)]
    exact receipted.beyond i (by omega)

theorem listedHere (receipted : Receipted chain log) {height : Int} (low : 0 ≤ height) {txId : String}
    (inside : txId ∈ log.eventsByBlock.get height) :
    ∃ block, chain[height.toNat]? = some block ∧ txId ∈ block.transactions.map Transaction.txId := by
  rcases Int.lt_or_le height chain.length with below | above
  · have short : height.toNat < chain.length := by omega
    obtain ⟨block,found⟩ : ∃ block, chain[height.toNat]? = some block := ⟨_,List.getElem?_eq_getElem short⟩
    refine ⟨block,found,?_⟩
    by_cases later : 0 < height.toNat
    · have place : ((height.toNat : Nat) : Int) = height := Int.toNat_of_nonneg low
      rcases receipted.blocks _ _ found later with logged | dropped
      · rw [← logged.listed,place]
        exact inside
      · rw [← place,dropped.listed] at inside
        cases inside
    · have start : height.toNat = 0 := by omega
      obtain rfl : height = 0 := by omega
      exact receipted.first _ found txId inside
  · rw [receipted.beyond height above] at inside
    cases inside

theorem receiptedPrune (receipted : Receipted chain log) (apart : Apart chain) (height : Int) :
    Receipted chain (log.pruneReceipts height) := by
  have shorter : ∀ i, ∀ txId ∈ (log.pruneReceipts height).eventsByBlock.get i, txId ∈ log.eventsByBlock.get i := by
    intro i txId inside
    rw [EventLog.pruneReceiptsListed] at inside
    split at inside
    · cases inside
    · exact inside
  refine ⟨fun i block found later => ?_,fun block found txId inside => ?_,fun i above => ?_⟩
  · by_cases here : height = i
    · subst here
      have pruned : (log.pruneReceipts i).eventsByBlock.get i = [] := by
        rw [EventLog.pruneReceiptsListed,if_pos ⟨by omega,rfl⟩]
      refine .inr ⟨pruned,fun tx inside => ?_⟩
      rw [EventLog.pruneReceiptsGet]
      split
      · rfl
      · rename_i kept
        rcases receipted.blocks i block found later with logged | dropped
        · refine absurd ⟨by omega,?_⟩ kept
          rw [logged.listed]
          exact List.mem_map_of_mem inside
        · exact dropped.gone tx inside
    · have beside : (log.pruneReceipts height).eventsByBlock.get i = log.eventsByBlock.get i := by
        rw [EventLog.pruneReceiptsListed,if_neg (fun both => here both.2)]
      have held : ∀ txId ∈ block.transactions.map Transaction.txId,
          (log.pruneReceipts height).receipts[txId]? = log.receipts[txId]? := by
        intro txId own
        rw [EventLog.pruneReceiptsGet,if_neg]
        rintro ⟨low,listed⟩
        obtain ⟨other,there,inside⟩ := listedHere receipted low listed
        exact apartIds apart (by omega) found there own inside
      exact (receipted.blocks i block found later).imp (·.beside beside held) (·.beside beside held)
  · exact receipted.first block found txId (shorter 0 txId inside)
  · rw [EventLog.pruneReceiptsListed]
    split
    · rfl
    · exact receipted.beyond i above

end Keeping

section Runs

theorem receiptedAppend {chain : List Block} {s t : Blockchain} {block stored : Block}
    (receipted : Receipted chain s.log) (height : s.height + 1 = chain.length)
    (run : s.appendBlockInner block = .ok t) (same : stored.transactions = block.transactions)
    (root : stored.receiptsRoot = block.receiptsRoot ∨ stored.receiptsRoot = t.lastComputedReceiptsRoot)
    {c : ChainState} (notarized : Notarized (chain ++ [stored]) c.index) : Receipted (chain ++ [stored]) t.log := by
  obtain ⟨receipts,logs⟩ := appendInnerLogs run
  obtain ⟨log,entered,pruned⟩ := logs.entered
  have placed := logs.placed
  rw [height] at entered placed
  rw [pruned]
  refine receiptedPrune (receiptedEnter receipted notarized.apart (fun started => ?_) ?_ placed (fun given => ?_) entered)
    notarized.apart _
  · exact notarized.distinct chain.length stored List.getElem?_concat_length (List.length_pos_iff.mpr started)
  · rw [same]
    exact logs.ids
  · rcases root with claimed | stamped
    · rw [claimed] at given ⊢
      exact logs.claimed given
    · exact stamped.trans logs.computed

omit [Env] in
theorem activateLog {s s' : Blockchain} {address : Address} (run : s.activateFinancialLayer address = .ok s') :
    s'.log = s.log := by
  unfold activateFinancialLayer at run
  split at run
  · cases run
    rfl
  · dsimp only at run
    split at run
    · simp only [allocateGenesis,Outcome.bindOk,Outcome.withinOk] at run
      obtain ⟨_,⟨_,⟨ledger,paid,rfl⟩,run'⟩,t,rebuilt,run⟩ := run
      cases run'
      obtain ⟨trie,built,rfl⟩ := rebuildStateTrieOk rebuilt
      cases run
      split <;> rfl
    · simp only [Outcome.bindOk] at run
      obtain ⟨_,same,t,rebuilt,run⟩ := run
      cases same
      obtain ⟨trie,built,rfl⟩ := rebuildStateTrieOk rebuilt
      cases run
      split <;> rfl

theorem builtReceipted {s : Blockchain} (built : Built s) :
    ∃ chain, History (fun _ _ => True) chain s ∧ Receipted chain s.log := by
  have empty : Receipted [] {} :=
    ⟨fun i block found => by simp at found,fun block found => by simp at found,fun i _ => Table.getEmpty i⟩
  induction built with
  | memory => exact ⟨[],.memory,empty⟩
  | sqlite => exact ⟨[],.sqlite,empty⟩
  | @initChain s s' address sk pk now prior run ih =>
    obtain ⟨chain,history,receipted⟩ := ih
    have held := (historyLaw notarizedLaw history).2
    by_cases fresh : s.height < 0
    · have none : chain = [] := by
        have height := held.height
        exact List.eq_nil_of_length_eq_zero (by omega)
      subst none
      obtain ⟨_,genesis,t,staked,_,_,stamped,-,-,appended,same,marked,shape⟩ := initChainOk fresh run
      have tip : s'.latestBlock = some stamped := by rw [shape]
      have next := History.initChain address sk pk now history run tip
      have rooted : staked.lastComputedReceiptsRoot = t.lastComputedReceiptsRoot ∧ staked.log = t.log := by
        rw [same]
        split <;> exact ⟨rfl,rfl⟩
      have grown := receiptedAppend receipted (by rw [held.height]; rfl) appended
        (show stamped.transactions = genesis.transactions by rw [marked]; rfl)
        (.inr (by rw [marked,← rooted.1]; rfl)) (historyLaw notarizedLaw next).1
      refine ⟨[stamped],next,?_⟩
      rw [shape]
      exact rooted.2.symm ▸ grown
    · unfold initChain at run
      rw [if_pos (by omega)] at run
      cases run
      exact ⟨chain,history,receipted⟩
  | activate address prior run ih =>
    obtain ⟨chain,history,receipted⟩ := ih
    exact ⟨chain,.activate address history run,activateLog run ▸ receipted⟩
  | @submit s now tx prior ih =>
    obtain ⟨chain,history,receipted⟩ := ih
    have same : (s.submitTx now tx).2.log = s.log := by
      unfold submitTx
      split <;> rfl
    exact ⟨chain,.submit now tx history,same ▸ receipted⟩
  | @accept s s' block prior step ih =>
    obtain ⟨chain,history,receipted⟩ := ih
    have held := (historyLaw notarizedLaw history).2
    have height : s.height + 1 = chain.length := by
      rw [held.height]
      omega
    have next := History.accept block history step trivial
    have notarized := (historyLaw notarizedLaw next).1
    refine ⟨chain ++ [block],next,?_⟩
    cases step with
    | received now answer =>
      obtain ⟨-,-,t,appended,rfl⟩ := addBlockOk answer
      have grown := receiptedAppend receipted height appended (show block.transactions = _ from rfl) (.inl rfl) notarized
      exact grown
    | produced address sk now later answer stored =>
      obtain ⟨-,parent,draft,t,u,-,-,-,appended,replaced,rfl⟩ := produceBlockOk answer
      obtain ⟨backend,blockByHash,rfl⟩ := replaceTipOk replaced
      cases stored
      have grown := receiptedAppend receipted height appended (show (stampedBlock draft (t.lastComputedStateRoot.getD t.stateRoot.1)
        t.lastComputedReceiptsRoot sk).transactions = draft.transactions from rfl) (.inr rfl) notarized
      exact grown

theorem loggedProof {s : Blockchain} {i : Int} {block : Block} (logged : Logged s.log i block)
    (here : s.getBlockByIndex i = some block) (rooted : block.receiptsRoot ≠ "") {tx : Transaction}
    (inside : tx ∈ block.transactions) : ∃ proof, s.getReceiptProof tx.txId = some proof ∧ proof.blockIndex = i ∧
      proof.checks block.receiptsRoot = true := by
  obtain ⟨receipts,ids,placed,root⟩ := logged.receipts
  have found : ∃ j : Nat, ∃ receipt, receipts[j]? = some receipt ∧ receipt.txId = tx.txId := by
    have listed : tx.txId ∈ receipts.map Receipt.txId := ids ▸ List.mem_map_of_mem inside
    obtain ⟨receipt,own,same⟩ := List.mem_map.mp listed
    obtain ⟨j,there⟩ := List.mem_iff_getElem?.mp own
    exact ⟨j,receipt,there,same⟩
  obtain ⟨j,receipt,there,same⟩ := found
  obtain ⟨held,place,position⟩ := placed j receipt there
  have gathered : block.transactions.filterMap (fun tx => s.log.receipts[tx.txId]?) = receipts := by
    have own : ∀ receipt ∈ receipts, s.log.receipts[receipt.txId]? = some receipt := by
      intro receipt inside
      obtain ⟨j,there⟩ := List.mem_iff_getElem?.mp inside
      exact (placed j receipt there).1
    calc block.transactions.filterMap (fun tx => s.log.receipts[tx.txId]?)
      _ = (block.transactions.map Transaction.txId).filterMap (fun txId => s.log.receipts[txId]?) :=
        (List.filterMap_map ..).symm
      _ = receipts.filterMap (fun receipt => s.log.receipts[receipt.txId]?) := by
        rw [← ids,List.filterMap_map]
        rfl
      _ = receipts.filterMap some := List.filterMap_congr own
      _ = receipts := List.filterMap_some
  have given : s.getReceiptProof tx.txId = some
      { txId := tx.txId
        receipt
        proof := hexPath (receiptProof receipts j)
        receiptsRoot := block.receiptsRoot
        blockIndex := i } := by
    rw [same] at held
    simp only [getReceiptProof,held,Option.bind_eq_bind,Option.bind_some,place,here,gathered,position]
  refine ⟨_,given,rfl,?_⟩
  simp only [ReceiptProof.checks,readHexPath]
  rw [root rooted,receiptProofVerifies there]
  rfl

theorem receiptProofsCheck :
    (∀ s : Blockchain, Built s → ∀ (i : Int) (block : Block), 0 < i → s.getBlockByIndex i = some block →
      block.receiptsRoot ≠ "" → ∀ tx ∈ block.transactions, tx.txId ∈ s.log.receipts →
        ∃ proof, s.getReceiptProof tx.txId = some proof ∧ proof.blockIndex = i ∧
          proof.checks block.receiptsRoot = true) ∧
    ∀ (s s' : Blockchain) (address : Address) (sk : Bytes) (now later : Int) (block : Block),
      s.produceBlock address sk now later = (.accepted,s') → s'.latestBlock = some block →
        block.receiptsRoot ≠ "" := by
  refine ⟨fun s built i block later here rooted tx inside kept => ?_,?_⟩
  · obtain ⟨chain,history,receipted⟩ := builtReceipted built
    have held := (historyLaw notarizedLaw history).2
    have found := here
    rw [getBlockByIndex,Backend.getBlockHolds held.holds,listAt,if_pos (by omega)] at found
    have place : ((i.toNat : Nat) : Int) = i := Int.toNat_of_nonneg (by omega)
    rcases receipted.blocks i.toNat block found (by omega) with logged | dropped
    · rw [place] at logged
      exact loggedProof logged here rooted inside
    · have gone := dropped.gone tx inside
      exact absurd kept ((Dict.absentIff ..).mp gone)
  · intro s s' address sk now later block answer stored none
    obtain ⟨-,parent,draft,t,u,-,-,-,appended,replaced,rfl⟩ := produceBlockOk answer
    obtain ⟨backend,blockByHash,rfl⟩ := replaceTipOk replaced
    cases stored
    obtain ⟨receipts,logs⟩ := appendInnerLogs appended
    have empty : receiptsRoot receipts = "" := logs.computed.symm.trans none
    unfold receiptsRoot at empty
    split at empty
    · contradiction
    · rename_i some
      exact hexPresent (merkleRootLength (by simpa using some)) empty

end Runs

end Blockchain

namespace Devnet
attribute [local instance] legacy
open Blockchain

def unreceipted : Block := { notarized.tipBlock with receiptsRoot := "" }.sign key

def takenUnreceipted : Blockchain := (active.addBlock unreceipted 102).2

theorem receiptProofsUnchecked : ¬∀ s : Blockchain, Built s → ∀ (i : Int) (block : Block), 0 < i →
    s.getBlockByIndex i = some block → ∀ tx ∈ block.transactions, tx.txId ∈ s.log.receipts →
      ∃ proof, s.getReceiptProof tx.txId = some proof ∧ proof.blockIndex = i ∧
        proof.checks block.receiptsRoot = true := by
  have run : (active.addBlock unreceipted 102).1 = .accepted ∧
      takenUnreceipted.getBlockByIndex 1 = some unreceipted ∧ notarization 0 ∈ unreceipted.transactions ∧
      (notarization 0).txId ∈ takenUnreceipted.log.receipts ∧
      (takenUnreceipted.getReceiptProof (notarization 0).txId).all (fun proof =>
        !proof.checks unreceipted.receiptsRoot) = true := by decide +kernel
  obtain ⟨accepted,stored,inside,held,unchecked⟩ := run
  intro claim
  have step : Accepts active unreceipted takenUnreceipted := receivedAccepts (by rw [takenUnreceipted]) accepted
  obtain ⟨proof,given,-,checks⟩ := claim _ (.accept unreceipted activeBuilt step) 1 unreceipted (by omega) stored
    (notarization 0) inside held
  rw [given,Option.all_some,checks] at unchecked
  exact Bool.false_ne_true unchecked

theorem receiptProofsCheckNotarized : ∃ proof, notarized.getReceiptProof (notarization 0).txId = some proof ∧
    proof.blockIndex = 1 ∧ proof.checks notarized.tipBlock.receiptsRoot = true := by
  have run : notarized.getBlockByIndex 1 = some notarized.tipBlock ∧ notarized.tipBlock.receiptsRoot ≠ "" ∧
      (notarization 0).txId ∈ notarized.log.receipts := by decide +kernel
  have inside : notarization 0 ∈ notarized.tipBlock.transactions := by
    rw [notarizes.2]
    exact List.mem_singleton_self _
  exact receiptProofsCheck.1 notarized (.accept _ notarizingBuilt notarizes.1) 1 notarized.tipBlock (by omega) run.1
    run.2.1 (notarization 0) inside run.2.2

end Devnet

end QbitNetwork
