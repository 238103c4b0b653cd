import QbitNetwork.ReceiptRows
import QbitNetwork.Lib.OrderedDict

/-! Webhooks: the events of an announced block, rebuilt for the subscribers, and what is left of them. -/
namespace QbitNetwork

inductive WebhookStatus where
  | active | failing | disabled | deleted
  deriving DecidableEq

structure Webhook where
  events : List String
  status : WebhookStatus
  deriving DecidableEq

namespace Webhook

def isLive (hook : Webhook) : Prop := hook.status = .active ∨ hook.status = .failing

instance (hook : Webhook) : Decidable hook.isLive := inferInstanceAs (Decidable (_ ∨ _))

end Webhook

structure Envelope where
  kind : String
  data : Json
  txId : Option String

structure Delivery where
  webhookId : String
  event : Envelope
  blockIndex : Int

namespace Envelope

def ofEvent (txId : Option String) (event : Event) : Envelope :=
  ⟨event.kind,(event.fields.lookup "data").getD (.obj []),txId⟩

def members (envelope : Envelope) : List (String × Json) :=
  [("type",.str envelope.kind),("data",envelope.data)] ++ envelope.txId.toList.map (fun txId => ("tx_id",.str txId))

end Envelope

def deliver (webhooks : OrderedDict String Webhook) (events : List Envelope) (blockIndex : Int) : List Delivery :=
  if events.isEmpty then []
  else webhooks.rows.flatMap (fun row =>
    if row.2.isLive then
      (events.filter (fun event => event.kind ∈ row.2.events)).map (fun event => ⟨row.1,event,blockIndex⟩)
    else [])

namespace Store

def getReceipt (d : Store) (txId : String) : Option Receipt := d.receipts[txId]?

def getBlockLevelEvents (d : Store) (index : Int) : List Event :=
  ((d.blockLevelEvents.find? (fun row => row.1 = index)).map Prod.snd).getD []

end Store

namespace Blockchain

def getReceipt (s : Blockchain) (txId : String) : Option Receipt :=
  match s.log.receipts[txId]? with
  | some receipt => some receipt
  | none =>
    match s.backend with
    | .sqlite store => store.getReceipt txId
    | .memory _ => none

def getBlockLevelEvents (s : Blockchain) (blockIndex : Int) : List Event :=
  match s.log.blockLevelEvents[blockIndex]? with
  | some events => events
  | none =>
    match s.backend with
    | .sqlite store => store.getBlockLevelEvents blockIndex
    | .memory _ => []

section Envelopes
variable [Env]

def deliverBlockWebhooks (s : Blockchain) (webhooks : OrderedDict String Webhook) (block : Block) : List Delivery :=
  let events :=
    block.transactions.flatMap (fun tx =>
      match s.getReceipt tx.txId with
      | none => []
      | some receipt => receipt.events.map (Envelope.ofEvent (some tx.txId))) ++
    (s.getBlockLevelEvents block.index).map (Envelope.ofEvent none)
  if events.isEmpty then [] else deliver webhooks events block.index

def recorded (s : Blockchain) (block : Block) : List (Option String × Event) :=
  block.transactions.flatMap (fun tx =>
    (s.getReceipt tx.txId).toList.flatMap (fun receipt => receipt.events.map (fun event => (some tx.txId,event)))) ++
  (s.getBlockLevelEvents block.index).map (fun event => (none,event))

def delivered (s : Blockchain) (webhooks : OrderedDict String Webhook) (block : Block) (id : String) : List Delivery :=
  (s.deliverBlockWebhooks webhooks block).filter (fun delivery => delivery.webhookId = id)

end Envelopes

end Blockchain

def Webhook.owed (hook : Webhook) (events : List (Option String × Event)) : List (Option String × Event) :=
  if hook.isLive then events.filter (fun event => event.2.kind ∈ hook.events) else []

theorem owedRecorded {hook : Webhook} {events : List (Option String × Event)} {event : Option String × Event}
    (owed : event ∈ hook.owed events) : event ∈ events := by
  unfold Webhook.owed at owed
  split at owed
  · exact List.mem_of_mem_filter owed
  · cases owed

structure Delivery.Tells (blockIndex : Int) (delivery : Delivery) (event : Option String × Event) : Prop where
  kind : delivery.event.kind = event.2.kind
  txId : delivery.event.txId = event.1
  blockIndex : delivery.blockIndex = blockIndex

def Delivery.Carries (delivery : Delivery) (event : Option String × Event) : Prop :=
  ∀ field ∈ event.2.fields, field ∈ delivery.event.members ∨ ∃ data, delivery.event.data = .obj data ∧ field ∈ data

structure Event.Flat (event : Event) : Prop where
  some : event.fields ≠ []
  beside : ∀ field ∈ event.fields, field.1 ≠ "type" ∧ field.1 ≠ "data" ∧ field.1 ≠ "tx_id"

section Flat
variable [Env]

theorem ChainState.buildTxEventsFlat (s : ChainState) (tx : Transaction) : ∀ event ∈ s.buildTxEvents tx, event.Flat := by
  intro event inside
  unfold ChainState.buildTxEvents at inside
  cases kind : tx.txType <;> rw [kind] at inside <;> rw [List.mem_singleton.mp inside] <;> constructor <;> simp

omit [Env] in
theorem Blockchain.epochEventsFlat (before after : Int) : ∀ event ∈ Blockchain.epochEvents before after, event.Flat := by
  intro event inside
  unfold Blockchain.epochEvents at inside
  split at inside
  · rw [List.mem_singleton.mp inside]
    constructor <;> simp
  · cases inside

omit [Env] in
theorem Blockchain.rewardEventsFlat (validator : Address) (reward : Int) :
    ∀ event ∈ Blockchain.rewardEvents validator reward, event.Flat := by
  intro event inside
  unfold Blockchain.rewardEvents at inside
  split at inside
  · rw [List.mem_singleton.mp inside]
    constructor <;> simp
  · cases inside

omit [Env] in
theorem Event.Flat.lost {event : Event} (flat : event.Flat) {txId : Option String} {delivery : Delivery}
    (made : delivery.event = Envelope.ofEvent txId event) : ¬delivery.Carries (txId,event) := by
  intro carries
  obtain ⟨field,rest,fields⟩ := List.exists_cons_of_ne_nil flat.some
  have inside : field ∈ event.fields := fields ▸ List.mem_cons_self
  obtain ⟨untyped,undated,unnamed⟩ := flat.beside field inside
  have missing : event.fields.lookup "data" = none := by
    rw [List.lookup_eq_none_iff]
    intro other listed
    simpa using Ne.symm (flat.beside other listed).2.1
  have empty : delivery.event.data = .obj [] := by rw [made,Envelope.ofEvent,missing]; rfl
  rcases carries field inside with member | ⟨data,same,listed⟩
  · rw [Envelope.members,List.mem_append] at member
    rcases member with outer | named
    · simp only [List.mem_cons,List.not_mem_nil,or_false] at outer
      rcases outer with rfl | rfl
      · exact untyped rfl
      · exact undated rfl
    · obtain ⟨_,-,rfl⟩ := List.mem_map.mp named
      exact unnamed rfl
  · rw [empty] at same
    cases same
    cases listed

end Flat

section Deliver
variable {webhooks : OrderedDict String Webhook} {id : String} {hook : Webhook}

theorem deliverTo (listed : webhooks.get? id = some hook) (events : List Envelope) (blockIndex : Int) :
    (deliver webhooks events blockIndex).filter (fun delivery => delivery.webhookId = id) =
      if hook.isLive then (events.filter (fun event => event.kind ∈ hook.events)).map (fun event => ⟨id,event,blockIndex⟩)
      else [] := by
  unfold deliver
  split
  · rename_i none
    rw [List.isEmpty_iff.mp none]
    simp
  · have own : ∀ (id : String) (hook : Webhook), ∀ delivery ∈ (if hook.isLive then
        (events.filter (fun event => event.kind ∈ hook.events)).map (fun event => ⟨id,event,blockIndex⟩) else []),
        Delivery.webhookId delivery = id := by
      intro id hook delivery inside
      split at inside
      · obtain ⟨event,-,rfl⟩ := List.mem_map.mp inside
        rfl
      · cases inside
    exact webhooks.flatMapOwn own listed

variable [Env]

theorem deliverRecorded (s : Blockchain) (webhooks : OrderedDict String Webhook) (block : Block) :
    s.deliverBlockWebhooks webhooks block =
      deliver webhooks ((s.recorded block).map (fun event => Envelope.ofEvent event.1 event.2)) block.index := by
  have same : block.transactions.flatMap (fun tx => match s.getReceipt tx.txId with
        | none => []
        | some receipt => receipt.events.map (Envelope.ofEvent (some tx.txId))) ++
      (s.getBlockLevelEvents block.index).map (Envelope.ofEvent none) =
        (s.recorded block).map (fun event => Envelope.ofEvent event.1 event.2) := by
    rw [Blockchain.recorded,List.map_append,List.map_map,List.map_flatMap]
    refine congrArg₂ _ (List.flatMap_congr (fun tx _ => ?_)) rfl
    cases s.getReceipt tx.txId with
    | none => rfl
    | some receipt => simp
  simp only [Blockchain.deliverBlockWebhooks]
  rw [same]
  split
  · rename_i none
    rw [deliver,if_pos none]
  · rfl

theorem deliverOwed (s : Blockchain) (listed : webhooks.get? id = some hook) (block : Block) :
    s.delivered webhooks block id =
      (hook.owed (s.recorded block)).map (fun event => ⟨id,Envelope.ofEvent event.1 event.2,block.index⟩) := by
  rw [Blockchain.delivered,deliverRecorded,deliverTo listed,Webhook.owed]
  split
  · rw [List.filter_map,List.map_map]
    rfl
  · rfl

end Deliver

namespace Blockchain
variable [Env]

section Records

omit [Env] in
theorem enterRowsFinds (idx : Int) (failed : DSet String) (rows : List ReceiptRow) (log : EventLog) {txId : String}
    (named : txId ∈ rows.map ReceiptRow.txId) : ∃ row ∈ rows, row.txId = txId ∧
      (enterRows idx failed rows log).receipts[txId]? = some (receiptOf idx failed row) := by
  unfold enterRows
  induction rows using List.reverseRecOn with
  | nil => cases named
  | append_singleton rest row ih =>
    rw [List.foldl_append,List.foldl_cons,List.foldl_nil,(EventLog.addReceiptTables ..).1,
      Std.ExtTreeMap.getElem?_insert]
    by_cases here : (receiptOf idx failed row).txId = txId
    · exact ⟨row,by simp,here,if_pos (Std.compare_eq_iff_eq.mpr here)⟩
    · rw [List.map_append,List.mem_append] at named
      obtain ⟨found,inside,same,held⟩ := ih (named.resolve_right
        (fun last => here (List.mem_singleton.mp last).symm))
      refine ⟨found,List.mem_append_left _ inside,same,?_⟩
      rw [if_neg (fun same => here (Std.compare_eq_iff_eq.mp same))]
      exact held

omit [Env] in
theorem putReceiptsFinds (receipts : List Receipt) (d : Store) (txId : String) (named : txId ∈ receipts.map Receipt.txId) :
    ∃ receipt ∈ receipts, (receipts.foldl Store.putReceipt d).receipts[txId]? = some receipt := by
  induction receipts using List.reverseRecOn with
  | nil => cases named
  | append_singleton rest receipt ih =>
    rw [List.foldl_append,List.foldl_cons,List.foldl_nil,Store.putReceipt,Std.ExtTreeMap.getElem?_insert]
    by_cases here : receipt.txId = txId
    · exact ⟨receipt,by simp,if_pos (Std.compare_eq_iff_eq.mpr here)⟩
    · rw [List.map_append,List.mem_append] at named
      obtain ⟨found,inside,held⟩ := ih (named.resolve_right (by simpa using Ne.symm here))
      refine ⟨found,List.mem_append_left _ inside,?_⟩
      rw [if_neg (fun same => here (Std.compare_eq_iff_eq.mp same))]
      exact held

theorem settleStored (s : Blockchain) (block : Block) (idx : Int) (matured : List Address) (receipts : List Receipt)
    (events : List Event) {store : Store} (backend : (s.settleBlock block idx matured receipts events).backend = .sqlite store) :
    ∃ d : Store, store.receipts = (receipts.foldl Store.putReceipt d).receipts := by
  simp only [settleBlock] at backend
  obtain ⟨final,finality,-⟩ := updateFinalityOk ((((s.saveSnapshot idx).pruneCaches
    idx).persistBalancesAfterBlock block idx matured).persistReceipts idx receipts events) idx
  rw [finality] at backend
  simp only [persistReceipts,mapStore] at backend
  cases kind : (((s.saveSnapshot idx).pruneCaches idx).persistBalancesAfterBlock block idx matured).backend with
  | memory chainList =>
    rw [kind] at backend
    cases backend
  | sqlite d =>
    rw [kind] at backend
    cases backend
    refine ⟨d,?_⟩
    split <;> rfl

structure Records (s : Blockchain) (block : Block) (s' : Blockchain) (receipts : List Receipt) : Prop where
  issues : Issues s block s' receipts
  flat : ∀ receipt ∈ receipts, ∀ event ∈ receipt.events, event.Flat
  found : ∀ tx ∈ block.transactions, ∀ receipt, s'.getReceipt tx.txId = some receipt → receipt ∈ receipts
  levels : ∀ event ∈ s'.getBlockLevelEvents (s.height + 1), event.Flat

theorem appendInnerRecords {s s' : Blockchain} {block : Block} (run : s.appendBlockInner block = .ok s') :
    ∃ receipts, Records s block s' receipts := by
  obtain ⟨t,u,p,matured,epoch,epoch',reward,applied,before,entered,rfl⟩ := appendInnerCloses run
  have gathered := (applyTxsGathered applied).2
  have flat : ∀ row ∈ p.receiptData, ∀ event ∈ row.events, event.Flat :=
    applyRowsEvents ChainState.buildTxEventsFlat (by simp) applied
  have log : (u.settleBlock block (s.height + 1) matured (p.receiptData.map (receiptOf (s.height + 1) p.failedTxIds))
      (epochEvents epoch epoch' ++ rewardEvents block.validator reward)).log =
        u.log.pruneReceipts (pruneBefore (s.height + 1)) := settleLog ..
  have tables : u.log.receipts = (enterRows (s.height + 1) p.failedTxIds p.receiptData s.log).receipts ∧
      u.log.eventsByBlock = (enterRows (s.height + 1) p.failedTxIds p.receiptData s.log).eventsByBlock := by
    rw [entered]
    unfold EventLog.pruneBlockLevelEvents
    split <;> exact ⟨rfl,rfl⟩
  refine ⟨p.receiptData.map (receiptOf (s.height + 1) p.failedTxIds),⟨?_,u.log,?_,log⟩,?_,?_,?_⟩
  · rw [List.map_map]
    exact gathered.ids
  · exact (EventLog.addReceiptsEntered (receiptOf (s.height + 1) p.failedTxIds) ReceiptRow.events p.receiptData
      (fun _ _ => rfl) s.log).same tables.1 tables.2
  · intro receipt inside event among
    obtain ⟨row,listed,rfl⟩ := List.mem_map.mp inside
    by_cases fails : row.txId ∈ p.failedTxIds
    · simp [receiptOf,fails] at among
    · simp only [receiptOf,if_neg fails] at among
      exact flat row listed event among
  · intro tx inside receipt found
    have named : tx.txId ∈ p.receiptData.map ReceiptRow.txId := gathered.ids ▸ List.mem_map_of_mem inside
    obtain ⟨row,listed,-,held⟩ := enterRowsFinds (s.height + 1) p.failedTxIds p.receiptData s.log named
    simp only [getReceipt] at found
    split at found
    · rename_i other there
      cases found
      rw [log,EventLog.pruneReceiptsGet,tables.1] at there
      split at there
      · cases there
      · rw [held] at there
        cases there
        exact List.mem_map_of_mem listed
    · split at found
      · rename_i store backend
        obtain ⟨d,stored⟩ := settleStored u block (s.height + 1) matured _ _ backend
        obtain ⟨issued,own,kept⟩ := putReceiptsFinds (p.receiptData.map (receiptOf (s.height + 1) p.failedTxIds)) d
          tx.txId (by rw [List.map_map]; exact named)
        rw [Store.getReceipt,stored,kept] at found
        cases found
        exact own
      · cases found
  · intro event inside
    have held : u.log.blockLevelEvents[s.height + 1]? = some (epochEvents epoch epoch' ++ rewardEvents block.validator reward) := by
      rw [entered]
      unfold EventLog.pruneBlockLevelEvents
      split
      · dsimp only
        rw [Std.ExtTreeMap.getElem?_erase,if_neg (fun same => ?_),Std.ExtTreeMap.getElem?_insert_self]
        have here := Std.compare_eq_iff_eq.mp same
        simp only [pruneBefore,maxReorgDepth] at here
        omega
      · exact Std.ExtTreeMap.getElem?_insert_self
    have kept : (u.log.pruneReceipts (pruneBefore (s.height + 1))).blockLevelEvents = u.log.blockLevelEvents := by
      unfold EventLog.pruneReceipts
      split <;> rfl
    simp only [getBlockLevelEvents,log,kept,held] at inside
    rcases List.mem_append.mp inside with change | reward
    · exact epochEventsFlat _ _ event change
    · exact rewardEventsFlat _ _ event reward

theorem replaceTipFinds {t u : Blockchain} {old block : Block} (run : t.replaceTip old block = .ok u) :
    u.getReceipt = t.getReceipt ∧ u.getBlockLevelEvents = t.getBlockLevelEvents := by
  simp only [replaceTip] at run
  split at run
  · rename_i chainList memory
    cases run
    constructor <;> funext key <;> simp only [getReceipt,getBlockLevelEvents,memory]
  · rename_i store sqlite
    split at run
    · rename_i stored updated
      cases run
      have tables : stored.receipts = store.receipts ∧ stored.blockLevelEvents = store.blockLevelEvents := by
        unfold Store.updateBlock at updated
        split at updated
        · cases updated
          exact ⟨rfl,rfl⟩
        · split at updated
          · cases updated
          · cases updated
            exact ⟨rfl,rfl⟩
      constructor <;> funext key <;>
        simp only [getReceipt,getBlockLevelEvents,sqlite,Store.getReceipt,Store.getBlockLevelEvents,tables.1,tables.2]
    · cases run

theorem acceptsRecords {s s' : Blockchain} {block : Block} (step : Accepts s block s') :
    ∃ receipts, Records s block s' receipts := by
  cases step with
  | received now answer =>
    obtain ⟨-,-,t,appended,rfl⟩ := addBlockOk answer
    obtain ⟨receipts,records⟩ := appendInnerRecords appended
    exact ⟨receipts,⟨⟨records.issues.ids,records.issues.entered⟩,records.flat,records.found,records.levels⟩⟩
  | produced address sk now later answer stored =>
    obtain ⟨-,parent,draft,t,u,-,-,-,appended,replaced,rfl⟩ := produceBlockOk answer
    obtain ⟨receipts,records⟩ := appendInnerRecords appended
    have same := replaceTipFinds replaced
    have log := (replaceTipBeside replaced).2.2
    obtain ⟨backend,blockByHash,rfl⟩ := replaceTipOk replaced
    cases stored
    refine ⟨receipts,⟨⟨records.issues.ids,records.issues.entered⟩,records.flat,?_,?_⟩⟩
    · intro tx inside receipt found
      exact records.found tx inside receipt (same.1 ▸ found)
    · intro event inside
      exact records.levels event (same.2 ▸ inside)

theorem builtFinds {s s' : Blockchain} {block : Block} (built : Built s) (started : 0 ≤ s.height)
    (step : Accepts s block s') {receipts : List Receipt} (issues : Issues s block s' receipts) :
    ∀ receipt ∈ receipts, s'.getReceipt receipt.txId = some receipt := by
  intro receipt inside
  obtain ⟨chain,history,receipted⟩ := builtReceipted built
  have height := (historyLaw notarizedLaw history).2.height
  have notarized := (historyLaw notarizedLaw (History.accept block history step trivial)).1
  have last : (chain ++ [block])[chain.length]? = some block := List.getElem?_concat_length
  obtain ⟨log,entered,pruned⟩ := issues.entered
  have named : receipt.txId ∈ block.transactions.map Transaction.txId := issues.ids ▸ List.mem_map_of_mem inside
  have held := entered.held (issues.ids ▸ notarized.distinct chain.length block last (by omega)) receipt inside
  have kept : s'.log.receipts[receipt.txId]? = some receipt := by
    rw [pruned,EventLog.pruneReceiptsGet,if_neg,held]
    rintro ⟨low,listed⟩
    have below : pruneBefore (s.height + 1) < s.height + 1 := by
      simp only [pruneBefore,maxReorgDepth]
      omega
    rw [entered.beside _ (by omega)] at listed
    obtain ⟨other,there,among⟩ := listedHere receipted low listed
    have short := (List.getElem?_eq_some_iff.mp there).1
    refine apartIds notarized.apart (Nat.ne_of_lt short) ?_ last among named
    rw [List.getElem?_append_left short,there]
  rw [getReceipt,kept]

theorem recordedFlat {s s' : Blockchain} {block : Block} {receipts : List Receipt} (records : Records s block s' receipts)
    (place : block.index = s.height + 1) : ∀ event ∈ s'.recorded block, event.2.Flat := by
  intro event inside
  rcases List.mem_append.mp inside with own | level
  · obtain ⟨tx,among,own⟩ := List.mem_flatMap.mp own
    obtain ⟨receipt,found,own⟩ := List.mem_flatMap.mp own
    obtain ⟨told,listed,rfl⟩ := List.mem_map.mp own
    exact records.flat receipt (records.found tx among receipt (Option.mem_toList.mp found)) told listed
  · obtain ⟨told,listed,rfl⟩ := List.mem_map.mp level
    exact records.levels told (place ▸ listed)

theorem subscribedDelivered {s s' : Blockchain} {block : Block} (step : Accepts s block s') (coherent : Coherent s)
    (webhooks : OrderedDict String Webhook) :
    (∃ receipts, Issues s block s' receipts ∧
      (∀ tx ∈ block.transactions, ∀ receipt, s'.getReceipt tx.txId = some receipt → receipt ∈ receipts) ∧
      (Built s → 0 ≤ s.height → ∀ receipt ∈ receipts, s'.getReceipt receipt.txId = some receipt)) ∧
    (∀ id hook, webhooks.get? id = some hook →
      List.Forall₂ (Delivery.Tells block.index) (s'.delivered webhooks block id) (hook.owed (s'.recorded block))) ∧
    ((∀ id hook, webhooks.get? id = some hook →
        List.Forall₂ Delivery.Carries (s'.delivered webhooks block id) (hook.owed (s'.recorded block))) ↔
      ∀ id hook, webhooks.get? id = some hook → hook.owed (s'.recorded block) = []) := by
  obtain ⟨receipts,records⟩ := acceptsRecords step
  have flat := recordedFlat records (acceptsPosition coherent step)
  refine ⟨⟨receipts,records.issues,records.found,fun built started => builtFinds built started step records.issues⟩,
    fun id hook listed => ?_,?_⟩
  · rw [deliverOwed s' listed,List.forall₂_map_left_iff,List.forall₂_same]
    exact fun event _ => ⟨rfl,rfl,rfl⟩
  · constructor
    · intro carried id hook listed
      refine List.eq_nil_iff_forall_not_mem.mpr (fun event owed => ?_)
      have all := carried id hook listed
      rw [deliverOwed s' listed,List.forall₂_map_left_iff,List.forall₂_same] at all
      exact (flat event (owedRecorded owed)).lost rfl (all event owed)
    · intro none id hook listed
      rw [deliverOwed s' listed,none id hook listed]
      exact .nil

end Records

end Blockchain

namespace Devnet
attribute [local instance] legacy
open Blockchain

def watchers : OrderedDict String Webhook :=
  (OrderedDict.empty.set "bridge" ⟨["Notarize"],.active⟩).set "wallet" ⟨["Transfer"],.failing⟩

theorem bridgeListed : watchers.get? "bridge" = some ⟨["Notarize"],.active⟩ := by decide +kernel

theorem bridgeOwed : (Webhook.owed ⟨["Notarize"],.active⟩ (notarized.recorded notarized.tipBlock)).length = 1 := by
  decide +kernel

theorem notarizationEmptied : ¬∀ s block s', Accepts s block s' → Coherent s → ∀ webhooks id hook,
    webhooks.get? id = some hook →
      List.Forall₂ Delivery.Carries (s'.delivered webhooks block id) (hook.owed (s'.recorded block)) := by
  intro claim
  have carried := claim _ _ _ notarizes.1 (builtCoherent notarizingBuilt) watchers "bridge" _ bridgeListed
  rw [deliverOwed _ bridgeListed,List.forall₂_map_left_iff,List.forall₂_same] at carried
  obtain ⟨event,alone⟩ := List.length_eq_one_iff.mp bridgeOwed
  have owed : event ∈ Webhook.owed ⟨["Notarize"],.active⟩ (notarized.recorded notarized.tipBlock) := by simp [alone]
  obtain ⟨receipts,records⟩ := acceptsRecords notarizes.1
  have flat := recordedFlat records (acceptsPosition (builtCoherent notarizingBuilt) notarizes.1)
  exact (flat event (owedRecorded owed)).lost rfl (carried event owed)

theorem notarizationTold :
    (∀ id hook, watchers.get? id = some hook → List.Forall₂ (Delivery.Tells notarized.tipBlock.index)
      (notarized.delivered watchers notarized.tipBlock id) (hook.owed (notarized.recorded notarized.tipBlock))) ∧
    ¬∀ id hook, watchers.get? id = some hook → List.Forall₂ Delivery.Carries
      (notarized.delivered watchers notarized.tipBlock id) (hook.owed (notarized.recorded notarized.tipBlock)) := by
  have told := subscribedDelivered notarizes.1 (builtCoherent notarizingBuilt) watchers
  refine ⟨told.2.1,fun carried => ?_⟩
  have due := bridgeOwed
  rw [told.2.2.mp carried "bridge" _ bridgeListed] at due
  cases due

end Devnet

end QbitNetwork
