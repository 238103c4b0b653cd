import QbitNetwork.Transaction
import QbitNetwork.Lib.Dict

/-! Receipts and the events a transaction of each type leaves in them. -/
namespace QbitNetwork

structure Event where
  kind : String
  fields : List (String × Json) := []

namespace Event

def toJson (event : Event) : Json := .obj (("type",.str event.kind) :: event.fields)

end Event

inductive Status where
  | success | failure
  deriving DecidableEq, Repr

def Status.text : Status → String
  | .success => "success"
  | .failure => "failure"

structure Receipt where
  txId : String
  status : Status
  feePaid : Int
  blockIndex : Int
  txIndex : Int
  events : List Event

section Root
variable [Env]

def Receipt.receiptHash (r : Receipt) : Bytes :=
  sha3_256 (Json.dumps (.obj
    [("blockIndex",.int r.blockIndex),("events",.arr (r.events.map Event.toJson)),
     ("feePaid",.int r.feePaid),("status",.str r.status.text),("txId",.str r.txId),
     ("txIndex",.int r.txIndex)]))

def receiptsRoot (receipts : List Receipt) : String :=
  if receipts.isEmpty then "0000000000000000000000000000000000000000000000000000000000000000"
  else hex (merkleRoot (receipts.map Receipt.receiptHash))

end Root

/- The indices over receipts. `_events_by_type` and `_events_by_block` are only read
through `.get(key, [])`, so an empty row is an absent one. -/
structure EventLog where
  receipts : Dict String Receipt := ∅
  eventsByType : Table String (List String) [] := .empty
  eventsByBlock : Table Int (List String) [] := .empty
  blockLevelEvents : Dict Int (List Event) := ∅

namespace EventLog

def indexEvent (txId : String) (log : EventLog) (event : Event) : EventLog :=
  if event.kind = "" then log
  else { log with eventsByType := log.eventsByType.update event.kind (· ++ [txId]) }

/- The events are indexed for every transaction, those of a failed one included. -/
def addReceipt (log : EventLog) (receipt : Receipt) (events : List Event) : EventLog :=
  let log := { log with receipts := log.receipts.insert receipt.txId receipt }
  let log := events.foldl (indexEvent receipt.txId) log
  { log with eventsByBlock := log.eventsByBlock.update receipt.blockIndex (· ++ [receipt.txId]) }

def pruneBlockLevelEvents (log : EventLog) (pruneBefore : Int) : EventLog :=
  if 0 ≤ pruneBefore then
    { log with blockLevelEvents := log.blockLevelEvents.erase pruneBefore }
  else log

def pruneReceipts (log : EventLog) (pruneBefore : Int) : EventLog :=
  if 0 ≤ pruneBefore then
    let pruned := log.eventsByBlock.get pruneBefore
    { log with
      eventsByBlock := log.eventsByBlock.set pruneBefore []
      eventsByType := log.eventsByType.items.foldl
        (fun table row => table.set row.1 (row.2.filter (· ∉ pruned))) log.eventsByType
      receipts := pruned.foldl (fun receipts txId => receipts.erase txId) log.receipts }
  else log

def forgetReceipt (log : EventLog) (txId : String) : EventLog :=
  match log.receipts[txId]? with
  | none => log
  | some receipt =>
    { log with
      receipts := log.receipts.erase txId
      eventsByType := receipt.events.foldl
        (fun table event =>
          if event.kind = "" then table else table.update event.kind (·.erase txId))
        log.eventsByType }

end EventLog

end QbitNetwork
