import QbitNetwork.Transaction
import QbitNetwork.Lib.Dict

/-! The transaction indices, notarizations, encryption keys and sender nonces. -/
namespace QbitNetwork

/- The `Table` fields are maps the source reads only through `.get` with the default.
`chainTxIds` is the set the consensus object checks replays against. -/
structure Index where
  txById : Dict String (Int × Int) := ∅
  chainTxIds : DSet String := ∅
  txsBySender : Table Address (List String) [] := .empty
  txsByRecipient : Table Address (List String) [] := .empty
  notarizations : Dict String String := ∅
  notarizationsByHash : Table String (List String) [] := .empty
  notarizationCount : Table Address Int 0 := .empty
  senderNonce : Table Address Int (-1) := .empty
  keyRegistry : Dict Address String := ∅
  keyHistory : Table Address (List String) [] := .empty

namespace Index

def getNonce (x : Index) (address : Address) : Int := x.senderNonce.get address + 1

/- Transactions of the genesis block do not consume a nonce. -/
def raiseNonce (x : Index) (idx : Int) (tx : Transaction) : Index :=
  if 0 < idx ∧ x.senderNonce.get tx.sender < tx.nonce then
    { x with senderNonce := x.senderNonce.set tx.sender tx.nonce }
  else x

variable [Env]

def recordTx (x : Index) (idx txIdx : Int) (tx : Transaction) : Index :=
  let x := { x with
    txById := x.txById.insert tx.txId (idx,txIdx)
    chainTxIds := x.chainTxIds.insert tx.txId
    txsBySender := x.txsBySender.update tx.sender (· ++ [tx.txId])
    txsByRecipient :=
      if tx.recipient = "" then x.txsByRecipient
      else x.txsByRecipient.update tx.recipient (· ++ [tx.txId]) }
  x.raiseNonce idx tx

def notarize (x : Index) (tx : Transaction) : Index :=
  let docHash := tx.payload.documentHash.getD ""
  let x :=
    if docHash = "" then x
    else { x with
      notarizations :=
        if docHash ∈ x.notarizations then x.notarizations
        else x.notarizations.insert docHash tx.txId
      notarizationsByHash := x.notarizationsByHash.update docHash (· ++ [tx.txId]) }
  { x with notarizationCount := x.notarizationCount.update tx.sender (· + 1) }

def registerKey (x : Index) (tx : Transaction) : Index :=
  let epk := tx.payload.encryptionPk.getD ""
  if epk = "" then x
  else { x with
    keyHistory := x.keyHistory.update tx.sender (· ++ [epk])
    keyRegistry := x.keyRegistry.insert tx.sender epk }

def applyTx (x : Index) (tx : Transaction) : Index :=
  match tx.txType with
  | .NOTARIZE => x.notarize tx
  | .REGISTER_KEY => x.registerKey tx
  | _ => x

def forgetTx (x : Index) (tx : Transaction) : Index :=
  { x with
    txById := x.txById.erase tx.txId
    chainTxIds := x.chainTxIds.erase tx.txId
    txsBySender := x.txsBySender.update tx.sender (·.erase tx.txId)
    txsByRecipient :=
      if tx.recipient = "" then x.txsByRecipient
      else x.txsByRecipient.update tx.recipient (·.erase tx.txId) }

def undoNotarize (x : Index) (tx : Transaction) : Index :=
  let dh := tx.payload.documentHash.getD ""
  let x :=
    if dh = "" then x
    else
      let notarizations :=
        if x.notarizations[dh]? = some tx.txId then x.notarizations.erase dh else x.notarizations
      let byHash := (x.notarizationsByHash.get dh).erase tx.txId
      { x with
        notarizations :=
          match byHash with
          | first :: _ => if dh ∈ notarizations then notarizations else notarizations.insert dh first
          | [] => notarizations
        notarizationsByHash := x.notarizationsByHash.set dh byHash }
  { x with notarizationCount := x.notarizationCount.update tx.sender (fun count => max 0 (count - 1)) }

def undoRegisterKey (x : Index) (tx : Transaction) : Index :=
  let epk := tx.payload.encryptionPk.getD ""
  if epk = "" then x
  else
    let history := (x.keyHistory.get tx.sender).erase epk
    { x with
      keyHistory := x.keyHistory.set tx.sender history
      keyRegistry :=
        match history.getLast? with
        | some key => x.keyRegistry.insert tx.sender key
        | none => x.keyRegistry.erase tx.sender }

def undoTx (x : Index) (tx : Transaction) : Index :=
  match tx.txType with
  | .NOTARIZE => x.undoNotarize tx
  | .REGISTER_KEY => x.undoRegisterKey tx
  | _ => x

/- Forgets the ids of a block that left the reorganisation window (SQLite mode). -/
def pruneTx (x : Index) (tx : Transaction) : Index :=
  { x with
    txsBySender := x.txsBySender.update tx.sender (·.erase tx.txId)
    txsByRecipient :=
      if tx.recipient = "" then x.txsByRecipient
      else x.txsByRecipient.update tx.recipient (·.erase tx.txId) }

end Index

end QbitNetwork
