import QbitNetwork.RawTransaction
import QbitNetwork.Gossip
import QbitNetwork.Tracking

/-! What a node admits to its pool and what a node can read back: the two lists of checks
agree but for values that are bools, and for fee parameters admission does not look at. -/
namespace QbitNetwork

section Reading

def TxType.all : List TxType :=
  [.REGISTER_KEY,.REGISTER_VALIDATOR,.REVOKE_KEY,.NOTARIZE,.STORE,.SHARE,.STAKE,.DELEGATE,.UNSTAKE,
   .EVIDENCE,.TRANSFER,.ISSUE_TOKEN,.MINT_TOKEN,.TRANSFER_TOKEN]

def raiseIf (bad : Prop) [Decidable bad] (message : String) : Except PyExc Unit :=
  if bad then .error (.valueError message) else .ok ()

@[simp] theorem raiseIfOk (bad : Prop) [Decidable bad] (message : String) (passed : Unit) :
    raiseIf bad message = .ok passed ↔ ¬bad := by
  unfold raiseIf
  split <;> simp_all

def orValueError {α : Type} (message : String) : Option α → Except PyExc α
  | some found => .ok found
  | none => .error (.valueError message)

/- `bytes.fromhex` inside `except ValueError`. -/
def hexData (value : Json) : Except PyExc Bytes :=
  match value.fromHexValue with
  | .error (.valueError _) => .error (.valueError "signature/sender_pubkey must be valid hex")
  | result => result

def feeParam (label : String) (value : Json) : Except PyExc PyInt := do
  let fee ← orValueError (label ++ " must be non-negative int") value.pyInt
  raiseIf (fee.value < 0) (label ++ " must be non-negative int")
  raiseIf (maxFeeParam < fee.value) (label ++ s!" exceeds {maxFeeParam}")
  .ok fee

/- `isinstance(value, int) and not isinstance(value, bool)`. -/
def Json.plainInt : Json → Option Int
  | .int value => some value
  | _ => none

def amountTypes : List String :=
  ["TRANSFER","STAKE","DELEGATE","UNSTAKE","MINT_TOKEN","TRANSFER_TOKEN"]

def supplyCappedTypes : List String := ["TRANSFER","STAKE","DELEGATE","MINT_TOKEN"]

def numberGuard (payload : List (String × Json)) (key : String) (bad : Int → Prop) [DecidablePred bad]
    (wanted : String) : Except PyExc Unit :=
  match (Json.lookup payload key).getD .null with
  | .null => .ok ()
  | value => do
    let n ← orValueError ("payload " ++ key ++ " must be an integer") value.plainInt
    raiseIf (bad n) ("payload " ++ key ++ " must be " ++ wanted)
    raiseIf (maxTxAmount < n) ("payload " ++ key ++ s!" exceeds MAX_TX_AMOUNT ({maxTxAmount})")

def amountGuard (payload : List (String × Json)) : Except PyExc Unit :=
  numberGuard payload "amount" (fun amount => amount ≤ 0) "positive"

def supplyGuard (payload : List (String × Json)) : Except PyExc Unit :=
  numberGuard payload "max_supply" (fun supply => supply < 0) "non-negative"

variable [PyText]

def capGuard (payload : List (String × Json)) : Except PyExc Unit :=
  let amount := (Json.lookup payload "amount").getD (.int 0)
  raiseIf (RawTransaction.exceeds amount maxSupply)
    ("amount " ++ PyText.str amount ++ s!" exceeds MAX_SUPPLY ({maxSupply})")

def payloadGuards (name : Option String) (payload : List (String × Json)) : Except PyExc Unit := do
  only (∃ text ∈ name, text ∈ amountTypes) (amountGuard payload)
  only (∃ text ∈ name, text ∈ supplyCappedTypes) (capGuard payload)
  only (name = some "ISSUE_TOKEN") (supplyGuard payload)

def TxType.ofValue (value : Json) : Except PyExc TxType :=
  orValueError (PyText.repr value ++ " is not a valid TxType")
    (TxType.all.find? (fun txType => value.equal (.str txType.value)))

end Reading

namespace RawTransaction

section Codec
variable [Env]

def toDict (tx : RawTransaction) : Json := .obj
  [("id",.str tx.txId),("type",.str tx.txType.value),("from",.str tx.sender),("to",tx.recipient),
   ("timestamp",tx.timestamp.toJson),("payload",.obj tx.payload),("nonce",tx.nonce.toJson),
   ("chainId",.str tx.chainId),("maxFeePerWeight",tx.maxFeePerWeight.toJson),
   ("maxPriorityFee",tx.maxPriorityFee.toJson),("signature",.str (hex tx.signature)),
   ("sender_pubkey",.str (hex tx.senderPubkey))]

end Codec

def dictOf : Json → Option (List (String × Json))
  | .obj fields => some fields
  | _ => none

variable [PyText]

def fromDict (data : Json) : Except PyExc RawTransaction := do
  let timestamp ← orValueError "timestamp must be int" (← data.get "timestamp" .null).pyInt
  let sender ← orValueError "from must be string" (← data.get "from" .null).strOf
  let nonce ← orValueError "nonce must be int" (← data.get "nonce" (.int 0)).pyInt
  let payload ← orValueError "payload must be dict" (dictOf (← data.get "payload" .null))
  let sig ← hexData (← data.get "signature" (.str ""))
  let spk ← hexData (← data.get "sender_pubkey" (.str ""))
  raiseIf (spk ≠ [] ∧ spk.length ≠ 1952) s!"sender_pubkey wrong size: {spk.length}"
  let chainId ← orValueError "chainId must be string" (← data.get "chainId" (.str "")).strOf
  let mfpw ← feeParam "maxFeePerWeight" (← data.get "maxFeePerWeight" (.int 0))
  let mpf ← feeParam "maxPriorityFee" (← data.get "maxPriorityFee" (.int 0))
  payloadGuards (← (← data.get "type" (.str "")).tableKey) payload
  let txType ← TxType.ofValue (← data.item "type")
  let recipient ← data.get "to" (.str "")
  .ok { txType, sender, payload, recipient, timestamp, nonce, chainId
        signature := sig
        senderPubkey := spk
        maxFeePerWeight := mfpw
        maxPriorityFee := mpf }

end RawTransaction

/- A block as an object, with what `from_dict` does not look at left as it comes. -/
structure RawBlock where
  index : PyInt
  prevHash : Json
  transactions : List RawTransaction
  validator : Json := .str ""
  timestamp : PyInt
  signature : Bytes := []
  baseFee : Int := 0
  stateRoot : Json := .str ""
  receiptsRoot : Json := .str ""

namespace RawBlock
variable [Env]

def merkleRoot (block : RawBlock) : String :=
  hex (QbitNetwork.merkleRoot (block.transactions.map RawTransaction.txHash))

def presentRoot (key : String) (root : Json) : List (String × Json) :=
  if root.truthy then [(key,root)] else []

def headerJson (block : RawBlock) : Json :=
  headerOf (.int block.baseFee) block.index.toJson (.str block.merkleRoot) block.prevHash
    block.timestamp.toJson (.int block.transactions.length) block.validator
    (presentRoot "receiptsRoot" block.receiptsRoot) (presentRoot "stateRoot" block.stateRoot)

def headerBytes (block : RawBlock) : Bytes := block.headerJson.dumps

def blockHash (block : RawBlock) : String := hex (sha3_256 block.headerBytes)

def sign (block : RawBlock) (signingSk : Bytes) : RawBlock :=
  { block with signature := Env.mldsaSign signingSk block.headerBytes }

def verifySignature (block : RawBlock) (signingPk : Bytes) : Bool :=
  verifySig signingPk block.headerBytes block.signature

def toDict (block : RawBlock) : Json := .obj
  [("hash",.str block.blockHash),("index",block.index.toJson),("timestamp",block.timestamp.toJson),
   ("prevHash",block.prevHash),("merkleRoot",.str block.merkleRoot),("baseFee",.int block.baseFee),
   ("stateRoot",block.stateRoot),("receiptsRoot",block.receiptsRoot),("validator",block.validator),
   ("transactions",.arr (block.transactions.map RawTransaction.toDict)),
   ("signature",.str (hex block.signature))]

variable [PyText]

def claimedHash (claimed : Json) (block : RawBlock) : Except PyExc Unit :=
  if claimed.truthy ∧ claimed.equal (.str block.blockHash) = false then do
    let computed ← (Json.str block.blockHash).shortText
    let shown ← claimed.shortText
    .error (.valueError ("block hash mismatch: computed " ++ computed ++ " != claimed " ++ shown))
  else .ok ()

def fromDict (data : Json) : Except PyExc RawBlock := do
  let index ← orValueError "block index must be int" (← data.get "index" .null).pyInt
  let timestamp ← orValueError "block timestamp must be int" (← data.get "timestamp" .null).pyInt
  let baseFee ← orValueError "baseFee must be an integer" (← data.get "baseFee" (.int 0)).plainInt
  raiseIf (baseFee < 0) "baseFee must be non-negative"
  let transactions ← (← (← data.get "transactions" (.arr [])).entries).mapM RawTransaction.fromDict
  let prevHash ← data.item "prevHash"
  let validator ← data.get "validator" (.str "")
  let signature ← (← data.get "signature" (.str "")).fromHexValue
  let stateRoot ← data.get "stateRoot" (.str "")
  let receiptsRoot ← data.get "receiptsRoot" (.str "")
  let block : RawBlock :=
    { index, prevHash, transactions, validator, timestamp, signature, baseFee, stateRoot, receiptsRoot }
  claimedHash (← data.get "hash" .null) block
  .ok block

end RawBlock

section Guards
open Json

theorem hexDataHex (data : Bytes) : hexData (.str (hex data)) = .ok data := by
  simp only [hexData,fromHexValue,fromHexHex]

theorem ofValueValue [PyText] (txType : TxType) : TxType.ofValue (.str txType.value) = .ok txType := by
  cases txType <;> rfl

theorem numberGuardOk {payload : List (String × Json)} {key : String} {bad : Int → Prop} [DecidablePred bad]
    {wanted : String} {value : Json} {n : Int} (found : (lookup payload key).getD .null = value)
    (read : value.intOf = some n) (good : ¬bad n) (small : n ≤ maxTxAmount) :
    numberGuard payload key bad wanted = .ok () ↔ value.boolOf = none := by
  unfold numberGuard
  rw [found]
  cases value with
  | int m =>
    cases read
    simp only [plainInt,orValueError,boolOf,Outcome.bindOk,Except.ok.injEq,exists_eq_left',raiseIfOk,good,
      not_lt.mpr small,not_false_eq_true,exists_const,and_self]
  | bool b => simp only [plainInt,orValueError,boolOf,Outcome.bindOk,reduceCtorEq,false_and,exists_const]
  | _ => cases read

end Guards

namespace RawTransaction

def FeeInRange (fee : PyInt) : Prop := 0 ≤ fee.value ∧ fee.value ≤ maxFeeParam

theorem feeParamOk {label : String} {fee read : PyInt} :
    feeParam label fee.toJson = .ok read ↔ FeeInRange fee ∧ fee = read := by
  simp only [feeParam,Json.pyIntToJson,orValueError,Outcome.bindOk,raiseIfOk,Except.ok.injEq,exists_eq_left',
    FeeInRange,exists_const,not_lt,and_assoc]

theorem amountGuardOk {tx : RawTransaction} {n : Int} (read : (tx.get "amount").intOf = some n) (positive : 0 < n)
    (small : n ≤ maxSupply) : amountGuard tx.payload = .ok () ↔ (tx.get "amount").boolOf = none := by
  have bound : maxSupply ≤ maxTxAmount := by decide
  exact numberGuardOk rfl read (not_le.mpr positive) (small.trans bound)

theorem supplyGuardOk {tx : RawTransaction} (checked : tx.issueTokenCheck = .ok ())
    (guarded : ¬exceeds (tx.get "max_supply") maxTxAmount) :
    supplyGuard tx.payload = .ok () ↔ (tx.get "max_supply").boolOf = none := by
  obtain ⟨n,read,least⟩ := supplyChecked checked
  cases found : Json.lookup tx.payload "max_supply" with
  | none =>
    simp only [supplyGuard,numberGuard,get,found,Option.getD_none,Json.boolOf]
  | some value =>
    have here : tx.get "max_supply" = value := by rw [get,found,Option.getD_some]
    rw [get,found,Option.getD_some] at read
    rw [here] at guarded ⊢
    rw [exceedsRead read,not_lt] at guarded
    exact numberGuardOk (by rw [found,Option.getD_some]) read (not_lt.mpr least) guarded

variable [PyText]

theorem payloadGuardsOk {name : String} {payload : List (String × Json)} :
    payloadGuards (some name) payload = .ok () ↔
      (name ∈ amountTypes → amountGuard payload = .ok ()) ∧
      (name ∈ supplyCappedTypes → capGuard payload = .ok ()) ∧
      (name = "ISSUE_TOKEN" → supplyGuard payload = .ok ()) := by
  simp only [payloadGuards,Option.mem_def,Option.some.injEq,exists_eq_left',Outcome.bindOk,onlyOk,exists_const]

theorem capGuardOk {tx : RawTransaction} {n : Int} (read : (tx.get "amount").intOf = some n)
    (small : n ≤ maxSupply) : capGuard tx.payload = .ok () := by
  unfold get at read
  cases found : Json.lookup tx.payload "amount" with
  | none =>
    rw [found] at read
    cases read
  | some value =>
    rw [found,Option.getD_some] at read
    simp only [capGuard,found,Option.getD_some,raiseIfOk,exceedsRead read,not_lt]
    exact small

variable [Env]

theorem amountChecked {tx : RawTransaction} (checked : tx.typeCheck = .ok ())
    (counted : tx.txType.value ∈ amountTypes) :
    ∃ n, (tx.get "amount").intOf = some n ∧ 0 < n ∧ n ≤ maxSupply := by
  unfold typeCheck at checked
  split at checked
  all_goals rename_i type; rw [type] at counted
  case h_7 | h_8 | h_9 => exact stakeAmount checked
  case h_10 =>
    simp only [transferCheck,Outcome.bindOk] at checked
    obtain ⟨_,amount,-⟩ := checked
    exact positiveAmount amount
  case h_13 =>
    simp only [mintTokenCheck,Outcome.bindOk] at checked
    obtain ⟨-,-,_,amount,-⟩ := checked
    exact positiveAmount amount
  case h_14 =>
    simp only [transferTokenCheck,Outcome.bindOk] at checked
    obtain ⟨-,-,_,amount,-⟩ := checked
    exact positiveAmount amount
  all_goals exact absurd counted (by decide)

theorem payloadGuardsAdmitted {tx : RawTransaction} (checked : tx.validatePayload = .ok ()) :
    payloadGuards (some tx.txType.value) tx.payload = .ok () ↔
      (tx.txType.value ∈ amountTypes → (tx.get "amount").boolOf = none) ∧
      (tx.txType = .ISSUE_TOKEN → (tx.get "max_supply").boolOf = none) := by
  obtain ⟨guarded,typed⟩ := validated checked
  have issues : tx.txType.value = "ISSUE_TOKEN" ↔ tx.txType = .ISSUE_TOKEN := by
    cases tx.txType <;> decide
  have capped : tx.txType.value ∈ supplyCappedTypes → tx.txType.value ∈ amountTypes := by
    cases tx.txType <;> decide
  rw [payloadGuardsOk,issues]
  constructor
  · rintro ⟨amount,-,supply⟩
    refine ⟨fun counted => ?_,fun issue => ?_⟩
    · obtain ⟨n,read,positive,small⟩ := amountChecked typed counted
      exact (amountGuardOk read positive small).mp (amount counted)
    · rw [typeCheck,issue] at typed
      exact (supplyGuardOk typed (supplyGuarded guarded issue)).mp (supply issue)
  · rintro ⟨amount,supply⟩
    refine ⟨fun counted => ?_,fun cap => ?_,fun issue => ?_⟩
    · obtain ⟨n,read,positive,small⟩ := amountChecked typed counted
      exact (amountGuardOk read positive small).mpr (amount counted)
    · obtain ⟨n,read,-,small⟩ := amountChecked typed (capped cap)
      exact capGuardOk read small
    · rw [typeCheck,issue] at typed
      exact (supplyGuardOk typed (supplyGuarded guarded issue)).mpr (supply issue)

theorem fromDictToDict {tx read : RawTransaction} : fromDict tx.toDict = .ok read ↔
    (tx.senderPubkey ≠ [] → tx.senderPubkey.length = 1952) ∧
    FeeInRange tx.maxFeePerWeight ∧ FeeInRange tx.maxPriorityFee ∧
    payloadGuards (some tx.txType.value) tx.payload = .ok () ∧ tx = read := by
  simp [fromDict,toDict,Json.get,Json.item,Json.lookup,orValueError,Json.strOf,dictOf,hexDataHex,
    Json.tableKey,ofValueValue,feeParamOk,Unique.exists_iff]

structure Decodable (tx : RawTransaction) : Prop where
  keySize : tx.senderPubkey.length = 1952
  maxFee : FeeInRange tx.maxFeePerWeight
  priorityFee : FeeInRange tx.maxPriorityFee
  amountPlain : tx.txType.value ∈ amountTypes → (tx.get "amount").boolOf = none
  supplyPlain : tx.txType = .ISSUE_TOKEN → (tx.get "max_supply").boolOf = none

def Admitted (tx : RawTransaction) : Prop := ∃ (s : Blockchain) (now : Int), s.submitRaw now tx = .ok ()

def Decodes (tx : RawTransaction) : Prop :=
  ∃ read, fromDict tx.toDict = .ok read ∧ read.signableBytes = tx.signableBytes ∧ read.txId = tx.txId

theorem admittedReads {tx : RawTransaction} (admitted : tx.Admitted) :
    fromDict tx.toDict = .ok tx ↔ tx.Decodable := by
  obtain ⟨s,now,run⟩ := admitted
  obtain ⟨signed,checked⟩ := Blockchain.submitRawValidated run
  have present : tx.senderPubkey ≠ [] := by
    intro none
    rw [verify,none] at signed
    simp at signed
  rw [fromDictToDict,payloadGuardsAdmitted checked]
  constructor
  · rintro ⟨size,maxFee,priorityFee,⟨amount,supply⟩,-⟩
    exact ⟨size present,maxFee,priorityFee,amount,supply⟩
  · rintro ⟨size,maxFee,priorityFee,amount,supply⟩
    exact ⟨fun _ => size,maxFee,priorityFee,⟨amount,supply⟩,rfl⟩

theorem admittedDecodes {tx : RawTransaction} (admitted : tx.Admitted) : tx.Decodes ↔ tx.Decodable := by
  rw [← admittedReads admitted]
  constructor
  · rintro ⟨read,run,-⟩
    obtain ⟨-,-,-,-,rfl⟩ := fromDictToDict.mp run
    exact run
  · intro run
    exact ⟨tx,run,rfl,rfl⟩

end RawTransaction

namespace RawBlock

def view (block : RawBlock) : Block where
  index := block.index.value
  prevHash := block.prevHash.strOf.getD ""
  transactions := block.transactions.map RawTransaction.view
  validator := block.validator.strOf.getD ""
  timestamp := block.timestamp.value
  signature := block.signature
  baseFee := block.baseFee
  stateRoot := block.stateRoot.strOf.getD ""
  receiptsRoot := block.receiptsRoot.strOf.getD ""

variable [Env]

def nextBaseFee (parent : RawBlock) : Int :=
  let index := parent.index.value + 1
  if dynamicActive index then expectedBaseFee parent.view index else 0

def assemble (parent : RawBlock) (transactions : List RawTransaction) (validator : Address) (sk : Bytes)
    (now : Int) (stateRoot receiptsRoot : String) : RawBlock :=
  sign
    { index := .int (parent.index.value + 1)
      prevHash := .str parent.blockHash
      transactions
      validator := .str validator
      timestamp := .int (max now (parent.timestamp.value + 1))
      baseFee := nextBaseFee parent
      stateRoot := .str stateRoot
      receiptsRoot := .str receiptsRoot } sk

variable [PyText]

def Decodes (block : RawBlock) : Prop :=
  ∃ read, fromDict block.toDict = .ok read ∧ read.blockHash = block.blockHash ∧
    ∀ pk, read.verifySignature pk = block.verifySignature pk

theorem claimsOwn (block : RawBlock) : claimedHash (.str block.blockHash) block = .ok () := by
  rw [claimedHash,Json.equalStrRefl,if_neg (by simp)]

theorem transactionsRead {txs read : List RawTransaction} :
    (txs.map RawTransaction.toDict).mapM RawTransaction.fromDict = .ok read ↔
      (∀ tx ∈ txs, RawTransaction.fromDict tx.toDict = .ok tx) ∧ txs = read := by
  induction txs generalizing read with
  | nil => simp [pure,Except.pure]
  | cons tx rest ih =>
    simp only [List.map_cons,List.mapM_cons,Outcome.bindOk,ih,List.forall_mem_cons]
    constructor
    · rintro ⟨first,run,_,⟨later,rfl⟩,made⟩
      cases made
      obtain ⟨-,-,-,-,rfl⟩ := RawTransaction.fromDictToDict.mp run
      exact ⟨⟨run,later⟩,rfl⟩
    · rintro ⟨⟨run,later⟩,rfl⟩
      exact ⟨tx,run,rest,⟨later,rfl⟩,rfl⟩

theorem fromDictToDict {block read : RawBlock} : fromDict block.toDict = .ok read ↔
    0 ≤ block.baseFee ∧ (∀ tx ∈ block.transactions, RawTransaction.fromDict tx.toDict = .ok tx) ∧
      block = read := by
  have parsed : fromDict block.toDict = .ok read ↔
      0 ≤ block.baseFee ∧ ∃ transactions,
        (block.transactions.map RawTransaction.toDict).mapM RawTransaction.fromDict = .ok transactions ∧
        claimedHash (.str block.blockHash) { block with transactions } = .ok () ∧
        { block with transactions } = read := by
    simp [fromDict,toDict,Json.get,Json.item,Json.lookup,orValueError,Json.plainInt,Json.entries,
      Json.fromHexValue,Json.fromHexHex,Unique.exists_iff]
  rw [parsed]
  simp only [transactionsRead,and_assoc,exists_and_left,exists_eq_left',claimsOwn,true_and]

omit [PyText] in
theorem nextBaseFeeNonneg (parent : RawBlock) : 0 ≤ nextBaseFee parent := by
  simp only [nextBaseFee]
  split
  · exact Blockchain.expectedBaseFeeNonneg ..
  · exact Int.le_refl 0

theorem assembledDecodes {parent : RawBlock} {transactions : List RawTransaction} {validator : Address} {sk : Bytes}
    {now : Int} {stateRoot receiptsRoot : String} (admitted : ∀ tx ∈ transactions, tx.Admitted) :
    (assemble parent transactions validator sk now stateRoot receiptsRoot).Decodes ↔
      ∀ tx ∈ transactions, tx.Decodable := by
  have reads : ∀ read, fromDict (assemble parent transactions validator sk now stateRoot receiptsRoot).toDict = .ok read ↔
      (∀ tx ∈ transactions, tx.Decodable) ∧
        assemble parent transactions validator sk now stateRoot receiptsRoot = read := by
    intro read
    rw [fromDictToDict]
    constructor
    · rintro ⟨-,run,same⟩
      exact ⟨fun tx inside => (RawTransaction.admittedReads (admitted tx inside)).mp (run tx inside),same⟩
    · rintro ⟨decodable,same⟩
      exact ⟨nextBaseFeeNonneg parent,
        fun tx inside => (RawTransaction.admittedReads (admitted tx inside)).mpr (decodable tx inside),same⟩
  constructor
  · rintro ⟨read,run,-⟩
    exact ((reads read).mp run).1
  · intro decodable
    exact ⟨_,(reads _).mpr ⟨decodable,rfl⟩,rfl,fun _ => rfl⟩

end RawBlock

theorem admittedReadBack [Env] [PyText] :
    (∀ tx : RawTransaction, tx.Admitted → (tx.Decodes ↔ tx.Decodable)) ∧
    ∀ (parent : RawBlock) (transactions : List RawTransaction) (validator : Address) (sk : Bytes) (now : Int)
      (stateRoot receiptsRoot : String), (∀ tx ∈ transactions, tx.Admitted) →
      ((RawBlock.assemble parent transactions validator sk now stateRoot receiptsRoot).Decodes ↔
        ∀ tx ∈ transactions, tx.Decodable) :=
  ⟨fun _ admitted => RawTransaction.admittedDecodes admitted,
    fun _ _ _ _ _ _ _ admitted => RawBlock.assembledDecodes admitted⟩

namespace Devnet
attribute [local instance] legacy plainText

def wideKey : Bytes := List.replicate 1952 1

def payee : Address := "qv1" ++ hex (List.replicate 32 0)

def transferOf (amount : Json) : RawTransaction :=
  RawTransaction.sign
    { txType := .TRANSFER
      sender := deriveAddress wideKey
      payload := [("amount",amount)]
      recipient := .str payee
      timestamp := .int 101 } wideKey wideKey

theorem transferAdmitted : (transferOf (.int 1)).Admitted := ⟨genesis,101,by decide +kernel⟩

theorem boolAdmitted : (transferOf (.bool true)).Admitted := ⟨genesis,101,by decide +kernel⟩

def origin : RawBlock :=
  { index := .int 0
    prevHash := .str "0000000000000000000000000000000000000000000000000000000000000000"
    transactions := []
    validator := .str address
    timestamp := .int 100 }

def blockOf (amount : Json) : RawBlock := RawBlock.assemble origin [transferOf amount] address key 102 "" ""

theorem plainReadBack : (transferOf (.int 1)).Decodes ∧ (blockOf (.int 1)).Decodes := by
  have decodable : (transferOf (.int 1)).Decodable :=
    ⟨by decide +kernel,⟨by decide,by decide⟩,⟨by decide,by decide⟩,fun _ => rfl,fun _ => rfl⟩
  have alone : ∀ tx ∈ [transferOf (.int 1)], tx.Admitted := by
    intro tx inside
    rw [List.mem_singleton.mp inside]
    exact transferAdmitted
  refine ⟨(admittedReadBack.1 _ transferAdmitted).mpr decodable,?_⟩
  refine (admittedReadBack.2 origin _ address key 102 "" "" alone).mpr (fun tx inside => ?_)
  rw [List.mem_singleton.mp inside]
  exact decodable

theorem boolUnread : (transferOf (.bool true)).Admitted ∧ ¬(transferOf (.bool true)).Decodes ∧
    ¬(blockOf (.bool true)).Decodes := by
  have undecodable : ¬(transferOf (.bool true)).Decodable :=
    fun decodable => Option.some_ne_none true (decodable.amountPlain (by decide))
  refine ⟨boolAdmitted,?_,?_⟩
  · rintro ⟨read,run,-⟩
    obtain ⟨-,-,-,-,rfl⟩ := RawTransaction.fromDictToDict.mp run
    exact undecodable ((RawTransaction.admittedReads boolAdmitted).mp run)
  · rintro ⟨read,run,-⟩
    have inside : transferOf (.bool true) ∈ (blockOf (.bool true)).transactions := List.mem_singleton.mpr rfl
    have first := (RawBlock.fromDictToDict.mp run).2.1 _ inside
    exact undecodable ((RawTransaction.admittedReads boolAdmitted).mp first)

end Devnet

end QbitNetwork
