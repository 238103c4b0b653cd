import QbitNetwork.Decoding

/-! The SDK's side of a transaction: what its builder builds, what a key pair signs, and what the node
reads of it. Arguments are any JSON values, as nothing checks their types. -/
namespace QbitNetwork.Sdk

structure UnsignedTransaction where
  txType : String
  sender : Json
  recipient : Json
  timestamp : Json
  nonce : Json
  chainId : Json
  maxFeePerWeight : Json
  maxPriorityFee : Json
  payload : List (String × Json)

def UnsignedTransaction.signableBytes (tx : UnsignedTransaction) : Bytes := Json.dumps (.obj
  [("chainId",tx.chainId),("from",tx.sender),("maxFeePerWeight",tx.maxFeePerWeight),
   ("maxPriorityFee",tx.maxPriorityFee),("nonce",tx.nonce),("payload",.obj tx.payload),
   ("timestamp",tx.timestamp),("to",tx.recipient),("type",.str tx.txType)])

structure SignedTransaction where
  txType : String
  sender : Json
  recipient : Json
  timestamp : Json
  nonce : Json
  chainId : Json
  maxFeePerWeight : Json
  maxPriorityFee : Json
  payload : List (String × Json)
  signature : Bytes
  senderPubkey : Bytes

namespace SignedTransaction

def signableBytes (tx : SignedTransaction) : Bytes := Json.dumps (.obj
  [("chainId",tx.chainId),("from",tx.sender),("maxFeePerWeight",tx.maxFeePerWeight),
   ("maxPriorityFee",tx.maxPriorityFee),("nonce",tx.nonce),("payload",.obj tx.payload),
   ("timestamp",tx.timestamp),("to",tx.recipient),("type",.str tx.txType)])

def toDict (tx : SignedTransaction) : Json := .obj
  [("type",.str tx.txType),("from",tx.sender),("to",tx.recipient),("timestamp",tx.timestamp),
   ("nonce",tx.nonce),("chainId",tx.chainId),("maxFeePerWeight",tx.maxFeePerWeight),
   ("maxPriorityFee",tx.maxPriorityFee),("payload",.obj tx.payload),("signature",.str (hex tx.signature)),
   ("sender_pubkey",.str (hex tx.senderPubkey))]

end SignedTransaction

section Identity
variable [Env]

def UnsignedTransaction.txId (tx : UnsignedTransaction) : String := hex (sha3_256 tx.signableBytes)

def SignedTransaction.txId (tx : SignedTransaction) : String := hex (sha3_256 tx.signableBytes)

end Identity

def mldsaSkSize : Nat := 4032
def mldsaPkSize : Nat := 1952

structure KeyPair where
  sk : Bytes
  pk : Bytes
  skSize : sk.length = mldsaSkSize
  pkSize : pk.length = mldsaPkSize

namespace KeyPair
variable [Env]

def address (kp : KeyPair) : Address := deriveAddress kp.pk

def signTx [PyText] (kp : KeyPair) (tx : UnsignedTransaction) : Except PyExc SignedTransaction := do
  raiseIf (tx.sender.equal (.str kp.address) = false)
    ("transaction sender " ++ PyText.str tx.sender ++ s!" does not match keypair address {kp.address}")
  .ok
    { txType := tx.txType
      sender := tx.sender
      recipient := tx.recipient
      timestamp := tx.timestamp
      nonce := tx.nonce
      chainId := tx.chainId
      maxFeePerWeight := tx.maxFeePerWeight
      maxPriorityFee := tx.maxPriorityFee
      payload := tx.payload
      signature := Env.mldsaSign kp.sk tx.signableBytes
      senderPubkey := kp.pk }

def Honest (kp : KeyPair) : Prop := ∀ message, verifySig kp.pk message (Env.mldsaSign kp.sk message) = true

end KeyPair

structure TransactionBuilder where
  chainId : Json := .str QbitNetwork.chainId
  txType : Option String := none
  sender : Json := .str ""
  recipient : Json := .str ""
  nonce : Json := .null
  timestamp : Json := .null
  maxFeePerWeight : Json := .int 0
  maxPriorityFee : Json := .int 0
  payload : List (String × Json) := []

def given (key : String) (value : Json) : List (String × Json) := if value.truthy then [(key,value)] else []

namespace TransactionBuilder

section Factories

def transfer (recipient amount memo : Json) (b : TransactionBuilder) : TransactionBuilder :=
  { b with txType := some "TRANSFER", recipient, payload := ("amount",amount) :: given "memo" memo }

def notarize (documentHash metadata : Json) (b : TransactionBuilder) : TransactionBuilder :=
  { b with txType := some "NOTARIZE", payload := ("documentHash",documentHash) :: given "metadata" metadata }

def store (documentHash cid metadata : Json) (b : TransactionBuilder) : TransactionBuilder :=
  { b with
    txType := some "STORE"
    payload := ("documentHash",documentHash) :: ("cid",cid) :: given "metadata" metadata }

def share (recipient cid encapsulatedKey expires : Json) (b : TransactionBuilder) : TransactionBuilder :=
  { b with
    txType := some "SHARE"
    recipient
    payload := ("cid",cid) :: ("encapsulatedKey",encapsulatedKey) :: given "expires" expires }

def stake (validator amount : Json) (b : TransactionBuilder) : TransactionBuilder :=
  { b with txType := some "STAKE", payload := [("amount",amount),("validator_address",validator)] }

def delegate (validator amount : Json) (b : TransactionBuilder) : TransactionBuilder :=
  { b with txType := some "DELEGATE", payload := [("amount",amount),("validator_address",validator)] }

def unstake (validator amount : Json) (b : TransactionBuilder) : TransactionBuilder :=
  { b with txType := some "UNSTAKE", payload := [("amount",amount),("validator_address",validator)] }

def registerKey (encryptionPk : Json) (b : TransactionBuilder) : TransactionBuilder :=
  { b with txType := some "REGISTER_KEY", payload := [("encryption_pk",encryptionPk)] }

def registerValidator (validatorPubkey validatorAddress commission : Json) (b : TransactionBuilder) :
    TransactionBuilder :=
  { b with
    txType := some "REGISTER_VALIDATOR"
    payload := [("validator_pubkey",validatorPubkey),("validator_address",validatorAddress),("commission",commission)] }

def revokeKey (keyType reason : Json) (b : TransactionBuilder) : TransactionBuilder :=
  { b with txType := some "REVOKE_KEY", payload := [("key_type",keyType),("reason",reason)] }

def issueToken (name symbol decimals maxSupply transferable : Json) (b : TransactionBuilder) : TransactionBuilder :=
  { b with
    txType := some "ISSUE_TOKEN"
    payload := [("name",name),("symbol",symbol),("decimals",decimals),("max_supply",maxSupply),
      ("transferable",transferable)] }

def mintToken (recipient tokenId amount : Json) (b : TransactionBuilder) : TransactionBuilder :=
  { b with txType := some "MINT_TOKEN", recipient, payload := [("token_id",tokenId),("amount",amount)] }

def transferToken (recipient tokenId amount memo : Json) (b : TransactionBuilder) : TransactionBuilder :=
  { b with
    txType := some "TRANSFER_TOKEN"
    recipient
    payload := ("token_id",tokenId) :: ("amount",amount) :: given "memo" memo }

end Factories

def setSender (address : Json) (b : TransactionBuilder) : TransactionBuilder := { b with sender := address }

def setNonce (nonce : Json) (b : TransactionBuilder) : TransactionBuilder := { b with nonce }

def setFee (maxFeePerWeight maxPriorityFee : Json) (b : TransactionBuilder) : TransactionBuilder :=
  { b with maxFeePerWeight, maxPriorityFee }

def setTimestamp (ts : Json) (b : TransactionBuilder) : TransactionBuilder := { b with timestamp := ts }

section Build

def recipientRequired : List String := ["TRANSFER","SHARE","MINT_TOKEN","TRANSFER_TOKEN"]

def addressFormat : Json → Except PyExc Bool
  | .str text => .ok ((encode text).take 3 == encode addressPrefix && text.length == 67)
  | _ => .error .attributeError

def feesNegative (b : TransactionBuilder) : Except PyExc Bool := do
  if ← b.maxFeePerWeight.less (.int 0) then .ok true else b.maxPriorityFee.less (.int 0)

variable [PyText]

def nonceCheck : Json → Except PyExc Unit
  | .null => .error (.valueError "nonce not set — call set_nonce()")
  | nonce => do raiseIf ((← nonce.less (.int 0)) = true) "nonce must be non-negative"

def addressCheck (label : String) (value : Json) : Except PyExc Unit := do
  raiseIf ((← addressFormat value) = false) (s!"invalid {label} address format: " ++ PyText.str value)

def build (b : TransactionBuilder) (now : Int) : Except PyExc UnsignedTransaction := do
  let txType ← orValueError "transaction type not set — call a type method first" b.txType
  raiseIf (b.sender.truthy = false) "sender address not set — call set_sender()"
  addressCheck "sender" b.sender
  nonceCheck b.nonce
  raiseIf (txType ∈ recipientRequired ∧ b.recipient.truthy = false) s!"{txType} requires a recipient — set 'to'"
  only (b.recipient.truthy = true) (addressCheck "recipient" b.recipient)
  raiseIf ((← b.feesNegative) = true) "fee parameters must be non-negative"
  let timestamp := match b.timestamp with
    | .null => .int now
    | ts => ts
  .ok
    { txType
      sender := b.sender
      recipient := b.recipient
      timestamp
      nonce := b.nonce
      chainId := b.chainId
      maxFeePerWeight := b.maxFeePerWeight
      maxPriorityFee := b.maxPriorityFee
      payload := b.payload }

end Build

inductive Chained : TransactionBuilder → Prop where
  | start (chainId : Json) : Chained { chainId }
  | transfer {b : TransactionBuilder} (prior : Chained b) (recipient amount memo : Json) : Chained (b.transfer recipient amount memo)
  | notarize {b : TransactionBuilder} (prior : Chained b) (documentHash metadata : Json) :
    Chained (b.notarize documentHash metadata)
  | store {b : TransactionBuilder} (prior : Chained b) (documentHash cid metadata : Json) :
    Chained (b.store documentHash cid metadata)
  | share {b : TransactionBuilder} (prior : Chained b) (recipient cid encapsulatedKey expires : Json) :
    Chained (b.share recipient cid encapsulatedKey expires)
  | stake {b : TransactionBuilder} (prior : Chained b) (validator amount : Json) : Chained (b.stake validator amount)
  | delegate {b : TransactionBuilder} (prior : Chained b) (validator amount : Json) : Chained (b.delegate validator amount)
  | unstake {b : TransactionBuilder} (prior : Chained b) (validator amount : Json) : Chained (b.unstake validator amount)
  | registerKey {b : TransactionBuilder} (prior : Chained b) (encryptionPk : Json) : Chained (b.registerKey encryptionPk)
  | registerValidator {b : TransactionBuilder} (prior : Chained b) (validatorPubkey validatorAddress commission : Json) :
    Chained (b.registerValidator validatorPubkey validatorAddress commission)
  | revokeKey {b : TransactionBuilder} (prior : Chained b) (keyType reason : Json) : Chained (b.revokeKey keyType reason)
  | issueToken {b : TransactionBuilder} (prior : Chained b) (name symbol decimals maxSupply transferable : Json) :
    Chained (b.issueToken name symbol decimals maxSupply transferable)
  | mintToken {b : TransactionBuilder} (prior : Chained b) (recipient tokenId amount : Json) :
    Chained (b.mintToken recipient tokenId amount)
  | transferToken {b : TransactionBuilder} (prior : Chained b) (recipient tokenId amount memo : Json) :
    Chained (b.transferToken recipient tokenId amount memo)
  | setSender {b : TransactionBuilder} (prior : Chained b) (address : Json) : Chained (b.setSender address)
  | setNonce {b : TransactionBuilder} (prior : Chained b) (nonce : Json) : Chained (b.setNonce nonce)
  | setFee {b : TransactionBuilder} (prior : Chained b) (maxFeePerWeight maxPriorityFee : Json) :
    Chained (b.setFee maxFeePerWeight maxPriorityFee)
  | setTimestamp {b : TransactionBuilder} (prior : Chained b) (ts : Json) : Chained (b.setTimestamp ts)

def Shaped (name : String) (payload : List (String × Json)) : Prop :=
  ∃ txType : TxType, txType.value = name ∧ (payload.map Prod.fst).Sublist (allowedKeys txType)

theorem givenKeys (key : String) (value : Json) : ((given key value).map Prod.fst).Sublist [key] := by
  unfold given
  split
  · exact .refl _
  · exact List.nil_sublist _

theorem chainedShaped {b : TransactionBuilder} (chained : Chained b) : ∀ name ∈ b.txType, Shaped name b.payload := by
  induction chained with
  | start chainId => exact fun name none => absurd none nofun
  | setSender _ _ ih => exact ih
  | setNonce _ _ ih => exact ih
  | setFee _ _ _ ih => exact ih
  | setTimestamp _ _ ih => exact ih
  | transfer _ recipient amount memo =>
    rintro _ ⟨⟩
    exact ⟨.TRANSFER,rfl,.cons_cons _ (givenKeys ..)⟩
  | notarize _ documentHash metadata =>
    rintro _ ⟨⟩
    exact ⟨.NOTARIZE,rfl,.cons_cons _ (givenKeys ..)⟩
  | store _ documentHash cid metadata =>
    rintro _ ⟨⟩
    exact ⟨.STORE,rfl,.cons_cons _ (.cons_cons _ (givenKeys ..))⟩
  | share _ recipient cid encapsulatedKey expires =>
    rintro _ ⟨⟩
    exact ⟨.SHARE,rfl,.cons_cons _ (.cons_cons _ (givenKeys ..))⟩
  | stake =>
    rintro _ ⟨⟩
    exact ⟨.STAKE,rfl,.refl _⟩
  | delegate =>
    rintro _ ⟨⟩
    exact ⟨.DELEGATE,rfl,.refl _⟩
  | unstake =>
    rintro _ ⟨⟩
    exact ⟨.UNSTAKE,rfl,.refl _⟩
  | registerKey =>
    rintro _ ⟨⟩
    exact ⟨.REGISTER_KEY,rfl,.refl _⟩
  | registerValidator =>
    rintro _ ⟨⟩
    exact ⟨.REGISTER_VALIDATOR,rfl,.refl _⟩
  | revokeKey =>
    rintro _ ⟨⟩
    exact ⟨.REVOKE_KEY,rfl,.refl _⟩
  | issueToken =>
    rintro _ ⟨⟩
    exact ⟨.ISSUE_TOKEN,rfl,.refl _⟩
  | mintToken =>
    rintro _ ⟨⟩
    exact ⟨.MINT_TOKEN,rfl,.refl _⟩
  | transferToken _ recipient tokenId amount memo =>
    rintro _ ⟨⟩
    exact ⟨.TRANSFER_TOKEN,rfl,.cons_cons _ (.cons_cons _ (givenKeys ..))⟩

end TransactionBuilder

section Reading

theorem pyIntBack {value : Json} {n : PyInt} (read : value.pyInt = some n) : value = n.toJson := by
  cases value <;> cases read <;> rfl

theorem strBack {value : Json} {text : String} (read : value.strOf = some text) : value = .str text := by
  cases value <;> cases read
  rfl

theorem orValueErrorOk {α : Type} {message : String} {found : Option α} {value : α} :
    orValueError message found = .ok value ↔ found = some value := by
  cases found <;> simp [orValueError]

variable [PyText]

omit [PyText] in
theorem feeBack {label : String} {value : Json} {fee : PyInt} (read : feeParam label value = .ok fee) :
    value = fee.toJson := by
  simp only [feeParam,Outcome.bindOk,orValueErrorOk] at read
  obtain ⟨found,there,_,-,_,-,same⟩ := read
  cases same
  exact pyIntBack there

theorem typeBack {name : String} {txType : TxType} (read : TxType.ofValue (.str name) = .ok txType) :
    txType.value = name := by
  simp only [TxType.ofValue,orValueErrorOk] at read
  have same := List.find?_some read
  simp only [Json.equal,beq_iff_eq] at same
  exact same.symm

structure Reads (stx : SignedTransaction) (tx : RawTransaction) : Prop where
  txType : tx.txType.value = stx.txType
  sender : stx.sender = .str tx.sender
  recipient : tx.recipient = stx.recipient
  timestamp : stx.timestamp = tx.timestamp.toJson
  nonce : stx.nonce = tx.nonce.toJson
  chainId : stx.chainId = .str tx.chainId
  maxFeePerWeight : stx.maxFeePerWeight = tx.maxFeePerWeight.toJson
  maxPriorityFee : stx.maxPriorityFee = tx.maxPriorityFee.toJson
  payload : tx.payload = stx.payload
  signature : tx.signature = stx.signature
  senderPubkey : tx.senderPubkey = stx.senderPubkey

theorem fromDictReads {stx : SignedTransaction} {tx : RawTransaction} (run : RawTransaction.fromDict stx.toDict = .ok tx) :
    Reads stx tx := by
  simp [RawTransaction.fromDict,SignedTransaction.toDict,Json.get,Json.item,Json.lookup,RawTransaction.dictOf,
    hexDataHex,Json.tableKey,orValueErrorOk] at run
  obtain ⟨timestamp,dated,sender,sent,nonce,numbered,-,chainId,chained,fee,fees,priority,priorities,-,txType,named,rfl⟩ := run
  exact ⟨typeBack named,strBack sent,rfl,pyIntBack dated,pyIntBack numbered,strBack chained,feeBack fees,
    feeBack priorities,rfl,rfl,rfl⟩

omit [PyText] in
theorem Reads.bytes {stx : SignedTransaction} {tx : RawTransaction} (reads : Reads stx tx) :
    tx.signableBytes = stx.signableBytes := by
  rw [RawTransaction.signableBytes,RawTransaction.signableJson,SignedTransaction.signableBytes,reads.txType,
    reads.sender,reads.recipient,reads.timestamp,reads.nonce,reads.chainId,reads.maxFeePerWeight,
    reads.maxPriorityFee,reads.payload]

theorem valueInjective {txType other : TxType} (same : txType.value = other.value) : txType = other := by
  have found := ofValueValue txType
  rw [same,ofValueValue] at found
  exact (Except.ok.inj found).symm

theorem buildKeeps {b : TransactionBuilder} {now : Int} {tx : UnsignedTransaction} (built : b.build now = .ok tx) :
    b.txType = some tx.txType ∧ tx.payload = b.payload := by
  simp only [TransactionBuilder.build,Outcome.bindOk,orValueErrorOk] at built
  obtain ⟨txType,named,-,-,-,-,-,-,-,-,-,-,-,-,-,-,made⟩ := built
  cases made
  exact ⟨named,rfl⟩

variable [Env]

structure Signs (kp : KeyPair) (tx : UnsignedTransaction) (stx : SignedTransaction) : Prop where
  sender : stx.sender = .str kp.address
  bytes : stx.signableBytes = tx.signableBytes
  txType : stx.txType = tx.txType
  payload : stx.payload = tx.payload
  signature : stx.signature = Env.mldsaSign kp.sk tx.signableBytes
  senderPubkey : stx.senderPubkey = kp.pk

theorem signTxSigns {kp : KeyPair} {tx : UnsignedTransaction} {stx : SignedTransaction} (run : kp.signTx tx = .ok stx) :
    Signs kp tx stx := by
  simp only [KeyPair.signTx,Outcome.bindOk,raiseIfOk,Bool.not_eq_false] at run
  obtain ⟨_,own,made⟩ := run
  cases made
  exact ⟨Json.equalStr own,rfl,rfl,rfl,rfl,rfl⟩

theorem signedReadBack {b : TransactionBuilder} (chained : b.Chained) {now : Int} {unsigned : UnsignedTransaction}
    (built : b.build now = .ok unsigned) {kp : KeyPair} (honest : kp.Honest) {signed : SignedTransaction}
    (signs : kp.signTx unsigned = .ok signed) {tx : RawTransaction} (read : RawTransaction.fromDict signed.toDict = .ok tx) :
    tx.signableBytes = unsigned.signableBytes ∧ tx.signableBytes = signed.signableBytes ∧
      tx.txId = unsigned.txId ∧ tx.txId = signed.txId ∧ tx.verify = true ∧
      (tx.payload.map Prod.fst).Sublist (allowedKeys tx.txType) := by
  have reads := fromDictReads read
  have own := signTxSigns signs
  have bytes : tx.signableBytes = unsigned.signableBytes := reads.bytes.trans own.bytes
  have sender : tx.sender = kp.address := Json.str.inj (reads.sender.symm.trans own.sender)
  obtain ⟨named,payload⟩ := buildKeeps built
  obtain ⟨txType,same,keys⟩ := TransactionBuilder.chainedShaped chained _ named
  obtain rfl : txType = tx.txType := valueInjective (same.trans (reads.txType.trans own.txType).symm)
  have accepted := honest tx.signableBytes
  simp only [verifySig,Bool.and_eq_true] at accepted
  obtain ⟨⟨keyed,signed⟩,valid⟩ := accepted
  refine ⟨bytes,reads.bytes,?_,?_,?_,?_⟩
  · rw [RawTransaction.txId,RawTransaction.txHash,bytes,UnsignedTransaction.txId]
  · rw [RawTransaction.txId,RawTransaction.txHash,reads.bytes,SignedTransaction.txId]
  · rw [RawTransaction.verify,reads.signature,own.signature,reads.senderPubkey,own.senderPubkey,sender,← bytes,verifySig]
    simp [keyed,signed,valid,KeyPair.address]
  · rw [reads.payload,own.payload,payload]
    exact keys

end Reading

namespace Devnet
open QbitNetwork.Devnet

@[reducible] def wide : Env := { legacy with mldsaSign := fun sk message => sk.take mldsaPkSize ++ Devnet.hash message }

section Wide
attribute [local instance] wide plainText

def pair : KeyPair := ⟨List.replicate 4032 1,wideKey,List.length_replicate,List.length_replicate⟩

theorem pairHonest : pair.Honest := by
  intro message
  have front : pair.sk.take mldsaPkSize = wideKey := List.take_replicate
  have signature : Env.mldsaSign pair.sk message = wideKey ++ Devnet.hash message :=
    congrArg (· ++ Devnet.hash message) front
  rw [signature]
  exact signatureVerifies 1000000 message (List.cons_ne_nil _ _) (by decide +kernel)

def transferBuilder : TransactionBuilder :=
  ((({} : TransactionBuilder).transfer (.str payee) (.int 1000) (.str "rent")).setSender (.str pair.address)).setNonce (.int 0)

def received (b : TransactionBuilder) (kp : KeyPair) : Except PyExc RawTransaction := do
  RawTransaction.fromDict (← kp.signTx (← b.build 101)).toDict

theorem receivedOk (b : TransactionBuilder) (kp : KeyPair) (run : (received b kp).isOk = true) :
    ∃ unsigned signed tx, b.build 101 = .ok unsigned ∧ kp.signTx unsigned = .ok signed ∧
      RawTransaction.fromDict signed.toDict = .ok tx := by
  cases answer : received b kp with
  | error raised =>
    rw [answer] at run
    cases run
  | ok tx =>
    simp only [received,Outcome.bindOk] at answer
    obtain ⟨unsigned,built,signed,signs,read⟩ := answer
    exact ⟨unsigned,signed,tx,built,signs,read⟩

theorem transferReadBack : ∃ unsigned signed tx, transferBuilder.build 101 = .ok unsigned ∧
    pair.signTx unsigned = .ok signed ∧ RawTransaction.fromDict signed.toDict = .ok tx ∧
    tx.signableBytes = unsigned.signableBytes ∧ tx.txId = unsigned.txId ∧ tx.verify = true := by
  have chained : transferBuilder.Chained := .setNonce (.setSender (.transfer (.start _) _ _ _) _) _
  obtain ⟨unsigned,signed,tx,built,signs,read⟩ := receivedOk transferBuilder pair (by decide +kernel)
  have back := signedReadBack chained built pairHonest signs read
  exact ⟨unsigned,signed,tx,built,signs,read,back.1,back.2.2.1,back.2.2.2.2.1⟩

end Wide

end Devnet

end QbitNetwork.Sdk
