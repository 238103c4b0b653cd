import QbitNetwork.Header
import QbitNetwork.TxPool

/-! A transaction as the object the node holds: the payload any JSON object, the recipient
any JSON value and its numbers ints of Python, of which a bool is one. Admission and
decoding check what they check of it and no more. -/
namespace QbitNetwork

/- What passes `isinstance(value, int)`. -/
inductive PyInt where
  | int (value : Int)
  | bool (value : Bool)
  deriving DecidableEq

namespace PyInt

def value : PyInt → Int
  | .int value => value
  | .bool value => if value then 1 else 0

def toJson : PyInt → Json
  | .int value => .int value
  | .bool value => .bool value

end PyInt

namespace Json

def pyInt : Json → Option PyInt
  | .int value => some (.int value)
  | .bool value => some (.bool value)
  | _ => none

def strOf : Json → Option String
  | .str value => some value
  | _ => none

def boolOf : Json → Option Bool
  | .bool value => some value
  | _ => none

@[simp] theorem pyIntToJson (n : PyInt) : n.toJson.pyInt = some n := by cases n <;> rfl

end Json

structure RawTransaction where
  txType : TxType
  sender : Address
  payload : List (String × Json)
  recipient : Json := .str ""
  timestamp : PyInt
  signature : Bytes := []
  senderPubkey : Bytes := []
  nonce : PyInt := .int 0
  chainId : String := QbitNetwork.chainId
  maxFeePerWeight : PyInt := .int 0
  maxPriorityFee : PyInt := .int 0

namespace RawTransaction

def signableJson (tx : RawTransaction) : Json := .obj
  [("chainId",.str tx.chainId),("from",.str tx.sender),
   ("maxFeePerWeight",tx.maxFeePerWeight.toJson),("maxPriorityFee",tx.maxPriorityFee.toJson),
   ("nonce",tx.nonce.toJson),("payload",.obj tx.payload),("timestamp",tx.timestamp.toJson),
   ("to",tx.recipient),("type",.str tx.txType.value)]

def signableBytes (tx : RawTransaction) : Bytes := tx.signableJson.dumps

def get (tx : RawTransaction) (key : String) (dflt : Json := .null) : Json :=
  (Json.lookup tx.payload key).getD dflt

section Identity
variable [Env]

def txHash (tx : RawTransaction) : Bytes := sha3_256 tx.signableBytes

def txId (tx : RawTransaction) : String := hex tx.txHash

def sign (tx : RawTransaction) (signingSk signingPk : Bytes) : RawTransaction :=
  { tx with senderPubkey := signingPk, signature := Env.mldsaSign signingSk tx.signableBytes }

def verify (tx : RawTransaction) : Bool :=
  !tx.signature.isEmpty && !tx.senderPubkey.isEmpty &&
    deriveAddress tx.senderPubkey == tx.sender &&
    verifySig tx.senderPubkey tx.signableBytes tx.signature

end Identity

end RawTransaction

section Fields

def only {ε : Type} (c : Prop) [Decidable c] (check : Except ε Unit) : Except ε Unit :=
  if c then check else .ok ()

@[simp] theorem onlyOk {ε : Type} (c : Prop) [Decidable c] (check : Except ε Unit) (passed : Unit) :
    only c check = .ok passed ↔ (c → check = .ok ()) := by
  unfold only
  split <;> simp_all

/- `not value or not _HEX_RE.match(value)`: a value that is true and no string raises. -/
def hexText (value : Json) (message : String) : Except Halt String := do
  refuseIf (value.truthy = false) message
  match value with
  | .str text => do
    refuseIf (hexRe text = false) message
    .ok text
  | _ => .error (.raised .typeError)

/- `not isinstance(value, str) or not value`. -/
def textField (value : Json) (message : String) : Except Halt String :=
  match value with
  | .str text => do
    refuseIf (text = "") message
    .ok text
  | _ => .error (.refused message)

/- `not isinstance(value, int) or bad(value)`. -/
def intField (value : Json) (bad : Int → Prop) [DecidablePred bad] (message : String) : Except Halt Int :=
  match value.intOf with
  | some n => do
    refuseIf (bad n) message
    .ok n
  | none => .error (.refused message)

def optionalText (value : Json) (label : String) (bound : Nat) : Check :=
  match value with
  | .null => .ok ()
  | .str text => refuseIf (bound < text.length) (label ++ s!" exceeds {bound} characters")
  | _ => .error (.refused (label ++ " must be a string"))

theorem intFieldOk {value : Json} {bad : Int → Prop} [DecidablePred bad] {message : String} {n : Int} :
    intField value bad message = .ok n ↔ value.intOf = some n ∧ ¬bad n := by
  unfold intField
  cases value.intOf with
  | none => simp only [reduceCtorEq,false_and]
  | some m =>
    simp only [Outcome.bindOk,refuseIfOk,exists_const,Except.ok.injEq,Option.some.injEq]
    constructor
    · rintro ⟨fits,rfl⟩
      exact ⟨rfl,fits⟩
    · rintro ⟨rfl,fits⟩
      exact ⟨fits,rfl⟩

end Fields

namespace RawTransaction

/- The checks on the recipient of a payment, `self` where it may not be the sender; only a
string has `startswith`. -/
def recipientCheck (tx : RawTransaction) (required : String) (self : Option String) : Check := do
  refuseIf (tx.recipient.truthy = false) required
  refuseIf (self.isSome = true ∧ tx.recipient.equal (.str tx.sender) = true) (self.getD "")
  match tx.recipient with
  | .str recipient =>
    refuseIf (isQv1Address recipient = false) "recipient must be a valid qv1 address (67 chars)"
  | _ => .error (.raised .attributeError)

def documentHashCheck (tx : RawTransaction) : Check := do
  let dh ← hexText (tx.get "documentHash" (.str "")) "documentHash must be non-empty hex string"
  refuseIf (128 < dh.length) "documentHash too long (max 128 hex chars)"

def positiveAmountCheck (tx : RawTransaction) : Check := do
  let amount ← intField (tx.get "amount") (fun n => n ≤ 0) "amount must be a positive integer"
  refuseIf (maxSupply < amount) s!"amount exceeds MAX_SUPPLY ({maxSupply})"

def tokenIdCheck (tx : RawTransaction) : Check :=
  let message := "token_id must be a 32-character hex string"
  match tx.get "token_id" (.str "") with
  | .str tokenId => refuseIf (tokenId.length ≠ 32 ∨ hexRe tokenId = false) message
  | _ => .error (.refused message)

/- `isinstance(value, int) and value > bound`. -/
def exceeds (value : Json) (bound : Int) : Prop := ∃ n ∈ value.intOf, bound < n

instance (value : Json) (bound : Int) : Decidable (exceeds value bound) := by
  unfold exceeds; infer_instance

theorem exceedsRead {value : Json} {n bound : Int} (read : value.intOf = some n) :
    exceeds value bound ↔ bound < n := by
  simp only [exceeds,read,Option.mem_some_iff,exists_eq_left']

def bigIntegerGuards [PyText] (tx : RawTransaction) : Check := do
  only (tx.txType ∈ [.TRANSFER,.STAKE,.DELEGATE,.UNSTAKE,.MINT_TOKEN,.TRANSFER_TOKEN])
    (refuseIf (exceeds (tx.get "amount") maxTxAmount) s!"amount exceeds MAX_TX_AMOUNT ({maxTxAmount})")
  only (tx.txType = .ISSUE_TOKEN)
    (refuseIf (exceeds (tx.get "max_supply") maxTxAmount)
      s!"max_supply exceeds MAX_TX_AMOUNT ({maxTxAmount})")
  only (tx.txType ∈ [.TRANSFER,.STAKE,.DELEGATE,.MINT_TOKEN])
    (refuseIf (exceeds (tx.get "amount") maxSupply)
      ("amount " ++ PyText.str (tx.get "amount") ++ s!" exceeds MAX_SUPPLY ({maxSupply})"))

def shareCheck (tx : RawTransaction) : Check := do
  refuseIf ((tx.get "cid").truthy = false) "cid required for SHARE tx"
  let _ ← hexText (tx.get "encapsulatedKey" (.str "")) "encapsulatedKey must be non-empty hex"
  let _ ← intField (tx.get "expires" (.int 0)) (fun n => n < 0) "expires must be non-negative integer"

def stakeAmountCheck (tx : RawTransaction) : Check := do
  let amount ← intField (tx.get "amount") (fun n => n < minStake) s!"amount must be integer >= {minStake}"
  refuseIf (maxStake < amount) s!"amount must be <= {maxStake}"
  let _ ← textField (tx.get "validator_address" (.str "")) "validator_address must be non-empty string"

def transferCheck (tx : RawTransaction) : Check := do
  tx.positiveAmountCheck
  optionalText (tx.get "memo") "memo" 256
  tx.recipientCheck "TRANSFER requires a recipient" (some "cannot transfer to self")

def mintTokenCheck (tx : RawTransaction) : Check := do
  tx.tokenIdCheck
  tx.positiveAmountCheck
  tx.recipientCheck "MINT_TOKEN requires a recipient" none

def transferTokenCheck (tx : RawTransaction) : Check := do
  tx.tokenIdCheck
  tx.positiveAmountCheck
  tx.recipientCheck "TRANSFER_TOKEN requires a recipient" (some "cannot transfer token to self")
  optionalText (tx.get "memo") "memo" 256

def issueTokenCheck (tx : RawTransaction) : Check := do
  let name ← textField (tx.get "name" (.str "")) "name must be a non-empty string"
  refuseIf (maxTokenNameLength < name.length) s!"name exceeds {maxTokenNameLength} characters"
  refuseIf (matchesAll isNameByte (encode name) = false)
    "name must contain only alphanumeric characters and spaces"
  let symbol ← textField (tx.get "symbol" (.str "")) "symbol must be a non-empty string"
  refuseIf (symbol.length < minTokenSymbolLength)
    s!"symbol must be at least {minTokenSymbolLength} characters"
  refuseIf (maxTokenSymbolLength < symbol.length) s!"symbol exceeds {maxTokenSymbolLength} characters"
  refuseIf (symbolRe symbol = false) "symbol must be uppercase alphanumeric starting with a letter"
  refuseIf (symbol = "QBIT") "symbol QBIT is reserved for the native token"
  let _ ← intField (tx.get "decimals") (fun n => n < 0 ∨ maxTokenDecimals < n)
    s!"decimals must be an integer 0-{maxTokenDecimals}"
  let _ ← intField (tx.get "max_supply" (.int 0)) (fun n => n < 0) "max_supply must be a non-negative integer"
  refuseIf ((tx.get "transferable" (.bool true)).boolOf = none) "transferable must be a boolean"

theorem positiveAmount {tx : RawTransaction} (checked : tx.positiveAmountCheck = .ok ()) :
    ∃ n, (tx.get "amount").intOf = some n ∧ 0 < n ∧ n ≤ maxSupply := by
  simp only [positiveAmountCheck,Outcome.bindOk,intFieldOk,refuseIfOk,not_lt,not_le] at checked
  obtain ⟨n,⟨read,positive⟩,capped⟩ := checked
  exact ⟨n,read,positive,capped⟩

theorem stakeAmount {tx : RawTransaction} (checked : tx.stakeAmountCheck = .ok ()) :
    ∃ n, (tx.get "amount").intOf = some n ∧ 0 < n ∧ n ≤ maxSupply := by
  simp only [stakeAmountCheck,Outcome.bindOk,intFieldOk,refuseIfOk,not_lt] at checked
  obtain ⟨n,⟨read,least⟩,_,most,-⟩ := checked
  have low : 1 ≤ n := least
  have high : n ≤ 1000000 := most
  exact ⟨n,read,low,high.trans (by decide)⟩

theorem supplyChecked {tx : RawTransaction} (checked : tx.issueTokenCheck = .ok ()) :
    ∃ n, (tx.get "max_supply" (.int 0)).intOf = some n ∧ 0 ≤ n := by
  simp only [issueTokenCheck,Outcome.bindOk,intFieldOk,not_lt] at checked
  obtain ⟨-,-,-,-,-,-,-,-,-,-,-,-,-,-,-,-,-,-,n,supply,-⟩ := checked
  exact ⟨n,supply⟩

theorem supplyGuarded [PyText] {tx : RawTransaction} (checked : tx.bigIntegerGuards = .ok ())
    (issue : tx.txType = .ISSUE_TOKEN) : ¬exceeds (tx.get "max_supply") maxTxAmount := by
  simp only [bigIntegerGuards,Outcome.bindOk,onlyOk,refuseIfOk] at checked
  exact checked.choose_spec.2.choose_spec.1 issue

section Messages
variable [PyText]

def oneOf (value : Json) (known : List String) (message : String) : Check :=
  refuseIf (∀ text ∈ known, value.equal (.str text) = false) (message ++ PyText.repr value)

def revokeKeyCheck (tx : RawTransaction) : Check := do
  oneOf (tx.get "key_type" (.str "")) ["signing","encryption","validator"]
    "key_type must be one of ['encryption', 'signing', 'validator'], got "
  oneOf (tx.get "reason" (.str "")) ["compromised","rotation","decommission"]
    "reason must be one of ['compromised', 'decommission', 'rotation'], got "

end Messages

section Validation
variable [Env]

def registerValidatorCheck (tx : RawTransaction) : Check := do
  let vpk ← hexText (tx.get "validator_pubkey" (.str "")) "validator_pubkey must be non-empty hex"
  refuseIf (vpk.length ≠ 3904)
    s!"validator_pubkey wrong size: {vpk.length} hex chars, expected 3904 (1952 bytes)"
  let vaddr ← textField (tx.get "validator_address" (.str "")) "validator_address must be non-empty string"
  match fromHex vpk with
  | none => .error (.raised (.valueError "non-hexadecimal number found in fromhex() arg"))
  | some pk =>
    refuseIf (vaddr ≠ deriveAddress pk) "validator_address does not match validator_pubkey"
    refuseIf (tx.sender ≠ vaddr) "REGISTER_VALIDATOR requires sender == validator_address"
    match tx.get "commission" with
    | .null => .ok ()
    | commission => do
      let _ ← intField commission (fun n => n < 0 ∨ 100 < n) "commission must be an integer 0-100"

def evidenceField (tx : RawTransaction) (key : String) : Except Halt String := do
  let message := key ++ " must be non-empty hex string"
  let text ← textField (tx.get key (.str "")) message
  refuseIf (hexRe text = false) message
  .ok text

variable [PyText]

def evidenceCheck (tx : RawTransaction) : Check := do
  let et := tx.get "evidence_type" (.str "")
  refuseIf (et.equal (.str "double_sign") = false)
    ("evidence_type must be 'double_sign', got " ++ PyText.repr et)
  let blockAHash ← tx.evidenceField "block_a_hash"
  let blockBHash ← tx.evidenceField "block_b_hash"
  let _ ← tx.evidenceField "block_a_sig"
  let _ ← tx.evidenceField "block_b_sig"
  let blockAHeader ← tx.evidenceField "block_a_header"
  let blockBHeader ← tx.evidenceField "block_b_header"
  headerHashCheck "block_a_header" "block_a_hash" blockAHeader blockAHash
  headerHashCheck "block_b_header" "block_b_hash" blockBHeader blockBHash
  refuseIf (blockAHash = blockBHash) "block_a_hash and block_b_hash must differ (not double-sign)"
  let _ ← intField (tx.get "block_index") (fun n => n < 0) "block_index must be non-negative integer"
  let _ ← textField (tx.get "validator_address" (.str "")) "validator_address must be non-empty string"

def typeCheck (tx : RawTransaction) : Check :=
  match tx.txType with
  | .NOTARIZE => do
      tx.documentHashCheck
      optionalText (tx.get "metadata") "metadata" 1024
  | .STORE => do
      tx.documentHashCheck
      refuseIf ((tx.get "cid").truthy = false) "cid required for STORE tx"
      optionalText (tx.get "metadata") "metadata" 1024
  | .SHARE => tx.shareCheck
  | .REGISTER_KEY => do
      let _ ← hexText (tx.get "encryption_pk" (.str "")) "encryption_pk must be non-empty hex"
  | .REGISTER_VALIDATOR => tx.registerValidatorCheck
  | .REVOKE_KEY => tx.revokeKeyCheck
  | .STAKE | .DELEGATE | .UNSTAKE => tx.stakeAmountCheck
  | .TRANSFER => tx.transferCheck
  | .EVIDENCE => tx.evidenceCheck
  | .ISSUE_TOKEN => tx.issueTokenCheck
  | .MINT_TOKEN => tx.mintTokenCheck
  | .TRANSFER_TOKEN => tx.transferTokenCheck

def validatePayload (tx : RawTransaction) : Check := do
  let raw := (Json.obj tx.payload).dumps
  let maxSize := if tx.txType = .EVIDENCE then evidenceMaxPayload else maxTxPayloadSize
  refuseIf (maxSize < raw.length) s!"payload too large: {raw.length} > {maxSize}"
  let extra := (tx.payload.map Prod.fst).filter (fun key => key ∉ allowedKeys tx.txType)
  refuseIf (extra ≠ []) s!"unknown payload keys: {extra}"
  tx.bigIntegerGuards
  tx.typeCheck

theorem validated {tx : RawTransaction} (checked : tx.validatePayload = .ok ()) :
    tx.bigIntegerGuards = .ok () ∧ tx.typeCheck = .ok () := by
  simp only [validatePayload,Outcome.bindOk] at checked
  obtain ⟨-,-,-,-,_,guarded,checked⟩ := checked
  exact ⟨guarded,checked⟩

end Validation

def payloadOf (tx : RawTransaction) : Payload where
  amount := (tx.get "amount").intOf
  blockAHash := (tx.get "block_a_hash").strOf
  blockAHeader := (tx.get "block_a_header").strOf
  blockASig := (tx.get "block_a_sig").strOf
  blockBHash := (tx.get "block_b_hash").strOf
  blockBHeader := (tx.get "block_b_header").strOf
  blockBSig := (tx.get "block_b_sig").strOf
  blockIndex := (tx.get "block_index").intOf
  cid := (tx.get "cid").strOf
  commission := (tx.get "commission").intOf
  decimals := (tx.get "decimals").intOf
  documentHash := (tx.get "documentHash").strOf
  encapsulatedKey := (tx.get "encapsulatedKey").strOf
  encryptionPk := (tx.get "encryption_pk").strOf
  evidenceType := (tx.get "evidence_type").strOf
  expires := (tx.get "expires").intOf
  keyType := (tx.get "key_type").strOf
  maxSupply := (tx.get "max_supply").intOf
  memo := (tx.get "memo").strOf
  metadata := (tx.get "metadata").strOf
  name := (tx.get "name").strOf
  reason := (tx.get "reason").strOf
  symbol := (tx.get "symbol").strOf
  tokenId := (tx.get "token_id").strOf
  transferable := (tx.get "transferable").boolOf
  validatorAddress := (tx.get "validator_address").strOf
  validatorPubkey := (tx.get "validator_pubkey").strOf

def view (tx : RawTransaction) : Transaction where
  txType := tx.txType
  sender := tx.sender
  payload := tx.payloadOf
  recipient := tx.recipient.strOf.getD ""
  timestamp := tx.timestamp.value
  signature := tx.signature
  senderPubkey := tx.senderPubkey
  nonce := tx.nonce.value
  chainId := tx.chainId
  maxFeePerWeight := tx.maxFeePerWeight.value
  maxPriorityFee := tx.maxPriorityFee.value

end RawTransaction

def labelled (label : String) : Check → Check
  | .error (.refused message) => .error (.refused (label ++ message))
  | result => result

/- The checks of `submit_tx` on the object: identity, signature and payload are its own, and
what is read of it afterwards has passed the payload's checks. -/
def Blockchain.submitRaw [Env] [PyText] (s : Blockchain) (now : Int) (tx : RawTransaction) : Check := do
  let read := tx.view
  refuseIf (maxTxPoolSize ≤ s.pool.txPool.length) "tx pool full"
  refuseIf (tx.chainId ≠ chainId) ("wrong chain_id: expected " ++ chainId)
  refuseIf (s.isKeyRevoked tx.sender "signing") "sender signing key has been revoked"
  refuseIf (tx.verify = false) "invalid signature"
  labelled "invalid payload: " tx.validatePayload
  refuseIf (tx.txId ∈ s.state.index.txById) "duplicate (already in chain)"
  refuseIf (tx.txId ∈ s.pool.poolIds) "duplicate (already in pool)"
  only (tx.txType ∈ [.TRANSFER,.STAKE,.DELEGATE])
    (refuseIf (maxSupply < read.payload.amount.getD 0)
      s!"amount {read.payload.amount.getD 0} exceeds MAX_SUPPLY ({maxSupply})")
  only (tx.txType = .MINT_TOKEN)
    (refuseIf (maxSupply < read.payload.amount.getD 0)
      s!"mint amount {read.payload.amount.getD 0} exceeds MAX_SUPPLY ({maxSupply})")
  refuseIf (tx.txType = .SHARE ∧ tx.recipient.truthy = false) "SHARE tx requires recipient"
  s.stakeCheck read
  refuseIf (s.nextDynamic ∧ 0 < txWeights tx.txType ∧ tx.maxFeePerWeight.value < s.currentBaseFee)
    s!"max_fee_per_weight {tx.maxFeePerWeight.value} < current base_fee {s.currentBaseFee}"
  only (s.financialActive = true) (s.affordCheck read)
  s.keyCheck read
  s.tokenCheck read
  let expected := s.getNonce tx.sender + s.pool.poolSenderCount.get tx.sender
  refuseIf (tx.nonce.value ≠ expected) s!"invalid nonce: expected {expected}, got {tx.nonce.value}"
  refuseIf (now + 300 < tx.timestamp.value) "tx timestamp too far in future"
  refuseIf (tx.timestamp.value < now - 86400) "tx timestamp too old (>24h)"

theorem labelledOk {label : String} {check : Check} (run : labelled label check = .ok ()) : check = .ok () := by
  unfold labelled at run
  split at run
  · cases run
  · exact run

theorem Blockchain.submitRawValidated [Env] [PyText] {s : Blockchain} {now : Int} {tx : RawTransaction}
    (run : s.submitRaw now tx = .ok ()) : tx.verify = true ∧ tx.validatePayload = .ok () := by
  simp only [submitRaw,Outcome.bindOk,refuseIfOk,Bool.not_eq_false] at run
  obtain ⟨-,-,-,-,-,-,_,signed,_,payload,-⟩ := run
  exact ⟨signed,labelledOk payload⟩

end QbitNetwork
