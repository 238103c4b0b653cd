import QbitNetwork.Config

/-! Transactions: the signed content, its identifier and payload validation.
A payload is the JSON object with its known fields, each absent or of the JSON
type its field has; which fields a type may carry is checked, not built in. -/
namespace QbitNetwork

structure Payload where
  amount : Option Int := none
  blockAHash : Option String := none
  blockAHeader : Option String := none
  blockASig : Option String := none
  blockBHash : Option String := none
  blockBHeader : Option String := none
  blockBSig : Option String := none
  blockIndex : Option Int := none
  cid : Option String := none
  commission : Option Int := none
  decimals : Option Int := none
  documentHash : Option String := none
  encapsulatedKey : Option String := none
  encryptionPk : Option String := none
  evidenceType : Option String := none
  expires : Option Int := none
  keyType : Option String := none
  maxSupply : Option Int := none
  memo : Option String := none
  metadata : Option String := none
  name : Option String := none
  reason : Option String := none
  symbol : Option String := none
  tokenId : Option String := none
  transferable : Option Bool := none
  validatorAddress : Option String := none
  validatorPubkey : Option String := none
  deriving DecidableEq

namespace Payload

def field (key : String) (value : Option Json) : List (String × Json) :=
  (value.map (fun v => (key,v))).toList

def fields (p : Payload) : List (String × Json) :=
  field "amount" (p.amount.map .int) ++
  field "block_a_hash" (p.blockAHash.map .str) ++
  field "block_a_header" (p.blockAHeader.map .str) ++
  field "block_a_sig" (p.blockASig.map .str) ++
  field "block_b_hash" (p.blockBHash.map .str) ++
  field "block_b_header" (p.blockBHeader.map .str) ++
  field "block_b_sig" (p.blockBSig.map .str) ++
  field "block_index" (p.blockIndex.map .int) ++
  field "cid" (p.cid.map .str) ++
  field "commission" (p.commission.map .int) ++
  field "decimals" (p.decimals.map .int) ++
  field "documentHash" (p.documentHash.map .str) ++
  field "encapsulatedKey" (p.encapsulatedKey.map .str) ++
  field "encryption_pk" (p.encryptionPk.map .str) ++
  field "evidence_type" (p.evidenceType.map .str) ++
  field "expires" (p.expires.map .int) ++
  field "key_type" (p.keyType.map .str) ++
  field "max_supply" (p.maxSupply.map .int) ++
  field "memo" (p.memo.map .str) ++
  field "metadata" (p.metadata.map .str) ++
  field "name" (p.name.map .str) ++
  field "reason" (p.reason.map .str) ++
  field "symbol" (p.symbol.map .str) ++
  field "token_id" (p.tokenId.map .str) ++
  field "transferable" (p.transferable.map .bool) ++
  field "validator_address" (p.validatorAddress.map .str) ++
  field "validator_pubkey" (p.validatorPubkey.map .str)

def toJson (p : Payload) : Json := .obj p.fields

def keys (p : Payload) : List String := p.fields.map Prod.fst

end Payload

structure Transaction where
  txType : TxType
  sender : Address
  payload : Payload := {}
  recipient : Address := ""
  timestamp : Int := 0
  signature : Bytes := []
  senderPubkey : Bytes := []
  nonce : Int := 0
  chainId : String := QbitNetwork.chainId
  maxFeePerWeight : Int := 0
  maxPriorityFee : Int := 0
  deriving DecidableEq

def allowedKeys : TxType → List String
  | .REGISTER_KEY => ["encryption_pk"]
  | .REGISTER_VALIDATOR => ["validator_pubkey","validator_address","commission"]
  | .REVOKE_KEY => ["key_type","reason"]
  | .NOTARIZE => ["documentHash","metadata"]
  | .STORE => ["documentHash","cid","metadata"]
  | .SHARE => ["cid","encapsulatedKey","expires"]
  | .STAKE | .DELEGATE | .UNSTAKE => ["amount","validator_address"]
  | .EVIDENCE => ["evidence_type","block_a_hash","block_b_hash","block_a_sig","block_b_sig",
      "block_index","validator_address","block_a_header","block_b_header"]
  | .TRANSFER => ["amount","memo"]
  | .ISSUE_TOKEN => ["name","symbol","decimals","max_supply","transferable"]
  | .MINT_TOKEN => ["token_id","amount"]
  | .TRANSFER_TOKEN => ["token_id","amount","memo"]

namespace Transaction

def signableJson (tx : Transaction) : Json := .obj
  [("chainId",.str tx.chainId),("from",.str tx.sender),
   ("maxFeePerWeight",.int tx.maxFeePerWeight),("maxPriorityFee",.int tx.maxPriorityFee),
   ("nonce",.int tx.nonce),("payload",tx.payload.toJson),("timestamp",.int tx.timestamp),
   ("to",.str tx.recipient),("type",.str tx.txType.value)]

def signableBytes (tx : Transaction) : Bytes := tx.signableJson.dumps

variable [Env]

def txHash (tx : Transaction) : Bytes := sha3_256 tx.signableBytes

def txId (tx : Transaction) : String := hex tx.txHash

def sign (tx : Transaction) (signingSk signingPk : Bytes) : Transaction :=
  { tx with senderPubkey := signingPk, signature := Env.mldsaSign signingSk tx.signableBytes }

def verify (tx : Transaction) : Bool :=
  !tx.signature.isEmpty && !tx.senderPubkey.isEmpty &&
    deriveAddress tx.senderPubkey == tx.sender &&
    verifySig tx.senderPubkey tx.signableBytes tx.signature

end Transaction

section Validation

def hexField (label value : String) : Check :=
  refuseIf (value = "" ∨ hexRe value = false) (label ++ " must be non-empty hex string")

def documentHashCheck (p : Payload) : Check := do
  hexField "documentHash" (p.documentHash.getD "")
  refuseIf (128 < (p.documentHash.getD "").length) "documentHash too long (max 128 hex chars)"

def metadataCheck (p : Payload) : Check :=
  refuseIf (1024 < (p.metadata.getD "").length) "metadata exceeds 1024 characters"

def memoCheck (p : Payload) : Check :=
  refuseIf (256 < (p.memo.getD "").length) "memo exceeds 256 characters"

/- `recipient.startswith(ADDRESS_PREFIX)`, 67 characters, hexadecimal after the prefix. -/
def isQv1Address (recipient : Address) : Bool :=
  let bytes := encode recipient
  bytes.take 3 == encode addressPrefix && bytes.length == 67 && matchesAll isHexByte (bytes.drop 3)

def amountOf (p : Payload) (message : String) : Except Halt Int :=
  match p.amount with
  | none => .error (.refused message)
  | some amount => .ok amount

def positiveAmountCheck (p : Payload) : Check := do
  let amount ← amountOf p "amount must be a positive integer"
  refuseIf (amount ≤ 0) "amount must be a positive integer"
  refuseIf (maxSupply < amount) s!"amount exceeds MAX_SUPPLY ({maxSupply})"

def tokenIdCheck (p : Payload) : Check :=
  refuseIf ((p.tokenId.getD "").length ≠ 32 ∨ hexRe (p.tokenId.getD "") = false)
    "token_id must be a 32-character hex string"

def qv1RecipientCheck (tx : Transaction) : Check :=
  refuseIf (isQv1Address tx.recipient = false) "recipient must be a valid qv1 address (67 chars)"

def bigIntegerGuards (tx : Transaction) : Check := do
  if tx.txType ∈ [.TRANSFER,.STAKE,.DELEGATE,.UNSTAKE,.MINT_TOKEN,.TRANSFER_TOKEN] then
    refuseIf (maxTxAmount < tx.payload.amount.getD 0) s!"amount exceeds MAX_TX_AMOUNT ({maxTxAmount})"
  if tx.txType = .ISSUE_TOKEN then
    refuseIf (maxTxAmount < tx.payload.maxSupply.getD 0)
      s!"max_supply exceeds MAX_TX_AMOUNT ({maxTxAmount})"
  if tx.txType ∈ [.TRANSFER,.STAKE,.DELEGATE,.MINT_TOKEN] then
    refuseIf (maxSupply < tx.payload.amount.getD 0)
      s!"amount {tx.payload.amount.getD 0} exceeds MAX_SUPPLY ({maxSupply})"

variable [Env]

def registerValidatorCheck (tx : Transaction) : Check := do
  let vpk := tx.payload.validatorPubkey.getD ""
  let vaddr := tx.payload.validatorAddress.getD ""
  refuseIf (vpk = "" ∨ hexRe vpk = false) "validator_pubkey must be non-empty hex"
  refuseIf (vpk.length ≠ 3904)
    s!"validator_pubkey wrong size: {vpk.length} hex chars, expected 3904 (1952 bytes)"
  refuseIf (vaddr = "") "validator_address must be non-empty string"
  match fromHex vpk with
  | none => .error (.raised (.valueError "non-hexadecimal number found in fromhex() arg"))
  | some pk =>
    refuseIf (vaddr ≠ deriveAddress pk) "validator_address does not match validator_pubkey"
    refuseIf (tx.sender ≠ vaddr) "REGISTER_VALIDATOR requires sender == validator_address"
    refuseIf (¬(0 ≤ tx.payload.commission.getD 0 ∧ tx.payload.commission.getD 0 ≤ 100))
      "commission must be an integer 0-100"

def revokeKeyCheck (p : Payload) : Check := do
  let kt := p.keyType.getD ""
  let reason := p.reason.getD ""
  refuseIf (kt ∉ ["signing","encryption","validator"])
    ("key_type must be one of ['encryption', 'signing', 'validator'], got '" ++ kt ++ "'")
  refuseIf (reason ∉ ["compromised","rotation","decommission"])
    ("reason must be one of ['compromised', 'decommission', 'rotation'], got '" ++ reason ++ "'")

def stakeAmountCheck (p : Payload) : Check := do
  let amount ← amountOf p s!"amount must be integer >= {minStake}"
  refuseIf (amount < minStake) s!"amount must be integer >= {minStake}"
  refuseIf (maxStake < amount) s!"amount must be <= {maxStake}"
  refuseIf (p.validatorAddress.getD "" = "") "validator_address must be non-empty string"

def transferCheck (tx : Transaction) : Check := do
  positiveAmountCheck tx.payload
  memoCheck tx.payload
  refuseIf (tx.recipient = "") "TRANSFER requires a recipient"
  refuseIf (tx.recipient = tx.sender) "cannot transfer to self"
  qv1RecipientCheck tx

def headerHashCheck (headerLabel hashLabel header hash : String) : Check :=
  match fromHex header with
  | none => .error (.raised (.valueError "non-hexadecimal number found in fromhex() arg"))
  | some headerBytes =>
    refuseIf (hex (sha3_256 headerBytes) ≠ hash) (headerLabel ++ " does not hash to " ++ hashLabel)

def evidenceCheck (p : Payload) : Check := do
  refuseIf (p.evidenceType.getD "" ≠ "double_sign")
    ("evidence_type must be 'double_sign', got '" ++ p.evidenceType.getD "" ++ "'")
  hexField "block_a_hash" (p.blockAHash.getD "")
  hexField "block_b_hash" (p.blockBHash.getD "")
  hexField "block_a_sig" (p.blockASig.getD "")
  hexField "block_b_sig" (p.blockBSig.getD "")
  hexField "block_a_header" (p.blockAHeader.getD "")
  hexField "block_b_header" (p.blockBHeader.getD "")
  headerHashCheck "block_a_header" "block_a_hash" (p.blockAHeader.getD "") (p.blockAHash.getD "")
  headerHashCheck "block_b_header" "block_b_hash" (p.blockBHeader.getD "") (p.blockBHash.getD "")
  refuseIf (p.blockAHash = p.blockBHash)
    "block_a_hash and block_b_hash must differ (not double-sign)"
  refuseIf (p.blockIndex.getD (-1) < 0) "block_index must be non-negative integer"
  refuseIf (p.validatorAddress.getD "" = "") "validator_address must be non-empty string"

def isUpper (b : UInt8) : Bool := 65 ≤ b && b ≤ 90

def isDigit (b : UInt8) : Bool := 48 ≤ b && b ≤ 57

def isNameByte (b : UInt8) : Bool := isUpper b || isDigit b || (97 ≤ b && b ≤ 122) || b == 32

/- `^[A-Z][A-Z0-9]+$`. -/
def symbolRe (symbol : String) : Bool :=
  match dropFinalNewline (encode symbol) with
  | first :: rest => isUpper first && !rest.isEmpty && rest.all (fun b => isUpper b || isDigit b)
  | [] => false

def issueTokenCheck (p : Payload) : Check := do
  let name := p.name.getD ""
  let symbol := p.symbol.getD ""
  refuseIf (name = "") "name must be a non-empty string"
  refuseIf (maxTokenNameLength < name.length) s!"name exceeds {maxTokenNameLength} characters"
  refuseIf (matchesAll isNameByte (encode name) = false)
    "name must contain only alphanumeric characters and spaces"
  refuseIf (symbol = "") "symbol must be a non-empty string"
  refuseIf (symbol.length < minTokenSymbolLength)
    s!"symbol must be at least {minTokenSymbolLength} characters"
  refuseIf (maxTokenSymbolLength < symbol.length) s!"symbol exceeds {maxTokenSymbolLength} characters"
  refuseIf (symbolRe symbol = false) "symbol must be uppercase alphanumeric starting with a letter"
  refuseIf (symbol = "QBIT") "symbol QBIT is reserved for the native token"
  refuseIf (¬(0 ≤ p.decimals.getD (-1) ∧ p.decimals.getD (-1) ≤ maxTokenDecimals))
    s!"decimals must be an integer 0-{maxTokenDecimals}"
  refuseIf (p.maxSupply.getD 0 < 0) "max_supply must be a non-negative integer"

def mintTokenCheck (tx : Transaction) : Check := do
  tokenIdCheck tx.payload
  positiveAmountCheck tx.payload
  refuseIf (tx.recipient = "") "MINT_TOKEN requires a recipient"
  qv1RecipientCheck tx

def transferTokenCheck (tx : Transaction) : Check := do
  tokenIdCheck tx.payload
  positiveAmountCheck tx.payload
  refuseIf (tx.recipient = "") "TRANSFER_TOKEN requires a recipient"
  refuseIf (tx.recipient = tx.sender) "cannot transfer token to self"
  qv1RecipientCheck tx
  memoCheck tx.payload

def typeCheck (tx : Transaction) : Check :=
  match tx.txType with
  | .NOTARIZE => do documentHashCheck tx.payload; metadataCheck tx.payload
  | .STORE => do
      documentHashCheck tx.payload
      refuseIf (tx.payload.cid.getD "" = "") "cid required for STORE tx"
      metadataCheck tx.payload
  | .SHARE => do
      refuseIf (tx.payload.cid.getD "" = "") "cid required for SHARE tx"
      refuseIf (tx.payload.encapsulatedKey.getD "" = "" ∨
        hexRe (tx.payload.encapsulatedKey.getD "") = false) "encapsulatedKey must be non-empty hex"
      refuseIf (tx.payload.expires.getD 0 < 0) "expires must be non-negative integer"
  | .REGISTER_KEY =>
      refuseIf (tx.payload.encryptionPk.getD "" = "" ∨
        hexRe (tx.payload.encryptionPk.getD "") = false) "encryption_pk must be non-empty hex"
  | .REGISTER_VALIDATOR => registerValidatorCheck tx
  | .REVOKE_KEY => revokeKeyCheck tx.payload
  | .STAKE | .DELEGATE | .UNSTAKE => stakeAmountCheck tx.payload
  | .TRANSFER => transferCheck tx
  | .EVIDENCE => evidenceCheck tx.payload
  | .ISSUE_TOKEN => issueTokenCheck tx.payload
  | .MINT_TOKEN => mintTokenCheck tx
  | .TRANSFER_TOKEN => transferTokenCheck tx

def Transaction.validatePayload (tx : Transaction) : Check := do
  let raw := tx.payload.toJson.dumps
  let maxSize := if tx.txType = .EVIDENCE then evidenceMaxPayload else maxTxPayloadSize
  refuseIf (maxSize < raw.length) s!"payload too large: {raw.length} > {maxSize}"
  let extra := tx.payload.keys.filter (fun key => key ∉ allowedKeys tx.txType)
  refuseIf (extra ≠ []) s!"unknown payload keys: {extra}"
  bigIntegerGuards tx
  typeCheck tx

/- The checks of `from_dict` on amounts, which everything from outside has passed. -/
def Transaction.amountsParse (tx : Transaction) : Bool :=
  (tx.txType ∉ [.TRANSFER,.STAKE,.DELEGATE,.UNSTAKE,.MINT_TOKEN,.TRANSFER_TOKEN] ||
    tx.payload.amount.all (fun amount => 0 < amount && amount ≤ maxTxAmount)) &&
  (tx.txType ∉ [.TRANSFER,.STAKE,.DELEGATE,.MINT_TOKEN] || tx.payload.amount.getD 0 ≤ maxSupply) &&
  (tx.txType ≠ .ISSUE_TOKEN ||
    tx.payload.maxSupply.all (fun supply => 0 ≤ supply && supply ≤ maxTxAmount))

end Validation

end QbitNetwork
