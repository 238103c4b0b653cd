import QbitNetwork.Blockchain
import QbitNetwork.Lib.RoundedQuotient

/-! Proof of authority with stake-weighted selection: whose turn it is and what a block
has to satisfy. -/
namespace QbitNetwork

/- `text[:16]` in a message. -/
def short (text : String) : String := String.ofList (text.toList.take 16) ++ "..."

section Selection
variable [Env]

def pickByStake (point : Int) (fallback : Address) : Int → List (Address × Int) → Address
  | _,[] => fallback
  | cumulative,(addr,stake) :: rest =>
      if point < cumulative + stake then addr
      else pickByStake point fallback (cumulative + stake) rest

def selectionSeed (blockIndex : Int) (parentHash : String) : Int :=
  fromBytesBig ((sha3_256 (encode (parentHash ++ ":" ++ toString blockIndex))).take 8)

def selectDpos (blockIndex : Int) (parentHash : String) (active : List (Address × Int)) : Address :=
  let total := (active.map Prod.snd).sum
  pickByStake (selectionSeed blockIndex parentHash % total) ((active.getLast?.map Prod.fst).getD "")
    0 active

/- `int(a / b)`, which goes through a float of 53 significant bits. -/
def wholeQuotient (a : Int) (b : Nat) : Except PyExc Int :=
  let whole := RoundedQuotient.whole 53 a.natAbs b
  if whole < 2 ^ 1024 then .ok (a.sign * whole) else .error .overflowError

def turnSkips (parentTimestamp blockTimestamp : Int) : Except PyExc Int := do
  .ok (max 0 (← wholeQuotient (blockTimestamp - parentTimestamp) (blockInterval * 3).toNat))

/- `times` is the parent's and the block's timestamp, where the caller gives them. -/
def selectPoa (validators : Dict Address Bytes) (blockIndex : Int) (times : Option (Int × Int)) :
    Except PyExc (Option Address) :=
  let addresses := validators.keys
  let n : Int := addresses.length
  if addresses.isEmpty then .ok none
  else do
    let skips ← match times with
      | some (parentTimestamp,blockTimestamp) => turnSkips parentTimestamp blockTimestamp
      | none => .ok 0
    .ok (listAt addresses ((blockIndex % n + skips) % n))

def Blockchain.selectValidator (s : Blockchain) (blockIndex : Int) (parentHash : String)
    (times : Option (Int × Int)) : Except PyExc (Option Address) :=
  let active := s.getActiveValidators
  if parentHash ≠ "" ∧ active ≠ [] then .ok (some (selectDpos blockIndex parentHash active))
  else selectPoa s.state.staking.validators blockIndex times

/- `expected and validator != expected`. -/
def wrongTurn (expected : Option Address) (validator : Address) : Bool :=
  match expected with
  | some turn => turn ≠ "" && turn ≠ validator
  | none => false

end Selection

section Validation
variable [Env]

def dynamicActive (index : Int) : Bool := Env.dynamicFeeActivationHeight ≤ index && 0 < index

def expectedBaseFee (parent : Block) (index : Int) : Int :=
  if index = Env.dynamicFeeActivationHeight ∨ parent.index = 0 ∨
      parent.index < Env.dynamicFeeActivationHeight then initialBaseFee
  else computeBaseFee parent.baseFee (effectiveBlockWeight parent.transactions parent.validator)

def selfWeight (block : Block) : Int :=
  blockTotalWeight (block.transactions.filter (fun tx => tx.sender = block.validator))

def headerCheck (block parent : Block) (now : Int) : Check := do
  refuseIf (block.index ≠ parent.index + 1) s!"expected index {parent.index + 1}, got {block.index}"
  refuseIf (block.prevHash ≠ parent.blockHash) "prev_hash mismatch"
  refuseIf (block.timestamp ≤ parent.timestamp) "timestamp must be after parent"
  refuseIf (now + maxBlockDrift < block.timestamp)
    s!"timestamp too far in future: {block.timestamp} > {now} + {maxBlockDrift}"

def dynamicFeeCheck (block parent : Block) : Check := do
  refuseIf (block.baseFee ≠ expectedBaseFee parent block.index)
    s!"base_fee mismatch: expected {expectedBaseFee parent block.index}, got {block.baseFee}"
  let totalWeight := blockTotalWeight block.transactions
  refuseIf (maxBlockWeight < totalWeight) s!"block weight {totalWeight} > {maxBlockWeight}"
  refuseIf (0 < totalWeight ∧ totalWeight * maxSelfTxWeightRatio < selfWeight block * 100)
    "self-tx weight exceeds 25%"

def sizeCheck (block : Block) : Check := do
  refuseIf (maxTxPerBlock < block.transactions.length)
    s!"too many txs: {block.transactions.length} > {maxTxPerBlock}"
  refuseIf (block.transactions = [] ∧ dynamicActive block.index = false)
    "non-genesis block must contain at least one transaction"
  refuseIf (maxBlockSize * 2 < 500 + block.transactions.length * maxTxWireSize)
    "block estimated too large"

structure Seen where
  ids : DSet String := ∅
  lastNonce : Dict Address Int := ∅
  firstNonce : List (Address × Int) := []

def Seen.add (seen : Seen) (tx : Transaction) : Seen :=
  { ids := seen.ids.insert tx.txId
    lastNonce := seen.lastNonce.insert tx.sender tx.nonce
    firstNonce :=
      if tx.sender ∈ seen.lastNonce then seen.firstNonce
      else seen.firstNonce ++ [(tx.sender,tx.nonce)] }

def Seen.nonceGap (seen : Seen) (tx : Transaction) : Bool :=
  match seen.lastNonce[tx.sender]? with
  | some previous => tx.nonce ≠ previous + 1
  | none => false

/- `validate_payload` inside `validate_block`: the refusal gets a prefix. -/
def payloadCheck (label : String) (tx : Transaction) : Check :=
  match tx.validatePayload with
  | .error (.refused message) => .error (.refused (label ++ message))
  | result => result

namespace Blockchain

def validatorCheck (s : Blockchain) (block parent : Block) : Check := do
  match s.state.staking.validators[block.validator]? with
  | none => .error (.refused ("unknown validator " ++ short block.validator))
  | some pk =>
    refuseIf (s.isKeyRevoked block.validator "signing") "validator signing key revoked"
    let expected ← orRaise (s.selectValidator block.index parent.blockHash
      (some (parent.timestamp,block.timestamp)))
    refuseIf (wrongTurn expected block.validator)
      ("wrong validator turn: expected " ++ short (expected.getD "") ++ ", got " ++
        short block.validator)
    refuseIf (block.verifySignature pk = false) "invalid block signature"

def txCheck (s : Blockchain) (block : Block) (seen : Seen) (tx : Transaction) : Except Halt Seen := do
  refuseIf (tx.verify = false) ("invalid tx signature: " ++ short tx.txId)
  refuseIf (tx.chainId ≠ chainId)
    ("wrong chain_id in tx " ++ short tx.txId ++ ": expected " ++ chainId ++ ", got " ++ tx.chainId)
  refuseIf (tx.txId ∈ seen.ids) ("duplicate tx in block: " ++ short tx.txId)
  refuseIf (tx.txId ∈ s.state.index.chainTxIds) ("tx already in chain: " ++ short tx.txId)
  payloadCheck "invalid tx payload: " tx
  refuseIf (dynamicActive block.index ∧ 0 < txWeights tx.txType ∧ tx.maxFeePerWeight < block.baseFee)
    s!"max_fee_per_weight {tx.maxFeePerWeight} < base_fee {block.baseFee}"
  refuseIf (s.isKeyRevoked tx.sender "signing") ("tx from revoked signing key: " ++ short tx.sender)
  refuseIf (seen.nonceGap tx) ("nonce gap for " ++ short tx.sender ++
    s!": expected {seen.lastNonce.getD tx.sender 0 + 1}, got {tx.nonce}")
  .ok (seen.add tx)

def nonceStart (s : Blockchain) (first : Address × Int) : Check :=
  let expectedStart := s.consensusNonces.get first.1 + 1
  refuseIf (first.2 ≠ expectedStart)
    ("nonce mismatch for " ++ short first.1 ++
      s!": chain expects {expectedStart}, block starts at {first.2}")

def transactionsCheck (s : Blockchain) (block : Block) : Check := do
  let seen ← block.transactions.foldlM (s.txCheck block) {}
  seen.firstNonce.forM s.nonceStart

def validateBlock (s : Blockchain) (now : Int) (block : Block) (parent : Option Block) : Check :=
  if block.index = 0 then
    refuseIf (s.genesisHash ≠ "" ∧ block.blockHash ≠ s.genesisHash) "genesis hash mismatch"
  else match parent with
    | none => .error (.refused "parent block required")
    | some parent => do
      headerCheck block parent now
      s.validatorCheck block parent
      if dynamicActive block.index then dynamicFeeCheck block parent
      sizeCheck block
      s.transactionsCheck block

end Blockchain

end Validation

end QbitNetwork
