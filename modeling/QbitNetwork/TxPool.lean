import QbitNetwork.Consensus

/-! The transaction pool: admission, the pending debits and what a mined block removes. -/
namespace QbitNetwork

section Amounts

def extraDebit (tx : Transaction) : Int :=
  match tx.txType with
  | .TRANSFER | .STAKE | .DELEGATE => tx.payload.amount.getD 0
  | _ => 0

def pendingAmount (pool : List Transaction) (txType : TxType) (tid : TokenId) : Int :=
  ((pool.filter (fun ptx => ptx.txType = txType ∧ ptx.payload.tokenId = some tid)).map
    (fun ptx => ptx.payload.amount.getD 0)).sum

end Amounts

namespace TxPool
variable [Env]

def removeMined (pool : TxPool) (block : Block) : TxPool :=
  let minedIds := block.transactions.map Transaction.txId
  let minedSenders := (block.transactions.map Transaction.sender).dedup
  let txPool := pool.txPool.filter (fun tx => tx.txId ∉ minedIds)
  { pool with
    txPool
    poolIds := minedIds.foldl (fun ids txId => ids.erase txId) pool.poolIds
    poolSenderCount := minedSenders.foldl (fun table sender =>
      table.update sender (fun count =>
        max 0 (count - (block.transactions.filter (fun tx => tx.sender = sender)).length)))
      pool.poolSenderCount
    poolTypeCounts := txPool.foldl (fun table tx => table.update tx.txType.value (· + 1)) .empty }

/- A revoked signing key takes the sender's pending transactions with it. -/
def purgeSender (pool : TxPool) (address : Address) : TxPool :=
  let toRemove := pool.txPool.filter (fun tx => tx.sender = address)
  if toRemove = [] then pool
  else
    { txPool := pool.txPool.filter (fun tx => tx.sender ≠ address)
      poolIds := toRemove.foldl (fun ids tx => ids.erase tx.txId) pool.poolIds
      poolTypeCounts := toRemove.foldl (fun table tx =>
        table.update tx.txType.value (fun count => max 0 (count - 1))) pool.poolTypeCounts
      poolSenderCount := pool.poolSenderCount.update address
        (fun count => max 0 (count - toRemove.length))
      pendingDebitsCache := pool.pendingDebitsCache.set address 0 }

end TxPool

namespace Blockchain
variable [Env]

def nextDynamic (s : Blockchain) : Bool := Env.dynamicFeeActivationHeight ≤ s.height + 1 && 0 ≤ s.height

def calcTxDebit (s : Blockchain) (tx : Transaction) : Int :=
  (if s.nextDynamic then tx.maxFeePerWeight * txWeights tx.txType else txFees tx.txType) +
    extraDebit tx

def pendingDebits (s : Blockchain) (address : Address) : Int := s.pool.pendingDebitsCache.get address

def rebuildPendingDebitsCache (s : Blockchain) : Blockchain :=
  { s with pool := { s.pool with
    pendingDebitsCache := s.pool.txPool.foldl
      (fun table tx => table.update tx.sender (· + s.calcTxDebit tx)) .empty } }

def drainPool (s : Blockchain) (block : Block) : Blockchain :=
  rebuildPendingDebitsCache { s with pool := s.pool.removeMined block }

def currentBaseFee (s : Blockchain) : Int :=
  match s.latestBlock with
  | some parent => if s.height < 0 then initialBaseFee else expectedBaseFee parent (s.height + 1)
  | none => initialBaseFee

def balanceCheck (s : Blockchain) (tx : Transaction) (label : String) (need : Int) : Check :=
  let available := s.getBalance tx.sender - s.pendingDebits tx.sender
  refuseIf (available < need) (label ++ s!": need {need}, available {available}")

def affordCheck (s : Blockchain) (tx : Transaction) : Check := do
  let weight := txWeights tx.txType
  if s.nextDynamic then
    if 0 < weight then
      refuseIf (tx.txType = .TRANSFER ∧ tx.recipient = "") "TRANSFER requires a recipient"
      s.balanceCheck tx "insufficient balance" (tx.maxFeePerWeight * weight + extraDebit tx)
    else if tx.txType = .TRANSFER then
      refuseIf (tx.recipient = "") "TRANSFER requires a recipient"
      s.balanceCheck tx "insufficient balance" (extraDebit tx)
  else if tx.txType = .TRANSFER then
    refuseIf (tx.recipient = "") "TRANSFER requires a recipient"
    s.balanceCheck tx "insufficient balance" (extraDebit tx + txFees .TRANSFER)
  else if 0 < txFees tx.txType then
    s.balanceCheck tx "insufficient balance for fee" (txFees tx.txType + extraDebit tx)

def stakeCheck (s : Blockchain) (tx : Transaction) : Check := do
  let vaddr := tx.payload.validatorAddress.getD ""
  let amount := tx.payload.amount.getD 0
  let current := s.state.staking.getStakerInfo tx.sender vaddr
  if tx.txType = .STAKE ∨ tx.txType = .DELEGATE then
    refuseIf (s.state.staking.isRegisteredValidator vaddr = false)
      ("validator not registered: " ++ short vaddr)
    refuseIf (vaddr ∈ s.state.staking.slashedValidators)
      ("cannot stake to slashed validator: " ++ short vaddr)
  if tx.txType = .UNSTAKE then
    refuseIf (s.state.staking.isRegisteredValidator vaddr = false)
      ("validator not registered: " ++ short vaddr)
    refuseIf (current < amount) s!"insufficient stake: want to unstake {amount}, have {current}"

def keyCheck (s : Blockchain) (tx : Transaction) : Check := do
  let vaddr := tx.payload.validatorAddress.getD ""
  let keyType := tx.payload.keyType.getD ""
  if tx.txType = .EVIDENCE then
    refuseIf (s.state.staking.isRegisteredValidator vaddr = false)
      ("evidence target not a registered validator: " ++ short vaddr)
    refuseIf (vaddr ∈ s.state.staking.processedEvidence) ("validator already slashed: " ++ short vaddr)
  if tx.txType = .REVOKE_KEY then
    refuseIf (s.isKeyRevoked tx.sender keyType) (keyType ++ " key already revoked for this address")
    if (keyType = "validator" ∨ keyType = "signing") ∧ 0 ≤ s.height then
      refuseIf ((s.getBlockByIndex 0).map Block.validator = some tx.sender)
        "cannot revoke genesis validator keys"

def tokenCheck (s : Blockchain) (tx : Transaction) : Check := do
  let t := s.state.tokens
  let tid := tx.payload.tokenId.getD ""
  let amount := tx.payload.amount.getD 0
  let symbol := tx.payload.symbol.getD ""
  if tx.txType ∈ [.ISSUE_TOKEN,.MINT_TOKEN,.TRANSFER_TOKEN] then
    refuseIf (s.height + 1 < tokenActivationHeight) "token operations not yet active"
  if tx.txType = .ISSUE_TOKEN then
    refuseIf (symbol ∈ t.bySymbol) ("token symbol already exists: " ++ symbol)
    refuseIf (∃ ptx ∈ s.pool.txPool, ptx.txType = .ISSUE_TOKEN ∧ ptx.payload.symbol = some symbol)
      ("token symbol already pending in pool: " ++ symbol)
  if tx.txType = .MINT_TOKEN then
    match t.registry[tid]? with
    | none => .error (.refused ("token does not exist: " ++ tid))
    | some reg =>
      refuseIf (reg.issuer ≠ tx.sender) "only the token issuer can mint"
      refuseIf (0 < reg.maxSupply ∧
          reg.maxSupply < reg.totalMinted + pendingAmount s.pool.txPool .MINT_TOKEN tid + amount)
        s!"minting {amount} would exceed max_supply {reg.maxSupply}"
  if tx.txType = .TRANSFER_TOKEN then
    match t.registry[tid]? with
    | none => .error (.refused ("token does not exist: " ++ tid))
    | some reg =>
      refuseIf (reg.transferable = false) ("token " ++ tid ++ " is not transferable")
      let pending := pendingAmount (s.pool.txPool.filter (fun ptx => ptx.sender = tx.sender))
        .TRANSFER_TOKEN tid
      let effective := t.getTokenBalance tid tx.sender - pending
      refuseIf (effective < amount)
        s!"insufficient token balance: have {effective}, need {amount}"

def submitCheck (s : Blockchain) (now : Int) (tx : Transaction) : Check := do
  refuseIf (maxTxPoolSize ≤ s.pool.txPool.length) "tx pool full"
  refuseIf (tx.chainId ≠ chainId) ("wrong chain_id: expected " ++ chainId)
  refuseIf (s.isKeyRevoked tx.sender "signing") "sender signing key has been revoked"
  refuseIf (tx.verify = false) "invalid signature"
  payloadCheck "invalid payload: " tx
  refuseIf (tx.txId ∈ s.state.index.txById) "duplicate (already in chain)"
  refuseIf (tx.txId ∈ s.pool.poolIds) "duplicate (already in pool)"
  if tx.txType ∈ [.TRANSFER,.STAKE,.DELEGATE] then
    refuseIf (maxSupply < tx.payload.amount.getD 0)
      s!"amount {tx.payload.amount.getD 0} exceeds MAX_SUPPLY ({maxSupply})"
  if tx.txType = .MINT_TOKEN then
    refuseIf (maxSupply < tx.payload.amount.getD 0)
      s!"mint amount {tx.payload.amount.getD 0} exceeds MAX_SUPPLY ({maxSupply})"
  refuseIf (tx.txType = .SHARE ∧ tx.recipient = "") "SHARE tx requires recipient"
  s.stakeCheck tx
  refuseIf (s.nextDynamic ∧ 0 < txWeights tx.txType ∧ tx.maxFeePerWeight < s.currentBaseFee)
    s!"max_fee_per_weight {tx.maxFeePerWeight} < current base_fee {s.currentBaseFee}"
  if s.financialActive then s.affordCheck tx
  s.keyCheck tx
  s.tokenCheck tx
  let expected := s.getNonce tx.sender + s.pool.poolSenderCount.get tx.sender
  refuseIf (tx.nonce ≠ expected) s!"invalid nonce: expected {expected}, got {tx.nonce}"
  refuseIf (now + 300 < tx.timestamp) "tx timestamp too far in future"
  refuseIf (tx.timestamp < now - 86400) "tx timestamp too old (>24h)"

def admitTx (s : Blockchain) (tx : Transaction) : Blockchain :=
  { s with pool :=
    { txPool := s.pool.txPool ++ [tx]
      poolIds := s.pool.poolIds.insert tx.txId
      poolSenderCount := s.pool.poolSenderCount.update tx.sender (· + 1)
      pendingDebitsCache := s.pool.pendingDebitsCache.update tx.sender (· + s.calcTxDebit tx)
      poolTypeCounts := s.pool.poolTypeCounts.update tx.txType.value (· + 1) } }

end Blockchain

/- What a call answers: done, `(False, message)`, or an exception that escapes. -/
inductive Reply where
  | accepted
  | refused (message : String)
  | raised (exception : PyExc)
  deriving DecidableEq

def Halt.reply : Halt → Reply
  | .refused message => .refused message
  | .raised exception => .raised exception

namespace Blockchain
variable [Env]

def submitTx (s : Blockchain) (now : Int) (tx : Transaction) : Reply × Blockchain :=
  match s.submitCheck now tx with
  | .error halt => (halt.reply,s)
  | .ok _ => (.accepted,s.admitTx tx)

end Blockchain

end QbitNetwork
