import QbitNetwork.Append

/-! The undo of blocks. -/
namespace QbitNetwork

namespace Ledger

/- The undo of a block reward, read off the minted total after the block. -/
def undoReward (l : Ledger) (validator : Address) (reward : Int) : Ledger :=
  if 0 < reward then (l.rollbackDebit validator reward).mint (-reward) else l

def undoDistribution (l : Ledger) (record : Distribution) : Except (Fault Ledger) Ledger :=
  let l := record.credits.foldl (fun l row => l.rollbackDebit row.1 row.2) l
  record.debits.foldlM (fun l row => l.credit row.1 row.2) l

end Ledger

namespace Staking

variable [Env]

/- `lookup` finds the key of a validator that has left the registry. -/
def undoRevokeKey (k : Staking) (lookup : Address → Option Bytes) (tx : Transaction) : Staking :=
  let keyType := tx.payload.keyType.getD ""
  let revocation := k.revokedKeys[revocationKey tx.sender keyType]?
  let k := { k with revokedKeys := k.revokedKeys.erase (revocationKey tx.sender keyType) }
  if revocation.isSome ∧ keyType = "validator" then
    match k.validatorRegistry[tx.sender]?.or (lookup tx.sender) with
    | some pk =>
      ({ k with validatorRegistry := k.validatorRegistry.insert tx.sender pk }).addValidator tx.sender pk
    | none => k
  else k

def undoTx (k : Staking) (lookup : Address → Option Bytes) (tx : Transaction) (blockIndex : Int) :
    Staking :=
  let vaddr := tx.payload.validatorAddress.getD ""
  let amount := tx.payload.amount.getD 0
  match tx.txType with
  | .REGISTER_VALIDATOR =>
    if vaddr = "" then k
    else ({ k with validatorRegistry := k.validatorRegistry.erase vaddr }).removeValidator vaddr
  | .REVOKE_KEY => k.undoRevokeKey lookup tx
  | .STAKE | .DELEGATE =>
    if vaddr ≠ "" ∧ 0 < amount then
      { k with
        stakes := k.stakes.update (vaddr,tx.sender) (fun current => max 0 (current - amount))
        totalStake := k.totalStake.update vaddr (fun total => max 0 (total - amount)) }
    else k
  | .UNSTAKE =>
    if vaddr ≠ "" ∧ 0 < amount then
      { k with
        stakes := k.stakes.update (vaddr,tx.sender) (· + amount)
        totalStake := k.totalStake.update vaddr (· + amount)
        unbonding := k.unbonding.filter
          (fun entry => entry ≠ ⟨tx.sender,vaddr,amount,blockIndex + unbondingPeriod⟩) }
    else k
  | .EVIDENCE =>
    -- the records of the slash go, the stakes it cut stay cut
    if vaddr = "" then k
    else { k with
      slashedValidators := k.slashedValidators.erase vaddr
      processedEvidence := k.processedEvidence.erase vaddr
      slashingEvents := k.slashingEvents.filter (fun event => event.evidenceTxId ≠ tx.txId) }
  | _ => k

def undoEpochReward (k : Staking) (validator : Address) (reward : Int) : Staking :=
  if 0 < reward then
    -- what is subtracted from a natural number stops at 0, as `max(0, ...)` does
    { k with epochRewards := k.epochRewards.update validator (· - reward.toNat) }
  else k

/- Back to the epoch before, whose validators are read from their first snapshot. -/
def leaveEpoch (k : Staking) (epoch : Int) : Staking :=
  let epochs := k.epochs.erase epoch
  if 0 < epoch then
    { k with
      epochs
      currentEpoch := epoch - 1
      epochValidators := (epochs[epoch - 1]?).getD [] }
  else { k with epochs, currentEpoch := 0, epochValidators := [] }

end Staking

namespace Store
variable [Env]

def persistUndo (after : ChainState) (tx : Transaction) (d : Store) : Store :=
  let tid := tx.payload.tokenId.getD ""
  let tokenBalance := fun (d : Store) (address : Address) =>
    d.putTokenBalance tid address (after.tokens.getTokenBalance tid address)
  match tx.txType with
  | .ISSUE_TOKEN => d.deleteToken (Tokens.tokenIdOf tx.sender (tx.payload.symbol.getD "") tx.nonce)
  | .MINT_TOKEN =>
    let d := match after.tokens.registry[tid]? with
      | some reg => d.putToken tid reg
      | none => d
    tokenBalance d tx.recipient
  | .TRANSFER_TOKEN => tokenBalance (tokenBalance d tx.recipient) tx.sender
  | _ => d

end Store

namespace Blockchain
variable [Env]

def undoLog (s : Blockchain) (block : Block) : Blockchain :=
  let log := block.transactions.foldl (fun log tx => log.forgetReceipt tx.txId) s.log
  { s with
    log := { log with
      eventsByBlock := log.eventsByBlock.set block.index []
      blockLevelEvents := log.blockLevelEvents.erase block.index }
    finalizedHeight := if block.index ≤ s.finalizedHeight then block.index - 1 else s.finalizedHeight
    backend := s.backend.mapStore (·.deleteReceiptsForBlock block.index) }

/- Reward first, then the transactions from the last to the first. -/
def undoMoney (s : ChainState) (block : Block) : Except (Fault ChainState) ChainState :=
  if 0 < block.index ∧ s.ledger.financialActive then
    let reward := s.ledger.calcBlockReward block.index
    let s := { s with
      ledger := s.ledger.undoReward block.validator reward
      staking := s.staking.undoEpochReward block.validator reward }
    Outcome.within (fun ledger => { s with ledger })
      (block.transactions.reverse.foldlM
        (fun l tx => l.refundTx (ChainState.isDynamic block.index) block tx) s.ledger)
  else .ok s

/- `_find_validator_pk_in_chain` past the registry: the store's table, or the first
registration in the chain list. -/
def findValidatorPkInChain (s : Blockchain) (address : Address) : Option Bytes :=
  match s.backend with
  | .sqlite store =>
    match store.getValidator address with
    | some pkHex => if pkHex = "" then none else fromHex pkHex
    | none => none
  | .memory chainList =>
    (chainList.flatMap Block.transactions).findSome? (fun tx =>
      if tx.txType = .REGISTER_VALIDATOR ∧ tx.payload.validatorAddress = some address ∧
          tx.payload.validatorPubkey.getD "" ≠ "" then
        fromHex (tx.payload.validatorPubkey.getD "")
      else none)

def undoTx (block : Block) (s : Blockchain) (tx : Transaction) : Blockchain :=
  let index := (s.state.index.forgetTx tx).undoTx tx
  let staking := s.state.staking.undoTx s.findValidatorPkInChain tx block.index
  let state := { s.state with index, staking, tokens := s.state.tokens.undoTx tx }
  (s.withState state).mapStore (Store.persistUndo state tx)

def remainingNonces (s : Blockchain) (sender : Address) : List Int :=
  (s.state.index.txsBySender.get sender).filterMap (fun txId =>
    match s.getTx txId with
    | some tx => if s.getTxBlock txId = some 0 then none else some tx.nonce
    | none => none)

def recomputeNonce (s : Blockchain) (tx : Transaction) : Blockchain :=
  s.withState { s.state with index := { s.state.index with
    senderNonce := s.state.index.senderNonce.set tx.sender
      ((s.remainingNonces tx.sender).max?.getD (-1)) } }

def undoEpoch (s : ChainState) (blockIndex : Int) : Except (Fault ChainState) ChainState :=
  if blockIndex % epochLength = 0 then do
    let epoch := blockIndex / epochLength
    let s ← if 0 < epoch ∧ s.ledger.financialActive then do
        let record := s.staking.lastEpochDistributions.getD (epoch - 1) {}
        let s := { s with staking := { s.staking with
          lastEpochDistributions := s.staking.lastEpochDistributions.erase (epoch - 1) } }
        Outcome.within (fun ledger => { s with ledger }) (s.ledger.undoDistribution record)
      else .ok s
    .ok { s with staking := s.staking.leaveEpoch epoch }
  else .ok s

/- The snapshot of the block before, or a rebuild where there is none. -/
def undoTrie (s : Blockchain) (blockIndex : Int) : Except (Fault Blockchain) Blockchain :=
  let s := { s with stateSnapshots := s.stateSnapshots.erase blockIndex }
  match s.stateSnapshots[blockIndex - 1]? with
  | some entries => if 0 ≤ blockIndex - 1 then .ok (s.withTrie (s.trie.restore entries))
      else s.rebuildStateTrie
  | none => s.rebuildStateTrie

def undoTip (s : Blockchain) : Blockchain :=
  let height := s.height - 1
  { s with
    height
    latestBlock :=
      if 0 ≤ height then
        match s.backend with
        | .memory chainList => chainList.getLast?
        | .sqlite store => store.getBlock height
      else none }

def rollbackBlock (s : Blockchain) (block : Block) : Except (Fault Blockchain) Blockchain := do
  let s := s.undoLog block
  let s ← Outcome.within s.withState (undoMoney s.state block)
  let s := { s with blockByHash := s.blockByHash.erase block.blockHash }
  let s := block.transactions.foldl (undoTx block) s
  let s := block.transactions.foldl recomputeNonce s
  let s ← Outcome.within s.withState (undoEpoch s.state block.index)
  let s ← s.undoTrie block.index
  .ok s.undoTip

def supplyInvariant (s : Blockchain) : Int :=
  Dict.total s.state.ledger.balances + s.state.staking.totalStake.sum +
    s.state.ledger.totalBurned + (s.state.staking.unbonding.map UnbondingEntry.amount).sum -
    s.state.ledger.totalMinted

def blocksFrom (s : Blockchain) (target : Int) : List Block :=
  match s.backend with
  | .memory chainList => (chainList.drop target.toNat).reverse
  | .sqlite store => (downFrom s.height (target - 1)).filterMap store.getBlock

def popBlock (s : Blockchain) : Blockchain :=
  match s.backend with
  | .memory chainList => { s with backend := .memory chainList.dropLast }
  | .sqlite _ => s

def rollbackTo (s : Blockchain) (target : Int) : Except (Fault Blockchain) Blockchain := do
  let before := s.supplyInvariant
  let active := s.financialActive
  let blocks := s.blocksFrom target
  let s := s.mapStore (·.deleteBlocksFrom target)
  let s ← blocks.foldlM (fun s block => s.popBlock.rollbackBlock block) s
  let negative := s.state.ledger.negativeAccounts
  if negative ≠ [] then
    let details := ", ".intercalate
      ((negative.take 5).map (fun row => short row.1 ++ "=" ++ toString row.2))
    .error ⟨.valueError (s!"Balance conservation violation after rollback: {negative.length} " ++
      "account(s) with negative balance (" ++ details ++ "). Chain re-sync required."),s⟩
  else if active ∧ s.supplyInvariant ≠ before then
    .error ⟨.valueError (s!"Supply conservation violation after rollback: invariant shifted by " ++
      s!"{s.supplyInvariant - before} qubits. Chain re-sync required."),s⟩
  else .ok s

def abandonBlock (s : Blockchain) (block : Block) : Except (Fault Blockchain) Blockchain := do
  let s ← s.rollbackBlock block
  let s := match s.backend with
    | .memory chainList =>
      if chainList.getLast? = some block then { s with backend := .memory chainList.dropLast } else s
    | .sqlite store => { s with backend := .sqlite (store.deleteBlocksFrom block.index) }
  .ok { s with latestBlock := if 0 ≤ s.height then s.getBlockByIndex s.height else none }

/- `_append_block`: a ValueError is raised again after the undo, anything else at once. -/
def appendBlock (s : Blockchain) (block : Block) : Except (Fault Blockchain) Blockchain :=
  match s.appendBlockInner block with
  | .ok s => .ok s
  | .error ⟨.valueError message,s⟩ =>
    match s.abandonBlock block with
    | .ok s => .error ⟨.valueError message,s⟩
    | .error r => .error r
  | .error r => .error r

end Blockchain

end QbitNetwork
