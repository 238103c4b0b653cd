import QbitNetwork.TxPool

/-! `_append_block_inner`: the application of one block. -/
namespace QbitNetwork

structure ReceiptRow where
  txIndex : Int
  txId : String
  feePaid : Int
  events : List Event

structure Progress where
  chain : Blockchain
  receiptData : List ReceiptRow := []
  failedTxIds : DSet String := ∅

namespace Store
variable [Env]

def persistTx (before after : ChainState) (tx : Transaction) (d : Store) : Store :=
  let vaddr := tx.payload.validatorAddress.getD ""
  let vpkHex := tx.payload.validatorPubkey.getD ""
  let tid := tx.payload.tokenId.getD ""
  let tokenRow := fun (d : Store) (tid : TokenId) =>
    match after.tokens.registry[tid]? with
    | some reg => d.putToken tid reg
    | none => d
  let tokenBalance := fun (d : Store) (address : Address) =>
    d.putTokenBalance tid address (after.tokens.getTokenBalance tid address)
  match tx.txType with
  | .REGISTER_VALIDATOR =>
    if vpkHex ≠ "" ∧ vaddr ≠ "" ∧ vaddr ∉ before.staking.validatorRegistry then
      d.putValidator vaddr vpkHex
    else d
  | .REVOKE_KEY =>
    if tx.payload.keyType.getD "" = "validator" then d.deleteValidator tx.sender else d
  | .STAKE | .DELEGATE | .UNSTAKE =>
    if vaddr ≠ "" ∧ 0 < tx.payload.amount.getD 0 then
      d.putStake tx.sender vaddr (after.staking.stakes.get (vaddr,tx.sender))
    else d
  | .EVIDENCE =>
    if before.staking.evidenceHolds tx.payload then
      let stakers := (before.staking.stakes.items.filter (fun row => row.1.1 = vaddr)).map
        (fun row => row.1.2)
      let d := stakers.foldl (fun d staker =>
        d.putStake staker vaddr (after.staking.stakes.get (vaddr,staker))) d
      match after.staking.slashingEvents.getLast? with
      | some event => d.putSlashingEvent event
      | none => d
    else d
  | .ISSUE_TOKEN =>
    tokenRow d (Tokens.tokenIdOf tx.sender (tx.payload.symbol.getD "") tx.nonce)
  | .MINT_TOKEN => tokenBalance (tokenRow d tid) tx.recipient
  | .TRANSFER_TOKEN => tokenBalance (tokenBalance d tx.sender) tx.recipient
  | _ => d

end Store

namespace Blockchain
variable [Env]

def withState (s : Blockchain) (state : ChainState) : Blockchain := { s with state }

def withTrie (s : Blockchain) (trie : StateTrie) : Blockchain := { s with trie }

omit [Env] in
@[simp] theorem withStateState (s : Blockchain) (state : ChainState) :
    (s.withState state).state = state := rfl

omit [Env] in
@[simp] theorem withTrieState (s : Blockchain) (trie : StateTrie) :
    (s.withTrie trie).state = s.state := rfl

def storeBlock (s : Blockchain) (block : Block) : Except (Fault Blockchain) Blockchain :=
  match s.backend with
  | .memory chainList => .ok { s with backend := .memory (chainList ++ [block]) }
  | .sqlite store =>
    match store.appendBlock block with
    | .ok store => .ok { s with backend := .sqlite store }
    | .error exception => .error ⟨exception,s⟩

def advanceTip (s : Blockchain) (block : Block) (idx : Int) : Blockchain :=
  { s with
    height := idx
    latestBlock := some block
    blockByHash := s.blockByHash.insert block.blockHash idx }

def openBlock (s : Blockchain) (idx : Int) : Except (Fault Blockchain) Blockchain := do
  let starts := ChainState.epochStarts s.state.staking idx
  let s ← Outcome.within s.withState (s.state.openBlock idx)
  let epoch := idx / epochLength
  .ok (if starts then
      s.mapStore (·.putEpoch epoch (epoch * epochLength) s.state.staking.epochValidators)
    else s)

def revokesSigningKey (tx : Transaction) : Bool :=
  tx.txType = .REVOKE_KEY && tx.payload.keyType.getD "" = "signing"

/- `_process_evidence_tx` returns None on every path, so each EVIDENCE counts as failed. -/
def applyBlockTx (block : Block) (idx : Int) (p : Progress) (row : Transaction × Nat) :
    Except (Fault Progress) Progress := do
  let tx := row.1
  let before := p.chain.state
  let after ← Outcome.within (fun chain => { p with chain })
    (Outcome.within p.chain.withState (before.applyTx block idx row))
  let chain := after.chain.mapStore (Store.persistTx before after.chain.state tx)
  .ok { chain := { chain with
          pool := if revokesSigningKey tx then chain.pool.purgeSender tx.sender else chain.pool }
        receiptData := p.receiptData ++
          [⟨row.2,tx.txId,ChainState.feePaid block idx before.ledger.financialActive tx,
            chain.state.buildTxEvents tx⟩]
        failedTxIds :=
          if tx.txType = .EVIDENCE then p.failedTxIds.insert tx.txId else p.failedTxIds }

def applyTxs (s : Blockchain) (block : Block) (idx : Int) : Except (Fault Progress) Progress :=
  block.transactions.zipIdx.foldlM (applyBlockTx block idx) { chain := s }

/- A failed transaction keeps its receipt, without its events. -/
def receiptOf (idx : Int) (failed : DSet String) (row : ReceiptRow) : Receipt :=
  let status := if row.txId ∈ failed then Status.failure else Status.success
  { txId := row.txId
    status
    feePaid := row.feePaid
    blockIndex := idx
    txIndex := row.txIndex
    events := if status = .success then row.events else [] }

def addReceipts (p : Progress) (idx : Int) : Blockchain :=
  { p.chain with
    log := p.receiptData.foldl
      (fun log row => log.addReceipt (receiptOf idx p.failedTxIds row) row.events) p.chain.log }

def epochEvents (epochBefore epochAfter : Int) : List Event :=
  if epochBefore < epochAfter then [⟨"EpochTransition",[("epoch",.int epochAfter)]⟩] else []

def rewardEvents (validator : Address) (reward : Int) : List Event :=
  if 0 < reward then [⟨"BlockReward",[("validator",.str validator),("amount",.int reward)]⟩] else []

def rewardOf (s : Blockchain) (idx : Int) : Int :=
  if 0 < idx ∧ s.financialActive then s.state.ledger.calcBlockReward idx else 0

def setBlockLevelEvents (s : Blockchain) (idx : Int) (events : List Event) : Blockchain :=
  { s with log := { s.log with blockLevelEvents := s.log.blockLevelEvents.insert idx events } }

def checkReceiptsRoot (s : Blockchain) (block : Block) (idx : Int) (receipts : List Receipt) :
    Except (Fault Blockchain) Blockchain :=
  let computed := receiptsRoot receipts
  let s := { s with lastComputedReceiptsRoot := computed }
  if block.receiptsRoot ≠ "" ∧ block.receiptsRoot ≠ computed then
    .error ⟨.valueError (s!"Block #{idx} receiptsRoot mismatch: claimed " ++
      short block.receiptsRoot ++ " vs computed " ++ short computed),s⟩
  else .ok s

def rebuildStateTrie (s : Blockchain) : Except (Fault Blockchain) Blockchain :=
  Outcome.within s.withTrie (s.state.rebuildStateTrie s.trie)

/- `_state_trie.root().hex()`, which fills the root cache. -/
def stateRoot (s : Blockchain) : String × Blockchain :=
  (hex s.trie.root.1,s.withTrie s.trie.root.2)

def recordStateRoot (s : Blockchain) : Blockchain :=
  { s.stateRoot.2 with lastComputedStateRoot := some s.stateRoot.1 }

def compareStateRoot (s : Blockchain) (block : Block) (idx : Int) (computed : String) :
    Except (Fault Blockchain) Blockchain :=
  if block.stateRoot ≠ "" ∧ block.stateRoot ≠ computed then
    .error ⟨.valueError (s!"Block #{idx} state_root mismatch: claimed " ++
      short block.stateRoot ++ " vs computed " ++ short computed),s⟩
  else .ok s

def checkStateRoot (s : Blockchain) (block : Block) (idx : Int) :
    Except (Fault Blockchain) Blockchain := do
  let s ← s.rebuildStateTrie
  s.recordStateRoot.compareStateRoot block idx s.stateRoot.1

def pruneBefore (idx : Int) : Int := idx - maxReorgDepth - 1

def saveSnapshot (s : Blockchain) (idx : Int) : Blockchain :=
  { s with stateSnapshots :=
      let snapshots := s.stateSnapshots.insert idx s.trie.snapshot
      if 0 ≤ pruneBefore idx then snapshots.erase (pruneBefore idx) else snapshots }

def pruneTxIndex (s : Blockchain) (idx : Int) : Blockchain :=
  match s.backend with
  | .memory _ => s
  | .sqlite _ =>
    if 0 ≤ pruneBefore idx then
      match s.getBlockByIndex (pruneBefore idx) with
      | some old => s.withState { s.state with
          index := old.transactions.foldl Index.pruneTx s.state.index }
      | none => s
    else s

def pruneCaches (s : Blockchain) (idx : Int) : Blockchain :=
  let s := { s with log := s.log.pruneReceipts (pruneBefore idx) }
  let s := s.pruneTxIndex idx
  s.withState { s.state with staking := s.state.staking.pruneDistributions (pruneBefore idx) }

def affectedAddresses (s : Blockchain) (block : Block) (idx : Int) (matured : List Address) :
    List Address :=
  [block.validator] ++ block.transactions.map Transaction.sender ++
    (block.transactions.map Transaction.recipient).filter (· ≠ "") ++ matured ++
    if 0 < idx ∧ idx % epochLength = 0 then
      (s.state.staking.stakes.items.filter (fun row => row.1.2 ≠ row.1.1)).map (fun row => row.1.2)
    else []

def persistBalancesAfterBlock (s : Blockchain) (block : Block) (idx : Int) (matured : List Address) :
    Blockchain :=
  if s.financialActive then
    s.mapStore (fun d =>
      let d := (s.affectedAddresses block idx matured).foldl
        (fun d address => d.putBalance address (s.getBalance address)) d
      (d.putSupply "total_minted" s.state.ledger.totalMinted).putSupply "total_burned"
        s.state.ledger.totalBurned)
  else s

def persistReceipts (s : Blockchain) (idx : Int) (receipts : List Receipt) (events : List Event) :
    Blockchain :=
  s.mapStore (fun d =>
    let d := receipts.foldl Store.putReceipt d
    if events.isEmpty then d else d.putBlockLevelEvents idx events)

def countStake (s : Blockchain) (seen : List Address) (cumulative : Int) (validator : Address) : Int :=
  if validator ∈ seen then cumulative else cumulative + s.state.staking.totalStake.get validator

/- The backward walk of `_update_finality`: the first height at which the validators met
so far hold more than two thirds of the stake. A missing block ends it. -/
def finalityWalk (s : Blockchain) (totalStake : Int) :
    List Int → List Address → Int → Option Int
  | [],_,_ => none
  | blockIdx :: rest,seen,cumulative =>
    match s.getBlockByIndex blockIdx with
    | none => none
    | some block =>
      if totalStake * 2 < s.countStake seen cumulative block.validator * 3 then some blockIdx
      else s.finalityWalk totalStake rest (seen.insert block.validator)
        (s.countStake seen cumulative block.validator)

/- `range(high, low, -1)`. -/
def downFrom (high low : Int) : List Int :=
  (List.range (high - low).toNat).map (fun (offset : Nat) => high - (offset : Int))

def updateFinality (s : Blockchain) (newBlockIndex : Int) : Blockchain :=
  let totalStake := s.state.staking.totalStake.sum
  if s.financialActive = false ∨ totalStake = 0 then s
  else match s.finalityWalk totalStake (downFrom newBlockIndex (max s.finalizedHeight (-1))) [] 0 with
    | some newFinalized =>
      if s.finalizedHeight < newFinalized then { s with finalizedHeight := newFinalized } else s
    | none => s

def settleBlock (s : Blockchain) (block : Block) (idx : Int) (matured : List Address)
    (receipts : List Receipt) (events : List Event) : Blockchain :=
  let s := ((s.saveSnapshot idx).pruneCaches idx).persistBalancesAfterBlock block idx matured
  (s.persistReceipts idx receipts events).updateFinality idx

def closeBlock (p : Progress) (block : Block) (idx : Int) (matured : List Address)
    (opening : List Event) : Except (Fault Blockchain) Blockchain := do
  let s := addReceipts p idx
  let receipts := p.receiptData.map (receiptOf idx p.failedTxIds)
  let events := opening ++ rewardEvents block.validator (s.rewardOf idx)
  let s ← Outcome.within s.withState (s.state.payReward block idx)
  let s := s.setBlockLevelEvents idx events
  let s := { s with log := s.log.pruneBlockLevelEvents (pruneBefore idx) }
  let s ← s.checkReceiptsRoot block idx receipts
  let s ← s.checkStateRoot block idx
  .ok (s.settleBlock block idx matured receipts events)

def appendBlockInner (s : Blockchain) (block : Block) : Except (Fault Blockchain) Blockchain := do
  let idx := s.height + 1
  let s ← s.storeBlock block
  let s := s.advanceTip block idx
  let matured := (s.state.staking.matured idx).map UnbondingEntry.staker
  let epochBefore := s.state.staking.currentEpoch
  let s ← s.openBlock idx
  match s.applyTxs block idx with
  | .error r => .error ⟨r.exception,r.state.chain⟩
  | .ok p => closeBlock p block idx matured (epochEvents epochBefore s.state.staking.currentEpoch)

end Blockchain

end QbitNetwork
