import QbitNetwork.Chain

/-! `load()` of a node with a database: the blocks are read again one by one, the rest
comes from the tables. -/
namespace QbitNetwork

namespace Store

def reopened (d : Store) : Store := { d with height := d.blocks.maxKey?.getD (-1) }

/- `ORDER BY block_index`. -/
def getSlashingEvents (d : Store) : List SlashingEvent :=
  d.slashingEvents.insertionSort (fun a b => a.blockIndex ≤ b.blockIndex)

def getTokenHolders (d : Store) (tid : TokenId) : List (Address × Int) :=
  (d.tokenBalances.items.filter (fun row => row.1.1 = tid ∧ 0 < row.2)).map
    (fun row => (row.1.2,row.2))

end Store

namespace Staking

def registeredKey (p : Payload) : Except PyExc (Option (Address × Bytes)) :=
  let vpkHex := p.validatorPubkey.getD ""
  let vaddr := p.validatorAddress.getD ""
  if vpkHex = "" ∨ vaddr = "" then .ok none
  else match fromHex vpkHex with
    | none => .error (.valueError "non-hexadecimal number found in fromhex() arg")
    | some pk => .ok (some (vaddr,pk))

/- Unlike a block that is appended, a stored one overwrites a key that is known. -/
def reloadRegistration (k : Staking) (p : Payload) : Except (Fault Staking) Staking :=
  match registeredKey p with
  | .error exception => .error ⟨exception,k⟩
  | .ok none => .ok k
  | .ok (some (vaddr,pk)) =>
    .ok ((({ k with validatorRegistry := k.validatorRegistry.insert vaddr pk }).addValidator
      vaddr pk).setCommission vaddr p.commission)

/- Only what is still unbonding at the stored height is queued. -/
def reloadUnstake (k : Staking) (staker : Address) (p : Payload) (idx storeHeight : Int) : Staking :=
  let unstaked := k.unstake staker p idx
  if storeHeight < idx + unbondingPeriod then unstaked
  else { unstaked with unbonding := k.unbonding }

variable [Env]

def reloadTx (k : Staking) (tx : Transaction) (idx storeHeight : Int) : Except (Fault Staking) Staking :=
  match tx.txType with
  | .REGISTER_VALIDATOR => k.reloadRegistration tx.payload
  | .REVOKE_KEY => .ok (k.revokeKey tx.sender tx.payload
      ⟨tx.txId,tx.timestamp,tx.payload.reason.getD ""⟩)
  | .STAKE | .DELEGATE => .ok (k.addStake tx.sender tx.payload)
  | .UNSTAKE => .ok (k.reloadUnstake tx.sender tx.payload idx storeHeight)
  | _ => .ok k

omit [Env]

/- The table is authoritative: it has the slashing reductions. -/
def loadStakes (k : Staking) (d : Store) : Staking :=
  { k with
    stakes := d.stakes.items.foldl (fun stakes row => stakes.set (row.1.2,row.1.1) row.2) .empty
    totalStake := d.stakes.items.foldl
      (fun totals row => totals.update row.1.2 (· + row.2)) .empty }

def loadEpoch (k : Staking) (row : Int × Int × List (Address × Int)) : Staking :=
  let k := { k with epochs := k.epochs.insert row.1 row.2.2 }
  if k.currentEpoch ≤ row.1 then { k with currentEpoch := row.1, epochValidators := row.2.2 } else k

def loadSlashing (k : Staking) (event : SlashingEvent) : Staking :=
  { k with
    slashingEvents := k.slashingEvents ++ [event]
    slashedValidators := k.slashedValidators.insert event.validator
    processedEvidence := k.processedEvidence.insert event.validator }

/- A slashed validator below MIN_STAKE is out, one above it counts with what is left. -/
def reconcileSlashed (k : Staking) (vaddr : Address) : Staking :=
  let remaining := k.totalStake.get vaddr
  if remaining < minStake then
    { k with epochValidators := k.epochValidators.filter (fun row => row.1 ≠ vaddr) }.removeValidator vaddr
  else { k with
    epochValidators := k.epochValidators.map (fun row => if row.1 = vaddr then (row.1,remaining) else row) }

def loadValidator (k : Staking) (row : Address × String) : Except (Fault Staking) Staking :=
  if row.1 ∈ k.validatorRegistry then .ok k
  else match fromHex row.2 with
    | none => .error ⟨.valueError "non-hexadecimal number found in fromhex() arg",k⟩
    | some pk =>
      .ok ({ k with validatorRegistry := k.validatorRegistry.insert row.1 pk }.addValidator row.1 pk)

def loadTables (k : Staking) (d : Store) : Except (Fault Staking) Staking := do
  let k ← d.validatorRegistry.toList.foldlM loadValidator k
  let k := d.epochs.toList.foldl loadEpoch (k.loadStakes d)
  let k := d.getSlashingEvents.foldl loadSlashing k
  .ok (k.slashedValidators.toList.foldl reconcileSlashed k)

end Staking

namespace Ledger

def loadTables (l : Ledger) (d : Store) : Ledger :=
  { balances := d.balances.toList.foldl (fun balances row => balances.insert row.1 row.2) l.balances
    totalMinted := d.supply.get "total_minted"
    totalBurned := d.supply.get "total_burned"
    financialActive := l.financialActive || decide (0 < d.supply.get "total_minted") }

end Ledger

namespace Tokens

def loadToken (d : Store) (t : Tokens) (row : TokenId × TokenMeta) : Tokens :=
  let t := { t with
    registry := t.registry.insert row.1 row.2
    bySymbol := t.bySymbol.insert row.2.symbol row.1 }
  (d.getTokenHolders row.1).foldl (fun t holder => t.setTokenBalance row.1 holder.1 holder.2) t

def loadTables (t : Tokens) (d : Store) : Tokens := d.tokens.toList.foldl (loadToken d) t

end Tokens

/- The load loop ends early with `False`, or with an exception. -/
inductive LoadStop where
  | incomplete (s : Blockchain)
  | raised (r : Fault Blockchain)

/- The loop's variables: the chain object, `load_validators` and `prev_hash`. -/
structure Loading where
  chain : Blockchain
  loadValidators : Dict Address Bytes
  prevHash : String := ""

namespace Blockchain
variable [Env]

section Verify

def storedInvalid (block : Block) (message : String) : PyExc :=
  .valueError (s!"SQLite block #{block.index} " ++ message)

/- An empty key is no key, and a missing one is only logged. -/
def verifyStoredBlock (loadValidators : Dict Address Bytes) (block : Block) : Except PyExc Unit :=
  match block.transactions.find? (fun tx => !tx.verify) with
  | some tx => .error (storedInvalid block ("contains tx with invalid signature: " ++ short tx.txId))
  | none =>
    let pk := loadValidators.getD block.validator []
    if block.validator ≠ "" ∧ ¬pk.isEmpty ∧ ¬block.verifySignature pk then
      .error (storedInvalid block "has invalid validator signature")
    else .ok ()

omit [Env] in
def trackValidator (loadValidators : Dict Address Bytes) (tx : Transaction) :
    Except PyExc (Dict Address Bytes) :=
  match tx.txType with
  | .REGISTER_VALIDATOR =>
    match Staking.registeredKey tx.payload with
    | .error exception => .error exception
    | .ok none => .ok loadValidators
    | .ok (some (vaddr,pk)) => .ok (loadValidators.insert vaddr pk)
  | .REVOKE_KEY =>
    .ok (if tx.payload.keyType.getD "" = "validator" then loadValidators.erase tx.sender
      else loadValidators)
  | _ => .ok loadValidators

def verifyStored (loadValidators : Dict Address Bytes) (block : Block) :
    Except PyExc (Dict Address Bytes) := do
  verifyStoredBlock loadValidators block
  block.transactions.foldlM trackValidator loadValidators

end Verify

section Replay

def reloadTx (idx storeHeight : Int) (s : Blockchain) (row : Transaction × Nat) :
    Except (Fault Blockchain) Blockchain :=
  let tx := row.1
  let index := (s.state.index.recordTx idx row.2 tx).applyTx tx
  Outcome.within (fun staking => s.withState { s.state with index, staking })
    (s.state.staking.reloadTx tx idx storeHeight)

def loadBlock (verifySignatures : Bool) (storeHeight : Int) (l : Loading) (i : Int) :
    Except LoadStop Loading :=
  match l.chain.getBlockByIndex i with
  | none => .error (.incomplete l.chain)
  | some block =>
    if (i = 0 ∧ block.index ≠ 0) ∨ (i ≠ 0 ∧ block.prevHash ≠ l.prevHash) then
      .error (.incomplete l.chain)
    else
      match if verifySignatures then verifyStored l.loadValidators block else .ok l.loadValidators with
      | .error exception => .error (.raised ⟨exception,l.chain⟩)
      | .ok loadValidators =>
        match block.transactions.zipIdx.foldlM (reloadTx i storeHeight) (l.chain.advanceTip block i) with
        | .error r => .error (.raised r)
        | .ok chain => .ok { chain, loadValidators, prevHash := block.blockHash }

def storedHeights (storeHeight : Int) : List Int :=
  (List.range (storeHeight + 1).toNat).map (fun (i : Nat) => (i : Int))

end Replay

section Tables

omit [Env] in
def loadReceipts (s : Blockchain) (d : Store) (storeHeight : Int) : Blockchain :=
  { s with
    log := (storedHeights storeHeight).foldl
      (fun log i => (d.getReceiptsForBlock i).foldl
        (fun log receipt => log.addReceipt receipt receipt.events) log) s.log }

def loadTables (s : Blockchain) (d : Store) (storeHeight : Int) : Except (Fault Blockchain) Blockchain := do
  let s ← Outcome.within (fun staking => s.withState { s.state with staking })
    (s.state.staking.loadTables d)
  let s := s.withState { s.state with ledger := s.state.ledger.loadTables d }
  let s := s.loadReceipts d storeHeight
  .ok (s.withState { s.state with tokens := s.state.tokens.loadTables d })

def checkLoadedRoot (s : Blockchain) : Except (Fault Blockchain) Blockchain :=
  let claimed := (s.latestBlock.map Block.stateRoot).getD ""
  if claimed = "" then .ok s
  else if s.stateRoot.1 ≠ claimed then
    .error ⟨.valueError ("SQLite state integrity check failed: state root mismatch (computed " ++
      short s.stateRoot.1 ++ s!" vs block #{s.height} stored " ++ short claimed ++
      "). Database may be tampered or corrupted."),s.stateRoot.2⟩
  else .ok s.stateRoot.2

end Tables

def loadFromSqlite (s : Blockchain) (d : Store) (verifySignatures : Bool) :
    Except (Fault Blockchain) (Bool × Blockchain) :=
  let d := d.reopened
  let s := { s with backend := .sqlite d }
  if d.height < 0 then .ok (false,s)
  else
    match (storedHeights d.height).foldlM (loadBlock verifySignatures d.height)
        { chain := s, loadValidators := if verifySignatures then s.state.staking.validators else ∅ } with
    | .error (.incomplete s) => .ok (false,s)
    | .error (.raised r) => .error r
    | .ok l => do
      let s ← l.chain.loadTables d d.height
      let s ← s.rebuildStateTrie
      let s ← s.checkLoadedRoot
      .ok (true,s)

/- `load()`; a node has a database exactly where it has a data directory. -/
def load (s : Blockchain) (verifySignatures : Bool) : Except (Fault Blockchain) (Bool × Blockchain) :=
  if 0 ≤ s.height then .ok (true,s)
  else match s.backend with
    | .memory _ => .ok (false,s)
    | .sqlite d => s.loadFromSqlite d verifySignatures

end Blockchain

end QbitNetwork
