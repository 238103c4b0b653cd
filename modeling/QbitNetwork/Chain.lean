import QbitNetwork.Rollback

/-! The node's operations on its chain: genesis, production, reception and
reorganisation. -/
namespace QbitNetwork

namespace Blockchain
variable [Env]

section Stamp

def replaceBlock (chainList : List Block) (block : Block) : List Block :=
  if 0 ≤ block.index then chainList.set block.index.toNat block else chainList

def stampedBlock (block : Block) (stateRoot receiptsRoot : String) (sk : Bytes) : Block :=
  { block with stateRoot, receiptsRoot }.sign sk

def replaceTip (s : Blockchain) (old block : Block) : Except (Fault Blockchain) Blockchain :=
  let s := { s with
    blockByHash := (s.blockByHash.erase old.blockHash).insert block.blockHash block.index }
  match s.backend with
  | .memory chainList =>
    .ok { s with backend := .memory (replaceBlock chainList block), latestBlock := some block }
  | .sqlite store =>
    match store.updateBlock block with
    | .ok store => .ok { s with backend := .sqlite store, latestBlock := some block }
    | .error exception => .error ⟨exception,s⟩

end Stamp

section Genesis

def registration (address : Address) (signingSk signingPk : Bytes) (now : Int) : Transaction :=
  Transaction.sign
    { txType := .REGISTER_VALIDATOR
      sender := address
      payload := { validatorPubkey := some (hex signingPk), validatorAddress := some address }
      timestamp := now } signingSk signingPk

def autoStake (s : Blockchain) (address : Address) : Blockchain :=
  (s.withState { s.state with staking := { s.state.staking with
    stakes := s.state.staking.stakes.set (address,address) minStake
    totalStake := s.state.staking.totalStake.set address minStake } }).mapStore
      (·.putStake address address minStake)

/- `init_chain(address, sk, pk)`; an absent `pk` is the empty one. -/
def initChain (s : Blockchain) (address : Address) (sk pk : Bytes) (now : Int) :
    Except (Fault Blockchain) Blockchain :=
  if 0 ≤ s.height then .ok s
  else do
    let key := if pk.isEmpty then s.state.staking.validators.getD address [] else pk
    let transactions := if key.isEmpty then [] else [registration address sk key now]
    let genesis := (Block.genesis address transactions now).sign sk
    let s ← s.appendBlock genesis
    let s := if pk.isEmpty then s else s.autoStake address
    let (root,s) := s.stateRoot
    let stamped := stampedBlock genesis root s.lastComputedReceiptsRoot sk
    let s ← s.replaceTip genesis stamped
    .ok { s with genesisHash := stamped.blockHash }

def allocateGenesis (s : Blockchain) (address : Address) :
    Except (Fault Blockchain) Blockchain := do
  let amount := genesisBalanceQbit * qubitPerQbit
  let s ← Outcome.within (fun ledger => s.withState { s.state with ledger })
    (s.state.ledger.credit address amount)
  let s := s.withState { s.state with ledger := s.state.ledger.mint amount }
  .ok (s.mapStore (fun d =>
    ((d.putBalance address (s.getBalance address)).putSupply "total_minted"
      s.state.ledger.totalMinted).putSupply "total_burned" s.state.ledger.totalBurned))

def activateFinancialLayer (s : Blockchain) (address : Address) :
    Except (Fault Blockchain) Blockchain :=
  if s.financialActive then .ok s
  else do
    let s := s.withState { s.state with ledger := { s.state.ledger with financialActive := true } }
    let s ← if address ≠ "" ∧ s.getBalance address = 0 then s.allocateGenesis address else .ok s
    let s ← s.rebuildStateTrie
    .ok (if 0 ≤ s.height then
        { s with stateSnapshots := s.stateSnapshots.insert s.height s.trie.snapshot }
      else s)

end Genesis

section Production

def eligible (baseFee : Int) (pool : List Transaction) : List Transaction :=
  pool.filter (fun tx => txWeights tx.txType = 0 ∨ baseFee ≤ tx.maxFeePerWeight)

def senderQueue (txs : List Transaction) (sender : Address) : List Transaction :=
  (txs.filter (fun tx => tx.sender = sender)).insertionSort (fun a b => a.nonce ≤ b.nonce)

def senderPriority (baseFee : Int) (txs : List Transaction) (sender : Address) : Int :=
  (senderQueue txs sender).foldl (fun best tx =>
    if 0 < txWeights tx.txType then
      max best (max 0 (min tx.maxPriorityFee (tx.maxFeePerWeight - baseFee)))
    else best) 0

/- Senders in order of first appearance, then by falling priority (a stable sort). -/
def sortedSenders (baseFee : Int) (txs : List Transaction) : List Address :=
  (((txs.map Transaction.sender).reverse.dedup).reverse).insertionSort
    (fun a b => senderPriority baseFee txs b ≤ senderPriority baseFee txs a)

def takeQueue : List Transaction × Int → List Transaction → List Transaction × Int
  | taken,[] => taken
  | (txs,totalWeight),tx :: rest =>
      if maxTxPerBlock ≤ txs.length ∨ maxBlockWeight < totalWeight + txWeights tx.txType then
        (txs,totalWeight)
      else takeQueue (txs ++ [tx],totalWeight + txWeights tx.txType) rest

def packDynamic (baseFee : Int) (pool : List Transaction) : List Transaction :=
  let txs := eligible baseFee pool
  ((sortedSenders baseFee txs).foldl (fun taken sender => takeQueue taken (senderQueue txs sender))
    ([],0)).1

def selectTxs (s : Blockchain) (parent : Block) : List Transaction × Int :=
  if dynamicActive (parent.index + 1) then
    let baseFee := expectedBaseFee parent (parent.index + 1)
    (packDynamic baseFee s.pool.txPool,baseFee)
  else (s.pool.txPool.take maxTxPerBlock,0)

def draftBlock (s : Blockchain) (parent : Block) (address : Address) (sk : Bytes) (now : Int) : Block :=
  let (transactions,baseFee) := s.selectTxs parent
  Block.sign
    { index := parent.index + 1
      prevHash := parent.blockHash
      transactions
      validator := address
      timestamp := max now (parent.timestamp + 1)
      baseFee } sk

/- `produce_block`; `.refused` is its `return None`, with the reason it logs. The clock is
read at `now` for the timestamp and at `later` by the validation. -/
def produceBlock (s : Blockchain) (address : Address) (sk : Bytes) (now later : Int) :
    Reply × Blockchain :=
  if s.height < 0 then (.refused "no chain",s)
  else match s.latestBlock with
    | none => (.raised .attributeError,s)
    | some parent =>
      match s.selectValidator (parent.index + 1) parent.blockHash none with
      | .error exception => (.raised exception,s)
      | .ok expected =>
        if wrongTurn expected address then
          (.refused "not our turn",s)
        else if s.isKeyRevoked address "signing" then
          (.refused "Cannot produce block: signing key revoked",s)
        else
          let block := s.draftBlock parent address sk now
          if block.transactions = [] ∧ dynamicActive block.index = false then
            (.refused "empty pool",s)
          else match s.validateBlock later block (some parent) with
            | .error halt => (halt.reply,s)
            | .ok _ =>
              match s.appendBlock block with
              | .error r => (.raised r.exception,r.state)
              | .ok s =>
                let stamped := stampedBlock block
                  (s.lastComputedStateRoot.getD s.stateRoot.1) s.lastComputedReceiptsRoot sk
                match s.replaceTip block stamped with
                | .error r => (.raised r.exception,r.state)
                | .ok s => (.accepted,s.drainPool stamped)

end Production

section Reception

def addBlock (s : Blockchain) (block : Block) (now : Int) : Reply × Blockchain :=
  if block.blockHash ∈ s.blockByHash then (.refused "already have this block",s)
  else
    let expectedIndex := s.height + 1
    if block.index = expectedIndex then
      let parent := if 0 < block.index then s.latestBlock else none
      match s.validateBlock now block parent with
      | .error halt => (halt.reply,s)
      | .ok _ =>
        if 0 < block.index ∧ block.stateRoot = "" then
          (.refused "missing state_root: received blocks must include state_root",s)
        else match s.appendBlock block with
          | .ok s => (.accepted,s.drainPool block)
          | .error ⟨.valueError message,s⟩ => (.refused message,s)
          | .error r => (.raised r.exception,r.state)
    else if 0 < block.index ∧ block.index < expectedIndex then
      (.refused (s!"first-seen wins: already have block at index {block.index}, " ++
        "use try_reorg() with a longer fork chain"),s)
    else (.refused s!"out-of-order block: expected index {expectedIndex}, got {block.index}",s)

end Reception

section Reorganisation

/- The copies taken before the rollback, put back; the rest stays as rolled back. Nonces
become a new object, which the consensus object does not see. -/
def restoreSaved (s saved : Blockchain) : Blockchain :=
  { s with
    state := { s.state with
      index := { s.state.index with senderNonce := saved.state.index.senderNonce }
      ledger := { s.state.ledger with
        balances := saved.state.ledger.balances
        totalMinted := saved.state.ledger.totalMinted
        totalBurned := saved.state.ledger.totalBurned }
      staking := { s.state.staking with
        stakes := saved.state.staking.stakes
        totalStake := saved.state.staking.totalStake
        unbonding := saved.state.staking.unbonding }
      tokens := saved.state.tokens }
    chainNonces := some s.consensusNonces
    trie := s.trie.restore saved.trie.snapshot
    height := saved.height
    latestBlock := saved.latestBlock
    stateSnapshots := saved.stateSnapshots }

/- The branch for a root that does not match after the rollback. The store has no
`put_block`. -/
def refuseRollback (s saved : Blockchain) (forkStart : Int) (savedChain : List Block)
    (message : String) : Reply × Blockchain :=
  let s := s.restoreSaved saved
  match s.backend with
  | .memory chainList =>
    (.refused message,{ s with backend := .memory (chainList.take forkStart.toNat ++ savedChain) })
  | .sqlite store =>
    let s := { s with backend := .sqlite (store.deleteBlocksFrom forkStart) }
    if savedChain = [] then (.refused message,s) else (.raised .attributeError,s)

def restoreOriginal (s : Blockchain) (forkStart : Int) (savedChain : List Block) (applied : Bool)
    (message : String) : Reply × Blockchain :=
  let outcome : Except (Fault Blockchain) Blockchain := do
    let s ← if applied then s.rollbackTo forkStart else .ok s
    savedChain.foldlM appendBlock s
  match outcome with
  | .ok s => (.refused message,s)
  | .error r => (.raised r.exception,r.state)

def applyFork (now forkStart : Int) (savedChain : List Block) :
    List Block → Bool → Option Block → Blockchain → Reply × Blockchain
  | [],_,_,s => (.accepted,s)
  | fb :: rest,applied,parent,s =>
    if 0 < fb.index ∧ fb.stateRoot = "" then
      s.restoreOriginal forkStart savedChain applied s!"fork block #{fb.index} missing state_root"
    else match s.validateBlock now fb parent with
      | .error (.refused err) =>
        s.restoreOriginal forkStart savedChain applied (s!"fork block #{fb.index} invalid: " ++ err)
      | .error (.raised exception) => (.raised exception,s)
      | .ok _ =>
        match s.appendBlock fb with
        | .ok s => applyFork now forkStart savedChain rest true (some fb) s
        | .error ⟨.valueError message,s⟩ =>
          s.restoreOriginal forkStart savedChain applied
            (s!"fork block #{fb.index} rejected: " ++ message)
        | .error r => (.raised r.exception,r.state)

def returnTx (mined : List String) (s : Blockchain) (tx : Transaction) : Blockchain :=
  if tx.txId ∈ mined ∨ tx.txId ∈ s.state.index.txById then s
  else if tx.nonce = s.getNonce tx.sender + s.pool.poolSenderCount.get tx.sender then
    { s with pool := { s.pool with
      txPool := s.pool.txPool ++ [tx]
      poolIds := s.pool.poolIds.insert tx.txId
      poolSenderCount := s.pool.poolSenderCount.update tx.sender (· + 1)
      pendingDebitsCache := s.pool.pendingDebitsCache.update tx.sender (· + s.calcTxDebit tx) } }
  else s

def returnDisplaced (s : Blockchain) (forkBlocks : List Block) (displaced : List Transaction) :
    Blockchain :=
  let mined := (forkBlocks.flatMap Block.transactions).map Transaction.txId
  let sorted := displaced.insertionSort
    (fun a b => a.sender < b.sender ∨ (a.sender = b.sender ∧ a.nonce ≤ b.nonce))
  (sorted.foldl (returnTx mined) s).rebuildPendingDebitsCache

def reorgStart (s : Blockchain) (forkBlocks : List Block) : Except Halt Int :=
  match forkBlocks with
  | [] => .error (.refused "empty fork")
  | first :: _ => do
    let forkStart := first.index
    let chainLen := s.height + 1
    let depth := chainLen - forkStart
    refuseIf (forkStart = 0 ∨ chainLen < forkStart) "invalid fork start"
    refuseIf (maxReorgDepth < depth) s!"reorg too deep: {depth} > {maxReorgDepth}"
    match s.getBlockByIndex (forkStart - 1) with
    | none => .error (.refused "common ancestor not found")
    | some ancestor =>
      refuseIf (first.prevHash ≠ ancestor.blockHash) "fork doesn't connect to our chain"
      refuseIf (forkBlocks.length ≤ depth)
        (s!"fork not longer: {forkBlocks.length} blocks vs our {depth} blocks " ++
          "(first-seen wins on tie)")
      .ok forkStart

def rootMismatch (s : Blockchain) (ancestorIdx : Int) : Option String × Blockchain :=
  match s.stateSnapshots[ancestorIdx]? with
  | none => (none,s)
  | some entries =>
    let expected := hex (StateTrie.computeRoot entries)
    let (rolledBack,s) := s.stateRoot
    if rolledBack = expected then (none,s)
    else (some ("state root mismatch after rollback: expected " ++ short expected ++ ", got " ++
      short rolledBack),s)

def tryReorg (s : Blockchain) (forkBlocks : List Block) (now : Int) : Reply × Blockchain :=
  match s.reorgStart forkBlocks with
  | .error halt => (halt.reply,s)
  | .ok forkStart =>
    let savedChain := s.backend.getBlocksRange forkStart (s.height + 1)
    let displaced := (s.blocksFrom forkStart).flatMap Block.transactions
    match s.rollbackTo forkStart with
    | .error r => (.raised r.exception,r.state)
    | .ok rolled =>
      match rolled.rootMismatch (forkStart - 1) with
      | (some message,rolled) => rolled.refuseRollback s forkStart savedChain message
      | (none,rolled) =>
        match applyFork now forkStart savedChain forkBlocks false rolled.latestBlock rolled with
        | (.accepted,s) => (.accepted,s.returnDisplaced forkBlocks displaced)
        | answer => answer

end Reorganisation

end Blockchain

end QbitNetwork
