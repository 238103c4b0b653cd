import QbitNetwork.Store

/-! The node's chain object: the replicated state, the blocks behind it, the pool and
the caches that hang off them. -/
namespace QbitNetwork

/- `_chain_list` exists exactly where `_store` does not. -/
inductive Backend where
  | memory (chainList : List Block)
  | sqlite (store : Store)

/- Counters at zero are popped, and read through `.get` with a default that stands for
an absent one. -/
structure TxPool where
  txPool : List Transaction := []
  poolIds : DSet String := ∅
  poolSenderCount : Table Address Int 0 := .empty
  pendingDebitsCache : Table Address Int 0 := .empty
  poolTypeCounts : Table String Int 0 := .empty

/- `chainNonces` holds what the consensus object reads for nonces once a failed
reorganisation has replaced `_sender_nonce` under it; while it is absent the two are
one object. -/
structure Blockchain where
  backend : Backend := .memory []
  latestBlock : Option Block := none
  height : Int := -1
  pool : TxPool := {}
  blockByHash : Dict String Int := ∅
  state : ChainState := {}
  trie : StateTrie := {}
  stateSnapshots : Dict Int (Dict String Bytes) := ∅
  log : EventLog := {}
  finalizedHeight : Int := -1
  genesisHash : String := ""
  chainNonces : Option (Table Address Int (-1)) := none
  lastComputedReceiptsRoot : String := ""
  lastComputedStateRoot : Option String := none

def listAt {α : Type} (items : List α) (index : Int) : Option α :=
  if 0 ≤ index then items[index.toNat]? else none

namespace Backend

def getBlock (b : Backend) (index : Int) : Option Block :=
  match b with
  | .memory chainList => listAt chainList index
  | .sqlite store => store.getBlock index

def getBlocksRange (b : Backend) (start stop : Int) : List Block :=
  match b with
  | .memory chainList => (chainList.take stop.toNat).drop start.toNat
  | .sqlite store => store.getBlocksRange start stop

def mapStore (f : Store → Store) (b : Backend) : Backend :=
  match b with
  | .memory chainList => .memory chainList
  | .sqlite store => .sqlite (f store)

@[simp] theorem mapStoreMemory (f : Store → Store) (chainList : List Block) :
    mapStore f (.memory chainList) = .memory chainList := rfl

@[simp] theorem mapStoreSqlite (f : Store → Store) (store : Store) :
    mapStore f (.sqlite store) = .sqlite (f store) := rfl

end Backend

namespace Blockchain

def getBlockByIndex (s : Blockchain) (index : Int) : Option Block := s.backend.getBlock index

def mapStore (f : Store → Store) (s : Blockchain) : Blockchain :=
  { s with backend := s.backend.mapStore f }

def financialActive (s : Blockchain) : Bool := s.state.ledger.financialActive

def getBalance (s : Blockchain) (address : Address) : Int := s.state.ledger.getBalance address

def getNonce (s : Blockchain) (address : Address) : Int := s.state.index.getNonce address

def getActiveValidators (s : Blockchain) : List (Address × Int) := s.state.staking.getActiveValidators

def isKeyRevoked (s : Blockchain) (address : Address) (keyType : String) : Bool :=
  s.state.staking.isKeyRevoked address keyType

def getFinalizedHeight (s : Blockchain) : Int := s.finalizedHeight

def consensusNonces (s : Blockchain) : Table Address Int (-1) :=
  s.chainNonces.getD s.state.index.senderNonce

def getTx (s : Blockchain) (txId : String) : Option Transaction := do
  let location ← s.state.index.txById[txId]?
  let block ← s.getBlockByIndex location.1
  listAt block.transactions location.2

def getTxBlock (s : Blockchain) (txId : String) : Option Int :=
  s.state.index.txById[txId]?.map Prod.fst

/- `Blockchain()`, and `Blockchain(data_dir)` over a store that may hold a chain, with the validators
that `consensus.add_validator` has been told of before anything else. -/
def new (backend : Backend) (validators : Dict Address Bytes := ∅) : Blockchain :=
  { backend, state := { staking := { validators } } }

end Blockchain

end QbitNetwork
