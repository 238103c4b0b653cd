import Mathlib.Data.List.Infix
import QbitNetwork.Execution

/-! Gossip between nodes: the reputation a node keeps of its peers, the handlers of new_block
and new_tx, and a network of nodes that relay what they accepted. -/
namespace QbitNetwork

def maxFeeParam : Int := 2 ^ 63

/- The checks of `Transaction.from_dict` on a transaction of the right JSON types. -/
def Transaction.parses (tx : Transaction) : Bool :=
  (tx.senderPubkey.isEmpty || tx.senderPubkey.length == 1952) &&
    (0 ≤ tx.maxFeePerWeight && tx.maxFeePerWeight ≤ maxFeeParam) &&
    (0 ≤ tx.maxPriorityFee && tx.maxPriorityFee ≤ maxFeeParam) && tx.amountsParse

/- Those of `Block.from_dict`; the claimed hash is the block's own. -/
def Block.parses (block : Block) : Bool :=
  0 ≤ block.baseFee && block.transactions.all Transaction.parses

section Reputation

inductive PeerEvent where
  | validBlock | validTx | invalidBlock | invalidTx | stateRootMismatch | authFailed | timeout
  | rateLimited | protocolError
  deriving DecidableEq, Repr

def PeerEvent.delta : PeerEvent → Int
  | .validBlock => 10
  | .validTx => 1
  | .invalidBlock => -50
  | .invalidTx => -10
  | .stateRootMismatch => -100
  | .authFailed => -100
  | .timeout => -5
  | .rateLimited => -20
  | .protocolError => -30

structure PeerReputation where
  scores : Dict String Rat := ∅
  banned : DSet String := ∅

namespace PeerReputation

def defaultScore : Rat := 100
def banThreshold : Rat := -100
def decayRate : Rat := 99 / 100

def record (r : PeerReputation) (peerId : String) (event : PeerEvent) : PeerReputation :=
  if peerId = "" then r
  else
    let newScore := r.scores.getD peerId defaultScore + event.delta
    { scores := r.scores.insert peerId newScore
      banned := if newScore ≤ banThreshold then r.banned.insert peerId else r.banned }

def getScore (r : PeerReputation) (peerId : String) : Rat :=
  if peerId = "" then defaultScore else r.scores.getD peerId defaultScore

def isBanned (r : PeerReputation) (peerId : String) : Bool := peerId ≠ "" && r.banned.contains peerId

def decayed (score : Rat) : Rat := defaultScore + (score - defaultScore) * decayRate

/- A score close to the default is dropped, unless its peer is banned. -/
def decay (r : PeerReputation) : PeerReputation :=
  { r with scores := r.scores.filterMap (fun peerId score =>
      if decayed score - defaultScore < 1 / 100 ∧ defaultScore - decayed score < 1 / 100 ∧
          peerId ∉ r.banned then none
      else some (decayed score)) }

end PeerReputation

end Reputation

namespace Gossip

inductive Message where
  | newBlock (block : Block)
  | newTx (tx : Transaction)

structure Envelope where
  sender : String
  receiver : String
  message : Message

structure Node where
  chain : Blockchain
  reputation : PeerReputation := {}
  peers : List String := []

structure Handled where
  node : Node
  event : PeerEvent
  relayed : List Envelope := []

section Handlers
variable [Env]

def Node.broadcast (node : Node) (id : String) (message : Message) (exclude : String) : List Envelope :=
  (node.peers.filter (· ≠ exclude)).map (fun peer => ⟨id,peer,message⟩)

def lockGenesis (s : Blockchain) : Blockchain :=
  if 0 ≤ s.height ∧ s.genesisHash = "" then
    match s.getBlockByIndex 0 with
    | some genesis => { s with genesisHash := genesis.blockHash }
    | none => s
  else s

/- `needle in text`. -/
def occursIn (needle text : String) : Bool := decide (needle.toList <:+: text.toList)

def refusalEvent (err : String) : PeerEvent :=
  if occursIn "state_root mismatch" err then .stateRootMismatch else .invalidBlock

def Node.conclude (node : Node) (peer : String) (event : PeerEvent) (relayed : List Envelope) : Handled :=
  { node := { node with reputation := node.reputation.record peer event }, event, relayed }

def p2pNewBlock (id : String) (node : Node) (peer : String) (block : Block) (now : Int)
    (syncing : Bool) : Handled :=
  if block.parses = false then node.conclude peer .invalidBlock []
  else match node.chain.addBlock block now with
    | (.accepted,chain) =>
      { node with chain := lockGenesis chain }.conclude peer .validBlock
        (if syncing then [] else node.broadcast id (.newBlock block) peer)
    | (.refused err,chain) => { node with chain }.conclude peer (refusalEvent err) []
    | (.raised _,chain) => { node with chain }.conclude peer .invalidBlock []

def p2pNewTx (id : String) (node : Node) (peer : String) (tx : Transaction) (now : Int) : Handled :=
  if tx.parses = false then node.conclude peer .invalidTx []
  else match node.chain.submitTx now tx with
    | (.accepted,chain) =>
      { node with chain }.conclude peer .validTx (node.broadcast id (.newTx tx) peer)
    | (_,chain) => { node with chain }.conclude peer .invalidTx []

def dispatch (id : String) (node : Node) (peer : String) (now : Int) (syncing : Bool) : Message → Handled
  | .newBlock block => p2pNewBlock id node peer block now syncing
  | .newTx tx => p2pNewTx id node peer tx now

end Handlers

section Network
variable [Env]

structure Network where
  nodes : String → Node
  inFlight : List Envelope := []

structure Entry where
  node : String
  peer : String
  event : PeerEvent
  deriving DecidableEq

/- What can happen next. `lose` is a message the connection, the rate limiter or the gate of
unauthenticated peers drops. -/
inductive Action where
  | submit (id : String) (tx : Transaction) (now : Int)
  | produce (id : String) (address : Address) (sk : Bytes) (now later : Int)
  | deliver (position : Nat) (now : Int) (syncing : Bool)
  | lose (position : Nat)
  | sync (id : String) (block : Block) (now : Int)
  | reorg (id : String) (fork : List Block) (now : Int)
  | connect (id : String) (peers : List String)
  | decay (id : String)

namespace Network

def setNode (net : Network) (id : String) (node : Node) : Network :=
  { net with nodes := fun other => if other = id then node else net.nodes other }

def setChain (net : Network) (id : String) (chain : Blockchain) : Network :=
  net.setNode id { net.nodes id with chain }

def send (net : Network) (envelopes : List Envelope) : Network :=
  { net with inFlight := net.inFlight ++ envelopes }

def drop (net : Network) (position : Nat) : Network :=
  { net with inFlight := net.inFlight.eraseIdx position }

def receive (net : Network) (mail : Envelope) (now : Int) (syncing : Bool) : Network × List Entry :=
  let node := net.nodes mail.receiver
  if node.reputation.isBanned mail.sender then
    (net.setNode mail.receiver { node with peers := node.peers.filter (· ≠ mail.sender) },[])
  else
    let handled := dispatch mail.receiver node mail.sender now syncing mail.message
    ((net.setNode mail.receiver handled.node).send handled.relayed,
      [⟨mail.receiver,mail.sender,handled.event⟩])

def step (net : Network) : Action → Network × List Entry
  | .submit id tx now =>
    match (net.nodes id).chain.submitTx now tx with
    | (.accepted,chain) => ((net.setChain id chain).send ((net.nodes id).broadcast id (.newTx tx) ""),[])
    | (_,chain) => (net.setChain id chain,[])
  | .produce id address sk now later =>
    match (net.nodes id).chain.produceBlock address sk now later with
    | (.accepted,chain) =>
      ((net.setChain id chain).send (chain.latestBlock.toList.flatMap
        (fun block => (net.nodes id).broadcast id (.newBlock block) "")),[])
    | (_,chain) => (net.setChain id chain,[])
  | .deliver position now syncing =>
    match net.inFlight[position]? with
    | some mail => (net.drop position).receive mail now syncing
    | none => (net,[])
  | .lose position => (net.drop position,[])
  | .sync id block now => (net.setChain id ((net.nodes id).chain.addBlock block now).2,[])
  | .reorg id fork now => (net.setChain id ((net.nodes id).chain.tryReorg fork now).2,[])
  | .connect id peers => (net.setNode id { net.nodes id with peers },[])
  | .decay id =>
    (net.setNode id { net.nodes id with reputation := (net.nodes id).reputation.decay },[])

def run (net : Network) : List Action → Network × List Entry
  | [] => (net,[])
  | action :: rest =>
    let (next,entries) := net.step action
    let (last,later) := next.run rest
    (last,entries ++ later)

structure Fresh (net : Network) : Prop where
  reputations : ∀ id, (net.nodes id).reputation = {}
  inFlight : net.inFlight = []

end Network

end Network

end Gossip

end QbitNetwork
