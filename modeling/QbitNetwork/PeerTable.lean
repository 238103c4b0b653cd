import QbitNetwork.HandshakeMoves
import QbitNetwork.Lib.OrderedDict

/-! The peer table of a node: the key each connection is held under, as connects, inbound
connections, announced ports, deduplication and disconnects interleave. -/
namespace QbitNetwork.Handshake.PeerTable

def maxPeers : Nat := 50

/- `f"{port}"` of a port. -/
def portText : Json → String
  | .int n => toString n
  | .bool value => if value then "True" else "False"
  | _ => ""

def addrOf (host : String) (port : Json) : String := host ++ ":" ++ portText port

/- `temp_key`, with the number of the connection for `id(writer)`. -/
def tempKey (host : String) (n : Nat) : String := "_inbound_" ++ host ++ "_" ++ toString n

structure Connection where
  host : String
  conn : Conn
  peerKey : String

namespace Connection

def addr (c : Connection) : String := addrOf c.host c.conn.peer.port

def finalKey (c : Connection) : String := if c.conn.peer.isInitiator then c.addr else c.peerKey

def isLive (c : Connection) : Prop := c.conn.phase ≠ .closed ∧ c.conn.peer.connected = true

def disconnect (c : Connection) : Connection :=
  { c with conn := c.conn.withPeer { c.conn.peer with connected := false } }

end Connection

structure Table where
  peers : OrderedDict String Nat
  connections : List Connection
  opening : List (String × Int)

inductive Action where
  | connect (host : String) (port : Int) (safe : Bool)
  | opened (n : Nat) (input : Option Incoming)
  | accept (host : String) (allowed : Bool)
  | hear (i : Nat) (input : Incoming)

namespace Table

def empty : Table := ⟨.empty,[],[]⟩

/- `connect` up to the wait for its socket. -/
def connect (host : String) (port : Int) (safe : Bool) (t : Table) : Table :=
  if maxPeers ≤ t.peers.size then t
  else if t.peers.contains (addrOf host (.int port)) then t
  else if safe = false then t
  else { t with opening := t.opening ++ [(host,port)] }

section Opening
variable [Env] [Channel]

/- `connect` from its socket on; a signature that fails takes the entry out again. -/
def register (node : P2PNode) (host : String) (port : Int) (input : Incoming) (t : Table) : Table :=
  let addr := addrOf host (.int port)
  let conn := Handshake.connect node port input
  let peers := t.peers.set addr t.connections.length
  { t with
    peers := if conn.phase = .closed then peers.pop addr else peers
    connections := t.connections ++ [⟨host,conn,addr⟩] }

def opened (node : P2PNode) (n : Nat) (input : Option Incoming) (t : Table) : Table :=
  match t.opening[n]? with
  | none => t
  | some (host,port) =>
    let t := { t with opening := t.opening.eraseIdx n }
    match input with
    | none => t
    | some input => t.register node host port input

end Opening

def accept (host : String) (allowed : Bool) (t : Table) : Table :=
  if maxPeers ≤ t.peers.size then t
  else if allowed = false then t
  else
    let tempKey := tempKey host t.connections.length
    { t with
      peers := t.peers.set tempKey t.connections.length
      connections := t.connections ++ [⟨host,accepted,tempKey⟩] }

def updatePeerKey (i : Nat) (c : Connection) (newPort : Json) (t : Table) : Table :=
  if isPort newPort = false then t
  else
    let peers := t.peers.pop c.peerKey
    let realKey := addrOf c.host newPort
    let peerKey := if peers.contains realKey then tempKey c.host i else realKey
    { t with
      peers := peers.set peerKey i
      connections := t.connections.set i { c with peerKey } }

def announced (input : Incoming) : Option Json :=
  match input.received with
  | .value (.obj message) =>
    let msgType := Message.get message "type" (.str "")
    match Message.get message "data" (.obj []) with
    | .obj fields =>
      if msgType.equal (.str "hello_auth") then
        if input.authRateAllowed then some (Message.get fields "port" (.int 0)) else none
      else if msgType.equal (.str "hello") then some (Message.get fields "port" (.int 0))
      else none
    | _ => none
  | _ => none

def rekey (i : Nat) (c : Connection) (input : Incoming) (t : Table) : Table :=
  if c.conn.phase = .first then
    match announced input with
    | none => t
    | some newPort => t.updatePeerKey i c newPort
  else t

def others (i : Nat) (t : Table) : List OtherPeer :=
  t.peers.rows.filterMap (fun row =>
    if row.2 = i then none
    else t.connections[row.2]?.map (fun other =>
      ⟨row.1,other.conn.peer.authenticated,other.conn.peer.remoteAddress⟩))

def closeOther (t : Table) (key : String) : Table :=
  match t.peers.get? key with
  | none => t
  | some i => { t with peers := t.peers.pop key, connections := t.connections.modify i Connection.disconnect }

end Table

def closedKey : Event → Option String
  | .closedOther key => some key
  | _ => none

def closings (before after : Conn) : List String := (after.trace.drop before.trace.length).filterMap closedKey

namespace Table

def record (i : Nat) (conn : Conn) (t : Table) : Table :=
  match t.connections[i]? with
  | none => t
  | some c =>
    let after : Connection := { c with conn }
    { t with
      peers := if conn.phase = .closed then t.peers.pop after.finalKey else t.peers
      connections := t.connections.set i after }

variable [Env] [Channel]

def hear (node : P2PNode) (i : Nat) (input : Incoming) (t : Table) : Table :=
  match t.connections[i]? with
  | none => t
  | some c =>
    if c.conn.phase = .closed then t
    else
      let conn := step node c.conn { input with others := t.others i }
      ((closings c.conn conn).foldl closeOther (t.rekey i c input)).record i conn

def act (node : P2PNode) (t : Table) : Action → Table
  | .connect host port safe => t.connect host port safe
  | .opened n input => t.opened node n input
  | .accept host allowed => t.accept host allowed
  | .hear i input => t.hear node i input

end Table

end QbitNetwork.Handshake.PeerTable
