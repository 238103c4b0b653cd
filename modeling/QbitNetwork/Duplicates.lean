import QbitNetwork.PeerTable

/-! Two nodes with their peer tables and the connections between them: handshakes complete on either
side in any order, and each side closes the duplicate its table shows when one of its handshakes
completes. -/
namespace QbitNetwork.Handshake.Duplicates

inductive Side where
  | a | b
  deriving DecidableEq

def Side.other : Side → Side
  | .a => .b
  | .b => .a

structure Link where
  opener : Side
  number : Side → Nat

structure Pair where
  tables : Side → PeerTable.Table
  links : List Link
  done : Side → List Nat

inductive Action where
  | aside (side : Side) (action : PeerTable.Action)
  | joins (opener : Side) (number : Side → Nat)
  | completes (side : Side) (k : Nat) (input : Incoming)
  | ends (side : Side) (k : Nat) (input : Incoming)

def isOpen (c : Conn) : Bool := c.phase ≠ .closed && c.peer.connected

namespace Pair

def empty : Pair := ⟨fun _ => .empty,[],fun _ => []⟩

def conn (p : Pair) (side : Side) (link : Link) : Conn :=
  ((p.tables side).connections[link.number side]?).elim accepted PeerTable.Connection.conn

def put (side : Side) (table : PeerTable.Table) (p : Pair) : Pair :=
  { p with tables := Function.update p.tables side table }

def mark (side : Side) (k : Nat) (p : Pair) : Pair :=
  { p with done := Function.update p.done side (p.done side ++ [k]) }

variable [Env] [Channel]

def hear (nodes : Side → P2PNode) (side : Side) (k : Nat) (input : Incoming) (p : Pair) : Pair :=
  match p.links[k]? with
  | none => p
  | some link => p.put side ((p.tables side).hear (nodes side) (link.number side) input)

def act (nodes : Side → P2PNode) (p : Pair) : Action → Pair
  | .aside side action => p.put side ((p.tables side).act (nodes side) action)
  | .joins opener number => { p with links := p.links ++ [⟨opener,number⟩] }
  | .completes side k input => (p.hear nodes side k input).mark side k
  | .ends side k input => p.hear nodes side k input

def run (nodes : Side → P2PNode) (p : Pair) (actions : List Action) : Pair := actions.foldl (act nodes) p

end Pair

structure Waiting (opener side : Side) (c : Conn) : Prop where
  running : isOpen c = true
  authenticated : c.peer.authenticated = false
  isInitiator : c.peer.isInitiator = decide (side = opener)
  unblamed : Event.recorded "auth_failed" ∉ c.trace

def AuthenticatedAs (address : Address) (c : Conn) : Prop :=
  c.peer.authenticated = true ∧ c.peer.remoteAddress = address

structure Untouched (c c' : Conn) : Prop where
  running : isOpen c' = isOpen c
  authenticated : c'.peer.authenticated = c.peer.authenticated
  remoteAddress : c.peer.authenticated = true → c'.peer.remoteAddress = c.peer.remoteAddress
  unblamed : Event.recorded "auth_failed" ∉ c.trace → Event.recorded "auth_failed" ∉ c'.trace

section Completion
variable [Env] [Channel]

inductive Completing (node : P2PNode) (publicKey : Bytes) (c : Conn) (input : Incoming) : Prop where
  | response {fields : Message} {challengeSig counterChallenge counterSig : Bytes} {version : Json} {wireFormat : String}
    (received : input.received = .value (.obj [("type",.str "auth_response"),("data",.obj fields)]))
    (initiator : c.peer.isInitiator = true) (pending : c.peer.challenge ≠ [])
    (early : ¬c.peer.authDeadline < input.monotonic)
    (shown : resolvePeerPubkey (fields.get "signing_pk" (.str "")) = some publicKey)
    (proof : hexOf (fields.get "challenge_sig" (.str "")) = some challengeSig)
    (valid : verifySig publicKey (buildAuthMessage c.peer.challenge (deriveAddress publicKey)) challengeSig = true)
    (asked : (hexOf (fields.get "counter_challenge" (.str ""))).filter (fun b => b.length = challengeLen) =
      some counterChallenge)
    (signed : Channel.sign node.signingSk (buildAuthMessage counterChallenge node.validatorAddress) = some counterSig)
    (versioned : pyMin (fields.get "protocol_version" (.int 1)) protocolVersion = .ok version)
    (negotiated : negotiate node version (fields.get "wire_format" (.str "json")) = .ok wireFormat)
  | confirm {fields : Message} {challengeSig : Bytes} {wireFormat : String}
    (received : input.received = .value (.obj [("type",.str "auth_confirm"),("data",.obj fields)]))
    (responder : c.peer.isInitiator = false) (pending : c.peer.challenge ≠ [])
    (early : ¬c.peer.authDeadline < input.monotonic) (expected : c.peer.remotePubkey = publicKey) (known : publicKey ≠ [])
    (proof : hexOf (fields.get "challenge_sig" (.str "")) = some challengeSig)
    (valid : verifySig publicKey (buildAuthMessage c.peer.challenge (deriveAddress publicKey)) challengeSig = true)
    (negotiated : negotiate node c.peer.protocolVersion c.peer.pendingWireFormat = .ok wireFormat)

/- Sockets, hellos, other peers and later messages may come in between, as long as they leave the
connections of the pair as they are and authenticate nobody else as the other node. The
confirmation is written before the initiator closes anything, and is read before the end of the
stream. -/
def Allowed (nodes : Side → P2PNode) (p : Pair) : Action → Prop
  | .aside side action =>
    (∀ link ∈ p.links, Untouched (p.conn side link) ((p.act nodes (.aside side action)).conn side link)) ∧
      ∀ n c, ((p.tables side).act (nodes side) action).connections[n]? = some c →
        AuthenticatedAs (nodes side.other).validatorAddress c.conn → ∃ link ∈ p.links, link.number side = n
  | .joins opener number => ∀ side, (∀ link ∈ p.links, link.number side ≠ number side) ∧
      ∃ c, (p.tables side).connections[number side]? = some c ∧ Waiting opener side c.conn
  | .completes side k input => ∃ link, p.links[k]? = some link ∧ k ∉ p.done side ∧
      (side = link.opener ∨ k ∈ p.done link.opener) ∧ (p.conn side link).phase = .loop ∧
      Completing (nodes side) (nodes side.other).signingPk (p.conn side link) input
  | .ends side k input => input.received = .ended ∧ ∃ link, p.links[k]? = some link ∧
      isOpen (p.conn side link) = true ∧ isOpen (p.conn side.other link) = false ∧
      (side = link.opener ∨ k ∈ p.done side)

def Throughout (nodes : Side → P2PNode) (each : Pair → Action → Prop) : Pair → List Action → Prop
  | _,[] => True
  | p,action :: rest => each p action ∧ Throughout nodes each (p.act nodes action) rest

end Completion

def Pair.Duplicate (p : Pair) (nodes : Side → P2PNode) (side : Side) (k : Nat) : Prop :=
  ∃ j link, j ≠ k ∧ p.links[j]? = some link ∧ isOpen (p.conn side link) = true ∧
    AuthenticatedAs (nodes side.other).validatorAddress (p.conn side link)

def Quiet (nodes : Side → P2PNode) (p : Pair) : Action → Prop
  | .completes side k _ => p.Duplicate nodes side k → ∀ link, p.links[k]? = some link →
      compare (nodes link.opener).validatorAddress (nodes link.opener.other).validatorAddress = .lt
  | _ => True

def Shows (t : PeerTable.Table) (address : Address) : Prop :=
  ∀ n c, t.connections[n]? = some c → AuthenticatedAs address c.conn →
    (isOpen c.conn = true ↔ ∃ key, (key,n) ∈ t.peers.rows)

def Shown (nodes : Side → P2PNode) (p : Pair) : Action → Prop
  | .completes side _ _ => Shows (p.tables side) (nodes side.other).validatorAddress
  | _ => True

def Settled (p : Pair) : Prop := ∀ k, k < p.links.length → ∀ side, k ∈ p.done side

def OpenAt (p : Pair) (side : Side) (k : Nat) : Prop :=
  ∃ link, p.links[k]? = some link ∧ isOpen (p.conn side link) = true

def Collapsed (p : Pair) : Prop := ∃ k, ∀ side j, OpenAt p side j ↔ j = k

def Unblamed (p : Pair) : Prop := ∀ link ∈ p.links, ∀ side, Event.recorded "auth_failed" ∉ (p.conn side link).trace

def SameLast (p : Pair) : Prop := ∃ k, ∀ side, (p.done side).getLast? = some k

end QbitNetwork.Handshake.Duplicates
