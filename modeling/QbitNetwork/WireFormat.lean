import QbitNetwork.HandshakeLaws
import QbitNetwork.Lib.Scan

/-! Both ends of one connection between honest nodes: the wire formats in which messages are
written and read, over every timing of sends and receives. -/
namespace QbitNetwork.Handshake.WireFormat

/- The inner text of an envelope: `aes_encrypt(key, json.dumps({"type", "data"}).encode())`. -/
class Sealer where
  sealText : Bytes → String → Json → Bytes

structure Frame where
  format : String
  msgType : String
  data : Json

structure Link where
  initiator : Conn
  responder : Conn
  toResponder : List Frame := []
  toInitiator : List Frame := []
  reads : List (String × String) := []

/- A message of another task of the node: `send_encrypted` where `encrypts`, else `send`. -/
structure Outgoing where
  msgType : String
  data : Json
  encrypts : Bool

inductive Action where
  | sendInitiator (message : Outgoing)
  | sendResponder (message : Outgoing)
  | hearInitiator (input : Incoming) (during : Nat → List Outgoing)
  | hearResponder (input : Incoming)
  | loseInitiator (input : Incoming)
  | loseResponder (input : Incoming)

def sentOf : Event → Option (String × Json)
  | .sent msgType data => some (msgType,data)
  | _ => none

/- The format `_read_message` reads in; the first line of an inbound connection is JSON. -/
def readFormat (c : Conn) : String :=
  match c.phase with
  | .first => "json"
  | _ => c.peer.wireFormat

section Model
variable [Sealer]

def encode (c : Conn) (message : Outgoing) : Frame :=
  match message.encrypts && c.peer.encrypted,c.peer.sessionKey with
  | true,some key =>
    ⟨c.peer.wireFormat,"encrypted",.obj [("data",.str (hex (Sealer.sealText key message.msgType message.data)))]⟩
  | _,_ => ⟨c.peer.wireFormat,message.msgType,message.data⟩

/- What a step writes, in the format of before it; while the `i`-th of its messages drains, other
tasks may write theirs. -/
def interleave (c : Conn) (during : Nat → List Outgoing) : Nat → List (String × Json) → List Frame
  | _,[] => []
  | i,(msgType,data) :: rest =>
    ⟨c.peer.wireFormat,msgType,data⟩ :: (during i).map (encode c) ++ interleave c during (i + 1) rest

def written (c c' : Conn) (during : Nat → List Outgoing) : List Frame :=
  interleave c during 0 ((c'.trace.drop c.trace.length).filterMap sentOf)

variable [Env] [Channel]

def hear (node : P2PNode) (c : Conn) (frame : Frame) (input : Incoming) : Conn :=
  step node c { input with
    received :=
      if frame.format = readFormat c then
        .value (.obj [("type",.str frame.msgType),("data",frame.data)])
      else .garbled }

def opened (a : P2PNode) (port : Int) (input : Incoming) : Link :=
  let c := connect a port input
  { initiator := c
    responder := accepted
    toResponder := written { c with trace := [] } c (fun _ => []) }

def Link.act (a b : P2PNode) (link : Link) : Action → Link
  | .sendInitiator message =>
    if link.initiator.phase = .closed then link
    else { link with toResponder := link.toResponder ++ [encode link.initiator message] }
  | .sendResponder message =>
    if link.responder.phase = .closed then link
    else { link with toInitiator := link.toInitiator ++ [encode link.responder message] }
  | .hearInitiator input during =>
    if link.initiator.phase = .closed then link
    else match link.toInitiator with
    | [] => link
    | frame :: rest =>
      let c := hear a link.initiator frame input
      { link with
        initiator := c
        toInitiator := rest
        toResponder := link.toResponder ++ written link.initiator c during
        reads := link.reads ++ [(frame.format,readFormat link.initiator)] }
  | .hearResponder input =>
    if link.responder.phase = .closed then link
    else match link.toResponder with
    | [] => link
    | frame :: rest =>
      let c := hear b link.responder frame input
      { link with
        responder := c
        toResponder := rest
        toInitiator := link.toInitiator ++ written link.responder c (fun _ => [])
        reads := link.reads ++ [(frame.format,readFormat link.responder)] }
  | .loseInitiator input => { link with initiator := step a link.initiator { input with received := .ended } }
  | .loseResponder input => { link with responder := step b link.responder { input with received := .ended } }

def Action.Plain : Action → Prop
  | .sendInitiator message => message.msgType ∉ rateExempt
  | .sendResponder message => message.msgType ∉ rateExempt
  | .hearInitiator _ during => ∀ i, ∀ message ∈ during i, message.msgType ∉ rateExempt
  | _ => True

inductive Reached (a b : P2PNode) (meets : Link → Action → Prop) : Link → Prop where
  | start (port : Int) (input : Incoming) : Reached a b meets (opened a port input)
  | act {link : Link} (prior : Reached a b meets link) (action : Action) (plain : action.Plain)
    (met : meets link action) : Reached a b meets (link.act a b action)

def InStep (link : Link) : Prop := ∀ row ∈ link.reads, row.1 = row.2

def Opens : Prop :=
  ∀ key key' msgType data,
    let inner := (Channel.aesDecrypt key' (Sealer.sealText key msgType data)).bind Channel.jsonLoads
    inner = none ∨ inner = some (.obj [("type",.str msgType),("data",data)])

def Pending (c : Conn) : Prop := c.peer.remotePubkey ≠ [] ∧ c.peer.authenticated = false

instance (c : Conn) : Decidable (Pending c) := inferInstanceAs (Decidable (_ ∧ _))

def offeredKey (c : Conn) (data : Json) : Option Bytes :=
  match data with
  | .obj fields => (resolveEncryptionPk (Message.get fields "encryption_pk" (.str ""))).or c.peer.encryptionPk
  | _ => c.peer.encryptionPk

/- No message falls between the two switches, where they are to msgpack: the responder sends
nothing from its response on until the confirmation, and the initiator neither a session key nor
anything else from its confirmation on until it has switched itself. -/
def Spaced (a b : P2PNode) (link : Link) (action : Action) : Prop :=
  a.hasMsgpack = true → b.hasMsgpack = true →
    match action with
    | .sendResponder _ => ¬Pending link.responder
    | .hearInitiator input during =>
      ∀ frame, link.toInitiator.head? = some frame → frame.msgType = "auth_response" →
        (∀ i, during i = []) ∧
          (a.hasEncryptionKeys = false ∨ (offeredKey link.initiator frame.data).bind input.encapsulate = none)
    | _ => True

end Model

end QbitNetwork.Handshake.WireFormat
