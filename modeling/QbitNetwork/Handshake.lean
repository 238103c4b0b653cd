import QbitNetwork.PyValue

/-! One connection of a node: the authentication handshake, the two message loops and the gate
before the handlers. The clocks, randomness, the limiters and what other connections hold come
in with each message. -/
namespace QbitNetwork.Handshake

def protocolVersion : Int := 4
def authDomain : Bytes := encode "QBIT_AUTH_v2:"
def authTimeout : Rat := 10
def challengeLen : Nat := 32
def mldsaPkSize : Nat := 1952
def mlkemPkSize : Nat := 1184
def mlkemCtSize : Nat := 1088

def rateExempt : List String :=
  ["hello","hello_auth","auth_response","auth_confirm","session_key","encrypted"]

def authRequiredMsgs : List String :=
  ["new_block","new_tx","get_blocks","blocks","get_chain_info","chain_info","get_headers","headers",
    "get_block_bodies","block_bodies"]

def handledMsgs : List String :=
  ["new_block","new_tx","get_blocks","blocks","get_peers","peers","status","get_chain_info","chain_info",
    "get_headers","headers","get_block_bodies","block_bodies"]

/- What the handshake takes from liboqs and the AES library, and the JSON parser. `none` is an
exception that is caught. -/
class Channel where
  sign : Bytes → Bytes → Option Bytes
  mlkemDecapsulate : Bytes → Bytes → Option Bytes
  aesDecrypt : Bytes → Bytes → Option Bytes
  jsonLoads : Bytes → Option Json

structure P2PNode where
  nodeId : String
  port : Int
  signingSk : Bytes
  signingPk : Bytes
  validatorAddress : Address
  encryptionSk : Bytes
  encryptionPk : Bytes
  validators : List Address
  hasMsgpack : Bool

namespace P2PNode

def hasSigningKeys (node : P2PNode) : Bool :=
  !node.signingSk.isEmpty && !node.signingPk.isEmpty && node.validatorAddress != ""

def hasEncryptionKeys (node : P2PNode) : Bool := !node.encryptionSk.isEmpty && !node.encryptionPk.isEmpty

def preferredWireFormat (node : P2PNode) : String := if node.hasMsgpack then "msgpack" else "json"

end P2PNode

structure Peer where
  nodeId : Json := .str ""
  port : Json := .int 0
  connected : Bool := true
  height : Json := .int (-1)
  authenticated : Bool := false
  protocolVersion : Json := .int 1
  challenge : Bytes := []
  remotePubkey : Bytes := []
  authDeadline : Rat := 0
  isValidator : Bool := false
  sessionKey : Option Bytes := none
  encrypted : Bool := false
  encryptionPk : Option Bytes := none
  wireFormat : String := "json"
  pendingWireFormat : Json := .str "json"
  isInitiator : Bool := false
  remoteAddress : Address := ""

inductive Event where
  | challenged (challenge : Bytes) (deadline : Rat)
  | checked (challenge publicKey signature : Bytes) (now : Rat) (valid : Bool)
  | sent (msgType : String) (data : Json)
  | handled (msgType : String) (data : Json) (protocolVersion : Json) (authenticated : Bool)
  | recorded (event : String)
  | closedOther (key : String)

inductive Phase where
  | first | loop | closed
  deriving DecidableEq

structure Conn where
  phase : Phase
  peer : Peer
  trace : List Event

abbrev Message := List (String × Json)

def Message.get (message : Message) (key : String) (dflt : Json) : Json := (Json.lookup message key).getD dflt

inductive Received where
  | ended
  | garbled
  | value (obj : Json)

structure OtherPeer where
  key : String
  authenticated : Bool
  remoteAddress : Address

/- A message with what the node reads beside it: the clocks, `os.urandom`, the verdicts of the
limiters and of the reputation, ML-KEM encapsulation, the other connections, and whether the
handler raises. -/
structure Incoming where
  received : Received
  monotonic : Rat
  time : Rat
  urandom : Bytes
  authRateAllowed : Bool
  rateAllowed : Bool
  rateViolations : Bool
  banned : Bool
  encapsulate : Bytes → Option (Bytes × Bytes)
  others : List OtherPeer
  handlerRaises : Bool

namespace Conn

def emit (c : Conn) (event : Event) : Conn := { c with trace := c.trace ++ [event] }

def withPeer (c : Conn) (peer : Peer) : Conn := { c with peer }

def send (c : Conn) (msgType : String) (data : Message) : Conn := c.emit (.sent msgType (.obj data))

def close (c : Conn) : Conn := { c with phase := .closed, peer := { c.peer with connected := false } }

def clearChallenge (c : Conn) : Conn := c.withPeer { c.peer with challenge := [] }

end Conn

abbrev Handled := Except (Fault Conn) (Bool × Conn)

section Handshake

/- `data.get` on anything but an object raises. -/
def fieldsOf (c : Conn) (data : Json) : Except (Fault Conn) Message :=
  match data with
  | .obj fields => .ok fields
  | _ => .error ⟨.attributeError,c⟩

/- `min(value, bound)`. -/
def pyMin (value : Json) (bound : Int) : Except PyExc Json := do
  let above ← (Json.int bound).less value
  .ok (if above then .int bound else value)

def hexOf (value : Json) : Option Bytes :=
  match value.fromHexValue with
  | .ok data => some data
  | .error _ => none

def resolvePeerPubkey (value : Json) : Option Bytes :=
  (hexOf value).filter (fun pk => pk.length = mldsaPkSize)

def resolveEncryptionPk (value : Json) : Option Bytes :=
  (hexOf value).filter (fun pk => pk.length = mlkemPkSize)

def buildAuthMessage (challenge : Bytes) (address : Address) : Bytes := authDomain ++ challenge ++ encode address

/- Integers from here on have no float. -/
def floatLimit : Int := 2 ^ 1024 - 2 ^ 970

def beyondDrift (time at' : Rat) : Bool := maxBlockDrift < time - at' || maxBlockDrift < at' - time

/- `abs(time.time() - ts) > MAX_BLOCK_DRIFT`, for a number; a NaN is above nothing. -/
def drifted (time : Rat) (ts : Json) : Except PyExc Bool :=
  match ts with
  | .float value =>
    match value.number with
    | .finite at' => .ok (beyondDrift time at')
    | .infinity _ => .ok true
    | .nan => .ok false
  | ts =>
    match ts.intOf with
    | none => .ok true
    | some at' =>
      if floatLimit ≤ at' ∨ at' ≤ -floatLimit then .error .overflowError else .ok (beyondDrift time at')

/- `isinstance(port, int) and 0 < port <= 65535`. -/
def isPort (port : Json) : Bool := port.intOf.any (fun n => 0 < n && n ≤ 65535)

def Conn.setPort (c : Conn) (port : Json) : Conn :=
  if isPort port then c.withPeer { c.peer with port } else c

def textOr (value dflt : Json) : Json :=
  match value with
  | .str _ => value
  | _ => dflt

def negotiate (node : P2PNode) (version : Json) (remoteWire : Json) : Except PyExc String := do
  let old ← version.less (.int 4)
  .ok (if !old && node.preferredWireFormat == "msgpack" && remoteWire.equal (.str "msgpack") then "msgpack"
    else "json")

variable [Env] [Channel]

def helloAuthClaim (time : Rat) (data : Message) : Except PyExc (Option (Json × Bytes × Bytes)) := do
  let pv := data.get "protocol_version" (.int 1)
  if pv.intOf.all (fun n => n < 2) then return none
  let late ← drifted time (data.get "timestamp" (.int 0))
  if late then return none
  if (data.get "chain_id" (.str "")).equal (.str chainId) = false then return none
  let some peerChallenge := (hexOf (data.get "challenge" (.str ""))).filter (fun c => c.length = challengeLen)
    | return none
  let some peerPk := resolvePeerPubkey (data.get "signing_pk" (.str "")) | return none
  let some proof := hexOf (data.get "proof" (.str "")) | return none
  if verifySig peerPk (buildAuthMessage peerChallenge (deriveAddress peerPk)) proof = false then return none
  let version ← pyMin pv protocolVersion
  return some (version,peerChallenge,peerPk)

def describeInitiator (data : Message) (version : Json) (peer : Peer) : Peer :=
  { peer with
    encryptionPk := (resolveEncryptionPk (data.get "encryption_pk" (.str ""))).or peer.encryptionPk
    nodeId := textOr (data.get "node_id" (.str "")) peer.nodeId
    protocolVersion := version
    pendingWireFormat := data.get "wire_format" (.str "json") }

def challengePeer (challenge : Bytes) (deadline : Rat) (publicKey : Bytes) (peer : Peer) : Peer :=
  { peer with
    challenge
    authDeadline := deadline
    remotePubkey := publicKey
    remoteAddress := deriveAddress publicKey }

def authResponse (node : P2PNode) (challengeSig counterChallenge : Bytes) : Message :=
  [("protocol_version",.int protocolVersion),("wire_format",.str node.preferredWireFormat),
   ("node_id",.str node.nodeId),("port",.int node.port),("challenge_sig",.str (hex challengeSig)),
   ("counter_challenge",.str (hex counterChallenge)),("signing_pk",.str (hex node.signingPk))] ++
  if node.hasEncryptionKeys then [("encryption_pk",.str (hex node.encryptionPk))] else []

def handleHelloAuthInbound (node : P2PNode) (input : Incoming) (data : Message) (c : Conn) : Handled :=
  if node.hasSigningKeys = false then .ok (false,c)
  else match helloAuthClaim input.time data with
  | .error e => .error ⟨e,c⟩
  | .ok none => .ok (false,c)
  | .ok (some (version,peerChallenge,peerPk)) =>
    let peer := describeInitiator data version c.peer
    match Channel.sign node.signingSk (buildAuthMessage peerChallenge node.validatorAddress) with
    | none => .ok (false,c.withPeer peer)
    | some challengeSig =>
      let deadline := input.monotonic + authTimeout
      let challenged := c.withPeer (challengePeer input.urandom deadline peerPk peer)
      .ok (true,(challenged.emit (.challenged input.urandom deadline)).send "auth_response"
        (authResponse node challengeSig input.urandom))

def checkValidatorStatus (node : P2PNode) (peer : Peer) : Peer :=
  if peer.remotePubkey = [] then peer
  else { peer with isValidator := deriveAddress peer.remotePubkey ∈ node.validators }

def dedupConnection (node : P2PNode) (input : Incoming) (c : Conn) : Bool × Conn :=
  if c.peer.remoteAddress = "" ∨ node.validatorAddress = "" then (false,c)
  else match input.others.find? (fun other => other.authenticated && other.remoteAddress == c.peer.remoteAddress) with
  | none => (false,c)
  | some other =>
    if (compare node.validatorAddress c.peer.remoteAddress == .lt) = c.peer.isInitiator then
      (false,c.emit (.closedOther other.key))
    else (true,c)

def initiateEncryptedChannel (node : P2PNode) (input : Incoming) (c : Conn) : Conn :=
  if node.hasEncryptionKeys = false then c
  else match c.peer.encryptionPk.bind input.encapsulate with
  | none => c
  | some (ct,sharedSecret) =>
    let keyed := c.withPeer { c.peer with sessionKey := some (sha3_256 sharedSecret) }
    let sent := keyed.send "session_key" [("ciphertext",.str (hex ct)),("encryption_pk",.str (hex node.encryptionPk))]
    sent.withPeer { sent.peer with encrypted := true }

def authenticate (publicKey : Bytes) (peer : Peer) : Peer :=
  { peer with
    authenticated := true
    remotePubkey := publicKey
    remoteAddress := deriveAddress publicKey
    authDeadline := 0 }

def describe (data : Message) (version : Json) (peer : Peer) : Peer :=
  let port := data.get "port" (.int 0)
  { peer with
    protocolVersion := version
    nodeId := textOr (data.get "node_id" (.str "")) peer.nodeId
    port := if isPort port then port else peer.port
    encryptionPk := (resolveEncryptionPk (data.get "encryption_pk" (.str ""))).or peer.encryptionPk }

def completeResponse (node : P2PNode) (input : Incoming) (data : Message) (responderPk : Bytes) (c : Conn) : Handled :=
  match (hexOf (data.get "counter_challenge" (.str ""))).filter (fun b => b.length = challengeLen) with
  | none => .ok (false,c)
  | some counterChallenge =>
    match Channel.sign node.signingSk (buildAuthMessage counterChallenge node.validatorAddress) with
    | none => .ok (false,c)
    | some counterSig =>
      let confirmed := c.send "auth_confirm" [("challenge_sig",.str (hex counterSig))]
      match pyMin (data.get "protocol_version" (.int 1)) protocolVersion with
      | .error e => .error ⟨e,confirmed.withPeer (authenticate responderPk c.peer)⟩
      | .ok version =>
        match dedupConnection node input (confirmed.withPeer
          (checkValidatorStatus node (describe data version (authenticate responderPk c.peer)))) with
        | (true,closing) => .ok (false,closing)
        | (false,kept) =>
          let channel := initiateEncryptedChannel node input kept
          match negotiate node version (data.get "wire_format" (.str "json")) with
          | .error e => .error ⟨e,channel⟩
          | .ok wireFormat => .ok (true,channel.withPeer { channel.peer with wireFormat })

def checkChallenge (input : Incoming) (publicKey signature : Bytes) (c : Conn) : Bool × Conn :=
  let message := buildAuthMessage c.peer.challenge (deriveAddress publicKey)
  let valid := verifySig publicKey message signature
  (valid,c.clearChallenge.emit (.checked c.peer.challenge publicKey signature input.monotonic valid))

def handleAuthResponse (node : P2PNode) (input : Incoming) (data : Json) (c : Conn) : Handled :=
  if c.peer.challenge = [] then .ok (false,c)
  else if c.peer.authDeadline < input.monotonic then .ok (false,c.clearChallenge)
  else do
    let data ← fieldsOf c data
    match resolvePeerPubkey (data.get "signing_pk" (.str "")),hexOf (data.get "challenge_sig" (.str "")) with
    | some responderPk,some challengeSig =>
      match checkChallenge input responderPk challengeSig c with
      | (false,refused) => .ok (false,refused)
      | (true,verified) => completeResponse node input data responderPk verified
    | _,_ => .ok (false,c.clearChallenge)

def completeConfirm (node : P2PNode) (input : Incoming) (c : Conn) : Handled :=
  let peer := authenticate c.peer.remotePubkey c.peer
  match negotiate node peer.protocolVersion peer.pendingWireFormat with
  | .error e => .error ⟨e,c.withPeer peer⟩
  | .ok wireFormat =>
    match dedupConnection node input (c.withPeer (checkValidatorStatus node { peer with wireFormat })) with
    | (true,closing) => .ok (false,closing)
    | (false,kept) => .ok (true,kept)

def handleAuthConfirm (node : P2PNode) (input : Incoming) (data : Json) (c : Conn) : Handled :=
  if c.peer.challenge = [] then .ok (false,c)
  else if c.peer.remotePubkey = [] then .ok (false,c.clearChallenge)
  else if c.peer.authDeadline < input.monotonic then .ok (false,c.clearChallenge)
  else do
    let data ← fieldsOf c data
    match hexOf (data.get "challenge_sig" (.str "")) with
    | none => .ok (false,c.clearChallenge)
    | some challengeSig =>
      match checkChallenge input c.peer.remotePubkey challengeSig c with
      | (false,refused) => .ok (false,refused.withPeer { refused.peer with remotePubkey := [] })
      | (true,verified) => completeConfirm node input verified

def handleSessionKey (node : P2PNode) (data : Json) (c : Conn) : Except (Fault Conn) Conn :=
  if node.hasEncryptionKeys = false ∨ c.peer.authenticated = false then .ok c
  else do
    let data ← fieldsOf c data
    match (hexOf (data.get "ciphertext" (.str ""))).filter (fun ct => ct.length = mlkemCtSize) with
    | none => .ok c
    | some ct =>
      let peer := { c.peer with
        encryptionPk := (resolveEncryptionPk (data.get "encryption_pk" (.str ""))).or c.peer.encryptionPk }
      match Channel.mlkemDecapsulate node.encryptionSk ct with
      | none => .ok (c.withPeer peer)
      | some sharedSecret =>
        .ok (c.withPeer { peer with sessionKey := some (sha3_256 sharedSecret), encrypted := true })

/- The message inside an envelope; `none` is dropped. -/
def decryptMessage (data : Json) (c : Conn) : Except (Fault Conn) (Option (Json × Json)) :=
  match c.peer.sessionKey with
  | none => .ok none
  | some sessionKey => do
    let data ← fieldsOf c data
    match (hexOf (data.get "data" (.str ""))).bind (Channel.aesDecrypt sessionKey) |>.bind Channel.jsonLoads with
    | none => .ok none
    | some inner =>
      let inner ← fieldsOf c inner
      .ok (some (inner.get "type" (.str ""),inner.get "data" (.obj [])))

end Handshake

section Loops
variable [Env] [Channel]

def checkAuthGate (msgType : Option String) (peer : Peer) : Except PyExc Bool :=
  if ∀ type ∈ msgType, type ∉ authRequiredMsgs then .ok true
  else do
    let old ← peer.protocolVersion.less (.int 2)
    .ok (old || peer.authenticated)

def escape {α : Type} (c : Conn) : Except PyExc α → Except (Fault Conn) α
  | .ok result => .ok result
  | .error e => .error ⟨e,c⟩

def recordHeight (data : Json) (c : Conn) : Except (Fault Conn) Conn := do
  let data ← fieldsOf c data
  let height := data.get "height" (.int (-1))
  if height.intOf.any (fun h => -1 ≤ h && h ≤ 10000000) then .ok (c.withPeer { c.peer with height })
  else .ok c

def hearStatus (msgType data : Json) (c : Conn) : Except (Fault Conn) Conn :=
  if msgType.equal (.str "status") then recordHeight data c else .ok c

/- Hands a message to its handler, of which only the one for status changes the peer. -/
def dispatch (input : Incoming) (msgType data : Json) (c : Conn) : Except (Fault Conn) Conn := do
  let key ← escape c msgType.tableKey
  match key.filter (fun type => type ∈ handledMsgs) with
  | none => .ok c
  | some type =>
    let c := c.emit (.handled type data c.peer.protocolVersion c.peer.authenticated)
    let c ← hearStatus msgType data c
    if input.handlerRaises then .error ⟨.typeError,c⟩ else .ok c

def onFirst (node : P2PNode) (input : Incoming) (c : Conn) : Handled :=
  match input.received with
  | .ended => .ok (false,c)
  | .garbled => .ok (true,c)
  | .value obj => do
    let message ← fieldsOf c obj
    let msgType := message.get "type" (.str "")
    let data := message.get "data" (.obj [])
    if msgType.equal (.str "hello_auth") then
      if input.authRateAllowed = false then .ok (false,c)
      else do
        let fields ← fieldsOf c data
        let (authOk,c) ← handleHelloAuthInbound node input fields (c.setPort (fields.get "port" (.int 0)))
        if authOk = false then .ok (false,c.emit (.recorded "auth_failed"))
        else do
          let c ← dispatch input msgType data c
          .ok (true,c)
    else if msgType.equal (.str "hello") then do
      let fields ← fieldsOf c data
      let c := c.withPeer { c.peer with nodeId := fields.get "node_id" (.str ""), protocolVersion := .int 1 }
      let c := c.setPort (fields.get "port" (.int 0))
      let c ← dispatch input msgType data
        (c.send "hello" [("node_id",.str node.nodeId),("port",.int node.port)])
      .ok (true,c)
    else do
      let c ← dispatch input msgType data c
      .ok (true,c)

def completes (c : Conn) (msgType : Json) : Bool :=
  msgType.equal (.str (if c.peer.isInitiator then "auth_response" else "auth_confirm"))

def complete (node : P2PNode) (input : Incoming) (data : Json) (c : Conn) : Handled :=
  if c.peer.isInitiator then handleAuthResponse node input data c else handleAuthConfirm node input data c

def process (node : P2PNode) (input : Incoming) (msgType data : Json) (c : Conn) : Handled := do
  let c ← hearStatus msgType data c
  if msgType.equal (.str "session_key") then do
    let c ← handleSessionKey node data c
    .ok (true,c)
  else if completes c msgType then do
    let (authOk,c) ← complete node input data c
    .ok (authOk,if authOk then c else c.emit (.recorded "auth_failed"))
  else if input.banned then .ok (false,c)
  else do
    let key ← escape c msgType.tableKey
    let allowed ← escape c (checkAuthGate key c.peer)
    if allowed = false then .ok (true,c)
    else do
      let c ← dispatch input msgType data c
      .ok (true,c)

def onMessage (node : P2PNode) (input : Incoming) (c : Conn) : Handled :=
  match input.received with
  | .ended => .ok (false,c)
  | .garbled => .ok (false,c)
  | .value obj => do
    let message ← fieldsOf c obj
    let msgType := message.get "type" (.str "")
    let data := message.get "data" (.obj [])
    let key ← escape c msgType.tableKey
    if (∀ type ∈ key, type ∉ rateExempt) ∧ input.rateAllowed = false then
      if input.rateViolations then .ok (false,c.emit (.recorded "rate_limited")) else .ok (true,c)
    else if msgType.equal (.str "encrypted") then do
      match ← decryptMessage data c with
      | none => .ok (true,c)
      | some (inner,innerData) => process node input inner innerData c
    else process node input msgType data c

def settle : Handled → Conn
  | .ok (true,c) => { c with phase := .loop }
  | .ok (false,c) => c.close
  | .error r => r.state.close

def step (node : P2PNode) (c : Conn) (input : Incoming) : Conn :=
  match c.phase with
  | .first => settle (onFirst node input c)
  | .loop => settle (onMessage node input c)
  | .closed => c

def accepted : Conn := { phase := .first, peer := {}, trace := [] }

def helloAuth (node : P2PNode) (time : Rat) (challenge proof : Bytes) : Message :=
  [("protocol_version",.int protocolVersion),("wire_format",.str node.preferredWireFormat),
   ("node_id",.str node.nodeId),("port",.int node.port),("chain_id",.str chainId),
   ("challenge",.str (hex challenge)),("timestamp",.int time.floor),("signing_pk",.str (hex node.signingPk)),
   ("proof",.str (hex proof))] ++
  if node.hasEncryptionKeys then [("encryption_pk",.str (hex node.encryptionPk))] else []

def connect (node : P2PNode) (port : Int) (input : Incoming) : Conn :=
  let opened : Conn := { phase := .loop, peer := { port := .int port, isInitiator := true }, trace := [] }
  if node.hasSigningKeys then
    let deadline := input.monotonic + authTimeout
    let challenged := (opened.withPeer { opened.peer with
      challenge := input.urandom
      authDeadline := deadline
      protocolVersion := .int protocolVersion }).emit (.challenged input.urandom deadline)
    match Channel.sign node.signingSk (buildAuthMessage input.urandom node.validatorAddress) with
    | none => challenged.close
    | some proof => challenged.send "hello_auth" (helloAuth node input.time input.urandom proof)
  else opened.send "hello" [("node_id",.str node.nodeId),("port",.int node.port)]

def run (node : P2PNode) (c : Conn) (inputs : List Incoming) : Conn := inputs.foldl (step node) c

end Loops

end QbitNetwork.Handshake
