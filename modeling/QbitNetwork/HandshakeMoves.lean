import QbitNetwork.HandshakeLaws
import Mathlib.Logic.Relation

/-! What a step of a connection is made of: what every move keeps, a step keeps. -/
namespace QbitNetwork.Handshake

structure Incidental (peer peer' : Peer) : Prop where
  connected : peer'.connected = peer.connected
  authenticated : peer'.authenticated = peer.authenticated
  challenge : peer'.challenge = peer.challenge
  authDeadline : peer'.authDeadline = peer.authDeadline
  remotePubkey : peer'.remotePubkey = peer.remotePubkey
  remoteAddress : peer'.remoteAddress = peer.remoteAddress
  port : peer'.port = peer.port
  isInitiator : peer'.isInitiator = peer.isInitiator
  sessionKey : peer'.sessionKey = peer.sessionKey
  encryptionPk : peer'.encryptionPk = peer.encryptionPk

def Event.isIncidental : Event → Bool
  | .sent msgType _ => msgType == "hello"
  | .handled _ _ _ _ => true
  | .recorded _ => true
  | _ => false

def heard [Channel] (c : Conn) (input : Incoming) : Json × Json :=
  match input.received with
  | .value (.obj message) =>
    let msgType := Message.get message "type" (.str "")
    let data := Message.get message "data" (.obj [])
    if c.phase = .loop ∧ msgType.equal (.str "encrypted") then
      match decryptMessage data c with
      | .ok (some inner) => inner
      | _ => (.null,.null)
    else (msgType,data)
  | _ => (.null,.null)

section Moves
variable [Env] [Channel]

inductive Move (node : P2PNode) (input : Incoming) (msgType data : Json) : Conn → Conn → Prop where
  | tells {c : Conn} {peer : Peer} (same : Incidental c.peer peer) : Move node input msgType data c (c.withPeer peer)
  | notes {c : Conn} {event : Event} (plain : event.isIncidental = true) : Move node input msgType data c (c.emit event)
  | moves {c : Conn} {fields : Message} (first : c.phase = .first) (object : data = .obj fields)
    (named : msgType.equal (.str "hello_auth") = true ∨ msgType.equal (.str "hello") = true)
    (valid : isPort (fields.get "port" (.int 0)) = true) :
    Move node input msgType data c (c.withPeer { c.peer with port := fields.get "port" (.int 0) })
  | introduces {c : Conn} {fields : Message} (version : Json) (first : c.phase = .first) (object : data = .obj fields) :
    Move node input msgType data c (c.withPeer (describeInitiator fields version c.peer))
  | answers {c : Conn} {fields : Message} {version : Json} {peerChallenge peerPk challengeSig : Bytes}
    (first : c.phase = .first) (object : data = .obj fields) (named : msgType.equal (.str "hello_auth") = true)
    (claimed : helloAuthClaim input.time fields = .ok (some (version,peerChallenge,peerPk)))
    (signed : Channel.sign node.signingSk (buildAuthMessage peerChallenge node.validatorAddress) = some challengeSig) :
    Move node input msgType data c
      (((c.withPeer (challengePeer input.urandom (input.monotonic + authTimeout) peerPk c.peer)).emit
        (.challenged input.urandom (input.monotonic + authTimeout))).send "auth_response"
        (authResponse node challengeSig input.urandom))
  | clears {c : Conn} : Move node input msgType data c c.clearChallenge
  | checks {c : Conn} (publicKey signature : Bytes) (pending : c.peer.challenge ≠ []) :
    Move node input msgType data c (checkChallenge input publicKey signature c).2
  | accepts {c : Conn} {fields : Message} {responderPk challengeSig counterChallenge counterSig : Bytes} {peer : Peer}
    (initiator : c.peer.isInitiator = true) (object : data = .obj fields)
    (named : msgType.equal (.str "auth_response") = true) (pending : c.peer.challenge ≠ [])
    (early : ¬c.peer.authDeadline < input.monotonic)
    (shown : resolvePeerPubkey (fields.get "signing_pk" (.str "")) = some responderPk)
    (proof : hexOf (fields.get "challenge_sig" (.str "")) = some challengeSig)
    (valid : (checkChallenge input responderPk challengeSig c).1 = true)
    (asked : (hexOf (fields.get "counter_challenge" (.str ""))).filter (fun b => b.length = challengeLen) =
      some counterChallenge)
    (signed : Channel.sign node.signingSk (buildAuthMessage counterChallenge node.validatorAddress) = some counterSig)
    (told : peer = authenticate responderPk (checkChallenge input responderPk challengeSig c).2.peer ∨
      ∃ version, pyMin (fields.get "protocol_version" (.int 1)) protocolVersion = .ok version ∧
        peer = describe fields version (authenticate responderPk (checkChallenge input responderPk challengeSig c).2.peer)) :
    Move node input msgType data c
      (((checkChallenge input responderPk challengeSig c).2.send "auth_confirm"
        [("challenge_sig",.str (hex counterSig))]).withPeer peer)
  | closes {c : Conn} {other : OtherPeer} (listed : other ∈ input.others) (authenticated : other.authenticated = true)
    (same : other.remoteAddress = c.peer.remoteAddress) (known : c.peer.authenticated = true) :
    Move node input msgType data c (c.emit (.closedOther other.key))
  | shares {c : Conn} {publicKey ct sharedSecret : Bytes} (initiator : c.peer.isInitiator = true)
    (authenticated : c.peer.authenticated = true) (keyed : node.hasEncryptionKeys = true)
    (known : c.peer.encryptionPk = some publicKey) (sealed : input.encapsulate publicKey = some (ct,sharedSecret)) :
    Move node input msgType data c (initiateEncryptedChannel node input c)
  | confirms {c : Conn} {fields : Message} {challengeSig : Bytes} (responder : c.peer.isInitiator = false)
    (object : data = .obj fields) (named : msgType.equal (.str "auth_confirm") = true)
    (pending : c.peer.challenge ≠ []) (known : c.peer.remotePubkey ≠ [])
    (proof : hexOf (fields.get "challenge_sig" (.str "")) = some challengeSig)
    (valid : (checkChallenge input c.peer.remotePubkey challengeSig c).1 = true) :
    Move node input msgType data c
      ((checkChallenge input c.peer.remotePubkey challengeSig c).2.withPeer
        (authenticate c.peer.remotePubkey (checkChallenge input c.peer.remotePubkey challengeSig c).2.peer))
  | forgets {c : Conn} (responder : c.peer.isInitiator = false) (unauthenticated : c.peer.challenge = []) :
    Move node input msgType data c (c.withPeer { c.peer with remotePubkey := [] })
  | receives {c : Conn} {fields : Message} (authenticated : c.peer.authenticated = true) (object : data = .obj fields)
    (named : msgType.equal (.str "session_key") = true) :
    Move node input msgType data c (c.withPeer { c.peer with
      encryptionPk := (resolveEncryptionPk (fields.get "encryption_pk" (.str ""))).or c.peer.encryptionPk })
  | opens {c : Conn} {fields : Message} {ct sharedSecret : Bytes} (authenticated : c.peer.authenticated = true)
    (keyed : node.hasEncryptionKeys = true) (object : data = .obj fields)
    (named : msgType.equal (.str "session_key") = true)
    (taken : (hexOf (fields.get "ciphertext" (.str ""))).filter (fun ct => ct.length = mlkemCtSize) = some ct)
    (opened : Channel.mlkemDecapsulate node.encryptionSk ct = some sharedSecret) :
    Move node input msgType data c (c.withPeer { c.peer with sessionKey := some (sha3_256 sharedSecret), encrypted := true })

def Moves (node : P2PNode) (input : Incoming) (msgType data : Json) : Conn → Conn → Prop :=
  Relation.ReflTransGen (Move node input msgType data)

variable {node : P2PNode} {input : Incoming} {msgType data : Json}

theorem Moves.start (c : Conn) : Moves node input msgType data c c := Relation.ReflTransGen.refl

theorem Move.alone {c c' : Conn} (move : Move node input msgType data c c') : Moves node input msgType data c c' :=
  Relation.ReflTransGen.single move

theorem Moves.then {a b c : Conn} (first : Moves node input msgType data a b) (second : Moves node input msgType data b c) :
    Moves node input msgType data a c := Relation.ReflTransGen.trans first second

theorem Moves.keeps {relates : Conn → Conn → Prop} (refl : ∀ c, relates c c)
    (trans : ∀ a b c, relates a b → relates b c → relates a c)
    (moves : ∀ c c', Move node input msgType data c c' → relates c c') {c c' : Conn}
    (run : Moves node input msgType data c c') : relates c c' := by
  induction run with
  | refl => exact refl c
  | tail _ move ih => exact trans _ _ _ ih (moves _ _ move)

theorem movesRaise {c : Conn} {r : Fault Conn} (same : r.state = c) : Moves node input msgType data c r.state := by
  rw [same]
  exact .start c

theorem tellMoves (c : Conn) (peer : Peer) (same : Incidental c.peer peer) :
    Moves node input msgType data c (c.withPeer peer) := (Move.tells same).alone

theorem recordMoves (event : String) (c : Conn) : Moves node input msgType data c (c.emit (.recorded event)) :=
  (Move.notes rfl).alone

end Moves

section Handlers
variable [Env] [Channel] {node : P2PNode} {input : Incoming} {msgType data : Json}

theorem hearStatusMoves (c : Conn) : Outcome.Settles id (Moves node input msgType data c) (hearStatus msgType data c) := by
  unfold hearStatus recordHeight
  split
  · refine Outcome.settlesBind (fun r run => movesRaise (fieldsOfRaises run)) (fun fields _ => ?_)
    dsimp only
    split
    · exact Outcome.settlesOk (tellMoves c _ ⟨rfl,rfl,rfl,rfl,rfl,rfl,rfl,rfl,rfl,rfl⟩)
    · exact Outcome.settlesOk (.start c)
  · exact Outcome.settlesOk (.start c)

theorem dispatchMoves (c : Conn) :
    Outcome.Settles id (Moves node input msgType data c) (dispatch input msgType data c) := by
  refine Outcome.settlesBind (fun r run => movesRaise (escapeRaises run)) (fun key run => ?_)
  split
  · exact Outcome.settlesOk (.start c)
  · rename_i type handled
    have heard : Outcome.Settles id (Moves node input msgType data c) (hearStatus msgType data
        (c.emit (.handled type data c.peer.protocolVersion c.peer.authenticated))) :=
      (hearStatusMoves _).imp (fun c' moves => (Move.notes rfl).alone.then moves)
    refine Outcome.settlesBind heard.raises (fun c' run => ?_)
    split
    · exact Outcome.settlesError (heard.returns c' run)
    · exact Outcome.settlesOk (heard.returns c' run)

theorem dedupMoves {c : Conn} (known : c.peer.authenticated = true) :
    Moves node input msgType data c (dedupConnection node input c).2 := by
  unfold dedupConnection
  split
  · exact .start c
  split
  · exact .start c
  · rename_i other found
    have listed := List.mem_of_find?_eq_some found
    have duplicate := List.find?_some found
    rw [Bool.and_eq_true,beq_iff_eq] at duplicate
    split
    · exact (Move.closes listed duplicate.1 duplicate.2 known).alone
    · exact .start c

theorem initiateMoves {c : Conn} (initiator : c.peer.isInitiator = true) (known : c.peer.authenticated = true) :
    Moves node input msgType data c (initiateEncryptedChannel node input c) := by
  by_cases unkeyed : node.hasEncryptionKeys = false
  · unfold initiateEncryptedChannel
    rw [if_pos unkeyed]
    exact .start c
  cases shared : c.peer.encryptionPk.bind input.encapsulate with
  | none =>
    unfold initiateEncryptedChannel
    rw [if_neg unkeyed,shared]
    exact .start c
  | some pair =>
    obtain ⟨publicKey,told,sealed⟩ := Option.bind_eq_some_iff.mp shared
    exact (Move.shares initiator known (Bool.of_not_eq_false unkeyed) told sealed).alone

theorem validatorMoves (c : Conn) (peer : Peer) :
    Moves node input msgType data (c.withPeer peer) (c.withPeer (checkValidatorStatus node peer)) := by
  have same : Incidental peer (checkValidatorStatus node peer) := by
    unfold checkValidatorStatus
    split <;> exact ⟨rfl,rfl,rfl,rfl,rfl,rfl,rfl,rfl,rfl,rfl⟩
  exact tellMoves (c.withPeer peer) _ same

theorem completeResponseMoves {c : Conn} {fields : Message} {responderPk challengeSig : Bytes}
    (initiator : c.peer.isInitiator = true) (object : data = .obj fields)
    (named : msgType.equal (.str "auth_response") = true) (pending : c.peer.challenge ≠ [])
    (early : ¬c.peer.authDeadline < input.monotonic)
    (shown : resolvePeerPubkey (fields.get "signing_pk" (.str "")) = some responderPk)
    (proof : hexOf (fields.get "challenge_sig" (.str "")) = some challengeSig)
    (valid : (checkChallenge input responderPk challengeSig c).1 = true) :
    Outcome.Settles Prod.snd (Moves node input msgType data c)
      (completeResponse node input fields responderPk (checkChallenge input responderPk challengeSig c).2) := by
  have checked : Moves node input msgType data c (checkChallenge input responderPk challengeSig c).2 :=
    (Move.checks responderPk challengeSig pending).alone
  unfold completeResponse
  split
  · exact Outcome.settlesOk checked
  rename_i counterChallenge asked
  split
  · exact Outcome.settlesOk checked
  rename_i counterSig signed
  have accepted : ∀ peer, (peer = authenticate responderPk (checkChallenge input responderPk challengeSig c).2.peer ∨
      ∃ version, pyMin (fields.get "protocol_version" (.int 1)) protocolVersion = .ok version ∧
        peer = describe fields version (authenticate responderPk (checkChallenge input responderPk challengeSig c).2.peer)) →
      Moves node input msgType data c (((checkChallenge input responderPk challengeSig c).2.send "auth_confirm"
        [("challenge_sig",.str (hex counterSig))]).withPeer peer) :=
    fun peer told => (Move.accepts initiator object named pending early shown proof valid asked signed told).alone
  have initiator' : (checkChallenge input responderPk challengeSig c).2.peer.isInitiator = true := initiator
  generalize (checkChallenge input responderPk challengeSig c).2 = verified at accepted initiator' ⊢
  dsimp only
  split
  · exact Outcome.settlesError (accepted _ (.inl rfl))
  · rename_i version versioned
    have described := (accepted _ (.inr ⟨version,versioned,rfl⟩)).then
      (validatorMoves (verified.send "auth_confirm" [("challenge_sig",.str (hex counterSig))])
        (describe fields version (authenticate responderPk verified.peer)))
    have known : (checkValidatorStatus node (describe fields version (authenticate responderPk verified.peer))).authenticated =
        true ∧ (checkValidatorStatus node (describe fields version
          (authenticate responderPk verified.peer))).isInitiator = true := by
      unfold checkValidatorStatus
      split <;> exact ⟨rfl,initiator'⟩
    generalize checkValidatorStatus node (describe fields version (authenticate responderPk verified.peer)) = peer
      at described known ⊢
    generalize verified.send "auth_confirm" [("challenge_sig",.str (hex counterSig))] = confirmed at described ⊢
    have deduped := described.then (dedupMoves known.1)
    have same : (dedupConnection node input (confirmed.withPeer peer)).2.peer = peer := by
      unfold dedupConnection
      split
      · rfl
      split
      · rfl
      split <;> rfl
    generalize dedupConnection node input (confirmed.withPeer peer) = answer at deduped same ⊢
    obtain ⟨closing,kept⟩ := answer
    cases closing with
    | true => exact Outcome.settlesOk deduped
    | false =>
      have shared := deduped.then (initiateMoves (by rw [same]; exact known.2) (by rw [same]; exact known.1))
      dsimp only
      split
      · exact Outcome.settlesError shared
      · exact Outcome.settlesOk (shared.then (tellMoves _ _ ⟨rfl,rfl,rfl,rfl,rfl,rfl,rfl,rfl,rfl,rfl⟩))

theorem authResponseMoves {c : Conn} (initiator : c.peer.isInitiator = true)
    (named : msgType.equal (.str "auth_response") = true) :
    Outcome.Settles Prod.snd (Moves node input msgType data c) (handleAuthResponse node input data c) := by
  have cleared : Moves node input msgType data c c.clearChallenge := Move.clears.alone
  unfold handleAuthResponse
  split
  · exact Outcome.settlesOk (.start c)
  rename_i pending
  split
  · exact Outcome.settlesOk cleared
  rename_i early
  refine Outcome.settlesBind (fun r run => movesRaise (fieldsOfRaises run)) (fun fields run => ?_)
  have object : data = .obj fields := by
    cases data <;> cases run
    rfl
  split
  · rename_i responderPk challengeSig shown proof
    have completed : (checkChallenge input responderPk challengeSig c).1 = true →
        Outcome.Settles Prod.snd (Moves node input msgType data c)
          (completeResponse node input fields responderPk (checkChallenge input responderPk challengeSig c).2) :=
      completeResponseMoves initiator object named pending early shown proof
    have checked : Moves node input msgType data c (checkChallenge input responderPk challengeSig c).2 :=
      (Move.checks responderPk challengeSig pending).alone
    generalize checkChallenge input responderPk challengeSig c = answer at completed checked ⊢
    obtain ⟨valid,verified⟩ := answer
    cases valid with
    | false => exact Outcome.settlesOk checked
    | true => exact completed rfl
  · exact Outcome.settlesOk cleared

theorem authConfirmMoves {c : Conn} (responder : c.peer.isInitiator = false)
    (named : msgType.equal (.str "auth_confirm") = true) :
    Outcome.Settles Prod.snd (Moves node input msgType data c) (handleAuthConfirm node input data c) := by
  have cleared : Moves node input msgType data c c.clearChallenge := Move.clears.alone
  unfold handleAuthConfirm
  split
  · exact Outcome.settlesOk (.start c)
  rename_i pending
  split
  · exact Outcome.settlesOk cleared
  rename_i known
  split
  · exact Outcome.settlesOk cleared
  refine Outcome.settlesBind (fun r run => movesRaise (fieldsOfRaises run)) (fun fields run => ?_)
  have object : data = .obj fields := by
    cases data <;> cases run
    rfl
  split
  · exact Outcome.settlesOk cleared
  · rename_i challengeSig proof
    have checked : Moves node input msgType data c (checkChallenge input c.peer.remotePubkey challengeSig c).2 :=
      (Move.checks c.peer.remotePubkey challengeSig pending).alone
    have confirmed : (checkChallenge input c.peer.remotePubkey challengeSig c).1 = true → Moves node input msgType data c
        ((checkChallenge input c.peer.remotePubkey challengeSig c).2.withPeer
          (authenticate c.peer.remotePubkey (checkChallenge input c.peer.remotePubkey challengeSig c).2.peer)) :=
      fun valid => (Move.confirms responder object named pending known proof valid).alone
    have spent : (checkChallenge input c.peer.remotePubkey challengeSig c).2.peer.challenge = [] ∧
      (checkChallenge input c.peer.remotePubkey challengeSig c).2.peer.isInitiator = false ∧
      (checkChallenge input c.peer.remotePubkey challengeSig c).2.peer.remotePubkey = c.peer.remotePubkey :=
      ⟨rfl,responder,rfl⟩
    generalize checkChallenge input c.peer.remotePubkey challengeSig c = answer at checked confirmed spent ⊢
    obtain ⟨valid,verified⟩ := answer
    cases valid with
    | false => exact Outcome.settlesOk (checked.then (Move.forgets spent.2.1 spent.1).alone)
    | true =>
      have accepted := confirmed rfl
      dsimp only at accepted spent ⊢
      rw [← spent.2.2] at accepted
      unfold completeConfirm
      dsimp only
      split
      · exact Outcome.settlesError accepted
      · rename_i wireFormat negotiated
        have formatted := (accepted.then (tellMoves _ { authenticate verified.peer.remotePubkey verified.peer with wireFormat }
          ⟨rfl,rfl,rfl,rfl,rfl,rfl,rfl,rfl,rfl,rfl⟩)).then (validatorMoves verified
            { authenticate verified.peer.remotePubkey verified.peer with wireFormat })
        have authenticated : (checkValidatorStatus node
            { authenticate verified.peer.remotePubkey verified.peer with wireFormat }).authenticated = true := by
          unfold checkValidatorStatus
          split <;> rfl
        generalize checkValidatorStatus node { authenticate verified.peer.remotePubkey verified.peer with wireFormat } = peer
          at formatted authenticated ⊢
        have deduped := formatted.then (dedupMoves authenticated)
        generalize dedupConnection node input (verified.withPeer peer) = answer at deduped ⊢
        obtain ⟨closing,kept⟩ := answer
        cases closing <;> exact Outcome.settlesOk deduped

theorem sessionKeyMoves {c : Conn} (named : msgType.equal (.str "session_key") = true) :
    Outcome.Settles id (Moves node input msgType data c) (handleSessionKey node data c) := by
  unfold handleSessionKey
  split
  · exact Outcome.settlesOk (.start c)
  rename_i able
  rw [not_or] at able
  have keyed := Bool.of_not_eq_false able.1
  have authenticated := Bool.of_not_eq_false able.2
  refine Outcome.settlesBind (fun r run => movesRaise (fieldsOfRaises run)) (fun fields run => ?_)
  have object : data = .obj fields := by
    cases data <;> cases run
    rfl
  split
  · exact Outcome.settlesOk (.start c)
  · rename_i ct taken
    have received : Moves node input msgType data c (c.withPeer { c.peer with
        encryptionPk := (resolveEncryptionPk (fields.get "encryption_pk" (.str ""))).or c.peer.encryptionPk }) :=
      (Move.receives authenticated object named).alone
    dsimp only
    split
    · exact Outcome.settlesOk received
    · rename_i sharedSecret opened
      exact Outcome.settlesOk (received.then (Move.opens (c := c.withPeer { c.peer with
        encryptionPk := (resolveEncryptionPk (fields.get "encryption_pk" (.str ""))).or c.peer.encryptionPk })
        authenticated keyed object named taken opened).alone)

theorem processMoves (c : Conn) :
    Outcome.Settles Prod.snd (Moves node input msgType data c) (process node input msgType data c) := by
  have heard : Outcome.Settles id (Moves node input msgType data c) (hearStatus msgType data c) := hearStatusMoves c
  refine Outcome.settlesBind heard.raises (fun c₁ status => ?_)
  have first : Moves node input msgType data c c₁ := heard.returns c₁ status
  suffices rest : Outcome.Settles Prod.snd (Moves node input msgType data c₁) _ from rest.imp (fun c' later => first.then later)
  split
  · rename_i named
    have keyed : Outcome.Settles id (Moves node input msgType data c₁) (handleSessionKey node data c₁) :=
      sessionKeyMoves named
    exact Outcome.settlesBind keyed.raises (fun c₂ run => Outcome.settlesOk (keyed.returns c₂ run))
  split
  · rename_i completing
    have completed : Outcome.Settles Prod.snd (Moves node input msgType data c₁) (complete node input data c₁) := by
      unfold complete
      unfold completes at completing
      split
      · rename_i initiator
        rw [if_pos initiator] at completing
        exact authResponseMoves initiator completing
      · rename_i responder
        rw [if_neg responder] at completing
        exact authConfirmMoves (Bool.eq_false_iff.mpr responder) completing
    refine Outcome.settlesBind completed.raises (fun answer run => Outcome.settlesOk ?_)
    have reached : Moves node input msgType data c₁ answer.2 := completed.returns answer run
    dsimp only
    split
    · exact reached
    · exact reached.then (recordMoves ..)
  split
  · exact Outcome.settlesOk (.start c₁)
  refine Outcome.settlesBind (fun r run => movesRaise (escapeRaises run)) (fun key _ => ?_)
  refine Outcome.settlesBind (fun r run => movesRaise (escapeRaises run)) (fun allowed _ => ?_)
  split
  · exact Outcome.settlesOk (.start c₁)
  · have dispatched : Outcome.Settles id (Moves node input msgType data c₁) (dispatch input msgType data c₁) :=
      dispatchMoves c₁
    exact Outcome.settlesBind dispatched.raises (fun c₂ run => Outcome.settlesOk (dispatched.returns c₂ run))

theorem setPortMoves {c : Conn} {fields : Message} (first : c.phase = .first) (object : data = .obj fields)
    (named : msgType.equal (.str "hello_auth") = true ∨ msgType.equal (.str "hello") = true) :
    Moves node input msgType data c (c.setPort (fields.get "port" (.int 0))) := by
  unfold Conn.setPort
  split
  · rename_i valid
    exact (Move.moves first object named valid).alone
  · exact .start c

theorem helloAuthMoves {c : Conn} {fields : Message} (first : c.phase = .first) (object : data = .obj fields)
    (named : msgType.equal (.str "hello_auth") = true) :
    Outcome.Settles Prod.snd (Moves node input msgType data c) (handleHelloAuthInbound node input fields c) := by
  unfold handleHelloAuthInbound
  split
  · exact Outcome.settlesOk (.start c)
  split
  · exact Outcome.settlesError (.start c)
  · exact Outcome.settlesOk (.start c)
  · rename_i version peerChallenge peerPk claimed
    have introduced : Moves node input msgType data c (c.withPeer (describeInitiator fields version c.peer)) :=
      (Move.introduces version first object).alone
    dsimp only
    split
    · exact Outcome.settlesOk introduced
    · rename_i challengeSig signed
      exact Outcome.settlesOk (introduced.then (Move.answers (c := c.withPeer (describeInitiator fields version c.peer))
        first object named claimed signed).alone)

theorem firstMoves {c : Conn} (first : c.phase = .first) :
    Outcome.Settles Prod.snd (Moves node input (heard c input).1 (heard c input).2 c) (onFirst node input c) := by
  unfold onFirst
  split
  · exact Outcome.settlesOk (.start c)
  · exact Outcome.settlesOk (.start c)
  rename_i obj received
  refine Outcome.settlesBind (fun r run => movesRaise (fieldsOfRaises run)) (fun message opened => ?_)
  obtain rfl : obj = .obj message := by
    cases obj <;> cases opened
    rfl
  have row : heard c input =
      (Message.get message "type" (.str ""),Message.get message "data" (.obj [])) := by
    rw [heard,received]
    dsimp only
    rw [if_neg (by rw [first]; simp)]
  rw [row]
  dsimp only
  generalize Message.get message "type" (.str "") = msgType
  generalize Message.get message "data" (.obj []) = data
  have reached : ∀ c₁ : Conn, Moves node input msgType data c c₁ → Outcome.Settles Prod.snd (Moves node input msgType data c)
      (dispatch input msgType data c₁ >>= fun c => .ok (true,c)) := by
    intro c₁ before
    have dispatched : Outcome.Settles id (Moves node input msgType data c) (dispatch input msgType data c₁) :=
      (dispatchMoves c₁).imp (fun c' later => before.then later)
    exact Outcome.settlesBind dispatched.raises (fun c₂ run => Outcome.settlesOk (dispatched.returns c₂ run))
  have kept : ∀ port : Json, (c.setPort port).phase = .first := by
    intro port
    unfold Conn.setPort
    split <;> exact first
  split
  · rename_i named
    split
    · exact Outcome.settlesOk (.start c)
    refine Outcome.settlesBind (fun r run => movesRaise (fieldsOfRaises run)) (fun fields run => ?_)
    have object : data = .obj fields := by
      cases data <;> cases run
      rfl
    have greeted : Outcome.Settles Prod.snd (Moves node input msgType data c)
        (handleHelloAuthInbound node input fields (c.setPort (fields.get "port" (.int 0)))) :=
      (helloAuthMoves (kept _) object named).imp (fun c' later => (setPortMoves first object (.inl named)).then later)
    refine Outcome.settlesBind greeted.raises (fun answer run => ?_)
    have before : Moves node input msgType data c answer.2 := greeted.returns answer run
    split
    · exact Outcome.settlesOk (before.then (recordMoves ..))
    · exact reached _ before
  split
  · rename_i named
    refine Outcome.settlesBind (fun r run => movesRaise (fieldsOfRaises run)) (fun fields run => ?_)
    have object : data = .obj fields := by
      cases data <;> cases run
      rfl
    have told : Moves node input msgType data c (c.withPeer { c.peer with
        nodeId := fields.get "node_id" (.str ""), protocolVersion := .int 1 }) :=
      tellMoves c _ ⟨rfl,rfl,rfl,rfl,rfl,rfl,rfl,rfl,rfl,rfl⟩
    have ported : Moves node input msgType data (c.withPeer { c.peer with
        nodeId := fields.get "node_id" (.str ""), protocolVersion := .int 1 })
        ((c.withPeer { c.peer with nodeId := fields.get "node_id" (.str ""), protocolVersion := .int 1 }).setPort
          (fields.get "port" (.int 0))) := setPortMoves first object (.inr named)
    exact reached _ ((told.then ported).then (Move.notes rfl).alone)
  · exact reached c (.start c)

theorem messageMoves {c : Conn} (looping : c.phase = .loop) :
    Outcome.Settles Prod.snd (Moves node input (heard c input).1 (heard c input).2 c) (onMessage node input c) := by
  unfold onMessage
  split
  · exact Outcome.settlesOk (.start c)
  · exact Outcome.settlesOk (.start c)
  rename_i obj received
  refine Outcome.settlesBind (fun r run => movesRaise (fieldsOfRaises run)) (fun message opened => ?_)
  obtain rfl : obj = .obj message := by
    cases obj <;> cases opened
    rfl
  have row : heard c input =
      if (Message.get message "type" (.str "")).equal (.str "encrypted") = true then
        match decryptMessage (Message.get message "data" (.obj [])) c with
        | .ok (some inner) => inner
        | _ => (.null,.null)
      else (Message.get message "type" (.str ""),Message.get message "data" (.obj [])) := by
    rw [heard,received]
    simp only [looping,true_and]
  dsimp only
  refine Outcome.settlesBind (fun r run => movesRaise (escapeRaises run)) (fun key _ => ?_)
  split
  · split
    · exact Outcome.settlesOk (recordMoves ..)
    · exact Outcome.settlesOk (.start c)
  split
  · rename_i enveloped
    rw [if_pos enveloped] at row
    refine Outcome.settlesBind (fun r run => movesRaise (decryptRaises run)) (fun inner decrypted => ?_)
    rw [decrypted] at row
    cases inner with
    | none => exact Outcome.settlesOk (.start c)
    | some inner =>
      rw [row]
      exact processMoves c
  · rename_i plain
    rw [if_neg plain] at row
    rw [row]
    exact processMoves c

theorem stepMoves (node : P2PNode) {c : Conn} (running : c.phase ≠ .closed) (input : Incoming) :
    ∃ c', Moves node input (heard c input).1 (heard c input).2 c c' ∧
      (step node c input = { c' with phase := .loop } ∨ step node c input = c'.close) := by
  have settled : ∀ {x : Handled}, Outcome.Settles Prod.snd (Moves node input (heard c input).1 (heard c input).2 c) x →
      ∃ c', Moves node input (heard c input).1 (heard c input).2 c c' ∧
        (settle x = { c' with phase := .loop } ∨ settle x = c'.close) := by
    intro x settles
    match x,settles with
    | .ok (true,c'),settles => exact ⟨c',settles.returns _ rfl,.inl rfl⟩
    | .ok (false,c'),settles => exact ⟨c',settles.returns _ rfl,.inr rfl⟩
    | .error r,settles => exact ⟨r.state,settles.raises r rfl,.inr rfl⟩
  unfold step
  split
  · rename_i first
    exact settled (firstMoves first)
  · rename_i looping
    exact settled (messageMoves looping)
  · rename_i closed
    exact absurd closed running

end Handlers

end QbitNetwork.Handshake
