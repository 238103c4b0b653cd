import QbitNetwork.Handshake
import QbitNetwork.Runs

/-! What a connection may do to its challenge, and what follows for every sequence of messages:
who is authenticated, how often a challenge is used, and what passes the gate. -/
namespace QbitNetwork.Handshake

namespace Event

def isChallenge : Event → Bool
  | challenged _ _ => true
  | _ => false

def isCheck : Event → Bool
  | checked _ _ _ _ _ => true
  | _ => false

def Gated : Event → Prop
  | handled msgType _ version authenticated =>
    msgType ∈ authRequiredMsgs → version.less (.int 2) = .ok false → authenticated = true
  | _ => True

structure Plain (event : Event) : Prop where
  gated : event.Gated
  challenge : event.isChallenge = false
  check : event.isCheck = false

end Event

section Effects

structure Quiet (c c' : Conn) : Prop where
  trace : ∃ events, c'.trace = c.trace ++ events ∧ ∀ e ∈ events, e.Plain
  challenge : c'.peer.challenge ≠ [] →
    c'.peer.challenge = c.peer.challenge ∧ c'.peer.authDeadline = c.peer.authDeadline
  authenticated : c'.peer.authenticated = c.peer.authenticated
  remotePubkey : c'.peer.remotePubkey = c.peer.remotePubkey

theorem Quiet.refl (c : Conn) : Quiet c c := ⟨⟨[],(List.append_nil _).symm,by simp⟩,fun _ => ⟨rfl,rfl⟩,rfl,rfl⟩

theorem Quiet.trans {a b c : Conn} (first : Quiet a b) (second : Quiet b c) : Quiet a c := by
  obtain ⟨⟨events,made,plain⟩,challenge,authenticated,remotePubkey⟩ := first
  obtain ⟨⟨events',made',plain'⟩,challenge',authenticated',remotePubkey'⟩ := second
  refine ⟨⟨events ++ events',by rw [made',made,List.append_assoc],?_⟩,?_,
    authenticated'.trans authenticated,remotePubkey'.trans remotePubkey⟩
  · intro e inside
    exact (List.mem_append.mp inside).elim (plain e) (plain' e)
  · intro pending
    obtain ⟨same,deadline⟩ := challenge' pending
    obtain ⟨same',deadline'⟩ := challenge (same ▸ pending)
    exact ⟨same.trans same',deadline.trans deadline'⟩

theorem plainSent (msgType : String) (data : Json) : (Event.sent msgType data).Plain := ⟨trivial,rfl,rfl⟩

theorem plainRecorded (event : String) : (Event.recorded event).Plain := ⟨trivial,rfl,rfl⟩

theorem plainClosedOther (key : String) : (Event.closedOther key).Plain := ⟨trivial,rfl,rfl⟩

theorem quietEmit {event : Event} (plain : event.Plain) (c : Conn) : Quiet c (c.emit event) :=
  ⟨⟨[event],rfl,fun _ inside => List.mem_singleton.mp inside ▸ plain⟩,fun _ => ⟨rfl,rfl⟩,rfl,rfl⟩

theorem quietSend (c : Conn) (msgType : String) (data : Message) : Quiet c (c.send msgType data) :=
  quietEmit (plainSent ..) c

theorem quietClear (c : Conn) : Quiet c c.clearChallenge :=
  ⟨⟨[],(List.append_nil _).symm,by simp⟩,fun pending => absurd rfl pending,rfl,rfl⟩

theorem quietPeer (c : Conn) {peer : Peer} (challenge : peer.challenge = c.peer.challenge)
    (deadline : peer.authDeadline = c.peer.authDeadline)
    (authenticated : peer.authenticated = c.peer.authenticated)
    (remotePubkey : peer.remotePubkey = c.peer.remotePubkey) : Quiet c (c.withPeer peer) :=
  ⟨⟨[],(List.append_nil _).symm,by simp⟩,fun _ => ⟨challenge,deadline⟩,authenticated,remotePubkey⟩

theorem quietPhase (c : Conn) (phase : Phase) : Quiet c { c with phase } :=
  ⟨⟨[],(List.append_nil _).symm,by simp⟩,fun _ => ⟨rfl,rfl⟩,rfl,rfl⟩

theorem quietClose (c : Conn) : Quiet c c.close :=
  (quietPhase c .closed).trans (quietPeer _ rfl rfl rfl rfl)

theorem fieldsOfRaises {c : Conn} {data : Json} {r : Fault Conn} (run : fieldsOf c data = .error r) : r.state = c := by
  cases data <;> cases run <;> rfl

theorem escapeRaises {α : Type} {c : Conn} {x : Except PyExc α} {r : Fault Conn}
    (run : escape c x = .error r) : r.state = c := by
  cases x <;> cases run
  rfl

theorem escapeOk {α : Type} {c : Conn} {x : Except PyExc α} {a : α} (run : escape c x = .ok a) : x = .ok a := by
  cases x <;> cases run
  rfl

variable [Env]

def answers (challenge publicKey signature : Bytes) : Bool :=
  verifySig publicKey (buildAuthMessage challenge (deriveAddress publicKey)) signature

structure Spent (now : Rat) (c c' : Conn) : Prop where
  pending : c.peer.challenge ≠ []
  inTime : now ≤ c.peer.authDeadline
  spent : c'.peer.challenge = []
  verdict : ∃ publicKey signature before after,
    c'.trace = c.trace ++ before ++ Event.checked c.peer.challenge publicKey signature now
      (answers c.peer.challenge publicKey signature) :: after ∧
    (∀ e ∈ before ++ after, e.Plain) ∧
    (c'.peer.authenticated = c.peer.authenticated ∨
      answers c.peer.challenge publicKey signature = true ∧ c'.peer.remotePubkey = publicKey)

def Effect (now : Rat) (c c' : Conn) : Prop := Quiet c c' ∨ Spent now c c'

theorem Effect.after {now : Rat} {a b c : Conn} (first : Quiet a b) (second : Effect now b c) : Effect now a c := by
  rcases second with second | ⟨pending,inTime,spent,publicKey,signature,before,after,made,plain,verdict⟩
  · exact .inl (first.trans second)
  · obtain ⟨⟨events,made',plain'⟩,challenge,authenticated,-⟩ := first
    obtain ⟨same,deadline⟩ := challenge pending
    rw [same] at pending made verdict
    rw [deadline] at inTime
    rw [authenticated] at verdict
    refine .inr ⟨pending,inTime,spent,publicKey,signature,events ++ before,after,?_,?_,verdict⟩
    · rw [made,made']
      simp only [List.append_assoc]
    · intro e inside
      rw [List.append_assoc] at inside
      exact (List.mem_append.mp inside).elim (plain' e) (plain e)

theorem Effect.before {now : Rat} {a b c : Conn} (first : Effect now a b) (second : Quiet b c) : Effect now a c := by
  rcases first with first | ⟨pending,inTime,spent,publicKey,signature,before,after,made,plain,verdict⟩
  · exact .inl (first.trans second)
  · obtain ⟨⟨events,made',plain'⟩,challenge,authenticated,remotePubkey⟩ := second
    refine .inr ⟨pending,inTime,?_,publicKey,signature,before,after ++ events,?_,?_,?_⟩
    · by_contra kept
      exact kept ((challenge kept).1.trans spent)
    · rw [made',made]
      simp only [List.append_assoc,List.cons_append]
    · intro e inside
      rw [← List.append_assoc] at inside
      exact (List.mem_append.mp inside).elim (plain e) (plain' e)
    · rw [authenticated,remotePubkey]
      exact verdict

end Effects

section Handlers
variable [Env] [Channel]

omit [Env] [Channel] in
theorem dedupQuiet (node : P2PNode) (input : Incoming) (c : Conn) : Quiet c (dedupConnection node input c).2 := by
  unfold dedupConnection
  split
  · exact .refl c
  split
  · exact .refl c
  split
  · exact quietEmit (plainClosedOther ..) c
  · exact .refl c

omit [Channel] in
theorem initiateQuiet (node : P2PNode) (input : Incoming) (c : Conn) :
    Quiet c (initiateEncryptedChannel node input c) := by
  unfold initiateEncryptedChannel
  split
  · exact .refl c
  split
  · exact .refl c
  · exact ((quietPeer c rfl rfl rfl rfl).trans (quietSend ..)).trans (quietPeer _ rfl rfl rfl rfl)

omit [Channel] in
theorem checkValidatorKeeps (node : P2PNode) (peer : Peer) :
    (checkValidatorStatus node peer).challenge = peer.challenge ∧
      (checkValidatorStatus node peer).authDeadline = peer.authDeadline ∧
      (checkValidatorStatus node peer).authenticated = peer.authenticated ∧
      (checkValidatorStatus node peer).remotePubkey = peer.remotePubkey := by
  unfold checkValidatorStatus
  split <;> exact ⟨rfl,rfl,rfl,rfl⟩

structure Completed (publicKey : Bytes) (c c' : Conn) : Prop where
  trace : ∃ events, c'.trace = c.trace ++ events ∧ ∀ e ∈ events, e.Plain
  challenge : c'.peer.challenge = [] ∨ c'.peer.challenge = c.peer.challenge
  verdict : c'.peer.authenticated = c.peer.authenticated ∨ c'.peer.remotePubkey = publicKey

omit [Env] [Channel] in
theorem Quiet.completed {publicKey : Bytes} {c c' : Conn} (quiet : Quiet c c') : Completed publicKey c c' :=
  ⟨quiet.trace,(Classical.em _).imp id (fun pending => (quiet.challenge pending).1),.inl quiet.authenticated⟩

omit [Env] [Channel] in
theorem Completed.thenQuiet {publicKey : Bytes} {a b c : Conn} (first : Completed publicKey a b)
    (second : Quiet b c) : Completed publicKey a c := by
  obtain ⟨⟨events,made,plain⟩,challenge,verdict⟩ := first
  obtain ⟨⟨events',made',plain'⟩,challenge',authenticated',remotePubkey'⟩ := second
  refine ⟨⟨events ++ events',by rw [made',made,List.append_assoc],?_⟩,?_,?_⟩
  · intro e inside
    exact (List.mem_append.mp inside).elim (plain e) (plain' e)
  · by_cases pending : c.peer.challenge = []
    · exact .inl pending
    · rw [(challenge' pending).1]
      exact challenge
  · rw [authenticated',remotePubkey']
    exact verdict

omit [Channel] in
theorem checkSpent {input : Incoming} {publicKey signature : Bytes} {valid : Bool} {c checked c' : Conn}
    (check : checkChallenge input publicKey signature c = (valid,checked)) (pending : c.peer.challenge ≠ [])
    (inTime : ¬c.peer.authDeadline < input.monotonic) (completed : Completed publicKey checked c')
    (refused : valid = false → c'.peer.authenticated = c.peer.authenticated) :
    Effect input.monotonic c c' := by
  cases check
  obtain ⟨⟨events,made,plain⟩,challenge,verdict⟩ := completed
  refine .inr ⟨pending,Rat.not_lt.mp inTime,challenge.elim id id,publicKey,signature,[],events,?_,by simpa using plain,?_⟩
  · rw [made,List.append_nil]
    exact List.append_assoc ..
  · by_cases valid : answers c.peer.challenge publicKey signature = true
    · exact verdict.imp id (fun same => ⟨valid,same⟩)
    · exact .inl (refused (Bool.of_not_eq_true valid))

omit [Channel] in
theorem checkedRemote {input : Incoming} {publicKey signature : Bytes} {valid : Bool} {c checked : Conn}
    (check : checkChallenge input publicKey signature c = (valid,checked)) :
    checked.peer.remotePubkey = c.peer.remotePubkey ∧ checked.peer.authenticated = c.peer.authenticated := by
  cases check
  exact ⟨rfl,rfl⟩

theorem completeResponseCompletes (node : P2PNode) (input : Incoming) (data : Message) (responderPk : Bytes)
    (c : Conn) : Outcome.Settles Prod.snd (Completed responderPk c)
      (completeResponse node input data responderPk c) := by
  unfold completeResponse
  split
  · exact Outcome.settlesOk (Quiet.refl c).completed
  split
  · exact Outcome.settlesOk (Quiet.refl c).completed
  rename_i counterChallenge _ _ counterSig _
  have settled : ∀ c' : Conn, c'.trace = (c.send "auth_confirm" [("challenge_sig",.str (hex counterSig))]).trace →
      c'.peer.challenge = c.peer.challenge → c'.peer.remotePubkey = responderPk → Completed responderPk c c' := by
    intro c' trace challenge remotePubkey
    exact ⟨trace ▸ (quietSend c "auth_confirm" _).trace,.inr challenge,.inr remotePubkey⟩
  dsimp only
  split
  · exact Outcome.settlesError (settled _ rfl rfl rfl)
  · rename_i version _
    obtain ⟨challenge,-,-,remotePubkey⟩ :=
      checkValidatorKeeps node (describe data version (authenticate responderPk c.peer))
    have reached := settled ((c.send "auth_confirm" [("challenge_sig",.str (hex counterSig))]).withPeer
      (checkValidatorStatus node (describe data version (authenticate responderPk c.peer)))) rfl challenge remotePubkey
    have deduped := reached.thenQuiet (dedupQuiet node input _)
    split
    · rename_i closing same
      rw [same] at deduped
      exact Outcome.settlesOk deduped
    · rename_i kept same
      rw [same] at deduped
      have opened := deduped.thenQuiet (initiateQuiet node input kept)
      split
      · exact Outcome.settlesError opened
      · exact Outcome.settlesOk (opened.thenQuiet (quietPeer _ rfl rfl rfl rfl))

omit [Channel] in
theorem completeConfirmCompletes (node : P2PNode) (input : Incoming) (c : Conn) :
    Outcome.Settles Prod.snd (Completed c.peer.remotePubkey c) (completeConfirm node input c) := by
  have settled : ∀ peer : Peer, peer.challenge = c.peer.challenge → peer.remotePubkey = c.peer.remotePubkey →
      Completed c.peer.remotePubkey c (c.withPeer peer) := by
    intro peer challenge remotePubkey
    exact ⟨⟨[],(List.append_nil _).symm,by simp⟩,.inr challenge,.inr remotePubkey⟩
  unfold completeConfirm
  dsimp only
  split
  · exact Outcome.settlesError (settled _ rfl rfl)
  · rename_i wireFormat _
    obtain ⟨challenge,-,-,remotePubkey⟩ :=
      checkValidatorKeeps node { authenticate c.peer.remotePubkey c.peer with wireFormat }
    have deduped := (settled (checkValidatorStatus node { authenticate c.peer.remotePubkey c.peer with wireFormat })
      challenge remotePubkey).thenQuiet (dedupQuiet node input _)
    split
    · rename_i closing same
      rw [same] at deduped
      exact Outcome.settlesOk deduped
    · rename_i kept same
      rw [same] at deduped
      exact Outcome.settlesOk deduped

theorem authResponseEffect (node : P2PNode) (input : Incoming) (data : Json) (c : Conn) :
    Outcome.Settles Prod.snd (Effect input.monotonic c) (handleAuthResponse node input data c) := by
  have cleared : Effect input.monotonic c c.clearChallenge := .inl (quietClear c)
  unfold handleAuthResponse
  split
  · exact Outcome.settlesOk (.inl (.refl c))
  rename_i pending
  split
  · exact Outcome.settlesOk cleared
  rename_i inTime
  refine Outcome.settlesBind (fun r run => .inl (fieldsOfRaises run ▸ .refl c)) (fun data _ => ?_)
  split
  · rename_i responderPk challengeSig _ _
    split
    · rename_i refused check
      exact Outcome.settlesOk (checkSpent check pending inTime (Quiet.refl _).completed
        (fun _ => (checkedRemote check).2))
    · rename_i verified check
      refine (completeResponseCompletes node input data responderPk verified).imp (fun c' completed => ?_)
      exact checkSpent check pending inTime completed (fun refused => nomatch refused)
  · exact Outcome.settlesOk cleared

omit [Channel] in
theorem authConfirmEffect (node : P2PNode) (input : Incoming) (data : Json) (c : Conn) :
    Outcome.Settles Prod.snd (Effect input.monotonic c) (handleAuthConfirm node input data c) := by
  have cleared : Effect input.monotonic c c.clearChallenge := .inl (quietClear c)
  unfold handleAuthConfirm
  split
  · exact Outcome.settlesOk (.inl (.refl c))
  rename_i pending
  split
  · exact Outcome.settlesOk cleared
  split
  · exact Outcome.settlesOk cleared
  rename_i inTime
  refine Outcome.settlesBind (fun r run => .inl (fieldsOfRaises run ▸ .refl c)) (fun data _ => ?_)
  split
  · exact Outcome.settlesOk cleared
  · rename_i challengeSig _
    split
    · rename_i refused check
      exact Outcome.settlesOk (checkSpent check pending inTime
        ⟨⟨[],(List.append_nil _).symm,by simp⟩,.inr rfl,.inl rfl⟩ (fun _ => (checkedRemote check).2))
    · rename_i verified check
      refine (completeConfirmCompletes node input verified).imp (fun c' completed => ?_)
      rw [(checkedRemote check).1] at completed
      exact checkSpent check pending inTime completed (fun refused => nomatch refused)

theorem sessionKeyQuiet (node : P2PNode) (data : Json) (c : Conn) :
    Outcome.Settles id (Quiet c) (handleSessionKey node data c) := by
  unfold handleSessionKey
  split
  · exact Outcome.settlesOk (.refl c)
  refine Outcome.settlesBind (fun r run => fieldsOfRaises run ▸ .refl c) (fun data _ => ?_)
  split
  · exact Outcome.settlesOk (.refl c)
  · dsimp only
    split
    · exact Outcome.settlesOk (quietPeer c rfl rfl rfl rfl)
    · exact Outcome.settlesOk (quietPeer c rfl rfl rfl rfl)

omit [Env] [Channel] in
theorem recordHeightQuiet (data : Json) (c : Conn) : Outcome.Settles id (Quiet c) (recordHeight data c) := by
  refine Outcome.settlesBind (fun r run => fieldsOfRaises run ▸ .refl c) (fun data _ => ?_)
  dsimp only
  split
  · exact Outcome.settlesOk (quietPeer c rfl rfl rfl rfl)
  · exact Outcome.settlesOk (.refl c)

omit [Env] [Channel] in
theorem hearStatusQuiet (msgType data : Json) (c : Conn) : Outcome.Settles id (Quiet c) (hearStatus msgType data c) := by
  unfold hearStatus
  split
  · exact recordHeightQuiet data c
  · exact Outcome.settlesOk (.refl c)

omit [Env] [Channel] in
theorem dispatchQuiet (input : Incoming) (msgType data : Json) (c : Conn)
    (gate : ∀ type, msgType.tableKey = .ok (some type) → type ∈ authRequiredMsgs →
      c.peer.protocolVersion.less (.int 2) = .ok false → c.peer.authenticated = true) :
    Outcome.Settles id (Quiet c) (dispatch input msgType data c) := by
  refine Outcome.settlesBind (fun r run => escapeRaises run ▸ .refl c) (fun key run => ?_)
  split
  · exact Outcome.settlesOk (.refl c)
  · rename_i type handled
    have keyed : key = some type := by
      rw [Option.filter_eq_some_iff] at handled
      exact handled.1
    have passed : Event.Gated (.handled type data c.peer.protocolVersion c.peer.authenticated) :=
      gate type ((escapeOk run).trans (congrArg Except.ok keyed))
    have emitted : Quiet c (c.emit (.handled type data c.peer.protocolVersion c.peer.authenticated)) :=
      quietEmit ⟨passed,rfl,rfl⟩ c
    have heard := (hearStatusQuiet msgType data (c.emit (.handled type data c.peer.protocolVersion
      c.peer.authenticated))).imp (fun c' quiet => emitted.trans quiet)
    refine Outcome.settlesBind heard.raises (fun c' run => ?_)
    split
    · exact Outcome.settlesError (heard.returns c' run)
    · exact Outcome.settlesOk (heard.returns c' run)

omit [Env] [Channel] in
theorem gateOpen {key : Option String} {peer : Peer} (allowed : checkAuthGate key peer = .ok true) :
    ∀ type, key = some type → type ∈ authRequiredMsgs → peer.protocolVersion.less (.int 2) = .ok false →
      peer.authenticated = true := by
  rintro type rfl required recent
  unfold checkAuthGate at allowed
  rw [if_neg (fun exempt => exempt type rfl required),recent] at allowed
  simpa [bind,Except.bind] using allowed

theorem processEffect (node : P2PNode) (input : Incoming) (msgType data : Json) (c : Conn) :
    Outcome.Settles Prod.snd (Effect input.monotonic c) (process node input msgType data c) := by
  have heard := hearStatusQuiet msgType data c
  refine Outcome.settlesBind (fun r run => .inl (heard.raises r run)) (fun c₁ run => ?_)
  have quiet : Quiet c c₁ := heard.returns c₁ run
  suffices rest : Outcome.Settles Prod.snd (Effect input.monotonic c₁) _ from
    rest.imp (fun c' effect => effect.after quiet)
  split
  · have keyed := sessionKeyQuiet node data c₁
    exact Outcome.settlesBind (fun r run => .inl (keyed.raises r run))
      (fun c₂ run => Outcome.settlesOk (.inl (keyed.returns c₂ run)))
  split
  · have completes : Outcome.Settles Prod.snd (Effect input.monotonic c₁) (complete node input data c₁) := by
      unfold complete
      split
      · exact authResponseEffect node input data c₁
      · exact authConfirmEffect node input data c₁
    refine Outcome.settlesBind completes.raises (fun answer run => ?_)
    have effect := completes.returns answer run
    refine Outcome.settlesOk ?_
    dsimp only
    split
    · exact effect
    · exact effect.before (quietEmit (plainRecorded _) _)
  split
  · exact Outcome.settlesOk (.inl (.refl c₁))
  refine Outcome.settlesBind (fun r run => .inl (escapeRaises run ▸ .refl c₁)) (fun key keyed => ?_)
  refine Outcome.settlesBind (fun r run => .inl (escapeRaises run ▸ .refl c₁)) (fun allowed gated => ?_)
  split
  · exact Outcome.settlesOk (.inl (.refl c₁))
  · rename_i passes
    have opened : checkAuthGate key c₁.peer = .ok true := by
      rw [escapeOk gated,Bool.of_not_eq_false passes]
    have dispatched := dispatchQuiet input msgType data c₁ (fun type named =>
      gateOpen opened type (Except.ok.inj ((escapeOk keyed).symm.trans named)))
    exact Outcome.settlesBind (fun r run => .inl (dispatched.raises r run))
      (fun c₂ run => Outcome.settlesOk (.inl (dispatched.returns c₂ run)))

omit [Env] in
theorem decryptRaises {data : Json} {c : Conn} {r : Fault Conn} (run : decryptMessage data c = .error r) :
    r.state = c := by
  unfold decryptMessage at run
  split at run
  · cases run
  · rcases (Outcome.bindError ..).mp run with raised | ⟨fields,-,run⟩
    · exact fieldsOfRaises raised
    · split at run
      · cases run
      · rcases (Outcome.bindError ..).mp run with raised | ⟨_,-,run⟩
        · exact fieldsOfRaises raised
        · cases run

theorem messageEffect (node : P2PNode) (input : Incoming) (c : Conn) :
    Outcome.Settles Prod.snd (Effect input.monotonic c) (onMessage node input c) := by
  unfold onMessage
  split
  · exact Outcome.settlesOk (.inl (.refl c))
  · exact Outcome.settlesOk (.inl (.refl c))
  refine Outcome.settlesBind (fun r run => .inl (fieldsOfRaises run ▸ .refl c)) (fun message _ => ?_)
  dsimp only
  refine Outcome.settlesBind (fun r run => .inl (escapeRaises run ▸ .refl c)) (fun key _ => ?_)
  split
  · split
    · exact Outcome.settlesOk (.inl (quietEmit (plainRecorded _) c))
    · exact Outcome.settlesOk (.inl (.refl c))
  split
  · refine Outcome.settlesBind (fun r run => .inl (decryptRaises run ▸ .refl c)) (fun inner _ => ?_)
    split
    · exact Outcome.settlesOk (.inl (.refl c))
    · exact processEffect node input _ _ c
  · exact processEffect node input _ _ c

theorem processCompletes (node : P2PNode) (input : Incoming) {type : String} (data : Json) {c : Conn}
    (completing : type = if c.peer.isInitiator then "auth_response" else "auth_confirm") :
    process node input (.str type) data c = (do
      let (authOk,c) ← complete node input data c
      .ok (authOk,if authOk then c else c.emit (.recorded "auth_failed"))) := by
  have this : completes c (.str type) = true := by
    unfold completes
    rw [completing]
    exact Json.equalStrRefl _
  have unkeyed : (Json.str type).equal (.str "session_key") = false := by
    rw [completing]
    cases c.peer.isInitiator <;> decide
  have unheard : hearStatus (.str type) data c = .ok c := by
    rw [completing]
    cases c.peer.isInitiator <;> rfl
  unfold process
  rw [unheard]
  simp only [bind,Except.bind,unkeyed,this,if_true,Bool.false_eq_true,if_false]

theorem stepEnded (node : P2PNode) (c : Conn) (input : Incoming) :
    (step node c { input with received := .ended }).phase = .closed := by
  unfold step
  split
  · rfl
  · rfl
  · assumption

omit [Env] [Channel] in
theorem settleSettles {kept : Conn → Prop} (quiet : ∀ c c', Quiet c c' → kept c → kept c') {x : Handled}
    (settles : Outcome.Settles Prod.snd kept x) : kept (settle x) ∧ (settle x).phase ≠ .first := by
  match x,settles with
  | .ok (true,c),settles => exact ⟨quiet c _ (quietPhase c .loop) (settles.returns _ rfl),by simp [settle]⟩
  | .ok (false,c),settles => exact ⟨quiet c _ (quietClose c) (settles.returns _ rfl),by simp [settle,Conn.close]⟩
  | .error r,settles =>
    exact ⟨quiet r.state _ (quietClose r.state) (settles.raises _ rfl),by simp [settle,Conn.close]⟩

end Handlers

section Runs
variable [Env] [Channel]

structure Sound (c : Conn) : Prop where
  gated : ∀ e ∈ c.trace, e.Gated
  challenges : c.trace.countP Event.isChallenge ≤ 1
  checks : c.trace.countP Event.isCheck ≤ c.trace.countP Event.isChallenge
  pending : c.peer.challenge ≠ [] → .challenged c.peer.challenge c.peer.authDeadline ∈ c.trace ∧
    ∀ e ∈ c.trace, e.isCheck = false
  asked : ∀ challenge publicKey signature now valid, .checked challenge publicKey signature now valid ∈ c.trace →
    (∃ deadline, .challenged challenge deadline ∈ c.trace ∧ now ≤ deadline) ∧
      valid = answers challenge publicKey signature

omit [Env] [Channel] in
theorem plainCounts {events : List Event} (plain : ∀ e ∈ events, e.Plain) :
    events.countP Event.isChallenge = 0 ∧ events.countP Event.isCheck = 0 :=
  ⟨List.countP_eq_zero.mpr (fun e inside => by simp [(plain e inside).challenge]),
   List.countP_eq_zero.mpr (fun e inside => by simp [(plain e inside).check])⟩

omit [Env] [Channel] in
theorem plainNoCheck {events : List Event} (plain : ∀ e ∈ events, e.Plain) {challenge publicKey signature : Bytes}
    {now : Rat} {valid : Bool} : ¬Event.checked challenge publicKey signature now valid ∈ events :=
  fun inside => nomatch (plain _ inside).check

omit [Channel] in
theorem Sound.thenQuiet {c c' : Conn} (quiet : Quiet c c') (sound : Sound c) : Sound c' := by
  obtain ⟨⟨events,made,plain⟩,challenge,-,-⟩ := quiet
  obtain ⟨noChallenges,noChecks⟩ := plainCounts plain
  refine ⟨?_,?_,?_,?_,?_⟩
  · rw [made]
    intro e inside
    exact (List.mem_append.mp inside).elim (sound.gated e) (fun later => (plain e later).gated)
  · rw [made,List.countP_append,noChallenges]
    exact sound.challenges
  · rw [made,List.countP_append,List.countP_append,noChallenges,noChecks]
    exact sound.checks
  · intro pending
    obtain ⟨same,deadline⟩ := challenge pending
    obtain ⟨generated,unchecked⟩ := sound.pending (same ▸ pending)
    rw [same,deadline,made]
    refine ⟨List.mem_append_left _ generated,fun e inside => ?_⟩
    exact (List.mem_append.mp inside).elim (unchecked e) (fun later => (plain e later).check)
  · intro challenge publicKey signature now valid inside
    rw [made] at inside ⊢
    rcases List.mem_append.mp inside with before | later
    · obtain ⟨⟨deadline,generated,inTime⟩,verdict⟩ := sound.asked _ _ _ _ _ before
      exact ⟨⟨deadline,List.mem_append_left _ generated,inTime⟩,verdict⟩
    · exact absurd later (plainNoCheck plain)

omit [Channel] in
theorem Sound.thenSpent {now : Rat} {c c' : Conn} (spent : Spent now c c') (sound : Sound c) : Sound c' := by
  obtain ⟨pending,inTime,gone,publicKey,signature,before,after,made,plain,-⟩ := spent
  obtain ⟨generated,unchecked⟩ := sound.pending pending
  have plainBefore : ∀ e ∈ before, e.Plain := fun e inside => plain e (List.mem_append_left _ inside)
  have plainAfter : ∀ e ∈ after, e.Plain := fun e inside => plain e (List.mem_append_right _ inside)
  have challenges : c'.trace.countP Event.isChallenge = c.trace.countP Event.isChallenge := by
    rw [made,List.countP_append,List.countP_append,List.countP_cons,(plainCounts plainBefore).1,
      (plainCounts plainAfter).1]
    rfl
  have checks : c'.trace.countP Event.isCheck = 1 := by
    have none : c.trace.countP Event.isCheck = 0 :=
      List.countP_eq_zero.mpr (fun e inside => by simp [unchecked e inside])
    rw [made,List.countP_append,List.countP_append,List.countP_cons,(plainCounts plainBefore).2,
      (plainCounts plainAfter).2,none]
    rfl
  have asked : 0 < c.trace.countP Event.isChallenge := List.countP_pos_iff.mpr ⟨_,generated,rfl⟩
  have kept : ∀ e ∈ c.trace, e ∈ c'.trace := by
    intro e inside
    rw [made]
    exact List.mem_append_left _ (List.mem_append_left _ inside)
  refine ⟨?_,challenges ▸ sound.challenges,by omega,fun pending' => absurd gone pending',?_⟩
  · rw [made]
    intro e inside
    rcases List.mem_append.mp inside with front | back
    · exact (List.mem_append.mp front).elim (sound.gated e) (fun later => (plainBefore e later).gated)
    · rcases List.mem_cons.mp back with rfl | later
      · trivial
      · exact (plainAfter e later).gated
  · intro challenge publicKey' signature' now' valid inside
    rw [made] at inside
    rcases List.mem_append.mp inside with front | back
    · rcases List.mem_append.mp front with early | later
      · exact nomatch unchecked _ early
      · exact absurd later (plainNoCheck plainBefore)
    · rcases List.mem_cons.mp back with same | later
      · cases same
        exact ⟨⟨_,kept _ generated,inTime⟩,rfl⟩
      · exact absurd later (plainNoCheck plainAfter)

structure Blank (c : Conn) : Prop where
  plain : ∀ e ∈ c.trace, e.Plain
  challenge : c.peer.challenge = []
  authenticated : c.peer.authenticated = false

omit [Env] [Channel] in
theorem Blank.thenQuiet {c c' : Conn} (quiet : Quiet c c') (blank : Blank c) : Blank c' := by
  obtain ⟨⟨events,made,plain⟩,challenge,authenticated,-⟩ := quiet
  refine ⟨?_,?_,authenticated.trans blank.authenticated⟩
  · rw [made]
    intro e inside
    exact (List.mem_append.mp inside).elim (blank.plain e) (plain e)
  · by_contra pending
    exact pending ((challenge pending).1.trans blank.challenge)

def Opened (c : Conn) : Prop := Sound c ∧ c.peer.authenticated = false

omit [Channel] in
theorem Opened.thenQuiet {c c' : Conn} (quiet : Quiet c c') (opened : Opened c) : Opened c' :=
  ⟨opened.1.thenQuiet quiet,quiet.authenticated.trans opened.2⟩

omit [Channel] in
theorem Blank.opened {c : Conn} (blank : Blank c) : Opened c := by
  obtain ⟨noChallenges,noChecks⟩ := plainCounts blank.plain
  refine ⟨⟨fun e inside => (blank.plain e inside).gated,by omega,by omega,
    fun pending => absurd blank.challenge pending,?_⟩,blank.authenticated⟩
  intro challenge publicKey signature now valid inside
  exact absurd inside (plainNoCheck blank.plain)

omit [Channel] in
theorem Blank.challenged {c : Conn} (blank : Blank c) (peer : Peer) (authenticated : peer.authenticated = false) :
    Opened ((c.withPeer peer).emit (.challenged peer.challenge peer.authDeadline)) := by
  obtain ⟨noChallenges,noChecks⟩ := plainCounts blank.plain
  have trace : ((c.withPeer peer).emit (.challenged peer.challenge peer.authDeadline)).trace =
      c.trace ++ [.challenged peer.challenge peer.authDeadline] := rfl
  have unchecked : ∀ e ∈ c.trace ++ [.challenged peer.challenge peer.authDeadline], e.isCheck = false := by
    intro e inside
    rcases List.mem_append.mp inside with early | last
    · exact (blank.plain e early).check
    · rw [List.mem_singleton.mp last]
      rfl
  refine ⟨⟨?_,?_,?_,fun _ => ⟨?_,unchecked⟩,?_⟩,authenticated⟩
  · rw [trace]
    intro e inside
    rcases List.mem_append.mp inside with early | last
    · exact (blank.plain e early).gated
    · rw [List.mem_singleton.mp last]
      trivial
  · rw [trace,List.countP_append,noChallenges,Nat.zero_add]
    exact List.countP_le_length
  · rw [trace,List.countP_append,noChecks]
    exact Nat.zero_le _
  · exact List.mem_append_right _ (List.mem_singleton.mpr rfl)
  · intro challenge publicKey signature now valid inside
    exact nomatch unchecked _ inside

theorem helloAuthOpened (node : P2PNode) (input : Incoming) (data : Message) {c : Conn} (blank : Blank c) :
    Outcome.Settles Prod.snd Opened (handleHelloAuthInbound node input data c) := by
  unfold handleHelloAuthInbound
  split
  · exact Outcome.settlesOk blank.opened
  split
  · exact Outcome.settlesError blank.opened
  · exact Outcome.settlesOk blank.opened
  · dsimp only
    split
    · exact Outcome.settlesOk (blank.opened.thenQuiet (quietPeer c rfl rfl rfl rfl))
    · rename_i version peerChallenge peerPk _ _ challengeSig _
      have opened := blank.challenged (challengePeer input.urandom (input.monotonic + authTimeout) peerPk
        (describeInitiator data version c.peer)) blank.authenticated
      exact Outcome.settlesOk (opened.thenQuiet (quietSend ..))

omit [Env] [Channel] in
theorem setPortQuiet (c : Conn) (port : Json) : Quiet c (c.setPort port) := by
  unfold Conn.setPort
  split
  · exact quietPeer c rfl rfl rfl rfl
  · exact .refl c

omit [Env] [Channel] in
theorem setPortVersion (c : Conn) (port : Json) :
    (c.setPort port).peer.protocolVersion = c.peer.protocolVersion := by
  unfold Conn.setPort
  split <;> rfl

omit [Env] [Channel] in
theorem dispatchOld (input : Incoming) (msgType data : Json) {c : Conn} (old : c.peer.protocolVersion = .int 1) :
    Outcome.Settles id (Quiet c) (dispatch input msgType data c) := by
  refine dispatchQuiet input msgType data c (fun type _ _ recent => ?_)
  rw [old] at recent
  have below : (Json.int 1).less (.int 2) = .ok true := by decide
  rw [below] at recent
  cases recent

theorem firstOpened (node : P2PNode) (input : Incoming) {c : Conn} (blank : Blank c)
    (old : c.peer.protocolVersion = .int 1) : Outcome.Settles Prod.snd Opened (onFirst node input c) := by
  have reached : ∀ (c₁ : Conn) (msgType data : Json), Opened c₁ →
      Outcome.Settles id (Quiet c₁) (dispatch input msgType data c₁) →
      Outcome.Settles Prod.snd Opened (dispatch input msgType data c₁ >>= fun c => .ok (true,c)) := by
    intro c₁ msgType data opened dispatched
    exact Outcome.settlesBind (fun r run => opened.thenQuiet (dispatched.raises r run))
      (fun c₂ run => Outcome.settlesOk (opened.thenQuiet (dispatched.returns c₂ run)))
  have failed : ∀ {data : Json} (r : Fault Conn), fieldsOf c data = .error r → Opened r.state := by
    intro data r run
    rw [fieldsOfRaises run]
    exact blank.opened
  unfold onFirst
  split
  · exact Outcome.settlesOk blank.opened
  · exact Outcome.settlesOk blank.opened
  refine Outcome.settlesBind failed (fun message _ => ?_)
  dsimp only
  split
  · rename_i hello
    split
    · exact Outcome.settlesOk blank.opened
    refine Outcome.settlesBind failed (fun fields _ => ?_)
    have greeted := helloAuthOpened node input fields
      (blank.thenQuiet (setPortQuiet c (fields.get "port" (.int 0))))
    refine Outcome.settlesBind greeted.raises (fun answer run => ?_)
    have opened := greeted.returns answer run
    split
    · exact Outcome.settlesOk (opened.thenQuiet (quietEmit (plainRecorded _) _))
    · refine reached _ _ _ opened (dispatchQuiet input _ _ _ (fun type named required => ?_))
      rw [Json.equalStr hello] at named
      cases named
      exact absurd required (by decide)
  split
  · refine Outcome.settlesBind failed (fun fields _ => ?_)
    generalize peer : ({ c.peer with nodeId := fields.get "node_id" (.str ""), protocolVersion := .int 1 } : Peer) = named
    have quiet : Quiet c (c.withPeer named) := peer ▸ quietPeer c rfl rfl rfl rfl
    have moved := (quiet.trans (setPortQuiet (c.withPeer named) (fields.get "port" (.int 0)))).trans
      (quietSend _ "hello" [("node_id",.str node.nodeId),("port",.int node.port)])
    refine reached _ _ _ (blank.opened.thenQuiet moved) (dispatchOld input _ _ ?_)
    refine (setPortVersion (c.withPeer named) _).trans ?_
    rw [← peer]
    rfl
  · exact reached c _ _ blank.opened (dispatchOld input _ _ old)

theorem connectOpened (node : P2PNode) (port : Int) (input : Incoming) : Opened (connect node port input) := by
  have blank : Blank { phase := .loop, peer := { port := .int port, isInitiator := true }, trace := [] } :=
    ⟨by simp,rfl,rfl⟩
  unfold connect
  dsimp only
  split
  · have opened := blank.challenged
      { port := .int port
        isInitiator := true
        challenge := input.urandom
        authDeadline := input.monotonic + authTimeout
        protocolVersion := .int protocolVersion } rfl
    split
    · exact opened.thenQuiet (quietClose _)
    · exact opened.thenQuiet (quietSend ..)
  · exact blank.opened.thenQuiet (quietSend ..)

inductive Opening where
  | inbound
  | outbound (port : Int) (input : Incoming)

def Opening.conn (node : P2PNode) : Opening → Conn
  | inbound => accepted
  | outbound port input => connect node port input

def Reached (c : Conn) : Prop := c = accepted ∨ c.phase ≠ .first ∧ Sound c

omit [Env] [Channel] in
theorem acceptedBlank : Blank accepted := ⟨by simp [accepted],rfl,rfl⟩

omit [Channel] in
theorem Reached.sound {c : Conn} (reached : Reached c) : Sound c :=
  reached.elim (fun first => first ▸ acceptedBlank.opened.1) And.right

omit [Env] in
theorem connectPhase (node : P2PNode) (port : Int) (input : Incoming) : (connect node port input).phase ≠ .first := by
  unfold connect
  dsimp only
  split
  · split <;> simp [Conn.close,Conn.send,Conn.emit,Conn.withPeer]
  · simp [Conn.send,Conn.emit]

theorem openingReached (node : P2PNode) (opening : Opening) : Reached (opening.conn node) := by
  cases opening with
  | inbound => exact .inl rfl
  | outbound port input => exact .inr ⟨connectPhase node port input,(connectOpened node port input).1⟩

omit [Channel] in
theorem Effect.sound {now : Rat} {c c' : Conn} (effect : Effect now c c') (sound : Sound c) : Sound c' :=
  effect.elim sound.thenQuiet sound.thenSpent

theorem stepEffect (node : P2PNode) (c : Conn) (input : Incoming) (reached : Reached c) :
    (step node c input).peer.authenticated = false ∧ Sound (step node c input) ∧ (step node c input).phase ≠ .first ∨
      Effect input.monotonic c (step node c input) ∧ (step node c input).phase ≠ .first := by
  unfold step
  split
  · rename_i first
    have same : c = accepted := reached.elim id (fun later => absurd first later.1)
    subst same
    obtain ⟨opened,phase⟩ := settleSettles (fun _ _ quiet opened => opened.thenQuiet quiet)
      (firstOpened node input acceptedBlank rfl)
    exact .inl ⟨opened.2,opened.1,phase⟩
  · exact .inr (settleSettles (fun _ _ quiet effect => effect.before quiet) (messageEffect node input c))
  · rename_i closed
    exact .inr ⟨.inl (.refl c),by rw [closed]; decide⟩

theorem stepReached (node : P2PNode) (c : Conn) (input : Incoming) (reached : Reached c) :
    Reached (step node c input) := by
  rcases stepEffect node c input reached with ⟨-,sound,phase⟩ | ⟨effect,phase⟩
  · exact .inr ⟨phase,sound⟩
  · exact .inr ⟨phase,effect.sound reached.sound⟩

theorem runReached (node : P2PNode) (inputs : List Incoming) {c : Conn} (reached : Reached c) :
    Reached (run node c inputs) := by
  induction inputs generalizing c with
  | nil => exact reached
  | cons input rest ih => exact ih (stepReached node c input reached)

def AuthenticatedBy (before after : Conn) (now : Rat) : Prop :=
  ∃ challenge deadline signature, .challenged challenge deadline ∈ before.trace ∧
    before.peer.challenge = challenge ∧ challenge ≠ [] ∧
    (∀ e ∈ before.trace, e.isCheck = false) ∧ now ≤ deadline ∧
    .checked challenge after.peer.remotePubkey signature now true ∈ after.trace ∧
    verifySig after.peer.remotePubkey
      (buildAuthMessage challenge (deriveAddress after.peer.remotePubkey)) signature = true

omit [Channel] in
theorem Effect.authenticates {now : Rat} {c c' : Conn} (effect : Effect now c c') (sound : Sound c)
    (before : c.peer.authenticated = false) (after : c'.peer.authenticated = true) : AuthenticatedBy c c' now := by
  rcases effect with quiet | ⟨pending,inTime,-,publicKey,signature,early,late,made,-,verdict⟩
  · rw [quiet.authenticated,before] at after
    cases after
  · rcases verdict with same | ⟨valid,remotePubkey⟩
    · rw [same,before] at after
      cases after
    · obtain ⟨generated,unchecked⟩ := sound.pending pending
      refine ⟨_,_,signature,generated,rfl,pending,unchecked,inTime,?_,remotePubkey ▸ valid⟩
      rw [made,valid,remotePubkey]
      exact List.mem_append_right _ (List.mem_cons_self ..)

structure Secure (node : P2PNode) (start : Conn) : Prop where
  authenticates : ∀ (inputs : List Incoming) (input : Incoming),
    (run node start inputs).peer.authenticated = false →
    (run node start (inputs ++ [input])).peer.authenticated = true →
    AuthenticatedBy (run node start inputs) (run node start (inputs ++ [input])) input.monotonic
  once : ∀ inputs : List Incoming,
    (run node start inputs).trace.countP Event.isCheck ≤ (run node start inputs).trace.countP Event.isChallenge ∧
    (run node start inputs).trace.countP Event.isChallenge ≤ 1
  asked : ∀ (inputs : List Incoming) (challenge publicKey signature : Bytes) (now : Rat) (valid : Bool),
    .checked challenge publicKey signature now valid ∈ (run node start inputs).trace →
    ∃ deadline, .challenged challenge deadline ∈ (run node start inputs).trace ∧ now ≤ deadline
  gated : ∀ (inputs : List Incoming) (msgType : String) (data version : Json) (authenticated : Bool),
    .handled msgType data version authenticated ∈ (run node start inputs).trace → msgType ∈ authRequiredMsgs →
    version.less (.int 2) = .ok false → authenticated = true

theorem runSnoc (node : P2PNode) (start : Conn) (inputs : List Incoming) (input : Incoming) :
    run node start (inputs ++ [input]) = step node (run node start inputs) input := by
  rw [run,List.foldl_append]
  rfl

theorem connectionSecure (node : P2PNode) (opening : Opening) : Secure node (opening.conn node) := by
  have reached : ∀ inputs, Reached (run node (opening.conn node) inputs) :=
    fun inputs => runReached node inputs (openingReached node opening)
  refine ⟨?_,fun inputs => ⟨(reached inputs).sound.checks,(reached inputs).sound.challenges⟩,?_,?_⟩
  · intro inputs input before after
    rw [runSnoc] at after ⊢
    rcases stepEffect node _ input (reached inputs) with ⟨unchanged,-⟩ | ⟨effect,-⟩
    · rw [unchanged] at after
      cases after
    · exact effect.authenticates (reached inputs).sound before after
  · intro inputs challenge publicKey signature now valid inside
    exact ((reached inputs).sound.asked _ _ _ _ _ inside).1
  · intro inputs msgType data version authenticated inside
    exact (reached inputs).sound.gated _ inside

end Runs

namespace Devnet
open QbitNetwork.Devnet

section Legacy
attribute [local instance] legacy

def longKey : Bytes := List.replicate mldsaPkSize 1

@[reducible] def plainChannel : Channel where
  sign sk message := some (Env.mldsaSign sk message)
  mlkemDecapsulate := fun _ _ => none
  aesDecrypt := fun _ _ => none
  jsonLoads := fun _ => none

attribute [local instance] plainChannel

def responder : P2PNode :=
  { nodeId := "responder", port := 9000, signingSk := longKey, signingPk := longKey, validatorAddress := address
    encryptionSk := [], encryptionPk := [], validators := [], hasMsgpack := false }

def incoming (msgType : String) (data : Message) (urandom : Bytes) : Incoming :=
  { received := .value (.obj [("type",.str msgType),("data",.obj data)])
    monotonic := 0, time := 100, urandom, authRateAllowed := true, rateAllowed := true, rateViolations := false
    banned := false, encapsulate := fun _ => none, others := [], handlerRaises := false }

def signedBy (sk challenge : Bytes) : Json :=
  .str (hex (Env.mldsaSign sk (buildAuthMessage challenge (deriveAddress longKey))))

/- A hello_auth, its answer's confirmation, and a transaction after it, which reaches its handler. -/
example :
    let challenge := List.replicate challengeLen 5
    let counterChallenge := List.replicate challengeLen 6
    let after := run responder accepted
      [incoming "hello_auth" [("protocol_version",.int 4),("timestamp",.int 100),("chain_id",.str chainId),
         ("challenge",.str (hex challenge)),("signing_pk",.str (hex longKey)),("proof",signedBy longKey challenge)]
         counterChallenge,
       incoming "auth_confirm" [("challenge_sig",signedBy longKey counterChallenge)] [],
       incoming "new_tx" [] []]
    after.peer.authenticated = true ∧ after.trace.length = 4 := by decide +kernel

end Legacy

end Devnet

end QbitNetwork.Handshake
