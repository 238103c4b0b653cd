import QbitNetwork.WireFormat
import QbitNetwork.JsonText

/-! When the two ends of a connection agree on the wire format of every message. -/
namespace QbitNetwork.Handshake.WireFormat

section Steps

def sents (events : List Event) : List (String × Json) := events.filterMap sentOf

structure Carried (peer peer' : Peer) : Prop where
  wireFormat : peer'.wireFormat = peer.wireFormat
  isInitiator : peer'.isInitiator = peer.isInitiator
  authenticated : peer'.authenticated = peer.authenticated
  remotePubkey : peer'.remotePubkey = peer.remotePubkey
  protocolVersion : peer'.protocolVersion = peer.protocolVersion
  pendingWireFormat : peer'.pendingWireFormat = peer.pendingWireFormat

theorem Carried.refl (peer : Peer) : Carried peer peer := ⟨rfl,rfl,rfl,rfl,rfl,rfl⟩

theorem Carried.trans {p q r : Peer} (first : Carried p q) (second : Carried q r) : Carried p r :=
  ⟨second.1.trans first.1,second.2.trans first.2,second.3.trans first.3,second.4.trans first.4,
    second.5.trans first.5,second.6.trans first.6⟩

def Writes (c c' : Conn) (messages : List (String × Json)) : Prop :=
  ∃ events, c'.trace = c.trace ++ events ∧ sents events = messages

theorem Writes.refl (c : Conn) : Writes c c [] := ⟨[],(List.append_nil _).symm,rfl⟩

theorem Writes.trans {c c' c'' : Conn} {xs ys : List (String × Json)} (first : Writes c c' xs)
    (second : Writes c' c'' ys) : Writes c c'' (xs ++ ys) := by
  obtain ⟨events,made,sent⟩ := first
  obtain ⟨events',made',sent'⟩ := second
  refine ⟨events ++ events',by rw [made',made,List.append_assoc],?_⟩
  rw [sents,List.filterMap_append]
  exact congrArg₂ _ sent sent'

theorem writesPeer (c : Conn) (peer : Peer) : Writes c (c.withPeer peer) [] := Writes.refl c

theorem writesEmit (c : Conn) {event : Event} (silent : sentOf event = none) : Writes c (c.emit event) [] :=
  ⟨[event],rfl,by simp [sents,silent]⟩

theorem writesSend (c : Conn) (msgType : String) (data : Message) :
    Writes c (c.send msgType data) [(msgType,.obj data)] := ⟨[_],rfl,rfl⟩

structure Steady (c c' : Conn) : Prop where
  carried : Carried c.peer c'.peer
  writes : Writes c c' []

theorem Steady.refl (c : Conn) : Steady c c := ⟨.refl _,.refl c⟩

theorem Steady.trans {a b c : Conn} (first : Steady a b) (second : Steady b c) : Steady a c :=
  ⟨first.carried.trans second.carried,first.writes.trans second.writes⟩

theorem steadyEmit (c : Conn) {event : Event} (silent : sentOf event = none) : Steady c (c.emit event) :=
  ⟨.refl _,writesEmit c silent⟩

theorem steadyRaise {c : Conn} {r : Fault Conn} (same : r.state = c) : Steady c r.state := same ▸ .refl c

def Ends (kept refused : Conn → Prop) : Handled → Prop
  | .ok (true,c) => kept c
  | .ok (false,c) => refused c
  | .error r => refused r.state

theorem endsBind {α : Type} {kept refused : Conn → Prop} {x : Except (Fault Conn) α} {f : α → Handled}
    (raises : ∀ r, x = .error r → refused r.state) (next : ∀ a, x = .ok a → Ends kept refused (f a)) :
    Ends kept refused (x >>= f) := by
  cases found : x with
  | ok a => exact next a found
  | error r => exact raises r found

theorem endsImp {kept kept' refused refused' : Conn → Prop} {x : Handled} (ends : Ends kept refused x)
    (goesOn : ∀ c, kept c → kept' c) (closes : ∀ c, refused c → refused' c) : Ends kept' refused' x := by
  match x with
  | .ok (true,c) => exact goesOn c ends
  | .ok (false,c) => exact closes c ends
  | .error r => exact closes r.state ends

theorem settlesEnds {holds : Conn → Prop} {x : Handled} (settles : Outcome.Settles Prod.snd holds x) :
    Ends holds holds x := by
  match x with
  | .ok (true,c) => exact settles.returns _ rfl
  | .ok (false,c) => exact settles.returns _ rfl
  | .error r => exact settles.raises r rfl

theorem endsRecorded {kept refused : Conn → Prop} {x : Handled} (ends : Ends kept refused x)
    (recorded : ∀ c, refused c → refused (c.emit (.recorded "auth_failed"))) :
    Ends kept refused (do
      let (authOk,c) ← x
      .ok (authOk,if authOk then c else c.emit (.recorded "auth_failed"))) := by
  match x with
  | .ok (true,c) => exact ends
  | .ok (false,c) => exact recorded c ends
  | .error r => exact ends

theorem endsSettle {kept refused : Conn → Prop} {x : Handled} (ends : Ends kept refused x) :
    (∃ c, kept c ∧ settle x = { c with phase := .loop }) ∨ ∃ c, refused c ∧ settle x = c.close := by
  match x with
  | .ok (true,c) => exact .inl ⟨c,ends,rfl⟩
  | .ok (false,c) => exact .inr ⟨c,ends,rfl⟩
  | .error r => exact .inr ⟨r.state,ends,rfl⟩

variable [Env] [Channel]

omit [Env] [Channel] in
theorem hearStatusSteady (msgType data : Json) (c : Conn) : Outcome.Settles id (Steady c) (hearStatus msgType data c) := by
  unfold hearStatus recordHeight
  split
  · refine Outcome.settlesBind (fun r run => steadyRaise (fieldsOfRaises run)) (fun data _ => ?_)
    dsimp only
    split
    · exact Outcome.settlesOk ⟨⟨rfl,rfl,rfl,rfl,rfl,rfl⟩,writesPeer ..⟩
    · exact Outcome.settlesOk (.refl c)
  · exact Outcome.settlesOk (.refl c)

omit [Env] [Channel] in
theorem dispatchSteady (input : Incoming) (msgType data : Json) (c : Conn) :
    Outcome.Settles id (Steady c) (dispatch input msgType data c) := by
  refine Outcome.settlesBind (fun r run => steadyRaise (escapeRaises run)) (fun key run => ?_)
  split
  · exact Outcome.settlesOk (.refl c)
  · rename_i type handled
    have heard := (hearStatusSteady msgType data (c.emit (.handled type data c.peer.protocolVersion
      c.peer.authenticated))).imp (fun c' steady => (steadyEmit c rfl).trans steady)
    refine Outcome.settlesBind heard.raises (fun c' run => ?_)
    split
    · exact Outcome.settlesError (heard.returns c' run)
    · exact Outcome.settlesOk (heard.returns c' run)

theorem sessionKeySteady (node : P2PNode) (data : Json) (c : Conn) :
    Outcome.Settles id (Steady c) (handleSessionKey node data c) := by
  unfold handleSessionKey
  split
  · exact Outcome.settlesOk (.refl c)
  refine Outcome.settlesBind (fun r run => steadyRaise (fieldsOfRaises run)) (fun data _ => ?_)
  split
  · exact Outcome.settlesOk (.refl c)
  · dsimp only
    split
    · exact Outcome.settlesOk ⟨⟨rfl,rfl,rfl,rfl,rfl,rfl⟩,writesPeer ..⟩
    · exact Outcome.settlesOk ⟨⟨rfl,rfl,rfl,rfl,rfl,rfl⟩,writesPeer ..⟩

theorem processSteady (node : P2PNode) (input : Incoming) {msgType : Json} (data : Json) {c : Conn}
    (other : completes c msgType = false) :
    Outcome.Settles Prod.snd (Steady c) (process node input msgType data c) := by
  have heard := hearStatusSteady msgType data c
  refine Outcome.settlesBind heard.raises (fun c₁ status => ?_)
  have steady : Steady c c₁ := heard.returns c₁ status
  suffices rest : Outcome.Settles Prod.snd (Steady c₁) _ from rest.imp (fun c' later => steady.trans later)
  split
  · have keyed := sessionKeySteady node data c₁
    exact Outcome.settlesBind keyed.raises (fun c₂ run => Outcome.settlesOk (keyed.returns c₂ run))
  have same : completes c₁ msgType = false := by
    unfold completes at other ⊢
    rw [steady.carried.isInitiator]
    exact other
  rw [if_neg (by rw [same]; decide)]
  split
  · exact Outcome.settlesOk (.refl c₁)
  refine Outcome.settlesBind (fun r run => steadyRaise (escapeRaises run)) (fun key _ => ?_)
  refine Outcome.settlesBind (fun r run => steadyRaise (escapeRaises run)) (fun allowed _ => ?_)
  split
  · exact Outcome.settlesOk (.refl c₁)
  · have dispatched := dispatchSteady input msgType data c₁
    exact Outcome.settlesBind dispatched.raises (fun c₂ run => Outcome.settlesOk (dispatched.returns c₂ run))

def Refuses (c c' : Conn) : Prop := c'.peer.isInitiator = c.peer.isInitiator ∧ Writes c c' []

def Confirms (silent : Prop) (c c' : Conn) : Prop :=
  c'.peer.isInitiator = c.peer.isInitiator ∧
    ∃ sig more, Writes c c' (("auth_confirm",sig) :: more) ∧ (∀ row ∈ more, row.1 = "session_key") ∧
      (silent → more = [])

omit [Env] [Channel] in
theorem dedupSteady (node : P2PNode) (input : Incoming) (c : Conn) :
    (dedupConnection node input c).2.peer = c.peer ∧ Writes c (dedupConnection node input c).2 [] := by
  unfold dedupConnection
  split
  · exact ⟨rfl,.refl c⟩
  split
  · exact ⟨rfl,.refl c⟩
  split
  · exact ⟨rfl,writesEmit c rfl⟩
  · exact ⟨rfl,.refl c⟩

omit [Channel] in
theorem initiateWrites (node : P2PNode) (input : Incoming) (c : Conn) :
    (initiateEncryptedChannel node input c).peer.isInitiator = c.peer.isInitiator ∧
    ∃ more, Writes c (initiateEncryptedChannel node input c) more ∧ (∀ row ∈ more, row.1 = "session_key") ∧
      (node.hasEncryptionKeys = false ∨ c.peer.encryptionPk.bind input.encapsulate = none → more = []) := by
  unfold initiateEncryptedChannel
  split
  · exact ⟨rfl,[],.refl c,by simp,fun _ => rfl⟩
  rename_i keyed
  split
  · exact ⟨rfl,[],.refl c,by simp,fun _ => rfl⟩
  · rename_i ct sharedSecret found
    refine ⟨rfl,_,((writesPeer c _).trans (writesSend _ "session_key" _)).trans (writesPeer _ _),by simp,?_⟩
    rintro (unkeyed | none)
    · exact absurd unkeyed keyed
    · rw [found] at none
      cases none

def Switches (node : P2PNode) (silent : Prop) (fields : Message) (c c' : Conn) : Prop :=
  Confirms silent c c' ∧ ∃ version,
    pyMin (fields.get "protocol_version" (.int 1)) protocolVersion = .ok version ∧
    negotiate node version (fields.get "wire_format" (.str "json")) = .ok c'.peer.wireFormat

theorem completeResponseEnds (node : P2PNode) (input : Incoming) (data : Message) (responderPk : Bytes) (c : Conn) :
    let silent := node.hasEncryptionKeys = false ∨
      ((resolveEncryptionPk (data.get "encryption_pk" (.str ""))).or c.peer.encryptionPk).bind input.encapsulate = none
    Ends (Switches node silent data c) (fun c' => Refuses c c' ∨ Confirms silent c c')
      (completeResponse node input data responderPk c) := by
  intro silent
  have refused : Refuses c c := ⟨rfl,.refl c⟩
  unfold completeResponse
  split
  · exact .inl refused
  split
  · exact .inl refused
  rename_i counterSig _
  have sent := writesSend c "auth_confirm" [("challenge_sig",.str (hex counterSig))]
  dsimp only
  generalize c.send "auth_confirm" [("challenge_sig",.str (hex counterSig))] = confirmed at sent ⊢
  split
  · exact .inr ⟨rfl,_,[],sent,by simp,fun _ => rfl⟩
  · rename_i version versioned
    generalize told : checkValidatorStatus node (describe data version (authenticate responderPk c.peer)) = peer
    have kept : peer.isInitiator = c.peer.isInitiator ∧ peer.encryptionPk =
        (resolveEncryptionPk (data.get "encryption_pk" (.str ""))).or c.peer.encryptionPk := by
      rw [← told]
      unfold checkValidatorStatus
      split <;> exact ⟨rfl,rfl⟩
    obtain ⟨same,quiet⟩ := dedupSteady node input (confirmed.withPeer peer)
    have reached := (sent.trans (writesPeer confirmed peer)).trans quiet
    generalize dedupConnection node input (confirmed.withPeer peer) = deduped at same reached ⊢
    obtain ⟨close,kept'⟩ := deduped
    have initiator : kept'.peer.isInitiator = c.peer.isInitiator := (congrArg Peer.isInitiator same).trans kept.1
    cases close with
    | true => exact .inr ⟨initiator,_,[],reached,by simp,fun _ => rfl⟩
    | false =>
      obtain ⟨initiator',more,writes,keys,quieter⟩ := initiateWrites node input kept'
      have confirms : Confirms silent c (initiateEncryptedChannel node input kept') := by
        refine ⟨initiator'.trans initiator,_,more,reached.trans writes,keys,fun keeps => quieter ?_⟩
        rw [same]
        exact keeps.imp id (fun none => kept.2 ▸ none)
      dsimp only
      split
      · exact .inr confirms
      · rename_i wireFormat negotiated
        obtain ⟨initiator'',sig,more,writes,keys,quieter⟩ := confirms
        refine ⟨⟨initiator'',sig,more,?_,keys,quieter⟩,version,versioned,negotiated⟩
        simpa using writes.trans (writesPeer _ { (initiateEncryptedChannel node input kept').peer with wireFormat })

omit [Env] [Channel] in
theorem fieldsOfObj {c : Conn} {data : Json} {fields : Message} (run : fieldsOf c data = .ok fields) :
    data = .obj fields := by
  cases data <;> cases run
  rfl

omit [Channel] in
theorem checkedSteady (input : Incoming) (publicKey signature : Bytes) (c : Conn) :
    Steady c (checkChallenge input publicKey signature c).2 :=
  ⟨⟨rfl,rfl,rfl,rfl,rfl,rfl⟩,writesEmit c.clearChallenge rfl⟩

omit [Env] [Channel] in
theorem Steady.refuses {a b c : Conn} (first : Steady a b) (second : Refuses b c) : Refuses a c :=
  ⟨second.1.trans first.carried.isInitiator,first.writes.trans second.2⟩

omit [Env] [Channel] in
theorem Steady.confirms {silent : Prop} {a b c : Conn} (first : Steady a b) (second : Confirms silent b c) :
    Confirms silent a c := by
  obtain ⟨initiator,sig,more,writes,keys,quiet⟩ := second
  exact ⟨initiator.trans first.carried.isInitiator,sig,more,first.writes.trans writes,keys,quiet⟩

theorem authResponseEnds (node : P2PNode) (input : Incoming) (data : Json) (c : Conn) :
    let silent := node.hasEncryptionKeys = false ∨ (offeredKey c data).bind input.encapsulate = none
    Ends (fun c' => ∃ fields, data = .obj fields ∧ Switches node silent fields c c')
      (fun c' => Refuses c c' ∨ Confirms silent c c') (handleAuthResponse node input data c) := by
  intro silent
  have cleared : Refuses c c.clearChallenge := ⟨rfl,writesPeer ..⟩
  unfold handleAuthResponse
  split
  · exact .inl ⟨rfl,.refl c⟩
  split
  · exact .inl cleared
  refine endsBind (fun r run => .inl (fieldsOfRaises run ▸ ⟨rfl,.refl _⟩)) (fun fields run => ?_)
  obtain rfl := fieldsOfObj run
  split
  · rename_i responderPk challengeSig _ _
    have steady := checkedSteady input responderPk challengeSig c
    have key : (checkChallenge input responderPk challengeSig c).2.peer.encryptionPk = c.peer.encryptionPk := rfl
    generalize checkChallenge input responderPk challengeSig c = checked at steady key ⊢
    obtain ⟨valid,verified⟩ := checked
    cases valid with
    | false => exact .inl (steady.refuses ⟨rfl,.refl _⟩)
    | true =>
      have ends := completeResponseEnds node input fields responderPk verified
      dsimp only at steady key ends
      rw [key] at ends
      refine endsImp ends (fun c' switches => ?_) (fun c' more => more.imp steady.refuses steady.confirms)
      exact ⟨fields,rfl,steady.confirms switches.1,switches.2⟩
  · exact .inl cleared

structure Completed (node : P2PNode) (c c' : Conn) : Prop where
  known : c.peer.remotePubkey ≠ []
  isInitiator : c'.peer.isInitiator = c.peer.isInitiator
  authenticated : c'.peer.authenticated = true
  remotePubkey : c'.peer.remotePubkey = c.peer.remotePubkey
  protocolVersion : c'.peer.protocolVersion = c.peer.protocolVersion
  pendingWireFormat : c'.peer.pendingWireFormat = c.peer.pendingWireFormat
  negotiated : negotiate node c.peer.protocolVersion c.peer.pendingWireFormat = .ok c'.peer.wireFormat

omit [Channel] in
theorem completeConfirmEnds (node : P2PNode) (input : Incoming) {c : Conn} (known : c.peer.remotePubkey ≠ []) :
    Ends (fun c' => Completed node c c' ∧ Writes c c' []) (fun c' => Writes c c' []) (completeConfirm node input c) := by
  unfold completeConfirm
  dsimp only
  split
  · exact writesPeer ..
  · rename_i wireFormat negotiated
    generalize told : checkValidatorStatus node { authenticate c.peer.remotePubkey c.peer with wireFormat } = peer
    have kept : Completed node c (c.withPeer peer) := by
      rw [← told]
      unfold checkValidatorStatus
      split <;> exact ⟨known,rfl,rfl,rfl,rfl,rfl,negotiated⟩
    obtain ⟨same,quiet⟩ := dedupSteady node input (c.withPeer peer)
    have reached := (writesPeer c peer).trans quiet
    generalize dedupConnection node input (c.withPeer peer) = deduped at same reached ⊢
    obtain ⟨close,kept'⟩ := deduped
    cases close with
    | true => exact reached
    | false =>
      obtain ⟨k,i,a,r,p,w,n⟩ := kept
      have peer' : kept'.peer = peer := same
      exact ⟨⟨k,peer' ▸ i,peer' ▸ a,peer' ▸ r,peer' ▸ p,peer' ▸ w,peer' ▸ n⟩,reached⟩

omit [Channel] in
theorem authConfirmEnds (node : P2PNode) (input : Incoming) (data : Json) (c : Conn) :
    Ends (fun c' => Completed node c c' ∧ Writes c c' []) (fun c' => Writes c c' [])
      (handleAuthConfirm node input data c) := by
  have cleared : Writes c c.clearChallenge [] := writesPeer ..
  unfold handleAuthConfirm
  split
  · exact Writes.refl c
  split
  · exact cleared
  rename_i known
  split
  · exact cleared
  refine endsBind (fun r run => fieldsOfRaises run ▸ .refl _) (fun fields run => ?_)
  split
  · exact cleared
  · rename_i challengeSig _
    have steady := checkedSteady input c.peer.remotePubkey challengeSig c
    generalize checkChallenge input c.peer.remotePubkey challengeSig c = checked at steady ⊢
    obtain ⟨valid,verified⟩ := checked
    cases valid with
    | false => exact steady.writes.trans (writesPeer ..)
    | true =>
      dsimp only at steady ⊢
      have known' : verified.peer.remotePubkey ≠ [] := steady.carried.remotePubkey ▸ known
      refine endsImp (completeConfirmEnds node input known') ?_ (fun c' writes => steady.writes.trans writes)
      rintro c' ⟨⟨k,i,a,r,p,w,n⟩,writes⟩
      obtain ⟨-,i',-,r',p',w'⟩ := steady.carried
      rw [p',w'] at n
      exact ⟨⟨known,i.trans i',a,r.trans r',p.trans p',w.trans w',n⟩,steady.writes.trans writes⟩

structure Answered (node : P2PNode) (fields : Message) (c c' : Conn) : Prop where
  wireFormat : c'.peer.wireFormat = c.peer.wireFormat
  isInitiator : c'.peer.isInitiator = c.peer.isInitiator
  authenticated : c'.peer.authenticated = c.peer.authenticated
  known : c'.peer.remotePubkey ≠ []
  protocolVersion : pyMin (fields.get "protocol_version" (.int 1)) protocolVersion = .ok c'.peer.protocolVersion
  pendingWireFormat : c'.peer.pendingWireFormat = fields.get "wire_format" (.str "json")
  writes : ∃ sig counter, Writes c c' [("auth_response",.obj (authResponse node sig counter))]

omit [Channel] in
theorem claimKnown {time : Rat} {data : Message} {version : Json} {challenge publicKey : Bytes}
    (run : helloAuthClaim time data = .ok (some (version,challenge,publicKey))) :
    publicKey ≠ [] ∧ pyMin (data.get "protocol_version" (.int 1)) protocolVersion = .ok version := by
  unfold helloAuthClaim at run
  simp only [bind,Except.bind,pure,Except.pure] at run
  split at run <;> try cases run
  split at run <;> try cases run
  split at run <;> try cases run
  split at run <;> try cases run
  split at run <;> try cases run
  split at run <;> try cases run
  rename_i peerPk resolved
  split at run <;> try cases run
  split at run <;> try cases run
  split at run <;> try (cases run; done)
  rename_i versioned
  cases run
  rw [resolvePeerPubkey,Option.filter_eq_some_iff] at resolved
  refine ⟨fun empty => ?_,versioned⟩
  have sized := of_decide_eq_true resolved.2
  rw [empty] at sized
  exact absurd sized (by decide)

theorem helloAuthEnds (node : P2PNode) (input : Incoming) (data : Message) (c : Conn) :
    Ends (Answered node data c) (fun c' => Writes c c' []) (handleHelloAuthInbound node input data c) := by
  unfold handleHelloAuthInbound
  split
  · exact Writes.refl c
  split
  · exact Writes.refl c
  · exact Writes.refl c
  · rename_i version peerChallenge peerPk claimed
    obtain ⟨known,versioned⟩ := claimKnown claimed
    dsimp only
    split
    · exact writesPeer ..
    · rename_i challengeSig _
      refine ⟨rfl,rfl,rfl,known,versioned,rfl,challengeSig,input.urandom,?_⟩
      exact ((writesPeer c _).trans (writesEmit _ rfl)).trans (writesSend ..)

omit [Env] [Channel] in
def Plainly (c c' : Conn) : Prop :=
  c'.peer.wireFormat = c.peer.wireFormat ∧ c'.peer.isInitiator = c.peer.isInitiator ∧
    c'.peer.authenticated = c.peer.authenticated ∧ c'.peer.remotePubkey = c.peer.remotePubkey ∧
    (Writes c c' [] ∨ ∃ data, Writes c c' [("hello",data)])

omit [Env] [Channel] in
theorem setPortSteady (c : Conn) (port : Json) : Steady c (c.setPort port) := by
  unfold Conn.setPort
  split
  · exact ⟨⟨rfl,rfl,rfl,rfl,rfl,rfl⟩,writesPeer ..⟩
  · exact .refl c

def Holds (input : Incoming) (type : String) (data : Json) : Prop :=
  input.received = .value (.obj [("type",.str type),("data",data)])

omit [Env] [Channel] in
theorem Steady.plainly {c c' : Conn} (steady : Steady c c') : Plainly c c' := by
  obtain ⟨⟨w,i,a,r,-,-⟩,writes⟩ := steady
  exact ⟨w,i,a,r,.inl writes⟩

theorem firstEnds (node : P2PNode) {input : Incoming} {type : String} {data : Json} (holds : Holds input type data)
    (c : Conn) :
    Ends (fun c' => Plainly c c' ∨ type = "hello_auth" ∧ ∃ fields, data = .obj fields ∧ Answered node fields c c')
      (fun c' => Plainly c c' ∨ Writes c c' []) (onFirst node input c) := by
  have unread : Plainly c c ∨ Writes c c [] := .inr (.refl c)
  have dispatched : ∀ c₁ : Conn, Plainly c c₁ →
      Ends (Plainly c) (fun c' => Plainly c c' ∨ Writes c c' []) (do
        let c ← dispatch input (.str type) data c₁
        .ok (true,c)) := by
    intro c₁ plainly
    have steady := dispatchSteady input (.str type) data c₁
    have after : ∀ c₂, Steady c₁ c₂ → Plainly c c₂ := by
      rintro c₂ ⟨⟨w,i,a,r,-,-⟩,writes⟩
      obtain ⟨w',i',a',r',written⟩ := plainly
      refine ⟨w.trans w',i.trans i',a.trans a',r.trans r',written.imp ?_ ?_⟩
      · exact fun before => before.trans writes
      · rintro ⟨message,before⟩
        exact ⟨message,by simpa using before.trans writes⟩
    exact endsBind (fun r run => .inl (after _ (steady.raises r run))) (fun c₂ run => after _ (steady.returns c₂ run))
  unfold onFirst
  rw [show input.received = _ from holds]
  refine endsBind (fun r run => by cases run) (fun message opened => ?_)
  cases opened
  dsimp only
  rw [show Message.get [("type",.str type),("data",data)] "type" (.str "") = .str type from rfl,
    show Message.get [("type",.str type),("data",data)] "data" (.obj []) = data from rfl]
  have raised : ∀ r, fieldsOf c data = .error r → Plainly c r.state ∨ Writes c r.state [] :=
    fun r run => by rw [fieldsOfRaises run]; exact unread
  split
  · rename_i hello
    obtain rfl : type = "hello_auth" := Json.str.inj (Json.equalStr hello)
    split
    · exact unread
    refine endsBind raised (fun fields opened => ?_)
    have moved := setPortSteady c (fields.get "port" (.int 0))
    have answers := helloAuthEnds node input fields (c.setPort (fields.get "port" (.int 0)))
    generalize handleHelloAuthInbound node input fields (c.setPort (fields.get "port" (.int 0))) = answer at answers ⊢
    match answer with
    | .error r => exact .inr (moved.writes.trans answers)
    | .ok (false,c') => exact .inr ((moved.writes.trans answers).trans (writesEmit _ rfl))
    | .ok (true,c') =>
      obtain ⟨w,i,a,k,p,f,sig,counter,writes⟩ := answers
      exact .inr ⟨rfl,fields,fieldsOfObj opened,w.trans moved.carried.wireFormat,i.trans moved.carried.isInitiator,
        a.trans moved.carried.authenticated,k,p,f,sig,counter,moved.writes.trans writes⟩
  split
  · refine endsBind raised (fun fields _ => ?_)
    refine endsImp (dispatched _ ?_) (fun c' plainly => .inl plainly) (fun c' => id)
    have moved := setPortSteady (c.withPeer { c.peer with
      nodeId := fields.get "node_id" (.str ""), protocolVersion := .int 1 }) (fields.get "port" (.int 0))
    obtain ⟨⟨w,i,a,r,-,-⟩,writes⟩ := moved
    exact ⟨w,i,a,r,.inr ⟨_,((writesPeer c _).trans writes).trans (writesSend _ "hello" _)⟩⟩
  · exact endsImp (dispatched c (Steady.refl c).plainly) (fun c' plainly => .inl plainly) (fun c' => id)

theorem messageSteady (node : P2PNode) {input : Incoming} {type : String} {data : Json} (holds : Holds input type data)
    {c : Conn} (other : completes c (.str type) = false)
    (inner : type = "encrypted" → ∀ inner innerData, decryptMessage data c = .ok (some (inner,innerData)) →
      completes c inner = false) :
    Ends (Steady c) (Steady c) (onMessage node input c) := by
  unfold onMessage
  rw [show input.received = _ from holds]
  refine endsBind (fun r run => by cases run) (fun message opened => ?_)
  cases opened
  dsimp only
  rw [show Message.get [("type",.str type),("data",data)] "type" (.str "") = .str type from rfl,
    show Message.get [("type",.str type),("data",data)] "data" (.obj []) = data from rfl]
  refine endsBind (fun r run => steadyRaise (escapeRaises run)) (fun key _ => ?_)
  split
  · split
    · exact steadyEmit c rfl
    · exact Steady.refl c
  split
  · rename_i enveloped
    obtain rfl : type = "encrypted" := Json.str.inj (Json.equalStr enveloped)
    refine endsBind (fun r run => steadyRaise (decryptRaises run)) (fun opened decrypted => ?_)
    split
    · exact Steady.refl c
    · exact settlesEnds (processSteady node input _ (inner rfl _ _ decrypted))
  · exact settlesEnds (processSteady node input _ other)

theorem messageCompletes (node : P2PNode) {input : Incoming} {type : String} {data : Json}
    (holds : Holds input type data) {c : Conn}
    (completing : type = if c.peer.isInitiator then "auth_response" else "auth_confirm") :
    onMessage node input c = (do
      let (authOk,c) ← complete node input data c
      .ok (authOk,if authOk then c else c.emit (.recorded "auth_failed"))) := by
  have exempt : ¬∀ key ∈ some type, key ∉ rateExempt := by
    rw [completing]
    cases c.peer.isInitiator <;> decide
  have clear : (Json.str type).equal (.str "encrypted") = false := by
    rw [completing]
    cases c.peer.isInitiator <;> decide
  unfold onMessage
  rw [show input.received = _ from holds,← processCompletes node input data completing]
  simp only [fieldsOf,bind,Except.bind]
  rw [show Message.get [("type",.str type),("data",data)] "type" (.str "") = .str type from rfl,
    show Message.get [("type",.str type),("data",data)] "data" (.obj []) = data from rfl]
  simp only [Json.tableKey,escape,exempt,false_and,if_false,clear,Bool.false_eq_true]

omit [Env] [Channel] in
theorem steadyPhase {c c' : Conn} (steady : Steady c c') : Steady c { c' with phase := .loop } ∧ Steady c c'.close := by
  obtain ⟨⟨w,i,a,r,p,f⟩,writes⟩ := steady
  exact ⟨⟨⟨w,i,a,r,p,f⟩,writes⟩,⟨⟨w,i,a,r,p,f⟩,writes⟩⟩

theorem stepSteady (node : P2PNode) {input : Incoming} {type : String} {data : Json} (holds : Holds input type data)
    {c : Conn} (looping : c.phase = .loop) (other : completes c (.str type) = false)
    (inner : type = "encrypted" → ∀ inner innerData, decryptMessage data c = .ok (some (inner,innerData)) →
      completes c inner = false) :
    Steady c (step node c input) ∧ (step node c input).phase ≠ .first := by
  rw [step,looping]
  dsimp only
  rcases endsSettle (messageSteady node holds other inner) with ⟨c',steady,made⟩ | ⟨c',steady,made⟩ <;> rw [made]
  · exact ⟨(steadyPhase steady).1,by simp⟩
  · exact ⟨(steadyPhase steady).2,by simp [Conn.close]⟩

theorem stepResponse (node : P2PNode) {input : Incoming} {data : Json} (holds : Holds input "auth_response" data)
    {c : Conn} (looping : c.phase = .loop) (initiator : c.peer.isInitiator = true) :
    let silent := node.hasEncryptionKeys = false ∨ (offeredKey c data).bind input.encapsulate = none
    (∃ fields, data = .obj fields ∧ Switches node silent fields c (step node c input) ∧
        (step node c input).phase = .loop) ∨
      (Refuses c (step node c input) ∨ Confirms silent c (step node c input)) ∧ (step node c input).phase = .closed := by
  intro silent
  have ends := authResponseEnds node input data c
  have completed : Ends (fun c' => ∃ fields, data = .obj fields ∧ Switches node silent fields c c')
      (fun c' => Refuses c c' ∨ Confirms silent c c') (onMessage node input c) := by
    rw [messageCompletes node holds (by rw [initiator]; rfl),complete,if_pos initiator]
    refine endsRecorded ends (fun c' left => ?_)
    rcases left with ⟨same,writes⟩ | ⟨same,sig,more,writes,keys,quiet⟩
    · exact .inl ⟨same,writes.trans (writesEmit _ rfl)⟩
    · exact .inr ⟨same,sig,more,by simpa using writes.trans (writesEmit _ rfl),keys,quiet⟩
  rw [step,looping]
  dsimp only
  rcases endsSettle completed with ⟨c',⟨fields,object,confirms,version⟩,made⟩ | ⟨c',left,made⟩ <;> rw [made]
  · exact .inl ⟨fields,object,⟨confirms,version⟩,rfl⟩
  · exact .inr ⟨left,rfl⟩

theorem stepConfirm (node : P2PNode) {input : Incoming} {data : Json} (holds : Holds input "auth_confirm" data)
    {c : Conn} (looping : c.phase = .loop) (responder : c.peer.isInitiator = false) :
    Writes c (step node c input) [] ∧ (Completed node c (step node c input) ∧ (step node c input).phase = .loop ∨
      (step node c input).phase = .closed) := by
  have ends := authConfirmEnds node input data c
  have completed : Ends (fun c' => Completed node c c' ∧ Writes c c' []) (fun c' => Writes c c' [])
      (onMessage node input c) := by
    rw [messageCompletes node holds (by rw [responder]; rfl),complete,if_neg (by rw [responder]; decide)]
    exact endsRecorded ends (fun c' writes => writes.trans (writesEmit _ rfl))
  rw [step,looping]
  dsimp only
  rcases endsSettle completed with ⟨c',⟨done,writes⟩,made⟩ | ⟨c',writes,made⟩ <;> rw [made]
  · obtain ⟨k,i,a,r,p,w,n⟩ := done
    exact ⟨writes,.inl ⟨⟨k,i,a,r,p,w,n⟩,rfl⟩⟩
  · exact ⟨writes,.inr rfl⟩

theorem stepFirst (node : P2PNode) {input : Incoming} {type : String} {data : Json} (holds : Holds input type data)
    {c : Conn} (opening : c.phase = .first) :
    (Plainly c (step node c input) ∨
        type = "hello_auth" ∧ ∃ fields, data = .obj fields ∧ Answered node fields c (step node c input)) ∧
      (step node c input).phase = .loop ∨
    (Plainly c (step node c input) ∨ Writes c (step node c input) []) ∧ (step node c input).phase = .closed := by
  rw [step,opening]
  dsimp only
  rcases endsSettle (firstEnds node holds c) with ⟨c',reached,made⟩ | ⟨c',left,made⟩ <;> rw [made]
  · refine .inl ⟨reached.imp id ?_,rfl⟩
    rintro ⟨named,fields,object,w,i,a,k,p,f,writes⟩
    exact ⟨named,fields,object,w,i,a,k,p,f,writes⟩
  · exact .inr ⟨left,rfl⟩

end Steps

section Links
open Switching

def agreed (a b : P2PNode) : String := if a.hasMsgpack && b.hasMsgpack then "msgpack" else "json"

def after (turn format : String) (f : String) (frame : Frame) : String :=
  if frame.msgType = turn then format else f

def fits (f : String) (frame : Frame) : Prop := frame.format = f

def Tells (node : P2PNode) (data : Json) : Prop :=
  ∃ fields, data = .obj fields ∧ Message.get fields "protocol_version" (.int 1) = .int protocolVersion ∧
    Message.get fields "wire_format" (.str "json") = .str node.preferredWireFormat

variable [Env] [Channel] [Sealer]

def Genuine (node : P2PNode) (opening : String) (frame : Frame) : Prop :=
  (frame.msgType = opening → Tells node frame.data) ∧
    (frame.msgType = "encrypted" → ∀ (c : Conn) (inner innerData : Json),
      decryptMessage frame.data c = .ok (some (inner,innerData)) → ∃ type, inner = .str type ∧ type ∉ rateExempt)

omit [Env] [Channel] [Sealer] in
theorem negotiateAgreed (node other : P2PNode) :
    negotiate node (.int protocolVersion) (.str other.preferredWireFormat) = .ok (agreed node other) := by
  have version : (Json.int protocolVersion).less (.int 4) = .ok false := by decide
  unfold negotiate agreed P2PNode.preferredWireFormat
  rw [version]
  cases node.hasMsgpack <;> cases other.hasMsgpack <;> rfl

omit [Env] [Channel] [Sealer] in
theorem agreedComm (a b : P2PNode) : agreed a b = agreed b a := by
  unfold agreed
  rw [Bool.and_comm]

omit [Env] [Channel] [Sealer] in
theorem versionKept : pyMin (.int protocolVersion) protocolVersion = .ok (.int protocolVersion) := rfl

omit [Env] in
theorem encodeGenuine (opens : Opens) (c : Conn) {message : Outgoing} (plain : message.msgType ∉ rateExempt)
    (node : P2PNode) (opening : String) (exempt : opening ∈ rateExempt) (clear : opening ≠ "encrypted") :
    Genuine node opening (encode c message) ∧ (encode c message).format = c.peer.wireFormat ∧
      ∀ turn ∈ rateExempt, turn ≠ "encrypted" → (encode c message).msgType ≠ turn := by
  unfold encode
  split
  · rename_i key _ _
    refine ⟨⟨fun same => absurd same.symm clear,fun _ receiver inner innerData decrypted => ?_⟩,rfl,
      fun turn _ other same => other same.symm⟩
    unfold decryptMessage at decrypted
    split at decrypted
    · cases decrypted
    · rename_i key' _
      simp only [fieldsOf,bind,Except.bind] at decrypted
      rw [show Message.get [("data",Json.str (hex (Sealer.sealText key message.msgType message.data)))] "data" (.str "") =
        .str (hex (Sealer.sealText key message.msgType message.data)) from rfl] at decrypted
      have text : hexOf (.str (hex (Sealer.sealText key message.msgType message.data))) =
          some (Sealer.sealText key message.msgType message.data) := by
        simp only [hexOf,Json.fromHexValue,Json.fromHexHex]
      rw [text] at decrypted
      rcases opens key key' message.msgType message.data with none | opened
      · rw [Option.bind_some,none] at decrypted
        cases decrypted
      · rw [Option.bind_some,opened] at decrypted
        cases decrypted
        exact ⟨message.msgType,rfl,plain⟩
  · have unlisted : ∀ turn ∈ rateExempt, message.msgType ≠ turn := by
      rintro turn listed rfl
      exact plain listed
    exact ⟨⟨fun same => absurd same (unlisted _ exempt),fun same => absurd same (unlisted _ (by decide))⟩,rfl,
      fun turn listed _ => unlisted turn listed⟩

structure InitiatorKept (a b : P2PNode) (c : Conn) : Prop where
  looping : c.phase = .loop
  isInitiator : c.peer.isInitiator = true
  wireFormat : c.peer.wireFormat = "json" ∨ c.peer.wireFormat = agreed a b

structure ResponderKept (a b : P2PNode) (c : Conn) : Prop where
  isInitiator : c.peer.isInitiator = false
  first : c.phase = .first → c.peer.remotePubkey = [] ∧ c.peer.authenticated = false
  remembers : c.peer.remotePubkey ≠ [] →
    c.peer.protocolVersion = .int protocolVersion ∧ c.peer.pendingWireFormat = .str a.preferredWireFormat
  before : c.peer.authenticated = false → c.peer.wireFormat = "json"
  behind : c.peer.authenticated = true → c.peer.remotePubkey ≠ [] ∧ c.peer.wireFormat = agreed a b

def answering (a b : P2PNode) (c : Conn) : String := if c.peer.remotePubkey = [] then c.peer.wireFormat else agreed a b

structure Aligned (a b : P2PNode) (link : Link) : Prop where
  initiator : link.initiator.phase ≠ .closed → InitiatorKept a b link.initiator
  responder : link.responder.phase ≠ .closed → ResponderKept a b link.responder
  genuineResponder : ∀ frame ∈ link.toResponder, Genuine a "hello_auth" frame
  genuineInitiator : ∀ frame ∈ link.toInitiator, Genuine b "auth_response" frame
  toResponder : link.responder.phase ≠ .closed →
    Readable (after "auth_confirm" (agreed a b)) fits link.responder.peer.wireFormat link.toResponder ∧
    (link.initiator.phase ≠ .closed →
      link.toResponder.foldl (after "auth_confirm" (agreed a b)) link.responder.peer.wireFormat =
        link.initiator.peer.wireFormat)
  toInitiator : link.initiator.phase ≠ .closed →
    Readable (after "auth_response" (agreed a b)) fits link.initiator.peer.wireFormat link.toInitiator ∧
    (link.responder.phase ≠ .closed →
      link.toInitiator.foldl (after "auth_response" (agreed a b)) link.initiator.peer.wireFormat =
        answering a b link.responder)
  untold : link.responder.phase = .first →
    (∀ frame ∈ link.toResponder, frame.msgType ≠ "auth_confirm") ∧
      ∀ frame ∈ link.toInitiator, frame.msgType ≠ "auth_response"
  reads : InStep link

omit [Env] [Channel] in
theorem writtenBy {c c' : Conn} {messages : List (String × Json)} (writes : Writes c c' messages)
    (during : Nat → List Outgoing) : written c c' during = interleave c during 0 messages := by
  obtain ⟨events,made,sent⟩ := writes
  rw [written,made,List.drop_left]
  exact congrArg _ sent

omit [Env] [Channel] [Sealer] in
theorem appendFrame {turn format f : String} {queue : List Frame} {frame : Frame}
    (readable : Readable (after turn format) fits f queue)
    (fitting : frame.format = queue.foldl (after turn format) f) :
    Readable (after turn format) fits f (queue ++ [frame]) ∧
      (queue ++ [frame]).foldl (after turn format) f = after turn format (queue.foldl (after turn format) f) frame :=
  ⟨(readableAppend ..).mpr ⟨readable,fitting,trivial⟩,by rw [List.foldl_append]; rfl⟩

omit [Env] [Channel] [Sealer] in
theorem appended {holds : Frame → Prop} {queue : List Frame} {frame : Frame} (all : ∀ f ∈ queue, holds f)
    (last : holds frame) : ∀ f ∈ queue ++ [frame], holds f := by
  intro f inside
  rcases List.mem_append.mp inside with inside | inside
  · exact all f inside
  · exact List.mem_singleton.mp inside ▸ last

theorem sendInitiatorAligned {a b : P2PNode} (opens : Opens) {link : Link} (aligned : Aligned a b link)
    {message : Outgoing} (plain : message.msgType ∉ rateExempt) :
    Aligned a b (link.act a b (.sendInitiator message)) := by
  simp only [Link.act]
  split
  · exact aligned
  rename_i running
  obtain ⟨genuine,format,clear⟩ := encodeGenuine opens link.initiator plain a "hello_auth" (by decide) (by decide)
  have other := clear "auth_confirm" (by decide) (by decide)
  refine ⟨aligned.initiator,aligned.responder,?_,aligned.genuineInitiator,fun open' => ?_,aligned.toInitiator,
    fun first => ⟨?_,(aligned.untold first).2⟩,aligned.reads⟩
  · exact appended aligned.genuineResponder genuine
  · obtain ⟨readable,ending⟩ := aligned.toResponder open'
    have final := ending running
    obtain ⟨readable',final'⟩ := appendFrame readable (format.trans final.symm)
    refine ⟨readable',fun _ => ?_⟩
    rw [final',after,if_neg other]
    exact final
  · exact appended (aligned.untold first).1 other

theorem sendResponderAligned {a b : P2PNode} (opens : Opens) {link : Link} (aligned : Aligned a b link)
    {message : Outgoing} (plain : message.msgType ∉ rateExempt) (met : Spaced a b link (.sendResponder message)) :
    Aligned a b (link.act a b (.sendResponder message)) := by
  simp only [Link.act]
  split
  · exact aligned
  rename_i running
  obtain ⟨genuine,format,clear⟩ := encodeGenuine opens link.responder plain b "auth_response" (by decide) (by decide)
  have other := clear "auth_response" (by decide) (by decide)
  have kept := aligned.responder running
  have speaks : link.responder.peer.wireFormat = answering a b link.responder := by
    unfold answering
    split
    · rfl
    rename_i known
    cases authenticated : link.responder.peer.authenticated with
    | true => exact (kept.behind authenticated).2
    | false =>
      rw [kept.before authenticated,agreed]
      split
      · rename_i both
        rw [Bool.and_eq_true] at both
        exact absurd ⟨known,authenticated⟩ (met both.1 both.2)
      · rfl
  refine ⟨aligned.initiator,aligned.responder,aligned.genuineResponder,?_,aligned.toResponder,fun open' => ?_,
    fun first => ⟨(aligned.untold first).1,?_⟩,aligned.reads⟩
  · exact appended aligned.genuineInitiator genuine
  · obtain ⟨readable,ending⟩ := aligned.toInitiator open'
    have final := ending running
    obtain ⟨readable',final'⟩ := appendFrame readable ((format.trans speaks).trans final.symm)
    refine ⟨readable',fun _ => ?_⟩
    rw [final',after,if_neg other]
    exact final
  · exact appended (aligned.untold first).2 other

omit [Env] [Channel] [Sealer] in
theorem completesStr (c : Conn) (type : String) :
    completes c (.str type) = (type == if c.peer.isInitiator then "auth_response" else "auth_confirm") := by
  unfold completes
  rw [Json.equal]

omit [Env] [Channel] [Sealer] in
theorem completesExempt (c : Conn) {type : String} (other : type ∉ rateExempt) : completes c (.str type) = false := by
  rw [completesStr,beq_eq_false_iff_ne]
  rintro rfl
  revert other
  cases c.peer.isInitiator <;> decide

omit [Env] [Sealer] in
theorem sealedOther {node : P2PNode} {opening : String} {frame : Frame} (genuine : Genuine node opening frame)
    (c : Conn) (enveloped : frame.msgType = "encrypted") (inner innerData : Json)
    (decrypted : decryptMessage frame.data c = .ok (some (inner,innerData))) : completes c inner = false := by
  obtain ⟨type,rfl,other⟩ := genuine.2 enveloped c inner innerData decrypted
  exact completesExempt c other

structure Heard (a b : P2PNode) (frame : Frame) (c c' : Conn) : Prop where
  kept : c'.phase ≠ .closed → ResponderKept a b c' ∧
    c'.peer.wireFormat = after "auth_confirm" (agreed a b) c.peer.wireFormat frame
  opened : c'.phase ≠ .first
  writes : Writes c c' [] ∧ (c'.phase ≠ .closed → answering a b c' = answering a b c) ∨
    ∃ msgType data, Writes c c' [(msgType,data)] ∧ answering a b c = c.peer.wireFormat ∧
      Genuine b "auth_response" ⟨c.peer.wireFormat,msgType,data⟩ ∧
      (c'.phase ≠ .closed →
        answering a b c' = after "auth_response" (agreed a b) c.peer.wireFormat ⟨c.peer.wireFormat,msgType,data⟩)

omit [Env] [Channel] [Sealer] in
theorem ResponderKept.carry {a b : P2PNode} {c c' : Conn} (kept : ResponderKept a b c)
    (isInitiator : c'.peer.isInitiator = c.peer.isInitiator) (authenticated : c'.peer.authenticated = c.peer.authenticated)
    (remotePubkey : c'.peer.remotePubkey = c.peer.remotePubkey) (wireFormat : c'.peer.wireFormat = c.peer.wireFormat)
    (told : c.peer.remotePubkey ≠ [] → c'.peer.protocolVersion = c.peer.protocolVersion ∧
      c'.peer.pendingWireFormat = c.peer.pendingWireFormat)
    (opened : c'.phase ≠ .first) : ResponderKept a b c' := by
  refine ⟨isInitiator.trans kept.isInitiator,fun first => absurd first opened,fun known => ?_,fun un => ?_,fun au => ?_⟩
  · rw [remotePubkey] at known
    obtain ⟨version,pending⟩ := told known
    obtain ⟨version',pending'⟩ := kept.remembers known
    exact ⟨version.trans version',pending.trans pending'⟩
  · exact wireFormat.trans (kept.before (authenticated.symm.trans un))
  · obtain ⟨known,final⟩ := kept.behind (authenticated.symm.trans au)
    exact ⟨remotePubkey ▸ known,wireFormat.trans final⟩

omit [Env] [Channel] [Sealer] in
theorem answeringSame {a b : P2PNode} {c c' : Conn} (wireFormat : c'.peer.wireFormat = c.peer.wireFormat)
    (remotePubkey : c'.peer.remotePubkey = c.peer.remotePubkey) : answering a b c' = answering a b c := by
  unfold answering
  rw [wireFormat,remotePubkey]

omit [Env] [Sealer] in
theorem plainlyWrites {a b : P2PNode} {c c' : Conn} (unknown : c.peer.remotePubkey = []) (plainly : Plainly c c') :
    Writes c c' [] ∧ (c'.phase ≠ .closed → answering a b c' = answering a b c) ∨
    ∃ msgType data, Writes c c' [(msgType,data)] ∧ answering a b c = c.peer.wireFormat ∧
      Genuine b "auth_response" ⟨c.peer.wireFormat,msgType,data⟩ ∧
      (c'.phase ≠ .closed →
        answering a b c' = after "auth_response" (agreed a b) c.peer.wireFormat ⟨c.peer.wireFormat,msgType,data⟩) := by
  obtain ⟨w,i,au,r,quiet | ⟨data,writes⟩⟩ := plainly
  · exact .inl ⟨quiet,fun _ => answeringSame w r⟩
  · have before : answering a b c = c.peer.wireFormat := if_pos unknown
    refine .inr ⟨"hello",data,writes,before,⟨fun same => absurd same (by simp),fun same => absurd same (by simp)⟩,?_⟩
    intro _
    rw [answeringSame w r,before,after,if_neg (by simp)]

omit [Env] [Sealer] in
theorem respondsGenuine (b : P2PNode) (sig counter : Bytes) (format : String) :
    Genuine b "auth_response" ⟨format,"auth_response",.obj (authResponse b sig counter)⟩ :=
  ⟨fun _ => ⟨_,rfl,rfl,rfl⟩,fun same => absurd same (by simp)⟩

omit [Sealer] in
theorem firstHeard {a b : P2PNode} {c : Conn} (kept : ResponderKept a b c) (opening : c.phase = .first)
    {frame : Frame} (genuine : Genuine a "hello_auth" frame) (untold : frame.msgType ≠ "auth_confirm")
    {input : Incoming} (holds : Holds input frame.msgType frame.data) : Heard a b frame c (step b c input) := by
  obtain ⟨unknown,unauthenticated⟩ := kept.first opening
  have still : after "auth_confirm" (agreed a b) c.peer.wireFormat frame = c.peer.wireFormat := if_neg untold
  rcases stepFirst b holds opening with ⟨plainly | ⟨named,fields,object,answered⟩,looping⟩ | ⟨left,closed⟩
  · have open' : (step b c input).phase ≠ .first := by rw [looping]; decide
    obtain ⟨w,i,au,r,-⟩ := id plainly
    exact ⟨fun _ => ⟨kept.carry i au r w (fun known => absurd unknown known) open',w.trans still.symm⟩,open',
      plainlyWrites unknown plainly⟩
  · have open' : (step b c input).phase ≠ .first := by rw [looping]; decide
    obtain ⟨w,i,au,known,version,pending,sig,counter,writes⟩ := answered
    obtain ⟨fields',object',versioned,formatted⟩ := genuine.1 named
    obtain rfl : fields = fields' := Json.obj.inj (object.symm.trans object')
    rw [versioned,versionKept] at version
    have json := kept.before unauthenticated
    refine ⟨fun _ => ⟨⟨i.trans kept.isInitiator,fun first => absurd first open',fun _ => ?_,fun _ => w.trans json,?_⟩,
      w.trans still.symm⟩,open',.inr ⟨_,_,writes,if_pos unknown,respondsGenuine b sig counter _,fun _ => ?_⟩⟩
    · exact ⟨(Except.ok.inj version).symm,pending.trans formatted⟩
    · intro authenticated
      rw [au,unauthenticated] at authenticated
      cases authenticated
    · rw [answering,if_neg known,after,if_pos rfl]
  · have open' : (step b c input).phase ≠ .first := by rw [closed]; decide
    refine ⟨fun running => absurd closed running,open',?_⟩
    rcases left with plainly | quiet
    · exact plainlyWrites unknown plainly
    · exact .inl ⟨quiet,fun running => absurd closed running⟩

omit [Sealer] in
theorem confirmHeard {a b : P2PNode} {c : Conn} (kept : ResponderKept a b c) (looping : c.phase = .loop)
    {frame : Frame} (named : frame.msgType = "auth_confirm") {input : Incoming}
    (holds : Holds input frame.msgType frame.data) : Heard a b frame c (step b c input) := by
  rw [named] at holds
  obtain ⟨quiet,⟨⟨known,i,au,r,p,f,negotiated⟩,looping'⟩ | closed⟩ := stepConfirm b holds looping kept.isInitiator
  · have open' : (step b c input).phase ≠ .first := by rw [looping']; decide
    obtain ⟨version,pending⟩ := kept.remembers known
    rw [version,pending,negotiateAgreed,agreedComm] at negotiated
    have switched : (step b c input).peer.wireFormat = agreed a b := (Except.ok.inj negotiated).symm
    have known' : (step b c input).peer.remotePubkey ≠ [] := r ▸ known
    refine ⟨fun _ => ⟨⟨i.trans kept.isInitiator,fun first => absurd first open',fun _ => ?_,fun un => ?_,fun _ => ?_⟩,?_⟩,
      open',.inl ⟨quiet,fun _ => ?_⟩⟩
    · exact ⟨p.trans version,f.trans pending⟩
    · rw [au] at un
      cases un
    · exact ⟨known',switched⟩
    · rw [after,if_pos named]
      exact switched
    · rw [answering,answering,if_neg known,if_neg known']
  · exact ⟨fun running => absurd closed running,by rw [closed]; decide,.inl ⟨quiet,fun running => absurd closed running⟩⟩

omit [Sealer] in
theorem responderHeard {a b : P2PNode} {c : Conn} (kept : ResponderKept a b c) (running : c.phase ≠ .closed)
    {frame : Frame} (genuine : Genuine a "hello_auth" frame)
    (untold : c.phase = .first → frame.msgType ≠ "auth_confirm") {input : Incoming}
    (holds : Holds input frame.msgType frame.data) : Heard a b frame c (step b c input) := by
  cases phased : c.phase with
  | closed => exact absurd phased running
  | first => exact firstHeard kept phased genuine (untold phased) holds
  | loop =>
    by_cases named : frame.msgType = "auth_confirm"
    · exact confirmHeard kept phased named holds
    have other : completes c (.str frame.msgType) = false := by
      rw [completesStr,kept.isInitiator,beq_eq_false_iff_ne]
      exact named
    obtain ⟨⟨⟨w,i,au,r,p,f⟩,quiet⟩,open'⟩ := stepSteady b holds phased other (sealedOther genuine c)
    refine ⟨fun _ => ⟨kept.carry i au r w (fun _ => ⟨p,f⟩) open',?_⟩,open',.inl ⟨quiet,fun _ => answeringSame w r⟩⟩
    rw [after,if_neg named]
    exact w

omit [Sealer] in
theorem hearHolds (node : P2PNode) {c : Conn} {frame : Frame} (fitting : frame.format = readFormat c) (input : Incoming) :
    ∃ input', Holds input' frame.msgType frame.data ∧ input'.encapsulate = input.encapsulate ∧
      hear node c frame input = step node c input' := by
  refine ⟨{ input with received := .value (.obj [("type",.str frame.msgType),("data",frame.data)]) },rfl,rfl,?_⟩
  rw [hear,if_pos fitting]

omit [Env] [Channel] [Sealer] in
theorem readsMore {reads : List (String × String)} {row : String × String} (all : ∀ r ∈ reads, r.1 = r.2)
    (last : row.1 = row.2) : ∀ r ∈ reads ++ [row], r.1 = r.2 := by
  intro r inside
  rcases List.mem_append.mp inside with inside | inside
  · exact all r inside
  · exact List.mem_singleton.mp inside ▸ last

theorem hearResponderAligned {a b : P2PNode} {link : Link} (aligned : Aligned a b link) (input : Incoming) :
    Aligned a b (link.act a b (.hearResponder input)) := by
  simp only [Link.act]
  split
  · exact aligned
  rename_i running
  split
  · exact aligned
  rename_i frame rest queue
  have kept := aligned.responder running
  obtain ⟨readable,ending⟩ := aligned.toResponder running
  rw [queue] at readable ending
  have genuine : Genuine a "hello_auth" frame := aligned.genuineResponder frame (queue ▸ List.mem_cons_self)
  have reading : readFormat link.responder = link.responder.peer.wireFormat := by
    unfold readFormat
    split
    · rename_i opening
      exact (kept.before (kept.first opening).2).symm
    · rfl
  have fitting : frame.format = readFormat link.responder := readable.1.trans reading.symm
  obtain ⟨input',holds,-,heard⟩ := hearHolds b fitting input
  rw [heard]
  have untold : link.responder.phase = .first → frame.msgType ≠ "auth_confirm" :=
    fun first => (aligned.untold first).1 frame (queue ▸ List.mem_cons_self)
  obtain ⟨kept',open',writes⟩ := responderHeard kept running genuine untold holds
  generalize step b link.responder input' = c at kept' open' writes ⊢
  have behind : ∀ f ∈ rest, Genuine a "hello_auth" f :=
    fun f inside => aligned.genuineResponder f (queue ▸ List.mem_cons_of_mem _ inside)
  have onward : c.phase ≠ .closed →
      Readable (after "auth_confirm" (agreed a b)) fits c.peer.wireFormat rest ∧ (link.initiator.phase ≠ .closed →
        rest.foldl (after "auth_confirm" (agreed a b)) c.peer.wireFormat = link.initiator.peer.wireFormat) := by
    intro still
    rw [(kept' still).2]
    exact ⟨readable.2,ending⟩
  -- what it writes is readable behind what is under way
  rcases writes with ⟨quiet,same⟩ | ⟨msgType,data,writes,before,genuine',final'⟩
  · rw [writtenBy quiet,interleave,List.append_nil]
    refine ⟨aligned.initiator,fun still => (kept' still).1,behind,aligned.genuineInitiator,onward,fun asking => ?_,
      fun first => absurd first open',readsMore aligned.reads fitting⟩
    obtain ⟨readable',final⟩ := aligned.toInitiator asking
    exact ⟨readable',fun still => (final running).trans (same still).symm⟩
  · rw [writtenBy writes,interleave,interleave,List.map_nil,List.append_nil]
    refine ⟨aligned.initiator,fun still => (kept' still).1,behind,appended aligned.genuineInitiator genuine',onward,
      fun asking => ?_,fun first => absurd first open',readsMore aligned.reads fitting⟩
    obtain ⟨readable',final⟩ := aligned.toInitiator asking
    have final := (final running).trans before
    have fitting' : (⟨link.responder.peer.wireFormat,msgType,data⟩ : Frame).format =
      link.toInitiator.foldl (after "auth_response" (agreed a b)) link.initiator.peer.wireFormat := final.symm
    obtain ⟨readable'',final''⟩ := appendFrame readable' fitting'
    refine ⟨readable'',fun still => ?_⟩
    rw [final'',final]
    exact (final' still).symm

structure Replied (a b : P2PNode) (during : Nat → List Outgoing) (frame : Frame) (c c' : Conn) : Prop where
  kept : c'.phase ≠ .closed → InitiatorKept a b c' ∧
    c'.peer.wireFormat = after "auth_response" (agreed a b) c.peer.wireFormat frame
  genuine : ∀ f ∈ written c c' during, Genuine a "hello_auth" f
  quiet : frame.msgType ≠ "auth_response" → written c c' during = []
  readable : Readable (after "auth_confirm" (agreed a b)) fits c.peer.wireFormat (written c c' during)
  ending : c'.phase ≠ .closed →
    (written c c' during).foldl (after "auth_confirm" (agreed a b)) c.peer.wireFormat = c'.peer.wireFormat

omit [Env] [Channel] in
theorem interleaveAll {holds : Frame → Prop} {c : Conn} {during : Nat → List Outgoing}
    (others : ∀ i, ∀ message ∈ during i, holds (encode c message)) {rows : List (String × Json)}
    (own : ∀ row ∈ rows, holds ⟨c.peer.wireFormat,row.1,row.2⟩) (i : Nat) :
    ∀ f ∈ interleave c during i rows, holds f := by
  induction rows generalizing i with
  | nil => intro f inside; cases inside
  | cons row rows ih =>
    intro f inside
    rw [interleave,List.cons_append,List.mem_cons,List.mem_append,List.mem_map] at inside
    rcases inside with rfl | ⟨message,listed,rfl⟩ | inside
    · exact own row List.mem_cons_self
    · exact others i message listed
    · exact ih (fun row later => own row (List.mem_cons_of_mem _ later)) (i + 1) f inside

omit [Env] [Sealer] in
theorem rowGenuine (a : P2PNode) {row : String × Json} (listed : row.1 = "auth_confirm" ∨ row.1 = "session_key")
    (format : String) : Genuine a "hello_auth" ⟨format,row.1,row.2⟩ := by
  refine ⟨fun same => absurd listed ?_,fun same => absurd listed ?_⟩ <;> dsimp only at same <;> rw [same] <;> decide

omit [Env] [Channel] in
theorem confirmsReadable {a b : P2PNode} {c c' : Conn} {during : Nat → List Outgoing} {silent : Prop} {sig : Json}
    {more : List (String × Json)} (format : c.peer.wireFormat = "json" ∨ c.peer.wireFormat = agreed a b)
    (writes : Writes c c' (("auth_confirm",sig) :: more)) (quiet : silent → more = [])
    (spaced : a.hasMsgpack = true → b.hasMsgpack = true → (∀ i, during i = []) ∧ silent) :
    Readable (after "auth_confirm" (agreed a b)) fits c.peer.wireFormat (written c c' during) ∧
      (written c c' during).foldl (after "auth_confirm" (agreed a b)) c.peer.wireFormat = agreed a b := by
  rw [writtenBy writes]
  by_cases both : a.hasMsgpack = true ∧ b.hasMsgpack = true
  · obtain ⟨alone,silently⟩ := spaced both.1 both.2
    rw [quiet silently,interleave,interleave,alone,List.map_nil,List.append_nil,List.foldl_cons,List.foldl_nil]
    exact ⟨⟨rfl,trivial⟩,if_pos rfl⟩
  · have json : agreed a b = "json" := by
      unfold agreed
      rw [if_neg (by rw [Bool.and_eq_true]; exact both)]
    have same : c.peer.wireFormat = agreed a b := format.elim (fun plain => plain.trans json.symm) id
    have fitting : ∀ f ∈ interleave c during 0 (("auth_confirm",sig) :: more), fits c.peer.wireFormat f := by
      refine interleaveAll (fun i message _ => ?_) (fun row _ => rfl) 0
      rw [fits,encode]
      split <;> rfl
    have stays : ∀ f : Frame, after "auth_confirm" (agreed a b) c.peer.wireFormat f = c.peer.wireFormat := by
      intro f
      unfold after
      split
      · exact same.symm
      · rfl
    obtain ⟨readable,final⟩ := readableSteady (after "auth_confirm" (agreed a b)) fits
      (fun f inside => ⟨fitting f inside,stays f⟩)
    exact ⟨readable,final.trans same⟩

theorem initiatorReplied {a b : P2PNode} (opens : Opens) {c : Conn} (kept : InitiatorKept a b c) {frame : Frame}
    (genuine : Genuine b "auth_response" frame) {during : Nat → List Outgoing}
    (plain : ∀ i, ∀ message ∈ during i, message.msgType ∉ rateExempt) {input : Incoming}
    (holds : Holds input frame.msgType frame.data)
    (spaced : a.hasMsgpack = true → b.hasMsgpack = true → frame.msgType = "auth_response" → (∀ i, during i = []) ∧
      (a.hasEncryptionKeys = false ∨ (offeredKey c frame.data).bind input.encapsulate = none)) :
    Replied a b during frame c (step a c input) := by
  by_cases named : frame.msgType = "auth_response"
  · rw [named] at holds
    have own : ∀ sig more, (∀ row ∈ more, row.1 = "session_key") → Writes c (step a c input) (("auth_confirm",sig) :: more) →
        ∀ f ∈ written c (step a c input) during, Genuine a "hello_auth" f := by
      intro sig more keys writes
      rw [writtenBy writes]
      refine interleaveAll (fun i message listed => ?_) (fun row inside => ?_) 0
      · exact (encodeGenuine opens c (plain i message listed) a "hello_auth" (by decide) (by decide)).1
      · refine rowGenuine a ?_ _
        rcases List.mem_cons.mp inside with rfl | inside
        · exact .inl rfl
        · exact .inr (keys row inside)
    rcases stepResponse a holds kept.looping kept.isInitiator with
      ⟨fields,object,⟨⟨i,sig,more,writes,keys,quiet⟩,version,versioned,negotiated⟩,looping⟩ | ⟨left,closed⟩
    · obtain ⟨readable,final⟩ := confirmsReadable kept.wireFormat writes quiet
        (fun hasA hasB => spaced hasA hasB named)
      obtain ⟨fields',object',told,formatted⟩ := genuine.1 named
      obtain rfl : fields = fields' := Json.obj.inj (object.symm.trans object')
      rw [told,versionKept] at versioned
      rw [← Except.ok.inj versioned,formatted,negotiateAgreed] at negotiated
      have switched : (step a c input).peer.wireFormat = agreed a b := (Except.ok.inj negotiated).symm
      refine ⟨fun _ => ⟨⟨looping,i.trans kept.isInitiator,.inr switched⟩,?_⟩,own sig more keys writes,
        fun other => absurd named other,readable,fun _ => final.trans switched.symm⟩
      rw [after,if_pos named]
      exact switched
    · rcases left with ⟨-,quiet⟩ | ⟨-,sig,more,writes,keys,quiet⟩
      · have nothing : written c (step a c input) during = [] := writtenBy quiet during
        refine ⟨fun running => absurd closed running,?_,fun _ => nothing,?_,fun running => absurd closed running⟩
        · rw [nothing]
          intro f inside
          cases inside
        · rw [nothing]
          trivial
      · obtain ⟨readable,-⟩ := confirmsReadable kept.wireFormat writes quiet (fun hasA hasB => spaced hasA hasB named)
        exact ⟨fun running => absurd closed running,own sig more keys writes,fun other => absurd named other,readable,
          fun running => absurd closed running⟩
  · have other : completes c (.str frame.msgType) = false := by
      rw [completesStr,kept.isInitiator,beq_eq_false_iff_ne]
      exact named
    obtain ⟨⟨⟨w,i,-,-,-,-⟩,quiet⟩,open'⟩ := stepSteady a holds kept.looping other (sealedOther genuine c)
    have nothing : written c (step a c input) during = [] := writtenBy quiet during
    refine ⟨fun running => ⟨⟨?_,i.trans kept.isInitiator,w ▸ kept.wireFormat⟩,?_⟩,?_,fun _ => nothing,?_,fun _ => ?_⟩
    · cases phased : (step a c input).phase with
      | first => exact absurd phased open'
      | loop => rfl
      | closed => exact absurd phased running
    · rw [after,if_neg named]
      exact w
    · rw [nothing]
      intro f inside
      cases inside
    · rw [nothing]
      trivial
    · rw [nothing]
      exact w.symm

theorem hearInitiatorAligned {a b : P2PNode} (opens : Opens) {link : Link} (aligned : Aligned a b link) (input : Incoming)
    {during : Nat → List Outgoing} (plain : ∀ i, ∀ message ∈ during i, message.msgType ∉ rateExempt)
    (met : Spaced a b link (.hearInitiator input during)) : Aligned a b (link.act a b (.hearInitiator input during)) := by
  simp only [Link.act]
  split
  · exact aligned
  rename_i running
  split
  · exact aligned
  rename_i frame rest queue
  have kept := aligned.initiator running
  obtain ⟨readable,ending⟩ := aligned.toInitiator running
  rw [queue] at readable ending
  have genuine : Genuine b "auth_response" frame := aligned.genuineInitiator frame (queue ▸ List.mem_cons_self)
  have reading : readFormat link.initiator = link.initiator.peer.wireFormat := by
    rw [readFormat,kept.looping]
  have fitting : frame.format = readFormat link.initiator := readable.1.trans reading.symm
  obtain ⟨input',holds,same,heard⟩ := hearHolds a fitting input
  rw [heard]
  have spaced : a.hasMsgpack = true → b.hasMsgpack = true → frame.msgType = "auth_response" → (∀ i, during i = []) ∧
      (a.hasEncryptionKeys = false ∨ (offeredKey link.initiator frame.data).bind input'.encapsulate = none) := by
    intro hasA hasB named
    rw [same]
    exact met hasA hasB frame (by rw [queue]; rfl) named
  obtain ⟨kept',genuine',quiet,readable',final'⟩ := initiatorReplied opens kept genuine plain holds spaced
  generalize step a link.initiator input' = c at kept' genuine' quiet readable' final' ⊢
  refine ⟨fun still => (kept' still).1,aligned.responder,?_,
    fun f inside => aligned.genuineInitiator f (queue ▸ List.mem_cons_of_mem _ inside),fun listening => ?_,
    fun still => ?_,fun first => ?_,readsMore aligned.reads fitting⟩
  · intro f inside
    rcases List.mem_append.mp inside with inside | inside
    · exact aligned.genuineResponder f inside
    · exact genuine' f inside
  · obtain ⟨before,last⟩ := aligned.toResponder listening
    have last := last running
    refine ⟨(readableAppend ..).mpr ⟨before,by rw [last]; exact readable'⟩,fun still => ?_⟩
    rw [List.foldl_append,last]
    exact final' still
  · rw [(kept' still).2]
    exact ⟨readable.2,ending⟩
  · obtain ⟨unconfirmed,unanswered⟩ := aligned.untold first
    rw [quiet (unanswered frame (queue ▸ List.mem_cons_self)),List.append_nil]
    exact ⟨unconfirmed,fun f inside => unanswered f (queue ▸ List.mem_cons_of_mem _ inside)⟩

theorem loseAligned {a b : P2PNode} {link : Link} (aligned : Aligned a b link) (input : Incoming) :
    Aligned a b (link.act a b (.loseInitiator input)) ∧ Aligned a b (link.act a b (.loseResponder input)) := by
  have gone := stepEnded a link.initiator input
  have gone' := stepEnded b link.responder input
  simp only [Link.act]
  generalize step a link.initiator { input with received := .ended } = c at gone ⊢
  generalize step b link.responder { input with received := .ended } = c' at gone' ⊢
  constructor
  · exact ⟨fun running => absurd gone running,aligned.responder,aligned.genuineResponder,aligned.genuineInitiator,
      fun listening => ⟨(aligned.toResponder listening).1,fun running => absurd gone running⟩,
      fun running => absurd gone running,aligned.untold,aligned.reads⟩
  · refine ⟨aligned.initiator,fun running => absurd gone' running,aligned.genuineResponder,aligned.genuineInitiator,
      fun running => absurd gone' running,
      fun listening => ⟨(aligned.toInitiator listening).1,fun running => absurd gone' running⟩,fun first => ?_,
      aligned.reads⟩
    rw [gone'] at first
    cases first

omit [Env] [Sealer] in
theorem connectWrites (a : P2PNode) (port : Int) (input : Incoming) :
    let c := connect a port input
    c.peer.wireFormat = "json" ∧ c.peer.isInitiator = true ∧ (c.phase ≠ .closed → c.phase = .loop) ∧
      ∃ messages, Writes { c with trace := [] } c messages ∧
        ∀ row ∈ messages, row.1 = "hello" ∨ row.1 = "hello_auth" ∧ Tells a row.2 := by
  intro c
  unfold c connect
  dsimp only
  split
  · split
    · exact ⟨rfl,rfl,fun running => absurd rfl running,[],⟨_,rfl,rfl⟩,by simp⟩
    · refine ⟨rfl,rfl,fun _ => rfl,_,⟨_,rfl,rfl⟩,fun row inside => ?_⟩
      obtain rfl := List.mem_singleton.mp inside
      exact .inr ⟨rfl,_,rfl,rfl,rfl⟩
  · refine ⟨rfl,rfl,fun _ => rfl,_,⟨_,rfl,rfl⟩,fun row inside => ?_⟩
    obtain rfl := List.mem_singleton.mp inside
    exact .inl rfl

omit [Env] in
theorem openedAligned (a b : P2PNode) (port : Int) (input : Incoming) : Aligned a b (opened a port input) := by
  obtain ⟨json,initiator,running,messages,writes,told⟩ := connectWrites a port input
  simp only [opened]
  generalize connect a port input = c at json initiator running writes ⊢
  rw [writtenBy writes]
  have own : ∀ frame ∈ interleave { c with trace := [] } (fun _ => []) 0 messages,
      Genuine a "hello_auth" frame ∧ frame.format = "json" ∧ frame.msgType ≠ "auth_confirm" := by
    refine interleaveAll (fun i message inside => absurd inside List.not_mem_nil) (fun row inside => ?_) 0
    rcases told row inside with named | ⟨named,tells⟩
    · exact ⟨⟨fun same => absurd (named.symm.trans same) (by decide),
        fun same => absurd (named.symm.trans same) (by decide)⟩,json,fun same => absurd (named.symm.trans same) (by decide)⟩
    · exact ⟨⟨fun _ => tells,fun same => absurd (named.symm.trans same) (by decide)⟩,json,
        fun same => absurd (named.symm.trans same) (by decide)⟩
  obtain ⟨readable,final⟩ := readableSteady (after "auth_confirm" (agreed a b)) fits
    (fun frame inside => ⟨(own frame inside).2.1,if_neg (own frame inside).2.2⟩)
  have fresh : ResponderKept a b accepted :=
    ⟨rfl,fun _ => ⟨rfl,rfl⟩,fun known => absurd rfl known,fun _ => rfl,fun known => Bool.noConfusion known⟩
  refine ⟨fun still => ⟨running still,initiator,.inl json⟩,fun _ => fresh,fun frame inside => (own frame inside).1,
    fun frame inside => absurd inside List.not_mem_nil,fun _ => ⟨readable,fun _ => final.trans json.symm⟩,
    fun _ => ⟨trivial,fun _ => json⟩,fun _ => ⟨fun frame inside => (own frame inside).2.2,fun frame inside => absurd inside List.not_mem_nil⟩,
    fun row inside => absurd inside List.not_mem_nil⟩

theorem reachedAligned {a b : P2PNode} (opens : Opens) {link : Link} (reached : Reached a b (Spaced a b) link) :
    Aligned a b link := by
  induction reached with
  | start port input => exact openedAligned a b port input
  | act prior action plain met ih =>
    cases action with
    | sendInitiator message => exact sendInitiatorAligned opens ih plain
    | sendResponder message => exact sendResponderAligned opens ih plain met
    | hearInitiator input during => exact hearInitiatorAligned opens ih input plain met
    | hearResponder input => exact hearResponderAligned ih input
    | loseInitiator input => exact (loseAligned ih input).1
    | loseResponder input => exact (loseAligned ih input).2

theorem readInStep (a b : P2PNode) (opens : Opens) (link : Link) (reached : Reached a b (Spaced a b) link) :
    InStep link :=
  (reachedAligned opens reached).reads

def Allowed (a b : P2PNode) (meets : Link → Action → Prop) (link : Link) : List Action → Prop
  | [] => True
  | action :: rest => action.Plain ∧ meets link action ∧ Allowed a b meets (link.act a b action) rest

theorem Reached.fold {a b : P2PNode} {meets : Link → Action → Prop} {link : Link} (reached : Reached a b meets link)
    {actions : List Action} (allowed : Allowed a b meets link actions) :
    Reached a b meets (actions.foldl (Link.act a b) link) := by
  induction actions generalizing link with
  | nil => exact reached
  | cons action rest ih => exact ih (reached.act action allowed.1 allowed.2.1) allowed.2.2

end Links

namespace Devnet
open QbitNetwork.Devnet Handshake.Devnet

section Legacy
attribute [local instance] legacy plainChannel

@[reducible] def unsealed : Sealer where
  sealText := fun _ _ _ => []

attribute [local instance] unsealed

def packing : P2PNode := { responder with validatorAddress := deriveAddress Handshake.Devnet.longKey, hasMsgpack := true }

def keyed : P2PNode :=
  { packing with encryptionSk := List.replicate mlkemPkSize 3, encryptionPk := List.replicate mlkemPkSize 3 }

def turn (urandom : Bytes) : Incoming :=
  { incoming "" [] urandom with encapsulate := fun _ => some (List.replicate mlkemCtSize 4,[7]) }

def asking : Incoming := turn (List.replicate challengeLen 5)
def replying : Incoming := turn (List.replicate challengeLen 6)

def status : Outgoing := ⟨"status",.obj [],false⟩

def exchange : List Action :=
  [.hearResponder replying,.hearInitiator asking (fun _ => []),.hearResponder replying,.sendResponder status,
   .sendInitiator status,.hearInitiator asking (fun _ => []),.hearResponder replying]

def confirmed : Link :=
  (((opened packing 9000 asking).act packing packing (.hearResponder replying)).act packing packing
    (.hearInitiator asking (fun _ => []))).act packing packing (.hearResponder replying)

def exchanged : Link := exchange.foldl (Link.act packing packing) (opened packing 9000 asking)

theorem opensNothing : Opens := fun _ _ _ _ => .inl rfl

theorem exchangedInStep : InStep exchanged ∧ exchanged.reads.getLast? = some ("msgpack","msgpack") := by
  have silent : ∀ link : Link, Spaced packing packing link (.hearInitiator asking (fun _ => [])) :=
    fun _ _ _ _ _ _ => ⟨fun _ => rfl,.inl (by decide +kernel)⟩
  have plain : (Action.hearInitiator asking (fun _ => [])).Plain := fun _ _ inside => absurd inside List.not_mem_nil
  have unlisted : status.msgType ∉ rateExempt := by decide
  have run : ¬Pending confirmed.responder ∧ exchanged.reads.getLast? = some ("msgpack","msgpack") := by decide +kernel
  have allowed : Allowed packing packing (Spaced packing packing) (opened packing 9000 asking) exchange :=
    ⟨trivial,fun _ _ => trivial,plain,silent _,trivial,fun _ _ => trivial,unlisted,fun _ _ => run.1,
      unlisted,fun _ _ => trivial,plain,silent _,trivial,fun _ _ => trivial,trivial⟩
  exact ⟨readInStep packing packing opensNothing exchanged ((Reached.start 9000 asking).fold allowed),run.2⟩

def crossing : List Action :=
  [.hearResponder replying,.hearInitiator asking (fun _ => []),.hearResponder replying,.hearResponder replying]

def crossed : Link := crossing.foldl (Link.act keyed keyed) (opened keyed 9000 asking)

theorem keysOutOfStep :
    Opens ∧ ¬∀ link, Reached keyed keyed (fun _ _ => True) link → InStep link := by
  refine ⟨opensNothing,fun inStep => ?_⟩
  have plain : (Action.hearInitiator asking (fun _ => [])).Plain := fun _ _ inside => absurd inside List.not_mem_nil
  have allowed : Allowed keyed keyed (fun _ _ => True) (opened keyed 9000 asking) crossing :=
    ⟨trivial,trivial,plain,trivial,trivial,trivial,trivial,trivial,trivial⟩
  have misread : ("json","msgpack") ∈ crossed.reads := by decide +kernel
  exact absurd (inStep crossed ((Reached.start 9000 asking).fold allowed) _ misread) (by decide)

end Legacy

end Devnet

end QbitNetwork.Handshake.WireFormat
