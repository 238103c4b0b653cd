import QbitNetwork.PeerTable

/-! The peer table agrees with the connections as long as no key changes hands: a socket that
opens on a key in use, a response that moves an outbound peer to another port, and the late end
of a closed connection are what breaks it. -/
namespace QbitNetwork.Handshake.PeerTable

section Keys

theorem lastCut {separates : Char → Bool} {front front' rest rest' : List Char} {a b : Char}
    (first : separates a = true) (second : separates b = true) (plain : ∀ c ∈ rest, separates c = false)
    (plain' : ∀ c ∈ rest', separates c = false) (same : front ++ a :: rest = front' ++ b :: rest') :
    a = b ∧ rest = rest' := by
  rcases List.append_eq_append_iff.mp same with ⟨between,-,tail⟩ | ⟨between,-,tail⟩
  · cases between with
    | nil =>
      obtain ⟨rfl,rfl⟩ := List.cons_eq_cons.mp tail
      exact ⟨rfl,rfl⟩
    | cons c between =>
      obtain ⟨-,rfl⟩ := List.cons_eq_cons.mp tail
      have separated := plain b (List.mem_append_right _ List.mem_cons_self)
      rw [second] at separated
      cases separated
  · cases between with
    | nil =>
      obtain ⟨rfl,rfl⟩ := List.cons_eq_cons.mp tail
      exact ⟨rfl,rfl⟩
    | cons c between =>
      obtain ⟨-,rfl⟩ := List.cons_eq_cons.mp tail
      have separated := plain' a (List.mem_append_right _ List.mem_cons_self)
      rw [first] at separated
      cases separated

def separates (c : Char) : Bool := c == ':' || c == '_'

theorem digitPlain {c : Char} (digit : c.isDigit = true) : separates c = false := by
  rw [separates,Bool.or_eq_false_iff,beq_eq_false_iff_ne,beq_eq_false_iff_ne]
  constructor
  · rintro rfl
    exact absurd digit (by decide)
  · rintro rfl
    exact absurd digit (by decide)

theorem natPlain (n : Nat) : ∀ c ∈ (toString n).toList, separates c = false := by
  intro c inside
  rw [show toString n = n.repr from rfl,Nat.toList_repr] at inside
  exact digitPlain (Nat.isDigit_of_mem_toDigits (by decide) (by decide) inside)

theorem portPlain (port : Json) : ∀ c ∈ (portText port).toList, separates c = false := by
  intro c inside
  cases port with
  | int n =>
    cases n with
    | ofNat n => exact natPlain n c inside
    | negSucc n =>
      rw [show portText (.int (.negSucc n)) = "-" ++ toString (n + 1) from rfl,String.toList_append] at inside
      rcases List.mem_append.mp inside with sign | inside
      · obtain rfl := List.mem_singleton.mp sign
        rfl
      · exact natPlain _ c inside
  | bool value =>
    have plain : (portText (.bool value)).toList.all (fun c => !separates c) = true := by
      cases value <;> decide +kernel
    simpa using List.all_eq_true.mp plain c inside
  | null => cases inside
  | str text => cases inside
  | arr items => cases inside
  | obj fields => cases inside
  | float value => cases inside

theorem addrChars (host : String) (port : Json) :
    (addrOf host port).toList = host.toList ++ ':' :: (portText port).toList := by
  simp [addrOf,String.toList_append]

theorem tempChars (host : String) (n : Nat) :
    (tempKey host n).toList = ("_inbound_".toList ++ host.toList) ++ '_' :: (toString n).toList := by
  simp [tempKey,String.toList_append]

theorem natText {n m : Nat} (same : (toString n).toList = (toString m).toList) : n = m := by
  rw [show toString n = n.repr from rfl,show toString m = m.repr from rfl,Nat.toList_repr,Nat.toList_repr] at same
  rw [← Nat.ofDigitChars_ten_toDigits (n := n),same,Nat.ofDigitChars_ten_toDigits]

theorem tempOwn {host host' : String} {n m : Nat} (same : tempKey host n = tempKey host' m) : n = m := by
  have chars := congrArg String.toList same
  rw [tempChars,tempChars] at chars
  exact natText (lastCut rfl rfl (natPlain n) (natPlain m) chars).2

theorem tempNotAddr (host host' : String) (n : Nat) (port : Json) : tempKey host n ≠ addrOf host' port := by
  intro same
  have chars := congrArg String.toList same
  rw [tempChars,addrChars] at chars
  exact absurd (lastCut rfl rfl (natPlain n) (portPlain port) chars).1 (by decide)

end Keys

section Connections
variable [Env] [Channel] {node : P2PNode} {input : Incoming} {msgType data : Json}

structure Steady (input : Incoming) (c c' : Conn) : Prop where
  isInitiator : c'.peer.isInitiator = c.peer.isInitiator
  connected : c'.peer.connected = c.peer.connected
  events : ∃ events, c'.trace = c.trace ++ events ∧ ∀ key, .closedOther key ∈ events →
    ∃ other ∈ input.others, other.authenticated = true ∧ other.key = key

omit [Env] [Channel] in
theorem Steady.trans {a b c : Conn} (first : Steady input a b) (second : Steady input b c) : Steady input a c := by
  obtain ⟨events,after,closed⟩ := first.events
  obtain ⟨events',after',closed'⟩ := second.events
  refine ⟨second.isInitiator.trans first.isInitiator,second.connected.trans first.connected,events ++ events',?_,?_⟩
  · rw [after',after,List.append_assoc]
  · intro key inside
    rcases List.mem_append.mp inside with inside | inside
    · exact closed key inside
    · exact closed' key inside

omit [Env] [Channel] in
theorem steadyOf {c c' : Conn} (isInitiator : c'.peer.isInitiator = c.peer.isInitiator)
    (connected : c'.peer.connected = c.peer.connected) (events : List Event) (after : c'.trace = c.trace ++ events)
    (quiet : ∀ key, .closedOther key ∉ events) : Steady input c c' :=
  ⟨isInitiator,connected,events,after,fun key inside => absurd inside (quiet key)⟩

theorem moveSteady {c c' : Conn} (move : Move node input msgType data c c') : Steady input c c' := by
  cases move with
  | tells same => exact steadyOf same.isInitiator same.connected [] (List.append_nil _).symm (by simp)
  | @notes event plain =>
    refine steadyOf rfl rfl [event] rfl (fun key inside => ?_)
    obtain rfl := List.mem_singleton.mp inside
    cases plain
  | moves first object named valid => exact steadyOf rfl rfl [] (List.append_nil _).symm (by simp)
  | introduces version first object => exact steadyOf rfl rfl [] (List.append_nil _).symm (by simp)
  | answers first object named claimed signed => exact steadyOf rfl rfl [_,_] (List.append_assoc ..) (by simp)
  | clears => exact steadyOf rfl rfl [] (List.append_nil _).symm (by simp)
  | checks publicKey signature pending => exact steadyOf rfl rfl [_] rfl (by simp)
  | accepts initiator object named pending early shown proof valid asked signed told =>
    rcases told with rfl | ⟨version,-,rfl⟩
    · exact steadyOf rfl rfl [_,_] (List.append_assoc ..) (by simp)
    · exact steadyOf rfl rfl [_,_] (List.append_assoc ..) (by simp)
  | @closes other listed authenticated same known =>
    refine ⟨rfl,rfl,[_],rfl,fun key inside => ⟨other,listed,authenticated,?_⟩⟩
    cases List.mem_singleton.mp inside
    rfl
  | shares initiator authenticated keyed known sealed =>
    unfold initiateEncryptedChannel
    rw [if_neg (by rw [keyed]; exact Bool.noConfusion),known,Option.bind_some,sealed]
    exact steadyOf rfl rfl [_] rfl (by simp)
  | confirms responder object named pending known proof valid => exact steadyOf rfl rfl [_] rfl (by simp)
  | forgets responder unauthenticated => exact steadyOf rfl rfl [] (List.append_nil _).symm (by simp)
  | receives authenticated object named => exact steadyOf rfl rfl [] (List.append_nil _).symm (by simp)
  | opens authenticated keyed object named taken opened => exact steadyOf rfl rfl [] (List.append_nil _).symm (by simp)

theorem movesSteady {c c' : Conn} (run : Moves node input msgType data c c') : Steady input c c' :=
  run.keeps (fun _ => steadyOf rfl rfl [] (List.append_nil _).symm (by simp)) (fun _ _ _ => Steady.trans)
    (fun _ _ => moveSteady)

structure Announces (node : P2PNode) (input : Incoming) (c : Conn) (fields : Message)
    (responderPk challengeSig : Bytes) : Prop where
  named : (heard c input).1.equal (.str "auth_response") = true
  object : (heard c input).2 = .obj fields
  pending : c.peer.challenge ≠ []
  early : ¬c.peer.authDeadline < input.monotonic
  shown : resolvePeerPubkey (fields.get "signing_pk" (.str "")) = some responderPk
  proof : hexOf (fields.get "challenge_sig" (.str "")) = some challengeSig
  valid : verifySig responderPk (buildAuthMessage c.peer.challenge (deriveAddress responderPk)) challengeSig = true
  asked : ∃ counterChallenge counterSig,
    (hexOf (fields.get "counter_challenge" (.str ""))).filter (fun b => b.length = challengeLen) = some counterChallenge ∧
      Channel.sign node.signingSk (buildAuthMessage counterChallenge node.validatorAddress) = some counterSig
  versioned : ∃ version, pyMin (fields.get "protocol_version" (.int 1)) protocolVersion = .ok version
  port : isPort (fields.get "port" (.int 0)) = true

def KeepsPort (node : P2PNode) (input : Incoming) (c : Conn) : Prop :=
  ∀ fields responderPk challengeSig, Announces node input c fields responderPk challengeSig →
    portText (fields.get "port" (.int 0)) = portText c.peer.port

theorem keepsPortOthers {c : Conn} (keeps : KeepsPort node input c) (others : List OtherPeer) :
    KeepsPort node { input with others } c :=
  fun fields responderPk challengeSig shown => keeps fields responderPk challengeSig ⟨shown.named,shown.object,
    shown.pending,shown.early,shown.shown,shown.proof,shown.valid,shown.asked,shown.versioned,shown.port⟩

structure Outbound (c c' : Conn) : Prop where
  phase : c'.phase = c.phase
  isInitiator : c'.peer.isInitiator = true
  port : portText c'.peer.port = portText c.peer.port
  challenge : c'.peer.challenge = [] ∨
    c'.peer.challenge = c.peer.challenge ∧ c'.peer.authDeadline = c.peer.authDeadline

theorem moveOutbound {start c c' : Conn} (looping : start.phase = .loop) (keeps : KeepsPort node input start)
    (move : Move node input (heard start input).1 (heard start input).2 c c') (before : Outbound start c) :
    Outbound start c' := by
  have later : c.phase ≠ .first := by
    rw [before.phase,looping]
    exact Phase.noConfusion
  cases move with
  | tells same =>
    refine ⟨before.phase,same.isInitiator.trans before.isInitiator,?_,?_⟩
    · rw [← before.port]
      exact congrArg portText same.port
    · exact before.challenge.imp same.challenge.trans
        (fun known => ⟨same.challenge.trans known.1,same.authDeadline.trans known.2⟩)
  | notes plain => exact ⟨before.phase,before.isInitiator,before.port,before.challenge⟩
  | moves first object named valid => exact absurd first later
  | introduces version first object => exact absurd first later
  | answers first object named claimed signed => exact absurd first later
  | clears => exact ⟨before.phase,before.isInitiator,before.port,.inl rfl⟩
  | checks publicKey signature pending => exact ⟨before.phase,before.isInitiator,before.port,.inl rfl⟩
  | @accepts fields responderPk challengeSig counterChallenge counterSig peer initiator object named pending early shown
      proof valid asked signed told =>
    obtain ⟨challenge,deadline⟩ := before.challenge.resolve_left pending
    rcases told with rfl | ⟨version,versioned,rfl⟩
    · exact ⟨before.phase,before.isInitiator,before.port,.inl rfl⟩
    · refine ⟨before.phase,before.isInitiator,?_,.inl rfl⟩
      unfold describe
      dsimp only [Conn.withPeer]
      split
      · rename_i port
        refine keeps fields responderPk challengeSig ⟨named,object,?_,?_,shown,proof,?_,
          ⟨counterChallenge,counterSig,asked,signed⟩,⟨version,versioned⟩,port⟩
        · rwa [← challenge]
        · rwa [← deadline]
        · rw [← challenge]
          exact valid
      · exact before.port
  | closes listed authenticated same known => exact ⟨before.phase,before.isInitiator,before.port,before.challenge⟩
  | shares initiator authenticated keyed known sealed =>
    unfold initiateEncryptedChannel
    rw [if_neg (by rw [keyed]; exact Bool.noConfusion),known,Option.bind_some,sealed]
    exact ⟨before.phase,before.isInitiator,before.port,before.challenge⟩
  | confirms responder object named pending known proof valid =>
    rw [before.isInitiator] at responder
    cases responder
  | forgets responder unauthenticated => exact ⟨before.phase,before.isInitiator,before.port,before.challenge⟩
  | receives authenticated object named => exact ⟨before.phase,before.isInitiator,before.port,before.challenge⟩
  | opens authenticated keyed object named taken opened =>
    exact ⟨before.phase,before.isInitiator,before.port,before.challenge⟩

structure Unanswered (msgType : Json) (c : Conn) : Prop where
  authenticated : c.peer.authenticated = false
  isInitiator : c.peer.isInitiator = false
  challenge : c.peer.challenge = [] ∨ msgType = .str "hello_auth"
  quiet : ∀ key, .closedOther key ∉ c.trace

theorem moveUnanswered {c c' : Conn} (move : Move node input msgType data c c') (before : Unanswered msgType c) :
    Unanswered msgType c' := by
  have noted : ∀ (event : Event), (∀ key, event ≠ .closedOther key) → ∀ key, .closedOther key ∉ c.trace ++ [event] := by
    intro event plain key inside
    rcases List.mem_append.mp inside with inside | inside
    · exact before.quiet key inside
    · exact plain key (List.mem_singleton.mp inside).symm
  cases move with
  | tells same =>
    exact ⟨same.authenticated.trans before.authenticated,same.isInitiator.trans before.isInitiator,
      before.challenge.imp_left same.challenge.trans,before.quiet⟩
  | notes plain =>
    refine ⟨before.authenticated,before.isInitiator,before.challenge,noted _ ?_⟩
    rintro key rfl
    cases plain
  | moves first object named valid => exact ⟨before.authenticated,before.isInitiator,before.challenge,before.quiet⟩
  | introduces version first object => exact ⟨before.authenticated,before.isInitiator,before.challenge,before.quiet⟩
  | answers first object named claimed signed =>
    refine ⟨before.authenticated,before.isInitiator,.inr (Json.equalStr named),fun key inside => ?_⟩
    simp only [Conn.send,Conn.emit,Conn.withPeer,List.mem_append,List.mem_singleton,reduceCtorEq,or_false] at inside
    exact before.quiet key inside
  | clears => exact ⟨before.authenticated,before.isInitiator,.inl rfl,before.quiet⟩
  | checks publicKey signature pending =>
    exact ⟨before.authenticated,before.isInitiator,.inl rfl,noted _ (by simp)⟩
  | accepts initiator object named pending early shown proof valid asked signed told =>
    rw [before.isInitiator] at initiator
    cases initiator
  | closes listed authenticated same known =>
    rw [before.authenticated] at known
    cases known
  | shares initiator authenticated keyed known sealed =>
    rw [before.isInitiator] at initiator
    cases initiator
  | confirms responder object named pending known proof valid =>
    have greeted := before.challenge.resolve_left pending
    rw [greeted] at named
    exact absurd named (by decide +kernel)
  | forgets responder unauthenticated => exact ⟨before.authenticated,before.isInitiator,before.challenge,before.quiet⟩
  | receives authenticated object named =>
    rw [before.authenticated] at authenticated
    cases authenticated
  | opens authenticated keyed object named taken opened =>
    rw [before.authenticated] at authenticated
    cases authenticated

theorem movesOutbound {start c : Conn} (looping : start.phase = .loop) (initiator : start.peer.isInitiator = true)
    (keeps : KeepsPort node input start) (run : Moves node input (heard start input).1 (heard start input).2 start c) :
    Outbound start c := by
  induction run with
  | refl => exact ⟨rfl,initiator,rfl,.inr ⟨rfl,rfl⟩⟩
  | tail _ move ih => exact moveOutbound looping keeps move ih

theorem movesUnanswered {start c : Conn} (before : Unanswered msgType start) (run : Moves node input msgType data start c) :
    Unanswered msgType c := by
  induction run with
  | refl => exact before
  | tail _ move ih => exact moveUnanswered move ih

structure Stepped (input : Incoming) (c c' : Conn) : Prop where
  phase : c'.phase ≠ .first
  connected : c'.phase ≠ .closed → c'.peer.connected = c.peer.connected
  isInitiator : c'.peer.isInitiator = c.peer.isInitiator
  closings : ∀ key ∈ closings c c', ∃ other ∈ input.others, other.authenticated = true ∧ other.key = key

omit [Env] [Channel] in
theorem memClosings {c c' : Conn} {events : List Event} (after : c'.trace = c.trace ++ events) (key : String) :
    key ∈ closings c c' ↔ .closedOther key ∈ events := by
  unfold closings
  rw [after,List.drop_left,List.mem_filterMap]
  constructor
  · rintro ⟨event,inside,named⟩
    cases event <;> cases named
    exact inside
  · intro inside
    exact ⟨_,inside,rfl⟩

theorem stepped (node : P2PNode) {c : Conn} (running : c.phase ≠ .closed) (input : Incoming) :
    Stepped input c (step node c input) := by
  obtain ⟨moved,run,outcome⟩ := stepMoves node running input
  obtain ⟨initiator,connected,events,after,closed⟩ := movesSteady run
  rcases outcome with goes | ends
  · rw [goes]
    exact ⟨Phase.noConfusion,fun _ => connected,initiator,fun key inside => closed key ((memClosings after key).mp inside)⟩
  · rw [ends]
    exact ⟨Phase.noConfusion,fun open' => absurd rfl open',initiator,
      fun key inside => closed key ((memClosings after key).mp inside)⟩

theorem stepPort (node : P2PNode) {c : Conn} (looping : c.phase = .loop) (initiator : c.peer.isInitiator = true)
    (input : Incoming) (keeps : KeepsPort node input c) :
    portText (step node c input).peer.port = portText c.peer.port := by
  obtain ⟨moved,run,outcome⟩ := stepMoves node (by rw [looping]; exact Phase.noConfusion) input
  have port := (movesOutbound looping initiator keeps run).port
  rcases outcome with goes | ends
  · rw [goes]
    exact port
  · rw [ends]
    exact port

theorem firstClosings (node : P2PNode) (input : Incoming) : closings accepted (step node accepted input) = [] := by
  obtain ⟨moved,run,outcome⟩ := stepMoves node (c := accepted) Phase.noConfusion input
  have quiet := (movesUnanswered ⟨rfl,rfl,.inl rfl,by simp [accepted]⟩ run).quiet
  have trace : (step node accepted input).trace = moved.trace := by
    rcases outcome with goes | ends
    · rw [goes]
    · rw [ends]
      rfl
  refine List.eq_nil_iff_forall_not_mem.mpr (fun key inside => ?_)
  have after : (step node accepted input).trace = accepted.trace ++ moved.trace := trace.trans (List.nil_append _).symm
  rw [memClosings after] at inside
  exact quiet key inside

end Connections

section Coherence

def Table.Live (t : Table) (i : Nat) : Prop := ∃ c, t.connections[i]? = some c ∧ c.isLive

structure Coherent (t : Table) : Prop where
  present : ∀ i, t.Live i → ∃! key, (key,i) ∈ t.peers.rows
  lively : ∀ key i, (key,i) ∈ t.peers.rows → t.Live i

def Table.Ended (t : Table) (i : Nat) : Prop := ∃ c, t.connections[i]? = some c ∧ c.conn.phase = .closed

def Ends (t t' : Table) (i : Nat) : Prop := t'.Ended i ∧ ¬t.Ended i ∨ t.Live i ∧ ¬t'.Live i

def EndsAlone (t t' : Table) : Prop :=
  (∃ i, Ends t t' i) → ∀ key i, (key,i) ∈ t'.peers.rows ↔ (key,i) ∈ t.peers.rows ∧ t'.Live i

structure Placed (t : Table) (i : Nat) : Prop where
  rows : ∀ key, (key,i) ∈ t.peers.rows ↔ ∃ c, t.connections[i]? = some c ∧ c.peerKey = key ∧ c.isLive
  outbound : ∀ c, t.connections[i]? = some c → c.isLive → c.conn.peer.isInitiator = true → c.addr = c.peerKey
  shaped : ∀ c, t.connections[i]? = some c → c.peerKey = tempKey c.host i ∨ ∃ host port, c.peerKey = addrOf host port
  fresh : ∀ c, t.connections[i]? = some c → c.conn.phase = .first → c.peerKey = tempKey c.host i ∧ c.conn = accepted

def Tidy (t : Table) : Prop := ∀ i, Placed t i

structure OnlyAt (i : Nat) (t t' : Table) : Prop where
  connections : ∀ j, j ≠ i → t'.connections[j]? = t.connections[j]?
  rows : ∀ j, j ≠ i → ∀ key, (key,j) ∈ t'.peers.rows ↔ (key,j) ∈ t.peers.rows

variable {t t' : Table} {i : Nat}

theorem OnlyAt.refl (i : Nat) (t : Table) : OnlyAt i t t := ⟨fun _ _ => rfl,fun _ _ _ => Iff.rfl⟩

theorem OnlyAt.trans {t'' : Table} (first : OnlyAt i t t') (second : OnlyAt i t' t'') : OnlyAt i t t'' where
  connections j other := (second.connections j other).trans (first.connections j other)
  rows j other key := (second.rows j other key).trans (first.rows j other key)

theorem OnlyAt.placed (only : OnlyAt i t t') {j : Nat} (other : j ≠ i) (placed : Placed t j) : Placed t' j where
  rows key := by
    rw [only.rows j other key,only.connections j other]
    exact placed.rows key
  outbound c known := placed.outbound c (only.connections j other ▸ known)
  shaped c known := placed.shaped c (only.connections j other ▸ known)
  fresh c known := placed.fresh c (only.connections j other ▸ known)

theorem OnlyAt.tidy (only : OnlyAt i t t') (tidy : Tidy t) (placed : Placed t' i) : Tidy t' := by
  intro j
  by_cases same : j = i
  · rw [same]
    exact placed
  · exact only.placed same (tidy j)

theorem OnlyAt.live (only : OnlyAt i t t') {j : Nat} (other : j ≠ i) : t'.Live j ↔ t.Live j := by
  unfold Table.Live
  rw [only.connections j other]

theorem OnlyAt.ended (only : OnlyAt i t t') {j : Nat} (other : j ≠ i) : t'.Ended j ↔ t.Ended j := by
  unfold Table.Ended
  rw [only.connections j other]

theorem Placed.lively (placed : Placed t i) {key : String} (listed : (key,i) ∈ t.peers.rows) : t.Live i := by
  obtain ⟨c,known,-,live⟩ := (placed.rows key).mp listed
  exact ⟨c,known,live⟩

theorem Tidy.coherent (tidy : Tidy t) : Coherent t where
  present i live := by
    obtain ⟨c,known,running⟩ := live
    refine ⟨c.peerKey,((tidy i).rows _).mpr ⟨c,known,rfl,running⟩,?_⟩
    intro key listed
    obtain ⟨c',known',same,-⟩ := ((tidy i).rows key).mp listed
    obtain rfl := Option.some.inj (known.symm.trans known')
    exact same.symm
  lively key i listed := (tidy i).lively listed

def Keeps (t t' : Table) : Prop := ∀ key i, (key,i) ∈ t'.peers.rows ↔ (key,i) ∈ t.peers.rows ∧ t'.Live i

theorem OnlyAt.keeps (only : OnlyAt i t t') (tidy : Tidy t) (ended : ¬t'.Live i) (placed : Placed t' i) : Keeps t t' := by
  intro key j
  by_cases same : j = i
  · rw [same]
    exact ⟨fun listed => absurd (placed.lively listed) ended,fun kept => absurd kept.2 ended⟩
  · rw [only.rows j same key,only.live same]
    exact ⟨fun listed => ⟨listed,(tidy j).lively listed⟩,And.left⟩

theorem OnlyAt.endsNone (only : OnlyAt i t t') (live : t'.Live i) : ¬∃ j, Ends t t' j := by
  rintro ⟨j,ended⟩
  by_cases same : j = i
  · subst same
    obtain ⟨c,known,running⟩ := live
    rcases ended with ⟨⟨c',known',closed⟩,-⟩ | ⟨-,dead⟩
    · obtain rfl := Option.some.inj (known.symm.trans known')
      exact running.1 closed
    · exact dead ⟨c,known,running⟩
  · rcases ended with ⟨ended,running⟩ | ⟨running,dead⟩
    · exact running ((only.ended same).mp ended)
    · exact dead ((only.live same).mpr running)

theorem OnlyAt.step (only : OnlyAt i t t') (tidy : Tidy t) (placed : Placed t' i) : Tidy t' ∧ EndsAlone t t' := by
  refine ⟨only.tidy tidy placed,fun ends => ?_⟩
  by_cases live : t'.Live i
  · exact absurd ends (only.endsNone live)
  · exact only.keeps tidy live placed

end Coherence

section Steps
variable {t : Table} {i : Nat}

theorem setRows {key : String} (free : ∀ j, (key,j) ∈ t.peers.rows → j = i) {j : Nat} (other : j ≠ i) (k : String) :
    (k,j) ∈ (t.peers.set key i).rows ↔ (k,j) ∈ t.peers.rows := by
  rw [OrderedDict.memSet]
  constructor
  · rintro (same | kept)
    · exact absurd (congrArg Prod.snd same) other
    · exact kept.1
  · intro listed
    refine .inr ⟨listed,?_⟩
    rintro rfl
    exact other (free j listed)

theorem popRows {key : String} (free : ∀ j, (key,j) ∈ t.peers.rows → j = i) {j : Nat} (other : j ≠ i) (k : String) :
    (k,j) ∈ (t.peers.pop key).rows ↔ (k,j) ∈ t.peers.rows := by
  rw [OrderedDict.memPop]
  refine ⟨And.left,fun listed => ⟨listed,?_⟩⟩
  rintro rfl
  exact other (free j listed)

theorem tempFree (tidy : Tidy t) (host : String) (i : Nat) : ∀ j, (tempKey host i,j) ∈ t.peers.rows → j = i := by
  intro j listed
  obtain ⟨c,known,named,-⟩ := ((tidy j).rows _).mp listed
  rcases (tidy j).shaped c known with temporary | ⟨host',port,addressed⟩
  · exact (tempOwn (named.symm.trans temporary)).symm
  · exact absurd (named.symm.trans addressed) (tempNotAddr _ _ _ _)

theorem freeOf {key : String} (free : t.peers.contains key = false) : ∀ j, (key,j) ∈ t.peers.rows → j = i := by
  intro j listed
  rw [(OrderedDict.containsIff ..).mpr ⟨j,listed⟩] at free
  cases free

theorem noRowAtEnd (tidy : Tidy t) (key : String) : (key,t.connections.length) ∉ t.peers.rows := by
  intro listed
  obtain ⟨c,known,-⟩ := ((tidy _).rows key).mp listed
  rw [List.getElem?_eq_none (Nat.le_refl _)] at known
  cases known

theorem appended (connections : List Connection) (c : Connection) {j : Nat} (other : j ≠ connections.length) :
    (connections ++ [c])[j]? = connections[j]? := by
  rcases Nat.lt_or_gt_of_ne other with before | after
  · exact List.getElem?_append_left before
  · rw [List.getElem?_eq_none (by rw [List.length_append]; exact after),List.getElem?_eq_none (Nat.le_of_lt after)]

theorem acceptedLive : accepted.phase ≠ .closed ∧ accepted.peer.connected = true := ⟨by simp [accepted],rfl⟩

theorem acceptStep (tidy : Tidy t) (host : String) (allowed : Bool) :
    Tidy (t.accept host allowed) ∧ EndsAlone t (t.accept host allowed) := by
  have same : Tidy t ∧ EndsAlone t t :=
    ⟨tidy,fun _ key i => ⟨fun listed => ⟨listed,(tidy i).lively listed⟩,And.left⟩⟩
  unfold Table.accept
  split
  · exact same
  split
  · exact same
  · have free := tempFree tidy host t.connections.length
    have only : OnlyAt t.connections.length t { t with
        peers := t.peers.set (tempKey host t.connections.length) t.connections.length
        connections := t.connections ++ [⟨host,accepted,tempKey host t.connections.length⟩] } :=
      ⟨fun j other => appended _ _ other,fun j other key => setRows free other key⟩
    refine only.step tidy ⟨fun key => ?_,?_,?_,?_⟩ <;> simp only [List.getElem?_concat_length,Option.some.injEq]
    · rw [OrderedDict.memSet]
      constructor
      · rintro (placed | ⟨listed,-⟩)
        · exact ⟨_,rfl,(congrArg Prod.fst placed).symm,acceptedLive⟩
        · exact absurd listed (noRowAtEnd tidy key)
      · rintro ⟨c,rfl,rfl,-⟩
        exact .inl rfl
    · rintro c rfl - outbound
      cases outbound
    · rintro c rfl
      exact .inl rfl
    · rintro c rfl -
      exact ⟨rfl,rfl⟩

theorem keyOwn (tidy : Tidy t) {c : Connection} (known : t.connections[i]? = some c) (live : c.isLive) :
    ∀ j, (c.peerKey,j) ∈ t.peers.rows → j = i := by
  intro j listed
  exact t.peers.rowUnique listed (((tidy i).rows _).mpr ⟨c,known,rfl,live⟩)

theorem rekeyed (tidy : Tidy t) {c : Connection} (known : t.connections[i]? = some c) (live : c.isLive)
    (input : Incoming) : ∃ peerKey, OnlyAt i t (t.rekey i c input) ∧
      (t.rekey i c input).connections[i]? = some { c with peerKey } ∧
      (∀ key, (key,i) ∈ (t.rekey i c input).peers.rows ↔ key = peerKey) ∧
      (peerKey = tempKey c.host i ∨ ∃ host port, peerKey = addrOf host port) := by
  have same : ∃ peerKey, OnlyAt i t t ∧ t.connections[i]? = some { c with peerKey } ∧
      (∀ key, (key,i) ∈ t.peers.rows ↔ key = peerKey) ∧
      (peerKey = tempKey c.host i ∨ ∃ host port, peerKey = addrOf host port) := by
    refine ⟨c.peerKey,.refl i t,known,fun key => ?_,(tidy i).shaped c known⟩
    rw [(tidy i).rows key]
    constructor
    · rintro ⟨c',known',rfl,-⟩
      rw [Option.some.inj (known.symm.trans known')]
    · rintro rfl
      exact ⟨c,known,rfl,live⟩
  unfold Table.rekey
  split
  · split
    · exact same
    · rename_i newPort _
      unfold Table.updatePeerKey
      split
      · exact same
      · have inside : i < t.connections.length := (List.getElem?_eq_some_iff.mp known).1
        have left : ∀ key, (key,i) ∉ (t.peers.pop c.peerKey).rows := by
          intro key listed
          obtain ⟨listed,other⟩ := (OrderedDict.memPop ..).mp listed
          obtain ⟨c',known',named,-⟩ := ((tidy i).rows key).mp listed
          rw [Option.some.inj (known.symm.trans known')] at other
          exact other named.symm
        let peerKey :=
          if (t.peers.pop c.peerKey).contains (addrOf c.host newPort) then tempKey c.host i else addrOf c.host newPort
        have free : ∀ j, (peerKey,j) ∈ (t.peers.pop c.peerKey).rows → j = i := by
          intro j listed
          unfold peerKey at listed
          split at listed
          · exact tempFree tidy c.host i j ((OrderedDict.memPop ..).mp listed).1
          · rename_i absent
            exact absurd ((OrderedDict.containsIff ..).mpr ⟨j,listed⟩) absent
        refine ⟨peerKey,⟨fun j other => ?_,fun j other key => ?_⟩,?_,fun key => ?_,?_⟩
        · exact List.getElem?_set_ne (Ne.symm other)
        · exact (setRows (t := { t with peers := t.peers.pop c.peerKey }) free other key).trans
            (popRows (keyOwn tidy known live) other key)
        · exact List.getElem?_set_self inside
        · rw [OrderedDict.memSet]
          constructor
          · rintro (placed | ⟨listed,-⟩)
            · exact congrArg Prod.fst placed
            · exact absurd listed (left key)
          · rintro rfl
            exact .inl rfl
        · unfold peerKey
          split
          · exact .inl rfl
          · exact .inr ⟨c.host,newPort,rfl⟩
  · exact same

structure Fades (t t' : Table) : Prop where
  keeps : Keeps t t'
  live : ∀ i, t'.Live i → t.Live i

theorem Fades.trans {t' t'' : Table} (first : Fades t t') (second : Fades t' t'') : Fades t t'' where
  keeps key i := by
    rw [second.keeps key i,first.keeps key i,and_assoc]
    exact and_congr_right fun _ => ⟨And.right,fun live => ⟨second.live i live,live⟩⟩
  live i live := first.live i (second.live i live)

theorem Tidy.fades (tidy : Tidy t) : Fades t t where
  keeps _ i := ⟨fun listed => ⟨listed,(tidy i).lively listed⟩,And.left⟩
  live _ := id

theorem closeOtherTidy (tidy : Tidy t) (key : String) (past : ∀ j c, (key,j) ∈ t.peers.rows →
    t.connections[j]? = some c → c.conn.phase ≠ .first) : Tidy (t.closeOther key) ∧ Fades t (t.closeOther key) := by
  unfold Table.closeOther
  split
  · exact ⟨tidy,tidy.fades⟩
  · rename_i j found
    have listed := (OrderedDict.getIff ..).mp found
    obtain ⟨c,known,named,live⟩ := ((tidy j).rows key).mp listed
    have changed : (t.connections.modify j Connection.disconnect)[j]? = some c.disconnect := by
      rw [List.getElem?_modify_eq,known]
      rfl
    have only : OnlyAt j t { t with
        peers := t.peers.pop key, connections := t.connections.modify j Connection.disconnect } :=
      ⟨fun k other => List.getElem?_modify_ne _ _ (Ne.symm other),
        fun k other => popRows (fun _ => fun row => t.peers.rowUnique row listed) other⟩
    have dead : ¬Table.Live { t with
        peers := t.peers.pop key, connections := t.connections.modify j Connection.disconnect } j := by
      rintro ⟨c',known',running⟩
      obtain rfl := Option.some.inj (changed.symm.trans known')
      exact absurd running.2 Bool.false_ne_true
    have placed : Placed { t with
        peers := t.peers.pop key, connections := t.connections.modify j Connection.disconnect } j := by
      refine ⟨fun k => ⟨fun row => ?_,fun held => ?_⟩,?_,?_,?_⟩
      · obtain ⟨row,different⟩ := (OrderedDict.memPop ..).mp row
        obtain ⟨c',known',named',-⟩ := ((tidy j).rows k).mp row
        obtain rfl := Option.some.inj (known.symm.trans known')
        exact absurd (named'.symm.trans named) different
      · obtain ⟨c',known',-,running⟩ := held
        exact absurd ⟨c',known',running⟩ dead
      · intro c' known' running
        exact absurd ⟨c',known',running⟩ dead
      · intro c' known'
        obtain rfl := Option.some.inj (changed.symm.trans known')
        exact (tidy j).shaped c known
      · intro c' known' waiting
        obtain rfl := Option.some.inj (changed.symm.trans known')
        exact absurd waiting (past j c listed known)
    refine ⟨only.tidy tidy placed,only.keeps tidy dead placed,fun k running => ?_⟩
    by_cases same : k = j
    · rw [same]
      exact ⟨c,known,live⟩
    · exact (only.live same).mp running

theorem closeOtherConnections (t : Table) (key : String) (j : Nat) :
    ((key,j) ∉ t.peers.rows → (t.closeOther key).connections[j]? = t.connections[j]?) ∧
      ∀ c', (t.closeOther key).connections[j]? = some c' →
        ∃ c, t.connections[j]? = some c ∧ c'.conn.phase = c.conn.phase := by
  unfold Table.closeOther
  split
  · exact ⟨fun _ => rfl,fun c' known => ⟨c',known,rfl⟩⟩
  · rename_i k found
    have listed := (OrderedDict.getIff ..).mp found
    by_cases same : k = j
    · subst same
      refine ⟨fun absent => absurd listed absent,fun c' known => ?_⟩
      rw [List.getElem?_modify_eq] at known
      obtain ⟨c,before,rfl⟩ := Option.map_eq_some_iff.mp known
      exact ⟨c,before,rfl⟩
    · have kept := List.getElem?_modify_ne Connection.disconnect t.connections same
      exact ⟨fun _ => kept,fun c' known => ⟨c',kept.symm.trans known,rfl⟩⟩

theorem closeAllTidy (keys : List String) (tidy : Tidy t) (past : ∀ key ∈ keys, ∀ j c, (key,j) ∈ t.peers.rows →
    t.connections[j]? = some c → j ≠ i ∧ c.conn.phase ≠ .first) :
    Tidy (keys.foldl Table.closeOther t) ∧ Fades t (keys.foldl Table.closeOther t) ∧
      (keys.foldl Table.closeOther t).connections[i]? = t.connections[i]? := by
  induction keys generalizing t with
  | nil => exact ⟨tidy,tidy.fades,rfl⟩
  | cons key rest ih =>
    rw [List.foldl_cons]
    obtain ⟨tidy',fades⟩ := closeOtherTidy tidy key
      (fun j c listed known => (past key List.mem_cons_self j c listed known).2)
    have later : ∀ k ∈ rest, ∀ j c, (k,j) ∈ (t.closeOther key).peers.rows →
        (t.closeOther key).connections[j]? = some c → j ≠ i ∧ c.conn.phase ≠ .first := by
      intro k inside j c listed known
      obtain ⟨before,known',phase⟩ := (closeOtherConnections t key j).2 c known
      have kept := past k (List.mem_cons_of_mem _ inside) j before ((fades.keeps k j).mp listed).1 known'
      rw [phase]
      exact kept
    obtain ⟨tidy'',fades',same⟩ := ih tidy' later
    refine ⟨tidy'',fades.trans fades',same.trans ((closeOtherConnections t key i).1 fun listed => ?_)⟩
    obtain ⟨c,known,-⟩ := ((tidy i).rows key).mp listed
    exact (past key List.mem_cons_self i c listed known).1 rfl

variable [Env] [Channel]

omit [Env] in
theorem connectPeer (node : P2PNode) (port : Int) (input : Incoming) :
    (Handshake.connect node port input).peer.port = .int port ∧
      (Handshake.connect node port input).peer.isInitiator = true ∧
      ((Handshake.connect node port input).phase ≠ .closed →
        (Handshake.connect node port input).peer.connected = true) := by
  unfold Handshake.connect
  dsimp only
  split
  · split
    · exact ⟨rfl,rfl,fun running => absurd rfl running⟩
    · exact ⟨rfl,rfl,fun _ => rfl⟩
  · exact ⟨rfl,rfl,fun _ => rfl⟩

omit [Env] in
theorem registerStep (tidy : Tidy t) (node : P2PNode) (host : String) (port : Int) (input : Incoming)
    (free : t.peers.contains (addrOf host (.int port)) = false) :
    Tidy (t.register node host port input) ∧ EndsAlone t (t.register node host port input) := by
  have own := freeOf (i := t.connections.length) free
  have first := connectPhase node port input
  obtain ⟨ported,initiator,connected⟩ := connectPeer node port input
  unfold Table.register
  generalize Handshake.connect node port input = conn at first ported initiator connected ⊢
  have only : OnlyAt t.connections.length t { t with
      peers := if conn.phase = .closed then (t.peers.set (addrOf host (.int port)) t.connections.length).pop
        (addrOf host (.int port)) else t.peers.set (addrOf host (.int port)) t.connections.length
      connections := t.connections ++ [⟨host,conn,addrOf host (.int port)⟩] } := by
    refine ⟨fun j other => appended _ _ other,fun j other key => ?_⟩
    dsimp only
    split
    · rw [popRows (t := { t with peers := t.peers.set (addrOf host (.int port)) t.connections.length }) ?_ other,
        setRows own other]
      intro k listed
      rcases (OrderedDict.memSet ..).mp listed with same | ⟨-,absent⟩
      · exact congrArg Prod.snd same
      · exact absurd rfl absent
    · exact setRows own other key
  refine only.step tidy ⟨fun key => ?_,?_,?_,?_⟩ <;> simp only [List.getElem?_concat_length,Option.some.injEq]
  · constructor
    · intro listed
      split at listed
      · rw [OrderedDict.memPop,OrderedDict.memSet] at listed
        rcases listed with ⟨placed | ⟨listed,-⟩,absent⟩
        · exact absurd (congrArg Prod.fst placed) absent
        · exact absurd listed (noRowAtEnd tidy key)
      · rename_i running
        rcases (OrderedDict.memSet ..).mp listed with placed | ⟨listed,-⟩
        · exact ⟨_,rfl,(congrArg Prod.fst placed).symm,running,connected running⟩
        · exact absurd listed (noRowAtEnd tidy key)
    · rintro ⟨c,rfl,rfl,running,-⟩
      rw [if_neg running]
      exact (OrderedDict.memSet ..).mpr (.inl rfl)
  · rintro c rfl - -
    unfold Connection.addr
    dsimp only
    rw [ported]
  · rintro c rfl
    exact .inr ⟨host,_,rfl⟩
  · rintro c rfl waiting
    exact absurd waiting first

omit [Env] [Channel] in
theorem recorded {c : Connection} (known : t.connections[i]? = some c) (conn : Conn) :
    (t.record i conn).connections[i]? = some { c with conn } ∧
      (∀ j, j ≠ i → (t.record i conn).connections[j]? = t.connections[j]?) ∧
      (t.record i conn).peers =
        if conn.phase = .closed then t.peers.pop { c with conn : Connection }.finalKey else t.peers := by
  unfold Table.record
  rw [known]
  exact ⟨List.getElem?_set_self (List.getElem?_eq_some_iff.mp known).1,
    fun j other => List.getElem?_set_ne (Ne.symm other),rfl⟩

omit [Env] [Channel] in
theorem recordPlaced {c : Connection} {conn : Conn} (known : t.connections[i]? = some c)
    (rows : ∀ key, (key,i) ∈ t.peers.rows ↔ key = c.peerKey ∧ c.conn.peer.connected = true)
    (shaped : c.peerKey = tempKey c.host i ∨ ∃ host port, c.peerKey = addrOf host port)
    (past : conn.phase ≠ .first) (connected : conn.phase ≠ .closed → conn.peer.connected = c.conn.peer.connected)
    (outbound : c.conn.peer.connected = true → conn.peer.isInitiator = true →
      { c with conn : Connection }.addr = c.peerKey)
    (free : c.conn.peer.connected = false → conn.phase = .closed →
      t.peers.contains { c with conn : Connection }.finalKey = false) :
    OnlyAt i t (t.record i conn) ∧ Placed (t.record i conn) i := by
  obtain ⟨here,others,peers⟩ := recorded known conn
  have final : c.conn.peer.connected = true → { c with conn : Connection }.finalKey = c.peerKey := by
    intro connected
    unfold Connection.finalKey
    split
    · rename_i initiator
      exact outbound connected initiator
    · rfl
  have own : conn.phase = .closed → ∀ j, ({ c with conn : Connection }.finalKey,j) ∈ t.peers.rows → j = i := by
    intro closed j listed
    cases open' : c.conn.peer.connected with
    | true =>
      rw [final open'] at listed
      exact t.peers.rowUnique listed ((rows _).mpr ⟨rfl,open'⟩)
    | false => exact freeOf (free open' closed) j listed
  refine ⟨⟨others,fun j other key => ?_⟩,⟨fun key => ?_,?_,?_,?_⟩⟩
  · rw [peers]
    split
    · rename_i closed
      exact popRows (own closed) other key
    · rfl
  · rw [peers,here]
    simp only [Option.some.injEq]
    split
    · rename_i closed
      constructor
      · intro listed
        obtain ⟨listed,different⟩ := (OrderedDict.memPop ..).mp listed
        obtain ⟨rfl,open'⟩ := (rows key).mp listed
        exact absurd (final open').symm different
      · rintro ⟨_,rfl,-,running,-⟩
        exact absurd closed running
    · rename_i running
      rw [rows key]
      constructor
      · rintro ⟨rfl,open'⟩
        exact ⟨_,rfl,rfl,running,(connected running).trans open'⟩
      · rintro ⟨_,rfl,rfl,-,open'⟩
        exact ⟨rfl,(connected running).symm.trans open'⟩
  · intro c' known' live initiator
    obtain rfl := Option.some.inj (here.symm.trans known')
    exact outbound ((connected live.1).symm.trans live.2) initiator
  · intro c' known'
    obtain rfl := Option.some.inj (here.symm.trans known')
    exact shaped
  · intro c' known' waiting
    obtain rfl := Option.some.inj (here.symm.trans known')
    exact absurd waiting past

omit [Env] [Channel] in
theorem memOthers {other : OtherPeer} : other ∈ t.others i ↔ ∃ j c, j ≠ i ∧ (other.key,j) ∈ t.peers.rows ∧
    t.connections[j]? = some c ∧ c.conn.peer.authenticated = other.authenticated ∧
    c.conn.peer.remoteAddress = other.remoteAddress := by
  unfold Table.others
  rw [List.mem_filterMap]
  constructor
  · rintro ⟨⟨key,j⟩,row,shown⟩
    dsimp only at shown
    split at shown
    · cases shown
    · rename_i different
      obtain ⟨c,known,rfl⟩ := Option.map_eq_some_iff.mp shown
      exact ⟨j,c,different,row,known,rfl,rfl⟩
  · rintro ⟨j,c,different,row,known,authenticated,remote⟩
    refine ⟨(other.key,j),row,?_⟩
    dsimp only
    rw [if_neg different,known,Option.map_some,authenticated,remote]

/- No key changes hands: a socket does not open on a key in use, an outbound peer stays on its port,
and a closed connection does not end while its key is another's. -/
def Undisturbed (node : P2PNode) (t : Table) : Action → Prop
  | .opened n (some _) =>
    ∀ host port, t.opening[n]? = some (host,port) → t.peers.contains (addrOf host (.int port)) = false
  | .hear i input => ∀ c, t.connections[i]? = some c → c.conn.phase ≠ .closed →
    (c.conn.peer.isInitiator = true → KeepsPort node input c.conn) ∧
      (c.conn.peer.connected = false → (step node c.conn { input with others := t.others i }).phase = .closed →
        t.peers.contains c.finalKey = false)
  | _ => True

theorem hearFirst (tidy : Tidy t) (node : P2PNode) (input : Incoming) {c : Connection}
    (known : t.connections[i]? = some c) (first : c.conn.phase = .first) :
    Tidy (t.hear node i input) ∧ EndsAlone t (t.hear node i input) := by
  have fresh := ((tidy i).fresh c known first).2
  have live : c.isLive := by
    rw [Connection.isLive,fresh]
    exact acceptedLive
  obtain ⟨peerKey,only,here,rows,shaped⟩ := rekeyed tidy known live input
  obtain ⟨past,connected,initiator,-⟩ := stepped node live.1 { input with others := t.others i }
  have none : closings c.conn (step node c.conn { input with others := t.others i }) = [] := by
    rw [fresh]
    exact firstClosings ..
  unfold Table.hear
  rw [known]
  dsimp only
  rw [if_neg live.1,none,List.foldl_nil]
  generalize step node c.conn { input with others := t.others i } = conn at past connected initiator ⊢
  obtain ⟨later,placed⟩ := recordPlaced here
    (fun key => (rows key).trans ⟨fun same => ⟨same,live.2⟩,And.left⟩) shaped past connected
    (fun _ outbound => by
      rw [initiator,fresh] at outbound
      cases outbound)
    (fun closed => by
      rw [show ({ c with peerKey } : Connection).conn.peer.connected = c.conn.peer.connected from rfl,live.2] at closed
      cases closed)
  exact (only.trans later).step tidy placed

theorem hearLater (tidy : Tidy t) (node : P2PNode) (input : Incoming) {c : Connection}
    (known : t.connections[i]? = some c) (looping : c.conn.phase = .loop)
    (calm : Undisturbed node t (.hear i input)) :
    Tidy (t.hear node i input) ∧ EndsAlone t (t.hear node i input) := by
  have running : c.conn.phase ≠ .closed := by
    rw [looping]
    exact Phase.noConfusion
  have notFirst : c.conn.phase ≠ .first := by
    rw [looping]
    exact Phase.noConfusion
  obtain ⟨keepsPort,free⟩ := calm c known running
  obtain ⟨past,connected,initiator,closed⟩ := stepped node running { input with others := t.others i }
  have port : c.conn.peer.isInitiator = true →
      portText (step node c.conn { input with others := t.others i }).peer.port = portText c.conn.peer.port :=
    fun outbound => stepPort node looping outbound _ (keepsPortOthers (keepsPort outbound) (t.others i))
  unfold Table.hear
  rw [known]
  dsimp only
  rw [if_neg running,show t.rekey i c input = t from if_neg notFirst]
  generalize step node c.conn { input with others := t.others i } = conn at past connected initiator closed port free ⊢
  obtain ⟨tidy',fades,same⟩ := closeAllTidy (i := i) (closings c.conn conn) tidy (by
    intro key inside j other listed here
    obtain ⟨shown,listed',authenticated,rfl⟩ := closed key inside
    obtain ⟨k,c',different,row,there,shows,-⟩ := memOthers.mp listed'
    obtain rfl := t.peers.rowUnique listed row
    obtain rfl := Option.some.inj (here.symm.trans there)
    refine ⟨different,fun first => ?_⟩
    rw [authenticated,((tidy j).fresh other here first).2] at shows
    cases shows)
  generalize (closings c.conn conn).foldl Table.closeOther t = between at tidy' fades same ⊢
  have here : between.connections[i]? = some c := same.trans known
  have final : { c with conn : Connection }.finalKey = c.finalKey := by
    unfold Connection.finalKey Connection.addr addrOf
    dsimp only
    rw [initiator]
    split
    · rename_i outbound
      rw [port outbound]
    · rfl
  obtain ⟨only,placed⟩ := recordPlaced here
    (fun key => by
      rw [(tidy' i).rows key,here]
      constructor
      · rintro ⟨c',found,rfl,live⟩
        obtain rfl := Option.some.inj found
        exact ⟨rfl,live.2⟩
      · rintro ⟨rfl,open'⟩
        exact ⟨c,rfl,rfl,running,open'⟩)
    ((tidy' i).shaped c here) past connected
    (fun open' outbound => by
      rw [initiator] at outbound
      rw [← (tidy i).outbound c known ⟨running,open'⟩ outbound]
      unfold Connection.addr addrOf
      dsimp only
      rw [port outbound])
    (fun open' ended => by
      rw [final]
      have absent := free open' ended
      rw [← Bool.not_eq_true,OrderedDict.containsIff] at absent ⊢
      rintro ⟨j,listed⟩
      exact absent ⟨j,((fades.keeps _ j).mp listed).1⟩)
  refine ⟨only.tidy tidy' placed,fun _ key j => ?_⟩
  by_cases other : j = i
  · subst other
    rw [placed.rows key,(tidy j).rows key,(recorded here conn).1]
    constructor
    · rintro ⟨c',found,rfl,live⟩
      obtain rfl := Option.some.inj found
      exact ⟨⟨c,known,rfl,running,(connected live.1).symm.trans live.2⟩,_,(recorded here conn).1,live⟩
    · rintro ⟨⟨c',known',rfl,-⟩,after,there,live⟩
      obtain rfl := Option.some.inj (known.symm.trans known')
      obtain rfl := Option.some.inj ((recorded here conn).1.symm.trans there)
      exact ⟨_,rfl,rfl,live⟩
  · rw [only.rows j other key,fades.keeps key j,only.live other]

theorem hearStep (tidy : Tidy t) (node : P2PNode) (i : Nat) (input : Incoming) (calm : Undisturbed node t (.hear i input)) :
    Tidy (t.hear node i input) ∧ EndsAlone t (t.hear node i input) := by
  have same : Tidy t ∧ EndsAlone t t :=
    ⟨tidy,fun _ key i => ⟨fun listed => ⟨listed,(tidy i).lively listed⟩,And.left⟩⟩
  cases known : t.connections[i]? with
  | none =>
    unfold Table.hear
    rw [known]
    exact same
  | some c =>
    cases phase : c.conn.phase with
    | first => exact hearFirst tidy node input known phase
    | loop => exact hearLater tidy node input known phase calm
    | closed =>
      unfold Table.hear
      rw [known]
      dsimp only
      rw [if_pos phase]
      exact same

theorem actStep (tidy : Tidy t) (node : P2PNode) (action : Action) (calm : Undisturbed node t action) :
    Tidy (t.act node action) ∧ EndsAlone t (t.act node action) := by
  have same : Tidy t ∧ EndsAlone t t :=
    ⟨tidy,fun _ key i => ⟨fun listed => ⟨listed,(tidy i).lively listed⟩,And.left⟩⟩
  have opening : ∀ rest, Tidy { t with opening := rest } := fun rest i => ⟨(tidy i).rows,(tidy i).outbound,
    (tidy i).shaped,(tidy i).fresh⟩
  cases action with
  | connect host port safe =>
    simp only [Table.act,Table.connect]
    split
    · exact same
    split
    · exact same
    split
    · exact same
    · exact ⟨opening _,same.2⟩
  | opened n input =>
    simp only [Table.act,Table.opened]
    split
    · exact same
    · rename_i host port found
      cases input with
      | none => exact ⟨opening _,same.2⟩
      | some input =>
        exact registerStep (opening _) node host port input (calm host port found)
  | accept host allowed => exact acceptStep tidy host allowed
  | hear i input => exact hearStep tidy node i input calm

inductive Reachable (node : P2PNode) : Table → Prop where
  | start : Reachable node .empty
  | act {t : Table} {action : Action} (reached : Reachable node t) (calm : Undisturbed node t action) :
    Reachable node (t.act node action)

theorem reachableTidy {node : P2PNode} (reached : Reachable node t) : Tidy t := by
  induction reached with
  | start => exact fun i => ⟨fun key => ⟨fun listed => absurd listed List.not_mem_nil,by simp [Table.empty]⟩,
      by simp [Table.empty],by simp [Table.empty],by simp [Table.empty]⟩
  | act _ calm ih => exact (actStep ih _ _ calm).1

theorem coherentInRun (node : P2PNode) {t : Table} (reached : Reachable node t) :
    Coherent t ∧ ∀ action, Undisturbed node t action → EndsAlone t (t.act node action) :=
  ⟨(reachableTidy reached).coherent,fun action calm => (actStep (reachableTidy reached) node action calm).2⟩

end Steps

namespace Devnet
open QbitNetwork.Devnet Handshake.Devnet

section Legacy
attribute [local instance] legacy plainChannel

def hello : Incoming := incoming "hello" [("port",.int 9000)] []
def asking : Incoming := incoming "" [] (List.replicate challengeLen 5)
def ended : Incoming := { incoming "" [] [] with received := .ended }

def response : Incoming :=
  incoming "auth_response" [("protocol_version",.int 4),("port",.int 9001),("signing_pk",.str (hex longKey)),
    ("challenge_sig",signedBy longKey (List.replicate challengeLen 5)),
    ("counter_challenge",.str (hex (List.replicate challengeLen 6)))] []

def tableAfter (actions : List Action) : Table := actions.foldl (Table.act responder) .empty

def peering : List Action :=
  [.accept "198.51.100.7" true,.hear 0 hello,.connect "203.0.113.9" 9000 true,.opened 0 (some asking)]

theorem peeringReachable :
    Reachable responder (tableAfter peering) ∧ Undisturbed responder (tableAfter peering) (.hear 0 ended) := by
  have inbound : ∀ (t : Table) (input : Incoming),
      t.connections[0]?.map (fun c => (c.conn.peer.isInitiator,c.conn.peer.connected)) = some (false,true) →
        Undisturbed responder t (.hear 0 input) := by
    intro t input found c known _
    rw [known] at found
    obtain ⟨initiator,connected⟩ := Prod.mk.inj (Option.some.inj found)
    constructor
    · intro outbound
      rw [initiator] at outbound
      cases outbound
    · intro closed
      rw [connected] at closed
      cases closed
  have accepts : Reachable responder (tableAfter (peering.take 1)) :=
    .act .start (show Undisturbed responder .empty (.accept "198.51.100.7" true) from trivial)
  have greets : Reachable responder (tableAfter (peering.take 2)) :=
    .act accepts (inbound (tableAfter (peering.take 1)) hello (by decide +kernel))
  have waits : Reachable responder (tableAfter (peering.take 3)) :=
    .act greets (show Undisturbed responder _ (.connect "203.0.113.9" 9000 true) from trivial)
  suffices opens : Undisturbed responder (tableAfter (peering.take 3)) (.opened 0 (some asking)) from
    ⟨.act waits opens,inbound (tableAfter peering) ended (by decide +kernel)⟩
  intro host port waiting
  have asked : (tableAfter (peering.take 3)).opening[0]? = some ("203.0.113.9",9000) := by decide +kernel
  obtain ⟨rfl,rfl⟩ := Prod.mk.inj (Option.some.inj (asked.symm.trans waiting))
  decide +kernel

theorem peeringCoherent : Coherent (tableAfter peering) ∧ (tableAfter peering).peers.size = 2 ∧
    EndsAlone (tableAfter peering) ((tableAfter peering).act responder (.hear 0 ended)) := by
  have reached := coherentInRun responder peeringReachable.1
  exact ⟨reached.1,by decide +kernel,reached.2 _ peeringReachable.2⟩

def moved : List Action :=
  [.connect "198.51.100.7" 9000 true,.opened 0 (some asking),.hear 0 response,.hear 0 ended]

def twice : List Action :=
  [.connect "198.51.100.7" 9000 true,.connect "198.51.100.7" 9000 true,.opened 0 (some asking),.opened 0 (some asking)]

theorem entriesAstray : ¬Coherent (tableAfter moved) ∧ ¬Coherent (tableAfter twice) := by
  constructor
  · intro coherent
    have run : ("198.51.100.7:9000",0) ∈ (tableAfter moved).peers.rows ∧
        (tableAfter moved).connections[0]?.map (fun c => c.conn.phase) = some .closed := by decide +kernel
    obtain ⟨listed,closed⟩ := run
    obtain ⟨c,known,running,-⟩ := coherent.lively "198.51.100.7:9000" 0 listed
    rw [known] at closed
    exact running (Option.some.inj closed)
  · intro coherent
    have run : (tableAfter twice).connections[0]?.map (fun c => (c.conn.phase,c.conn.peer.connected)) =
        some (.loop,true) ∧ ∀ row ∈ (tableAfter twice).peers.rows, row.2 ≠ 0 := by decide +kernel
    obtain ⟨live,absent⟩ := run
    obtain ⟨c,known,phase⟩ := Option.map_eq_some_iff.mp live
    obtain ⟨looping,connected⟩ := Prod.mk.inj phase
    obtain ⟨key,listed,-⟩ := coherent.present 0 ⟨c,known,by rw [looping]; exact Phase.noConfusion,connected⟩
    exact absent _ listed rfl

end Legacy

end Devnet

end QbitNetwork.Handshake.PeerTable
