import QbitNetwork.Duplicates
import QbitNetwork.PeerTableLaws

/-! When duplicate connections collapse to one: exactly if only connections of the smaller address
complete beside another and both sides complete the same one last. -/
namespace QbitNetwork.Handshake.Duplicates

section Completion
variable [Env] [Channel] {node : P2PNode} {publicKey : Bytes} {c : Conn} {input : Incoming}

def duplicate (publicKey : Bytes) (others : List OtherPeer) : Option OtherPeer :=
  others.find? (fun other => other.authenticated && other.remoteAddress == deriveAddress publicKey)

def preferred (node : P2PNode) (publicKey : Bytes) (c : Conn) : Prop :=
  (compare node.validatorAddress (deriveAddress publicKey) == .lt) = c.peer.isInitiator

structure Kept (publicKey : Bytes) (keys : List String) (c c' : Conn) : Prop where
  phase : c'.phase = .loop
  connected : c'.peer.connected = c.peer.connected
  authenticated : c'.peer.authenticated = true
  remoteAddress : c'.peer.remoteAddress = deriveAddress publicKey
  unblamed : Event.recorded "auth_failed" ∈ c'.trace → Event.recorded "auth_failed" ∈ c.trace
  closings : PeerTable.closings c c' = keys

structure Refused (c c' : Conn) : Prop where
  phase : c'.phase = .closed
  blamed : Event.recorded "auth_failed" ∈ c'.trace
  closings : PeerTable.closings c c' = []

def Deduped (node : P2PNode) (publicKey : Bytes) (input : Incoming) (c c' : Conn) : Prop :=
  match duplicate publicKey input.others with
  | none => Kept publicKey [] c c'
  | some other => preferred node publicKey c ∧ Kept publicKey [other.key] c c' ∨ ¬preferred node publicKey c ∧ Refused c c'

def mild (event : Event) : Prop := (∀ key, event ≠ .closedOther key) ∧ ∀ name, event ≠ .recorded name

structure Through (publicKey : Bytes) (c c' : Conn) : Prop where
  isInitiator : c'.peer.isInitiator = c.peer.isInitiator
  connected : c'.peer.connected = c.peer.connected
  authenticated : c'.peer.authenticated = true
  remoteAddress : c'.peer.remoteAddress = deriveAddress publicKey
  events : ∃ events, c'.trace = c.trace ++ events ∧ ∀ event ∈ events, mild event

omit [Env] [Channel] in
theorem mildKeys {events : List Event} (plain : ∀ event ∈ events, mild event) :
    events.filterMap PeerTable.closedKey = [] := by
  refine List.filterMap_eq_nil_iff.mpr (fun event inside => ?_)
  cases event with
  | closedOther key => exact absurd rfl ((plain _ inside).1 key)
  | _ => rfl

omit [Env] [Channel] in
theorem mildClosings {c c' : Conn} {events : List Event} (more : List Event) (after : c'.trace = c.trace ++ (events ++ more))
    (plain : ∀ event ∈ events, mild event) :
    PeerTable.closings c c' = more.filterMap PeerTable.closedKey := by
  unfold PeerTable.closings
  rw [after,List.drop_left,List.filterMap_append,mildKeys plain,List.nil_append]

omit [Channel] in
theorem dedupSettles {p : Conn} {later : Conn → Conn} (named : node.validatorAddress ≠ "")
    (nonempty : deriveAddress publicKey ≠ "") (through : Through publicKey c p)
    (goes : ∀ kept : Conn, kept.peer = p.peer → Through publicKey kept (later kept)) :
    Deduped node publicKey input c (settle
      (match dedupConnection node input p with
      | (true,closing) => .ok (false,closing.emit (.recorded "auth_failed"))
      | (false,kept) => .ok (true,later kept))) := by
  obtain ⟨events,after,plain⟩ := through.events
  have keeps : ∀ (kept : Conn) (more : List Event), kept.peer = p.peer → kept.trace = p.trace ++ more →
      (∀ name, .recorded name ∉ more) → Kept publicKey (more.filterMap PeerTable.closedKey) c { later kept with phase := .loop } := by
    intro kept more same trace unblamed
    have gone := goes kept same
    obtain ⟨events',after',plain'⟩ := gone.events
    have whole : (later kept).trace = c.trace ++ (events ++ (more ++ events')) := by
      rw [after',trace,after]
      simp only [List.append_assoc]
    refine ⟨rfl,?_,gone.authenticated,gone.remoteAddress,fun inside => ?_,?_⟩
    · exact (gone.connected.trans (congrArg Peer.connected same)).trans through.connected
    · rw [show ({ later kept with phase := .loop } : Conn).trace = (later kept).trace from rfl,whole] at inside
      simp only [List.mem_append] at inside
      rcases inside with before | listed | listed | listed
      · exact before
      · exact absurd rfl ((plain _ listed).2 "auth_failed")
      · exact absurd listed (unblamed _)
      · exact absurd rfl ((plain' _ listed).2 "auth_failed")
    · have closed : PeerTable.closings c { later kept with phase := .loop } = _ := mildClosings (more ++ events') whole plain
      rw [closed,List.filterMap_append,mildKeys plain',List.append_nil]
  unfold Deduped duplicate dedupConnection
  rw [through.remoteAddress,if_neg (not_or.mpr ⟨nonempty,named⟩)]
  cases found : input.others.find? (fun other => other.authenticated && other.remoteAddress == deriveAddress publicKey) with
  | none => exact keeps p [] rfl (List.append_nil _).symm (by simp)
  | some other =>
    dsimp only
    rw [through.isInitiator]
    by_cases prefers : (compare node.validatorAddress (deriveAddress publicKey) == .lt) = c.peer.isInitiator
    · rw [if_pos prefers]
      exact .inl ⟨prefers,keeps (p.emit (.closedOther other.key)) [.closedOther other.key] rfl rfl (by simp)⟩
    · rw [if_neg prefers]
      refine .inr ⟨prefers,rfl,List.mem_append_right _ (List.mem_singleton_self _),?_⟩
      exact (mildClosings [.recorded "auth_failed"] (by
        rw [← List.append_assoc,← after]
        rfl) plain).trans rfl

theorem stepMessage {type : String} {fields : Message} (looping : c.phase = .loop)
    (received : input.received = .value (.obj [("type",.str type),("data",.obj fields)])) (exempt : type ∈ rateExempt)
    (plain : type ≠ "encrypted") : step node c input = settle (process node input (.str type) (.obj fields) c) := by
  have named : Message.get [("type",.str type),("data",.obj fields)] "type" (.str "") = .str type := by
    simp [Message.get,Json.lookup]
  have carried : Message.get [("type",.str type),("data",.obj fields)] "data" (.obj []) = .obj fields := by
    simp [Message.get,Json.lookup]
  have open' : (Json.str type).equal (.str "encrypted") = false := by
    rw [Json.equal]
    exact beq_eq_false_iff_ne.mpr plain
  have unlimited : ¬((∀ t ∈ some type, t ∉ rateExempt) ∧ input.rateAllowed = false) :=
    fun limited => limited.1 type rfl exempt
  unfold step
  rw [looping]
  dsimp only
  unfold onMessage
  rw [received]
  simp only [fieldsOf,bind,Except.bind,named,carried,Json.tableKey,escape]
  rw [if_neg unlimited,open']
  rfl

omit [Channel] in
theorem validCheck {signature : Bytes}
    (valid : verifySig publicKey (buildAuthMessage c.peer.challenge (deriveAddress publicKey)) signature = true) :
    checkChallenge input publicKey signature c =
      (true,c.clearChallenge.emit (.checked c.peer.challenge publicKey signature input.monotonic true)) := by
  unfold checkChallenge
  dsimp only
  rw [valid]

omit [Channel] in
theorem validatorThrough {p : Conn} {peer : Peer} (events : List Event) (status : p.peer = checkValidatorStatus node peer)
    (trace : p.trace = c.trace ++ events) (plain : ∀ event ∈ events, mild event)
    (isInitiator : peer.isInitiator = c.peer.isInitiator) (connected : peer.connected = c.peer.connected)
    (authenticated : peer.authenticated = true) (remoteAddress : peer.remoteAddress = deriveAddress publicKey) :
    Through publicKey c p := by
  have kept : (checkValidatorStatus node peer).isInitiator = peer.isInitiator ∧
      (checkValidatorStatus node peer).connected = peer.connected ∧
      (checkValidatorStatus node peer).authenticated = peer.authenticated ∧
      (checkValidatorStatus node peer).remoteAddress = peer.remoteAddress := by
    unfold checkValidatorStatus
    split <;> exact ⟨rfl,rfl,rfl,rfl⟩
  rw [← status] at kept
  exact ⟨kept.1.trans isInitiator,kept.2.1.trans connected,kept.2.2.1.trans authenticated,
    kept.2.2.2.trans remoteAddress,events,trace,plain⟩

omit [Channel] in
theorem channelThrough {kept : Conn} (authenticated : kept.peer.authenticated = true)
    (remoteAddress : kept.peer.remoteAddress = deriveAddress publicKey) (wireFormat : String) :
    Through publicKey kept ((initiateEncryptedChannel node input kept).withPeer
      { (initiateEncryptedChannel node input kept).peer with wireFormat }) := by
  unfold initiateEncryptedChannel
  split
  · exact ⟨rfl,rfl,authenticated,remoteAddress,[],(List.append_nil _).symm,by simp⟩
  split
  · exact ⟨rfl,rfl,authenticated,remoteAddress,[],(List.append_nil _).symm,by simp⟩
  · exact ⟨rfl,rfl,authenticated,remoteAddress,[_],rfl,by simp [mild]⟩

theorem completed (named : node.validatorAddress ≠ "") (nonempty : deriveAddress publicKey ≠ "") (looping : c.phase = .loop)
    (completing : Completing node publicKey c input) : Deduped node publicKey input c (step node c input) := by
  cases completing with
  | @response fields challengeSig counterChallenge counterSig version wireFormat received initiator pending early shown
      proof valid asked signed versioned negotiated =>
    let checked := c.clearChallenge.emit (.checked c.peer.challenge publicKey challengeSig input.monotonic true)
    let confirmed := checked.send "auth_confirm" [("challenge_sig",.str (hex counterSig))]
    let peer := checkValidatorStatus node (describe fields version (authenticate publicKey checked.peer))
    have through : Through publicKey c (confirmed.withPeer peer) :=
      validatorThrough [.checked c.peer.challenge publicKey challengeSig input.monotonic true,
        .sent "auth_confirm" (.obj [("challenge_sig",.str (hex counterSig))])] rfl (List.append_assoc ..) (by simp [mild])
        rfl rfl rfl rfl
    have goes : ∀ kept : Conn, kept.peer = (confirmed.withPeer peer).peer → Through publicKey kept
        ((initiateEncryptedChannel node input kept).withPeer
          { (initiateEncryptedChannel node input kept).peer with wireFormat }) := by
      intro kept same
      exact channelThrough (by rw [same]; exact through.authenticated) (by rw [same]; exact through.remoteAddress) wireFormat
    have result : step node c input = settle
        (match dedupConnection node input (confirmed.withPeer peer) with
        | (true,closing) => .ok (false,closing.emit (.recorded "auth_failed"))
        | (false,kept) => .ok (true,(initiateEncryptedChannel node input kept).withPeer
            { (initiateEncryptedChannel node input kept).peer with wireFormat })) := by
      rw [stepMessage looping received (by decide) (by decide),processCompletes node input _ (by rw [initiator]; rfl)]
      unfold complete handleAuthResponse
      rw [if_pos initiator,if_neg pending,if_neg early]
      simp only [fieldsOf,bind,Except.bind,shown,proof,validCheck valid]
      unfold completeResponse
      rw [asked]
      dsimp only
      rw [signed]
      dsimp only
      rw [versioned]
      dsimp only
      cases dedupConnection node input (confirmed.withPeer peer) with
      | mk closing kept =>
        cases closing with
        | true => rfl
        | false =>
          dsimp only
          rw [negotiated]
          rfl
    rw [result]
    exact dedupSettles named nonempty through goes
  | @confirm fields challengeSig wireFormat received responder pending early expected known proof valid negotiated =>
    subst expected
    let checked := c.clearChallenge.emit (.checked c.peer.challenge c.peer.remotePubkey challengeSig input.monotonic true)
    let peer := checkValidatorStatus node { authenticate c.peer.remotePubkey checked.peer with wireFormat }
    have through : Through c.peer.remotePubkey c (checked.withPeer peer) :=
      validatorThrough [_] rfl rfl (by simp [mild]) rfl rfl rfl rfl
    have goes : ∀ kept : Conn, kept.peer = (checked.withPeer peer).peer → Through c.peer.remotePubkey kept kept := by
      intro kept same
      refine ⟨rfl,rfl,?_,?_,[],(List.append_nil _).symm,by simp⟩
      · rw [same]
        exact through.authenticated
      · rw [same]
        exact through.remoteAddress
    have result : step node c input = settle
        (match dedupConnection node input (checked.withPeer peer) with
        | (true,closing) => .ok (false,closing.emit (.recorded "auth_failed"))
        | (false,kept) => .ok (true,kept)) := by
      rw [stepMessage looping received (by decide) (by decide),processCompletes node input _ (by rw [responder]; rfl)]
      unfold complete handleAuthConfirm
      rw [if_neg (by rw [responder]; exact Bool.false_ne_true),if_neg pending,if_neg known,if_neg early]
      simp only [fieldsOf,bind,Except.bind,proof,validCheck valid]
      have done : completeConfirm node input checked =
          match dedupConnection node input (checked.withPeer peer) with
          | (true,closing) => .ok (false,closing)
          | (false,kept) => .ok (true,kept) := by
        unfold completeConfirm
        dsimp only
        rw [show negotiate node (authenticate checked.peer.remotePubkey checked.peer).protocolVersion
          (authenticate checked.peer.remotePubkey checked.peer).pendingWireFormat = .ok wireFormat from negotiated]
        rfl
      rw [show completeConfirm node input (c.clearChallenge.emit
        (.checked c.peer.challenge c.peer.remotePubkey challengeSig input.monotonic true)) = _ from done]
      cases dedupConnection node input (checked.withPeer peer) with
      | mk closing kept => cases closing <;> rfl
    rw [result]
    exact dedupSettles named nonempty through goes

theorem Completing.beside (completing : Completing node publicKey c input) (others : List OtherPeer) :
    Completing node publicKey c { input with others } := by
  cases completing with
  | response received initiator pending early shown proof valid asked signed versioned negotiated =>
    exact .response received initiator pending early shown proof valid asked signed versioned negotiated
  | confirm received responder pending early expected known proof valid negotiated =>
    exact .confirm received responder pending early expected known proof valid negotiated

end Completion

section Tables
variable {t t' : PeerTable.Table} {i : Nat}

structure Later (c c' : Conn) : Prop where
  trace : c.trace <+: c'.trace
  isInitiator : c'.peer.isInitiator = c.peer.isInitiator
  past : c.phase ≠ .first → c'.phase ≠ .first

theorem Later.refl (c : Conn) : Later c c := ⟨List.prefix_refl _,rfl,id⟩

theorem Later.trans {a b c : Conn} (first : Later a b) (second : Later b c) : Later a c :=
  ⟨first.trace.trans second.trace,second.isInitiator.trans first.isInitiator,fun past => second.past (first.past past)⟩

def Goes (t t' : PeerTable.Table) : Prop :=
  ∀ (n : Nat) (c : PeerTable.Connection), t.connections[n]? = some c →
    ∃ c' : PeerTable.Connection, t'.connections[n]? = some c' ∧ Later c.conn c'.conn

theorem Goes.same (connections : t'.connections = t.connections) : Goes t t' :=
  fun _ c known => ⟨c,connections ▸ known,.refl _⟩

theorem Goes.trans {t'' : PeerTable.Table} (first : Goes t t') (second : Goes t' t'') : Goes t t'' := by
  intro n c known
  obtain ⟨between,known',later⟩ := first n c known
  obtain ⟨after,known'',later'⟩ := second n between known'
  exact ⟨after,known'',later.trans later'⟩

theorem Goes.appended (c : PeerTable.Connection) (connections : t'.connections = t.connections ++ [c]) : Goes t t' := by
  intro n before known
  refine ⟨before,?_,.refl _⟩
  rw [connections,List.getElem?_append_left (List.getElem?_eq_some_iff.mp known).1]
  exact known

theorem Goes.setAt {c after : PeerTable.Connection} (known : t.connections[i]? = some c)
    (connections : t'.connections = t.connections.set i after) (later : Later c.conn after.conn) : Goes t t' := by
  intro n before known'
  rw [connections]
  by_cases same : n = i
  · subst same
    obtain rfl := Option.some.inj (known.symm.trans known')
    exact ⟨after,List.getElem?_set_self (List.getElem?_eq_some_iff.mp known).1,later⟩
  · exact ⟨before,(List.getElem?_set_ne (Ne.symm same)).trans known',.refl _⟩

theorem closeOtherGoes (t : PeerTable.Table) (key : String) : Goes t (t.closeOther key) := by
  unfold PeerTable.Table.closeOther
  split
  · exact .same rfl
  · rename_i j _
    intro n c known
    by_cases same : n = j
    · subst same
      refine ⟨c.disconnect,?_,List.prefix_refl _,rfl,id⟩
      rw [List.getElem?_modify_eq,known]
      rfl
    · exact ⟨c,(List.getElem?_modify_ne _ _ (Ne.symm same)).trans known,.refl _⟩

theorem closeAllGoes (keys : List String) (t : PeerTable.Table) : Goes t (keys.foldl PeerTable.Table.closeOther t) := by
  induction keys generalizing t with
  | nil => exact .same rfl
  | cons key rest ih => exact (closeOtherGoes t key).trans (ih _)

theorem rekeyGoes {c : PeerTable.Connection} (known : t.connections[i]? = some c) (input : Incoming) :
    Goes t (t.rekey i c input) := by
  unfold PeerTable.Table.rekey
  split
  · split
    · exact .same rfl
    · unfold PeerTable.Table.updatePeerKey
      split
      · exact .same rfl
      · exact .setAt known rfl (.refl _)
  · exact .same rfl

theorem closeOtherAt {key : String} {n : Nat} (listed : (key,n) ∈ t.peers.rows) :
    (t.closeOther key).connections = t.connections.modify n PeerTable.Connection.disconnect := by
  unfold PeerTable.Table.closeOther
  rw [(OrderedDict.getIff ..).mpr listed]

theorem closeAllProven (keys : List String) {n : Nat} {c' : PeerTable.Connection}
    (known : (keys.foldl PeerTable.Table.closeOther t).connections[n]? = some c') :
    ∃ c, t.connections[n]? = some c ∧ c'.conn.peer.authenticated = c.conn.peer.authenticated ∧
      c'.conn.peer.remoteAddress = c.conn.peer.remoteAddress := by
  induction keys generalizing t with
  | nil => exact ⟨c',known,rfl,rfl⟩
  | cons key rest ih =>
    obtain ⟨between,there,authenticated,remote⟩ := ih known
    unfold PeerTable.Table.closeOther at there
    split at there
    · exact ⟨between,there,authenticated,remote⟩
    · rename_i j _
      by_cases same : j = n
      · subst same
        rw [List.getElem?_modify_eq] at there
        obtain ⟨c,before,rfl⟩ := Option.map_eq_some_iff.mp there
        exact ⟨c,before,authenticated,remote⟩
      · rw [List.getElem?_modify_ne _ _ same] at there
        exact ⟨between,there,authenticated,remote⟩

variable [Env] [Channel]

theorem stepLater (node : P2PNode) (c : Conn) (input : Incoming) : Later c (step node c input) := by
  by_cases closed : c.phase = .closed
  · have idle : step node c input = c := by
      unfold step
      rw [closed]
    rw [idle]
    exact .refl c
  · obtain ⟨moved,run,outcome⟩ := stepMoves node closed input
    obtain ⟨initiator,-,events,after,-⟩ := PeerTable.movesSteady run
    have stepped := PeerTable.stepped node closed input
    refine ⟨⟨events,?_⟩,stepped.isInitiator,fun _ => stepped.phase⟩
    rcases outcome with same | same
    · rw [same]
      exact after.symm
    · rw [same]
      exact after.symm

theorem hearAt (node : P2PNode) (input : Incoming) {c : PeerTable.Connection} (known : t.connections[i]? = some c)
    (running : c.conn.phase ≠ .closed) :
    (∃ c', (t.hear node i input).connections[i]? = some c' ∧ c'.conn = step node c.conn { input with others := t.others i }) ∧
      ∀ n, n ≠ i → (t.hear node i input).connections[n]? =
        ((PeerTable.closings c.conn (step node c.conn { input with others := t.others i })).foldl PeerTable.Table.closeOther
          (t.rekey i c input)).connections[n]? := by
  unfold PeerTable.Table.hear
  rw [known]
  dsimp only
  rw [if_neg running]
  generalize step node c.conn { input with others := t.others i } = conn
  obtain ⟨between,there,-⟩ := ((rekeyGoes known input).trans (closeAllGoes (PeerTable.closings c.conn conn) _)) i c known
  obtain ⟨here,others,-⟩ := PeerTable.recorded there conn
  exact ⟨⟨_,here,rfl⟩,others⟩

theorem hearGoes (node : P2PNode) (i : Nat) (input : Incoming) (t : PeerTable.Table) : Goes t (t.hear node i input) := by
  intro n before there
  cases known : t.connections[i]? with
  | none =>
    unfold PeerTable.Table.hear
    rw [known]
    exact ⟨before,there,.refl _⟩
  | some c =>
    by_cases closed : c.conn.phase = .closed
    · unfold PeerTable.Table.hear
      rw [known]
      dsimp only
      rw [if_pos closed]
      exact ⟨before,there,.refl _⟩
    · obtain ⟨⟨c',here,stepped⟩,others⟩ := hearAt node input known closed
      by_cases same : n = i
      · subst same
        obtain rfl := Option.some.inj (known.symm.trans there)
        exact ⟨c',here,stepped ▸ stepLater ..⟩
      · rw [others n same]
        exact ((rekeyGoes known input).trans (closeAllGoes _ _)) n before there

theorem actGoes (node : P2PNode) (t : PeerTable.Table) (action : PeerTable.Action) : Goes t (t.act node action) := by
  cases action with
  | connect host port safe =>
    simp only [PeerTable.Table.act,PeerTable.Table.connect]
    split
    · exact .same rfl
    split
    · exact .same rfl
    split
    · exact .same rfl
    · exact .same rfl
  | opened n input =>
    simp only [PeerTable.Table.act,PeerTable.Table.opened]
    split
    · exact .same rfl
    · cases input with
      | none => exact .same rfl
      | some input => exact .appended _ rfl
  | accept host allowed =>
    simp only [PeerTable.Table.act,PeerTable.Table.accept]
    split
    · exact .same rfl
    split
    · exact .same rfl
    · exact .appended _ rfl
  | hear i input => exact hearGoes node i input t

end Tables

section Pairs
variable {p : Pair} {side : Side} {link : Link} {c : PeerTable.Connection}

theorem connOf (known : (p.tables side).connections[link.number side]? = some c) : p.conn side link = c.conn := by
  unfold Pair.conn
  rw [known]
  rfl

theorem putConn (side s : Side) (t : PeerTable.Table) (p : Pair) (link : Link) (other : s ≠ side) :
    (p.put side t).conn s link = p.conn s link := by
  unfold Pair.conn
  rw [show (p.put side t).tables s = p.tables s from Function.update_of_ne other ..]

theorem putTable (side : Side) (t : PeerTable.Table) (p : Pair) : (p.put side t).tables side = t :=
  Function.update_self ..

end Pairs

section Runs
variable [Env]

structure Honest (nodes : Side → P2PNode) : Prop where
  address : ∀ side, (nodes side).validatorAddress = deriveAddress (nodes side).signingPk
  named : ∀ side, (nodes side).validatorAddress ≠ ""
  distinct : (nodes .a).validatorAddress ≠ (nodes .b).validatorAddress

structure Linked (nodes : Side → P2PNode) (p : Pair) : Prop where
  placed : ∀ (k : Nat) (link : Link), p.links[k]? = some link → ∀ side, ∃ c, (p.tables side).connections[link.number side]? = some c
  own : ∀ (j k : Nat) (link link' : Link), p.links[j]? = some link → p.links[k]? = some link' → ∀ side,
    link.number side = link'.number side → j = k
  apart : ∀ (side : Side) (n : Nat) (c : PeerTable.Connection), (p.tables side).connections[n]? = some c →
    AuthenticatedAs (nodes side.other).validatorAddress c.conn → ∃ link ∈ p.links, link.number side = n

def Superseded (p : Pair) (side : Side) (k : Nat) : Prop := k ∈ p.done side ∧ (p.done side).getLast? ≠ some k

/- What holds while no connection is refused: a side keeps the connection it completed last, and
one that is gone anywhere has been followed by another. -/
structure Orderly (nodes : Side → P2PNode) (p : Pair) : Prop where
  range : ∀ side, ∀ k ∈ p.done side, k < p.links.length
  linked : Linked nodes p
  confirmed : ∀ (k : Nat) (link : Link), p.links[k]? = some link → k ∈ p.done link.opener.other → k ∈ p.done link.opener
  waiting : ∀ (k : Nat) (link : Link), p.links[k]? = some link → ∀ side, k ∉ p.done side → Waiting link.opener side (p.conn side link)
  established : ∀ (k : Nat) (link : Link), p.links[k]? = some link → ∀ side, k ∈ p.done side → isOpen (p.conn side link) = true →
    (p.conn side link).phase ≠ .first ∧ AuthenticatedAs (nodes side.other).validatorAddress (p.conn side link) ∧
      (p.done side).getLast? = some k
  gone : ∀ (k : Nat) (link : Link), p.links[k]? = some link → ∀ side, isOpen (p.conn side link) = false →
    k ∈ p.done side ∧ ∃ s, Superseded p s k
  unblamed : Unblamed p

variable {nodes : Side → P2PNode} {p : Pair} {side : Side} {k : Nat} {input : Incoming} {link : Link}

omit [Env] in
theorem otherNe (side : Side) : side.other ≠ side := by cases side <;> exact Side.noConfusion

omit [Env] in
theorem otherOf {s side : Side} (different : s ≠ side) : s = side.other := by
  cases s <;> cases side <;> first | rfl | exact absurd rfl different

omit [Env] in
theorem compareSwap {x y : String} (different : x ≠ y) : (compare x y == .lt) = false ↔ compare y x = .lt := by
  have swap := @Std.OrientedCmp.eq_swap String compare _ y x
  rw [swap]
  cases order : compare x y with
  | lt => simp
  | eq => exact absurd (Std.LawfulEqCmp.eq_of_compare order) different
  | gt => simp

theorem preferredIff (honest : Honest nodes) {opener : Side} {c : Conn} (waiting : Waiting opener side c) :
    preferred (nodes side) (nodes side.other).signingPk c ↔
      compare (nodes opener).validatorAddress (nodes opener.other).validatorAddress = .lt := by
  unfold preferred
  rw [waiting.isInitiator,← honest.address side.other]
  by_cases own : side = opener
  · subst own
    rw [decide_eq_true rfl,beq_iff_eq]
  · rw [decide_eq_false own,compareSwap]
    · have opened := otherOf (Ne.symm own)
      rw [opened]
      cases side <;> rfl
    · cases side
      · exact honest.distinct
      · exact Ne.symm honest.distinct

theorem duplicateAt (honest : Honest nodes) (orderly : Orderly nodes p) (known : p.links[k]? = some link)
    {other : OtherPeer}
    (found : duplicate (nodes side.other).signingPk ((p.tables side).others (link.number side)) = some other) :
    ∃ j link' c, j ≠ k ∧ p.links[j]? = some link' ∧ j ∈ p.done side ∧
      (other.key,link'.number side) ∈ (p.tables side).peers.rows ∧
      (p.tables side).connections[link'.number side]? = some c ∧
      AuthenticatedAs (nodes side.other).validatorAddress c.conn := by
  obtain ⟨n,c,different,row,there,authenticated,remote⟩ := PeerTable.memOthers.mp (List.mem_of_find?_eq_some found)
  have matched := List.find?_some found
  rw [Bool.and_eq_true,beq_iff_eq,← honest.address] at matched
  have proven : AuthenticatedAs (nodes side.other).validatorAddress c.conn :=
    ⟨authenticated.trans matched.1,remote.trans matched.2⟩
  obtain ⟨link',inside,rfl⟩ := orderly.linked.apart side n c there proven
  obtain ⟨j,known'⟩ := List.mem_iff_getElem?.mp inside
  refine ⟨j,link',c,?_,known',?_,row,there,proven⟩
  · rintro rfl
    obtain rfl := Option.some.inj (known.symm.trans known')
    exact different rfl
  · by_contra absent
    have waiting := orderly.waiting j link' known' side absent
    rw [connOf there] at waiting
    exact absurd (waiting.authenticated.symm.trans proven.1) Bool.false_ne_true

theorem duplicateSome (honest : Honest nodes) (orderly : Orderly nodes p) (known : p.links[k]? = some link)
    (shows : Shows (p.tables side) (nodes side.other).validatorAddress) : p.Duplicate nodes side k ↔
      ∃ other, duplicate (nodes side.other).signingPk ((p.tables side).others (link.number side)) = some other := by
  constructor
  · rintro ⟨j,link',different,known',running,proven⟩
    obtain ⟨c,there⟩ := orderly.linked.placed j link' known' side
    rw [connOf there] at running proven
    obtain ⟨key,row⟩ := (shows _ c there proven).mp running
    unfold duplicate
    rw [← Option.isSome_iff_exists,List.find?_isSome]
    refine ⟨⟨key,c.conn.peer.authenticated,c.conn.peer.remoteAddress⟩,PeerTable.memOthers.mpr
      ⟨_,c,fun same => different (orderly.linked.own j k link' link known' known side same),row,there,rfl,rfl⟩,?_⟩
    rw [Bool.and_eq_true,beq_iff_eq,← honest.address]
    exact proven
  · rintro ⟨other,found⟩
    obtain ⟨j,link',c,different,known',-,row,there,proven⟩ := duplicateAt honest orderly known found
    refine ⟨j,link',different,known',?_⟩
    rw [connOf there]
    exact ⟨(shows _ c there proven).mpr ⟨_,row⟩,proven⟩

omit [Env] in
theorem struckConnections {t : PeerTable.Table} {found : Option OtherPeer} {n : Nat} {c' : PeerTable.Connection}
    (rows : ∀ other, found = some other → ∃ n, (other.key,n) ∈ t.peers.rows)
    (known : ((found.map OtherPeer.key).toList.foldl PeerTable.Table.closeOther t).connections[n]? = some c') :
    ∃ c, t.connections[n]? = some c ∧ ((∀ other, found = some other → (other.key,n) ∉ t.peers.rows) ∧ c' = c ∨
      (∃ other, found = some other ∧ (other.key,n) ∈ t.peers.rows) ∧ c' = c.disconnect) := by
  cases found with
  | none => exact ⟨c',known,.inl ⟨by simp,rfl⟩⟩
  | some other =>
    obtain ⟨m,row⟩ := rows other rfl
    change (t.closeOther other.key).connections[n]? = _ at known
    rw [closeOtherAt row] at known
    by_cases same : n = m
    · subst same
      rw [List.getElem?_modify_eq] at known
      obtain ⟨c,there,rfl⟩ := Option.map_eq_some_iff.mp known
      exact ⟨c,there,.inr ⟨⟨other,rfl,row⟩,rfl⟩⟩
    · rw [List.getElem?_modify_ne _ _ (Ne.symm same)] at known
      refine ⟨c',known,.inl ⟨?_,rfl⟩⟩
      intro other' found listed
      obtain rfl := Option.some.inj found
      exact same (t.peers.rowUnique listed row)

variable [Channel]

theorem hearTables (nodes : Side → P2PNode) (side : Side) (input : Incoming) (known : p.links[k]? = some link) :
    p.hear nodes side k input = p.put side ((p.tables side).hear (nodes side) (link.number side) input) := by
  unfold Pair.hear
  rw [known]

omit [Env] [Channel] in
theorem putGoes {t : PeerTable.Table} (goes : Goes (p.tables side) t) (s : Side) :
    Goes (p.tables s) ((p.put side t).tables s) := by
  by_cases here : s = side
  · subst here
    rwa [putTable]
  · rw [show (p.put side t).tables s = p.tables s from Function.update_of_ne here ..]
    exact .same rfl

omit [Env] [Channel] in
theorem Linked.goes {p' : Pair} (linked : Linked nodes p) (links : p'.links = p.links)
    (goes : ∀ s, Goes (p.tables s) (p'.tables s))
    (apart : ∀ s (n : Nat) (c : PeerTable.Connection), (p'.tables s).connections[n]? = some c →
      AuthenticatedAs (nodes s.other).validatorAddress c.conn → ∃ link ∈ p.links, link.number s = n) :
    Linked nodes p' where
  placed k link known s := by
    rw [links] at known
    obtain ⟨c,there⟩ := linked.placed k link known s
    obtain ⟨c',there',-⟩ := goes s _ c there
    exact ⟨c',there'⟩
  own := by
    rw [links]
    exact linked.own
  apart := by
    rw [links]
    exact apart

omit [Env] [Channel] in
theorem Linked.put (linked : Linked nodes p) {t : PeerTable.Table} (goes : Goes (p.tables side) t)
    (apart : ∀ (n : Nat) (c : PeerTable.Connection), t.connections[n]? = some c →
      AuthenticatedAs (nodes side.other).validatorAddress c.conn → ∃ link ∈ p.links, link.number side = n) :
    Linked nodes (p.put side t) := by
  refine linked.goes rfl (putGoes goes) (fun s => ?_)
  by_cases here : s = side
  · subst here
    rwa [putTable]
  · rw [show (p.put side t).tables s = p.tables s from Function.update_of_ne here ..]
    exact linked.apart s

theorem hearLinked (linked : Linked nodes p) (known : p.links[k]? = some link) {c : PeerTable.Connection}
    (there : (p.tables side).connections[link.number side]? = some c) (looping : c.conn.phase = .loop)
    (input : Incoming) : Linked nodes (p.put side ((p.tables side).hear (nodes side) (link.number side) input)) := by
  obtain ⟨-,others⟩ := hearAt (nodes side) input there (by rw [looping]; exact Phase.noConfusion)
  refine linked.put (hearGoes _ _ _ _) (fun n c' there' proven => ?_)
  by_cases same : n = link.number side
  · exact ⟨link,List.mem_of_getElem? known,same.symm⟩
  · rw [others n same,show (p.tables side).rekey (link.number side) c input = p.tables side from
      if_neg (by rw [looping]; exact Phase.noConfusion)] at there'
    obtain ⟨before,there'',authenticated,remote⟩ := closeAllProven _ there'
    exact linked.apart side n before there'' ⟨authenticated.symm.trans proven.1,remote.symm.trans proven.2⟩

omit [Env] [Channel] in
theorem supersededLater {done : List Nat} {j : Nat} (fresh : k ∉ done) (old : j ∈ done ∧ done.getLast? ≠ some j) :
    j ∈ done ++ [k] ∧ (done ++ [k]).getLast? ≠ some j := by
  refine ⟨List.mem_append_left _ old.1,?_⟩
  rw [List.getLast?_append,List.getLast?_singleton,Option.some_or]
  rintro same
  exact fresh (Option.some.inj same ▸ old.1)

structure Advanced (nodes : Side → P2PNode) (p p' : Pair) (side : Side) (k : Nat) (link : Link) (conn : Conn) : Prop where
  known : p.links[k]? = some link
  fresh : k ∉ p.done side
  links : p'.links = p.links
  done : p'.done = Function.update p.done side (p.done side ++ [k])
  there : ∀ s, s ≠ side → p'.tables s = p.tables s
  linked : Linked nodes p'
  here : p'.conn side link = conn
  others : ∀ (j : Nat) (link' : Link), j ≠ k → p.links[j]? = some link' →
    (p'.conn side link').trace = (p.conn side link').trace ∧
      (j ∈ p.done side → isOpen (p'.conn side link') = false) ∧
      (j ∉ p.done side → p'.conn side link' = p.conn side link')
  running : conn.phase = .loop ∧ conn.peer.connected = true
  unblamed : Event.recorded "auth_failed" ∉ conn.trace

theorem deduplicates (honest : Honest nodes) (orderly : Orderly nodes p)
    (allowed : Allowed nodes p (.completes side k input)) :
    ∃ link c, p.links[k]? = some link ∧ k ∉ p.done side ∧ (p.tables side).connections[link.number side]? = some c ∧
      c.conn.phase = .loop ∧ Waiting link.opener side c.conn ∧
      Deduped (nodes side) (nodes side.other).signingPk
        { input with others := (p.tables side).others (link.number side) } c.conn
        (step (nodes side) c.conn { input with others := (p.tables side).others (link.number side) }) := by
  obtain ⟨link,known,fresh,-,looping,completing⟩ := allowed
  have pending := orderly.waiting k link known side fresh
  obtain ⟨c,there⟩ := orderly.linked.placed k link known side
  rw [connOf there] at pending looping completing
  have named : deriveAddress (nodes side.other).signingPk ≠ "" := by
    rw [← honest.address]
    exact honest.named _
  exact ⟨link,c,known,fresh,there,looping,pending,
    completed (honest.named side) named looping (completing.beside _)⟩

omit [Channel] in
theorem quietKept {c conn : Conn} {input : Incoming} (honest : Honest nodes) (orderly : Orderly nodes p)
    (known : p.links[k]? = some link) (pending : Waiting link.opener side c)
    (shows : Shows (p.tables side) (nodes side.other).validatorAddress)
    (quiet : p.Duplicate nodes side k → ∀ link, p.links[k]? = some link →
      compare (nodes link.opener).validatorAddress (nodes link.opener.other).validatorAddress = .lt)
    (seen : input.others = (p.tables side).others (link.number side))
    (deduped : Deduped (nodes side) (nodes side.other).signingPk input c conn) :
    Kept (nodes side.other).signingPk (((duplicate (nodes side.other).signingPk
      ((p.tables side).others (link.number side))).map OtherPeer.key).toList) c conn := by
  unfold Deduped at deduped
  rw [seen] at deduped
  cases found : duplicate (nodes side.other).signingPk ((p.tables side).others (link.number side)) with
  | none =>
    rw [found] at deduped
    exact deduped
  | some other =>
    rw [found] at deduped
    rcases deduped with ⟨-,kept⟩ | ⟨refused,-⟩
    · exact kept
    · exact absurd ((preferredIff honest pending).mpr
        (quiet ((duplicateSome honest orderly known shows).mpr ⟨other,found⟩) link known)) refused

omit [Channel] in
theorem othersSettle (honest : Honest nodes) (orderly : Orderly nodes p) (known : p.links[k]? = some link)
    (shows : Shows (p.tables side) (nodes side.other).validatorAddress) {j : Nat} {link' : Link}
    (different : j ≠ k) (known' : p.links[j]? = some link') {before after : PeerTable.Connection}
    (there : (p.tables side).connections[link'.number side]? = some before)
    (struck : (((duplicate (nodes side.other).signingPk ((p.tables side).others (link.number side))).map
      OtherPeer.key).toList.foldl PeerTable.Table.closeOther (p.tables side)).connections[link'.number side]? = some after) :
    after.conn.trace = before.conn.trace ∧ (j ∈ p.done side → isOpen after.conn = false) ∧
      (j ∉ p.done side → after.conn = before.conn) := by
  have running := orderly.established j link' known' side
  rw [connOf there] at running
  obtain ⟨_,same,outcome⟩ := struckConnections (fun other found => by
    obtain ⟨i,link'',-,-,-,-,row,-⟩ := duplicateAt honest orderly known found
    exact ⟨_,row⟩) struck
  obtain rfl := Option.some.inj (there.symm.trans same)
  rcases outcome with ⟨unlisted,rfl⟩ | ⟨⟨other,found,listed⟩,rfl⟩
  · refine ⟨rfl,fun done => Bool.eq_false_of_not_eq_true fun open' => ?_,fun _ => rfl⟩
    obtain ⟨-,proven,last⟩ := running done open'
    obtain ⟨other,found⟩ := (duplicateSome honest orderly known shows).mp
      ⟨j,link',different,known',by rw [connOf there]; exact ⟨open',proven⟩⟩
    obtain ⟨i,link'',c,-,known'',done',row,there',proven'⟩ := duplicateAt honest orderly known found
    -- both would be the last to complete
    have last' := (orderly.established i link'' known'' side done'
      (by rw [connOf there']; exact (shows _ c there' proven').mpr ⟨_,row⟩)).2.2
    obtain rfl := Option.some.inj (last.symm.trans last')
    obtain rfl := Option.some.inj (known'.symm.trans known'')
    exact unlisted other found row
  · refine ⟨rfl,fun _ => by simp [isOpen,PeerTable.Connection.disconnect,Conn.withPeer],fun waits => absurd ?_ waits⟩
    obtain ⟨i,link'',-,-,known'',done',row,-⟩ := duplicateAt honest orderly known found
    rwa [orderly.linked.own j i link' link'' known' known'' side ((p.tables side).peers.rowUnique listed row)]

theorem completesAdvanced (honest : Honest nodes) (orderly : Orderly nodes p)
    (allowed : Allowed nodes p (.completes side k input)) (shown : Shown nodes p (.completes side k input))
    (quiet : Quiet nodes p (.completes side k input)) :
    ∃ link conn, Advanced nodes p (p.act nodes (.completes side k input)) side k link conn ∧
      AuthenticatedAs (nodes side.other).validatorAddress conn := by
  obtain ⟨link,c,known,fresh,there,looping,pending,deduped⟩ := deduplicates honest orderly allowed
  have kept := quietKept honest orderly known pending shown quiet rfl deduped
  obtain ⟨⟨c',here,stepped⟩,others⟩ := hearAt (nodes side) input there (by rw [looping]; exact Phase.noConfusion)
  rw [show (p.tables side).rekey (link.number side) c input = p.tables side from
    if_neg (by rw [looping]; exact Phase.noConfusion),kept.closings] at others
  have goes := hearGoes (nodes side) (link.number side) input (p.tables side)
  have linked := hearLinked orderly.linked known there looping input
  rw [show p.act nodes (.completes side k input) =
      (p.put side ((p.tables side).hear (nodes side) (link.number side) input)).mark side k from
    congrArg (Pair.mark side k) (hearTables nodes side input known)]
  generalize step (nodes side) c.conn { input with others := (p.tables side).others (link.number side) } = conn
    at kept stepped
  generalize (p.tables side).hear (nodes side) (link.number side) input = t' at here others goes linked
  have table : ((p.put side t').mark side k).tables side = t' := putTable ..
  have connected : c.conn.peer.connected = true := by
    have running := pending.running
    unfold isOpen at running
    exact ((Bool.and_eq_true ..).mp running).2
  refine ⟨link,conn,⟨known,fresh,rfl,rfl,fun s other => Function.update_of_ne other ..,
    ⟨linked.placed,linked.own,linked.apart⟩,?_,?_,⟨kept.phase,kept.connected.trans connected⟩,
    fun blamed => pending.unblamed (kept.unblamed blamed)⟩,
    kept.authenticated,kept.remoteAddress.trans (honest.address _).symm⟩
  · rw [← stepped]
    exact connOf (table.symm ▸ here)
  · intro j link' different known'
    obtain ⟨before,there'⟩ := orderly.linked.placed j link' known' side
    obtain ⟨after,there'',-⟩ := goes _ before there'
    have elsewhere : link'.number side ≠ link.number side :=
      fun same => different (orderly.linked.own j k link' link known' known side same)
    rw [connOf there',show ((p.put side t').mark side k).conn side link' = after.conn from
      connOf (table.symm ▸ there'')]
    exact othersSettle honest orderly known shown different known' there' ((others _ elsewhere).symm.trans there'')

namespace Advanced
variable {p' : Pair} {conn : Conn}

omit [Env] [Channel] in
theorem doneHere (advanced : Advanced nodes p p' side k link conn) (j : Nat) :
    j ∈ p'.done side ↔ j ∈ p.done side ∨ j = k := by
  rw [advanced.done,Function.update_self,List.mem_append,List.mem_singleton]

omit [Env] [Channel] in
theorem doneThere (advanced : Advanced nodes p p' side k link conn) {s : Side} (other : s ≠ side) :
    p'.done s = p.done s := by
  rw [advanced.done,Function.update_of_ne other]

omit [Env] [Channel] in
theorem connThere (advanced : Advanced nodes p p' side k link conn) {s : Side} (other : s ≠ side) (link' : Link) :
    p'.conn s link' = p.conn s link' := by
  unfold Pair.conn
  rw [advanced.there s other]

omit [Env] [Channel] in
theorem grows (advanced : Advanced nodes p p' side k link conn) {s : Side} {j : Nat} (old : j ∈ p.done s) :
    j ∈ p'.done s := by
  by_cases here : s = side
  · subst here
    exact (advanced.doneHere j).mpr (.inl old)
  · rwa [advanced.doneThere here]

omit [Env] [Channel] in
theorem last (advanced : Advanced nodes p p' side k link conn) : (p'.done side).getLast? = some k := by
  rw [advanced.done,Function.update_self,List.getLast?_append,List.getLast?_singleton,Option.some_or]

omit [Env] [Channel] in
theorem superseded (advanced : Advanced nodes p p' side k link conn) {s : Side} {j : Nat} (old : Superseded p s j) :
    Superseded p' s j := by
  by_cases here : s = side
  · subst here
    unfold Superseded
    rw [advanced.done,Function.update_self]
    exact supersededLater advanced.fresh old
  · unfold Superseded
    rw [advanced.doneThere here]
    exact old

omit [Env] [Channel] in
theorem own (advanced : Advanced nodes p p' side k link conn) {link' : Link} (known : p.links[k]? = some link') :
    p'.conn side link' = conn := by
  obtain rfl := Option.some.inj (advanced.known.symm.trans known)
  exact advanced.here

omit [Env] [Channel] in
theorem waiting (advanced : Advanced nodes p p' side k link conn) (orderly : Orderly nodes p) {j : Nat} {link' : Link}
    (known : p.links[j]? = some link') {s : Side} (absent : j ∉ p'.done s) : Waiting link'.opener s (p'.conn s link') := by
  by_cases here : s = side
  · subst here
    rw [advanced.doneHere,not_or] at absent
    rw [(advanced.others j link' absent.2 known).2.2 absent.1]
    exact orderly.waiting j link' known s absent.1
  · rw [advanced.connThere here]
    rw [advanced.doneThere here] at absent
    exact orderly.waiting j link' known s absent

omit [Env] [Channel] in
theorem gone (advanced : Advanced nodes p p' side k link conn) (orderly : Orderly nodes p) {j : Nat} {link' : Link}
    (known : p.links[j]? = some link') {s : Side} (closed : isOpen (p'.conn s link') = false) :
    j ∈ p'.done s ∧ ∃ s', Superseded p' s' j := by
  have later : isOpen (p.conn s link') = false → j ∈ p'.done s ∧ ∃ s', Superseded p' s' j := by
    intro closed
    obtain ⟨old,s',superseded⟩ := orderly.gone j link' known s closed
    exact ⟨advanced.grows old,s',advanced.superseded superseded⟩
  by_cases here : s = side
  · subst here
    by_cases acting : j = k
    · subst acting
      rw [advanced.own known,isOpen,advanced.running.1,advanced.running.2] at closed
      cases closed
    · by_cases old : j ∈ p.done s
      · have now := advanced.grows old
        exact ⟨now,s,now,by rw [advanced.last]; exact fun same => acting (Option.some.inj same).symm⟩
      · rw [(advanced.others j link' acting known).2.2 old] at closed
        exact later closed
  · rw [advanced.connThere here] at closed
    exact later closed

omit [Env] [Channel] in
theorem unblamedAll (advanced : Advanced nodes p p' side k link conn) (unblamed : Unblamed p) : Unblamed p' := by
  intro link' inside s blamed
  rw [advanced.links] at inside
  have clear := unblamed link' inside s
  obtain ⟨j,known⟩ := List.mem_iff_getElem?.mp inside
  by_cases here : s = side
  · subst here
    by_cases acting : j = k
    · subst acting
      rw [advanced.own known] at blamed
      exact advanced.unblamed blamed
    · rw [(advanced.others j link' acting known).1] at blamed
      exact clear blamed
  · rw [advanced.connThere here] at blamed
    exact clear blamed

end Advanced

theorem completesOrderly (honest : Honest nodes) (orderly : Orderly nodes p)
    (allowed : Allowed nodes p (.completes side k input)) (shown : Shown nodes p (.completes side k input))
    (quiet : Quiet nodes p (.completes side k input)) : Orderly nodes (p.act nodes (.completes side k input)) := by
  obtain ⟨link,conn,advanced,authenticated⟩ := completesAdvanced honest orderly allowed shown quiet
  have order : side = link.opener ∨ k ∈ p.done link.opener := by
    obtain ⟨link',known,-,order,-⟩ := allowed
    obtain rfl := Option.some.inj (advanced.known.symm.trans known)
    exact order
  generalize p.act nodes (.completes side k input) = p' at advanced ⊢
  refine ⟨?_,advanced.linked,?_,fun j link' known s absent => ?_,?_,fun j link' known s closed => ?_,
    advanced.unblamedAll orderly.unblamed⟩
  · intro s j listed
    rw [advanced.links]
    by_cases here : s = side
    · subst here
      rcases (advanced.doneHere j).mp listed with old | rfl
      · exact orderly.range s j old
      · exact (List.getElem?_eq_some_iff.mp advanced.known).1
    · rw [advanced.doneThere here] at listed
      exact orderly.range s j listed
  · intro j link' known listed
    rw [advanced.links] at known
    by_cases here : link'.opener.other = side
    · rw [here] at listed
      rcases (advanced.doneHere j).mp listed with old | rfl
      · exact advanced.grows (orderly.confirmed j link' known (here ▸ old))
      · obtain rfl := Option.some.inj (advanced.known.symm.trans known)
        rcases order with own | confirmed
        · exact absurd (here.trans own) (otherNe _)
        · exact advanced.grows confirmed
    · rw [advanced.doneThere here] at listed
      exact advanced.grows (orderly.confirmed j link' known listed)
  · exact advanced.waiting orderly (advanced.links ▸ known) absent
  · intro j link' known s listed running
    rw [advanced.links] at known
    by_cases here : s = side
    · subst here
      by_cases acting : j = k
      · subst acting
        rw [advanced.own known,advanced.running.1]
        exact ⟨Phase.noConfusion,authenticated,advanced.last⟩
      · have old := ((advanced.doneHere j).mp listed).resolve_right acting
        rw [(advanced.others j link' acting known).2.1 old] at running
        cases running
    · rw [advanced.connThere here] at running ⊢
      rw [advanced.doneThere here] at listed ⊢
      exact orderly.established j link' known s listed running
  · exact advanced.gone orderly (advanced.links ▸ known) closed

theorem stepEnd (node : P2PNode) {c : Conn} (looping : c.phase = .loop) (closing : input.received = .ended) :
    step node c input = c.close := by
  unfold step
  rw [looping]
  dsimp only
  unfold onMessage
  rw [closing]
  rfl

structure Still (c c' : Conn) : Prop where
  untouched : Untouched c c'
  later : Later c c'

omit [Env] [Channel] in
theorem Still.refl (c : Conn) : Still c c := ⟨⟨rfl,rfl,fun _ => rfl,id⟩,.refl c⟩

omit [Env] [Channel] in
theorem stillOrderly {p' : Pair} (orderly : Orderly nodes p) (links : p'.links = p.links) (done : p'.done = p.done)
    (still : ∀ link ∈ p.links, ∀ s, Still (p.conn s link) (p'.conn s link))
    (linked : Linked nodes p') :
    Orderly nodes p' := by
  refine ⟨?_,linked,?_,?_,?_,?_,?_⟩
  · rw [links,done]
    exact orderly.range
  · rw [links,done]
    exact orderly.confirmed
  · intro j link known s absent
    rw [links] at known
    rw [done] at absent
    have waiting := orderly.waiting j link known s absent
    obtain ⟨untouched,later⟩ := still link (List.mem_of_getElem? known) s
    exact ⟨untouched.running.trans waiting.running,untouched.authenticated.trans waiting.authenticated,
      later.isInitiator.trans waiting.isInitiator,untouched.unblamed waiting.unblamed⟩
  · intro j link known s listed open'
    rw [links] at known
    rw [done] at listed ⊢
    obtain ⟨untouched,later⟩ := still link (List.mem_of_getElem? known) s
    obtain ⟨past,proven,last⟩ := orderly.established j link known s listed (untouched.running.symm.trans open')
    exact ⟨later.past past,⟨untouched.authenticated.trans proven.1,(untouched.remoteAddress proven.1).trans proven.2⟩,last⟩
  · intro j link known s closed
    rw [links] at known
    unfold Superseded
    rw [done]
    exact orderly.gone j link known s
      ((still link (List.mem_of_getElem? known) s).untouched.running.symm.trans closed)
  · intro link inside s
    rw [links] at inside
    exact (still link inside s).untouched.unblamed (orderly.unblamed link inside s)

theorem asideOrderly (orderly : Orderly nodes p) {action : PeerTable.Action}
    (allowed : Allowed nodes p (.aside side action)) : Orderly nodes (p.act nodes (.aside side action)) := by
  obtain ⟨untouched,apart⟩ := allowed
  have goes := actGoes (nodes side) (p.tables side) action
  refine stillOrderly orderly rfl rfl (fun link inside s => ?_) (orderly.linked.put goes apart)
  by_cases here : s = side
  · subst here
    obtain ⟨j,known⟩ := List.mem_iff_getElem?.mp inside
    obtain ⟨c,there⟩ := orderly.linked.placed j link known s
    obtain ⟨c',there',later⟩ := goes _ c there
    refine ⟨untouched link inside,?_⟩
    rw [connOf there,connOf (p := p.act nodes (.aside s action)) (by
      rw [show (p.act nodes (.aside s action)).tables s = (p.tables s).act (nodes s) action from putTable ..]
      exact there')]
    exact later
  · rw [show (p.act nodes (.aside side action)).conn s link = p.conn s link from putConn _ _ _ _ _ here]
    exact .refl _

theorem endsConn (orderly : Orderly nodes p) (known : p.links[k]? = some link) (looping : (p.conn side link).phase = .loop)
    (closing : input.received = .ended) :
    (p.hear nodes side k input).conn side link = (p.conn side link).close ∧
      ∀ j link' s, p.links[j]? = some link' → ¬(j = k ∧ s = side) →
        (p.hear nodes side k input).conn s link' = p.conn s link' := by
  obtain ⟨c,there⟩ := orderly.linked.placed k link known side
  rw [connOf there] at looping
  have running : c.conn.phase ≠ .closed := by
    rw [looping]
    exact Phase.noConfusion
  obtain ⟨⟨c',here,stepped⟩,others⟩ := hearAt (nodes side) input there running
  have finished : step (nodes side) c.conn { input with others := (p.tables side).others (link.number side) } = c.conn.close :=
    stepEnd (nodes side) looping closing
  rw [finished] at stepped others
  rw [show PeerTable.closings c.conn c.conn.close = [] by simp [PeerTable.closings,Conn.close],
    show (p.tables side).rekey (link.number side) c input = p.tables side from
      if_neg (by rw [looping]; exact Phase.noConfusion)] at others
  rw [hearTables nodes side input known,connOf there]
  generalize (p.tables side).hear (nodes side) (link.number side) input = t' at here others ⊢
  constructor
  · exact (connOf (p := p.put side t') (by rw [putTable]; exact here)).trans stepped
  · intro j link' s known' different
    by_cases same : s = side
    · subst same
      have elsewhere : link'.number s ≠ link.number s :=
        fun eq => different ⟨orderly.linked.own j k link' link known' known s eq,rfl⟩
      unfold Pair.conn
      rw [putTable,others _ elsewhere]
      rfl
    · exact putConn _ _ _ _ _ same

theorem endsOrderly (orderly : Orderly nodes p) (allowed : Allowed nodes p (.ends side k input)) :
    Orderly nodes (p.act nodes (.ends side k input)) := by
  obtain ⟨closing,link,known,running,closed,order⟩ := allowed
  obtain ⟨there,superseded⟩ := orderly.gone k link known side.other closed
  have here : k ∈ p.done side := by
    rcases order with rfl | here
    · exact orderly.confirmed k link known there
    · exact here
  have looping : (p.conn side link).phase = .loop := by
    have past := (orderly.established k link known side here running).1
    unfold isOpen at running
    cases phase : (p.conn side link).phase with
    | first => exact absurd phase past
    | loop => rfl
    | closed =>
      rw [phase] at running
      cases running
  obtain ⟨ended,others⟩ := endsConn orderly known looping closing
  have linked : Linked nodes (p.hear nodes side k input) := by
    obtain ⟨c,there'⟩ := orderly.linked.placed k link known side
    rw [hearTables nodes side input known]
    exact hearLinked orderly.linked known there' (connOf there' ▸ looping) input
  have links : (p.hear nodes side k input).links = p.links := by
    rw [hearTables nodes side input known]
    rfl
  have done : (p.hear nodes side k input).done = p.done := by
    rw [hearTables nodes side input known]
    rfl
  change Orderly nodes (p.hear nodes side k input)
  generalize p.hear nodes side k input = p' at ended others linked links done ⊢
  have conns : ∀ j link' s, p.links[j]? = some link' → p'.conn s link' = p.conn s link' ∨
      j = k ∧ s = side ∧ p'.conn s link' = (p.conn s link').close := by
    intro j link' s known'
    by_cases same : j = k ∧ s = side
    · obtain ⟨rfl,rfl⟩ := same
      obtain rfl := Option.some.inj (known.symm.trans known')
      exact .inr ⟨rfl,rfl,ended⟩
    · exact .inl (others j link' s known' same)
  refine ⟨by rw [links,done]; exact orderly.range,linked,by rw [links,done]; exact orderly.confirmed,?_,?_,?_,?_⟩
  · intro j link' known' s absent
    rw [links] at known'
    rw [done] at absent
    rcases conns j link' s known' with same | ⟨rfl,rfl,-⟩
    · rw [same]
      exact orderly.waiting j link' known' s absent
    · exact absurd here absent
  · intro j link' known' s listed open'
    rw [links] at known'
    rw [done] at listed ⊢
    rcases conns j link' s known' with same | ⟨-,-,same⟩
    · rw [same] at open' ⊢
      exact orderly.established j link' known' s listed open'
    · rw [same] at open'
      cases open'
  · intro j link' known' s shut
    rw [links] at known'
    unfold Superseded
    rw [done]
    rcases conns j link' s known' with same | ⟨rfl,rfl,-⟩
    · rw [same] at shut
      exact orderly.gone j link' known' s shut
    · exact ⟨here,superseded⟩
  · intro link' inside s blamed
    rw [links] at inside
    obtain ⟨j,known'⟩ := List.mem_iff_getElem?.mp inside
    have clear := orderly.unblamed link' inside s
    rcases conns j link' s known' with same | ⟨-,-,same⟩
    · exact clear (same ▸ blamed)
    · rw [same] at blamed
      exact clear blamed

theorem joinsOrderly (orderly : Orderly nodes p) {opener : Side} {number : Side → Nat}
    (allowed : Allowed nodes p (.joins opener number)) : Orderly nodes (p.act nodes (.joins opener number)) := by
  have links : ∀ {j : Nat} {link' : Link}, (p.links ++ [⟨opener,number⟩])[j]? = some link' →
      p.links[j]? = some link' ∨ j = p.links.length ∧ link' = ⟨opener,number⟩ := by
    intro j link' known
    rcases Nat.lt_trichotomy j p.links.length with inside | rfl | outside
    · rw [List.getElem?_append_left inside] at known
      exact .inl known
    · rw [List.getElem?_concat_length] at known
      exact .inr ⟨rfl,(Option.some.inj known).symm⟩
    · rw [List.getElem?_eq_none (by rw [List.length_append]; exact outside)] at known
      cases known
  have joined : ∀ s, Waiting opener s ((p.act nodes (.joins opener number)).conn s ⟨opener,number⟩) := by
    intro s
    obtain ⟨-,c,there,waiting⟩ := allowed s
    have same : p.conn s ⟨opener,number⟩ = c.conn := connOf there
    exact same ▸ waiting
  have fresh : ∀ s, p.links.length ∉ p.done s := fun s listed => Nat.lt_irrefl _ (orderly.range s _ listed)
  refine ⟨fun s j listed => ?_,⟨?_,?_,?_⟩,?_,?_,?_,?_,?_⟩
  · change j < (p.links ++ [_]).length
    rw [List.length_append]
    exact Nat.lt_add_right _ (orderly.range s j listed)
  · intro j link' known s
    rcases links known with old | ⟨-,rfl⟩
    · exact orderly.linked.placed j link' old s
    · obtain ⟨-,c,there,-⟩ := allowed s
      exact ⟨c,there⟩
  · intro j j' link' link'' known known' s same
    rcases links known with old | ⟨rfl,rfl⟩
    · rcases links known' with old' | ⟨-,rfl⟩
      · exact orderly.linked.own j j' link' link'' old old' s same
      · exact absurd same ((allowed s).1 link' (List.mem_of_getElem? old))
    · rcases links known' with old' | ⟨rfl,-⟩
      · exact absurd same.symm ((allowed s).1 link'' (List.mem_of_getElem? old'))
      · rfl
  · intro s n c there proven
    obtain ⟨link',inside,same⟩ := orderly.linked.apart s n c there proven
    exact ⟨link',List.mem_append_left _ inside,same⟩
  · intro j link' known listed
    rcases links known with old | ⟨rfl,-⟩
    · exact orderly.confirmed j link' old listed
    · exact absurd listed (fresh _)
  · intro j link' known s absent
    rcases links known with old | ⟨-,rfl⟩
    · exact orderly.waiting j link' old s absent
    · exact joined s
  · intro j link' known s listed open'
    rcases links known with old | ⟨rfl,-⟩
    · exact orderly.established j link' old s listed open'
    · exact absurd listed (fresh s)
  · intro j link' known s shut
    rcases links known with old | ⟨-,rfl⟩
    · exact orderly.gone j link' old s shut
    · rw [(joined s).running] at shut
      cases shut
  · intro link' inside s
    rcases List.mem_append.mp inside with old | new
    · exact orderly.unblamed link' old s
    · obtain rfl := List.mem_singleton.mp new
      exact (joined s).unblamed

theorem hearsGo (nodes : Side → P2PNode) (side : Side) (k : Nat) (input : Incoming) (p : Pair) (s : Side) :
    Goes (p.tables s) ((p.hear nodes side k input).tables s) := by
  unfold Pair.hear
  split
  · exact .same rfl
  · exact putGoes (hearGoes _ _ _ _) s

theorem pairGoes (nodes : Side → P2PNode) (p : Pair) (action : Action) (s : Side) :
    Goes (p.tables s) ((p.act nodes action).tables s) := by
  cases action with
  | aside side action => exact putGoes (actGoes _ _ _) s
  | joins opener number => exact .same rfl
  | completes side k input => exact hearsGo nodes side k input p s
  | ends side k input => exact hearsGo nodes side k input p s

theorem linksStay (nodes : Side → P2PNode) (p : Pair) (action : Action) (inside : link ∈ p.links) :
    link ∈ (p.act nodes action).links := by
  have heard : ∀ side k input, (p.hear nodes side k input).links = p.links := by
    intro side k input
    unfold Pair.hear
    split <;> rfl
  cases action with
  | aside side action => exact inside
  | joins opener number => exact List.mem_append_left _ inside
  | completes side k input => exact (heard side k input).symm ▸ inside
  | ends side k input => exact (heard side k input).symm ▸ inside

theorem blamedLater (nodes : Side → P2PNode) {p : Pair} (blamed : ¬Unblamed p) (actions : List Action) :
    ¬Unblamed (p.run nodes actions) := by
  induction actions generalizing p with
  | nil => exact blamed
  | cons action rest ih =>
    refine ih (fun clear => blamed (fun link inside s listed => ?_))
    refine clear link (linksStay nodes p action inside) s ?_
    cases there : (p.tables s).connections[link.number s]? with
    | none =>
      unfold Pair.conn at listed
      rw [there] at listed
      cases listed
    | some c =>
      obtain ⟨c',there',later⟩ := pairGoes nodes p action s _ c there
      rw [connOf there] at listed
      rw [connOf there']
      exact later.trace.subset listed

theorem refusedBlamed (honest : Honest nodes) (orderly : Orderly nodes p)
    (allowed : Allowed nodes p (.completes side k input)) (shown : Shown nodes p (.completes side k input))
    (loud : ¬Quiet nodes p (.completes side k input)) : ¬Unblamed (p.act nodes (.completes side k input)) := by
  obtain ⟨link,c,known,-,there,looping,pending,deduped⟩ := deduplicates honest orderly allowed
  unfold Quiet at loud
  simp only [not_forall] at loud
  obtain ⟨duplicates,link',known',larger⟩ := loud
  obtain rfl := Option.some.inj (known.symm.trans known')
  obtain ⟨other,found⟩ := (duplicateSome honest orderly known shown).mp duplicates
  unfold Deduped at deduped
  rw [found] at deduped
  obtain ⟨-,refused⟩ := deduped.resolve_left (fun kept => larger ((preferredIff honest pending).mp kept.1))
  obtain ⟨⟨c',here,stepped⟩,-⟩ := hearAt (nodes side) input there (by rw [looping]; exact Phase.noConfusion)
  refine fun clear => clear link (linksStay nodes p _ (List.mem_of_getElem? known)) side ?_
  have same : (p.act nodes (.completes side k input)).conn side link = c'.conn := by
    refine connOf ?_
    change ((p.hear nodes side k input).tables side).connections[link.number side]? = some c'
    rw [hearTables nodes side input known,putTable]
    exact here
  rw [same,stepped]
  exact refused.blamed

theorem runOrderly (honest : Honest nodes) (actions : List Action) (orderly : Orderly nodes p)
    (allowed : Throughout nodes (Allowed nodes) p actions) (shown : Throughout nodes (Shown nodes) p actions) :
    Throughout nodes (Quiet nodes) p actions ∧ Orderly nodes (p.run nodes actions) ∨
      ¬Throughout nodes (Quiet nodes) p actions ∧ ¬Unblamed (p.run nodes actions) := by
  induction actions generalizing p with
  | nil => exact .inl ⟨trivial,orderly⟩
  | cons action rest ih =>
    obtain ⟨here,later⟩ := allowed
    obtain ⟨seen,later'⟩ := shown
    by_cases quiet : Quiet nodes p action
    · have next : Orderly nodes (p.act nodes action) := by
        cases action with
        | aside side action => exact asideOrderly orderly here
        | joins opener number => exact joinsOrderly orderly here
        | completes side k input => exact completesOrderly honest orderly here seen quiet
        | ends side k input => exact endsOrderly orderly here
      rcases ih next later later' with ⟨quiet',orderly'⟩ | ⟨loud,blamed⟩
      · exact .inl ⟨⟨quiet,quiet'⟩,orderly'⟩
      · exact .inr ⟨fun whole => loud whole.2,blamed⟩
    · refine .inr ⟨fun whole => quiet whole.1,blamedLater nodes (p := p.act nodes action) ?_ rest⟩
      cases action with
      | aside side action => exact absurd trivial quiet
      | joins opener number => exact absurd trivial quiet
      | completes side k input => exact refusedBlamed honest orderly here seen quiet
      | ends side k input => exact absurd trivial quiet

omit [Env] [Channel] in
theorem Orderly.collapses (orderly : Orderly nodes p) (settled : Settled p) : Collapsed p ↔ SameLast p := by
  have only : ∀ side j, OpenAt p side j → (p.done side).getLast? = some j := by
    rintro side j ⟨link,known,running⟩
    exact (orderly.established j link known side (settled j (List.getElem?_eq_some_iff.mp known).1 side) running).2.2
  constructor
  · rintro ⟨k,left⟩
    exact ⟨k,fun side => only side k ((left side k).mpr rfl)⟩
  · rintro ⟨k,last⟩
    refine ⟨k,fun side j => ⟨fun running => ?_,?_⟩⟩
    · exact Option.some.inj ((only side j running).symm.trans (last side))
    · rintro rfl
      have inside := orderly.range side j (List.mem_of_getLast? (last side))
      refine ⟨p.links[j],List.getElem?_eq_getElem inside,?_⟩
      by_contra closed
      obtain ⟨-,s,-,superseded⟩ := orderly.gone j _ (List.getElem?_eq_getElem inside) side (Bool.eq_false_of_not_eq_true closed)
      exact superseded (last s)

omit [Env] [Channel] in
theorem emptyOrderly (nodes : Side → P2PNode) : Orderly nodes .empty :=
  ⟨by simp [Pair.empty],⟨by simp [Pair.empty],by simp [Pair.empty],by simp [Pair.empty,PeerTable.Table.empty]⟩,
    by simp [Pair.empty],by simp [Pair.empty],by simp [Pair.empty],by simp [Pair.empty],by simp [Pair.empty,Unblamed]⟩

/- Whatever the order of the completions, where the tables show the connections: one connection is
left, the same on both sides, and nobody is blamed, exactly if only connections of the smaller
address complete beside another and both sides complete the same connection last. -/
theorem collapsesExactly (honest : Honest nodes) {actions : List Action}
    (allowed : Throughout nodes (Allowed nodes) .empty actions) (shown : Throughout nodes (Shown nodes) .empty actions)
    (settled : Settled (Pair.empty.run nodes actions)) :
    Collapsed (Pair.empty.run nodes actions) ∧ Unblamed (Pair.empty.run nodes actions) ↔
      Throughout nodes (Quiet nodes) .empty actions ∧ SameLast (Pair.empty.run nodes actions) := by
  rcases runOrderly honest actions (emptyOrderly nodes) allowed shown with ⟨quiet,orderly⟩ | ⟨loud,blamed⟩
  · rw [orderly.collapses settled]
    exact ⟨fun holds => ⟨quiet,holds.1⟩,fun holds => ⟨holds.2,orderly.unblamed⟩⟩
  · exact ⟨fun holds => absurd holds.2 blamed,fun holds => absurd holds.1 loud⟩

def Calm (nodes : Side → P2PNode) (p : Pair) : Action → Prop
  | .aside side action => PeerTable.Undisturbed (nodes side) (p.tables side) action
  | .joins _ _ => True
  | .completes side k input | .ends side k input => ∀ link, p.links[k]? = some link →
      PeerTable.Undisturbed (nodes side) (p.tables side) (.hear (link.number side) input)

omit [Env] [Channel] in
theorem tidyShows {t : PeerTable.Table} (tidy : PeerTable.Tidy t) (address : Address) : Shows t address := by
  intro n c known _
  have live : isOpen c.conn = true ↔ c.isLive := by
    unfold isOpen PeerTable.Connection.isLive
    rw [Bool.and_eq_true,decide_eq_true_iff]
  rw [live]
  constructor
  · exact fun running => ⟨c.peerKey,((tidy n).rows _).mpr ⟨c,known,rfl,running⟩⟩
  · rintro ⟨key,listed⟩
    obtain ⟨c',known',-,running⟩ := ((tidy n).rows key).mp listed
    exact Option.some.inj (known'.symm.trans known) ▸ running

theorem calmTidy {action : Action} (calm : Calm nodes p action) (tidy : ∀ side, PeerTable.Tidy (p.tables side))
    (side : Side) : PeerTable.Tidy ((p.act nodes action).tables side) := by
  have acts : ∀ {s : Side} {action : PeerTable.Action}, PeerTable.Undisturbed (nodes s) (p.tables s) action →
      PeerTable.Tidy ((p.put s ((p.tables s).act (nodes s) action)).tables side) := by
    intro s action undisturbed
    by_cases here : side = s
    · subst here
      rw [putTable]
      exact (PeerTable.actStep (tidy side) (nodes side) action undisturbed).1
    · rw [show (p.put s ((p.tables s).act (nodes s) action)).tables side = p.tables side from
        Function.update_of_ne here ..]
      exact tidy side
  have hears : ∀ {s : Side} {k : Nat} {input : Incoming}, (∀ link, p.links[k]? = some link →
      PeerTable.Undisturbed (nodes s) (p.tables s) (.hear (link.number s) input)) →
      PeerTable.Tidy ((p.hear nodes s k input).tables side) := by
    intro s k input undisturbed
    unfold Pair.hear
    split
    · exact tidy side
    · rename_i link known
      exact acts (undisturbed link known)
  cases action with
  | aside s action => exact acts calm
  | joins opener number => exact tidy side
  | completes s k input => exact hears calm
  | ends s k input => exact hears calm

theorem calmShown {actions : List Action} (calm : Throughout nodes (Calm nodes) p actions)
    (tidy : ∀ side, PeerTable.Tidy (p.tables side)) : Throughout nodes (Shown nodes) p actions := by
  induction actions generalizing p with
  | nil => trivial
  | cons action rest ih =>
    refine ⟨?_,ih calm.2 (calmTidy calm.1 tidy)⟩
    cases action with
    | completes side k input => exact tidyShows (tidy side) _
    | _ => trivial

end Runs

namespace Devnet
open QbitNetwork.Devnet Handshake.Devnet

theorem terseLength (data : Bytes) : (QbitNetwork.Devnet.hash data).length = 32 := by simp [QbitNetwork.Devnet.hash]

@[reducible] def terse : Env where
  sha3_256 := QbitNetwork.Devnet.hash
  sha3_256Length := terseLength
  mldsaSign := fun sk message => sk.take 1 ++ QbitNetwork.Devnet.hash message
  mldsaVerify := fun pk message signature => signature == pk.take 1 ++ QbitNetwork.Devnet.hash message
  dynamicFeeActivationHeight := 0

section Terse
attribute [local instance] terse

@[reducible] def terseChannel : Channel where
  sign sk message := some (Env.mldsaSign sk message)
  mlkemDecapsulate := fun _ _ => none
  aesDecrypt := fun _ _ => none
  jsonLoads := fun _ => none

attribute [local instance] terseChannel

def keyAt : Side → Bytes
  | .a => List.replicate mldsaPkSize 2
  | .b => longKey

def nodes (side : Side) : P2PNode :=
  { responder with signingSk := keyAt side, signingPk := keyAt side, validatorAddress := deriveAddress (keyAt side) }

theorem addressesOrdered : compare (nodes .a).validatorAddress (nodes .b).validatorAddress = .lt ∧
    ∀ side, (nodes side).validatorAddress ≠ "" := by
  refine ⟨by decide +kernel,fun side => ?_⟩
  cases side <;> decide +kernel

theorem nodesHonest : Honest nodes where
  address _ := rfl
  named := addressesOrdered.2
  distinct same := by
    have smaller := addressesOrdered.1
    rw [same,Std.compare_self] at smaller
    cases smaller

def challenge : Bytes := List.replicate challengeLen 5
def counterChallenge : Bytes := List.replicate challengeLen 6

def signedAt (side : Side) (challenge : Bytes) : Bytes :=
  Env.mldsaSign (keyAt side) (buildAuthMessage challenge (deriveAddress (keyAt side)))

def greets (side : Side) : Incoming :=
  incoming "hello_auth" (helloAuth (nodes side) 100 challenge (signedAt side challenge)) counterChallenge

def responds (side : Side) : Incoming :=
  incoming "auth_response" (authResponse (nodes side) (signedAt side challenge) counterChallenge) []

def confirms (side : Side) : Incoming :=
  incoming "auth_confirm" [("challenge_sig",.str (hex (signedAt side counterChallenge)))] []

def blames : Event → Bool
  | .recorded name => name == "auth_failed"
  | _ => false

theorem blamesIff (trace : List Event) : trace.any blames = true ↔ Event.recorded "auth_failed" ∈ trace := by
  rw [List.any_eq_true]
  constructor
  · rintro ⟨event,inside,blamed⟩
    cases event with
    | recorded name => exact beq_iff_eq.mp blamed ▸ inside
    | _ => cases blamed
  · exact fun inside => ⟨_,inside,rfl⟩

instance (trace : List Event) : Decidable (Event.recorded "auth_failed" ∈ trace) :=
  decidable_of_iff _ (blamesIff trace)

instance (opener side : Side) (c : Conn) : Decidable (Waiting opener side c) :=
  decidable_of_iff (isOpen c = true ∧ c.peer.authenticated = false ∧ c.peer.isInitiator = decide (side = opener) ∧
    Event.recorded "auth_failed" ∉ c.trace)
    ⟨fun all => ⟨all.1,all.2.1,all.2.2.1,all.2.2.2⟩,fun waiting => ⟨waiting.1,waiting.2,waiting.3,waiting.4⟩⟩

instance (address : Address) (c : Conn) : Decidable (AuthenticatedAs address c) :=
  inferInstanceAs (Decidable (_ ∧ _))

instance (c c' : Conn) : Decidable (Untouched c c') :=
  decidable_of_iff (isOpen c' = isOpen c ∧ c'.peer.authenticated = c.peer.authenticated ∧
    (c.peer.authenticated = true → c'.peer.remoteAddress = c.peer.remoteAddress) ∧
    (Event.recorded "auth_failed" ∉ c.trace → Event.recorded "auth_failed" ∉ c'.trace))
    ⟨fun all => ⟨all.1,all.2.1,all.2.2.1,all.2.2.2⟩,fun same => ⟨same.1,same.2,same.3,same.4⟩⟩

def pendingAt (side : Side) (c : Conn) : Bool :=
  c.peer.challenge == (if c.peer.isInitiator then challenge else counterChallenge) && c.peer.authDeadline == 10 &&
    (c.peer.isInitiator || c.peer.remotePubkey == keyAt side.other &&
      match negotiate (nodes side) c.peer.protocolVersion c.peer.pendingWireFormat with
      | .ok _ => true
      | .error _ => false)

theorem unexpired : ¬(10 : Rat) < 0 := by decide

theorem answersRead (side : Side) :
    resolvePeerPubkey (Message.get (authResponse (nodes side) (signedAt side challenge) counterChallenge) "signing_pk"
      (.str "")) = some (keyAt side) ∧
    hexOf (Message.get (authResponse (nodes side) (signedAt side challenge) counterChallenge) "challenge_sig"
      (.str "")) = some (signedAt side challenge) ∧
    (hexOf (Message.get (authResponse (nodes side) (signedAt side challenge) counterChallenge) "counter_challenge"
      (.str ""))).filter (fun b => b.length = challengeLen) = some counterChallenge ∧
    hexOf (Message.get [("challenge_sig",.str (hex (signedAt side counterChallenge)))] "challenge_sig" (.str "")) =
      some (signedAt side counterChallenge) := by
  cases side <;> decide +kernel

theorem signedVerifies (side : Side) (asked : Bytes) :
    verifySig (keyAt side) (buildAuthMessage asked (deriveAddress (keyAt side))) (signedAt side asked) = true := by
  have matched : Env.mldsaVerify (keyAt side) (buildAuthMessage asked (deriveAddress (keyAt side)))
      (signedAt side asked) = true := by
    change (_ == _) = true
    exact beq_self_eq_true _
  have filled : (keyAt side).isEmpty = false := by cases side <;> rfl
  have signed : (signedAt side asked).isEmpty = false := by cases side <;> rfl
  rw [verifySig,filled,signed,matched]
  rfl

theorem responseCompletes (side : Side) {c : Conn} (initiator : c.peer.isInitiator = true)
    (pending : pendingAt side c = true) :
    Completing (nodes side) (keyAt side.other) c (responds side.other) := by
  unfold pendingAt at pending
  rw [initiator,if_pos rfl,Bool.true_or,Bool.and_true,Bool.and_eq_true,beq_iff_eq,beq_iff_eq] at pending
  obtain ⟨shown,proof,asked,-⟩ := answersRead side.other
  have valid := signedVerifies side.other challenge
  exact .response rfl initiator (by rw [pending.1]; decide) (by rw [pending.2]; exact unexpired) shown proof
    (by rw [pending.1]; exact valid) asked rfl rfl rfl

theorem confirmCompletes (side : Side) {c : Conn} (responder : c.peer.isInitiator = false)
    (pending : pendingAt side c = true) :
    Completing (nodes side) (keyAt side.other) c (confirms side.other) := by
  unfold pendingAt at pending
  rw [responder,if_neg Bool.false_ne_true,Bool.false_or,Bool.and_eq_true,Bool.and_eq_true,Bool.and_eq_true,beq_iff_eq,
    beq_iff_eq,beq_iff_eq] at pending
  obtain ⟨⟨asked,deadline⟩,expected,negotiated⟩ := pending
  obtain ⟨-,-,-,proof⟩ := answersRead side.other
  have valid := signedVerifies side.other counterChallenge
  have known : keyAt side.other ≠ [] := by cases side <;> decide
  cases agreed : negotiate (nodes side) c.peer.protocolVersion c.peer.pendingWireFormat with
  | error e =>
    rw [agreed] at negotiated
    cases negotiated
  | ok wireFormat =>
    exact .confirm rfl responder (by rw [asked]; decide) (by rw [deadline]; exact unexpired) expected known proof
      (by rw [asked]; exact valid) agreed

inductive Turn where
  | aside (side : Side) (action : PeerTable.Action)
  | joins (opener : Side) (atA atB : Nat)
  | answers (opener side : Side) (k : Nat)

def Turn.action : Turn → Action
  | .aside side action => .aside side action
  | .joins opener atA atB => .joins opener (fun | .a => atA | .b => atB)
  | .answers opener side k => .completes side k (if side = opener then responds side.other else confirms side.other)

def proven (side : Side) (c : Conn) : Bool := decide (AuthenticatedAs (nodes side.other).validatorAddress c)

def ready (p : Pair) : Turn → Bool
  | .aside side action =>
    p.links.all (fun link => decide (Untouched (p.conn side link) ((p.act nodes (.aside side action)).conn side link))) &&
      ((p.tables side).act (nodes side) action).connections.zipIdx.all (fun row =>
        !proven side row.1.conn || p.links.any (fun link => link.number side == row.2))
  | .joins opener atA atB => [(Side.a,atA),(Side.b,atB)].all (fun row =>
      p.links.all (fun link => link.number row.1 != row.2) &&
        (p.tables row.1).connections[row.2]?.any (fun c => decide (Waiting opener row.1 c.conn)))
  | .answers opener side k =>
    p.links[k]?.any (fun link => decide (link.opener = opener ∧ (p.conn side link).phase = .loop ∧
      (p.conn side link).peer.isInitiator = decide (side = opener)) && pendingAt side (p.conn side link)) &&
      !(p.done side).contains k && (side == opener || (p.done opener).contains k)

theorem readyAllowed {p : Pair} {turn : Turn} (holds : ready p turn = true) : Allowed nodes p turn.action := by
  cases turn with
  | aside side action =>
    obtain ⟨untouched,apart⟩ := (Bool.and_eq_true ..).mp holds
    rw [List.all_eq_true] at untouched apart
    refine ⟨fun link inside => of_decide_eq_true (untouched link inside),fun n c there authenticated => ?_⟩
    have checked := apart (c,n) (List.mk_mem_zipIdx_iff_getElem?.mpr there)
    rw [show proven side c.conn = true from decide_eq_true authenticated,Bool.not_true,Bool.false_or,
      List.any_eq_true] at checked
    obtain ⟨link,inside,same⟩ := checked
    exact ⟨link,inside,beq_iff_eq.mp same⟩
  | joins opener atA atB =>
    have each := List.all_eq_true.mp holds
    have both : ∀ side n, (side,n) ∈ [(Side.a,atA),(Side.b,atB)] → (∀ link ∈ p.links, link.number side ≠ n) ∧
        ∃ c, (p.tables side).connections[n]? = some c ∧ Waiting opener side c.conn := by
      intro side n listed
      obtain ⟨fresh,waits⟩ := (Bool.and_eq_true ..).mp (each _ listed)
      rw [List.all_eq_true] at fresh
      obtain ⟨c,there,waiting⟩ := (Option.any_eq_true ..).mp waits
      exact ⟨fun link inside => bne_iff_ne.mp (fresh link inside),c,there,of_decide_eq_true waiting⟩
    intro side
    cases side
    · exact both .a atA (by simp)
    · exact both .b atB (by simp)
  | answers opener side k =>
    obtain ⟨checked,order⟩ := (Bool.and_eq_true ..).mp holds
    obtain ⟨checked,fresh⟩ := (Bool.and_eq_true ..).mp checked
    obtain ⟨link,known,facts⟩ := (Option.any_eq_true ..).mp checked
    obtain ⟨facts,pending⟩ := (Bool.and_eq_true ..).mp facts
    obtain ⟨rfl,looping,initiator⟩ := of_decide_eq_true facts
    rw [Bool.not_eq_true',List.contains_eq_mem,decide_eq_false_iff_not] at fresh
    rw [Bool.or_eq_true,beq_iff_eq,List.contains_eq_mem,decide_eq_true_iff] at order
    refine ⟨link,known,fresh,order,looping,?_⟩
    by_cases own : side = link.opener
    · rw [if_pos own]
      exact responseCompletes side (initiator.trans (decide_eq_true own)) pending
    · rw [if_neg own]
      exact confirmCompletes side (initiator.trans (decide_eq_false own)) pending

def shows (p : Pair) : Turn → Bool
  | .answers _ side _ => (p.tables side).connections.zipIdx.all (fun row =>
      !proven side row.1.conn || isOpen row.1.conn == (p.tables side).peers.rows.any (fun entry => entry.2 == row.2))
  | _ => true

theorem showsShown {p : Pair} {turn : Turn} (holds : shows p turn = true) : Shown nodes p turn.action := by
  cases turn with
  | aside side action => trivial
  | joins opener atA atB => trivial
  | answers opener side k =>
    intro n c there authenticated
    have checked := List.all_eq_true.mp holds (c,n) (List.mk_mem_zipIdx_iff_getElem?.mpr there)
    rw [show proven side c.conn = true from decide_eq_true authenticated,Bool.not_true,Bool.false_or,beq_iff_eq] at checked
    rw [show isOpen c.conn = _ from checked,List.any_eq_true]
    constructor
    · rintro ⟨⟨key,m⟩,listed,same⟩
      obtain rfl : m = n := beq_iff_eq.mp same
      exact ⟨key,listed⟩
    · rintro ⟨key,listed⟩
      exact ⟨_,listed,beq_self_eq_true n⟩

def calm (p : Pair) : Turn → Bool
  | .answers opener side k => opener == .a || !p.links.zipIdx.any (fun row =>
      row.2 != k && isOpen (p.conn side row.1) && proven side (p.conn side row.1))
  | _ => true

theorem calmQuiet {p : Pair} {turn : Turn} (holds : ready p turn = true) (quiet : calm p turn = true) :
    Quiet nodes p turn.action := by
  cases turn with
  | aside side action => trivial
  | joins opener atA atB => trivial
  | answers opener side k =>
    rintro ⟨j,other,different,known,running,authenticated⟩ link known'
    obtain ⟨link',known'',facts⟩ := (Option.any_eq_true ..).mp
      ((Bool.and_eq_true ..).mp ((Bool.and_eq_true ..).mp holds).1).1
    obtain rfl := Option.some.inj (known'.symm.trans known'')
    obtain ⟨rfl,-⟩ := of_decide_eq_true ((Bool.and_eq_true ..).mp facts).1
    rcases (Bool.or_eq_true ..).mp quiet with own | none
    · rw [beq_iff_eq.mp own]
      exact addressesOrdered.1
    · rw [Bool.not_eq_true',List.any_eq_false] at none
      refine absurd ?_ (none (other,j) (List.mk_mem_zipIdx_iff_getElem?.mpr known))
      rw [Bool.and_eq_true,Bool.and_eq_true,bne_iff_ne]
      exact ⟨⟨different,running⟩,decide_eq_true authenticated⟩

def plays (each : Pair → Turn → Bool) (last : Pair → Bool) : Pair → List Turn → Bool
  | p,[] => last p
  | p,turn :: rest => ready p turn && each p turn && plays each last (p.act nodes turn.action) rest

def schedule (turns : List Turn) : List Action := turns.map Turn.action

theorem playsThrough {each : Pair → Turn → Bool} {last : Pair → Bool} {p : Pair} {turns : List Turn}
    (plays : plays each last p turns = true) :
    Throughout nodes (Allowed nodes) p (schedule turns) ∧ last (p.run nodes (schedule turns)) = true ∧
      ∀ {holds : Pair → Action → Prop},
        (∀ p turn, ready p turn = true → each p turn = true → holds p turn.action) →
          Throughout nodes holds p (schedule turns) := by
  induction turns generalizing p with
  | nil => exact ⟨trivial,plays,fun _ => trivial⟩
  | cons turn rest ih =>
    obtain ⟨here,later⟩ := (Bool.and_eq_true ..).mp plays
    obtain ⟨holds,checked⟩ := (Bool.and_eq_true ..).mp here
    obtain ⟨allowed,final,throughout⟩ := ih later
    exact ⟨⟨readyAllowed holds,allowed⟩,final,fun each => ⟨each p turn holds checked,throughout each⟩⟩

def ipOf : Side → String
  | .a => "203.0.113.5"
  | .b => "198.51.100.7"

def asking : Incoming := incoming "" [] challenge

def greeted (opener : Side) (atA atB : Nat) : List Turn :=
  [.aside opener.other (.accept (ipOf opener) true),.joins opener atA atB,
   .aside opener.other (.hear (match opener with | .a => atB | .b => atA) (greets opener))]

def opens (opener : Side) (atA atB : Nat) : List Turn :=
  .aside opener (.opened 0 (some asking)) :: greeted opener atA atB

def dials (opener : Side) (host : String) (atA atB : Nat) : List Turn :=
  .aside opener (.connect host 9000 true) :: opens opener atA atB

def answered (opener : Side) (k : Nat) : List Turn := [.answers opener opener k,.answers opener opener.other k]

def finished (p : Pair) : Bool := (List.range p.links.length).all (fun k => (p.done .a).contains k && (p.done .b).contains k)

theorem finishedSettled {p : Pair} (all : finished p = true) : Settled p := by
  intro k inside side
  have both := List.all_eq_true.mp all k (List.mem_range.mpr inside)
  rw [Bool.and_eq_true,List.contains_iff_mem,List.contains_iff_mem] at both
  cases side
  · exact both.1
  · exact both.2

def replaced : List Turn :=
  dials .b "node-a.example" 0 0 ++ answered .b 0 ++ dials .a "node-b.example" 1 1 ++ answered .a 1

theorem replacedCollapses : Collapsed (Pair.empty.run nodes (schedule replaced)) ∧
    Unblamed (Pair.empty.run nodes (schedule replaced)) := by
  have played : plays (fun p turn => shows p turn && calm p turn)
      (fun p => finished p && (p.done .a).getLast? == some 1 && (p.done .b).getLast? == some 1) .empty replaced = true := by
    decide +kernel
  obtain ⟨allowed,final,throughout⟩ := playsThrough played
  rw [Bool.and_eq_true,Bool.and_eq_true,beq_iff_eq,beq_iff_eq] at final
  refine (collapsesExactly nodesHonest allowed
    (throughout fun _ _ _ checked => showsShown ((Bool.and_eq_true ..).mp checked).1) (finishedSettled final.1.1)).mpr
    ⟨throughout fun _ _ holds checked => calmQuiet holds ((Bool.and_eq_true ..).mp checked).2,1,fun side => ?_⟩
  cases side
  · exact final.1.2
  · exact final.2

def refusing : List Turn :=
  dials .a "node-b.example" 0 0 ++ answered .a 0 ++ dials .b "node-a.example" 1 1 ++ answered .b 1

def crossing : List Turn :=
  dials .a "node-b.example" 0 0 ++ dials .a "backup.example" 1 1 ++
    ([.answers .a .a 0,.answers .a .a 1,.answers .a .b 1,.answers .a .b 0] : List Turn)

def overwritten : List Turn :=
  .aside .a (.connect "node-b.example" 9000 true) :: .aside .a (.connect "node-b.example" 9000 true) ::
    .aside .b (.connect (ipOf .a) 9000 true) ::
      (opens .a 0 0 ++ opens .b 1 1 ++ answered .b 1 ++ answered .a 0 ++ opens .a 2 2 ++ answered .a 2)

/- One of two connections is refused as a failed authentication; or none is open on both sides; or, where
entries were overwritten, two stay open although only the smaller's complete beside another. -/
theorem duplicatesLeft : Honest nodes ∧
    (∃ actions, Throughout nodes (Allowed nodes) .empty actions ∧ Settled (Pair.empty.run nodes actions) ∧
      ¬Unblamed (Pair.empty.run nodes actions)) ∧
    (∃ actions, Throughout nodes (Allowed nodes) .empty actions ∧ Settled (Pair.empty.run nodes actions) ∧
      ∀ k, ¬(OpenAt (Pair.empty.run nodes actions) .a k ∧ OpenAt (Pair.empty.run nodes actions) .b k)) ∧
    ∃ actions, Throughout nodes (Allowed nodes) .empty actions ∧ Throughout nodes (Quiet nodes) .empty actions ∧
      Settled (Pair.empty.run nodes actions) ∧ SameLast (Pair.empty.run nodes actions) ∧
      ¬Collapsed (Pair.empty.run nodes actions) := by
  refine ⟨nodesHonest,⟨schedule refusing,?_⟩,⟨schedule crossing,?_⟩,schedule overwritten,?_⟩
  · have played : plays (fun _ _ => true) (fun p => finished p && p.links.any (fun link =>
        decide (Event.recorded "auth_failed" ∈ (p.conn .a link).trace))) .empty refusing = true := by decide +kernel
    obtain ⟨allowed,final,-⟩ := playsThrough played
    rw [Bool.and_eq_true,List.any_eq_true] at final
    obtain ⟨link,listed,blamed⟩ := final.2
    exact ⟨allowed,finishedSettled final.1,fun clear => clear link listed .a (of_decide_eq_true blamed)⟩
  · have played : plays (fun _ _ => true) (fun p => finished p && p.links.all (fun link =>
        !(isOpen (p.conn .a link) && isOpen (p.conn .b link)))) .empty crossing = true := by decide +kernel
    obtain ⟨allowed,final,-⟩ := playsThrough played
    rw [Bool.and_eq_true,List.all_eq_true] at final
    refine ⟨allowed,finishedSettled final.1,?_⟩
    rintro k ⟨⟨link,known,first⟩,link',known',second⟩
    obtain rfl := Option.some.inj (known.symm.trans known')
    have closed := final.2 link (List.mem_of_getElem? known)
    rw [first,second] at closed
    cases closed
  · have played : plays calm (fun p => finished p && ((p.done .a).getLast? == some 2 && (p.done .b).getLast? == some 2) &&
        p.links[0]?.any (fun link => isOpen (p.conn .a link)) && p.links[2]?.any (fun link => isOpen (p.conn .a link)))
        .empty overwritten = true := by decide +kernel
    obtain ⟨allowed,final,throughout⟩ := playsThrough played
    simp only [Bool.and_eq_true,beq_iff_eq,Option.any_eq_true] at final
    obtain ⟨⟨⟨settled,lastAtA,lastAtB⟩,first⟩,second⟩ := final
    refine ⟨allowed,throughout fun _ _ holds checked => calmQuiet holds checked,finishedSettled settled,⟨2,fun side => ?_⟩,?_⟩
    · cases side
      · exact lastAtA
      · exact lastAtB
    · rintro ⟨k,left⟩
      have same : 0 = 2 := ((left .a 0).mp first).trans ((left .a 2).mp second).symm
      cases same

end Terse

end Devnet

end QbitNetwork.Handshake.Duplicates
