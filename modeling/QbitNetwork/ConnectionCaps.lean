import QbitNetwork.PeerTableLaws

/-! The caps on connections, which are tested before a wait and used up after it: entries of the
peer table, outbound connections to one address, and WebSocket clients. -/
namespace QbitNetwork.Handshake.PeerTable

def Table.Dials (t : Table) (i : Nat) (addr : String) : Prop :=
  ∃ c, t.connections[i]? = some c ∧ c.conn.peer.isInitiator = true ∧ c.isLive ∧ c.peerKey = addr

structure Capped (t : Table) : Prop where
  size : t.peers.size ≤ maxPeers
  once : ∀ i j addr, t.Dials i addr → t.Dials j addr → i = j

structure Waiting (t : Table) : Prop where
  shaped : ∀ (i : Nat) (c : Connection), t.connections[i]? = some c →
    c.peerKey = tempKey c.host i ∨ ∃ host port, c.peerKey = addrOf host port
  inbound : ∀ (i : Nat) (c : Connection), t.connections[i]? = some c → c.conn.phase = .first →
    c.conn.peer.isInitiator = false ∧ c.conn.peer.authenticated = false
  held : ∀ (i : Nat) (c : Connection), t.connections[i]? = some c → c.conn.phase = .first →
    (tempKey c.host i,i) ∈ t.peers.rows ∧ c.peerKey = tempKey c.host i

section Closing
variable {t : Table}

theorem closeOtherKeeps (key : String) {j : Nat} {c' : Connection} (known : (t.closeOther key).connections[j]? = some c') :
    ∃ c, t.connections[j]? = some c ∧ (c' = c ∨ c' = c.disconnect) := by
  unfold Table.closeOther at known
  split at known
  · exact ⟨c',known,.inl rfl⟩
  · rename_i k _
    by_cases same : k = j
    · subst same
      rw [List.getElem?_modify_eq] at known
      obtain ⟨c,before,rfl⟩ := Option.map_eq_some_iff.mp known
      exact ⟨c,before,.inr rfl⟩
    · rw [List.getElem?_modify_ne _ _ same] at known
      exact ⟨c',known,.inl rfl⟩

theorem closeAllKeeps (keys : List String) {j : Nat} {c' : Connection}
    (known : (keys.foldl Table.closeOther t).connections[j]? = some c') :
    ∃ c, t.connections[j]? = some c ∧ (c' = c ∨ c' = c.disconnect) := by
  induction keys generalizing t with
  | nil => exact ⟨c',known,.inl rfl⟩
  | cons key rest ih =>
    obtain ⟨c,between,same⟩ := ih known
    obtain ⟨c₀,before,same₀⟩ := closeOtherKeeps key between
    refine ⟨c₀,before,?_⟩
    rcases same with rfl | rfl <;> rcases same₀ with rfl | rfl <;> simp [Connection.disconnect,Conn.withPeer]

theorem closeAllSize (keys : List String) : (keys.foldl Table.closeOther t).peers.size ≤ t.peers.size := by
  induction keys generalizing t with
  | nil => exact le_refl _
  | cons key rest ih =>
    refine ih.trans ?_
    unfold Table.closeOther
    split
    · exact le_refl _
    · exact OrderedDict.sizePopLe _ _

theorem closeAllRows (keys : List String) {row : String × Nat} (other : row.1 ∉ keys) (listed : row ∈ t.peers.rows) :
    row ∈ (keys.foldl Table.closeOther t).peers.rows := by
  induction keys generalizing t with
  | nil => exact listed
  | cons key rest ih =>
    refine ih (fun inside => other (List.mem_cons_of_mem _ inside)) ?_
    unfold Table.closeOther
    split
    · exact listed
    · refine (OrderedDict.memPop ..).mpr ⟨listed,fun same => ?_⟩
      exact other (same ▸ List.mem_cons_self)

end Closing

section Steps
variable [Env] [Channel] {node : P2PNode} {t : Table}

omit [Env] [Channel] in
theorem rekeySize (waiting : Waiting t) {i : Nat} {c : Connection} (known : t.connections[i]? = some c)
    (input : Incoming) : (t.rekey i c input).peers.size = t.peers.size := by
  unfold Table.rekey
  split
  · rename_i first
    split
    · rfl
    · unfold Table.updatePeerKey
      split
      · rfl
      · obtain ⟨listed,named⟩ := waiting.held i c known first
        have there : t.peers.contains c.peerKey = true := (OrderedDict.containsIff ..).mpr ⟨i,named ▸ listed⟩
        rw [OrderedDict.sizeSet,if_neg,OrderedDict.sizePop _ there]
        split
        · rw [OrderedDict.containsGet,OrderedDict.getPop,if_pos named.symm]
          exact Bool.noConfusion
        · assumption
  · rfl

structure Between (i j : Nat) (c c' : Connection) : Prop where
  host : c'.host = c.host
  conn : c'.conn = c.conn ∨ c'.conn = c.disconnect.conn
  key : c'.peerKey = c.peerKey ∨ j = i ∧ c.conn.phase = .first ∧
    (c'.peerKey = tempKey c.host i ∨ ∃ host port, c'.peerKey = addrOf host port)

omit [Env] [Channel] in
theorem rekeyKeeps {i : Nat} {c : Connection} (known : t.connections[i]? = some c) (input : Incoming) {j : Nat}
    {c' : Connection} (after : (t.rekey i c input).connections[j]? = some c') :
    ∃ c, t.connections[j]? = some c ∧ Between i j c c' := by
  have same : ∀ {c' : Connection}, t.connections[j]? = some c' → ∃ c, t.connections[j]? = some c ∧ Between i j c c' :=
    fun {c'} before => ⟨c',before,rfl,.inl rfl,.inl rfl⟩
  unfold Table.rekey at after
  split at after
  · rename_i first
    split at after
    · exact same after
    · unfold Table.updatePeerKey at after
      split at after
      · exact same after
      · by_cases mine : i = j
        · subst mine
          rw [List.getElem?_set_self (List.getElem?_eq_some_iff.mp known).1] at after
          obtain rfl := Option.some.inj after
          refine ⟨c,known,rfl,.inl rfl,.inr ⟨rfl,first,?_⟩⟩
          simp only
          split
          · exact .inl rfl
          · exact .inr ⟨_,_,rfl⟩
        · rw [List.getElem?_set_ne mine] at after
          exact same after
  · exact same after

omit [Env] [Channel] in
theorem betweenKeeps {i : Nat} {c : Connection} (known : t.connections[i]? = some c) (input : Incoming)
    (keys : List String) {j : Nat} {c' : Connection}
    (after : (keys.foldl Table.closeOther (t.rekey i c input)).connections[j]? = some c') :
    ∃ c, t.connections[j]? = some c ∧ Between i j c c' := by
  obtain ⟨c₁,moved,same⟩ := closeAllKeeps keys after
  obtain ⟨c₀,before,between⟩ := rekeyKeeps known input moved
  refine ⟨c₀,before,?_⟩
  rcases same with rfl | rfl
  · exact between
  · refine ⟨between.host,.inr ?_,between.key⟩
    rcases between.conn with same | same <;> simp [Connection.disconnect,Conn.withPeer,same]

omit [Env] [Channel] in
theorem Between.shaped (waiting : Waiting t) {i j : Nat} {c c' : Connection} (known : t.connections[j]? = some c)
    (between : Between i j c c') : c'.peerKey = tempKey c'.host j ∨ ∃ host port, c'.peerKey = addrOf host port := by
  rw [between.host]
  rcases between.key with same | ⟨rfl,-,shaped⟩
  · rw [same]
    exact waiting.shaped j c known
  · exact shaped

omit [Env] [Channel] in
theorem rekeyRows (waiting : Waiting t) {i : Nat} {c : Connection} (known : t.connections[i]? = some c)
    (input : Incoming) {host : String} {j : Nat} (other : j ≠ i) (listed : (tempKey host j,j) ∈ t.peers.rows) :
    (tempKey host j,j) ∈ (t.rekey i c input).peers.rows := by
  unfold Table.rekey
  split
  · rename_i first
    split
    · exact listed
    · unfold Table.updatePeerKey
      split
      · exact listed
      · obtain ⟨-,named⟩ := waiting.held i c known first
        have apart : ∀ host', tempKey host j ≠ tempKey host' i := fun _ same => other (tempOwn same)
        refine (OrderedDict.memSet ..).mpr (.inr ⟨(OrderedDict.memPop ..).mpr ⟨listed,?_⟩,?_⟩)
        · rw [named]
          exact apart _
        · split
          · exact apart _
          · exact tempNotAddr _ _ _ _
  · exact listed

omit [Env] [Channel] in
theorem recordKeeps (table : Table) {i : Nat} {conn : Conn} {j : Nat} {c' : Connection}
    (after : (table.record i conn).connections[j]? = some c') :
    ∃ c, table.connections[j]? = some c ∧ (j ≠ i ∧ c' = c ∨ j = i ∧ c' = { c with conn }) := by
  unfold Table.record at after
  split at after
  · rename_i none
    refine ⟨c',after,.inl ⟨?_,rfl⟩⟩
    rintro rfl
    rw [none] at after
    cases after
  · rename_i c known
    by_cases mine : i = j
    · subst mine
      rw [List.getElem?_set_self (List.getElem?_eq_some_iff.mp known).1] at after
      exact ⟨c,known,.inr ⟨rfl,(Option.some.inj after).symm⟩⟩
    · rw [List.getElem?_set_ne mine] at after
      exact ⟨c',after,.inl ⟨Ne.symm mine,rfl⟩⟩

omit [Env] [Channel] in
theorem recordSize (table : Table) (i : Nat) (conn : Conn) : (table.record i conn).peers.size ≤ table.peers.size := by
  unfold Table.record
  split
  · exact le_refl _
  · simp only
    split
    · exact OrderedDict.sizePopLe _ _
    · exact le_refl _

omit [Env] [Channel] in
theorem recordRows (table : Table) {i : Nat} (conn : Conn)
    (shaped : ∀ c : Connection, table.connections[i]? = some c →
      c.peerKey = tempKey c.host i ∨ ∃ host port, c.peerKey = addrOf host port)
    {host : String} {j : Nat} (other : j ≠ i) (listed : (tempKey host j,j) ∈ table.peers.rows) :
    (tempKey host j,j) ∈ (table.record i conn).peers.rows := by
  unfold Table.record
  split
  · exact listed
  · rename_i c known
    simp only
    split
    · refine (OrderedDict.memPop ..).mpr ⟨listed,?_⟩
      unfold Connection.finalKey
      split
      · exact tempNotAddr _ _ _ _
      · rcases shaped c known with named | ⟨_,_,named⟩
        · simp only [named]
          exact fun same => other (tempOwn same)
        · simp only [named]
          exact tempNotAddr _ _ _ _
    · exact listed

theorem hearWaiting (waiting : Waiting t) (i : Nat) (input : Incoming) : Waiting (t.hear node i input) := by
  unfold Table.hear
  split
  · exact waiting
  rename_i c known
  split
  · exact waiting
  rename_i running
  simp only
  have moved := stepped node running { input with others := t.others i }
  generalize step node c.conn { input with others := t.others i } = conn at moved
  have before : ∀ {j : Nat} {c' : Connection},
      (((closings c.conn conn).foldl Table.closeOther (t.rekey i c input)).record i conn).connections[j]? = some c' →
        ∃ c₁ c₂, t.connections[j]? = some c₁ ∧ Between i j c₁ c₂ ∧ (j ≠ i ∧ c' = c₂ ∨ j = i ∧ c' = { c₂ with conn }) := by
    intro j c' after
    obtain ⟨c₂,held,same⟩ := recordKeeps _ after
    obtain ⟨c₁,first,between⟩ := betweenKeeps known input _ held
    exact ⟨c₁,c₂,first,between,same⟩
  -- one that waits has made no step, and is not the one that does
  have idle : ∀ {j : Nat} {c' : Connection},
      (((closings c.conn conn).foldl Table.closeOther (t.rekey i c input)).record i conn).connections[j]? = some c' →
        c'.conn.phase = .first → j ≠ i ∧ ∃ c₁, t.connections[j]? = some c₁ ∧ c₁.conn.phase = .first ∧
          c'.host = c₁.host ∧ c'.peerKey = c₁.peerKey ∧ c'.conn.peer.isInitiator = c₁.conn.peer.isInitiator ∧
          c'.conn.peer.authenticated = c₁.conn.peer.authenticated := by
    intro j c' after first
    obtain ⟨c₁,c₂,was,between,⟨other,rfl⟩ | ⟨rfl,rfl⟩⟩ := before after
    · have key := between.key.resolve_right (fun mine => other mine.1)
      rcases between.conn with same | same <;> rw [same] at first ⊢ <;>
        exact ⟨other,c₁,was,first,between.host,key,rfl,rfl⟩
    · exact absurd first moved.phase
  refine ⟨fun j c' after => ?_,fun j c' after first => ?_,fun j c' after first => ?_⟩
  · obtain ⟨c₁,c₂,was,between,same⟩ := before after
    have shaped := between.shaped waiting was
    rcases same with ⟨-,rfl⟩ | ⟨rfl,rfl⟩
    · exact shaped
    · exact shaped
  · obtain ⟨-,c₁,was,first₁,-,-,initiator,authenticated⟩ := idle after first
    rw [initiator,authenticated]
    exact waiting.inbound j c₁ was first₁
  · obtain ⟨other,c₁,was,first₁,host,key,-,-⟩ := idle after first
    obtain ⟨listed,named⟩ := waiting.held j c₁ was first₁
    rw [key,host]
    refine ⟨recordRows _ conn (fun c' held => ?_) other (closeAllRows _ ?_ (rekeyRows waiting known input other listed)),named⟩
    · obtain ⟨c₂,was',between⟩ := betweenKeeps known input _ held
      exact between.shaped waiting was'
    · -- what is closed is authenticated, and so under another key
      intro inside
      obtain ⟨shown,among,authenticated,same⟩ := moved.closings _ inside
      obtain ⟨k,ck,-,row,found,trusted,-⟩ := memOthers.mp among
      rw [same] at row
      obtain rfl : k = j := OrderedDict.rowUnique _ row listed
      rw [was] at found
      cases found
      rw [(waiting.inbound k c₁ was first₁).2,authenticated] at trusted
      cases trusted

theorem hearDials (waiting : Waiting t) (i : Nat) (input : Incoming) {j : Nat} {addr : String}
    (dials : (t.hear node i input).Dials j addr) : t.Dials j addr := by
  unfold Table.hear at dials
  split at dials
  · exact dials
  rename_i c known
  split at dials
  · exact dials
  rename_i running
  simp only at dials
  have moved := stepped node running { input with others := t.others i }
  generalize step node c.conn { input with others := t.others i } = conn at moved dials
  obtain ⟨c',after,initiator,live,named⟩ := dials
  obtain ⟨c₂,held,same⟩ := recordKeeps _ after
  obtain ⟨c₁,was,between⟩ := betweenKeeps known input _ held
  rcases same with ⟨other,rfl⟩ | ⟨rfl,rfl⟩
  · have key := between.key.resolve_right (fun mine => other mine.1)
    rcases between.conn with same | same
    · exact ⟨c₁,was,same ▸ initiator,⟨same ▸ live.1,same ▸ live.2⟩,key ▸ named⟩
    · have closed := live.2
      rw [same] at closed
      cases closed
  · rw [known] at was
    obtain rfl := Option.some.inj was
    have outbound : c.conn.peer.isInitiator = true := moved.isInitiator ▸ initiator
    have key : c₂.peerKey = c.peerKey := by
      refine between.key.resolve_right (fun mine => ?_)
      rw [(waiting.inbound j c known mine.2.1).1] at outbound
      cases outbound
    exact ⟨c,known,outbound,⟨running,(moved.connected live.1) ▸ live.2⟩,key ▸ named⟩

theorem hearSize (waiting : Waiting t) (i : Nat) (input : Incoming) :
    (t.hear node i input).peers.size ≤ t.peers.size := by
  unfold Table.hear
  split
  · exact le_refl _
  rename_i c known
  split
  · exact le_refl _
  · exact (recordSize ..).trans ((closeAllSize _).trans (rekeySize waiting known input).le)

end Steps

section Caps
variable [Env] [Channel]

def Unsigned (node : P2PNode) (input : Incoming) : Prop :=
  node.hasSigningKeys = true ∧
    Channel.sign node.signingSk (buildAuthMessage input.urandom node.validatorAddress) = none

def Meets (node : P2PNode) (t : Table) : Action → Prop
  | .opened n (some input) => ∀ host port, t.opening[n]? = some (host,port) → Unsigned node input ∨
    (t.peers.contains (addrOf host (.int port)) = true ∨ t.peers.size < maxPeers) ∧
      ∀ i, ¬t.Dials i (addrOf host (.int port))
  | _ => True

omit [Env] in
theorem connectClosed (node : P2PNode) (port : Int) (input : Incoming) :
    (Handshake.connect node port input).phase = .closed ↔ Unsigned node input := by
  unfold Handshake.connect Unsigned
  dsimp only
  split
  · rename_i keys
    split
    · rename_i unsigned
      simp [keys,unsigned,Conn.close]
    · rename_i proof signed
      simp [signed,Conn.send,Conn.emit,Conn.withPeer]
  · rename_i keyless
    simp [keyless,Conn.send,Conn.emit]

variable {t t' : Table}

omit [Env] [Channel] in
theorem dialsAppend {c : Connection} (grown : t'.connections = t.connections ++ [c]) (j : Nat) (addr : String) :
    t'.Dials j addr ↔ t.Dials j addr ∨
      j = t.connections.length ∧ c.conn.peer.isInitiator = true ∧ c.isLive ∧ c.peerKey = addr := by
  unfold Table.Dials
  rw [grown]
  by_cases last : j = t.connections.length
  · subst last
    simp
  · rw [appended _ _ last]
    simp [last]

omit [Env] [Channel] in
theorem waitingAppend (waiting : Waiting t) {c : Connection} (grown : t'.connections = t.connections ++ [c])
    (shaped : c.peerKey = tempKey c.host t.connections.length ∨ ∃ host port, c.peerKey = addrOf host port)
    (first : c.conn.phase = .first → c.conn.peer.isInitiator = false ∧ c.conn.peer.authenticated = false ∧
      (tempKey c.host t.connections.length,t.connections.length) ∈ t'.peers.rows ∧
        c.peerKey = tempKey c.host t.connections.length)
    (kept : ∀ host j, j ≠ t.connections.length → (tempKey host j,j) ∈ t.peers.rows → (tempKey host j,j) ∈ t'.peers.rows) :
    Waiting t' := by
  have known : ∀ {j : Nat} {c' : Connection}, t'.connections[j]? = some c' →
      j ≠ t.connections.length ∧ t.connections[j]? = some c' ∨ j = t.connections.length ∧ c' = c := by
    intro j c' after
    rw [grown] at after
    by_cases last : j = t.connections.length
    · subst last
      rw [List.getElem?_concat_length] at after
      exact .inr ⟨rfl,(Option.some.inj after).symm⟩
    · rw [appended _ _ last] at after
      exact .inl ⟨last,after⟩
  refine ⟨fun j c' after => ?_,fun j c' after waits => ?_,fun j c' after waits => ?_⟩
  · rcases known after with ⟨-,before⟩ | ⟨rfl,rfl⟩
    · exact waiting.shaped j c' before
    · exact shaped
  · rcases known after with ⟨-,before⟩ | ⟨rfl,rfl⟩
    · exact waiting.inbound j c' before waits
    · exact ⟨(first waits).1,(first waits).2.1⟩
  · rcases known after with ⟨other,before⟩ | ⟨rfl,rfl⟩
    · obtain ⟨listed,named⟩ := waiting.held j c' before waits
      exact ⟨kept _ j other listed,named⟩
    · exact (first waits).2.2

omit [Env] in
theorem registerWaiting (waiting : Waiting t) (node : P2PNode) (host : String) (port : Int) (input : Incoming) :
    Waiting (t.register node host port input) := by
  refine waitingAppend waiting (c := ⟨host,Handshake.connect node port input,addrOf host (.int port)⟩) rfl
    (.inr ⟨_,_,rfl⟩) (fun first => absurd first (connectPhase node port input)) (fun host' j _ listed => ?_)
  have set : (tempKey host' j,j) ∈ (t.peers.set (addrOf host (.int port)) t.connections.length).rows :=
    (OrderedDict.memSet ..).mpr (.inr ⟨listed,tempNotAddr _ _ _ _⟩)
  simp only [Table.register]
  split
  · exact (OrderedDict.memPop ..).mpr ⟨set,tempNotAddr _ _ _ _⟩
  · exact set

omit [Env] [Channel] in
theorem acceptWaiting (waiting : Waiting t) (host : String) (allowed : Bool) : Waiting (t.accept host allowed) := by
  unfold Table.accept
  split
  · exact waiting
  split
  · exact waiting
  · refine waitingAppend waiting (c := ⟨host,accepted,tempKey host t.connections.length⟩) rfl (.inl rfl)
      (fun _ => ⟨rfl,rfl,(OrderedDict.memSet ..).mpr (.inl rfl),rfl⟩) (fun host' j other listed => ?_)
    exact (OrderedDict.memSet ..).mpr (.inr ⟨listed,fun same => other (tempOwn same)⟩)

theorem actWaiting (waiting : Waiting t) (node : P2PNode) (action : Action) : Waiting (t.act node action) := by
  have opening : ∀ rest, Waiting { t with opening := rest } :=
    fun rest => ⟨waiting.shaped,waiting.inbound,waiting.held⟩
  cases action with
  | connect host port safe =>
    simp only [Table.act,Table.connect]
    split
    · exact waiting
    split
    · exact waiting
    split
    · exact waiting
    · exact opening _
  | opened n input =>
    simp only [Table.act,Table.opened]
    split
    · exact waiting
    · cases input with
      | none => exact opening _
      | some input => exact registerWaiting (opening _) node _ _ input
  | accept host allowed => exact acceptWaiting waiting host allowed
  | hear i input => exact hearWaiting waiting i input

omit [Env] [Channel] in
theorem acceptCapped (capped : Capped t) (host : String) (allowed : Bool) : Capped (t.accept host allowed) := by
  unfold Table.accept
  split
  · exact capped
  rename_i room
  split
  · exact capped
  · refine ⟨?_,fun i j addr first second => ?_⟩
    · rw [OrderedDict.sizeSet]
      split <;> omega
    · -- what it adds is inbound
      have old : ∀ {i : Nat}, Table.Dials { t with
          peers := t.peers.set (tempKey host t.connections.length) t.connections.length
          connections := t.connections ++ [⟨host,accepted,tempKey host t.connections.length⟩] } i addr →
            t.Dials i addr :=
        fun {i} dials => ((dialsAppend rfl i addr).mp dials).resolve_right (fun new => Bool.noConfusion new.2.1)
      exact capped.once i j addr (old first) (old second)

omit [Env] in
theorem registerCapped (capped : Capped t) (node : P2PNode) (host : String) (port : Int) (input : Incoming) :
    Capped (t.register node host port input) ↔ Unsigned node input ∨
      (t.peers.contains (addrOf host (.int port)) = true ∨ t.peers.size < maxPeers) ∧
        ∀ i, ¬t.Dials i (addrOf host (.int port)) := by
  have grown : (t.register node host port input).connections =
      t.connections ++ [⟨host,Handshake.connect node port input,addrOf host (.int port)⟩] := rfl
  have dials := dialsAppend grown
  have initiator := (connectPeer node port input).2.1
  have bounded := capped.size
  by_cases unsigned : Unsigned node input
  · have closed := (connectClosed node port input).mpr unsigned
    refine iff_of_true ⟨?_,fun i j addr first second => ?_⟩ (.inl unsigned)
    · have sized : (t.register node host port input).peers.size =
          ((t.peers.set (addrOf host (.int port)) t.connections.length).pop (addrOf host (.int port))).size := by
        simp only [Table.register,if_pos closed]
      have popped := OrderedDict.sizePop (t.peers.set (addrOf host (.int port)) t.connections.length)
        ((OrderedDict.containsIff _ (addrOf host (.int port))).mpr ⟨_,(OrderedDict.memSet ..).mpr (.inl rfl)⟩)
      rw [OrderedDict.sizeSet] at popped
      rw [sized]
      split at popped <;> omega
    · have old : ∀ {i : Nat}, (t.register node host port input).Dials i addr → t.Dials i addr :=
        fun {i} new => ((dials i addr).mp new).resolve_right (fun new => new.2.2.1.1 closed)
      exact capped.once i j addr (old first) (old second)
  · have running : (Handshake.connect node port input).phase ≠ .closed :=
      fun closed => unsigned ((connectClosed node port input).mp closed)
    have mine : (t.register node host port input).Dials t.connections.length (addrOf host (.int port)) :=
      (dials _ _).mpr (.inr ⟨rfl,initiator,⟨running,(connectPeer node port input).2.2 running⟩,rfl⟩)
    have sized : (t.register node host port input).peers.size =
        if t.peers.contains (addrOf host (.int port)) then t.peers.size else t.peers.size + 1 := by
      simp only [Table.register,if_neg running,OrderedDict.sizeSet]
    rw [or_iff_right unsigned]
    constructor
    · intro after
      refine ⟨?_,fun i dialed => ?_⟩
      · have cap := after.size
        rw [sized] at cap
        split at cap
        · rename_i known
          exact .inl known
        · exact .inr cap
      · have same := after.once i _ _ ((dials i _).mpr (.inl dialed)) mine
        obtain ⟨c,known,-⟩ := dialed
        rw [same,List.getElem?_eq_none (Nat.le_refl _)] at known
        cases known
    · rintro ⟨room,free⟩
      refine ⟨?_,fun i j addr first second => ?_⟩
      · rw [sized]
        rcases room with known | below
        · rw [if_pos known]
          exact bounded
        · split <;> omega
      · rcases (dials i addr).mp first with one | ⟨rfl,-,-,rfl⟩ <;> rcases (dials j _).mp second with two | ⟨rfl,-,-,named⟩
        · exact capped.once i j addr one two
        · exact absurd one (named ▸ free i)
        · exact absurd two (free j)
        · rfl

theorem actCapped (capped : Capped t) (waiting : Waiting t) (node : P2PNode) (action : Action) :
    Capped (t.act node action) ↔ Meets node t action := by
  have opening : ∀ rest, Capped { t with opening := rest } := fun rest => ⟨capped.size,capped.once⟩
  cases action with
  | connect host port safe =>
    refine iff_of_true ?_ trivial
    simp only [Table.act,Table.connect]
    split
    · exact capped
    split
    · exact capped
    split
    · exact capped
    · exact opening _
  | opened n input =>
    cases input with
    | none =>
      refine iff_of_true ?_ trivial
      simp only [Table.act,Table.opened]
      split
      · exact capped
      · exact opening _
    | some input =>
      simp only [Table.act,Table.opened,Meets]
      split
      · rename_i none
        exact iff_of_true capped (fun host port found => absurd (none.symm.trans found) (by simp))
      · rename_i host port found
        rw [registerCapped (opening _) node host port input]
        constructor
        · intro room host' port' found'
          obtain ⟨rfl,rfl⟩ := Prod.mk.inj (Option.some.inj (found.symm.trans found'))
          exact room
        · intro room
          exact room host port found
  | accept host allowed => exact iff_of_true (acceptCapped capped host allowed) trivial
  | hear i input =>
    refine iff_of_true ⟨(hearSize waiting i input).trans capped.size,fun j k addr first second => ?_⟩ trivial
    exact capped.once j k addr (hearDials waiting i input first) (hearDials waiting i input second)

inductive Roomy (node : P2PNode) : Table → Prop where
  | start : Roomy node .empty
  | act {t : Table} {action : Action} (run : Roomy node t) (meets : Meets node t action) : Roomy node (t.act node action)

theorem roomyCapped {node : P2PNode} (run : Roomy node t) : Capped t ∧ Waiting t := by
  induction run with
  | start =>
    refine ⟨⟨Nat.zero_le _,fun i j addr first => ?_⟩,⟨fun i c known => ?_,fun i c known => ?_,fun i c known => ?_⟩⟩
    · obtain ⟨c,known,-⟩ := first
      cases known
    all_goals cases known
  | act run meets ih => exact ⟨(actCapped ih.1 ih.2 _ _).mpr meets,actWaiting ih.2 _ _⟩

end Caps

end QbitNetwork.Handshake.PeerTable

namespace QbitNetwork.WebSockets

def maxWsConnections : Nat := 100

structure WebSocketManager where
  allClients : List Nat
  preparing : List Nat
  made : Nat

namespace WebSocketManager

def connectedCount (m : WebSocketManager) : Nat := m.allClients.length

def removeAll (m : WebSocketManager) (ws : Nat) : WebSocketManager :=
  { m with allClients := m.allClients.filter (· ≠ ws) }

def stop (m : WebSocketManager) : WebSocketManager := { m with allClients := [] }

def request (allowed : Bool) (m : WebSocketManager) : WebSocketManager :=
  if allowed = false then m
  else if maxWsConnections ≤ m.connectedCount then m
  else { m with preparing := m.preparing ++ [m.made], made := m.made + 1 }

def prepared (n : Nat) (upgraded : Bool) (m : WebSocketManager) : WebSocketManager :=
  match m.preparing[n]? with
  | none => m
  | some ws =>
    let m := { m with preparing := m.preparing.eraseIdx n }
    if upgraded then { m with allClients := m.allClients ++ [ws] } else m

end WebSocketManager

inductive Action where
  | request (allowed : Bool)
  | prepared (n : Nat) (upgraded : Bool)
  | remove (ws : Nat)
  | stop

def WebSocketManager.act (m : WebSocketManager) : Action → WebSocketManager
  | .request allowed => m.request allowed
  | .prepared n upgraded => m.prepared n upgraded
  | .remove ws => m.removeAll ws
  | .stop => m.stop

def WebSocketManager.Capped (m : WebSocketManager) : Prop := m.connectedCount ≤ maxWsConnections

def Meets (m : WebSocketManager) : Action → Prop
  | .prepared n true => ∀ ws, m.preparing[n]? = some ws → m.connectedCount < maxWsConnections
  | _ => True

theorem actCapped {m : WebSocketManager} (capped : m.Capped) (action : Action) : (m.act action).Capped ↔ Meets m action := by
  cases action with
  | request allowed =>
    refine iff_of_true ?_ trivial
    simp only [WebSocketManager.act,WebSocketManager.request]
    split
    · exact capped
    split
    · exact capped
    · exact capped
  | prepared n upgraded =>
    simp only [WebSocketManager.act,WebSocketManager.prepared]
    cases found : m.preparing[n]? with
    | none =>
      refine iff_of_true capped ?_
      cases upgraded
      · trivial
      · exact fun ws some => absurd (found.symm.trans some) (by simp)
    | some ws =>
      cases upgraded with
      | false => exact iff_of_true capped trivial
      | true =>
        have grown : (m.allClients ++ [ws]).length = m.connectedCount + 1 := List.length_append
        simp only [if_true,Meets,found,Option.some.injEq,forall_eq',WebSocketManager.Capped,
          WebSocketManager.connectedCount] at grown ⊢
        omega
  | remove ws => exact iff_of_true ((List.length_filter_le _ _).trans capped) trivial
  | stop => exact iff_of_true (Nat.zero_le _) trivial

inductive Roomy : WebSocketManager → Prop where
  | start : Roomy ⟨[],[],0⟩
  | act {m : WebSocketManager} {action : Action} (run : Roomy m) (meets : Meets m action) : Roomy (m.act action)

theorem roomyCapped {m : WebSocketManager} (run : Roomy m) : m.Capped := by
  induction run with
  | start => exact Nat.zero_le _
  | act _ meets ih => exact (actCapped ih _).mpr meets

end QbitNetwork.WebSockets

namespace QbitNetwork.Handshake.PeerTable

theorem connectionCaps [Env] [Channel] {node : P2PNode} {t : Table} (run : Roomy node t)
    {m : WebSockets.WebSocketManager} (served : WebSockets.Roomy m) :
    (t.peers.size ≤ maxPeers ∧ (∀ i j addr, t.Dials i addr → t.Dials j addr → i = j) ∧
        ∀ action, Capped (t.act node action) ↔ Meets node t action) ∧
      m.connectedCount ≤ WebSockets.maxWsConnections ∧ ∀ action, (m.act action).Capped ↔ WebSockets.Meets m action := by
  obtain ⟨capped,waiting⟩ := roomyCapped run
  have few := WebSockets.roomyCapped served
  exact ⟨⟨capped.size,capped.once,actCapped capped waiting node⟩,few,WebSockets.actCapped few⟩

namespace Devnet
open QbitNetwork.Devnet Handshake.Devnet

section Legacy
attribute [local instance] legacy plainChannel

def sole : List Action := [.connect "8.8.8.8" 9000 true,.opened 0 (some asking)]

theorem connectionCapsSole :
    ((tableAfter sole).peers.size = 1 ∧
        ∀ action, Capped ((tableAfter sole).act responder action) ↔ Meets responder (tableAfter sole) action) ∧
      (WebSockets.WebSocketManager.act ⟨[],[0],1⟩ (.prepared 0 true)).connectedCount = 1 := by
  have asks : Roomy responder (tableAfter (sole.take 1)) :=
    .act .start (show Meets responder .empty (.connect "8.8.8.8" 9000 true) from trivial)
  have opens : Meets responder (tableAfter (sole.take 1)) (.opened 0 (some asking)) := by
    intro host port found
    refine .inr ⟨.inr (by decide +kernel),fun i dials => ?_⟩
    obtain ⟨c,known,-⟩ := dials
    have none : (tableAfter (sole.take 1)).connections = [] := by decide +kernel
    rw [none] at known
    cases known
  have requested : WebSockets.Roomy (WebSockets.WebSocketManager.act ⟨[],[],0⟩ (.request true)) := .act .start trivial
  have upgrades : WebSockets.Roomy (WebSockets.WebSocketManager.act ⟨[],[0],1⟩ (.prepared 0 true)) :=
    .act requested (fun _ _ => by decide)
  have caps := connectionCaps (.act asks opens) upgrades
  exact ⟨⟨by decide +kernel,caps.1.2.2⟩,rfl⟩

def ports : List Int := (List.range 51).map (fun n => 9000 + (n : Int))

def crowding : List Action :=
  ports.map (fun port => .connect "8.8.8.8" port true) ++ ports.map (fun _ => .opened 0 (some asking))

def twins : List Action :=
  List.replicate 2 (.connect "8.8.8.8" 9000 true) ++ List.replicate 2 (.opened 0 (some asking))

def rush : List WebSockets.Action :=
  List.replicate 101 (.request true) ++ List.replicate 101 (.prepared 0 true)

theorem capsOverrun : maxPeers < (tableAfter crowding).peers.size ∧
    (∃ i j addr, i ≠ j ∧ (tableAfter twins).Dials i addr ∧ (tableAfter twins).Dials j addr) ∧
      WebSockets.maxWsConnections < (rush.foldl WebSockets.WebSocketManager.act ⟨[],[],0⟩).connectedCount := by
  refine ⟨by decide +kernel,⟨0,1,"8.8.8.8:9000",Nat.zero_ne_one,?_⟩,by decide +kernel⟩
  have dials : ∀ i, (tableAfter twins).connections[i]?.map (fun c =>
      (c.conn.peer.isInitiator,c.conn.phase,c.conn.peer.connected,c.peerKey)) = some (true,.loop,true,"8.8.8.8:9000") →
        (tableAfter twins).Dials i "8.8.8.8:9000" := by
    intro i found
    obtain ⟨c,known,fields⟩ := Option.map_eq_some_iff.mp found
    simp only [Prod.mk.injEq] at fields
    obtain ⟨initiator,looping,connected,named⟩ := fields
    exact ⟨c,known,initiator,⟨by simp [looping],connected⟩,named⟩
  exact ⟨dials 0 (by decide +kernel),dials 1 (by decide +kernel)⟩

end Legacy

end Devnet

end QbitNetwork.Handshake.PeerTable
