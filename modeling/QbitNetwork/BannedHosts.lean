import QbitNetwork.Gossip
import QbitNetwork.PeerTableLaws

/-! What a node records of its peers, and whom it lets in: a penalty is kept under the address of
a connection, the door asks for the host. -/
namespace QbitNetwork.Handshake.PeerTable

structure Guarded where
  table : Table := .empty
  reputation : PeerReputation := {}
  syncSourceAddr : String := ""

inductive Occurrence where
  | connect (host : String) (port : Int) (safe : Bool)
  | opened (n : Nat) (input : Option Incoming)
  | arrive (host : String) (safe : Bool)
  | hear (i : Nat) (input : Incoming)
  | handler (i : Nat) (event : PeerEvent)
  | choose (i : Option Nat)
  | blame (event : PeerEvent)
  | decay

def recordedEvent : Event → Option PeerEvent
  | .recorded event =>
    if event = "auth_failed" then some .authFailed else if event = "rate_limited" then some .rateLimited else none
  | _ => none

def recordedEvents (before after : Conn) : List PeerEvent :=
  (after.trace.drop before.trace.length).filterMap recordedEvent

namespace Guarded

def arrive (g : Guarded) (host : String) (safe : Bool) : Guarded :=
  { g with table := g.table.accept host (!g.reputation.isBanned host && safe) }

def recordFor (g : Guarded) (i : Nat) (event : PeerEvent) : Guarded :=
  match g.table.connections[i]? with
  | none => g
  | some c => { g with reputation := g.reputation.record c.addr event }

/- `_sync_source_addr` is kept while the connection may come under another address. -/
def choose (g : Guarded) (i : Option Nat) : Guarded :=
  { g with syncSourceAddr := ((i.bind (g.table.connections[·]?)).map Connection.addr).getD "" }

def blame (g : Guarded) (event : PeerEvent) : Guarded :=
  { g with reputation := g.reputation.record g.syncSourceAddr event }

def note (g : Guarded) (i : Nat) (before : Conn) (table : Table) : Guarded :=
  match table.connections[i]? with
  | none => { g with table }
  | some after => (recordedEvents before after.conn).foldl (fun g event => g.recordFor i event) { g with table }

section Acts
variable [Env] [Channel]

def hear (node : P2PNode) (g : Guarded) (i : Nat) (input : Incoming) : Guarded :=
  match g.table.connections[i]? with
  | none => g
  | some c => g.note i c.conn (g.table.hear node i { input with banned := g.reputation.isBanned c.addr })

def act (node : P2PNode) (g : Guarded) : Occurrence → Guarded
  | .connect host port safe => { g with table := g.table.connect host port safe }
  | .opened n input => { g with table := g.table.opened node n input }
  | .arrive host safe => g.arrive host safe
  | .hear i input => g.hear node i input
  | .handler i event => g.recordFor i event
  | .choose i => g.choose i
  | .blame event => g.blame event
  | .decay => { g with reputation := g.reputation.decay }

inductive Reached (node : P2PNode) : Guarded → Prop where
  | start : Reached node {}
  | act {g : Guarded} (prior : Reached node g) (occurrence : Occurrence) : Reached node (g.act node occurrence)

inductive Later (node : P2PNode) (g : Guarded) : Guarded → Prop where
  | now : Later node g g
  | act {g' : Guarded} (prior : Later node g g') (occurrence : Occurrence) : Later node g (g'.act node occurrence)

end Acts

def HostBanned (g : Guarded) (host : String) : Prop := ∃ port, g.reputation.isBanned (addrOf host port) = true

def Rejects (g : Guarded) (host : String) (safe : Bool) : Prop := (g.arrive host safe).table = g.table

section Bans

theorem isBannedIff (r : PeerReputation) (key : String) : r.isBanned key = true ↔ key ≠ "" ∧ key ∈ r.banned := by
  simp [PeerReputation.isBanned]

theorem recordBans (r : PeerReputation) (peerId : String) (event : PeerEvent) (key : String) :
    (r.isBanned key = true → (r.record peerId event).isBanned key = true) ∧
    ((r.record peerId event).isBanned key = true → r.isBanned key = true ∨ key = peerId) := by
  rw [PeerReputation.record]
  split
  · exact ⟨fun banned => banned,.inl⟩
  simp only
  split
  · rw [isBannedIff,isBannedIff]
    refine ⟨fun banned => ⟨banned.1,(DSet.memInsert ..).mpr (.inr banned.2)⟩,fun banned => ?_⟩
    rcases (DSet.memInsert ..).mp banned.2 with same | inside
    · exact .inr same
    · exact .inl ⟨banned.1,inside⟩
  · exact ⟨fun banned => banned,.inl⟩

def Addressed (key : String) : Prop := key = "" ∨ ∃ host port, key = addrOf host port

structure Named (g : Guarded) : Prop where
  banned : ∀ key, g.reputation.isBanned key = true → Addressed key
  source : Addressed g.syncSourceAddr

structure Passes (g g' : Guarded) : Prop where
  stays : ∀ key, g.reputation.isBanned key = true → g'.reputation.isBanned key = true
  named : Named g → Named g'

theorem Passes.trans {g g' g'' : Guarded} (first : Passes g g') (second : Passes g' g'') : Passes g g'' :=
  ⟨fun key banned => second.stays key (first.stays key banned),fun named => second.named (first.named named)⟩

theorem passesTable (g : Guarded) (table : Table) : Passes g { g with table } :=
  ⟨fun _ banned => banned,fun named => ⟨named.banned,named.source⟩⟩

theorem recordPasses (g : Guarded) {peerId : String} (event : PeerEvent) (known : Named g → Addressed peerId) :
    Passes g { g with reputation := g.reputation.record peerId event } := by
  refine ⟨fun key => (recordBans ..).1,fun named => ⟨fun key banned => ?_,named.source⟩⟩
  rcases (recordBans ..).2 banned with old | rfl
  · exact named.banned key old
  · exact known named

theorem recordForPasses (g : Guarded) (i : Nat) (event : PeerEvent) : Passes g (g.recordFor i event) := by
  rw [recordFor]
  split
  · exact passesTable g g.table
  · exact recordPasses g event (fun _ => .inr ⟨_,_,rfl⟩)

theorem notePasses (g : Guarded) (i : Nat) (before : Conn) (table : Table) : Passes g (g.note i before table) := by
  have all : ∀ (events : List PeerEvent) (g : Guarded),
      Passes g (events.foldl (fun g event => g.recordFor i event) g) := by
    intro events
    induction events with
    | nil => exact fun g => passesTable g g.table
    | cons event rest ih => exact fun g => (recordForPasses g i event).trans (ih _)
  rw [note]
  split
  · exact passesTable g table
  · exact (passesTable g table).trans (all _ _)

theorem choosePasses (g : Guarded) (i : Option Nat) : Passes g (g.choose i) := by
  refine ⟨fun _ banned => banned,fun named => ⟨named.banned,?_⟩⟩
  simp only [choose]
  cases i.bind (g.table.connections[·]?) with
  | none => exact .inl rfl
  | some c => exact .inr ⟨_,_,rfl⟩

variable [Env] [Channel] {node : P2PNode}

theorem actPasses (g : Guarded) (occurrence : Occurrence) : Passes g (g.act node occurrence) := by
  cases occurrence with
  | connect host port safe => exact passesTable g _
  | opened n input => exact passesTable g _
  | arrive host safe => exact passesTable g _
  | handler i event => exact recordForPasses g i event
  | choose i => exact choosePasses g i
  | blame event => exact recordPasses g event Named.source
  | decay => exact ⟨fun _ banned => banned,fun named => ⟨named.banned,named.source⟩⟩
  | hear i input =>
    simp only [act,hear]
    split
    · exact passesTable g g.table
    · exact notePasses ..

theorem reachedNamed {g : Guarded} (reached : Reached node g) : Named g := by
  induction reached with
  | start => exact ⟨fun key banned => by simp [PeerReputation.isBanned] at banned,.inl rfl⟩
  | act prior occurrence named => exact (actPasses _ occurrence).named named

theorem hostBannedLater {g g' : Guarded} {host : String} (banned : g.HostBanned host) (later : Later node g g') :
    g'.HostBanned host := by
  obtain ⟨port,banned⟩ := banned
  refine ⟨port,?_⟩
  induction later with
  | now => exact banned
  | act prior occurrence ih => exact (actPasses _ occurrence).stays _ ih

theorem reachedLater {g g' : Guarded} (reached : Reached node g) (later : Later node g g') : Reached node g' := by
  induction later with
  | now => exact reached
  | act prior occurrence ih => exact .act ih occurrence

omit [Env] [Channel] in
theorem rejectsIff (g : Guarded) (host : String) (safe : Bool) : g.Rejects host safe ↔
    maxPeers ≤ g.table.peers.size ∨ safe = false ∨ g.reputation.isBanned host = true := by
  rw [Rejects,arrive]
  simp only [Table.accept]
  split
  · rename_i full
    simp [full]
  · rename_i room
    split
    · rename_i refused
      simp only [true_iff]
      cases safe with
      | false => exact .inr (.inl rfl)
      | true => exact .inr (.inr (by simpa using refused))
    · rename_i allowed
      constructor
      · intro same
        have longer := congrArg (fun t : Table => t.connections.length) same
        simp at longer
      · rintro (full | unsafe' | banned)
        · exact absurd full room
        · simp [unsafe'] at allowed
        · simp [banned] at allowed

theorem bannedHostAtTheDoor {g g' : Guarded} {host : String} (reached : Reached node g) (banned : g.HostBanned host)
    (later : Later node g g') (safe : Bool) : g'.HostBanned host ∧ (g'.Rejects host safe ↔
      maxPeers ≤ g'.table.peers.size ∨ safe = false ∨
        ∃ other port, host = addrOf other port ∧ g'.reputation.isBanned (addrOf other port) = true) ∧
    (':' ∉ host.toList → (g'.Rejects host safe ↔ maxPeers ≤ g'.table.peers.size ∨ safe = false)) := by
  have named : g'.reputation.isBanned host = true ↔
      ∃ other port, host = addrOf other port ∧ g'.reputation.isBanned (addrOf other port) = true := by
    constructor
    · intro listed
      rcases (reachedNamed (reachedLater reached later)).banned host listed with rfl | ⟨other,port,rfl⟩
      · cases listed
      · exact ⟨other,port,rfl,listed⟩
    · rintro ⟨other,port,rfl,listed⟩
      exact listed
  refine ⟨hostBannedLater banned later,by rw [rejectsIff,named],fun plain => ?_⟩
  have stranger : g'.reputation.isBanned host ≠ true := by
    intro listed
    obtain ⟨other,port,rfl,-⟩ := named.mp listed
    exact plain (by rw [addrChars]; simp)
  simp [rejectsIff,stranger]

end Bans

end Guarded

namespace Devnet
open QbitNetwork.Devnet Handshake.Devnet

section Legacy
attribute [local instance] legacy plainChannel

def forgery : Incoming := incoming "hello_auth" [("port",.int 9000)] []

def banned : Guarded :=
  [.arrive "8.8.8.8" true,.hear 0 forgery,.arrive "8.8.8.8" true,.hear 1 forgery].foldl
    (Guarded.act responder) {}

theorem bannedReached : Guarded.Reached responder banned :=
  .act (.act (.act (.act .start (.arrive "8.8.8.8" true)) (.hear 0 forgery)) (.arrive "8.8.8.8" true))
    (.hear 1 forgery)

theorem bannedPeer : banned.HostBanned "8.8.8.8" := ⟨.int 9000,by decide +kernel⟩

theorem bannedHostReturns : (banned.act responder .decay).HostBanned "8.8.8.8" ∧
    (banned.act responder .decay).Rejects "8.8.8.8" false := by
  obtain ⟨still,-,plain⟩ := Guarded.bannedHostAtTheDoor bannedReached bannedPeer (.act .now .decay) false
  exact ⟨still,(plain (by decide +kernel)).mpr (.inr rfl)⟩

theorem bannedHostLetIn : ¬ ∀ (node : P2PNode) (g : Guarded) (host : String), Guarded.Reached node g →
    g.HostBanned host → ∀ safe, g.Rejects host safe := by
  intro claim
  have rejected := claim responder banned "8.8.8.8" bannedReached bannedPeer true
  have let_in : ¬(maxPeers ≤ banned.table.peers.size ∨ true = false ∨
      banned.reputation.isBanned "8.8.8.8" = true) := by decide +kernel
  exact let_in ((Guarded.rejectsIff ..).mp rejected)

end Legacy

end Devnet

end QbitNetwork.Handshake.PeerTable
