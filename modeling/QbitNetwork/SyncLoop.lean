import QbitNetwork.BlockSync
import QbitNetwork.HeaderSync

/-! The main loop of the sync manager, from one suspension to the next: the states it asks its
table for and the one it sets itself. What it finds when it goes on (peers, chain, answers, the
clock) is an input. -/
namespace QbitNetwork.SyncLoop
open BlockSync (SyncState transitions chunked)
open Gossip (occursIn)

section Model

/- The `SYNC_` numbers, for which `config.py` has no values. -/
structure Limits where
  blocks : BlockSync.Limits
  threshold : Int
  maxRetries : Nat

structure PeerInfo where
  addr : String
  height : Int
  connected : Bool

/- What is there when the loop goes on. `score` is absent where the reputation has no such
method and asking for it raises. -/
structure World where
  peers : List PeerInfo
  score : Option (String → Rat)
  chain : Blockchain
  now : Int

inductive Event where
  | requested (old new : SyncState)
  | assigned (old new : SyncState)
  deriving DecidableEq

structure Manager where
  state : SyncState := .IDLE
  targetHeight : Int := -1
  syncSourceAddr : String := ""
  headerQueue : List Header := []
  running : Bool := false
  sigExecutor : Bool := false
  events : List Event := []

structure HeaderWork where
  currentHeight : Int
  startPrevHash : Json
  retries : Nat := 0

/- The variables of `_block_sync`: the chunks of this turn still awaited, and the later ones. -/
structure BlockWork where
  batch : List (List Int) := []
  chunks : List (List Int)
  forkBlocks : List Block := []

/- Where the loop stands. Between two of its turns it is not suspended; that something else
could run there only adds runs. -/
inductive Place where
  | stopped
  | turn
  | pause
  | checkPeers
  | headers (work : HeaderWork)
  | headerSignatures (work : HeaderWork) (headers : List Header) (verdict : Check)
  | crossVerify
  | noPeers (work : BlockWork)
  | chunk (work : BlockWork)
  | blockSignature (work : BlockWork) (block : Block) (rest : List (Option Block)) (pk : Option Bytes)
  | followTip

structure Config where
  manager : Manager
  place : Place

/- What ends a suspension. A block of an answer is absent where `from_dict` raises; an answer that
is no list of headers is refused or raises; the pool answers for the signatures of the headers
when they are handed to it. -/
inductive Wake where
  | slept
  | raised
  | timeout
  | headers (headers : List Header) (pool : SigExecutor)
  | oddHeaders
  | chunk (blocks : Option (List (Option Block)))
  | pool (answers : Bool)

inductive Input where
  | start
  | stop
  | status (height : Int)
  | resume (world : World) (wake : Wake)

namespace World

def bestPeerHeight (w : World) : Int :=
  ((w.peers.filter (fun p => p.connected && 0 ≤ p.height)).map PeerInfo.height).foldl max (-1)

def peerCount (w : World) : Nat := (w.peers.filter PeerInfo.connected).length

def candidates (w : World) : List PeerInfo := w.peers.filter (fun p => p.connected && 0 ≤ p.height)

def ranked (w : World) : Except PyExc (List PeerInfo) :=
  match w.candidates,w.score with
  | [],_ => .ok []
  | _ :: _,none => .error .attributeError
  | found,some score => .ok (found.insertionSort
      (fun p q => q.height < p.height ∨ q.height = p.height ∧ score q.addr ≤ score p.addr))

def selectSyncSource (w : World) : Except PyExc (Option PeerInfo) := do
  let found ← w.ranked
  .ok found.head?

def getSyncPeers (w : World) (limits : Limits) : Except PyExc (List PeerInfo) := do
  let found ← w.ranked
  .ok (found.take limits.blocks.maxParallel)

def getPeer (w : World) (addr : String) : Option PeerInfo :=
  w.peers.find? (fun p => p.addr = addr ∧ p.connected = true)

end World

namespace Manager

def transition (m : Manager) (newState : SyncState) : Manager :=
  let asked := { m with events := m.events ++ [.requested m.state newState] }
  if newState ∈ transitions m.state then { asked with state := newState } else asked

def assign (m : Manager) (newState : SyncState) : Manager :=
  { m with state := newState, events := m.events ++ [.assigned m.state newState] }

def next (m : Manager) : Config := ⟨m,.turn⟩

/- The pause of the loop after an exception, and that of `_check_peers`. -/
def waits (m : Manager) : Config := ⟨m,.pause⟩

end Manager

def Manager.syncFrom (m : Manager) (peer : PeerInfo) : Config :=
  ({ m with syncSourceAddr := peer.addr, targetHeight := peer.height }.transition .HEADER_SYNC).next

def checkPeers (limits : Limits) (w : World) (m : Manager) : Config :=
  let near := w.chain.height + limits.threshold
  let stay :=
    if 0 ≤ w.bestPeerHeight ∧ w.bestPeerHeight ≤ near ∧ 0 < w.peerCount then (m.assign .SYNCED).next
    else m.waits
  if near < w.bestPeerHeight then
    match w.selectSyncSource with
    | .error _ => m.waits
    | .ok (some peer) => m.syncFrom peer
    | .ok none => stay
  else stay

def followTip (limits : Limits) (w : World) (m : Manager) : Config :=
  let stay := if w.peerCount = 0 then (m.transition .IDLE).next else m.next
  if w.chain.height + limits.threshold < w.bestPeerHeight then
    match w.selectSyncSource with
    | .error _ => m.waits
    | .ok (some peer) => m.syncFrom peer
    | .ok none => stay
  else stay

section Headers

def headersDone (m : Manager) : Config :=
  if m.headerQueue.isEmpty then (m.transition .IDLE).next else ⟨m,.crossVerify⟩

def headerLoop (w : World) (m : Manager) (work : HeaderWork) : Config :=
  if work.currentHeight ≤ m.targetHeight ∧ m.running = true then
    match w.getPeer m.syncSourceAddr with
    | none => (m.transition .IDLE).next
    | some _ => ⟨m,.headers work⟩
  else headersDone m

def headersTimedOut (limits : Limits) (w : World) (m : Manager) (work : HeaderWork) : Config :=
  let work := { work with retries := work.retries + 1 }
  let lost := { m with syncSourceAddr := "" }
  if limits.maxRetries ≤ work.retries then (m.transition .IDLE).next
  else
    match w.selectSyncSource with
    | .error _ => lost.waits
    | .ok none => headerLoop w lost work
    | .ok (some peer) => headerLoop w { m with syncSourceAddr := peer.addr } work

def headersVerified (w : World) (m : Manager) (work : HeaderWork) (headers : List Header) (verdict : Check) :
    Config :=
  match verdict with
  | .error (.refused _) => (m.transition .IDLE).next
  | .error (.raised _) => m.waits
  | .ok _ =>
    headerLoop w { m with headerQueue := m.headerQueue ++ headers }
      { work with currentHeight := work.currentHeight + headers.length, retries := 0 }

variable [Env]

def headerSync (w : World) (m : Manager) : Config :=
  headerLoop w { m with headerQueue := [] }
    { currentHeight := w.chain.height + 1
      startPrevHash := match w.chain.latestBlock with
        | some tip => .str tip.blockHash
        | none => .str "0000000000000000000000000000000000000000000000000000000000000000" }

def headersArrived [PyText] (w : World) (m : Manager) (work : HeaderWork) (headers : List Header)
    (pool : SigExecutor) : Config :=
  if headers.isEmpty then headersDone m
  else
    let expectedPrev := match m.headerQueue.getLast? with
      | some hdr => hdr.value "hash"
      | none => work.startPrevHash
    match w.chain.validateHeaderChain headers expectedPrev with
    | .error (.refused _) => (m.transition .IDLE).next
    | .error (.raised _) => m.waits
    | .ok _ => ⟨m,.headerSignatures work headers
        (w.chain.verifyHeaderSignaturesAsync (if m.sigExecutor then some pool else none) headers)⟩

end Headers

section Blocks
variable [Env]

def blocksDone (w : World) (m : Manager) (work : BlockWork) : Config :=
  match (BlockSync.attemptForkResolution { chain := w.chain, headerQueue := [] } work.forkBlocks w.now).1 with
  | .raised _ => m.waits
  | _ => ({ m with headerQueue := [] }.transition .SYNCED).next

def blockLoop (limits : Limits) (w : World) (m : Manager) (work : BlockWork) : Config :=
  if work.chunks = [] ∨ m.running = false then blocksDone w m work
  else
    match w.getSyncPeers limits with
    | .error _ => m.waits
    | .ok [] => ⟨m,.noPeers work⟩
    | .ok peers =>
      let batchSize := min peers.length limits.blocks.maxParallel
      ⟨m,.chunk { work with batch := work.chunks.take batchSize, chunks := work.chunks.drop batchSize }⟩

def chunkDone (limits : Limits) (w : World) (m : Manager) (work : BlockWork) : Config :=
  match work.batch.tail with
  | [] => blockLoop limits w m { work with batch := [] }
  | batch => ⟨m,.chunk { work with batch }⟩

/- What a block leaves of the work; without any, the rest of its chunk is dropped. -/
def offer (w : World) (work : BlockWork) (block : Block) : Option BlockWork :=
  match (w.chain.addBlock block w.now).1 with
  | .accepted => some work
  | .refused err =>
    if occursIn "first-seen wins" err || occursIn "already have" err then
      if occursIn "already have" err then some work
      else some { work with forkBlocks := work.forkBlocks ++ [block] }
    else none
  | .raised _ => none

def takeBlocks (limits : Limits) : World → Manager → BlockWork → List (Option Block) → Config
  | w,m,work,[] => chunkDone limits w m work
  | w,m,work,none :: _ => chunkDone limits w m work
  | w,m,work,some block :: rest =>
    if m.sigExecutor then
      ⟨m,.blockSignature work block rest w.chain.state.staking.validatorRegistry[block.validator]?⟩
    else
      match offer w work block with
      | none => chunkDone limits w m work
      | some work => takeBlocks limits { w with chain := (w.chain.addBlock block w.now).2 } m work rest

def blockVerified (limits : Limits) (w : World) (m : Manager) (work : BlockWork) (block : Block)
    (rest : List (Option Block)) (pk : Option Bytes) (answers : Bool) : Config :=
  if ∃ key ∈ pk, (answers && block.verifySignature key) = true then
    match offer w work block with
    | none => chunkDone limits w m work
    | some work => takeBlocks limits { w with chain := (w.chain.addBlock block w.now).2 } m work rest
  else (m.transition .IDLE).next

def blockSync (limits : Limits) (w : World) (m : Manager) : Config :=
  if m.headerQueue.isEmpty then (m.transition .SYNCED).next
  else
    let heights := m.headerQueue.map Header.position
    blockLoop limits w m { chunks := chunked limits.blocks.blockBatch heights.length heights }

end Blocks

section Loop
variable [Env] [PyText]

def mainLoop (limits : Limits) (w : World) (m : Manager) : Config :=
  if m.running = false then ⟨m,.stopped⟩
  else
    match m.state with
    | .IDLE => ⟨m,.checkPeers⟩
    | .HEADER_SYNC => headerSync w m
    | .BLOCK_SYNC => blockSync limits w m
    | .SYNCED => ⟨m,.followTip⟩

def resume (limits : Limits) (w : World) (c : Config) (wake : Wake) : Config :=
  match c.place,wake with
  | .turn,.slept => mainLoop limits w c.manager
  | .pause,.slept => c.manager.next
  | .checkPeers,.slept => checkPeers limits w c.manager
  | .headers work,.headers headers pool => headersArrived w c.manager work headers pool
  | .headers work,.timeout => headersTimedOut limits w c.manager work
  | .headers _,.oddHeaders => (c.manager.transition .IDLE).next
  | .headers _,.raised => c.manager.waits
  | .headerSignatures work headers verdict,.slept => headersVerified w c.manager work headers verdict
  | .crossVerify,.slept => (c.manager.transition .BLOCK_SYNC).next
  | .crossVerify,.raised => c.manager.waits
  | .noPeers work,.slept => blockLoop limits w c.manager work
  | .chunk work,.chunk (some blocks) => takeBlocks limits w c.manager work blocks
  | .chunk work,.chunk none => chunkDone limits w c.manager work
  | .chunk work,.timeout => chunkDone limits w c.manager work
  | .chunk work,.raised => chunkDone limits w c.manager work
  | .blockSignature work block rest pk,.pool answers =>
    blockVerified limits w c.manager work block rest pk answers
  | .followTip,.slept => followTip limits w c.manager
  | _,_ => c

/- `start`, `stop` (the task is cancelled where it stands) and `on_peer_status`, or the loop. -/
def step (limits : Limits) (c : Config) : Input → Config
  | .start => if c.manager.running then c else ⟨{ c.manager with running := true, sigExecutor := true },.turn⟩
  | .stop => ⟨{ c.manager with running := false, sigExecutor := false },.stopped⟩
  | .status height => { c with manager := { c.manager with targetHeight := max c.manager.targetHeight height } }
  | .resume w wake => resume limits w c wake

def run (limits : Limits) (inputs : List Input) : Config := inputs.foldl (step limits) ⟨{},.stopped⟩

end Loop

end Model

section Laws

def Event.outcome : Event → SyncState
  | .requested old new => if new ∈ transitions old then new else old
  | .assigned _ new => new

def Event.old : Event → SyncState
  | .requested old _ => old
  | .assigned old _ => old

def replay (events : List Event) : Option SyncState :=
  events.foldlM (fun state event => if event.old = state then some event.outcome else none) .IDLE

/- A request the table grants, or that of a block sync to go idle; or the leap of a node that
finds itself caught up. -/
def Event.Lawful : Event → Prop
  | .requested old new => new ∈ transitions old ∨ old = .BLOCK_SYNC ∧ new = .IDLE
  | .assigned old new => old = .IDLE ∧ new = .SYNCED

structure Lawful (m : Manager) : Prop where
  recorded : replay m.events = some m.state
  lawful : ∀ event ∈ m.events, event.Lawful

def Place.Fits : Place → SyncState → Prop
  | .stopped,_ => True
  | .turn,_ => True
  | .pause,_ => True
  | .checkPeers,state => state = .IDLE
  | .headers _,state => state = .HEADER_SYNC
  | .headerSignatures _ _ _,state => state = .HEADER_SYNC
  | .crossVerify,state => state = .HEADER_SYNC
  | .noPeers _,state => state = .BLOCK_SYNC
  | .chunk _,state => state = .BLOCK_SYNC
  | .blockSignature _ _ _ _,state => state = .BLOCK_SYNC
  | .followTip,state => state = .SYNCED

structure Settled (c : Config) : Prop where
  lawful : Lawful c.manager
  fits : c.place.Fits c.manager.state

theorem replayAppend (events : List Event) (event : Event) :
    replay (events ++ [event]) =
      (replay events).bind (fun state => if event.old = state then some event.outcome else none) := by
  simp [replay,List.foldlM_append]

theorem transitionEvents (m : Manager) (newState : SyncState) :
    (m.transition newState).events = m.events ++ [.requested m.state newState] := by
  unfold Manager.transition
  split <;> rfl

theorem transitionState (m : Manager) (newState : SyncState) :
    (m.transition newState).state = if newState ∈ transitions m.state then newState else m.state := by
  unfold Manager.transition
  split <;> rfl

theorem transitionLawful {m : Manager} {newState : SyncState} (lawful : Lawful m)
    (asked : (Event.requested m.state newState).Lawful) : Lawful (m.transition newState) := by
  constructor
  · rw [transitionEvents,transitionState,replayAppend,lawful.recorded]
    exact if_pos rfl
  · rw [transitionEvents]
    intro event inside
    rcases List.mem_append.mp inside with earlier | last
    · exact lawful.lawful event earlier
    · rw [List.mem_singleton.mp last]
      exact asked

theorem assignLawful {m : Manager} {newState : SyncState} (lawful : Lawful m)
    (leap : (Event.assigned m.state newState).Lawful) : Lawful (m.assign newState) := by
  constructor
  · rw [Manager.assign,replayAppend,lawful.recorded]
    exact if_pos rfl
  · intro event inside
    rcases List.mem_append.mp inside with earlier | last
    · exact lawful.lawful event earlier
    · rw [List.mem_singleton.mp last]
      exact leap

theorem nextSettled {m : Manager} (lawful : Lawful m) : Settled m.next := ⟨lawful,trivial⟩

theorem waitsSettled {m : Manager} (lawful : Lawful m) : Settled m.waits := ⟨lawful,trivial⟩

theorem asksSettled {m : Manager} {newState : SyncState} (lawful : Lawful m)
    (asked : (Event.requested m.state newState).Lawful) : Settled (m.transition newState).next :=
  nextSettled (transitionLawful lawful asked)

theorem lawfulCongr {m m' : Manager} (lawful : Lawful m) (state : m'.state = m.state)
    (events : m'.events = m.events) : Lawful m' := by
  constructor
  · rw [events,state]
    exact lawful.recorded
  · rw [events]
    exact lawful.lawful

theorem syncFromSettled {m : Manager} {peer : PeerInfo} (lawful : Lawful m)
    (ready : m.state = .IDLE ∨ m.state = .SYNCED) : Settled (m.syncFrom peer) := by
  refine asksSettled (lawfulCongr lawful rfl rfl) (.inl ?_)
  rcases ready with idle | synced
  · rw [idle]
    decide
  · rw [synced]
    decide

theorem checkPeersSettled (limits : Limits) (w : World) {m : Manager} (lawful : Lawful m) (idle : m.state = .IDLE) :
    Settled (checkPeers limits w m) := by
  unfold checkPeers
  extract_lets near stay
  have stays : Settled stay := by
    unfold stay
    split
    · exact nextSettled (assignLawful lawful ⟨idle,rfl⟩)
    · exact waitsSettled lawful
  split
  · split
    · exact waitsSettled lawful
    · exact syncFromSettled lawful (.inl idle)
    · exact stays
  · exact stays

theorem followTipSettled (limits : Limits) (w : World) {m : Manager} (lawful : Lawful m)
    (synced : m.state = .SYNCED) : Settled (followTip limits w m) := by
  unfold followTip
  extract_lets stay
  have stays : Settled stay := by
    unfold stay
    split
    · refine asksSettled lawful (.inl ?_)
      rw [synced]
      decide
    · exact nextSettled lawful
  split
  · split
    · exact waitsSettled lawful
    · exact syncFromSettled lawful (.inr synced)
    · exact stays
  · exact stays

section Headers
variable {m : Manager} (lawful : Lawful m) (syncing : m.state = .HEADER_SYNC)
include lawful syncing

theorem headersAbandoned : Settled (m.transition .IDLE).next := by
  refine asksSettled lawful (.inl ?_)
  rw [syncing]
  decide

theorem headersDoneSettled : Settled (headersDone m) := by
  unfold headersDone
  split
  · exact headersAbandoned lawful syncing
  · exact ⟨lawful,syncing⟩

theorem headerLoopSettled (w : World) (work : HeaderWork) : Settled (headerLoop w m work) := by
  unfold headerLoop
  split
  · split
    · exact headersAbandoned lawful syncing
    · exact ⟨lawful,syncing⟩
  · exact headersDoneSettled lawful syncing

theorem headersTimedOutSettled (limits : Limits) (w : World) (work : HeaderWork) :
    Settled (headersTimedOut limits w m work) := by
  unfold headersTimedOut
  extract_lets work lost
  have lostLawful : Lawful lost := lawfulCongr lawful rfl rfl
  split
  · exact headersAbandoned lawful syncing
  · split
    · exact waitsSettled lostLawful
    · exact headerLoopSettled lostLawful syncing w work
    · rename_i peer _
      have moved : Lawful { m with syncSourceAddr := peer.addr } := lawfulCongr lawful rfl rfl
      exact headerLoopSettled moved syncing w work

theorem headersVerifiedSettled (w : World) (work : HeaderWork) (headers : List Header) (verdict : Check) :
    Settled (headersVerified w m work headers verdict) := by
  unfold headersVerified
  split
  · exact headersAbandoned lawful syncing
  · exact waitsSettled lawful
  · have longer : Lawful { m with headerQueue := m.headerQueue ++ headers } := lawfulCongr lawful rfl rfl
    exact headerLoopSettled longer syncing w _

variable [Env]

theorem headerSyncSettled (w : World) : Settled (headerSync w m) := by
  have cleared : Lawful { m with headerQueue := [] } := lawfulCongr lawful rfl rfl
  exact headerLoopSettled cleared syncing w _

theorem headersArrivedSettled [PyText] (w : World) (work : HeaderWork) (headers : List Header)
    (pool : SigExecutor) : Settled (headersArrived w m work headers pool) := by
  unfold headersArrived
  split
  · exact headersDoneSettled lawful syncing
  · extract_lets expectedPrev
    split
    · exact headersAbandoned lawful syncing
    · exact waitsSettled lawful
    · exact ⟨lawful,syncing⟩

end Headers

section Blocks
variable [Env] {m : Manager} (lawful : Lawful m) (syncing : m.state = .BLOCK_SYNC)
include lawful syncing

omit [Env] in
theorem blocksSynced : Settled (({ m with headerQueue := [] } : Manager).transition .SYNCED).next := by
  refine asksSettled (lawfulCongr lawful rfl rfl) (.inl ?_)
  rw [show ({ m with headerQueue := [] } : Manager).state = .BLOCK_SYNC from syncing]
  decide

theorem blocksDoneSettled (w : World) (work : BlockWork) : Settled (blocksDone w m work) := by
  unfold blocksDone
  split
  · exact waitsSettled lawful
  · exact blocksSynced lawful syncing

theorem blockLoopSettled (limits : Limits) (w : World) (work : BlockWork) :
    Settled (blockLoop limits w m work) := by
  unfold blockLoop
  split
  · exact blocksDoneSettled lawful syncing w work
  · split
    · exact waitsSettled lawful
    · exact ⟨lawful,syncing⟩
    · exact ⟨lawful,syncing⟩

theorem chunkDoneSettled (limits : Limits) (w : World) (work : BlockWork) :
    Settled (chunkDone limits w m work) := by
  unfold chunkDone
  split
  · exact blockLoopSettled lawful syncing limits w _
  · exact ⟨lawful,syncing⟩

theorem takeBlocksSettled (limits : Limits) (w : World) (work : BlockWork) (blocks : List (Option Block)) :
    Settled (takeBlocks limits w m work blocks) := by
  induction blocks generalizing w work with
  | nil => exact chunkDoneSettled lawful syncing limits w work
  | cons item rest ih =>
    cases item with
    | none => exact chunkDoneSettled lawful syncing limits w work
    | some block =>
      rw [takeBlocks]
      split
      · exact ⟨lawful,syncing⟩
      · split
        · exact chunkDoneSettled lawful syncing limits w work
        · exact ih ..

theorem blockVerifiedSettled (limits : Limits) (w : World) (work : BlockWork) (block : Block)
    (rest : List (Option Block)) (pk : Option Bytes) (answers : Bool) :
    Settled (blockVerified limits w m work block rest pk answers) := by
  unfold blockVerified
  split
  · split
    · exact chunkDoneSettled lawful syncing limits w work
    · exact takeBlocksSettled lawful syncing limits _ _ rest
  · exact asksSettled lawful (.inr ⟨syncing,rfl⟩)

theorem blockSyncSettled (limits : Limits) (w : World) : Settled (blockSync limits w m) := by
  unfold blockSync
  split
  · refine asksSettled lawful (.inl ?_)
    rw [syncing]
    decide
  · exact blockLoopSettled lawful syncing limits w _

end Blocks

section Loop
variable [Env] [PyText]

omit [PyText] in
theorem mainLoopSettled (limits : Limits) (w : World) {m : Manager} (lawful : Lawful m) :
    Settled (mainLoop limits w m) := by
  unfold mainLoop
  split
  · exact ⟨lawful,trivial⟩
  · split
    case h_1 idle => exact ⟨lawful,idle⟩
    case h_2 syncing => exact headerSyncSettled lawful syncing w
    case h_3 syncing => exact blockSyncSettled lawful syncing limits w
    case h_4 synced => exact ⟨lawful,synced⟩

theorem resumeSettled (limits : Limits) (w : World) {c : Config} (settled : Settled c) (wake : Wake) :
    Settled (resume limits w c wake) := by
  obtain ⟨m,place⟩ := c
  obtain ⟨lawful,fits⟩ := settled
  unfold resume
  split
  case h_18 => exact ⟨lawful,fits⟩
  all_goals rename_i at'; simp only at at'; subst at'
  case h_1 => exact mainLoopSettled limits w lawful
  case h_2 => exact nextSettled lawful
  case h_3 => exact checkPeersSettled limits w lawful fits
  case h_4 => exact headersArrivedSettled lawful fits ..
  case h_5 => exact headersTimedOutSettled lawful fits ..
  case h_6 => exact headersAbandoned lawful fits
  case h_7 => exact waitsSettled lawful
  case h_8 => exact headersVerifiedSettled lawful fits ..
  case h_9 =>
    refine asksSettled lawful (.inl ?_)
    rw [show m.state = .HEADER_SYNC from fits]
    decide
  case h_10 => exact waitsSettled lawful
  case h_11 => exact blockLoopSettled lawful fits ..
  case h_12 => exact takeBlocksSettled lawful fits ..
  case h_13 | h_14 | h_15 => exact chunkDoneSettled lawful fits ..
  case h_16 => exact blockVerifiedSettled lawful fits ..
  case h_17 => exact followTipSettled limits w lawful fits

theorem stepSettled (limits : Limits) {c : Config} (settled : Settled c) (input : Input) :
    Settled (step limits c input) := by
  cases input with
  | start =>
    rw [step]
    split
    · exact settled
    · exact ⟨lawfulCongr settled.lawful rfl rfl,trivial⟩
  | stop => exact ⟨lawfulCongr settled.lawful rfl rfl,trivial⟩
  | status height => exact ⟨lawfulCongr settled.lawful rfl rfl,settled.fits⟩
  | resume w wake => exact resumeSettled limits w settled wake

theorem runSettled (limits : Limits) (inputs : List Input) : Settled (run limits inputs) := by
  refine List.foldlRecOn inputs (step limits) ⟨⟨rfl,?_⟩,trivial⟩ (fun c settled input _ => stepSettled limits settled input)
  intro event inside
  cases inside

theorem statesFollowTable (limits : Limits) (inputs : List Input) :
    replay (run limits inputs).manager.events = some (run limits inputs).manager.state ∧
      ∀ event ∈ (run limits inputs).manager.events, event.Lawful :=
  ⟨(runSettled limits inputs).lawful.recorded,(runSettled limits inputs).lawful.lawful⟩

end Loop

end Laws

end QbitNetwork.SyncLoop

namespace QbitNetwork.Devnet
attribute [local instance] legacy plainText
open SyncLoop

def loopLimits : Limits := { blocks := ⟨8,4,by decide,by decide⟩, threshold := 2, maxRetries := 3 }

def level : World := { peers := [⟨"10.0.0.2:9000",0,true⟩], score := none, chain := genesis, now := 101 }

theorem leapsToSynced :
    .assigned .IDLE .SYNCED ∈ (run loopLimits [.start,.resume level .slept,.resume level .slept]).manager.events ∧
      (run loopLimits [.start,.resume level .slept,.resume level .slept]).manager.state = .SYNCED ∧
      .SYNCED ∉ BlockSync.transitions .IDLE := by
  decide +kernel

end QbitNetwork.Devnet
