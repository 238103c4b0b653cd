import QbitNetwork.GossipLaws

/-! The download of block bodies by the sync manager: which blocks it offers to the chain, and
what becomes of those that compete with local ones. -/
namespace QbitNetwork.BlockSync
open Gossip (occursIn)

section Model

/- `SYNC_BLOCK_BATCH` and `SYNC_MAX_PARALLEL`, for which `config.py` has no values. -/
structure Limits where
  blockBatch : Nat
  maxParallel : Nat
  batchPositive : 0 < blockBatch
  parallelPositive : 0 < maxParallel

inductive SyncState where
  | IDLE | HEADER_SYNC | BLOCK_SYNC | SYNCED
  deriving DecidableEq

def transitions : SyncState → List SyncState
  | .IDLE => [.HEADER_SYNC]
  | .HEADER_SYNC => [.BLOCK_SYNC,.IDLE]
  | .BLOCK_SYNC => [.SYNCED,.HEADER_SYNC]
  | .SYNCED => [.HEADER_SYNC,.IDLE]

/- `headerQueue` has the `index` of each queued header; `offered` are the blocks passed to
`add_block` and `reorgs` the forks passed to `try_reorg`, in order. -/
structure SyncManager where
  chain : Blockchain
  headerQueue : List Int
  state : SyncState := .BLOCK_SYNC
  sigExecutor : Bool := true
  offered : List Block := []
  reorgs : List (List Block) := []

def SyncManager.transition (m : SyncManager) (newState : SyncState) : SyncManager :=
  if newState ∈ transitions m.state then { m with state := newState } else m

/- A block dictionary of an answer: the block, where `from_dict` returns one, whether the
process pool answers, and the clock `add_block` reads. -/
structure Item where
  block : Option Block
  poolAnswers : Bool
  now : Int

inductive Answer where
  | unanswered
  | blocks (items : List Item)

/- One turn of the download loop: `_running`, the number of peers `_get_sync_peers` returns
(absent where it raises, as on a reputation without `score`), and the answer of each chunk. -/
structure Round where
  running : Bool
  peers : Option Nat
  answers : Nat → Answer

structure Walk where
  manager : SyncManager
  forkBlocks : List Block := []
  aborted : Bool := false

inductive Ending where
  | waiting
  | raised (exception : PyExc)
  | aborted
  | finished

/- `heights[i:i + size]` for each `i` in steps of `size`. -/
def chunked (size : Nat) : Nat → List Int → List (List Int)
  | fuel + 1,height :: rest =>
    (height :: rest).take size :: chunked size fuel ((height :: rest).drop size)
  | _,_ => []

variable [Env]

def verifySignatureAsync (s : Blockchain) (block : Block) (poolAnswers : Bool) : Bool :=
  match s.state.staking.validatorRegistry[block.validator]? with
  | some pk => poolAnswers && block.verifySignature pk
  | none => false

def SyncManager.trusts (m : SyncManager) (block : Block) (poolAnswers : Bool) : Bool :=
  !m.sigExecutor || verifySignatureAsync m.chain block poolAnswers

def SyncManager.offer (m : SyncManager) (block : Block) (now : Int) : SyncManager :=
  { m with chain := (m.chain.addBlock block now).2, offered := m.offered ++ [block] }

def takeBlocks : List Item → Walk → Walk
  | [],w => w
  | item :: rest,w =>
    match item.block with
    | none => w
    | some block =>
      if w.manager.trusts block item.poolAnswers = false then
        { w with manager := w.manager.transition .IDLE, aborted := true }
      else
        let taken := { w with manager := w.manager.offer block item.now }
        match (w.manager.chain.addBlock block item.now).1 with
        | .accepted => takeBlocks rest taken
        | .refused err =>
          if occursIn "first-seen wins" err || occursIn "already have" err then
            if occursIn "already have" err then takeBlocks rest taken
            else takeBlocks rest { taken with forkBlocks := taken.forkBlocks ++ [block] }
          else taken
        | .raised _ => taken

def takeAnswer (answer : Answer) (w : Walk) : Walk :=
  match answer with
  | .unanswered => w
  | .blocks items => takeBlocks items w

def takeBatch : List (List Int × Answer) → Walk → Walk
  | [],w => w
  | (_,answer) :: rest,w =>
    let w := takeAnswer answer w
    if w.aborted then w else takeBatch rest w

def batchOf (limits : Limits) (peers : Nat) (chunks : List (List Int)) (answers : Nat → Answer) :
    List (List Int × Answer) :=
  ((chunks.take (min peers limits.maxParallel)).zipIdx).map (fun row => (row.1,answers row.2))

/- The loop over the chunks: after each turn the next ones are due, whatever was answered. -/
def download (limits : Limits) : List (List Int) → List Round → Walk → Ending × Walk
  | [],_,w => (.finished,w)
  | _ :: _,[],w => (.waiting,w)
  | chunk :: more,round :: rounds,w =>
    if round.running = false then (.finished,w)
    else match round.peers with
    | none => (.raised .attributeError,w)
    | some 0 => download limits (chunk :: more) rounds w
    | some peers =>
      let w := takeBatch (batchOf limits peers (chunk :: more) round.answers) w
      if w.aborted then (.aborted,w)
      else download limits ((chunk :: more).drop (min peers limits.maxParallel)) rounds w

def attemptForkResolution (m : SyncManager) (forkBlocks : List Block) (now : Int) : Ending × SyncManager :=
  match forkBlocks.insertionSort (fun a b => a.index ≤ b.index) with
  | [] => (.finished,m)
  | first :: rest =>
    if maxReorgDepth < m.chain.height + 1 - first.index then (.finished,m)
    else
      let resolved := { m with
        chain := (m.chain.tryReorg (first :: rest) now).2
        reorgs := m.reorgs ++ [first :: rest] }
      match (m.chain.tryReorg (first :: rest) now).1 with
      | .raised exception => (.raised exception,resolved)
      | _ => (.finished,resolved)

def blockSync (limits : Limits) (now : Int) (rounds : List Round) (m : SyncManager) :
    Ending × SyncManager :=
  if m.headerQueue = [] then (.finished,m.transition .SYNCED)
  else match download limits (chunked limits.blockBatch m.headerQueue.length m.headerQueue) rounds
      { manager := m } with
    | (.finished,w) =>
      match attemptForkResolution w.manager w.forkBlocks now with
      | (.finished,m) => (.finished,{ m with headerQueue := [] }.transition .SYNCED)
      | answer => answer
    | (ending,w) => (ending,w.manager)

end Model

end QbitNetwork.BlockSync
