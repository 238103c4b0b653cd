import QbitNetwork.Agreement
import QbitNetwork.Lib.Paging
import QbitNetwork.SyncLoop

/-! Headers a node hands out, to light clients and to peers that lag behind: which ones a request
gets, and that the checks of the receiver pass them. -/
namespace QbitNetwork

section Model
variable [Env]

def Block.toHeaderDict (block : Block) : Header :=
  [("hash",.str block.blockHash),("index",.int block.index),("timestamp",.int block.timestamp),
   ("prevHash",.str block.prevHash),("merkleRoot",.str block.merkleRoot),("baseFee",.int block.baseFee),
   ("stateRoot",.str block.stateRoot),("receiptsRoot",.str block.receiptsRoot),("validator",.str block.validator),
   ("txCount",.int block.transactions.length),("signature",.str (hex block.signature))]

/- `range(start, stop)`. -/
def rangeOf (start stop : Int) : List Int := (List.range (stop - start).toNat).map (fun i : Nat => start + i)

namespace Blockchain

/- `get_block_headers` and `get_block_headers_for_sync` differ in what they cap the count at. -/
def headersUpTo (cap : Int) (s : Blockchain) (start count : Int) : List Header :=
  let count := min count cap
  let stop := min (start + count) (s.height + 1)
  (rangeOf (max 0 start) stop).filterMap (fun i => (s.getBlockByIndex i).map Block.toHeaderDict)

def getBlockHeaders (s : Blockchain) (start count : Int) : List Header := s.headersUpTo 100 start count

/- `syncBatchSize` is a number for which `config.py` has no value. -/
def getBlockHeadersForSync (syncBatchSize : Nat) (s : Blockchain) (from_height count : Int) : List Header :=
  s.headersUpTo syncBatchSize from_height count

def rpcGetBlockHeaders (s : Blockchain) (start count : Int) : Except PyExc (List Header) :=
  if start < 0 then .error (.valueError "start must be a non-negative integer")
  else if count < 1 ∨ 100 < count then .error (.valueError "count must be 1-100")
  else .ok (s.getBlockHeaders start count)

end Blockchain

end Model

section Laws

theorem rangeRead {α : Type} (items : List α) (start n : Nat) :
    ((List.range n).map (fun i : Nat => (start : Int) + i)).filterMap (listAt items) = (items.drop start).take n := by
  induction n with
  | zero => simp
  | succ n ih =>
    have last : listAt items ((start : Int) + n) = (items.drop start)[n]? := by
      rw [listAt,if_pos (by omega),show ((start : Int) + n).toNat = start + n by omega,List.getElem?_drop]
    rw [List.range_succ,List.map_append,List.filterMap_append,ih,List.take_add_one]
    simp only [List.map_cons,List.map_nil,List.filterMap_cons,List.filterMap_nil,last]
    cases (items.drop start)[n]? <;> rfl

variable [Env]

namespace Header

@[simp] theorem servedPosition (block : Block) : block.toHeaderDict.position = block.index := rfl

@[simp] theorem servedHash (block : Block) : block.toHeaderDict.value "hash" = .str block.blockHash := rfl

@[simp] theorem servedPrevHash (block : Block) : block.toHeaderDict.value "prevHash" = .str block.prevHash := rfl

@[simp] theorem servedTimestamp (block : Block) : block.toHeaderDict.value "timestamp" = .int block.timestamp := rfl

@[simp] theorem servedValidator (block : Block) : block.toHeaderDict.value "validator" = .str block.validator := rfl

theorem servedRoot {block : Block} {key root : String} (here : Json.lookup block.toHeaderDict key = some (.str root)) :
    optionalRoot (.obj block.toHeaderDict) key = .ok (Block.optionalField key root) := by
  simp only [optionalRoot,Json.get,here,Option.getD_some]
  by_cases given : root = "" <;> simp [Block.optionalField,Json.truthy,given]

theorem servedCanonical (block : Block) : block.toHeaderDict.canonical = .ok block.headerJson := by
  have state : optionalRoot (.obj block.toHeaderDict) "stateRoot" = _ := servedRoot rfl
  have receipts : optionalRoot (.obj block.toHeaderDict) "receiptsRoot" = _ := servedRoot rfl
  rw [headerJsonOf]
  simp only [canonical,state,receipts]
  rfl

theorem servedSignature (block : Block) (pk : Bytes) :
    block.toHeaderDict.verifySignature (hex pk) = block.verifySignature pk := by
  have signature : (Json.obj block.toHeaderDict).item "signature" = .ok (.str (hex block.signature)) := rfl
  have known : (Json.str (hex pk)).fromHexValue = .ok pk := by rw [Json.fromHexValue,Json.fromHexHex]
  have signed : (Json.str (hex block.signature)).fromHexValue = .ok block.signature := by
    rw [Json.fromHexValue,Json.fromHexHex]
  simp only [verifySignature,servedCanonical,signature,bind,Except.bind,known,signed]
  rfl

end Header

namespace Blockchain

def piece (chain : List Block) (cap start count : Int) : List Block :=
  (chain.take (min (start + min count cap) chain.length).toNat).drop (max 0 start).toNat

theorem headersPiece {chain : List Block} {s : Blockchain} (holds : s.backend.Holds chain)
    (height : s.height = chain.length - 1) (cap start count : Int) :
    s.headersUpTo cap start count = (piece chain cap start count).map Block.toHeaderDict := by
  have found : (fun i => (s.getBlockByIndex i).map Block.toHeaderDict) =
      fun i => (listAt chain i).map Block.toHeaderDict := by
    funext i
    rw [getBlockByIndex,Backend.getBlockHolds holds]
  have first : max 0 start = ((max 0 start).toNat : Int) := by omega
  rw [headersUpTo,rangeOf,found,height,first,← List.map_filterMap,rangeRead,piece,List.drop_take]
  congr 2
  omega

end Blockchain

section Checks
variable [PyText]

omit [PyText] in
theorem servedFields (i : Nat) (block : Block) : checkFields i block.toHeaderDict = .ok () := rfl

def Joins (claimed : String) (prev : Option Block) (block : Block) : Prop :=
  match prev with
  | none => claimed = "" ∨ block.prevHash = claimed
  | some parent => Blockchain.Follows parent block

theorem servedLink {claimed : String} {prev : Option Block} {block : Block}
    (follows : ∀ parent ∈ prev, Blockchain.Follows parent block) :
    checkLink (.str claimed) (prev.map Block.toHeaderDict) block.toHeaderDict = .ok () ↔ Joins claimed prev block := by
  cases prev with
  | none =>
    rw [Option.map_none,checkLink,Header.servedPrevHash,Joins]
    by_cases given : claimed = ""
    · simp [given,Json.truthy]
    · by_cases same : block.prevHash = claimed
      · simp [given,same,Json.truthy,Json.equal]
      · simp [given,same,Json.truthy,Json.equal,Json.shortText,orRaise,bind,Except.bind]
  | some parent =>
    have link := follows parent rfl
    have earlier : ((Json.int block.timestamp).less (.int parent.timestamp)) = .ok false := by
      have compared : (Json.int block.timestamp).less (.int parent.timestamp) =
          .ok (decide ((block.timestamp : Rat) < parent.timestamp)) := rfl
      have later : (parent.timestamp : Rat) ≤ block.timestamp := by exact_mod_cast link.later.le
      rw [compared,decide_eq_false (not_lt.mpr later)]
    refine iff_of_true ?_ link
    rw [Option.map_some,checkLink,Header.servedTimestamp,Header.servedTimestamp,Header.servedPrevHash,
      Header.servedPosition,Header.servedPosition,Header.servedHash]
    simp [link.link,link.position,Json.equal,earlier,orRaise,refuseIf,bind,Except.bind]

theorem servedValidator {registry : Dict Address Bytes} {block : Block} :
    checkValidator registry block.toHeaderDict = .ok () ↔
      (block.validator ≠ "" → 0 < block.index → block.validator ∈ registry) := by
  rw [checkValidator,Header.servedValidator,Header.servedPosition]
  simp only [Json.truthy,bne_iff_ne]
  split
  · rename_i named
    simp [Json.tableKey,orRaise,bind,Except.bind,named]
  · rename_i unnamed
    simp only [true_iff]
    exact fun given later => absurd ⟨given,later⟩ unnamed

theorem servedCheck {registry : Dict Address Bytes} {claimed : String} {i : Nat} {prev : Option Block} {block : Block}
    (position : 0 ≤ block.index) (follows : ∀ parent ∈ prev, Blockchain.Follows parent block) :
    checkHeader registry (.str claimed) i (prev.map Block.toHeaderDict) block.toHeaderDict = .ok () ↔
      Joins claimed prev block ∧ (block.validator ≠ "" → 0 < block.index → block.validator ∈ registry) := by
  have index : refuseIf (¬∃ index ∈ (block.toHeaderDict.value "index").intOf, 0 ≤ index)
      ("invalid index at position " ++ toString i) = .ok () := (refuseIfOk ..).mpr (not_not.mpr ⟨_,rfl,position⟩)
  rw [checkHeader,servedFields]
  simp only [index,Outcome.bindOk,servedLink follows,servedValidator,true_and,exists_const]

theorem servedChecks {registry : Dict Address Bytes} {claimed : String} {blocks : List Block}
    (positions : ∀ block ∈ blocks, 0 ≤ block.index) :
    ∀ {i : Nat} {prev : Option Block}, (prev.toList ++ blocks).IsChain Blockchain.Follows →
      (checkHeaders registry (.str claimed) i (prev.map Block.toHeaderDict) (blocks.map Block.toHeaderDict) = .ok () ↔
        (prev = none → ∀ first, blocks.head? = some first → claimed = "" ∨ first.prevHash = claimed) ∧
          ∀ block ∈ blocks, block.validator ≠ "" → 0 < block.index → block.validator ∈ registry) := by
  induction blocks with
  | nil => simp [checkHeaders]
  | cons block rest ih =>
    intro i prev linked
    have later : (block :: rest).IsChain Blockchain.Follows := (List.isChain_append.mp linked).2.1
    have follows : ∀ parent ∈ prev, Blockchain.Follows parent block := by
      intro parent above
      obtain rfl : prev = some parent := above
      exact (List.isChain_cons_cons.mp linked).1
    have below := @ih (fun b inside => positions b (List.mem_cons_of_mem _ inside)) (i + 1) (some block) later
    simp only [Option.map_some] at below
    simp only [List.map_cons,checkHeaders,Outcome.bindOk,exists_const,
      servedCheck (positions block (List.mem_cons_self ..)) follows,below,List.forall_mem_cons,List.head?_cons]
    constructor
    · rintro ⟨⟨joins,here⟩,-,others⟩
      refine ⟨?_,here,others⟩
      rintro rfl first ⟨⟩
      exact joins
    · rintro ⟨first,here,others⟩
      refine ⟨⟨?_,here⟩,fun absent => absurd absent (by simp),others⟩
      cases prev with
      | none => exact first rfl block rfl
      | some parent => exact follows parent rfl

end Checks

section Signed
variable [PyText]

def Blockchain.Knows (t : Blockchain) (block : Block) : Prop :=
  block.validator ≠ "" ∧ block.signature ≠ [] ∧
    ∃ pk, t.state.staking.validatorRegistry[block.validator]? = some pk ∧ block.verifySignature pk = true

omit [Env] [PyText] in
theorem hexTruthy (data : Bytes) : (Json.str (hex data)).truthy = true ↔ data ≠ [] := by
  have empty : hex data = "" ↔ data = [] := by
    constructor
    · intro none
      exact hexInjective (none.trans (by decide : "" = hex []))
    · rintro rfl
      decide
  simp [Json.truthy,empty]

theorem servedJob {registry : Dict Address Bytes} {block : Block} {job : Option (Json × Header × String)} :
    signatureJob registry block.toHeaderDict = .ok job ↔
      (block.index = 0 ∧ job = none) ∨
        (block.index ≠ 0 ∧ block.validator ≠ "" ∧ block.signature ≠ [] ∧
          ∃ pk, registry[block.validator]? = some pk ∧ job = some (.int block.index,block.toHeaderDict,hex pk)) := by
  have index : (Json.lookup block.toHeaderDict "index").getD (.int 0) = .int block.index := rfl
  have validator : (Json.lookup block.toHeaderDict "validator").getD (.str "") = .str block.validator := rfl
  have signature : (Json.lookup block.toHeaderDict "signature").getD .null = .str (hex block.signature) := rfl
  have first : (Json.int block.index).equal (.int 0) = decide (block.index = 0) := intOfEqual rfl 0
  simp only [signatureJob,index,validator,signature,first,decide_eq_true_eq]
  split
  · rename_i genesis
    simp [genesis,eq_comm (a := none)]
  · rename_i later
    split
    · rename_i unnamed
      have none : block.validator = "" := by simpa [Json.truthy] using unnamed
      simp [none,later]
    · rename_i named
      have given : block.validator ≠ "" := by simpa [Json.truthy] using named
      simp only [Json.tableKey,orRaise,bind,Except.bind,Option.bind]
      cases known : registry[block.validator]? with
      | none => simp [later]
      | some pk =>
        by_cases signed : block.signature = []
        · simp [hexTruthy,later,signed]
        · simp [hexTruthy,later,given,signed,eq_comm (b := job)]

omit [Env] [PyText] in
theorem forMPasses {α ε : Type} {f : α → Except ε Unit} {xs : List α} (passes : ∀ x ∈ xs, f x = .ok ()) :
    xs.forM f = .ok () := by
  induction xs with
  | nil => rfl
  | cons x rest ih =>
    change (f x >>= fun _ => rest.forM f) = .ok ()
    rw [passes x (List.mem_cons_self ..)]
    exact ih (fun y inside => passes y (List.mem_cons_of_mem _ inside))

omit [Env] [PyText] in
theorem mapMEvery {α β ε : Type} {f : α → Except ε β} {xs : List α} (returns : ∀ x ∈ xs, ∃ y, f x = .ok y) :
    ∃ ys, xs.mapM f = .ok ys ∧ ∀ y ∈ ys, ∃ x ∈ xs, f x = .ok y := by
  induction xs with
  | nil => exact ⟨[],rfl,by simp⟩
  | cons x rest ih =>
    obtain ⟨y,here⟩ := returns x (List.mem_cons_self ..)
    obtain ⟨ys,later,origin⟩ := ih (fun z inside => returns z (List.mem_cons_of_mem _ inside))
    refine ⟨y :: ys,?_,?_⟩
    · rw [List.mapM_cons,here,later]
      rfl
    · intro z inside
      rcases List.mem_cons.mp inside with rfl | inside
      · exact ⟨x,List.mem_cons_self ..,here⟩
      · obtain ⟨w,among,made⟩ := origin z inside
        exact ⟨w,List.mem_cons_of_mem _ among,made⟩

theorem servedSignatures {t : Blockchain} {blocks : List Block} :
    t.verifyHeaderSignaturesAsync (some fun _ => none) (blocks.map Block.toHeaderDict) = .ok () ↔
      ∀ block ∈ blocks, block.index ≠ 0 → t.Knows block := by
  constructor
  · intro passed block inside later
    obtain ⟨jobs,made,awaited⟩ := (Outcome.bindOk ..).mp passed
    obtain ⟨job,listed,submitted⟩ := Outcome.mapMOk made _ (List.mem_map_of_mem inside)
    rcases servedJob.mp submitted with ⟨genesis,-⟩ | ⟨-,named,signed,pk,known,rfl⟩
    · exact absurd genesis later
    · obtain ⟨n,numbered⟩ := List.getElem?_of_mem (List.mem_filterMap (f := id).mpr ⟨_,listed,rfl⟩)
      have ran := Outcome.forMOk awaited (_,n) (List.mem_zipIdx_iff_getElem?.mpr numbered)
      have valid := (refuseIfOk ..).mp ran
      rw [Header.servedSignature,Bool.not_eq_false] at valid
      exact ⟨named,signed,pk,known,valid⟩
  · intro known
    have returns : ∀ hdr ∈ blocks.map Block.toHeaderDict, ∃ job,
        signatureJob t.state.staking.validatorRegistry hdr = .ok job := by
      intro hdr inside
      obtain ⟨block,among,rfl⟩ := List.mem_map.mp inside
      by_cases first : block.index = 0
      · exact ⟨none,servedJob.mpr (.inl ⟨first,rfl⟩)⟩
      · obtain ⟨named,signed,pk,registered,-⟩ := known block among first
        exact ⟨_,servedJob.mpr (.inr ⟨first,named,signed,pk,registered,rfl⟩)⟩
    obtain ⟨jobs,made,origin⟩ := mapMEvery returns
    simp only [Blockchain.verifyHeaderSignaturesAsync,made,bind,Except.bind]
    refine forMPasses (fun row inside => ?_)
    obtain ⟨_,listed,same⟩ := List.mem_filterMap.mp (List.mem_of_getElem? (List.mem_zipIdx_iff_getElem?.mp inside))
    obtain ⟨hdr,among,submitted⟩ := origin _ listed
    obtain ⟨block,member,rfl⟩ := List.mem_map.mp among
    rcases servedJob.mp submitted with ⟨-,none⟩ | ⟨later,-,-,pk,registered,made⟩
    · rw [none] at same
      cases same
    · obtain ⟨-,-,pk',registered',valid⟩ := known block member later
      obtain rfl : pk = pk' := Option.some.inj (registered.symm.trans registered')
      rw [made] at same
      have job : row.1 = (.int block.index,block.toHeaderDict,hex pk) := (Option.some.inj same).symm
      simp only [awaitJob,job]
      exact (refuseIfOk ..).mpr (by rw [Header.servedSignature,valid]; decide)

end Signed

namespace Blockchain

theorem pieceLinked {chain : List Block} (linked : Linked chain) (cap start count : Int) :
    Linked (piece chain cap start count) := (linked.take _).drop _

omit [Env] in
theorem pieceAt (chain : List Block) (cap start count : Int) (k : Nat) : (piece chain cap start count)[k]? =
    if (k : Int) < min (start + min count cap) chain.length - max 0 start then listAt chain (max 0 start + k) else none := by
  have place : (max 0 start + (k : Int)).toNat = (max 0 start).toNat + k := by omega
  rw [piece,List.getElem?_drop,List.getElem?_take,listAt,place]
  split
  · rw [if_pos (by omega),if_pos (by omega)]
  · rw [if_neg (by omega)]

section Reached
variable {backend : Backend} {validators : Dict Address Bytes}

theorem headerPages (fresh : Fresh backend) : ∀ s : Blockchain, Reached (Orderly False) (new backend validators) s →
    ∀ size : Nat, 0 < size → size ≤ 100 → ∃ blocks : List Block, (∀ i : Nat, blocks[i]? = s.getBlockByIndex i) ∧
      Paging.Walk (fun n => s.rpcGetBlockHeaders (((n - 1) * size : Nat) : Int) size) 1 (blocks.map Block.toHeaderDict) := by
  intro s reached size some few
  obtain ⟨chain,chronicled,linked⟩ := reachedChain fresh reached
  refine ⟨chain,fun i => ?_,Paging.walkPages some (fun n first _ => ?_)⟩
  · rw [getBlockByIndex,Backend.getBlockHolds chronicled.holds,listAt,if_pos (by omega),Int.toNat_natCast]
  · have served := headersPiece chronicled.holds chronicled.height 100 (((n - 1) * size : Nat) : Int) size
    have capped : min (size : Int) 100 = size := by omega
    have start : max 0 ((((n - 1) * size : Nat)) : Int) = ((n - 1) * size : Nat) := by omega
    rw [rpcGetBlockHeaders,if_neg (by omega),if_neg (by omega),getBlockHeaders,served,piece,capped,start,Int.toNat_natCast,
      Paging.page,← List.map_drop,← List.map_take,List.drop_take]
    congr 2
    rw [List.take_eq_take_iff,List.length_drop]
    omega

/- A request gets the headers of its heights, none left out; and another node's checks pass them just if
they go on from the hash it has, and it knows every validator among them. -/
theorem servedHeaders (fresh : Fresh backend) [PyText] : ∀ s : Blockchain,
    Reached (Orderly False) (new backend validators) s →
    ∀ cap start count : Int, ∃ blocks : List Block, s.headersUpTo cap start count = blocks.map Block.toHeaderDict ∧
      (∀ k : Nat, blocks[k]? = if (k : Int) < min (start + min count cap) (s.height + 1) - max 0 start
        then s.getBlockByIndex (max 0 start + k) else none) ∧
      ∀ (t : Blockchain) (claimed : String),
        (t.validateHeaderChain (s.headersUpTo cap start count) (.str claimed) = .ok () ∧
          t.verifyHeaderSignaturesAsync (some fun _ => none) (s.headersUpTo cap start count) = .ok ()) ↔
        (∀ first, blocks.head? = some first → claimed = "" ∨ first.prevHash = claimed) ∧
          ∀ block ∈ blocks, block.index ≠ 0 → t.Knows block := by
  intro s reached cap start count
  obtain ⟨chain,chronicled,linked⟩ := reachedChain fresh reached
  have served := headersPiece chronicled.holds chronicled.height cap start count
  have positions : ∀ block ∈ piece chain cap start count, 0 ≤ block.index := by
    intro block inside
    obtain ⟨i,here⟩ := List.getElem?_of_mem (List.mem_of_mem_take (List.mem_of_mem_drop inside))
    rw [(chronicled.sound i block here).position]
    omega
  refine ⟨piece chain cap start count,served,fun k => ?_,fun t claimed => ?_⟩
  · rw [pieceAt,chronicled.height,getBlockByIndex,Backend.getBlockHolds chronicled.holds,Int.sub_add_cancel]
  · have chained : t.validateHeaderChain ((piece chain cap start count).map Block.toHeaderDict) (.str claimed) = .ok () ↔ _ :=
      @servedChecks _ _ _ _ _ positions 0 none (pieceLinked linked cap start count)
    rw [served,chained,servedSignatures]
    constructor
    · rintro ⟨⟨first,-⟩,known⟩
      exact ⟨first rfl,known⟩
    · rintro ⟨first,known⟩
      refine ⟨⟨fun _ => first,fun block inside _ later => ?_⟩,known⟩
      obtain ⟨-,-,pk,registered,-⟩ := known block inside (by omega)
      exact Std.ExtTreeMap.mem_iff_isSome_getElem?.mpr (by simp [registered])

end Reached

end Blockchain

end Laws

/-! The header phase of the sync manager with a source that serves from a chain. -/
namespace SyncLoop
open Blockchain
variable [Env] [PyText]

def answered (syncBatchSize : Nat) (s : Blockchain) (m : Manager) (work : HeaderWork) : List Header :=
  s.getBlockHeadersForSync syncBatchSize work.currentHeight
    (min syncBatchSize (m.targetHeight - work.currentHeight + 1))

def exchange (limits : Limits) (syncBatchSize : Nat) (s : Blockchain) (w : World) (c : Config) : Config :=
  match c.place with
  | .headers work =>
    resume limits w (resume limits w c (.headers (answered syncBatchSize s c.manager work) (fun _ => none))) .slept
  | _ => c

def startPrevHash (t : Blockchain) : String :=
  match t.latestBlock with
  | some tip => tip.blockHash
  | none => "0000000000000000000000000000000000000000000000000000000000000000"

section Laws
variable {limits : Limits} {w : World} {chain : List Block} {low high batch : Nat} {claimed : String}

structure Fetchable (chain : List Block) (low high : Nat) (claimed : String) (t : Blockchain) : Prop where
  linked : Linked chain
  positions : ∀ (i : Nat) (block : Block), chain[i]? = some block → block.index = i
  ahead : high < chain.length
  joins : ∀ first : Block, chain[low]? = some first → first.prevHash = claimed
  known : ∀ (i : Nat) (block : Block), low ≤ i → i ≤ high → chain[i]? = some block → block.index ≠ 0 → t.Knows block

structure Fetched (chain : List Block) (low high cur : Nat) (claimed : String) (m : Manager) (work : HeaderWork) : Prop where
  target : m.targetHeight = high
  running : m.running = true
  queue : m.headerQueue = ((chain.take cur).drop low).map Block.toHeaderDict
  current : work.currentHeight = cur
  start : work.startPrevHash = .str claimed
  above : low ≤ cur
  below : cur ≤ high

omit [PyText] in
theorem answeredPiece {s : Blockchain} (holds : s.backend.Holds chain) (height : s.height = chain.length - 1)
    (ahead : high < chain.length) {cur : Nat} {m : Manager} {work : HeaderWork}
    (fetched : Fetched chain low high cur claimed m work) :
    answered batch s m work = ((chain.drop cur).take (min batch (high - cur + 1))).map Block.toHeaderDict := by
  have below := fetched.below
  rw [answered,getBlockHeadersForSync,headersPiece holds height,fetched.target,fetched.current,piece,List.drop_take]
  have start : (max 0 (cur : Int)).toNat = cur := by omega
  rw [start]
  congr 2
  omega

omit [PyText] in
theorem expectedPrev {t : Blockchain} (fetchable : Fetchable chain low high claimed t) {cur : Nat} {m : Manager}
    {work : HeaderWork} (fetched : Fetched chain low high cur claimed m work) :
    ∃ hash : String, ((∃ hdr, m.headerQueue.getLast? = some hdr ∧ hdr.value "hash" = .str hash) ∨
      m.headerQueue.getLast? = none ∧ work.startPrevHash = .str hash) ∧
        ∀ first : Block, chain[cur]? = some first → first.prevHash = hash := by
  have above := fetched.above
  have below := fetched.below
  have ahead := fetchable.ahead
  rw [fetched.queue,List.getLast?_map,List.getLast?_drop,List.length_take]
  split
  · rename_i short
    refine ⟨claimed,.inr ⟨rfl,fetched.start⟩,fun first here => fetchable.joins first ?_⟩
    rw [← here]
    congr 1
    omega
  · rename_i long
    cases top : (chain.take cur).getLast? with
    | none =>
      have size := congrArg List.length (List.getLast?_eq_none_iff.mp top)
      rw [List.length_take,List.length_nil] at size
      omega
    | some prev =>
      refine ⟨prev.blockHash,.inl ⟨_,rfl,Header.servedHash prev⟩,fun first here => ?_⟩
      have place : chain[cur - 1]? = some prev := by
        rw [List.getLast?_eq_getElem?,List.length_take,List.getElem?_take,if_pos (by omega)] at top
        rw [← top]
        congr 1
        omega
      have next : chain[cur - 1 + 1]? = some first := by
        rw [← here]
        congr 1
        omega
      exact (LinkedLog.linkedAt fetchable.linked place next).link

theorem exchangeTurn {s : Blockchain} (holds : s.backend.Holds chain) (height : s.height = chain.length - 1)
    (fetchable : Fetchable chain low high claimed w.chain) (positive : 0 < batch) {cur : Nat} {m : Manager} {work : HeaderWork}
    (fetched : Fetched chain low high cur claimed m work) : exchange limits batch s w ⟨m,.headers work⟩ =
      headerLoop w { m with headerQueue := ((chain.take (cur + min batch (high - cur + 1))).drop low).map Block.toHeaderDict }
        { work with currentHeight := (cur + min batch (high - cur + 1) : Nat), retries := 0 } := by
  have above := fetched.above
  have below := fetched.below
  have ahead := fetchable.ahead
  generalize turn : min batch (high - cur + 1) = n
  have answer : answered batch s m work = _ := answeredPiece holds height ahead fetched
  rw [turn] at answer
  generalize page : (chain.drop cur).take n = blocks at answer
  have size : blocks.length = n := by
    rw [← page,List.length_take,List.length_drop]
    omega
  have member : ∀ block ∈ blocks, ∃ i, low ≤ i ∧ i ≤ high ∧ chain[i]? = some block := by
    intro block inside
    obtain ⟨k,here⟩ := List.getElem?_of_mem inside
    have short := (List.getElem?_eq_some_iff.mp here).1
    rw [← page,List.getElem?_take,if_pos (by omega),List.getElem?_drop] at here
    exact ⟨cur + k,by omega,by omega,here⟩
  have positions : ∀ block ∈ blocks, 0 ≤ block.index := by
    intro block inside
    obtain ⟨i,-,-,here⟩ := member block inside
    rw [fetchable.positions i block here]
    omega
  have known : ∀ block ∈ blocks, block.index ≠ 0 → w.chain.Knows block := by
    intro block inside later
    obtain ⟨i,from_,upTo,here⟩ := member block inside
    exact fetchable.known i block from_ upTo here later
  obtain ⟨hash,expected,joins⟩ := expectedPrev fetchable fetched
  have linked : Linked blocks := page ▸ (fetchable.linked.drop cur).take n
  have valid : w.chain.validateHeaderChain (blocks.map Block.toHeaderDict) (.str hash) = .ok () := by
    refine (@servedChecks _ _ _ _ _ positions 0 none linked).mpr ⟨fun _ first head => .inr (joins first ?_),?_⟩
    · rw [← head,← page,List.head?_take,if_neg (by omega),List.head?_drop]
    · intro block inside _ later
      obtain ⟨-,-,pk,registered,-⟩ := known block inside (by omega)
      exact Std.ExtTreeMap.mem_iff_isSome_getElem?.mpr (by simp [registered])
  have signed : w.chain.verifyHeaderSignaturesAsync (if m.sigExecutor then some fun _ => none else none)
      (blocks.map Block.toHeaderDict) = .ok () := by
    split
    · exact servedSignatures.mpr known
    · rfl
  have full : (blocks.map Block.toHeaderDict).isEmpty = false := by
    rw [List.isEmpty_map,List.isEmpty_eq_false_iff,← List.length_pos_iff]
    omega
  have arrived : resume limits w ⟨m,.headers work⟩ (.headers (answered batch s m work) (fun _ => none)) =
      ⟨m,.headerSignatures work (blocks.map Block.toHeaderDict) (.ok ())⟩ := by
    rw [answer]
    show headersArrived w m work _ _ = _
    rcases expected with ⟨hdr,last,same⟩ | ⟨none,same⟩
    · simp only [headersArrived,full,Bool.false_eq_true,if_false,last,same,valid,signed]
    · simp only [headersArrived,full,Bool.false_eq_true,if_false,none,same,valid,signed]
  have queue : m.headerQueue ++ blocks.map Block.toHeaderDict =
      ((chain.take (cur + n)).drop low).map Block.toHeaderDict := by
    rw [fetched.queue,← List.map_append,← page,List.take_add,List.drop_append_of_le_length]
    rw [List.length_take]
    omega
  show resume limits w (resume limits w ⟨m,.headers work⟩ (.headers (answered batch s m work) (fun _ => none))) .slept = _
  rw [arrived]
  show headerLoop w { m with headerQueue := m.headerQueue ++ blocks.map Block.toHeaderDict } _ = _
  rw [queue,fetched.current,List.length_map,size]
  rfl

theorem exchangesFetch {s : Blockchain} (holds : s.backend.Holds chain) (height : s.height = chain.length - 1)
    (fetchable : Fetchable chain low high claimed w.chain) (positive : 0 < batch) (n : Nat) :
    ∀ {cur : Nat} {m : Manager} {work : HeaderWork}, Fetched chain low high cur claimed m work →
      (w.getPeer m.syncSourceAddr).isSome → high + 1 - cur ≤ n * batch →
      (exchange limits batch s w)^[n] ⟨m,.headers work⟩ =
        ⟨{ m with headerQueue := ((chain.take (high + 1)).drop low).map Block.toHeaderDict },.crossVerify⟩ := by
  induction n with
  | zero =>
    intro cur m work fetched _ enough
    have below := fetched.below
    omega
  | succ n ih =>
    intro cur m work fetched source enough
    have above := fetched.above
    have below := fetched.below
    have ahead := fetchable.ahead
    obtain ⟨peer,connected⟩ := Option.isSome_iff_exists.mp source
    rw [Function.iterate_succ_apply,exchangeTurn holds height fetchable positive fetched,headerLoop]
    by_cases more : cur + min batch (high - cur + 1) ≤ high
    · have due : ((cur + min batch (high - cur + 1) : Nat) : Int) ≤ m.targetHeight ∧ m.running = true := by
        rw [fetched.target]
        exact ⟨by exact_mod_cast more,fetched.running⟩
      rw [if_pos due]
      simp only [connected]
      rw [Nat.succ_mul] at enough
      exact ih ⟨fetched.target,fetched.running,rfl,rfl,fetched.start,by omega,more⟩ source (by omega)
    · have whole : cur + min batch (high - cur + 1) = high + 1 := by omega
      have done : ¬(((cur + min batch (high - cur + 1) : Nat) : Int) ≤ m.targetHeight ∧ m.running = true) := by
        rw [fetched.target]
        exact fun due => more (by exact_mod_cast due.1)
      have full : (((chain.take (high + 1)).drop low).map Block.toHeaderDict).isEmpty = false := by
        rw [List.isEmpty_map,List.isEmpty_eq_false_iff,← List.length_pos_iff,List.length_drop,List.length_take]
        omega
      rw [if_neg done,headersDone,whole]
      simp only [full,Bool.false_eq_true,if_false]
      exact Function.iterate_fixed rfl n

omit [PyText] in
theorem headerSyncOpens (w : World) (m : Manager) (running : m.running = true)
    (source : (w.getPeer m.syncSourceAddr).isSome) (behind : w.chain.height < m.targetHeight) :
    headerSync w m = ⟨{ m with headerQueue := [] },
      .headers { currentHeight := w.chain.height + 1, startPrevHash := .str (startPrevHash w.chain) }⟩ := by
  obtain ⟨peer,connected⟩ := Option.isSome_iff_exists.mp source
  have due : w.chain.height + 1 ≤ m.targetHeight ∧ m.running = true := ⟨by omega,running⟩
  cases tip : w.chain.latestBlock <;> simp only [headerSync,headerLoop,tip,startPrevHash,if_pos due,connected]

/- With a source that serves from a chain built on the requester's tip, by validators the requester knows,
the header phase ends with the header of every missing height up to the target in the queue. -/
theorem headerSyncCompletes {backend : Backend} {validators : Dict Address Bytes} (fresh : Fresh backend) :
    ∀ s : Blockchain, Reached (Orderly False) (new backend validators) s → ∀ (limits : Limits) (batch : Nat) (w : World) (m : Manager),
      0 < batch → m.running = true → (w.getPeer m.syncSourceAddr).isSome → -1 ≤ w.chain.height →
      w.chain.height < m.targetHeight → m.targetHeight ≤ s.height →
      (∀ next, s.getBlockByIndex (w.chain.height + 1) = some next → next.prevHash = startPrevHash w.chain) →
      (∀ (i : Int) (block : Block), w.chain.height < i → i ≤ m.targetHeight → i ≠ 0 → s.getBlockByIndex i = some block →
        w.chain.Knows block) →
      ∀ n : Nat, m.targetHeight - w.chain.height ≤ n * batch → ∃ blocks : List Block,
        (∀ k : Nat, blocks[k]? = if (k : Int) < m.targetHeight - w.chain.height
          then s.getBlockByIndex (w.chain.height + 1 + k) else none) ∧
        (exchange limits batch s w)^[n] (headerSync w m) =
          ⟨{ m with headerQueue := blocks.map Block.toHeaderDict },.crossVerify⟩ := by
  intro s reached limits batch w m positive running source started behind within joins known n enough
  obtain ⟨chain,chronicled,linked⟩ := reachedChain fresh reached
  have found : ∀ i : Int, s.getBlockByIndex i = listAt chain i := fun i => Backend.getBlockHolds chronicled.holds i
  have foundAt : ∀ i : Nat, s.getBlockByIndex (i : Int) = chain[i]? := by
    intro i
    rw [found,listAt,if_pos (by omega),Int.toNat_natCast]
  have height := chronicled.height
  obtain ⟨low,lower⟩ : ∃ low : Nat, w.chain.height + 1 = low := ⟨(w.chain.height + 1).toNat,by omega⟩
  obtain ⟨high,higher⟩ : ∃ high : Nat, m.targetHeight = high := ⟨m.targetHeight.toNat,by omega⟩
  have positions : ∀ (i : Nat) (block : Block), chain[i]? = some block → block.index = i := by
    intro i block here
    have inside := (List.getElem?_eq_some_iff.mp here).1
    rw [(chronicled.sound i block here).position,List.length_take,Nat.min_eq_left (by omega)]
  have fetchable : Fetchable chain low high (startPrevHash w.chain) w.chain := by
    refine ⟨linked,positions,by omega,fun first here => joins first ?_,fun i block above below here later => ?_⟩
    · rw [lower,foundAt,here]
    · have position := positions i block here
      exact known i block (by omega) (by omega) (by omega) (by rw [foundAt,here])
  have fetched : Fetched chain low high low (startPrevHash w.chain) { m with headerQueue := [] }
      { currentHeight := w.chain.height + 1, startPrevHash := .str (startPrevHash w.chain) } := by
    refine ⟨higher,running,?_,lower,rfl,le_rfl,by omega⟩
    rw [List.drop_eq_nil_of_le (List.length_take_le ..)]
    rfl
  have rounds : high + 1 - low ≤ n * batch := by
    have bound : ((high + 1 - low : Nat) : Int) ≤ ((n * batch : Nat) : Int) := by
      push_cast
      omega
    exact_mod_cast bound
  refine ⟨(chain.take (high + 1)).drop low,fun k => ?_,?_⟩
  · have place : w.chain.height + 1 + (k : Int) = ((low + k : Nat) : Int) := by omega
    rw [List.getElem?_drop,List.getElem?_take,place,foundAt]
    congr 1
    simp only [eq_iff_iff]
    omega
  · rw [headerSyncOpens w m running source behind]
    exact exchangesFetch chronicled.holds height fetchable positive n fetched source rounds

end Laws

end SyncLoop

namespace Devnet
open Blockchain

section Dynamic
attribute [local instance] dynamic plainText

theorem headerPagesExtended : ∃ blocks : List Block, (∀ i : Nat, blocks[i]? = extended.getBlockByIndex i) ∧
    Paging.Walk (fun n => extended.rpcGetBlockHeaders (((n - 1) * 1 : Nat) : Int) 1) 1 (blocks.map Block.toHeaderDict) :=
  headerPages .memory extended extendedReached 1 (by decide) (by decide)

theorem servedHeadersExtended : ∃ blocks : List Block,
    extended.headersUpTo 100 1 5 = blocks.map Block.toHeaderDict ∧
    (∀ k : Nat, blocks[k]? = if (k : Int) < min (1 + min 5 100) (extended.height + 1) - max 0 1
      then extended.getBlockByIndex (max 0 1 + k) else none) ∧
    ∀ (t : Blockchain) (claimed : String),
      (t.validateHeaderChain (extended.headersUpTo 100 1 5) (.str claimed) = .ok () ∧
        t.verifyHeaderSignaturesAsync (some fun _ => none) (extended.headersUpTo 100 1 5) = .ok ()) ↔
      (∀ first, blocks.head? = some first → claimed = "" ∨ first.prevHash = claimed) ∧
        ∀ block ∈ blocks, block.index ≠ 0 → t.Knows block :=
  servedHeaders .memory extended extendedReached 100 1 5

def further : Block := emptyBlock caughtUp.tipBlock caughtUp.stateRoot.1

def ahead : Blockchain := (caughtUp.addBlock further 300).2

def lagging : SyncLoop.World :=
  { peers := [⟨"10.0.0.2:9000",2,true⟩], score := none, chain := founded, now := 300 }

def fetching : SyncLoop.Manager :=
  { state := .HEADER_SYNC, targetHeight := 2, syncSourceAddr := "10.0.0.2:9000", running := true, sigExecutor := true }

theorem aheadServes : ((caughtUp.addBlock further 300).1.Ended ∧ further.index ≠ 0 ∧ further.transactions = []) ∧
    (ahead.height = 2 ∧ ahead.getBlockByIndex 1 = some extension ∧ ahead.getBlockByIndex 2 = some further) ∧
    (founded.height = 0 ∧ extension.prevHash = SyncLoop.startPrevHash founded) ∧
    (deriveAddress key ≠ "" ∧ founded.state.staking.validatorRegistry[deriveAddress key]? = some key) ∧
    ∀ block ∈ [extension,further], block.validator = deriveAddress key ∧ block.signature ≠ [] ∧
      block.verifySignature key = true := by decide +kernel

theorem aheadReached : Reached (Orderly False) (new (.memory [])) ahead := by
  obtain ⟨⟨ended,position,empty⟩,-⟩ := aheadServes
  rw [ahead]
  exact caughtUpReached.receive further 300 (emptyTidy position empty) ended

theorem foundedKnows : ∀ block ∈ [extension,further], founded.Knows block := by
  obtain ⟨-,-,-,⟨named,registered⟩,signed⟩ := aheadServes
  intro block inside
  obtain ⟨maker,signature,valid⟩ := signed block inside
  exact ⟨maker ▸ named,signature,key,maker ▸ registered,valid⟩

/- Two headers in two turns, one in each. -/
theorem headerSyncCompletesAhead : ∃ blocks : List Block,
    (∀ k : Nat, blocks[k]? = if (k : Int) < fetching.targetHeight - founded.height
      then ahead.getBlockByIndex (founded.height + 1 + k) else none) ∧
    (SyncLoop.exchange loopLimits 1 ahead lagging)^[2] (SyncLoop.headerSync lagging fetching) =
      ⟨{ fetching with headerQueue := blocks.map Block.toHeaderDict },.crossVerify⟩ := by
  obtain ⟨-,⟨tip,first,second⟩,⟨height,joins⟩,-⟩ := aheadServes
  have low : lagging.chain.height = 0 := height
  have target : fetching.targetHeight = 2 := rfl
  have source : (lagging.getPeer fetching.syncSourceAddr).isSome = true := by decide
  refine SyncLoop.headerSyncCompletes .memory ahead aheadReached loopLimits 1 lagging fetching (by decide) rfl source
    (by omega) (by omega) (by omega) (fun block here => ?_) (fun i block above below _ here => ?_) 2 (by omega)
  · rw [low,zero_add,first] at here
    obtain rfl := Option.some.inj here
    exact joins
  · obtain rfl | rfl : i = 1 ∨ i = 2 := by omega
    · rw [first] at here
      obtain rfl := Option.some.inj here
      exact foundedKnows extension (by simp)
    · rw [second] at here
      obtain rfl := Option.some.inj here
      exact foundedKnows further (by simp)

end Dynamic

end Devnet

end QbitNetwork
