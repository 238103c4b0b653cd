import QbitNetwork.BlockSync
import QbitNetwork.Protection

/-! What block sync leaves out: the fork blocks it should collect, and the chunks that were
not answered. -/
namespace QbitNetwork.BlockSync
open Gossip (occursIn)

section Texts

theorem occursInChars {needle text : String} (occurs : occursIn needle text = true) :
    ∀ c ∈ needle.toList, c ∈ text.toList :=
  (of_decide_eq_true occurs : needle.toList <:+: text.toList).subset

theorem occursInFront {needle text : String} (more : String) (occurs : occursIn needle text = true) :
    occursIn needle (text ++ more) = true := by
  refine decide_eq_true ?_
  rw [String.toList_append]
  exact (of_decide_eq_true occurs : needle.toList <:+: text.toList).trans
    (List.prefix_append _ _).isInfix

theorem intChars {n : Int} : ∀ c ∈ (toString n).toList, c.isDigit = true ∨ c = '-' := by
  have digits : ∀ (k : Nat), ∀ c ∈ k.repr.toList, c.isDigit = true := by
    intro k c inside
    rw [Nat.toList_repr] at inside
    exact Nat.isDigit_of_mem_toDigits (by decide) (by decide) inside
  intro c inside
  cases n with
  | ofNat k => exact .inl (digits k c inside)
  | negSucc k =>
    rw [show toString (Int.negSucc k) = "-" ++ (k + 1).repr from rfl,String.toList_append] at inside
    rcases List.mem_append.mp inside with sign | inside
    · exact .inr (List.mem_singleton.mp sign)
    · exact .inl (digits _ c inside)

theorem firstSeenKnown (index : Int) :
    occursIn "already have" (s!"first-seen wins: already have block at index {index}, " ++
      "use try_reorg() with a longer fork chain") = true := by
  have front : occursIn "already have" "first-seen wins: already have block at index " = true := by decide +kernel
  exact occursInFront _ (occursInFront _ (occursInFront _ front))

theorem outOfOrderOther (expected got : Int) :
    occursIn "first-seen wins" s!"out-of-order block: expected index {expected}, got {got}" = false := by
  by_contra occurs
  have wins := occursInChars (Bool.not_eq_false _ ▸ occurs) 'w' (by decide +kernel)
  have number : ∀ n : Int, 'w' ∉ (toString n).toList := by
    intro n inside
    rcases intChars 'w' inside with digit | sign
    · exact absurd digit (by decide)
    · exact absurd sign (by decide)
  simp only [String.toList_append,List.mem_append] at wins
  rcases wins with ((wins | wins) | wins) | wins
  · exact absurd wins (by decide +kernel)
  · exact number _ wins
  · exact absurd wins (by decide +kernel)
  · exact number _ wins

end Texts

section Loops
variable [Env]

theorem takeBatchKeeps {holds : Walk → Prop} {batch : List (List Int × Answer)} {w : Walk} (held : holds w)
    (kept : ∀ row ∈ batch, ∀ w, holds w → holds (takeAnswer row.2 w)) : holds (takeBatch batch w) := by
  induction batch generalizing w with
  | nil => exact held
  | cons row rest ih =>
    have taken := kept row List.mem_cons_self w held
    simp only [takeBatch]
    split
    · exact taken
    · exact ih taken (fun row inside => kept row (List.mem_cons_of_mem _ inside))

theorem downloadKeeps {holds : Walk → Prop} (limits : Limits) {rounds : List Round}
    (kept : ∀ round ∈ rounds, ∀ (i : Nat) (w : Walk), holds w → holds (takeAnswer (round.answers i) w))
    {chunks : List (List Int)} {w : Walk} (held : holds w) : holds (download limits chunks rounds w).2 := by
  induction rounds generalizing chunks w with
  | nil => cases chunks <;> exact held
  | cons round rounds ih =>
    have later := fun r inside => kept r (List.mem_cons_of_mem round inside)
    cases chunks with
    | nil => exact held
    | cons chunk more =>
      simp only [download]
      split
      · exact held
      · split
        · exact held
        · exact ih later held
        · rename_i peers _ _
          have taken : holds (takeBatch (batchOf limits peers (chunk :: more) round.answers) w) := by
            refine takeBatchKeeps held ?_
            intro row inside w held
            simp only [batchOf,List.mem_map] at inside
            obtain ⟨source,-,rfl⟩ := inside
            exact kept round List.mem_cons_self _ w held
          split
          · exact taken
          · exact ih later taken

end Loops

section Forks
variable [Env]

structure Competing (s : Blockchain) (fork : List Block) (now : Int) : Prop where
  starts : ∃ first, fork[0]? = some first ∧ 0 < first.index ∧ first.index ≤ s.height ∧
    s.height + 1 - first.index ≤ maxReorgDepth
  consecutive : ∀ (k : Nat) (a b : Block), fork[k]? = some a → fork[k + 1]? = some b →
    b.index = a.index + 1 ∧ b.prevHash = a.blockHash
  longer : ∃ block ∈ fork, s.height < block.index
  competes : ∀ block ∈ fork, block.index = s.height →
    ∀ tip, s.latestBlock = some tip → block.blockHash ≠ tip.blockHash
  valid : (s.tryReorg fork now).1 = .accepted

def Delivers (fork : List Block) (rounds : List Round) : Prop :=
  ∀ round ∈ rounds, ∀ (i : Nat) (items : List Item), round.answers i = .blocks items →
    ∀ item ∈ items, ∀ block, item.block = some block → block ∈ fork

def Adopted (fork : List Block) (m m' : SyncManager) : Prop :=
  m'.reorgs = m.reorgs ++ [fork] ∧ m'.chain.latestBlock = fork.getLast?

def Ignores (s : Blockchain) (block : Block) : Prop :=
  ∀ now, ∃ err, s.addBlock block now = (.refused err,s) ∧
    (occursIn "first-seen wins" err = true → occursIn "already have" err = true)

theorem competingIndices {s : Blockchain} {fork : List Block} {now : Int}
    (competing : Competing s fork now) {k : Nat} {first block : Block} (start : fork[0]? = some first)
    (here : fork[k]? = some block) : block.index = first.index + k := by
  induction k generalizing block with
  | zero => simp_all
  | succ k ih =>
    have bound := (List.getElem?_eq_some_iff.mp here).1
    have before : fork[k]? = some fork[k] := List.getElem?_eq_getElem (by omega)
    rw [(competing.consecutive k _ _ before here).1,ih before]
    omega

theorem competingChild {s : Blockchain} {fork : List Block} {now : Int}
    (competing : Competing s fork now) {block tip : Block} (inside : block ∈ fork)
    (next : block.index = s.height + 1) (latest : s.latestBlock = some tip) :
    block.prevHash ≠ tip.blockHash := by
  obtain ⟨first,start,-,below,-⟩ := competing.starts
  obtain ⟨k,here⟩ := List.getElem?_of_mem inside
  have position := competingIndices competing start here
  cases k with
  | zero => omega
  | succ k =>
    have bound := (List.getElem?_eq_some_iff.mp here).1
    have before : fork[k]? = some fork[k] := List.getElem?_eq_getElem (by omega)
    obtain ⟨follows,linked⟩ := competing.consecutive k _ _ before here
    rw [linked]
    exact competing.competes _ (List.getElem_mem _) (by omega) tip latest

theorem nextIgnored {s : Blockchain} (coherent : Blockchain.Coherent s) {block : Block}
    (later : 0 < block.index) (next : block.index = s.height + 1)
    (strange : ∀ tip, s.latestBlock = some tip → block.prevHash ≠ tip.blockHash) (now : Int) :
    s.validateBlock now block s.latestBlock = .error (.refused "parent block required") ∨
      s.validateBlock now block s.latestBlock = .error (.refused "prev_hash mismatch") := by
  unfold Blockchain.validateBlock
  rw [if_neg (by omega)]
  cases latest : s.latestBlock with
  | none => exact .inl rfl
  | some tip =>
    have position := coherent.tip tip latest
    have unlinked := strange tip latest
    refine .inr ?_
    have header : headerCheck block tip now = .error (.refused "prev_hash mismatch") := by
      unfold headerCheck refuseIf
      rw [if_neg (by omega),if_pos unlinked]
      rfl
    simp only [header]
    rfl

theorem competingIgnored {s : Blockchain} (coherent : Blockchain.Coherent s) {fork : List Block}
    {start : Int} (competing : Competing s fork start) {block : Block} (inside : block ∈ fork) :
    Ignores s block := by
  intro now
  have positive : 0 < block.index := by
    obtain ⟨first,start,above,-⟩ := competing.starts
    obtain ⟨k,here⟩ := List.getElem?_of_mem inside
    have := competingIndices competing start here
    omega
  unfold Blockchain.addBlock
  by_cases known : block.blockHash ∈ s.blockByHash
  · rw [if_pos known]
    exact ⟨_,rfl,by decide +kernel⟩
  rw [if_neg known]
  by_cases next : block.index = s.height + 1
  · simp only [if_pos next,if_pos positive]
    have strange := fun tip latest => @competingChild _ s _ _ competing _ tip inside next latest
    rcases nextIgnored coherent positive next strange now with refused | refused <;>
      rw [refused] <;> exact ⟨_,rfl,by decide +kernel⟩
  · simp only [if_neg next]
    by_cases below : block.index < s.height + 1
    · rw [if_pos ⟨positive,below⟩]
      exact ⟨_,rfl,fun _ => firstSeenKnown _⟩
    · rw [if_neg (fun both => below both.2)]
      exact ⟨_,rfl,fun wins => absurd wins (by rw [outOfOrderOther]; decide)⟩

structure Untouched (m : SyncManager) (w : Walk) : Prop where
  chain : w.manager.chain = m.chain
  reorgs : w.manager.reorgs = m.reorgs
  forkBlocks : w.forkBlocks = []

theorem takeBlocksIgnored {m : SyncManager} {items : List Item} {w : Walk} (untouched : Untouched m w)
    (ignored : ∀ item ∈ items, ∀ block, item.block = some block → Ignores m.chain block) :
    Untouched m (takeBlocks items w) := by
  induction items generalizing w with
  | nil => exact untouched
  | cons item rest ih =>
    obtain ⟨chain,reorgs,none⟩ := untouched
    simp only [takeBlocks]
    cases parsed : item.block with
    | none => exact ⟨chain,reorgs,none⟩
    | some block =>
      obtain ⟨err,refused,both⟩ := ignored item List.mem_cons_self block parsed item.now
      rw [← chain] at refused
      have offered : Untouched m { w with manager := w.manager.offer block item.now } := by
        refine ⟨?_,reorgs,none⟩
        simp only [SyncManager.offer,refused]
        exact chain
      by_cases trusted : w.manager.trusts block item.poolAnswers = false
      · simp only [if_pos trusted]
        refine ⟨?_,?_,none⟩ <;> unfold SyncManager.transition <;> split <;> assumption
      · simp only [if_neg trusted,refused]
        cases known : occursIn "already have" err with
        | true =>
          rw [if_pos (Bool.or_true _)]
          exact ih offered (fun item inside => ignored item (List.mem_cons_of_mem _ inside))
        | false =>
          have unseen : occursIn "first-seen wins" err = false := by
            cases wins : occursIn "first-seen wins" err with
            | false => rfl
            | true => exact absurd (both wins) (by rw [known]; decide)
          rw [unseen]
          exact offered

theorem downloadIgnored (limits : Limits) {m : SyncManager} {fork : List Block} {rounds : List Round}
    (delivers : Delivers fork rounds) (ignored : ∀ block ∈ fork, Ignores m.chain block)
    {chunks : List (List Int)} {w : Walk} (untouched : Untouched m w) :
    Untouched m (download limits chunks rounds w).2 := by
  refine downloadKeeps limits (fun round inside i w untouched => ?_) untouched
  unfold takeAnswer
  split
  · exact untouched
  · rename_i items answered
    exact takeBlocksIgnored untouched (fun item held block parsed =>
      ignored block (delivers round inside i items answered item held block parsed))

theorem blockSyncIgnored (limits : Limits) {m : SyncManager} {fork : List Block} {rounds : List Round}
    (now : Int) (delivers : Delivers fork rounds) (ignored : ∀ block ∈ fork, Ignores m.chain block) :
    (blockSync limits now rounds m).2.chain = m.chain ∧
      (blockSync limits now rounds m).2.reorgs = m.reorgs := by
  have settle : ∀ (m' : SyncManager) (state : SyncState),
      (m'.transition state).chain = m'.chain ∧ (m'.transition state).reorgs = m'.reorgs := by
    intro m' state
    unfold SyncManager.transition
    split <;> exact ⟨rfl,rfl⟩
  unfold blockSync
  split
  · exact settle m .SYNCED
  · have untouched : Untouched m (download limits
        (chunked limits.blockBatch m.headerQueue.length m.headerQueue) rounds { manager := m }).2 :=
      downloadIgnored limits delivers ignored ⟨rfl,rfl,rfl⟩
    generalize download limits _ rounds { manager := m } = answer at untouched
    obtain ⟨ending,w⟩ := answer
    obtain ⟨chain,reorgs,none⟩ := untouched
    cases ending with
    | finished =>
      have unresolved : attemptForkResolution w.manager w.forkBlocks now = (.finished,w.manager) := by
        rw [none]
        rfl
      simp only [unresolved]
      obtain ⟨sameChain,sameReorgs⟩ := settle { w.manager with headerQueue := [] } .SYNCED
      exact ⟨sameChain.trans chain,sameReorgs.trans reorgs⟩
    | waiting => exact ⟨chain,reorgs⟩
    | raised exception => exact ⟨chain,reorgs⟩
    | aborted => exact ⟨chain,reorgs⟩

theorem forkNeverAdopted (limits : Limits) (now : Int) (rounds : List Round) (m : SyncManager)
    (coherent : Blockchain.Coherent m.chain) {fork : List Block} (competing : Competing m.chain fork now)
    (delivers : Delivers fork rounds) : ¬Adopted fork m (blockSync limits now rounds m).2 := by
  intro adopted
  have kept := blockSyncIgnored limits now delivers (m := m)
    (fun block inside => competingIgnored coherent competing inside)
  have called := adopted.1
  rw [kept.2] at called
  exact absurd called (by simp)

end Forks

section Completeness
variable [Env]

def Complete (m m' : SyncManager) : Prop :=
  ∃ handed, m'.offered = m.offered ++ handed ∧ m.headerQueue.Sublist (handed.map Block.index)

def indices (items : List Item) : List Int := (items.filterMap Item.block).map Block.index

def Partial (row : List Int × Answer) : Prop :=
  ∀ items, row.2 = .blocks items → (indices items).Sublist row.1

def AllPartial (limits : Limits) : List (List Int) → List Round → Prop
  | chunk :: more,round :: rounds =>
    match round.peers with
    | none => True
    | some 0 => AllPartial limits (chunk :: more) rounds
    | some peers =>
      (∀ row ∈ batchOf limits peers (chunk :: more) round.answers, Partial row) ∧
        AllPartial limits ((chunk :: more).drop (min peers limits.maxParallel)) rounds
  | _,_ => True

def Kept (s : Blockchain) (block : Block) (now : Int) : Prop :=
  match (s.addBlock block now).1 with
  | .accepted => True
  | .refused err => (occursIn "first-seen wins" err || occursIn "already have" err) = true
  | .raised _ => False

def Serves : List Int → List Item → SyncManager → Prop
  | [],_,_ => True
  | _ :: _,[],_ => False
  | height :: heights,item :: items,m =>
    ∃ block, item.block = some block ∧ m.trusts block item.poolAnswers = true ∧ block.index = height ∧
      (heights = [] ∨ Kept m.chain block item.now) ∧ Serves heights items (m.offer block item.now)

def BatchServed : List (List Int × Answer) → Walk → Prop
  | [],_ => True
  | (chunk,answer) :: rest,w =>
    ∃ items, answer = .blocks items ∧ Serves chunk items w.manager ∧
      BatchServed rest (takeAnswer answer w)

def AllServed (limits : Limits) : List (List Int) → List Round → Walk → Prop
  | [],_,_ => True
  | _ :: _,[],_ => False
  | chunk :: more,round :: rounds,w =>
    round.running = true ∧
      match round.peers with
      | none => False
      | some 0 => AllServed limits (chunk :: more) rounds w
      | some peers =>
        let batch := batchOf limits peers (chunk :: more) round.answers
        BatchServed batch w ∧
          AllServed limits ((chunk :: more).drop (min peers limits.maxParallel)) rounds (takeBatch batch w)

omit [Env] in
theorem chunkedFlatten {size : Nat} (positive : 0 < size) (fuel : Nat) (heights : List Int)
    (enough : heights.length ≤ fuel) : (chunked size fuel heights).flatten = heights := by
  induction fuel generalizing heights with
  | zero =>
    rw [List.eq_nil_of_length_eq_zero (Nat.le_zero.mp enough)]
    rfl
  | succ fuel ih =>
    cases heights with
    | nil => rfl
    | cons height rest =>
      have shorter : ((height :: rest).drop size).length ≤ fuel := by
        simp only [List.length_drop,List.length_cons] at enough ⊢
        omega
      simp only [chunked,List.flatten_cons]
      rw [ih _ shorter,List.take_append_drop]

omit [Env] in
theorem chunkedNonempty {size : Nat} (positive : 0 < size) (fuel : Nat) (heights : List Int) :
    ∀ chunk ∈ chunked size fuel heights, chunk ≠ [] := by
  induction fuel generalizing heights with
  | zero => simp [chunked]
  | succ fuel ih =>
    cases heights with
    | nil => simp [chunked]
    | cons height rest =>
      intro chunk inside
      simp only [chunked,List.mem_cons] at inside
      rcases inside with rfl | inside
      · obtain ⟨more,rfl⟩ : ∃ more, size = more + 1 := ⟨size - 1,by omega⟩
        simp
      · exact ih _ chunk inside

theorem takeBlocksHanded (items : List Item) (w : Walk) : ∃ handed,
    (takeBlocks items w).manager.offered = w.manager.offered ++ handed ∧
    handed.map Block.index <+: indices items ∧
    ∀ chunk, Serves chunk items w.manager ↔ chunk <+: handed.map Block.index := by
  have none : ∀ (items : List Item) (m : SyncManager) (chunk : List Int),
      (∀ height heights, ¬Serves (height :: heights) items m) →
        (Serves chunk items m ↔ chunk <+: ([] : List Block).map Block.index) := by
    intro items m chunk unserved
    cases chunk with
    | nil => simp [Serves]
    | cons height heights => simpa using unserved height heights
  induction items generalizing w with
  | nil => exact ⟨[],by simp [takeBlocks],by simp,fun chunk => none [] _ chunk (by simp [Serves])⟩
  | cons item rest ih =>
    simp only [takeBlocks]
    cases parsed : item.block with
    | none => exact ⟨[],by simp,by simp,fun chunk => none _ _ chunk (by simp [Serves,parsed])⟩
    | some block =>
      have listed : indices (item :: rest) = block.index :: indices rest := by simp [indices,parsed]
      by_cases trusted : w.manager.trusts block item.poolAnswers = false
      · simp only [if_pos trusted]
        refine ⟨[],?_,by simp,fun chunk => none _ _ chunk (by simp [Serves,parsed,trusted])⟩
        unfold SyncManager.transition
        split <;> simp
      simp only [if_neg trusted,listed]
      rw [Bool.not_eq_false] at trusted
      -- a block that is kept goes on to the rest, any other ends the answer
      have goesOn : ∀ w' : Walk, w'.manager = w.manager.offer block item.now →
          Kept w.manager.chain block item.now → ∃ handed,
            (takeBlocks rest w').manager.offered = w.manager.offered ++ handed ∧
            handed.map Block.index <+: block.index :: indices rest ∧
            ∀ chunk, Serves chunk (item :: rest) w.manager ↔ chunk <+: handed.map Block.index := by
        intro w' same kept
        obtain ⟨handed,offered,inFront,serves⟩ := ih w'
        refine ⟨block :: handed,?_,?_,fun chunk => ?_⟩
        · rw [offered,same]
          simp [SyncManager.offer]
        · simpa using inFront
        · cases chunk with
          | nil => simp [Serves]
          | cons height heights =>
            simp only [Serves,parsed,Option.some.injEq,exists_eq_left',trusted,true_and,kept,or_true,
              List.map_cons,List.cons_prefix_cons,← serves,same]
            exact and_congr_left' eq_comm
      have ends : ¬Kept w.manager.chain block item.now → ∃ handed,
          (w.manager.offer block item.now).offered = w.manager.offered ++ handed ∧
          handed.map Block.index <+: block.index :: indices rest ∧
          ∀ chunk, Serves chunk (item :: rest) w.manager ↔ chunk <+: handed.map Block.index := by
        intro unkept
        refine ⟨[block],rfl,by simp,fun chunk => ?_⟩
        cases chunk with
        | nil => simp [Serves]
        | cons height heights =>
          simp only [Serves,parsed,Option.some.injEq,exists_eq_left',trusted,true_and,unkept,or_false,
            List.map_cons,List.map_nil,List.cons_prefix_cons,List.prefix_nil]
          constructor
          · rintro ⟨rfl,rfl,-⟩
            exact ⟨rfl,rfl⟩
          · rintro ⟨rfl,rfl⟩
            exact ⟨rfl,rfl,by simp [Serves]⟩
      unfold Kept at goesOn ends
      split
      · rename_i accepted
        rw [accepted] at goesOn
        exact goesOn _ rfl trivial
      · rename_i err refused
        rw [refused] at goesOn ends
        split
        · rename_i mentioned
          split
          · exact goesOn _ rfl mentioned
          · exact goesOn _ rfl mentioned
        · rename_i unmentioned
          exact ends unmentioned
      · rename_i exception raised
        rw [raised] at ends
        exact ends id

omit [Env] in
theorem splitEqual {a b c d : List Int} (left : a.Sublist c) (right : b.Sublist d)
    (same : a ++ b = c ++ d) : a = c ∧ b = d := by
  have lengths := congrArg List.length same
  simp only [List.length_append] at lengths
  have short := left.length_le
  have short' := right.length_le
  exact ⟨left.eq_of_length (by omega),right.eq_of_length (by omega)⟩

theorem takeBatchHanded {batch : List (List Int × Answer)} (w : Walk)
    (asked : ∀ row ∈ batch, row.1 ≠ [] ∧ Partial row) : ∃ handed,
    (takeBatch batch w).manager.offered = w.manager.offered ++ handed ∧
    (handed.map Block.index).Sublist (batch.map Prod.fst).flatten ∧
    ((takeBatch batch w).aborted = false →
      (BatchServed batch w ↔ handed.map Block.index = (batch.map Prod.fst).flatten)) := by
  induction batch generalizing w with
  | nil => exact ⟨[],by simp [takeBatch],by simp,by simp [BatchServed]⟩
  | cons row rest ih =>
    obtain ⟨chunk,answer⟩ := row
    obtain ⟨nonempty,partly⟩ := asked _ List.mem_cons_self
    -- what this answer hands over, and when that is the whole chunk
    have here : ∃ handed, (takeAnswer answer w).manager.offered = w.manager.offered ++ handed ∧
        (handed.map Block.index).Sublist chunk ∧
        ((∃ items, answer = .blocks items ∧ Serves chunk items w.manager) ↔
          handed.map Block.index = chunk) := by
      cases answer with
      | unanswered => exact ⟨[],by simp [takeAnswer],by simp,by simpa using nonempty.symm⟩
      | blocks items =>
        obtain ⟨handed,offered,inFront,serves⟩ := takeBlocksHanded items w
        have inside := inFront.sublist.trans (partly items rfl)
        refine ⟨handed,offered,inside,?_⟩
        simp only [Answer.blocks.injEq,exists_eq_left',serves]
        exact ⟨fun whole => inside.antisymm whole.sublist,fun same => same ▸ List.prefix_rfl⟩
    obtain ⟨handed,offered,inside,served⟩ := here
    simp only [takeBatch,List.map_cons,List.flatten_cons]
    by_cases aborted : (takeAnswer answer w).aborted = true
    · rw [if_pos aborted]
      refine ⟨handed,offered,inside.trans (List.sublist_append_left ..),fun unaborted => ?_⟩
      rw [aborted] at unaborted
      exact absurd unaborted (by decide)
    · rw [if_neg aborted]
      obtain ⟨later,offered',inside',served'⟩ :=
        ih (takeAnswer answer w) (fun row listed => asked row (List.mem_cons_of_mem _ listed))
      refine ⟨handed ++ later,by rw [offered',offered,List.append_assoc],?_,fun unaborted => ?_⟩
      · rw [List.map_append]
        exact inside.append inside'
      · rw [List.map_append,BatchServed]
        constructor
        · rintro ⟨items,rfl,serves,restServed⟩
          rw [served.mp ⟨items,rfl,serves⟩,(served' unaborted).mp restServed]
        · intro same
          obtain ⟨whole,rest⟩ := splitEqual inside inside' same
          obtain ⟨items,answered,serves⟩ := served.mpr whole
          exact ⟨items,answered,serves,(served' unaborted).mpr rest⟩

omit [Env] in
theorem batchChunks (limits : Limits) (peers : Nat) (chunks : List (List Int)) (answers : Nat → Answer) :
    (batchOf limits peers chunks answers).map Prod.fst = chunks.take (min peers limits.maxParallel) := by
  simp only [batchOf,List.map_map]
  exact List.zipIdx_map_fst ..

theorem downloadHanded (limits : Limits) {rounds : List Round} {chunks : List (List Int)} (w : Walk)
    (nonempty : ∀ chunk ∈ chunks, chunk ≠ []) (partly : AllPartial limits chunks rounds) : ∃ handed,
    (download limits chunks rounds w).2.manager.offered = w.manager.offered ++ handed ∧
    (handed.map Block.index).Sublist chunks.flatten ∧
    ((download limits chunks rounds w).1 = .finished →
      (AllServed limits chunks rounds w ↔ handed.map Block.index = chunks.flatten)) := by
  induction rounds generalizing chunks w with
  | nil =>
    cases chunks with
    | nil => exact ⟨[],by simp [download],by simp,by simp [AllServed]⟩
    | cons chunk more => exact ⟨[],by simp [download],by simp,by simp [download]⟩
  | cons round rounds ih =>
    cases chunks with
    | nil => exact ⟨[],by simp [download],by simp,by simp [AllServed]⟩
    | cons chunk more =>
      have due : (chunk :: more).flatten ≠ [] := by
        have := nonempty chunk List.mem_cons_self
        simp [this]
      simp only [download,AllServed,AllPartial] at partly ⊢
      by_cases stopped : round.running = false
      · rw [if_pos stopped]
        refine ⟨[],by simp,by simp,fun _ => ?_⟩
        simpa [stopped] using due.symm
      rw [if_neg stopped]
      rw [Bool.not_eq_false] at stopped
      simp only [stopped,true_and]
      cases found : round.peers with
      | none => exact ⟨[],by simp,by simp,by simp⟩
      | some peers =>
        rw [found] at partly
        cases peers with
        | zero => exact ih w nonempty partly
        | succ peers =>
          obtain ⟨answered,later⟩ := partly
          simp only
          generalize batching : batchOf limits (peers + 1) (chunk :: more) round.answers = batch at answered ⊢
          have taken : batch.map Prod.fst = (chunk :: more).take (min (peers + 1) limits.maxParallel) := by
            rw [← batching,batchChunks]
          have rows : ∀ row ∈ batch, row.1 ≠ [] ∧ Partial row := by
            intro row listed
            refine ⟨nonempty _ ?_,answered row listed⟩
            exact List.mem_of_mem_take (taken ▸ List.mem_map_of_mem listed)
          have parts : (chunk :: more).flatten = (batch.map Prod.fst).flatten ++
              ((chunk :: more).drop (min (peers + 1) limits.maxParallel)).flatten := by
            rw [taken,← List.flatten_append,List.take_append_drop]
          obtain ⟨handed,offered,inside,served⟩ := takeBatchHanded w rows
          by_cases aborted : (takeBatch batch w).aborted = true
          · rw [if_pos aborted]
            refine ⟨handed,offered,?_,by simp⟩
            rw [parts]
            exact inside.trans (List.sublist_append_left ..)
          · rw [if_neg aborted]
            rw [Bool.not_eq_true] at aborted
            obtain ⟨handed',offered',inside',served'⟩ := ih (takeBatch batch w)
              (fun chunk listed => nonempty chunk (List.mem_of_mem_drop listed)) later
            refine ⟨handed ++ handed',by rw [offered',offered,List.append_assoc],?_,fun finished => ?_⟩
            · rw [List.map_append,parts]
              exact inside.append inside'
            · rw [List.map_append,parts,served aborted,served' finished]
              constructor
              · rintro ⟨whole,rest⟩
                rw [whole,rest]
              · exact splitEqual inside inside'

theorem takeBlocksState {items : List Item} {w : Walk} (started : w.manager.state = .BLOCK_SYNC) :
    (takeBlocks items w).manager.state = .BLOCK_SYNC := by
  induction items generalizing w with
  | nil => exact started
  | cons item rest ih =>
    simp only [takeBlocks]
    split
    · exact started
    · split
      · simp [SyncManager.transition,started,transitions]
      · split
        · exact ih started
        · split
          · split <;> exact ih started
          · exact started
        · exact started

theorem downloadState (limits : Limits) {rounds : List Round} {chunks : List (List Int)} {w : Walk}
    (started : w.manager.state = .BLOCK_SYNC) :
    (download limits chunks rounds w).2.manager.state = .BLOCK_SYNC := by
  have kept : ∀ round ∈ rounds, ∀ (i : Nat) (w : Walk), w.manager.state = .BLOCK_SYNC →
      (takeAnswer (round.answers i) w).manager.state = .BLOCK_SYNC := by
    intro round _ i w started
    unfold takeAnswer
    split
    · exact started
    · exact takeBlocksState started
  exact downloadKeeps limits kept started

theorem resolutionOffered (m : SyncManager) (forkBlocks : List Block) (now : Int) :
    (attemptForkResolution m forkBlocks now).2.offered = m.offered := by
  unfold attemptForkResolution
  split
  · rfl
  · split
    · rfl
    · split <;> rfl

theorem blockSyncSynced {limits : Limits} {now : Int} {rounds : List Round} {m : SyncManager}
    (started : m.state = .BLOCK_SYNC) (synced : (blockSync limits now rounds m).2.state = .SYNCED)
    (queued : m.headerQueue ≠ []) : ∃ w,
    download limits (chunked limits.blockBatch m.headerQueue.length m.headerQueue) rounds
      { manager := m } = (.finished,w) ∧
    (blockSync limits now rounds m).2.offered = w.manager.offered := by
  have state : (download limits (chunked limits.blockBatch m.headerQueue.length m.headerQueue) rounds
      { manager := m }).2.manager.state = .BLOCK_SYNC := downloadState limits started
  simp only [blockSync,if_neg queued] at synced ⊢
  generalize download limits _ rounds { manager := m } = outcome at state synced ⊢
  obtain ⟨ending,w⟩ := outcome
  have open' : w.manager.state ≠ .SYNCED := by
    rw [show w.manager.state = .BLOCK_SYNC from state]
    decide
  cases ending with
  | waiting => exact absurd synced open'
  | raised exception => exact absurd synced open'
  | aborted => exact absurd synced open'
  | finished =>
    refine ⟨w,rfl,?_⟩
    have offered := resolutionOffered w.manager w.forkBlocks now
    dsimp only
    generalize attemptForkResolution w.manager w.forkBlocks now = answer at offered ⊢
    obtain ⟨ending,m'⟩ := answer
    cases ending with
    | finished =>
      simp only [SyncManager.transition]
      split <;> exact offered
    | waiting => exact offered
    | raised exception => exact offered
    | aborted => exact offered

/- A sync that reports SYNCED has handed over every queued height exactly where every chunk
was answered in full while the node kept running. -/
theorem syncedCompleteIff (limits : Limits) (now : Int) (rounds : List Round) (m : SyncManager)
    (started : m.state = .BLOCK_SYNC)
    (partly : AllPartial limits (chunked limits.blockBatch m.headerQueue.length m.headerQueue) rounds)
    (synced : (blockSync limits now rounds m).2.state = .SYNCED) :
    Complete m (blockSync limits now rounds m).2 ↔
      AllServed limits (chunked limits.blockBatch m.headerQueue.length m.headerQueue) rounds
        { manager := m } := by
  by_cases queued : m.headerQueue = []
  · have unchanged : (blockSync limits now rounds m).2.offered = m.offered := by
      simp only [blockSync,if_pos queued,SyncManager.transition]
      split <;> rfl
    rw [queued]
    simpa [AllServed,chunked] using ⟨[],by simpa using unchanged,by simp [queued]⟩
  · obtain ⟨w,downloaded,offered⟩ := blockSyncSynced started synced queued
    obtain ⟨handed,offered',inside,served⟩ := downloadHanded limits { manager := m }
      (chunkedNonempty limits.batchPositive m.headerQueue.length m.headerQueue) partly
    have whole := chunkedFlatten limits.batchPositive m.headerQueue.length m.headerQueue le_rfl
    rw [downloaded] at offered' served
    rw [whole] at inside served
    rw [served rfl]
    constructor
    · rintro ⟨handed',appended,covers⟩
      obtain rfl : handed = handed' := by
        rw [offered,offered'] at appended
        exact List.append_cancel_left appended
      exact inside.antisymm covers
    · intro same
      exact ⟨handed,offered.trans offered',same ▸ List.Sublist.refl _⟩

end Completeness

end QbitNetwork.BlockSync

namespace QbitNetwork.Devnet
open BlockSync Blockchain

section Legacy
attribute [local instance] legacy

def rivalTx (nonce : Int) : Transaction :=
  Transaction.sign
    { txType := .NOTARIZE
      sender := address
      payload := { documentHash := some "cd" }
      timestamp := 101
      nonce } key key

def localChain : Blockchain := ((joined.admitTx (notarization 0)).produceBlock address key 102 102).2

def rivalFirst : Blockchain := ((joined.submitTx 101 (rivalTx 0)).2.produceBlock address key 103 103).2

def rivalSecond : Blockchain := ((rivalFirst.submitTx 101 (rivalTx 1)).2.produceBlock address key 104 104).2

def rivalBlocks : List Block := [rivalFirst.tipBlock,rivalSecond.tipBlock]

theorem syncBatchPositive : 0 < 8 := by decide

theorem syncParallelPositive : 0 < 4 := by decide

def syncLimits : Limits := ⟨8,4,syncBatchPositive,syncParallelPositive⟩

def behind : SyncManager := { chain := localChain, headerQueue := [1,2] }

def rivalRounds : List Round :=
  [{ running := true, peers := some 1
     answers := fun _ => .blocks (rivalBlocks.map (fun block => ⟨some block,true,105⟩)) }]

def singleLimits : Limits := ⟨1,4,Nat.one_pos,syncParallelPositive⟩

def joining : SyncManager := { chain := joined, headerQueue := [1,2] }

def pairRounds (first : Answer) : List Round :=
  [{ running := true, peers := some 2
     answers := fun i => if i = 0 then first else .blocks [⟨some rivalSecond.tipBlock,true,105⟩] }]

def firstAnswer : Answer := .blocks [⟨some rivalFirst.tipBlock,true,105⟩]

theorem syncRuns :
    ((localChain.latestBlock.map Block.index = some localChain.height ∧ -1 ≤ localChain.height) ∧
      (localChain.height = 1 ∧ rivalFirst.tipBlock.index = 1 ∧ rivalSecond.tipBlock.index = 2 ∧
        rivalSecond.tipBlock.prevHash = rivalFirst.tipBlock.blockHash ∧
        localChain.latestBlock.map Block.blockHash ≠ some rivalFirst.tipBlock.blockHash ∧
        (localChain.tryReorg rivalBlocks 105).1 = .accepted) ∧
      (blockSync syncLimits 105 rivalRounds behind).2.state = .SYNCED ∧
      (blockSync syncLimits 105 rivalRounds behind).2.offered = rivalBlocks ∧
      (blockSync syncLimits 105 rivalRounds behind).2.chain.height = 1 ∧
      (blockSync syncLimits 105 rivalRounds behind).2.reorgs.length = 0) ∧
    (rivalFirst.tipBlock.index = 1 ∧ rivalSecond.tipBlock.index = 2) ∧
    ((blockSync singleLimits 105 (pairRounds .unanswered) joining).2.state = .SYNCED ∧
      (blockSync singleLimits 105 (pairRounds .unanswered) joining).2.offered = [rivalSecond.tipBlock]) ∧
    (blockSync singleLimits 105 (pairRounds firstAnswer) joining).2.state = .SYNCED ∧
    (blockSync singleLimits 105 (pairRounds firstAnswer) joining).2.offered = rivalBlocks ∧
    rivalBlocks.map Block.index = [1,2] := by decide +kernel

theorem localCoherent : Coherent localChain := by
  have tip := syncRuns.1.1
  refine ⟨tip.2,fun block latest => ?_⟩
  rw [latest] at tip
  exact Option.some.inj tip.1

theorem rivalsCompete : Competing localChain rivalBlocks 105 := by
  have run := syncRuns.1.2.1
  rw [rivalBlocks] at run ⊢
  generalize localChain = s, rivalFirst.tipBlock = first, rivalSecond.tipBlock = second at run ⊢
  obtain ⟨height,one,two,linked,apart,accepted⟩ := run
  refine ⟨⟨first,rfl,by omega,by omega,?_⟩,?_,⟨second,by simp,by omega⟩,?_,accepted⟩
  · rw [one,height]
    decide
  · intro k a b here above
    match k with
    | 0 =>
      cases here
      cases above
      exact ⟨by omega,linked⟩
    | k + 1 => simp at above
  · intro block inside position tip latest same
    simp only [List.mem_cons,List.not_mem_nil,or_false] at inside
    rcases inside with rfl | rfl
    · exact apart (by rw [latest,Option.map_some,same])
    · omega

theorem rivalsDelivered : Delivers rivalBlocks rivalRounds := by
  intro round inside i items answered item held block parsed
  cases List.mem_singleton.mp inside
  cases answered
  obtain ⟨source,listed,rfl⟩ := List.mem_map.mp held
  cases parsed
  exact listed

/- The node has been offered the longer chain, reports it is synchronised, and has neither
called `try_reorg` nor left its own block. -/
theorem rivalsNotAdopted : Competing localChain rivalBlocks 105 ∧ Delivers rivalBlocks rivalRounds ∧
    (blockSync syncLimits 105 rivalRounds behind).2.state = .SYNCED ∧
    (blockSync syncLimits 105 rivalRounds behind).2.offered = rivalBlocks ∧
    (blockSync syncLimits 105 rivalRounds behind).2.chain.height = 1 ∧
    ¬Adopted rivalBlocks behind (blockSync syncLimits 105 rivalRounds behind).2 := by
  obtain ⟨state,offered,height,uncalled⟩ := syncRuns.1.2.2
  refine ⟨rivalsCompete,rivalsDelivered,state,offered,height,fun adopted => ?_⟩
  rw [adopted.1] at uncalled
  simp at uncalled

theorem rivalsIgnored : ¬Adopted rivalBlocks behind (blockSync syncLimits 105 rivalRounds behind).2 := by
  have coherent : Coherent behind.chain := by simp only [behind,localCoherent]
  have competing : Competing behind.chain rivalBlocks 105 := by simp only [behind,rivalsCompete]
  exact forkNeverAdopted syncLimits 105 rivalRounds behind coherent competing rivalsDelivered

theorem pairPartial (first : Answer) (listed : first = .unanswered ∨ first = firstAnswer) :
    AllPartial singleLimits (chunked singleLimits.blockBatch joining.headerQueue.length joining.headerQueue)
      (pairRounds first) := by
  have numbered := syncRuns.2.1
  refine ⟨fun row inside items answered => ?_,trivial⟩
  rw [firstAnswer] at listed
  have rows : row = ([1],first) ∨ row = ([2],.blocks [⟨some rivalSecond.tipBlock,true,105⟩]) := by
    simpa [batchOf,pairRounds,chunked,singleLimits,joining] using inside
  generalize rivalFirst.tipBlock = one, rivalSecond.tipBlock = two at numbered listed rows
  obtain ⟨at1,at2⟩ := numbered
  rcases rows with rfl | rfl
  · rcases listed with rfl | rfl
    · cases answered
    · cases answered
      simp [indices,at1]
  · cases answered
    simp [indices,at2]

/- A chunk that timed out is not asked for again, and the node reports it is synchronised. -/
theorem timedOutSkipped :
    (blockSync singleLimits 105 (pairRounds .unanswered) joining).2.state = .SYNCED ∧
    (blockSync singleLimits 105 (pairRounds .unanswered) joining).2.offered = [rivalSecond.tipBlock] ∧
    AllPartial singleLimits (chunked singleLimits.blockBatch joining.headerQueue.length joining.headerQueue)
      (pairRounds .unanswered) ∧
    ¬Complete joining (blockSync singleLimits 105 (pairRounds .unanswered) joining).2 := by
  have run := syncRuns.2.2.1
  refine ⟨run.1,run.2,pairPartial _ (.inl rfl),?_⟩
  rintro ⟨handed,appended,covers⟩
  rw [run.2] at appended
  have few := congrArg List.length appended
  have many := covers.length_le
  simp only [joining,List.length_map,List.nil_append,List.length_cons,List.length_nil] at few many
  omega

theorem answeredServed : AllServed singleLimits
    (chunked singleLimits.blockBatch joining.headerQueue.length joining.headerQueue)
    (pairRounds firstAnswer) { manager := joining } := by
  have run := syncRuns.2.2.2
  have started : joining.state = .BLOCK_SYNC := rfl
  refine (syncedCompleteIff singleLimits 105 _ joining started (pairPartial _ (.inr rfl)) run.1).mp ?_
  refine ⟨rivalBlocks,run.2.1,?_⟩
  rw [run.2.2]
  exact List.Sublist.refl _

end Legacy

end QbitNetwork.Devnet
