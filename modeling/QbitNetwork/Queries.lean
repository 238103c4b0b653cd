import QbitNetwork.HeaderServing
import QbitNetwork.Protection

/-! The queries for transactions, by id and by sender: in every state of a node their answers are those of its
blocks. -/
namespace QbitNetwork

namespace Blockchain
open Chronicle (rows)

section Model

def getTxsBySender (s : Blockchain) (address : Address) : List String := s.state.index.txsBySender.get address

def getTxsBySenderCount (s : Blockchain) (address : Address) : Nat := (s.getTxsBySender address).length

def getTxsBySenderPage (s : Blockchain) (address : Address) (offset limit : Nat) : List String :=
  ((s.getTxsBySender address).drop offset).take limit

def maxLimit : Int := 100

def parsePagination (page limit : Int) : Except String (Nat × Nat) :=
  if page < 1 then .error "page must be >= 1"
  else if limit < 1 ∨ maxLimit < limit then .error ("limit must be 1-" ++ toString maxLimit)
  else .ok (page.toNat,limit.toNat)

def restTxsBySender (s : Blockchain) (addr : Address) (page limit : Int) :
    Except String (List (Transaction × Option Int) × Nat) :=
  if addr = "" then .error "address is required"
  else do
    let (page,limit) ← parsePagination page limit
    let total := s.getTxsBySenderCount addr
    let start := (page - 1) * limit
    let ids := if start < total then s.getTxsBySenderPage addr start limit else []
    .ok (ids.filterMap (fun id => (s.getTx id).map (fun tx => (tx,s.getTxBlock id))),total)

end Model

section Rows

def sentIn (blocks : List Block) (sender : Address) : List (Transaction × Option Int) :=
  blocks.zipIdx.flatMap (fun row =>
    (row.1.transactions.filter (fun tx => tx.sender = sender)).map (fun tx => (tx,some (row.2 : Int))))

theorem blockRowsSent (block : Block) (height : Nat) (sender : Address) :
    ((Chronicle.blockRows block height).filter (fun row => row.1.sender = sender)).map (fun row => (row.1,some row.2.1)) =
      (block.transactions.filter (fun tx => tx.sender = sender)).map (fun tx => (tx,some (height : Int))) := by
  rw [Chronicle.blockRows,List.filter_map,List.map_map]
  conv_rhs => rw [← List.zipIdx_map_fst 0 block.transactions,List.filter_map,List.map_map]
  rfl

theorem rowsFromSent (height : Nat) (blocks : List Block) (sender : Address) :
    ((Chronicle.rowsFrom height blocks).filter (fun row => row.1.sender = sender)).map (fun row => (row.1,some row.2.1)) =
      (blocks.zipIdx height).flatMap (fun row =>
        (row.1.transactions.filter (fun tx => tx.sender = sender)).map (fun tx => (tx,some (row.2 : Int)))) := by
  induction blocks generalizing height with
  | nil => rfl
  | cons block rest ih =>
    rw [Chronicle.rowsFrom,List.filter_append,List.map_append,blockRowsSent,ih,List.zipIdx_cons,List.flatMap_cons]

theorem rowsSent (blocks : List Block) (sender : Address) :
    ((rows blocks).filter (fun row => row.1.sender = sender)).map (fun row => (row.1,some row.2.1)) =
      sentIn blocks sender := rowsFromSent 0 blocks sender

theorem rowOfTx {blocks : List Block} {i : Nat} {block : Block} (found : blocks[i]? = some block) {tx : Transaction}
    (inside : tx ∈ block.transactions) : ∃ row ∈ rows blocks, row.1 = tx ∧ row.2.1 = i := by
  suffices shifted : ∀ (blocks : List Block) (height i : Nat), blocks[i]? = some block →
      ∃ row ∈ Chronicle.rowsFrom height blocks, row.1 = tx ∧ row.2.1 = ((height + i : Nat) : Int) by
    have here := shifted blocks 0 i found
    rwa [Nat.zero_add] at here
  intro blocks
  induction blocks with
  | nil => intro height i found; simp at found
  | cons first rest ih =>
    intro height i found
    cases i with
    | zero =>
      cases found
      obtain ⟨j,place⟩ := List.mem_iff_getElem?.mp inside
      refine ⟨(tx,(height : Int),(j : Int)),List.mem_append_left _ (List.mem_map.mpr ⟨(tx,j),?_,rfl⟩),rfl,rfl⟩
      exact List.mk_mem_zipIdx_iff_getElem?.mpr place
    | succ i =>
      obtain ⟨row,listed,same,place⟩ := ih (height + 1) i (by simpa using found)
      exact ⟨row,List.mem_append_right _ listed,same,by rw [place]; omega⟩

end Rows

section Answers
variable [Env] {counting : Prop} {chain : List Block} {s : Blockchain}

theorem rowAnswers (chronicled : Chronicled counting chain s) {row : Row} (inside : row ∈ rows chain) :
    s.getTx row.1.txId = some row.1 ∧ s.getTxBlock row.1.txId = some row.2.1 := by
  have located : s.state.index.txById[row.1.txId]? = some row.2 := by
    rw [chronicled.indexed.byId,findDistinct (Chronicle.soundIds chronicled.sound) inside]
    rfl
  obtain ⟨i,block,found,place,position⟩ := Chronicle.memRowsFrom inside
  have stored : s.getBlockByIndex row.2.1 = some block := by
    rw [getBlockByIndex,Backend.getBlockHolds chronicled.holds,listAt,place,if_pos (by omega)]
    simpa using found
  constructor
  · simp only [getTx,located,Option.bind_eq_bind,Option.bind_some,stored]
    exact position
  · rw [getTxBlock,located]
    rfl

theorem pageAnswers (chronicled : Chronicled counting chain s) (sender : Address) (offset limit : Nat) :
    (((((rows chain).filter (fun row => row.1.sender = sender)).map (fun row => row.1.txId)).drop offset).take limit).filterMap
        (fun id => (s.getTx id).map (fun tx => (tx,s.getTxBlock id))) =
      ((sentIn chain sender).drop offset).take limit := by
  rw [← rowsSent,← List.map_drop,← List.map_take,← List.map_drop,← List.map_take,List.filterMap_map,← List.filterMap_eq_map]
  refine List.filterMap_congr (fun row inside => ?_)
  have listed : row ∈ rows chain := (List.mem_filter.mp (List.mem_of_mem_drop (List.mem_of_mem_take inside))).1
  obtain ⟨tx,place⟩ := rowAnswers chronicled listed
  simp only [Function.comp_apply,tx,place,Option.map_some]

theorem answerRow (chronicled : Chronicled counting chain s) {txId : String} {i : Int} (found : s.getTxBlock txId = some i) :
    ∃ row ∈ rows chain, row.1.txId = txId := by
  rw [getTxBlock,chronicled.indexed.byId] at found
  cases first : (rows chain).find? (fun row => row.1.txId = txId) with
  | none =>
    rw [first] at found
    cases found
  | some row => exact ⟨row,List.mem_of_find?_eq_some first,by simpa using List.find?_some first⟩

end Answers

section Reached
variable [Env] {backend : Backend} {validators : Dict Address Bytes}

/- After any calls, an id has an answer just if a stored block has a transaction with it: that transaction and the
height of the block, of which there are no two; and no block has an id twice. -/
theorem txAnswers (fresh : Fresh backend) : ∀ s : Blockchain, Reached (Orderly False) (new backend validators) s →
    (∀ txId tx i, s.getTx txId = some tx ∧ s.getTxBlock txId = some i ↔
      ∃ block, s.getBlockByIndex i = some block ∧ tx ∈ block.transactions ∧ tx.txId = txId) ∧
    (∀ i j block block' tx tx', s.getBlockByIndex i = some block → s.getBlockByIndex j = some block' →
      tx ∈ block.transactions → tx' ∈ block'.transactions → tx.txId = tx'.txId → i = j ∧ tx = tx') ∧
    ∀ i block, s.getBlockByIndex i = some block → (block.transactions.map Transaction.txId).Nodup := by
  intro s reached
  obtain ⟨chain,chronicled,-⟩ := reachedChain fresh reached
  have stored : ∀ {i : Int} {block : Block}, s.getBlockByIndex i = some block → chain[i.toNat]? = some block ∧ 0 ≤ i := by
    intro i block found
    rw [getBlockByIndex,Backend.getBlockHolds chronicled.holds,listAt] at found
    split at found
    · rename_i low
      exact ⟨found,low⟩
    · cases found
  have row : ∀ {i : Int} {block : Block} {tx : Transaction}, s.getBlockByIndex i = some block → tx ∈ block.transactions →
      s.getTx tx.txId = some tx ∧ s.getTxBlock tx.txId = some i := by
    intro i block tx found inside
    obtain ⟨here,low⟩ := stored found
    obtain ⟨row,listed,rfl,place⟩ := rowOfTx here inside
    have answers := rowAnswers chronicled listed
    rwa [place,Int.toNat_of_nonneg low] at answers
  refine ⟨fun txId tx i => ⟨fun answers => ?_,?_⟩,fun i j block block' tx tx' found found' inside inside' same => ?_,
    fun i block found => ?_⟩
  · obtain ⟨row,listed,rfl⟩ := answerRow chronicled answers.2
    obtain ⟨k,block,here,place,position⟩ := Chronicle.memRowsFrom listed
    have known := rowAnswers chronicled listed
    obtain rfl : row.1 = tx := Option.some.inj (known.1.symm.trans answers.1)
    obtain rfl : row.2.1 = i := Option.some.inj (known.2.symm.trans answers.2)
    refine ⟨block,?_,?_,rfl⟩
    · rw [getBlockByIndex,Backend.getBlockHolds chronicled.holds,listAt,place,if_pos (by omega)]
      simpa using here
    · unfold listAt at position
      split at position
      · exact List.mem_of_getElem? position
      · cases position
  · rintro ⟨block,found,inside,rfl⟩
    exact row found inside
  · have first := row found inside
    have second := row found' inside'
    rw [← same] at second
    exact ⟨Option.some.inj (first.2.symm.trans second.2),Option.some.inj (first.1.symm.trans second.1)⟩
  · have once := Chronicle.soundIds chronicled.sound
    rw [show (rows chain).map (fun row => row.1.txId) = ((rows chain).map Prod.fst).map Transaction.txId by
      rw [List.map_map]; rfl,rows,Chronicle.rowsFromTxs] at once
    have listed := List.mem_map_of_mem (f := Block.transactions) (List.mem_of_getElem? (stored found).1)
    exact once.sublist ((List.sublist_flatten_of_mem listed).map Transaction.txId)

/- In memory, the pages of any size hold every transaction of a sender with the height of its block, once and in
the order of the chain, and each page tells how many there are. -/
theorem senderPages : ∀ s : Blockchain, Reached Careful (new (.memory []) validators) s → ∀ addr : Address, addr ≠ "" →
    ∀ size : Nat, 0 < size → size ≤ 100 → ∃ blocks : List Block, (∀ i : Nat, blocks[i]? = s.getBlockByIndex i) ∧
      (∀ page : Nat, 0 < page → (s.restTxsBySender addr page size).map Prod.snd = .ok (sentIn blocks addr).length) ∧
      Paging.Walk (fun n => (s.restTxsBySender addr n size).map Prod.fst) 1 (sentIn blocks addr) := by
  intro s reached addr named size some few
  obtain ⟨chain,chronicled⟩ : ∃ chain, Chronicled True chain s :=
    reachedInvariant (fun s => ∃ chain, Chronicled True chain s) ⟨[],chronicledNew⟩
      (fun _ c ⟨_,chronicled⟩ careful ended => performLands chronicled c careful ended) reached
  have ids : s.getTxsBySender addr = ((rows chain).filter (fun row => row.1.sender = addr)).map (fun row => row.1.txId) :=
    chronicled.indexed.bySender trivial addr
  have count : s.getTxsBySenderCount addr = (sentIn chain addr).length := by
    rw [getTxsBySenderCount,ids,← rowsSent,List.length_map,List.length_map]
  have answer : ∀ page : Nat, 0 < page → s.restTxsBySender addr page size =
      .ok (Paging.page (sentIn chain addr) size page,(sentIn chain addr).length) := by
    intro page first
    have accepted : parsePagination page size = .ok (page,size) := by
      rw [parsePagination,if_neg (by omega),if_neg (by unfold maxLimit; omega),Int.toNat_natCast,Int.toNat_natCast]
    have behind : ∀ offset, ¬offset < s.getTxsBySenderCount addr → [] = s.getTxsBySenderPage addr offset size := by
      intro offset past
      rw [getTxsBySenderPage,List.drop_eq_nil_of_le (Nat.not_lt.mp past),List.take_nil]
    rw [restTxsBySender,if_neg named,accepted]
    simp only [bind,Except.bind]
    rw [ite_eq_left_iff.mpr (behind _),getTxsBySenderPage,ids,pageAnswers chronicled,count,Paging.page]
  refine ⟨chain,fun i => ?_,fun page first => ?_,Paging.walkPages some (fun n first _ => ?_)⟩
  · rw [getBlockByIndex,Backend.getBlockHolds chronicled.holds,listAt,if_pos (by omega),Int.toNat_natCast]
  · rw [answer page first]
    rfl
  · rw [answer n first]
    rfl

end Reached

end Blockchain

namespace Devnet
attribute [local instance] legacy
open Blockchain

theorem txAnswersNotarized : (notarized.getTx (notarization 0).txId = some (notarization 0) ∧
      notarized.getTxBlock (notarization 0).txId = some 1) ↔ ∃ block, notarized.getBlockByIndex 1 = some block ∧
        notarization 0 ∈ block.transactions ∧ (notarization 0).txId = (notarization 0).txId :=
  (txAnswers .memory notarized (notarizedReached trivial trivial trivial trivial)).1 _ _ _

theorem senderPagesNotarized : ∃ blocks : List Block, (∀ i : Nat, blocks[i]? = notarized.getBlockByIndex i) ∧
    (∀ page : Nat, 0 < page → (notarized.restTxsBySender address page (1 : Nat)).map Prod.snd =
      .ok (sentIn blocks address).length) ∧
    Paging.Walk (fun n => (notarized.restTxsBySender address n (1 : Nat)).map Prod.fst) 1 (sentIn blocks address) :=
  senderPages notarized (notarizedReached trivial trivial trivial trivial) address (by decide +kernel) 1 (by decide) (by decide)

end Devnet

end QbitNetwork
