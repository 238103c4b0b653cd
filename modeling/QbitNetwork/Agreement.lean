import QbitNetwork.ChainLinks
import QbitNetwork.MerkleRoot
import QbitNetwork.TokenIds

/-! What the hash of a block stands for: its header, its transactions and all blocks below it. Two nodes
that have one hash at one height have one history up to there, or two hashed strings that collide. -/
namespace QbitNetwork

theorem Json.dumpsIntOnly {a b : Int} (same : (Json.int a).dumps = (Json.int b).dumps) : a = b := by
  rw [Json.dumps,Json.dumps] at same
  exact decimalInjective (congrArg String.toList (encodeInjective same))

namespace Block
variable [Env]

def committed (block : Block) : List Bytes :=
  block.headerBytes :: (block.transactions.map Transaction.signableBytes ++
    merkleInputs (block.transactions.map Transaction.txHash))

structure Matches (block other : Block) : Prop where
  index : block.index = other.index
  prevHash : block.prevHash = other.prevHash
  validator : block.validator = other.validator
  timestamp : block.timestamp = other.timestamp
  baseFee : block.baseFee = other.baseFee
  stateRoot : block.stateRoot = other.stateRoot
  receiptsRoot : block.receiptsRoot = other.receiptsRoot
  contents : block.transactions.map Transaction.signableBytes = other.transactions.map Transaction.signableBytes

def headerRows (block : Block) : List (String × Json) :=
  [("baseFee",.int block.baseFee),("index",.int block.index),
    ("merkleRoot",.str block.merkleRoot),("prevHash",.str block.prevHash)] ++
   optionalField "receiptsRoot" block.receiptsRoot ++
   optionalField "stateRoot" block.stateRoot ++
   [("timestamp",.int block.timestamp),("txCount",.int block.transactions.length),
    ("validator",.str block.validator)]

theorem headerDistinct (block : Block) : (block.headerRows.map Prod.fst).Nodup := by
  simp only [headerRows,optionalField]
  split <;> split <;> simp

theorem headerStr {block other : Block} (same : block.headerBytes = other.headerBytes) (key : String) {a b : String}
    (here : (key,.str a) ∈ block.headerRows) (there : (key,.str b) ∈ other.headerRows) : a = b :=
  (Json.str.inj (Json.dumpsStrOnly (Json.dumpsObjAgree same (headerDistinct other) key here there))).symm

theorem headerInt {block other : Block} (same : block.headerBytes = other.headerBytes) (key : String) {a b : Int}
    (here : (key,.int a) ∈ block.headerRows) (there : (key,.int b) ∈ other.headerRows) : a = b :=
  (Json.dumpsIntOnly (Json.dumpsObjAgree same (headerDistinct other) key here there)).symm

theorem headerRoot {block other : Block} (same : block.headerBytes = other.headerBytes) {key a b : String}
    (here : ∀ value, (key,value) ∈ block.headerRows ↔ a ≠ "" ∧ value = .str a)
    (there : ∀ value, (key,value) ∈ other.headerRows ↔ b ≠ "" ∧ value = .str b) : a = b := by
  by_cases given : a = ""
  · by_cases given' : b = ""
    · rw [given,given']
    · obtain ⟨value,inside,-⟩ := Json.dumpsObjField same.symm ((there _).mpr ⟨given',rfl⟩)
      exact absurd given ((here value).mp inside).1
  · obtain ⟨value,inside,text⟩ := Json.dumpsObjField same ((here _).mpr ⟨given,rfl⟩)
    obtain ⟨-,rfl⟩ := (there value).mp inside
    exact (Json.str.inj (Json.dumpsStrOnly text)).symm

theorem stateRootRow (block : Block) (value : Json) : ("stateRoot",value) ∈ block.headerRows ↔
    block.stateRoot ≠ "" ∧ value = .str block.stateRoot := by
  simp only [headerRows,optionalField]
  split <;> split <;> simp_all

theorem receiptsRootRow (block : Block) (value : Json) : ("receiptsRoot",value) ∈ block.headerRows ↔
    block.receiptsRoot ≠ "" ∧ value = .str block.receiptsRoot := by
  simp only [headerRows,optionalField]
  split <;> split <;> simp_all

theorem hashTells {block other : Block} (same : block.blockHash = other.blockHash) :
    block.Matches other ∨ Merkle.Collides sha3_256 block.committed other.committed := by
  have digests : sha3_256 block.headerBytes = sha3_256 other.headerBytes := hexInjective same
  rcases Merkle.sameOrCollides (List.mem_cons_self ..) (List.mem_cons_self ..) digests with header | collides
  swap
  · exact .inr collides
  have roots : QbitNetwork.merkleRoot (block.transactions.map Transaction.txHash) =
      QbitNetwork.merkleRoot (other.transactions.map Transaction.txHash) :=
    hexInjective (headerStr header "merkleRoot" (by simp [headerRows,Block.merkleRoot])
      (by simp [headerRows,Block.merkleRoot]))
  have count : (block.transactions.length : Int) = other.transactions.length :=
    headerInt header "txCount" (by simp [headerRows]) (by simp [headerRows])
  have hashes : block.transactions.map Transaction.txHash = other.transactions.map Transaction.txHash ∨
      Merkle.Collides sha3_256 block.committed other.committed := by
    by_cases empty : block.transactions = []
    · have empty' : other.transactions = [] := List.length_eq_zero_iff.mp (by rw [empty] at count; simpa using count.symm)
      rw [empty,empty']
      exact .inl rfl
    · have some : other.transactions ≠ [] := by
        rintro none
        rw [none] at count
        exact empty (List.length_eq_zero_iff.mp (by simpa using count))
      refine (merkleRootTells (by simpa using empty) (by simpa using some) roots).imp_right (fun collides => ?_)
      exact collides.mono (fun _ inside => List.mem_cons_of_mem _ (List.mem_append_right _ inside))
        (fun _ inside => List.mem_cons_of_mem _ (List.mem_append_right _ inside))
  have contents : block.transactions.map Transaction.signableBytes = other.transactions.map Transaction.signableBytes ∨
      Merkle.Collides sha3_256 block.committed other.committed := by
    rcases hashes with hashes | collides
    · have digests : (block.transactions.map Transaction.signableBytes).map sha3_256 =
          (other.transactions.map Transaction.signableBytes).map sha3_256 := by
        rw [List.map_map,List.map_map]
        exact hashes
      refine (Merkle.listsOrCollides digests).imp_right (fun collides => ?_)
      exact collides.mono (fun _ inside => List.mem_cons_of_mem _ (List.mem_append_left _ inside))
        (fun _ inside => List.mem_cons_of_mem _ (List.mem_append_left _ inside))
    · exact .inr collides
  refine contents.imp_left (fun contents => ⟨?_,?_,?_,?_,?_,?_,?_,contents⟩)
  · exact headerInt header "index" (by simp [headerRows]) (by simp [headerRows])
  · exact headerStr header "prevHash" (by simp [headerRows]) (by simp [headerRows])
  · exact headerStr header "validator" (by simp [headerRows]) (by simp [headerRows])
  · exact headerInt header "timestamp" (by simp [headerRows]) (by simp [headerRows])
  · exact headerInt header "baseFee" (by simp [headerRows]) (by simp [headerRows])
  · exact headerRoot header (stateRootRow block) (stateRootRow other)
  · exact headerRoot header (receiptsRootRow block) (receiptsRootRow other)

end Block

namespace Blockchain
variable [Env]

def committed (s : Blockchain) : List Bytes :=
  (s.backend.getBlocksRange 0 (s.height + 1)).flatMap Block.committed

theorem chronicledCommitted {counting : Prop} {chain : List Block} {s : Blockchain}
    (chronicled : Chronicled counting chain s) : s.committed = chain.flatMap Block.committed := by
  rw [committed,Backend.getBlocksRangeHolds chronicled.holds,chronicled.height]
  rw [Int.toNat_zero,List.drop_zero,List.take_of_length_le (by omega)]

theorem collidesIn {chain chain' : List Block} {a b : Block} (here : a ∈ chain) (there : b ∈ chain')
    (collides : Merkle.Collides sha3_256 a.committed b.committed) :
    Merkle.Collides sha3_256 (chain.flatMap Block.committed) (chain'.flatMap Block.committed) :=
  collides.mono (fun _ inside => List.mem_flatMap.mpr ⟨a,here,inside⟩) (fun _ inside => List.mem_flatMap.mpr ⟨b,there,inside⟩)

theorem linkedAgree {chain chain' : List Block} (linked : Linked chain) (linked' : Linked chain') {n : Nat} {a b : Block}
    (top : chain[n]? = some a) (top' : chain'[n]? = some b) (same : a.blockHash = b.blockHash) :
    (∀ i ≤ n, ∀ a b, chain[i]? = some a → chain'[i]? = some b → a.Matches b) ∨
      Merkle.Collides sha3_256 (chain.flatMap Block.committed) (chain'.flatMap Block.committed) := by
  by_cases collides : Merkle.Collides sha3_256 (chain.flatMap Block.committed) (chain'.flatMap Block.committed)
  · exact .inr collides
  refine .inl (fun i below c d here there => ?_)
  have matched : ∀ c d : Block, c ∈ chain → d ∈ chain' → c.blockHash = d.blockHash → c.Matches d := fun c d inside inside' hash =>
    (Block.hashTells hash).resolve_right (fun found => collides (collidesIn inside inside' found))
  -- a block names the hash of the one below
  have hashes := LinkedLog.agreeBelow (fun a b : Block => a.blockHash = b.blockHash) False
    (fun a a' b b' inside inside' follows follows' hash => by
      have both := matched b b' inside inside' hash
      exact .inl (follows.link.symm.trans (both.prevHash.trans follows'.link)))
    linked linked' top top' same below here there
  exact matched c d (List.mem_of_getElem? here) (List.mem_of_getElem? there) (hashes.resolve_right id)

/- Two nodes that have a block of one hash at one height have the same blocks up to that height, but for
signatures, or two of the strings hashed for their blocks collide. -/
theorem sameHashSameHistory {backend backend' : Backend} {validators validators' : Dict Address Bytes}
    (fresh : Fresh backend) (fresh' : Fresh backend') : ∀ s t : Blockchain,
    Reached (Orderly False) (new backend validators) s → Reached (Orderly False) (new backend' validators') t →
      ∀ (n : Int) (a b : Block), s.getBlockByIndex n = some a → t.getBlockByIndex n = some b →
        a.blockHash = b.blockHash →
        (∀ i ≤ n, ∀ c d, s.getBlockByIndex i = some c → t.getBlockByIndex i = some d → c.Matches d) ∨
          Merkle.Collides sha3_256 s.committed t.committed := by
  intro s t reached reached' n a b top top' same
  obtain ⟨chain,chronicled,linked⟩ := reachedChain fresh reached
  obtain ⟨chain',chronicled',linked'⟩ := reachedChain fresh' reached'
  have found : ∀ i : Int, s.getBlockByIndex i = listAt chain i := fun i => Backend.getBlockHolds chronicled.holds i
  have found' : ∀ i : Int, t.getBlockByIndex i = listAt chain' i := fun i => Backend.getBlockHolds chronicled'.holds i
  rw [chronicledCommitted chronicled,chronicledCommitted chronicled']
  simp only [found,found',listAt] at top top' ⊢
  split at top
  · rename_i started
    rw [if_pos started] at top'
    refine (linkedAgree linked linked' top top' same).imp_left (fun agree i below c d here there => ?_)
    split at here
    · rename_i low
      rw [if_pos low] at there
      exact agree i.toNat (by omega) c d here there
    · cases here
  · cases top

end Blockchain

namespace Devnet
open Blockchain

section Dynamic
attribute [local instance] dynamic

def extended : Blockchain := (founded.perform (.reorg extending 200)).2

def extension : Block := emptyBlock founded.tipBlock founded.stateRoot.1

def caughtUp : Blockchain := (founded.addBlock extension 200).2

theorem extensionShared : (founded.addBlock extension 200).1.Ended ∧ extended.getBlockByIndex 1 = some extension ∧
    caughtUp.getBlockByIndex 1 = some extension ∧ extension.index ≠ 0 ∧ extension.transactions = [] := by decide +kernel

theorem emptyTidy {block : Block} (above : block.index ≠ 0) (empty : block.transactions = []) : Tidy block := by
  refine ⟨fun tx inside => ?_,fun first => absurd first above⟩
  rw [empty] at inside
  cases inside

theorem caughtUpReached : Reached (Orderly False) (new (.memory [])) caughtUp := by
  obtain ⟨ended,-,-,position,empty⟩ := extensionShared
  rw [caughtUp]
  exact foundedReached.receive extension 200 (emptyTidy position empty) ended

theorem extendedReached : Reached (Orderly False) (new (.memory [])) extended := by
  rw [extended]
  exact .call _ foundedReached extendingTried extendingEnded

theorem sameHashSameHistoryExtended :
    (∀ i ≤ 1, ∀ c d, extended.getBlockByIndex i = some c → caughtUp.getBlockByIndex i = some d → c.Matches d) ∨
      Merkle.Collides sha3_256 extended.committed caughtUp.committed := by
  obtain ⟨-,forked,here,-⟩ := extensionShared
  exact sameHashSameHistory .memory .memory extended caughtUp extendedReached caughtUpReached 1 extension extension forked
    here rfl

end Dynamic

end Devnet

end QbitNetwork
