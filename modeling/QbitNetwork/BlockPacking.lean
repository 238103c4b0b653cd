import QbitNetwork.SnapshotWindow
import QbitNetwork.Lib.QueuePacking
import Mathlib.Data.List.Sort

/-! What a producer packs into a block under the dynamic fees: of each sender the first transactions by nonce that
pay the base fee, sender by sender, up to the limits of a block and as far as they go. -/
namespace QbitNetwork

namespace Blockchain
open QueuePacking

section Packing

def Room (taken : List Transaction) (tx : Transaction) : Prop :=
  taken.length < maxTxPerBlock ∧ blockTotalWeight taken + txWeights tx.txType ≤ maxBlockWeight

instance (taken : List Transaction) (tx : Transaction) : Decidable (Room taken tx) := inferInstanceAs (Decidable (_ ∧ _))

theorem weightAppend (xs ys : List Transaction) : blockTotalWeight (xs ++ ys) = blockTotalWeight xs + blockTotalWeight ys := by
  rw [blockTotalWeight,List.map_append,List.sum_append]
  rfl

theorem weightSingle (tx : Transaction) : blockTotalWeight [tx] = txWeights tx.txType := by
  rw [blockTotalWeight,List.map_singleton,List.sum_singleton]

theorem weightPositive (txs : List Transaction) : 0 ≤ blockTotalWeight txs := by
  refine List.sum_nonneg (fun w inside => ?_)
  obtain ⟨tx,-,rfl⟩ := List.mem_map.mp inside
  cases tx.txType <;> decide

theorem roomFilling : Filling Room := by
  rintro taken more tx full ⟨few,light⟩
  have rest := weightPositive more
  rw [List.length_append] at few
  rw [weightAppend] at light
  exact full ⟨by omega,by omega⟩

theorem takeQueueRoom (queue taken : List Transaction) : takeQueue (taken,blockTotalWeight taken) queue =
    (takeFrom Room taken queue,blockTotalWeight (takeFrom Room taken queue)) := by
  induction queue generalizing taken with
  | nil => rfl
  | cons tx rest ih =>
    rw [takeQueue,takeFrom]
    by_cases room : Room taken tx
    · have fits : ¬(maxTxPerBlock ≤ taken.length ∨ maxBlockWeight < blockTotalWeight taken + txWeights tx.txType) := by
        rw [not_or,Nat.not_le,Int.not_lt]
        exact room
      rw [if_neg fits,if_pos room,← ih,weightAppend,weightSingle]
    · have full : maxTxPerBlock ≤ taken.length ∨ maxBlockWeight < blockTotalWeight taken + txWeights tx.txType := by
        by_contra fits
        rw [not_or,Nat.not_le,Int.not_lt] at fits
        exact room fits
      rw [if_pos full,if_neg room]

theorem packRoom (baseFee : Int) (pool : List Transaction) : packDynamic baseFee pool =
    pack Room (senderQueue (eligible baseFee pool)) [] (sortedSenders baseFee (eligible baseFee pool)) := by
  have counted : ∀ (senders : List Address) (taken : List Transaction),
      senders.foldl (fun taken sender => takeQueue taken (senderQueue (eligible baseFee pool) sender))
        (taken,blockTotalWeight taken) =
      (pack Room (senderQueue (eligible baseFee pool)) taken senders,
        blockTotalWeight (pack Room (senderQueue (eligible baseFee pool)) taken senders)) := by
    intro senders
    induction senders with
    | nil => exact fun _ => rfl
    | cons sender rest ih =>
      intro taken
      rw [List.foldl_cons,takeQueueRoom,ih]
      rfl
  exact congrArg Prod.fst (counted _ [])

variable {baseFee : Int} {txs pool : List Transaction} {sender : Address}

theorem memQueue {tx : Transaction} : tx ∈ senderQueue txs sender ↔ tx ∈ txs ∧ tx.sender = sender := by
  rw [senderQueue,List.mem_insertionSort,List.mem_filter,decide_eq_true_iff]

theorem queueSorted (txs : List Transaction) (sender : Address) :
    (senderQueue txs sender).Pairwise (fun a b => a.nonce ≤ b.nonce) :=
  List.pairwise_insertionSort ..

theorem memSenders : sender ∈ sortedSenders baseFee txs ↔ ∃ tx ∈ txs, tx.sender = sender := by
  rw [sortedSenders,List.mem_insertionSort,List.mem_reverse,List.mem_dedup,List.mem_reverse,List.mem_map]

theorem sendersOnce (baseFee : Int) (txs : List Transaction) : (sortedSenders baseFee txs).Nodup := by
  rw [sortedSenders,(List.perm_insertionSort ..).nodup_iff,List.nodup_reverse]
  exact List.nodup_dedup _

theorem sendersSorted (baseFee : Int) (txs : List Transaction) :
    (sortedSenders baseFee txs).Pairwise (fun a b => senderPriority baseFee txs b ≤ senderPriority baseFee txs a) :=
  List.pairwise_insertionSort ..

structure PackedFor (baseFee : Int) (pool txs : List Transaction) : Prop where
  within : txs.Subperm pool
  count : txs.length ≤ maxTxPerBlock
  weight : blockTotalWeight txs ≤ maxBlockWeight
  pays : ∀ tx ∈ txs, txWeights tx.txType = 0 ∨ baseFee ≤ tx.maxFeePerWeight
  firsts : ∀ sender, txs.filter (fun tx => tx.sender = sender) <+: senderQueue (eligible baseFee pool) sender
  nonces : ∀ sender, (txs.filter (fun tx => tx.sender = sender)).Pairwise (fun a b => a.nonce ≤ b.nonce)
  ranked : txs.Pairwise (fun a b => senderPriority baseFee (eligible baseFee pool) b.sender ≤
    senderPriority baseFee (eligible baseFee pool) a.sender)
  full : ∀ sender next, (senderQueue (eligible baseFee pool) sender)[(txs.filter (fun tx => tx.sender = sender)).length]? =
    some next → ¬Room txs next

theorem flatRanked (rank : Address → Int) {queue : Address → List Transaction} (own : ∀ sender, ∀ tx ∈ queue sender, tx.sender = sender)
    {senders : List Address} (sorted : senders.Pairwise (fun a b => rank b ≤ rank a)) (count : Address → Nat) :
    (senders.flatMap (fun sender => (queue sender).take (count sender))).Pairwise
      (fun a b => rank b.sender ≤ rank a.sender) := by
  have here : ∀ sender, ∀ tx ∈ (queue sender).take (count sender), tx.sender = sender :=
    fun sender tx inside => own sender tx (List.mem_of_mem_take inside)
  refine List.pairwise_flatMap.mpr ⟨fun sender _ => ?_,sorted.imp (fun above x first y second => ?_)⟩
  · refine List.pairwise_of_forall_mem_list (fun x first y second => ?_)
    rw [here sender x first,here sender y second]
  · rw [here _ x first,here _ y second]
    exact above

theorem packsPool (baseFee : Int) (pool : List Transaction) : PackedFor baseFee pool (packDynamic baseFee pool) := by
  classical
  obtain ⟨count,shape,full⟩ := packPrefixes roomFilling (senderQueue (eligible baseFee pool))
    (sendersOnce baseFee (eligible baseFee pool)) []
  rw [← packRoom] at shape full
  rw [List.nil_append] at shape
  have own : ∀ sender, ∀ tx ∈ senderQueue (eligible baseFee pool) sender, tx.sender = sender :=
    fun _ _ inside => (memQueue.mp inside).2
  have absent : ∀ sender, sender ∉ sortedSenders baseFee (eligible baseFee pool) →
      senderQueue (eligible baseFee pool) sender = [] := by
    intro sender unknown
    refine List.eq_nil_iff_forall_not_mem.mpr (fun tx inside => unknown (memSenders.mpr ?_))
    exact ⟨tx,memQueue.mp inside⟩
  have firsts : ∀ sender, (packDynamic baseFee pool).filter (fun tx => tx.sender = sender) =
      (senderQueue (eligible baseFee pool) sender).take (count sender) := by
    intro sender
    by_cases known : sender ∈ sortedSenders baseFee (eligible baseFee pool)
    · rw [shape,keyedPrefix own (sendersOnce ..) count known]
    · rw [absent sender known,List.take_nil,List.filter_eq_nil_iff]
      intro tx inside
      rw [shape] at inside
      obtain ⟨other,listed,taken⟩ := List.mem_flatMap.mp inside
      have belongs := own other tx (List.mem_of_mem_take taken)
      simpa [belongs] using fun same : other = sender => known (same ▸ listed)
  have limits : (packDynamic baseFee pool).length ≤ maxTxPerBlock ∧
      blockTotalWeight (packDynamic baseFee pool) ≤ maxBlockWeight := by
    rw [packRoom]
    refine @packKeeps _ _ Room _ (fun txs => txs.length ≤ maxTxPerBlock ∧ blockTotalWeight txs ≤ maxBlockWeight)
      (fun taken tx _ room => ?_) [] (by decide) _ _
    rw [List.length_append,List.length_singleton,weightAppend,weightSingle]
    exact room
  have listed : ∀ tx ∈ packDynamic baseFee pool, tx ∈ eligible baseFee pool := by
    intro tx inside
    rw [shape] at inside
    obtain ⟨_,-,taken⟩ := List.mem_flatMap.mp inside
    exact (memQueue.mp (List.mem_of_mem_take taken)).1
  refine ⟨?_,limits.1,limits.2,fun tx inside => ?_,fun sender => firsts sender ▸ List.take_prefix ..,
    fun sender => firsts sender ▸ (queueSorted ..).sublist (List.take_sublist ..),?_,
    fun sender next behind => ?_⟩
  · refine List.subperm_ext_iff.mpr (fun tx _ => ?_)
    calc (packDynamic baseFee pool).count tx
        = ((packDynamic baseFee pool).filter (fun other => other.sender = tx.sender)).count tx :=
          (List.count_filter (by simp)).symm
      _ = ((senderQueue (eligible baseFee pool) tx.sender).take (count tx.sender)).count tx := by rw [firsts]
      _ ≤ (senderQueue (eligible baseFee pool) tx.sender).count tx := (List.take_sublist ..).count_le tx
      _ = ((eligible baseFee pool).filter (fun other => other.sender = tx.sender)).count tx :=
          (List.perm_insertionSort ..).count_eq tx
      _ ≤ pool.count tx := (List.filter_sublist.trans List.filter_sublist).count_le tx
  · simpa [eligible] using (List.mem_filter.mp (listed tx inside)).2
  · rw [shape]
    exact flatRanked (senderPriority baseFee (eligible baseFee pool)) own (sendersSorted ..) count
  · -- the queue of the sender goes on behind what was taken of it, and so stopped there
    rw [firsts,List.length_take] at behind
    have short := (List.getElem?_eq_some_iff.mp behind).1
    have stop : (senderQueue (eligible baseFee pool) sender)[count sender]? = some next := by
      rwa [Nat.min_eq_left (by omega)] at behind
    obtain ⟨fits,own⟩ := memQueue.mp (List.mem_of_getElem? stop)
    exact full sender (memSenders.mpr ⟨next,fits,own⟩) next stop

end Packing

section Producing
variable [Env]

theorem producedSelects {s t : Blockchain} {address : Address} {sk : Bytes} {now later : Int}
    (run : s.produceBlock address sk now later = (.accepted,t)) : ∃ parent block, s.latestBlock = some parent ∧
      t.latestBlock = some block ∧ block.index = parent.index + 1 ∧ (block.transactions,block.baseFee) = s.selectTxs parent := by
  unfold produceBlock at run
  split at run
  · cases run
  · split at run
    · cases run
    · rename_i parent tip
      split at run
      · cases run
      · split at run
        · cases run
        · split at run
          · cases run
          · dsimp only at run
            split at run
            · cases run
            · split at run
              · rename_i halt refused
                cases halt <;> cases run
              · split at run
                · cases run
                · rename_i appended
                  split at run
                  · cases run
                  · rename_i u replaced
                    cases run
                    obtain ⟨backend,blockByHash,rfl⟩ := replaceTipOk replaced
                    exact ⟨parent,_,tip,rfl,rfl,rfl⟩

/- Whatever state a node is in and whatever is in its pool: a block it produces under the dynamic fees has the base
fee that its parent asks for and is packed from the pool at that fee; before them it has the oldest of the pool. -/
theorem producedPacked (s t : Blockchain) (address : Address) (sk : Bytes) (now later : Int)
    (run : s.produceBlock address sk now later = (.accepted,t)) : ∃ parent block, s.latestBlock = some parent ∧
      t.latestBlock = some block ∧ block.index = parent.index + 1 ∧
      (dynamicActive block.index = true → block.baseFee = expectedBaseFee parent block.index ∧
        PackedFor block.baseFee s.pool.txPool block.transactions) ∧
      (dynamicActive block.index = false → block.transactions = s.pool.txPool.take maxTxPerBlock) := by
  obtain ⟨parent,block,before,after,index,selected⟩ := producedSelects run
  refine ⟨parent,block,before,after,index,fun active => ?_,fun inactive => ?_⟩
  · rw [index] at active ⊢
    rw [selectTxs,if_pos active,Prod.mk.injEq] at selected
    rw [selected.1,selected.2]
    exact ⟨rfl,packsPool _ _⟩
  · rw [index] at inactive
    rw [selectTxs,inactive,if_neg (by decide),Prod.mk.injEq] at selected
    exact selected.1

end Producing

end Blockchain

namespace Devnet
open Blockchain

section Dynamic
attribute [local instance] dynamic

def bid (nonce fee priority : Int) (sk : Bytes) : Transaction :=
  Transaction.sign
    { txType := .NOTARIZE
      sender := deriveAddress sk
      payload := { documentHash := some "ab" }
      timestamp := 100
      nonce
      maxFeePerWeight := fee
      maxPriorityFee := priority } sk sk

def bidding : Blockchain :=
  (((founded.admitTx (bid 0 20 1 [3])).admitTx (bid 0 20 5 [4])).admitTx (bid 1 20 5 [4])).admitTx (bid 0 5 5 [5])

def produced : Blockchain := (bidding.produceBlock (deriveAddress key) key 200 200).2

theorem producedRuns : (bidding.produceBlock (deriveAddress key) key 200 200).1 = .accepted ∧
    produced.tipBlock.transactions = [bid 0 20 5 [4],bid 1 20 5 [4],bid 0 20 1 [3]] := by decide +kernel

theorem producedPackedBidding : ∃ parent block, bidding.latestBlock = some parent ∧ produced.latestBlock = some block ∧
    block.index = parent.index + 1 ∧
    (dynamicActive block.index = true → block.baseFee = expectedBaseFee parent block.index ∧
      PackedFor block.baseFee bidding.pool.txPool block.transactions) ∧
    (dynamicActive block.index = false → block.transactions = bidding.pool.txPool.take maxTxPerBlock) := by
  have run : bidding.produceBlock (deriveAddress key) key 200 200 = (.accepted,produced) := by
    rw [produced]
    exact acceptedState producedRuns.1
  exact producedPacked bidding produced (deriveAddress key) key 200 200 run

end Dynamic

end Devnet

end QbitNetwork
