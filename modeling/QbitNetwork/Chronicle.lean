import QbitNetwork.Runs

/-! The chain as one list of transactions, each with its place, and what the transaction
index says about it: recording and forgetting are appending and filtering of rows. -/
namespace QbitNetwork

abbrev Row := Transaction × Int × Int

namespace Chronicle

def blockRows (block : Block) (height : Int) : List Row :=
  block.transactions.zipIdx.map (fun row => (row.1,height,(row.2 : Int)))

def rowsFrom : Nat → List Block → List Row
  | _,[] => []
  | height,block :: rest => blockRows block height ++ rowsFrom (height + 1) rest

def rows (chain : List Block) : List Row := rowsFrom 0 chain

theorem rowsFromAppend (height : Nat) (chain : List Block) (block : Block) :
    rowsFrom height (chain ++ [block]) =
      rowsFrom height chain ++ blockRows block ((height + chain.length : Nat) : Int) := by
  induction chain generalizing height with
  | nil => simp [rowsFrom]
  | cons first rest ih =>
    rw [List.cons_append,rowsFrom,ih,rowsFrom,List.append_assoc,List.length_cons]
    congr 3
    omega

theorem rowsAppend (chain : List Block) (block : Block) :
    rows (chain ++ [block]) = rows chain ++ blockRows block chain.length := by
  rw [rows,rowsFromAppend,Nat.zero_add]
  rfl

theorem blockRowsTxs (block : Block) (height : Int) :
    (blockRows block height).map Prod.fst = block.transactions := by
  rw [blockRows,List.map_map]
  exact List.zipIdx_map_fst ..

theorem rowsFromTxs (height : Nat) (chain : List Block) :
    (rowsFrom height chain).map Prod.fst = chain.flatMap Block.transactions := by
  induction chain generalizing height with
  | nil => rfl
  | cons block rest ih =>
    rw [rowsFrom,List.map_append,blockRowsTxs,ih,List.flatMap_cons]

theorem memBlockRows {block : Block} {height : Int} {row : Row} (inside : row ∈ blockRows block height) :
    row.2.1 = height ∧ listAt block.transactions row.2.2 = some row.1 := by
  obtain ⟨⟨tx,j⟩,found,rfl⟩ := List.mem_map.mp inside
  refine ⟨rfl,?_⟩
  have here := List.mem_zipIdx' found
  simp only [listAt]
  rw [if_pos (by omega)]
  simpa using (List.getElem?_eq_some_iff.mpr ⟨here.1,here.2.symm⟩)

theorem memRowsFrom {height : Nat} {chain : List Block} {row : Row} (inside : row ∈ rowsFrom height chain) :
    ∃ i block, chain[i]? = some block ∧ row.2.1 = ((height + i : Nat) : Int) ∧
      listAt block.transactions row.2.2 = some row.1 := by
  induction chain generalizing height with
  | nil => cases inside
  | cons block rest ih =>
    rw [rowsFrom,List.mem_append] at inside
    rcases inside with here | later
    · obtain ⟨place,found⟩ := memBlockRows here
      exact ⟨0,block,rfl,by simpa using place,found⟩
    · obtain ⟨i,other,found,place,position⟩ := ih later
      refine ⟨i + 1,other,by simpa using found,?_,position⟩
      rw [place]
      omega

def userTxs (chain : List Block) (sender : Address) : List Transaction :=
  ((chain.drop 1).flatMap Block.transactions).filter (fun tx => tx.sender = sender)

theorem userTxsRows (chain : List Block) (sender : Address) :
    ((rows chain).filter (fun row => row.1.sender = sender ∧ row.2.1 ≠ 0)).map Prod.fst =
      userTxs chain sender := by
  cases chain with
  | nil => rfl
  | cons genesis rest =>
    have later : ∀ row ∈ rowsFrom 1 rest, row.2.1 ≠ 0 := by
      intro row inside
      obtain ⟨i,_,-,place,-⟩ := memRowsFrom inside
      omega
    have first : ∀ row ∈ blockRows genesis 0, row.2.1 = 0 := fun row inside => (memBlockRows inside).1
    have none : (blockRows genesis 0).filter (fun row => row.1.sender = sender ∧ row.2.1 ≠ 0) = [] := by
      refine List.filter_eq_nil_iff.mpr (fun row inside => ?_)
      simp [first row inside]
    have all : (rowsFrom 1 rest).filter (fun row => row.1.sender = sender ∧ row.2.1 ≠ 0) =
        (rowsFrom 1 rest).filter (fun row => decide (row.1.sender = sender)) := by
      refine List.filter_congr (fun row inside => ?_)
      simp [later row inside]
    rw [rows,rowsFrom]
    simp only [Nat.cast_zero]
    rw [List.filter_append,none,Nat.zero_add,all,List.nil_append,userTxs,List.drop_one,List.tail_cons,
      ← rowsFromTxs 1 rest,List.filter_map]
    rfl

theorem userTxsAppend (chain : List Block) (block : Block) (sender : Address) (started : chain ≠ []) :
    userTxs (chain ++ [block]) sender =
      userTxs chain sender ++ block.transactions.filter (fun tx => tx.sender = sender) := by
  cases chain with
  | nil => contradiction
  | cons genesis rest => simp [userTxs,List.filter_append]

section Indexed
variable [Env]

structure Indexed (counting : Prop) (rows : List Row) (x : Index) : Prop where
  byId : ∀ txId, x.txById[txId]? = (rows.find? (fun row => row.1.txId = txId)).map Prod.snd
  ids : ∀ txId, txId ∈ x.chainTxIds ↔ txId ∈ rows.map (fun row => row.1.txId)
  bySender : counting → ∀ sender, x.txsBySender.get sender =
    (rows.filter (fun row => row.1.sender = sender)).map (fun row => row.1.txId)

omit [Env] in
theorem raiseNonceTables (x : Index) (idx : Int) (tx : Transaction) :
    (x.raiseNonce idx tx).txById = x.txById ∧ (x.raiseNonce idx tx).chainTxIds = x.chainTxIds ∧
      (x.raiseNonce idx tx).txsBySender = x.txsBySender := by
  unfold Index.raiseNonce
  split <;> exact ⟨rfl,rfl,rfl⟩

theorem indexedRecord {counting : Prop} {rows : List Row} {x : Index} (indexed : Indexed counting rows x) {tx : Transaction}
    (fresh : tx.txId ∉ rows.map (fun row => row.1.txId)) (idx txIdx : Int) :
    Indexed counting (rows ++ [(tx,idx,txIdx)]) (x.recordTx idx txIdx tx) := by
  obtain ⟨byId,ids,bySender⟩ := raiseNonceTables { x with
    txById := x.txById.insert tx.txId (idx,txIdx)
    chainTxIds := x.chainTxIds.insert tx.txId
    txsBySender := x.txsBySender.update tx.sender (· ++ [tx.txId])
    txsByRecipient :=
      if tx.recipient = "" then x.txsByRecipient
      else x.txsByRecipient.update tx.recipient (· ++ [tx.txId]) } idx tx
  constructor
  · intro txId
    rw [Index.recordTx,byId,Std.ExtTreeMap.getElem?_insert,List.find?_append]
    by_cases same : tx.txId = txId
    · have absent : rows.find? (fun row => row.1.txId = txId) = none := by
        refine List.find?_eq_none.mpr (fun row inside found => fresh ?_)
        rw [same]
        exact List.mem_map.mpr ⟨row,inside,by simpa using found⟩
      simp [same,absent]
    · simp [same,indexed.byId txId]
  · intro txId
    rw [Index.recordTx,ids,DSet.memInsert,indexed.ids,List.map_append,List.mem_append]
    simp [or_comm]
  · intro counted sender
    rw [Index.recordTx,bySender,Table.getUpdate,List.filter_append,List.map_append]
    by_cases same : tx.sender = sender
    · rw [if_pos same,same,indexed.bySender counted]
      simp [same]
    · simp [same,indexed.bySender counted]

theorem indexedForget {counting : Prop} {rows : List Row} {x : Index} (indexed : Indexed counting rows x) {tx : Transaction}
    (distinct : (rows.map (fun row => row.1.txId)).Nodup)
    (own : ∀ row ∈ rows, row.1.txId = tx.txId → row.1.sender = tx.sender) :
    Indexed counting (rows.filter (fun row => row.1.txId ≠ tx.txId)) (x.forgetTx tx) := by
  constructor
  · intro txId
    simp only [Index.forgetTx]
    rw [Std.ExtTreeMap.getElem?_erase,List.find?_filter]
    by_cases same : tx.txId = txId
    · subst same
      simp
    · rw [if_neg (by simpa using same),indexed.byId]
      congr 2
      funext row
      by_cases here : row.1.txId = txId
      · simp [here,Ne.symm same]
      · simp [here]
  · intro txId
    simp only [Index.forgetTx]
    rw [DSet.memErase,indexed.ids]
    simp only [List.mem_map,List.mem_filter,decide_eq_true_eq]
    constructor
    · rintro ⟨different,row,inside,rfl⟩
      exact ⟨row,⟨inside,different⟩,rfl⟩
    · rintro ⟨row,⟨inside,different⟩,rfl⟩
      exact ⟨different,row,inside,rfl⟩
  · intro counted sender
    simp only [Index.forgetTx]
    rw [Table.getUpdate]
    split
    · rename_i same
      have nodup : ((rows.filter (fun row => row.1.sender = tx.sender)).map
          (fun row => row.1.txId)).Nodup := distinct.sublist ((List.filter_sublist ..).map _)
      rw [indexed.bySender counted,nodup.erase_eq_filter,List.filter_map,← same,List.filter_filter,
        List.filter_filter]
      congr 1
      refine List.filter_congr (fun row _ => ?_)
      by_cases here : row.1.txId = tx.txId <;> simp [here]
    · rename_i other
      rw [indexed.bySender counted,List.filter_filter]
      congr 1
      refine List.filter_congr (fun row inside => ?_)
      by_cases here : row.1.txId = tx.txId
      · simp [here,own row inside here,other]
      · simp [here]

theorem indexedRecordAll {counting : Prop} {added rows : List Row} {x : Index}
    (indexed : Indexed counting rows x)
    (distinct : ((rows ++ added).map (fun row => row.1.txId)).Nodup) :
    Indexed counting (rows ++ added) (added.foldl (fun x row => x.recordTx row.2.1 row.2.2 row.1) x) := by
  induction added generalizing rows x with
  | nil => simpa using indexed
  | cons row rest ih =>
    have split : rows ++ row :: rest = (rows ++ [row]) ++ rest := by simp
    rw [split] at distinct ⊢
    refine ih (indexedRecord indexed ?_ row.2.1 row.2.2) distinct
    rw [List.map_append,List.map_append] at distinct
    have before := (List.nodup_append.mp distinct).1
    intro inside
    exact (List.nodup_append.mp before).2.2 _ inside _ (List.mem_singleton_self _) rfl

theorem indexedForgetAll {counting : Prop} {txs : List Transaction} {rows : List Row} {x : Index}
    (indexed : Indexed counting rows x) (distinct : (rows.map (fun row => row.1.txId)).Nodup)
    (own : ∀ tx ∈ txs, ∀ row ∈ rows, row.1.txId = tx.txId → row.1.sender = tx.sender) :
    Indexed counting (rows.filter (fun row => row.1.txId ∉ txs.map Transaction.txId))
      (txs.foldl Index.forgetTx x) := by
  induction txs generalizing rows x with
  | nil => simpa using indexed
  | cons tx rest ih =>
    have forgotten := indexedForget indexed distinct (own tx (List.mem_cons_self ..))
    have left := ih forgotten (distinct.sublist ((List.filter_sublist ..).map _))
      (fun other inside row kept same => own other (List.mem_cons_of_mem _ inside) row
        (List.mem_filter.mp kept).1 same)
    rw [List.filter_filter] at left
    have same : rows.filter (fun row => row.1.txId ∉ (tx :: rest).map Transaction.txId) =
        rows.filter (fun row => decide (row.1.txId ∉ rest.map Transaction.txId) &&
          decide (row.1.txId ≠ tx.txId)) := by
      refine List.filter_congr (fun row _ => ?_)
      by_cases here : row.1.txId = tx.txId <;> simp [here]
    rw [same]
    exact left

end Indexed

section Nonces
variable [Env]

def upTo (n : Nat) : List Int := (List.range n).map (fun (i : Nat) => (i : Int))

omit [Env] in
theorem upToAdd (n m : Nat) :
    upTo (n + m) = upTo n ++ (List.range m).map (fun (i : Nat) => ((n + i : Nat) : Int)) := by
  simp only [upTo,List.range_add,List.map_append,List.map_map]
  rfl

omit [Env] in
theorem upToMax (n : Nat) : (upTo n).max?.getD (-1) = n - 1 := by
  cases n with
  | zero => rfl
  | succ n =>
    have top : (upTo (n + 1)).max? = some (n : Int) := by
      refine List.max?_eq_some_iff.mpr ⟨?_,fun b inside => ?_⟩
      · exact List.mem_map.mpr ⟨n,List.mem_range.mpr (by omega),rfl⟩
      · obtain ⟨i,below,rfl⟩ := List.mem_map.mp inside
        have := List.mem_range.mp below
        omega
    rw [top]
    simp

def Continues (count : Address → Nat) (txs : List Transaction) : Prop :=
  ∀ sender, (txs.filter (fun tx => tx.sender = sender)).map Transaction.nonce =
    (List.range (txs.filter (fun tx => tx.sender = sender)).length).map
      (fun (i : Nat) => ((count sender + i : Nat) : Int))

omit [Env] in
theorem raiseNonceGet (x : Index) (idx : Int) (tx : Transaction) (sender : Address) :
    (x.raiseNonce idx tx).senderNonce.get sender =
      if 0 < idx ∧ x.senderNonce.get tx.sender < tx.nonce ∧ tx.sender = sender then tx.nonce
      else x.senderNonce.get sender := by
  unfold Index.raiseNonce
  split
  · rename_i raised
    rw [Table.getSet]
    by_cases same : tx.sender = sender
    · rw [if_pos same,if_pos ⟨raised.1,raised.2,same⟩]
    · rw [if_neg same,if_neg (fun all => same all.2.2)]
  · rename_i kept
    rw [if_neg (fun all => kept ⟨all.1,all.2.1⟩)]

theorem recordNonce (x : Index) (idx txIdx : Int) (tx : Transaction) (sender : Address) :
    (x.recordTx idx txIdx tx).senderNonce.get sender =
      if 0 < idx ∧ x.senderNonce.get tx.sender < tx.nonce ∧ tx.sender = sender then tx.nonce
      else x.senderNonce.get sender := by
  rw [Index.recordTx,raiseNonceGet]

theorem recordNonces {added : List Row} {x : Index} {count : Address → Nat}
    (later : ∀ row ∈ added, 0 < row.2.1) (start : ∀ sender, x.senderNonce.get sender = count sender - 1)
    (continues : Continues count (added.map Prod.fst)) (sender : Address) :
    (added.foldl (fun x row => x.recordTx row.2.1 row.2.2 row.1) x).senderNonce.get sender =
      (count sender + ((added.map Prod.fst).filter (fun tx => tx.sender = sender)).length : Nat) - 1 := by
  induction added generalizing x count with
  | nil => simpa using start sender
  | cons row rest ih =>
    have first : row.1.nonce = count row.1.sender := by
      have own := continues row.1.sender
      simp only [List.map_cons,List.filter_cons,decide_true,if_true,List.length_cons,
        List.range_succ_eq_map,List.cons.injEq] at own
      simpa using own.1
    have height := later row (List.mem_cons_self ..)
    have grown : ∀ a, (x.recordTx row.2.1 row.2.2 row.1).senderNonce.get a =
        ((count a + if row.1.sender = a then 1 else 0 : Nat) : Int) - 1 := by
      intro a
      rw [recordNonce,start row.1.sender,start a,first]
      by_cases same : row.1.sender = a
      · rw [if_pos ⟨height,by omega,same⟩,if_pos same,same]
        omega
      · rw [if_neg (fun all => same all.2.2),if_neg same]
        omega
    rw [List.foldl_cons,ih (fun other inside => later other (List.mem_cons_of_mem _ inside)) grown]
    · by_cases same : row.1.sender = sender
      · simp [same]
        omega
      · simp [same]
    · intro a
      have all := continues a
      by_cases same : row.1.sender = a
      · simp only [List.map_cons,List.filter_cons,same,decide_true,if_true,List.length_cons,
          List.range_succ_eq_map,List.cons.injEq,List.map_map] at all ⊢
        rw [all.2]
        refine List.map_congr_left (fun i _ => ?_)
        simp only [Function.comp_apply]
        omega
      · simpa [List.filter_cons,same] using all

theorem recordOthers {added : List Row} {x : Index} {sender : Address}
    (absent : ∀ row ∈ added, 0 < row.2.1 → row.1.sender ≠ sender) :
    (added.foldl (fun x row => x.recordTx row.2.1 row.2.2 row.1) x).senderNonce.get sender =
      x.senderNonce.get sender := by
  induction added generalizing x with
  | nil => rfl
  | cons row rest ih =>
    rw [List.foldl_cons,ih (fun other inside => absent other (List.mem_cons_of_mem _ inside)),
      recordNonce,if_neg]
    exact fun all => absent row (List.mem_cons_self ..) all.1 all.2.2

end Nonces

end Chronicle

end QbitNetwork
