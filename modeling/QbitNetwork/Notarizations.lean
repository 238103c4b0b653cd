import QbitNetwork.History
import QbitNetwork.Tracking

/-! Notarizations: the answers of the index are those of the chain. -/
namespace QbitNetwork

section Marks
variable [Env]

def notarizationIds (txs : List Transaction) (docHash : String) : List String :=
  (txs.filter (fun tx => tx.txType = .NOTARIZE ∧ tx.payload.documentHash.getD "" = docHash)).map
    Transaction.txId

def notarizationsBy (txs : List Transaction) (sender : Address) : Int :=
  (txs.filter (fun tx => tx.txType = .NOTARIZE ∧ tx.sender = sender)).length

theorem notarizationIdsAppend (xs ys : List Transaction) (h : String) :
    notarizationIds (xs ++ ys) h = notarizationIds xs h ++ notarizationIds ys h := by
  rw [notarizationIds,List.filter_append,List.map_append,notarizationIds,notarizationIds]

theorem notarizationIdsCons (tx : Transaction) (rest : List Transaction) (h : String) :
    notarizationIds (tx :: rest) h = notarizationIds [tx] h ++ notarizationIds rest h :=
  notarizationIdsAppend [tx] rest h

omit [Env] in
theorem notarizationsByAppend (xs ys : List Transaction) (sender : Address) :
    notarizationsBy (xs ++ ys) sender = notarizationsBy xs sender + notarizationsBy ys sender := by
  rw [notarizationsBy,List.filter_append,List.length_append,notarizationsBy,notarizationsBy,Nat.cast_add]

omit [Env] in
theorem notarizationsByCons (tx : Transaction) (rest : List Transaction) (sender : Address) :
    notarizationsBy (tx :: rest) sender = notarizationsBy [tx] sender + notarizationsBy rest sender :=
  notarizationsByAppend [tx] rest sender

omit [Env] in
theorem notarizationsByNonneg (txs : List Transaction) (sender : Address) :
    0 ≤ notarizationsBy txs sender := Int.natCast_nonneg _

theorem notarizationIdsOne (tx : Transaction) (h : String) : notarizationIds [tx] h =
    if tx.txType = .NOTARIZE ∧ tx.payload.documentHash.getD "" = h then [tx.txId] else [] := by
  simp only [notarizationIds]
  split <;> simp_all

omit [Env] in
theorem notarizationsByOne (tx : Transaction) (sender : Address) : notarizationsBy [tx] sender =
    if tx.txType = .NOTARIZE ∧ tx.sender = sender then 1 else 0 := by
  simp only [notarizationsBy]
  split <;> simp_all

namespace Index

structure Marks (lists : String → List String) (counts : Address → Int) (x : Index) : Prop where
  listed : ∀ h ≠ "", x.notarizationsByHash.get h = lists h
  first : ∀ h ≠ "", x.notarizations[h]? = (lists h).head?
  counted : ∀ sender, x.notarizationCount.get sender = counts sender

omit [Env] in
theorem Marks.same {lists : String → List String} {counts : Address → Int} {x y : Index}
    (marks : Marks lists counts x) (byHash : y.notarizationsByHash = x.notarizationsByHash)
    (first : y.notarizations = x.notarizations) (counted : y.notarizationCount = x.notarizationCount) :
    Marks lists counts y :=
  ⟨byHash ▸ marks.listed,first ▸ marks.first,counted ▸ marks.counted⟩

theorem notarizeMarks {lists : String → List String} {counts : Address → Int} {x : Index}
    {tx : Transaction} (marks : Marks lists counts x) :
    Marks (fun h => lists h ++ if tx.payload.documentHash.getD "" = h then [tx.txId] else [])
      (fun sender => counts sender + if tx.sender = sender then 1 else 0) (x.notarize tx) := by
  simp only [notarize]
  by_cases empty : tx.payload.documentHash.getD "" = ""
  · rw [if_pos empty]
    refine ⟨fun h named => ?_,fun h named => ?_,fun sender => ?_⟩
    · rw [marks.listed h named,if_neg (fun same => named (same.symm.trans empty)),List.append_nil]
    · rw [marks.first h named,if_neg (fun same => named (same.symm.trans empty)),List.append_nil]
    · rw [Table.getUpdate]
      split
      · rename_i same
        rw [same,marks.counted]
      · rw [marks.counted,Int.add_zero]
  · rw [if_neg empty]
    refine ⟨fun h named => ?_,fun h named => ?_,fun sender => ?_⟩
    · dsimp only
      rw [Table.getUpdate]
      split
      · rename_i same
        rw [same,marks.listed h named]
      · rw [marks.listed h named,List.append_nil]
    · dsimp only
      have old := marks.first h named
      by_cases same : tx.payload.documentHash.getD "" = h
      · rw [if_pos same,same]
        split
        · rename_i inside
          rw [old]
          cases found : lists h with
          | nil =>
            rw [found] at old
            exact absurd inside ((Dict.absentIff ..).mp old)
          | cons first rest => rfl
        · rename_i absent
          rw [← Dict.absentIff,old,List.head?_eq_none_iff] at absent
          rw [absent]
          simp
      · rw [if_neg same,List.append_nil,← old]
        split
        · rfl
        · rw [Std.ExtTreeMap.getElem?_insert,if_neg (by simpa using same)]
    · rw [Table.getUpdate]
      split
      · rename_i same
        rw [same,marks.counted]
      · rw [marks.counted,Int.add_zero]

theorem enterMarks {lists : String → List String} {counts : Address → Int} {x : Index} {idx : Int}
    {row : Transaction × Nat} (marks : Marks lists counts x) :
    Marks (fun h => lists h ++ notarizationIds [row.1] h)
      (fun sender => counts sender + notarizationsBy [row.1] sender) (enter idx x row) := by
  have recorded : Marks lists counts (x.recordTx idx row.2 row.1) := by
    simp only [recordTx,raiseNonce]
    split <;> exact marks.same rfl rfl rfl
  unfold enter
  by_cases kind : row.1.txType = .NOTARIZE
  · have entered := @notarizeMarks _ _ _ _ row.1 recorded
    have applied : (x.recordTx idx row.2 row.1).applyTx row.1 =
        (x.recordTx idx row.2 row.1).notarize row.1 := by
      simp only [applyTx,kind]
    rw [applied]
    refine ⟨fun h named => (entered.listed h named).trans ?_,fun h named => (entered.first h named).trans ?_,
      fun sender => (entered.counted sender).trans ?_⟩
    · simp only [notarizationIdsOne,kind,true_and]
    · simp only [notarizationIdsOne,kind,true_and]
    · simp only [notarizationsByOne,kind,true_and]
  · simp only [notarizationIdsOne,notarizationsByOne,kind,false_and,if_false,List.append_nil,Int.add_zero]
    unfold applyTx
    split
    · next same => exact absurd same kind
    · simp only [registerKey]
      split <;> exact recorded.same rfl rfl rfl
    · exact recorded

theorem enterAllMarks {idx : Int} {rows : List (Transaction × Nat)} {lists : String → List String}
    {counts : Address → Int} {x : Index} (marks : Marks lists counts x) :
    Marks (fun h => lists h ++ notarizationIds (rows.map Prod.fst) h)
      (fun sender => counts sender + notarizationsBy (rows.map Prod.fst) sender)
      (rows.foldl (enter idx) x) := by
  induction rows generalizing lists counts x with
  | nil =>
    refine ⟨fun h named => (marks.listed h named).trans ?_,fun h named => (marks.first h named).trans ?_,
      fun sender => (marks.counted sender).trans ?_⟩ <;> simp [notarizationIds,notarizationsBy]
  | cons row rest ih =>
    have later := ih (@enterMarks _ _ _ _ idx row marks)
    refine ⟨fun h named => (later.listed h named).trans ?_,fun h named => (later.first h named).trans ?_,
      fun sender => (later.counted sender).trans ?_⟩
    · rw [List.map_cons,notarizationIdsCons row.1 (rest.map Prod.fst),List.append_assoc]
    · rw [List.map_cons,notarizationIdsCons row.1 (rest.map Prod.fst),List.append_assoc]
    · rw [List.map_cons,notarizationsByCons row.1 (rest.map Prod.fst),Int.add_assoc]

theorem undoNotarizeMarks {lists rest : String → List String} {counts : Address → Int} {x : Index}
    {tx : Transaction}
    (marks : Marks (fun h => lists h ++ ((if tx.payload.documentHash.getD "" = h then [tx.txId] else []) ++ rest h))
      (fun sender => counts sender + if tx.sender = sender then 1 else 0) x)
    (fresh : ∀ h, tx.txId ∉ lists h) (nonneg : ∀ sender, 0 ≤ counts sender) :
    Marks (fun h => lists h ++ rest h) counts (x.undoNotarize tx) := by
  have counted : ∀ sender, (x.notarizationCount.update tx.sender (fun count => max 0 (count - 1))).get sender =
      counts sender := by
    intro sender
    have before := marks.counted sender
    have least := nonneg sender
    rw [Table.getUpdate]
    split
    · rename_i same
      rw [← same] at before least ⊢
      rw [if_pos rfl] at before
      omega
    · rename_i other
      rw [if_neg other] at before
      omega
  simp only [undoNotarize]
  by_cases empty : tx.payload.documentHash.getD "" = ""
  · rw [if_pos empty]
    refine ⟨fun h named => ?_,fun h named => ?_,counted⟩
    · rw [marks.listed h named,if_neg (fun same => named (same.symm.trans empty)),List.nil_append]
    · rw [marks.first h named,if_neg (fun same => named (same.symm.trans empty)),List.nil_append]
  · rw [if_neg empty]
    generalize tx.payload.documentHash.getD "" = dh at *
    have erased : (x.notarizationsByHash.get dh).erase tx.txId = lists dh ++ rest dh := by
      rw [marks.listed dh empty,if_pos rfl,List.erase_append_right _ (fresh dh),List.singleton_append,
        List.erase_cons_head]
    have heads : x.notarizations[dh]? = (lists dh ++ tx.txId :: rest dh).head? := by
      rw [marks.first dh empty,if_pos rfl,List.singleton_append]
    refine ⟨fun h named => ?_,fun h named => ?_,counted⟩
    · dsimp only
      rw [Table.getSet]
      split
      · rename_i same
        rw [← same,erased]
      · rename_i other
        rw [marks.listed h named,if_neg other,List.nil_append]
    · dsimp only
      rw [erased]
      by_cases same : dh = h
      · subst same
        cases found : lists dh with
        | nil =>
          rw [found,List.nil_append,List.head?_cons] at heads
          rw [if_pos heads,List.nil_append]
          cases rest dh with
          | nil => simp
          | cons first others => simp
        | cons first others =>
          rw [found,List.cons_append,List.head?_cons] at heads
          have other : first ≠ tx.txId := fun same => fresh dh (by rw [found,same]; simp)
          have inside : dh ∈ x.notarizations := Std.ExtTreeMap.mem_iff_isSome_getElem?.mpr (by simp [heads])
          rw [if_neg (by rw [heads]; simpa using other),List.cons_append]
          dsimp only
          rw [if_pos inside,heads]
          rfl
      · have kept := marks.first h named
        rw [if_neg same,List.nil_append] at kept
        rw [← kept]
        have skipped : ∀ d : Dict String String, d = x.notarizations ∨ d = x.notarizations.erase dh →
            d[h]? = x.notarizations[h]? := by
          rintro _ (rfl | rfl)
          · rfl
          · rw [Std.ExtTreeMap.getElem?_erase,if_neg (by simpa using same)]
        have either : (if x.notarizations[dh]? = some tx.txId then x.notarizations.erase dh else x.notarizations) =
            x.notarizations ∨
            (if x.notarizations[dh]? = some tx.txId then x.notarizations.erase dh else x.notarizations) =
              x.notarizations.erase dh := by
          split
          · exact .inr rfl
          · exact .inl rfl
        generalize (if x.notarizations[dh]? = some tx.txId then x.notarizations.erase dh else x.notarizations) = d
          at either
        split
        · split
          · exact skipped d either
          · rw [Std.ExtTreeMap.getElem?_insert,if_neg (by simpa using same)]
            exact skipped d either
        · exact skipped d either

theorem leaveMarks {lists : String → List String} {counts : Address → Int} {x : Index}
    {tx : Transaction} {rest : List Transaction}
    (marks : Marks (fun h => lists h ++ notarizationIds (tx :: rest) h)
      (fun sender => counts sender + notarizationsBy (tx :: rest) sender) x)
    (fresh : ∀ h, tx.txId ∉ lists h) (nonneg : ∀ sender, 0 ≤ counts sender) :
    Marks (fun h => lists h ++ notarizationIds rest h)
      (fun sender => counts sender + notarizationsBy rest sender) (Blockchain.unindex x tx) := by
  have forgotten : Marks (fun h => lists h ++ notarizationIds (tx :: rest) h)
      (fun sender => counts sender + notarizationsBy (tx :: rest) sender) (x.forgetTx tx) :=
    marks.same rfl rfl rfl
  simp only [Blockchain.unindex]
  by_cases kind : tx.txType = .NOTARIZE
  · have undone : (x.forgetTx tx).undoTx tx = (x.forgetTx tx).undoNotarize tx := by
      simp only [undoTx,kind]
    rw [undone]
    refine undoNotarizeMarks ⟨fun h named => ?_,fun h named => ?_,fun sender => ?_⟩ fresh
      (fun sender => Int.add_nonneg (nonneg sender) (notarizationsByNonneg rest sender))
    · rw [forgotten.listed h named,notarizationIdsCons,notarizationIdsOne]
      simp only [kind,true_and]
    · rw [forgotten.first h named,notarizationIdsCons,notarizationIdsOne]
      simp only [kind,true_and]
    · rw [forgotten.counted sender,notarizationsByCons,notarizationsByOne]
      simp only [kind,true_and]
      omega
  · simp only [notarizationIdsCons tx rest,notarizationsByCons tx rest,notarizationIdsOne,notarizationsByOne,
      kind,false_and,if_false,List.nil_append,Int.zero_add] at forgotten
    unfold undoTx
    split
    · next same => exact absurd same kind
    · simp only [undoRegisterKey]
      split <;> exact forgotten.same rfl rfl rfl
    · exact forgotten

theorem leaveAllMarks {txs : List Transaction} {lists : String → List String} {counts : Address → Int}
    {x : Index} (marks : Marks (fun h => lists h ++ notarizationIds txs h)
      (fun sender => counts sender + notarizationsBy txs sender) x)
    (fresh : ∀ tx ∈ txs, ∀ h, tx.txId ∉ lists h) (nonneg : ∀ sender, 0 ≤ counts sender) :
    Marks lists counts (txs.foldl Blockchain.unindex x) := by
  induction txs generalizing x with
  | nil =>
    refine ⟨fun h named => (marks.listed h named).trans ?_,fun h named => (marks.first h named).trans ?_,
      fun sender => (marks.counted sender).trans ?_⟩ <;> simp [notarizationIds,notarizationsBy]
  | cons tx rest ih =>
    exact ih (leaveMarks marks (fresh tx (List.mem_cons_self ..)) nonneg)
      (fun other inside => fresh other (List.mem_cons_of_mem _ inside))

theorem enterAllLocated {idx : Int} {rows : List (Transaction × Nat)} {x : Index} (txId : String) :
    (∃ row ∈ rows, row.1.txId = txId ∧
      (rows.foldl (enter idx) x).txById[txId]? = some (idx,(row.2 : Int))) ∨
    ((∀ row ∈ rows, row.1.txId ≠ txId) ∧
      (rows.foldl (enter idx) x).txById[txId]? = x.txById[txId]?) := by
  induction rows generalizing x with
  | nil => exact .inr ⟨by simp,rfl⟩
  | cons row rest ih =>
    have here : (enter idx x row).txById = x.txById.insert row.1.txId (idx,(row.2 : Int)) := by
      have core := applyTxCore (x.recordTx idx row.2 row.1) row.1
      refine (congrArg Index.txById core).trans ?_
      simp only [recordTx,raiseNonce]
      split <;> rfl
    rcases @ih (enter idx x row) with ⟨other,inside,same,found⟩ | ⟨absent,found⟩
    · exact .inl ⟨other,List.mem_cons_of_mem _ inside,same,found⟩
    · rw [here,Std.ExtTreeMap.getElem?_insert] at found
      by_cases same : row.1.txId = txId
      · rw [if_pos (by simpa using same)] at found
        exact .inl ⟨row,List.mem_cons_self ..,same,found⟩
      · rw [if_neg (by simpa using same)] at found
        refine .inr ⟨fun other inside => ?_,found⟩
        rcases List.mem_cons.mp inside with rfl | inside
        · exact same
        · exact absent other inside

theorem enterAllKnown {idx : Int} {rows : List (Transaction × Nat)} {x : Index} (txId : String) :
    txId ∈ (rows.foldl (enter idx) x).chainTxIds ↔
      txId ∈ x.chainTxIds ∨ ∃ row ∈ rows, row.1.txId = txId := by
  induction rows generalizing x with
  | nil => simp
  | cons row rest ih =>
    have here : (enter idx x row).chainTxIds = x.chainTxIds.insert row.1.txId := by
      have core := applyTxCore (x.recordTx idx row.2 row.1) row.1
      refine (congrArg Index.chainTxIds core).trans ?_
      simp only [recordTx,raiseNonce]
      split <;> rfl
    rw [List.foldl_cons,ih,here,DSet.memInsert,List.exists_mem_cons_iff,← or_assoc]
    exact or_congr_left (or_comm.trans (or_congr_right eq_comm))

theorem unindexOthers {txs : List Transaction} {x : Index} {txId : String}
    (other : ∀ tx ∈ txs, tx.txId ≠ txId) :
    (txs.foldl Blockchain.unindex x).txById[txId]? = x.txById[txId]? ∧
      (txId ∈ x.chainTxIds → txId ∈ (txs.foldl Blockchain.unindex x).chainTxIds) := by
  induction txs generalizing x with
  | nil => exact ⟨rfl,id⟩
  | cons tx rest ih =>
    have different := other tx (List.mem_cons_self ..)
    obtain ⟨located,known⟩ := @ih (Blockchain.unindex x tx)
      (fun tx inside => other tx (List.mem_cons_of_mem _ inside))
    have core := undoTxCore (x.forgetTx tx) tx
    refine ⟨located.trans ?_,fun inside => known ?_⟩
    · rw [show (Blockchain.unindex x tx).txById = x.txById.erase tx.txId from congrArg Index.txById core,
        Std.ExtTreeMap.getElem?_erase,if_neg (by simpa using different)]
    · rw [show (Blockchain.unindex x tx).chainTxIds = x.chainTxIds.erase tx.txId from
        congrArg Index.chainTxIds core,DSet.memErase]
      exact ⟨Ne.symm different,inside⟩

end Index

end Marks

namespace ChainState
variable [Env]

theorem applyBlockIndex {block : Block} {idx : Int} {s s' : ChainState}
    (run : s.applyBlock block idx = .ok s') :
    s'.index = block.transactions.zipIdx.foldl (Index.enter idx) s.index := by
  simp only [applyBlock,Outcome.bindOk] at run
  obtain ⟨opened,opening,looped,loop,reward⟩ := run
  have first := openBlockApart s idx
  have last := payRewardApart looped block idx
  rw [opening] at first
  rw [reward] at last
  refine last.index.trans (Eq.trans ?_
    (congrArg (fun x => block.transactions.zipIdx.foldl (Index.enter idx) x) first.index))
  refine Outcome.foldSimulates ChainState.index (Index.enter idx) (fun s row t step => ?_) loop
  simp only [applyTx,Outcome.bindOk,Outcome.withinOk] at step
  obtain ⟨mid,charged,_,⟨staking,-,rfl⟩,tokens,-,rfl⟩ := step
  have same : mid.index = s.index.recordTx idx row.2 row.1 := by
    unfold chargeTx at charged
    split at charged
    · obtain ⟨ledger,-,rfl⟩ := (Outcome.withinOk ..).mp charged
      rfl
    · cases charged
      rfl
  show mid.index.applyTx row.1 = _
  rw [same,Index.enter]

end ChainState

namespace Blockchain
variable [Env]

structure Verification where
  txId : String
  blockIndex : Int
  blockHash : String
  timestamp : Int
  sender : Address

def verifyDocument (s : Blockchain) (documentHash : String) : Option Verification := do
  let txId ← s.state.index.notarizations[documentHash]?
  if txId = "" then none
  else
    let tx ← s.getTx txId
    let blockIndex ← s.getTxBlock txId
    let block ← s.getBlockByIndex blockIndex
    some { txId, blockIndex, blockHash := block.blockHash, timestamp := tx.timestamp, sender := tx.sender }

structure Notarized (chain : List Block) (x : Index) : Prop where
  marks : Index.Marks (notarizationIds (chain.flatMap Block.transactions))
    (notarizationsBy (chain.flatMap Block.transactions)) x
  known : ∀ tx ∈ chain.flatMap Block.transactions, tx.txId ∈ x.chainTxIds
  apart : chain.Pairwise (fun a b => ∀ tx ∈ a.transactions, ∀ other ∈ b.transactions, tx.txId ≠ other.txId)
  distinct : ∀ (i : Nat) (block : Block), chain[i]? = some block → 0 < i →
    (block.transactions.map Transaction.txId).Nodup
  located : ∀ (i : Nat) (block : Block), chain[i]? = some block → ∀ tx ∈ block.transactions,
    ∃ (j : Nat) (found : Transaction), x.txById[tx.txId]? = some ((i : Int),(j : Int)) ∧
      block.transactions[j]? = some found ∧ found.txId = tx.txId

theorem notarizedBegins : Notarized [] {} := by
  refine ⟨⟨fun h _ => rfl,fun h _ => ?_,fun sender => rfl⟩,by simp,.nil,by simp,by simp⟩
  simp [notarizationIds]

theorem notarizedEnter {chain : List Block} {block : Block} {x : Index} (notarized : Notarized chain x)
    (fresh : ∀ tx ∈ block.transactions, ∀ other ∈ chain.flatMap Block.transactions,
      other.txId ≠ tx.txId)
    (distinct : chain ≠ [] → (block.transactions.map Transaction.txId).Nodup) :
    Notarized (chain ++ [block]) (x.enterBlock (block,chain.length)) := by
  have all : (chain ++ [block]).flatMap Block.transactions =
      chain.flatMap Block.transactions ++ block.transactions := by simp
  have marks := @Index.enterAllMarks _ (chain.length : Int) block.transactions.zipIdx _ _ _ notarized.marks
  refine ⟨⟨fun h named => ?_,fun h named => ?_,fun sender => ?_⟩,fun tx inside => ?_,?_,?_,?_⟩
  · refine (marks.listed h named).trans ?_
    rw [all,notarizationIdsAppend,List.zipIdx_map_fst]
  · refine (marks.first h named).trans ?_
    rw [all,notarizationIdsAppend,List.zipIdx_map_fst]
  · refine (marks.counted sender).trans ?_
    rw [all,notarizationsByAppend,List.zipIdx_map_fst]
  · rw [all] at inside
    refine Index.enterAllKnown tx.txId |>.mpr ?_
    rcases List.mem_append.mp inside with old | new
    · exact .inl (notarized.known tx old)
    · obtain ⟨j,found⟩ := List.mem_iff_getElem?.mp new
      exact .inr ⟨(tx,j),List.mem_zipIdx_iff_getElem?.mpr found,rfl⟩
  · refine List.pairwise_append.mpr ⟨notarized.apart,List.pairwise_singleton ..,fun a above b here => ?_⟩
    rw [List.mem_singleton.mp here]
    exact fun tx own other inside => fresh other inside tx (List.mem_flatMap.mpr ⟨a,above,own⟩)
  · intro i other found later
    rw [List.getElem?_append] at found
    split at found
    · exact notarized.distinct i other found later
    · have started : chain ≠ [] := by
        rintro rfl
        have := (List.getElem?_eq_some_iff.mp found).1
        simp only [List.length_nil,List.length_singleton] at this
        omega
      rw [List.mem_singleton.mp (List.mem_of_getElem? found)]
      exact distinct started
  · intro i other found tx inside
    rw [List.getElem?_append] at found
    split at found
    · obtain ⟨j,here,place,inBlock,same⟩ := notarized.located i other found tx inside
      refine ⟨j,here,?_,inBlock,same⟩
      rcases @Index.enterAllLocated _ (chain.length : Int) block.transactions.zipIdx x tx.txId
        with ⟨row,listed,mined,-⟩ | ⟨-,kept⟩
      · refine absurd mined.symm (fresh row.1 (List.fst_mem_of_mem_zipIdx listed) tx ?_)
        exact List.mem_flatMap.mpr ⟨other,List.mem_of_getElem? found,inside⟩
      · exact kept.trans place
    · have last : i = chain.length := by
        have := (List.getElem?_eq_some_iff.mp found).1
        simp only [List.length_singleton] at this
        omega
      have same : other = block := List.mem_singleton.mp (List.mem_of_getElem? found)
      subst same last
      rcases @Index.enterAllLocated _ (chain.length : Int) other.transactions.zipIdx x tx.txId
        with ⟨row,listed,mined,kept⟩ | ⟨absent,-⟩
      · exact ⟨row.2,row.1,kept,List.mem_zipIdx_iff_getElem?.mp listed,mined⟩
      · obtain ⟨j,there⟩ := List.mem_iff_getElem?.mp inside
        exact absurd rfl (absent (tx,j) (List.mem_zipIdx_iff_getElem?.mpr there))

theorem notarizedAppend {chain : List Block} {block : Block} {s : Blockchain} {c : ChainState}
    (notarized : Notarized chain s.state.index)
    (checked : chain ≠ [] → s.transactionsCheck block = .ok ())
    (applied : s.state.applyBlock block chain.length = .ok c) : Notarized (chain ++ [block]) c.index := by
  rw [ChainState.applyBlockIndex applied]
  refine notarizedEnter notarized (fun tx inside other listed same => ?_) (fun started => ?_)
  · have started : chain ≠ [] := by
      rintro rfl
      cases listed
    refine (transactionsCheckMem (checked started) tx inside).fresh ?_
    rw [← same]
    exact notarized.known other listed
  · obtain ⟨seen,loop,-⟩ := Outcome.bindOk .. |>.mp (checked started)
    have tracks := foldTracks tracksStart loop
    simpa using tracks.distinct

theorem notarizedOfChain {chain : List Block}
    (apart : chain.Pairwise (fun a b => ∀ tx ∈ a.transactions, ∀ other ∈ b.transactions, tx.txId ≠ other.txId))
    (distinct : ∀ (i : Nat) (block : Block), chain[i]? = some block → 0 < i →
      (block.transactions.map Transaction.txId).Nodup) : Notarized chain (Index.ofChain chain) := by
  induction chain using List.reverseRecOn with
  | nil => exact notarizedBegins
  | append_singleton prior block ih =>
    obtain ⟨lower,-,across⟩ := List.pairwise_append.mp apart
    rw [Index.ofChainAppend]
    refine notarizedEnter (ih lower (fun i other found => distinct i other ?_)) ?_ (fun started => ?_)
    · rw [List.getElem?_append_left (List.getElem?_eq_some_iff.mp found).1,found]
    · intro tx inside other listed
      obtain ⟨above,mem,own⟩ := List.mem_flatMap.mp listed
      exact across above mem block (List.mem_singleton_self block) other own tx inside
    · exact distinct prior.length block (by simp) (List.length_pos_iff.mpr started)

theorem notarizedRestamp {prior : List Block} {old block : Block} {x : Index}
    (notarized : Notarized (prior ++ [old]) x) (same : block.transactions = old.transactions) :
    Notarized (prior ++ [block]) x := by
  have all : (prior ++ [block]).flatMap Block.transactions = (prior ++ [old]).flatMap Block.transactions := by
    simp [same]
  have swap : ∀ (i : Nat) (other : Block), (prior ++ [block])[i]? = some other →
      ∃ before, (prior ++ [old])[i]? = some before ∧ other.transactions = before.transactions := by
    intro i other found
    rw [List.getElem?_append] at found ⊢
    split at found
    · rename_i below
      exact ⟨other,by rw [if_pos below,found],rfl⟩
    · rename_i above
      rw [if_neg above]
      cases position : i - prior.length with
      | zero =>
        rw [position] at found
        cases found
        exact ⟨old,rfl,same⟩
      | succ n =>
        rw [position] at found
        cases found
  refine ⟨all ▸ notarized.marks,all ▸ notarized.known,?_,?_,?_⟩
  · obtain ⟨lower,-,across⟩ := List.pairwise_append.mp notarized.apart
    refine List.pairwise_append.mpr ⟨lower,List.pairwise_singleton ..,fun a above b here => ?_⟩
    rw [List.mem_singleton.mp here,same]
    exact across a above old (List.mem_singleton_self old)
  · intro i other found later
    obtain ⟨before,there,equal⟩ := swap i other found
    rw [equal]
    exact notarized.distinct i before there later
  · intro i other found tx inside
    obtain ⟨before,there,equal⟩ := swap i other found
    rw [equal] at inside ⊢
    exact notarized.located i before there tx inside

theorem notarizedDrop {prior : List Block} {block : Block} {t u : Blockchain}
    (notarized : Notarized (prior ++ [block]) t.state.index) (taken : Taken block t u) :
    Notarized prior u.state.index := by
  obtain ⟨senderNonce,index⟩ := taken.index
  obtain ⟨lower,-,across⟩ := List.pairwise_append.mp notarized.apart
  have fresh : ∀ tx ∈ block.transactions, ∀ other ∈ prior.flatMap Block.transactions,
      tx.txId ≠ other.txId := by
    intro tx inside other listed
    obtain ⟨above,mem,own⟩ := List.mem_flatMap.mp listed
    exact Ne.symm (across above mem block (List.mem_singleton_self block) other own tx inside)
  have all : (prior ++ [block]).flatMap Block.transactions =
      prior.flatMap Block.transactions ++ block.transactions := by simp
  have above : Index.Marks
      (fun h => notarizationIds (prior.flatMap Block.transactions) h ++ notarizationIds block.transactions h)
      (fun sender => notarizationsBy (prior.flatMap Block.transactions) sender +
        notarizationsBy block.transactions sender) t.state.index := by
    have marks := notarized.marks
    rw [all] at marks
    exact ⟨fun h named => (marks.listed h named).trans (notarizationIdsAppend ..),
      fun h named => (marks.first h named).trans (congrArg List.head? (notarizationIdsAppend ..)),
      fun sender => (marks.counted sender).trans (notarizationsByAppend ..)⟩
  have marks := Index.leaveAllMarks above (fun tx inside h listed => by
    obtain ⟨other,chosen,same⟩ := List.mem_map.mp listed
    exact fresh tx inside other (List.mem_of_mem_filter chosen) same.symm)
    (notarizationsByNonneg (prior.flatMap Block.transactions))
  refine ⟨?_,fun tx inside => ?_,lower,fun i other found => ?_,fun i other found tx inside => ?_⟩
  · rw [index]
    exact marks.same rfl rfl rfl
  · rw [index]
    refine (Index.unindexOthers (fun other own => fresh other own tx inside)).2 (notarized.known tx ?_)
    rw [all]
    exact List.mem_append_left _ inside
  · refine notarized.distinct i other ?_
    rw [List.getElem?_append_left (List.getElem?_eq_some_iff.mp found).1,found]
  · rw [index]
    obtain ⟨j,here,place,inBlock,same⟩ := notarized.located i other
      (by rw [List.getElem?_append_left (List.getElem?_eq_some_iff.mp found).1,found]) tx inside
    have listed := List.mem_flatMap.mpr ⟨other,List.mem_of_getElem? found,inside⟩
    exact ⟨j,here,(Index.unindexOthers (fun other own => fresh other own tx listed)).1.trans place,inBlock,same⟩

theorem notarizedLaw {meets : List Block → Block → Prop} :
    Law meets (fun chain c => Notarized chain c.index) where
  begins := notarizedBegins
  frame := by
    intro chain c c' notarized index _
    unfold SameIndex at index
    refine ⟨?_,fun tx inside => ?_,notarized.apart,notarized.distinct,?_⟩
    · rw [index]
      exact notarized.marks.same rfl rfl rfl
    · rw [index]
      exact notarized.known tx inside
    · rw [index]
      exact notarized.located
  append := fun notarized checked _ applied =>
    notarizedAppend notarized (fun started => (checked started).1) applied
  restamp := fun notarized same _ => notarizedRestamp notarized same
  drop := notarizedDrop
  reload := fun notarized index _ => index ▸ notarizedOfChain notarized.apart notarized.distinct

def notarizes (documentHash : String) (tx : Transaction) : Bool :=
  tx.txType = .NOTARIZE ∧ tx.payload.documentHash.getD "" = documentHash

structure Answers (chain : List Block) (s : Blockchain) : Prop where
  listed : ∀ h ≠ "", s.state.index.notarizationsByHash.get h =
    ((chain.flatMap Block.transactions).filter (notarizes h)).map Transaction.txId
  first : ∀ h ≠ "", s.state.index.notarizations[h]? =
    ((chain.flatMap Block.transactions).find? (notarizes h)).map Transaction.txId
  counted : ∀ sender, s.state.index.notarizationCount.get sender =
    ((chain.flatMap Block.transactions).filter (fun tx => tx.txType = .NOTARIZE ∧ tx.sender = sender)).length
  verified : ∀ h ≠ "", ∀ earliest, (chain.flatMap Block.transactions).find? (notarizes h) = some earliest →
    ∃ (i : Nat) (block : Block) (tx : Transaction), chain[i]? = some block ∧ earliest ∈ block.transactions ∧
      tx ∈ block.transactions ∧ tx.txId = earliest.txId ∧ (0 < i → tx = earliest) ∧
      s.verifyDocument h = some
        { txId := earliest.txId, blockIndex := i, blockHash := block.blockHash, timestamp := tx.timestamp,
          sender := tx.sender }
  unverified : ∀ h ≠ "", s.verifyDocument h = none ↔
    ∀ tx ∈ chain.flatMap Block.transactions, notarizes h tx = false

theorem txIdNonempty (tx : Transaction) : tx.txId ≠ "" := by
  intro empty
  have bytes : tx.txHash = [] := hexInjective empty
  have length := Env.sha3_256Length tx.signableBytes
  rw [show sha3_256 tx.signableBytes = [] from bytes] at length
  cases length

theorem idsFirst (txs : List Transaction) (h : String) :
    (notarizationIds txs h).head? = (txs.find? (notarizes h)).map Transaction.txId := by
  rw [notarizationIds,List.head?_map]
  exact congrArg (Option.map Transaction.txId) (List.head?_filter ..)

theorem verifyDocumentFound {chain : List Block} {s : Blockchain} (notarized : Notarized chain s.state.index)
    (held : Held chain s) {h : String} (named : h ≠ "") {earliest : Transaction}
    (found : (chain.flatMap Block.transactions).find? (notarizes h) = some earliest) :
    ∃ (i : Nat) (block : Block) (tx : Transaction), chain[i]? = some block ∧ earliest ∈ block.transactions ∧
      tx ∈ block.transactions ∧ tx.txId = earliest.txId ∧ (0 < i → tx = earliest) ∧
      s.verifyDocument h = some
        { txId := earliest.txId, blockIndex := i, blockHash := block.blockHash, timestamp := tx.timestamp,
          sender := tx.sender } := by
  obtain ⟨block,mined,inside⟩ := List.mem_flatMap.mp (List.mem_of_find?_eq_some found)
  obtain ⟨i,position⟩ := List.mem_iff_getElem?.mp mined
  obtain ⟨j,tx,place,inBlock,same⟩ := notarized.located i block position earliest inside
  have listed := List.mem_of_getElem? inBlock
  refine ⟨i,block,tx,position,inside,listed,same,fun later => ?_,?_⟩
  · exact List.inj_on_of_nodup_map (notarized.distinct i block position later) listed inside same
  · have first : s.state.index.notarizations[h]? = some earliest.txId := by
      rw [notarized.marks.first h named,idsFirst,found,Option.map_some]
    have stored : s.getBlockByIndex i = some block := by
      rw [getBlockByIndex,Backend.getBlockHolds held.holds,listAtNat,position]
    have located : s.getTx earliest.txId = some tx := by
      simp only [getTx,place,Option.bind_eq_bind,Option.bind_some,stored,listAtNat,inBlock]
    simp only [verifyDocument,first,Option.bind_eq_bind,Option.bind_some,if_neg (txIdNonempty earliest),
      located,getTxBlock,place,Option.map_some,stored]

theorem notarizationAnswers {chain : List Block} {s : Blockchain}
    (history : History (fun _ _ => True) chain s) : Answers chain s := by
  obtain ⟨notarized,held⟩ := historyLaw notarizedLaw history
  refine ⟨notarized.marks.listed,fun h named => ?_,notarized.marks.counted,
    fun h named earliest found => verifyDocumentFound notarized held named found,fun h named => ?_⟩
  · rw [notarized.marks.first h named,idsFirst]
  · cases found : (chain.flatMap Block.transactions).find? (notarizes h) with
    | none =>
      refine ⟨fun _ tx inside => ?_,fun _ => ?_⟩
      · simpa using List.find?_eq_none.mp found tx inside
      · have first := notarized.marks.first h named
        rw [idsFirst,found] at first
        simp only [verifyDocument,first,Option.map_none,Option.bind_eq_bind,Option.bind_none]
    | some earliest =>
      obtain ⟨i,block,tx,-,-,-,-,-,answer⟩ := verifyDocumentFound notarized held named found
      refine ⟨fun unverified => ?_,fun quiet => ?_⟩
      · rw [answer] at unverified
        cases unverified
      · have chosen := List.find?_some found
        rw [quiet earliest (List.mem_of_find?_eq_some found)] at chosen
        cases chosen

end Blockchain

namespace Devnet
attribute [local instance] legacy
open Blockchain

theorem notarizedAnswers : Answers [genesis.tipBlock,notarized.tipBlock] notarized :=
  notarizationAnswers (notarizedHistory trivial)

end Devnet

end QbitNetwork
