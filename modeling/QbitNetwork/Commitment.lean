import QbitNetwork.AppendLaws

/-! What a rebuilt trie commits to: the rows of the ledger, of the nonces and of the
tokens, whatever the trie held before. -/
namespace QbitNetwork

namespace StateTrie

@[simp] theorem setEntries (t : StateTrie) (key : String) (value : Bytes) :
    (t.set key value).entries = t.entries.insert key value := by
  unfold set
  split
  · rename_i found
    exact (Dict.insertSame _ found).symm
  · rfl

def Marked (t : StateTrie) : Prop := t.entries ≠ ∅ → t.dirty = true

theorem markedSet {t : StateTrie} (marked : t.Marked) (key : String) (value : Bytes) :
    (t.set key value).Marked := by
  unfold set
  split
  · exact marked
  · exact fun _ => rfl

theorem markedClear (t : StateTrie) : t.clearEntries.Marked := fun filled => absurd rfl filled

theorem dirtyFresh [Env] {t : StateTrie} (dirty : t.dirty = true) : t.Fresh := by
  intro clean
  simp [dirty] at clean

end StateTrie

namespace ChainState
variable [Env]

def stateRows (s : ChainState) : List (String × Int) :=
  s.balanceRows ++ s.nonceRows ++ s.tokenRows.map Prod.snd

def insertRow (entries : Dict String Bytes) (row : String × Int) : Dict String Bytes :=
  entries.insert row.1 ((toBytes8 row.2).getD [])

def entriesOf (s : ChainState) : Dict String Bytes := s.stateRows.foldl insertRow ∅

structure Written (t t' : StateTrie) (rows : List (String × Int)) : Prop where
  entries : t'.entries = rows.foldl insertRow t.entries
  fresh : t.Fresh → t'.Fresh
  marked : t.Marked → t'.Marked

omit [Env] in
theorem setRowEntries {t t' : StateTrie} {row : String × Int} (run : setRow t row = .ok t') :
    ∃ value, t' = t.set row.1 value ∧ (toBytes8 row.2).getD [] = value := by
  unfold setRow at run
  split at run
  · rename_i value found
    cases run
    exact ⟨value,rfl,by rw [found]; rfl⟩
  · contradiction

theorem setRowWritten {t t' : StateTrie} {row : String × Int} (run : setRow t row = .ok t') :
    Written t t' [row] := by
  obtain ⟨value,rfl,same⟩ := setRowEntries run
  refine ⟨?_,fun fresh => StateTrie.freshSet fresh _ _,fun marked => StateTrie.markedSet marked _ _⟩
  rw [StateTrie.setEntries,List.foldl_cons,List.foldl_nil,insertRow,same]

theorem Written.trans {t u v : StateTrie} {rows later : List (String × Int)} (first : Written t u rows)
    (second : Written u v later) : Written t v (rows ++ later) where
  entries := by rw [second.entries,first.entries,List.foldl_append]
  fresh := second.fresh ∘ first.fresh
  marked := second.marked ∘ first.marked

theorem writtenRefl (t : StateTrie) : Written t t [] := ⟨rfl,id,id⟩

theorem setRowsWritten {rows : List (String × Int)} {t t' : StateTrie}
    (run : rows.foldlM setRow t = .ok t') : Written t t' rows := by
  induction rows generalizing t with
  | nil => cases run; exact writtenRefl _
  | cons row rest ih =>
    rw [List.foldlM_cons,Outcome.bindOk] at run
    obtain ⟨mid,first,run⟩ := run
    exact (setRowWritten first).trans (ih run)

theorem setTokenRowsWritten {rows : List (TokenId × String × Int)} {t t' : StateTrie}
    (run : rows.foldlM setTokenRow t = .ok t') : Written t t' (rows.map Prod.snd) := by
  induction rows generalizing t with
  | nil => cases run; exact writtenRefl _
  | cons row rest ih =>
    rw [List.foldlM_cons,Outcome.bindOk] at run
    obtain ⟨mid,first,run⟩ := run
    unfold setTokenRow at first
    split at first
    · exact (setRowWritten first).trans (ih run)
    · contradiction

theorem rebuildWritten {s : ChainState} {t t' : StateTrie} (run : s.rebuildStateTrie t = .ok t') :
    Written t.clearEntries t' s.stateRows := by
  simp only [rebuildStateTrie,Outcome.bindOk] at run
  obtain ⟨_,balances,_,nonces,tokens⟩ := run
  exact ((setRowsWritten balances).trans (setRowsWritten nonces)).trans (setTokenRowsWritten tokens)

theorem rebuildEntries {s : ChainState} {t t' : StateTrie} (run : s.rebuildStateTrie t = .ok t') :
    t'.entries = s.entriesOf := (rebuildWritten run).entries

omit [Env] in
theorem foldRowsKeys (rows : List (String × Int)) (entries : Dict String Bytes) (key : String) :
    key ∈ rows.foldl insertRow entries ↔ key ∈ rows.map Prod.fst ∨ key ∈ entries := by
  induction rows generalizing entries with
  | nil => simp
  | cons row rest ih =>
    rw [List.foldl_cons,ih,insertRow,Dict.memInsert,List.map_cons,List.mem_cons]
    tauto

omit [Env] in
theorem entriesKeys (s : ChainState) (key : String) :
    key ∈ s.entriesOf ↔ key ∈ s.stateRows.map Prod.fst := by
  rw [entriesOf,foldRowsKeys]
  simp

omit [Env] in
theorem balanceKeys (s : ChainState) (a : Address) :
    "balance:" ++ a ∈ s.entriesOf ↔ ∃ amount, 0 ≤ amount ∧ s.ledger.balances[a]? = some amount := by
  rw [entriesKeys,stateRows]
  simp only [List.map_append,List.mem_append,List.mem_map]
  constructor
  · rintro ((⟨row,inside,same⟩ | ⟨row,inside,same⟩) | ⟨row,inside,same⟩)
    · obtain ⟨⟨b,amount⟩,found,rfl⟩ := List.mem_map.mp inside
      obtain ⟨found,nonneg⟩ := List.mem_filter.mp found
      have owner : b = a := by simpa using same
      subst owner
      exact ⟨amount,by simpa using nonneg,Std.ExtTreeMap.mem_toList_iff_getElem?_eq_some.mp found⟩
    · obtain ⟨⟨b,nonce⟩,-,rfl⟩ := List.mem_map.mp inside
      have heads := congrArg (fun text : String => text.toList.head?) same
      simp at heads
    · obtain ⟨row,inside,rfl⟩ := inside
      have heads := congrArg (fun text : String => text.toList.head?) same
      rcases List.mem_append.mp inside with held | supply
      · obtain ⟨entry,-,rfl⟩ := List.mem_map.mp held
        simp at heads
      · obtain ⟨entry,-,rfl⟩ := List.mem_map.mp supply
        simp at heads
  · rintro ⟨amount,nonneg,found⟩
    refine .inl (.inl ⟨("balance:" ++ a,amount),?_,rfl⟩)
    refine List.mem_map.mpr ⟨(a,amount),List.mem_filter.mpr ⟨?_,by simpa using nonneg⟩,rfl⟩
    exact Std.ExtTreeMap.mem_toList_iff_getElem?_eq_some.mpr found

end ChainState

namespace Blockchain
variable [Env]

omit [Env] in
theorem openBlockTrie {s s' : Blockchain} {idx : Int} (run : s.openBlock idx = .ok s') :
    s'.trie = s.trie := by
  simp only [openBlock,Outcome.bindOk,Outcome.withinOk] at run
  obtain ⟨_,⟨state,opened,rfl⟩,run⟩ := run
  cases run
  split <;> rfl

theorem applyTxsTrie {s : Blockchain} {block : Block} {idx : Int} {p : Progress}
    (run : s.applyTxs block idx = .ok p) : p.chain.trie = s.trie := by
  refine Outcome.foldInvariant (fun p : Progress => p.chain.trie = s.trie)
    (fun p row p' kept step => ?_) rfl run
  simp only [applyBlockTx,Outcome.bindOk,Outcome.withinOk] at step
  obtain ⟨_,⟨_,⟨state,applied,rfl⟩,rfl⟩,step⟩ := step
  cases step
  exact kept

structure Committed (s : Blockchain) (block : Block) (s' : Blockchain) (c : ChainState)
    (built : StateTrie) : Prop where
  rebuilt : c.rebuildStateTrie s.trie = .ok built
  trie : s'.trie = built.root.2
  stateRoot : s'.lastComputedStateRoot = some (hex built.root.1)
  claimed : block.stateRoot ≠ "" → block.stateRoot = hex built.root.1

theorem settleRoot (s : Blockchain) (block : Block) (idx : Int) (matured : List Address)
    (receipts : List Receipt) (events : List Event) :
    (s.settleBlock block idx matured receipts events).lastComputedStateRoot = s.lastComputedStateRoot ∧
      (s.settleBlock block idx matured receipts events).lastComputedReceiptsRoot =
        s.lastComputedReceiptsRoot ∧
      (s.settleBlock block idx matured receipts events).stateSnapshots =
        (s.saveSnapshot idx).stateSnapshots := by
  simp only [settleBlock]
  obtain ⟨index,log,pruned,-⟩ := pruneCachesOk (s.saveSnapshot idx) idx
  obtain ⟨final,finality,-⟩ := updateFinalityOk ((((s.saveSnapshot idx).pruneCaches
    idx).persistBalancesAfterBlock block idx matured).persistReceipts idx receipts events) idx
  rw [finality,pruned]
  simp only [persistBalancesAfterBlock]
  split <;> exact ⟨rfl,rfl,rfl⟩

theorem appendInnerCommitted {s s' : Blockchain} {block : Block}
    (run : s.appendBlockInner block = .ok s') :
    ∃ c trie, Appended s block s' c ∧ Committed s block s' c trie := by
  obtain ⟨c,appended⟩ := appendInnerOk run
  simp only [appendBlockInner,Outcome.bindOk] at run
  obtain ⟨s1,stored,s2,opened,run⟩ := run
  obtain ⟨backend,rfl,-⟩ := storeBlockOk stored
  split at run
  · contradiction
  · rename_i p applied
    simp only [closeBlock,Outcome.bindOk,Outcome.withinOk] at run
    obtain ⟨_,⟨c',paid,rfl⟩,s4,receipts,s5,root,run⟩ := run
    have whole : s.state.applyBlock block (s.height + 1) = .ok c' := by
      simp only [ChainState.applyBlock,Outcome.bindOk]
      exact ⟨s2.state,(openBlockOk opened).1,p.chain.state,(applyTxsOk applied).1,paid⟩
    obtain rfl : c = c' := Except.ok.inj (appended.applied.symm.trans whole)
    have kept : s4.trie = s.trie := by
      simp only [checkReceiptsRoot] at receipts
      split at receipts
      · contradiction
      · cases receipts
        have trie := (applyTxsTrie applied).trans (openBlockTrie opened)
        exact trie
    obtain ⟨state5,-,trie,rebuilt,trie5,root5,-,-,claimed⟩ := checkStateRootOk root
    have done : Settled s5 s' (s.height + 1) := Except.ok.inj run ▸ settled ..
    have state4 : s4.state = c := (checkReceiptsRootOk receipts).1
    rw [state4,kept] at rebuilt
    refine ⟨c,trie,appended,rebuilt,done.trie.trans trie5,?_,claimed⟩
    rw [← Except.ok.inj run,(settleRoot ..).1,root5]

end Blockchain

end QbitNetwork
