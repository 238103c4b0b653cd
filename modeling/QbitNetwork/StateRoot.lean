import QbitNetwork.Commitment
import QbitNetwork.Lib.Scan
import QbitNetwork.MerkleRoot
import QbitNetwork.Protection
import QbitNetwork.TokenIndices

/-! What a state root binds: the trie's entries, and through them the balances, nonces, token
balances and supplies, up to two of the hashed inputs that collide. -/
namespace QbitNetwork

section Entries
variable [Env]

def entryBytes (row : String × Bytes) : Bytes := encode row.1 ++ row.2

namespace StateTrie

def rootInputs (entries : Dict String Bytes) : List Bytes :=
  if entries.isEmpty then [encode "empty_state"]
  else entries.toList.map entryBytes ++ merkleInputs (sortedLeaves entries)

theorem leavesPresent {entries : Dict String Bytes} (filled : entries.isEmpty = false) :
    sortedLeaves entries ≠ [] := by
  rw [sortedLeaves,Ne,List.map_eq_nil_iff]
  intro none
  have empty : entries = ∅ := by
    rw [← Std.ExtTreeMap.toList_inj,none]
    rfl
  rw [empty] at filled
  cases filled

end StateTrie

omit [Env] in
theorem entryBytesInjective {row row' : String × Bytes} (width : row.2.length = row'.2.length)
    (same : entryBytes row = entryBytes row') : row = row' := by
  obtain ⟨keys,values⟩ := List.append_inj' same width
  exact Prod.ext (encodeInjective keys) values

namespace StateTrie

theorem leavesBind {entries entries' : Dict String Bytes}
    (width : ∀ row ∈ entries.toList, row.2.length = 8) (width' : ∀ row ∈ entries'.toList, row.2.length = 8)
    (same : sortedLeaves entries = sortedLeaves entries') :
    entries = entries' ∨
      Merkle.Collides sha3_256 (entries.toList.map entryBytes) (entries'.toList.map entryBytes) := by
  have hashes : (entries.toList.map entryBytes).map sha3_256 =
      (entries'.toList.map entryBytes).map sha3_256 := by
    rw [List.map_map,List.map_map]
    exact same
  refine (Merkle.listsOrCollides hashes).imp_left (fun bytes => ?_)
  refine Std.ExtTreeMap.toList_inj.mp (List.ext_getElem? (fun i => ?_))
  have there := congrArg (fun rows : List Bytes => rows[i]?) bytes
  simp only [List.getElem?_map] at there
  cases found : entries.toList[i]? with
  | none =>
    rw [found,Option.map_none,eq_comm,Option.map_eq_none_iff] at there
    exact there.symm
  | some row =>
    rw [found,Option.map_some,eq_comm,Option.map_eq_some_iff] at there
    obtain ⟨row',found',same⟩ := there
    have widths := (width' _ (List.mem_of_getElem? found')).trans (width _ (List.mem_of_getElem? found)).symm
    rw [found',entryBytesInjective widths same]

theorem rootBinds {entries entries' : Dict String Bytes}
    (width : ∀ row ∈ entries.toList, row.2.length = 8) (width' : ∀ row ∈ entries'.toList, row.2.length = 8)
    (same : computeRoot entries = computeRoot entries') :
    entries = entries' ∨ Merkle.Collides sha3_256 (rootInputs entries) (rootInputs entries') := by
  have tagged : (encode "empty_state").head? = some 101 := by decide +kernel
  unfold computeRoot at same
  unfold rootInputs
  cases empty : entries.isEmpty <;> cases empty' : entries'.isEmpty
  · rw [empty,empty'] at same
    simp only [Bool.false_eq_true,if_false] at same ⊢
    rcases merkleRootTells (leavesPresent empty) (leavesPresent empty') same with leaves | collides
    · exact (leavesBind width width' leaves).imp_right (fun collides =>
        collides.mono (List.subset_append_left ..) (List.subset_append_left ..))
    · exact .inr (collides.mono (List.subset_append_right ..) (List.subset_append_right ..))
  · rw [empty,empty'] at same
    simp only [Bool.false_eq_true,if_false,if_true] at same ⊢
    obtain ⟨x,hashed,head,root⟩ := merkleRootHashed (leavesPresent empty)
    refine .inr ⟨x,List.mem_append_right _ hashed,_,List.mem_singleton_self _,?_,root.trans same⟩
    rintro rfl
    exact head tagged
  · rw [empty,empty'] at same
    simp only [Bool.false_eq_true,if_false,if_true] at same ⊢
    obtain ⟨x,hashed,head,root⟩ := merkleRootHashed (leavesPresent empty')
    refine .inr ⟨_,List.mem_singleton_self _,x,List.mem_append_right _ hashed,?_,same.trans root.symm⟩
    rintro rfl
    exact head tagged
  · left
    rw [Std.ExtTreeMap.isEmpty_iff] at empty empty'
    rw [empty,empty']

end StateTrie

end Entries

inductive StateKey where
  | balance (a : Address)
  | nonce (a : Address)
  | token (tid : TokenId) (a : Address)
  | supply (tid : TokenId)

namespace StateKey

def text : StateKey → String
  | balance a => "balance:" ++ a
  | nonce a => "nonce:" ++ a
  | token tid a => "token:" ++ tid ++ ":balance:" ++ a
  | supply tid => "token:" ++ tid ++ ":supply"

def Valid : StateKey → Prop
  | token tid _ => ChainState.validTokenId tid = true
  | supply tid => ChainState.validTokenId tid = true
  | _ => True

theorem colonFree {tid : TokenId} (valid : ChainState.validTokenId tid = true) : (58 : UInt8) ∉ encode tid := by
  have notHex : isHexByte 58 = false := by decide
  simp only [ChainState.validTokenId,Bool.and_eq_true,List.all_eq_true] at valid
  intro inside
  unfold dropFinalNewline at valid
  split at valid
  · rename_i newline
    rw [← List.dropLast_append_getLast? _ newline] at inside
    rcases List.mem_append.mp inside with front | last
    · have digit := valid.2 _ front
      rw [notHex] at digit
      cases digit
    · exact absurd (List.mem_singleton.mp last) (by decide)
  · have digit := valid.2 _ inside
    rw [notHex] at digit
    cases digit

def beforeColon (_ : Unit) (b : UInt8) : Option Unit := if b = 58 then none else some ()

theorem tokenPart {tid tid' : TokenId} {rest rest' : Bytes} (valid : ChainState.validTokenId tid = true)
    (valid' : ChainState.validTokenId tid' = true)
    (same : encode tid ++ 58 :: rest = encode tid' ++ 58 :: rest') : tid = tid' ∧ rest = rest' := by
  have word : ∀ {tid : TokenId}, ChainState.validTokenId tid = true →
      (encode tid).foldlM beforeColon () = some () := by
    intro tid valid
    refine Scan.foldSteady beforeColon (fun b inside => if_neg ?_)
    rintro rfl
    exact colonFree valid inside
  have stops : ∀ rest : Bytes, Scan.Stops beforeColon () (58 :: rest) := fun rest =>
    Scan.stopsCons beforeColon rfl
  obtain ⟨ids,rests⟩ := Scan.wordUnique beforeColon (word valid) (word valid') (stops rest) (stops rest') same
  exact ⟨encodeInjective ids,(List.cons.inj rests).2⟩

theorem heldText (tid : TokenId) (a : Address) :
    encode (token tid a).text = encode "token:" ++ (encode tid ++ 58 :: (encode "balance:" ++ encode a)) := by
  have colon : encode ":balance:" = 58 :: encode "balance:" := by decide +kernel
  rw [text,encodeAppend,encodeAppend,encodeAppend,colon]
  simp only [List.append_assoc,List.cons_append]

theorem supplyText (tid : TokenId) :
    encode (supply tid).text = encode "token:" ++ (encode tid ++ 58 :: encode "supply") := by
  have colon : encode ":supply" = 58 :: encode "supply" := by decide +kernel
  rw [text,encodeAppend,encodeAppend,colon,List.append_assoc]

theorem balanceNotSupply (rest : Bytes) : encode "balance:" ++ rest ≠ encode "supply" := by
  rw [show encode "balance:" = 98 :: encode "alance:" by decide +kernel,
    show encode "supply" = 115 :: encode "upply" by decide +kernel,List.cons_append]
  intro same
  cases same

theorem textHead (k : StateKey) : k.text.toList.head? = some (match k with
    | balance _ => 'b'
    | nonce _ => 'n'
    | token _ _ | supply _ => 't') := by
  cases k <;> simp [text]

theorem textInjective : ∀ {k k' : StateKey}, k.Valid → k'.Valid → k.text = k'.text → k = k' := by
  intro k k' valid valid' same
  have heads := (textHead k).symm.trans ((congrArg (fun text : String => text.toList.head?) same).trans
    (textHead k'))
  have bytes := congrArg encode same
  cases k with
  | balance a =>
    cases k' with
    | balance a' => rw [show a = a' by simpa [text] using same]
    | _ => simp at heads
  | nonce a =>
    cases k' with
    | nonce a' => rw [show a = a' by simpa [text] using same]
    | _ => simp at heads
  | token tid a =>
    cases k' with
    | token tid' a' =>
      rw [heldText,heldText] at bytes
      obtain ⟨rfl,rest⟩ := tokenPart valid valid' (List.append_cancel_left bytes)
      rw [encodeInjective (List.append_cancel_left rest)]
    | supply tid' =>
      rw [heldText,supplyText] at bytes
      exact absurd (tokenPart valid valid' (List.append_cancel_left bytes)).2 (balanceNotSupply _)
    | _ => simp at heads
  | supply tid =>
    cases k' with
    | supply tid' =>
      rw [supplyText,supplyText] at bytes
      rw [(tokenPart valid valid' (List.append_cancel_left bytes)).1]
    | token tid' a' =>
      rw [heldText,supplyText] at bytes
      exact absurd (tokenPart valid valid' (List.append_cancel_left bytes)).2.symm (balanceNotSupply _)
    | _ => simp at heads

end StateKey

namespace ChainState
variable (s : ChainState)

def cell : StateKey → Option Int
  | .balance a => s.ledger.balances[a]?.filter (0 ≤ ·)
  | .nonce a => if 0 ≤ s.index.senderNonce.get a then some (s.index.senderNonce.get a) else none
  | .token tid a => s.tokens.balances[(tid,a)]?.filter (0 < ·)
  | .supply tid => s.tokens.registry[tid]?.map TokenMeta.totalMinted

theorem rowsAreCells (row : String × Int) :
    row ∈ s.stateRows ↔ ∃ k : StateKey, k.text = row.1 ∧ s.cell k = some row.2 := by
  obtain ⟨key,value⟩ := row
  simp only [stateRows,balanceRows,nonceRows,tokenRows,List.map_append,List.map_map,List.mem_append,
    List.mem_map,List.mem_filter,Function.comp_apply,Prod.mk.injEq,Prod.exists,decide_eq_true_eq,
    Std.ExtTreeMap.mem_toList_iff_getElem?_eq_some,Table.memItems]
  constructor
  · rintro ((⟨a,v,⟨found,bound⟩,rfl,rfl⟩ | ⟨a,v,⟨found,bound⟩,rfl,rfl⟩) |
      ⟨tid,a,v,⟨found,bound⟩,rfl,rfl⟩ | ⟨tid,info,found,rfl,rfl⟩)
    · exact ⟨.balance a,rfl,by simp [cell,found,bound]⟩
    · exact ⟨.nonce a,rfl,by simp [cell,found.1,bound]⟩
    · exact ⟨.token tid a,rfl,by simp [cell,found,bound]⟩
    · exact ⟨.supply tid,rfl,by simp [cell,found]⟩
  · rintro ⟨k,rfl,held⟩
    cases k with
    | balance a =>
      obtain ⟨found,bound⟩ := Option.filter_eq_some_iff.mp held
      exact .inl (.inl ⟨a,value,⟨found,by simpa using bound⟩,rfl,rfl⟩)
    | nonce a =>
      simp only [cell,Option.ite_none_right_eq_some,Option.some.injEq] at held
      obtain ⟨bound,rfl⟩ := held
      exact .inl (.inr ⟨a,_,⟨⟨rfl,by omega⟩,bound⟩,rfl,rfl⟩)
    | token tid a =>
      obtain ⟨found,bound⟩ := Option.filter_eq_some_iff.mp held
      exact .inr (.inl ⟨tid,a,value,⟨found,by simpa using bound⟩,rfl,rfl⟩)
    | supply tid =>
      obtain ⟨info,found,rfl⟩ := Option.map_eq_some_iff.mp held
      exact .inr (.inr ⟨tid,info,found,rfl,rfl⟩)

theorem foldRowsKept (rows : List (String × Int)) (entries : Dict String Bytes) (key : String)
    (absent : key ∉ rows.map Prod.fst) : (rows.foldl insertRow entries)[key]? = entries[key]? := by
  induction rows generalizing entries with
  | nil => rfl
  | cons row rest ih =>
    rw [List.map_cons,List.mem_cons,not_or] at absent
    rw [List.foldl_cons,ih _ absent.2,insertRow,Std.ExtTreeMap.getElem?_insert,
      if_neg (by simpa using Ne.symm absent.1)]

theorem foldRowsFind (rows : List (String × Int)) (entries : Dict String Bytes) (key : String) (value : Int)
    (agree : ∀ row ∈ rows, row.1 = key → row.2 = value) (inside : key ∈ rows.map Prod.fst) :
    (rows.foldl insertRow entries)[key]? = some ((toBytes8 value).getD []) := by
  induction rows generalizing entries with
  | nil => cases inside
  | cons row rest ih =>
    rw [List.foldl_cons]
    by_cases later : key ∈ rest.map Prod.fst
    · exact ih _ (fun row listed => agree row (List.mem_cons_of_mem _ listed)) later
    · have here : row.1 = key := by
        rw [List.map_cons,List.mem_cons] at inside
        exact (inside.resolve_right later).symm
      rw [foldRowsKept rest _ key later,insertRow,here,agree row (List.mem_cons_self ..) here]
      simp

section Built
variable [Env] {s} {t t' : StateTrie}

omit [Env] in
theorem setRowBytes {row : String × Int} (run : setRow t row = .ok t') : ∃ value, toBytes8 row.2 = some value := by
  unfold setRow at run
  split at run
  · exact ⟨_,by assumption⟩
  · contradiction

omit [Env] in
theorem setTokenRowValid {row : TokenId × String × Int} (run : setTokenRow t row = .ok t') :
    validTokenId row.1 = true ∧ ∃ value, toBytes8 row.2.2 = some value := by
  unfold setTokenRow at run
  split at run
  · exact ⟨by assumption,setRowBytes run⟩
  · contradiction

omit [Env] in
theorem rebuildChecked (run : s.rebuildStateTrie t = .ok t') {k : StateKey} {value : Int}
    (held : s.cell k = some value) : k.Valid ∧ ∃ bytes, toBytes8 value = some bytes := by
  simp only [rebuildStateTrie,Outcome.bindOk] at run
  obtain ⟨_,balances,_,nonces,tokens⟩ := run
  cases k with
  | balance a =>
    obtain ⟨found,bound⟩ := Option.filter_eq_some_iff.mp held
    have listed : ("balance:" ++ a,value) ∈ s.balanceRows :=
      List.mem_map.mpr ⟨(a,value),List.mem_filter.mpr
        ⟨Std.ExtTreeMap.mem_toList_iff_getElem?_eq_some.mpr found,bound⟩,rfl⟩
    obtain ⟨_,_,written⟩ := Outcome.foldStepped balances _ listed
    exact ⟨trivial,setRowBytes written⟩
  | nonce a =>
    simp only [cell,Option.ite_none_right_eq_some,Option.some.injEq] at held
    obtain ⟨bound,rfl⟩ := held
    have listed : ("nonce:" ++ a,s.index.senderNonce.get a) ∈ s.nonceRows :=
      List.mem_map.mpr ⟨(a,_),List.mem_filter.mpr
        ⟨(Table.memItems ..).mpr ⟨rfl,by omega⟩,by simpa using bound⟩,rfl⟩
    obtain ⟨_,_,written⟩ := Outcome.foldStepped nonces _ listed
    exact ⟨trivial,setRowBytes written⟩
  | token tid a =>
    obtain ⟨found,bound⟩ := Option.filter_eq_some_iff.mp held
    have listed : (tid,"token:" ++ tid ++ ":balance:" ++ a,value) ∈ s.tokenRows :=
      List.mem_append_left _ (List.mem_map.mpr ⟨((tid,a),value),List.mem_filter.mpr
        ⟨Std.ExtTreeMap.mem_toList_iff_getElem?_eq_some.mpr found,bound⟩,rfl⟩)
    obtain ⟨_,_,written⟩ := Outcome.foldStepped tokens _ listed
    exact setTokenRowValid written
  | supply tid =>
    obtain ⟨info,found,rfl⟩ := Option.map_eq_some_iff.mp held
    have listed : (tid,"token:" ++ tid ++ ":supply",info.totalMinted) ∈ s.tokenRows :=
      List.mem_append_right _ (List.mem_map.mpr ⟨(tid,info),
        Std.ExtTreeMap.mem_toList_iff_getElem?_eq_some.mpr found,rfl⟩)
    obtain ⟨_,_,written⟩ := Outcome.foldStepped tokens _ listed
    exact setTokenRowValid written

omit [Env] in
theorem builtCell (run : s.rebuildStateTrie t = .ok t') {k : StateKey} (valid : k.Valid) :
    s.entriesOf[k.text]? = (s.cell k).bind toBytes8 := by
  cases held : s.cell k with
  | none =>
    refine (Dict.absentIff ..).mpr (fun inside => ?_)
    rw [entriesKeys,List.mem_map] at inside
    obtain ⟨row,listed,same⟩ := inside
    obtain ⟨k',text,held'⟩ := (s.rowsAreCells row).mp listed
    have keys := StateKey.textInjective (rebuildChecked run held').1 valid (text.trans same)
    rw [keys,held] at held'
    cases held'
  | some value =>
    obtain ⟨-,bytes,written⟩ := rebuildChecked run held
    have agree : ∀ row ∈ s.stateRows, row.1 = k.text → row.2 = value := by
      intro row listed same
      obtain ⟨k',text,held'⟩ := (s.rowsAreCells row).mp listed
      have keys := StateKey.textInjective (rebuildChecked run held').1 valid (text.trans same)
      rw [keys,held] at held'
      exact (Option.some.inj held').symm
    have listed : k.text ∈ s.stateRows.map Prod.fst :=
      List.mem_map.mpr ⟨(k.text,value),(s.rowsAreCells _).mpr ⟨k,rfl,held⟩,rfl⟩
    rw [entriesOf,foldRowsFind _ _ _ value agree listed,written,Option.bind_some,written]
    rfl

omit [Env] in
theorem builtWidth (run : s.rebuildStateTrie t = .ok t') : ∀ row ∈ s.entriesOf.toList, row.2.length = 8 := by
  rintro ⟨key,bytes⟩ listed
  have found := Std.ExtTreeMap.mem_toList_iff_getElem?_eq_some.mp listed
  have inside : key ∈ s.entriesOf := by
    rw [Std.ExtTreeMap.mem_iff_isSome_getElem?,found]
    rfl
  rw [entriesKeys,List.mem_map] at inside
  obtain ⟨row,there,rfl⟩ := inside
  obtain ⟨k,text,held⟩ := (s.rowsAreCells row).mp there
  rw [← text,builtCell run (rebuildChecked run held).1,held,Option.bind_some] at found
  exact toBytes8Length found

end Built

theorem sameCells [Env] {s s' : ChainState} {t t' u u' : StateTrie} (run : s.rebuildStateTrie t = .ok u)
    (run' : s'.rebuildStateTrie t' = .ok u') (same : s.entriesOf = s'.entriesOf) (k : StateKey) :
    s.cell k = s'.cell k := by
  have oneWay : ∀ {s s' : ChainState} {t t' u u' : StateTrie} {value : Int},
      s.rebuildStateTrie t = .ok u → s'.rebuildStateTrie t' = .ok u' → s.entriesOf = s'.entriesOf →
      s.cell k = some value → s'.cell k = some value := by
    intro s s' t t' u u' value run run' same held
    obtain ⟨valid,bytes,written⟩ := rebuildChecked run held
    have here := builtCell run valid
    rw [same,builtCell run' valid,held,Option.bind_some,written,Option.bind_eq_some_iff] at here
    obtain ⟨value',held',written'⟩ := here
    rw [held',toBytes8Injective written' written]
  refine Option.ext (fun value => ⟨oneWay run run' same,oneWay run' run same.symm⟩)

structure AtRest (s : ChainState) : Prop where
  balances : ∀ (a : Address) (amount : Int), s.ledger.balances[a]? = some amount → 0 ≤ amount
  nonces : ∀ a : Address, -1 ≤ s.index.senderNonce.get a
  tokens : ∀ (key : TokenId × Address) (amount : Int), s.tokens.balances[key]? = some amount → 0 ≤ amount

structure SameLedger (s s' : ChainState) : Prop where
  balance : ∀ a, s.ledger.getBalance a = s'.ledger.getBalance a
  nonce : ∀ a, s.index.getNonce a = s'.index.getNonce a
  token : ∀ tid a, s.tokens.getTokenBalance tid a = s'.tokens.getTokenBalance tid a
  minted : ∀ tid : TokenId, s.tokens.registry[tid]?.map TokenMeta.totalMinted =
    s'.tokens.registry[tid]?.map TokenMeta.totalMinted

theorem cellsTell {s s' : ChainState} (rest : s.AtRest) (rest' : s'.AtRest)
    (same : ∀ k, s.cell k = s'.cell k) : SameLedger s s' where
  balance a := by
    have read : ∀ {s : ChainState}, s.AtRest → s.ledger.getBalance a = (s.cell (.balance a)).getD 0 := by
      intro s rest
      rw [Ledger.getBalance,Std.ExtTreeMap.getD_eq_getD_getElem?,cell]
      cases found : s.ledger.balances[a]? with
      | none => rfl
      | some amount => simp [Option.filter,rest.balances a amount found]
    rw [read rest,read rest',same]
  nonce a := by
    have read : ∀ {s : ChainState}, s.AtRest → s.index.senderNonce.get a = (s.cell (.nonce a)).getD (-1) := by
      intro s rest
      have bound := rest.nonces a
      rw [cell]
      split
      · rfl
      · rw [Option.getD_none]
        omega
    rw [Index.getNonce,Index.getNonce,read rest,read rest',same]
  token tid a := by
    have read : ∀ {s : ChainState}, s.AtRest →
        s.tokens.getTokenBalance tid a = (s.cell (.token tid a)).getD 0 := by
      intro s rest
      rw [Tokens.getTokenBalance,Std.ExtTreeMap.getD_eq_getD_getElem?,cell]
      cases found : s.tokens.balances[(tid,a)]? with
      | none => rfl
      | some amount =>
        have bound := rest.tokens _ amount found
        by_cases positive : 0 < amount
        · simp [Option.filter,positive]
        · simp [Option.filter,positive]
          omega
    rw [read rest,read rest',same]
  minted tid := same (.supply tid)

section Binding
variable [Env]

theorem stateRootBinds (s s' : ChainState) (t t' : StateTrie) (built : s.rebuildStateTrie {} = .ok t)
    (built' : s'.rebuildStateTrie {} = .ok t') (rest : s.AtRest) (rest' : s'.AtRest)
    (same : t.root.1 = t'.root.1) :
    SameLedger s s' ∨ ∃ x ∈ StateTrie.rootInputs t.entries, ∃ y ∈ StateTrie.rootInputs t'.entries,
      x ≠ y ∧ sha3_256 x = sha3_256 y := by
  have fresh : ∀ {s : ChainState} {t : StateTrie}, s.rebuildStateTrie {} = .ok t → t.Fresh :=
    fun run => (rebuildWritten run).fresh (StateTrie.dirtyFresh rfl)
  rw [StateTrie.rootFresh (fresh built),StateTrie.rootFresh (fresh built')] at same
  rw [rebuildEntries built,rebuildEntries built'] at same ⊢
  refine (StateTrie.rootBinds (builtWidth built) (builtWidth built') same).imp_left (fun entries => ?_)
  exact cellsTell rest rest' (sameCells built built' entries)

end Binding

end ChainState

namespace Devnet

section Legacy
attribute [local instance] legacy

def funded : ChainState := { ledger := { balances := (∅ : Dict Address Int).insert "ab" 5 } }

def keyed : ChainState := { funded with index := { keyRegistry := (∅ : Dict Address String).insert "ab" "cd" } }

def fundedTrie : StateTrie := StateTrie.set {} "balance:ab" [0,0,0,0,0,0,0,5]

theorem fundedBuilt : funded.rebuildStateTrie {} = .ok fundedTrie := rfl

theorem keyedBuilt : keyed.rebuildStateTrie {} = .ok fundedTrie := rfl

theorem fundedAtRest {s : ChainState} (ledger : s.ledger = funded.ledger) (nonces : s.index.senderNonce = .empty)
    (tokens : s.tokens = {}) : s.AtRest where
  balances a amount found := by
    rw [ledger,funded,Std.ExtTreeMap.getElem?_insert] at found
    split at found
    · cases found
      decide
    · simp at found
  nonces a := by rw [nonces,Table.getEmpty]
  tokens key amount found := by
    rw [tokens] at found
    simp at found

theorem stateRootBindsFunded : ChainState.SameLedger funded keyed ∨
    ∃ x ∈ StateTrie.rootInputs fundedTrie.entries, ∃ y ∈ StateTrie.rootInputs fundedTrie.entries,
      x ≠ y ∧ sha3_256 x = sha3_256 y :=
  ChainState.stateRootBinds funded keyed fundedTrie fundedTrie fundedBuilt keyedBuilt
    (fundedAtRest rfl rfl rfl) (fundedAtRest rfl rfl rfl) rfl

end Legacy

end Devnet

end QbitNetwork
