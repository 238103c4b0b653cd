import QbitNetwork.TrieCalls

/-! What a state proof that verifies shows of the trie. Key and value are joined for the leaf, so
that another entry may read the same. -/
namespace QbitNetwork

namespace StateTrie
variable [Env]

def proofInputs (key : String) (value : Bytes) (proof : List (Bytes × Bool)) : List Bytes :=
  entryBytes (key,value) :: Merkle.climbed merkleHashing (sha3_256 (entryBytes (key,value))) proof

def RootCollides (entries : Dict String Bytes) (more : List Bytes) : Prop :=
  Merkle.Collides sha3_256 (rootInputs entries) (rootInputs entries ++ more)

def Sound (entries : Dict String Bytes) (key : String) (value : Bytes) : Prop :=
  ∀ proof, verifyProof key value proof (computeRoot entries) = true →
    entries[key]? = some value ∨ RootCollides entries (proofInputs key value proof)

omit [Env] in
def ReadsBack (entries : Dict String Bytes) (key : String) (value : Bytes) : Prop :=
  ∀ key' value', entries[key']? = some value' → entryBytes (key',value') = entryBytes (key,value) →
    entries[key]? = some value

theorem emptyCollides {key : String} {value : Bytes} {proof : List (Bytes × Bool)}
    (verified : verifyProof key value proof (computeRoot ∅) = true) :
    RootCollides ∅ (proofInputs key value proof) := by
  have reaches := (verifyMerkleProofClimb ..).mp verified
  rw [computeRoot,if_pos Std.ExtTreeMap.isEmpty_empty] at reaches
  have hashed : encode "empty_state" ∈ rootInputs ∅ := by
    rw [rootInputs,if_pos Std.ExtTreeMap.isEmpty_empty]
    exact List.mem_singleton_self _
  refine ⟨_,hashed,_,List.mem_append_right _ (List.mem_cons_of_mem _ (Merkle.climbedTop merkleHashing _ proof)),
    fun same => ?_,reaches.symm⟩
  have tagged : (encode "empty_state").head? = some 101 := by decide +kernel
  have head : (Merkle.climb merkleHashing (sha3_256 (entryBytes (key,value))) proof).head? ≠ some 101 := by
    induction proof using List.reverseRecOn with
    | nil => simp [Merkle.climb,merkleHashing]
    | append_singleton path step _ =>
      rw [Merkle.climbSnoc]
      unfold Merkle.stepInput
      split <;> simp [merkleHashing]
  exact head (same ▸ tagged)

theorem verifiedEntry {entries : Dict String Bytes} {key : String} {value : Bytes} {proof : List (Bytes × Bool)}
    (verified : verifyProof key value proof (computeRoot entries) = true) :
    (∃ key' value', entries[key']? = some value' ∧ entryBytes (key',value') = entryBytes (key,value)) ∨
      RootCollides entries (proofInputs key value proof) := by
  cases empty : entries.isEmpty with
  | true =>
    obtain rfl := Std.ExtTreeMap.isEmpty_iff.mp empty
    exact .inr (emptyCollides verified)
  | false =>
    have inputs : rootInputs entries = entries.toList.map entryBytes ++ merkleInputs (sortedLeaves entries) := by
      rw [rootInputs,if_neg (by simp [empty])]
    rw [computeRoot,if_neg (by simp [empty])] at verified
    rcases merkleClimbsFrom (leavesPresent empty) verified with inside | collides
    · obtain ⟨row,listed,hashed⟩ := List.mem_map.mp inside
      have there : entryBytes row ∈ rootInputs entries := by
        rw [inputs]
        exact List.mem_append_left _ (List.mem_map_of_mem listed)
      refine (Merkle.sameOrCollides there (List.mem_append_right _ (List.mem_cons_self ..)) hashed).imp_left
        (fun same => ⟨row.1,row.2,?_,same⟩)
      exact Std.ExtTreeMap.mem_toList_iff_getElem?_eq_some.mp listed
    · refine .inr (collides.mono ?_ ?_)
      · rw [inputs]
        exact List.subset_append_right ..
      · exact List.subset_append_of_subset_right _ (List.subset_cons_self ..)

theorem entryProof {entries : Dict String Bytes} {key key' : String} {value value' : Bytes}
    (found : entries[key']? = some value') (same : entryBytes (key',value') = entryBytes (key,value)) :
    ∃ proof, verifyProof key value proof (computeRoot entries) = true ∧
      proofInputs key value proof ⊆ rootInputs entries := by
  have listed := Std.ExtTreeMap.mem_toList_iff_getElem?_eq_some.mpr found
  have filled : entries.isEmpty = false := by
    rw [Bool.eq_false_iff,Ne,Std.ExtTreeMap.isEmpty_iff]
    rintro rfl
    simp at found
  obtain ⟨i,place⟩ := List.getElem?_of_mem listed
  have leaf : (sortedLeaves entries)[i]? = some (sha3_256 (entryBytes (key,value))) := by
    rw [sortedLeaves,List.getElem?_map,place,← same]
    rfl
  refine ⟨merkleProof (sortedLeaves entries) i,?_,?_⟩
  · rw [computeRoot,if_neg (by simp [filled])]
    exact merkleProofVerifies leaf
  · rw [proofInputs,rootInputs,if_neg (by simp [filled]),← same]
    refine List.cons_subset.mpr ⟨List.mem_append_left _ (List.mem_map_of_mem listed),?_⟩
    rw [same]
    exact List.subset_append_of_subset_right _ (merkleProofInputs leaf)

theorem soundIff (entries : Dict String Bytes) (key : String) (value : Bytes) :
    Sound entries key value ↔ ReadsBack entries key value ∨ RootCollides entries [] := by
  constructor
  · intro sound
    by_cases collides : RootCollides entries []
    · exact .inr collides
    refine .inl (fun key' value' found joined => ?_)
    obtain ⟨proof,verified,hashed⟩ := entryProof found joined
    refine (sound proof verified).resolve_right (fun collides' => collides (collides'.mono (List.Subset.refl _) ?_))
    rw [List.append_nil]
    exact List.append_subset.mpr ⟨List.Subset.refl _,hashed⟩
  · rintro (reads | collides) proof verified
    · exact (verifiedEntry verified).imp_left (fun ⟨key',value',found,joined⟩ => reads key' value' found joined)
    · refine .inr (collides.mono (List.Subset.refl _) ?_)
      rw [List.append_nil]
      exact List.subset_append_left ..

end StateTrie

theorem stateProofsSound [Env] (calls : List TrieCall) (key : String) (value : Bytes) :
    let t := calls.foldl RowTrie.call {}
    (∀ proof, StateTrie.verifyProof key value proof t.root.1 = true → t.entries.get? key = some value ∨
        StateTrie.RootCollides t.entries.toDict (StateTrie.proofInputs key value proof)) ↔
      (∀ key' value', t.entries.get? key' = some value' → entryBytes (key',value') = entryBytes (key,value) →
        t.entries.get? key = some value) ∨ StateTrie.RootCollides t.entries.toDict [] := by
  intro t
  have start : ({} : RowTrie).plain.Fresh := fun clean => by cases clean
  have root : t.root.1 = StateTrie.computeRoot t.entries.toDict :=
    (RowTrie.plainRoot t).1.trans (StateTrie.rootFresh (RowTrie.callsKeep start calls).1)
  have iff := StateTrie.soundIff t.entries.toDict key value
  simp only [StateTrie.Sound,StateTrie.ReadsBack,OrderedDict.toDictGet] at iff
  rw [root]
  exact iff

namespace Devnet

section Legacy
attribute [local instance] legacy

/- The only entry, a ↦ "b", is proved to be ab ↦ "". -/
theorem stateProofMistaken :
    let t := [TrieCall.set "a" (encode "b")].foldl RowTrie.call {}
    t.entries.get? "ab" = none ∧ StateTrie.verifyProof "ab" [] [] t.root.1 = true ∧
      ¬StateTrie.RootCollides t.entries.toDict (StateTrie.proofInputs "ab" [] []) := by
  refine ⟨by decide,by decide +kernel,?_⟩
  have apart : ∀ x ∈ StateTrie.rootInputs (OrderedDict.toDict ⟨[("a",encode "b")],by decide⟩),
      ∀ y ∈ StateTrie.rootInputs (OrderedDict.toDict ⟨[("a",encode "b")],by decide⟩) ++
        StateTrie.proofInputs "ab" [] [], hash x = hash y → x = y := by decide +kernel
  rintro ⟨x,here,y,there,different,same⟩
  exact different (apart x here y there same)

end Legacy

end Devnet

end QbitNetwork
