import QbitNetwork.History
import QbitNetwork.MerkleProof
import QbitNetwork.Protection
import QbitNetwork.StateRoot

/-! State proofs out of the kept snapshots, and the headers they are to be checked against. -/
namespace QbitNetwork

structure StateProof where
  key : String
  value : String
  proof : List (String × Bool)
  root : String
  blockIndex : Option Int := none

/- `bisect_left` in a sorted list. -/
def bisectLeft (keys : List String) (key : String) : Nat :=
  (keys.takeWhile (fun other => compare other key == .lt)).length

namespace StateTrie
variable [Env]

def getProof (t : StateTrie) (key : String) : Option StateProof :=
  match t.entries[key]? with
  | none => none
  | some value =>
    let sortedKeys := t.entries.toList.map Prod.fst
    let path := merkleProof (sortedLeaves t.entries) (bisectLeft sortedKeys key)
    some
      { key
        value := hex value
        proof := hexPath path
        root := hex t.root.1 }

def verifyProof (key : String) (value : Bytes) (proof : List (Bytes × Bool)) (root : Bytes) : Bool :=
  verifyMerkleProof (sha3_256 (encode key ++ value)) proof root

end StateTrie

namespace Blockchain
variable [Env]

def getStateProofAtBlock (s : Blockchain) (key : String) (blockIndex : Option Int) : Option StateProof :=
  match blockIndex with
  | some index =>
    match s.stateSnapshots[index]? with
    | none => none
    | some snapshot =>
      (((({} : StateTrie).restore snapshot).getProof key).map
        (fun proof => { proof with blockIndex := some index }))
  | none => (s.trie.getProof key).map (fun proof => { proof with blockIndex := some s.height })

end Blockchain

section Checking
variable [Env]

def StateProof.checks (p : StateProof) (stateRoot : String) : Bool :=
  match fromHex p.value,readPath p.proof,fromHex stateRoot with
  | some value,some path,some root => StateTrie.verifyProof p.key value path root
  | _,_,_ => false

omit [Env] in
theorem bisectFinds {keys : List String} {key : String}
    (sorted : keys.Pairwise (fun a b => compare a b = .lt)) (inside : key ∈ keys) :
    keys[bisectLeft keys key]? = some key := by
  induction keys with
  | nil => cases inside
  | cons first rest ih =>
    obtain ⟨above,sorted⟩ := List.pairwise_cons.mp sorted
    unfold bisectLeft
    rcases List.mem_cons.mp inside with rfl | later
    · rw [List.takeWhile_cons_of_neg (by simp [Std.ReflCmp.compare_self])]
      rfl
    · rw [List.takeWhile_cons_of_pos (by simpa using above key later)]
      exact ih sorted later

theorem proofChecks {t : StateTrie} {key : String} {p : StateProof} (given : t.getProof key = some p) :
    t.entries ≠ ∅ ∧ p.checks (hex (StateTrie.computeRoot t.entries)) = true := by
  unfold StateTrie.getProof at given
  split at given
  · contradiction
  · rename_i value found
    cases given
    have listed := Std.ExtTreeMap.mem_toList_iff_getElem?_eq_some.mpr found
    have filled : t.entries ≠ ∅ := by
      intro empty
      rw [empty] at found
      simp at found
    have sorted : (t.entries.toList.map Prod.fst).Pairwise (fun a b => compare a b = .lt) :=
      List.pairwise_map.mpr t.entries.ordered_keys_toList
    have place := bisectFinds sorted (List.mem_map_of_mem listed)
    rw [List.getElem?_map,Option.map_eq_some_iff] at place
    obtain ⟨⟨key',value'⟩,there,rfl⟩ := place
    have held := Std.ExtTreeMap.mem_toList_iff_getElem?_eq_some.mp (List.mem_of_getElem? there)
    obtain rfl : value = value' := Option.some.inj (found.symm.trans held)
    have leaf : (StateTrie.sortedLeaves t.entries)[bisectLeft (t.entries.toList.map Prod.fst) key']? =
        some (sha3_256 (encode key' ++ value)) := by
      rw [StateTrie.sortedLeaves,List.getElem?_map,there]
      rfl
    refine ⟨filled,?_⟩
    simp only [StateProof.checks,Json.fromHexHex,readHexPath,StateTrie.verifyProof]
    rw [StateTrie.computeRoot,if_neg (by simpa [Std.ExtTreeMap.isEmpty_iff] using filled)]
    exact merkleProofVerifies leaf

end Checking

namespace StateTrie
variable [Env]

def Sized (t : StateTrie) : Prop := ∀ cached, t.cachedRoot = some cached → cached.length = 32

theorem computeRootLength (entries : Dict String Bytes) : (computeRoot entries).length = 32 := by
  unfold computeRoot
  cases empty : entries.isEmpty
  · exact merkleRootLength (leavesPresent empty)
  · exact Env.sha3_256Length _

theorem rootSized {t : StateTrie} (sized : t.Sized) : t.root.1.length = 32 ∧ t.root.2.Sized := by
  unfold root
  split
  · rename_i cached clean found
    exact ⟨sized _ found,sized⟩
  · refine ⟨computeRootLength _,fun cached found => ?_⟩
    rw [← Option.some.inj found]
    exact computeRootLength _

omit [Env] in
theorem setSized {t : StateTrie} (sized : t.Sized) (key : String) (value : Bytes) : (t.set key value).Sized := by
  unfold set
  split <;> exact sized

omit [Env] in
theorem rebuildSized {t : StateTrie} (sized : t.Sized) (s : ChainState) :
    (Outcome.stateOf (s.rebuildStateTrie t)).Sized := by
  have row : ∀ {t : StateTrie} (row : String × Int), t.Sized → (Outcome.stateOf (ChainState.setRow t row)).Sized := by
    intro t row sized
    unfold ChainState.setRow
    split
    · exact setSized sized _ _
    · exact sized
  have rows : ∀ {t : StateTrie} (rows : List (String × Int)), t.Sized →
      (Outcome.stateOf (rows.foldlM ChainState.setRow t)).Sized := fun rows sized =>
    (Outcome.foldStages (fun _ (t : StateTrie) => t.Sized) (fun _ x _ _ => row x) sized).choose_spec.2.1
  simp only [ChainState.rebuildStateTrie]
  have balances := rows s.balanceRows (show t.clearEntries.Sized from sized)
  refine Outcome.stateOfBind Sized balances (fun u run => ?_)
  rw [run] at balances
  have nonces := rows s.nonceRows (show u.Sized from balances)
  refine Outcome.stateOfBind Sized nonces (fun v run => ?_)
  rw [run] at nonces
  refine (Outcome.foldStages (fun _ (t : StateTrie) => t.Sized) (fun _ x u _ sized => ?_) nonces).choose_spec.2.1
  unfold ChainState.setTokenRow
  split
  · exact row _ sized
  · exact sized

end StateTrie

namespace Blockchain
variable [Env]

open Chronicle (Fits Sound)

section Snapshots

omit [Env] in
theorem openBlockSnapshots {s s' : Blockchain} {idx : Int} (run : s.openBlock idx = .ok s') :
    s'.stateSnapshots = s.stateSnapshots := by
  simp only [openBlock,Outcome.bindOk,Outcome.withinOk] at run
  obtain ⟨_,⟨state,opened,rfl⟩,run⟩ := run
  cases run
  split <;> rfl

theorem applyTxsSnapshots {s : Blockchain} {block : Block} {idx : Int} {p : Progress}
    (run : s.applyTxs block idx = .ok p) : p.chain.stateSnapshots = s.stateSnapshots := by
  refine Outcome.foldInvariant (fun p : Progress => p.chain.stateSnapshots = s.stateSnapshots)
    (fun p row p' kept step => ?_) rfl run
  simp only [applyBlockTx,Outcome.bindOk,Outcome.withinOk] at step
  obtain ⟨_,⟨_,⟨state,applied,rfl⟩,rfl⟩,step⟩ := step
  cases step
  exact kept

theorem appendInnerSaves {s s' : Blockchain} {block : Block} (run : s.appendBlockInner block = .ok s') :
    s'.stateSnapshots = (({ s with trie := s'.trie } : Blockchain).saveSnapshot (s.height + 1)).stateSnapshots := by
  simp only [appendBlockInner,Outcome.bindOk] at run
  obtain ⟨s1,stored,s2,opened,run⟩ := run
  obtain ⟨backend,rfl,-⟩ := storeBlockOk stored
  split at run
  · contradiction
  · rename_i p applied
    simp only [closeBlock,Outcome.bindOk,Outcome.withinOk] at run
    obtain ⟨_,⟨c,paid,rfl⟩,s4,receipts,s5,root,run⟩ := run
    have done : Settled s5 s' (s.height + 1) := Except.ok.inj run ▸ settled ..
    have kept : s4.stateSnapshots = s.stateSnapshots := by
      simp only [checkReceiptsRoot] at receipts
      split at receipts
      · contradiction
      · cases receipts
        have snapshots := (applyTxsSnapshots applied).trans (openBlockSnapshots opened)
        exact snapshots
    have rooted : s5.stateSnapshots = s4.stateSnapshots := by
      simp only [checkStateRoot,Outcome.bindOk] at root
      obtain ⟨t,rebuilt,root⟩ := root
      obtain ⟨trie,-,rfl⟩ := rebuildStateTrieOk rebuilt
      simp only [compareStateRoot] at root
      split at root
      · contradiction
      · cases root
        rfl
    rw [← Except.ok.inj run,(settleRoot ..).2.2,Except.ok.inj run]
    simp only [saveSnapshot,done.trie,rooted,kept]

theorem appendInnerRoot {s s' : Blockchain} {block : Block} (sized : s.trie.Sized)
    (run : s.appendBlockInner block = .ok s') :
    ∃ root, s'.lastComputedStateRoot = some root ∧ root ≠ "" ∧ (block.stateRoot ≠ "" → block.stateRoot = root) ∧
      (s'.trie.entries ≠ ∅ → root = hex (StateTrie.computeRoot s'.trie.entries)) := by
  obtain ⟨c,built,-,committed⟩ := appendInnerCommitted run
  have written := ChainState.rebuildWritten committed.rebuilt
  have digest := StateTrie.rebuildSized sized c
  rw [committed.rebuilt] at digest
  refine ⟨_,committed.stateRoot,hexPresent (StateTrie.rootSized (show built.Sized from digest)).1,
    committed.claimed,fun filled => ?_⟩
  · rw [committed.trie,StateTrie.rootEntries] at filled ⊢
    have marked := written.marked (StateTrie.markedClear _)
    rw [StateTrie.rootFresh (StateTrie.dirtyFresh (marked filled))]

theorem rollbackBlockErases {block : Block} {t u : Blockchain} (run : t.rollbackBlock block = .ok u) :
    u.stateSnapshots = t.stateSnapshots.erase block.index ∧ u.log = (t.undoLog block).log := by
  simp only [rollbackBlock,Outcome.bindOk,Outcome.withinOk] at run
  obtain ⟨_,⟨paid,money,rfl⟩,_,⟨left,epoch,rfl⟩,w,trie,run⟩ := run
  cases run
  obtain ⟨state,backend,shape,-⟩ := undoTxsShape block block.transactions
    { (t.undoLog block).withState paid with
      blockByHash := ((t.undoLog block).withState paid).blockByHash.erase block.blockHash }
  rw [shape] at trie epoch
  obtain ⟨senderNonce,recounted,-⟩ := recomputeNonces
    ({ ({ (t.undoLog block).withState paid with
      blockByHash := ((t.undoLog block).withState paid).blockByHash.erase block.blockHash } :
        Blockchain) with state, backend } : Blockchain) block.transactions
  rw [recounted] at trie epoch
  obtain ⟨final,rfl⟩ := undoTrieOk trie
  exact ⟨rfl,rfl⟩

theorem abandonBlockErases {block : Block} {t u : Blockchain} (run : t.abandonBlock block = .ok u) :
    u.stateSnapshots = t.stateSnapshots.erase block.index ∧ u.log = (t.undoLog block).log := by
  simp only [abandonBlock,Outcome.bindOk] at run
  obtain ⟨v,undone,run⟩ := run
  cases run
  have erased := rollbackBlockErases undone
  cases v.backend with
  | memory chainList =>
    dsimp only
    split <;> exact erased
  | sqlite store => exact erased

omit [Env] in
theorem popSnapshots (s : Blockchain) : s.popBlock.stateSnapshots = s.stateSnapshots := by
  unfold popBlock
  split <;> rfl

omit [Env] in
theorem popTrie (s : Blockchain) : s.popBlock.trie = s.trie := by
  unfold popBlock
  split <;> rfl

theorem rollbackBlocksErase {blocks : List Block} {t u : Blockchain}
    (run : blocks.foldlM (fun s block => s.popBlock.rollbackBlock block) t = .ok u) {i : Int}
    {entries : Dict String Bytes} (found : u.stateSnapshots[i]? = some entries) :
    t.stateSnapshots[i]? = some entries ∧ ∀ block ∈ blocks, block.index ≠ i := by
  induction blocks generalizing t with
  | nil =>
    cases run
    exact ⟨found,by simp⟩
  | cons block rest ih =>
    rw [List.foldlM_cons,Outcome.bindOk] at run
    obtain ⟨mid,first,run⟩ := run
    obtain ⟨there,others⟩ := ih run
    rw [(rollbackBlockErases first).1,popSnapshots,Std.ExtTreeMap.getElem?_erase] at there
    split at there
    · cases there
    · rename_i apart
      refine ⟨there,fun other inside => ?_⟩
      rcases List.mem_cons.mp inside with rfl | later
      · simpa using apart
      · exact others other later

end Snapshots

section Caches

omit [Env] in
theorem openBlockTrieLeft (s : Blockchain) (idx : Int) : (Outcome.stateOf (s.openBlock idx)).trie = s.trie := by
  have opened : (Outcome.stateOf (Outcome.within s.withState (s.state.openBlock idx))).trie = s.trie := by
    rw [Outcome.stateOfWithin]
    rfl
  simp only [openBlock]
  refine Outcome.stateOfBind (fun t : Blockchain => t.trie = s.trie) opened (fun t run => ?_)
  rw [run] at opened
  simp only [Outcome.stateOf] at opened ⊢
  split <;> exact opened

theorem applyTxsTrieLeft (s : Blockchain) (block : Block) (idx : Int) :
    (Outcome.stateOf (s.applyTxs block idx)).chain.trie = s.trie := by
  have steps : ∀ (i : Nat) (row : Transaction × Nat) (p : Progress), block.transactions.zipIdx[i]? = some row →
      p.chain.trie = s.trie → (Outcome.stateOf (applyBlockTx block idx p row)).chain.trie = s.trie := by
    intro i row p _ kept
    have reached : (Outcome.stateOf (Outcome.within (fun chain => { p with chain })
        (Outcome.within p.chain.withState (ChainState.applyTx block idx p.chain.state row)))).chain.trie =
        s.trie := by
      rw [Outcome.stateOfWithin,Outcome.stateOfWithin]
      exact kept
    simp only [applyBlockTx]
    refine Outcome.stateOfBind (fun q : Progress => q.chain.trie = s.trie) reached (fun q run => ?_)
    rw [run] at reached
    exact reached
  exact (Outcome.foldStages (fun _ (p : Progress) => p.chain.trie = s.trie) steps rfl).choose_spec.2.1

theorem closeBlockSized {p : Progress} (sized : p.chain.trie.Sized) (block : Block) (idx : Int)
    (matured : List Address) (opening : List Event) :
    (Outcome.stateOf (closeBlock p block idx matured opening)).trie.Sized := by
  simp only [closeBlock]
  refine Outcome.stateOfBind (fun t : Blockchain => t.trie.Sized) ?_ (fun paid run => ?_)
  · rw [Outcome.stateOfWithin]
    exact sized
  obtain ⟨state,-,rfl⟩ := (Outcome.withinOk ..).mp run
  refine Outcome.stateOfBind (fun t : Blockchain => t.trie.Sized) ?_ (fun checked run => ?_)
  · simp only [checkReceiptsRoot]
    split <;> exact sized
  have before : checked.trie.Sized := by
    simp only [checkReceiptsRoot] at run
    split at run
    · contradiction
    · cases run
      exact sized
  refine Outcome.stateOfBind (fun t : Blockchain => t.trie.Sized) ?_ (fun rooted run => ?_)
  · simp only [checkStateRoot]
    have rebuilt : (Outcome.stateOf checked.rebuildStateTrie).trie.Sized := by
      rw [rebuildStateTrie,Outcome.stateOfWithin]
      exact StateTrie.rebuildSized before _
    refine Outcome.stateOfBind (fun t : Blockchain => t.trie.Sized) rebuilt (fun t run => ?_)
    rw [run] at rebuilt
    simp only [compareStateRoot]
    split <;> exact (StateTrie.rootSized rebuilt).2
  · have sized : rooted.trie.Sized := by
      simp only [checkStateRoot,Outcome.bindOk] at run
      obtain ⟨t,rebuilt,run⟩ := run
      have after : t.trie.Sized := by
        obtain ⟨trie,made,rfl⟩ := rebuildStateTrieOk rebuilt
        have left := StateTrie.rebuildSized before checked.state
        rw [made] at left
        exact left
      simp only [compareStateRoot] at run
      split at run
      · contradiction
      · cases run
        exact (StateTrie.rootSized after).2
    have done := settled rooted block idx matured (p.receiptData.map (receiptOf idx p.failedTxIds))
      (opening ++ rewardEvents block.validator ((addReceipts p idx).rewardOf idx))
    show (rooted.settleBlock ..).trie.Sized
    rw [done.trie]
    exact sized

theorem appendInnerSized {s : Blockchain} (sized : s.trie.Sized) (block : Block) :
    (Outcome.stateOf (s.appendBlockInner block)).trie.Sized := by
  simp only [appendBlockInner]
  refine Outcome.stateOfBind (fun t : Blockchain => t.trie.Sized) ?_ (fun t stored => ?_)
  · unfold storeBlock
    split
    · exact sized
    · split <;> exact sized
  obtain ⟨backend,rfl,-⟩ := storeBlockOk stored
  have opened := openBlockTrieLeft
    (({ s with backend } : Blockchain).advanceTip block (s.height + 1)) (s.height + 1)
  refine Outcome.stateOfBind (fun t : Blockchain => t.trie.Sized) ?_ (fun t run => ?_)
  · rw [opened]
    exact sized
  rw [run] at opened
  have applied := applyTxsTrieLeft t block (s.height + 1)
  have kept : t.trie.Sized := by
    rw [show t.trie = _ from opened]
    exact sized
  split
  · rename_i r run
    rw [run] at applied
    rw [Outcome.stateOf,show r.state.chain.trie = t.trie from applied]
    exact kept
  · rename_i p run
    rw [run] at applied
    have after : p.chain.trie.Sized := by
      rw [show p.chain.trie = t.trie from applied]
      exact kept
    exact closeBlockSized after block _ _ _

theorem rollbackBlockSized {block : Block} {t u : Blockchain} (sized : t.trie.Sized)
    (run : t.rollbackBlock block = .ok u) : u.trie.Sized := by
  simp only [rollbackBlock,Outcome.bindOk,Outcome.withinOk] at run
  obtain ⟨_,⟨paid,money,rfl⟩,_,⟨left,epoch,rfl⟩,w,trie,run⟩ := run
  cases run
  obtain ⟨state,backend,shape,-⟩ := undoTxsShape block block.transactions
    { (t.undoLog block).withState paid with
      blockByHash := ((t.undoLog block).withState paid).blockByHash.erase block.blockHash }
  rw [shape] at trie epoch
  obtain ⟨senderNonce,recounted,-⟩ := recomputeNonces
    ({ ({ (t.undoLog block).withState paid with
      blockByHash := ((t.undoLog block).withState paid).blockByHash.erase block.blockHash } :
        Blockchain) with state, backend } : Blockchain) block.transactions
  rw [recounted] at trie epoch
  have rebuilds : ∀ {v w : Blockchain}, v.trie = t.trie → v.rebuildStateTrie = .ok w → w.trie.Sized := by
    intro v w same rebuilt
    obtain ⟨final,made,rfl⟩ := rebuildStateTrieOk rebuilt
    have left := StateTrie.rebuildSized (show v.trie.Sized from same ▸ sized) v.state
    rw [made] at left
    exact left
  show w.trie.Sized
  simp only [undoTrie] at trie
  split at trie
  · split at trie
    · cases trie
      exact sized
    · exact rebuilds (by rfl) trie
  · exact rebuilds (by rfl) trie

end Caches

structure Anchored (roots : List String) (s : Blockchain) : Prop where
  inside : ∀ (i : Int) (entries : Dict String Bytes), s.stateSnapshots[i]? = some entries →
    0 ≤ i ∧ i < roots.length
  rooted : ∀ (i : Nat) (root : String) (entries : Dict String Bytes), 0 < i → roots[i]? = some root →
    s.stateSnapshots[(i : Int)]? = some entries → entries ≠ ∅ → root = hex (StateTrie.computeRoot entries)

section Anchoring
variable {roots : List String} {s t : Blockchain}

theorem Anchored.beside (anchored : Anchored roots s) (snapshots : t.stateSnapshots = s.stateSnapshots) :
    Anchored roots t where
  inside i entries found := anchored.inside i entries (snapshots ▸ found)
  rooted i root entries later there found := anchored.rooted i root entries later there (snapshots ▸ found)

theorem Anchored.beyondFirst {roots' : List String} (anchored : Anchored roots s) (size : roots'.length = roots.length)
    (same : ∀ i : Nat, 0 < i → roots'[i]? = roots[i]?) : Anchored roots' s where
  inside i entries found := size ▸ anchored.inside i entries found
  rooted i root entries later there found := anchored.rooted i root entries later (same i later ▸ there) found

theorem anchoredAppend {root : String} (anchored : Anchored roots s) (height : s.height = (roots.length : Int) - 1)
    (saved : t.stateSnapshots =
      (({ s with trie := t.trie } : Blockchain).saveSnapshot (s.height + 1)).stateSnapshots)
    (stamp : t.trie.entries ≠ ∅ → root = hex (StateTrie.computeRoot t.trie.entries)) :
    Anchored (roots ++ [root]) t := by
  have kept : ∀ (i : Int) (entries : Dict String Bytes), t.stateSnapshots[i]? = some entries →
      (i = roots.length ∧ entries = t.trie.entries) ∨ s.stateSnapshots[i]? = some entries := by
    intro i entries found
    have inserted : (s.stateSnapshots.insert (s.height + 1) t.trie.entries)[i]? = some entries := by
      rw [saved] at found
      simp only [saveSnapshot,StateTrie.snapshot] at found
      split at found
      · rw [Std.ExtTreeMap.getElem?_erase] at found
        split at found
        · cases found
        · exact found
      · exact found
    rw [Std.ExtTreeMap.getElem?_insert] at inserted
    split at inserted
    · rename_i here
      have place : s.height + 1 = i := by simpa using here
      exact .inl ⟨by omega,(Option.some.inj inserted).symm⟩
    · exact .inr inserted
  refine ⟨fun i entries found => ?_,fun i given entries later there found filled => ?_⟩
  · rw [List.length_append,List.length_singleton]
    rcases kept i entries found with ⟨place,-⟩ | old
    · omega
    · have := anchored.inside i entries old
      omega
  · rcases kept i entries found with ⟨place,rfl⟩ | old
    · have last : i = roots.length := by omega
      rw [last,List.getElem?_concat_length] at there
      rw [← Option.some.inj there]
      exact stamp filled
    · have below := (anchored.inside i entries old).2
      rw [List.getElem?_append_left (by omega)] at there
      exact anchored.rooted i given entries later there old filled

theorem anchoredTake (anchored : Anchored roots s) (n : Nat)
    (left : ∀ (i : Int) (entries : Dict String Bytes), t.stateSnapshots[i]? = some entries →
      s.stateSnapshots[i]? = some entries ∧ ∀ j : Nat, n ≤ j → j < roots.length → i ≠ j) :
    Anchored (roots.take n) t := by
  refine ⟨fun i entries found => ?_,fun i root entries later there found => ?_⟩
  · obtain ⟨old,gone⟩ := left i entries found
    obtain ⟨low,high⟩ := anchored.inside i entries old
    rw [List.length_take]
    have below : i.toNat < n := by
      by_contra above
      exact gone i.toNat (by omega) (by omega) (by omega)
    omega
  · rw [List.getElem?_take] at there
    split at there
    · exact anchored.rooted i root entries later there (left i entries found).1
    · cases there

end Anchoring

structure Provable (chain : List Block) (s : Blockchain) : Prop where
  chronicled : Chronicled False chain s
  stamped : ∀ block ∈ chain, Stamped block
  anchored : Anchored (chain.map Block.stateRoot) s
  sized : s.trie.Sized

section Companion
variable {chain : List Block} {s t : Blockchain} {block : Block}

theorem replaceTipBeside {old : Block} {u : Blockchain} (run : t.replaceTip old block = .ok u) :
    u.stateSnapshots = t.stateSnapshots ∧ u.trie = t.trie ∧ u.log = t.log := by
  simp only [replaceTip] at run
  split at run
  · cases run
    exact ⟨rfl,rfl,rfl⟩
  · split at run
    · cases run
      exact ⟨rfl,rfl,rfl⟩
    · cases run

theorem Provable.beside (provable : Provable chain s) (chronicled : Chronicled False chain t)
    (snapshots : t.stateSnapshots = s.stateSnapshots) (recached : s.trie.Recached t.trie) : Provable chain t where
  chronicled := chronicled
  stamped := provable.stamped
  anchored := provable.anchored.beside snapshots
  sized := by
    intro cached found
    rcases recached with same | filled
    · exact provable.sized cached (same.symm.trans found)
    · rw [← Option.some.inj (filled.symm.trans found)]
      exact (StateTrie.rootSized provable.sized).1

theorem Provable.anchors (provable : Provable chain s) (run : s.appendBlockInner block = .ok t) :
    ∃ root, t.lastComputedStateRoot = some root ∧ root ≠ "" ∧ (block.stateRoot ≠ "" → block.stateRoot = root) ∧
      Anchored (chain.map Block.stateRoot ++ [root]) t ∧ t.trie.Sized := by
  obtain ⟨root,computed,digest,claimed,given⟩ := appendInnerRoot provable.sized run
  have sized := appendInnerSized provable.sized block
  rw [run] at sized
  have height : s.height = ((chain.map Block.stateRoot).length : Int) - 1 := by
    rw [List.length_map,provable.chronicled.height]
  exact ⟨root,computed,digest,claimed,anchoredAppend provable.anchored height (appendInnerSaves run) given,sized⟩

theorem Provable.abandons (provable : Provable chain s) {message : String} {u : Blockchain}
    (run : s.appendBlockInner block = .error ⟨.valueError message,t⟩) (kept : t.stateSnapshots = s.stateSnapshots)
    (undone : t.abandonBlock block = .ok u) (chronicled : Chronicled False chain u) : Provable chain u := by
  have sized := appendInnerSized provable.sized block
  rw [run] at sized
  refine ⟨chronicled,provable.stamped,?_,?_⟩
  · have left : ∀ (i : Int) (entries : Dict String Bytes), u.stateSnapshots[i]? = some entries →
        s.stateSnapshots[i]? = some entries ∧ ∀ j : Nat, chain.length ≤ j → j < (chain.map Block.stateRoot).length →
          i ≠ j := by
      intro i entries found
      rw [(abandonBlockErases undone).1,kept,Std.ExtTreeMap.getElem?_erase] at found
      split at found
      · cases found
      · refine ⟨found,fun j above below => ?_⟩
        rw [List.length_map] at below
        omega
    have cut := anchoredTake provable.anchored chain.length left
    rwa [List.take_of_length_le (by rw [List.length_map])] at cut
  · simp only [abandonBlock,Outcome.bindOk] at undone
    obtain ⟨v,rolled,undone⟩ := undone
    have after := rollbackBlockSized (show t.trie.Sized from sized) rolled
    cases undone
    cases v.backend with
    | memory chainList =>
      dsimp only
      split <;> exact after
    | sqlite store => exact after

theorem appendProvable (provable : Provable chain s) (fits : Fits False chain block) (stamped : Stamped block) :
    Outcome.Ends (Provable (chain ++ [block])) (fun e t => e.Caught → Provable chain t) (s.appendBlock block) := by
  have told := appendBlockTells provable.chronicled fits
  generalize s.appendBlock block = outcome at told ⊢
  cases told with
  | applied run grown =>
    obtain ⟨root,-,-,claimed,anchored,sized⟩ := provable.anchors run
    refine ⟨grown,fun other inside => ?_,?_,sized⟩
    · rcases List.mem_append.mp inside with old | new
      · exact provable.stamped other old
      · exact List.mem_singleton.mp new ▸ stamped
    · rw [List.map_append]
      refine anchored.beyondFirst (by simp) (fun i later => ?_)
      by_cases first : chain = []
      · subst first
        rw [List.getElem?_eq_none (by simp; omega),List.getElem?_eq_none (by simp; omega)]
      · have size := List.length_pos_iff.mpr first
        rw [← claimed (stamped (by rw [fits.position]; omega))]
        rfl
  | refused run kept undone left => exact fun _ => provable.abandons run kept undone left
  | broken uncaught => exact fun caught => absurd caught uncaught

theorem replaceTipProvable {old new : Block} (chronicled : Chronicled False (chain ++ [old]) s)
    (stamped : ∀ other ∈ chain, Stamped other) (sized : s.trie.Sized) (index : new.index = old.index)
    (transactions : new.transactions = old.transactions) (baseFee : new.baseFee = old.baseFee)
    (anchored : Anchored (chain.map Block.stateRoot ++ [new.stateRoot]) s) (digest : Stamped new) :
    Outcome.Ends (Provable (chain ++ [new])) (fun e _ => ¬e.Caught) (s.replaceTip old new) := by
  have ends := replaceTipEnds chronicled index transactions baseFee
  cases run : s.replaceTip old new with
  | error r =>
    rw [run] at ends
    exact ends
  | ok u =>
    rw [run] at ends
    obtain ⟨snapshots,trie,-⟩ := replaceTipBeside run
    refine ⟨ends,fun other inside => ?_,?_,?_⟩
    · rcases List.mem_append.mp inside with old | new
      · exact stamped other old
      · exact List.mem_singleton.mp new ▸ digest
    · rw [List.map_append]
      exact anchored.beside snapshots
    · rw [trie]
      exact sized

theorem produceProvable (sk : Bytes) (provable : Provable chain s) (fits : Fits False chain block) :
    Outcome.Ends
      (fun t => Outcome.Ends (fun u => ∃ chain, Provable chain u) (fun e _ => ¬e.Caught)
        (t.replaceTip block (stampedBlock block (t.lastComputedStateRoot.getD t.stateRoot.1)
          t.lastComputedReceiptsRoot sk)))
      (fun e t => e.Caught → Provable chain t) (s.appendBlock block) := by
  have told := appendBlockTells provable.chronicled fits
  generalize s.appendBlock block = outcome at told ⊢
  cases told with
  | @applied t run grown =>
    obtain ⟨root,computed,digest,-,anchored,sized⟩ := provable.anchors run
    rw [Outcome.Ends,computed,Option.getD_some]
    have final := replaceTipProvable grown provable.stamped sized
      (stampedIndex block root t.lastComputedReceiptsRoot sk) (stampedTransactions ..) (stampedBaseFee ..) anchored
      (fun _ => digest)
    exact Outcome.endsMono final (fun u h => ⟨_,h⟩) (fun _ _ h => h)
  | refused run kept undone left => exact fun _ => provable.abandons run kept undone left
  | broken uncaught => exact fun caught => absurd caught uncaught

theorem rollbackProvable (target : Int) (provable : Provable chain s) :
    Outcome.Ends (Provable (chain.take target.toNat)) (fun e u => e.Caught → Provable (chain.take target.toNat) u)
      (s.rollbackTo target) := by
  refine rollbackToFolds provable.chronicled ?_
  have ends := rollbackFoldEnds provable.chronicled target
  cases run : (chain.drop target.toNat).reverse.foldlM (fun s block => s.popBlock.rollbackBlock block)
      (s.mapStore (·.deleteBlocksFrom target)) with
  | error r =>
    rw [run] at ends
    exact ends
  | ok u =>
    rw [run] at ends
    refine ⟨ends.1.toChronicled,fun block inside => provable.stamped block (List.mem_of_mem_take inside),?_,?_⟩
    · rw [List.map_take]
      refine anchoredTake provable.anchored target.toNat (fun i entries found => ?_)
      obtain ⟨there,others⟩ := rollbackBlocksErase run found
      refine ⟨there,fun j above below same => ?_⟩
      rw [List.length_map] at below
      have placed := (provable.chronicled.sound j chain[j] (List.getElem?_eq_getElem below)).position
      rw [List.length_take,Nat.min_eq_left below.le] at placed
      refine others chain[j] (List.mem_reverse.mpr ?_) (placed.trans same.symm)
      exact List.mem_drop_iff_getElem.mpr ⟨j - target.toNat,by omega,by congr 1; omega⟩
    · exact Outcome.foldInvariant (fun v : Blockchain => v.trie.Sized)
        (fun v block w sized step => rollbackBlockSized (by rwa [popTrie]) step)
        (show (s.mapStore (·.deleteBlocksFrom target)).trie.Sized from provable.sized) run

theorem provableCompanion : Companion False Stamped Provable where
  chronicled := Provable.chronicled
  taken := Provable.stamped
  admits := id
  beside := Provable.beside
  append := appendProvable
  produce := produceProvable
  rollback := rollbackProvable

theorem restampProvable {old new : Block} (provable : Provable [old] s) (index : new.index = old.index)
    (transactions : new.transactions = old.transactions) (baseFee : new.baseFee = old.baseFee) :
    Outcome.Ends (Provable [new]) (fun e _ => ¬e.Caught) (s.replaceTip old new) := by
  have first : old.index = 0 := (provable.chronicled.sound 0 old rfl).position
  have stamped : Stamped new := fun above => by omega
  have anchored : Anchored ([].map Block.stateRoot ++ [new.stateRoot]) s :=
    provable.anchored.beyondFirst rfl (fun i later => by
      rw [List.getElem?_eq_none (by simp; omega),List.getElem?_eq_none (by simp; omega)])
  exact @replaceTipProvable _ [] s old new provable.chronicled (by simp) provable.sized index transactions baseFee
    anchored stamped

omit [Env] in
theorem activateLeaves {address : Address} (run : s.activateFinancialLayer address = .ok t) :
    t = s ∨ s.financialActive = false ∧ ∃ c trie, ChainState.rebuildStateTrie c s.trie = .ok trie ∧ t.trie = trie ∧
      t.stateSnapshots =
        if 0 ≤ s.height then s.stateSnapshots.insert s.height trie.entries else s.stateSnapshots := by
  have finish : ∀ u : Blockchain, u.trie = s.trie → u.height = s.height → u.stateSnapshots = s.stateSnapshots →
      (u.rebuildStateTrie >>= fun u => .ok (if 0 ≤ u.height then
        { u with stateSnapshots := u.stateSnapshots.insert u.height u.trie.snapshot } else u)) = .ok t →
      ∃ c trie, ChainState.rebuildStateTrie c s.trie = .ok trie ∧ t.trie = trie ∧ t.stateSnapshots =
        if 0 ≤ s.height then s.stateSnapshots.insert s.height trie.entries else s.stateSnapshots := by
    intro u same height snapshots run
    rw [Outcome.bindOk] at run
    obtain ⟨v,rebuilt,run⟩ := run
    obtain ⟨trie,made,rfl⟩ := rebuildStateTrieOk rebuilt
    refine ⟨u.state,trie,same ▸ made,?_⟩
    cases run
    rw [← height,← snapshots]
    split
    · rename_i above
      rw [if_pos (show 0 ≤ u.height from above)]
      exact ⟨rfl,rfl⟩
    · rename_i below
      rw [if_neg (show ¬0 ≤ u.height from below)]
      exact ⟨rfl,rfl⟩
  unfold activateFinancialLayer at run
  split at run
  · exact .inl (Except.ok.inj run).symm
  · rename_i idle
    refine .inr ⟨by simpa using idle,?_⟩
    dsimp only at run
    split at run
    · rw [Outcome.bindOk] at run
      obtain ⟨u,allocated,run⟩ := run
      simp only [allocateGenesis,Outcome.bindOk,Outcome.withinOk] at allocated
      obtain ⟨_,⟨ledger,-,rfl⟩,allocated⟩ := allocated
      cases allocated
      exact finish _ (by rfl) (by rfl) (by rfl) run
    · exact finish _ (by rfl) (by rfl) (by rfl) run

theorem activateProvable (provable : Provable chain s) (address : Address)
    (early : s.financialActive = true ∨ s.height ≤ 0) : Stays Provable (s.activateFinancialLayer address) := by
  have ends := activateChronicled provable.chronicled address
  cases run : s.activateFinancialLayer address with
  | error r =>
    rw [run] at ends
    exact fun caught => absurd caught ends
  | ok t =>
    rw [run] at ends
    rcases activateLeaves run with rfl | ⟨idle,c,trie,made,left,snapshots⟩
    · exact ⟨chain,provable⟩
    · have low : s.height ≤ 0 := early.resolve_left (by simp [idle])
      have height := provable.chronicled.height
      have kept : ∀ (i : Int) (entries : Dict String Bytes), t.stateSnapshots[i]? = some entries →
          (i = 0 ∧ 0 ≤ s.height) ∨ s.stateSnapshots[i]? = some entries := by
        intro i entries found
        rw [snapshots] at found
        split at found
        · rename_i above
          rw [Std.ExtTreeMap.getElem?_insert] at found
          split at found
          · rename_i here
            have place : s.height = i := by simpa using here
            exact .inl ⟨by omega,above⟩
          · exact .inr found
        · exact .inr found
      refine ⟨chain,ends,provable.stamped,⟨fun i entries found => ?_,fun i root entries later there found => ?_⟩,?_⟩
      · rcases kept i entries found with ⟨rfl,above⟩ | old
        · rw [List.length_map]
          omega
        · exact provable.anchored.inside i entries old
      · rcases kept i entries found with ⟨place,-⟩ | old
        · omega
        · exact provable.anchored.rooted i root entries later there old
      · have sized := StateTrie.rebuildSized provable.sized c
        rw [made] at sized
        rw [left]
        exact sized

end Companion

/- Calls as they should come: blocks from outside are tidy, a fork has no block of index 0 in
it, and the money is switched on before there is a second block. -/
def Anchoring (s : Blockchain) : Call → Prop
  | .activate _ => s.financialActive = true ∨ s.height ≤ 0
  | c => Orderly False s c

theorem performProvable {chain : List Block} {s : Blockchain} (provable : Provable chain s) (c : Call)
    (anchoring : Anchoring s c) : Arrives Provable (s.perform c) := by
  refine performArrives provableCompanion provable c ?_ ?_ ?_
  · cases c with
    | activate address => trivial
    | _ => exact anchoring
  · intro address sk pk now _
    exact initChainStays provableCompanion provable address sk pk now restampProvable
  · rintro address rfl
    exact activateProvable provable address anchoring

theorem provableNew {validators : Dict Address Bytes} : Provable [] (new (.memory []) validators) where
  chronicled := chronicledNew
  stamped := by simp
  anchored := ⟨fun i entries found => by simp [new] at found,fun i root entries _ there => by simp at there⟩
  sized := fun cached found => by simp [new] at found

theorem stateProofsCheck {validators : Dict Address Bytes} : ∀ s : Blockchain, Reached Anchoring (new (.memory []) validators) s →
    ∀ (key : String) (i : Int) (proof : StateProof), 1 ≤ i → s.getStateProofAtBlock key (some i) = some proof →
      ∃ block, s.getBlockByIndex i = some block ∧ proof.checks block.stateRoot = true := by
  intro s reached key i proof later given
  obtain ⟨chain,provable⟩ := reachedInvariant (fun s => ∃ chain, Provable chain s) ⟨[],provableNew⟩
    (fun _ c ⟨_,provable⟩ anchoring ended => performProvable provable c anchoring ended) reached
  simp only [getStateProofAtBlock] at given
  split at given
  · contradiction
  · rename_i entries found
    obtain ⟨raw,proved,rfl⟩ := Option.map_eq_some_iff.mp given
    obtain ⟨filled,checks⟩ := proofChecks proved
    obtain ⟨-,inside⟩ := provable.anchored.inside i entries found
    rw [List.length_map] at inside
    obtain ⟨block,here⟩ : ∃ block, chain[i.toNat]? = some block :=
      ⟨_,List.getElem?_eq_getElem (show i.toNat < chain.length by omega)⟩
    have rooted := provable.anchored.rooted i.toNat block.stateRoot entries (by omega)
      (by rw [List.getElem?_map,here]; rfl) (by rw [Int.toNat_of_nonneg (by omega)]; exact found) filled
    refine ⟨block,?_,?_⟩
    · rw [getBlockByIndex,Backend.getBlockHolds provable.chronicled.holds,listAt,if_pos (by omega)]
      exact here
    · rw [rooted]
      exact checks

end Blockchain

namespace Devnet
attribute [local instance] legacy
open Blockchain

def Networked (s : Blockchain) : Call → Prop
  | .activate _ => s.height ≤ 0
  | .rollback _ => False
  | _ => True

def rootless : Block := Block.genesis address [] 103

def misplaced : Blockchain := (joined.tryReorg [firstBlock,rootless] 103).2

/- A fork's block of index 0 is taken as its second block, and the proofs for that height check
against nothing. -/
theorem stateProofsUnchecked : ¬∀ s : Blockchain, Reached Networked (new (.memory [])) s →
    ∀ (key : String) (i : Int) (proof : StateProof), 1 ≤ i → s.getStateProofAtBlock key (some i) = some proof →
      ∃ block, s.getBlockByIndex i = some block ∧ proof.checks block.stateRoot = true := by
  have run : ((new (.memory [])).addBlock plainGenesis 100).1.Ended ∧
      (joined.tryReorg [firstBlock,rootless] 103).1.Ended ∧
      ((misplaced.getStateProofAtBlock ("nonce:" ++ address) (some 2)).any (fun proof =>
        (misplaced.getBlockByIndex 2).all (fun block => !proof.checks block.stateRoot))) = true := by
    decide +kernel
  obtain ⟨genesis,forked,unchecked⟩ := run
  intro claim
  have joins : Reached Networked (new (.memory [])) joined := by
    rw [joined]
    exact Reached.receive .start plainGenesis 100 trivial genesis
  have reached : Reached Networked (new (.memory [])) misplaced := by
    rw [misplaced]
    exact Reached.reorg joins [firstBlock,rootless] 103 trivial forked
  cases given : misplaced.getStateProofAtBlock ("nonce:" ++ address) (some 2) with
  | none =>
    rw [given] at unchecked
    exact Bool.false_ne_true unchecked
  | some proof =>
    obtain ⟨block,here,checks⟩ := claim misplaced reached _ 2 proof (by omega) given
    rw [given,here,Option.any_some,Option.all_some,checks] at unchecked
    exact Bool.false_ne_true unchecked

theorem stateProofsCheckNotarized :
    ∃ proof, notarized.getStateProofAtBlock ("nonce:" ++ address) (some 1) = some proof ∧
      ∃ block, notarized.getBlockByIndex 1 = some block ∧ proof.checks block.stateRoot = true := by
  obtain ⟨proof,given⟩ := Option.isSome_iff_exists.mp
    (show (notarized.getStateProofAtBlock ("nonce:" ++ address) (some 1)).isSome = true by decide +kernel)
  exact ⟨proof,given,stateProofsCheck notarized
    (notarizedReached trivial (.inr (by decide +kernel)) trivial trivial) _ 1 proof (by omega) given⟩

end Devnet

end QbitNetwork
