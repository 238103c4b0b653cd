import QbitNetwork.JsonText
import QbitNetwork.MerkleRoot
import Mathlib.Data.Nat.Log

/-! Inclusion proofs: the path `merkle_proof` gives for an item leads from it to the root. -/
namespace QbitNetwork
variable [Env]

section Generation

def merkleSibling (layer : List Bytes) (idx : Nat) : List (Bytes × Bool) :=
  if idx % 2 = 0 then (layer[idx + 1]?).toList.map (fun sibling => (sibling,false))
  else (layer[idx - 1]?).toList.map (fun sibling => (sibling,true))

def merkleSiblings : Nat → List Bytes → Nat → List (Bytes × Bool)
  | fuel + 1,left :: right :: rest,idx =>
    merkleSibling (left :: right :: rest) idx ++
      merkleSiblings fuel (merkleLayer (left :: right :: rest)) (idx / 2)
  | _,_,_ => []

def merkleProof (items : List Bytes) (index : Nat) : List (Bytes × Bool) :=
  if items.length ≤ index then []
  else merkleSiblings items.length (items.map (fun item => sha3_256 (0 :: item))) index

def pastSibling (current : Bytes) (step : Bytes × Bool) : Bytes :=
  if step.2 then merkleNode step.1 current else merkleNode current step.1

end Generation

omit [Env] in
theorem merkleSiblingLater (left right : Bytes) (rest : List Bytes) (idx : Nat) :
    merkleSibling (left :: right :: rest) (idx + 2) = merkleSibling rest idx := by
  unfold merkleSibling
  rw [Nat.add_mod_right]
  split
  · rfl
  · rename_i odd
    obtain ⟨below,rfl⟩ : ∃ below, idx = below + 1 := ⟨idx - 1,by omega⟩
    rfl

theorem merkleLayerAt : ∀ (layer : List Bytes) (idx : Nat) (current : Bytes), layer[idx]? = some current →
    (merkleLayer layer)[idx / 2]? = some ((merkleSibling layer idx).foldl pastSibling current)
  | [],_,_,found => by simp at found
  | [only],idx,current,found => by
    have first : idx = 0 := by
      have := (List.getElem?_eq_some_iff.mp found).1
      simpa using this
    subst first
    cases found
    rfl
  | left :: right :: rest,0,current,found => by
    cases found
    rfl
  | left :: right :: rest,1,current,found => by
    cases found
    rfl
  | left :: right :: rest,idx + 2,current,found => by
    have above := merkleLayerAt rest idx current found
    have half : (idx + 2) / 2 = idx / 2 + 1 := by omega
    rw [merkleLayer,half,List.getElem?_cons_succ,above,merkleSiblingLater]

theorem merkleLayerLength : ∀ layer : List Bytes, (merkleLayer layer).length = (layer.length + 1) / 2
  | [] => rfl
  | [_] => by simp [merkleLayer]
  | left :: right :: rest => by
    rw [merkleLayer,List.length_cons,merkleLayerLength rest,List.length_cons,List.length_cons]
    omega

theorem merkleSiblingsClimb (fuel : Nat) : ∀ {layer : List Bytes} {idx : Nat} {current : Bytes},
    layer.length ≤ fuel + 1 → layer[idx]? = some current →
      (merkleSiblings fuel layer idx).foldl pastSibling current = merkleReduce fuel layer := by
  have top : ∀ {layer : List Bytes} {idx : Nat} {current : Bytes}, layer.length ≤ 1 →
      layer[idx]? = some current → current = layer.headD [] := by
    intro layer idx current short found
    have inside := (List.getElem?_eq_some_iff.mp found).1
    obtain rfl : idx = 0 := by omega
    rw [List.headD_eq_head?_getD,List.head?_eq_getElem?,found]
    rfl
  induction fuel with
  | zero =>
    intro layer idx current short found
    exact top short found
  | succ fuel ih =>
    intro layer idx current short found
    match layer with
    | [] => simp at found
    | [only] => exact top (Nat.le_refl 1) found
    | left :: right :: rest =>
      rw [merkleSiblings,List.foldl_append,merkleReduce]
      refine ih ?_ (merkleLayerAt _ _ _ found)
      rw [merkleLayerLength]
      omega

theorem merkleProofVerifies {items : List Bytes} {index : Nat} {item : Bytes}
    (found : items[index]? = some item) :
    verifyMerkleProof item (merkleProof items index) (merkleRoot items) = true := by
  have inside := (List.getElem?_eq_some_iff.mp found).1
  have present : items.isEmpty = false := by
    cases items with
    | nil => simp at found
    | cons _ _ => rfl
  have leaf : (items.map (fun item => sha3_256 (0 :: item)))[index]? = some (sha3_256 (0 :: item)) := by
    rw [List.getElem?_map,found]
    rfl
  have climbs := merkleSiblingsClimb items.length (by simp) leaf
  rw [verifyMerkleProof,merkleProof,if_neg (by omega),merkleRoot,if_neg (by simp [present]),beq_iff_eq]
  exact climbs

section Length

omit [Env] in
theorem merkleSiblingLength (layer : List Bytes) (idx : Nat) : (merkleSibling layer idx).length ≤ 1 := by
  unfold merkleSibling
  split
  · rw [List.length_map]
    exact Option.length_toList_le
  · rw [List.length_map]
    exact Option.length_toList_le

theorem merkleSiblingsLength (fuel : Nat) : ∀ (layer : List Bytes) (idx : Nat),
    (merkleSiblings fuel layer idx).length ≤ Nat.clog 2 layer.length := by
  induction fuel with
  | zero =>
    intro layer idx
    exact Nat.zero_le _
  | succ fuel ih =>
    intro layer idx
    match layer with
    | [] => exact Nat.zero_le _
    | [_] => exact Nat.zero_le _
    | left :: right :: rest =>
      have here := merkleSiblingLength (left :: right :: rest) idx
      have above := ih (merkleLayer (left :: right :: rest)) (idx / 2)
      have halved : Nat.clog 2 (left :: right :: rest).length =
          Nat.clog 2 (merkleLayer (left :: right :: rest)).length + 1 := by
        rw [Nat.clog_of_two_le (Nat.le_refl 2) (by simp),merkleLayerLength]
        rfl
      rw [merkleSiblings,List.length_append,halved]
      omega

theorem merkleProofComplete (items : List Bytes) (index : Nat) (inside : index < items.length) :
    verifyMerkleProof (items.get ⟨index,inside⟩) (merkleProof items index) (merkleRoot items) = true ∧
      (merkleProof items index).length ≤ Nat.clog 2 items.length := by
  refine ⟨merkleProofVerifies (List.getElem?_eq_getElem inside),?_⟩
  rw [merkleProof,if_neg (by omega)]
  have short := merkleSiblingsLength items.length (items.map (fun item => sha3_256 (0 :: item))) index
  rwa [List.length_map] at short

end Length

section Inputs

theorem merkleSiblingInputs : ∀ (layer : List Bytes) (idx : Nat) (current : Bytes), layer[idx]? = some current →
    Merkle.pathInputs merkleHashing current (merkleSibling layer idx) ⊆ merkleLayerInputs layer
  | [],_,_,found => by simp at found
  | [only],idx,current,found => by
    have first : idx = 0 := by
      have := (List.getElem?_eq_some_iff.mp found).1
      simpa using this
    subst first
    exact List.nil_subset _
  | left :: right :: rest,0,current,found => by
    cases found
    exact List.cons_subset.mpr ⟨List.mem_cons_self ..,List.nil_subset _⟩
  | left :: right :: rest,1,current,found => by
    cases found
    exact List.cons_subset.mpr ⟨List.mem_cons_self ..,List.nil_subset _⟩
  | left :: right :: rest,idx + 2,current,found => by
    have later := merkleSiblingInputs rest idx current found
    rw [merkleSiblingLater]
    exact List.subset_cons_of_subset _ later

theorem merkleSiblingsInputs (fuel : Nat) : ∀ {layer : List Bytes} {idx : Nat} {current : Bytes},
    layer[idx]? = some current →
      Merkle.pathInputs merkleHashing current (merkleSiblings fuel layer idx) ⊆ merkleReduceInputs fuel layer := by
  induction fuel with
  | zero =>
    intro layer idx current found
    exact List.nil_subset _
  | succ fuel ih =>
    intro layer idx current found
    match layer with
    | [] => exact List.nil_subset _
    | [_] => exact List.nil_subset _
    | left :: right :: rest =>
      have here := merkleSiblingInputs _ _ _ found
      have above := ih (merkleLayerAt _ _ _ found)
      rw [merkleSiblings,Merkle.pathInputsAppend,merkleReduceInputs]
      refine List.append_subset.mpr ⟨List.subset_append_of_subset_left _ here,List.subset_append_of_subset_right _ ?_⟩
      have steps : (merkleSibling (left :: right :: rest) idx).foldl
          (fun digest step => merkleHashing.hash (Merkle.stepInput merkleHashing digest step)) current =
          (merkleSibling (left :: right :: rest) idx).foldl pastSibling current := by
        congr 1
        funext digest step
        unfold Merkle.stepInput pastSibling
        split <;> rfl
      rw [steps]
      exact above

theorem merkleProofInputs {items : List Bytes} {index : Nat} {item : Bytes} (found : items[index]? = some item) :
    Merkle.climbed merkleHashing item (merkleProof items index) ⊆ merkleInputs items := by
  have inside := (List.getElem?_eq_some_iff.mp found).1
  have leaf : (items.map (fun item => sha3_256 (0 :: item)))[index]? = some (sha3_256 (0 :: item)) := by
    rw [List.getElem?_map,found]
    rfl
  rw [Merkle.climbedPath,merkleProof,if_neg (by omega),merkleInputs]
  refine List.cons_subset.mpr ⟨List.mem_append_left _ ?_,List.subset_append_of_subset_right _ ?_⟩
  · exact List.mem_map_of_mem (List.mem_of_getElem? found)
  · exact merkleSiblingsInputs items.length leaf

end Inputs

section Text

omit [Env]

theorem hexPresent {digest : Bytes} (sized : digest.length = 32) : hex digest ≠ "" := by
  intro none
  have empty : digest = [] := hexInjective none
  rw [empty] at sized
  contradiction

def hexPath (path : List (Bytes × Bool)) : List (String × Bool) := path.map (fun step => (hex step.1,step.2))

def readPath (path : List (String × Bool)) : Option (List (Bytes × Bool)) :=
  path.mapM (fun step => (fromHex step.1).map (fun sibling => (sibling,step.2)))

theorem readHexPath (path : List (Bytes × Bool)) : readPath (hexPath path) = some path := by
  induction path with
  | nil => rfl
  | cons step rest ih =>
    rw [readPath,hexPath] at ih
    rw [readPath,hexPath,List.map_cons,List.mapM_cons,ih,Json.fromHexHex]
    rfl

end Text

end QbitNetwork

namespace QbitNetwork.Devnet

section Legacy
attribute [local instance] legacy

theorem merkleProofCompleteThird :
    verifyMerkleProof [3] (merkleProof [[1],[2],[3]] 2) (merkleRoot [[1],[2],[3]]) = true ∧
      (merkleProof [[1],[2],[3]] 2).length ≤ Nat.clog 2 3 :=
  merkleProofComplete [[1],[2],[3]] 2 (by decide)

end Legacy

end QbitNetwork.Devnet
