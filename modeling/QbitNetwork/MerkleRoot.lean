import QbitNetwork.Proof

/-! What a Merkle root commits to: the items, their number and their order, up to two of the
hashed inputs that collide. -/
namespace QbitNetwork

section Inputs
variable [Env]

def merkleLayerInputs : List Bytes → List Bytes
  | left :: right :: rest => (1 :: (left ++ right)) :: merkleLayerInputs rest
  | _ => []

def merkleReduceInputs : Nat → List Bytes → List Bytes
  | fuel + 1, left :: right :: rest =>
    merkleLayerInputs (left :: right :: rest) ++ merkleReduceInputs fuel (merkleLayer (left :: right :: rest))
  | _, _ => []

def merkleInputs (items : List Bytes) : List Bytes :=
  items.map (fun item => 0 :: item) ++
    merkleReduceInputs items.length (items.map (fun item => sha3_256 (0 :: item)))

end Inputs

section Binding
variable [Env]

theorem pairUpInputs : ∀ layer : List (Merkle.Tree Bytes),
    (Merkle.Tree.pairUp layer).flatMap (Merkle.Tree.inputs merkleHashing) ⊆
      layer.flatMap (Merkle.Tree.inputs merkleHashing) ++
        merkleLayerInputs (layer.map (Merkle.Tree.digest merkleHashing))
  | [] => by simp [Merkle.Tree.pairUp]
  | [_] => by simp [Merkle.Tree.pairUp]
  | left :: right :: rest => by
    have later := pairUpInputs rest
    intro input inside
    simp only [Merkle.Tree.pairUp,List.flatMap_cons,List.map_cons,merkleLayerInputs,Merkle.Tree.inputs,
      List.mem_append,List.mem_cons] at inside ⊢
    rcases inside with (rfl | below | below) | below
    · exact .inr (.inl rfl)
    · exact .inl (.inl below)
    · exact .inl (.inr (.inl below))
    · rcases List.mem_append.mp (later below) with held | hashed
      · exact .inl (.inr (.inr held))
      · exact .inr (.inr hashed)

theorem buildInputs (fuel : Nat) : ∀ {layer : List (Merkle.Tree Bytes)} {tree : Merkle.Tree Bytes},
    Merkle.Tree.build fuel layer = some tree → tree.inputs merkleHashing ⊆
      layer.flatMap (Merkle.Tree.inputs merkleHashing) ++
        merkleReduceInputs fuel (layer.map (Merkle.Tree.digest merkleHashing)) := by
  have first : ∀ {layer : List (Merkle.Tree Bytes)} {tree : Merkle.Tree Bytes} (more : List Bytes),
      layer.head? = some tree →
      tree.inputs merkleHashing ⊆ layer.flatMap (Merkle.Tree.inputs merkleHashing) ++ more := by
    intro layer tree more head input inside
    exact List.mem_append_left _ (List.mem_flatMap.mpr ⟨tree,List.mem_of_mem_head? head,inside⟩)
  induction fuel with
  | zero => exact first _
  | succ fuel ih =>
    intro layer tree built
    match layer with
    | [] => exact first _ built
    | [_] => exact first _ built
    | left :: right :: rest =>
      intro input inside
      have layers := merkleLayerTrees (left :: right :: rest)
      rw [List.map_cons,List.map_cons] at layers ⊢
      rw [merkleReduceInputs,layers,← List.append_assoc,List.mem_append]
      rcases List.mem_append.mp (ih (show Merkle.Tree.build fuel (Merkle.Tree.pairUp (left :: right :: rest)) = some tree
        from built) inside) with held | hashed
      · exact .inl (pairUpInputs _ held)
      · exact .inr hashed

theorem merkleTreeOf {items : List Bytes} (present : items ≠ []) :
    ∃ tree : Merkle.Tree Bytes, tree.items = items ∧ tree.digest merkleHashing = merkleRoot items ∧
      tree.inputs merkleHashing ⊆ merkleInputs items := by
  obtain ⟨tree,built,root,-⟩ := merkleRootTree present
  have leaves : (items.map Merkle.Tree.leaf).flatMap Merkle.Tree.items = items := by
    rw [List.flatMap_map]
    exact List.flatMap_singleton' items
  refine ⟨tree,?_,root,?_⟩
  · rw [Merkle.Tree.buildAll (by simp) built,leaves]
  · have inputs := buildInputs items.length built
    rw [List.flatMap_map,List.map_map] at inputs
    rw [merkleInputs,List.map_eq_flatMap]
    exact inputs

theorem merkleRootHashed {items : List Bytes} (present : items ≠ []) :
    ∃ x ∈ merkleInputs items, x.head? ≠ some 101 ∧ sha3_256 x = merkleRoot items := by
  obtain ⟨tree,-,root,inputs⟩ := merkleTreeOf present
  refine ⟨tree.top merkleHashing,inputs (tree.topInputs merkleHashing),?_,root⟩
  cases tree <;> simp [Merkle.Tree.top,merkleHashing]

theorem merkleRootLength {items : List Bytes} (present : items ≠ []) : (merkleRoot items).length = 32 := by
  obtain ⟨x,-,-,root⟩ := merkleRootHashed present
  rw [← root,Env.sha3_256Length]

theorem merkleRootTells {xs ys : List Bytes} (present : xs ≠ []) (present' : ys ≠ [])
    (same : merkleRoot xs = merkleRoot ys) : xs = ys ∨ Merkle.Collides sha3_256 (merkleInputs xs) (merkleInputs ys) := by
  obtain ⟨tree,items,root,inputs⟩ := merkleTreeOf present
  obtain ⟨tree',items',root',inputs'⟩ := merkleTreeOf present'
  rcases Merkle.Tree.digestBinds merkleHashing (root.trans (same.trans root'.symm)) with rfl | collides
  · exact .inl (items.symm.trans items')
  · exact .inr (collides.mono inputs inputs')

theorem merkleRootBinds (xs ys : List Bytes) (present : xs ≠ []) (present' : ys ≠ [])
    (same : merkleRoot xs = merkleRoot ys) :
    xs = ys ∨ ∃ x ∈ merkleInputs xs, ∃ y ∈ merkleInputs ys, x ≠ y ∧ sha3_256 x = sha3_256 y :=
  merkleRootTells present present' same

theorem merkleClimbsFrom {items : List Bytes} {leaf : Bytes} {path : List (Bytes × Bool)} (present : items ≠ [])
    (verified : verifyMerkleProof leaf path (merkleRoot items) = true) :
    leaf ∈ items ∨ Merkle.Collides sha3_256 (merkleInputs items) (Merkle.climbed merkleHashing leaf path) := by
  obtain ⟨tree,held,root,inputs⟩ := merkleTreeOf present
  have reaches : merkleHashing.hash (Merkle.climb merkleHashing leaf path) = tree.digest merkleHashing :=
    ((verifyMerkleProofClimb ..).mp verified).trans root.symm
  rcases Merkle.climbSound merkleHashing reaches with inside | collides
  · exact .inl (held ▸ inside)
  · exact .inr (collides.mono inputs (List.Subset.refl _))

theorem merkleProofSound (items : List Bytes) (leaf : Bytes) (path : List (Bytes × Bool)) (present : items ≠ [])
    (verified : verifyMerkleProof leaf path (merkleRoot items) = true) :
    leaf ∈ items ∨ ∃ x ∈ merkleInputs items, ∃ y ∈ Merkle.climbed merkleHashing leaf path,
      x ≠ y ∧ sha3_256 x = sha3_256 y :=
  merkleClimbsFrom present verified

end Binding

namespace Devnet

section Legacy
attribute [local instance] legacy

theorem merkleProofSoundFirst : ([1] : Bytes) ∈ ([[1],[2]] : List Bytes) ∨
    ∃ x ∈ merkleInputs [[1],[2]], ∃ y ∈ Merkle.climbed merkleHashing [1] [(sha3_256 [0,2],false)],
      x ≠ y ∧ sha3_256 x = sha3_256 y :=
  merkleProofSound [[1],[2]] [1] [(sha3_256 [0,2],false)] (by decide) (by decide +kernel)

theorem merkleRootBindsPair :
    ([[1],[2],[3]] : List Bytes) = [[1],[2],[3]] ∨
      ∃ x ∈ merkleInputs [[1],[2],[3]], ∃ y ∈ merkleInputs [[1],[2],[3]],
        x ≠ y ∧ sha3_256 x = sha3_256 y :=
  merkleRootBinds [[1],[2],[3]] [[1],[2],[3]] (by decide) (by decide) rfl

end Legacy

end Devnet

end QbitNetwork
