import Mathlib.Data.List.Induction
import Mathlib.Data.List.Infix

/-! Hash trees and paths through them, over any hash function. What a path proves is stated
with the inputs that were hashed: the item is in the tree, or two of them collide. -/

namespace Merkle

inductive Tree (Item : Type) where
  | leaf (item : Item)
  | node (left right : Tree Item)

structure Hashing (Item Digest Input : Type) where
  hash : Input → Digest
  leaf : Item → Input
  pair : Digest → Digest → Input
  leafInjective : Function.Injective leaf
  apart : ∀ item left right, leaf item ≠ pair left right
  leftOf : ∀ x l r sibling, pair (hash x) sibling = pair (hash l) (hash r) → hash x = hash l
  rightOf : ∀ x l r sibling, pair sibling (hash x) = pair (hash l) (hash r) → hash x = hash r

def Collides {Input Digest : Type} (hash : Input → Digest) (inputs others : List Input) : Prop :=
  ∃ x ∈ inputs, ∃ y ∈ others, x ≠ y ∧ hash x = hash y

theorem Collides.mono {Input Digest : Type} {hash : Input → Digest} {inputs inputs' others others' : List Input}
    (collides : Collides hash inputs others) (more : inputs ⊆ inputs') (more' : others ⊆ others') :
    Collides hash inputs' others' := by
  obtain ⟨x,here,y,there,apart,same⟩ := collides
  exact ⟨x,more here,y,more' there,apart,same⟩

theorem sameOrCollides {Input Digest : Type} {hash : Input → Digest} {inputs others : List Input} {x y : Input}
    (here : x ∈ inputs) (there : y ∈ others) (same : hash x = hash y) :
    x = y ∨ Collides hash inputs others :=
  (Classical.em (x = y)).imp id (fun apart => ⟨x,here,y,there,apart,same⟩)

theorem listsOrCollides {Input Digest : Type} {hash : Input → Digest} : ∀ {inputs others : List Input},
    inputs.map hash = others.map hash → inputs = others ∨ Collides hash inputs others
  | [],[],_ => .inl rfl
  | [],_ :: _,same => by cases same
  | _ :: _,[],same => by cases same
  | x :: inputs,y :: others,same => by
    rw [List.map_cons,List.map_cons,List.cons.injEq] at same
    rcases sameOrCollides (List.mem_cons_self ..) (List.mem_cons_self ..) same.1 with rfl | collides
    · rcases listsOrCollides same.2 with rfl | collides
      · exact .inl rfl
      · exact .inr (collides.mono (List.subset_cons_self ..) (List.subset_cons_self ..))
    · exact .inr collides

namespace Tree
variable {Item Digest Input : Type}

def items : Tree Item → List Item
  | leaf item => [item]
  | node left right => left.items ++ right.items

def pairUp : List (Tree Item) → List (Tree Item)
  | left :: right :: rest => node left right :: pairUp rest
  | layer => layer

def build : Nat → List (Tree Item) → Option (Tree Item)
  | fuel + 1,left :: right :: rest => build fuel (pairUp (left :: right :: rest))
  | _,layer => layer.head?

theorem pairUpItems : ∀ layer : List (Tree Item), (pairUp layer).flatMap items = layer.flatMap items
  | [] => rfl
  | [_] => rfl
  | left :: right :: rest => by
    rw [pairUp,List.flatMap_cons,pairUpItems rest,items,List.append_assoc,List.flatMap_cons,List.flatMap_cons]

theorem pairUpLength : ∀ layer : List (Tree Item), 2 * (pairUp layer).length ≤ layer.length + 1
  | [] => by simp [pairUp]
  | [_] => by simp [pairUp]
  | left :: right :: rest => by
    have := pairUpLength rest
    simp only [pairUp,List.length_cons]
    omega

theorem buildAll {fuel : Nat} : ∀ {layer : List (Tree Item)} {tree : Tree Item},
    layer.length ≤ fuel + 1 → build fuel layer = some tree → tree.items = layer.flatMap items := by
  induction fuel with
  | zero =>
    intro layer tree short built
    match layer with
    | [] => cases built
    | [only] =>
      cases built
      simp
    | _ :: _ :: _ =>
      simp only [List.length_cons] at short
      omega
  | succ fuel ih =>
    intro layer tree short built
    match layer with
    | [] => cases built
    | [only] =>
      cases built
      simp
    | left :: right :: rest =>
      have halved := pairUpLength (left :: right :: rest)
      simp only [List.length_cons] at short halved
      have below := ih (by omega) (show build fuel (pairUp (left :: right :: rest)) = some tree from built)
      rwa [pairUpItems] at below

theorem buildItems {fuel : Nat} : ∀ {layer : List (Tree Item)} {tree : Tree Item},
    build fuel layer = some tree → tree.items ⊆ layer.flatMap items := by
  have first : ∀ {layer : List (Tree Item)} {tree : Tree Item}, layer.head? = some tree →
      tree.items ⊆ layer.flatMap items := by
    intro layer tree head item inside
    exact List.mem_flatMap.mpr ⟨tree,List.mem_of_mem_head? head,inside⟩
  induction fuel with
  | zero => exact first
  | succ fuel ih =>
    intro layer tree built
    match layer with
    | [] => exact first built
    | [_] => exact first built
    | left :: right :: rest =>
      have below := ih (show build fuel (pairUp (left :: right :: rest)) = some tree from built)
      rwa [pairUpItems] at below

theorem buildSome {fuel : Nat} : ∀ {layer : List (Tree Item)}, layer ≠ [] → (build fuel layer).isSome = true := by
  induction fuel with
  | zero =>
    rintro (_ | ⟨first,rest⟩) present
    · contradiction
    · rfl
  | succ fuel ih =>
    intro layer present
    match layer with
    | [] => contradiction
    | [_] => rfl
    | left :: right :: rest => exact ih (show pairUp (left :: right :: rest) ≠ [] by simp [pairUp])

variable (H : Hashing Item Digest Input)

def top : Tree Item → Input
  | leaf item => H.leaf item
  | node left right => H.pair (H.hash (top left)) (H.hash (top right))

def digest (tree : Tree Item) : Digest := H.hash (tree.top H)

def inputs : Tree Item → List Input
  | leaf item => [H.leaf item]
  | node left right => (node left right).top H :: (inputs left ++ inputs right)

theorem topInputs : ∀ tree : Tree Item, tree.top H ∈ tree.inputs H
  | leaf _ => List.mem_singleton.mpr rfl
  | node _ _ => List.mem_cons_self ..

/- A digest tells the tree apart from every other one, or two inputs collide. The induction
goes down both trees at once. -/
theorem digestBinds : ∀ {tree other : Tree Item}, tree.digest H = other.digest H →
    tree = other ∨ Collides H.hash (tree.inputs H) (other.inputs H) := by
  intro tree
  induction tree with
  | leaf item =>
    intro other same
    rcases sameOrCollides ((leaf item).topInputs H) (other.topInputs H) same with equal | collides
    · cases other with
      | leaf item' => exact .inl (congrArg leaf (H.leafInjective equal))
      | node left right => exact (H.apart _ _ _ equal).elim
    · exact .inr collides
  | node left right leftBinds rightBinds =>
    intro other same
    rcases sameOrCollides ((node left right).topInputs H) (other.topInputs H) same with equal | collides
    · cases other with
      | leaf item' => exact (H.apart _ _ _ equal.symm).elim
      | node left' right' =>
        rcases leftBinds (H.leftOf _ _ _ _ equal) with rfl | collides
        · rcases rightBinds (H.rightOf _ _ _ _ equal) with rfl | collides
          · exact .inl rfl
          · exact .inr (collides.mono (List.subset_cons_of_subset _ (List.subset_append_right ..))
              (List.subset_cons_of_subset _ (List.subset_append_right ..)))
        · exact .inr (collides.mono (List.subset_cons_of_subset _ (List.subset_append_left ..))
            (List.subset_cons_of_subset _ (List.subset_append_left ..)))
    · exact .inr collides

end Tree

section Paths
variable {Item Digest Input : Type} (H : Hashing Item Digest Input)

def stepInput (current : Digest) (step : Digest × Bool) : Input :=
  if step.2 then H.pair step.1 current else H.pair current step.1

def climb (item : Item) (path : List (Digest × Bool)) : Input :=
  path.foldl (fun input step => stepInput H (H.hash input) step) (H.leaf item)

def climbed (item : Item) (path : List (Digest × Bool)) : List Input :=
  path.inits.map (climb H item)

theorem climbSnoc (item : Item) (path : List (Digest × Bool)) (step : Digest × Bool) :
    climb H item (path ++ [step]) = stepInput H (H.hash (climb H item path)) step := by
  rw [climb,List.foldl_append]
  rfl

theorem climbedTop (item : Item) (path : List (Digest × Bool)) : climb H item path ∈ climbed H item path :=
  List.mem_map_of_mem ((List.mem_inits ..).mpr (List.prefix_refl _))

theorem climbedSnoc (item : Item) (path : List (Digest × Bool)) (step : Digest × Bool) :
    climbed H item path ⊆ climbed H item (path ++ [step]) := by
  intro input inside
  obtain ⟨front,initial,rfl⟩ := List.mem_map.mp inside
  exact List.mem_map_of_mem ((List.mem_inits ..).mpr
    (((List.mem_inits ..).mp initial).trans (List.prefix_append ..)))

/- A climb that ends in a tree's digest began at one of its items, or two inputs collide. The
induction is on the path from its end, so that it goes down the tree. -/
theorem climbSound {item : Item} {path : List (Digest × Bool)} : ∀ {tree : Tree Item},
    H.hash (climb H item path) = tree.digest H →
      item ∈ tree.items ∨ Collides H.hash (tree.inputs H) (climbed H item path) := by
  induction path using List.reverseRecOn with
  | nil =>
    intro tree same
    rcases sameOrCollides (tree.topInputs H) (climbedTop H item []) same.symm with equal | collides
    · cases tree with
      | leaf other => exact .inl (List.mem_singleton.mpr (H.leafInjective equal.symm))
      | node left right => exact (H.apart _ _ _ equal.symm).elim
    · exact .inr collides
  | append_singleton path step ih =>
    intro tree same
    rcases sameOrCollides (tree.topInputs H) (climbedTop H item _) same.symm with equal | collides
    · rw [climbSnoc] at equal
      cases tree with
      | leaf other =>
        unfold stepInput at equal
        split at equal
        · exact (H.apart _ _ _ equal).elim
        · exact (H.apart _ _ _ equal).elim
      | node left right =>
        have descend : ∀ {child : Tree Item}, H.hash (climb H item path) = child.digest H →
            child.items ⊆ (Tree.node left right).items →
            child.inputs H ⊆ (Tree.node left right).inputs H →
            item ∈ (Tree.node left right).items ∨
              Collides H.hash ((Tree.node left right).inputs H) (climbed H item (path ++ [step])) := by
          intro child below items inputs
          exact (ih below).imp (fun inside => items inside)
            (fun collides => collides.mono inputs (climbedSnoc H item path step))
        unfold stepInput at equal
        split at equal
        · exact descend (H.rightOf _ _ _ _ equal.symm) (List.subset_append_right ..)
            (fun _ inside => List.mem_cons_of_mem _ (List.mem_append_right _ inside))
        · exact descend (H.leftOf _ _ _ _ equal.symm) (List.subset_append_left ..)
            (fun _ inside => List.mem_cons_of_mem _ (List.mem_append_left _ inside))
    · exact .inr collides

def pathInputs : Digest → List (Digest × Bool) → List Input
  | _,[] => []
  | current,step :: path => stepInput H current step :: pathInputs (H.hash (stepInput H current step)) path

theorem pathInputsAppend : ∀ (current : Digest) (path rest : List (Digest × Bool)),
    pathInputs H current (path ++ rest) = pathInputs H current path ++
      pathInputs H (path.foldl (fun digest step => H.hash (stepInput H digest step)) current) rest
  | _,[],_ => rfl
  | current,step :: path,rest => by
    rw [List.cons_append,pathInputs,pathInputs,pathInputsAppend,List.cons_append,List.foldl_cons]

theorem climbedPath (item : Item) (path : List (Digest × Bool)) :
    climbed H item path = H.leaf item :: pathInputs H (H.hash (H.leaf item)) path := by
  have onward : ∀ (path : List (Digest × Bool)) (input : Input),
      path.inits.map (fun front => front.foldl (fun input step => stepInput H (H.hash input) step) input) =
        input :: pathInputs H (H.hash input) path := by
    intro path
    induction path with
    | nil =>
      intro input
      rfl
    | cons step path ih =>
      intro input
      rw [List.inits_cons,List.map_cons,List.map_map,pathInputs,← ih]
      rfl
  exact onward path (H.leaf item)

end Paths

end Merkle
