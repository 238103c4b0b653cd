import QbitNetwork.Lib.Dict
import Mathlib.Data.List.Nodup

/-! Dictionaries that keep the order in which their keys came in. -/

structure OrderedDict (K V : Type) where
  rows : List (K × V)
  distinct : (rows.map Prod.fst).Nodup

namespace OrderedDict
variable {K V : Type} [DecidableEq K]

def empty : OrderedDict K V := ⟨[],List.nodup_nil⟩

def size (d : OrderedDict K V) : Nat := d.rows.length

def get? (d : OrderedDict K V) (k : K) : Option V := (d.rows.find? (fun row => row.1 = k)).map Prod.snd

def contains (d : OrderedDict K V) (k : K) : Bool := d.rows.any (fun row => row.1 = k)

def pop (d : OrderedDict K V) (k : K) : OrderedDict K V where
  rows := d.rows.filter (fun row => row.1 ≠ k)
  distinct := List.Sublist.nodup (List.filter_sublist.map Prod.fst) d.distinct

theorem containsIff (d : OrderedDict K V) (k : K) : d.contains k = true ↔ ∃ v, (k,v) ∈ d.rows := by
  rw [contains,List.any_eq_true]
  constructor
  · rintro ⟨⟨a,v⟩,inside,same⟩
    obtain rfl : a = k := of_decide_eq_true same
    exact ⟨v,inside⟩
  · rintro ⟨v,inside⟩
    exact ⟨(k,v),inside,decide_eq_true rfl⟩

def set (d : OrderedDict K V) (k : K) (v : V) : OrderedDict K V where
  rows :=
    if d.contains k then d.rows.map (fun row => if row.1 = k then (k,v) else row) else d.rows ++ [(k,v)]
  distinct := by
    split
    · have keys : (d.rows.map (fun row => if row.1 = k then (k,v) else row)).map Prod.fst = d.rows.map Prod.fst := by
        rw [List.map_map]
        refine List.map_congr_left (fun row _ => ?_)
        rw [Function.comp_apply]
        split
        · rename_i same
          exact same.symm
        · rfl
      rw [keys]
      exact d.distinct
    · rename_i fresh
      rw [List.map_append,List.nodup_append]
      refine ⟨d.distinct,List.nodup_singleton k,?_⟩
      intro a inside b last same
      obtain ⟨⟨c,w⟩,listed,rfl⟩ := List.mem_map.mp inside
      rw [List.map_singleton,List.mem_singleton] at last
      obtain rfl : c = k := same.trans last
      exact fresh ((containsIff d c).mpr ⟨w,listed⟩)

@[simp] theorem memPop (d : OrderedDict K V) (k : K) (row : K × V) :
    row ∈ (d.pop k).rows ↔ row ∈ d.rows ∧ row.1 ≠ k := by
  simp [pop]

@[simp] theorem memSet (d : OrderedDict K V) (k : K) (v : V) (row : K × V) :
    row ∈ (d.set k v).rows ↔ row = (k,v) ∨ row ∈ d.rows ∧ row.1 ≠ k := by
  unfold set
  dsimp only
  split
  · rename_i known
    rw [List.mem_map]
    constructor
    · rintro ⟨other,inside,rfl⟩
      split
      · exact .inl rfl
      · rename_i different
        exact .inr ⟨inside,different⟩
    · rintro (rfl | ⟨inside,different⟩)
      · obtain ⟨w,inside⟩ := (containsIff d k).mp known
        exact ⟨(k,w),inside,if_pos rfl⟩
      · exact ⟨row,inside,if_neg different⟩
  · rename_i fresh
    rw [List.mem_append,List.mem_singleton]
    constructor
    · rintro (inside | last)
      · refine .inr ⟨inside,?_⟩
        rintro rfl
        exact fresh ((containsIff d row.1).mpr ⟨row.2,inside⟩)
      · exact .inl last
    · rintro (last | ⟨inside,-⟩)
      · exact .inr last
      · exact .inl inside

omit [DecidableEq K] in
theorem rowUnique (d : OrderedDict K V) {k : K} {v w : V} (one : (k,v) ∈ d.rows) (other : (k,w) ∈ d.rows) : v = w := by
  have same : (k,v) = (k,w) := List.inj_on_of_nodup_map d.distinct one other rfl
  cases same
  rfl

theorem getIff (d : OrderedDict K V) (k : K) (v : V) : d.get? k = some v ↔ (k,v) ∈ d.rows := by
  unfold get?
  rw [Option.map_eq_some_iff]
  constructor
  · rintro ⟨⟨a,w⟩,found,rfl⟩
    have same := List.find?_some found
    obtain rfl : a = k := of_decide_eq_true same
    exact List.mem_of_find?_eq_some found
  · intro inside
    cases found : d.rows.find? (fun row => row.1 = k) with
    | none => exact absurd (decide_eq_true rfl) (List.find?_eq_none.mp found (k,v) inside)
    | some row =>
      obtain ⟨a,w⟩ := row
      have same := List.find?_some found
      obtain rfl : a = k := of_decide_eq_true same
      exact ⟨_,rfl,rowUnique d (List.mem_of_find?_eq_some found) inside⟩

theorem getNone (d : OrderedDict K V) (k : K) : d.get? k = none ↔ ∀ v, (k,v) ∉ d.rows := by
  constructor
  · intro none v inside
    rw [(getIff d k v).mpr inside] at none
    cases none
  · intro absent
    cases found : d.get? k with
    | none => rfl
    | some v => exact absurd ((getIff d k v).mp found) (absent v)

theorem containsGet (d : OrderedDict K V) (k : K) : d.contains k = (d.get? k).isSome := by
  rw [Bool.eq_iff_iff,containsIff,Option.isSome_iff_exists]
  exact exists_congr (fun v => (getIff d k v).symm)

theorem getSet (d : OrderedDict K V) (k : K) (v : V) (a : K) :
    (d.set k v).get? a = if a = k then some v else d.get? a := by
  refine Option.ext (fun w => ?_)
  rw [getIff,memSet]
  split
  · rename_i same
    simp [same,eq_comm]
  · rename_i different
    simp [different,getIff]

theorem getPop (d : OrderedDict K V) (k a : K) : (d.pop k).get? a = if a = k then none else d.get? a := by
  refine Option.ext (fun w => ?_)
  rw [getIff,memPop]
  split
  · rename_i same
    simp [same]
  · rename_i different
    simp [different,getIff]

/- `move_to_end` of a key that is there. -/
def moveToEnd (d : OrderedDict K V) (k : K) : OrderedDict K V :=
  match d.get? k with
  | some v => (d.pop k).set k v
  | none => d

@[simp] theorem getMoveToEnd (d : OrderedDict K V) (k a : K) : (d.moveToEnd k).get? a = d.get? a := by
  unfold moveToEnd
  split
  · rename_i v found
    rw [getSet,getPop]
    split
    · rename_i same
      rw [same,found]
    · rfl
  · rfl

def mapValues {W : Type} (d : OrderedDict K V) (f : V → W) : OrderedDict K W where
  rows := d.rows.map (fun row => (row.1,f row.2))
  distinct := by
    rw [List.map_map]
    exact d.distinct

theorem getMapValues {W : Type} (d : OrderedDict K V) (f : V → W) (k : K) : (d.mapValues f).get? k = (d.get? k).map f := by
  rw [get?,mapValues,List.find?_map,get?,Option.map_map,Option.map_map]
  rfl

theorem sizeSet (d : OrderedDict K V) (k : K) (v : V) :
    (d.set k v).size = if d.contains k then d.size else d.size + 1 := by
  simp only [set,size]
  split <;> simp

@[simp] theorem sizeMoveToEnd (d : OrderedDict K V) (k : K) : (d.moveToEnd k).size = d.size := by
  unfold moveToEnd
  split
  · rename_i v found
    refine List.Perm.length_eq ((List.perm_ext_iff_of_nodup (.of_map _ (OrderedDict.distinct _))
      (.of_map _ d.distinct)).mpr (fun row => ?_))
    rw [memSet,memPop]
    constructor
    · rintro (rfl | ⟨⟨inside,-⟩,-⟩)
      · exact (getIff d k v).mp found
      · exact inside
    · intro inside
      by_cases same : row.1 = k
      · obtain ⟨a,w⟩ := row
        obtain rfl : a = k := same
        exact .inl (congrArg _ (rowUnique d inside ((getIff d _ v).mp found)))
      · exact .inr ⟨⟨inside,same⟩,same⟩
  · rfl

theorem sizePop (d : OrderedDict K V) {k : K} (known : d.contains k = true) : (d.pop k).size + 1 = d.size := by
  have moved := sizeMoveToEnd d k
  rw [containsGet] at known
  obtain ⟨v,found⟩ := Option.isSome_iff_exists.mp known
  rw [moveToEnd,found] at moved
  simp only at moved
  rwa [sizeSet,containsGet,getPop,if_pos rfl] at moved

theorem sizePopLe (d : OrderedDict K V) (k : K) : (d.pop k).size ≤ d.size := List.length_filter_le _ _

/- `popitem(last=False)`, as many times. -/
def dropOldest (d : OrderedDict K V) (n : Nat) : OrderedDict K V where
  rows := d.rows.drop n
  distinct := List.Sublist.nodup ((List.drop_sublist _ _).map Prod.fst) d.distinct

omit [DecidableEq K] in
@[simp] theorem dropOldestZero (d : OrderedDict K V) : d.dropOldest 0 = d := rfl

def keep (d : OrderedDict K V) (test : K → V → Bool) : OrderedDict K V where
  rows := d.rows.filter (fun row => test row.1 row.2)
  distinct := List.Sublist.nodup (List.filter_sublist.map Prod.fst) d.distinct

theorem getKeep (d : OrderedDict K V) (test : K → V → Bool) (k : K) :
    (d.keep test).get? k = (d.get? k).filter (test k) := by
  refine Option.ext (fun v => ?_)
  rw [getIff,Option.filter_eq_some_iff,getIff]
  exact List.mem_filter

theorem flatMapOwn {α : Type} (d : OrderedDict K V) {part : K → V → List α} {label : α → K}
    (labelled : ∀ k v, ∀ a ∈ part k v, label a = k) {k : K} {v : V} (found : d.get? k = some v) :
    (d.rows.flatMap (fun row => part row.1 row.2)).filter (fun a => label a = k) = part k v := by
  have own : (k,v) ∈ d.rows := (getIff ..).mp found
  have distinct := d.distinct
  generalize d.rows = rows at own distinct ⊢
  induction rows with
  | nil => cases own
  | cons row rest ih =>
    obtain ⟨absent,distinct⟩ := List.nodup_cons.mp distinct
    rw [List.flatMap_cons,List.filter_append]
    rcases List.mem_cons.mp own with rfl | later
    · have mine : (part k v).filter (fun a => label a = k) = part k v :=
        List.filter_eq_self.mpr (fun a inside => decide_eq_true (labelled k v a inside))
      refine (congrArg₂ _ mine (List.filter_eq_nil_iff.mpr (fun a inside => ?_))).trans (List.append_nil _)
      obtain ⟨other,among,made⟩ := List.mem_flatMap.mp inside
      rw [labelled _ _ a made,decide_eq_true_eq]
      exact fun same => absent (List.mem_map.mpr ⟨_,among,same⟩)
    · rw [ih later distinct,List.filter_eq_nil_iff.mpr,List.nil_append]
      intro a inside
      rw [labelled _ _ a inside,decide_eq_true_eq]
      rintro rfl
      exact absent (List.mem_map.mpr ⟨_,later,rfl⟩)

section Order
variable [Ord K] [Std.TransOrd K] [Std.LawfulEqOrd K]

def toDict (d : OrderedDict K V) : Dict K V := Std.ExtTreeMap.ofList d.rows compare

theorem toDictGet (d : OrderedDict K V) (k : K) : d.toDict[k]? = d.get? k := by
  have apart : d.rows.Pairwise (fun a b => compare a.1 b.1 ≠ .eq) :=
    (List.pairwise_map.mp d.distinct).imp (fun different same => different (Std.compare_eq_iff_eq.mp same))
  cases found : d.get? k with
  | some v =>
    exact Std.ExtTreeMap.getElem?_ofList_of_mem Std.ReflCmp.compare_self apart ((getIff d k v).mp found)
  | none =>
    refine Std.ExtTreeMap.getElem?_ofList_of_contains_eq_false ?_
    rw [Bool.eq_false_iff]
    intro listed
    obtain ⟨⟨a,v⟩,inside,same⟩ := List.mem_map.mp (List.contains_iff_mem.mp listed)
    exact (getNone d k).mp found v (same ▸ inside)

theorem toDictSet (d : OrderedDict K V) (k : K) (v : V) : (d.set k v).toDict = d.toDict.insert k v := by
  refine Std.ExtTreeMap.ext_getElem? (fun a => Option.ext (fun w => ?_))
  rw [toDictGet,getIff,memSet,Std.ExtTreeMap.getElem?_insert,toDictGet]
  by_cases same : k = a
  · subst same
    simp [eq_comm]
  · rw [if_neg (by simpa using same),getIff]
    simp [Ne.symm same]

theorem toDictPop (d : OrderedDict K V) (k : K) : (d.pop k).toDict = d.toDict.erase k := by
  refine Std.ExtTreeMap.ext_getElem? (fun a => Option.ext (fun w => ?_))
  rw [toDictGet,getIff,memPop,Std.ExtTreeMap.getElem?_erase,toDictGet]
  by_cases same : k = a
  · subst same
    simp
  · rw [if_neg (by simpa using same),getIff]
    simp [Ne.symm same]

/- `sorted(d.keys())`. -/
def sortedKeys (d : OrderedDict K V) : List K :=
  (d.rows.map Prod.fst).mergeSort (fun a b => (compare a b).isLE)

theorem sortedKeysToDict (d : OrderedDict K V) : d.sortedKeys = d.toDict.toList.map Prod.fst := by
  have ordered : (d.toDict.toList.map Prod.fst).Pairwise (fun a b => compare a b = .lt) :=
    List.pairwise_map.mpr d.toDict.ordered_keys_toList
  have total : ∀ a b : K, ((compare a b).isLE || (compare b a).isLE) = true := by
    intro a b
    have swapped : compare b a = (compare a b).swap := Std.OrientedCmp.eq_swap
    rw [swapped]
    cases compare a b <;> rfl
  have irreflexive : ∀ {a b : K}, compare a b = .lt → a ≠ b := by
    rintro a _ below rfl
    have same : compare a a = .eq := Std.ReflCmp.compare_self
    rw [same] at below
    cases below
  have sorted : d.sortedKeys.Pairwise (fun a b => (compare a b).isLE = true) :=
    List.pairwise_mergeSort (fun _ _ _ => Std.TransCmp.isLE_trans) total _
  have perm : d.sortedKeys.Perm (d.toDict.toList.map Prod.fst) := by
    refine (List.mergeSort_perm _ _).trans ((List.perm_ext_iff_of_nodup d.distinct ?_).mpr (fun k => ?_))
    · exact ordered.imp irreflexive
    · simp only [List.mem_map,Prod.exists,exists_and_right,exists_eq_right,
        Std.ExtTreeMap.mem_toList_iff_getElem?_eq_some,toDictGet,getIff]
  refine perm.eq_of_pairwise (fun a b _ _ first second => ?_) sorted (ordered.imp (fun below => by rw [below]; rfl))
  exact Std.compare_eq_iff_eq.mp (Std.OrientedCmp.isLE_antisymm first second)

end Order

end OrderedDict
