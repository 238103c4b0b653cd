import Std.Data.ExtTreeMap
import Std.Data.ExtTreeSet
import Mathlib.Algebra.Order.Group.Int
import Mathlib.Algebra.BigOperators.Group.List.Basic
import Mathlib.Data.List.Sort
import Mathlib.Tactic.Ring

/-! Finite maps with extensional equality.
`Dict` is a finite map in which an absent key and a present one differ.
`Table` is a total map of finite support: every key outside the support reads the
default, and no row holds the default, so two tables that read alike are equal. -/

abbrev Dict (K V : Type) [Ord K] := Std.ExtTreeMap K V compare

abbrev DSet (K : Type) [Ord K] := Std.ExtTreeSet K compare

instance pairOrd {α β : Type} [Ord α] [Ord β] : Ord (α × β) := lexOrd

namespace Dict

section Sum
variable {K V : Type} [Ord K] [Std.TransOrd K] [Std.LawfulEqOrd K]

def sumBy (weight : K → V → Int) (d : Dict K V) : Int :=
  (d.toList.map (fun row => weight row.1 row.2)).sum

def total (d : Dict K Int) : Int := sumBy (fun _ v => v) d

theorem nodupToList (d : Dict K V) : d.toList.Nodup := by
  have distinct := d.distinct_keys_toList
  refine List.Pairwise.imp ?_ distinct
  intro a b different same
  exact different (by rw [same]; exact Std.ReflCmp.compare_self)

theorem insertPerm (d : Dict K V) (k : K) (v : V) :
    (d.insert k v).toList.Perm ((k,v) :: (d.erase k).toList) := by
  refine (List.perm_ext_iff_of_nodup (nodupToList _) ?_).mpr ?_
  · refine List.nodup_cons.mpr ⟨?_,nodupToList _⟩
    simp [Std.ExtTreeMap.mem_toList_iff_getElem?_eq_some]
  · rintro ⟨a,w⟩
    simp only [Std.ExtTreeMap.mem_toList_iff_getElem?_eq_some,Std.ExtTreeMap.getElem?_insert,
      List.mem_cons,Std.ExtTreeMap.getElem?_erase,Std.compare_eq_iff_eq,Prod.mk.injEq]
    by_cases same : k = a
    · subst same; simp [eq_comm]
    · simp [same,Ne.symm same]

theorem insertErase (d : Dict K V) {k : K} {v : V} (found : d[k]? = some v) :
    (d.erase k).insert k v = d := by
  apply Std.ExtTreeMap.ext_getElem?
  intro a
  by_cases same : k = a
  · subst same; simp [found]
  · simp [Std.ExtTreeMap.getElem?_insert,Std.ExtTreeMap.getElem?_erase,same]

theorem insertSame (d : Dict K V) {k : K} {v : V} (found : d[k]? = some v) :
    d.insert k v = d := by
  apply Std.ExtTreeMap.ext_getElem?
  intro a
  by_cases same : k = a
  · subst same; simp [found]
  · simp [Std.ExtTreeMap.getElem?_insert,same]

theorem eraseAbsent (d : Dict K V) {k : K} (fresh : d[k]? = none) : d.erase k = d := by
  apply Std.ExtTreeMap.ext_getElem?
  intro a
  by_cases same : k = a
  · subst same; simp [fresh]
  · simp [Std.ExtTreeMap.getElem?_erase,same]

theorem memInsert (d : Dict K V) (k a : K) (v : V) : a ∈ d.insert k v ↔ a = k ∨ a ∈ d := by
  rw [Std.ExtTreeMap.mem_insert,Std.compare_eq_iff_eq,@eq_comm K k a]

theorem memErase (d : Dict K V) (k a : K) : a ∈ d.erase k ↔ a ≠ k ∧ a ∈ d := by
  rw [Std.ExtTreeMap.mem_erase,Std.compare_ne_eq_iff_ne,ne_comm]

omit [Std.LawfulEqOrd K] in
theorem absentIff (d : Dict K V) (k : K) : d[k]? = none ↔ k ∉ d := by
  rw [Std.ExtTreeMap.mem_iff_isSome_getElem?]
  cases d[k]? <;> simp

theorem sumByInsertErased (weight : K → V → Int) (d : Dict K V) (k : K) (v : V) :
    sumBy weight (d.insert k v) = weight k v + sumBy weight (d.erase k) := by
  have perm := (insertPerm d k v).map (fun row => weight row.1 row.2)
  simpa [sumBy] using perm.sum_eq

theorem sumByErase (weight : K → V → Int) (d : Dict K V) (k : K) :
    sumBy weight (d.erase k) = sumBy weight d - (d[k]?.map (weight k)).getD 0 := by
  cases found : d[k]? with
  | none => simp [eraseAbsent d found]
  | some v =>
    have whole := sumByInsertErased weight (d.erase k) k v
    rw [insertErase d found,eraseAbsent (d.erase k) (by simp)] at whole
    simp only [Option.map_some,Option.getD_some]
    omega

theorem sumByInsert (weight : K → V → Int) (d : Dict K V) (k : K) (v : V) :
    sumBy weight (d.insert k v) =
      sumBy weight d - (d[k]?.map (weight k)).getD 0 + weight k v := by
  rw [sumByInsertErased,sumByErase]
  omega

theorem totalInsert (d : Dict K Int) (k : K) (v : Int) :
    total (d.insert k v) = total d - d.getD k 0 + v := by
  simpa [total,Std.ExtTreeMap.getD_eq_getD_getElem?,Option.map_id'] using
    sumByInsert (fun _ v => v) d k v

theorem totalErase (d : Dict K Int) (k : K) :
    total (d.erase k) = total d - d.getD k 0 := by
  simpa [total,Std.ExtTreeMap.getD_eq_getD_getElem?,Option.map_id'] using
    sumByErase (fun _ v => v) d k

end Sum

end Dict

namespace DSet
variable {K : Type} [Ord K] [Std.TransOrd K] [Std.LawfulEqOrd K]

theorem memInsert (s : DSet K) (k a : K) : a ∈ s.insert k ↔ a = k ∨ a ∈ s := by
  rw [Std.ExtTreeSet.mem_insert,Std.compare_eq_iff_eq,@eq_comm K k a]

theorem memErase (s : DSet K) (k a : K) : a ∈ s.erase k ↔ a ≠ k ∧ a ∈ s := by
  rw [Std.ExtTreeSet.mem_erase,Std.compare_ne_eq_iff_ne,ne_comm]

end DSet

structure Table (K V : Type) [Ord K] [Std.TransOrd K] (dflt : V) where
  rows : Dict K V
  normal : ∀ k : K, rows[k]? ≠ some dflt

namespace Table
variable {K V : Type} [Ord K] [Std.TransOrd K] {dflt : V}

def empty : Table K V dflt := ⟨∅,by simp⟩

def get (t : Table K V dflt) (k : K) : V := t.rows.getD k dflt

def set [DecidableEq V] (t : Table K V dflt) (k : K) (v : V) : Table K V dflt :=
  if h : v = dflt then ⟨t.rows.erase k,by
    intro a
    rw [Std.ExtTreeMap.getElem?_erase]
    split
    · simp
    · exact t.normal a⟩
  else ⟨t.rows.insert k v,by
    intro a
    rw [Std.ExtTreeMap.getElem?_insert]
    split
    · simpa using h
    · exact t.normal a⟩

def update [DecidableEq V] (t : Table K V dflt) (k : K) (f : V → V) : Table K V dflt :=
  t.set k (f (t.get k))

def items (t : Table K V dflt) : List (K × V) := t.rows.toList

def sum {rest : Int} (t : Table K Int rest) : Int := Dict.total t.rows

@[simp] theorem getEmpty (k : K) : (empty : Table K V dflt).get k = dflt := by
  simp [empty,get]

variable [Std.LawfulEqOrd K]

theorem ext {t u : Table K V dflt} (same : ∀ k, t.get k = u.get k) : t = u := by
  obtain ⟨rows,normal⟩ := t
  obtain ⟨rows',normal'⟩ := u
  have rowsSame : rows = rows' := by
    apply Std.ExtTreeMap.ext_getElem?
    intro k
    have h := same k
    simp only [get,Std.ExtTreeMap.getD_eq_getD_getElem?] at h
    have n := normal k
    have n' := normal' k
    cases a : rows[k]? <;> cases b : rows'[k]? <;> simp_all
  subst rowsSame
  rfl

@[simp] theorem getSet [DecidableEq K] [DecidableEq V] (t : Table K V dflt) (k a : K) (v : V) :
    (t.set k v).get a = if k = a then v else t.get a := by
  unfold set
  split
  · rename_i h
    by_cases same : k = a
    · simp [get,same,h]
    · simp [get,Std.ExtTreeMap.getD_erase,same]
  · by_cases same : k = a
    · simp [get,same]
    · simp [get,Std.ExtTreeMap.getD_insert,same]

@[simp] theorem getUpdate [DecidableEq K] [DecidableEq V] (t : Table K V dflt) (k a : K) (f : V → V) :
    (t.update k f).get a = if k = a then f (t.get k) else t.get a := by
  simp [update]

theorem memItems (t : Table K V dflt) (k : K) (v : V) :
    (k,v) ∈ t.items ↔ t.get k = v ∧ v ≠ dflt := by
  rw [items,Std.ExtTreeMap.mem_toList_iff_getElem?_eq_some,get,
    Std.ExtTreeMap.getD_eq_getD_getElem?]
  have n := t.normal k
  cases found : t.rows[k]? with
  | none => simp only [Option.getD_none,reduceCtorEq,false_iff,not_and]; intro h; simp [h]
  | some w =>
    rw [found] at n
    simp only [Option.some.injEq,Option.getD_some,iff_self_and]
    rintro rfl rfl
    exact n rfl

def mapWhere [DecidableEq V] (selected : K → Bool) (f : V → V) (t : Table K V dflt) :
    Table K V dflt :=
  (t.items.filter (fun row => selected row.1)).foldl (fun t row => t.set row.1 (f row.2)) t

theorem getSetRows [DecidableEq K] [DecidableEq V] (f : V → V) (rows : List (K × V)) (k : K)
    (t : Table K V dflt) (value : V) (consistent : ∀ row ∈ rows, row.1 = k → f row.2 = value) :
    (rows.foldl (fun t row => t.set row.1 (f row.2)) t).get k =
      if k ∈ rows.map Prod.fst then value else t.get k := by
  induction rows generalizing t with
  | nil => simp
  | cons row rows ih =>
    rw [List.foldl_cons,ih _ (fun r mem => consistent r (List.mem_cons_of_mem _ mem))]
    by_cases same : row.1 = k
    · have here := consistent row (List.mem_cons_self ..) same
      simp [same,here]
    · have other : ¬k = row.1 := fun h => same h.symm
      simp only [getSet,if_neg same,List.map_cons,List.mem_cons,other,false_or]

theorem getMapWhere [DecidableEq K] [DecidableEq V] (selected : K → Bool) (f : V → V)
    (t : Table K V dflt) (fixed : f dflt = dflt) (k : K) :
    (t.mapWhere selected f).get k = if selected k then f (t.get k) else t.get k := by
  unfold mapWhere
  rw [getSetRows f _ k t (f (t.get k))]
  · by_cases sel : selected k <;> by_cases absent : t.get k = dflt <;>
      simp [memItems,sel,absent,fixed]
  · rintro ⟨a,v⟩ mem rfl
    simp only [List.mem_filter,memItems] at mem
    rw [mem.1.1]

theorem sumSet (t : Table K Int 0) (k : K) (v : Int) :
    (t.set k v).sum = t.sum - t.get k + v := by
  unfold set
  split
  · rename_i h
    simp [sum,get,Dict.totalErase,h]
  · simp [sum,get,Dict.totalInsert]

def sumBy {rest : V} (weight : K → V → Int) (t : Table K V rest) : Int := Dict.sumBy weight t.rows

theorem sumBySet [DecidableEq V] (weight : K → V → Int) (t : Table K V dflt)
    (nothing : ∀ k, weight k dflt = 0) (k : K) (v : V) :
    (t.set k v).sumBy weight = t.sumBy weight - weight k (t.get k) + weight k v := by
  have old : (t.rows[k]?.map (weight k)).getD 0 = weight k (t.get k) := by
    rw [get,Std.ExtTreeMap.getD_eq_getD_getElem?]
    cases t.rows[k]? with
    | none => exact (nothing k).symm
    | some w => rfl
  unfold set
  split
  · rename_i h
    simp only [sumBy,Dict.sumByErase,old,h,nothing]
    omega
  · simp only [sumBy,Dict.sumByInsert,old]

theorem sumBySetRows [DecidableEq V] [DecidableEq K] (weight : K → V → Int)
    (nothing : ∀ k, weight k dflt = 0) (f : V → V) (rows : List (K × V)) (t : Table K V dflt)
    (distinct : (rows.map Prod.fst).Nodup) (current : ∀ row ∈ rows, t.get row.1 = row.2) :
    (rows.foldl (fun t row => t.set row.1 (f row.2)) t).sumBy weight =
      t.sumBy weight + (rows.map (fun row => weight row.1 (f row.2) - weight row.1 row.2)).sum := by
  induction rows generalizing t with
  | nil => simp
  | cons row rest ih =>
    rw [List.map_cons,List.nodup_cons] at distinct
    have here := current row (List.mem_cons_self ..)
    rw [List.foldl_cons,ih _ distinct.2,sumBySet weight t nothing,here,List.map_cons,List.sum_cons]
    · omega
    · intro other inside
      have different : row.1 ≠ other.1 := fun same =>
        distinct.1 (same ▸ List.mem_map_of_mem inside)
      rw [getSet,if_neg different]
      exact current other (List.mem_cons_of_mem _ inside)

omit [Std.LawfulEqOrd K] in
theorem nodupItems [Std.LawfulEqOrd K] (t : Table K V dflt) : (t.items.map Prod.fst).Nodup := by
  have distinct := t.rows.distinct_keys_toList
  refine List.Pairwise.map _ (fun a b different same => different ?_) distinct
  rw [same]
  exact Std.ReflCmp.compare_self

theorem sumByMapWhere [DecidableEq K] [DecidableEq V] (weight : K → V → Int)
    (nothing : ∀ k, weight k dflt = 0) (selected : K → Bool) (f : V → V) (t : Table K V dflt) :
    (t.mapWhere selected f).sumBy weight = t.sumBy weight +
      ((t.items.filter (fun row => selected row.1)).map
        (fun row => weight row.1 (f row.2) - weight row.1 row.2)).sum := by
  unfold mapWhere
  refine sumBySetRows weight nothing f _ t ?_ ?_
  · exact (nodupItems t).sublist ((List.filter_sublist ..).map _)
  · rintro ⟨k,v⟩ inside
    exact ((memItems ..).mp (List.mem_filter.mp inside).1).1

end Table
