import Mathlib.Algebra.Order.BigOperators.Group.List
import Mathlib.Algebra.BigOperators.Ring.List
import Mathlib.Algebra.Order.Ring.Int

/-! A pool split in proportion to weights, every part rounded down and the empty parts left out. -/
namespace ProRata
variable {K : Type}

def parts (pool total : Int) (weights : List (K × Int)) : List (K × Int) :=
  (weights.map (fun row => (row.1,pool * row.2 / total))).filter (fun row => 0 < row.2)

def paidOut (rows : List (K × Int)) : Int := (rows.map Prod.snd).sum

theorem partsPositive {pool total : Int} {weights : List (K × Int)} : ∀ row ∈ parts pool total weights, 0 < row.2 := by
  intro row inside
  exact of_decide_eq_true (List.mem_filter.mp inside).2

theorem partsCons (pool total : Int) (row : K × Int) (weights : List (K × Int)) :
    parts pool total (row :: weights) =
      (if 0 < pool * row.2 / total then [(row.1,pool * row.2 / total)] else []) ++ parts pool total weights := by
  rw [parts,List.map_cons,List.filter_cons]
  by_cases positive : 0 < pool * row.2 / total
  · rw [if_pos (decide_eq_true positive),if_pos positive]
    rfl
  · rw [if_neg (by simpa using positive),if_neg positive]
    rfl

theorem partsPerm {pool total : Int} {weights weights' : List (K × Int)} (same : weights.Perm weights') :
    (parts pool total weights).Perm (parts pool total weights') := (same.map _).filter _

theorem paidOutPerm {rows rows' : List (K × Int)} (same : rows.Perm rows') : paidOut rows = paidOut rows' :=
  (same.map Prod.snd).sum_eq

theorem paidOutParts (pool total : Int) (weights : List (K × Int)) :
    paidOut (parts pool total weights) = (weights.map (fun row => max 0 (pool * row.2 / total))).sum := by
  induction weights with
  | nil => rfl
  | cons row weights ih =>
    rw [partsCons,paidOut,List.map_append,List.sum_append,List.map_cons,List.sum_cons,← ih,paidOut]
    split
    · rw [List.map_singleton,List.sum_singleton]
      omega
    · rw [List.map_nil,List.sum_nil]
      omega

theorem partBounded {pool total weight : Int} (some_ : 0 < total) (weighed : 0 ≤ weight) :
    max 0 (pool * weight / total) * total ≤ max 0 pool * weight := by
  rcases Int.le_total 0 pool with gain | loss
  · have owed : 0 ≤ pool * weight := Int.mul_nonneg gain weighed
    rw [Int.max_eq_right (Int.ediv_nonneg owed some_.le),Int.max_eq_right gain]
    exact Int.ediv_mul_le _ some_.ne'
  · have owed : pool * weight ≤ 0 := Int.mul_nonpos_of_nonpos_of_nonneg loss weighed
    have part : pool * weight / total ≤ 0 := by
      have := Int.ediv_le_ediv some_ owed
      rwa [Int.zero_ediv] at this
    rw [Int.max_eq_left part,Int.max_eq_left loss]
    omega

theorem paidOutBounded {pool : Int} {weights : List (K × Int)} (weighed : ∀ row ∈ weights, 0 ≤ row.2) :
    paidOut (parts pool (weights.map Prod.snd).sum weights) ≤ max 0 pool := by
  have total : 0 ≤ (weights.map Prod.snd).sum := List.sum_nonneg (by
    intro amount inside
    obtain ⟨row,listed,rfl⟩ := List.mem_map.mp inside
    exact weighed row listed)
  rw [paidOutParts]
  rcases total.eq_or_lt with nobody | somebody
  · rw [← nobody]
    simp only [Int.ediv_zero,Int.max_self,List.map_const',List.sum_replicate,nsmul_zero]
    exact Int.le_max_left ..
  · refine Int.le_of_mul_le_mul_right ?_ somebody
    calc (weights.map (fun row => max 0 (pool * row.2 / (weights.map Prod.snd).sum))).sum * (weights.map Prod.snd).sum
        = (weights.map (fun row =>
            max 0 (pool * row.2 / (weights.map Prod.snd).sum) * (weights.map Prod.snd).sum)).sum :=
          (List.sum_map_mul_right ..).symm
      _ ≤ (weights.map (fun row => max 0 pool * row.2)).sum :=
          List.sum_le_sum (fun row inside => partBounded somebody (weighed row inside))
      _ = max 0 pool * (weights.map Prod.snd).sum := List.sum_map_mul_left ..

section Recipients
variable [DecidableEq K]

def gains (rows : List (K × Int)) (recipient : K) : Int :=
  ((rows.filter (fun row => row.1 = recipient)).map Prod.snd).sum

theorem gainsPerm {rows rows' : List (K × Int)} (same : rows.Perm rows') (recipient : K) :
    gains rows recipient = gains rows' recipient := ((same.filter _).map Prod.snd).sum_eq

theorem gainsAppend (rows rows' : List (K × Int)) (recipient : K) :
    gains (rows ++ rows') recipient = gains rows recipient + gains rows' recipient := by
  rw [gains,List.filter_append,List.map_append,List.sum_append]
  rfl

theorem gainsCons (row : K × Int) (rows : List (K × Int)) (recipient : K) :
    gains (row :: rows) recipient = (if row.1 = recipient then row.2 else 0) + gains rows recipient := by
  rw [gains,List.filter_cons]
  by_cases same : row.1 = recipient
  · rw [if_pos (decide_eq_true same),if_pos same,List.map_cons,List.sum_cons]
    rfl
  · rw [if_neg (by simpa using same),if_neg same,Int.zero_add]
    rfl

theorem gainsNone (pool total : Int) {weights : List (K × Int)} {recipient : K}
    (absent : recipient ∉ weights.map Prod.fst) : gains (parts pool total weights) recipient = 0 := by
  have none : (parts pool total weights).filter (fun row => row.1 = recipient) = [] := by
    rw [List.filter_eq_nil_iff]
    intro row inside same
    obtain ⟨listed,-⟩ := List.mem_filter.mp inside
    obtain ⟨weight,weighed,rfl⟩ := List.mem_map.mp listed
    exact absent (of_decide_eq_true same ▸ List.mem_map.mpr ⟨weight,weighed,rfl⟩)
  rw [gains,none]
  rfl

theorem gainsPart (pool total : Int) {weights : List (K × Int)} (once : (weights.map Prod.fst).Nodup)
    {recipient : K} {weight : Int} (listed : (recipient,weight) ∈ weights) :
    gains (parts pool total weights) recipient = max 0 (pool * weight / total) := by
  induction weights with
  | nil => cases listed
  | cons row weights ih =>
    rw [List.map_cons,List.nodup_cons] at once
    rw [partsCons,gainsAppend]
    rcases List.mem_cons.mp listed with rfl | later
    · rw [gainsNone pool total once.1,Int.add_zero]
      split
      · rename_i positive
        rw [gainsCons,if_pos rfl,Int.max_eq_right positive.le]
        exact Int.add_zero _
      · rename_i nothing
        exact (Int.max_eq_left (Int.not_lt.mp nothing)).symm
    · have other : row.1 ≠ recipient := fun same => once.1 (same ▸ List.mem_map_of_mem later)
      rw [ih once.2 later]
      split
      · rw [gainsCons,if_neg other,Int.zero_add]
        exact Int.zero_add _
      · exact Int.zero_add _

end Recipients

end ProRata
