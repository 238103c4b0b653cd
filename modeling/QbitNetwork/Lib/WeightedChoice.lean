import Mathlib

/-! The choice by weight: of a list of weights, the first entry whose cumulative weight passes a
point. Over the points below the total every entry is chosen as often as it weighs. -/
namespace WeightedChoice
variable {α : Type}

def total (rows : List (α × Int)) : Int := (rows.map Prod.snd).sum

def choose (point : Int) : List (α × Int) → Option α
  | [] => none
  | (a,weight) :: rest => if point < weight then some a else choose (point - weight) rest

structure Weighted (rows : List (α × Int)) : Prop where
  positive : ∀ row ∈ rows, 0 < row.2
  distinct : (rows.map Prod.fst).Nodup

theorem weightedNil : Weighted ([] : List (α × Int)) := ⟨by simp,List.nodup_nil⟩

theorem Weighted.tail {row : α × Int} {rest : List (α × Int)} (weighted : Weighted (row :: rest)) : Weighted rest :=
  ⟨fun other inside => weighted.positive other (List.mem_cons_of_mem _ inside),(List.nodup_cons.mp weighted.distinct).2⟩

theorem Weighted.filter {rows : List (α × Int)} (weighted : Weighted rows) (p : α × Int → Bool) :
    Weighted (rows.filter p) where
  positive := fun row inside => weighted.positive row (List.mem_filter.mp inside).1
  distinct := weighted.distinct.sublist (List.filter_sublist.map Prod.fst)

theorem Weighted.reweigh {rows : List (α × Int)} (weighted : Weighted rows) (p : α × Int → Prop) [DecidablePred p]
    {weight : Int} (positive : 0 < weight) :
    Weighted (rows.map (fun row => if p row then (row.1,weight) else row)) where
  positive := by
    intro row inside
    obtain ⟨old,listed,rfl⟩ := List.mem_map.mp inside
    split
    · exact positive
    · exact weighted.positive old listed
  distinct := by
    rw [List.map_map]
    have same : Prod.fst ∘ (fun row : α × Int => if p row then (row.1,weight) else row) = Prod.fst := by
      funext row
      simp only [Function.comp_apply]
      split <;> rfl
    rw [same]
    exact weighted.distinct

theorem totalCons (a : α) (weight : Int) (rest : List (α × Int)) :
    total ((a,weight) :: rest) = weight + total rest := List.sum_cons

theorem totalNonneg {rows : List (α × Int)} (weighted : Weighted rows) : 0 ≤ total rows := by
  refine List.sum_nonneg (fun weight inside => ?_)
  obtain ⟨row,listed,rfl⟩ := List.mem_map.mp inside
  exact Int.le_of_lt (weighted.positive row listed)

theorem totalPositive {rows : List (α × Int)} (weighted : Weighted rows) (some : rows ≠ []) : 0 < total rows := by
  cases rows with
  | nil => exact absurd rfl some
  | cons row rest =>
    have first := weighted.positive row (List.mem_cons_self ..)
    have others := totalNonneg weighted.tail
    have sum := totalCons row.1 row.2 rest
    rw [Prod.eta] at sum
    omega

theorem chooseSome {rows : List (α × Int)} : ∀ {point : Int}, 0 ≤ point → point < total rows →
    ∃ a, choose point rows = some a := by
  induction rows with
  | nil =>
    intro point nonneg below
    have none : total ([] : List (α × Int)) = 0 := rfl
    omega
  | cons row rest ih =>
    obtain ⟨a,weight⟩ := row
    intro point nonneg below
    rw [totalCons] at below
    rw [choose]
    split
    · exact ⟨a,rfl⟩
    · exact ih (by omega) (by omega)

theorem chooseMem {rows : List (α × Int)} {a : α} : ∀ {point : Int}, choose point rows = some a →
    a ∈ rows.map Prod.fst := by
  induction rows with
  | nil => exact fun chosen => nomatch chosen
  | cons row rest ih =>
    obtain ⟨b,weight⟩ := row
    intro point chosen
    rw [choose] at chosen
    split at chosen
    · cases chosen
      exact List.mem_cons_self ..
    · exact List.mem_cons_of_mem _ (ih chosen)

variable [DecidableEq α]

noncomputable def pointsOf (rows : List (α × Int)) (a : α) : Finset Int :=
  (Finset.Ico 0 (total rows)).filter (fun point => choose point rows = some a)

theorem pointsFirst {rest : List (α × Int)} {a : α} {weight : Int} (weighted : Weighted ((a,weight) :: rest)) :
    pointsOf ((a,weight) :: rest) a = Finset.Ico 0 weight := by
  have others := totalNonneg weighted.tail
  ext point
  simp only [pointsOf,Finset.mem_filter,Finset.mem_Ico,totalCons,choose]
  constructor
  · rintro ⟨⟨low,high⟩,chosen⟩
    split at chosen
    · exact ⟨low,by assumption⟩
    · exact absurd (chooseMem chosen) (List.nodup_cons.mp weighted.distinct).1
  · rintro ⟨low,high⟩
    exact ⟨⟨low,by omega⟩,by rw [if_pos high]⟩

theorem pointsLater {rest : List (α × Int)} {a b : α} {weight : Int} (positive : 0 < weight) (other : a ≠ b) :
    pointsOf ((b,weight) :: rest) a = (pointsOf rest a).map (addRightEmbedding weight) := by
  ext point
  simp only [pointsOf,Finset.mem_filter,Finset.mem_Ico,totalCons,choose,Finset.mem_map,addRightEmbedding_apply]
  constructor
  · rintro ⟨⟨low,high⟩,chosen⟩
    split at chosen
    · exact absurd (Option.some.inj chosen).symm other
    · exact ⟨point - weight,⟨⟨by omega,by omega⟩,chosen⟩,by omega⟩
  · rintro ⟨shifted,⟨⟨low,high⟩,chosen⟩,rfl⟩
    refine ⟨⟨by omega,by omega⟩,?_⟩
    rw [if_neg (by omega),show shifted + weight - weight = shifted by omega]
    exact chosen

theorem pointsCount {rows : List (α × Int)} (weighted : Weighted rows) : ∀ row ∈ rows,
    ((pointsOf rows row.1).card : Int) = row.2 := by
  induction rows with
  | nil => exact fun row inside => nomatch inside
  | cons first rest ih =>
    obtain ⟨b,weight⟩ := first
    have positive : 0 < weight := weighted.positive (b,weight) (List.mem_cons_self ..)
    have fresh : b ∉ rest.map Prod.fst := (List.nodup_cons.mp weighted.distinct).1
    intro row inside
    rcases List.mem_cons.mp inside with rfl | later
    · rw [pointsFirst weighted,Int.card_Ico]
      simp only [Int.sub_zero]
      omega
    · have other : row.1 ≠ b := by
        intro same
        rw [← same] at fresh
        exact fresh (List.mem_map_of_mem later)
      rw [pointsLater positive other,Finset.card_map]
      exact ih weighted.tail row later

end WeightedChoice
