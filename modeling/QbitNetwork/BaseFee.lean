import QbitNetwork.Runs
import Mathlib.Algebra.Order.Group.Abs
import Mathlib.Algebra.Order.Ring.Int
import Mathlib.Logic.Function.Iterate

/-! The step of the base fee from a block to the next: how far it goes, in which direction, and
where a long run of such steps ends. -/
namespace QbitNetwork

section Step
variable {fee fee' weight delta delta' target : Int}

theorem feeDeltaNonneg (fees : 0 ≤ fee) (more : 0 ≤ delta) (positive : 0 < target) :
    0 ≤ fee * delta / target / baseFeeChangeDenom :=
  Int.ediv_nonneg (Int.ediv_nonneg (Int.mul_nonneg fees more) (by omega)) (by decide)

theorem feeDeltaMono (fees : 0 ≤ fee) (higher : fee ≤ fee') (more : 0 ≤ delta) (further : delta ≤ delta')
    (positive : 0 < target) :
    fee * delta / target / baseFeeChangeDenom ≤ fee' * delta' / target / baseFeeChangeDenom := by
  have product : fee * delta ≤ fee' * delta' := Int.mul_le_mul higher further more (by omega)
  exact Int.ediv_le_ediv (by decide) (Int.ediv_le_ediv positive product)

theorem feeDeltaBound (fees : 0 ≤ fee) (near : delta ≤ target) (positive : 0 < target) :
    fee * delta / target / baseFeeChangeDenom ≤ fee / 8 := by
  refine Int.ediv_le_ediv (by decide) (Int.ediv_le_of_le_mul positive ?_)
  exact Int.mul_le_mul_of_nonneg_left near fees

theorem feeDeltaGrowth (higher : fee ≤ fee') (near : delta ≤ target) (positive : 0 < target) :
    fee' * delta / target / baseFeeChangeDenom ≤ fee * delta / target / baseFeeChangeDenom + (fee' - fee) := by
  have split : fee' * delta ≤ fee * delta + (fee' - fee) * target := by
    have := Int.mul_le_mul_of_nonneg_left near (show 0 ≤ fee' - fee by omega)
    rw [Int.sub_mul] at this
    omega
  have first : fee' * delta / target ≤ fee * delta / target + (fee' - fee) := by
    rw [← Int.add_mul_ediv_right _ _ (show target ≠ 0 by omega)]
    exact Int.ediv_le_ediv positive split
  simp only [baseFeeChangeDenom]
  omega

theorem baseFeeRise (low : minBaseFee ≤ fee) (above : target < weight) : computeBaseFee fee weight target =
    min (fee + max 1 (fee * (weight - target) / target / baseFeeChangeDenom)) maxBaseFee := by
  have ordered : minBaseFee ≤ maxBaseFee := by decide
  rw [computeBaseFee,if_neg (by omega),if_pos above]
  dsimp only
  omega

theorem baseFeeFall (low : minBaseFee ≤ fee) (high : fee ≤ maxBaseFee) (nonneg : 0 ≤ weight) (below : weight < target) :
    computeBaseFee fee weight target = fee - fee * (target - weight) / target / baseFeeChangeDenom := by
  have least : 1 ≤ fee := low
  have nothing := feeDeltaNonneg (show 0 ≤ fee by omega) (show 0 ≤ target - weight by omega) (show 0 < target by omega)
  have most := feeDeltaBound (show 0 ≤ fee by omega) (show target - weight ≤ target by omega) (show 0 < target by omega)
  rw [computeBaseFee,if_neg (by omega),if_neg (by omega)]
  dsimp only
  simp only [minBaseFee,maxBaseFee] at high ⊢
  omega

theorem baseFeeStays (low : minBaseFee ≤ fee) (high : fee ≤ maxBaseFee) : computeBaseFee fee target target = fee := by
  rw [computeBaseFee,if_pos rfl]
  exact (congrArg (max minBaseFee) (min_eq_left high)).trans (max_eq_right low)

end Step

section Law

structure FeeStep (fee weight target : Int) : Prop where
  bounds : minBaseFee ≤ computeBaseFee fee weight target ∧ computeBaseFee fee weight target ≤ maxBaseFee
  gradual : |computeBaseFee fee weight target - fee| ≤ max 1 (fee / 8)
  rises : target < weight → fee ≤ computeBaseFee fee weight target ∧
    (fee ≠ maxBaseFee → fee < computeBaseFee fee weight target)
  falls : weight < target → computeBaseFee fee weight target ≤ fee

variable {fee fee' weight weight' target : Int}

theorem feeStep (low : minBaseFee ≤ fee) (high : fee ≤ maxBaseFee) (nonneg : 0 ≤ weight) (near : weight ≤ 2 * target)
    (positive : 0 < target) : FeeStep fee weight target := by
  have least : 1 ≤ fee := low
  rcases Int.lt_trichotomy weight target with below | same | above
  · have step := baseFeeFall low high nonneg below
    have nothing := feeDeltaNonneg (show 0 ≤ fee by omega) (show 0 ≤ target - weight by omega) positive
    have most := feeDeltaBound (show 0 ≤ fee by omega) (show target - weight ≤ target by omega) positive
    refine ⟨baseFeeBounds ..,?_,fun above => by omega,fun _ => by omega⟩
    rw [step,abs_le]
    omega
  · subst same
    have step : computeBaseFee fee weight weight = fee := baseFeeStays low high
    refine ⟨baseFeeBounds ..,?_,fun above => by omega,fun _ => by omega⟩
    rw [step,Int.sub_self,abs_zero]
    omega
  · have step := baseFeeRise low above
    have most := feeDeltaBound (show 0 ≤ fee by omega) (show weight - target ≤ target by omega) positive
    refine ⟨baseFeeBounds ..,?_,fun _ => by omega,fun below => by omega⟩
    rw [step,abs_le]
    omega

theorem baseFeeWeightMono (low : minBaseFee ≤ fee) (high : fee ≤ maxBaseFee) (nonneg : 0 ≤ weight)
    (heavier : weight ≤ weight') (positive : 0 < target) :
    computeBaseFee fee weight target ≤ computeBaseFee fee weight' target := by
  have least : 1 ≤ fee := low
  have side : ∀ {w}, 0 ≤ w → w < target → computeBaseFee fee w target ≤ fee := by
    intro w held below
    have nothing := feeDeltaNonneg (show 0 ≤ fee by omega) (show 0 ≤ target - w by omega) positive
    rw [baseFeeFall low high held below]
    omega
  have other : ∀ {w}, target < w → fee ≤ computeBaseFee fee w target := by
    intro w above
    rw [baseFeeRise low above]
    omega
  rcases Int.lt_trichotomy weight' target with below | same | above
  · have mono := feeDeltaMono (show 0 ≤ fee by omega) (le_refl fee) (show 0 ≤ target - weight' by omega)
      (show target - weight' ≤ target - weight by omega) positive
    rw [baseFeeFall low high nonneg (by omega),baseFeeFall low high (by omega) below]
    omega
  · subst same
    rw [baseFeeStays low high]
    rcases Int.lt_or_eq_of_le heavier with below | equal
    · exact side nonneg below
    · rw [equal,baseFeeStays low high]
  · rcases Int.lt_trichotomy weight target with below | same | higher
    · exact (side nonneg below).trans (other above)
    · rw [same,baseFeeStays low high]
      exact other above
    · have mono := feeDeltaMono (show 0 ≤ fee by omega) (le_refl fee) (show 0 ≤ weight - target by omega)
        (show weight - target ≤ weight' - target by omega) positive
      rw [baseFeeRise low higher,baseFeeRise low above]
      omega

theorem baseFeeMono (low : minBaseFee ≤ fee) (higher : fee ≤ fee') (high : fee' ≤ maxBaseFee) (nonneg : 0 ≤ weight)
    (positive : 0 < target) : computeBaseFee fee weight target ≤ computeBaseFee fee' weight target := by
  have least : 1 ≤ fee := low
  have low' := low.trans higher
  have high' := higher.trans high
  rcases Int.lt_trichotomy weight target with below | same | above
  · have growth := feeDeltaGrowth higher (show target - weight ≤ target by omega) positive
    rw [baseFeeFall low high' nonneg below,baseFeeFall low' high nonneg below]
    omega
  · subst same
    rwa [baseFeeStays low high',baseFeeStays low' high]
  · have mono := feeDeltaMono (show 0 ≤ fee by omega) higher (show 0 ≤ weight - target by omega)
      (le_refl (weight - target)) positive
    rw [baseFeeRise low above,baseFeeRise low' above]
    omega

end Law

section Admission

theorem effectiveWeightBounds (transactions : List Transaction) (validator : Address) :
    0 ≤ effectiveBlockWeight transactions validator ∧
      effectiveBlockWeight transactions validator ≤ blockTotalWeight transactions := by
  unfold effectiveBlockWeight blockTotalWeight
  induction transactions with
  | nil => exact ⟨le_refl 0,le_refl 0⟩
  | cons tx rest ih =>
    have weight := txWeightsNonneg tx.txType
    rw [List.map_cons,List.sum_cons,List.filter_cons]
    split
    · rw [List.map_cons,List.sum_cons]
      omega
    · omega

theorem admittedWeight [Env] {s : Blockchain} {now : Int} {block : Block} {parent : Option Block}
    (dynamic : dynamicActive block.index = true) (valid : s.validateBlock now block parent = .ok ()) :
    0 ≤ effectiveBlockWeight block.transactions block.validator ∧
      effectiveBlockWeight block.transactions block.validator ≤ 2 * targetBlockWeight := by
  have later : block.index ≠ 0 := by
    intro first
    rw [dynamicActive,first] at dynamic
    simp at dynamic
  obtain ⟨above,-,-,-,fees,-⟩ := Blockchain.validateBlockOk later valid
  have checked := fees dynamic
  simp only [dynamicFeeCheck,Outcome.bindOk,refuseIfOk] at checked
  obtain ⟨_,-,_,light,-⟩ := checked
  have bounds := effectiveWeightBounds block.transactions block.validator
  have twice : maxBlockWeight = 2 * targetBlockWeight := by decide
  omega

structure FeeLaw (target : Int) : Prop where
  step : ∀ fee weight, minBaseFee ≤ fee → fee ≤ maxBaseFee → 0 ≤ weight → weight ≤ 2 * target →
    FeeStep fee weight target
  inWeight : ∀ fee weight weight', minBaseFee ≤ fee → fee ≤ maxBaseFee → 0 ≤ weight → weight ≤ weight' →
    weight' ≤ 2 * target → computeBaseFee fee weight target ≤ computeBaseFee fee weight' target
  inFee : ∀ fee fee' weight, minBaseFee ≤ fee → fee ≤ fee' → fee' ≤ maxBaseFee → 0 ≤ weight → weight ≤ 2 * target →
    computeBaseFee fee weight target ≤ computeBaseFee fee' weight target

theorem baseFeeLaw [Env] (target : Int) (positive : 0 < target) : FeeLaw target ∧
    ∀ (s : Blockchain) (now : Int) (block : Block) (parent : Option Block), dynamicActive block.index = true →
      s.validateBlock now block parent = .ok () →
        0 ≤ effectiveBlockWeight block.transactions block.validator ∧
          effectiveBlockWeight block.transactions block.validator ≤ 2 * targetBlockWeight := by
  refine ⟨⟨?_,?_,?_⟩,fun s now block parent => admittedWeight⟩
  · exact fun fee weight low high nonneg near => feeStep low high nonneg near positive
  · exact fun fee weight weight' low high nonneg heavier _ => baseFeeWeightMono low high nonneg heavier positive
  · exact fun fee fee' weight low higher high nonneg _ => baseFeeMono low higher high nonneg positive

theorem baseFeeLawThousand : |computeBaseFee 100 500 1000 - 100| ≤ 12 ∧ computeBaseFee 100 500 1000 < 100 := by
  have law := (@baseFeeLaw Devnet.legacy 1000 (by decide)).1
  have step := law.step 100 500 (by decide) (by decide) (by decide) (by decide)
  exact ⟨step.gradual,by decide⟩

end Admission

section Recovery

def feeAfter (blocks : Nat) (fee weight target : Int) : Int := (computeBaseFee · weight target)^[blocks] fee

def Settles (fee weight target final : Int) : Prop := ∃ blocks, ∀ later, blocks ≤ later → feeAfter later fee weight target = final

variable {fee weight target final : Int}

theorem settlesFixed (fixed : computeBaseFee final weight target = final) : Settles final weight target final :=
  ⟨0,fun later _ => Function.iterate_fixed fixed later⟩

theorem settlesStep (after : Settles (computeBaseFee fee weight target) weight target final) :
    Settles fee weight target final := by
  obtain ⟨blocks,settled⟩ := after
  refine ⟨blocks + 1,fun later enough => ?_⟩
  obtain ⟨rest,rfl⟩ : ∃ rest, later = rest + 1 := ⟨later - 1,by omega⟩
  exact settled rest (by omega)

theorem emptyFall (low : minBaseFee ≤ fee) (high : fee ≤ maxBaseFee) (positive : 0 < target) :
    computeBaseFee fee 0 target = fee - fee / 8 := by
  rw [baseFeeFall low high (le_refl 0) positive,Int.sub_zero,Int.mul_ediv_cancel _ (show target ≠ 0 by omega)]
  rfl

theorem emptySettles (positive : 0 < target) : ∀ (room : Nat) (fee : Int), minBaseFee ≤ fee → fee ≤ maxBaseFee →
    fee ≤ room → Settles fee 0 target (min fee (baseFeeChangeDenom - 1)) := by
  intro room
  induction room with
  | zero =>
    intro fee low _ under
    simp only [minBaseFee] at low
    omega
  | succ room ih =>
    intro fee low high under
    have least : 1 ≤ fee := low
    have fall := emptyFall low high positive
    by_cases small : fee ≤ 7
    · rw [min_eq_left (show fee ≤ baseFeeChangeDenom - 1 from small)]
      exact settlesFixed (by rw [fall]; omega)
    · have low' : minBaseFee ≤ computeBaseFee fee 0 target := (baseFeeBounds ..).1
      have high' : computeBaseFee fee 0 target ≤ maxBaseFee := (baseFeeBounds ..).2
      have rest := ih (computeBaseFee fee 0 target) low' high' (by rw [fall]; omega)
      have above : baseFeeChangeDenom - 1 ≤ computeBaseFee fee 0 target := by
        rw [fall]
        simp only [baseFeeChangeDenom]
        omega
      rw [min_eq_right above] at rest
      rw [min_eq_right (show baseFeeChangeDenom - 1 ≤ fee by simp only [baseFeeChangeDenom]; omega)]
      exact settlesStep rest

theorem congestedSettles (above : target < weight) : ∀ (room : Nat) (fee : Int), minBaseFee ≤ fee → fee ≤ maxBaseFee →
    maxBaseFee - fee ≤ room → Settles fee weight target maxBaseFee := by
  intro room
  induction room with
  | zero =>
    intro fee low high under
    obtain rfl : fee = maxBaseFee := by omega
    refine settlesFixed ?_
    rw [baseFeeRise low above]
    omega
  | succ room ih =>
    intro fee low high under
    have low' : minBaseFee ≤ computeBaseFee fee weight target := (baseFeeBounds ..).1
    have high' : computeBaseFee fee weight target ≤ maxBaseFee := (baseFeeBounds ..).2
    refine settlesStep (ih _ low' high' ?_)
    rw [baseFeeRise low above]
    omega

theorem feeFixed (low : minBaseFee ≤ fee) (high : fee ≤ maxBaseFee) (nonneg : 0 ≤ weight) (positive : 0 < target) :
    computeBaseFee fee weight target = fee ↔ weight = target ∨ (target < weight ∧ fee = maxBaseFee) ∨
      (weight < target ∧ fee * (target - weight) < baseFeeChangeDenom * target) := by
  rcases Int.lt_trichotomy weight target with below | same | above
  · have nothing := feeDeltaNonneg (show 0 ≤ fee from (show (0 : Int) ≤ minBaseFee by decide).trans low)
      (show 0 ≤ target - weight by omega) positive
    have moved : fee * (target - weight) / target / baseFeeChangeDenom < 1 ↔
        fee * (target - weight) < baseFeeChangeDenom * target := by
      rw [Int.ediv_lt_iff_lt_mul (by decide),Int.ediv_lt_iff_lt_mul positive,Int.one_mul]
    rw [baseFeeFall low high nonneg below,← moved]
    omega
  · subst same
    simp [baseFeeStays low high]
  · rw [baseFeeRise low above]
    omega

structure Recovers (target : Int) : Prop where
  empty : ∀ fee, minBaseFee ≤ fee → fee ≤ maxBaseFee → Settles fee 0 target (min fee (baseFeeChangeDenom - 1))
  congested : ∀ fee weight, minBaseFee ≤ fee → fee ≤ maxBaseFee → target < weight → Settles fee weight target maxBaseFee
  fixed : ∀ fee weight, minBaseFee ≤ fee → fee ≤ maxBaseFee → 0 ≤ weight → (computeBaseFee fee weight target = fee ↔
    weight = target ∨ (target < weight ∧ fee = maxBaseFee) ∨
      (weight < target ∧ fee * (target - weight) < baseFeeChangeDenom * target))

theorem baseFeeRecovers (target : Int) (positive : 0 < target) : Recovers target where
  empty := fun fee low high => emptySettles positive fee.toNat fee low high (by omega)
  congested := fun fee weight low high above =>
    congestedSettles above (maxBaseFee - fee).toNat fee low high (by omega)
  fixed := fun _ _ low high nonneg => feeFixed low high nonneg positive

theorem baseFeeRecoversThousand : Settles 1000 0 targetBlockWeight 7 :=
  (baseFeeRecovers targetBlockWeight (by decide)).empty 1000 (by decide) (by decide)

theorem baseFeeStuck : ¬∀ fee, minBaseFee ≤ fee → fee ≤ maxBaseFee →
    ∃ blocks, feeAfter blocks fee 0 targetBlockWeight = minBaseFee := by
  intro claim
  obtain ⟨blocks,reached⟩ := claim 7 (by decide) (by decide)
  have fixed : computeBaseFee 7 0 targetBlockWeight = 7 := by decide
  rw [feeAfter,Function.iterate_fixed fixed] at reached
  exact absurd reached (by decide)

end Recovery

end QbitNetwork
