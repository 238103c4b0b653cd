import QbitNetwork.AppendLaws
import QbitNetwork.Runs
import QbitNetwork.Storage
import Mathlib.Algebra.BigOperators.Group.Finset.Basic
import Mathlib.Order.Bounds.Basic

/-! The finality rule: what `_update_finality` walks back to is the highest block whose distinct
producers up to the tip hold more than two thirds of the stake. -/
namespace QbitNetwork

namespace Blockchain

def producersFrom (chainList : List Block) (height : Nat) : Finset Address :=
  ((chainList.drop height).map Block.validator).toFinset

def stakeOf (s : Blockchain) (validators : Finset Address) : Int :=
  ∑ validator ∈ validators, s.state.staking.totalStake.get validator

def Supported (s : Blockchain) (chainList : List Block) (height : Int) : Prop :=
  s.state.staking.totalStake.sum * 2 < s.stakeOf (producersFrom chainList height.toNat) * 3

def finalizable (s : Blockchain) (chainList : List Block) : Set Int :=
  { b | 0 ≤ b ∧ b < chainList.length ∧ s.finalizedHeight < b ∧ s.Supported chainList b }

theorem producersNone (chainList : List Block) : producersFrom chainList chainList.length = ∅ := by
  rw [producersFrom,List.drop_length]
  rfl

theorem producersInsert {chainList : List Block} {height : Nat} {block : Block} (here : chainList[height]? = some block) :
    producersFrom chainList height = insert block.validator (producersFrom chainList (height + 1)) := by
  obtain ⟨inside,rfl⟩ := List.getElem?_eq_some_iff.mp here
  rw [producersFrom,List.drop_eq_getElem_cons inside,List.map_cons,List.toFinset_cons]
  rfl

theorem countStakeInsert {s : Blockchain} {seen : List Address} {validators : Finset Address}
    (met : seen.toFinset = validators) (validator : Address) :
    s.countStake seen (s.stakeOf validators) validator = s.stakeOf (insert validator validators) := by
  subst met
  unfold countStake
  split
  · rename_i known
    rw [Finset.insert_eq_of_mem (List.mem_toFinset.mpr known)]
  · rename_i fresh
    rw [stakeOf,stakeOf,Finset.sum_insert (fun known => fresh (List.mem_toFinset.mp known)),Int.add_comm]

section Walk
variable {s : Blockchain} {chainList : List Block} {low : Int}

def Finds (s : Blockchain) (chainList : List Block) (low high : Int) : Option Int → Prop
  | some b => IsGreatest { b | low < b ∧ b ≤ high ∧ s.Supported chainList b } b
  | none => ∀ b, low < b → b ≤ high → ¬s.Supported chainList b

theorem Finds.pass {high : Int} {found : Option Int} (below : Finds s chainList low (high - 1) found)
    (unsupported : ¬s.Supported chainList high) : Finds s chainList low high found := by
  cases found with
  | some b =>
    obtain ⟨⟨beyond,under,supported⟩,highest⟩ := below
    refine ⟨⟨beyond,by omega,supported⟩,?_⟩
    rintro c ⟨overC,underC,supportedC⟩
    by_cases top : c = high
    · exact absurd (top ▸ supportedC) unsupported
    · exact highest ⟨overC,by omega,supportedC⟩
  | none =>
    intro c overC underC supportedC
    by_cases top : c = high
    · exact unsupported (top ▸ supportedC)
    · exact below c overC (by omega) supportedC

/- The walk stops at the first supported height. Its invariant is that the producers of all
blocks above have been seen, and that their stake is what was counted. -/
theorem finalityWalkFinds (stored : s.backend = .memory chainList) (above : -1 ≤ low) (steps : Nat) :
    ∀ {high : Int} {seen : List Address}, (high - low).toNat = steps → high < chainList.length →
      seen.toFinset = producersFrom chainList (high + 1).toNat →
      Finds s chainList low high (s.finalityWalk s.state.staking.totalStake.sum (downFrom high low) seen
        (s.stakeOf (producersFrom chainList (high + 1).toNat))) := by
  induction steps with
  | zero =>
    intro high seen start inside met
    rw [downFromNone (by omega)]
    intro b beyond under
    omega
  | succ steps ih =>
    intro high seen start inside met
    obtain ⟨height,rfl⟩ := Int.eq_ofNat_of_zero_le (show 0 ≤ high by omega)
    have within : height < chainList.length := by omega
    have here : chainList[height]? = some chainList[height] := List.getElem?_eq_getElem within
    have found : s.getBlockByIndex height = some chainList[height] := by
      rw [getBlockByIndex,stored]
      exact (listAtNat chainList height).trans here
    have counted := countStakeInsert (s := s) met chainList[height].validator
    have joined : insert chainList[height].validator (producersFrom chainList ((height : Int) + 1).toNat) =
        producersFrom chainList height := (producersInsert here).symm
    have next : ((height : Int) - 1 + 1).toNat = height := by omega
    rw [joined] at counted
    rw [downFromCons (by omega),finalityWalk,found]
    dsimp only
    rw [counted]
    split
    · rename_i supported
      exact ⟨⟨by omega,le_refl _,supported⟩,fun b inSet => inSet.2.1⟩
    · rename_i unsupported
      have seenNow : (seen.insert chainList[height].validator).toFinset =
          producersFrom chainList ((height : Int) - 1 + 1).toNat := by
        rw [next,← joined,← met]
        ext validator
        simp
      have below := ih (show ((height : Int) - 1 - low).toNat = steps by omega) (by omega) seenNow
      rw [next] at below
      exact below.pass unsupported

end Walk

theorem finalizesGreatest (s : Blockchain) (chainList : List Block) (stored : s.backend = .memory chainList)
    (active : s.financialActive = true) (staked : 0 < s.state.staking.totalStake.sum) :
    ∃ final, s.updateFinality ((chainList.length : Int) - 1) = { s with finalizedHeight := final } ∧
      (IsGreatest (s.finalizable chainList) final ∨
        s.finalizable chainList = ∅ ∧ final = s.finalizedHeight) := by
  have top : ((chainList.length : Int) - 1 + 1).toNat = chainList.length := by omega
  have unseen : ([] : List Address).toFinset = producersFrom chainList ((chainList.length : Int) - 1 + 1).toNat := by
    rw [top,producersNone]
    rfl
  have uncounted : s.stakeOf (producersFrom chainList ((chainList.length : Int) - 1 + 1).toNat) = 0 := by
    rw [top,producersNone]
    rfl
  have finds := finalityWalkFinds stored (le_max_right s.finalizedHeight (-1)) _ rfl
    (show (chainList.length : Int) - 1 < chainList.length by omega) unseen
  have range : ∀ b, b ∈ s.finalizable chainList ↔ max s.finalizedHeight (-1) < b ∧
      b ≤ (chainList.length : Int) - 1 ∧ s.Supported chainList b := by
    intro b
    simp only [finalizable,Set.mem_ofPred_eq]
    constructor
    · rintro ⟨low,high,beyond,supported⟩
      exact ⟨by omega,by omega,supported⟩
    · rintro ⟨beyond,high,supported⟩
      exact ⟨by omega,by omega,by omega,supported⟩
  rw [uncounted] at finds
  simp only [updateFinality]
  rw [if_neg (by simp only [active,Bool.true_eq_false,false_or]; omega)]
  split
  · rename_i final walk
    rw [walk] at finds
    have inside := (range final).mpr finds.1
    rw [if_pos inside.2.2.1]
    exact ⟨final,rfl,.inl ⟨inside,fun b inSet => finds.2 ((range b).mp inSet)⟩⟩
  · rename_i walk
    rw [walk] at finds
    refine ⟨s.finalizedHeight,rfl,.inr ⟨Set.eq_empty_iff_forall_notMem.mpr (fun b inSet => ?_),rfl⟩⟩
    obtain ⟨beyond,high,supported⟩ := (range b).mp inSet
    exact finds b beyond high supported

end Blockchain

namespace Devnet
attribute [local instance] legacy
open Blockchain

def alternatingBlocks : List Block :=
  ["b","a","a"].map (fun validator => { genesis.tipBlock with validator })

def alternating : Blockchain :=
  { active with
    height := 2
    backend := .memory alternatingBlocks
    state := { active.state with staking := { active.state.staking with
      totalStake := ((Table.empty.set "a" 2).set "b" 2).set "c" 1 } } }

theorem alternatingFinalizes : ∃ final, alternating.updateFinality 2 = { alternating with finalizedHeight := final } ∧
    (IsGreatest (alternating.finalizable alternatingBlocks) final ∨
      alternating.finalizable alternatingBlocks = ∅ ∧ final = alternating.finalizedHeight) :=
  finalizesGreatest alternating alternatingBlocks rfl (by decide +kernel) (by decide +kernel)

end Devnet

end QbitNetwork
