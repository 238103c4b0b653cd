import QbitNetwork.Lib.Clamped
import QbitNetwork.RollbackLaws
import QbitNetwork.Supply
import QbitNetwork.Upheld

/-! The undo of a block's stake and evidence transactions: where it leads back to the stake tables
before the block. -/
namespace QbitNetwork

open Clamped

namespace Transaction

def stakeMoves (tx : Transaction) : List ((Address × Address) × Int) :=
  if tx.payload.validatorAddress.getD "" ≠ "" ∧ 0 < tx.payload.amount.getD 0 then
    match tx.txType with
    | .STAKE | .DELEGATE => [((tx.payload.validatorAddress.getD "",tx.sender),tx.payload.amount.getD 0)]
    | .UNSTAKE => [((tx.payload.validatorAddress.getD "",tx.sender),-tx.payload.amount.getD 0)]
    | _ => []
  else []

def totalMoves (tx : Transaction) : List (Address × Int) := tx.stakeMoves.map (fun row => (row.1.1,row.2))

def Accuses (tx : Transaction) (vaddr : Address) : Prop :=
  tx.txType = .EVIDENCE ∧ vaddr ≠ "" ∧ tx.payload.validatorAddress.getD "" = vaddr

def Proves [Env] (tx : Transaction) (txId : String) : Prop :=
  tx.txType = .EVIDENCE ∧ tx.payload.validatorAddress.getD "" ≠ "" ∧ tx.txId = txId

instance (tx : Transaction) (vaddr : Address) : Decidable (tx.Accuses vaddr) := by unfold Accuses; infer_instance

instance [Env] (tx : Transaction) (txId : String) : Decidable (tx.Proves txId) := by unfold Proves; infer_instance

end Transaction

open Transaction

namespace Staking
variable [Env]

section UndoStep

structure Covered (k : Staking) : Prop where
  stakes : ∀ key, 0 ≤ k.stakes.get key
  totals : ∀ vaddr, 0 ≤ k.totalStake.get vaddr

theorem undoTxStakes {k : Staking} (covered : k.Covered) (lookup : Address → Option Bytes) (tx : Transaction)
    (blockIndex : Int) :
    (∀ key, (k.undoTx lookup tx blockIndex).stakes.get key = settle (k.stakes.get key) (backSteps key tx.stakeMoves)) ∧
      ∀ vaddr, (k.undoTx lookup tx blockIndex).totalStake.get vaddr =
        settle (k.totalStake.get vaddr) (backSteps vaddr tx.totalMoves) := by
  have idle : tx.stakeMoves = [] → ∀ k' : Staking, k'.stakes = k.stakes → k'.totalStake = k.totalStake →
      (∀ key, k'.stakes.get key = settle (k.stakes.get key) (backSteps key tx.stakeMoves)) ∧
        ∀ vaddr, k'.totalStake.get vaddr = settle (k.totalStake.get vaddr) (backSteps vaddr tx.totalMoves) := by
    intro none k' stakes totals
    rw [totalMoves,none,stakes,totals]
    exact ⟨fun _ => rfl,fun _ => rfl⟩
  have moving : ∀ (place : Address × Address) (amount : Int) (f : Int → Int),
      (∀ current, 0 ≤ current → f current = max 0 (current + -amount)) → tx.stakeMoves = [(place,amount)] →
      ∀ k' : Staking, k'.stakes = k.stakes.update place f → k'.totalStake = k.totalStake.update place.1 f →
      (∀ key, k'.stakes.get key = settle (k.stakes.get key) (backSteps key tx.stakeMoves)) ∧
        ∀ vaddr, k'.totalStake.get vaddr = settle (k.totalStake.get vaddr) (backSteps vaddr tx.totalMoves) := by
    intro place amount f moves one k' stakes totals
    rw [totalMoves,one,stakes,totals]
    refine ⟨fun key => ?_,fun vaddr => ?_⟩
    · have held := covered.stakes key
      simp only [Table.getUpdate,backSteps,settle,List.map_cons,List.map_nil,List.foldl_cons,List.foldl_nil]
      split
      · rename_i own
        subst own
        exact moves _ held
      · rw [Int.add_zero,Int.max_eq_right held]
    · have held := covered.totals vaddr
      simp only [Table.getUpdate,backSteps,settle,List.map_cons,List.map_nil,List.foldl_cons,List.foldl_nil]
      split
      · rename_i own
        subst own
        exact moves _ held
      · rw [Int.add_zero,Int.max_eq_right held]
  unfold undoTx
  dsimp only
  cases kind : tx.txType
  case STAKE | DELEGATE =>
    by_cases applies : tx.payload.validatorAddress.getD "" ≠ "" ∧ 0 < tx.payload.amount.getD 0
    · dsimp only
      rw [if_pos applies]
      refine moving (tx.payload.validatorAddress.getD "",tx.sender) (tx.payload.amount.getD 0)
        (fun current => max 0 (current - tx.payload.amount.getD 0)) (fun current _ => rfl) ?_ _ rfl rfl
      rw [stakeMoves,if_pos applies,kind]
    · dsimp only
      rw [if_neg applies]
      exact idle (if_neg applies) k rfl rfl
  case UNSTAKE =>
    by_cases applies : tx.payload.validatorAddress.getD "" ≠ "" ∧ 0 < tx.payload.amount.getD 0
    · dsimp only
      rw [if_pos applies]
      refine moving (tx.payload.validatorAddress.getD "",tx.sender) (-tx.payload.amount.getD 0)
        (· + tx.payload.amount.getD 0) (fun current held => ?_) ?_ _ rfl rfl
      · rw [Int.neg_neg,Int.max_eq_right (by omega)]
      · rw [stakeMoves,if_pos applies,kind]
    · dsimp only
      rw [if_neg applies]
      exact idle (if_neg applies) k rfl rfl
  all_goals
    have none : tx.stakeMoves = [] := by
      rw [stakeMoves,kind]
      exact ite_self _
    refine idle none _ ?_ ?_
  case REVOKE_KEY.refine_1 | REVOKE_KEY.refine_2 =>
    simp only [undoRevokeKey]
    split
    · split <;> rfl
    · rfl
  case REGISTER_VALIDATOR.refine_1 | REGISTER_VALIDATOR.refine_2 | EVIDENCE.refine_1 | EVIDENCE.refine_2 =>
    dsimp only
    split <;> rfl
  all_goals rfl

theorem undoTxSlashed (k : Staking) (lookup : Address → Option Bytes) (tx : Transaction) (blockIndex : Int)
    (vaddr : Address) :
    (vaddr ∈ (k.undoTx lookup tx blockIndex).slashedValidators ↔ vaddr ∈ k.slashedValidators ∧ ¬tx.Accuses vaddr) ∧
      (vaddr ∈ (k.undoTx lookup tx blockIndex).processedEvidence ↔ vaddr ∈ k.processedEvidence ∧ ¬tx.Accuses vaddr) := by
  unfold undoTx
  cases kind : tx.txType
  case EVIDENCE =>
    simp only [Accuses,kind,true_and]
    by_cases none : tx.payload.validatorAddress.getD "" = ""
    · have nobody : ¬(vaddr ≠ "" ∧ tx.payload.validatorAddress.getD "" = vaddr) :=
        fun both => both.1 (both.2.symm.trans none)
      rw [if_pos none]
      simp [nobody]
    · rw [if_neg none]
      simp only [DSet.memErase]
      have other : vaddr ≠ tx.payload.validatorAddress.getD "" ↔
          ¬(vaddr ≠ "" ∧ tx.payload.validatorAddress.getD "" = vaddr) := by
        constructor
        · exact fun apart both => apart both.2.symm
        · rintro apart rfl
          exact apart ⟨none,rfl⟩
      rw [other]
      exact ⟨and_comm,and_comm⟩
  case REVOKE_KEY =>
    simp only [Accuses,kind,reduceCtorEq,false_and,not_false_eq_true,and_true,undoRevokeKey]
    split
    · split <;> exact ⟨Iff.rfl,Iff.rfl⟩
    · exact ⟨Iff.rfl,Iff.rfl⟩
  case REGISTER_VALIDATOR | STAKE | DELEGATE | UNSTAKE =>
    simp only [Accuses,kind,reduceCtorEq,false_and,not_false_eq_true,and_true]
    split <;> exact ⟨Iff.rfl,Iff.rfl⟩
  all_goals
    simp only [Accuses,kind,reduceCtorEq,false_and,not_false_eq_true,and_true]

theorem undoTxEvents (k : Staking) (lookup : Address → Option Bytes) (tx : Transaction) (blockIndex : Int) :
    (k.undoTx lookup tx blockIndex).slashingEvents = k.slashingEvents.filter (fun event => ¬tx.Proves event.evidenceTxId) := by
  have idle : ∀ k' : Staking, k'.slashingEvents = k.slashingEvents → (∀ txId, ¬tx.Proves txId) →
      k'.slashingEvents = k.slashingEvents.filter (fun event => ¬tx.Proves event.evidenceTxId) := by
    intro k' same none
    rw [same,eq_comm,List.filter_eq_self]
    exact fun event _ => decide_eq_true (none _)
  have other : tx.txType ≠ .EVIDENCE → ∀ txId, ¬tx.Proves txId := fun apart _ proves => apart proves.1
  unfold undoTx
  cases kind : tx.txType
  case EVIDENCE =>
    dsimp only
    by_cases none : tx.payload.validatorAddress.getD "" = ""
    · rw [if_pos none]
      exact idle k rfl (fun txId proves => proves.2.1 none)
    · rw [if_neg none]
      refine List.filter_congr (fun event _ => decide_eq_decide.mpr ?_)
      rw [Proves,kind]
      simp only [true_and,ne_eq,none,not_false_eq_true,eq_comm]
  case REVOKE_KEY =>
    refine idle _ ?_ (other (by rw [kind]; decide))
    simp only [undoRevokeKey]
    split
    · split <;> rfl
    · rfl
  case REGISTER_VALIDATOR | STAKE | DELEGATE | UNSTAKE =>
    refine idle _ ?_ (other (by rw [kind]; decide))
    dsimp only
    split <;> rfl
  all_goals exact idle k rfl (other (by rw [kind]; decide))

theorem undoTxValidators (k : Staking) (lookup : Address → Option Bytes) {tx : Transaction} (blockIndex : Int)
    (keyless : tx.txType ≠ .REGISTER_VALIDATOR ∧ tx.txType ≠ .REVOKE_KEY) :
    (k.undoTx lookup tx blockIndex).validators = k.validators := by
  unfold undoTx
  cases kind : tx.txType
  case REGISTER_VALIDATOR => exact absurd kind keyless.1
  case REVOKE_KEY => exact absurd kind keyless.2
  case STAKE | DELEGATE | UNSTAKE | EVIDENCE =>
    dsimp only
    split <;> rfl
  all_goals rfl

end UndoStep

section UndoRun

theorem Covered.undone {k : Staking} (covered : k.Covered) (lookup : Address → Option Bytes) (tx : Transaction)
    (blockIndex : Int) : (k.undoTx lookup tx blockIndex).Covered := by
  obtain ⟨stakes,totals⟩ := undoTxStakes covered lookup tx blockIndex
  refine ⟨fun key => ?_,fun vaddr => ?_⟩
  · rw [stakes]
    exact settleNonneg (covered.stakes key) _
  · rw [totals]
    exact settleNonneg (covered.totals vaddr) _

structure Unwound (txs : List Transaction) (blockIndex : Int) (k u : Staking) : Prop where
  stakes : ∀ key, u.stakes.get key = settle (k.stakes.get key) (backSteps key (txs.flatMap stakeMoves))
  totals : ∀ vaddr, u.totalStake.get vaddr = settle (k.totalStake.get vaddr) (backSteps vaddr (txs.flatMap totalMoves))
  unbonding : u.unbonding = k.unbonding.filter (fun entry => entry ∉ txs.flatMap (queued · blockIndex))
  slashed : ∀ vaddr, vaddr ∈ u.slashedValidators ↔ vaddr ∈ k.slashedValidators ∧ ¬∃ tx ∈ txs, tx.Accuses vaddr
  processed : ∀ vaddr, vaddr ∈ u.processedEvidence ↔ vaddr ∈ k.processedEvidence ∧ ¬∃ tx ∈ txs, tx.Accuses vaddr
  events : u.slashingEvents = k.slashingEvents.filter (fun event => ¬∃ tx ∈ txs, tx.Proves event.evidenceTxId)
  validators : u.validators = k.validators

theorem undoTxsUnwound (lookup : Address → Option Bytes) (blockIndex : Int) {txs : List Transaction}
    (keyless : ∀ tx ∈ txs, tx.txType ≠ .REGISTER_VALIDATOR ∧ tx.txType ≠ .REVOKE_KEY) {k : Staking}
    (covered : k.Covered) : Unwound txs blockIndex k (txs.foldl (fun k tx => k.undoTx lookup tx blockIndex) k) := by
  induction txs generalizing k with
  | nil => exact ⟨fun _ => rfl,fun _ => rfl,by simp,by simp,by simp,by simp,rfl⟩
  | cons tx rest ih =>
    obtain ⟨plain,keyless⟩ := List.forall_mem_cons.mp keyless
    have after := ih keyless (covered.undone lookup tx blockIndex)
    obtain ⟨stakes,totals⟩ := undoTxStakes covered lookup tx blockIndex
    rw [List.foldl_cons]
    constructor
    · intro key
      rw [after.stakes,stakes,List.flatMap_cons,backAppend,settleAppend]
    · intro vaddr
      rw [after.totals,totals,List.flatMap_cons,backAppend,settleAppend]
    · rw [after.unbonding,undoTxUnqueues,List.filter_filter]
      refine List.filter_congr (fun entry _ => ?_)
      rw [← Bool.decide_and]
      refine decide_eq_decide.mpr ?_
      rw [List.flatMap_cons,List.mem_append,not_or,and_comm]
    · intro vaddr
      rw [after.slashed,(undoTxSlashed ..).1]
      simp only [List.mem_cons,exists_eq_or_imp,not_or,and_assoc]
    · intro vaddr
      rw [after.processed,(undoTxSlashed ..).2]
      simp only [List.mem_cons,exists_eq_or_imp,not_or,and_assoc]
    · rw [after.events,undoTxEvents,List.filter_filter]
      refine List.filter_congr (fun event _ => ?_)
      rw [← Bool.decide_and]
      refine decide_eq_decide.mpr ?_
      simp only [List.mem_cons,exists_eq_or_imp,not_or]
      exact and_comm
    · rw [after.validators,undoTxValidators k lookup blockIndex plain]

end UndoRun

section Forward

structure Told (txs : List Transaction) (k k' : Staking) : Prop where
  slashed : ∀ vaddr, (vaddr ∈ k.slashedValidators → vaddr ∈ k'.slashedValidators) ∧
    (vaddr ∈ k'.slashedValidators → vaddr ∈ k.slashedValidators ∨ ∃ tx ∈ txs, tx.Accuses vaddr)
  processed : ∀ vaddr, (vaddr ∈ k.processedEvidence → vaddr ∈ k'.processedEvidence) ∧
    (vaddr ∈ k'.processedEvidence → vaddr ∈ k.processedEvidence ∨ ∃ tx ∈ txs, tx.Accuses vaddr)
  events : ∃ added dropped, dropped ≤ (k.slashingEvents ++ added).length ∧
    k'.slashingEvents = (k.slashingEvents ++ added).drop dropped ∧
    ∀ event ∈ added, ∃ tx ∈ txs, tx.Proves event.evidenceTxId

theorem toldSame {tx : Transaction} {k k' : Staking} (slashed : k'.slashedValidators = k.slashedValidators)
    (processed : k'.processedEvidence = k.processedEvidence) (events : k'.slashingEvents = k.slashingEvents) :
    Told [tx] k k' := by
  refine ⟨fun vaddr => ?_,fun vaddr => ?_,[],0,by simp,by simp [events],by simp⟩
  · rw [slashed]
    exact ⟨id,.inl⟩
  · rw [processed]
    exact ⟨id,.inl⟩

theorem slashTold (k : Staking) {tx : Transaction} (kind : tx.txType = .EVIDENCE)
    (named : tx.payload.validatorAddress.getD "" ≠ "") (blockIndex : Int) :
    Told [tx] k (k.slash (tx.payload.validatorAddress.getD "") tx.txId blockIndex) := by
  have accuses : tx.Accuses (tx.payload.validatorAddress.getD "") := ⟨kind,named,rfl⟩
  generalize tx.payload.validatorAddress.getD "" = accused at named accuses
  have records : (k.slash accused tx.txId blockIndex).slashedValidators = k.slashedValidators.insert accused ∧
      (k.slash accused tx.txId blockIndex).processedEvidence = k.processedEvidence.insert accused ∧
      (k.slash accused tx.txId blockIndex).slashingEvents = recentEvents (k.slashingEvents ++
        [⟨accused,tx.txId,slashAmount (k.totalStake.get accused),blockIndex⟩]) := by
    unfold slash
    dsimp only
    split <;> exact ⟨rfl,rfl,rfl⟩
  obtain ⟨slashed,processed,events⟩ := records
  have mine : ∀ vaddr, vaddr = accused → ∃ other ∈ [tx], other.Accuses vaddr :=
    fun vaddr same => ⟨tx,List.mem_singleton.mpr rfl,same ▸ accuses⟩
  refine ⟨fun vaddr => ?_,fun vaddr => ?_,_,_,?_,events,fun event inside => ?_⟩
  · rw [slashed,DSet.memInsert]
    exact ⟨.inr,fun either => either.symm.imp_right (mine vaddr)⟩
  · rw [processed,DSet.memInsert]
    exact ⟨.inr,fun either => either.symm.imp_right (mine vaddr)⟩
  · exact Nat.sub_le ..
  · rw [List.mem_singleton.mp inside]
    exact ⟨tx,List.mem_singleton.mpr rfl,kind,accuses.2.2 ▸ named,rfl⟩

theorem applyTxTold {k k' : Staking} {tx : Transaction} {idx : Int} (run : k.applyTx tx idx = .ok k') : Told [tx] k k' := by
  unfold applyTx at run
  cases kind : tx.txType <;> simp only [kind] at run
  case EVIDENCE =>
    cases run
    unfold processEvidenceTx
    split
    · rename_i holds
      rw [evidenceHolds,Bool.and_eq_true,decide_eq_true_eq] at holds
      exact slashTold k kind holds.1.1 idx
    · exact toldSame rfl rfl rfl
  case REGISTER_VALIDATOR =>
    have commission : ∀ (k : Staking) (vaddr : Address) (rate : Option Int),
        (k.setCommission vaddr rate).slashedValidators = k.slashedValidators ∧
          (k.setCommission vaddr rate).processedEvidence = k.processedEvidence ∧
          (k.setCommission vaddr rate).slashingEvents = k.slashingEvents := by
      intro k vaddr rate
      unfold setCommission
      split
      · split <;> exact ⟨rfl,rfl,rfl⟩
      · exact ⟨rfl,rfl,rfl⟩
    simp only [registerValidator] at run
    split at run
    · cases run
      exact toldSame rfl rfl rfl
    · split at run
      · cases run
        obtain ⟨slashed,processed,events⟩ := commission k (tx.payload.validatorAddress.getD "") tx.payload.commission
        exact toldSame slashed processed events
      · split at run
        · contradiction
        · cases run
          exact toldSame (commission ..).1 (commission ..).2.1 (commission ..).2.2
  case REVOKE_KEY | STAKE | DELEGATE | UNSTAKE =>
    cases run
    simp only [revokeKey,addStake,unstake]
    split <;> exact toldSame rfl rfl rfl
  all_goals
    cases run
    exact toldSame rfl rfl rfl

theorem applyTxsTold {txs : List Transaction} {idx : Int} {k k' : Staking}
    (run : txs.foldlM (fun k tx => Staking.applyTx k tx idx) k = .ok k') : Told txs k k' := by
  induction txs generalizing k with
  | nil =>
    cases run
    exact ⟨fun _ => ⟨id,.inl⟩,fun _ => ⟨id,.inl⟩,[],0,by simp,by simp,by simp⟩
  | cons tx rest ih =>
    rw [List.foldlM_cons,Outcome.bindOk] at run
    obtain ⟨mid,first,later⟩ := run
    have told := applyTxTold first
    have after := ih later
    have joins : ∀ {P : Transaction → Prop}, (∃ tx' ∈ [tx], P tx') → ∃ tx' ∈ tx :: rest, P tx' :=
      fun ⟨other,inside,holds⟩ => ⟨other,List.mem_cons.mpr (.inl (List.mem_singleton.mp inside)),holds⟩
    have follows : ∀ {P : Transaction → Prop}, (∃ tx' ∈ rest, P tx') → ∃ tx' ∈ tx :: rest, P tx' :=
      fun ⟨other,inside,holds⟩ => ⟨other,List.mem_cons_of_mem _ inside,holds⟩
    refine ⟨fun vaddr => ⟨fun old => (after.slashed vaddr).1 ((told.slashed vaddr).1 old),fun now => ?_⟩,
      fun vaddr => ⟨fun old => (after.processed vaddr).1 ((told.processed vaddr).1 old),fun now => ?_⟩,?_⟩
    · rcases (after.slashed vaddr).2 now with before | accused
      · exact ((told.slashed vaddr).2 before).imp_right joins
      · exact .inr (follows accused)
    · rcases (after.processed vaddr).2 now with before | accused
      · exact ((told.processed vaddr).2 before).imp_right joins
      · exact .inr (follows accused)
    · obtain ⟨added,dropped,fits,events,proved⟩ := told.events
      obtain ⟨added',dropped',fits',events',proved'⟩ := after.events
      have joined : mid.slashingEvents ++ added' = (k.slashingEvents ++ (added ++ added')).drop dropped := by
        rw [events,← List.append_assoc,List.drop_append_of_le_length fits]
      refine ⟨added ++ added',dropped + dropped',?_,?_,fun event inside => ?_⟩
      · rw [joined,List.length_drop] at fits'
        have longer : (k.slashingEvents ++ added).length ≤ (k.slashingEvents ++ (added ++ added')).length := by
          simp only [List.length_append]
          omega
        omega
      · rw [events',joined,List.drop_drop]
      · rcases List.mem_append.mp inside with mine | theirs
        · exact joins (proved event mine)
        · exact follows (proved' event theirs)

end Forward

section Sound

omit [Env] in
theorem commissionAmounts (k : Staking) (address : Address) (rate : Option Int) :
    (k.setCommission address rate).stakes = k.stakes ∧ (k.setCommission address rate).totalStake = k.totalStake := by
  unfold setCommission
  split
  · split <;> exact ⟨rfl,rfl⟩
  · exact ⟨rfl,rfl⟩

omit [Env] in
theorem Covered.same {k k' : Staking} (covered : k.Covered) (stakes : k'.stakes = k.stakes)
    (totals : k'.totalStake = k.totalStake) : k'.Covered :=
  ⟨fun key => by rw [stakes]; exact covered.stakes key,fun vaddr => by rw [totals]; exact covered.totals vaddr⟩

omit [Env] in
theorem afterSlashNonneg (total : Int) : 0 ≤ afterSlash total := Int.le_max_left ..

omit [Env] in
theorem slashCovered {k : Staking} (covered : k.Covered) (vaddr : Address) (txId : String) (blockIndex : Int) :
    (k.slash vaddr txId blockIndex).Covered := by
  have cut : ({ k with
      stakes := k.stakes.mapWhere (fun row => row.1 = vaddr) afterSlash
      totalStake := k.totalStake.set vaddr (afterSlash (k.totalStake.get vaddr)) } : Staking).Covered := by
    refine ⟨fun key => ?_,fun other => ?_⟩
    · rw [Table.getMapWhere _ _ _ (by decide)]
      split
      · exact afterSlashNonneg _
      · exact covered.stakes key
    · rw [Table.getSet]
      split
      · exact afterSlashNonneg _
      · exact covered.totals other
  unfold slash
  dsimp only
  split
  · refine ⟨fun key => ?_,fun other => ?_⟩
    · simp only [expel,removeValidator]
      rw [Table.getMapWhere _ _ _ rfl]
      split
      · exact le_rfl
      · exact cut.stakes key
    · simp only [expel,removeValidator]
      rw [Table.getSet]
      split
      · exact le_rfl
      · exact cut.totals other
  · exact cut.same rfl rfl

theorem applyTxCovered {k : Staking} (covered : k.Covered) (tx : Transaction) (idx : Int) :
    (Outcome.stateOf (k.applyTx tx idx)).Covered := by
  have moved : ∀ (place : Address × Address) (f : Int → Int), (∀ current, 0 ≤ current → 0 ≤ f current) → ∀ k' : Staking,
      k'.stakes = k.stakes.update place f → k'.totalStake = k.totalStake.update place.1 f → k'.Covered := by
    intro place f nonneg k' stakes totals
    refine ⟨fun key => ?_,fun vaddr => ?_⟩
    · rw [stakes,Table.getUpdate]
      split
      · exact nonneg _ (covered.stakes _)
      · exact covered.stakes key
    · rw [totals,Table.getUpdate]
      split
      · exact nonneg _ (covered.totals _)
      · exact covered.totals vaddr
  unfold applyTx
  cases kind : tx.txType
  case REGISTER_VALIDATOR =>
    simp only [registerValidator]
    split
    · exact covered
    · split
      · exact covered.same (commissionAmounts ..).1 (commissionAmounts ..).2
      · split
        · exact covered
        · exact covered.same (commissionAmounts ..).1 (commissionAmounts ..).2
  case REVOKE_KEY =>
    simp only [revokeKey]
    split <;> exact covered.same rfl rfl
  case STAKE | DELEGATE =>
    simp only [addStake]
    split
    · rename_i applies
      refine moved (tx.payload.validatorAddress.getD "",tx.sender) (· + tx.payload.amount.getD 0)
        (fun current held => ?_) _ rfl rfl
      have := applies.2
      show 0 ≤ current + tx.payload.amount.getD 0
      omega
    · exact covered
  case UNSTAKE =>
    simp only [unstake]
    split
    · exact moved (tx.payload.validatorAddress.getD "",tx.sender) (fun current => max 0 (current - tx.payload.amount.getD 0))
        (fun current _ => Int.le_max_left ..) _ rfl rfl
    · exact covered
  case EVIDENCE =>
    simp only [processEvidenceTx]
    split
    · exact slashCovered covered _ _ _
    · exact covered
  all_goals exact covered

structure Sound (k : Staking) : Prop where
  covered : k.Covered
  drawn : k.Drawn

theorem soundUpheld : Upheld Sound (fun _ => True) where
  applyTx := fun k tx idx sound => ⟨applyTxCovered sound.covered tx idx,sameDrawn (applyTxPeriods ..).lastEpochDistributions sound.drawn⟩
  dropMatured := fun k idx sound => ⟨sound.covered.same rfl rfl,sameDrawn rfl sound.drawn⟩
  rewards := fun k _ _ sound drawn => ⟨sound.covered.same rfl rfl,drawn sound.drawn⟩
  enterEpoch := fun k epoch sound => ⟨sound.covered.same rfl rfl,sameDrawn rfl sound.drawn⟩
  putEpoch := fun _ _ _ _ _ _ => trivial
  undoTx := fun k lookup tx idx sound =>
    ⟨sound.covered.undone lookup tx idx,sameDrawn (undoTxPeriods ..).1.lastEpochDistributions sound.drawn⟩
  leaveEpoch := by
    intro k epoch sound
    unfold leaveEpoch
    dsimp only
    split <;> exact ⟨sound.covered.same rfl rfl,sameDrawn rfl sound.drawn⟩
  autoStake := by
    intro k address sound
    have nonneg : 0 ≤ minStake := by decide
    refine ⟨⟨fun key => ?_,fun vaddr => ?_⟩,sameDrawn rfl sound.drawn⟩
    · rw [Table.getSet]
      split
      · exact nonneg
      · exact sound.covered.stakes key
    · rw [Table.getSet]
      split
      · exact nonneg
      · exact sound.covered.totals vaddr
  restore := fun k saved sound before => ⟨before.covered.same rfl rfl,sameDrawn rfl sound.drawn⟩
  keepEpochs := fun _ _ _ => trivial

end Sound

section Law

structure SameStakes (k u : Staking) : Prop where
  stakes : u.stakes = k.stakes
  totalStake : u.totalStake = k.totalStake
  unbonding : u.unbonding = k.unbonding
  slashedValidators : u.slashedValidators = k.slashedValidators
  processedEvidence : u.processedEvidence = k.processedEvidence
  slashingEvents : u.slashingEvents = k.slashingEvents
  epochValidators : u.epochValidators = k.epochValidators
  validators : u.validators = k.validators

/- What undoing a block depends on, between the tables before it and those its undo begins with.
Stakes and totals are what the block's own moves make of them, as far as taking these back tells;
nothing waits in the queue that matures with the block or looks like an entry of the block; nobody
the block accuses was slashed before; the slashing events are still there and not under an id of the
block; and what the undo does not touch is as it was: the consensus object, and the frozen validators,
which at the start of an epoch are read from the snapshot of the one before. -/
structure Regained (before after : Staking) (block : Block) : Prop where
  stakes : ∀ key, Returns (block.transactions.flatMap stakeMoves) key (before.stakes.get key) (after.stakes.get key)
  totals : ∀ vaddr, Returns (block.transactions.flatMap totalMoves) vaddr (before.totalStake.get vaddr)
    (after.totalStake.get vaddr)
  waiting : ∀ entry ∈ before.unbonding, block.index < entry.releaseBlock ∧
    entry ∉ block.transactions.flatMap (queued · block.index)
  unaccused : ∀ vaddr, (∃ tx ∈ block.transactions, tx.Accuses vaddr) →
    vaddr ∉ before.slashedValidators ∧ vaddr ∉ before.processedEvidence
  events : before.slashingEvents <+: after.slashingEvents
  unproved : ∀ event ∈ before.slashingEvents, ¬∃ tx ∈ block.transactions, tx.Proves event.evidenceTxId
  frozen : before.epochValidators = if block.index % epochLength = 0 then
    (before.leaveEpoch (block.index / epochLength)).epochValidators else after.epochValidators
  validators : after.validators = before.validators

omit [Env] in
theorem eventsBack {old added : List SlashingEvent} {dropped : Nat} {mine : SlashingEvent → Prop} [DecidablePred mine]
    (new : ∀ event ∈ added, mine event) : ((old ++ added).drop dropped).filter (fun event => ¬mine event) = old ↔
      old <+: (old ++ added).drop dropped ∧ ∀ event ∈ old, ¬mine event := by
  have gone : (added.drop (dropped - old.length)).filter (fun event => ¬mine event) = [] :=
    List.filter_eq_nil_iff.mpr (fun event inside => by simpa using new event (List.mem_of_mem_drop inside))
  rw [List.drop_append,List.filter_append,gone,List.append_nil]
  constructor
  · intro same
    have unmarked : ∀ event ∈ old, ¬mine event := by
      intro event inside
      rw [← same] at inside
      exact of_decide_eq_true (List.mem_filter.mp inside).2
    have kept : old.drop dropped = old := by
      refine (List.drop_sublist dropped old).eq_of_length_le ?_
      have fewer := List.length_filter_le (fun event => decide ¬mine event) (old.drop dropped)
      rwa [same] at fewer
    exact ⟨by rw [kept]; exact List.prefix_append ..,unmarked⟩
  · rintro ⟨⟨rest,whole⟩,unmarked⟩
    have kept : old.drop dropped = old := by
      rcases List.append_eq_append_iff.mp whole with ⟨more,longer,-⟩ | ⟨new',shorter,among⟩
      · refine (List.drop_sublist dropped old).eq_of_length_le ?_
        rw [longer,List.length_append]
        omega
      · cases new' with
        | nil => rw [List.append_nil] at shorter; exact shorter.symm
        | cons event others =>
          have added' : event ∈ added := List.mem_of_mem_drop (by rw [among]; exact List.mem_cons_self ..)
          have old' : event ∈ old := by rw [shorter]; simp
          exact absurd (new event added') (unmarked event old')
    rw [kept,List.filter_eq_self]
    exact fun event inside => decide_eq_true (unmarked event inside)

end Law

end Staking

namespace Blockchain
variable [Env]

open Staking

theorem acceptsSound {s s' : Blockchain} {block : Block} (step : Accepts s block s')
    (sound : Upholds Sound (fun _ => True) s) : s'.state.staking.Sound := by
  cases step with
  | received now answer =>
    have kept := performUpheld soundUpheld sound (.receive block now)
    rw [perform,answer] at kept
    exact kept.staking
  | produced address sk now later answer stored =>
    have kept := performUpheld soundUpheld sound (.produce address sk now later)
    rw [perform,answer] at kept
    exact kept.staking

theorem reachedSound {s : Blockchain} {validators : Dict Address Bytes}
    (reached : Reached (fun _ _ => True) (new (.memory []) validators) s ∨
      Reached (fun _ _ => True) (new (.sqlite {}) validators) s) : Upholds Sound (fun _ => True) s := by
  have fresh : ∀ backend, Upholds Sound (fun _ => True) (new backend validators) := fun backend =>
    ⟨⟨⟨fun _ => le_rfl,fun _ => le_rfl⟩,fun epoch record found => by simp [new] at found⟩,fun _ _ => trivial⟩
  have kept : ∀ {start s : Blockchain}, Upholds Sound (fun _ => True) start → Reached (fun _ _ => True) start s →
      Upholds Sound (fun _ => True) s := fun begins reached =>
    reachedInvariant (Upholds Sound (fun _ => True)) begins (fun _ c before _ _ => performUpheld soundUpheld before c) reached
  rcases reached with memory | sqlite
  · exact kept (fresh _) memory
  · exact kept (fresh _) sqlite

structure Recorded (block : Block) (before after : Staking) : Prop where
  told : Told block.transactions before after
  unbonding : after.unbonding = (before.dropMatured block.index).unbonding ++
    block.transactions.flatMap (queued · block.index)
  epochs : after.epochs.erase (block.index / epochLength) = before.epochs.erase (block.index / epochLength)

theorem acceptsRecorded {s s' : Blockchain} {block : Block} (step : Accepts s block s')
    (position : block.index = s.height + 1) : Recorded block s.state.staking s'.state.staking := by
  obtain ⟨c,grown⟩ := acceptsGrown step
  obtain ⟨opened,looped,opening,loop,epochRewards,paid⟩ := ChainState.applyBlockStaking grown.applied
  obtain ⟨rewards,records,start⟩ := ChainState.openBlockStaking opening
  obtain ⟨queue,-⟩ := ChainState.applyBlockQueue grown.applied
  have told := applyTxsTold loop
  have opens : opened.staking.slashedValidators = s.state.staking.slashedValidators ∧
      opened.staking.processedEvidence = s.state.staking.processedEvidence ∧
      opened.staking.slashingEvents = s.state.staking.slashingEvents ∧
      opened.staking.epochs.erase (block.index / epochLength) =
        s.state.staking.epochs.erase (block.index / epochLength) := by
    rw [start]
    split
    · refine ⟨rfl,rfl,rfl,Std.ExtTreeMap.ext_getElem? (fun epoch => ?_)⟩
      simp only [enterEpoch,position,Std.ExtTreeMap.getElem?_erase,Std.ExtTreeMap.getElem?_insert,
        Std.compare_eq_iff_eq]
      split <;> rfl
    · exact ⟨rfl,rfl,rfl,rfl⟩
  have closes : s'.state.staking.slashedValidators = looped.slashedValidators ∧
      s'.state.staking.processedEvidence = looped.processedEvidence ∧
      s'.state.staking.slashingEvents = looped.slashingEvents ∧ s'.state.staking.epochs = looped.epochs ∧
      s'.state.staking.unbonding = c.staking.unbonding := by
    rw [grown.staking,paid]
    unfold pruneDistributions
    split <;> exact ⟨rfl,rfl,rfl,rfl,rfl⟩
  obtain ⟨slashed,processed,events,epochs⟩ := opens
  obtain ⟨slashed',processed',events',epochs',unbonding'⟩ := closes
  refine ⟨⟨?_,?_,?_⟩,?_,?_⟩
  · rw [slashed',← slashed]
    exact told.slashed
  · rw [processed',← processed]
    exact told.processed
  · rw [events',← events]
    exact told.events
  · rw [unbonding',queue,position]
  · rw [epochs',(applyTxsPeriods loop).epochs,epochs]

omit [Env] in
theorem leaveEpochSeats {k k' : Staking} {epoch : Int} (same : k'.epochs.erase epoch = k.epochs.erase epoch) :
    (k'.leaveEpoch epoch).epochValidators = (k.leaveEpoch epoch).epochValidators := by
  unfold leaveEpoch
  dsimp only
  rw [same]
  split <;> rfl

omit [Env] in
theorem queueBack {before : Staking} {idx : Int} {added : List UnbondingEntry} :
    ((before.dropMatured idx).unbonding ++ added).filter (fun entry => entry ∉ added) = before.unbonding ↔
      ∀ entry ∈ before.unbonding, idx < entry.releaseBlock ∧ entry ∉ added := by
  have none : added.filter (fun entry => decide (entry ∉ added)) = [] :=
    List.filter_eq_nil_iff.mpr (fun entry inside => by simpa using inside)
  rw [List.filter_append,none,List.append_nil,dropMatured,List.filter_filter,List.filter_eq_self]
  refine forall₂_congr (fun entry _ => ?_)
  simp only [Bool.and_eq_true,decide_eq_true_eq,Int.not_le]
  exact and_comm

omit [Env] in
theorem recordsBack {before after u : DSet Address} {accused : Address → Prop}
    (told : ∀ vaddr, (vaddr ∈ before → vaddr ∈ after) ∧ (vaddr ∈ after → vaddr ∈ before ∨ accused vaddr))
    (left : ∀ vaddr, vaddr ∈ u ↔ vaddr ∈ after ∧ ¬accused vaddr) :
    u = before ↔ ∀ vaddr, accused vaddr → vaddr ∉ before := by
  constructor
  · rintro rfl vaddr mine inside
    exact ((left vaddr).mp inside).2 mine
  · intro apart
    refine Std.ExtTreeSet.ext_mem (fun vaddr => ?_)
    rw [left]
    constructor
    · rintro ⟨now,other⟩
      exact ((told vaddr).2 now).resolve_right other
    · intro old
      exact ⟨(told vaddr).1 old,fun mine => apart vaddr mine old⟩

theorem stakesUndone (s s' t : Blockchain) (block : Block) {validators : Dict Address Bytes}
    (reached : Reached (fun _ _ => True) (new (.memory []) validators) s ∨
      Reached (fun _ _ => True) (new (.sqlite {}) validators) s)
    (step : Accepts s block s') (position : block.index = s.height + 1)
    (keyless : ∀ tx ∈ block.transactions, tx.txType ≠ .REGISTER_VALIDATOR ∧ tx.txType ≠ .REVOKE_KEY)
    (tables : t.state = s'.state) :
    SameStakes s.state.staking (Outcome.stateOf (t.rollbackBlock block)).state.staking ↔
      Regained s.state.staking t.state.staking block := by
  have sound : t.state.staking.Sound := tables ▸ acceptsSound step (reachedSound reached)
  have recorded : Recorded block s.state.staking t.state.staking := tables ▸ acceptsRecorded step position
  obtain ⟨-,-,⟨epochRewards,currentEpoch,epochs,epochValidators,lastEpochDistributions,staking⟩,frozen⟩ :=
    rollbackBlockLeft (t := t) (acceptsRefundable step)
  have covered : Covered { t.state.staking with epochRewards } := sound.covered.same rfl rfl
  have unwound := undoTxsUnwound t.findValidatorPkInChain block.index keyless covered
  have active := (frozen sound.drawn).epochValidators
  have seats : (Outcome.stateOf (t.rollbackBlock block)).state.staking.epochValidators =
      if block.index % epochLength = 0 then (s.state.staking.leaveEpoch (block.index / epochLength)).epochValidators
      else t.state.staking.epochValidators := by
    rw [active,epochLeft,← leaveEpochSeats recorded.epochs]
    split <;> rfl
  generalize (Outcome.stateOf (t.rollbackBlock block)).state.staking = u at staking seats
  generalize block.transactions.foldl _ { t.state.staking with epochRewards } = w at staking unwound
  have slashed := recordsBack recorded.told.slashed unwound.slashed
  have processed := recordsBack recorded.told.processed unwound.processed
  have queue : w.unbonding = s.state.staking.unbonding ↔ ∀ entry ∈ s.state.staking.unbonding,
      block.index < entry.releaseBlock ∧ entry ∉ block.transactions.flatMap (queued · block.index) := by
    rw [unwound.unbonding]
    show t.state.staking.unbonding.filter _ = _ ↔ _
    rw [recorded.unbonding]
    exact queueBack
  have events : w.slashingEvents = s.state.staking.slashingEvents ↔
      s.state.staking.slashingEvents <+: t.state.staking.slashingEvents ∧
        ∀ event ∈ s.state.staking.slashingEvents, ¬∃ tx ∈ block.transactions, tx.Proves event.evidenceTxId := by
    obtain ⟨added,dropped,-,now,new⟩ := recorded.told.events
    rw [unwound.events]
    show t.state.staking.slashingEvents.filter _ = _ ↔ _
    rw [now]
    exact eventsBack (fun event inside => new event inside)
  have stakes : ∀ key, w.stakes.get key = s.state.staking.stakes.get key ↔
      Returns (block.transactions.flatMap stakeMoves) key (s.state.staking.stakes.get key)
        (t.state.staking.stakes.get key) := fun key => by
    rw [unwound.stakes]
    exact settleReturns (sound.covered.stakes key)
  have totals : ∀ vaddr, w.totalStake.get vaddr = s.state.staking.totalStake.get vaddr ↔
      Returns (block.transactions.flatMap totalMoves) vaddr (s.state.staking.totalStake.get vaddr)
        (t.state.staking.totalStake.get vaddr) := fun vaddr => by
    rw [unwound.totals]
    exact settleReturns (sound.covered.totals vaddr)
  subst staking
  constructor
  · intro same
    have accused := slashed.mp same.slashedValidators
    have accused' := processed.mp same.processedEvidence
    refine ⟨fun key => (stakes key).mp (congrArg (Table.get · key) same.stakes),
      fun vaddr => (totals vaddr).mp (congrArg (Table.get · vaddr) same.totalStake),queue.mp same.unbonding,
      fun vaddr mine => ⟨accused vaddr mine,accused' vaddr mine⟩,(events.mp same.slashingEvents).1,
      (events.mp same.slashingEvents).2,same.epochValidators.symm.trans seats,?_⟩
    rw [← same.validators]
    exact unwound.validators.symm
  · intro regained
    exact ⟨Table.ext (fun key => (stakes key).mpr (regained.stakes key)),
      Table.ext (fun vaddr => (totals vaddr).mpr (regained.totals vaddr)),queue.mpr regained.waiting,
      slashed.mpr (fun vaddr mine => (regained.unaccused vaddr mine).1),
      processed.mpr (fun vaddr mine => (regained.unaccused vaddr mine).2),
      events.mpr ⟨regained.events,regained.unproved⟩,seats.trans regained.frozen.symm,
      unwound.validators.trans regained.validators⟩

end Blockchain

end QbitNetwork

namespace QbitNetwork.Devnet
attribute [local instance] legacy
open Blockchain

theorem doubleUnstakedRun :
    ((active.submitTx 101 (unstake 0)).1.Ended ∧ (unstaking.submitTx 101 (unstake 1)).1.Ended ∧
      (doubleUnstaking.produceBlock address key 102 102).1 = .accepted ∧ doubleUnstaked.latestBlock.isSome = true ∧
      doubleUnstaked.tipBlock.index = doubleUnstaking.height + 1 ∧
      doubleUnstaked.tipBlock.transactions = [unstake 0,unstake 1]) ∧
    doubleUnstaking.state.staking.stakes.get (address,address) = 1 ∧
    (Outcome.stateOf (doubleUnstaked.rollbackBlock doubleUnstaked.tipBlock)).state.staking.stakes.get
      (address,address) = 2 := by decide +kernel

theorem doubleUnstakedAccepts : Accepts doubleUnstaking doubleUnstaked.tipBlock doubleUnstaked :=
  producedAccepts (by rw [doubleUnstaked]) doubleUnstakedRun.1.2.2.1 doubleUnstakedRun.1.2.2.2.1

theorem doubleUnstakingReached : Reached (fun _ _ => True) (new (.memory [])) doubleUnstaking := by
  have begun : Reached (fun _ _ => True) (new (.memory [])) active :=
    (Reached.start.initChain address key key 100 trivial genesisRuns).activate address trivial activeRuns
  have first : Reached (fun _ _ => True) (new (.memory [])) unstaking := by
    rw [unstaking]
    exact Reached.submit begun 101 (unstake 0) trivial doubleUnstakedRun.1.1
  rw [doubleUnstaking]
  exact Reached.submit first 101 (unstake 1) trivial doubleUnstakedRun.1.2.1

theorem stakesNotUndone : ¬∀ (s s' t : Blockchain) (block : Block),
    Reached (fun _ _ => True) (new (.memory [])) s ∨ Reached (fun _ _ => True) (new (.sqlite {})) s →
      Accepts s block s' → block.index = s.height + 1 →
      (∀ tx ∈ block.transactions, tx.txType ∈ [TxType.STAKE,.DELEGATE,.UNSTAKE,.EVIDENCE]) → t.state = s'.state →
        Staking.SameStakes s.state.staking (Outcome.stateOf (t.rollbackBlock block)).state.staking := by
  intro claim
  have typed : ∀ tx ∈ doubleUnstaked.tipBlock.transactions,
      tx.txType ∈ [TxType.STAKE,.DELEGATE,.UNSTAKE,.EVIDENCE] := by
    rw [doubleUnstakedRun.1.2.2.2.2.2]
    simp [unstake,Transaction.sign]
  have same := (claim doubleUnstaking doubleUnstaked doubleUnstaked doubleUnstaked.tipBlock (.inl doubleUnstakingReached)
    doubleUnstakedAccepts doubleUnstakedRun.1.2.2.2.2.1 typed rfl).stakes
  have doubled := doubleUnstakedRun.2
  rw [same,doubled.1] at doubled
  exact absurd doubled.2 (by decide)

theorem stakesUndoneDoubled : Staking.SameStakes doubleUnstaking.state.staking
    (Outcome.stateOf (doubleUnstaked.rollbackBlock doubleUnstaked.tipBlock)).state.staking ↔
      Staking.Regained doubleUnstaking.state.staking doubleUnstaked.state.staking doubleUnstaked.tipBlock := by
  refine stakesUndone doubleUnstaking doubleUnstaked doubleUnstaked doubleUnstaked.tipBlock (.inl doubleUnstakingReached)
    doubleUnstakedAccepts doubleUnstakedRun.1.2.2.2.2.1 ?_ rfl
  rw [doubleUnstakedRun.1.2.2.2.2.2]
  simp [unstake,Transaction.sign]

end QbitNetwork.Devnet
