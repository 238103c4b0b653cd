import QbitNetwork.State
import Mathlib.Data.Set.Insert
import Mathlib.Logic.Function.Basic

/-! What the rules on validators and stake are about, as sets and functions: who is
registered with which key, what is revoked, who holds which stake and who is slashed.
The staking tables of the chain are one way to keep a roster. -/
namespace QbitNetwork

@[ext] structure Roster where
  keyOf : Address → Option Bytes
  revoked : Set String
  stake : Address → Address → Int
  weight : Address → Int
  slashed : Set Address
  processed : Set Address

namespace Roster

abbrev target (tx : Transaction) : Address := tx.payload.validatorAddress.getD ""

abbrev amount (tx : Transaction) : Int := tx.payload.amount.getD 0

section Evidence
variable [Env]

structure Signed (vpk : Bytes) (p : Payload) (headerA headerB : Bytes) : Prop where
  decodedA : fromHex (p.blockAHeader.getD "") = some headerA
  decodedB : fromHex (p.blockBHeader.getD "") = some headerB
  signedA : ∃ sig, fromHex (p.blockASig.getD "") = some sig ∧ verifySig vpk headerA sig = true
  signedB : ∃ sig, fromHex (p.blockBSig.getD "") = some sig ∧ verifySig vpk headerB sig = true

def Convicts (r : Roster) (tx : Transaction) : Prop :=
  target tx ≠ "" ∧ target tx ∉ r.processed ∧
    ∃ vpk headerA headerB, r.keyOf (target tx) = some vpk ∧ Signed vpk tx.payload headerA headerB

end Evidence

def register (r : Roster) (tx : Transaction) : Roster :=
  let vpkHex := tx.payload.validatorPubkey.getD ""
  if vpkHex ≠ "" ∧ target tx ≠ "" ∧ r.keyOf (target tx) = none then
    { r with keyOf := Function.update r.keyOf (target tx) (fromHex vpkHex) }
  else r

def revoke (r : Roster) (tx : Transaction) : Roster :=
  let keyType := tx.payload.keyType.getD ""
  { r with
    revoked := insert (revocationKey tx.sender keyType) r.revoked
    keyOf := if keyType = "validator" then Function.update r.keyOf tx.sender none else r.keyOf }

def restake (r : Roster) (staker vaddr : Address) (f : Int → Int) : Roster :=
  { r with
    stake := fun v s => if v = vaddr ∧ s = staker then f (r.stake v s) else r.stake v s
    weight := fun v => if v = vaddr then f (r.weight v) else r.weight v }

def punish (r : Roster) (vaddr : Address) : Roster :=
  let left := Staking.afterSlash (r.weight vaddr)
  { r with
    weight := fun v => if v = vaddr then (if left < minStake then 0 else left) else r.weight v
    stake := fun v s =>
      if v = vaddr then (if left < minStake then 0 else Staking.afterSlash (r.stake v s))
      else r.stake v s
    slashed := insert vaddr r.slashed
    processed := insert vaddr r.processed }

def applies (tx : Transaction) : Prop := target tx ≠ "" ∧ 0 < amount tx

instance (tx : Transaction) : Decidable (applies tx) := by unfold applies; infer_instance

variable [Env]

open Classical in
noncomputable def step (r : Roster) (tx : Transaction) : Roster :=
  match tx.txType with
  | .REGISTER_VALIDATOR => r.register tx
  | .REVOKE_KEY => r.revoke tx
  | .STAKE | .DELEGATE =>
    if applies tx then r.restake tx.sender (target tx) (· + amount tx) else r
  | .UNSTAKE =>
    if applies tx then r.restake tx.sender (target tx) (fun held => max 0 (held - amount tx)) else r
  | .EVIDENCE => if r.Convicts tx then r.punish (target tx) else r
  | _ => r

noncomputable def run (r : Roster) (txs : List Transaction) : Roster := txs.foldl step r

theorem runNil (r : Roster) : r.run [] = r := rfl

theorem runAppend (r : Roster) (xs ys : List Transaction) :
    r.run (xs ++ ys) = (r.run xs).run ys := List.foldl_append

end Roster

namespace Staking

def roster (k : Staking) : Roster where
  keyOf := fun a => k.validatorRegistry[a]?
  revoked := { key | key ∈ k.revokedKeys }
  stake := fun v s => k.stakes.get (v,s)
  weight := k.totalStake.get
  slashed := { a | a ∈ k.slashedValidators }
  processed := { a | a ∈ k.processedEvidence }

theorem rosterWeight (k : Staking) (vaddr : Address) :
    k.roster.weight vaddr = k.totalStake.get vaddr := rfl

theorem setCommissionRoster (k : Staking) (vaddr : Address) (commission : Option Int) :
    (k.setCommission vaddr commission).roster = k.roster := by
  unfold setCommission
  split
  · split <;> rfl
  · rfl

theorem registerRoster {k k' : Staking} {tx : Transaction}
    (run : k.registerValidator tx.payload = .ok k') : k'.roster = k.roster.register tx := by
  simp only [registerValidator] at run
  simp only [Roster.register,Roster.target]
  split at run
  · rename_i missing
    cases run
    rw [if_neg (by tauto)]
  · rename_i present
    split at run
    · rename_i known
      cases run
      rw [setCommissionRoster,if_neg]
      rintro ⟨-,-,absent⟩
      exact (Dict.absentIff ..).mp absent known
    · rename_i fresh
      split at run
      · contradiction
      · rename_i pk decoded
        cases run
        rw [setCommissionRoster,if_pos]
        · refine Roster.ext ?_ rfl rfl rfl rfl rfl
          funext a
          by_cases same : a = tx.payload.validatorAddress.getD ""
          · subst same; simp [roster,addValidator,decoded]
          · simp [roster,addValidator,Std.ExtTreeMap.getElem?_insert,same,Ne.symm same]
        · refine ⟨by tauto,by tauto,?_⟩
          simpa [roster] using fresh

theorem revokeRoster (k : Staking) (tx : Transaction) (revocation : Revocation) :
    (k.revokeKey tx.sender tx.payload revocation).roster = k.roster.revoke tx := by
  have revoked : { key | key ∈ k.revokedKeys.insert
        (revocationKey tx.sender (tx.payload.keyType.getD "")) revocation } =
      insert (revocationKey tx.sender (tx.payload.keyType.getD "")) { key | key ∈ k.revokedKeys } := by
    ext key
    exact Dict.memInsert ..
  simp only [revokeKey,Roster.revoke]
  split
  · refine Roster.ext ?_ revoked rfl rfl rfl rfl
    funext a
    by_cases same : a = tx.sender
    · subst same; simp [roster,removeValidator]
    · simp [roster,removeValidator,Std.ExtTreeMap.getElem?_erase,same,Ne.symm same]
  · exact Roster.ext rfl revoked rfl rfl rfl rfl

theorem restakeRoster (k : Staking) (staker vaddr : Address) (f : Int → Int)
    (unbonding : List UnbondingEntry) :
    ({ k with
        stakes := k.stakes.update (vaddr,staker) f
        totalStake := k.totalStake.update vaddr f
        unbonding := unbonding } : Staking).roster = k.roster.restake staker vaddr f := by
  refine Roster.ext rfl rfl ?_ ?_ rfl rfl
  · funext v s
    simp only [roster,Roster.restake,Table.getUpdate,Prod.mk.injEq]
    by_cases same : vaddr = v ∧ staker = s
    · obtain ⟨rfl,rfl⟩ := same; simp
    · rw [if_neg same,if_neg (by tauto)]
  · funext v
    simp only [roster,Roster.restake,Table.getUpdate]
    by_cases same : vaddr = v
    · subst same; simp
    · rw [if_neg same,if_neg (Ne.symm same)]

theorem afterSlashZero : afterSlash 0 = 0 := by decide

theorem slashRoster (k : Staking) (vaddr : Address) (txId : String) (blockIndex : Int) :
    (k.slash vaddr txId blockIndex).roster = k.roster.punish vaddr := by
  have members : ∀ set : DSet Address, { a | a ∈ set.insert vaddr } = insert vaddr { a | a ∈ set } := by
    intro set
    ext a
    exact DSet.memInsert ..
  simp only [slash,Roster.punish]
  by_cases low : afterSlash (k.totalStake.get vaddr) < minStake
  · refine Roster.ext ?_ ?_ ?_ ?_ ?_ ?_
    · simp [roster,low,expel,removeValidator]
    · simp [roster,low,expel,removeValidator]
    · funext v s
      simp only [roster,low,if_true,expel,removeValidator]
      rw [Table.getMapWhere _ _ _ rfl,Table.getMapWhere _ _ _ afterSlashZero]
      by_cases same : v = vaddr <;> simp [same]
    · funext v
      simp only [roster,low,if_true,expel,removeValidator,Table.getSet]
      by_cases same : vaddr = v
      · simp [same]
      · simp [same,Ne.symm same]
    · simpa [roster,low,expel,removeValidator] using members k.slashedValidators
    · simpa [roster,low,expel,removeValidator] using members k.processedEvidence
  · refine Roster.ext ?_ ?_ ?_ ?_ ?_ ?_
    · simp [roster,low]
    · simp [roster,low]
    · funext v s
      simp only [roster,low,if_false]
      rw [Table.getMapWhere _ _ _ afterSlashZero]
      by_cases same : v = vaddr <;> simp [same]
    · funext v
      simp only [roster,low,if_false,Table.getSet]
      by_cases same : vaddr = v
      · simp [same]
      · simp [same,Ne.symm same]
    · simpa [roster,low] using members k.slashedValidators
    · simpa [roster,low] using members k.processedEvidence

variable [Env]

theorem evidenceConvicts (k : Staking) (tx : Transaction) :
    k.evidenceHolds tx.payload = true ↔ k.roster.Convicts tx := by
  simp only [evidenceHolds,Roster.Convicts,Bool.and_eq_true,decide_eq_true_eq]
  constructor
  · rintro ⟨⟨named,fresh⟩,signed⟩
    cases h : k.validatorRegistry[tx.payload.validatorAddress.getD ""]? <;>
      cases sa : fromHex (tx.payload.blockASig.getD "") <;>
      cases sb : fromHex (tx.payload.blockBSig.getD "") <;>
      cases ha : fromHex (tx.payload.blockAHeader.getD "") <;>
      cases hb : fromHex (tx.payload.blockBHeader.getD "") <;> simp_all
    rename_i vpk sigA sigB headerA headerB
    exact ⟨fresh,vpk,h,headerA,headerB,ha,hb,⟨sigA,sa,signed.1⟩,⟨sigB,sb,signed.2⟩⟩
  · rintro ⟨named,fresh,vpk,headerA,headerB,known,signed⟩
    obtain ⟨sigA,sa,va⟩ := signed.signedA
    obtain ⟨sigB,sb,vb⟩ := signed.signedB
    have found : k.validatorRegistry[tx.payload.validatorAddress.getD ""]? = some vpk := known
    refine ⟨⟨named,fresh⟩,?_⟩
    simp [found,sa,sb,signed.decodedA,signed.decodedB,va,vb]

omit [Env] in
theorem addStakeRoster (k : Staking) (tx : Transaction) :
    (k.addStake tx.sender tx.payload).roster =
      if Roster.applies tx then
        k.roster.restake tx.sender (Roster.target tx) (· + Roster.amount tx)
      else k.roster := by
  simp only [addStake]
  split
  · rw [if_pos (by assumption)]; exact restakeRoster ..
  · rw [if_neg (by assumption)]

omit [Env] in
theorem unstakeRoster (k : Staking) (tx : Transaction) (idx : Int) :
    (k.unstake tx.sender tx.payload idx).roster =
      if Roster.applies tx then
        k.roster.restake tx.sender (Roster.target tx) (fun held => max 0 (held - Roster.amount tx))
      else k.roster := by
  simp only [unstake]
  split
  · rw [if_pos (by assumption)]; exact restakeRoster ..
  · rw [if_neg (by assumption)]

open Classical in
theorem processEvidenceRoster (k : Staking) (tx : Transaction) (idx : Int) :
    (k.processEvidenceTx tx idx).roster =
      if k.roster.Convicts tx then k.roster.punish (Roster.target tx) else k.roster := by
  unfold processEvidenceTx
  by_cases holds : k.evidenceHolds tx.payload = true
  · rw [if_pos holds,if_pos ((evidenceConvicts k tx).mp holds)]; exact slashRoster ..
  · rw [if_neg holds,if_neg (fun h => holds ((evidenceConvicts k tx).mpr h))]

theorem applyTxRoster {k k' : Staking} {tx : Transaction} {idx : Int}
    (run : k.applyTx tx idx = .ok k') : k'.roster = k.roster.step tx := by
  cases kind : tx.txType <;> simp only [applyTx,kind] at run <;> simp only [Roster.step,kind]
  case REGISTER_VALIDATOR => exact registerRoster run
  all_goals cases run
  case REVOKE_KEY => exact revokeRoster ..
  case STAKE => exact addStakeRoster ..
  case DELEGATE => exact addStakeRoster ..
  case UNSTAKE => exact unstakeRoster ..
  case EVIDENCE => exact processEvidenceRoster ..
  all_goals rfl

end Staking

end QbitNetwork
