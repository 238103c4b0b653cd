import QbitNetwork.Roster
import Mathlib.Algebra.Order.BigOperators.Group.List

/-! The money of a block: what the opening, each transaction and the reward do to the
accounted funds, free and locked, less what was minted. -/
namespace QbitNetwork

namespace Staking

def locked (k : Staking) : Int :=
  k.totalStake.sum + (k.unbonding.map UnbondingEntry.amount).sum

end Staking

namespace Roster
variable [Env]

open Classical in
/- What a transaction adds to the locked funds: an UNSTAKE queues its whole amount,
whatever weight there is to take it from, and a slash pays its cut to nobody. -/
noncomputable def locks (r : Roster) (tx : Transaction) : Int :=
  match tx.txType with
  | .STAKE | .DELEGATE => if applies tx then amount tx else 0
  | .UNSTAKE => if applies tx then max 0 (amount tx - r.weight (target tx)) else 0
  | .EVIDENCE =>
    if r.Convicts tx then (r.punish (target tx)).weight (target tx) - r.weight (target tx) else 0
  | _ => 0

noncomputable def unbacked (charged : Bool) (r : Roster) (tx : Transaction) : Int :=
  if charged then r.locks tx - Ledger.stakedAmount tx else r.locks tx

noncomputable def unbackedAll (charged : Bool) (r : Roster) : List Transaction → Int
  | [] => 0
  | tx :: rest => r.unbacked charged tx + (r.step tx).unbackedAll charged rest

end Roster

namespace Staking

theorem setCommissionLocked (k : Staking) (vaddr : Address) (commission : Option Int) :
    (k.setCommission vaddr commission).locked = k.locked := by
  unfold setCommission
  split
  · split <;> rfl
  · rfl

theorem registerLocked {k k' : Staking} {p : Payload} (run : k.registerValidator p = .ok k') :
    k'.locked = k.locked := by
  simp only [registerValidator] at run
  split at run
  · cases run; rfl
  · split at run
    · cases run; exact setCommissionLocked ..
    · split at run
      · contradiction
      · cases run; exact setCommissionLocked ..

theorem revokeLocked (k : Staking) (sender : Address) (p : Payload) (revocation : Revocation) :
    (k.revokeKey sender p revocation).locked = k.locked := by
  simp only [revokeKey]
  split <;> rfl

theorem addStakeLocked (k : Staking) (tx : Transaction) :
    (k.addStake tx.sender tx.payload).locked =
      k.locked + if Roster.applies tx then Roster.amount tx else 0 := by
  simp only [addStake]
  split
  · rename_i applies
    rw [if_pos (by exact applies)]
    simp only [locked,Table.update,Table.sumSet,Roster.amount]
    omega
  · rename_i skipped
    rw [if_neg (by exact skipped)]
    omega

theorem unstakeLocked (k : Staking) (tx : Transaction) (idx : Int) :
    (k.unstake tx.sender tx.payload idx).locked = k.locked +
      if Roster.applies tx then max 0 (Roster.amount tx - k.roster.weight (Roster.target tx))
      else 0 := by
  simp only [unstake]
  split
  · rename_i applies
    rw [if_pos (by exact applies)]
    simp only [locked,Table.update,Table.sumSet,List.map_append,List.sum_append,List.map_cons,
      List.map_nil,List.sum_cons,List.sum_nil,roster,Roster.amount,Roster.target]
    omega
  · rename_i skipped
    rw [if_neg (by exact skipped)]
    omega

theorem slashLocked (k : Staking) (vaddr : Address) (txId : String) (blockIndex : Int) :
    (k.slash vaddr txId blockIndex).locked =
      k.locked + ((k.roster.punish vaddr).weight vaddr - k.roster.weight vaddr) := by
  simp only [slash,Roster.punish,roster,if_true]
  by_cases low : afterSlash (k.totalStake.get vaddr) < minStake
  · simp only [if_pos low,locked,expel,removeValidator,Table.sumSet,Table.getSet,if_true]
    omega
  · simp only [if_neg low,locked,Table.sumSet]
    omega

variable [Env]

theorem applyTxLocked {k k' : Staking} {tx : Transaction} {idx : Int}
    (run : k.applyTx tx idx = .ok k') : k'.locked = k.locked + k.roster.locks tx := by
  cases kind : tx.txType <;> simp only [applyTx,kind] at run <;> simp only [Roster.locks,kind]
  case REGISTER_VALIDATOR => rw [registerLocked run]; omega
  all_goals cases run
  case REVOKE_KEY => rw [revokeLocked]; omega
  case STAKE => exact addStakeLocked ..
  case DELEGATE => exact addStakeLocked ..
  case UNSTAKE => exact unstakeLocked ..
  case EVIDENCE =>
    unfold processEvidenceTx
    by_cases holds : k.evidenceHolds tx.payload = true
    · rw [if_pos holds,if_pos ((evidenceConvicts k tx).mp holds)]
      exact slashLocked ..
    · rw [if_neg holds,if_neg (fun convicted => holds ((evidenceConvicts k tx).mpr convicted))]
      omega
  all_goals omega

end Staking

namespace Ledger

theorem creditAllWorth {rows : List (Address × Int)} {l l' : Ledger}
    (run : rows.foldlM (fun l row => l.credit row.1 row.2) l = .ok l') :
    l'.worth = l.worth + (rows.map Prod.snd).sum ∧ l'.financialActive = l.financialActive := by
  induction rows generalizing l with
  | nil => cases run; simp
  | cons row rows ih =>
    rw [List.foldlM_cons,Outcome.bindOk] at run
    obtain ⟨mid,paid,run⟩ := run
    have moved := (creditMoved paid).2
    obtain ⟨rest,active⟩ := ih run
    refine ⟨?_,active.trans moved.active⟩
    rw [rest,moved.worth,List.map_cons,List.sum_cons]
    omega

end Ledger

namespace ChainState

def funds (s : ChainState) : Int := s.ledger.worth + s.staking.locked

def active (s : ChainState) : Bool := s.ledger.financialActive

theorem maturedSum (k : Staking) (idx : Int) :
    (k.unbonding.map UnbondingEntry.amount).sum =
      ((k.matured idx).map UnbondingEntry.amount).sum +
        ((k.dropMatured idx).unbonding.map UnbondingEntry.amount).sum := by
  simp only [Staking.matured,Staking.dropMatured]
  induction k.unbonding with
  | nil => rfl
  | cons entry rest ih =>
    by_cases due : entry.releaseBlock ≤ idx
    · have late : ¬idx < entry.releaseBlock := by omega
      simp only [List.filter_cons,due,late,decide_true,decide_false,not_le] at ih ⊢
      simp only [if_true,Bool.false_eq_true,if_false,List.map_cons,List.sum_cons,ih]
      omega
    · have late : idx < entry.releaseBlock := by omega
      simp only [List.filter_cons,due,late,decide_true,decide_false,not_le] at ih ⊢
      simp only [if_true,Bool.false_eq_true,if_false,List.map_cons,List.sum_cons,ih]
      omega

theorem processMatureStaking {s s' : ChainState} {idx : Int}
    (run : s.processMatureUnbondings idx = .ok s') : s'.staking = s.staking.dropMatured idx := by
  simp only [processMatureUnbondings,Outcome.bindOk,Outcome.withinOk] at run
  obtain ⟨_,⟨ledger,paid,rfl⟩,run⟩ := run
  cases run
  rfl

theorem processMatureFunds {s s' : ChainState} {idx : Int} (active : s.active = true)
    (run : s.processMatureUnbondings idx = .ok s') : s'.funds = s.funds ∧ s'.active = true := by
  simp only [processMatureUnbondings,Outcome.bindOk,Outcome.withinOk] at run
  obtain ⟨_,⟨ledger,paid,rfl⟩,run⟩ := run
  cases run
  have credits : ∀ (rows : List UnbondingEntry) (l l' : Ledger), l.financialActive = true →
      rows.foldlM (fun (l : Ledger) (entry : UnbondingEntry) =>
        if l.financialActive then l.credit entry.staker entry.amount else .ok l) l = .ok l' →
      l'.worth = l.worth + (rows.map UnbondingEntry.amount).sum ∧ l'.financialActive = true := by
    intro rows
    induction rows with
    | nil => intro l l' active run; cases run; simp [active]
    | cons entry rest ih =>
      intro l l' active run
      rw [List.foldlM_cons,Outcome.bindOk,active,if_pos rfl] at run
      obtain ⟨mid,first,run⟩ := run
      have moved := (Ledger.creditMoved first).2
      obtain ⟨later,stays⟩ := ih mid l' (moved.active.trans active) run
      refine ⟨?_,stays⟩
      rw [later,moved.worth,List.map_cons,List.sum_cons]
      omega
  obtain ⟨worth,stays⟩ := credits _ _ _ active paid
  refine ⟨?_,stays⟩
  have split := maturedSum s.staking idx
  simp only [funds,Staking.locked,worth,Staking.dropMatured] at split ⊢
  omega

theorem distributeForFunds {k : Staking} {snapshot : Address → Int} {p p' : Payout}
    {vaddr : Address} (run : distributeFor k snapshot p vaddr = .ok p') :
    p'.ledger.worth = p.ledger.worth ∧ p'.ledger.financialActive = p.ledger.financialActive := by
  simp only [distributeFor] at run
  split at run
  · cases run; exact ⟨rfl,rfl⟩
  · simp only [Outcome.bindOk,Outcome.withinOk] at run
    obtain ⟨_,⟨paid,credits,rfl⟩,_,⟨ledger,debit,rfl⟩,run⟩ := run
    cases run
    obtain ⟨worth,stays⟩ := Ledger.creditAllWorth credits
    split at debit
    · have out := (Ledger.debitMoved debit).2.2
      exact ⟨by simp only [out.worth,worth]; omega,out.active.trans stays⟩
    · rename_i nothing
      cases debit
      refine ⟨?_,stays⟩
      have rows : ∀ row ∈ shares (delegatorPool k snapshot p vaddr)
          ((delegators k vaddr).map Prod.snd).sum (delegators k vaddr), 0 < row.2 := by
        intro row mem
        simpa using (List.mem_filter.mp mem).2
      have sum := List.sum_nonneg (l := (shares (delegatorPool k snapshot p vaddr)
        ((delegators k vaddr).map Prod.snd).sum (delegators k vaddr)).map Prod.snd) (by
          intro amount mem
          obtain ⟨row,inside,rfl⟩ := List.mem_map.mp mem
          exact le_of_lt (rows row inside))
      simp only [worth]
      omega

theorem distributeEpochRewardsFunds {s s' : ChainState} {epoch : Int}
    (run : s.distributeEpochRewards epoch = .ok s') :
    s'.funds = s.funds ∧ s'.active = s.active ∧ s'.staking.roster = s.staking.roster := by
  simp only [distributeEpochRewards] at run
  split at run
  · contradiction
  · rename_i p paid
    cases run
    have kept := Outcome.foldInvariant
      (fun p : Payout => p.ledger.worth = s.ledger.worth ∧
        p.ledger.financialActive = s.ledger.financialActive)
      (fun _ _ _ kept step => ⟨(distributeForFunds step).1.trans kept.1,
        (distributeForFunds step).2.trans kept.2⟩) ⟨rfl,rfl⟩ paid
    refine ⟨?_,kept.2,rfl⟩
    simp only [funds,kept.1]
    rfl

theorem checkEpochFunds {s s' : ChainState} {idx : Int}
    (run : s.checkEpochTransition idx = .ok s') :
    s'.funds = s.funds ∧ s'.active = s.active ∧ s'.staking.roster = s.staking.roster := by
  simp only [checkEpochTransition] at run
  split at run
  · split at run
    · obtain ⟨mid,paid,run⟩ := Outcome.bindOk .. |>.mp run
      cases run
      obtain ⟨funds,stays,roster⟩ := distributeEpochRewardsFunds paid
      exact ⟨funds,stays,roster⟩
    · cases run; exact ⟨rfl,rfl,rfl⟩
  · cases run; exact ⟨rfl,rfl,rfl⟩

theorem openBlockRoster {s s' : ChainState} {idx : Int} (run : s.openBlock idx = .ok s') :
    s'.staking.roster = s.staking.roster := by
  obtain ⟨mid,matured,run⟩ := Outcome.bindOk .. |>.mp run
  obtain ⟨-,-,roster⟩ := checkEpochFunds run
  rw [roster,processMatureStaking matured]
  rfl

theorem openBlockFunds {s s' : ChainState} {idx : Int} (active : s.active = true)
    (run : s.openBlock idx = .ok s') : s'.funds = s.funds ∧ s'.active = true := by
  obtain ⟨mid,matured,run⟩ := Outcome.bindOk .. |>.mp run
  obtain ⟨funds,stays⟩ := processMatureFunds active matured
  obtain ⟨funds',stays',-⟩ := checkEpochFunds run
  exact ⟨funds'.trans funds,stays'.trans stays⟩

variable [Env]

theorem chargeTxStaking {s s' : ChainState} {block : Block} {idx : Int} {tx : Transaction}
    (run : s.chargeTx block idx tx = .ok s') : s'.staking = s.staking ∧ s'.tokens = s.tokens := by
  unfold chargeTx at run
  split at run
  · simp only [Outcome.withinOk] at run
    obtain ⟨ledger,-,rfl⟩ := run
    exact ⟨rfl,rfl⟩
  · cases run
    exact ⟨rfl,rfl⟩

theorem applyTxRoster {block : Block} {idx : Int} {s s' : ChainState} {row : Transaction × Nat}
    (run : applyTx block idx s row = .ok s') : s'.staking.roster = s.staking.roster.step row.1 := by
  simp only [applyTx,Outcome.bindOk,Outcome.withinOk] at run
  obtain ⟨mid,charge,_,⟨staking,staked,rfl⟩,tokens,-,rfl⟩ := run
  rw [(chargeTxStaking charge).1] at staked
  exact Staking.applyTxRoster staked

theorem applyTxFunds {block : Block} {idx : Int} {s s' : ChainState} {row : Transaction × Nat}
    (active : s.active = true) (run : applyTx block idx s row = .ok s') :
    s'.funds = s.funds + s.staking.roster.unbacked (decide (0 < idx)) row.1 ∧ s'.active = true := by
  simp only [applyTx,Outcome.bindOk,Outcome.withinOk] at run
  obtain ⟨mid,charge,_,⟨staking,staked,rfl⟩,tokens,-,rfl⟩ := run
  rw [(chargeTxStaking charge).1] at staked
  have paid : mid.ledger.financialActive = true ∧ mid.ledger.worth =
      s.ledger.worth - if 0 < idx then Ledger.stakedAmount row.1 else 0 := by
    unfold chargeTx at charge
    split at charge
    · rename_i charged
      simp only [Outcome.withinOk] at charge
      obtain ⟨ledger,paid,rfl⟩ := charge
      obtain ⟨worth,stays⟩ := Ledger.chargeTxWorth paid
      exact ⟨stays.trans active,by rw [if_pos charged.1]; exact worth⟩
    · rename_i free
      have genesis : ¬0 < idx := fun later => free ⟨later,active⟩
      cases charge
      exact ⟨active,by rw [if_neg genesis]; exact (Int.sub_zero _).symm⟩
  obtain ⟨stays,worth⟩ := paid
  refine ⟨?_,stays⟩
  simp only [funds,Staking.applyTxLocked staked,worth,Roster.unbacked,decide_eq_true_eq]
  split <;> omega

theorem applyTxsFunds {block : Block} {idx : Int} {rows : List (Transaction × Nat)}
    {s s' : ChainState} (active : s.active = true)
    (run : rows.foldlM (applyTx block idx) s = .ok s') :
    s'.funds = s.funds +
        s.staking.roster.unbackedAll (decide (0 < idx)) (rows.map Prod.fst) ∧
      s'.active = true := by
  induction rows generalizing s with
  | nil => cases run; simp [Roster.unbackedAll,active]
  | cons row rows ih =>
    rw [List.foldlM_cons,Outcome.bindOk] at run
    obtain ⟨mid,first,run⟩ := run
    obtain ⟨funds,stays⟩ := applyTxFunds active first
    obtain ⟨rest,stays⟩ := ih stays run
    refine ⟨?_,stays⟩
    rw [rest,funds,applyTxRoster first,List.map_cons,Roster.unbackedAll]
    omega

omit [Env] in
theorem payRewardFunds {block : Block} {idx : Int} {s s' : ChainState}
    (run : s.payReward block idx = .ok s') : s'.funds = s.funds ∧ s'.active = s.active := by
  simp only [payReward] at run
  split at run
  · simp only [Outcome.bindOk,Outcome.withinOk] at run
    obtain ⟨_,⟨ledger,paid,rfl⟩,run⟩ := run
    cases run
    have moved := (Ledger.creditMoved paid).2
    refine ⟨?_,moved.active⟩
    have worth := moved.worth
    simp only [funds,Ledger.worth,Ledger.mint,Staking.addEpochReward,Staking.locked] at worth ⊢
    omega
  · cases run; exact ⟨rfl,rfl⟩

theorem applyBlockFunds {block : Block} {idx : Int} {s s' : ChainState} (active : s.active = true)
    (run : s.applyBlock block idx = .ok s') :
    s'.funds = s.funds + s.staking.roster.unbackedAll (decide (0 < idx)) block.transactions ∧
      s'.active = true := by
  simp only [applyBlock,Outcome.bindOk] at run
  obtain ⟨opened,opening,looped,loop,reward⟩ := run
  obtain ⟨funds,stays⟩ := openBlockFunds active opening
  have roster := openBlockRoster opening
  obtain ⟨funds',stays'⟩ := applyTxsFunds stays loop
  obtain ⟨funds'',stays''⟩ := payRewardFunds reward
  refine ⟨?_,stays''.trans stays'⟩
  rw [funds'',funds',funds,roster,List.zipIdx_map_fst]

end ChainState

end QbitNetwork
