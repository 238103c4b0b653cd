import QbitNetwork.Accounting
import QbitNetwork.ConsensusLaws

/-! Conservation of the native supply over accepted blocks. -/
namespace QbitNetwork

namespace Roster
variable [Env]

def granted (charged : Bool) (tx : Transaction) : Int :=
  match tx.txType with
  | .STAKE | .DELEGATE => if applies tx ∧ charged = false then amount tx else 0
  | _ => 0

def overdraft (r : Roster) (tx : Transaction) : Int :=
  match tx.txType with
  | .UNSTAKE => if applies tx then max 0 (amount tx - r.weight (target tx)) else 0
  | _ => 0

open Classical in
noncomputable def cut (r : Roster) (tx : Transaction) : Int :=
  match tx.txType with
  | .EVIDENCE =>
    if r.Convicts tx then r.weight (target tx) - (r.punish (target tx)).weight (target tx) else 0
  | _ => 0

noncomputable def created (charged : Bool) (r : Roster) : List Transaction → Int
  | [] => 0
  | tx :: rest => granted charged tx + r.overdraft tx + (r.step tx).created charged rest

noncomputable def destroyed (r : Roster) : List Transaction → Int
  | [] => 0
  | tx :: rest => r.cut tx + (r.step tx).destroyed rest

def Staked (tx : Transaction) : Prop :=
  tx.txType = .STAKE ∨ tx.txType = .DELEGATE → applies tx

theorem unbackedSplit {charged : Bool} {r : Roster} {tx : Transaction}
    (paid : charged = true → Staked tx) :
    r.unbacked charged tx = granted charged tx + r.overdraft tx - r.cut tx := by
  unfold unbacked
  cases kind : tx.txType <;>
    simp only [locks,granted,overdraft,cut,Ledger.stakedAmount,kind]
  case STAKE =>
    cases charged with
    | false => simp
    | true =>
      have applies := paid rfl (.inl kind)
      have positive : 0 < tx.payload.amount.getD 0 := applies.2
      simp only [if_true,if_pos applies,reduceCtorEq,and_false,if_false,amount]
      omega
  case DELEGATE =>
    cases charged with
    | false => simp
    | true =>
      have applies := paid rfl (.inr kind)
      have positive : 0 < tx.payload.amount.getD 0 := applies.2
      simp only [if_true,if_pos applies,reduceCtorEq,and_false,if_false,amount]
      omega
  all_goals (repeat' split) <;> omega

theorem unbackedAllSplit {charged : Bool} {txs : List Transaction} (r : Roster)
    (paid : charged = true → ∀ tx ∈ txs, Staked tx) :
    r.unbackedAll charged txs = r.created charged txs - r.destroyed txs := by
  induction txs generalizing r with
  | nil => rfl
  | cons tx rest ih =>
    rw [unbackedAll,created,destroyed,ih _ (fun c tx mem => paid c tx (List.mem_cons_of_mem _ mem)),
      unbackedSplit (fun c => paid c tx (List.mem_cons_self ..))]
    omega

end Roster

namespace Blockchain

theorem supplyInvariantFunds (s : Blockchain) : s.supplyInvariant = s.state.funds := by
  simp only [supplyInvariant,ChainState.funds,Ledger.worth,Staking.locked]
  omega

variable [Env]

theorem admittedStaked {s : Blockchain} {block : Block} {tx : Transaction}
    (admitted : Admitted s block tx) : Roster.Staked tx := by
  intro kind
  have checked := (validatePayloadOk admitted.payload).2.2
  have stake : stakeAmountCheck tx.payload = .ok () := by
    unfold typeCheck at checked
    rcases kind with kind | kind <;> simpa only [kind] using checked
  obtain ⟨least,-,named⟩ := stakeAmountCheckOk stake
  exact ⟨named,by simp only [Roster.amount]; omega⟩

def Evened (s : Blockchain) (block : Block) : Prop :=
  s.state.staking.roster.created (decide (0 < s.height + 1)) block.transactions =
    s.state.staking.roster.destroyed block.transactions

theorem acceptedFunds {s s' : Blockchain} {block : Block} (coherent : Coherent s)
    (active : s.financialActive = true) (step : Accepts s block s') :
    s'.supplyInvariant = s.supplyInvariant +
        (s.state.staking.roster.created (decide (0 < s.height + 1)) block.transactions -
          s.state.staking.roster.destroyed block.transactions) ∧
      s'.financialActive = true := by
  obtain ⟨c,grown⟩ := acceptsGrown step
  obtain ⟨funds,stays⟩ := ChainState.applyBlockFunds active grown.applied
  have paid : decide (0 < s.height + 1) = true →
      ∀ tx ∈ block.transactions, Roster.Staked tx := by
    intro charged tx inside
    have later : block.index ≠ 0 := by
      have := of_decide_eq_true charged
      rw [acceptsPosition coherent step]
      omega
    exact admittedStaked (transactionsCheckMem (grown.checked later) tx inside)
  rw [Roster.unbackedAllSplit _ paid] at funds
  have pruned : (c.staking.pruneDistributions (pruneBefore (s.height + 1))).locked =
      c.staking.locked := by
    unfold Staking.pruneDistributions
    split <;> rfl
  constructor
  · rw [supplyInvariantFunds,supplyInvariantFunds,← funds]
    simp only [ChainState.funds,grown.ledger,grown.staking,pruned]
  · unfold financialActive
    rw [grown.ledger]
    exact stays

theorem evenedRun {s s' : Blockchain} (built : Built s) (active : s.financialActive = true)
    (run : Runs Evened s s') :
    s'.supplyInvariant = s.supplyInvariant ∧ s'.financialActive = true := by
  induction run with
  | refl => exact ⟨rfl,active⟩
  | @tail mid next prior step ih =>
    have coherent := builtCoherent (Runs.built built prior)
    cases step with
    | submit now tx =>
      have same := submitState mid now tx
      refine ⟨?_,?_⟩
      · rw [supplyInvariantFunds,same,← supplyInvariantFunds]; exact ih.1
      · unfold financialActive; rw [same]; exact ih.2
    | accept block step met =>
      obtain ⟨funds,stays⟩ := acceptedFunds coherent ih.2 step
      have even : _ = _ := met
      exact ⟨by rw [funds,ih.1]; omega,stays⟩

theorem supplyConservedIff :
    (∀ s s' block, Built s → s.financialActive = true → Accepts s block s' →
      (s'.supplyInvariant = s.supplyInvariant ↔ Evened s block)) ∧
    (∀ s s', Built s → s.financialActive = true → Runs Evened s s' →
      s'.supplyInvariant = s.supplyInvariant) := by
  refine ⟨?_,fun s s' built active run => (evenedRun built active run).1⟩
  intro s s' block built active step
  have funds := (acceptedFunds (builtCoherent built) active step).1
  unfold Evened
  omega

end Blockchain

end QbitNetwork

namespace QbitNetwork.Devnet
attribute [local instance] legacy
open Blockchain

def unstake (nonce : Int) : Transaction :=
  Transaction.sign
    { txType := .UNSTAKE
      sender := address
      payload := { amount := some 1, validatorAddress := some address }
      timestamp := 101
      nonce } key key

def unstaking : Blockchain := (active.submitTx 101 (unstake 0)).2

def unstaked : Blockchain := (unstaking.produceBlock address key 102 102).2

def doubleUnstaking : Blockchain := (unstaking.submitTx 101 (unstake 1)).2

def doubleUnstaked : Blockchain := (doubleUnstaking.produceBlock address key 102 102).2

theorem unstakingBuilt : Built unstaking := by
  rw [unstaking]
  exact .submit 101 (unstake 0) activeBuilt

theorem doubleUnstakingBuilt : Built doubleUnstaking := by
  rw [doubleUnstaking]
  exact .submit 101 (unstake 1) unstakingBuilt

/- The second withdrawal queues a unit that no stake backs. -/
theorem supplyShifts :
    Built doubleUnstaking ∧ doubleUnstaking.financialActive = true ∧
      Accepts doubleUnstaking doubleUnstaked.tipBlock doubleUnstaked ∧
      doubleUnstaked.supplyInvariant = doubleUnstaking.supplyInvariant + 1 := by
  have run : (doubleUnstaking.produceBlock address key 102 102).1 = .accepted ∧
      doubleUnstaked.latestBlock.isSome = true ∧ doubleUnstaking.financialActive = true ∧
      doubleUnstaked.supplyInvariant = doubleUnstaking.supplyInvariant + 1 := by decide +kernel
  obtain ⟨answer,made,active,shift⟩ := run
  exact ⟨doubleUnstakingBuilt,active,producedAccepts (by rw [doubleUnstaked]) answer made,shift⟩

theorem supplyConservedUnstaking :
    unstaked.supplyInvariant = active.supplyInvariant ∧
      (unstaked.supplyInvariant = unstaking.supplyInvariant ↔
        Evened unstaking unstaked.tipBlock) := by
  have run : (unstaking.produceBlock address key 102 102).1 = .accepted ∧
      unstaked.latestBlock.isSome = true ∧ active.financialActive = true ∧
      unstaking.financialActive = true ∧ unstaked.tipBlock.transactions = [unstake 0] ∧
      unstaking.state.staking.totalStake.get address = 1 := by decide +kernel
  obtain ⟨answer,made,activeAtStart,activeLater,transactions,staked⟩ := run
  have step : Accepts unstaking unstaked.tipBlock unstaked :=
    producedAccepts (by rw [unstaked]) answer made
  have evened : Evened unstaking unstaked.tipBlock := by
    have weight : unstaking.state.staking.roster.weight address = 1 := by
      rw [Staking.rosterWeight,staked]
    rw [Evened,transactions]
    simp [Roster.created,Roster.destroyed,Roster.granted,Roster.overdraft,Roster.cut,unstake,
      Transaction.sign,Roster.applies,Roster.target,Roster.amount,weight]
  have submitted : Runs Evened active unstaking := by
    rw [unstaking]
    exact .single (.submit 101 (unstake 0))
  exact ⟨supplyConservedIff.2 active unstaked activeBuilt activeAtStart
      (submitted.tail (.accept _ step evened)),
    supplyConservedIff.1 unstaking unstaked _ unstakingBuilt activeLater step⟩

end QbitNetwork.Devnet
