import QbitNetwork.Replay

/-! Money before the reward of a block: it circulates, and no account goes below zero. -/
namespace QbitNetwork

namespace Ledger

def Solvent (l : Ledger) : Prop := ∀ address, 0 ≤ l.getBalance address

structure Circulates (l l' : Ledger) : Prop where
  solvent : l.Solvent → l'.Solvent
  minted : l'.totalMinted = l.totalMinted
  active : l'.financialActive = l.financialActive

theorem circulatesRefl (l : Ledger) : Circulates l l := ⟨id,rfl,rfl⟩

theorem Circulates.trans {a b c : Ledger} (first : Circulates a b) (second : Circulates b c) :
    Circulates a c where
  solvent := second.solvent ∘ first.solvent
  minted := second.minted.trans first.minted
  active := second.active.trans first.active

theorem creditCirculates {l l' : Ledger} {address : Address} {amount : Int}
    (run : l.credit address amount = .ok l') : Circulates l l' := by
  obtain ⟨nonneg,moved⟩ := creditMoved run
  refine ⟨fun solvent a => ?_,moved.minted,moved.active⟩
  rw [moved.balance]
  have := solvent a
  split <;> omega

theorem debitCirculates {l l' : Ledger} {address : Address} {amount : Int}
    (run : l.debit address amount = .ok l') : Circulates l l' := by
  obtain ⟨nonneg,covered,moved⟩ := debitMoved run
  refine ⟨fun solvent a => ?_,moved.minted,moved.active⟩
  rw [moved.balance]
  have := solvent a
  split
  · rename_i same
    subst same
    omega
  · omega

theorem burnCirculates (l : Ledger) (amount : Int) : Circulates l (l.burn amount) := ⟨id,rfl,rfl⟩

theorem creditAllCirculates {rows : List (Address × Int)} {l l' : Ledger}
    (run : rows.foldlM (fun l row => l.credit row.1 row.2) l = .ok l') : Circulates l l' :=
  Outcome.foldInvariant (Circulates l) (fun _ _ _ kept step => kept.trans (creditCirculates step))
    (circulatesRefl l) run

theorem chargeFeeCirculates {dynamic : Bool} {block : Block} {tx : Transaction} {l l' : Ledger}
    (run : l.chargeFee dynamic block tx = .ok l') : Circulates l l' := by
  simp only [chargeFee] at run
  split at run
  · split at run
    · obtain ⟨mid,paid,run⟩ := Outcome.bindOk .. |>.mp run
      exact (debitCirculates paid).trans (creditCirculates run)
    · cases run; exact circulatesRefl l
  · split at run
    · simp only [Outcome.bindOk] at run
      obtain ⟨mid,paid,shared,earned,run⟩ := run
      cases run
      exact ((debitCirculates paid).trans (creditCirculates earned)).trans (burnCirculates ..)
    · cases run; exact circulatesRefl l

theorem moveAmountCirculates {tx : Transaction} {l l' : Ledger} (run : l.moveAmount tx = .ok l') :
    Circulates l l' := by
  have stake : ∀ {l' : Ledger}, (if 0 < tx.payload.amount.getD 0 then
      l.debit tx.sender (tx.payload.amount.getD 0) else .ok l) = .ok l' → Circulates l l' := by
    intro l' run
    split at run
    · exact debitCirculates run
    · cases run; exact circulatesRefl l
  unfold moveAmount at run
  split at run
  · split at run
    · contradiction
    · obtain ⟨mid,paid,run⟩ := Outcome.bindOk .. |>.mp run
      exact (debitCirculates paid).trans (creditCirculates run)
  · exact stake run
  · exact stake run
  · cases run; exact circulatesRefl l

theorem chargeTxCirculates {dynamic : Bool} {block : Block} {tx : Transaction} {l l' : Ledger}
    (run : l.chargeTx dynamic block tx = .ok l') : Circulates l l' := by
  obtain ⟨mid,fee,run⟩ := Outcome.bindOk .. |>.mp run
  exact (chargeFeeCirculates fee).trans (moveAmountCirculates run)

end Ledger

namespace ChainState
open Ledger (Circulates circulatesRefl)

theorem processMatureCirculates {s s' : ChainState} {idx : Int}
    (run : s.processMatureUnbondings idx = .ok s') :
    Circulates s.ledger s'.ledger ∧ (s.active = false → s'.ledger = s.ledger) := by
  simp only [processMatureUnbondings,Outcome.bindOk,Outcome.withinOk] at run
  obtain ⟨_,⟨ledger,paid,rfl⟩,run⟩ := run
  cases run
  constructor
  · refine Outcome.foldInvariant (Circulates s.ledger) (fun l entry l' kept step => ?_)
      (circulatesRefl _) paid
    split at step
    · exact kept.trans (Ledger.creditCirculates step)
    · cases step; exact kept
  · intro idle
    refine Outcome.foldInvariant (fun l => l = s.ledger) (fun l entry l' kept step => ?_) rfl paid
    subst kept
    rw [show s.ledger.financialActive = false from idle] at step
    cases step
    rfl

theorem distributeForCirculates {k : Staking} {snapshot : Address → Int} {p p' : Payout}
    {vaddr : Address} (run : distributeFor k snapshot p vaddr = .ok p') :
    Circulates p.ledger p'.ledger := by
  simp only [distributeFor] at run
  split at run
  · cases run; exact circulatesRefl _
  · simp only [Outcome.bindOk,Outcome.withinOk] at run
    obtain ⟨_,⟨paid,credits,rfl⟩,_,⟨ledger,debit,rfl⟩,run⟩ := run
    cases run
    refine (Ledger.creditAllCirculates credits).trans ?_
    split at debit
    · exact Ledger.debitCirculates debit
    · cases debit; exact circulatesRefl _

theorem distributeCirculates {s s' : ChainState} {epoch : Int}
    (run : s.distributeEpochRewards epoch = .ok s') : Circulates s.ledger s'.ledger := by
  simp only [distributeEpochRewards] at run
  split at run
  · contradiction
  · rename_i p folded
    cases run
    exact Outcome.foldInvariant (fun p : Payout => Circulates s.ledger p.ledger)
      (fun _ _ _ kept step => kept.trans (distributeForCirculates step)) (circulatesRefl _) folded

theorem checkEpochCirculates {s s' : ChainState} {idx : Int}
    (run : s.checkEpochTransition idx = .ok s') :
    Circulates s.ledger s'.ledger ∧ (s.active = false → s'.ledger = s.ledger) := by
  simp only [checkEpochTransition] at run
  split at run
  · split at run
    · rename_i paying
      obtain ⟨mid,distributed,run⟩ := Outcome.bindOk .. |>.mp run
      have moved := distributeCirculates distributed
      cases run
      exact ⟨moved,fun idle => by simp [active,paying.2] at idle⟩
    · cases run; exact ⟨circulatesRefl _,fun _ => rfl⟩
  · cases run; exact ⟨circulatesRefl _,fun _ => rfl⟩

theorem openBlockCirculates {s s' : ChainState} {idx : Int} (run : s.openBlock idx = .ok s') :
    Circulates s.ledger s'.ledger ∧ (s.active = false → s'.ledger = s.ledger) := by
  obtain ⟨mid,matured,run⟩ := Outcome.bindOk .. |>.mp run
  obtain ⟨first,idle⟩ := processMatureCirculates matured
  obtain ⟨second,still⟩ := checkEpochCirculates run
  refine ⟨first.trans second,fun inactive => ?_⟩
  rw [still (first.active.trans inactive),idle inactive]

variable [Env]

theorem applyTxCirculates {block : Block} {idx : Int} {s s' : ChainState} {row : Transaction × Nat}
    (run : applyTx block idx s row = .ok s') :
    Circulates s.ledger s'.ledger ∧ (s.active = false → s'.ledger = s.ledger) := by
  simp only [applyTx,Outcome.bindOk,Outcome.withinOk] at run
  obtain ⟨charged,charge,_,⟨staking,-,rfl⟩,tokens,-,rfl⟩ := run
  simp only [chargeTx] at charge
  split at charge
  · rename_i paying
    obtain ⟨ledger,paid,rfl⟩ := Outcome.withinOk .. |>.mp charge
    exact ⟨Ledger.chargeTxCirculates paid,fun idle => by simp [active,paying.2] at idle⟩
  · cases charge; exact ⟨circulatesRefl _,fun _ => rfl⟩

theorem applyTxsCirculates {block : Block} {idx : Int} {s s' : ChainState}
    (run : s.applyTxs block idx = .ok s') :
    Circulates s.ledger s'.ledger ∧ (s.active = false → s'.ledger = s.ledger) := by
  refine Outcome.foldInvariant (fun t : ChainState => Circulates s.ledger t.ledger ∧
    (s.active = false → t.ledger = s.ledger)) (fun t row t' kept step => ?_)
    ⟨circulatesRefl _,fun _ => rfl⟩ run
  obtain ⟨moved,idle⟩ := applyTxCirculates step
  refine ⟨kept.1.trans moved,fun inactive => ?_⟩
  rw [idle (kept.1.active.trans inactive),kept.2 inactive]

theorem applyBlockIdle {s c : ChainState} {block : Block} {idx : Int} (idle : s.active = false)
    (run : s.applyBlock block idx = .ok c) : c.ledger = s.ledger := by
  simp only [applyBlock,Outcome.bindOk] at run
  obtain ⟨opened,opening,looped,loop,reward⟩ := run
  obtain ⟨first,same⟩ := openBlockCirculates opening
  obtain ⟨second,still⟩ := applyTxsCirculates loop
  have quiet : looped.active = false := second.active.trans (first.active.trans idle)
  simp only [payReward] at reward
  rw [if_neg (fun paying => by simp [active,paying.2.1] at quiet)] at reward
  cases reward
  rw [still (first.active.trans idle),same idle]

theorem applyBlockRewarded {s c : ChainState} {block : Block} {idx : Int} (later : 0 < idx)
    (active : s.active = true) (solvent : s.ledger.Solvent)
    (rewarded : 0 < s.ledger.calcBlockReward idx) (run : s.applyBlock block idx = .ok c) :
    ∃ amount, 0 ≤ amount ∧ c.ledger.balances[block.validator]? = some amount := by
  simp only [applyBlock,Outcome.bindOk] at run
  obtain ⟨opened,opening,looped,loop,reward⟩ := run
  have moved := (openBlockCirculates opening).1.trans (applyTxsCirculates loop).1
  have same : looped.ledger.calcBlockReward idx = s.ledger.calcBlockReward idx := by
    simp only [Ledger.calcBlockReward,moved.minted]
  have paying : looped.ledger.financialActive = true := moved.active.trans active
  simp only [payReward] at reward
  rw [if_pos ⟨later,paying,by omega⟩] at reward
  simp only [Outcome.bindOk,Outcome.withinOk] at reward
  obtain ⟨_,⟨ledger,paid,rfl⟩,reward⟩ := reward
  cases reward
  simp only [Ledger.credit] at paid
  rw [if_neg (by omega),if_neg (by omega)] at paid
  cases paid
  have before := moved.solvent solvent block.validator
  refine ⟨looped.ledger.getBalance block.validator + looped.ledger.calcBlockReward idx,by omega,?_⟩
  simp [Ledger.mint,Ledger.setBalance]

end ChainState

end QbitNetwork
