import QbitNetwork.Emission
import QbitNetwork.Undo

/-! The undo of blocks gives the money back: fees, transfers, stakes and rewards, in reverse. -/
namespace QbitNetwork

namespace Ledger

structure Agrees (l l' : Ledger) : Prop where
  balance : ∀ a, l'.getBalance a = l.getBalance a
  minted : l'.totalMinted = l.totalMinted
  burned : l'.totalBurned = l.totalBurned
  active : l'.financialActive = l.financialActive

structure Ahead (l l' : Ledger) (address : Address) (surplus : Int) : Prop where
  balance : ∀ a, l'.getBalance a = l.getBalance a + if a = address then surplus else 0
  minted : l'.totalMinted = l.totalMinted + surplus
  burned : l'.totalBurned = l.totalBurned
  active : l'.financialActive = l.financialActive

structure Offset (l l' : Ledger) (gap : Address → Int) (surplus : Int) : Prop where
  balance : ∀ a, l'.getBalance a = l.getBalance a + gap a
  minted : l'.totalMinted = l.totalMinted + surplus
  burned : l'.totalBurned = l.totalBurned
  active : l'.financialActive = l.financialActive

theorem agreesRefl (l : Ledger) : Agrees l l := ⟨fun _ => rfl,rfl,rfl,rfl⟩

theorem Agrees.offset {l l' : Ledger} (agrees : Agrees l l') : Offset l l' (fun _ => 0) 0 :=
  ⟨fun a => (agrees.balance a).trans (Int.add_zero _).symm,agrees.minted.trans (Int.add_zero _).symm,agrees.burned,
    agrees.active⟩

theorem Agrees.ahead {l l' : Ledger} (agrees : Agrees l l') (address : Address) : Ahead l l' address 0 where
  balance := by
    intro a
    rw [agrees.balance]
    split <;> exact (Int.add_zero _).symm
  minted := by rw [agrees.minted,Int.add_zero]
  burned := agrees.burned
  active := agrees.active

theorem Ahead.agrees {l l' : Ledger} {address : Address} (ahead : Ahead l l' address 0) : Agrees l l' where
  balance := by
    intro a
    rw [ahead.balance]
    split <;> exact Int.add_zero _
  minted := by rw [ahead.minted,Int.add_zero]
  burned := ahead.burned
  active := ahead.active

theorem Offset.undone {l l' m m' : Ledger} {gap : Address → Int} {address : Address} {surplus amount : Int}
    (offset : Offset l' m gap surplus)
    (done : Moved l l' address amount) (undone : Moved m m' address (-amount)) : Offset l m' gap surplus where
  balance := by
    intro a
    have here := offset.balance a
    have forth := done.balance a
    have back := undone.balance a
    by_cases own : a = address
    · rw [if_pos own] at forth back
      omega
    · rw [if_neg own] at forth back
      omega
  minted := by rw [undone.minted,offset.minted,done.minted]
  burned := undone.burned.trans (offset.burned.trans done.burned)
  active := undone.active.trans (offset.active.trans done.active)

theorem Offset.unburnt {l m : Ledger} {gap : Address → Int} {surplus amount : Int}
    (offset : Offset (l.burn amount) m gap surplus) : Offset l (m.burn (-amount)) gap surplus where
  balance := offset.balance
  minted := offset.minted
  burned := by
    have burned := offset.burned
    simp only [burn] at burned ⊢
    omega
  active := offset.active

theorem Moved.burn {l l' : Ledger} {address : Address} {amount : Int} (moved : Moved l l' address amount)
    (burnt : Int) : Moved (l.burn burnt) (l'.burn burnt) address amount where
  balance := moved.balance
  total := moved.total
  minted := moved.minted
  burned := congrArg (· + burnt) moved.burned
  active := moved.active

theorem rollbackDebitMoved (l : Ledger) (address : Address) {amount : Int} (nonneg : 0 ≤ amount) :
    Moved l (l.rollbackDebit address amount) address (-amount) := by
  unfold rollbackDebit
  split
  · have zero : amount = 0 := by omega
    subst zero
    exact movedZero l address
  · exact putBalanceMoved l address (-amount)

theorem creditMoves (l : Ledger) (address : Address) {amount : Int} (nonneg : 0 ≤ amount) :
    ∃ l', l.credit address amount = .ok l' ∧ Moved l l' address amount := by
  obtain ⟨l',run⟩ := l.creditReturns address nonneg
  exact ⟨l',run,(creditMoved run).2⟩

section Refund
variable (dynamic : Bool) (block : Block) (tx : Transaction)

def refundFee (l : Ledger) : Except (Fault Ledger) Ledger :=
  let fee := txFee dynamic block.baseFee tx
  if dynamic then
    if 0 < txWeights tx.txType then (l.rollbackDebit block.validator fee).credit tx.sender fee
    else .ok l
  else if 0 < fee then
    ((l.rollbackDebit block.validator (fee / 2)).burn (-(fee - fee / 2))).credit tx.sender fee
  else .ok l

def refundAmount (l : Ledger) : Except (Fault Ledger) Ledger :=
  match tx.txType with
  | .STAKE | .DELEGATE =>
    if 0 < tx.payload.amount.getD 0 then l.credit tx.sender (tx.payload.amount.getD 0) else .ok l
  | .TRANSFER =>
    match tx.payload.amount with
    | none => .error ⟨.keyError "amount",l⟩
    | some amount => (l.rollbackDebit tx.recipient amount).credit tx.sender amount
  | _ => .ok l

theorem refundTxHalves (l : Ledger) :
    l.refundTx dynamic block tx = l.refundAmount tx >>= fun l => l.refundFee dynamic block tx := by
  unfold refundTx refundAmount refundFee
  cases tx.txType with
  | TRANSFER => cases tx.payload.amount <;> rfl
  | STAKE => dsimp only; split <;> rfl
  | DELEGATE => dsimp only; split <;> rfl
  | _ => rfl

end Refund

section Reversal
variable {dynamic : Bool} {block : Block} {tx : Transaction} {l l' m : Ledger} {gap : Address → Int}
  {surplus : Int}

theorem Offset.uncredit {address : Address} {amount : Int} (offset : Offset l' m gap surplus)
    (earned : l.credit address amount = .ok l') : Offset l (m.rollbackDebit address amount) gap surplus :=
  offset.undone (creditMoved earned).2 (m.rollbackDebitMoved address (creditMoved earned).1)

theorem Offset.undebit {address : Address} {amount : Int} (offset : Offset l' m gap surplus)
    (paid : l.debit address amount = .ok l') : ∃ m', m.credit address amount = .ok m' ∧ Offset l m' gap surplus := by
  obtain ⟨nonneg,-,out⟩ := debitMoved paid
  obtain ⟨m',refunded,given⟩ := m.creditMoves address nonneg
  exact ⟨m',refunded,offset.undone out (by rwa [Int.neg_neg])⟩

theorem refundFeeUndoes (run : l.chargeFee dynamic block tx = .ok l') (offset : Offset l' m gap surplus) :
    ∃ m', m.refundFee dynamic block tx = .ok m' ∧ Offset l m' gap surplus := by
  simp only [chargeFee] at run
  simp only [refundFee]
  split at run
  · rename_i isDynamic
    rw [if_pos isDynamic]
    split at run
    · rename_i weighs
      rw [if_pos weighs]
      obtain ⟨mid,paid,earned⟩ := Outcome.bindOk .. |>.mp run
      exact (offset.uncredit earned).undebit paid
    · rename_i light
      rw [if_neg light]
      cases run
      exact ⟨m,rfl,offset⟩
  · rename_i legacy
    rw [if_neg legacy]
    split at run
    · rename_i costs
      rw [if_pos costs]
      simp only [Outcome.bindOk] at run
      obtain ⟨mid,paid,shared,earned,run⟩ := run
      cases run
      -- what was burned is unburnt after the half is taken back, which makes no difference
      obtain ⟨half,back⟩ := creditMoved earned
      have taken := (m.rollbackDebitMoved block.validator half).burn
        (-(txFee dynamic block.baseFee tx - txFee dynamic block.baseFee tx / 2))
      exact (offset.unburnt.undone back taken).undebit paid
    · rename_i free
      rw [if_neg free]
      cases run
      exact ⟨m,rfl,offset⟩

theorem refundAmountUndoes (run : l.moveAmount tx = .ok l') (offset : Offset l' m gap surplus) :
    ∃ m', m.refundAmount tx = .ok m' ∧ Offset l m' gap surplus := by
  have stake : (if 0 < tx.payload.amount.getD 0 then l.debit tx.sender (tx.payload.amount.getD 0) else .ok l) =
      .ok l' → ∃ m', (if 0 < tx.payload.amount.getD 0 then m.credit tx.sender (tx.payload.amount.getD 0)
        else .ok m) = .ok m' ∧ Offset l m' gap surplus := by
    intro run
    split at run
    · rename_i positive
      rw [if_pos positive]
      exact offset.undebit run
    · rename_i none
      rw [if_neg none]
      cases run
      exact ⟨m,rfl,offset⟩
  unfold moveAmount at run
  unfold refundAmount
  split at run
  · rename_i kind
    split at run
    · contradiction
    · rename_i amount found
      obtain ⟨mid,paid,earned⟩ := Outcome.bindOk .. |>.mp run
      rw [kind,found]
      exact (offset.uncredit earned).undebit paid
  · rename_i kind
    simp only [kind]
    exact stake run
  · rename_i kind
    simp only [kind]
    exact stake run
  · rename_i noTransfer noStake noDelegate
    cases run
    split
    · rename_i kind
      exact absurd kind noStake
    · rename_i kind
      exact absurd kind noDelegate
    · rename_i kind
      exact absurd kind noTransfer
    · exact ⟨m,rfl,offset⟩

theorem refundTxUndoes (run : l.chargeTx dynamic block tx = .ok l') (offset : Offset l' m gap surplus) :
    ∃ m', m.refundTx dynamic block tx = .ok m' ∧ Offset l m' gap surplus := by
  obtain ⟨mid,fee,moved⟩ := Outcome.bindOk .. |>.mp run
  obtain ⟨m1,amount,half⟩ := refundAmountUndoes moved offset
  obtain ⟨m2,refunded,whole⟩ := refundFeeUndoes fee half
  refine ⟨m2,?_,whole⟩
  rw [refundTxHalves,amount]
  exact refunded

theorem refundAllUndoes {txs : List Transaction}
    (run : txs.foldlM (fun l tx => l.chargeTx dynamic block tx) l = .ok l') (offset : Offset l' m gap surplus) :
    ∃ m', txs.reverse.foldlM (fun l tx => l.refundTx dynamic block tx) m = .ok m' ∧ Offset l m' gap surplus := by
  induction txs generalizing l with
  | nil =>
    cases run
    exact ⟨m,rfl,offset⟩
  | cons tx rest ih =>
    rw [List.foldlM_cons,Outcome.bindOk] at run
    obtain ⟨mid,charged,run⟩ := run
    obtain ⟨m1,refunds,later⟩ := ih run
    obtain ⟨m2,refunded,whole⟩ := refundTxUndoes charged later
    refine ⟨m2,?_,whole⟩
    rw [List.reverse_cons,List.foldlM_append,refunds]
    simp only [bind,Except.bind,List.foldlM_cons,List.foldlM_nil,refunded]
    rfl

end Reversal

section Reward
variable (l : Ledger) (idx : Int)

def rewardAt : Int := if 0 < idx ∧ l.financialActive then l.calcBlockReward idx else 0

def rewardLeft : Int := l.rewardAt idx - (l.mint (l.rewardAt idx)).rewardAt idx

theorem rewardAtNonneg : 0 ≤ l.rewardAt idx := by
  unfold rewardAt
  split
  · exact l.blockRewardNonneg idx
  · exact le_refl 0

theorem rewardAtMost : l.rewardAt idx ≤ initialBlockReward := by
  unfold rewardAt
  split
  · rename_i paying
    have halves := shiftRightFalls (show 0 ≤ initialBlockReward by decide)
      (Nat.zero_le (idx / halvingInterval).toNat)
    rw [Int.shiftRight_zero] at halves
    rw [calcBlockReward,if_neg (by omega)]
    omega
  · decide

theorem rewardAtSame {l l' : Ledger} (minted : l'.totalMinted = l.totalMinted)
    (active : l'.financialActive = l.financialActive) (idx : Int) : l'.rewardAt idx = l.rewardAt idx := by
  simp only [rewardAt,calcBlockReward,minted,active]

theorem rewardLeftNone : l.rewardLeft idx = 0 ↔
    l.rewardAt idx = 0 ∨ l.rewardAt idx ≤ maxSupply - l.totalMinted - l.rewardAt idx := by
  have nonneg := l.rewardAtNonneg idx
  by_cases paying : 0 < idx ∧ l.financialActive = true
  · have now : l.rewardAt idx =
        min (initialBlockReward >>> (idx / halvingInterval).toNat) (max 0 (maxSupply - l.totalMinted)) := by
      rw [rewardAt,if_pos paying,calcBlockReward,if_neg (by omega)]
    have next : (l.mint (l.rewardAt idx)).rewardAt idx =
        min (initialBlockReward >>> (idx / halvingInterval).toNat)
          (max 0 (maxSupply - (l.totalMinted + l.rewardAt idx))) := by
      rw [rewardAt,if_pos (show 0 < idx ∧ (l.mint (l.rewardAt idx)).financialActive = true from paying),
        calcBlockReward,if_neg (by omega)]
      rfl
    rw [rewardLeft,next]
    omega
  · have none : ∀ l' : Ledger, l'.financialActive = l.financialActive → l'.rewardAt idx = 0 := by
      intro l' same
      rw [rewardAt,same,if_neg paying]
    rw [rewardLeft,none l rfl,none (l.mint 0) rfl]
    simp

end Reward

theorem undoRewardOffset {l l' m : Ledger} {validator : Address} {gap : Address → Int} {surplus paid undone : Int}
    (nonneg : 0 ≤ undone) (ahead : Ahead l l' validator paid) (offset : Offset l' m gap surplus) :
    Offset l (m.undoReward validator undone) (fun a => gap a + if a = validator then paid - undone else 0)
      (surplus + (paid - undone)) := by
  have taken : Offset l m (fun a => gap a + if a = validator then paid else 0) (surplus + paid) := by
    refine ⟨fun a => ?_,?_,offset.burned.trans ahead.burned,offset.active.trans ahead.active⟩
    · rw [offset.balance,ahead.balance]
      omega
    · rw [offset.minted,ahead.minted]
      omega
  unfold undoReward
  split
  · have moved := m.rollbackDebitMoved validator nonneg
    refine ⟨fun a => ?_,?_,moved.burned.trans taken.burned,moved.active.trans taken.active⟩
    · show (m.rollbackDebit validator undone).getBalance a = _
      rw [moved.balance,taken.balance]
      split <;> omega
    · show (m.rollbackDebit validator undone).totalMinted + -undone = _
      rw [moved.minted,taken.minted]
      omega
  · rename_i nothing
    obtain rfl : undone = 0 := by omega
    rwa [Int.sub_zero]

end Ledger

namespace ChainState
variable [Env]
open Ledger (Agrees Ahead Offset)

theorem applyTxCharge {block : Block} {idx : Int} {row : Transaction × Nat} {s s' : ChainState}
    (paying : 0 < idx ∧ s.ledger.financialActive = true) (run : applyTx block idx s row = .ok s') :
    s.ledger.chargeTx (isDynamic idx) block row.1 = .ok s'.ledger := by
  simp only [applyTx,Outcome.bindOk,Outcome.withinOk] at run
  obtain ⟨_,charge,_,⟨staking,-,rfl⟩,tokens,-,rfl⟩ := run
  unfold chargeTx at charge
  rw [if_pos (by exact paying)] at charge
  obtain ⟨ledger,paid,rfl⟩ := Outcome.withinOk .. |>.mp charge
  exact paid

theorem applyTxsCharge {block : Block} {idx : Int} {rows : List (Transaction × Nat)} {s s' : ChainState}
    (paying : 0 < idx ∧ s.ledger.financialActive = true) (run : rows.foldlM (applyTx block idx) s = .ok s') :
    (rows.map Prod.fst).foldlM (fun l tx => l.chargeTx (isDynamic idx) block tx) s.ledger = .ok s'.ledger := by
  induction rows generalizing s with
  | nil =>
    cases run
    rfl
  | cons row rest ih =>
    rw [List.foldlM_cons,Outcome.bindOk] at run
    obtain ⟨mid,first,run⟩ := run
    have active := (applyTxCirculates first).1.active.trans paying.2
    rw [List.map_cons,List.foldlM_cons,applyTxCharge paying first]
    exact ih ⟨paying.1,active⟩ run

omit [Env] in
theorem payRewardAhead {s c : ChainState} {block : Block} {idx : Int} (run : s.payReward block idx = .ok c) :
    Ahead s.ledger c.ledger block.validator (s.ledger.rewardAt idx) := by
  simp only [payReward] at run
  split at run
  · rename_i paying
    simp only [Outcome.bindOk,Outcome.withinOk] at run
    obtain ⟨_,⟨ledger,credit,rfl⟩,run⟩ := run
    cases run
    obtain ⟨-,moved⟩ := Ledger.creditMoved credit
    rw [Ledger.rewardAt,if_pos ⟨paying.1,paying.2.1⟩]
    exact ⟨moved.balance,congrArg (· + s.ledger.calcBlockReward idx) moved.minted,moved.burned,moved.active⟩
  · rename_i unpaid
    cases run
    have none : s.ledger.rewardAt idx = 0 := by
      have nonneg := s.ledger.blockRewardNonneg idx
      unfold Ledger.rewardAt
      split
      · rename_i paying
        by_contra positive
        exact unpaid ⟨paying.1,paying.2,by omega⟩
      · rfl
    rw [none]
    exact (Ledger.agreesRefl _).ahead _

/- The undo of an applied block, on a state whose money is off by some gaps: it is off by these at
the beginning of the block's transactions, and the validator by what the two rewards differ. -/
theorem undoMoneyOffset {s c t : ChainState} {block : Block} {gap : Address → Int} {surplus : Int}
    (later : 0 < block.index) (run : s.applyBlock block block.index = .ok c) (offset : Offset c.ledger t.ledger gap surplus) :
    ∃ opened ledger, s.openBlock block.index = .ok opened ∧
      Blockchain.undoMoney t block = .ok { t with
        ledger
        staking := t.staking.undoEpochReward block.validator (t.ledger.rewardAt block.index) } ∧
      Offset opened.ledger ledger
        (fun a => gap a + if a = block.validator then s.ledger.rewardAt block.index - t.ledger.rewardAt block.index else 0)
        (surplus + (s.ledger.rewardAt block.index - t.ledger.rewardAt block.index)) := by
  simp only [applyBlock,Outcome.bindOk] at run
  obtain ⟨opened,opening,looped,loop,paying⟩ := run
  have before := (openBlockCirculates opening).1.trans (applyTxsCirculates loop).1
  have paid := payRewardAhead paying
  rw [Ledger.rewardAtSame before.minted before.active block.index] at paid
  have switched : t.ledger.financialActive = opened.ledger.financialActive := by
    rw [offset.active,paid.active,(applyTxsCirculates loop).1.active]
  by_cases active : t.ledger.financialActive = true
  · have undone : t.ledger.calcBlockReward block.index = t.ledger.rewardAt block.index := by
      rw [Ledger.rewardAt,if_pos ⟨later,active⟩]
    have charges := applyTxsCharge ⟨later,switched ▸ active⟩ loop
    rw [List.zipIdx_map_fst] at charges
    have back := Ledger.undoRewardOffset (Ledger.rewardAtNonneg t.ledger block.index) paid offset
    obtain ⟨m,refunds,whole⟩ := Ledger.refundAllUndoes charges back
    refine ⟨opened,m,opening,?_,whole⟩
    unfold Blockchain.undoMoney
    rw [if_pos ⟨later,active⟩]
    simp only [undone,refunds,Outcome.withinReturns]
  · have idle : looped.ledger = opened.ledger := by
      refine (applyTxsCirculates loop).2 ?_
      rw [ChainState.active,← switched]
      simpa using active
    have none : ∀ l : Ledger, l.financialActive = t.ledger.financialActive → l.rewardAt block.index = 0 := by
      intro l same
      rw [Ledger.rewardAt,if_neg]
      rintro ⟨-,on⟩
      exact active (same ▸ on)
    have unpaid : s.ledger.rewardAt block.index = 0 :=
      none s.ledger (by rw [offset.active,paid.active,before.active])
    rw [unpaid,idle] at paid
    refine ⟨opened,t.ledger,opening,?_,?_⟩
    · unfold Blockchain.undoMoney
      rw [if_neg (fun both => active both.2),none t.ledger rfl]
      rfl
    · rw [unpaid,none t.ledger rfl,Int.sub_zero,Int.add_zero]
      refine ⟨fun a => ?_,?_,offset.burned.trans paid.burned,offset.active.trans paid.active⟩
      · rw [offset.balance,paid.balance]
        simp only [ite_self]
        omega
      · rw [offset.minted,paid.minted]
        omega

theorem undoMoneyAhead {s c t : ChainState} {block : Block} (later : 0 < block.index)
    (run : s.applyBlock block block.index = .ok c) (agrees : Agrees c.ledger t.ledger) :
    ∃ opened m, s.openBlock block.index = .ok opened ∧ Blockchain.undoMoney t block = .ok m ∧
      m.staking.unbonding = t.staking.unbonding ∧
      Ahead opened.ledger m.ledger block.validator (s.ledger.rewardLeft block.index) := by
  obtain ⟨opened,ledger,opening,money,offset⟩ := undoMoneyOffset later run agrees.offset
  have next : t.ledger.rewardAt block.index =
      (s.ledger.mint (s.ledger.rewardAt block.index)).rewardAt block.index := by
    simp only [applyBlock,Outcome.bindOk] at run
    obtain ⟨_,begun,looped,loop,paying⟩ := run
    have before := (openBlockCirculates begun).1.trans (applyTxsCirculates loop).1
    have paid := payRewardAhead paying
    rw [Ledger.rewardAtSame before.minted before.active block.index] at paid
    have minted : t.ledger.totalMinted = (s.ledger.mint (s.ledger.rewardAt block.index)).totalMinted := by
      rw [agrees.minted,paid.minted,before.minted]
      rfl
    exact Ledger.rewardAtSame minted (agrees.active.trans (paid.active.trans before.active)) block.index
  rw [next] at offset
  refine ⟨opened,_,opening,money,?_,⟨fun a => ?_,?_,offset.burned,offset.active⟩⟩
  · simp only [Staking.undoEpochReward]
    split <;> rfl
  · rw [offset.balance,Int.zero_add]
    rfl
  · rw [offset.minted,Int.zero_add]
    rfl

end ChainState

end QbitNetwork
