import QbitNetwork.MoneyUndo
import QbitNetwork.RollbackLaws
import QbitNetwork.TokenSupply

/-! What a block takes from a sender for a transaction, against what the pool reserves for it. -/
namespace QbitNetwork

def amountTaken (tx : Transaction) : Int :=
  match tx.txType with
  | .TRANSFER => tx.payload.amount.getD 0
  | .STAKE | .DELEGATE => max 0 (tx.payload.amount.getD 0)
  | _ => 0

def amountGiven (tx : Transaction) : Int :=
  match tx.txType with
  | .TRANSFER => tx.payload.amount.getD 0
  | _ => 0

structure Charge where
  fee : Int := 0
  amount : Int := 0
  share : Int := 0
  given : Int := 0

def Charge.of (dynamic : Bool) (block : Block) (tx : Transaction) : Charge :=
  let fee := txFee dynamic block.baseFee tx
  ⟨fee,amountTaken tx,validatorShare dynamic fee,amountGiven tx⟩

def Charge.at [Env] (block : Block) (idx : Int) (active : Bool) (tx : Transaction) : Charge :=
  if 0 < idx ∧ active then Charge.of (ChainState.isDynamic idx) block tx else {}

theorem shareWithin {dynamic : Bool} {fee : Int} (nonneg : 0 ≤ fee) : validatorShare dynamic fee ≤ fee := by
  unfold validatorShare
  split <;> omega

def Charge.Moves (c : Charge) (block : Block) (tx : Transaction) (l l' : Ledger) : Prop :=
  ∀ a, l'.getBalance a = l.getBalance a - (if a = tx.sender then c.fee + c.amount else 0) +
    (if a = block.validator then c.share else 0) + (if a = tx.recipient then c.given else 0)

namespace Ledger

theorem chargeFeeMoves {dynamic : Bool} {block : Block} {tx : Transaction} {l l' : Ledger}
    (run : l.chargeFee dynamic block tx = .ok l') (a : Address) : l'.getBalance a = l.getBalance a -
      (if a = tx.sender then txFee dynamic block.baseFee tx else 0) +
      (if a = block.validator then validatorShare dynamic (txFee dynamic block.baseFee tx) else 0) := by
  simp only [chargeFee] at run
  split at run
  · rename_i regime
    simp only [validatorShare,if_pos regime]
    split at run
    · simp only [Outcome.bindOk] at run
      obtain ⟨mid,paid,earned⟩ := run
      have out := (debitMoved paid).2.2.balance a
      have back := (creditMoved earned).2.balance a
      rw [back,out]
      split <;> omega
    · rename_i light
      cases run
      -- a weight of zero costs nothing in the dynamic regime
      have weightless : txWeights tx.txType = 0 := by
        have := txWeightsNonneg tx.txType
        omega
      have free : txFee dynamic block.baseFee tx = 0 := by
        simp only [txFee,if_pos regime,computeTxFee,weightless,if_true]
      simp only [free,ite_self]
      omega
  · rename_i regime
    simp only [validatorShare,if_neg regime]
    split at run
    · simp only [Outcome.bindOk] at run
      obtain ⟨mid,paid,shared,earned,run⟩ := run
      cases run
      have out := (debitMoved paid).2.2.balance a
      have back := (creditMoved earned).2.balance a
      change shared.getBalance a = _
      rw [back,out]
      split <;> omega
    · rename_i unpaid
      cases run
      have free : txFee dynamic block.baseFee tx = 0 := by
        have : 0 ≤ txFee dynamic block.baseFee tx := by
          simp only [txFee,if_neg regime]
          exact txFeesNonneg _
        omega
      simp only [free]
      split <;> split <;> omega

theorem moveAmountMoves {tx : Transaction} {l l' : Ledger} (run : l.moveAmount tx = .ok l') (a : Address) :
    0 ≤ amountTaken tx ∧ l'.getBalance a = l.getBalance a - (if a = tx.sender then amountTaken tx else 0) +
      (if a = tx.recipient then amountGiven tx else 0) := by
  have stake : ∀ {l' : Ledger}, (if 0 < tx.payload.amount.getD 0 then
      l.debit tx.sender (tx.payload.amount.getD 0) else .ok l) = .ok l' →
      l'.getBalance a = l.getBalance a - (if a = tx.sender then max 0 (tx.payload.amount.getD 0) else 0) := by
    intro l' run
    split at run
    · rename_i positive
      have out := (debitMoved run).2.2.balance a
      rw [max_eq_right positive.le,out]
      split <;> omega
    · rename_i nothing
      cases run
      rw [max_eq_left (by omega),ite_self]
      omega
  unfold moveAmount at run
  split at run
  · rename_i transfer
    simp only [amountTaken,amountGiven,transfer]
    split at run
    · contradiction
    · rename_i amount found
      rw [found,Option.getD_some]
      obtain ⟨mid,paid,earned⟩ := Outcome.bindOk .. |>.mp run
      obtain ⟨nonneg,-,out⟩ := debitMoved paid
      have back := (creditMoved earned).2.balance a
      refine ⟨nonneg,?_⟩
      rw [back,out.balance a]
      split <;> omega
  · rename_i kind
    simp only [amountTaken,amountGiven,kind,ite_self]
    exact ⟨le_max_left ..,by rw [stake run]; omega⟩
  · rename_i kind
    simp only [amountTaken,amountGiven,kind,ite_self]
    exact ⟨le_max_left ..,by rw [stake run]; omega⟩
  · rename_i transferless stakeless delegateless
    cases run
    have none : amountTaken tx = 0 ∧ amountGiven tx = 0 := by
      cases kind : tx.txType <;> simp_all [amountTaken,amountGiven]
    simp only [none.1,none.2,ite_self]
    omega

theorem chargeTxMoves {dynamic : Bool} {block : Block} {tx : Transaction} {l l' : Ledger}
    (run : l.chargeTx dynamic block tx = .ok l') : (Charge.of dynamic block tx).Moves block tx l l' := by
  intro a
  obtain ⟨mid,fee,moved⟩ := Outcome.bindOk .. |>.mp run
  have first := chargeFeeMoves fee a
  have second := (moveAmountMoves moved a).2
  simp only [Charge.of]
  rw [second,first]
  split <;> omega

end Ledger

namespace ChainState
variable [Env]

structure Turn (s : ChainState) (block : Block) (idx : Int) (i : Nat) (tx : Transaction)
    (before after : ChainState) : Prop where
  listed : block.transactions[i]? = some tx
  reached : (s.openBlock idx >>= (block.transactions.zipIdx.take i).foldlM (applyTx block idx)) = .ok before
  taken : before.applyTx block idx (tx,i) = .ok after

theorem blockTurn {s c : ChainState} {block : Block} {idx : Int} (run : s.applyBlock block idx = .ok c)
    {i : Nat} {tx : Transaction} (listed : block.transactions[i]? = some tx) :
    ∃ before after, Turn s block idx i tx before after := by
  simp only [applyBlock,Outcome.bindOk] at run
  obtain ⟨opened,opening,applied,txs,-⟩ := run
  obtain ⟨before,after,prior,here,-⟩ := Outcome.foldTurn txs
    (show block.transactions.zipIdx[i]? = some (tx,i) by simp [List.getElem?_zipIdx,listed])
  exact ⟨before,after,listed,Outcome.bindOk .. |>.mpr ⟨opened,opening,prior⟩,here⟩

theorem Turn.moves {s before after : ChainState} {block : Block} {idx : Int} {i : Nat} {tx : Transaction}
    (turn : Turn s block idx i tx before after) :
    (Charge.at block idx before.ledger.financialActive tx).Moves block tx before.ledger after.ledger := by
  have run := turn.taken
  by_cases paying : 0 < idx ∧ before.ledger.financialActive = true
  · rw [Charge.at,if_pos paying]
    exact Ledger.chargeTxMoves (applyTxCharge paying run)
  · rw [Charge.at,if_neg paying]
    simp only [applyTx,chargeTx,if_neg paying,Outcome.bindOk,Outcome.withinOk] at run
    obtain ⟨_,charge,_,⟨staking,-,rfl⟩,tokens,-,rfl⟩ := run
    cases charge
    intro a
    simp only [ite_self]
    omega

end ChainState

namespace Blockchain
variable [Env]

theorem admittedAmount {s : Blockchain} {block : Block} {tx : Transaction} (admitted : Admitted s block tx) :
    0 ≤ extraDebit tx := by
  have checked := (validatePayloadOk admitted.payload).2.2
  unfold extraDebit
  unfold typeCheck at checked
  split
  · rename_i kind
    obtain ⟨amount,found,nonneg⟩ := transferAmount kind admitted.payload
    rw [found]
    exact nonneg
  · rename_i kind
    simp only [kind] at checked
    have := (stakeAmountCheckOk checked).1
    omega
  · rename_i kind
    simp only [kind] at checked
    have := (stakeAmountCheckOk checked).1
    omega
  · exact le_refl 0

omit [Env] in
theorem parsedAmount {tx : Transaction} (parsed : tx.amountsParse = true) : 0 ≤ extraDebit tx := by
  simp only [Transaction.amountsParse,Bool.and_eq_true,Bool.or_eq_true] at parsed
  have positive : tx.txType ∈ [TxType.TRANSFER,.STAKE,.DELEGATE] → 0 ≤ tx.payload.amount.getD 0 := by
    intro kind
    have listed : tx.txType ∈ [TxType.TRANSFER,.STAKE,.DELEGATE,.UNSTAKE,.MINT_TOKEN,.TRANSFER_TOKEN] := by
      revert kind
      cases tx.txType <;> decide
    rcases parsed.1.1 with other | positive
    · simp [listed] at other
    · cases given : tx.payload.amount with
      | none => exact le_refl 0
      | some amount =>
        rw [given,Option.all_some] at positive
        simp only [Bool.and_eq_true,decide_eq_true_eq] at positive
        exact positive.1.le
  unfold extraDebit
  split <;> rename_i kind
  · exact positive (by simp [kind])
  · exact positive (by simp [kind])
  · exact positive (by simp [kind])
  · exact le_refl 0

omit [Env] in
theorem extraTaken {tx : Transaction} (nonneg : 0 ≤ extraDebit tx) : amountTaken tx = extraDebit tx := by
  cases kind : tx.txType <;> simp only [extraDebit,amountTaken,kind] at nonneg ⊢
  case STAKE => exact max_eq_right nonneg
  case DELEGATE => exact max_eq_right nonneg

theorem dynamicFeeBounds {s : Blockchain} {block : Block} {tx : Transaction} (admitted : Admitted s block tx)
    (dynamic : dynamicActive block.index = true) :
    block.baseFee * txWeights tx.txType ≤ txFee true block.baseFee tx ∧
      txFee true block.baseFee tx ≤ tx.maxFeePerWeight * txWeights tx.txType := by
  have nonneg := txWeightsNonneg tx.txType
  by_cases light : txWeights tx.txType = 0
  · simp [txFee,computeTxFee,light]
  · have capped : block.baseFee ≤ tx.maxFeePerWeight := by
      by_contra low
      exact admitted.fee ⟨dynamic,by omega,by omega⟩
    simp only [txFee,if_true,computeTxFee,if_neg light]
    constructor
    · exact Int.mul_le_mul_of_nonneg_right (by omega) nonneg
    · exact Int.mul_le_mul_of_nonneg_right (by omega) nonneg

theorem feeReserved {s : Blockchain} {block : Block} {tx : Transaction} (started : 0 ≤ s.height)
    (position : block.index = s.height + 1) (admitted : Admitted s block tx) :
    txFee (ChainState.isDynamic (s.height + 1)) block.baseFee tx + extraDebit tx ≤ s.calcTxDebit tx := by
  have regime : s.nextDynamic = ChainState.isDynamic (s.height + 1) := by
    simp [nextDynamic,ChainState.isDynamic,started]
  rw [calcTxDebit,regime]
  by_cases dynamic : ChainState.isDynamic (s.height + 1) = true
  · have active : dynamicActive block.index = true := by
      unfold dynamicActive
      unfold ChainState.isDynamic at dynamic
      rw [position]
      simp only [Bool.and_eq_true,decide_eq_true_eq] at dynamic ⊢
      omega
    have most := (dynamicFeeBounds admitted active).2
    rw [if_pos dynamic,dynamic]
    omega
  · rw [if_neg dynamic]
    simp only [txFee,if_neg dynamic]
    exact le_refl _

structure Covers (s : Blockchain) (block : Block) (tx : Transaction) (charge : Charge) : Prop where
  reserved : charge.fee + charge.amount ≤ s.calcTxDebit tx
  shared : charge.share ≤ charge.fee
  bounded : dynamicActive block.index = true → block.baseFee * txWeights tx.txType ≤ txFee true block.baseFee tx ∧
    txFee true block.baseFee tx ≤ tx.maxFeePerWeight * txWeights tx.txType

theorem reservationsCover {s s' : Blockchain} {block : Block} (coherent : Coherent s) (step : Accepts s block s')
    (parses : GenesisParses s block) {i : Nat} {tx : Transaction} (listed : block.transactions[i]? = some tx) :
    ∃ before after, ChainState.Turn s.state block (s.height + 1) i tx before after ∧
      (Charge.at block (s.height + 1) before.ledger.financialActive tx).Moves block tx before.ledger after.ledger ∧
      Covers s block tx (Charge.at block (s.height + 1) before.ledger.financialActive tx) := by
  obtain ⟨c,grown⟩ := acceptsGrown step
  obtain ⟨before,after,turn⟩ := ChainState.blockTurn grown.applied listed
  have inside := List.mem_of_getElem? listed
  have position := acceptsPosition coherent step
  have low := coherent.bounded
  refine ⟨before,after,turn,turn.moves,?_⟩
  by_cases first : block.index = 0
  · -- nothing is taken at genesis, and what is reserved is not negative
    have extra := parsedAmount (parses first tx inside)
    have legacy : s.nextDynamic = false := by
      simp [nextDynamic]
      omega
    rw [Charge.at,if_neg (by omega)]
    refine ⟨?_,le_refl 0,fun dynamic => ?_⟩
    · have fee := txFeesNonneg tx.txType
      rw [calcTxDebit,legacy]
      simp only [Bool.false_eq_true,if_false]
      omega
    · simp [dynamicActive,first] at dynamic
  · have admitted := transactionsCheckMem (grown.checked first) tx inside
    have extra := admittedAmount admitted
    have reserved := feeReserved (by omega) position admitted
    have nonneg : 0 ≤ txFee (ChainState.isDynamic (s.height + 1)) block.baseFee tx := by
      have refundable := acceptsRefundable step (by omega)
      by_cases dynamic : ChainState.isDynamic block.index = true
      · exact txFeeNonneg (refundable.fee dynamic) tx
      · rw [← position]
        simp only [txFee,if_neg dynamic]
        exact txFeesNonneg _
    have bounded := dynamicFeeBounds admitted
    unfold Charge.at
    split
    · refine ⟨?_,shareWithin nonneg,bounded⟩
      change txFee _ _ _ + amountTaken tx ≤ _
      rw [extraTaken extra]
      exact reserved
    · refine ⟨?_,le_refl 0,bounded⟩
      change (0 : Int) + 0 ≤ _
      omega

end Blockchain

end QbitNetwork

namespace QbitNetwork.Devnet
attribute [local instance] turning
open Blockchain

theorem reservationsCoverRepaid : ∃ before after,
    ChainState.Turn repaying.state repaid.tipBlock (repaying.height + 1) 0 repayment before after ∧
      (Charge.at repaid.tipBlock (repaying.height + 1) before.ledger.financialActive repayment).Moves
        repaid.tipBlock repayment before.ledger after.ledger ∧
      Covers repaying repaid.tipBlock repayment
        (Charge.at repaid.tipBlock (repaying.height + 1) before.ledger.financialActive repayment) := by
  obtain ⟨-,-,step,transactions⟩ := trades
  have coherent := builtCoherent repayingBuilt
  have started : repaying.height + 1 = 2 := by decide +kernel
  have position := acceptsPosition coherent step
  exact reservationsCover coherent step (fun first => by omega) (by rw [transactions]; rfl)

end QbitNetwork.Devnet
