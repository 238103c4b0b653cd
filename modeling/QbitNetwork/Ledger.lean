import QbitNetwork.Block
import QbitNetwork.Lib.Dict

/-! The balance ledger: the money of a block, transaction by transaction. -/
namespace QbitNetwork

/- A balance of zero is usually an absent row, but a row may hold zero, and the
state trie tells the two apart. -/
structure Ledger where
  balances : Dict Address Int := ∅
  totalMinted : Int := 0
  totalBurned : Int := 0
  financialActive : Bool := false

namespace Ledger

def getBalance (l : Ledger) (address : Address) : Int := l.balances.getD address 0

def setBalance (l : Ledger) (address : Address) (amount : Int) : Ledger :=
  { l with balances := l.balances.insert address amount }

def putBalance (l : Ledger) (address : Address) (amount : Int) : Ledger :=
  if amount = 0 then { l with balances := l.balances.erase address }
  else l.setBalance address amount

def credit (l : Ledger) (address : Address) (amount : Int) : Except (Fault Ledger) Ledger :=
  if amount < 0 then .error ⟨.valueError "credit amount must be non-negative",l⟩
  else if amount = 0 then .ok l
  else .ok (l.setBalance address (l.getBalance address + amount))

def debit (l : Ledger) (address : Address) (amount : Int) : Except (Fault Ledger) Ledger :=
  if amount < 0 then .error ⟨.valueError "debit amount must be non-negative",l⟩
  else if amount = 0 then .ok l
  else if l.getBalance address < amount then
    .error ⟨.valueError s!"insufficient balance: {l.getBalance address} < {amount}",l⟩
  else .ok (l.putBalance address (l.getBalance address - amount))

/- Allows a temporary negative balance. -/
def rollbackDebit (l : Ledger) (address : Address) (amount : Int) : Ledger :=
  if amount ≤ 0 then l else l.putBalance address (l.getBalance address - amount)

def calcBlockReward (l : Ledger) (blockIndex : Int) : Int :=
  if blockIndex ≤ 0 then 0
  else min (initialBlockReward >>> (blockIndex / halvingInterval).toNat)
    (max 0 (maxSupply - l.totalMinted))

def burn (l : Ledger) (amount : Int) : Ledger := { l with totalBurned := l.totalBurned + amount }

def mint (l : Ledger) (amount : Int) : Ledger := { l with totalMinted := l.totalMinted + amount }

section Charge
variable (dynamic : Bool) (block : Block) (tx : Transaction)

/- Dynamic fees go to the validator whole, legacy ones half, the rest is burned. -/
def chargeFee (l : Ledger) : Except (Fault Ledger) Ledger :=
  let fee := txFee dynamic block.baseFee tx
  if dynamic then
    if 0 < txWeights tx.txType then do
      let l ← l.debit tx.sender fee
      l.credit block.validator fee
    else .ok l
  else if 0 < fee then do
    let l ← l.debit tx.sender fee
    let l ← l.credit block.validator (fee / 2)
    .ok (l.burn (fee - fee / 2))
  else .ok l

/- `payload["amount"]` of a TRANSFER, `payload.get("amount", 0)` of a stake. -/
def moveAmount (l : Ledger) : Except (Fault Ledger) Ledger :=
  match tx.txType with
  | .TRANSFER =>
    match tx.payload.amount with
    | none => .error ⟨.keyError "amount",l⟩
    | some amount => do
      let l ← l.debit tx.sender amount
      l.credit tx.recipient amount
  | .STAKE | .DELEGATE =>
    if 0 < tx.payload.amount.getD 0 then l.debit tx.sender (tx.payload.amount.getD 0) else .ok l
  | _ => .ok l

def chargeTx (l : Ledger) : Except (Fault Ledger) Ledger := do
  let l ← l.chargeFee dynamic block tx
  l.moveAmount tx

def refundTx (l : Ledger) : Except (Fault Ledger) Ledger := do
  let l ← match tx.txType with
    | .STAKE | .DELEGATE =>
      if 0 < tx.payload.amount.getD 0 then l.credit tx.sender (tx.payload.amount.getD 0) else .ok l
    | .TRANSFER =>
      match tx.payload.amount with
      | none => .error ⟨.keyError "amount",l⟩
      | some amount => (l.rollbackDebit tx.recipient amount).credit tx.sender amount
    | _ => .ok l
  let fee := txFee dynamic block.baseFee tx
  if dynamic then
    if 0 < txWeights tx.txType then (l.rollbackDebit block.validator fee).credit tx.sender fee
    else .ok l
  else if 0 < fee then
    ((l.rollbackDebit block.validator (fee / 2)).burn (-(fee - fee / 2))).credit tx.sender fee
  else .ok l

end Charge

def negativeAccounts (l : Ledger) : List (Address × Int) :=
  l.balances.toList.filter (fun row => row.2 < 0)

section Laws

structure Moved (l l' : Ledger) (address : Address) (amount : Int) : Prop where
  balance : ∀ a, l'.getBalance a = l.getBalance a + if a = address then amount else 0
  total : Dict.total l'.balances = Dict.total l.balances + amount
  minted : l'.totalMinted = l.totalMinted
  burned : l'.totalBurned = l.totalBurned
  active : l'.financialActive = l.financialActive

theorem movedZero (l : Ledger) (address : Address) : Moved l l address 0 := by
  constructor <;> simp

theorem setBalanceMoved (l : Ledger) (address : Address) (amount : Int) :
    Moved l (l.setBalance address (l.getBalance address + amount)) address amount := by
  refine ⟨fun a => ?_,?_,rfl,rfl,rfl⟩
  · by_cases same : address = a
    · subst same; simp [setBalance,getBalance]
    · simp [setBalance,getBalance,Std.ExtTreeMap.getD_insert,same,Ne.symm same]
  · simp only [setBalance,getBalance,Dict.totalInsert]
    omega

theorem putBalanceMoved (l : Ledger) (address : Address) (amount : Int) :
    Moved l (l.putBalance address (l.getBalance address + amount)) address amount := by
  unfold putBalance
  split
  · rename_i zero
    refine ⟨fun a => ?_,?_,rfl,rfl,rfl⟩
    · by_cases same : address = a
      · subst same; simpa [getBalance] using zero.symm
      · simp [getBalance,Std.ExtTreeMap.getD_erase,same,Ne.symm same]
    · simp only [getBalance] at zero
      simp only [Dict.totalErase]
      omega
  · exact setBalanceMoved l address amount

theorem creditMoved {l l' : Ledger} {address : Address} {amount : Int}
    (run : l.credit address amount = .ok l') : 0 ≤ amount ∧ Moved l l' address amount := by
  unfold credit at run
  split at run
  · contradiction
  · split at run
    · rename_i zero
      cases run
      exact ⟨by omega,zero ▸ movedZero l address⟩
    · cases run
      exact ⟨by omega,setBalanceMoved l address amount⟩

theorem debitMoved {l l' : Ledger} {address : Address} {amount : Int}
    (run : l.debit address amount = .ok l') :
    0 ≤ amount ∧ (amount = 0 ∨ amount ≤ l.getBalance address) ∧ Moved l l' address (-amount) := by
  unfold debit at run
  split at run
  · contradiction
  · split at run
    · rename_i zero
      cases run
      exact ⟨by omega,.inl zero,by simpa [zero] using movedZero l address⟩
    · split at run
      · contradiction
      · cases run
        exact ⟨by omega,.inr (by omega),putBalanceMoved l address (-amount)⟩

def stakedAmount (tx : Transaction) : Int :=
  match tx.txType with
  | .STAKE | .DELEGATE => max 0 (tx.payload.amount.getD 0)
  | _ => 0

def worth (l : Ledger) : Int := Dict.total l.balances + l.totalBurned - l.totalMinted

theorem Moved.worth {l l' : Ledger} {address : Address} {amount : Int}
    (moved : Moved l l' address amount) : l'.worth = l.worth + amount := by
  simp only [Ledger.worth,moved.total,moved.minted,moved.burned]
  omega

theorem burnWorth (l : Ledger) (amount : Int) : (l.burn amount).worth = l.worth + amount := by
  simp only [worth,burn]
  omega

theorem chargeFeeWorth {dynamic : Bool} {block : Block} {tx : Transaction} {l l' : Ledger}
    (run : l.chargeFee dynamic block tx = .ok l') :
    l'.worth = l.worth ∧ l'.financialActive = l.financialActive := by
  simp only [chargeFee] at run
  split at run
  · split at run
    · obtain ⟨mid,paid,run⟩ := Outcome.bindOk .. |>.mp run
      have out := (debitMoved paid).2.2
      have back := (creditMoved run).2
      exact ⟨by rw [back.worth,out.worth]; omega,back.active.trans out.active⟩
    · cases run; exact ⟨rfl,rfl⟩
  · split at run
    · simp only [Outcome.bindOk] at run
      obtain ⟨mid,paid,shared,earned,run⟩ := run
      cases run
      have out := (debitMoved paid).2.2
      have back := (creditMoved earned).2
      exact ⟨by rw [burnWorth,back.worth,out.worth]; omega,back.active.trans out.active⟩
    · cases run; exact ⟨rfl,rfl⟩

theorem moveAmountWorth {tx : Transaction} {l l' : Ledger} (run : l.moveAmount tx = .ok l') :
    l'.worth = l.worth - stakedAmount tx ∧ l'.financialActive = l.financialActive := by
  have stake : ∀ {l' : Ledger}, (if 0 < tx.payload.amount.getD 0 then
      l.debit tx.sender (tx.payload.amount.getD 0) else .ok l) = .ok l' →
      l'.worth = l.worth - max 0 (tx.payload.amount.getD 0) ∧
        l'.financialActive = l.financialActive := by
    intro l' run
    split at run
    · have out := (debitMoved run).2.2
      exact ⟨by rw [out.worth]; omega,out.active⟩
    · cases run; exact ⟨by omega,rfl⟩
  unfold moveAmount at run
  split at run
  · rename_i transfer
    split at run
    · contradiction
    · obtain ⟨mid,paid,run⟩ := Outcome.bindOk .. |>.mp run
      have out := (debitMoved paid).2.2
      have back := (creditMoved run).2
      simp only [stakedAmount,transfer]
      exact ⟨by rw [back.worth,out.worth]; omega,back.active.trans out.active⟩
  · rename_i kind
    simpa only [stakedAmount,kind] using stake run
  · rename_i kind
    simpa only [stakedAmount,kind] using stake run
  · rename_i other stakeless delegateless
    cases run
    have none : stakedAmount tx = 0 := by
      unfold stakedAmount
      split <;> simp_all
    exact ⟨by omega,rfl⟩

theorem chargeTxWorth {dynamic : Bool} {block : Block} {tx : Transaction} {l l' : Ledger}
    (run : l.chargeTx dynamic block tx = .ok l') :
    l'.worth = l.worth - stakedAmount tx ∧ l'.financialActive = l.financialActive := by
  obtain ⟨mid,fee,run⟩ := Outcome.bindOk .. |>.mp run
  have paid := chargeFeeWorth fee
  have moved := moveAmountWorth run
  exact ⟨by rw [moved.1,paid.1],moved.2.trans paid.2⟩

end Laws

end Ledger

end QbitNetwork
