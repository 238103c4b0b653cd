import QbitNetwork.Index
import QbitNetwork.Ledger
import QbitNetwork.Receipt
import QbitNetwork.Staking
import QbitNetwork.StateTrie
import QbitNetwork.Tokens
import Mathlib.Data.List.Dedup

/-! The state a block's transactions act on, with the work of a block before them:
maturing unbondings and the epoch transition. -/
namespace QbitNetwork

structure ChainState where
  index : Index := {}
  ledger : Ledger := {}
  staking : Staking := {}
  tokens : Tokens := {}

namespace ChainState

section Epoch

def processMatureUnbondings (s : ChainState) (currentIndex : Int) :
    Except (Fault ChainState) ChainState := do
  let pay := fun (l : Ledger) (entry : UnbondingEntry) =>
    if l.financialActive then l.credit entry.staker entry.amount else .ok l
  let s ← Outcome.within (fun ledger => { s with ledger })
    ((s.staking.matured currentIndex).foldlM pay s.ledger)
  .ok { s with staking := s.staking.dropMatured currentIndex }

/- The keys of `_stakes` that hold a stake. -/
def validatorsWithStake (k : Staking) : List Address := (k.stakes.items.map (fun row => row.1.1)).dedup

def delegators (k : Staking) (vaddr : Address) : List (Address × Int) :=
  (k.stakes.items.filter (fun row => row.1.1 = vaddr ∧ row.1.2 ≠ vaddr)).map
    (fun row => (row.1.2,row.2))

def shares (pool totalDelegated : Int) (rows : List (Address × Int)) : List (Address × Int) :=
  (rows.map (fun row => (row.1,pool * row.2 / totalDelegated))).filter (fun row => 0 < row.2)

structure Payout where
  ledger : Ledger
  epochRewards : Table Address Nat 0
  record : Distribution := {}

/- The delegators' pool: the rewards less commission, capped by what the validator held
before the block's transactions and holds now. -/
def delegatorPool (k : Staking) (snapshot : Address → Int) (p : Payout) (vaddr : Address) : Int :=
  let rewards : Int := p.epochRewards.get vaddr
  min (rewards - rewards * k.validatorCommission.get vaddr / 100)
    (min (snapshot vaddr) (p.ledger.getBalance vaddr))

/- One validator of `_distribute_epoch_rewards`. -/
def distributeFor (k : Staking) (snapshot : Address → Int) (p : Payout) (vaddr : Address) :
    Except (Fault Payout) Payout :=
  let rows := delegators k vaddr
  let totalDelegated := (rows.map Prod.snd).sum
  if totalDelegated = 0 ∨ p.epochRewards.get vaddr = 0 then .ok p
  else do
    let credits := shares (delegatorPool k snapshot p vaddr) totalDelegated rows
    let totalDistributed := (credits.map Prod.snd).sum
    let lift := Outcome.within (fun ledger => { p with ledger })
    let p' ← lift (credits.foldlM (fun l row => l.credit row.1 row.2) p.ledger)
    let p' ← Outcome.within (fun ledger => { p' with ledger })
      (if 0 < totalDistributed then p'.ledger.debit vaddr totalDistributed else .ok p'.ledger)
    .ok { ledger := p'.ledger
          epochRewards := p.epochRewards.set vaddr 0
          record :=
            { credits := p.record.credits ++ credits
              debits := p.record.debits ++
                if 0 < totalDistributed then [(vaddr,totalDistributed)] else [] } }

def distributeEpochRewards (s : ChainState) (epochNumber : Int) :
    Except (Fault ChainState) ChainState := do
  let k := s.staking
  let put := fun (p : Payout) =>
    { s with ledger := p.ledger, staking := { k with epochRewards := p.epochRewards } }
  match (validatorsWithStake k).foldlM (distributeFor k s.ledger.getBalance)
      { ledger := s.ledger, epochRewards := k.epochRewards } with
  | .error r => .error ⟨r.exception,put r.state⟩
  | .ok p => .ok { s with
      ledger := p.ledger
      staking := { k with
        epochRewards := .empty
        lastEpochDistributions := k.lastEpochDistributions.insert epochNumber p.record } }

def epochStarts (k : Staking) (blockIndex : Int) : Bool :=
  k.currentEpoch < blockIndex / epochLength || (blockIndex == 0 && k.epochs.isEmpty)

/- Rewards of the epoch that ends go out before the new set is frozen. -/
def checkEpochTransition (s : ChainState) (blockIndex : Int) :
    Except (Fault ChainState) ChainState :=
  let newEpoch := blockIndex / epochLength
  if epochStarts s.staking blockIndex then do
    let s ← if 0 < newEpoch ∧ s.ledger.financialActive then
      s.distributeEpochRewards (newEpoch - 1) else .ok s
    .ok { s with staking := s.staking.enterEpoch newEpoch }
  else .ok s

def openBlock (s : ChainState) (idx : Int) : Except (Fault ChainState) ChainState := do
  let s ← s.processMatureUnbondings idx
  s.checkEpochTransition idx

end Epoch

section Apply
variable [Env]

def isDynamic (idx : Int) : Bool := Env.dynamicFeeActivationHeight ≤ idx

/- `_tx_fee_paid`; the genesis block and an inactive financial layer charge nothing. -/
def feePaid (block : Block) (idx : Int) (active : Bool) (tx : Transaction) : Int :=
  if 0 < idx ∧ active then txFee (isDynamic idx) block.baseFee tx else 0

def chargeTx (s : ChainState) (block : Block) (idx : Int) (tx : Transaction) :
    Except (Fault ChainState) ChainState :=
  if 0 < idx ∧ s.ledger.financialActive then
    Outcome.within (fun ledger => { s with ledger }) (s.ledger.chargeTx (isDynamic idx) block tx)
  else .ok s

def applyTx (block : Block) (idx : Int) (s : ChainState) (row : Transaction × Nat) :
    Except (Fault ChainState) ChainState := do
  let tx := row.1
  let s := { s with index := s.index.recordTx idx row.2 tx }
  let s ← s.chargeTx block idx tx
  let s := { s with index := s.index.applyTx tx }
  let s ← Outcome.within (fun staking => { s with staking }) (s.staking.applyTx tx idx)
  Outcome.within (fun tokens => { s with tokens }) (s.tokens.applyTx tx idx)

def applyTxs (block : Block) (idx : Int) (s : ChainState) : Except (Fault ChainState) ChainState :=
  block.transactions.zipIdx.foldlM (applyTx block idx) s

def payReward (s : ChainState) (block : Block) (idx : Int) : Except (Fault ChainState) ChainState :=
  let reward := s.ledger.calcBlockReward idx
  if 0 < idx ∧ s.ledger.financialActive ∧ 0 < reward then do
    let s ← Outcome.within (fun ledger => { s with ledger }) (s.ledger.credit block.validator reward)
    .ok { s with
      ledger := s.ledger.mint reward
      staking := s.staking.addEpochReward block.validator reward }
  else .ok s

def applyBlock (block : Block) (idx : Int) (s : ChainState) : Except (Fault ChainState) ChainState := do
  let s ← s.openBlock idx
  let s ← s.applyTxs block idx
  s.payReward block idx

end Apply

section Trie
variable [Env]

def validTokenId (tid : TokenId) : Bool :=
  let body := dropFinalNewline (encode tid)
  body.length == 32 && body.all isHexByte

def setRow (t : StateTrie) (row : String × Int) : Except (Fault StateTrie) StateTrie :=
  match toBytes8 row.2 with
  | some value => .ok (t.set row.1 value)
  | none => .error ⟨.overflowError,t⟩

def balanceRows (s : ChainState) : List (String × Int) :=
  (s.ledger.balances.toList.filter (fun row => 0 ≤ row.2)).map
    (fun row => ("balance:" ++ row.1,row.2))

def nonceRows (s : ChainState) : List (String × Int) :=
  (s.index.senderNonce.items.filter (fun row => 0 ≤ row.2)).map
    (fun row => ("nonce:" ++ row.1,row.2))

def tokenRows (s : ChainState) : List (TokenId × String × Int) :=
  (s.tokens.balances.toList.filter (fun row => 0 < row.2)).map
      (fun row => (row.1.1,"token:" ++ row.1.1 ++ ":balance:" ++ row.1.2,row.2)) ++
    s.tokens.registry.toList.map
      (fun row => (row.1,"token:" ++ row.1 ++ ":supply",row.2.totalMinted))

def setTokenRow (t : StateTrie) (row : TokenId × String × Int) : Except (Fault StateTrie) StateTrie :=
  if validTokenId row.1 then setRow t row.2
  else .error ⟨.valueError ("invalid token_id in state: " ++ row.1),t⟩

def rebuildStateTrie (s : ChainState) (t : StateTrie) : Except (Fault StateTrie) StateTrie := do
  let t ← s.balanceRows.foldlM setRow t.clearEntries
  let t ← s.nonceRows.foldlM setRow t
  s.tokenRows.foldlM setTokenRow t

end Trie

section Events
variable [Env]

/- `_build_tx_events`, read from the state after the transaction. -/
def buildTxEvents (s : ChainState) (tx : Transaction) : List Event :=
  let p := tx.payload
  let vaddr := p.validatorAddress.getD ""
  let amount := p.amount.getD 0
  match tx.txType with
  | .TRANSFER => [⟨"Transfer",[("sender",.str tx.sender),("recipient",.str tx.recipient),
      ("amount",.int amount)]⟩]
  | .NOTARIZE => [⟨"Notarize",[("sender",.str tx.sender),
      ("documentHash",.str (p.documentHash.getD ""))]⟩]
  | .STORE => [⟨"Store",[("sender",.str tx.sender),("documentHash",.str (p.documentHash.getD "")),
      ("cid",.str (p.cid.getD ""))]⟩]
  | .SHARE => [⟨"Share",[("sender",.str tx.sender),("recipient",.str tx.recipient)]⟩]
  | .STAKE => [⟨"Stake",[("staker",.str tx.sender),("validator",.str vaddr),("amount",.int amount)]⟩]
  | .DELEGATE => [⟨"Delegate",[("delegator",.str tx.sender),("validator",.str vaddr),
      ("amount",.int amount)]⟩]
  | .UNSTAKE => [⟨"Unstake",[("staker",.str tx.sender),("validator",.str vaddr),
      ("amount",.int amount)]⟩]
  | .REGISTER_KEY => [⟨"KeyRegistered",[("address",.str tx.sender)]⟩]
  | .REGISTER_VALIDATOR =>
      [⟨"ValidatorRegistered",[("address",.str (p.validatorAddress.getD tx.sender))]⟩]
  | .REVOKE_KEY => [⟨"KeyRevoked",[("address",.str tx.sender),
      ("key_type",.str (p.keyType.getD ""))]⟩]
  | .EVIDENCE => [⟨"Slashed",[("validator",.str vaddr),
      ("amount",.int (Staking.slashAmount (s.staking.totalStake.get vaddr)))]⟩]
  | .ISSUE_TOKEN => [⟨"TokenIssued",
      [("token_id",.str (Tokens.tokenIdOf tx.sender (p.symbol.getD "") tx.nonce)),
       ("symbol",.str (p.symbol.getD "")),("name",.str (p.name.getD "")),
       ("issuer",.str tx.sender),("max_supply",.int (p.maxSupply.getD 0))]⟩]
  | .MINT_TOKEN => [⟨"TokenMinted",
      [("token_id",.str (p.tokenId.getD "")),("amount",.int amount),
       ("recipient",.str tx.recipient),
       ("total_minted",.int ((s.tokens.registry[p.tokenId.getD ""]?.map TokenMeta.totalMinted).getD 0))]⟩]
  | .TRANSFER_TOKEN => [⟨"TokenTransferred",
      [("token_id",.str (p.tokenId.getD "")),("amount",.int amount),("sender",.str tx.sender),
       ("recipient",.str tx.recipient)]⟩]

end Events

end ChainState

end QbitNetwork
