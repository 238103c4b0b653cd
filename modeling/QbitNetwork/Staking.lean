import QbitNetwork.Transaction
import QbitNetwork.Lib.Dict

/-! Validators and stake: the registries, the stake tables and slashing. No step here
but the registration of a validator can raise. -/
namespace QbitNetwork

structure UnbondingEntry where
  staker : Address
  validator : Address
  amount : Int
  releaseBlock : Int
  deriving DecidableEq

structure SlashingEvent where
  validator : Address
  evidenceTxId : String
  amountSlashed : Int
  blockIndex : Int
  deriving DecidableEq

structure Revocation where
  txId : String
  timestamp : Int
  reason : String
  deriving DecidableEq

structure Distribution where
  credits : List (Address × Int) := []
  debits : List (Address × Int) := []
  deriving DecidableEq

/- The `Table` fields are maps the source reads only through `.get` with the default.
`stakes` is the nested map, keyed by validator and staker. `validators` is the map of
the consensus object, `validatorRegistry` the one of the chain. -/
structure Staking where
  validatorRegistry : Dict Address Bytes := ∅
  validators : Dict Address Bytes := ∅
  validatorCommission : Table Address Int defaultCommissionRate := .empty
  revokedKeys : Dict String Revocation := ∅
  stakes : Table (Address × Address) Int 0 := .empty
  totalStake : Table Address Int 0 := .empty
  unbonding : List UnbondingEntry := []
  currentEpoch : Int := 0
  epochValidators : List (Address × Int) := []
  epochs : Dict Int (List (Address × Int)) := ∅
  slashedValidators : DSet Address := ∅
  slashingEvents : List SlashingEvent := []
  processedEvidence : DSet Address := ∅
  epochRewards : Table Address Nat 0 := .empty
  lastEpochDistributions : Dict Int Distribution := ∅

/- `f"{address}:{key_type}"`. -/
def revocationKey (address : Address) (keyType : String) : String := address ++ ":" ++ keyType

namespace Staking

def getStakerInfo (k : Staking) (staker validator : Address) : Int := k.stakes.get (validator,staker)

def isRegisteredValidator (k : Staking) (address : Address) : Bool :=
  k.validatorRegistry.contains address

def isKeyRevoked (k : Staking) (address : Address) (keyType : String) : Bool :=
  k.revokedKeys.contains (revocationKey address keyType)

def getLiveValidators (k : Staking) : List (Address × Int) :=
  k.totalStake.items.filter (fun row => 0 < row.2)

def getActiveValidators (k : Staking) : List (Address × Int) :=
  if k.epochValidators.isEmpty then k.getLiveValidators else k.epochValidators

def addValidator (k : Staking) (address : Address) (pk : Bytes) : Staking :=
  { k with validators := k.validators.insert address pk }

def removeValidator (k : Staking) (address : Address) : Staking :=
  { k with validators := k.validators.erase address }

def setCommission (k : Staking) (address : Address) (commission : Option Int) : Staking :=
  match commission with
  | some rate =>
    if 0 ≤ rate ∧ rate ≤ 100 then
      { k with validatorCommission := k.validatorCommission.set address rate }
    else k
  | none => k

/- First registration wins; a later one can still set the commission. -/
def registerValidator (k : Staking) (p : Payload) : Except (Fault Staking) Staking :=
  let vpkHex := p.validatorPubkey.getD ""
  let vaddr := p.validatorAddress.getD ""
  if vpkHex = "" ∨ vaddr = "" then .ok k
  else if vaddr ∈ k.validatorRegistry then .ok (k.setCommission vaddr p.commission)
  else match fromHex vpkHex with
    | none => .error ⟨.valueError "non-hexadecimal number found in fromhex() arg",k⟩
    | some pk =>
      .ok ((({ k with validatorRegistry := k.validatorRegistry.insert vaddr pk }).addValidator
        vaddr pk).setCommission vaddr p.commission)

def revokeKey (k : Staking) (sender : Address) (p : Payload) (revocation : Revocation) : Staking :=
  let keyType := p.keyType.getD ""
  let k := { k with revokedKeys := k.revokedKeys.insert (revocationKey sender keyType) revocation }
  if keyType = "validator" then
    ({ k with validatorRegistry := k.validatorRegistry.erase sender }).removeValidator sender
  else k

def addStake (k : Staking) (staker : Address) (p : Payload) : Staking :=
  let vaddr := p.validatorAddress.getD ""
  let amount := p.amount.getD 0
  if vaddr ≠ "" ∧ 0 < amount then
    { k with
      stakes := k.stakes.update (vaddr,staker) (· + amount)
      totalStake := k.totalStake.update vaddr (· + amount) }
  else k

/- The whole amount is queued, also where the stake does not cover it. -/
def unstake (k : Staking) (staker : Address) (p : Payload) (idx : Int) : Staking :=
  let vaddr := p.validatorAddress.getD ""
  let amount := p.amount.getD 0
  if vaddr ≠ "" ∧ 0 < amount then
    { k with
      stakes := k.stakes.update (vaddr,staker) (fun current => max 0 (current - amount))
      totalStake := k.totalStake.update vaddr (fun total => max 0 (total - amount))
      unbonding := k.unbonding ++ [⟨staker,vaddr,amount,idx + unbondingPeriod⟩] }
  else k

/- At least one qubit where there is any stake. -/
def slashAmount (total : Int) : Int :=
  let amount := total * slashPercentage / 100
  if amount ≤ 0 ∧ 0 < total then 1 else amount

def afterSlash (total : Int) : Int := max 0 (total - slashAmount total)

def maxMemEvents : Nat := 200

def recentEvents (events : List SlashingEvent) : List SlashingEvent :=
  events.drop (events.length - maxMemEvents)

/- Below MIN_STAKE the validator loses its place; it stays in the registry. -/
def expel (k : Staking) (vaddr : Address) : Staking :=
  ({ k with
    totalStake := k.totalStake.set vaddr 0
    stakes := k.stakes.mapWhere (fun row => row.1 = vaddr) (fun _ => 0) }).removeValidator vaddr

def slashEpochValidators (vaddr : Address) (newTotal : Int) (active : List (Address × Int)) :
    List (Address × Int) :=
  let kept := active.filter (fun row => row.1 ≠ vaddr ∨ minStake ≤ newTotal)
  if minStake ≤ newTotal then kept.map (fun row => if row.1 = vaddr then (row.1,newTotal) else row)
  else kept

def slash (k : Staking) (vaddr : Address) (txId : String) (blockIndex : Int) : Staking :=
  let total := k.totalStake.get vaddr
  let newTotal := afterSlash total
  let k := { k with
    stakes := k.stakes.mapWhere (fun row => row.1 = vaddr) afterSlash
    totalStake := k.totalStake.set vaddr newTotal }
  let k := if newTotal < minStake then k.expel vaddr else k
  { k with
    slashedValidators := k.slashedValidators.insert vaddr
    processedEvidence := k.processedEvidence.insert vaddr
    slashingEvents := recentEvents
      (k.slashingEvents ++ [⟨vaddr,txId,slashAmount total,blockIndex⟩])
    epochValidators := slashEpochValidators vaddr newTotal k.epochValidators }

section Evidence
variable [Env]

def evidenceHolds (k : Staking) (p : Payload) : Bool :=
  let vaddr := p.validatorAddress.getD ""
  decide (vaddr ≠ "" ∧ vaddr ∉ k.processedEvidence) && Option.getD (do
    let vpk ← k.validatorRegistry[vaddr]?
    let sigA ← fromHex (p.blockASig.getD "")
    let sigB ← fromHex (p.blockBSig.getD "")
    let headerA ← fromHex (p.blockAHeader.getD "")
    let headerB ← fromHex (p.blockBHeader.getD "")
    some (verifySig vpk headerA sigA && verifySig vpk headerB sigB)) false

def processEvidenceTx (k : Staking) (tx : Transaction) (blockIndex : Int) : Staking :=
  if k.evidenceHolds tx.payload then
    k.slash (tx.payload.validatorAddress.getD "") tx.txId blockIndex
  else k

end Evidence

def matured (k : Staking) (currentIndex : Int) : List UnbondingEntry :=
  k.unbonding.filter (fun entry => entry.releaseBlock ≤ currentIndex)

def dropMatured (k : Staking) (currentIndex : Int) : Staking :=
  { k with unbonding := k.unbonding.filter (fun entry => ¬entry.releaseBlock ≤ currentIndex) }

def enterEpoch (k : Staking) (newEpoch : Int) : Staking :=
  { k with
    currentEpoch := newEpoch
    epochValidators := k.getLiveValidators
    epochs := k.epochs.insert newEpoch k.getLiveValidators }

def addEpochReward (k : Staking) (validator : Address) (reward : Int) : Staking :=
  { k with epochRewards := k.epochRewards.update validator (· + reward.toNat) }

def pruneDistributions (k : Staking) (pruneBefore : Int) : Staking :=
  if 0 ≤ pruneBefore then
    { k with lastEpochDistributions := k.lastEpochDistributions.filter (fun epoch _ => ¬epoch < pruneBefore) }
  else k

variable [Env]

def applyTx (k : Staking) (tx : Transaction) (idx : Int) : Except (Fault Staking) Staking :=
  match tx.txType with
  | .REGISTER_VALIDATOR => k.registerValidator tx.payload
  | .REVOKE_KEY => .ok (k.revokeKey tx.sender tx.payload
      ⟨tx.txId,tx.timestamp,tx.payload.reason.getD ""⟩)
  | .STAKE | .DELEGATE => .ok (k.addStake tx.sender tx.payload)
  | .UNSTAKE => .ok (k.unstake tx.sender tx.payload idx)
  | .EVIDENCE => .ok (k.processEvidenceTx tx idx)
  | _ => .ok k

end Staking

end QbitNetwork
