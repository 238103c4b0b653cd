import QbitNetwork.Bytes
import QbitNetwork.Lib.Outcome

/-! Chain configuration and what the sources take from outside: SHA3-256 of
hashlib, ML-DSA-65 of liboqs and the fee activation height of the environment. -/
namespace QbitNetwork

class Env where
  sha3_256 : Bytes → Bytes
  sha3_256Length : ∀ data, (sha3_256 data).length = 32
  mldsaSign : Bytes → Bytes → Bytes
  mldsaVerify : Bytes → Bytes → Bytes → Bool
  dynamicFeeActivationHeight : Int

export Env (sha3_256)

abbrev Address := String

def maxTxPerBlock : Nat := 200
def maxBlockSize : Int := 5 * 1024 * 1024
def maxTxPayloadSize : Nat := 8192
def evidenceMaxPayload : Nat := 32768
def maxTxPoolSize : Nat := 10000
def maxBlockDrift : Int := 30
def blockInterval : Int := 5
def addressPrefix : String := "qv1"
def chainId : String := "qbit-mainnet"
def maxReorgDepth : Int := 32

def minStake : Int := 1
def maxStake : Int := 1000000
def unbondingPeriod : Int := 100
def epochLength : Int := 100
def slashPercentage : Int := 50
def defaultCommissionRate : Int := 10

def qubitPerQbit : Int := 10 ^ 9
def maxSupply : Int := 21000000 * qubitPerQbit
def maxTxAmount : Int := 2 ^ 63 - 1
def initialBlockReward : Int := 5 * qubitPerQbit
def halvingInterval : Int := 2100000
def genesisBalanceQbit : Int := 2100000

def maxBlockWeight : Int := 20000000
def targetBlockWeight : Int := maxBlockWeight / 2
def baseFeeChangeDenom : Int := 8
def initialBaseFee : Int := 10
def minBaseFee : Int := 1
def maxBaseFee : Int := 10000
def maxSelfTxWeightRatio : Int := 25

def tokenActivationHeight : Int := 0
def maxTokenNameLength : Nat := 64
def maxTokenSymbolLength : Nat := 8
def minTokenSymbolLength : Nat := 2
def maxTokenDecimals : Int := 18

/- `_TX_OVERHEAD + MAX_TX_PAYLOAD_SIZE + 3309 * 2 + 1952 * 2`. -/
def maxTxWireSize : Int := 200 + 8192 + 3309 * 2 + 1952 * 2

inductive TxType where
  | REGISTER_KEY | REGISTER_VALIDATOR | REVOKE_KEY | NOTARIZE | STORE | SHARE | STAKE
  | DELEGATE | UNSTAKE | EVIDENCE | TRANSFER | ISSUE_TOKEN | MINT_TOKEN | TRANSFER_TOKEN
  deriving DecidableEq, Repr

def TxType.value : TxType → String
  | .REGISTER_KEY => "REGISTER_KEY"
  | .REGISTER_VALIDATOR => "REGISTER_VALIDATOR"
  | .REVOKE_KEY => "REVOKE_KEY"
  | .NOTARIZE => "NOTARIZE"
  | .STORE => "STORE"
  | .SHARE => "SHARE"
  | .STAKE => "STAKE"
  | .DELEGATE => "DELEGATE"
  | .UNSTAKE => "UNSTAKE"
  | .EVIDENCE => "EVIDENCE"
  | .TRANSFER => "TRANSFER"
  | .ISSUE_TOKEN => "ISSUE_TOKEN"
  | .MINT_TOKEN => "MINT_TOKEN"
  | .TRANSFER_TOKEN => "TRANSFER_TOKEN"

def txFees : TxType → Int
  | .TRANSFER => 1000000
  | .NOTARIZE => 10000000
  | .STORE => 20000000
  | .SHARE => 10000000
  | .REGISTER_KEY => 100000000
  | .REGISTER_VALIDATOR => 1000000000
  | .STAKE | .DELEGATE | .UNSTAKE => 10000000
  | .REVOKE_KEY | .EVIDENCE => 0
  | .ISSUE_TOKEN => 500000000
  | .MINT_TOKEN => 10000000
  | .TRANSFER_TOKEN => 1000000

def txWeights : TxType → Int
  | .TRANSFER => 100000
  | .NOTARIZE => 1000000
  | .STORE => 2000000
  | .SHARE => 1000000
  | .REGISTER_KEY => 10000000
  | .REGISTER_VALIDATOR => 100000000
  | .STAKE | .DELEGATE | .UNSTAKE => 1000000
  | .REVOKE_KEY | .EVIDENCE => 0
  | .ISSUE_TOKEN => 50000000
  | .MINT_TOKEN => 1000000
  | .TRANSFER_TOKEN => 100000

theorem txFeesNonneg (t : TxType) : 0 ≤ txFees t := by cases t <;> decide

theorem txWeightsNonneg (t : TxType) : 0 ≤ txWeights t := by cases t <;> decide

/- What a call can raise. Only a ValueError is caught on the block path. -/
inductive PyExc where
  | valueError (message : String)
  | keyError (key : String)
  | overflowError
  | integrityError
  | attributeError
  | typeError
  | recursionError
  | osError
  deriving DecidableEq, Repr

/- A check either passes, refuses with the message the caller returns beside
`False`, or lets an exception escape. -/
inductive Halt where
  | refused (message : String)
  | raised (exception : PyExc)
  deriving DecidableEq, Repr

abbrev Check := Except Halt Unit

def orRaise {α : Type} : Except PyExc α → Except Halt α
  | .ok result => .ok result
  | .error exception => .error (.raised exception)

abbrev Fault (σ : Type) := Raised PyExc σ

def refuseIf (bad : Prop) [Decidable bad] (message : String) : Check :=
  if bad then .error (.refused message) else .ok ()

@[simp] theorem refuseIfOk (bad : Prop) [Decidable bad] (message : String) (passed : Unit) :
    refuseIf bad message = .ok passed ↔ ¬bad := by
  unfold refuseIf
  split <;> simp_all

@[simp] theorem passOk (passed : Unit) : (pure () : Check) = .ok passed ↔ True := by
  simp [pure,Except.pure]

section MLDSA
variable [Env]

/- `MLDSA.verify` answers False for an empty key or signature before it asks liboqs. -/
def verifySig (publicKey message signature : Bytes) : Bool :=
  !publicKey.isEmpty && !signature.isEmpty && Env.mldsaVerify publicKey message signature

def deriveAddress (signingPk : Bytes) : Address := addressPrefix ++ hex (sha3_256 signingPk)

theorem deriveAddressHash {pk pk' : Bytes} (same : deriveAddress pk = deriveAddress pk') :
    sha3_256 pk = sha3_256 pk' := by
  have bytes := congrArg encode same
  simp only [deriveAddress,encodeAppend,List.append_cancel_left_eq] at bytes
  exact hexInjective (encodeInjective bytes)

end MLDSA

section Merkle
variable [Env]

def merkleNode (left right : Bytes) : Bytes := sha3_256 (1 :: (left ++ right))

def merkleLayer : List Bytes → List Bytes
  | left :: right :: rest => merkleNode left right :: merkleLayer rest
  | layer => layer

/- Each pass at least halves a layer of two or more, so its length is fuel enough. -/
def merkleReduce : Nat → List Bytes → Bytes
  | fuel + 1, left :: right :: rest => merkleReduce fuel (merkleLayer (left :: right :: rest))
  | _, layer => layer.headD []

def merkleRoot (items : List Bytes) : Bytes :=
  if items.isEmpty then List.replicate 32 0
  else merkleReduce items.length (items.map (fun item => sha3_256 (0 :: item)))

end Merkle

end QbitNetwork
