import QbitNetwork.Fees

/-! Blocks and their signed header. The source caches header, hash and Merkle root
beside the fields they are computed from; here they are computed. -/
namespace QbitNetwork

structure Block where
  index : Int
  prevHash : String
  transactions : List Transaction
  validator : Address := ""
  timestamp : Int
  signature : Bytes := []
  baseFee : Int := 0
  stateRoot : String := ""
  receiptsRoot : String := ""
  deriving DecidableEq

namespace Block
variable [Env]

def merkleRoot (block : Block) : String :=
  hex (QbitNetwork.merkleRoot (block.transactions.map Transaction.txHash))

def optionalField (key value : String) : List (String × Json) :=
  if value = "" then [] else [(key,.str value)]

def headerJson (block : Block) : Json := .obj
  ([("baseFee",.int block.baseFee),("index",.int block.index),
    ("merkleRoot",.str block.merkleRoot),("prevHash",.str block.prevHash)] ++
   optionalField "receiptsRoot" block.receiptsRoot ++
   optionalField "stateRoot" block.stateRoot ++
   [("timestamp",.int block.timestamp),("txCount",.int block.transactions.length),
    ("validator",.str block.validator)])

def headerBytes (block : Block) : Bytes := block.headerJson.dumps

def blockHash (block : Block) : String := hex (sha3_256 block.headerBytes)

def sign (block : Block) (signingSk : Bytes) : Block :=
  { block with signature := Env.mldsaSign signingSk block.headerBytes }

def verifySignature (block : Block) (signingPk : Bytes) : Bool :=
  verifySig signingPk block.headerBytes block.signature

def genesis (validator : Address) (transactions : List Transaction) (now : Int) : Block :=
  { index := 0
    prevHash := "0000000000000000000000000000000000000000000000000000000000000000"
    transactions
    validator
    timestamp := now }

@[simp] theorem signIndex (block : Block) (sk : Bytes) : (block.sign sk).index = block.index := rfl

@[simp] theorem signTransactions (block : Block) (sk : Bytes) :
    (block.sign sk).transactions = block.transactions := rfl

@[simp] theorem signValidator (block : Block) (sk : Bytes) :
    (block.sign sk).validator = block.validator := rfl

@[simp] theorem signHeaderBytes (block : Block) (sk : Bytes) :
    (block.sign sk).headerBytes = block.headerBytes := rfl

@[simp] theorem signBlockHash (block : Block) (sk : Bytes) :
    (block.sign sk).blockHash = block.blockHash := rfl

end Block

end QbitNetwork
