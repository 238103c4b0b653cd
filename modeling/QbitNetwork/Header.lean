import QbitNetwork.Block
import QbitNetwork.JsonText
import QbitNetwork.PyValue

/-! The canonical header built from the values of a parsed one, whatever their types. -/
namespace QbitNetwork

def headerOf (baseFee index merkleRoot prevHash timestamp txCount validator : Json)
    (receiptsRoot stateRoot : List (String × Json)) : Json := .obj
  ([("baseFee",baseFee),("index",index),("merkleRoot",merkleRoot),("prevHash",prevHash)] ++
   receiptsRoot ++ stateRoot ++
   [("timestamp",timestamp),("txCount",txCount),("validator",validator)])

def optionalRoot (header : Json) (key : String) : Except PyExc (List (String × Json)) := do
  let root ← header.get key .null
  .ok (if root.truthy then [(key,root)] else [])

theorem optionalRootKey {header : Json} {key : String} {rows : List (String × Json)}
    (run : optionalRoot header key = .ok rows) : ∀ row ∈ rows, row.1 = key := by
  obtain ⟨root,-,made⟩ := (Outcome.bindOk ..).mp run
  cases made
  intro row inside
  split at inside
  · rw [List.mem_singleton.mp inside]
  · cases inside

theorem headerJsonOf [Env] (block : Block) :
    block.headerJson = headerOf (.int block.baseFee) (.int block.index) (.str block.merkleRoot)
      (.str block.prevHash) (.int block.timestamp) (.int block.transactions.length) (.str block.validator)
      (Block.optionalField "receiptsRoot" block.receiptsRoot)
      (Block.optionalField "stateRoot" block.stateRoot) := rfl

namespace Devnet

@[reducible] def plainText : PyText where
  str
    | .str text => text
    | .int n => toString n
    | _ => ""
  repr
    | .str text => "'" ++ text ++ "'"
    | .int n => toString n
    | _ => ""
  fromHexError _ := "fromhex() argument must be str, not int"

end Devnet

end QbitNetwork
