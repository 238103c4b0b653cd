import QbitNetwork.Transaction
import QbitNetwork.Lib.Groups

/-! Multi-asset tokens: the registry, the balances and the holder indices. -/
namespace QbitNetwork

abbrev TokenId := String

structure TokenMeta where
  issuer : Address
  name : String
  symbol : String
  decimals : Int
  maxSupply : Int
  totalMinted : Int
  transferable : Bool
  createdBlock : Int
  createdTx : String
  deriving DecidableEq

structure Tokens where
  registry : Dict TokenId TokenMeta := ∅
  balances : Dict (TokenId × Address) Int := ∅
  bySymbol : Dict String TokenId := ∅
  holdersByToken : Dict TokenId (DSet Address) := ∅
  tokensByAddress : Dict Address (DSet TokenId) := ∅

namespace Tokens

def updateTokenIndex (t : Tokens) (tid : TokenId) (address : Address) (newBalance : Int) : Tokens :=
  if 0 < newBalance then
    { t with
      holdersByToken := Groups.add t.holdersByToken tid address
      tokensByAddress := Groups.add t.tokensByAddress address tid }
  else
    { t with
      holdersByToken := Groups.drop t.holdersByToken tid address
      tokensByAddress := Groups.drop t.tokensByAddress address tid }

def setTokenBalance (t : Tokens) (tid : TokenId) (address : Address) (amount : Int) : Tokens :=
  { t with balances := t.balances.insert (tid,address) amount }.updateTokenIndex tid address amount

def settleTokenBalance (t : Tokens) (tid : TokenId) (address : Address) (amount : Int) : Tokens :=
  if amount ≤ 0 then
    { t with balances := t.balances.erase (tid,address) }.updateTokenIndex tid address 0
  else t.setTokenBalance tid address amount

def getTokenBalance (t : Tokens) (tid : TokenId) (address : Address) : Int :=
  t.balances.getD (tid,address) 0

/- `payload[key]` for a key that is not there. -/
def required {α : Type} (t : Tokens) (key : String) (value : Option α) : Except (Fault Tokens) α :=
  match value with
  | some v => .ok v
  | none => .error ⟨.keyError key,t⟩

def reject (t : Tokens) (message : String) : Except (Fault Tokens) Tokens :=
  .error ⟨.valueError message,t⟩

section Issue
variable [Env]

/- `sha3_256((sender + symbol + str(nonce)).encode()).hex()[:32]`. -/
def tokenIdOf (sender : Address) (symbol : String) (nonce : Int) : TokenId :=
  hex ((sha3_256 (encode (sender ++ symbol ++ toString nonce))).take 16)

def issueToken (t : Tokens) (tx : Transaction) (idx : Int) : Except (Fault Tokens) Tokens := do
  let symbol ← t.required "symbol" tx.payload.symbol
  if symbol ∈ t.bySymbol then t.reject ("token symbol " ++ symbol ++ " already exists")
  else
    let tid := tokenIdOf tx.sender symbol tx.nonce
    if tid ∈ t.registry then t.reject ("token_id collision: " ++ tid)
    else
      let name ← t.required "name" tx.payload.name
      let decimals ← t.required "decimals" tx.payload.decimals
      .ok { t with
        registry := t.registry.insert tid
          { issuer := tx.sender
            name
            symbol
            decimals
            maxSupply := tx.payload.maxSupply.getD 0
            totalMinted := 0
            transferable := tx.payload.transferable.getD true
            createdBlock := idx
            createdTx := tx.txId }
        bySymbol := t.bySymbol.insert symbol tid }

end Issue

def maxTokenAmount : Int := 2 ^ 63 - 1

def mintToken (t : Tokens) (tx : Transaction) : Except (Fault Tokens) Tokens := do
  let tid ← t.required "token_id" tx.payload.tokenId
  match t.registry[tid]? with
  | none => t.reject ("token " ++ tid ++ " does not exist")
  | some reg =>
    if reg.issuer ≠ tx.sender then t.reject ("only issuer can mint token " ++ tid)
    else
      let amount ← t.required "amount" tx.payload.amount
      if maxTokenAmount < reg.totalMinted + amount then
        t.reject s!"minting {amount} would overflow total_minted"
      else if 0 < reg.maxSupply ∧ reg.maxSupply < reg.totalMinted + amount then
        t.reject s!"minting {amount} would exceed max_supply {reg.maxSupply} (minted: {reg.totalMinted})"
      else
        let t := { t with
          registry := t.registry.insert tid { reg with totalMinted := reg.totalMinted + amount } }
        .ok (t.setTokenBalance tid tx.recipient (t.getTokenBalance tid tx.recipient + amount))

def transferToken (t : Tokens) (tx : Transaction) : Except (Fault Tokens) Tokens := do
  let tid ← t.required "token_id" tx.payload.tokenId
  match t.registry[tid]? with
  | none => t.reject ("token " ++ tid ++ " does not exist")
  | some reg =>
    if reg.transferable = false then t.reject ("token " ++ tid ++ " is not transferable")
    else
      let amount ← t.required "amount" tx.payload.amount
      let srcBal := t.getTokenBalance tid tx.sender
      if srcBal < amount then t.reject s!"insufficient token balance: {srcBal} < {amount}"
      else
        let t := t.settleTokenBalance tid tx.sender (srcBal - amount)
        .ok (t.setTokenBalance tid tx.recipient (t.getTokenBalance tid tx.recipient + amount))

section Apply
variable [Env]

def applyTx (t : Tokens) (tx : Transaction) (idx : Int) : Except (Fault Tokens) Tokens :=
  if idx < tokenActivationHeight then .ok t
  else match tx.txType with
    | .ISSUE_TOKEN => t.issueToken tx idx
    | .MINT_TOKEN => t.mintToken tx
    | .TRANSFER_TOKEN => t.transferToken tx
    | _ => .ok t

/- Rollback: the token goes, with every balance of it. -/
def undoIssueToken (t : Tokens) (tx : Transaction) : Tokens :=
  let symbol := tx.payload.symbol.getD ""
  let tid := tokenIdOf tx.sender symbol tx.nonce
  let held := (t.balances.keys.filter (fun key => key.1 = tid)).map Prod.snd
  held.foldl (fun t address => t.settleTokenBalance tid address 0)
    { t with registry := t.registry.erase tid, bySymbol := t.bySymbol.erase symbol }

def undoMintToken (t : Tokens) (tx : Transaction) : Tokens :=
  let tid := tx.payload.tokenId.getD ""
  let amount := tx.payload.amount.getD 0
  let t := match t.registry[tid]? with
    | some reg => { t with
        registry := t.registry.insert tid { reg with totalMinted := max 0 (reg.totalMinted - amount) } }
    | none => t
  t.settleTokenBalance tid tx.recipient (t.getTokenBalance tid tx.recipient - amount)

def undoTransferToken (t : Tokens) (tx : Transaction) : Tokens :=
  let tid := tx.payload.tokenId.getD ""
  let amount := tx.payload.amount.getD 0
  let t := t.settleTokenBalance tid tx.recipient (t.getTokenBalance tid tx.recipient - amount)
  t.setTokenBalance tid tx.sender (t.getTokenBalance tid tx.sender + amount)

def undoTx (t : Tokens) (tx : Transaction) : Tokens :=
  match tx.txType with
  | .ISSUE_TOKEN => t.undoIssueToken tx
  | .MINT_TOKEN => t.undoMintToken tx
  | .TRANSFER_TOKEN => t.undoTransferToken tx
  | _ => t

end Apply

end Tokens

end QbitNetwork
