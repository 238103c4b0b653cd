import QbitNetwork.State

/-! The SQLite store: the tables that are read back, and the statements on them.
A row of `blocks` holds the block itself: every block came in through
`Block.from_dict`, and what `to_dict` writes of it is read back unchanged. The tables
`txs`, `notarizations`, `key_registry`, `revoked_keys`, `unbonding`, `meta` and `events`
are written but never read by the chain, and are left out. -/
namespace QbitNetwork

structure Store where
  height : Int := -1
  blocks : Dict Int Block := ∅
  validatorRegistry : Dict Address String := ∅
  stakes : Table (Address × Address) Int 0 := .empty
  epochs : Dict Int (Int × List (Address × Int)) := ∅
  slashingEvents : List SlashingEvent := []
  balances : Dict Address Int := ∅
  supply : Table String Int 0 := .empty
  receipts : Dict String Receipt := ∅
  blockLevelEvents : List (Int × List Event) := []
  tokens : Dict TokenId TokenMeta := ∅
  tokenBalances : Table (TokenId × Address) Int 0 := .empty

namespace Store

def getBlock (d : Store) (index : Int) : Option Block := d.blocks[index]?

/- `WHERE idx >= start AND idx < stop ORDER BY idx`. -/
def getBlocksRange (d : Store) (start stop : Int) : List Block :=
  (d.blocks.toList.filter (fun row => start ≤ row.1 ∧ row.1 < stop)).map Prod.snd

section Blocks
variable [Env]

/- `hash TEXT UNIQUE`. -/
def hashTaken (d : Store) (index : Int) (hash : String) : Bool :=
  d.blocks.toList.any (fun row => row.1 ≠ index && row.2.blockHash == hash)

def appendBlock (d : Store) (block : Block) : Except PyExc Store :=
  let idx := d.height + 1
  if idx ∈ d.blocks ∨ d.hashTaken idx block.blockHash then .error .integrityError
  else .ok { d with blocks := d.blocks.insert idx block, height := idx }

/- An UPDATE of an absent row changes nothing. -/
def updateBlock (d : Store) (block : Block) : Except PyExc Store :=
  if block.index ∉ d.blocks then .ok d
  else if d.hashTaken block.index block.blockHash then .error .integrityError
  else .ok { d with blocks := d.blocks.insert block.index block }

end Blocks

def putValidator (d : Store) (address : Address) (pubkeyHex : String) : Store :=
  { d with validatorRegistry := d.validatorRegistry.insert address pubkeyHex }

def getValidator (d : Store) (address : Address) : Option String := d.validatorRegistry[address]?

def deleteValidator (d : Store) (address : Address) : Store :=
  { d with validatorRegistry := d.validatorRegistry.erase address }

/- `put_stake`, and `delete_stake` where the amount is zero; keyed by staker and validator. -/
def putStake (d : Store) (staker validator : Address) (amount : Int) : Store :=
  { d with stakes := d.stakes.set (staker,validator) amount }

def putEpoch (d : Store) (epoch blockStart : Int) (validators : List (Address × Int)) : Store :=
  { d with epochs := d.epochs.insert epoch (blockStart,validators) }

def putSlashingEvent (d : Store) (event : SlashingEvent) : Store :=
  { d with slashingEvents := d.slashingEvents ++ [event] }

def putBalance (d : Store) (address : Address) (amount : Int) : Store :=
  { d with balances := d.balances.insert address amount }

def putSupply (d : Store) (key : String) (value : Int) : Store :=
  { d with supply := d.supply.set key value }

/- `symbol TEXT UNIQUE`: replacing a row also removes the one with the same symbol. -/
def putToken (d : Store) (tid : TokenId) (reg : TokenMeta) : Store :=
  { d with tokens := (d.tokens.filter (fun _ row => row.symbol ≠ reg.symbol)).insert tid reg }

def putTokenBalance (d : Store) (tid : TokenId) (address : Address) (amount : Int) : Store :=
  { d with tokenBalances := d.tokenBalances.set (tid,address) (max 0 amount) }

def deleteToken (d : Store) (tid : TokenId) : Store :=
  { d with
    tokens := d.tokens.erase tid
    tokenBalances := d.tokenBalances.mapWhere (fun row => row.1 = tid) (fun _ => 0) }

def putReceipt (d : Store) (receipt : Receipt) : Store :=
  { d with receipts := d.receipts.insert receipt.txId receipt }

def getReceiptsForBlock (d : Store) (index : Int) : List Receipt :=
  ((d.receipts.toList.map Prod.snd).filter (fun receipt => receipt.blockIndex = index)).insertionSort
    (fun a b => a.txIndex ≤ b.txIndex)

def putBlockLevelEvents (d : Store) (index : Int) (events : List Event) : Store :=
  { d with blockLevelEvents := d.blockLevelEvents ++ [(index,events)] }

def deleteReceiptsForBlock (d : Store) (index : Int) : Store :=
  { d with
    receipts := d.receipts.filter (fun _ receipt => receipt.blockIndex < index)
    blockLevelEvents := d.blockLevelEvents.filter (fun row => row.1 < index) }

def replayStake (stakes : Table (Address × Address) Int 0) (tx : Transaction) :
    Table (Address × Address) Int 0 :=
  let vaddr := tx.payload.validatorAddress.getD ""
  let amount := tx.payload.amount.getD 0
  match tx.txType with
  | .STAKE | .DELEGATE =>
    if vaddr ≠ "" ∧ 0 < amount then stakes.update (tx.sender,vaddr) (· + amount) else stakes
  | .UNSTAKE =>
    if vaddr ≠ "" ∧ 0 < amount then
      stakes.update (tx.sender,vaddr) (fun current => max 0 (current - amount))
    else stakes
  | .EVIDENCE =>
    if vaddr ≠ "" then stakes.mapWhere (fun row => row.2 = vaddr) Staking.afterSlash else stakes
  | _ => stakes

def keepEpoch (fromIndex epoch : Int) : Bool :=
  let first := fromIndex / epochLength
  if fromIndex ≤ 0 then false
  else if fromIndex % epochLength = 0 then epoch < first
  else epoch ≤ first

/- Balances, supply and token balances are cleared, to be rebuilt on reload. -/
def deleteBlocksFrom (d : Store) (fromIndex : Int) : Store :=
  let removed := (d.blocks.toList.filter (fun row => fromIndex ≤ row.1)).flatMap
    (fun row => row.2.transactions)
  let remaining := (d.blocks.toList.filter (fun row => row.1 < fromIndex)).flatMap
    (fun row => row.2.transactions)
  let validators := (removed.filter (fun tx => tx.txType = .REGISTER_VALIDATOR)).map
    (fun tx => tx.payload.validatorAddress.getD "")
  let blocks := d.blocks.filter (fun index _ => index < fromIndex)
  { height := blocks.maxKey?.getD (-1)
    blocks
    validatorRegistry := validators.foldl
      (fun table vaddr => if vaddr = "" then table else table.erase vaddr) d.validatorRegistry
    stakes := remaining.foldl replayStake .empty
    epochs := d.epochs.filter (fun epoch _ => keepEpoch fromIndex epoch)
    slashingEvents := d.slashingEvents.filter (fun event => event.blockIndex < fromIndex)
    balances := ∅
    supply := .empty
    receipts := d.receipts.filter (fun _ receipt => receipt.blockIndex < fromIndex)
    blockLevelEvents := d.blockLevelEvents
    tokens := (d.tokens.filter (fun _ row => row.createdBlock < fromIndex)).map
      (fun _ row => { row with totalMinted := 0 })
    tokenBalances := .empty }

end Store

end QbitNetwork
