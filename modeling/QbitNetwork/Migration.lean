import QbitNetwork.LoadLaws
import QbitNetwork.Protection

/-! A data directory with the chain.json of an older node: the migration to a database, the
three ways `load()` can take, and the one it takes after the constructor. -/
namespace QbitNetwork

/- What a file read with `json.load` holds: an entry stands for what `Block.from_dict` makes of it. -/
inductive ChainFile where
  | corrupt
  | notArray
  | entries (blocks : List (Except PyExc Block))

def ChainFile.saved (chain : List Block) : ChainFile := .entries (chain.map .ok)

structure DataDir where
  chainJson : Option ChainFile := none
  chainJsonMigrated : Option ChainFile := none
  chainDb : Option Store := none

namespace DataDir

/- `SQLiteStore(data_dir)` creates chain.db where it is missing. -/
def openStore (dir : DataDir) : Store × DataDir :=
  let d := (dir.chainDb.getD {}).reopened
  (d,{ dir with chainDb := some d })

def construct (dir : DataDir) : Blockchain × DataDir :=
  (Blockchain.new (.sqlite dir.openStore.1),dir.openStore.2)

section Migrate
variable [Env]

def migrateEntry (d : Store) (entry : Except PyExc Block) : Except (Fault Store) Store :=
  match entry with
  | .error exception => .error ⟨exception,d⟩
  | .ok block =>
    match d.appendBlock block with
    | .error exception => .error ⟨exception,d⟩
    | .ok d => .ok d

/- An exception leaves chain.json in place and the rows written so far. -/
def migrateJsonToSqlite (dir : DataDir) : Except (Fault DataDir) DataDir :=
  match dir.chainJson,dir.chainDb with
  | none,_ => .ok dir
  | some _,some _ => .ok dir
  | some .corrupt,none | some .notArray,none | some (.entries []),none => .ok dir
  | some (.entries blocks),none =>
    match blocks.foldlM migrateEntry dir.openStore.1 with
    | .error r => .error ⟨r.exception,{ dir with chainDb := some r.state }⟩
    | .ok d => .ok { chainJson := none, chainJsonMigrated := some (.entries blocks), chainDb := some d }

end Migrate

end DataDir

/- The loop's variables; of `validated_blocks` the checks read the last one. -/
structure Validating where
  loadValidators : Dict Address Bytes
  validatedBlocks : List Block := []

namespace Blockchain
variable [Env]

section Json

omit [Env] in
def linkError (parent : Option Block) (i : Nat) (block : Block) : Option String :=
  match parent with
  | none => if block.index ≠ 0 then some s!"Genesis block has wrong index: {block.index}" else none
  | some parent =>
    if block.prevHash ≠ parent.blockHash then
      some s!"Block #{block.index} prev_hash mismatch at position {i}"
    else if block.index ≠ parent.index + 1 then
      some s!"Block index gap at position {i}: expected {parent.index + 1}, got {block.index}"
    else none

/- The checks of `verifyStoredBlock`, under other texts. -/
def verifyJsonBlock (loadValidators : Dict Address Bytes) (block : Block) : Except PyExc Unit :=
  match block.transactions.find? (fun tx => !tx.verify) with
  | some tx => .error (.valueError
      (s!"Block #{block.index} contains tx with invalid signature: " ++ short tx.txId))
  | none =>
    let pk := loadValidators.getD block.validator []
    if block.validator ≠ "" ∧ ¬pk.isEmpty ∧ ¬block.verifySignature pk then
      .error (.valueError s!"Block #{block.index} has invalid validator signature")
    else .ok ()

def validateEntry (v : Validating) (row : Except PyExc Block × Nat) : Except PyExc Validating := do
  let block ← row.1
  match linkError v.validatedBlocks.getLast? row.2 block with
  | some message => .error (.valueError message)
  | none =>
    verifyJsonBlock v.loadValidators block
    let loadValidators ← block.transactions.foldlM trackValidator v.loadValidators
    .ok { loadValidators, validatedBlocks := v.validatedBlocks ++ [block] }

def validateEntries (s : Blockchain) (blocks : List (Except PyExc Block)) : Except PyExc Validating :=
  blocks.zipIdx.foldlM validateEntry { loadValidators := s.state.staking.validators }

/- The blocks are appended once all of them are validated. -/
def loadFromJson (s : Blockchain) : ChainFile → Except (Fault Blockchain) (Bool × Blockchain)
  | .corrupt | .notArray | .entries [] => .ok (false,s)
  | .entries blocks =>
    match s.validateEntries blocks with
    | .error exception => .error ⟨exception,s⟩
    | .ok v =>
      match v.validatedBlocks.foldlM appendBlockInner s with
      | .error r => .error r
      | .ok s => .ok (true,s)

end Json

end Blockchain

namespace DataDir
variable [Env]

omit [Env] in
def beside (dir : DataDir) :
    Except (Fault Blockchain) (Bool × Blockchain) → Except (Fault (Blockchain × DataDir)) (Bool × Blockchain × DataDir)
  | .error r => .error ⟨r.exception,r.state,dir⟩
  | .ok (answer,s) => .ok (answer,s,dir)

def load (dir : DataDir) (s : Blockchain) (verifySignatures : Bool) :
    Except (Fault (Blockchain × DataDir)) (Bool × Blockchain × DataDir) :=
  if 0 ≤ s.height then .ok (true,s,dir)
  else match dir.migrateJsonToSqlite with
    | .error r => .error ⟨r.exception,s,r.state⟩
    | .ok dir =>
      match dir.chainDb,dir.chainJson with
      | some d,_ => beside dir (s.loadFromSqlite d verifySignatures)
      | none,none => .ok (false,s,dir)
      | none,some file => beside dir (s.loadFromJson file)

end DataDir

section Migrated
variable [Env]

omit [Env] in
theorem Store.emptyReopened : ({} : Store).reopened = {} :=
  Blockchain.reopenedHolds (show (Backend.sqlite {}).Holds [] from ⟨rfl,fun _ => by simp [listAt]⟩)

namespace DataDir

theorem loadStored {dir : DataDir} {d : Store} (present : dir.chainDb = some d) {s : Blockchain}
    (fresh : s.height < 0) (verify : Bool) : dir.load s verify = beside dir (s.loadFromSqlite d verify) := by
  have kept : dir.migrateJsonToSqlite = .ok dir := by
    unfold migrateJsonToSqlite
    rw [present]
    split <;> first | rfl | simp_all
  rw [load,if_neg (by omega),kept]
  simp only [present]

theorem legacyLoad {dir : DataDir} (absent : dir.chainDb = none) (verify : Bool) :
    dir.construct.2.load dir.construct.1 verify =
      .ok (false,Blockchain.new (.sqlite {}),{ dir with chainDb := some {} }) := by
  have opened : dir.construct = (Blockchain.new (.sqlite {}),{ dir with chainDb := some {} }) := by
    simp only [construct,openStore,absent,Option.getD_none,Store.emptyReopened]
  have unread : (Blockchain.new (.sqlite {})).loadFromSqlite {} verify =
      .ok (false,Blockchain.new (.sqlite {})) := by
    rw [Blockchain.loadFromSqlite,Store.emptyReopened,if_pos (show ({} : Store).height < 0 by decide)]
    rfl
  rw [opened,loadStored (d := {}) rfl (show (-1 : Int) < 0 by decide),unread]
  rfl

end DataDir

end Migrated

section Claim
variable [Env]

namespace Blockchain

inductive Received : List Block → Blockchain → Prop
  | new : Received [] (new (.memory []))
  | add {chain : List Block} {s : Blockchain} (block : Block) (now : Int) (received : Received chain s)
      (answer : (s.addBlock block now).1 = .accepted) : Received (chain ++ [block]) (s.addBlock block now).2

def replayInMemory (chain : List Block) : Except (Fault Blockchain) Blockchain :=
  chain.foldlM appendBlockInner (new (.memory []))

structure SavedChain (chain : List Block) : Prop where
  nonempty : chain ≠ []
  received : ∃ s, Received chain s
  validated : ∃ v, (new (.memory [])).validateEntries (chain.map .ok) = .ok v
  replays : ∃ t, replayInMemory chain = .ok t

structure SameTables (s t : Blockchain) : Prop where
  notarizations : s.state.index.notarizations = t.state.index.notarizations
  notarizationsByHash : s.state.index.notarizationsByHash = t.state.index.notarizationsByHash
  keyRegistry : s.state.index.keyRegistry = t.state.index.keyRegistry
  keyHistory : s.state.index.keyHistory = t.state.index.keyHistory
  senderNonce : s.state.index.senderNonce = t.state.index.senderNonce
  validatorRegistry : s.state.staking.validatorRegistry = t.state.staking.validatorRegistry
  stakes : s.state.staking.stakes = t.state.staking.stakes
  totalStake : s.state.staking.totalStake = t.state.staking.totalStake

end Blockchain

namespace DataDir
open Blockchain

def Restores (dir : DataDir) (chain : List Block) (verify : Bool) : Prop :=
  ∃ s dir', dir.construct.2.load dir.construct.1 verify = .ok (true,s,dir') ∧
    s.height = (chain.length : Int) - 1 ∧ (∀ i, s.getBlockByIndex i = listAt chain i) ∧
    ∃ t, replayInMemory chain = .ok t ∧ SameTables s t

theorem legacyNeverRestored {dir : DataDir} {chain : List Block} (absent : dir.chainDb = none)
    (file : dir.chainJson = some (.saved chain)) (verify : Bool) :
    ¬dir.Restores chain verify ∧
      ∃ s dir', dir.construct.2.load dir.construct.1 verify = .ok (false,s,dir') ∧ s.height = -1 ∧
        dir'.chainJson = some (.saved chain) ∧ dir'.chainDb = some {} := by
  have loaded := legacyLoad absent verify
  refine ⟨?_,_,_,loaded,rfl,file,rfl⟩
  rintro ⟨s,dir',answered,-⟩
  rw [loaded] at answered
  cases answered

end DataDir

end Claim

namespace Devnet
attribute [local instance] legacy
open Blockchain

def legacyChain : List Block := [plainGenesis,firstBlock]

def legacyDir : DataDir := { chainJson := some (.saved legacyChain) }

theorem legacyNeverRestoredDevnet : ¬legacyDir.Restores legacyChain true ∧
    ∃ s dir', legacyDir.construct.2.load legacyDir.construct.1 true = .ok (false,s,dir') ∧ s.height = -1 ∧
      dir'.chainJson = some (.saved legacyChain) ∧ dir'.chainDb = some {} :=
  DataDir.legacyNeverRestored rfl rfl true

theorem legacyLost : ¬∀ (dir : DataDir) (chain : List Block) (verify : Bool), dir.chainDb = none →
    dir.chainJson = some (.saved chain) → SavedChain chain → dir.Restores chain verify := by
  have run : ((new (.memory [])).addBlock plainGenesis 100).1 = .accepted ∧
      (joined.addBlock firstBlock 103).1 = .accepted ∧
      ((new (.memory [])).validateEntries (legacyChain.map .ok)).isOk = true ∧
      (replayInMemory legacyChain).isOk = true := by decide +kernel
  obtain ⟨first,second,validated,replays⟩ := run
  have saved : SavedChain legacyChain := by
    refine ⟨List.cons_ne_nil _ _,⟨(joined.addBlock firstBlock 103).2,?_⟩,?_,⟨_,okState replays⟩⟩
    · exact .add firstBlock 103 (.add plainGenesis 100 .new first) second
    · cases checked : (new (.memory [])).validateEntries (legacyChain.map .ok) with
      | ok v => exact ⟨v,rfl⟩
      | error exception =>
        rw [checked] at validated
        cases validated
  intro claim
  obtain ⟨s,dir',answered,-⟩ := claim legacyDir legacyChain true rfl rfl saved
  rw [DataDir.legacyLoad rfl] at answered
  cases answered

end Devnet

end QbitNetwork
