import QbitNetwork.Operations

/-! Replay protection: the numbers and ids of what is on the chain, in memory mode. -/
namespace QbitNetwork

namespace Blockchain
variable [Env]

open Chronicle (Fits Sound rows userTxs)

/- What nobody can do twice: each sender's transactions on the chain are numbered from zero,
the next number is the count of them, here and where blocks are checked, and the ids on the
chain are distinct and are the ones checked against. -/
structure ReplaySafe (chain : List Block) (s : Blockchain) : Prop where
  numbered : ∀ sender, (userTxs chain sender).map Transaction.nonce =
    (List.range (userTxs chain sender).length).map (fun (i : Nat) => (i : Int))
  next : ∀ sender, s.getNonce sender = (userTxs chain sender).length
  distinct : ((chain.flatMap Block.transactions).map Transaction.txId).Nodup
  known : ∀ txId, txId ∈ s.state.index.chainTxIds ↔
    txId ∈ (chain.flatMap Block.transactions).map Transaction.txId
  checked : ∀ sender, s.consensusNonces.get sender + 1 = (userTxs chain sender).length

theorem chronicledSafe {chain : List Block} {s : Blockchain} (chronicled : Chronicled True chain s) :
    ReplaySafe chain s := by
  have ids : (rows chain).map (fun row => row.1.txId) =
      (chain.flatMap Block.transactions).map Transaction.txId := by
    rw [← Chronicle.rowsFromTxs 0 chain,List.map_map]
    rfl
  refine ⟨Chronicle.soundNonces trivial chronicled.sound,fun sender => ?_,?_,fun txId => ?_,fun sender => ?_⟩
  · rw [getNonce,Index.getNonce,chronicled.counted trivial]
    omega
  · rw [← ids]
    exact Chronicle.soundIds chronicled.sound
  · rw [chronicled.indexed.ids,ids]
  · rw [consensusNonces,chronicled.shared trivial,Option.getD_none,chronicled.counted trivial]
    omega

theorem chronicledNew {counting : Prop} {validators : Dict Address Bytes} :
    Chronicled counting [] (new (.memory []) validators) := by
  refine ⟨⟨Chronicle.soundNil,fun _ => ⟨[],rfl⟩,rfl,⟨fun txId => ?_,fun txId => ?_,fun _ sender => ?_⟩,
    fun _ sender => ?_,fun _ => rfl,⟨fun tid inside => ?_,fun tid address held => ?_⟩,
    fun epoch record found => ?_,fun low => by simp [new] at low,fun tx inside => by simp [new] at inside,
    show (-1 : Int) ≤ -1 by decide⟩,rfl,rfl⟩
  · simp [new,rows,Chronicle.rowsFrom]
  · simp [new,rows,Chronicle.rowsFrom]
  · simp [new,rows,Chronicle.rowsFrom]
  · simp [new,userTxs]
  · simp [new] at inside
  · simp [new] at held
  · simp [new] at found

theorem replayProtected {validators : Dict Address Bytes} : ∀ s : Blockchain, Reached Careful (new (.memory []) validators) s →
    ∃ chain, s.backend = .memory chain ∧ ReplaySafe chain s := by
  intro s reached
  have recorded : ∃ chain, Chronicled True chain s :=
    reachedInvariant (fun s => ∃ chain, Chronicled True chain s) ⟨[],chronicledNew⟩
      (fun _ c ⟨_,chronicled⟩ careful ended => performLands chronicled c careful ended) reached
  obtain ⟨chain,chronicled⟩ := recorded
  exact ⟨chain,chronicled.stored trivial,chronicledSafe chronicled⟩

end Blockchain

namespace Devnet
attribute [local instance] legacy
open Blockchain

def plainGenesis : Block := (Block.genesis address [registration address key key 100] 100).sign key

def badGenesis : Block :=
  let issue := Transaction.sign
    { txType := .ISSUE_TOKEN
      sender := address
      payload := { symbol := some "ABC", name := some "abc", decimals := some 2, maxSupply := some 100 }
      timestamp := 100 } key key
  { Block.genesis address [issue] 100 with stateRoot := "00" }

def misled : Blockchain := ((new (.memory [])).addBlock badGenesis 100).2

def misledJoined : Blockchain := (misled.addBlock plainGenesis 100).2

def joined : Blockchain := ((new (.memory [])).addBlock plainGenesis 100).2

def firstBlock : Block := ((joined.admitTx (notarization 0)).produceBlock address key 102 102).2.tipBlock

def misledForked : Blockchain := (misledJoined.tryReorg [firstBlock] 103).2

def misledFollowed : Blockchain := (misledForked.addBlock firstBlock 103).2

theorem replayUnprotected : ¬∀ s : Blockchain, Reached (fun _ _ => True) (new (.memory [])) s →
    ∃ chain, s.backend = .memory chain ∧ ReplaySafe chain s := by
  have run : ((new (.memory [])).addBlock badGenesis 100).1.Ended ∧
      (misled.addBlock plainGenesis 100).1.Ended ∧
      (misledJoined.tryReorg [firstBlock] 103).1.Ended ∧
      (misledForked.addBlock firstBlock 103).1.Ended ∧
      misledFollowed.getNonce address ≠ misledFollowed.consensusNonces.get address + 1 := by
    decide +kernel
  obtain ⟨refused,genesis,fork,first,apart⟩ := run
  intro claim
  have misleads : Reached (fun _ _ => True) (new (.memory [])) misled := by
    rw [misled]
    exact Reached.receive .start badGenesis 100 trivial refused
  have joins : Reached (fun _ _ => True) (new (.memory [])) misledJoined := by
    rw [misledJoined]
    exact Reached.receive misleads plainGenesis 100 trivial genesis
  have forks : Reached (fun _ _ => True) (new (.memory [])) misledForked := by
    rw [misledForked]
    exact Reached.reorg joins [firstBlock] 103 trivial fork
  have reached : Reached (fun _ _ => True) (new (.memory [])) misledFollowed := by
    rw [misledFollowed]
    exact Reached.receive forks firstBlock 103 trivial first
  obtain ⟨chain,-,safe⟩ := claim misledFollowed reached
  exact apart ((safe.next address).trans (safe.checked address).symm)

theorem notarizedReached {meets : Blockchain → Call → Prop}
    (begins : meets (new (.memory [])) (.initChain address key key 100)) (activates : meets genesis (.activate address))
    (submits : meets active (.submit 101 (notarization 0))) (produces : meets notarizing (.produce address key 102 102)) :
    Reached meets (new (.memory [])) notarized := by
  have run : (active.submitTx 101 (notarization 0)).1.Ended ∧
      (notarizing.produceBlock address key 102 102).1.Ended := by decide +kernel
  have begun : Reached meets (new (.memory [])) active :=
    (Reached.start.initChain address key key 100 begins genesisRuns).activate address activates activeRuns
  have submitted : Reached meets (new (.memory [])) notarizing := by
    rw [notarizing]
    exact Reached.submit begun 101 (notarization 0) submits run.1
  rw [notarized]
  exact Reached.produce submitted address key 102 102 produces run.2

section Turning
attribute [local instance] turning

def bareGenesis : Block := (Block.genesis payer [registration payer key key 100] 100).sign key

def following : Blockchain := ((new (.memory [])).addBlock bareGenesis 100).2

def leading : Blockchain := ((following.admitTx (signedNote key 101)).produceBlock payer key 102 102).2

def followed : Blockchain := (following.addBlock leading.tipBlock 103).2

def cutBack : Blockchain := (followed.perform (.rollback 1)).2

def regrown : Blockchain := (cutBack.addBlock leading.tipBlock 103).2

def rival : Blockchain := ((following.admitTx (signedNote purseKey 101)).produceBlock payer key 102 102).2

def rivals : List Block := [rival.tipBlock,(rival.produceBlock payer key 104 104).2.tipBlock]

def outgrown : Blockchain := (regrown.tryReorg rivals 110).2

theorem notarizeNames {tx : Transaction} (kind : tx.txType = .NOTARIZE) : Tokens.NamesToken tx := by
  rw [Tokens.NamesToken,kind]
  rintro (same | same) <;> cases same

theorem outgrownRuns : ((new (.memory [])).addBlock bareGenesis 100).1.Ended ∧
    (following.addBlock leading.tipBlock 103).1.Ended ∧ (followed.perform (.rollback 1)).1.Ended ∧
    (cutBack.addBlock leading.tipBlock 103).1.Ended ∧ (regrown.tryReorg rivals 110).1 = .accepted ∧
    (leading.tipBlock.index = 1 ∧ ∀ tx ∈ leading.tipBlock.transactions, tx.txType = .NOTARIZE) ∧
    (∀ fb ∈ rivals, fb.index ≠ 0 ∧ ∀ tx ∈ fb.transactions, tx.txType = .NOTARIZE) ∧
    regrown.height = 1 ∧ rival.tipBlock.index = 1 := by decide +kernel

theorem replayProtectedOutgrown : (regrown.tryReorg rivals 110).1 = .accepted ∧
    ∃ chain, outgrown.backend = .memory chain ∧ ReplaySafe chain outgrown := by
  obtain ⟨genesis,first,back,again,forked,⟨one,notes⟩,later,tall,low⟩ := outgrownRuns
  have tidy : Tidy bareGenesis := by
    refine ⟨fun tx inside => ?_,fun _ => List.nodup_singleton _⟩
    rw [List.mem_singleton.mp inside]
    rintro (same | same) <;> cases same
  have tidyFirst : Tidy leading.tipBlock := by
    refine ⟨fun tx inside => notarizeNames (notes tx inside),fun zero => ?_⟩
    rw [one] at zero
    cases zero
  have tidyFork : TidyFork regrown rivals := by
    refine ⟨fun fb inside => ⟨(later fb inside).1,fun tx listed => notarizeNames ((later fb inside).2 tx listed)⟩,
      fun above => ?_⟩
    have := above rival.tipBlock rfl
    omega
  have founded : Reached Careful (new (.memory [])) following := by
    rw [following]
    exact Reached.start.receive bareGenesis 100 tidy genesis
  have grown : Reached Careful (new (.memory [])) followed := by
    rw [followed]
    exact founded.receive leading.tipBlock 103 tidyFirst first
  have shortened : Reached Careful (new (.memory [])) cutBack := by
    rw [cutBack]
    exact grown.call (.rollback 1) trivial back
  have longer : Reached Careful (new (.memory [])) regrown := by
    rw [regrown]
    exact shortened.receive leading.tipBlock 103 tidyFirst again
  have last : Reached Careful (new (.memory [])) outgrown := by
    rw [outgrown]
    exact longer.reorg rivals 110 tidyFork (by rw [forked]; exact .accepted)
  exact ⟨forked,replayProtected outgrown last⟩

end Turning

end Devnet

end QbitNetwork
