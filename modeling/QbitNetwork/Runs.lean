import QbitNetwork.AppendLaws
import QbitNetwork.Chain
import Mathlib.Logic.Relation

/-! Accepted blocks, whichever way they come in, and the runs of a node. -/
namespace QbitNetwork

namespace Blockchain
variable [Env]

inductive Accepts (s : Blockchain) (block : Block) (s' : Blockchain) : Prop where
  | received (now : Int) (answer : s.addBlock block now = (.accepted,s')) : Accepts s block s'
  | produced (address : Address) (sk : Bytes) (now later : Int)
      (answer : s.produceBlock address sk now later = (.accepted,s'))
      (stored : s'.latestBlock = some block) : Accepts s block s'

inductive Built : Blockchain → Prop where
  | memory {validators : Dict Address Bytes} : Built (new (.memory []) validators)
  | sqlite {validators : Dict Address Bytes} : Built (new (.sqlite {}) validators)
  | initChain {s s' : Blockchain} (address : Address) (sk pk : Bytes) (now : Int) (prior : Built s)
      (run : s.initChain address sk pk now = .ok s') : Built s'
  | activate {s s' : Blockchain} (address : Address) (prior : Built s)
      (run : s.activateFinancialLayer address = .ok s') : Built s'
  | submit {s : Blockchain} (now : Int) (tx : Transaction) (prior : Built s) :
      Built (s.submitTx now tx).2
  | accept {s s' : Blockchain} (block : Block) (prior : Built s) (step : Accepts s block s') :
      Built s'

inductive Advance (meets : Blockchain → Block → Prop) (s : Blockchain) : Blockchain → Prop where
  | submit (now : Int) (tx : Transaction) : Advance meets s (s.submitTx now tx).2
  | accept {s' : Blockchain} (block : Block) (step : Accepts s block s') (met : meets s block) :
      Advance meets s s'

abbrev Runs (meets : Blockchain → Block → Prop) : Blockchain → Blockchain → Prop :=
  Relation.ReflTransGen (Advance meets)

theorem submitState (s : Blockchain) (now : Int) (tx : Transaction) :
    (s.submitTx now tx).2.state = s.state := by
  unfold submitTx
  split <;> rfl

theorem submitTip (s : Blockchain) (now : Int) (tx : Transaction) :
    (s.submitTx now tx).2.height = s.height ∧
      (s.submitTx now tx).2.latestBlock = s.latestBlock := by
  unfold submitTx
  split <;> exact ⟨rfl,rfl⟩

structure Coherent (s : Blockchain) : Prop where
  bounded : -1 ≤ s.height
  tip : ∀ block, s.latestBlock = some block → block.index = s.height

structure Grown (s : Blockchain) (block : Block) (s' : Blockchain) (c : ChainState) : Prop where
  applied : s.state.applyBlock block (s.height + 1) = .ok c
  ledger : s'.state.ledger = c.ledger
  tokens : s'.state.tokens = c.tokens
  staking : s'.state.staking = c.staking.pruneDistributions (pruneBefore (s.height + 1))
  index : SameIndex c.index s'.state.index
  latestBlock : s'.latestBlock = some block
  height : s'.height = s.height + 1
  chainNonces : s'.chainNonces = s.chainNonces
  genesisHash : s'.genesisHash = s.genesisHash
  sized : block.index ≠ 0 → sizeCheck block = .ok ()
  checked : block.index ≠ 0 → s.transactionsCheck block = .ok ()

theorem appendBlockOk {s s' : Blockchain} {block : Block} (run : s.appendBlock block = .ok s') :
    s.appendBlockInner block = .ok s' := by
  unfold appendBlock at run
  split at run
  · rename_i found
    cases run
    exact found
  · split at run <;> contradiction
  · contradiction

theorem replaceTipOk {s s' : Blockchain} {old block : Block}
    (run : s.replaceTip old block = .ok s') :
    ∃ backend blockByHash, s' = { s with backend, blockByHash, latestBlock := some block } := by
  simp only [replaceTip] at run
  split at run
  · cases run; exact ⟨_,_,rfl⟩
  · split at run
    · cases run; exact ⟨_,_,rfl⟩
    · contradiction

theorem validateBlockOk {s : Blockchain} {now : Int} {block : Block} {parent : Option Block}
    (later : block.index ≠ 0) (run : s.validateBlock now block parent = .ok ()) :
    ∃ above, parent = some above ∧ headerCheck block above now = .ok () ∧
      s.validatorCheck block above = .ok () ∧
      (dynamicActive block.index = true → dynamicFeeCheck block above = .ok ()) ∧
      sizeCheck block = .ok () ∧ s.transactionsCheck block = .ok () := by
  unfold validateBlock at run
  rw [if_neg later] at run
  split at run
  · contradiction
  · rename_i above
    simp only [Outcome.bindOk] at run
    obtain ⟨_,header,_,validator,run⟩ := run
    refine ⟨above,rfl,header,validator,?_⟩
    split at run
    · simp only [Outcome.bindOk] at run
      obtain ⟨_,fees,_,size,txs⟩ := run
      exact ⟨fun _ => fees,size,txs⟩
    · rename_i legacy
      obtain ⟨_,size,txs⟩ := Outcome.bindOk .. |>.mp run
      exact ⟨fun dynamic => absurd dynamic legacy,size,txs⟩

theorem addBlockOk {s s' : Blockchain} {block : Block} {now : Int}
    (answer : s.addBlock block now = (.accepted,s')) :
    block.index = s.height + 1 ∧
      s.validateBlock now block (if 0 < block.index then s.latestBlock else none) = .ok () ∧
      ∃ t, s.appendBlockInner block = .ok t ∧ s' = t.drainPool block := by
  simp only [addBlock] at answer
  split at answer
  · simp at answer
  · split at answer
    · rename_i position
      split at answer
      · rename_i halt refused
        cases halt <;> simp [Halt.reply] at answer
      · rename_i valid
        split at answer
        · simp at answer
        · split at answer
          · rename_i t appended
            refine ⟨position,valid,t,appendBlockOk appended,?_⟩
            simpa using answer.symm
          · simp at answer
          · simp at answer
    · split at answer <;> simp at answer

theorem addBlockAppends {s s' : Blockchain} {block : Block} {now : Int}
    (answer : s.addBlock block now = (.accepted,s')) :
    ∃ t, s.appendBlockInner block = .ok t := by
  obtain ⟨-,-,t,appended,-⟩ := addBlockOk answer
  exact ⟨t,appended⟩

theorem addBlockGrown {s s' : Blockchain} {block : Block} {now : Int}
    (answer : s.addBlock block now = (.accepted,s')) : ∃ c, Grown s block s' c := by
  obtain ⟨-,valid,t,appended,rfl⟩ := addBlockOk answer
  obtain ⟨c,grown⟩ := appendInnerOk appended
  refine ⟨c,grown.applied,grown.ledger,grown.tokens,grown.staking,grown.index,grown.latestBlock,
    grown.height,grown.chainNonces,grown.genesisHash,?_,?_⟩
  · intro later
    obtain ⟨_,-,-,-,-,size,-⟩ := validateBlockOk later valid
    exact size
  · intro later
    obtain ⟨_,-,-,-,-,-,txs⟩ := validateBlockOk later valid
    exact txs

theorem stampedApplies (s : ChainState) (block : Block) (idx : Int) (stateRoot receiptsRoot : String)
    (sk : Bytes) :
    s.applyBlock (stampedBlock block stateRoot receiptsRoot sk) idx = s.applyBlock block idx := rfl

theorem stampedIndex (block : Block) (stateRoot receiptsRoot : String) (sk : Bytes) :
    (stampedBlock block stateRoot receiptsRoot sk).index = block.index := rfl

theorem stampedSize (block : Block) (stateRoot receiptsRoot : String) (sk : Bytes) :
    sizeCheck (stampedBlock block stateRoot receiptsRoot sk) = sizeCheck block := rfl

theorem stampedChecks (s : Blockchain) (block : Block) (stateRoot receiptsRoot : String)
    (sk : Bytes) :
    s.transactionsCheck (stampedBlock block stateRoot receiptsRoot sk) = s.transactionsCheck block :=
  rfl

theorem produceBlockOk {s s' : Blockchain} {address : Address} {sk : Bytes} {now later : Int}
    (answer : s.produceBlock address sk now later = (.accepted,s')) :
    0 ≤ s.height ∧ ∃ parent draft t u, s.latestBlock = some parent ∧
      draft = s.draftBlock parent address sk now ∧
      s.validateBlock later draft (some parent) = .ok () ∧ s.appendBlockInner draft = .ok t ∧
      t.replaceTip draft (stampedBlock draft (t.lastComputedStateRoot.getD t.stateRoot.1)
        t.lastComputedReceiptsRoot sk) = .ok u ∧
      s' = u.drainPool (stampedBlock draft (t.lastComputedStateRoot.getD t.stateRoot.1)
        t.lastComputedReceiptsRoot sk) := by
  unfold produceBlock at answer
  split at answer
  · simp at answer
  · rename_i started
    refine ⟨by omega,?_⟩
    split at answer
    · simp at answer
    · rename_i parent tip
      split at answer
      · simp at answer
      · split at answer
        · simp at answer
        · split at answer
          · simp at answer
          · dsimp only at answer
            split at answer
            · simp at answer
            · split at answer
              · rename_i halt refused
                cases halt <;> simp [Halt.reply] at answer
              · rename_i valid
                split at answer
                · simp at answer
                · rename_i t appended
                  split at answer
                  · simp at answer
                  · rename_i u replaced
                    refine ⟨parent,_,t,u,tip,rfl,valid,appendBlockOk appended,replaced,?_⟩
                    simpa using answer.symm

theorem produceBlockGrown {s s' : Blockchain} {address : Address} {sk : Bytes} {now later : Int}
    (answer : s.produceBlock address sk now later = (.accepted,s')) :
    ∃ block c, s'.latestBlock = some block ∧ Grown s block s' c ∧
      ∃ parent, s.latestBlock = some parent ∧ block.index = parent.index + 1 := by
  obtain ⟨-,parent,draft,t,u,tip,drafted,valid,appended,replaced,rfl⟩ := produceBlockOk answer
  obtain ⟨c,grown⟩ := appendInnerOk appended
  obtain ⟨backend,blockByHash,rfl⟩ := replaceTipOk replaced
  have position : draft.index = parent.index + 1 := by rw [drafted]; rfl
  refine ⟨_,c,rfl,⟨?_,grown.ledger,grown.tokens,grown.staking,grown.index,rfl,
    grown.height,grown.chainNonces,grown.genesisHash,?_,?_⟩,parent,tip,?_⟩
  · rw [stampedApplies]
    exact grown.applied
  · rw [stampedIndex,stampedSize]
    intro later
    obtain ⟨_,-,-,-,-,size,-⟩ := validateBlockOk later valid
    exact size
  · rw [stampedIndex,stampedChecks]
    intro later
    obtain ⟨_,-,-,-,-,-,txs⟩ := validateBlockOk later valid
    exact txs
  · rw [stampedIndex,position]

theorem acceptsGrown {s s' : Blockchain} {block : Block} (step : Accepts s block s') :
    ∃ c, Grown s block s' c := by
  cases step with
  | received now answer => exact addBlockGrown answer
  | produced address sk now later answer stored =>
    obtain ⟨made,c,tip,grown,-⟩ := produceBlockGrown answer
    rw [stored] at tip
    cases tip
    exact ⟨c,grown⟩

theorem acceptsPosition {s s' : Blockchain} {block : Block} (coherent : Coherent s)
    (step : Accepts s block s') : block.index = s.height + 1 := by
  cases step with
  | received now answer => exact (addBlockOk answer).1
  | produced address sk now later answer stored =>
    obtain ⟨made,c,tip,-,parent,above,position⟩ := produceBlockGrown answer
    rw [stored] at tip
    cases tip
    rw [position,coherent.tip parent above]

theorem acceptsCoherent {s s' : Blockchain} {block : Block} (coherent : Coherent s)
    (step : Accepts s block s') : Coherent s' := by
  obtain ⟨c,grown⟩ := acceptsGrown step
  constructor
  · rw [grown.height]
    have := coherent.bounded
    omega
  · intro tip found
    rw [grown.latestBlock] at found
    cases found
    rw [acceptsPosition coherent step,grown.height]

theorem initChainCoherent {s s' : Blockchain} {address : Address} {sk pk : Bytes} {now : Int}
    (before : Coherent s) (run : s.initChain address sk pk now = .ok s') : Coherent s' := by
  unfold initChain at run
  split at run
  · cases run; exact before
  · rename_i empty
    simp only [Outcome.bindOk] at run
    obtain ⟨t,appended,u,replaced,run⟩ := run
    cases run
    obtain ⟨c,grown⟩ := appendInnerOk (appendBlockOk appended)
    obtain ⟨backend,blockByHash,rfl⟩ := replaceTipOk replaced
    have height : s.height + 1 = 0 := by have := before.bounded; omega
    have kept : ∀ t : Blockchain, (t.stateRoot.2).height = t.height := fun _ => rfl
    have staked : (if pk.isEmpty then t else t.autoStake address).height = t.height := by
      split <;> rfl
    constructor
    · simp only [kept,staked,grown.height]; omega
    · intro tip found
      cases found
      simp only [kept,staked,grown.height,height]
      rfl

omit [Env] in
theorem activateKeeps {s s' : Blockchain} {address : Address}
    (run : s.activateFinancialLayer address = .ok s') :
    s'.height = s.height ∧ s'.latestBlock = s.latestBlock ∧ s'.chainNonces = s.chainNonces ∧
      s'.genesisHash = s.genesisHash ∧ s'.finalizedHeight = s.finalizedHeight ∧
      s'.state.index = s.state.index ∧ s'.state.staking = s.state.staking ∧
      s'.state.tokens = s.state.tokens ∧ s'.backend.stored = s.backend.stored := by
  unfold activateFinancialLayer at run
  split at run
  · cases run; exact ⟨rfl,rfl,rfl,rfl,rfl,rfl,rfl,rfl,rfl⟩
  · dsimp only at run
    split at run
    · simp only [allocateGenesis,Outcome.bindOk,Outcome.withinOk] at run
      obtain ⟨_,⟨_,⟨ledger,paid,rfl⟩,run'⟩,t,rebuilt,run⟩ := run
      cases run'
      obtain ⟨trie,built,rfl⟩ := rebuildStateTrieOk rebuilt
      cases run
      have stored := fun (s : Blockchain) (f : Store → Store)
        (kept : ∀ d, Store.Keeps d (f d)) => Backend.storedMapStore f s.backend kept
      split
      · exact ⟨rfl,rfl,rfl,rfl,rfl,rfl,rfl,rfl,stored _ _ (fun d => Store.keepsRefl d)⟩
      · exact ⟨rfl,rfl,rfl,rfl,rfl,rfl,rfl,rfl,stored _ _ (fun d => Store.keepsRefl d)⟩
    · simp only [Outcome.bindOk] at run
      obtain ⟨_,same,t,rebuilt,run⟩ := run
      cases same
      obtain ⟨trie,built,rfl⟩ := rebuildStateTrieOk rebuilt
      cases run
      split <;> exact ⟨rfl,rfl,rfl,rfl,rfl,rfl,rfl,rfl,rfl⟩

theorem builtCoherent {s : Blockchain} (built : Built s) : Coherent s := by
  induction built with
  | memory => exact ⟨show (-1 : Int) ≤ -1 by decide,by simp [new]⟩
  | sqlite => exact ⟨show (-1 : Int) ≤ -1 by decide,by simp [new]⟩
  | initChain address sk pk now prior run ih => exact initChainCoherent ih run
  | activate address prior run ih =>
    obtain ⟨height,tip,-⟩ := activateKeeps run
    exact ⟨height ▸ ih.bounded,by rw [height,tip]; exact ih.tip⟩
  | @submit s now tx prior ih =>
    obtain ⟨height,tip⟩ := submitTip s now tx
    exact ⟨height ▸ ih.bounded,by rw [height,tip]; exact ih.tip⟩
  | accept block prior step ih => exact acceptsCoherent ih step

inductive BuiltBy (meets : Blockchain → Block → Prop) : Blockchain → Prop where
  | memory {validators : Dict Address Bytes} : BuiltBy meets (new (.memory []) validators)
  | sqlite {validators : Dict Address Bytes} : BuiltBy meets (new (.sqlite {}) validators)
  | initChain {s s' : Blockchain} (address : Address) (sk pk : Bytes) (now : Int)
      (prior : BuiltBy meets s) (run : s.initChain address sk pk now = .ok s') : BuiltBy meets s'
  | activate {s s' : Blockchain} (address : Address) (prior : BuiltBy meets s)
      (run : s.activateFinancialLayer address = .ok s') : BuiltBy meets s'
  | submit {s : Blockchain} (now : Int) (tx : Transaction) (prior : BuiltBy meets s) :
      BuiltBy meets (s.submitTx now tx).2
  | accept {s s' : Blockchain} (block : Block) (prior : BuiltBy meets s) (step : Accepts s block s')
      (met : meets s block) : BuiltBy meets s'

theorem BuiltBy.built {meets : Blockchain → Block → Prop} {s : Blockchain}
    (builtBy : BuiltBy meets s) : Built s := by
  induction builtBy with
  | memory => exact .memory
  | sqlite => exact .sqlite
  | initChain address sk pk now _ run ih => exact .initChain address sk pk now ih run
  | activate address _ run ih => exact .activate address ih run
  | submit now tx _ ih => exact .submit now tx ih
  | accept block _ step _ ih => exact .accept block ih step

theorem initChainOk {s s' : Blockchain} {address : Address} {sk pk : Bytes} {now : Int}
    (fresh : s.height < 0) (run : s.initChain address sk pk now = .ok s') :
    ∃ key genesis t staked backend blockByHash stamped,
      key = (if pk.isEmpty then s.state.staking.validators.getD address [] else pk) ∧
      genesis = (Block.genesis address
        (if key.isEmpty then [] else [registration address sk key now]) now).sign sk ∧
      s.appendBlockInner genesis = .ok t ∧
      staked = (if pk.isEmpty then t else t.autoStake address) ∧
      stamped = stampedBlock genesis staked.stateRoot.1 staked.lastComputedReceiptsRoot sk ∧
      s' = { staked.stateRoot.2 with
        backend, blockByHash, latestBlock := some stamped, genesisHash := stamped.blockHash } := by
  unfold initChain at run
  rw [if_neg (by omega)] at run
  simp only [Outcome.bindOk] at run
  obtain ⟨t,appended,u,replaced,run⟩ := run
  cases run
  obtain ⟨backend,blockByHash,rfl⟩ := replaceTipOk replaced
  exact ⟨_,_,t,_,backend,blockByHash,_,rfl,rfl,appendBlockOk appended,rfl,rfl,rfl⟩

theorem builtClean {s : Blockchain} (built : Built s) :
    s.height < 0 → s.state.staking = { validators := s.state.staking.validators } := by
  induction built with
  | memory => exact fun _ => rfl
  | sqlite => exact fun _ => rfl
  | @initChain s s' address sk pk now prior run ih =>
    intro low
    have bounded := (builtCoherent prior).bounded
    by_cases fresh : s.height < 0
    · obtain ⟨_,_,t,staked,_,_,_,-,-,appended,same,-,rfl⟩ := initChainOk fresh run
      obtain ⟨c,grown⟩ := appendInnerOk appended
      have height : staked.height = t.height := by rw [same]; split <;> rfl
      simp only [stateRoot,withTrie,height,grown.height] at low
      omega
    · unfold initChain at run
      rw [if_pos (by omega)] at run
      cases run
      exact ih low
  | activate address prior run ih =>
    obtain ⟨height,-,-,-,-,-,staking,-⟩ := activateKeeps run
    rw [height,staking]
    exact ih
  | @submit s now tx prior ih =>
    rw [(submitTip s now tx).1,submitState]
    exact ih
  | @accept s s' block prior step ih =>
    obtain ⟨c,grown⟩ := acceptsGrown step
    have bounded := (builtCoherent prior).bounded
    intro low
    rw [grown.height] at low
    omega

theorem Runs.built {meets : Blockchain → Block → Prop} {s s' : Blockchain} (start : Built s)
    (run : Runs meets s s') : Built s' := by
  induction run with
  | refl => exact start
  | tail _ step ih =>
    cases step with
    | submit now tx => exact .submit now tx ih
    | accept block step _ => exact .accept block ih step

omit [Env] in
theorem okState {x : Except (Fault Blockchain) Blockchain} (returned : x.isOk = true) :
    x = .ok (Outcome.stateOf x) := by
  cases x with
  | ok s => rfl
  | error r => cases returned

omit [Env] in
theorem acceptedState {x : Reply × Blockchain} (answer : x.1 = .accepted) : x = (.accepted,x.2) := by
  rw [← answer]

def tipBlock (s : Blockchain) : Block := s.latestBlock.getD (Block.genesis "" [] 0)

omit [Env] in
theorem tipStored {s : Blockchain} (stored : s.latestBlock.isSome = true) :
    s.latestBlock = some s.tipBlock := by
  obtain ⟨block,found⟩ := Option.isSome_iff_exists.mp stored
  rw [tipBlock,found]
  rfl

theorem producedAccepts {s s' : Blockchain} {address : Address} {sk : Bytes} {now later : Int}
    (made : s' = (s.produceBlock address sk now later).2)
    (answer : (s.produceBlock address sk now later).1 = .accepted)
    (tip : s'.latestBlock.isSome = true) : Accepts s s'.tipBlock s' :=
  .produced address sk now later (made ▸ acceptedState answer) (tipStored tip)

theorem receivedAccepts {s s' : Blockchain} {block : Block} {now : Int}
    (made : s' = (s.addBlock block now).2)
    (answer : (s.addBlock block now).1 = .accepted) : Accepts s block s' :=
  .received now (made ▸ acceptedState answer)

end Blockchain

/-! A network on which a run can be computed: keys are their own secret, and a signature is
the key with the hash of what it signs. -/
namespace Devnet

def hash (data : Bytes) : Bytes :=
  let n := data.foldl (fun acc b => (acc * 1000003 + b.toNat + 1) % 2 ^ 256) 7
  (List.range 32).map (fun i => UInt8.ofNat (n / 256 ^ (31 - i) % 256))

def quietKey : Bytes := [2]

@[reducible] def env (feeHeight : Int) : Env where
  sha3_256 := hash
  sha3_256Length := by intro data; simp [hash]
  mldsaSign := fun sk message => sk ++ hash message
  mldsaVerify := fun pk message signature =>
    signature == pk ++ hash message && hash pk != hash quietKey
  dynamicFeeActivationHeight := feeHeight

theorem signatureVerifies (feeHeight : Int) {key : Bytes} (message : Bytes) (nonempty : key ≠ [])
    (loud : hash key ≠ hash quietKey) :
    @verifySig (env feeHeight) key message ((env feeHeight).mldsaSign key message) = true := by
  cases key with
  | nil => contradiction
  | cons b rest =>
    show (true && true && (b :: rest ++ hash message == b :: rest ++ hash message &&
      hash (b :: rest) != hash quietKey)) = true
    simpa using loud

@[reducible] def legacy : Env := env 1000000

section Legacy
attribute [local instance] legacy

def key : Bytes := [1]

def address : Address := deriveAddress key

def genesis : Blockchain :=
  Outcome.stateOf ((Blockchain.new (.memory [])).initChain address key key 100)

def active : Blockchain := Outcome.stateOf (genesis.activateFinancialLayer address)

theorem genesisRuns :
    (Blockchain.new (.memory [])).initChain address key key 100 = .ok genesis :=
  Blockchain.okState (by decide +kernel)

theorem activeRuns : genesis.activateFinancialLayer address = .ok active :=
  Blockchain.okState (by decide +kernel)

def storedSignature : Bytes :=
  [1,42,197,230,133,219,136,84,63,190,253,190,121,89,218,227,237,65,137,13,45,122,230,167,160,0,59,177,
   238,174,3,146,171]

def storedGenesis : Block :=
  { Block.genesis address [Blockchain.registration address key key 100] 100 with
    signature := storedSignature
    stateRoot := active.tipBlock.stateRoot
    receiptsRoot := active.tipBlock.receiptsRoot }

theorem genesisStored : genesis.tipBlock = storedGenesis ∧ active.tipBlock = storedGenesis := by decide +kernel

theorem activeStored : active.tipBlock = storedGenesis := genesisStored.2

theorem activeBuilt : Blockchain.Built active :=
  .activate address (.initChain address key key 100 .memory genesisRuns) activeRuns

def notarization (nonce : Int) : Transaction :=
  Transaction.sign
    { txType := .NOTARIZE
      sender := address
      payload := { documentHash := some "ab" }
      timestamp := 101
      nonce } key key

def notarizing : Blockchain := (active.submitTx 101 (notarization 0)).2

def notarized : Blockchain := (notarizing.produceBlock address key 102 102).2

theorem notarizingBuilt : Blockchain.Built notarizing := .submit 101 (notarization 0) activeBuilt

theorem notarizes : Blockchain.Accepts notarizing notarized.tipBlock notarized ∧
    notarized.tipBlock.transactions = [notarization 0] := by
  have run : (notarizing.produceBlock address key 102 102).1 = .accepted ∧
      notarized.latestBlock.isSome = true ∧
      notarized.tipBlock.transactions = [notarization 0] := by decide +kernel
  exact ⟨Blockchain.producedAccepts (by rw [notarized]) run.1 run.2.1,run.2.2⟩

theorem notarizedRun {meets : Blockchain → Block → Prop} (met : meets notarizing notarized.tipBlock) :
    Blockchain.Runs meets active notarized := by
  have submitted : Blockchain.Runs meets active notarizing := by
    rw [notarizing]
    exact .single (.submit 101 (notarization 0))
  exact submitted.tail (.accept _ notarizes.1 met)

end Legacy

def signedNote [Env] (sk : Bytes) (timestamp : Int) : Transaction :=
  Transaction.sign
    { txType := .NOTARIZE
      sender := deriveAddress sk
      payload := { documentHash := some "ab" }
      timestamp } sk sk

section Turning
open Blockchain

def briefHash (data : Bytes) : Bytes :=
  let n := data.foldl (fun acc b => acc * 3 + b.toNat) 7
  [UInt8.ofNat (n / 65536),UInt8.ofNat (n / 256),UInt8.ofNat n] ++ List.replicate 29 0

@[reducible] def brief (feeHeight : Int) : Env where
  sha3_256 := briefHash
  sha3_256Length := by intro data; simp [briefHash]
  mldsaSign := fun sk message => sk ++ briefHash message
  mldsaVerify := fun pk message signature => signature == pk ++ briefHash message
  dynamicFeeActivationHeight := feeHeight

@[reducible] def turning : Env := brief 2

attribute [local instance] turning

def purseKey : Bytes := [3]

def payer : Address := deriveAddress key

def purse : Address := deriveAddress purseKey

def launched : Blockchain := Outcome.stateOf ((new (.memory [])).initChain payer key key 100)

def endowed : Blockchain := Outcome.stateOf (launched.activateFinancialLayer payer)

def payment : Transaction :=
  Transaction.sign
    { txType := .TRANSFER
      sender := payer
      recipient := purse
      payload := { amount := some 2000000000 }
      timestamp := 101 } key key

def withdrawal (nonce : Int) : Transaction :=
  Transaction.sign
    { txType := .UNSTAKE
      sender := payer
      payload := { amount := some 1, validatorAddress := some payer }
      timestamp := 101
      nonce } key key

def repayment : Transaction :=
  Transaction.sign
    { txType := .TRANSFER
      sender := purse
      recipient := payer
      payload := { amount := some 5 }
      timestamp := 103
      maxFeePerWeight := 20
      maxPriorityFee := 3 } purseKey purseKey

def remitting : Blockchain := (endowed.submitTx 101 payment).2

def trading : Blockchain := (remitting.submitTx 101 (withdrawal 1)).2

def traded : Blockchain := (trading.produceBlock payer key 102 102).2

def repaying : Blockchain := (traded.submitTx 103 repayment).2

def repaid : Blockchain := (repaying.produceBlock payer key 104 104).2

theorem endowedRuns : (new (.memory [])).initChain payer key key 100 = .ok launched ∧
    launched.activateFinancialLayer payer = .ok endowed :=
  ⟨okState (by decide +kernel),okState (by decide +kernel)⟩

theorem endowedBuilt : Built endowed :=
  .activate payer (.initChain payer key key 100 .memory endowedRuns.1) endowedRuns.2

theorem tradingBuilt : Built trading := by
  rw [trading,remitting]
  exact .submit 101 (withdrawal 1) (.submit 101 payment endowedBuilt)

theorem trades : Accepts trading traded.tipBlock traded ∧
    traded.tipBlock.transactions = [payment,withdrawal 1] ∧
    Accepts repaying repaid.tipBlock repaid ∧ repaid.tipBlock.transactions = [repayment] := by
  have run : (trading.produceBlock payer key 102 102).1 = .accepted ∧ traded.latestBlock.isSome = true ∧
      traded.tipBlock.transactions = [payment,withdrawal 1] ∧
      (repaying.produceBlock payer key 104 104).1 = .accepted ∧ repaid.latestBlock.isSome = true ∧
      repaid.tipBlock.transactions = [repayment] := by decide +kernel
  obtain ⟨first,made,transactions,second,tip,later⟩ := run
  exact ⟨producedAccepts (by rw [traded]) first made,transactions,
    producedAccepts (by rw [repaid]) second tip,later⟩

theorem repayingBuilt : Built repaying := by
  rw [repaying]
  exact .submit 103 repayment (.accept _ tradingBuilt trades.1)

end Turning

end Devnet

end QbitNetwork
