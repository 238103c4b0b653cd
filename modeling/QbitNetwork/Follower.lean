import QbitNetwork.Execution
import QbitNetwork.JsonText
import QbitNetwork.Solvency

/-! A joining node: the blocks of one node's chain fed in order to another. -/
namespace QbitNetwork

namespace Backend

inductive Blank : Backend → Prop where
  | memory : Blank (.memory [])
  | sqlite : Blank (.sqlite {})

end Backend

namespace Blockchain
variable [Env]

inductive Produces : Blockchain → List Block → Blockchain → Prop where
  | done (s : Blockchain) : Produces s [] s
  | submit {s t : Blockchain} {blocks : List Block} (now : Int) (tx : Transaction)
      (later : Produces (s.submitTx now tx).2 blocks t) : Produces s blocks t
  | produce {s t u : Blockchain} {blocks : List Block} (address : Address) (sk : Bytes)
      (now later : Int) (block : Block)
      (answer : s.produceBlock address sk now later = (.accepted,t))
      (stored : t.latestBlock = some block) (rest : Produces t blocks u) : Produces s (block :: blocks) u

def follow (clock : Block → Int) (s : Blockchain) (blocks : List Block) : Option Blockchain :=
  blocks.foldlM (fun s block =>
    match s.addBlock block (clock block) with
    | (.accepted,s) => some s
    | _ => none) s

structure Agrees (s u : Blockchain) : Prop where
  balances : ∀ a, u.getBalance a = s.getBalance a
  stakes : u.state.staking.stakes = s.state.staking.stakes
  totals : u.state.staking.totalStake = s.state.staking.totalStake
  validators : u.getActiveValidators = s.getActiveValidators
  tokens : u.state.tokens = s.state.tokens
  nonces : ∀ a, u.getNonce a = s.getNonce a
  root : u.stateRoot.1 = s.stateRoot.1

section Enrolment

def Enrols (txs : List Transaction) : Prop :=
  txs = [] ∨ ∃ address sk key now, txs = [registration address sk key now]

def enrolmentReceipts (block : Block) : List Receipt :=
  block.transactions.zipIdx.map (fun row =>
    receiptOf 0 ∅ ⟨row.2,row.1.txId,0,({} : ChainState).buildTxEvents row.1⟩)

theorem registrationApplies (block : Block) (s : ChainState) (address : Address) (sk key : Bytes) (now : Int) (i : Nat) :
    ∃ s', s.applyTx block 0 (registration address sk key now,i) = .ok s' := by
  have registered (k : Staking) : ∃ k', k.registerValidator (registration address sk key now).payload = .ok k' := by
    have read : fromHex ((registration address sk key now).payload.validatorPubkey.getD "") = some key :=
      Json.fromHexHex key
    simp only [Staking.registerValidator,read]
    split
    · exact ⟨_,rfl⟩
    · split <;> exact ⟨_,rfl⟩
  obtain ⟨k',staked⟩ := registered s.staking
  simp only [ChainState.applyTx,ChainState.chargeTx,Outcome.bindOk,Outcome.withinOk]
  rw [if_neg (fun later => absurd later.1 (Int.lt_irrefl 0))]
  refine ⟨_,_,rfl,_,⟨k',staked,rfl⟩,s.tokens,?_,rfl⟩
  rw [Tokens.applyTx]
  split <;> rfl

theorem executeEnrolled (validators : Dict Address Bytes) {block : Block} (enrols : Enrols block.transactions) :
    ∃ after, ({ staking := { validators } } : ChainState).execute block 0 =
      some (after,enrolmentReceipts block) := by
  have opening : ({ staking := { validators } } : ChainState).openBlock 0 =
      .ok { staking := ({ validators } : Staking).enterEpoch 0 } := rfl
  rcases enrols with bare | ⟨address,sk,key,now,single⟩
  · refine ⟨_,executeOk.mpr ⟨_,_,opening,by rw [bare]; rfl,rfl,?_⟩⟩
    rw [enrolmentReceipts,bare]
    rfl
  · obtain ⟨after,applied⟩ := registrationApplies block { staking := ({ validators } : Staking).enterEpoch 0 } address sk key now 0
    refine ⟨after,executeOk.mpr ⟨_,⟨after,[⟨0,(registration address sk key now).txId,0,
      after.buildTxEvents (registration address sk key now)⟩],∅⟩,opening,?_,rfl,?_⟩⟩
    · rw [single]
      simp only [List.zipIdx_cons,List.zipIdx_nil,List.foldlM_cons,List.foldlM_nil,Execution.applyTx,applied]
      rfl
    · rw [enrolmentReceipts,single]
      rfl

theorem blankStorable {backend : Backend} (blank : backend.Blank) (validators : Dict Address Bytes) (block : Block) :
    (new backend validators).Storable block := by
  cases blank with
  | memory => trivial
  | sqlite => exact ⟨Std.ExtTreeMap.not_mem_empty,rfl⟩

end Enrolment

section Foundation
variable {backend : Backend} {validators : Dict Address Bytes} {address account : Address} {sk pk : Bytes} {now : Int}
  {g s : Blockchain}

def endowment (account : Address) : Int :=
  if account = "" then 0 else genesisBalanceQbit * qubitPerQbit

structure Founded (address account : Address) (pk : Bytes) (block : Block) (s : Blockchain) : Prop where
  index : block.index = 0
  enrols : Enrols block.transactions
  latestBlock : s.latestBlock = some block
  height : s.height = 0
  active : s.financialActive = true
  minted : s.state.ledger.totalMinted = endowment account
  balances : ∀ a, s.getBalance a = if a = account then endowment account else 0
  staked : pk ≠ [] → s.state.staking.stakes.get (address,address) = minStake

omit [Env] in
theorem activateLedger (blank : g.state.ledger = {}) (run : g.activateFinancialLayer account = .ok s) :
    s.state.ledger.financialActive = true ∧ s.state.ledger.totalMinted = endowment account ∧
      ∀ a, s.state.ledger.getBalance a = if a = account then endowment account else 0 := by
  have idle : g.financialActive = false := by rw [financialActive,blank]
  unfold activateFinancialLayer at run
  rw [idle] at run
  dsimp only at run
  rw [if_neg Bool.false_ne_true] at run
  split at run
  · rename_i paying
    simp only [allocateGenesis,Outcome.bindOk,Outcome.withinOk] at run
    obtain ⟨_,⟨_,⟨ledger,paid,rfl⟩,run'⟩,t,rebuilt,run⟩ := run
    cases run'
    obtain ⟨trie,built,rfl⟩ := rebuildStateTrieOk rebuilt
    obtain ⟨-,moved⟩ := Ledger.creditMoved paid
    have state : s.state.ledger = ledger.mint (genesisBalanceQbit * qubitPerQbit) := by
      cases run
      split <;> rfl
    have given : endowment account = genesisBalanceQbit * qubitPerQbit := if_neg paying.1
    rw [state,given]
    refine ⟨moved.active,?_,fun a => ?_⟩
    · simp only [Ledger.mint,moved.minted,withState,blank,zero_add]
    · have balance := moved.balance a
      simp only [withState,blank] at balance
      exact balance.trans (Int.zero_add _)
  · rename_i unpaid
    simp only [Outcome.bindOk] at run
    obtain ⟨_,same,t,rebuilt,run⟩ := run
    cases same
    obtain ⟨trie,built,rfl⟩ := rebuildStateTrieOk rebuilt
    have state : s.state.ledger = { financialActive := true } := by
      cases run
      rw [show ({ financialActive := true } : Ledger) =
        { g.state.ledger with financialActive := true } from by rw [blank]]
      split <;> rfl
    have none : account = "" := by
      by_contra named
      refine unpaid ⟨named,?_⟩
      simp only [getBalance,withState,blank]
      rfl
    rw [state,endowment,if_pos none]
    exact ⟨rfl,rfl,fun a => by split <;> rfl⟩

theorem founded (genesis : (new backend validators).initChain address sk pk now = .ok g)
    (run : g.activateFinancialLayer account = .ok s) : ∃ block, Founded address account pk block s := by
  obtain ⟨key,first,t,staked,_,_,block,-,made,appended,staking,stamped,rfl⟩ :=
    initChainOk (s := new backend validators) (Int.negSucc_lt_zero 0) genesis
  obtain ⟨c,grown⟩ := appendInnerOk appended
  have ledger : t.state.ledger = {} := by rw [grown.ledger,ChainState.applyBlockIdle rfl grown.applied]; rfl
  have kept : staked.state.ledger = t.state.ledger ∧ staked.height = t.height := by
    rw [staking]
    split <;> exact ⟨rfl,rfl⟩
  obtain ⟨height,tip,-,-,-,-,stakes,-⟩ := activateKeeps run
  have empty := kept.1.trans ledger
  obtain ⟨active,minted,balances⟩ := activateLedger (by exact empty) run
  refine ⟨block,?_,?_,tip,?_,active,minted,balances,fun known => ?_⟩
  · rw [stamped,stampedIndex,made]; rfl
  · rw [stamped,made]
    simp only [stampedBlock,Block.signTransactions,Block.genesis]
    split
    · exact .inl rfl
    · exact .inr ⟨_,_,_,_,rfl⟩
  · rw [height]
    exact kept.2.trans grown.height
  · have some : ¬pk.isEmpty = true := by simpa using known
    rw [stakes]
    simp only [staking,if_neg some,stateRoot,withTrie,autoStake,mapStore,withState,Table.getSet,if_true]

end Foundation

section Joining

structure Unfunded (s : ChainState) : Prop where
  ledger : s.ledger = {}
  nonces : s.index.senderNonce = .empty
  tokens : s.tokens = {}
  stakes : s.staking.stakes = .empty
  totals : s.staking.totalStake = .empty
  seats : s.staking.epochValidators = []

omit [Env] in
theorem registerStakes {k k' : Staking} {p : Payload} (run : k.registerValidator p = .ok k') :
    k'.stakes = k.stakes ∧ k'.totalStake = k.totalStake ∧ k'.epochValidators = k.epochValidators := by
  have commission : ∀ (k : Staking) (vaddr : Address) (rate : Option Int),
      (k.setCommission vaddr rate).stakes = k.stakes ∧ (k.setCommission vaddr rate).totalStake = k.totalStake ∧
        (k.setCommission vaddr rate).epochValidators = k.epochValidators := by
    intro k vaddr rate
    unfold Staking.setCommission
    repeat' split
    all_goals exact ⟨rfl,rfl,rfl⟩
  simp only [Staking.registerValidator] at run
  split at run
  · cases run; exact ⟨rfl,rfl,rfl⟩
  · split at run
    · cases run; exact commission ..
    · split at run
      · contradiction
      · cases run; exact commission ..

theorem registerUnfunded {block : Block} {s s' : ChainState} {row : Transaction × Nat}
    (kind : row.1.txType = .REGISTER_VALIDATOR) (unfunded : Unfunded s)
    (run : ChainState.applyTx block 0 s row = .ok s') : Unfunded s' := by
  simp only [ChainState.applyTx,Outcome.bindOk,Outcome.withinOk] at run
  obtain ⟨charged,charge,_,⟨staking,staked,rfl⟩,tokens,minted,rfl⟩ := run
  simp only [ChainState.chargeTx] at charge
  rw [if_neg (fun paying => absurd paying.1 (Int.lt_irrefl 0))] at charge
  cases charge
  simp only [Staking.applyTx,kind] at staked
  have same : tokens = s.tokens := by
    simp only [Tokens.applyTx,kind] at minted
    split at minted <;> exact (Except.ok.inj minted).symm
  obtain ⟨stakes,totals,seats⟩ := registerStakes staked
  refine ⟨unfunded.ledger,?_,same.trans unfunded.tokens,stakes.trans unfunded.stakes,totals.trans unfunded.totals,
    seats.trans unfunded.seats⟩
  simp only [Index.applyTx,kind,Index.recordTx,Index.raiseNonce]
  rw [if_neg (fun later => absurd later.1 (Int.lt_irrefl 0))]
  exact unfunded.nonces

theorem genesisUnfunded {validators : Dict Address Bytes} {block : Block} {c : ChainState}
    (enrols : Enrols block.transactions)
    (run : ({ staking := { validators } } : ChainState).applyBlock block 0 = .ok c) : Unfunded c := by
  simp only [ChainState.applyBlock,Outcome.bindOk] at run
  obtain ⟨opened,opening,looped,loop,reward⟩ := run
  cases opening
  cases reward
  refine Outcome.foldInvariantMem Unfunded (fun s row inside s' unfunded step => ?_) ⟨rfl,rfl,rfl,rfl,rfl,rfl⟩ loop
  refine registerUnfunded ?_ unfunded step
  have listed := List.fst_mem_of_mem_zipIdx inside
  rcases enrols with bare | ⟨address,sk,key,now,single⟩
  · rw [bare] at listed
    cases listed
  · rw [single] at listed
    rw [List.mem_singleton.mp listed]
    rfl

omit [Env] in
theorem unfundedEntries {s : ChainState} (balances : s.ledger.balances = ∅)
    (nonces : s.index.senderNonce = .empty) (tokens : s.tokens = {}) : s.entriesOf = ∅ := by
  simp only [ChainState.entriesOf,ChainState.stateRows,ChainState.balanceRows,ChainState.nonceRows,
    ChainState.tokenRows,balances,nonces,tokens]
  rfl

structure Joined (s : Blockchain) : Prop where
  unfunded : Unfunded s.state
  height : s.height = 0
  latest : s.trie.clearEntries.Fresh
  fresh : s.trie.Fresh
  empty : s.trie.entries = ∅

theorem genesisJoined {backend : Backend} {validators : Dict Address Bytes} {block : Block} {t : Blockchain}
    (enrols : Enrols block.transactions) (run : (new backend validators).appendBlockInner block = .ok t) : Joined t := by
  obtain ⟨c,built,appended,committed⟩ := appendInnerCommitted run
  have unfunded := genesisUnfunded enrols appended.applied
  have empty : built.entries = ∅ := by
    rw [ChainState.rebuildEntries committed.rebuilt,
      unfundedEntries (by rw [unfunded.ledger]) unfunded.nonces unfunded.tokens]
  have fresh : built.Fresh := (ChainState.rebuildWritten committed.rebuilt).fresh
    (StateTrie.dirtyFresh (t := (new backend validators).trie.clearEntries) rfl)
  have same : t.trie.clearEntries = t.trie := by
    rw [committed.trie,StateTrie.clearEntries,← empty,← StateTrie.rootEntries built]
  have latest : t.trie.Fresh := by
    rw [committed.trie]
    exact StateTrie.freshRoot fresh
  have nonces : t.state.index.senderNonce = c.index.senderNonce := by
    rw [show t.state.index = _ from appended.index]
  have pruned : t.state.staking.stakes = .empty ∧ t.state.staking.totalStake = .empty ∧
      t.state.staking.epochValidators = [] := by
    rw [appended.staking]
    exact ⟨unfunded.stakes,unfunded.totals,unfunded.seats⟩
  refine ⟨⟨appended.ledger.trans unfunded.ledger,nonces.trans unfunded.nonces,appended.tokens.trans unfunded.tokens,
    pruned.1,pruned.2.1,pruned.2.2⟩,appended.height,by rw [same]; exact latest,latest,?_⟩
  rw [committed.trie,StateTrie.rootEntries,empty]

theorem Joined.drain {s : Blockchain} (joined : Joined s) (block : Block) : Joined (s.drainPool block) :=
  ⟨joined.unfunded,joined.height,joined.latest,joined.fresh,joined.empty⟩

theorem addBlockClaims {s s' : Blockchain} {block : Block} {now : Int}
    (answer : s.addBlock block now = (.accepted,s')) (later : 0 < block.index) :
    block.stateRoot ≠ "" := by
  intro unclaimed
  simp only [addBlock] at answer
  split at answer
  · simp at answer
  · split at answer
    · split at answer
      · rename_i halt _
        cases halt <;> simp [Halt.reply] at answer
      · rw [if_pos ⟨later,unclaimed⟩] at answer
        simp at answer
    · split at answer <;> simp at answer

theorem joinedUnfunded {s s' : Blockchain} {block : Block} {now : Int} (joined : Joined s)
    (answer : s.addBlock block now = (.accepted,s')) :
    block.stateRoot = hex (StateTrie.computeRoot s'.trie.entries) ∧
      ∀ a, "balance:" ++ a ∉ s'.trie.entries := by
  obtain ⟨position,-,t,run,rfl⟩ := addBlockOk answer
  obtain ⟨c,built,appended,committed⟩ := appendInnerCommitted run
  have later : 0 < block.index := by have := joined.height; omega
  have fresh : built.Fresh := (ChainState.rebuildWritten committed.rebuilt).fresh joined.latest
  have entries : (t.drainPool block).trie.entries = built.entries := by
    rw [show (t.drainPool block).trie = t.trie from rfl,committed.trie,StateTrie.rootEntries]
  have idle : s.state.active = false := by rw [ChainState.active,joined.unfunded.ledger]
  have ledger := (ChainState.applyBlockIdle idle appended.applied).trans joined.unfunded.ledger
  constructor
  · rw [committed.claimed (addBlockClaims answer later),StateTrie.rootFresh fresh,entries]
  · intro a
    rw [entries,ChainState.rebuildEntries committed.rebuilt,ChainState.balanceKeys]
    rintro ⟨amount,-,found⟩
    simp [ledger] at found

end Joining

section Production
variable {backend : Backend} {validators : Dict Address Bytes} {address account : Address} {sk pk : Bytes} {now : Int}
  {first block : Block} {g s t e : Blockchain} {blocks : List Block}

structure Idle (s t : Blockchain) : Prop where
  state : t.state = s.state
  trie : t.trie = s.trie
  height : t.height = s.height
  latestBlock : t.latestBlock = s.latestBlock

theorem submitIdle (s : Blockchain) (now : Int) (tx : Transaction) : Idle s (s.submitTx now tx).2 := by
  unfold submitTx
  split <;> exact ⟨rfl,rfl,rfl,rfl⟩

omit [Env] in
theorem Idle.trans {a b c : Blockchain} (before : Idle a b) (after : Idle b c) : Idle a c :=
  ⟨after.state.trans before.state,after.trie.trans before.trie,after.height.trans before.height,
    after.latestBlock.trans before.latestBlock⟩

theorem producesNone (made : Produces s [] e) : Idle s e := by
  generalize none : ([] : List Block) = blocks at made
  induction made with
  | done s => exact ⟨rfl,rfl,rfl,rfl⟩
  | submit now tx later ih => exact (submitIdle ..).trans (ih none)
  | produce => cases none

theorem producesCons (made : Produces s (block :: blocks) e) :
    ∃ s' address sk now later t, Idle s s' ∧ s'.produceBlock address sk now later = (.accepted,t) ∧
      t.latestBlock = some block ∧ Produces s [block] t := by
  generalize whole : block :: blocks = chain at made
  induction made with
  | done => cases whole
  | submit now tx later ih =>
    obtain ⟨s',address,sk,start,finish,t,idle,answer,stored,single⟩ := ih whole
    exact ⟨s',address,sk,start,finish,t,(submitIdle ..).trans idle,answer,stored,
      .submit now tx single⟩
  | @produce s t u blocks address sk now later block answer stored rest ih =>
    cases whole
    exact ⟨s,address,sk,now,later,t,⟨rfl,rfl,rfl,rfl⟩,answer,stored,
      .produce address sk now later _ answer stored (.done t)⟩

theorem producedFunded {address : Address} {sk : Bytes} {now later : Int} (height : s.height = 0)
    (active : s.financialActive = true) (solvent : s.state.ledger.Solvent)
    (rewarded : 0 < s.state.ledger.calcBlockReward 1)
    (answer : s.produceBlock address sk now later = (.accepted,t)) (stored : t.latestBlock = some block) :
    block.stateRoot = hex (StateTrie.computeRoot t.trie.entries) ∧
      "balance:" ++ block.validator ∈ t.trie.entries := by
  obtain ⟨-,parent,draft,u,v,-,-,-,run,replaced,rfl⟩ := produceBlockOk answer
  obtain ⟨c,built,appended,committed⟩ := appendInnerCommitted run
  obtain ⟨_,_,rfl⟩ := replaceTipOk replaced
  have applied := appended.applied
  rw [height] at applied
  obtain ⟨amount,nonneg,found⟩ :=
    ChainState.applyBlockRewarded (Int.zero_lt_one) active solvent rewarded applied
  have entries : built.entries = c.entriesOf := ChainState.rebuildEntries committed.rebuilt
  have inside : "balance:" ++ draft.validator ∈ built.entries := by
    rw [entries,ChainState.balanceKeys]
    exact ⟨amount,nonneg,found⟩
  have fresh : built.Fresh := by
    refine StateTrie.dirtyFresh ((ChainState.rebuildWritten committed.rebuilt).marked
      (StateTrie.markedClear _) (fun empty => ?_))
    simp [empty] at inside
  have trie : u.trie.entries = built.entries := by rw [committed.trie,StateTrie.rootEntries]
  cases stored
  refine ⟨?_,?_⟩
  · change u.lastComputedStateRoot.getD _ = hex (StateTrie.computeRoot u.trie.entries)
    rw [committed.stateRoot,trie,Option.getD_some,StateTrie.rootFresh fresh]
  · change "balance:" ++ draft.validator ∈ u.trie.entries
    rwa [trie]

/- Without a key nothing is staked, and the genesis block claims what its execution comes to anywhere. -/
structure Keyless (account : Address) (first : Block) (s : Blockchain) : Prop where
  receipts : first.receiptsRoot = receiptsRoot (enrolmentReceipts first)
  root : first.stateRoot = hex (StateTrie.computeRoot ∅)
  stakes : s.state.staking.stakes = .empty
  totals : s.state.staking.totalStake = .empty
  seats : s.state.staking.epochValidators = []
  tokens : s.state.tokens = {}
  nonces : s.state.index.senderNonce = .empty
  trie : account = "" → s.trie.Fresh ∧ s.trie.entries = ∅

omit [Env] in
theorem activateTrie (idle : g.financialActive = false) (run : g.activateFinancialLayer "" = .ok s) :
    ∃ ledger : Ledger, ledger.balances = g.state.ledger.balances ∧
      ({ g.state with ledger } : ChainState).rebuildStateTrie g.trie = .ok s.trie := by
  unfold activateFinancialLayer at run
  rw [idle] at run
  dsimp only at run
  rw [if_neg Bool.false_ne_true,if_neg (fun paying => paying.1 rfl)] at run
  simp only [Outcome.bindOk] at run
  obtain ⟨_,same,t,rebuilt,run⟩ := run
  cases same
  obtain ⟨trie,built,rfl⟩ := rebuildStateTrieOk rebuilt
  refine ⟨{ g.state.ledger with financialActive := true },rfl,?_⟩
  cases run
  split <;> exact built

theorem keyless (genesis : (new backend validators).initChain address sk [] now = .ok g)
    (run : g.activateFinancialLayer account = .ok s) (tip : s.latestBlock = some first)
    (enrols : Enrols first.transactions) : Keyless account first s := by
  obtain ⟨key,draft,t,staked,_,_,stamped,-,-,appended,staking,shape,rfl⟩ :=
    initChainOk (s := new backend validators) (Int.negSucc_lt_zero 0) genesis
  obtain rfl : staked = t := staking
  obtain ⟨-,same,-,-,-,index,staking',tokens,-⟩ := activateKeeps run
  obtain rfl : stamped = first := Option.some.inj (same.symm.trans tip)
  have drafts : Enrols draft.transactions := by
    rw [shape] at enrols
    exact enrols
  have joined := genesisJoined drafts appended
  obtain ⟨after,receipts,executed,computed⟩ := appendInnerReceipts appended
  obtain ⟨after',expected⟩ := executeEnrolled validators drafts
  have place : (new backend validators).height + 1 = 0 := rfl
  rw [place] at executed
  obtain rfl : receipts = enrolmentReceipts draft :=
    congrArg Prod.snd (Option.some.inj (executed.symm.trans expected))
  have root : staked.stateRoot.1 = hex (StateTrie.computeRoot ∅) := by
    rw [stateRoot,StateTrie.rootFresh joined.fresh,joined.empty]
  refine ⟨by rw [shape]; exact computed,by rw [shape]; exact root,by rw [staking']; exact joined.unfunded.stakes,
    by rw [staking']; exact joined.unfunded.totals,by rw [staking']; exact joined.unfunded.seats,
    tokens.trans joined.unfunded.tokens,by rw [index]; exact joined.unfunded.nonces,fun unpaid => ?_⟩
  subst unpaid
  obtain ⟨ledger,balances,rebuilt⟩ := activateTrie
    (by rw [financialActive]; exact joined.unfunded.ledger ▸ rfl) run
  have written := ChainState.rebuildWritten rebuilt
  have blank : staked.trie.root.2.clearEntries.Fresh := by
    have kept : staked.trie.root.2.clearEntries = staked.trie.root.2 := by
      rw [StateTrie.clearEntries,← joined.empty,← StateTrie.rootEntries staked.trie]
    rw [kept]
    exact StateTrie.freshRoot joined.fresh
  refine ⟨written.fresh blank,?_⟩
  rw [ChainState.rebuildEntries rebuilt]
  refine unfundedEntries (balances.trans ?_) joined.unfunded.nonces joined.unfunded.tokens
  exact congrArg Ledger.balances joined.unfunded.ledger

theorem followCons (clock : Block → Int) (s : Blockchain) (block : Block) (rest : List Block) (u : Blockchain) :
    follow clock s (block :: rest) = some u ↔
      ∃ t, s.addBlock block (clock block) = (.accepted,t) ∧ follow clock t rest = some u := by
  simp only [follow,List.foldlM_cons,Option.bind_eq_bind,Option.bind_eq_some_iff]
  constructor
  · rintro ⟨t,accepted,later⟩
    split at accepted
    · rename_i answer
      cases accepted
      exact ⟨t,answer,later⟩
    · cases accepted
  · rintro ⟨t,answer,later⟩
    exact ⟨t,by rw [answer],later⟩

theorem rebuildUnfunded {after : ChainState} (unfunded : Unfunded after) :
    ∃ trie, after.rebuildStateTrie {} = .ok trie ∧ hex trie.root.1 = hex (StateTrie.computeRoot ∅) := by
  refine ⟨{},?_,rfl⟩
  simp only [ChainState.rebuildStateTrie,ChainState.balanceRows,ChainState.nonceRows,ChainState.tokenRows,
    unfunded.ledger,unfunded.nonces,unfunded.tokens]
  rfl

theorem addGenesisKeyless {backend : Backend} (blank : backend.Blank) (validators : Dict Address Bytes) (clock : Int)
    (index : first.index = 0) (enrols : Enrols first.transactions) (keyless : Keyless account first s) :
    ∃ t, (new backend validators).addBlock first clock = (.accepted,t) := by
  obtain ⟨after,executed⟩ := executeEnrolled validators enrols
  obtain ⟨trie,rebuilt,root⟩ := rebuildUnfunded (genesisUnfunded enrols (executeApplies executed))
  have executes : (new backend validators).Executes first :=
    ⟨after,_,trie,executed,rebuilt,fun _ => keyless.receipts,fun _ => keyless.root.trans root.symm⟩
  obtain ⟨t,appended⟩ := (appendBlockIff ..).mpr ⟨blankStorable blank validators first,executes⟩
  refine ⟨t.drainPool first,?_⟩
  have fresh : first.blockHash ∉ (new backend validators).blockByHash := by simp [new]
  have valid : (new backend validators).validateBlock clock first none = .ok () := by
    rw [validateBlock,if_pos index]
    rfl
  have place : first.index = (new backend validators).height + 1 := index
  simp only [addBlock]
  rw [if_neg fresh,if_pos place,index,if_neg (Int.lt_irrefl 0),valid]
  simp only [Int.lt_irrefl,false_and,if_false,appended]

theorem keylessAgrees {u : Blockchain} (keyless : Keyless "" first s) (founded : Founded address "" [] first s)
    (idle : Idle s e) {clock : Int} (answer : (new backend validators).addBlock first clock = (.accepted,u)) :
    Agrees e u := by
  obtain ⟨-,-,t,run,rfl⟩ := addBlockOk answer
  have joined := (genesisJoined founded.enrols run).drain first
  obtain ⟨fresh,empty⟩ := keyless.trie rfl
  refine ⟨fun a => ?_,?_,?_,?_,?_,fun a => ?_,?_⟩
  · have balance := founded.balances a
    rw [endowment,if_pos rfl,ite_self] at balance
    have none : (t.drainPool first).state.ledger.getBalance a = 0 := by rw [joined.unfunded.ledger]; rfl
    exact none.trans (by rw [getBalance,idle.state]; exact balance.symm)
  · rw [joined.unfunded.stakes,idle.state,keyless.stakes]
  · rw [joined.unfunded.totals,idle.state,keyless.totals]
  · rw [getActiveValidators,getActiveValidators,Staking.getActiveValidators,Staking.getActiveValidators,
      Staking.getLiveValidators,Staking.getLiveValidators,joined.unfunded.seats,joined.unfunded.totals,idle.state,
      keyless.seats,keyless.totals]
  · rw [joined.unfunded.tokens,idle.state,keyless.tokens]
  · simp only [getNonce,Index.getNonce,idle.state,keyless.nonces,joined.unfunded.nonces]
  · rw [stateRoot,stateRoot,idle.trie,StateTrie.rootFresh fresh,empty,StateTrie.rootFresh joined.fresh,joined.empty]

theorem foundedRewarded (founded : Founded address account pk first s) :
    0 < s.state.ledger.calcBlockReward 1 := by
  rw [Ledger.calcBlockReward,if_neg (by decide),founded.minted,endowment]
  split <;> decide

theorem foundedSolvent (founded : Founded address account pk first s) : s.state.ledger.Solvent := by
  intro a
  have balance := founded.balances a
  rw [getBalance] at balance
  rw [balance,endowment]
  repeat' split
  all_goals decide

end Production

/- A chain made on one node can be followed from its blocks exactly where `init_chain` got no public
key, the activation no address and no block was produced: elsewhere stakes or balances differ at once,
and the first block after genesis is refused. -/
theorem followsIff {backend backend' : Backend} (blank' : backend'.Blank) {validators validators' : Dict Address Bytes}
    {address account : Address} {sk pk : Bytes} {now : Int} {g s e : Blockchain} {first : Block}
    {blocks : List Block} (genesis : (new backend validators).initChain address sk pk now = .ok g)
    (activation : g.activateFinancialLayer account = .ok s) (tip : s.latestBlock = some first)
    (made : Produces s blocks e) (clock : Block → Int)
    (separate : ∀ block ∈ blocks.head?, ∀ m u, Produces s [block] m →
      follow clock (new backend' validators') [first,block] = some u →
      StateTrie.computeRoot m.trie.entries = StateTrie.computeRoot u.trie.entries →
      m.trie.entries = u.trie.entries) :
    (∃ u, follow clock (new backend' validators') (first :: blocks) = some u ∧ Agrees e u) ↔
      pk = [] ∧ account = "" ∧ blocks = [] := by
  obtain ⟨block,founded⟩ := founded genesis activation
  obtain rfl : block = first := Option.some.inj (founded.latestBlock.symm.trans tip)
  constructor
  · rintro ⟨u,followed,agrees⟩
    obtain ⟨t,answer,followed⟩ := (followCons ..).mp followed
    have joined : Joined t := by
      obtain ⟨-,-,t,run,rfl⟩ := addBlockOk answer
      exact (genesisJoined founded.enrols run).drain block
    cases blocks with
    | nil =>
      obtain rfl : t = u := Option.some.inj followed
      have idle := producesNone made
      refine ⟨?_,?_,rfl⟩
      · by_contra known
        have stakes := congrArg (fun table => table.get (address,address)) agrees.stakes
        simp only [joined.unfunded.stakes,idle.state,founded.staked known] at stakes
        simp [minStake] at stakes
      · by_contra named
        have balance := agrees.balances account
        rw [getBalance,joined.unfunded.ledger,getBalance,idle.state] at balance
        have given := founded.balances account
        rw [if_pos rfl,endowment,if_neg named,getBalance,← balance] at given
        have none : ({} : Ledger).getBalance account = 0 := rfl
        exact absurd (none.symm.trans given) (by decide)
    | cons next rest =>
      exfalso
      obtain ⟨v,accepted,-⟩ := (followCons ..).mp followed
      obtain ⟨s',producer,_,_,_,m,idle,produced,stored,single⟩ := producesCons made
      obtain ⟨root,inside⟩ := producedFunded (idle.height.trans founded.height)
        (by rw [financialActive,idle.state]; exact founded.active)
        (idle.state ▸ foundedSolvent founded) (idle.state ▸ foundedRewarded founded) produced stored
      obtain ⟨root',outside⟩ := joinedUnfunded joined accepted
      have two : follow clock (new backend' validators') [block,next] = some v :=
        (followCons ..).mpr ⟨t,answer,(followCons ..).mpr ⟨v,accepted,rfl⟩⟩
      have same := separate next rfl m v single two (hexInjective (root.symm.trans root'))
      exact outside next.validator (same ▸ inside)
  · rintro ⟨rfl,rfl,rfl⟩
    have keyless := keyless genesis activation tip founded.enrols
    obtain ⟨u,answer⟩ := addGenesisKeyless blank' validators' (clock block) founded.index founded.enrols keyless
    exact ⟨u,(followCons ..).mpr ⟨u,answer,rfl⟩,keylessAgrees keyless founded (producesNone made) answer⟩

end Blockchain

namespace Devnet
open Blockchain

section Legacy
attribute [local instance] legacy

def hourLater (block : Block) : Int := block.timestamp + 3600

theorem followerRun :
    ((notarizing.produceBlock address key 102 102).1 = .accepted ∧ notarized.latestBlock.isSome = true) ∧
    active.latestBlock.isSome = true ∧
    (follow hourLater (new (.memory [])) [storedGenesis]).isSome = true ∧
    (follow hourLater (new (.memory [])) [storedGenesis,notarized.tipBlock]).isNone = true := by decide +kernel

theorem notarizedProduces : Produces active [notarized.tipBlock] notarized := by
  have run := followerRun.1
  have answer : notarizing.produceBlock address key 102 102 = (.accepted,notarized) := by
    rw [notarized]
    exact acceptedState run.1
  have single : Produces notarizing [notarized.tipBlock] notarized :=
    .produce address key 102 102 _ answer (tipStored run.2) (.done _)
  rw [notarizing] at single
  exact .submit 101 (notarization 0) single

/- A joining node takes the genesis block of a chain and refuses the next. -/
theorem followerStuck : Produces active [notarized.tipBlock] notarized ∧
    (follow hourLater (new (.memory [])) [active.tipBlock]).isSome = true ∧
    ¬∃ u, follow hourLater (new (.memory [])) [active.tipBlock,notarized.tipBlock] = some u := by
  obtain ⟨_,_,followed,stuck⟩ := followerRun
  rw [activeStored]
  refine ⟨notarizedProduces,followed,?_⟩
  rintro ⟨u,followed⟩
  rw [followed] at stuck
  cases stuck

def reserved : Blockchain :=
  Outcome.stateOf ((new (.memory []) ((∅ : Dict Address Bytes).insert address key)).initChain address key [] 100)

def unfunded : Blockchain := Outcome.stateOf (reserved.activateFinancialLayer "")

theorem reservedRuns :
    (new (.memory []) ((∅ : Dict Address Bytes).insert address key)).initChain address key [] 100 = .ok reserved :=
  okState (by decide +kernel)

theorem unfundedRuns : reserved.activateFinancialLayer "" = .ok unfunded := okState (by decide +kernel)

theorem followsFounded :
    (∃ u, follow hourLater (new (.memory [])) [unfunded.tipBlock] = some u ∧ Agrees unfunded u) ∧
    ¬∃ u, follow hourLater (new (.memory [])) [active.tipBlock,notarized.tipBlock] = some u ∧ Agrees notarized u := by
  obtain ⟨_,tip,_,stuck⟩ := followerRun
  constructor
  · refine (followsIff .memory reservedRuns unfundedRuns (tipStored (by decide +kernel)) (.done _) hourLater ?_).mpr
      ⟨rfl,rfl,rfl⟩
    intro block inside
    cases inside
  · refine fun followed => absurd ((followsIff .memory genesisRuns activeRuns (tipStored tip) notarizedProduces hourLater
      ?_).mp followed).2.2 (by simp)
    intro block inside m u _ followed
    have same : notarized.tipBlock = block := Option.some.inj inside
    rw [← same,activeStored] at followed
    rw [followed] at stuck
    cases stuck

end Legacy

end Devnet

end QbitNetwork
