import QbitNetwork.ConsensusLaws
import QbitNetwork.LoadLaws
import QbitNetwork.Rewind

/-! A chain's history: blocks that are accepted, rollbacks and restarts that succeed, and the
rule by which a law of chain and state holds throughout. -/
namespace QbitNetwork

namespace Blockchain
variable [Env]

structure Held (chain : List Block) (s : Blockchain) : Prop where
  holds : s.backend.Holds chain
  height : s.height = (chain.length : Int) - 1
  latestBlock : s.latestBlock = chain.getLast?
  placed : ∀ (i : Nat) (block : Block), chain[i]? = some block → block.index = i

inductive History (meets : List Block → Block → Prop) : List Block → Blockchain → Prop where
  | memory {validators : Dict Address Bytes} : History meets [] (new (.memory []) validators)
  | sqlite {validators : Dict Address Bytes} : History meets [] (new (.sqlite {}) validators)
  | initChain {s s' : Blockchain} {block : Block} (address : Address) (sk pk : Bytes) (now : Int)
      (prior : History meets [] s) (run : s.initChain address sk pk now = .ok s')
      (stored : s'.latestBlock = some block) : History meets [block] s'
  | activate {chain : List Block} {s s' : Blockchain} (address : Address) (prior : History meets chain s)
      (run : s.activateFinancialLayer address = .ok s') : History meets chain s'
  | submit {chain : List Block} {s : Blockchain} (now : Int) (tx : Transaction)
      (prior : History meets chain s) : History meets chain (s.submitTx now tx).2
  | accept {chain : List Block} {s s' : Blockchain} (block : Block) (prior : History meets chain s)
      (step : Accepts s block s') (met : meets chain block) : History meets (chain ++ [block]) s'
  | rollback {chain : List Block} {s s' : Blockchain} (target : Int) (prior : History meets chain s)
      (run : s.rollbackTo target = .ok s') : History meets (chain.take target.toNat) s'
  | reload {chain : List Block} {s s' : Blockchain} {d : Store} {validators : Dict Address Bytes} (verify : Bool)
      (prior : History meets chain s) (stored : s.backend = .sqlite d)
      (run : (new (.sqlite d) validators).load verify = .ok (true,s')) : History meets chain s'

section Undo

def unindex (x : Index) (tx : Transaction) : Index := (x.forgetTx tx).undoTx tx

def unrevoke (revoked : Dict String Revocation) (tx : Transaction) : Dict String Revocation :=
  if tx.txType = .REVOKE_KEY then
    revoked.erase (revocationKey tx.sender (tx.payload.keyType.getD ""))
  else revoked

structure Taken (block : Block) (t u : Blockchain) : Prop where
  stored : u.backend.stored = t.backend.stored
  height : u.height = t.height - 1
  latestBlock : u.latestBlock = storedTip u.backend u.height
  index : ∃ senderNonce, u.state.index =
    { block.transactions.foldl unindex t.state.index with senderNonce }
  revoked : u.state.staking.revokedKeys = block.transactions.foldl unrevoke t.state.staking.revokedKeys

theorem undoTxRevoked (k : Staking) (lookup : Address → Option Bytes) (tx : Transaction) (idx : Int) :
    (k.undoTx lookup tx idx).revokedKeys = unrevoke k.revokedKeys tx := by
  cases kind : tx.txType <;>
    simp only [Staking.undoTx,unrevoke,kind,reduceCtorEq,if_true,if_false]
  case REVOKE_KEY =>
    unfold Staking.undoRevokeKey
    dsimp only
    (repeat' split) <;> rfl
  all_goals (repeat' split) <;> rfl

theorem undoMoneyOk {s s' : ChainState} {block : Block} (run : undoMoney s block = .ok s') :
    s'.index = s.index ∧ s'.staking.revokedKeys = s.staking.revokedKeys := by
  have rewarded : ∀ (k : Staking) (validator : Address) (reward : Int),
      (k.undoEpochReward validator reward).revokedKeys = k.revokedKeys := by
    intro k validator reward
    unfold Staking.undoEpochReward
    split <;> rfl
  simp only [undoMoney] at run
  split at run
  · obtain ⟨ledger,-,rfl⟩ := (Outcome.withinOk ..).mp run
    exact ⟨rfl,rewarded ..⟩
  · cases run
    exact ⟨rfl,rfl⟩

omit [Env] in
theorem undoEpochOk {s s' : ChainState} {blockIndex : Int} (run : undoEpoch s blockIndex = .ok s') :
    s'.index = s.index ∧ s'.staking.revokedKeys = s.staking.revokedKeys := by
  have left : ∀ (k : Staking) (epoch : Int), (k.leaveEpoch epoch).revokedKeys = k.revokedKeys := by
    intro k epoch
    simp only [Staking.leaveEpoch]
    split <;> rfl
  simp only [undoEpoch] at run
  split at run
  · split at run
    · simp only [Outcome.bindOk,Outcome.withinOk] at run
      obtain ⟨_,⟨ledger,-,rfl⟩,run⟩ := run
      cases run
      exact ⟨rfl,left ..⟩
    · cases run
      exact ⟨rfl,left ..⟩
  · cases run
    exact ⟨rfl,rfl⟩

theorem undoTxsShape (block : Block) (txs : List Transaction) (s : Blockchain) :
    ∃ state backend, txs.foldl (undoTx block) s = { s with state, backend } ∧
      backend.stored = s.backend.stored ∧ state.index = txs.foldl unindex s.state.index ∧
      state.staking.revokedKeys = txs.foldl unrevoke s.state.staking.revokedKeys := by
  induction txs generalizing s with
  | nil => exact ⟨s.state,s.backend,rfl,rfl,rfl,rfl⟩
  | cons tx rest ih =>
    obtain ⟨state,backend,shape,stored,index,revoked⟩ := ih (undoTx block s tx)
    refine ⟨state,backend,shape,stored.trans ?_,index,revoked.trans ?_⟩
    · exact Backend.storedMapStore _ s.backend (Store.persistUndoKeeps _ tx)
    · exact congrArg (rest.foldl unrevoke) (undoTxRevoked ..)

omit [Env] in
theorem undoTrieOk {s s' : Blockchain} {blockIndex : Int} (run : s.undoTrie blockIndex = .ok s') :
    ∃ trie, s' = ({ s with stateSnapshots := s.stateSnapshots.erase blockIndex } : Blockchain).withTrie trie := by
  simp only [undoTrie] at run
  split at run
  · split at run
    · cases run
      exact ⟨_,rfl⟩
    · obtain ⟨trie,-,same⟩ := rebuildStateTrieOk run
      exact ⟨trie,same⟩
  · obtain ⟨trie,-,same⟩ := rebuildStateTrieOk run
    exact ⟨trie,same⟩

theorem rollbackBlockTaken {block : Block} {t u : Blockchain} (run : t.rollbackBlock block = .ok u) :
    Taken block t u := by
  simp only [rollbackBlock,Outcome.bindOk,Outcome.withinOk] at run
  obtain ⟨_,⟨paid,money,rfl⟩,_,⟨left,epoch,rfl⟩,w,trie,run⟩ := run
  cases run
  obtain ⟨moneyIndex,moneyRevoked⟩ := undoMoneyOk money
  obtain ⟨state,backend,shape,stored,index,revoked⟩ := undoTxsShape block block.transactions
    { (t.undoLog block).withState paid with
      blockByHash := ((t.undoLog block).withState paid).blockByHash.erase block.blockHash }
  rw [shape] at trie epoch
  obtain ⟨senderNonce,recounted,-⟩ := recomputeNonces
    ({ ({ (t.undoLog block).withState paid with
      blockByHash := ((t.undoLog block).withState paid).blockByHash.erase block.blockHash } :
        Blockchain) with state, backend } : Blockchain) block.transactions
  rw [recounted] at trie epoch
  obtain ⟨epochIndex,epochRevoked⟩ := undoEpochOk epoch
  obtain ⟨final,rfl⟩ := undoTrieOk trie
  have logged : (t.undoLog block).backend.stored = t.backend.stored :=
    Backend.storedMapStore _ t.backend (fun d => Store.keepsRefl d)
  refine ⟨stored.trans logged,rfl,rfl,⟨senderNonce,?_⟩,?_⟩
  · refine epochIndex.trans ?_
    show ({ state.index with senderNonce } : Index) = _
    rw [index,← show paid.index = t.state.index from moneyIndex]
    rfl
  · refine epochRevoked.trans (revoked.trans ?_)
    rw [← show paid.staking.revokedKeys = t.state.staking.revokedKeys from moneyRevoked]
    rfl

end Undo

section Held
variable {chain : List Block} {s : Blockchain}

omit [Env] in
theorem Held.coherent (held : Held chain s) : Coherent s := by
  refine ⟨by rw [held.height]; omega,fun block tip => ?_⟩
  rw [held.latestBlock,List.getLast?_eq_getElem?] at tip
  have nonempty : chain.length - 1 < chain.length := (List.getElem?_eq_some_iff.mp tip).1
  rw [held.placed _ block tip,held.height]
  omega

omit [Env] in
theorem Held.beside (held : Held chain s) {t : Blockchain} (stored : t.backend.stored = s.backend.stored)
    (height : t.height = s.height) (latestBlock : t.latestBlock = s.latestBlock) : Held chain t :=
  ⟨Backend.holdsStored stored held.holds,height.trans held.height,latestBlock.trans held.latestBlock,
    held.placed⟩

omit [Env] in
theorem placedAppend {block : Block}
    (placed : ∀ (i : Nat) (block : Block), chain[i]? = some block → block.index = i)
    (position : block.index = chain.length) (i : Nat) (other : Block)
    (found : (chain ++ [block])[i]? = some other) : other.index = i := by
  rw [List.getElem?_append] at found
  split at found
  · exact placed i other found
  · rename_i above
    have last : i - chain.length = 0 := by
      have := (List.getElem?_eq_some_iff.mp found).1
      simp only [List.length_singleton] at this
      omega
    rw [last] at found
    cases found
    omega

theorem appendedHeld (held : Held chain s) {t : Blockchain} {block : Block} {c : ChainState}
    (position : block.index = chain.length) (appended : Appended s block t c) :
    Held (chain ++ [block]) t := by
  refine ⟨Backend.holdsExtended held.holds appended.stored,?_,?_,placedAppend held.placed position⟩
  · rw [appended.height,held.height,List.length_append,List.length_singleton]
    omega
  · rw [appended.latestBlock,List.getLast?_concat]

theorem replaceTipHeld {old block : Block} (held : Held (chain ++ [old]) s)
    (index : block.index = old.index) {t : Blockchain} (run : s.replaceTip old block = .ok t) :
    Held (chain ++ [block]) t := by
  have position : block.index = chain.length := by
    rw [index]
    exact held.placed _ old (by simp)
  have below : ∀ (i : Nat) (other : Block), chain[i]? = some other → other.index = i := by
    intro i other found
    refine held.placed i other ?_
    rw [List.getElem?_append_left (List.getElem?_eq_some_iff.mp found).1]
    exact found
  have placed := placedAppend below position
  have size : s.height = ((chain ++ [block]).length : Int) - 1 := by
    rw [held.height]
    simp
  have holds := held.holds
  simp only [replaceTip] at run
  split at run
  · rename_i chainList stored
    cases run
    rw [stored] at holds
    refine ⟨?_,size,by simp,placed⟩
    show replaceBlock chainList block = chain ++ [block]
    rw [show chainList = chain ++ [old] from holds]
    unfold replaceBlock
    rw [if_pos (by omega),position]
    simp
  · rename_i d stored
    rw [stored] at holds
    split at run
    · rename_i d' updated
      cases run
      exact ⟨Backend.updateHolds holds position updated,size,by simp,placed⟩
    · contradiction

theorem validatorCheckOk {block parent : Block} (run : s.validatorCheck block parent = .ok ()) :
    s.isKeyRevoked block.validator "signing" = false := by
  unfold validatorCheck at run
  split at run
  · contradiction
  · simp only [Outcome.bindOk,refuseIfOk] at run
    obtain ⟨_,unrevoked,-⟩ := run
    simpa using unrevoked

theorem acceptsHeld (held : Held chain s) {s' : Blockchain} {block : Block}
    (step : Accepts s block s') : Held (chain ++ [block]) s' := by
  have position : block.index = chain.length := by
    rw [acceptsPosition held.coherent step,held.height]
    omega
  cases step with
  | received now answer =>
    obtain ⟨-,-,t,appended,rfl⟩ := addBlockOk answer
    obtain ⟨c,grown⟩ := appendInnerOk appended
    exact (appendedHeld held position grown).beside rfl rfl rfl
  | produced address sk now later answer stored =>
    obtain ⟨-,parent,draft,t,u,tip,drafted,valid,appended,replaced,rfl⟩ := produceBlockOk answer
    obtain ⟨c,grown⟩ := appendInnerOk appended
    obtain ⟨backend,blockByHash,shape⟩ := replaceTipOk replaced
    have made : stampedBlock draft (t.lastComputedStateRoot.getD t.stateRoot.1)
        t.lastComputedReceiptsRoot sk = block := by
      have tip : (u.drainPool _).latestBlock = some block := stored
      rw [shape] at tip
      exact Option.some.inj tip
    have drafts : draft.index = chain.length := by
      rw [← position,← made,stampedIndex]
    have final := replaceTipHeld (appendedHeld held drafts grown) (stampedIndex ..) replaced
    rw [made] at final
    exact final.beside rfl rfl rfl

theorem stampedValidator (block : Block) (stateRoot receiptsRoot : String) (sk : Bytes) :
    (stampedBlock block stateRoot receiptsRoot sk).validator = block.validator := rfl

theorem acceptsUnrevoked {s s' : Blockchain} {block : Block} (step : Accepts s block s')
    (later : block.index ≠ 0) : s.isKeyRevoked block.validator "signing" = false := by
  cases step with
  | received now answer =>
    obtain ⟨-,valid,-⟩ := addBlockOk answer
    obtain ⟨parent,-,-,checked,-⟩ := validateBlockOk later valid
    exact validatorCheckOk checked
  | produced address sk now later' answer stored =>
    obtain ⟨-,parent,draft,t,u,tip,drafted,valid,appended,replaced,rfl⟩ := produceBlockOk answer
    obtain ⟨backend,blockByHash,shape⟩ := replaceTipOk replaced
    have made : stampedBlock draft (t.lastComputedStateRoot.getD t.stateRoot.1)
        t.lastComputedReceiptsRoot sk = block := by
      have tip : (u.drainPool _).latestBlock = some block := stored
      rw [shape] at tip
      exact Option.some.inj tip
    rw [← made,stampedIndex] at later
    rw [← made,stampedValidator]
    obtain ⟨parent,-,-,checked,-⟩ := validateBlockOk later valid
    exact validatorCheckOk checked

theorem rollbackToTaken (held : Held chain s) {target : Int} {s' : Blockchain}
    (run : s.rollbackTo target = .ok s') :
    ∃ t : Blockchain, t.state = s.state ∧ Retracts (chain.take target.toNat) chain t.backend ∧ t.height = s.height ∧
      t.latestBlock = s.latestBlock ∧
      (chain.drop target.toNat).reverse.foldlM (fun s block => s.popBlock.rollbackBlock block) t = .ok s' := by
  simp only [rollbackTo,Outcome.bindOk] at run
  obtain ⟨u,undone,run⟩ := run
  rw [blocksFromHolds held.holds held.height] at undone
  have same : u = s' := by
    split_ifs at run
    cases run
    rfl
  subst same
  refine ⟨s.mapStore (·.deleteBlocksFrom target),rfl,?_,rfl,rfl,undone⟩
  have holds := held.holds
  unfold mapStore
  cases stored : s.backend with
  | memory chainList =>
    rw [stored] at holds
    exact holds
  | sqlite d =>
    rw [stored] at holds
    exact Backend.deleteHolds holds target

end Held

structure Law (meets : List Block → Block → Prop) (law : List Block → ChainState → Prop) : Prop where
  begins : law [] {}
  frame : ∀ {chain : List Block} {c c' : ChainState}, law chain c → SameIndex c.index c'.index →
    c'.staking.revokedKeys = c.staking.revokedKeys → law chain c'
  append : ∀ {chain : List Block} {block : Block} {s : Blockchain} {c : ChainState}, law chain s.state →
    (chain ≠ [] → s.transactionsCheck block = .ok () ∧ s.isKeyRevoked block.validator "signing" = false) →
    (meets chain block ∨ ∀ tx ∈ block.transactions, tx.txType = .REGISTER_VALIDATOR) →
    s.state.applyBlock block chain.length = .ok c → law (chain ++ [block]) c
  restamp : ∀ {prior : List Block} {old block : Block} {c : ChainState}, law (prior ++ [old]) c →
    block.transactions = old.transactions → block.validator = old.validator → law (prior ++ [block]) c
  drop : ∀ {prior : List Block} {block : Block} {t u : Blockchain}, law (prior ++ [block]) t.state →
    Taken block t u → law prior u.state
  reload : ∀ {chain : List Block} {c c' : ChainState}, law chain c → c'.index = Index.ofChain chain →
    c'.staking.revokedKeys = (chain.flatMap Block.transactions).foldl Staking.enterRevocation ∅ → law chain c'

section Rule
variable {meets : List Block → Block → Prop} {law : List Block → ChainState → Prop}

theorem rollbackBlocksLaw (laws : Law meets law) {base suffix : List Block} {t u : Blockchain}
    (holds : law (base ++ suffix) t.state) (retracts : Retracts base (base ++ suffix) t.backend)
    (height : t.height = ((base ++ suffix).length : Int) - 1)
    (tip : suffix = [] → t.latestBlock = base.getLast?)
    (run : suffix.reverse.foldlM (fun s block => s.popBlock.rollbackBlock block) t = .ok u) :
    law base u.state ∧ u.backend.Holds base ∧ u.height = (base.length : Int) - 1 ∧
      u.latestBlock = base.getLast? := by
  induction suffix using List.reverseRecOn generalizing t with
  | nil =>
    cases run
    rw [List.append_nil] at holds retracts height
    exact ⟨holds,retractsHolds.mp retracts,height,tip rfl⟩
  | append_singleton rest block ih =>
    rw [List.reverse_append,List.reverse_singleton,List.singleton_append,List.foldlM_cons,
      Outcome.bindOk] at run
    obtain ⟨v,first,run⟩ := run
    have taken := rollbackBlockTaken first
    rw [← List.append_assoc] at holds retracts height
    have popped : ∃ backend, t.popBlock = { t with backend } ∧ Retracts base (base ++ rest) backend := by
      unfold popBlock
      split
      · rename_i chainList stored
        rw [stored] at retracts
        obtain rfl : chainList = (base ++ rest) ++ [block] := retracts
        exact ⟨_,rfl,List.dropLast_concat⟩
      · rename_i d stored
        rw [stored] at retracts
        exact ⟨t.backend,rfl,stored ▸ retracts⟩
    obtain ⟨backend,popped,below⟩ := popped
    rw [popped] at taken
    have held : Retracts base (base ++ rest) v.backend := retractsStored taken.stored below
    have lower : v.height = ((base ++ rest).length : Int) - 1 := by
      rw [taken.height,height,show (base ++ rest ++ [block]).length = (base ++ rest).length + 1 from List.length_append]
      omega
    have lawful : law ((base ++ rest) ++ [block]) ({ t with backend } : Blockchain).state := holds
    refine ih (laws.drop lawful taken) held lower ?_ run
    rintro rfl
    rw [List.append_nil] at held lower
    rw [taken.latestBlock,lower]
    exact storedTipHolds (retractsHolds.mp held)

theorem rollbackToLaw (laws : Law meets law) {chain : List Block} {s s' : Blockchain} {target : Int}
    (held : Held chain s) (holds : law chain s.state) (run : s.rollbackTo target = .ok s') :
    law (chain.take target.toNat) s'.state ∧ Held (chain.take target.toNat) s' := by
  obtain ⟨t,state,retracts,height,latestBlock,undone⟩ := rollbackToTaken held run
  have split : chain.take target.toNat ++ chain.drop target.toNat = chain := List.take_append_drop ..
  obtain ⟨lawful,below,lower,tip⟩ := @rollbackBlocksLaw _ _ _ laws (chain.take target.toNat)
    (chain.drop target.toNat) t s' (by rwa [split,state]) (by rwa [split]) (by rw [split,height,held.height])
    (fun none => by
      rw [none,List.append_nil] at split
      rw [latestBlock,held.latestBlock,split]) undone
  refine ⟨lawful,below,lower,tip,fun i block found => held.placed i block ?_⟩
  rw [List.getElem?_take] at found
  split at found
  · exact found
  · contradiction

theorem initChainLaw (laws : Law meets law) {s s' : Blockchain} {address : Address} {sk pk : Bytes}
    {now : Int} {block : Block} (held : Held [] s) (holds : law [] s.state)
    (run : s.initChain address sk pk now = .ok s') (stored : s'.latestBlock = some block) :
    law [block] s'.state ∧ Held [block] s' := by
  unfold initChain at run
  rw [if_neg (by rw [held.height]; decide)] at run
  dsimp only at run
  generalize (if pk.isEmpty then s.state.staking.validators.getD address [] else pk) = key at run
  have registrations : ∀ tx ∈ ((Block.genesis address
      (if key.isEmpty then [] else [registration address sk key now]) now).sign sk).transactions,
      tx.txType = .REGISTER_VALIDATOR := by
    intro tx inside
    simp only [Block.signTransactions,Block.genesis] at inside
    split at inside
    · cases inside
    · cases List.mem_singleton.mp inside
      rfl
  have first : ((Block.genesis address
      (if key.isEmpty then [] else [registration address sk key now]) now).sign sk).index = 0 := rfl
  generalize (Block.genesis address
    (if key.isEmpty then [] else [registration address sk key now]) now).sign sk = genesis
    at run registrations first
  simp only [Outcome.bindOk] at run
  obtain ⟨t,appended,u,replaced,run⟩ := run
  cases run
  obtain ⟨c,grown⟩ := appendInnerOk (appendBlockOk appended)
  have staked : Held ([] ++ [genesis]) (if pk.isEmpty then t else t.autoStake address).stateRoot.2 := by
    have before := appendedHeld held first grown
    split
    · exact before.beside rfl rfl rfl
    · exact before.beside (Backend.storedMapStore _ t.backend (fun d => Store.keepsRefl d)) rfl rfl
  have state : SameIndex t.state.index (if pk.isEmpty then t else t.autoStake address).state.index ∧
      (if pk.isEmpty then t else t.autoStake address).state.staking.revokedKeys =
        t.state.staking.revokedKeys := by
    split <;> exact ⟨rfl,rfl⟩
  generalize (if pk.isEmpty then t else t.autoStake address) = staking at replaced staked state
  have final := replaceTipHeld staked (stampedIndex ..) replaced
  obtain ⟨backend,blockByHash,rfl⟩ := replaceTipOk replaced
  cases stored
  have applied := grown.applied
  rw [held.height] at applied
  have before := laws.append holds (fun started => absurd rfl started) (.inr registrations) applied
  have pruned : t.state.staking.revokedKeys = c.staking.revokedKeys := by
    rw [grown.staking]
    unfold Staking.pruneDistributions
    split <;> rfl
  refine ⟨laws.restamp (laws.frame before (sameIndexTrans grown.index state.1)
    (state.2.trans pruned)) rfl rfl,final.beside rfl rfl rfl⟩

theorem historyLaw (laws : Law meets law) {chain : List Block} {s : Blockchain}
    (history : History meets chain s) : law chain s.state ∧ Held chain s := by
  induction history with
  | memory => exact ⟨laws.frame laws.begins rfl rfl,rfl,rfl,rfl,fun i block found => by simp at found⟩
  | sqlite =>
    refine ⟨laws.frame laws.begins rfl rfl,⟨rfl,fun i => ?_⟩,rfl,rfl,fun i block found => by simp at found⟩
    simp [listAt]
  | initChain address sk pk now prior run stored ih => exact initChainLaw laws ih.2 ih.1 run stored
  | @activate chain s s' address prior run ih =>
    obtain ⟨height,tip,-,-,-,index,staking,-,stored⟩ := activateKeeps run
    exact ⟨laws.frame ih.1 (by rw [index]; rfl) (by rw [staking]),ih.2.beside stored height tip⟩
  | @submit chain s now tx prior ih =>
    obtain ⟨height,tip⟩ := submitTip s now tx
    refine ⟨by rw [submitState]; exact ih.1,ih.2.beside ?_ height tip⟩
    unfold submitTx
    split <;> rfl
  | @accept chain s s' block prior step met ih =>
    obtain ⟨c,grown⟩ := acceptsGrown step
    have height : s.height + 1 = chain.length := by rw [ih.2.height]; omega
    have applied := grown.applied
    rw [height] at applied
    refine ⟨?_,acceptsHeld ih.2 step⟩
    refine laws.frame (laws.append ih.1 (fun started => ?_) (.inl met) applied) grown.index ?_
    · have later : block.index ≠ 0 := by
        have := List.length_pos_iff.mpr started
        rw [acceptsPosition ih.2.coherent step,height]
        omega
      exact ⟨grown.checked later,acceptsUnrevoked step later⟩
    · rw [grown.staking]
      unfold Staking.pruneDistributions
      split <;> rfl
  | rollback target prior run ih => exact rollbackToLaw laws ih.2 ih.1 run
  | reload verify prior stored run ih =>
    have holds := ih.2.holds
    rw [stored] at holds
    have replayed := loadReplayed holds run
    exact ⟨laws.reload ih.1 replayed.index replayed.revoked,replayed.backend ▸ holds,replayed.height,
      replayed.latestBlock,ih.2.placed⟩

end Rule

end Blockchain

namespace Devnet
attribute [local instance] legacy
open Blockchain

theorem genesisHistory {meets : List Block → Block → Prop} : History meets [genesis.tipBlock] genesis := by
  have tip : genesis.latestBlock.isSome = true := by decide +kernel
  exact .initChain address key key 100 .memory genesisRuns (tipStored tip)

theorem notarizedHistory {meets : List Block → Block → Prop}
    (met : meets [genesis.tipBlock] notarized.tipBlock) :
    History meets [genesis.tipBlock,notarized.tipBlock] notarized := by
  have founded : History meets [genesis.tipBlock] active := .activate address genesisHistory activeRuns
  have submitted : History meets [genesis.tipBlock] notarizing := by
    rw [notarizing]
    exact .submit 101 (notarization 0) founded
  exact .accept notarized.tipBlock submitted notarizes.1 met

end Devnet

end QbitNetwork
