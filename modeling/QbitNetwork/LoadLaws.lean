import QbitNetwork.Load
import QbitNetwork.Storage

/-! What a load that succeeds has made of the stored blocks. -/
namespace QbitNetwork

namespace Index
variable [Env]

def enter (idx : Int) (x : Index) (row : Transaction × Nat) : Index :=
  (x.recordTx idx row.2 row.1).applyTx row.1

def enterBlock (x : Index) (row : Block × Nat) : Index :=
  row.1.transactions.zipIdx.foldl (enter row.2) x

def ofChain (chain : List Block) : Index := chain.zipIdx.foldl enterBlock {}

theorem ofChainAppend (chain : List Block) (block : Block) :
    ofChain (chain ++ [block]) = enterBlock (ofChain chain) (block,chain.length) := by
  rw [ofChain,List.zipIdx_append,List.foldl_append,← ofChain]
  simp

end Index

namespace Staking
variable [Env]

def enterRevocation (revoked : Dict String Revocation) (tx : Transaction) : Dict String Revocation :=
  if tx.txType = .REVOKE_KEY then
    revoked.insert (revocationKey tx.sender (tx.payload.keyType.getD ""))
      ⟨tx.txId,tx.timestamp,tx.payload.reason.getD ""⟩
  else revoked

omit [Env] in
theorem setCommissionRevoked (k : Staking) (vaddr : Address) (commission : Option Int) :
    (k.setCommission vaddr commission).revokedKeys = k.revokedKeys := by
  unfold setCommission
  split
  · split <;> rfl
  · rfl

omit [Env] in
theorem revokeKeyRevoked (k : Staking) (sender : Address) (p : Payload) (revocation : Revocation) :
    (k.revokeKey sender p revocation).revokedKeys =
      k.revokedKeys.insert (revocationKey sender (p.keyType.getD "")) revocation := by
  simp only [revokeKey]
  split <;> rfl

omit [Env] in
theorem addStakeRevoked (k : Staking) (staker : Address) (p : Payload) :
    (k.addStake staker p).revokedKeys = k.revokedKeys := by
  simp only [addStake]
  split <;> rfl

omit [Env] in
theorem unstakeRevoked (k : Staking) (staker : Address) (p : Payload) (idx : Int) :
    (k.unstake staker p idx).revokedKeys = k.revokedKeys := by
  simp only [unstake]
  split <;> rfl

theorem reloadTxRevoked {k k' : Staking} {tx : Transaction} {idx storeHeight : Int}
    (run : k.reloadTx tx idx storeHeight = .ok k') :
    k'.revokedKeys = enterRevocation k.revokedKeys tx := by
  cases kind : tx.txType <;> simp only [reloadTx,kind] at run <;>
    simp only [enterRevocation,kind,reduceCtorEq,if_true,if_false]
  case REGISTER_VALIDATOR =>
    simp only [reloadRegistration] at run
    split at run
    · contradiction
    · cases run
      rfl
    · cases run
      exact setCommissionRevoked ..
  all_goals cases run
  case REVOKE_KEY => exact revokeKeyRevoked ..
  case STAKE => exact addStakeRevoked ..
  case DELEGATE => exact addStakeRevoked ..
  case UNSTAKE =>
    simp only [reloadUnstake]
    split <;> exact unstakeRevoked ..
  all_goals rfl

omit [Env] in
theorem loadValidatorRevoked {k k' : Staking} {row : Address × String}
    (run : k.loadValidator row = .ok k') : k'.revokedKeys = k.revokedKeys := by
  unfold loadValidator at run
  split at run
  · cases run
    rfl
  · split at run
    · contradiction
    · cases run
      rfl

omit [Env] in
theorem loadTablesRevoked {k k' : Staking} {d : Store} (run : k.loadTables d = .ok k') :
    k'.revokedKeys = k.revokedKeys := by
  simp only [loadTables,Outcome.bindOk] at run
  obtain ⟨registered,loaded,run⟩ := run
  cases run
  have first := Outcome.foldInvariant (fun k' : Staking => k'.revokedKeys = k.revokedKeys)
    (fun _ _ _ kept step => (loadValidatorRevoked step).trans kept) rfl loaded
  have epochs : ∀ (rows : List (Int × Int × List (Address × Int))) (k : Staking),
      (rows.foldl loadEpoch k).revokedKeys = k.revokedKeys := by
    intro rows
    induction rows with
    | nil => exact fun _ => rfl
    | cons row rest ih =>
      intro k
      refine (ih _).trans ?_
      simp only [loadEpoch]
      split <;> rfl
  have slashing : ∀ (events : List SlashingEvent) (k : Staking),
      (events.foldl loadSlashing k).revokedKeys = k.revokedKeys := by
    intro events
    induction events with
    | nil => exact fun _ => rfl
    | cons event rest ih => exact fun k => ih _
  have reconciled : ∀ (addresses : List Address) (k : Staking),
      (addresses.foldl reconcileSlashed k).revokedKeys = k.revokedKeys := by
    intro addresses
    induction addresses with
    | nil => exact fun _ => rfl
    | cons vaddr rest ih =>
      intro k
      refine (ih _).trans ?_
      simp only [reconcileSlashed]
      split <;> rfl
  rw [reconciled,slashing,epochs]
  exact first

end Staking

namespace Blockchain
variable [Env]

structure Replayed (prior : List Block) (start t : Blockchain) : Prop where
  backend : t.backend = start.backend
  height : t.height = (prior.length : Int) - 1
  latestBlock : t.latestBlock = prior.getLast?
  index : t.state.index = Index.ofChain prior
  revoked : t.state.staking.revokedKeys =
    (prior.flatMap Block.transactions).foldl Staking.enterRevocation ∅

theorem reloadTxsShape {rows : List (Transaction × Nat)} {idx storeHeight : Int} {s t : Blockchain}
    (run : rows.foldlM (reloadTx idx storeHeight) s = .ok t) :
    ∃ state, t = s.withState state ∧ state.index = rows.foldl (Index.enter idx) s.state.index ∧
      state.staking.revokedKeys =
        (rows.map Prod.fst).foldl Staking.enterRevocation s.state.staking.revokedKeys := by
  induction rows generalizing s with
  | nil =>
    cases run
    exact ⟨t.state,rfl,rfl,rfl⟩
  | cons row rest ih =>
    rw [List.foldlM_cons,Outcome.bindOk] at run
    obtain ⟨mid,first,run⟩ := run
    simp only [reloadTx] at first
    obtain ⟨staking,reloaded,rfl⟩ := (Outcome.withinOk ..).mp first
    obtain ⟨state,rfl,index,revoked⟩ := ih run
    refine ⟨state,rfl,index,revoked.trans ?_⟩
    rw [List.map_cons,List.foldl_cons,← Staking.reloadTxRevoked reloaded]
    rfl

theorem loadBlockReplayed {chain : List Block} {start : Blockchain} {verify : Bool} {storeHeight : Int}
    {i : Nat} {l l' : Loading} (holds : start.backend.Holds chain) (below : i < chain.length)
    (replayed : Replayed (chain.take i) start l.chain)
    (run : loadBlock verify storeHeight l i = .ok l') : Replayed (chain.take (i + 1)) start l'.chain := by
  have stored : l.chain.getBlockByIndex i = some chain[i] := by
    rw [getBlockByIndex,replayed.backend,Backend.getBlockHolds holds,listAtNat,List.getElem?_eq_getElem below]
  simp only [loadBlock,stored] at run
  split at run
  · contradiction
  · split at run
    · contradiction
    · split at run
      · contradiction
      · rename_i t reloaded
        cases run
        obtain ⟨state,rfl,index,revoked⟩ := reloadTxsShape reloaded
        have size : (chain.take i).length = i := by
          rw [List.length_take]
          omega
        rw [List.take_succ_eq_append_getElem below]
        refine ⟨replayed.backend,?_,?_,?_,?_⟩
        · rw [List.length_append,size,List.length_singleton]
          show (i : Int) = _
          omega
        · rw [List.getLast?_concat]
          rfl
        · rw [Index.ofChainAppend,size,← replayed.index]
          exact index
        · rw [List.flatMap_append,List.flatMap_singleton,List.foldl_append,← replayed.revoked]
          rw [List.zipIdx_map_fst] at revoked
          exact revoked

theorem loadBlocksReplayed {chain : List Block} {start : Blockchain} {verify : Bool} {storeHeight : Int}
    {l l' : Loading} (holds : start.backend.Holds chain) (n : Nat) (below : n ≤ chain.length)
    (begun : Replayed [] start l.chain)
    (run : ((List.range n).map (fun (i : Nat) => (i : Int))).foldlM (loadBlock verify storeHeight) l = .ok l') :
    Replayed (chain.take n) start l'.chain := by
  induction n generalizing l' with
  | zero =>
    cases run
    exact begun
  | succ n ih =>
    rw [List.range_succ,List.map_append,List.foldlM_append,Outcome.bindOk] at run
    obtain ⟨mid,first,run⟩ := run
    have before := ih (by omega) first
    simp only [List.map_cons,List.map_nil,List.foldlM_cons,List.foldlM_nil,Outcome.bindOk] at run
    obtain ⟨last,step,run⟩ := run
    cases run
    exact loadBlockReplayed holds (by omega) before step

omit [Env] in
theorem reopenedHolds {d : Store} {chain : List Block} (holds : (Backend.sqlite d).Holds chain) :
    d.reopened = d := by
  unfold Store.reopened
  rw [maxKeyByPosition holds.2,← holds.1]

theorem loadTablesReplayed {chain : List Block} {start s s' : Blockchain} {d : Store} {storeHeight : Int}
    (replayed : Replayed chain start s) (run : s.loadTables d storeHeight = .ok s') :
    Replayed chain start s' := by
  simp only [loadTables,Outcome.bindOk,Outcome.withinOk] at run
  obtain ⟨_,⟨staking,loaded,rfl⟩,run⟩ := run
  cases run
  exact ⟨replayed.backend,replayed.height,replayed.latestBlock,replayed.index,
    (Staking.loadTablesRevoked loaded).trans replayed.revoked⟩

theorem Replayed.withTrie {chain : List Block} {start s : Blockchain} (replayed : Replayed chain start s)
    (trie : StateTrie) : Replayed chain start (s.withTrie trie) :=
  ⟨replayed.backend,replayed.height,replayed.latestBlock,replayed.index,replayed.revoked⟩

theorem checkLoadedRootOk {s s' : Blockchain} (run : s.checkLoadedRoot = .ok s') :
    ∃ trie, s' = s.withTrie trie := by
  simp only [checkLoadedRoot] at run
  split at run
  · cases run
    exact ⟨s.trie,rfl⟩
  · split at run
    · contradiction
    · cases run
      exact ⟨_,rfl⟩

theorem loadFromSqliteOk {s s' : Blockchain} {d : Store} {verify : Bool}
    (run : s.loadFromSqlite d verify = .ok (true,s')) :
    ∃ l t trie, (storedHeights d.reopened.height).foldlM (loadBlock verify d.reopened.height)
        { chain := { s with backend := .sqlite d.reopened },
          loadValidators := if verify then s.state.staking.validators else ∅ } = .ok l ∧
      l.chain.loadTables d.reopened d.reopened.height = .ok t ∧ s' = t.withTrie trie := by
  simp only [loadFromSqlite] at run
  split at run
  · simp at run
  · split at run
    · simp at run
    · contradiction
    · rename_i l looped
      simp only [Outcome.bindOk] at run
      obtain ⟨t,tables,u,rebuilt,v,checked,run⟩ := run
      cases run
      obtain ⟨trie,-,rfl⟩ := rebuildStateTrieOk rebuilt
      obtain ⟨final,rfl⟩ := checkLoadedRootOk checked
      exact ⟨l,t,final,looped,tables,rfl⟩

theorem loadNew (d : Store) (validators : Dict Address Bytes) (verify : Bool) :
    (new (.sqlite d) validators).load verify = (new (.sqlite d) validators).loadFromSqlite d verify := by
  have low : ¬0 ≤ (new (.sqlite d) validators).height := show ¬(0 : Int) ≤ -1 by decide
  rw [load,if_neg low]
  rfl

theorem loadReplayed {chain : List Block} {d : Store} {validators : Dict Address Bytes} {verify : Bool} {s' : Blockchain}
    (holds : (Backend.sqlite d).Holds chain) (run : (new (.sqlite d) validators).load verify = .ok (true,s')) :
    Replayed chain (new (.sqlite d) validators) s' := by
  rw [loadNew] at run
  obtain ⟨l,t,trie,looped,tables,rfl⟩ := loadFromSqliteOk run
  rw [reopenedHolds holds] at looped tables
  have heights : storedHeights d.height = (List.range chain.length).map (fun (i : Nat) => (i : Int)) := by
    unfold storedHeights
    rw [holds.1]
    congr 2
    omega
  rw [heights] at looped
  have begun : Replayed [] (new (.sqlite d) validators) (new (.sqlite d) validators) := ⟨rfl,rfl,rfl,rfl,rfl⟩
  have replayed := loadBlocksReplayed holds chain.length (Nat.le_refl _) begun looped
  rw [List.take_length] at replayed
  exact (loadTablesReplayed replayed tables).withTrie trie

end Blockchain

end QbitNetwork
