import QbitNetwork.Accounting
import QbitNetwork.ConsensusLaws

/-! Accepted blocks on the roster: the staking tables before each transaction of a block,
and after it, are the roster's run over the transactions so far. -/
namespace QbitNetwork

namespace Staking

theorem pruneRoster (k : Staking) (before : Int) :
    (k.pruneDistributions before).roster = k.roster := by
  unfold pruneDistributions
  split <;> rfl

end Staking

namespace Roster

theorem registerKeyOf {r : Roster} {tx : Transaction} {a : Address} {pk : Bytes}
    (known : (r.register tx).keyOf a = some pk) :
    r.keyOf a = some pk ∨
      (a = target tx ∧ fromHex (tx.payload.validatorPubkey.getD "") = some pk) := by
  simp only [register] at known
  split at known
  · dsimp only at known
    by_cases same : a = target tx
    · subst same
      rw [Function.update_self] at known
      exact .inr ⟨rfl,known⟩
    · rw [Function.update_of_ne same] at known
      exact .inl known
  · exact .inl known

theorem registerSlashed (r : Roster) (tx : Transaction) :
    (r.register tx).slashed = r.slashed := by
  simp only [register]
  split <;> rfl

theorem revokeKeyOf {r : Roster} {tx : Transaction} {a : Address} {pk : Bytes}
    (known : (r.revoke tx).keyOf a = some pk) : r.keyOf a = some pk := by
  simp only [revoke] at known
  split at known
  · by_cases same : a = tx.sender
    · subst same; simp at known
    · rwa [Function.update_of_ne same] at known
  · exact known

variable [Env]

theorem runTakeSucc (r : Roster) {txs : List Transaction} {i : Nat} {tx : Transaction}
    (found : txs[i]? = some tx) : r.run (txs.take (i + 1)) = (r.run (txs.take i)).step tx := by
  rw [List.take_add_one,found,runAppend]
  rfl

theorem runInvariant {holds : Roster → Prop} {r : Roster} {txs : List Transaction} (start : holds r)
    (steps : ∀ i tx, txs[i]? = some tx → holds (r.run (txs.take i)) →
      holds ((r.run (txs.take i)).step tx)) (i : Nat) : holds (r.run (txs.take i)) := by
  induction i with
  | zero => exact start
  | succ i ih =>
    cases found : txs[i]? with
    | none =>
      have short := List.getElem?_eq_none_iff.mp found
      rw [List.take_of_length_le (by omega)]
      rwa [List.take_of_length_le short] at ih
    | some tx =>
      rw [runTakeSucc r found]
      exact steps i tx found ih

theorem runWhole {holds : Roster → Prop} {r : Roster} {txs : List Transaction} (start : holds r)
    (steps : ∀ i tx, txs[i]? = some tx → holds (r.run (txs.take i)) →
      holds ((r.run (txs.take i)).step tx)) : holds (r.run txs) := by
  have whole := runInvariant start steps txs.length
  rwa [List.take_length] at whole

end Roster

namespace ChainState
variable [Env]

def beforeTx (s : ChainState) (block : Block) (idx : Int) (i : Nat) :
    Except (Fault ChainState) ChainState := do
  let s ← s.openBlock idx
  (block.transactions.zipIdx.take i).foldlM (applyTx block idx) s

theorem rowsRoster {block : Block} {idx : Int} {rows : List (Transaction × Nat)} {s s' : ChainState}
    (run : rows.foldlM (applyTx block idx) s = .ok s') :
    s'.staking.roster = s.staking.roster.run (rows.map Prod.fst) := by
  rw [Outcome.foldSimulates (fun s : ChainState => s.staking.roster) (fun r row => r.step row.1)
    (fun _ _ _ step => applyTxRoster step) run,Roster.run,List.foldl_map]

theorem beforeTxRoster {s t : ChainState} {block : Block} {idx : Int} {i : Nat}
    (reached : s.beforeTx block idx i = .ok t) :
    t.staking.roster = s.staking.roster.run (block.transactions.take i) := by
  obtain ⟨opened,opening,loop⟩ := Outcome.bindOk .. |>.mp reached
  rw [rowsRoster loop,openBlockRoster opening,List.map_take,List.zipIdx_map_fst]

theorem beforeTxReached {s c : ChainState} {block : Block} {idx : Int}
    (run : s.applyBlock block idx = .ok c) (i : Nat) : ∃ t, s.beforeTx block idx i = .ok t := by
  simp only [applyBlock,Outcome.bindOk] at run
  obtain ⟨opened,opening,looped,loop,-⟩ := run
  obtain ⟨t,reached⟩ := Outcome.foldTake loop i
  exact ⟨t,Outcome.bindOk .. |>.mpr ⟨opened,opening,reached⟩⟩

theorem applyBlockRoster {s c : ChainState} {block : Block} {idx : Int}
    (run : s.applyBlock block idx = .ok c) :
    c.staking.roster = s.staking.roster.run block.transactions := by
  simp only [applyBlock,Outcome.bindOk] at run
  obtain ⟨opened,opening,looped,loop,reward⟩ := run
  have paid : c.staking.roster = looped.staking.roster := by
    simp only [payReward] at reward
    split at reward
    · simp only [Outcome.bindOk,Outcome.withinOk] at reward
      obtain ⟨_,⟨ledger,-,rfl⟩,reward⟩ := reward
      cases reward
      rfl
    · cases reward; rfl
  rw [paid,rowsRoster loop,openBlockRoster opening,List.zipIdx_map_fst]

end ChainState

namespace Blockchain
variable [Env]

theorem acceptsRoster {s s' : Blockchain} {block : Block} (step : Accepts s block s') :
    s'.state.staking.roster = s.state.staking.roster.run block.transactions := by
  obtain ⟨c,grown⟩ := acceptsGrown step
  rw [grown.staking,Staking.pruneRoster,ChainState.applyBlockRoster grown.applied]

end Blockchain

end QbitNetwork
