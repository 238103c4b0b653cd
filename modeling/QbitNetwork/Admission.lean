import QbitNetwork.Accounting
import QbitNetwork.ConsensusLaws

/-! The state-dependent rules of the pool, met by the transactions of a block. The block
path makes none of these checks; a block meets them exactly where its transactions,
replayed on the roster before it, do. -/
namespace QbitNetwork

namespace Roster
variable [Env]

def Admits (founder : Option Address) (r : Roster) (tx : Transaction) : Prop :=
  match tx.txType with
  | .STAKE | .DELEGATE => r.keyOf (target tx) ≠ none ∧ target tx ∉ r.slashed
  | .UNSTAKE => r.keyOf (target tx) ≠ none ∧ amount tx ≤ r.stake (target tx) tx.sender
  | .SHARE => tx.recipient ≠ ""
  | .EVIDENCE => r.keyOf (target tx) ≠ none ∧ target tx ∉ r.processed
  | .REVOKE_KEY =>
    revocationKey tx.sender (tx.payload.keyType.getD "") ∉ r.revoked ∧
      ¬(tx.payload.keyType.getD "" ∈ ["validator","signing"] ∧ founder = some tx.sender)
  | _ => True

def AdmitsAll (founder : Option Address) (r : Roster) (txs : List Transaction) : Prop :=
  ∀ i tx, txs[i]? = some tx → Admits founder (r.run (txs.take i)) tx

end Roster

namespace Blockchain
variable [Env]

def poolRules (s : Blockchain) (tx : Transaction) : Check := do
  refuseIf (tx.txType = .SHARE ∧ tx.recipient = "") "SHARE tx requires recipient"
  s.stakeCheck tx
  s.keyCheck tx

def beforeTx (s : Blockchain) (block : Block) (i : Nat) : Except (Fault Blockchain) Blockchain := do
  let s' ← s.storeBlock block
  let s' ← (s'.advanceTip block (s.height + 1)).openBlock (s.height + 1)
  match (block.transactions.zipIdx.take i).foldlM (applyBlockTx block (s.height + 1))
      { chain := s' } with
  | .ok p => .ok p.chain
  | .error r => .error ⟨r.exception,r.state.chain⟩

def firstBlock (stored : List Block ⊕ (Int × Dict Int Block)) : Option Block :=
  match stored with
  | .inl chainList => chainList.head?
  | .inr (_,blocks) => blocks[(0 : Int)]?

omit [Env] in
theorem getFirstBlock (s : Blockchain) : s.getBlockByIndex 0 = firstBlock s.backend.stored := by
  unfold getBlockByIndex
  cases s.backend with
  | memory chainList => cases chainList <;> rfl
  | sqlite store => rfl

def founder (s : Blockchain) (block : Block) : Option Address :=
  if 0 ≤ s.height + 1 then (firstBlock (extended s.backend.stored block)).map Block.validator
  else none

omit [Env] in
theorem poolRulesRoster {s : Blockchain} {founder : Option Address}
    (guard : founder =
      if 0 ≤ s.height then (s.getBlockByIndex 0).map Block.validator else none)
    (tx : Transaction) :
    s.poolRules tx = .ok () ↔ s.state.staking.roster.Admits founder tx := by
  have registered : ∀ vaddr, s.state.staking.isRegisteredValidator vaddr =
      (s.state.staking.roster.keyOf vaddr).isSome := by
    intro vaddr
    simp only [Staking.isRegisteredValidator,Staking.roster,Std.ExtTreeMap.contains_eq_isSome_getElem?]
  have revoked : ∀ keyType, s.isKeyRevoked tx.sender keyType = true ↔
      revocationKey tx.sender keyType ∈ s.state.staking.roster.revoked := by
    intro keyType
    exact Std.ExtTreeMap.contains_iff_mem
  have slashed : ∀ vaddr, vaddr ∈ s.state.staking.slashedValidators ↔
      vaddr ∈ s.state.staking.roster.slashed := fun _ => Iff.rfl
  have processed : ∀ vaddr, vaddr ∈ s.state.staking.processedEvidence ↔
      vaddr ∈ s.state.staking.roster.processed := fun _ => Iff.rfl
  cases kind : tx.txType <;>
    simp only [poolRules,stakeCheck,keyCheck,Roster.Admits,kind,Outcome.bindOk,refuseIfOk,passOk,
      registered,slashed,processed,reduceCtorEq,or_false,or_true,if_true,if_false]
  case REVOKE_KEY =>
    rw [revoked]
    split
    · rename_i guarded
      rw [guard,if_pos guarded.2]
      have listed : tx.payload.keyType.getD "" ∈ ["validator","signing"] := by
        simpa using guarded.1
      simp [listed]
    · rename_i free
      have passes : ¬(tx.payload.keyType.getD "" ∈ ["validator","signing"] ∧
          founder = some tx.sender) := by
        rintro ⟨listed,same⟩
        refine free ⟨by simpa using listed,?_⟩
        by_contra low
        rw [guard,if_neg low] at same
        contradiction
      simpa using fun _ => passes
  all_goals simp [Staking.getStakerInfo,Staking.roster]

theorem beforeTxOk {s s' : Blockchain} {block : Block} (run : s.appendBlockInner block = .ok s')
    (i : Nat) : ∃ t, s.beforeTx block i = .ok t ∧
      t.state.staking.roster = s.state.staking.roster.run (block.transactions.take i) ∧
      t.backend.stored = extended s.backend.stored block ∧ t.height = s.height + 1 := by
  simp only [appendBlockInner,Outcome.bindOk] at run
  obtain ⟨s1,stored,s2,opened,run⟩ := run
  obtain ⟨backend,rfl,extension⟩ := storeBlockOk stored
  obtain ⟨openedState,openedKept⟩ := openBlockOk opened
  split at run
  · contradiction
  · rename_i p applied
    obtain ⟨q,taken⟩ := Outcome.foldTake applied i
    have kept := openedKept.trans (Outcome.foldInvariant (fun p : Progress => Kept s2 p.chain)
      (fun _ _ _ kept step => kept.trans (applyBlockTxOk step).2) (keptRefl s2) taken)
    refine ⟨q.chain,?_,?_,?_,?_⟩
    · simp only [beforeTx,stored,bind,Except.bind,opened,taken]
    · have roster := Outcome.foldSimulates (fun p : Progress => p.chain.state.staking.roster)
        (fun r row => r.step row.1) (fun _ _ _ step =>
          ChainState.applyTxRoster (applyBlockTxOk step).1) taken
      rw [roster,ChainState.openBlockRoster openedState,← List.foldl_map,List.map_take,
        List.zipIdx_map_fst]
      rfl
    · exact kept.stored.trans extension
    · exact kept.height

theorem blockRulesIff {s s' : Blockchain} {block : Block} {now : Int}
    (answer : s.addBlock block now = (.accepted,s')) :
    (∀ i tx, block.transactions[i]? = some tx →
      ∃ t, s.beforeTx block i = .ok t ∧ t.poolRules tx = .ok ()) ↔
    s.state.staking.roster.AdmitsAll (s.founder block) block.transactions := by
  obtain ⟨u,appended⟩ := addBlockAppends answer
  have states := beforeTxOk appended
  have admitted : ∀ i tx t, s.beforeTx block i = .ok t → (t.poolRules tx = .ok () ↔
      (s.state.staking.roster.run (block.transactions.take i)).Admits (s.founder block) tx) := by
    intro i tx t reached
    obtain ⟨u,same,roster,stored,height⟩ := states i
    rw [reached] at same
    cases same
    rw [← roster]
    refine poolRulesRoster ?_ tx
    rw [founder,getFirstBlock,stored,height]
  constructor
  · intro rules i tx found
    obtain ⟨t,reached,passes⟩ := rules i tx found
    exact (admitted i tx t reached).mp passes
  · intro admits i tx found
    obtain ⟨t,reached,-⟩ := states i
    exact ⟨t,reached,(admitted i tx t reached).mpr (admits i tx found)⟩

end Blockchain

end QbitNetwork

namespace QbitNetwork.Devnet
attribute [local instance] legacy
open Blockchain

def delegate : Transaction :=
  Transaction.sign
    { txType := .DELEGATE
      sender := address
      payload := { amount := some 1, validatorAddress := some "qv1nobody" }
      timestamp := 101 } key key

def delegating : Block := ((active.admitTx delegate).produceBlock address key 102 102).2.tipBlock

def refuses (reached : Except (Fault Blockchain) Blockchain) (tx : Transaction) : Bool :=
  match reached with
  | .ok t => !(t.poolRules tx).isOk
  | .error _ => false

theorem refusedBefore {reached : Except (Fault Blockchain) Blockchain} {tx : Transaction}
    (refused : refuses reached tx = true) : ∃ t, reached = .ok t ∧ t.poolRules tx ≠ .ok () := by
  cases reached with
  | error r => contradiction
  | ok t =>
    refine ⟨t,rfl,?_⟩
    intro passes
    simp [refuses,passes,Except.isOk,Except.toBool] at refused

theorem poolRulesBypassed :
    Built active ∧ (active.addBlock delegating 102).1 = .accepted ∧
      delegating.transactions[0]? = some delegate ∧
      ∃ t, active.beforeTx delegating 0 = .ok t ∧ t.poolRules delegate ≠ .ok () := by
  have run : (active.addBlock delegating 102).1 = .accepted ∧
      delegating.transactions[0]? = some delegate ∧
      refuses (active.beforeTx delegating 0) delegate = true := by decide +kernel
  obtain ⟨answer,first,refused⟩ := run
  exact ⟨activeBuilt,answer,first,refusedBefore refused⟩

end QbitNetwork.Devnet

namespace QbitNetwork.Devnet
attribute [local instance] turning
open Blockchain

theorem blockRulesTrading : (endowed.addBlock traded.tipBlock 103).1 = .accepted ∧
    ∀ i tx, traded.tipBlock.transactions[i]? = some tx →
      ∃ t, endowed.beforeTx traded.tipBlock i = .ok t ∧ t.poolRules tx = .ok () := by
  have run : (endowed.addBlock traded.tipBlock 103).1 = .accepted ∧
      endowed.state.staking.validatorRegistry[payer]? ≠ none ∧
      1 ≤ endowed.state.staking.stakes.get (payer,payer) := by decide +kernel
  obtain ⟨answer,registered,staked⟩ := run
  refine ⟨answer,(blockRulesIff (acceptedState answer)).mpr ?_⟩
  rw [trades.2.1]
  intro i tx found
  match i with
  | 0 =>
    cases found
    trivial
  | 1 =>
    cases found
    exact ⟨registered,staked⟩
  | _ + 2 => cases found

end QbitNetwork.Devnet
