import QbitNetwork.Emission
import QbitNetwork.Supply
import QbitNetwork.Unwinding

/-! The unbonding queue over a run of accepted blocks: what a block unstakes waits for the
unbonding period and is then paid out once. -/
namespace QbitNetwork

open Staking (queued)

def unstaked (block : Block) (height : Int) : List UnbondingEntry := block.transactions.flatMap (queued · height)

def entriesOf (chain : List Block) (keep : Int → Bool) : List UnbondingEntry :=
  (chain.zipIdx.filter (fun row => keep row.2)).flatMap (fun row => unstaked row.1 row.2)

def waiting (chain : List Block) (height : Int) : List UnbondingEntry :=
  entriesOf chain (fun i => height < i + unbondingPeriod)

def maturing (chain : List Block) (height : Int) : List UnbondingEntry :=
  entriesOf chain (fun i => i + unbondingPeriod = height)

theorem unstakedRelease {block : Block} {height : Int} {entry : UnbondingEntry} (inside : entry ∈ unstaked block height) :
    entry.releaseBlock = height + unbondingPeriod := by
  obtain ⟨tx,-,listed⟩ := List.mem_flatMap.mp inside
  exact Staking.queuedRelease listed

theorem entriesSnoc (chain : List Block) (block : Block) (keep : Int → Bool) :
    entriesOf (chain ++ [block]) keep =
      entriesOf chain keep ++ if keep chain.length then unstaked block chain.length else [] := by
  unfold entriesOf
  rw [List.zipIdx_append,List.filter_append,List.flatMap_append]
  congr 1
  simp only [List.zipIdx_singleton,Nat.zero_add,List.filter_singleton]
  split <;> simp_all

theorem entriesFilter (chain : List Block) (keep due : Int → Bool) :
    (entriesOf chain keep).filter (fun entry => due entry.releaseBlock) =
      entriesOf chain (fun i => keep i && due (i + unbondingPeriod)) := by
  induction chain using List.reverseRecOn with
  | nil => rfl
  | append_singleton chain block ih =>
    rw [entriesSnoc,entriesSnoc,List.filter_append,ih]
    congr 1
    by_cases kept : keep chain.length = true
    · rw [if_pos kept,kept,Bool.true_and]
      have all : ∀ entry ∈ unstaked block chain.length, due entry.releaseBlock = due (chain.length + unbondingPeriod) :=
        fun entry inside => by rw [unstakedRelease inside]
      split
      · rename_i now
        exact List.filter_eq_self.mpr (fun entry inside => (all entry inside).trans now)
      · rename_i later
        exact List.filter_eq_nil_iff.mpr (fun entry inside => by rw [all entry inside]; exact later)
    · rw [if_neg kept,if_neg (by simp [kept])]
      rfl

theorem entriesCongr {chain : List Block} {keep keep' : Int → Bool}
    (same : ∀ i : Int, 0 ≤ i → i < chain.length → keep i = keep' i) : entriesOf chain keep = entriesOf chain keep' := by
  unfold entriesOf
  congr 1
  refine List.filter_congr (fun row inside => ?_)
  have below := List.snd_lt_of_mem_zipIdx inside
  exact same row.2 (by omega) (by omega)

theorem dueMaturing {k : Staking} {chain : List Block} {height : Int} (holds : k.unbonding = waiting chain height) :
    k.matured (height + 1) = maturing chain (height + 1) ∧
      (k.dropMatured (height + 1)).unbonding = waiting chain (height + 1) := by
  constructor
  · rw [Staking.matured,holds,waiting,maturing,entriesFilter chain _ (fun release => release ≤ height + 1)]
    refine entriesCongr (fun i _ _ => ?_)
    rw [Bool.eq_iff_iff]
    simp only [Bool.and_eq_true,decide_eq_true_eq]
    omega
  · rw [Staking.dropMatured,holds,waiting,waiting]
    dsimp only
    rw [entriesFilter chain _ (fun release => ¬release ≤ height + 1)]
    refine entriesCongr (fun i _ _ => ?_)
    rw [Bool.eq_iff_iff]
    simp only [Bool.and_eq_true,decide_eq_true_eq]
    omega

theorem maturingSnoc {chain : List Block} (block : Block) {height : Int} (reached : height ≤ chain.length) :
    maturing (chain ++ [block]) height = maturing chain height := by
  have period : unbondingPeriod = 100 := rfl
  rw [maturing,entriesSnoc,if_neg (by rw [decide_eq_true_eq,period]; omega),List.append_nil]
  rfl

theorem waitingSnoc (chain : List Block) (block : Block) :
    waiting (chain ++ [block]) chain.length = waiting chain chain.length ++ unstaked block chain.length := by
  have period : unbondingPeriod = 100 := rfl
  rw [waiting,entriesSnoc,if_pos (by rw [decide_eq_true_eq,period]; omega)]
  rfl

namespace ChainState

theorem processMatureCredits {s s' : ChainState} {idx : Int} (active : s.ledger.financialActive = true)
    (run : s.processMatureUnbondings idx = .ok s') (address : Address) :
    s'.ledger.getBalance address = s.ledger.getBalance address +
      (((s.staking.matured idx).filter (fun entry => entry.staker = address)).map UnbondingEntry.amount).sum := by
  simp only [processMatureUnbondings,Outcome.bindOk,Outcome.withinOk] at run
  obtain ⟨_,⟨ledger,paid,rfl⟩,run⟩ := run
  cases run
  have credits : ∀ (entries : List UnbondingEntry) (l : Ledger), l.financialActive = true →
      entries.foldlM (fun (l : Ledger) (entry : UnbondingEntry) =>
        if l.financialActive then l.credit entry.staker entry.amount else .ok l) l = .ok ledger →
      ledger.getBalance address = l.getBalance address +
        ((entries.filter (fun entry => entry.staker = address)).map UnbondingEntry.amount).sum := by
    intro entries
    induction entries with
    | nil =>
      intro l _ run
      cases run
      simp
    | cons entry rest ih =>
      intro l active run
      rw [List.foldlM_cons,if_pos active,Outcome.bindOk] at run
      obtain ⟨mid,credited,run⟩ := run
      obtain ⟨-,moved⟩ := Ledger.creditMoved credited
      rw [ih mid (moved.active.trans active) run,moved.balance]
      by_cases own : entry.staker = address
      · simp only [List.filter_cons,own,decide_true,if_true,List.map_cons,List.sum_cons]
        omega
      · simp only [List.filter_cons,own,Ne.symm own,decide_false,if_false,Bool.false_eq_true]
        omega
  exact credits _ _ active paid

end ChainState

namespace Blockchain
variable [Env]

inductive Started : Block → Blockchain → Prop where
  | made {genesis : Block} {s : Blockchain} {validators : Dict Address Bytes} (address : Address) (sk pk : Bytes)
      (now : Int) (run : (new (.memory []) validators).initChain address sk pk now = .ok s)
      (stored : s.latestBlock = some genesis) : Started genesis s
  | received {genesis : Block} {s : Blockchain} {validators : Dict Address Bytes} (now : Int)
      (answer : (new (.memory []) validators).addBlock genesis now = (.accepted,s)) : Started genesis s
  | activate {genesis : Block} {s s' : Blockchain} (address : Address) (prior : Started genesis s)
      (run : s.activateFinancialLayer address = .ok s') : Started genesis s'

inductive Extends (s : Blockchain) : List (Blockchain × Block) → Blockchain → Prop where
  | start : Extends s [] s
  | submit {moves : List (Blockchain × Block)} {m : Blockchain} (now : Int) (tx : Transaction)
      (prior : Extends s moves m) : Extends s moves (m.submitTx now tx).2
  | accept {moves : List (Blockchain × Block)} {m s' : Blockchain} (block : Block) (prior : Extends s moves m)
      (step : Accepts m block s') : Extends s (moves ++ [(m,block)]) s'

structure Credits (m : Blockchain) (block : Block) (height : Int) (entries : List UnbondingEntry) : Prop where
  due : m.state.staking.matured height = entries
  paid : ∃ state, m.state.processMatureUnbondings height = .ok state ∧
    (∀ address, state.ledger.getBalance address = m.getBalance address +
      ((entries.filter (fun entry => entry.staker = address)).map UnbondingEntry.amount).sum) ∧
    m.state.applyBlock block height = (do
      let opened ← state.checkEpochTransition height
      let looped ← opened.applyTxs block height
      looped.payReward block height)

/- Every UNSTAKE of the blocks after genesis makes one entry; every block credits what is due at
its height and nothing else; the rest waits, in the order of the chain. -/
structure PaidOnce (genesis : Block) (moves : List (Blockchain × Block)) (s : Blockchain) : Prop where
  height : s.height = moves.length
  waiting : s.state.staking.unbonding = waiting (genesis :: moves.map Prod.snd) s.height
  credited : ∀ (i : Nat) (move : Blockchain × Block), moves[i]? = some move →
    Credits move.1 move.2 (i + 1) (maturing (genesis :: moves.map Prod.snd) (i + 1))
  entry : ∀ move ∈ moves, ∀ tx ∈ move.2.transactions, tx.txType = .UNSTAKE → ∃ amount validator,
    0 < amount ∧ tx.payload.amount = some amount ∧ tx.payload.validatorAddress = some validator ∧
      ∀ height, queued tx height = [⟨tx.sender,validator,amount,height + unbondingPeriod⟩]

section Start
variable {s s' : Blockchain} {genesis block : Block}

theorem appliedQueue {m : Blockchain} {c : ChainState} (applied : m.state.applyBlock block (m.height + 1) = .ok c)
    (staking : s'.state.staking = c.staking.pruneDistributions (pruneBefore (m.height + 1))) :
    s'.state.staking.unbonding =
      (m.state.staking.dropMatured (m.height + 1)).unbonding ++ unstaked block (m.height + 1) := by
  have queue := (ChainState.applyBlockQueue applied).1
  rw [staking,Staking.pruneDistributions]
  split <;> exact queue

theorem madeQueue {validators : Dict Address Bytes} {address : Address} {sk pk : Bytes} {now : Int}
    (run : (new (.memory []) validators).initChain address sk pk now = .ok s) (stored : s.latestBlock = some genesis) :
    s.height = 0 ∧ s.state.staking.unbonding = unstaked genesis 0 := by
  obtain ⟨_,made,t,staked,_,_,stamped,-,-,appended,same,stamp,final⟩ := initChainOk (show (-1 : Int) < 0 by decide) run
  obtain ⟨c,grown⟩ := appendInnerOk appended
  have queue := appliedQueue grown.applied grown.staking
  have kept : staked.height = t.height ∧ staked.state.staking.unbonding = t.state.staking.unbonding := by
    rw [same]
    split <;> exact ⟨rfl,rfl⟩
  have height : s.height = staked.height := final ▸ rfl
  have unbonding : s.state.staking.unbonding = staked.state.staking.unbonding := final ▸ rfl
  have tip : s.latestBlock = some stamped := final ▸ rfl
  have top : genesis = stamped := Option.some.inj (stored.symm.trans tip)
  have same : unstaked genesis 0 = unstaked made 0 := by rw [top,stamp,unstaked,stampedTransactions,unstaked]
  refine ⟨height.trans (kept.1.trans grown.height),?_⟩
  rw [unbonding,kept.2,queue,same]
  rfl

theorem startedQueue (started : Started genesis s) :
    Coherent s ∧ s.height = 0 ∧ s.state.staking.unbonding = unstaked genesis 0 := by
  induction started with
  | made address sk pk now run stored => exact ⟨initChainCoherent (builtCoherent .memory) run,madeQueue run stored⟩
  | received now answer =>
    obtain ⟨c,grown⟩ := addBlockGrown answer
    exact ⟨acceptsCoherent (builtCoherent .memory) (.received now answer),grown.height,
      appliedQueue grown.applied grown.staking⟩
  | activate address prior run ih =>
    obtain ⟨height,tip,-,-,-,-,staking,-⟩ := activateKeeps run
    refine ⟨⟨height ▸ ih.1.bounded,by rw [height,tip]; exact ih.1.tip⟩,height.trans ih.2.1,?_⟩
    rw [staking]
    exact ih.2.2

end Start

section Step
variable {s s' : Blockchain} {block : Block}

theorem unstakeEntry {tx : Transaction} (valid : tx.validatePayload = .ok ()) (unstakes : tx.txType = .UNSTAKE) :
    ∃ amount validator, 0 < amount ∧ tx.payload.amount = some amount ∧
      tx.payload.validatorAddress = some validator ∧
      ∀ height, queued tx height = [⟨tx.sender,validator,amount,height + unbondingPeriod⟩] := by
  obtain ⟨-,-,checked⟩ := validatePayloadOk valid
  rw [typeCheck,unstakes] at checked
  obtain ⟨least,-,named⟩ := stakeAmountCheckOk checked
  cases given : tx.payload.amount with
  | none =>
    rw [given,Option.getD_none] at least
    omega
  | some amount =>
    cases listed : tx.payload.validatorAddress with
    | none => exact absurd (by rw [listed]; rfl) named
    | some validator =>
      rw [given,Option.getD_some] at least
      rw [listed,Option.getD_some] at named
      refine ⟨amount,validator,by omega,rfl,rfl,fun height => ?_⟩
      rw [queued,given,listed,if_pos ⟨unstakes,named,by rw [Option.getD_some]; omega⟩]
      rfl

theorem acceptsQueue {chain : List Block} (active : s.financialActive = true)
    (reached : s.height + 1 = chain.length) (holds : s.state.staking.unbonding = waiting chain s.height)
    (step : Accepts s block s') :
    s'.financialActive = true ∧ s'.height = s.height + 1 ∧
      s'.state.staking.unbonding = waiting (chain ++ [block]) (s.height + 1) ∧
      Credits s block (s.height + 1) (maturing (chain ++ [block]) (s.height + 1)) := by
  obtain ⟨c,grown⟩ := acceptsGrown step
  obtain ⟨on,-,-⟩ := grownRewarded grown active
  obtain ⟨due,kept⟩ := dueMaturing holds
  have applied := grown.applied
  simp only [ChainState.applyBlock,ChainState.openBlock,Outcome.bindOk] at applied
  obtain ⟨_,⟨mature,matured,_⟩,_⟩ := applied
  refine ⟨on,grown.height,?_,?_,mature,matured,?_,?_⟩
  · rw [appliedQueue grown.applied grown.staking,kept,reached,waitingSnoc]
  · rw [maturingSnoc block (by omega)]
    exact due
  · intro address
    rw [maturingSnoc block (by omega),← due]
    exact ChainState.processMatureCredits active matured address
  · rw [ChainState.applyBlock,ChainState.openBlock,matured]
    rfl

end Step

section Run
variable {s s' : Blockchain} {genesis : Block} {moves : List (Blockchain × Block)}

theorem paidOnceSnoc {m : Blockchain} {block : Block} (coherent : Coherent m) (active : m.financialActive = true)
    (paid : PaidOnce genesis moves m) (step : Accepts m block s') :
    s'.financialActive = true ∧ PaidOnce genesis (moves ++ [(m,block)]) s' := by
  have reached : m.height + 1 = ((genesis :: moves.map Prod.snd).length : Nat) := by
    rw [paid.height,List.length_cons,List.length_map]
    rfl
  obtain ⟨on,height,waits,credits⟩ := acceptsQueue active reached paid.waiting step
  have chain : genesis :: (moves ++ [(m,block)]).map Prod.snd = (genesis :: moves.map Prod.snd) ++ [block] := by
    rw [List.map_append,List.cons_append]
    rfl
  refine ⟨on,⟨?_,?_,fun i move here => ?_,fun move inside tx listed unstakes => ?_⟩⟩
  · rw [height,paid.height,List.length_append]
    rfl
  · rw [chain,height]
    exact waits
  · rw [chain]
    rcases Nat.lt_or_ge i moves.length with earlier | last
    · rw [List.getElem?_append_left earlier] at here
      rw [maturingSnoc block (by rw [List.length_cons,List.length_map]; omega)]
      exact paid.credited i move here
    · rw [List.getElem?_append_right last] at here
      obtain ⟨inside,rfl⟩ := List.getElem?_eq_some_iff.mp here
      have top : i = moves.length := by
        rw [List.length_singleton] at inside
        omega
      have place : (i : Int) + 1 = m.height + 1 := by rw [top,paid.height]
      rw [place]
      simpa only [List.getElem_singleton] using credits
  · rcases List.mem_append.mp inside with earlier | last
    · exact paid.entry move earlier tx listed unstakes
    · rw [List.mem_singleton.mp last] at listed
      obtain ⟨c,grown⟩ := acceptsGrown step
      have later : block.index ≠ 0 := by
        rw [acceptsPosition coherent step,paid.height]
        omega
      exact unstakeEntry (transactionsCheckMem (grown.checked later) tx listed).payload unstakes

theorem unbondingsPaidOnce (started : Started genesis s) (active : s.financialActive = true)
    (run : Extends s moves s') : PaidOnce genesis moves s' := by
  obtain ⟨coherent,height,queue⟩ := startedQueue started
  suffices all : Coherent s' ∧ s'.financialActive = true ∧ PaidOnce genesis moves s' from all.2.2
  induction run with
  | start =>
    refine ⟨coherent,active,⟨height,?_,fun i move here => ?_,fun move inside => ?_⟩⟩
    · rw [queue,height]
      have alone := waitingSnoc [] genesis
      rw [List.nil_append,List.length_nil] at alone
      exact alone.symm
    · cases here
    · cases inside
  | @submit moves m now tx prior ih =>
    obtain ⟨height,tip⟩ := submitTip m now tx
    have state := submitState m now tx
    refine ⟨⟨height ▸ ih.1.bounded,by rw [height,tip]; exact ih.1.tip⟩,?_,⟨?_,?_,ih.2.2.credited,ih.2.2.entry⟩⟩
    · rw [financialActive,state]
      exact ih.2.1
    · rw [height]
      exact ih.2.2.height
    · rw [height,state]
      exact ih.2.2.waiting
  | accept block prior step ih =>
    exact ⟨acceptsCoherent ih.1 step,paidOnceSnoc ih.1 ih.2.1 ih.2.2 step⟩

end Run

end Blockchain

namespace Devnet
open Blockchain

section Turning
attribute [local instance] turning

def sealNext (s : Blockchain) : Reply × Blockchain :=
  s.produceBlock payer key (s.tipBlock.timestamp + 1) (s.tipBlock.timestamp + 1)

def sealMany : Nat → Blockchain → Option Blockchain
  | 0,s => some s
  | n + 1,s =>
    match sealNext s with
    | (.accepted,s') => if s'.latestBlock.isSome then sealMany n s' else none
    | _ => none

theorem sealedExtends {s m s' : Blockchain} {moves : List (Blockchain × Block)} {n : Nat} (run : Extends s moves m)
    (made : sealMany n m = some s') : ∃ later, later.length = n ∧ Extends s (moves ++ later) s' := by
  induction n generalizing m moves with
  | zero =>
    cases made
    exact ⟨[],rfl,by rwa [List.append_nil]⟩
  | succ n ih =>
    rw [sealMany] at made
    split at made
    · rename_i next produced
      split at made
      · rename_i tip
        have step : Accepts m next.tipBlock next :=
          producedAccepts (congrArg Prod.snd produced).symm (congrArg Prod.fst produced) tip
        obtain ⟨later,length,longer⟩ := ih (run.accept _ step) made
        refine ⟨(m,next.tipBlock) :: later,by rw [List.length_cons,length],?_⟩
        rwa [List.append_assoc] at longer
      · cases made
    · cases made

theorem launchedStarted : Started launched.tipBlock endowed :=
  .activate payer (.made payer key key 100 endowedRuns.1 (tipStored (by decide +kernel))) endowedRuns.2

/- The last of a hundred blocks pays what the first one has queued. -/
theorem withdrawnPaidOnce : ∃ later s, PaidOnce launched.tipBlock ((trading,traded.tipBlock) :: later) s ∧
    later.length = 100 ∧ traded.state.staking.unbonding = [⟨payer,payer,1,101⟩] ∧ s.state.staking.unbonding = [] := by
  have run : traded.state.staking.unbonding = [⟨payer,payer,1,101⟩] ∧ endowed.financialActive = true ∧
      (sealMany 100 traded).any (fun s => s.state.staking.unbonding.isEmpty) = true := by decide +kernel
  obtain ⟨waits,active,made⟩ := run
  obtain ⟨s,made,empty⟩ := (Option.any_eq_true ..).mp made
  have submitted : Extends endowed [] trading := by
    rw [trading,remitting]
    exact .submit 101 (withdrawal 1) (.submit 101 payment .start)
  obtain ⟨later,length,longer⟩ := sealedExtends (submitted.accept _ trades.1) made
  exact ⟨later,s,unbondingsPaidOnce launchedStarted active longer,length,waits,List.isEmpty_iff.mp empty⟩

end Turning

end Devnet

end QbitNetwork
