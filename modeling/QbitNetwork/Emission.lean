import QbitNetwork.Follower

/-! The emission schedule: what is minted is the genesis allocation and the rewards, under the
cap, and no reward is above an earlier one. -/
namespace QbitNetwork

theorem shiftRightFalls {x : Int} (nonneg : 0 ≤ x) {m n : Nat} (less : m ≤ n) : x >>> n ≤ x >>> m := by
  obtain ⟨k,rfl⟩ := Nat.exists_eq_add_of_le less
  rw [Int.shiftRight_add]
  exact Int.shiftRight_le_of_nonneg (Int.le_shiftRight_of_nonneg nonneg)

namespace Ledger

theorem blockRewardNonneg (l : Ledger) (idx : Int) : 0 ≤ l.calcBlockReward idx := by
  unfold calcBlockReward
  split
  · exact le_refl _
  · exact le_min (Int.le_shiftRight_of_nonneg (by decide)) (le_max_left ..)

theorem blockRewardCapped {l : Ledger} (capped : l.totalMinted ≤ maxSupply) (idx : Int) :
    l.totalMinted + l.calcBlockReward idx ≤ maxSupply := by
  unfold calcBlockReward
  split
  · omega
  · have := min_le_right (initialBlockReward >>> (idx / halvingInterval).toNat) (max 0 (maxSupply - l.totalMinted))
    omega

theorem blockRewardFalls {l l' : Ledger} {idx : Int} (later : 0 < idx)
    (minted : l'.totalMinted = l.totalMinted + l.calcBlockReward idx) :
    l'.calcBlockReward (idx + 1) ≤ l.calcBlockReward idx := by
  have nonneg := l.blockRewardNonneg idx
  have eras : (idx / halvingInterval).toNat ≤ ((idx + 1) / halvingInterval).toNat :=
    Int.toNat_le_toNat (Int.ediv_le_ediv (by decide) (by omega))
  have halves := shiftRightFalls (show 0 ≤ initialBlockReward by decide) eras
  have now : l.calcBlockReward idx = min (initialBlockReward >>> (idx / halvingInterval).toNat)
      (max 0 (maxSupply - l.totalMinted)) := by
    unfold calcBlockReward
    rw [if_neg (by omega)]
  have next : l'.calcBlockReward (idx + 1) = min (initialBlockReward >>> ((idx + 1) / halvingInterval).toNat)
      (max 0 (maxSupply - l'.totalMinted)) := by
    unfold calcBlockReward
    rw [if_neg (by omega)]
  rw [now,next]
  exact min_le_min halves (max_le_max (le_refl 0) (by omega))

theorem firstRewardless (l : Ledger) {idx : Int} (first : idx ≤ 0) : l.calcBlockReward idx = 0 := by
  unfold calcBlockReward
  rw [if_pos first]

end Ledger

theorem ChainState.applyBlockMints [Env] {s c : ChainState} {block : Block} {idx : Int} (active : s.ledger.financialActive = true)
    (run : s.applyBlock block idx = .ok c) : c.ledger.financialActive = true ∧
      c.ledger.totalMinted = s.ledger.totalMinted + s.ledger.calcBlockReward idx ∧
      ∃ opened looped : ChainState, s.openBlock idx = .ok opened ∧ opened.applyTxs block idx = .ok looped ∧
        ∀ address, c.ledger.getBalance address = looped.ledger.getBalance address +
          if address = block.validator then s.ledger.calcBlockReward idx else 0 := by
  simp only [applyBlock,Outcome.bindOk] at run
  obtain ⟨opened,opening,looped,loop,paying⟩ := run
  have before := (openBlockCirculates opening).1.trans (applyTxsCirculates loop).1
  have same : looped.ledger.calcBlockReward idx = s.ledger.calcBlockReward idx := by
    simp only [Ledger.calcBlockReward,before.minted]
  have on : looped.ledger.financialActive = true := before.active.trans active
  simp only [payReward] at paying
  split at paying
  · simp only [Outcome.bindOk,Outcome.withinOk] at paying
    obtain ⟨_,⟨ledger,credit,rfl⟩,paying⟩ := paying
    cases paying
    obtain ⟨-,moved⟩ := Ledger.creditMoved credit
    rw [same] at moved
    refine ⟨moved.active.trans on,?_,opened,looped,opening,loop,moved.balance⟩
    show ledger.totalMinted + looped.ledger.calcBlockReward idx = _
    rw [moved.minted,before.minted,same]
  · rename_i unpaid
    obtain rfl := Except.ok.inj paying
    have none : s.ledger.calcBlockReward idx = 0 := by
      have nonneg := s.ledger.blockRewardNonneg idx
      by_cases later : 0 < idx
      · by_contra positive
        exact unpaid ⟨later,on,by rw [same]; omega⟩
      · exact s.ledger.firstRewardless (by omega)
    refine ⟨on,?_,opened,_,opening,loop,fun address => ?_⟩
    · rw [none,before.minted,Int.add_zero]
    · rw [none]
      split <;> exact (Int.add_zero _).symm

namespace Blockchain
variable [Env]

structure Rewarded (s : Blockchain) (block : Block) (s' : Blockchain) (reward : Int) : Prop where
  paid : ∃ opened looped : ChainState, s.state.openBlock (s.height + 1) = .ok opened ∧
    opened.applyTxs block (s.height + 1) = .ok looped ∧
      ∀ address, s'.getBalance address =
        looped.ledger.getBalance address + if address = block.validator then reward else 0

inductive Emission : Int → List Int → Blockchain → Prop where
  | activate {s s' : Blockchain} (address : Address) (prior : Built s) (early : s.height ≤ 0)
      (idle : s.financialActive = false) (run : s.activateFinancialLayer address = .ok s') :
      Emission (s'.getBalance address - s.getBalance address) [] s'
  | again {allocation : Int} {rewards : List Int} {s s' : Blockchain} (address : Address)
      (prior : Emission allocation rewards s) (run : s.activateFinancialLayer address = .ok s') :
      Emission allocation rewards s'
  | initChain {allocation : Int} {rewards : List Int} {s s' : Blockchain} (address : Address) (sk pk : Bytes)
      (now : Int) (prior : Emission allocation rewards s) (run : s.initChain address sk pk now = .ok s') :
      Emission allocation rewards s'
  | submit {allocation : Int} {rewards : List Int} {s : Blockchain} (now : Int) (tx : Transaction)
      (prior : Emission allocation rewards s) : Emission allocation rewards (s.submitTx now tx).2
  | genesis {allocation : Int} {rewards : List Int} {s s' : Blockchain} (block : Block)
      (prior : Emission allocation rewards s) (empty : s.height < 0) (step : Accepts s block s') :
      Emission allocation rewards s'
  | accept {allocation reward : Int} {rewards : List Int} {s s' : Blockchain} (block : Block)
      (prior : Emission allocation rewards s) (started : 0 ≤ s.height) (step : Accepts s block s')
      (rewarded : Rewarded s block s' reward) : Emission allocation (rewards ++ [reward]) s'

section Steps
variable {s s' : Blockchain} {block : Block}

theorem grownRewarded {c : ChainState} (grown : Grown s block s' c) (active : s.financialActive = true) :
    s'.financialActive = true ∧
      s'.state.ledger.totalMinted = s.state.ledger.totalMinted + s.state.ledger.calcBlockReward (s.height + 1) ∧
      Rewarded s block s' (s.state.ledger.calcBlockReward (s.height + 1)) := by
  obtain ⟨on,minted,opened,looped,opening,loop,balance⟩ := ChainState.applyBlockMints active grown.applied
  rw [financialActive,grown.ledger]
  refine ⟨on,minted,⟨opened,looped,opening,loop,fun address => ?_⟩⟩
  rw [getBalance,grown.ledger]
  exact balance address

theorem Rewarded.unique {reward reward' : Int} (one : Rewarded s block s' reward)
    (other : Rewarded s block s' reward') : reward = reward' := by
  obtain ⟨opened,looped,opening,loop,balance⟩ := one.paid
  obtain ⟨opened',looped',opening',loop',balance'⟩ := other.paid
  rw [opening] at opening'
  cases opening'
  rw [loop] at loop'
  cases loop'
  have here := (balance block.validator).symm.trans (balance' block.validator)
  rw [if_pos rfl,if_pos rfl] at here
  omega

theorem initChainLedger {address : Address} {sk pk : Bytes} {now : Int} (coherent : Coherent s)
    (run : s.initChain address sk pk now = .ok s') :
    s' = s ∨ s.height < 0 ∧ s'.height = 0 ∧ ∃ genesis c, s.state.applyBlock genesis 0 = .ok c ∧
      s'.state.ledger = c.ledger := by
  by_cases fresh : s.height < 0
  · obtain ⟨_,genesis,t,staked,_,_,stamped,-,-,appended,same,-,rfl⟩ := initChainOk fresh run
    obtain ⟨c,grown⟩ := appendInnerOk appended
    have first : s.height + 1 = 0 := by
      have := coherent.bounded
      omega
    have kept : staked.height = t.height ∧ staked.state.ledger = t.state.ledger := by
      rw [same]
      split <;> exact ⟨rfl,rfl⟩
    have applied := grown.applied
    rw [first] at applied
    refine .inr ⟨fresh,?_,genesis,c,applied,?_⟩
    · exact kept.1.trans (grown.height.trans first)
    · exact kept.2.trans grown.ledger
  · unfold initChain at run
    rw [if_pos (by omega)] at run
    cases run
    exact .inl rfl

end Steps

section Idle

theorem builtIdle {s : Blockchain} (built : Built s) : s.financialActive = false → s.state.ledger = {} := by
  induction built with
  | memory => exact fun _ => rfl
  | sqlite => exact fun _ => rfl
  | @initChain s s' address sk pk now prior run ih =>
    intro idle
    rcases initChainLedger (builtCoherent prior) run with rfl | ⟨-,-,genesis,c,applied,ledger⟩
    · exact ih idle
    · rw [financialActive,ledger] at idle
      by_cases on : s.financialActive = true
      · rw [(ChainState.applyBlockMints on applied).1] at idle
        contradiction
      · have off : s.financialActive = false := by simpa using on
        rw [ledger,ChainState.applyBlockIdle off applied]
        exact ih off
  | @activate s s' address prior run ih =>
    intro idle
    by_cases on : s.financialActive = true
    · unfold activateFinancialLayer at run
      rw [if_pos on] at run
      cases run
      exact ih idle
    · have off : s.financialActive = false := by simpa using on
      have begun := (activateLedger (ih off) run).1
      rw [financialActive,begun] at idle
      contradiction
  | @submit s now tx prior ih =>
    rw [financialActive,submitState]
    exact ih
  | @accept s s' block prior step ih =>
    intro idle
    obtain ⟨c,grown⟩ := acceptsGrown step
    by_cases on : s.financialActive = true
    · rw [(grownRewarded grown on).1] at idle
      contradiction
    · have off : s.financialActive = false := by simpa using on
      rw [grown.ledger,ChainState.applyBlockIdle off grown.applied]
      exact ih off

end Idle

structure Scheduled (allocation : Int) (rewards : List Int) (s : Blockchain) : Prop where
  built : Built s
  active : s.financialActive = true
  minted : s.state.ledger.totalMinted = allocation + rewards.sum
  capped : s.state.ledger.totalMinted ≤ maxSupply
  falls : rewards.Pairwise (fun earlier later => later ≤ earlier)
  next : ∀ reward ∈ rewards, s.state.ledger.calcBlockReward (s.height + 1) ≤ reward
  started : rewards ≠ [] → 0 ≤ s.height

theorem emissionScheduled {allocation : Int} {rewards : List Int} {s : Blockchain}
    (emission : Emission allocation rewards s) : Scheduled allocation rewards s := by
  induction emission with
  | @activate s s' address prior early idle run =>
    obtain ⟨active,minted,balance⟩ := activateLedger (builtIdle prior idle) run
    have given : s'.getBalance address - s.getBalance address = endowment address := by
      have none : s.getBalance address = 0 := by
        rw [getBalance,builtIdle prior idle]
        rfl
      have here := balance address
      rw [if_pos rfl] at here
      rw [none,getBalance,here]
      omega
    refine ⟨.activate address prior run,active,?_,?_,.nil,by simp,by simp⟩
    · rw [minted,given]
      simp
    · rw [minted]
      unfold endowment
      split <;> decide
  | again address prior run ih =>
    unfold activateFinancialLayer at run
    rw [if_pos ih.active] at run
    cases run
    exact ih
  | @initChain allocation rewards s s' address sk pk now prior run ih =>
    rcases initChainLedger (builtCoherent ih.built) run with rfl | ⟨low,height,genesis,c,applied,ledger⟩
    · exact ih
    · obtain ⟨on,minted,-⟩ := ChainState.applyBlockMints ih.active applied
      rw [s.state.ledger.firstRewardless (le_refl 0),Int.add_zero] at minted
      have none : rewards = [] := by
        by_contra some
        have := ih.started some
        omega
      subst none
      refine ⟨.initChain address sk pk now ih.built run,?_,?_,?_,.nil,by simp,by simp⟩
      · rw [financialActive,ledger]
        exact on
      · rw [ledger,minted]
        exact ih.minted
      · rw [ledger,minted]
        exact ih.capped
  | @submit allocation rewards s now tx prior ih =>
    have state := submitState s now tx
    have height := (submitTip s now tx).1
    refine ⟨.submit now tx ih.built,?_,?_,?_,ih.falls,?_,?_⟩
    · rw [financialActive,state]
      exact ih.active
    · rw [state]
      exact ih.minted
    · rw [state]
      exact ih.capped
    · rw [state,height]
      exact ih.next
    · rw [height]
      exact ih.started
  | @genesis allocation rewards s s' block prior empty step ih =>
    obtain ⟨c,grown⟩ := acceptsGrown step
    obtain ⟨on,minted,-⟩ := grownRewarded grown ih.active
    rw [s.state.ledger.firstRewardless (by omega),Int.add_zero] at minted
    have none : rewards = [] := by
      by_contra some
      have := ih.started some
      omega
    subst none
    refine ⟨.accept block ih.built step,on,?_,?_,.nil,by simp,by simp⟩
    · rw [minted]
      exact ih.minted
    · rw [minted]
      exact ih.capped
  | @accept allocation reward rewards s s' block prior started step rewarded ih =>
    obtain ⟨c,grown⟩ := acceptsGrown step
    obtain ⟨on,minted,scheduled⟩ := grownRewarded grown ih.active
    obtain rfl := scheduled.unique rewarded
    have falls := Ledger.blockRewardFalls (by omega) minted
    have least : ∀ earlier ∈ rewards, s.state.ledger.calcBlockReward (s.height + 1) ≤ earlier := ih.next
    refine ⟨.accept block ih.built step,on,?_,?_,?_,?_,?_⟩
    · rw [minted,ih.minted,List.sum_append,List.sum_singleton,Int.add_assoc]
    · rw [minted]
      exact Ledger.blockRewardCapped ih.capped _
    · exact List.pairwise_append.mpr ⟨ih.falls,List.pairwise_singleton ..,fun earlier inside last here => by
        rw [List.mem_singleton.mp here]
        exact least earlier inside⟩
    · intro earlier inside
      rw [grown.height]
      rcases List.mem_append.mp inside with old | last
      · exact le_trans falls (least earlier old)
      · rw [List.mem_singleton.mp last]
        exact falls
    · intro _
      rw [grown.height]
      omega

theorem emissionSchedule :
    (∀ (allocation : Int) (rewards : List Int) (s : Blockchain), Emission allocation rewards s →
      s.state.ledger.totalMinted = allocation + rewards.sum ∧ s.state.ledger.totalMinted ≤ maxSupply ∧
        rewards.Pairwise (fun earlier later => later ≤ earlier)) ∧
    ∀ (allocation : Int) (rewards : List Int) (s s' : Blockchain) (block : Block), Emission allocation rewards s →
      Accepts s block s' → ∃ reward, Rewarded s block s' reward := by
  refine ⟨fun allocation rewards s emission => ?_,fun allocation rewards s s' block emission step => ?_⟩
  · have scheduled := emissionScheduled emission
    exact ⟨scheduled.minted,scheduled.capped,scheduled.falls⟩
  · obtain ⟨c,grown⟩ := acceptsGrown step
    exact ⟨_,(grownRewarded grown (emissionScheduled emission).active).2.2⟩

end Blockchain

namespace Devnet
attribute [local instance] turning
open Blockchain

theorem emissionScheduleRepaid : ∃ first second,
    Emission (endowed.getBalance payer - launched.getBalance payer) [first,second] repaid ∧
    repaid.state.ledger.totalMinted = endowed.getBalance payer - launched.getBalance payer + [first,second].sum ∧
    repaid.state.ledger.totalMinted ≤ maxSupply ∧ second ≤ first := by
  have early : launched.height ≤ 0 ∧ launched.financialActive = false ∧ 0 ≤ trading.height ∧ 0 ≤ repaying.height := by
    decide +kernel
  obtain ⟨low,idle,started,later⟩ := early
  obtain ⟨firstStep,-,secondStep,-⟩ := trades
  have begun : Emission (endowed.getBalance payer - launched.getBalance payer) [] trading := by
    rw [trading,remitting]
    exact .submit 101 (withdrawal 1) (.submit 101 payment
      (.activate payer (.initChain payer key key 100 .memory endowedRuns.1) low idle endowedRuns.2))
  obtain ⟨first,paid⟩ := emissionSchedule.2 _ _ _ _ _ begun firstStep
  have grown : Emission (endowed.getBalance payer - launched.getBalance payer) [first] repaying := by
    rw [repaying]
    exact .submit 103 repayment (.accept _ begun started firstStep paid)
  obtain ⟨second,paidAgain⟩ := emissionSchedule.2 _ _ _ _ _ grown secondStep
  have final := Emission.accept _ grown later secondStep paidAgain
  obtain ⟨minted,capped,falls⟩ := emissionSchedule.1 _ _ _ final
  exact ⟨first,second,final,minted,capped,(List.pairwise_cons.mp falls).1 second (by simp)⟩

end Devnet

end QbitNetwork
