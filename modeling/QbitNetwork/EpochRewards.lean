import QbitNetwork.Accounting
import QbitNetwork.Lib.ProRata

/-! The distribution of an epoch's rewards: what each delegator gets and each validator hands out,
in whatever order the stake tables are gone through. -/
namespace QbitNetwork

open ProRata

namespace Ledger

def rowAfter (l : Ledger) (address : Address) (gained taken : Int) : Option Int :=
  if gained = 0 ∧ taken = 0 then l.balances[address]?
  else if l.getBalance address + gained - taken = 0 then none
  else some (l.getBalance address + gained - taken)

theorem balanceRow (l : Ledger) (address : Address) : l.getBalance address = l.balances[address]?.getD 0 := by
  rw [getBalance,Std.ExtTreeMap.getD_eq_getD_getElem?]

theorem rowAfterBalance (l : Ledger) (address : Address) (gained taken : Int) :
    (l.rowAfter address gained taken).getD 0 = l.getBalance address + gained - taken := by
  unfold rowAfter
  split
  · rw [← balanceRow]
    omega
  · split
    · rw [Option.getD_none]
      omega
    · rfl

structure Shifted (l m : Ledger) (gained taken : Address → Int) : Prop where
  same : m = { l with balances := m.balances }
  row : ∀ address, m.balances[address]? = l.rowAfter address (gained address) (taken address)

variable {l m : Ledger} {gained taken : Address → Int}

theorem shiftedNone (l : Ledger) : Shifted l l (fun _ => 0) (fun _ => 0) := ⟨rfl,fun _ => (if_pos ⟨rfl,rfl⟩).symm⟩

theorem Shifted.balance (shifted : Shifted l m gained taken) (address : Address) :
    m.getBalance address = l.getBalance address + gained address - taken address := by
  rw [balanceRow,shifted.row,rowAfterBalance]

theorem Shifted.unique {m' : Ledger} (one : Shifted l m gained taken) (other : Shifted l m' gained taken) : m = m' := by
  have balances : m.balances = m'.balances := Std.ExtTreeMap.ext_getElem? (fun {address} => by rw [one.row,other.row])
  rw [one.same,other.same,balances]

theorem Shifted.credit (shifted : Shifted l m gained taken) {address : Address} {amount : Int} (positive : 0 < amount)
    (gains : 0 ≤ gained address) (solvent : 0 ≤ m.getBalance address) : ∃ m', m.credit address amount = .ok m' ∧
      Shifted l m' (fun a => gained a + if address = a then amount else 0) taken := by
  refine ⟨m.setBalance address (m.getBalance address + amount),?_,?_,fun a => ?_⟩
  · rw [Ledger.credit,if_neg (by omega),if_neg (by omega)]
  · rw [setBalance,shifted.same]
  · have balance := shifted.balance address
    rw [setBalance,Std.ExtTreeMap.getElem?_insert]
    by_cases own : address = a
    · subst own
      simp only [Std.compare_self,if_true]
      rw [rowAfter,if_neg (by omega),if_neg (by omega),balance]
      congr 1
      omega
    · rw [if_neg (by rw [Std.compare_eq_iff_eq]; exact own),shifted.row]
      simp only [if_neg own,Int.add_zero]

theorem Shifted.debit (shifted : Shifted l m gained taken) {address : Address} {amount : Int} (positive : 0 < amount)
    (first : 0 ≤ taken address) (covered : amount ≤ m.getBalance address) : ∃ m', m.debit address amount = .ok m' ∧
      Shifted l m' gained (fun a => taken a + if address = a then amount else 0) := by
  refine ⟨m.putBalance address (m.getBalance address - amount),?_,?_,fun a => ?_⟩
  · rw [Ledger.debit,if_neg (by omega),if_neg (by omega),if_neg (by omega)]
  · unfold putBalance
    split
    · rw [shifted.same]
    · rw [setBalance,shifted.same]
  · have balance := shifted.balance address
    by_cases own : address = a
    · subst own
      simp only [if_true]
      rw [rowAfter,if_neg (by omega),putBalance]
      split
      · rw [if_pos (by omega)]
        simp
      · rw [if_neg (by omega),setBalance,Std.ExtTreeMap.getElem?_insert_self,balance]
        congr 1
        omega
    · have kept : (m.putBalance address (m.getBalance address - amount)).balances[a]? = m.balances[a]? := by
        have different : ¬compare address a = .eq := by rw [Std.compare_eq_iff_eq]; exact own
        unfold putBalance
        split
        · rw [Std.ExtTreeMap.getElem?_erase,if_neg different]
        · rw [setBalance,Std.ExtTreeMap.getElem?_insert,if_neg different]
      rw [kept,shifted.row]
      simp only [if_neg own,Int.add_zero]

theorem Shifted.creditAll {rows : List (Address × Int)} (positive : ∀ row ∈ rows, 0 < row.2)
    (shifted : Shifted l m gained taken) (gaining : ∀ address, 0 ≤ gained address)
    (solvent : ∀ address, 0 ≤ m.getBalance address) : ∃ m',
      rows.foldlM (fun l row => l.credit row.1 row.2) m = .ok m' ∧
        Shifted l m' (fun a => gained a + gains rows a) taken := by
  induction rows generalizing m gained with
  | nil => exact ⟨m,rfl,by simpa [gains] using shifted⟩
  | cons row rows ih =>
    have here := positive row (List.mem_cons_self ..)
    obtain ⟨mid,credited,moved⟩ := shifted.credit here (gaining row.1) (solvent row.1)
    obtain ⟨m',paid,after⟩ := ih (fun other listed => positive other (List.mem_cons_of_mem _ listed)) moved
      (fun address => by have := gaining address; split <;> omega)
      (fun address => by
        have old := shifted.balance address
        have held := solvent address
        rw [moved.balance]
        split <;> omega)
    refine ⟨m',?_,?_⟩
    · rw [List.foldlM_cons,credited]
      exact paid
    · simp only [gainsCons,← Int.add_assoc]
      exact after

end Ledger

namespace ChainState

structure StakeOrder (k : Staking) where
  validators : List Address
  rows : Address → List (Address × Int)
  everyone : validators.Perm (validatorsWithStake k)
  complete : ∀ vaddr, (rows vaddr).Perm (delegators k vaddr)

def StakeOrder.stored (k : Staking) : StakeOrder k where
  validators := validatorsWithStake k
  rows := delegators k
  everyone := .refl _
  complete := fun _ => .refl _

def distributeRows (k : Staking) (rows : List (Address × Int)) (snapshot : Address → Int) (p : Payout)
    (vaddr : Address) : Except (Fault Payout) Payout :=
  let totalDelegated := (rows.map Prod.snd).sum
  if totalDelegated = 0 ∨ p.epochRewards.get vaddr = 0 then .ok p
  else do
    let credits := shares (delegatorPool k snapshot p vaddr) totalDelegated rows
    let totalDistributed := (credits.map Prod.snd).sum
    let lift := Outcome.within (fun ledger => { p with ledger })
    let p' ← lift (credits.foldlM (fun l row => l.credit row.1 row.2) p.ledger)
    let p' ← Outcome.within (fun ledger => { p' with ledger })
      (if 0 < totalDistributed then p'.ledger.debit vaddr totalDistributed else .ok p'.ledger)
    .ok { ledger := p'.ledger
          epochRewards := p.epochRewards.set vaddr 0
          record :=
            { credits := p.record.credits ++ credits
              debits := p.record.debits ++
                if 0 < totalDistributed then [(vaddr,totalDistributed)] else [] } }

def distributeInOrder (s : ChainState) (order : StakeOrder s.staking) (epochNumber : Int) :
    Except (Fault ChainState) ChainState := do
  let k := s.staking
  let put := fun (p : Payout) =>
    { s with ledger := p.ledger, staking := { k with epochRewards := p.epochRewards } }
  match order.validators.foldlM (fun p vaddr => distributeRows k (order.rows vaddr) s.ledger.getBalance p vaddr)
      { ledger := s.ledger, epochRewards := k.epochRewards } with
  | .error r => .error ⟨r.exception,put r.state⟩
  | .ok p => .ok { s with
      ledger := p.ledger
      staking := { k with
        epochRewards := .empty
        lastEpochDistributions := k.lastEpochDistributions.insert epochNumber p.record } }

theorem distributeStored (s : ChainState) (epochNumber : Int) :
    s.distributeInOrder (.stored s.staking) epochNumber = s.distributeEpochRewards epochNumber := rfl

section Payments
variable (s : ChainState)

def delegated (vaddr : Address) : Int := ((delegators s.staking vaddr).map Prod.snd).sum

def rewardPool (vaddr : Address) : Int :=
  let rewards : Int := s.staking.epochRewards.get vaddr
  min (rewards - rewards * s.staking.validatorCommission.get vaddr / 100) (s.ledger.getBalance vaddr)

def payment (vaddr delegator : Address) : Int :=
  if delegator = vaddr then 0
  else max 0 (s.rewardPool vaddr * s.staking.stakes.get (vaddr,delegator) / s.delegated vaddr)

def received (delegator : Address) : Int :=
  ((validatorsWithStake s.staking).map (fun vaddr => s.payment vaddr delegator)).sum

def handedOut (vaddr : Address) : Int :=
  ((delegators s.staking vaddr).map (fun row => s.payment vaddr row.1)).sum

def payments (vaddr : Address) : List (Address × Int) :=
  ((delegators s.staking vaddr).map (fun row => (row.1,s.payment vaddr row.1))).filter (fun row => 0 < row.2)

structure PaidOut (ledger : Ledger) : Prop where
  balance : ∀ address, ledger.getBalance address = s.ledger.getBalance address + s.received address - s.handedOut address
  total : Dict.total ledger.balances = Dict.total s.ledger.balances
  kept : ledger = { s.ledger with balances := ledger.balances }

structure RecordsPayments (record : Distribution) : Prop where
  credits : record.credits.Perm ((validatorsWithStake s.staking).flatMap s.payments)
  debits : record.debits.Perm (((validatorsWithStake s.staking).map (fun vaddr => (vaddr,s.handedOut vaddr))).filter
    (fun row => 0 < row.2))

end Payments

section Tables
variable {s : ChainState}

theorem memDelegators {k : Staking} {vaddr delegator : Address} {amount : Int} :
    (delegator,amount) ∈ delegators k vaddr ↔
      delegator ≠ vaddr ∧ amount ≠ 0 ∧ k.stakes.get (vaddr,delegator) = amount := by
  simp only [delegators,List.mem_map,List.mem_filter,Prod.exists,Prod.mk.injEq,decide_eq_true_eq]
  constructor
  · rintro ⟨v,d,x,⟨listed,rfl,other⟩,rfl,rfl⟩
    obtain ⟨found,some_⟩ := (Table.memItems ..).mp listed
    exact ⟨other,some_,found⟩
  · rintro ⟨other,some_,found⟩
    exact ⟨vaddr,delegator,amount,⟨(Table.memItems ..).mpr ⟨found,some_⟩,rfl,other⟩,rfl,rfl⟩

theorem delegatorsOnce (k : Staking) (vaddr : Address) : ((delegators k vaddr).map Prod.fst).Nodup := by
  rw [delegators,List.map_map]
  refine List.Nodup.map_on ?_ ((List.Nodup.of_map Prod.fst (Table.nodupItems k.stakes)).filter _)
  rintro ⟨⟨v,d⟩,x⟩ here ⟨⟨v',d'⟩,x'⟩ there same
  obtain ⟨listed,own⟩ := List.mem_filter.mp here
  obtain ⟨listed',own'⟩ := List.mem_filter.mp there
  have found := ((Table.memItems ..).mp listed).1
  have found' := ((Table.memItems ..).mp listed').1
  obtain ⟨first,-⟩ := of_decide_eq_true own
  obtain ⟨first',-⟩ := of_decide_eq_true own'
  dsimp only [Function.comp_apply] at same first first'
  subst first same
  subst first'
  rw [← found,← found']

theorem paymentNonneg (vaddr delegator : Address) : 0 ≤ s.payment vaddr delegator := by
  unfold payment
  split
  · exact le_rfl
  · exact Int.le_max_left ..

theorem gainsShares {rows : List (Address × Int)} {vaddr : Address} (complete : rows.Perm (delegators s.staking vaddr))
    (delegator : Address) :
    gains (shares (s.rewardPool vaddr) (s.delegated vaddr) rows) delegator = s.payment vaddr delegator := by
  have same : gains (shares (s.rewardPool vaddr) (s.delegated vaddr) rows) delegator =
      gains (parts (s.rewardPool vaddr) (s.delegated vaddr) (delegators s.staking vaddr)) delegator :=
    gainsPerm (partsPerm complete) delegator
  rw [same]
  by_cases listed : delegator ∈ (delegators s.staking vaddr).map Prod.fst
  · obtain ⟨⟨d,amount⟩,inside,rfl⟩ := List.mem_map.mp listed
    obtain ⟨other,-,found⟩ := memDelegators.mp inside
    rw [gainsPart _ _ (delegatorsOnce s.staking vaddr) inside,payment,if_neg other,found]
  · rw [gainsNone _ _ listed,payment]
    split
    · rfl
    · rename_i other
      have nothing : s.staking.stakes.get (vaddr,delegator) = 0 := by
        by_contra some_
        exact listed (List.mem_map.mpr ⟨_,memDelegators.mpr ⟨other,some_,rfl⟩,rfl⟩)
      rw [nothing,Int.mul_zero,Int.zero_ediv]
      rfl

theorem paidOutShares {rows : List (Address × Int)} {vaddr : Address} (complete : rows.Perm (delegators s.staking vaddr)) :
    ((shares (s.rewardPool vaddr) (s.delegated vaddr) rows).map Prod.snd).sum = s.handedOut vaddr := by
  have same : ((shares (s.rewardPool vaddr) (s.delegated vaddr) rows).map Prod.snd).sum =
      paidOut (parts (s.rewardPool vaddr) (s.delegated vaddr) (delegators s.staking vaddr)) :=
    paidOutPerm (partsPerm complete)
  rw [same,paidOutParts,handedOut]
  congr 1
  refine List.map_congr_left (fun row inside => ?_)
  obtain ⟨other,-,found⟩ := memDelegators.mp (show (row.1,row.2) ∈ _ from inside)
  rw [payment,if_neg other,found]

theorem handedOutCovered (positive : ∀ key, 0 ≤ s.staking.stakes.get key) {vaddr : Address}
    (solvent : 0 ≤ s.ledger.getBalance vaddr) :
    0 ≤ s.handedOut vaddr ∧ s.handedOut vaddr ≤ s.ledger.getBalance vaddr := by
  constructor
  · refine List.sum_nonneg (fun amount inside => ?_)
    obtain ⟨row,-,rfl⟩ := List.mem_map.mp inside
    exact paymentNonneg ..
  · have bounded : paidOut (parts (s.rewardPool vaddr) (s.delegated vaddr) (delegators s.staking vaddr)) ≤
        max 0 (s.rewardPool vaddr) := paidOutBounded (by
      intro row inside
      obtain ⟨-,-,found⟩ := memDelegators.mp (show (row.1,row.2) ∈ _ from inside)
      exact found ▸ positive _)
    have same : s.handedOut vaddr ≤ max 0 (s.rewardPool vaddr) :=
      (paidOutShares (.refl _)).symm.trans_le bounded
    have capped : s.rewardPool vaddr ≤ s.ledger.getBalance vaddr := Int.min_le_right ..
    omega

theorem nothingShared {vaddr : Address} (solvent : 0 ≤ s.ledger.getBalance vaddr) (rows : List (Address × Int))
    (passed : s.delegated vaddr = 0 ∨ s.staking.epochRewards.get vaddr = 0) :
    shares (s.rewardPool vaddr) (s.delegated vaddr) rows = [] := by
  rw [shares,List.filter_eq_nil_iff]
  intro row inside
  obtain ⟨weight,listed,rfl⟩ := List.mem_map.mp inside
  dsimp only
  rcases passed with nobody | nothing
  · rw [nobody,Int.ediv_zero]
    exact Bool.false_ne_true
  · have pool : s.rewardPool vaddr = 0 := by
      rw [rewardPool,nothing,Int.natCast_zero,Int.zero_mul,Int.zero_ediv]
      exact Int.min_eq_left solvent
    rw [pool,Int.zero_mul,Int.zero_ediv]
    exact Bool.false_ne_true

end Tables

section Loop
variable {s : ChainState} {order : StakeOrder s.staking}

structure Paying (s : ChainState) (order : StakeOrder s.staking) (done : List Address) (p : Payout) : Prop where
  shifted : Ledger.Shifted s.ledger p.ledger
    (fun a => (done.map (fun vaddr => s.payment vaddr a)).sum) (fun a => if a ∈ done then s.handedOut a else 0)
  left : ∀ vaddr, vaddr ∉ done → p.epochRewards.get vaddr = s.staking.epochRewards.get vaddr
  credits : p.record.credits =
    done.flatMap (fun vaddr => shares (s.rewardPool vaddr) (s.delegated vaddr) (order.rows vaddr))
  debits : p.record.debits =
    done.flatMap (fun vaddr => if 0 < s.handedOut vaddr then [(vaddr,s.handedOut vaddr)] else [])

theorem payingStart (s : ChainState) (order : StakeOrder s.staking) :
    Paying s order [] { ledger := s.ledger, epochRewards := s.staking.epochRewards } :=
  ⟨by simpa using Ledger.shiftedNone s.ledger,fun _ _ => rfl,rfl,rfl⟩

theorem Paying.solvent {done : List Address} {p : Payout} (paying : Paying s order done p)
    (positive : ∀ key, 0 ≤ s.staking.stakes.get key) (solvent : ∀ address, 0 ≤ s.ledger.getBalance address)
    (address : Address) : (0 : Int) ≤ (done.map (fun vaddr => s.payment vaddr address)).sum ∧
      0 ≤ p.ledger.getBalance address := by
  have gained : (0 : Int) ≤ (done.map (fun vaddr => s.payment vaddr address)).sum := List.sum_nonneg (by
    intro amount inside
    obtain ⟨vaddr,-,rfl⟩ := List.mem_map.mp inside
    exact paymentNonneg ..)
  have covered := handedOutCovered positive (solvent address)
  have held := solvent address
  refine ⟨gained,?_⟩
  rw [paying.shifted.balance]
  split <;> omega

/- The validator that is next pays what it owes: nothing has been taken from it yet, so that its
balance now is not what caps its pool. -/
theorem payingStep {done : List Address} {p : Payout} {vaddr : Address} (paying : Paying s order done p)
    (positive : ∀ key, 0 ≤ s.staking.stakes.get key) (solvent : ∀ address, 0 ≤ s.ledger.getBalance address)
    (fresh : vaddr ∉ done) : ∃ p', distributeRows s.staking (order.rows vaddr) s.ledger.getBalance p vaddr = .ok p' ∧
      Paying s order (done ++ [vaddr]) p' := by
  have standing := paying.solvent positive solvent
  have untouched := paying.shifted.balance vaddr
  rw [if_neg fresh] at untouched
  have rewards := paying.left vaddr fresh
  have pool : delegatorPool s.staking s.ledger.getBalance p vaddr = s.rewardPool vaddr := by
    have gained := (standing vaddr).1
    rw [delegatorPool,rewards,rewardPool,untouched]
    congr 1
    omega
  have total : ((order.rows vaddr).map Prod.snd).sum = s.delegated vaddr :=
    ((order.complete vaddr).map Prod.snd).sum_eq
  have shared : ∀ a, gains (shares (s.rewardPool vaddr) (s.delegated vaddr) (order.rows vaddr)) a = s.payment vaddr a :=
    gainsShares (order.complete vaddr)
  have paid := paidOutShares (order.complete vaddr)
  have covered := handedOutCovered positive (solvent vaddr)
  -- the gains and takings that the longer list stands for
  have gained : (fun a => ((done ++ [vaddr]).map (fun v => s.payment v a)).sum) =
      (fun a => (done.map (fun v => s.payment v a)).sum +
        gains (shares (s.rewardPool vaddr) (s.delegated vaddr) (order.rows vaddr)) a) := by
    funext a
    rw [List.map_append,List.sum_append,List.map_singleton,List.sum_singleton,shared]
  have taken : (fun a => if a ∈ done ++ [vaddr] then s.handedOut a else 0) =
      (fun a => (if a ∈ done then s.handedOut a else 0) + if vaddr = a then s.handedOut vaddr else 0) := by
    funext a
    by_cases own : vaddr = a
    · subst own
      simp [fresh]
    · simp [own,Ne.symm own]
  rw [distributeRows]
  dsimp only
  rw [total,rewards,pool]
  split
  · rename_i passed
    have nothing := nothingShared (solvent vaddr) (order.rows vaddr) passed
    rw [nothing] at paid gained
    have none : s.handedOut vaddr = 0 := paid.symm
    refine ⟨p,rfl,⟨?_,fun v later => ?_,?_,?_⟩⟩
    · rw [gained,taken,none]
      simpa [gains] using paying.shifted
    · exact paying.left v (fun inside => later (List.mem_append_left _ inside))
    · rw [paying.credits,List.flatMap_append,List.flatMap_singleton,nothing,List.append_nil]
    · rw [paying.debits,List.flatMap_append,List.flatMap_singleton,if_neg (by omega),List.append_nil]
  · have each : ∀ row ∈ shares (s.rewardPool vaddr) (s.delegated vaddr) (order.rows vaddr), 0 < row.2 := partsPositive
    obtain ⟨m,credited,shifted⟩ := paying.shifted.creditAll each (fun a => (standing a).1) (fun a => (standing a).2)
    rw [← gained] at shifted
    have after : ∃ m', (if 0 < s.handedOut vaddr then m.debit vaddr (s.handedOut vaddr) else .ok m) = .ok m' ∧
        Ledger.Shifted s.ledger m' (fun a => ((done ++ [vaddr]).map (fun v => s.payment v a)).sum)
          (fun a => if a ∈ done ++ [vaddr] then s.handedOut a else 0) := by
      rw [taken]
      split
      · rename_i some_
        have held := shifted.balance vaddr
        have more := (standing vaddr).1
        have own := paymentNonneg (s := s) vaddr vaddr
        rw [if_neg fresh,List.map_append,List.sum_append,List.map_singleton,List.sum_singleton] at held
        exact shifted.debit some_ (by rw [if_neg fresh]) (by omega)
      · have none : s.handedOut vaddr = 0 := by omega
        refine ⟨m,rfl,?_⟩
        simpa only [none,ite_self,Int.add_zero] using shifted
    obtain ⟨m',debited,shifted'⟩ := after
    rw [paid,credited,Outcome.withinReturns]
    dsimp only [bind,Except.bind]
    rw [debited]
    refine ⟨_,rfl,⟨shifted',fun v later => ?_,?_,?_⟩⟩
    · have other : vaddr ≠ v := fun same => later (by simp [same])
      rw [Table.getSet,if_neg other]
      exact paying.left v (fun inside => later (List.mem_append_left _ inside))
    · rw [List.flatMap_append,List.flatMap_singleton,paying.credits]
    · rw [List.flatMap_append,List.flatMap_singleton,paying.debits]

theorem payingLoop (positive : ∀ key, 0 ≤ s.staking.stakes.get key) (solvent : ∀ address, 0 ≤ s.ledger.getBalance address)
    {rest : List Address} : ∀ {done : List Address} {p : Payout}, Paying s order done p → (done ++ rest).Nodup →
      ∃ p', rest.foldlM (fun p vaddr => distributeRows s.staking (order.rows vaddr) s.ledger.getBalance p vaddr) p =
        .ok p' ∧ Paying s order (done ++ rest) p' := by
  induction rest with
  | nil => exact fun {done p} paying _ => ⟨p,rfl,by rwa [List.append_nil]⟩
  | cons vaddr rest ih =>
    intro done p paying once
    have fresh : vaddr ∉ done := fun inside =>
      List.disjoint_of_nodup_append once inside (List.mem_cons_self ..)
    obtain ⟨mid,first,next⟩ := payingStep paying positive solvent fresh
    have regrouped : done ++ vaddr :: rest = done ++ [vaddr] ++ rest := by simp
    rw [regrouped] at once ⊢
    obtain ⟨p',run,final⟩ := ih next once
    refine ⟨p',?_,final⟩
    rw [List.foldlM_cons,first]
    exact run

end Loop

section Results
variable {s : ChainState}

theorem sharesPayments (s : ChainState) (vaddr : Address) :
    shares (s.rewardPool vaddr) (s.delegated vaddr) (delegators s.staking vaddr) = s.payments vaddr := by
  have owed : ∀ row ∈ delegators s.staking vaddr,
      s.payment vaddr row.1 = max 0 (s.rewardPool vaddr * row.2 / s.delegated vaddr) := by
    intro row inside
    obtain ⟨other,-,found⟩ := memDelegators.mp (show (row.1,row.2) ∈ _ from inside)
    rw [payment,if_neg other,found]
  rw [shares,payments,List.filter_map,List.filter_map]
  have same : (delegators s.staking vaddr).filter ((fun row => decide (0 < row.2)) ∘ fun row =>
        (row.1,s.rewardPool vaddr * row.2 / s.delegated vaddr)) =
      (delegators s.staking vaddr).filter ((fun row => decide (0 < row.2)) ∘ fun row =>
        (row.1,s.payment vaddr row.1)) := by
    refine List.filter_congr (fun row inside => ?_)
    simp only [Function.comp_apply,owed row inside]
    rw [decide_eq_decide]
    omega
  rw [same]
  refine List.map_congr_left (fun row inside => ?_)
  obtain ⟨listed,positive⟩ := List.mem_filter.mp inside
  have paid : 0 < s.payment vaddr row.1 := of_decide_eq_true positive
  rw [owed row listed] at paid ⊢
  congr 1
  omega

theorem payingRecords {order : StakeOrder s.staking} {p : Payout} (paying : Paying s order order.validators p) :
    s.RecordsPayments p.record := by
  constructor
  · rw [paying.credits]
    refine order.everyone.flatMap (fun vaddr _ => ?_)
    rw [← sharesPayments]
    exact partsPerm (order.complete vaddr)
  · have listed : ∀ validators : List Address,
        validators.flatMap (fun vaddr => if 0 < s.handedOut vaddr then [(vaddr,s.handedOut vaddr)] else []) =
          (validators.map (fun vaddr => (vaddr,s.handedOut vaddr))).filter (fun row => 0 < row.2) := by
      intro validators
      induction validators with
      | nil => rfl
      | cons vaddr rest ih =>
        rw [List.flatMap_cons,ih,List.map_cons,List.filter_cons]
        by_cases some_ : 0 < s.handedOut vaddr
        · rw [if_pos some_,if_pos (decide_eq_true some_)]
          rfl
        · rw [if_neg some_,if_neg (by simpa using some_)]
          rfl
    rw [paying.debits,listed]
    exact (order.everyone.map _).filter _

theorem handedOutOutside {vaddr : Address} (outside : vaddr ∉ validatorsWithStake s.staking) : s.handedOut vaddr = 0 := by
  have none : delegators s.staking vaddr = [] := by
    rw [List.eq_nil_iff_forall_not_mem]
    rintro ⟨delegator,amount⟩ inside
    obtain ⟨-,some_,found⟩ := memDelegators.mp inside
    refine outside (List.mem_dedup.mpr (List.mem_map.mpr ⟨((vaddr,delegator),amount),?_,rfl⟩))
    exact (Table.memItems ..).mpr ⟨found,some_⟩
  rw [handedOut,none]
  rfl

theorem paymentExact (positive : ∀ key, 0 ≤ s.staking.stakes.get key) {vaddr delegator : Address}
    (solvent : 0 ≤ s.ledger.getBalance vaddr) (rate : s.staking.validatorCommission.get vaddr ≤ 100)
    (other : delegator ≠ vaddr) : s.payment vaddr delegator =
      s.rewardPool vaddr * s.staking.stakes.get (vaddr,delegator) / s.delegated vaddr := by
  have commission : (s.staking.epochRewards.get vaddr : Int) * s.staking.validatorCommission.get vaddr / 100 ≤
      s.staking.epochRewards.get vaddr :=
    Int.ediv_le_of_le_mul (by decide) (Int.mul_le_mul_of_nonneg_left rate (Int.natCast_nonneg _))
  have pool : 0 ≤ s.rewardPool vaddr := by
    rw [rewardPool]
    omega
  have total : 0 ≤ s.delegated vaddr := List.sum_nonneg (by
    intro amount inside
    obtain ⟨⟨d,x⟩,listed,rfl⟩ := List.mem_map.mp inside
    obtain ⟨-,-,found⟩ := memDelegators.mp listed
    exact found ▸ positive _)
  rw [payment,if_neg other]
  exact Int.max_eq_right (Int.ediv_nonneg (Int.mul_nonneg pool (positive _)) total)

theorem payingRun (positive : ∀ key, 0 ≤ s.staking.stakes.get key) (solvent : ∀ address, 0 ≤ s.ledger.getBalance address)
    (order : StakeOrder s.staking) : ∃ p, order.validators.foldlM
      (fun p vaddr => distributeRows s.staking (order.rows vaddr) s.ledger.getBalance p vaddr)
      { ledger := s.ledger, epochRewards := s.staking.epochRewards } = .ok p ∧
      Ledger.Shifted s.ledger p.ledger s.received s.handedOut ∧ s.RecordsPayments p.record := by
  have once : order.validators.Nodup := order.everyone.nodup_iff.mpr (List.nodup_dedup _)
  obtain ⟨p,run,paying⟩ := payingLoop positive solvent (payingStart s order) (by rwa [List.nil_append])
  rw [List.nil_append] at paying
  have gained : (fun a => (order.validators.map (fun vaddr => s.payment vaddr a)).sum) = s.received :=
    funext (fun a => (order.everyone.map _).sum_eq)
  have taken : (fun a => if a ∈ order.validators then s.handedOut a else 0) = s.handedOut := by
    funext a
    split
    · rfl
    · rename_i outside
      exact (handedOutOutside (fun inside => outside (order.everyone.mem_iff.mpr inside))).symm
  have shifted := paying.shifted
  rw [gained,taken] at shifted
  exact ⟨p,run,shifted,payingRecords paying⟩

theorem distributeReturns (positive : ∀ key, 0 ≤ s.staking.stakes.get key)
    (solvent : ∀ address, 0 ≤ s.ledger.getBalance address) (order : StakeOrder s.staking) (epochNumber : Int) :
    ∃ ledger record, Ledger.Shifted s.ledger ledger s.received s.handedOut ∧ s.RecordsPayments record ∧
      s.distributeInOrder order epochNumber = .ok { s with
        ledger
        staking := { s.staking with
          epochRewards := .empty
          lastEpochDistributions := s.staking.lastEpochDistributions.insert epochNumber record } } := by
  obtain ⟨p,run,shifted,records⟩ := payingRun positive solvent order
  refine ⟨p.ledger,p.record,shifted,records,?_⟩
  rw [distributeInOrder]
  dsimp only
  rw [run]

theorem rewardsDistributed (s : ChainState) (positive : ∀ key, 0 ≤ s.staking.stakes.get key)
    (solvent : ∀ address, 0 ≤ s.ledger.getBalance address)
    (rates : ∀ vaddr, 0 ≤ s.staking.validatorCommission.get vaddr ∧ s.staking.validatorCommission.get vaddr ≤ 100) :
    (∀ vaddr delegator, delegator ≠ vaddr → s.payment vaddr delegator =
      s.rewardPool vaddr * s.staking.stakes.get (vaddr,delegator) / s.delegated vaddr) ∧
    ∃ ledger, s.PaidOut ledger ∧ ∀ (epochNumber : Int),
      s.distributeEpochRewards epochNumber = s.distributeInOrder (.stored s.staking) epochNumber ∧
      ∀ order : StakeOrder s.staking, ∃ record, s.RecordsPayments record ∧
        s.distributeInOrder order epochNumber = .ok { s with
          ledger
          staking := { s.staking with
            epochRewards := .empty
            lastEpochDistributions := s.staking.lastEpochDistributions.insert epochNumber record } } := by
  refine ⟨fun vaddr delegator other => paymentExact positive (solvent vaddr) (rates vaddr).2 other,?_⟩
  obtain ⟨ledger,record,shifted,-,stored⟩ := distributeReturns positive solvent (.stored s.staking) 0
  rw [distributeStored] at stored
  refine ⟨ledger,⟨shifted.balance,?_,shifted.same⟩,fun epochNumber => ⟨(distributeStored s epochNumber).symm,fun order => ?_⟩⟩
  · obtain ⟨balanced,-⟩ := distributeEpochRewardsFunds stored
    have worth : ledger.worth = s.ledger.worth := by
      simp only [funds,Staking.locked] at balanced
      omega
    rw [Ledger.worth,Ledger.worth,shifted.same] at worth
    dsimp only at worth
    omega
  · obtain ⟨ledger',record',shifted',records,run⟩ := distributeReturns positive solvent order epochNumber
    obtain rfl := shifted.unique shifted'
    exact ⟨record',records,run⟩

end Results

end ChainState

namespace Devnet
open ChainState

def mutualStakes : ChainState where
  ledger := { balances := (∅ : Dict Address Int) |>.insert "v" 90 |>.insert "w" 40 }
  staking :=
    { stakes := Table.empty.set ("v","w") 2 |>.set ("w","v") 1 |>.set ("v","d") 1 |>.set ("v","v") 5
      epochRewards := Table.empty.set "v" 100 |>.set "w" 50
      validatorCommission := Table.empty.set "w" 0 }

theorem mutualPaid : (∀ key, 0 ≤ mutualStakes.staking.stakes.get key) ∧ mutualStakes.payment "v" "w" = 60 ∧
    mutualStakes.payment "v" "d" = 30 ∧ mutualStakes.payment "w" "v" = 40 ∧
    ∃ ledger, mutualStakes.PaidOut ledger := by
  have positive : ∀ key, 0 ≤ mutualStakes.staking.stakes.get key := by
    intro key
    simp only [mutualStakes,Table.getSet,Table.getEmpty]
    split_ifs <;> decide
  have solvent : ∀ address, 0 ≤ mutualStakes.ledger.getBalance address := by
    intro address
    simp only [mutualStakes,Ledger.getBalance,Std.ExtTreeMap.getD_insert]
    split_ifs <;> simp
  have rates : ∀ vaddr, 0 ≤ mutualStakes.staking.validatorCommission.get vaddr ∧
      mutualStakes.staking.validatorCommission.get vaddr ≤ 100 := by
    intro vaddr
    simp only [mutualStakes,Table.getSet,Table.getEmpty]
    split_ifs <;> decide
  obtain ⟨-,ledger,paid,-⟩ := rewardsDistributed mutualStakes positive solvent rates
  exact ⟨positive,by decide +kernel,by decide +kernel,by decide +kernel,ledger,paid⟩

end Devnet

end QbitNetwork
