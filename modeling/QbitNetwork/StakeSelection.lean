import QbitNetwork.Lib.WeightedChoice
import QbitNetwork.Load
import QbitNetwork.Upheld

/-! The stake-weighted turn: whoever is listed has a positive stake, in every state a node comes
to, and is chosen for as many points as it has stake. -/
namespace QbitNetwork

open WeightedChoice (Weighted)

namespace Staking

theorem liveWeighted (k : Staking) : Weighted k.getLiveValidators where
  positive := fun _ inside => of_decide_eq_true (List.mem_filter.mp inside).2
  distinct := k.totalStake.nodupItems.sublist (List.filter_sublist.map Prod.fst)

structure Seated (k : Staking) : Prop where
  active : Weighted k.epochValidators
  epochs : ∀ (epoch : Int) (rows : List (Address × Int)), k.epochs[epoch]? = some rows → Weighted rows

def TableSeated (e : EpochTable) : Prop :=
  ∀ (epoch blockStart : Int) (rows : List (Address × Int)), e[epoch]? = some (blockStart,rows) → Weighted rows

theorem Seated.same {k k' : Staking} (seated : Seated k) (active : k'.epochValidators = k.epochValidators)
    (epochs : k'.epochs = k.epochs) : Seated k' := ⟨active ▸ seated.active,epochs ▸ seated.epochs⟩

theorem Seated.activeList {k : Staking} (seated : Seated k) : Weighted k.getActiveValidators := by
  unfold getActiveValidators
  split
  · exact k.liveWeighted
  · exact seated.active

theorem slashWeighted {rows : List (Address × Int)} (weighted : Weighted rows) (vaddr : Address) (newTotal : Int) :
    Weighted (slashEpochValidators vaddr newTotal rows) := by
  simp only [slashEpochValidators]
  split
  · rename_i left
    have positive : 0 < newTotal := Int.lt_of_lt_of_le (by decide) left
    exact (weighted.filter _).reweigh (fun row => row.1 = vaddr) positive
  · exact weighted.filter _

variable [Env]

omit [Env] in
theorem commissionSeated {k : Staking} (seated : Seated k) (address : Address) (rate : Option Int) :
    Seated (k.setCommission address rate) := by
  unfold setCommission
  split
  · split <;> exact seated.same rfl rfl
  · exact seated

omit [Env] in
theorem slashSeated {k : Staking} (seated : Seated k) (vaddr : Address) (txId : String) (idx : Int) :
    Seated (k.slash vaddr txId idx) := by
  have active := slashWeighted seated.active vaddr (afterSlash (k.totalStake.get vaddr))
  simp only [slash]
  split <;> exact ⟨active,seated.epochs⟩

theorem applyTxSeated {k : Staking} (seated : Seated k) (tx : Transaction) (idx : Int) :
    Seated (Outcome.stateOf (k.applyTx tx idx)) := by
  unfold applyTx
  split
  · unfold registerValidator
    dsimp only
    split
    · exact seated
    · split
      · exact commissionSeated seated _ _
      · split
        · exact seated
        · refine commissionSeated ?_ _ _
          exact seated.same rfl rfl
  · simp only [revokeKey]
    split <;> exact seated.same rfl rfl
  · simp only [addStake]
    split <;> exact seated.same rfl rfl
  · simp only [addStake]
    split <;> exact seated.same rfl rfl
  · simp only [unstake]
    split <;> exact seated.same rfl rfl
  · simp only [processEvidenceTx]
    split
    · exact slashSeated seated _ _ _
    · exact seated
  · exact seated

theorem undoTxSeated {k : Staking} (seated : Seated k) (lookup : Address → Option Bytes) (tx : Transaction)
    (idx : Int) : Seated (k.undoTx lookup tx idx) := by
  simp only [undoTx]
  split
  · split <;> exact seated.same rfl rfl
  · simp only [undoRevokeKey]
    split
    · split <;> exact seated.same rfl rfl
    · exact seated.same rfl rfl
  · split <;> exact seated.same rfl rfl
  · split <;> exact seated.same rfl rfl
  · split <;> exact seated.same rfl rfl
  · split <;> exact seated.same rfl rfl
  · exact seated

theorem seatedUpheld : Upheld Seated TableSeated where
  applyTx := fun k tx idx seated => applyTxSeated seated tx idx
  dropMatured := fun k idx seated => seated.same rfl rfl
  rewards := fun k _ _ seated _ => seated.same rfl rfl
  enterEpoch := by
    intro k epoch seated
    refine ⟨k.liveWeighted,fun number rows found => ?_⟩
    simp only [enterEpoch,Std.ExtTreeMap.getElem?_insert] at found
    split at found
    · cases found
      exact k.liveWeighted
    · exact seated.epochs number rows found
  putEpoch := by
    intro k e epoch blockStart seated table number start rows found
    rw [Std.ExtTreeMap.getElem?_insert] at found
    split at found
    · cases found
      exact seated.active
    · exact table number start rows found
  undoTx := fun k lookup tx idx seated => undoTxSeated seated lookup tx idx
  leaveEpoch := by
    intro k epoch seated
    have earlier : ∀ (number : Int) rows, (k.epochs.erase epoch)[number]? = some rows → Weighted rows := by
      intro number rows found
      rw [Std.ExtTreeMap.getElem?_erase] at found
      split at found
      · cases found
      · exact seated.epochs number rows found
    simp only [leaveEpoch]
    split
    · refine ⟨?_,earlier⟩
      show Weighted ((k.epochs.erase epoch)[epoch - 1]?.getD [])
      cases found : (k.epochs.erase epoch)[epoch - 1]? with
      | none => exact WeightedChoice.weightedNil
      | some rows => exact earlier _ rows found
    · exact ⟨WeightedChoice.weightedNil,earlier⟩
  autoStake := fun k address seated => seated.same rfl rfl
  restore := fun k saved seated _ => seated.same rfl rfl
  keepEpochs := by
    intro e fromIndex table number start rows found
    rw [Std.ExtTreeMap.getElem?_filter',Option.filter_eq_some_iff] at found
    exact table number start rows found.1

section Load

theorem reloadTxSeated {k : Staking} (seated : Seated k) (tx : Transaction) (idx storeHeight : Int) :
    Seated (Outcome.stateOf (k.reloadTx tx idx storeHeight)) := by
  unfold reloadTx
  split
  · unfold reloadRegistration
    split
    · exact seated
    · exact seated
    · refine commissionSeated ?_ _ _
      exact seated.same rfl rfl
  · simp only [revokeKey]
    split <;> exact seated.same rfl rfl
  · simp only [addStake]
    split <;> exact seated.same rfl rfl
  · simp only [addStake]
    split <;> exact seated.same rfl rfl
  · simp only [reloadUnstake,unstake]
    split
    · split <;> exact seated.same rfl rfl
    · split <;> exact seated.same rfl rfl
  · exact seated

omit [Env] in
theorem reconcileSeated {k : Staking} (seated : Seated k) (vaddr : Address) : Seated (k.reconcileSlashed vaddr) := by
  simp only [reconcileSlashed]
  split
  · exact ⟨seated.active.filter _,seated.epochs⟩
  · rename_i enough
    have positive : 0 < k.totalStake.get vaddr := by
      have least : (0 : Int) < minStake := by decide
      omega
    exact ⟨seated.active.reweigh (fun row => row.1 = vaddr) positive,seated.epochs⟩

omit [Env] in
theorem loadTablesSeated {k : Staking} (seated : Seated k) {d : Store} (table : TableSeated d.epochs) :
    Seated (Outcome.stateOf (k.loadTables d)) := by
  have registered : Seated (Outcome.stateOf (d.validatorRegistry.toList.foldlM loadValidator k)) := by
    refine Outcome.foldLeaves Seated (fun k row _ seated => ?_) seated
    unfold loadValidator
    split
    · exact seated
    · split
      · exact seated
      · exact seated.same rfl rfl
  simp only [loadTables]
  refine Outcome.leavesBind Seated registered (fun k _ seated => ?_)
  have epochs : Seated (d.epochs.toList.foldl loadEpoch (k.loadStakes d)) := by
    refine List.foldlRecOn (motive := Seated) d.epochs.toList loadEpoch (seated.same rfl rfl) (fun k seated row inside => ?_)
    have weighted : Weighted row.2.2 :=
      table row.1 row.2.1 row.2.2 (Std.ExtTreeMap.mem_toList_iff_getElem?_eq_some.mp inside)
    have inserted : ∀ (number : Int) rows, (k.epochs.insert row.1 row.2.2)[number]? = some rows → Weighted rows := by
      intro number rows found
      rw [Std.ExtTreeMap.getElem?_insert] at found
      split at found
      · cases found
        exact weighted
      · exact seated.epochs number rows found
    simp only [loadEpoch]
    split
    · exact ⟨weighted,inserted⟩
    · exact ⟨seated.active,inserted⟩
  have slashings : Seated (d.getSlashingEvents.foldl loadSlashing (d.epochs.toList.foldl loadEpoch (k.loadStakes d))) :=
    List.foldlRecOn (motive := Seated) d.getSlashingEvents loadSlashing epochs (fun k seated event _ => seated.same rfl rfl)
  exact List.foldlRecOn (motive := Seated) _ reconcileSlashed slashings (fun k seated vaddr _ => reconcileSeated seated vaddr)

end Load

end Staking

namespace Blockchain
variable [Env]

abbrev Seats : Blockchain → Prop := Upholds Staking.Seated Staking.TableSeated

def leftBy : Except (Fault Blockchain) (Bool × Blockchain) → Blockchain
  | .ok (_,s) => s
  | .error r => r.state

inductive Lived : Blockchain → Prop where
  | memory {validators : Dict Address Bytes} : Lived (new (.memory []) validators)
  | sqlite {validators : Dict Address Bytes} : Lived (new (.sqlite {}) validators)
  | call {s : Blockchain} (c : Call) (prior : Lived s) : Lived (s.perform c).2
  | restart {s : Blockchain} {d : Store} {validators : Dict Address Bytes} (verifySignatures : Bool) (prior : Lived s)
      (stored : s.backend = .sqlite d) : Lived (leftBy ((new (.sqlite d) validators).load verifySignatures))

def LeavesSeats : Except LoadStop Loading → Prop
  | .ok l => Seats l.chain
  | .error (.incomplete s) => Seats s
  | .error (.raised r) => Seats r.state

theorem loadBlockSeats {l : Loading} (seats : Seats l.chain) (verify : Bool) (storeHeight i : Int) :
    LeavesSeats (loadBlock verify storeHeight l i) := by
  unfold loadBlock
  split
  · exact seats
  · rename_i block found
    split
    · exact seats
    · split
      · exact seats
      · have tipped : Seats (l.chain.advanceTip block i) := Upholds.beside seats rfl rfl
        have reached : Seats (Outcome.stateOf (block.transactions.zipIdx.foldlM (reloadTx i storeHeight)
            (l.chain.advanceTip block i))) := by
          refine Outcome.foldLeaves Seats (fun s row _ seats => ?_) tipped
          simp only [reloadTx]
          rw [Outcome.stateOfWithin]
          exact Upholds.withState seats (Staking.reloadTxSeated seats.staking row.1 i storeHeight)
        split
        · rename_i r run
          rw [run] at reached
          exact reached
        · rename_i t run
          rw [run] at reached
          exact reached

theorem loadBlocksSeats (heights : List Int) {l : Loading} (seats : Seats l.chain) (verify : Bool) (storeHeight : Int) :
    LeavesSeats (heights.foldlM (loadBlock verify storeHeight) l) := by
  induction heights generalizing l with
  | nil => exact seats
  | cons i rest ih =>
    have first := loadBlockSeats seats verify storeHeight i
    rw [List.foldlM_cons]
    cases step : loadBlock verify storeHeight l i with
    | ok next =>
      rw [step] at first
      exact ih first
    | error stop =>
      rw [step] at first
      exact first

omit [Env] in
theorem loadTablesSeats {s : Blockchain} {d : Store} (seats : Seats s) (table : Staking.TableSeated d.epochs)
    (storeHeight : Int) : Seats (Outcome.stateOf (s.loadTables d storeHeight)) := by
  simp only [loadTables]
  refine Outcome.leavesBind Seats ?_ (fun t _ seats => Upholds.beside seats rfl rfl)
  rw [Outcome.stateOfWithin]
  exact seats.withState (Staking.loadTablesSeated seats.staking table)

theorem loadSeats {s : Blockchain} (seats : Seats s) (verify : Bool) : Seats (leftBy (s.load verify)) := by
  unfold load
  split
  · exact seats
  · split
    · exact seats
    · rename_i d stored
      have table : Staking.TableSeated d.epochs := seats.epochs d.epochs (by rw [stored]; rfl)
      have reopened : Seats { s with backend := .sqlite d.reopened } :=
        seats.beside rfl (by rw [stored]; rfl)
      simp only [loadFromSqlite]
      split
      · exact reopened
      · have read := loadBlocksSeats (storedHeights d.reopened.height) (l := ⟨{ s with backend := .sqlite d.reopened },
          if verify then s.state.staking.validators else ∅,""⟩) reopened verify d.reopened.height
        split
        · rename_i t stopped
          rw [stopped] at read
          exact read
        · rename_i r stopped
          rw [stopped] at read
          exact read
        · rename_i l run
          rw [run] at read
          have tables := loadTablesSeats (d := d.reopened) read table d.reopened.height
          cases loading : l.chain.loadTables d.reopened d.reopened.height with
          | error r =>
            rw [loading] at tables
            exact tables
          | ok t =>
            rw [loading] at tables
            have rebuilt : Seats (Outcome.stateOf t.rebuildStateTrie) := Upholds.rebuilt tables
            simp only [bind,Except.bind]
            cases rebuilding : t.rebuildStateTrie with
            | error r =>
              rw [rebuilding] at rebuilt
              exact rebuilt
            | ok u =>
              rw [rebuilding] at rebuilt
              have checked : Seats (Outcome.stateOf u.checkLoadedRoot) := by
                simp only [checkLoadedRoot]
                split
                · exact rebuilt
                · split <;> exact Upholds.beside rebuilt rfl rfl
              dsimp only
              cases checking : u.checkLoadedRoot with
              | error r =>
                rw [checking] at checked
                exact checked
              | ok v =>
                rw [checking] at checked
                exact checked

theorem livedSeats {s : Blockchain} (lived : Lived s) : Seats s := by
  have fresh (validators : Dict Address Bytes) : Staking.Seated { validators } :=
    ⟨WeightedChoice.weightedNil,fun epoch rows found => by simp at found⟩
  induction lived with
  | memory => exact ⟨fresh _,fun _ found => nomatch found⟩
  | sqlite =>
    refine ⟨fresh _,fun e found => ?_⟩
    cases found
    exact fun epoch blockStart rows found => by simp at found
  | call c prior ih => exact performUpheld Staking.seatedUpheld ih c
  | @restart s d validators verify prior stored ih =>
    refine loadSeats ⟨fresh validators,fun e found => ?_⟩ verify
    cases found
    exact ih.epochs d.epochs (by rw [stored]; rfl)

section Selection

omit [Env] in
theorem pickByStakeChoose (fallback : Address) (rows : List (Address × Int)) (point cumulative : Int) :
    pickByStake point fallback cumulative rows = (WeightedChoice.choose (point - cumulative) rows).getD fallback := by
  induction rows generalizing cumulative with
  | nil => rfl
  | cons row rest ih =>
    obtain ⟨addr,stake⟩ := row
    rw [pickByStake,WeightedChoice.choose]
    by_cases below : point < cumulative + stake
    · rw [if_pos below,if_pos (by omega)]
      rfl
    · rw [if_neg below,if_neg (by omega),ih]
      congr 2
      omega

/- What the selection makes of its list: the stakes are positive, every point the seed can give
lies below their sum, some listed validator is picked there without the fallback, and each for
as many points as it has stake. -/
structure Proportional (active : List (Address × Int)) : Prop where
  positive : ∀ row ∈ active, 0 < row.2
  point : ∀ blockIndex parentHash, 0 ≤ selectionSeed blockIndex parentHash % (active.map Prod.snd).sum ∧
    selectionSeed blockIndex parentHash % (active.map Prod.snd).sum < (active.map Prod.snd).sum
  listed : ∀ point ∈ Finset.Ico 0 (active.map Prod.snd).sum, ∃ row ∈ active, ∀ fallback,
    pickByStake point fallback 0 active = row.1
  counted : ∀ row ∈ active, ∀ fallback, (((Finset.Ico 0 (active.map Prod.snd).sum).filter
    (fun point => pickByStake point fallback 0 active = row.1)).card : Int) = row.2

theorem weightedProportional {active : List (Address × Int)} (weighted : Weighted active) (some : active ≠ []) :
    Proportional active := by
  have total : 0 < (active.map Prod.snd).sum := WeightedChoice.totalPositive weighted some
  have picked : ∀ point fallback a, 0 ≤ point → point < (active.map Prod.snd).sum →
      (pickByStake point fallback 0 active = a ↔ WeightedChoice.choose point active = Option.some a) := by
    intro point fallback a low high
    obtain ⟨b,chosen⟩ := WeightedChoice.chooseSome low high
    rw [pickByStakeChoose,Int.sub_zero,chosen,Option.getD_some,Option.some.injEq]
  refine ⟨weighted.positive,fun blockIndex parentHash => ?_,fun point inside => ?_,fun row inside fallback => ?_⟩
  · exact ⟨Int.emod_nonneg _ (by omega),Int.emod_lt_of_pos _ total⟩
  · obtain ⟨low,high⟩ := Finset.mem_Ico.mp inside
    obtain ⟨a,chosen⟩ := WeightedChoice.chooseSome low high
    obtain ⟨row,listed,rfl⟩ := List.mem_map.mp (WeightedChoice.chooseMem chosen)
    exact ⟨row,listed,fun fallback => (picked point fallback row.1 low high).mpr chosen⟩
  · rw [← WeightedChoice.pointsCount weighted row inside]
    congr 2
    refine Finset.filter_congr (fun point inside => ?_)
    obtain ⟨low,high⟩ := Finset.mem_Ico.mp inside
    exact picked point fallback row.1 low high

end Selection

theorem selectionProportional (s : Blockchain) (lived : Lived s) (staked : s.getActiveValidators ≠ []) :
    Proportional s.getActiveValidators :=
  weightedProportional (livedSeats lived).staking.activeList staked

end Blockchain

namespace Devnet
attribute [local instance] turning
open Blockchain

theorem selectionProportionalFounded : Proportional [(payer,1),(purse,3)] := by
  have lived : Lived twoFounded := Lived.call (.receive pairGenesis 100) .memory
  have active := parts.2.2.1
  rw [← active]
  exact selectionProportional twoFounded lived (by rw [active]; exact List.cons_ne_nil _ _)

end Devnet

end QbitNetwork
