import QbitNetwork.Producers
import QbitNetwork.Supply

/-! The weight of a validator and the stakes behind it. Both tables are updated side by
side; they part where a withdrawal is clamped on one of them only, and where a slash is
rounded per stake. -/
namespace QbitNetwork

namespace Staking

/- `sum(_stakes.get(v, {}).values())`. -/
def delegated (k : Staking) (v : Address) : Int :=
  k.stakes.sumBy (fun row amount => if row.1 = v then amount else 0)

def cuts (k : Staking) (v : Address) : Int :=
  k.stakes.sumBy (fun row amount => if row.1 = v then slashAmount amount else 0)

def Backed (k : Staking) : Prop := ∀ v, k.totalStake.get v = k.delegated v

def Solvent (k : Staking) : Prop := ∀ row, 0 ≤ k.stakes.get row

section Amounts

theorem slashAmountLe {total : Int} (nonneg : 0 ≤ total) : slashAmount total ≤ total := by
  have half : slashAmount total =
      if total * 50 / 100 ≤ 0 ∧ 0 < total then 1 else total * 50 / 100 := rfl
  rw [half]
  split <;> omega

theorem afterSlashAmount {total : Int} (nonneg : 0 ≤ total) :
    afterSlash total = total - slashAmount total := by
  have least := slashAmountLe nonneg
  rw [afterSlash]
  omega

end Amounts

section Sums

theorem delegatedNonneg {k : Staking} (solvent : k.Solvent) (v : Address) : 0 ≤ k.delegated v := by
  refine List.sum_nonneg ?_
  intro amount inside
  obtain ⟨⟨row,held⟩,listed,rfl⟩ := List.mem_map.mp inside
  have current := ((Table.memItems k.stakes row held).mp listed).1
  have := solvent row
  dsimp only
  split <;> omega

theorem stakeLe {k : Staking} (solvent : k.Solvent) (v staker : Address) :
    k.stakes.get (v,staker) ≤ k.delegated v := by
  have without : Solvent { k with stakes := k.stakes.set (v,staker) 0 } := by
    intro row
    simp only [Table.getSet]
    split
    · omega
    · exact solvent row
  have rest := delegatedNonneg without v
  rw [delegated] at rest
  dsimp only at rest
  rw [Table.sumBySet _ _ (by intro row; split <;> rfl)] at rest
  simp only [if_true,delegated] at rest ⊢
  omega

theorem delegatedSet (k : Staking) (vaddr staker v : Address) (f : Int → Int) :
    (k.stakes.update (vaddr,staker) f).sumBy (fun row amount => if row.1 = v then amount else 0) =
      k.delegated v + if vaddr = v then f (k.stakes.get (vaddr,staker)) - k.stakes.get (vaddr,staker)
        else 0 := by
  rw [Table.update,Table.sumBySet _ _ (by intro row; split <;> rfl)]
  simp only [delegated]
  split <;> omega

theorem delegatedMapWhere (k : Staking) (vaddr v : Address) (f : Int → Int) :
    (k.stakes.mapWhere (fun row => row.1 = vaddr) f).sumBy
        (fun row amount => if row.1 = v then amount else 0) =
      k.delegated v + if vaddr = v then
        ((k.stakes.items.filter (fun row => row.1.1 = vaddr)).map
          (fun row => f row.2 - row.2)).sum else 0 := by
  rw [Table.sumByMapWhere _ (by intro row; split <;> rfl)]
  simp only [delegated]
  congr 1
  have rows : ∀ row ∈ k.stakes.items.filter (fun row => decide (row.1.1 = vaddr)),
      row.1.1 = vaddr := fun row inside => by simpa using (List.mem_filter.mp inside).2
  split
  · rename_i same
    congr 1
    refine List.map_congr_left (fun row inside => ?_)
    rw [if_pos ((rows row inside).trans same),if_pos ((rows row inside).trans same)]
  · rename_i other
    refine List.sum_eq_zero (fun amount inside => ?_)
    obtain ⟨row,listed,rfl⟩ := List.mem_map.mp inside
    have away : ¬row.1.1 = v := fun same => other ((rows row listed).symm.trans same)
    simp [away]

theorem sumRows (rows : List ((Address × Address) × Int)) (vaddr : Address) (f : Int → Int) :
    (rows.map (fun row => if row.1.1 = vaddr then f row.2 else 0)).sum =
      ((rows.filter (fun row => row.1.1 = vaddr)).map (fun row => f row.2)).sum := by
  induction rows with
  | nil => rfl
  | cons row rest ih =>
    by_cases same : row.1.1 = vaddr
    · simp [same,ih]
    · simp [same,ih]

theorem delegatedZero {k : Staking} {v : Address} (none : ∀ staker, k.stakes.get (v,staker) = 0) :
    k.delegated v = 0 := by
  refine List.sum_eq_zero ?_
  intro amount inside
  obtain ⟨⟨⟨vaddr,staker⟩,held⟩,listed,rfl⟩ := List.mem_map.mp inside
  have current := ((Table.memItems ..).mp listed).1
  dsimp only
  split
  · rename_i same
    rw [same,none] at current
    exact current.symm
  · rfl

theorem slashedRows {k : Staking} (solvent : k.Solvent) (v : Address) :
    ((k.stakes.items.filter (fun row => row.1.1 = v)).map (fun row => afterSlash row.2 - row.2)).sum =
      -k.cuts v := by
  have cuts : k.cuts v =
      ((k.stakes.items.filter (fun row => row.1.1 = v)).map (fun row => slashAmount row.2)).sum :=
    sumRows k.stakes.items v slashAmount
  have rows : ∀ row ∈ k.stakes.items.filter (fun row => decide (row.1.1 = v)),
      afterSlash row.2 - row.2 = -slashAmount row.2 := by
    rintro ⟨row,held⟩ inside
    have current := ((Table.memItems ..).mp (List.mem_filter.mp inside).1).1
    have nonneg : 0 ≤ held := current ▸ solvent row
    simp only [afterSlashAmount nonneg]
    omega
  rw [cuts,List.map_congr_left rows,List.sum_neg,List.map_map]
  rfl

end Sums

section Steps

def KeepsBacked [Env] (k : Staking) (tx : Transaction) : Prop :=
  match tx.txType with
  | .UNSTAKE => Roster.applies tx →
      Roster.amount tx ≤ k.stakes.get (Roster.target tx,tx.sender) ∨
        k.stakes.get (Roster.target tx,tx.sender) = k.totalStake.get (Roster.target tx)
  | .EVIDENCE => k.evidenceHolds tx.payload = true →
      afterSlash (k.totalStake.get (Roster.target tx)) < minStake ∨
        k.cuts (Roster.target tx) = slashAmount (k.totalStake.get (Roster.target tx))
  | _ => True

theorem addStakeBacked {k : Staking} {tx : Transaction} (backed : k.Backed) :
    (k.addStake tx.sender tx.payload).Backed := by
  intro v
  simp only [addStake]
  split
  · simp only [delegated,Table.getUpdate]
    rw [delegatedSet,← backed v]
    split
    · rename_i same
      rw [same]
      omega
    · omega
  · exact backed v

theorem addStakeSolvent {k : Staking} {tx : Transaction} (solvent : k.Solvent) :
    (k.addStake tx.sender tx.payload).Solvent := by
  intro row
  simp only [addStake]
  split
  · rename_i applies
    have held := solvent (tx.payload.validatorAddress.getD "",tx.sender)
    simp only [Table.getUpdate]
    split
    · omega
    · exact solvent row
  · exact solvent row

theorem unstakeSolvent {k : Staking} (staker : Address) (p : Payload) (idx : Int)
    (solvent : k.Solvent) : (k.unstake staker p idx).Solvent := by
  intro row
  simp only [unstake]
  split
  · simp only [Table.getUpdate]
    split
    · exact le_max_left ..
    · exact solvent row
  · exact solvent row

theorem unstakeBacked {k : Staking} {tx : Transaction} (idx : Int) (backed : k.Backed)
    (solvent : k.Solvent) : (k.unstake tx.sender tx.payload idx).Backed ↔
      (Roster.applies tx → Roster.amount tx ≤ k.stakes.get (Roster.target tx,tx.sender) ∨
        k.stakes.get (Roster.target tx,tx.sender) = k.totalStake.get (Roster.target tx)) := by
  have whole := backed (Roster.target tx)
  have least := stakeLe solvent (Roster.target tx) tx.sender
  have held := solvent (Roster.target tx,tx.sender)
  by_cases applies : Roster.applies tx
  · have positive : 0 < Roster.amount tx := applies.2
    have change : ∀ v, (k.unstake tx.sender tx.payload idx).totalStake.get v =
          (if Roster.target tx = v then
            max 0 (k.totalStake.get (Roster.target tx) - Roster.amount tx) else k.totalStake.get v) ∧
        (k.unstake tx.sender tx.payload idx).delegated v = k.delegated v +
          (if Roster.target tx = v then
            max 0 (k.stakes.get (Roster.target tx,tx.sender) - Roster.amount tx) -
              k.stakes.get (Roster.target tx,tx.sender) else 0) := by
      intro v
      simp only [unstake]
      rw [if_pos (by exact applies)]
      exact ⟨Table.getUpdate ..,delegatedSet ..⟩
    constructor
    · intro after _
      have here := after (Roster.target tx)
      rw [(change _).1,(change _).2,if_pos rfl,if_pos rfl] at here
      omega
    · intro covered v
      rw [(change v).1,(change v).2]
      have covered := covered applies
      split
      · rename_i same
        rw [← same]
        omega
      · rw [← backed v]
        omega
  · have same : k.unstake tx.sender tx.payload idx = k := if_neg applies
    rw [same]
    exact ⟨fun _ holds => absurd holds applies,fun _ => backed⟩

theorem slashSolvent {k : Staking} (vaddr : Address) (txId : String) (idx : Int)
    (solvent : k.Solvent) : (k.slash vaddr txId idx).Solvent := by
  rintro ⟨v,staker⟩
  have stakes := congrFun (congrFun (congrArg Roster.stake (slashRoster k vaddr txId idx)) v) staker
  have kept : (k.slash vaddr txId idx).stakes.get (v,staker) =
      (k.roster.punish vaddr).stake v staker := stakes
  have before : k.roster.stake v staker = k.stakes.get (v,staker) := rfl
  have nonneg := solvent (v,staker)
  rw [kept]
  simp only [Roster.punish,before]
  split
  · split
    · omega
    · exact le_max_left ..
  · exact nonneg

theorem slashBacked {k : Staking} (vaddr : Address) (txId : String) (idx : Int) (backed : k.Backed)
    (solvent : k.Solvent) : (k.slash vaddr txId idx).Backed ↔
      (afterSlash (k.totalStake.get vaddr) < minStake ∨
        k.cuts vaddr = slashAmount (k.totalStake.get vaddr)) := by
  have worth : 0 ≤ k.totalStake.get vaddr := backed vaddr ▸ delegatedNonneg solvent vaddr
  by_cases low : afterSlash (k.totalStake.get vaddr) < minStake
  · refine iff_of_true ?_ (.inl low)
    intro v
    simp only [slash,low,if_true,expel,removeValidator,Table.getSet]
    by_cases same : vaddr = v
    · rw [if_pos same]
      refine (delegatedZero (fun staker => ?_)).symm
      dsimp only
      rw [Table.getMapWhere _ _ _ rfl,if_pos (by simpa using same.symm)]
    · rw [if_neg same,if_neg same]
      have first := delegatedMapWhere k vaddr v afterSlash
      have second := delegatedMapWhere { k with
        stakes := k.stakes.mapWhere (fun row => row.1 = vaddr) afterSlash } vaddr v (fun _ => 0)
      rw [if_neg same] at first second
      rw [backed v]
      simp only [delegated] at first second ⊢
      omega
  · have change : ∀ v, (k.slash vaddr txId idx).totalStake.get v =
          (if vaddr = v then afterSlash (k.totalStake.get vaddr) else k.totalStake.get v) ∧
        (k.slash vaddr txId idx).delegated v =
          k.delegated v + if vaddr = v then -k.cuts vaddr else 0 := by
      intro v
      simp only [slash,low,if_false]
      refine ⟨Table.getSet ..,?_⟩
      rw [← slashedRows solvent]
      exact delegatedMapWhere k vaddr v afterSlash
    rw [or_iff_right low]
    constructor
    · intro after
      have here := after vaddr
      rw [(change _).1,(change _).2,if_pos rfl,if_pos rfl,afterSlashAmount worth,backed vaddr] at here
      rw [backed vaddr]
      omega
    · intro even v
      rw [(change v).1,(change v).2]
      split
      · rename_i same
        rw [← same,afterSlashAmount worth,even,backed vaddr]
        omega
      · rw [backed v]
        omega

theorem rosterTables {k k' : Staking} (same : k.roster = k'.roster) :
    k.stakes = k'.stakes ∧ k.totalStake = k'.totalStake := by
  refine ⟨Table.ext fun row => ?_,Table.ext fun v => ?_⟩
  · exact congrFun (congrFun (congrArg Roster.stake same) row.1) row.2
  · exact congrFun (congrArg Roster.weight same) v

theorem rosterBacked {k k' : Staking} (same : k.roster = k'.roster) :
    (k.Backed ↔ k'.Backed) ∧ (k.Solvent ↔ k'.Solvent) := by
  obtain ⟨stakes,totals⟩ := rosterTables same
  constructor
  · unfold Backed delegated
    rw [stakes,totals]
  · unfold Solvent
    rw [stakes]

variable [Env]

theorem registryTables {k k' : Staking} {tx : Transaction} {idx : Int}
    (kind : tx.txType = .REGISTER_VALIDATOR ∨ tx.txType = .REVOKE_KEY)
    (run : k.applyTx tx idx = .ok k') : k'.stakes = k.stakes ∧ k'.totalStake = k.totalStake := by
  have roster := applyTxRoster run
  have stake : k'.roster.stake = k.roster.stake ∧ k'.roster.weight = k.roster.weight := by
    rw [roster]
    rcases kind with kind | kind <;> simp only [Roster.step,kind]
    · unfold Roster.register
      dsimp only
      split <;> exact ⟨rfl,rfl⟩
    · exact ⟨rfl,rfl⟩
  refine ⟨Table.ext fun row => ?_,Table.ext fun v => congrFun stake.2 v⟩
  exact congrFun (congrFun stake.1 row.1) row.2

theorem applyTxSolvent {k k' : Staking} {tx : Transaction} {idx : Int} (solvent : k.Solvent)
    (run : k.applyTx tx idx = .ok k') : k'.Solvent := by
  cases kind : tx.txType
  case REGISTER_VALIDATOR =>
    unfold Solvent
    rw [(registryTables (.inl kind) run).1]
    exact solvent
  case REVOKE_KEY =>
    unfold Solvent
    rw [(registryTables (.inr kind) run).1]
    exact solvent
  all_goals simp only [applyTx,kind] at run; cases run
  case STAKE => exact addStakeSolvent solvent
  case DELEGATE => exact addStakeSolvent solvent
  case UNSTAKE => exact unstakeSolvent _ _ _ solvent
  case EVIDENCE =>
    unfold processEvidenceTx
    split
    · exact slashSolvent _ _ _ solvent
    · exact solvent
  all_goals exact solvent

theorem applyTxBacked {k k' : Staking} {tx : Transaction} {idx : Int} (backed : k.Backed)
    (solvent : k.Solvent) (run : k.applyTx tx idx = .ok k') : k'.Backed ↔ k.KeepsBacked tx := by
  have registry : k'.stakes = k.stakes ∧ k'.totalStake = k.totalStake → k'.Backed := by
    rintro ⟨stakes,totals⟩
    unfold Backed delegated
    rw [stakes,totals]
    exact backed
  cases kind : tx.txType <;> simp only [KeepsBacked,kind]
  case REGISTER_VALIDATOR => exact iff_true_intro (registry (registryTables (.inl kind) run))
  case REVOKE_KEY => exact iff_true_intro (registry (registryTables (.inr kind) run))
  all_goals simp only [applyTx,kind] at run; cases run
  case STAKE => exact iff_true_intro (addStakeBacked backed)
  case DELEGATE => exact iff_true_intro (addStakeBacked backed)
  case UNSTAKE => exact unstakeBacked idx backed solvent
  case EVIDENCE =>
    unfold processEvidenceTx
    split
    · rename_i holds
      rw [slashBacked _ _ _ backed solvent]
      exact ⟨fun even _ => even,fun even => even holds⟩
    · rename_i spared
      exact iff_of_true backed (fun holds => absurd holds spared)
  all_goals exact iff_true_intro backed

end Steps

end Staking

namespace ChainState
variable [Env]

omit [Env] in
theorem payRewardRoster {s s' : ChainState} {block : Block} {idx : Int}
    (run : s.payReward block idx = .ok s') : s'.staking.roster = s.staking.roster := by
  obtain ⟨rewards,kept⟩ := payRewardKeys run
  rw [kept]
  rfl

theorem beforeTxSucc {s t t' : ChainState} {block : Block} {idx : Int} {i : Nat} {tx : Transaction}
    (found : block.transactions[i]? = some tx) (before : s.beforeTx block idx i = .ok t)
    (after : s.beforeTx block idx (i + 1) = .ok t') : applyTx block idx t (tx,i) = .ok t' := by
  obtain ⟨opened,opening,loop⟩ := Outcome.bindOk .. |>.mp before
  obtain ⟨opened',opening',loop'⟩ := Outcome.bindOk .. |>.mp after
  cases opening.symm.trans opening'
  have row : block.transactions.zipIdx[i]? = some (tx,i) := by
    rw [List.getElem?_zipIdx,found]
    simp
  rw [List.take_add_one,row,List.foldlM_append,Outcome.bindOk] at loop'
  obtain ⟨mid,prefixed,last⟩ := loop'
  cases loop.symm.trans prefixed
  simpa using last

theorem beforeTxSolvent {s t : ChainState} {block : Block} {idx : Int} {i : Nat}
    (solvent : s.staking.Solvent) (before : s.beforeTx block idx i = .ok t) :
    t.staking.Solvent := by
  obtain ⟨opened,opening,loop⟩ := Outcome.bindOk .. |>.mp before
  have start := (Staking.rosterBacked (openBlockRoster opening)).2.mpr solvent
  exact Outcome.foldInvariant (fun t : ChainState => t.staking.Solvent)
    (fun _ _ _ solvent step => Staking.applyTxSolvent solvent (applyTxStaking step)) start loop

theorem applyBlockSolvent {s c : ChainState} {block : Block} {idx : Int}
    (solvent : s.staking.Solvent) (run : s.applyBlock block idx = .ok c) : c.staking.Solvent := by
  simp only [applyBlock,Outcome.bindOk] at run
  obtain ⟨opened,opening,looped,loop,reward⟩ := run
  have start := (Staking.rosterBacked (openBlockRoster opening)).2.mpr solvent
  have whole := Outcome.foldInvariant (fun t : ChainState => t.staking.Solvent)
    (fun _ _ _ solvent step => Staking.applyTxSolvent solvent (applyTxStaking step)) start loop
  exact (Staking.rosterBacked (payRewardRoster reward)).2.mpr whole

theorem applyBlockBacked {s c : ChainState} {block : Block} {idx : Int}
    (solvent : s.staking.Solvent) (backed : s.staking.Backed)
    (keeps : ∀ i tx t, block.transactions[i]? = some tx → s.beforeTx block idx i = .ok t →
      t.staking.KeepsBacked tx)
    (run : s.applyBlock block idx = .ok c) : c.staking.Backed := by
  simp only [applyBlock,Outcome.bindOk] at run
  obtain ⟨opened,opening,looped,loop,reward⟩ := run
  obtain ⟨start,startSolvent⟩ := Staking.rosterBacked (openBlockRoster opening)
  have whole : looped.staking.Backed ∧ looped.staking.Solvent := by
    refine Outcome.foldInvariantAt (fun t : ChainState => t.staking.Backed ∧ t.staking.Solvent)
      (fun i row t t' found reached before step => ?_)
      ⟨start.mpr backed,startSolvent.mpr solvent⟩ loop
    have met := keeps i row.1 t (zipIdxRow found) (Outcome.bindOk .. |>.mpr ⟨opened,opening,reached⟩)
    have staked := applyTxStaking step
    exact ⟨(Staking.applyTxBacked before.1 before.2 staked).mpr met,
      Staking.applyTxSolvent before.2 staked⟩
  exact (Staking.rosterBacked (payRewardRoster reward)).1.mpr whole.1

end ChainState

namespace Blockchain
variable [Env]

theorem genesisTables {s t : Blockchain} {address : Address} {sk key : Bytes} {now : Int}
    {genesis : Block} (clean : s.state.staking = { validators := s.state.staking.validators })
    (made : genesis = (Block.genesis address
      (if key.isEmpty then [] else [registration address sk key now]) now).sign sk)
    (appended : s.appendBlockInner genesis = .ok t) :
    t.state.staking.stakes = .empty ∧ t.state.staking.totalStake = .empty := by
  obtain ⟨c,grown⟩ := appendInnerOk appended
  have roster : t.state.staking.roster = s.state.staking.roster.run genesis.transactions := by
    rw [grown.staking,Staking.pruneRoster,ChainState.applyBlockRoster grown.applied]
  have moves : t.state.staking.roster.stake = s.state.staking.roster.stake ∧
      t.state.staking.roster.weight = s.state.staking.roster.weight := by
    rw [roster,made]
    simp only [Block.signTransactions,Block.genesis]
    split
    · exact ⟨rfl,rfl⟩
    · simp only [Roster.run,List.foldl_cons,List.foldl_nil,Roster.step,registration,Transaction.sign,
        Roster.register]
      split <;> exact ⟨rfl,rfl⟩
  rw [clean] at moves
  refine ⟨Table.ext fun row => ?_,Table.ext fun v => ?_⟩
  · exact congrFun (congrFun moves.1 row.1) row.2
  · exact congrFun moves.2 v

omit [Env] in
theorem autoStakeBacked {s : Blockchain} (address : Address)
    (none : s.state.staking.stakes = .empty ∧ s.state.staking.totalStake = .empty) :
    (s.autoStake address).state.staking.Backed ∧ (s.autoStake address).state.staking.Solvent := by
  constructor
  · intro v
    simp only [autoStake,mapStore,withState,none.1,none.2,Table.getSet,Table.getEmpty,
      Staking.delegated]
    rw [Table.sumBySet _ _ (by intro row; split <;> rfl),Table.getEmpty]
    have empty : (Table.empty : Table (Address × Address) Int 0).sumBy
        (fun row amount => if row.1 = v then amount else 0) = 0 := rfl
    rw [empty]
    simp
  · intro row
    simp only [autoStake,mapStore,withState,none.1,Table.getSet,Table.getEmpty]
    split
    · decide
    · omega

theorem initChainBacked {s s' : Blockchain} {address : Address} {sk pk : Bytes} {now : Int}
    (built : Built s) (run : s.initChain address sk pk now = .ok s') :
    (s.state.staking.Backed → s'.state.staking.Backed) ∧
      (s.state.staking.Solvent → s'.state.staking.Solvent) := by
  by_cases fresh : s.height < 0
  · obtain ⟨key,genesis,t,staked,_,_,_,-,made,appended,same,-,final⟩ := initChainOk fresh run
    have none := genesisTables (builtClean built fresh) made appended
    have state : s'.state = staked.state := by rw [final]; rfl
    rw [state,same]
    split
    · refine ⟨fun _ v => ?_,fun _ row => ?_⟩
      · rw [none.2,Table.getEmpty,Staking.delegated,none.1]
        rfl
      · rw [none.1,Table.getEmpty]
    · have backed := autoStakeBacked address none
      exact ⟨fun _ => backed.1,fun _ => backed.2⟩
  · unfold initChain at run
    rw [if_pos (by omega)] at run
    cases run
    exact ⟨id,id⟩

theorem builtSolvent {s : Blockchain} (built : Built s) : s.state.staking.Solvent := by
  have nothing : Staking.Solvent {} := fun row => by simp
  induction built with
  | memory => exact nothing
  | sqlite => exact nothing
  | initChain address sk pk now prior run ih => exact (initChainBacked prior run).2 ih
  | activate address prior run ih =>
    obtain ⟨-,-,-,-,-,-,staking,-⟩ := activateKeeps run
    rw [staking]
    exact ih
  | submit now tx prior ih => rw [submitState]; exact ih
  | accept block prior step ih =>
    obtain ⟨c,grown⟩ := acceptsGrown step
    rw [grown.staking]
    exact (Staking.rosterBacked (Staking.pruneRoster ..)).2.mpr
      (ChainState.applyBlockSolvent ih grown.applied)

def KeepsBacked (s : Blockchain) (block : Block) : Prop :=
  ∀ i tx t, block.transactions[i]? = some tx → s.state.beforeTx block (s.height + 1) i = .ok t →
    t.staking.KeepsBacked tx

theorem builtByBacked {s : Blockchain} (builtBy : BuiltBy KeepsBacked s) :
    s.state.staking.Backed := by
  have nothing : Staking.Backed {} := fun v => by simp only [Table.getEmpty]; rfl
  induction builtBy with
  | memory => exact nothing
  | sqlite => exact nothing
  | initChain address sk pk now prior run ih => exact (initChainBacked prior.built run).1 ih
  | activate address prior run ih =>
    obtain ⟨-,-,-,-,-,-,staking,-⟩ := activateKeeps run
    rw [staking]
    exact ih
  | submit now tx prior ih => rw [submitState]; exact ih
  | accept block prior step met ih =>
    obtain ⟨c,grown⟩ := acceptsGrown step
    rw [grown.staking]
    exact (Staking.rosterBacked (Staking.pruneRoster ..)).1.mpr
      (ChainState.applyBlockBacked (builtSolvent prior.built) ih met grown.applied)

theorem stakesBackedIff :
    (∀ s s' block i tx t t', Built s → Accepts s block s' → block.transactions[i]? = some tx →
      s.state.beforeTx block (s.height + 1) i = .ok t →
      s.state.beforeTx block (s.height + 1) (i + 1) = .ok t' → t.staking.Backed →
      (t'.staking.Backed ↔ t.staking.KeepsBacked tx)) ∧
    (∀ s, BuiltBy KeepsBacked s → s.state.staking.Backed) := by
  refine ⟨?_,fun s builtBy => builtByBacked builtBy⟩
  intro s s' block i tx t t' built _ found before after backed
  have staked := ChainState.applyTxStaking (ChainState.beforeTxSucc found before after)
  exact Staking.applyTxBacked backed (ChainState.beforeTxSolvent (builtSolvent built) before) staked

end Blockchain

end QbitNetwork

namespace QbitNetwork.Devnet
attribute [local instance] legacy
open Blockchain

def otherKey : Bytes := [3]

def otherAddress : Address := deriveAddress otherKey

def gift : Transaction :=
  Transaction.sign
    { txType := .TRANSFER
      sender := address
      recipient := otherAddress
      payload := { amount := some 1000000000 }
      timestamp := 101 } key key

def strangeUnstake : Transaction :=
  Transaction.sign
    { txType := .UNSTAKE
      sender := otherAddress
      payload := { amount := some 1, validatorAddress := some address }
      timestamp := 101 } otherKey otherKey

def withdrawing : Block :=
  (((active.admitTx gift).admitTx strangeUnstake).produceBlock address key 102 102).2.tipBlock

def withdrawn : Blockchain := (active.addBlock withdrawing 102).2

theorem stakeUnbacked :
    Built active ∧ active.state.staking.Backed ∧ Accepts active withdrawing withdrawn ∧
      withdrawn.state.staking.totalStake.get address = 0 ∧
      withdrawn.state.staking.delegated address = 1 ∧ ¬withdrawn.state.staking.Backed := by
  have run : (active.addBlock withdrawing 102).1 = .accepted ∧
      withdrawn.state.staking.totalStake.get address = 0 ∧
      withdrawn.state.staking.delegated address = 1 := by decide +kernel
  obtain ⟨answer,total,delegated⟩ := run
  refine ⟨activeBuilt,?_,receivedAccepts (by rw [withdrawn]) answer,total,delegated,?_⟩
  · exact builtByBacked (.activate address (.initChain address key key 100 .memory genesisRuns)
      activeRuns)
  · intro backed
    have here := backed address
    rw [total,delegated] at here
    cases here

theorem stakesBackedUnstaking :
    unstaked.state.staking.Backed ∧ ∃ t t',
      unstaking.state.beforeTx unstaked.tipBlock (unstaking.height + 1) 0 = .ok t ∧
      unstaking.state.beforeTx unstaked.tipBlock (unstaking.height + 1) 1 = .ok t' ∧
      (t'.staking.Backed ↔ t.staking.KeepsBacked (unstake 0)) := by
  have run : (unstaking.produceBlock address key 102 102).1 = .accepted ∧
      unstaked.latestBlock.isSome = true ∧ unstaked.tipBlock.transactions = [unstake 0] ∧
      unstaking.state.staking.stakes.get (address,address) = 1 := by decide +kernel
  obtain ⟨answer,made,transactions,staked⟩ := run
  have step : Accepts unstaking unstaked.tipBlock unstaked :=
    producedAccepts (by rw [unstaked]) answer made
  obtain ⟨c,grown⟩ := acceptsGrown step
  obtain ⟨t,before⟩ := ChainState.beforeTxReached grown.applied 0
  obtain ⟨t',after⟩ := ChainState.beforeTxReached grown.applied 1
  have roster := ChainState.beforeTxRoster before
  rw [List.take_zero,Roster.runNil] at roster
  have covered : t.staking.KeepsBacked (unstake 0) := by
    have held : t.staking.stakes.get (address,address) = 1 := by
      rw [(Staking.rosterTables roster).1]
      exact staked
    simp only [Staking.KeepsBacked,unstake,Transaction.sign]
    exact fun _ => .inl (by simp [Roster.target,Roster.amount,held])
  have start : BuiltBy KeepsBacked unstaking :=
    .submit 101 (unstake 0) (.activate address
      (.initChain address key key 100 .memory genesisRuns) activeRuns)
  have backed : t.staking.Backed := (Staking.rosterBacked roster).1.mpr (builtByBacked start)
  have met : KeepsBacked unstaking unstaked.tipBlock := by
    intro i tx u found reached
    rw [transactions] at found
    have first : i = 0 := by
      have := (List.getElem?_eq_some_iff.mp found).1
      simpa using this
    subst first
    cases before.symm.trans reached
    cases found
    exact covered
  exact ⟨stakesBackedIff.2 unstaked (.accept _ start step met),t,t',before,after,
    stakesBackedIff.1 unstaking unstaked _ 0 (unstake 0) t t' unstakingBuilt step
      (by rw [transactions]; rfl) before after backed⟩

end QbitNetwork.Devnet
