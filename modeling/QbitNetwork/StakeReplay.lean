import QbitNetwork.Delegations
import QbitNetwork.History

/-! The stakes table of the store: what the node writes into it block by block, and what
`delete_blocks_from` makes of it from the blocks that are left. -/
namespace QbitNetwork

abbrev StakeTable := Table (Address × Address) Int 0

def Roster.Tabled (r : Roster) (table : StakeTable) : Prop := ∀ staker v, table.get (staker,v) = r.stake v staker

namespace Roster

theorem tabledUnique {r : Roster} {table table' : StakeTable} (first : r.Tabled table) (second : r.Tabled table') :
    table = table' :=
  Table.ext fun row => (first row.1 row.2).trans (second row.1 row.2).symm

section Amounts

theorem afterSlashCuts {amount : Int} (some : 0 < amount) : Staking.afterSlash amount < amount := by
  have half : Staking.slashAmount amount =
      if amount * 50 / 100 ≤ 0 ∧ 0 < amount then 1 else amount * 50 / 100 := rfl
  rw [Staking.afterSlash,half]
  split <;> omega

theorem afterSlashNone {amount : Int} : Staking.afterSlash amount = 0 ↔ amount ≤ 1 := by
  have half : Staking.slashAmount amount =
      if amount * 50 / 100 ≤ 0 ∧ 0 < amount then 1 else amount * 50 / 100 := rfl
  rw [Staking.afterSlash,half]
  split <;> omega

end Amounts

section Replay

theorem restakeTabled {r : Roster} {table : StakeTable} (tabled : r.Tabled table) (tx : Transaction)
    (f : Int → Int) : (if applies tx then r.restake tx.sender (target tx) f else r).Tabled
      (if target tx ≠ "" ∧ 0 < amount tx then table.update (tx.sender,target tx) f else table) := by
  by_cases applied : target tx ≠ "" ∧ 0 < amount tx
  · rw [if_pos (show applies tx from applied),if_pos applied]
    intro staker v
    simp only [restake,Table.getUpdate,Prod.mk.injEq]
    by_cases same : tx.sender = staker ∧ target tx = v
    · obtain ⟨rfl,rfl⟩ := same
      simp [tabled tx.sender (target tx)]
    · rw [if_neg same,if_neg (by tauto)]
      exact tabled staker v
  · rw [if_neg (show ¬applies tx from applied),if_neg applied]
    exact tabled

theorem replayEvidence {r : Roster} {table : StakeTable} (tabled : r.Tabled table) (vaddr staker v : Address) :
    (table.mapWhere (fun row => row.2 = vaddr) Staking.afterSlash).get (staker,v) =
      if v = vaddr then Staking.afterSlash (r.stake v staker) else r.stake v staker := by
  rw [Table.getMapWhere _ _ _ Staking.afterSlashZero,tabled staker v]
  simp

variable [Env]

/- Evidence that the replay gets right: it names nobody, or nobody with a stake, or it convicts and
leaves the validator in its place, or with stakes so small that nothing is left of them. -/
def Replays (r : Roster) (tx : Transaction) : Prop :=
  tx.txType = .EVIDENCE → target tx = "" ∨ (∀ staker, r.stake (target tx) staker = 0) ∨
    r.Convicts tx ∧ (minStake ≤ Staking.afterSlash (r.weight (target tx)) ∨ ∀ staker, r.stake (target tx) staker ≤ 1)

open Classical in
theorem evidenceTabled {r : Roster} {table : StakeTable} (tabled : r.Tabled table)
    (solvent : ∀ v staker, 0 ≤ r.stake v staker) (tx : Transaction) :
    (if r.Convicts tx then r.punish (target tx) else r).Tabled
      (if target tx ≠ "" then table.mapWhere (fun row => row.2 = target tx) Staking.afterSlash else table) ↔
    target tx = "" ∨ (∀ staker, r.stake (target tx) staker = 0) ∨
      r.Convicts tx ∧ (minStake ≤ Staking.afterSlash (r.weight (target tx)) ∨
        ∀ staker, r.stake (target tx) staker ≤ 1) := by
  by_cases named : target tx = ""
  · have spared : ¬r.Convicts tx := fun convicts => convicts.1 named
    rw [if_neg spared,if_neg (not_not.mpr named)]
    exact iff_of_true tabled (.inl named)
  rw [if_pos named,or_iff_right named]
  by_cases convicts : r.Convicts tx
  · rw [if_pos convicts]
    constructor
    · intro same
      refine .inr ⟨convicts,?_⟩
      by_contra left
      obtain ⟨low,large⟩ := not_or.mp left
      obtain ⟨staker,large⟩ := not_forall.mp large
      rw [not_le] at low
      have here := same staker (target tx)
      rw [replayEvidence tabled] at here
      simp only [punish,if_true,low] at here
      exact absurd (afterSlashNone.mp here) (by omega)
    · intro replays staker v
      rw [replayEvidence tabled]
      simp only [punish]
      by_cases here : v = target tx
      · subst here
        rw [if_pos rfl,if_pos rfl]
        split
        · rename_i low
          refine afterSlashNone.mpr ?_
          rcases replays with none | ⟨-,kept | small⟩
          · rw [none staker]
            omega
          · omega
          · exact small staker
        · rfl
      · rw [if_neg here,if_neg here]
  · rw [if_neg convicts]
    constructor
    · intro same
      refine .inl (fun staker => ?_)
      have here := same staker (target tx)
      rw [replayEvidence tabled,if_pos rfl] at here
      by_contra other
      have cut := afterSlashCuts (lt_of_le_of_ne (solvent (target tx) staker) (Ne.symm other))
      omega
    · rintro (none | ⟨convicted,-⟩)
      · intro staker v
        rw [replayEvidence tabled]
        split
        · rename_i here
          rw [here,none staker]
          rfl
        · rfl
      · exact absurd convicted convicts

theorem replayStakeTabled {r : Roster} {table : StakeTable} (tabled : r.Tabled table)
    (solvent : ∀ v staker, 0 ≤ r.stake v staker) (tx : Transaction) :
    (r.step tx).Tabled (Store.replayStake table tx) ↔ r.Replays tx := by
  cases kind : tx.txType <;> simp only [step,Store.replayStake,Replays,kind,reduceCtorEq,false_implies,iff_true]
  case STAKE => exact restakeTabled tabled tx _
  case DELEGATE => exact restakeTabled tabled tx _
  case UNSTAKE => exact restakeTabled tabled tx _
  case EVIDENCE =>
    rw [forall_const]
    exact evidenceTabled tabled solvent tx
  case REGISTER_VALIDATOR =>
    unfold register
    dsimp only
    split <;> exact tabled
  all_goals exact tabled

theorem stepSolvent {r : Roster} (solvent : ∀ v staker, 0 ≤ r.stake v staker) (tx : Transaction) :
    ∀ v staker, 0 ≤ (r.step tx).stake v staker := by
  have moved : ∀ f : Int → Int, (∀ held, 0 ≤ held → applies tx → 0 ≤ f held) →
      ∀ v staker, 0 ≤ (if applies tx then r.restake tx.sender (target tx) f else r).stake v staker := by
    intro f kept v staker
    split
    · rename_i applied
      simp only [restake]
      split
      · exact kept _ (solvent v staker) applied
      · exact solvent v staker
    · exact solvent v staker
  cases kind : tx.txType <;> simp only [step,kind]
  case STAKE => exact moved _ (fun held nonneg applied => by have := applied.2; omega)
  case DELEGATE => exact moved _ (fun held nonneg applied => by have := applied.2; omega)
  case UNSTAKE => exact moved _ (fun held _ _ => le_max_left 0 _)
  case EVIDENCE =>
    split
    · intro v staker
      simp only [punish]
      split
      · split
        · exact le_refl 0
        · exact le_max_left 0 _
      · exact solvent v staker
    · exact solvent
  case REGISTER_VALIDATOR =>
    unfold register
    dsimp only
    split <;> exact solvent
  all_goals exact solvent

theorem runSolvent {r : Roster} (solvent : ∀ v staker, 0 ≤ r.stake v staker) (txs : List Transaction) :
    ∀ v staker, 0 ≤ (r.run txs).stake v staker := by
  induction txs generalizing r with
  | nil => exact solvent
  | cons tx rest ih => exact ih (stepSolvent solvent tx)

theorem replayTabled {r : Roster} {table : StakeTable} (tabled : r.Tabled table)
    (solvent : ∀ v staker, 0 ≤ r.stake v staker) {txs : List Transaction}
    (replays : ∀ i tx, txs[i]? = some tx → (r.run (txs.take i)).Replays tx) :
    (r.run txs).Tabled (txs.foldl Store.replayStake table) := by
  induction txs generalizing r table with
  | nil => exact tabled
  | cons tx rest ih =>
    have first := (replayStakeTabled tabled solvent tx).mpr (replays 0 tx rfl)
    exact ih first (stepSolvent solvent tx) (fun i other found => replays (i + 1) other found)

end Replay

end Roster

namespace Store

theorem putStakesGet (stakers : List Address) (vaddr : Address) (amount : Address → Int) (d : Store)
    (staker v : Address) :
    (stakers.foldl (fun d staker => d.putStake staker vaddr (amount staker)) d).stakes.get (staker,v) =
      if v = vaddr ∧ staker ∈ stakers then amount staker else d.stakes.get (staker,v) := by
  induction stakers generalizing d with
  | nil => simp
  | cons first rest ih =>
    rw [List.foldl_cons,ih,putStake,Table.getSet]
    by_cases later : v = vaddr ∧ staker ∈ rest
    · rw [if_pos later,if_pos ⟨later.1,List.mem_cons_of_mem _ later.2⟩]
    · rw [if_neg later]
      by_cases here : v = vaddr ∧ staker = first
      · obtain ⟨rfl,rfl⟩ := here
        simp
      · rw [if_neg (fun same => here ⟨(Prod.mk.inj same).2.symm,(Prod.mk.inj same).1.symm⟩),if_neg]
        rintro ⟨same,inside⟩
        rcases List.mem_cons.mp inside with own | inside
        · exact here ⟨same,own⟩
        · exact later ⟨same,inside⟩

variable [Env]

theorem persistTxTabled {before after : ChainState} {tx : Transaction} {idx : Int} {d : Store}
    (tabled : before.staking.roster.Tabled d.stakes) (run : before.staking.applyTx tx idx = .ok after.staking) :
    after.staking.roster.Tabled (d.persistTx before after tx).stakes := by
  have roster := Staking.applyTxRoster run
  have one : ∀ f : Int → Int,
      after.staking.roster = (if Roster.applies tx then
        before.staking.roster.restake tx.sender (Roster.target tx) f else before.staking.roster) →
      after.staking.roster.Tabled (if Roster.target tx ≠ "" ∧ 0 < Roster.amount tx then
        d.putStake tx.sender (Roster.target tx) (after.staking.stakes.get (Roster.target tx,tx.sender)) else d).stakes := by
    intro f moved staker v
    by_cases applied : Roster.target tx ≠ "" ∧ 0 < Roster.amount tx
    · rw [if_pos (show Roster.applies tx from applied)] at moved
      rw [if_pos applied,putStake,Table.getSet]
      split
      · rename_i same
        cases same
        rfl
      · rename_i other
        rw [tabled staker v,moved]
        simp only [Roster.restake]
        rw [if_neg]
        rintro ⟨rfl,rfl⟩
        exact other rfl
    · rw [if_neg (show ¬Roster.applies tx from applied)] at moved
      rw [if_neg applied,moved]
      exact tabled staker v
  have still : after.staking.roster.stake = before.staking.roster.stake → ∀ d' : Store, d'.stakes = d.stakes →
      after.staking.roster.Tabled d'.stakes := by
    intro same d' stakes staker v
    rw [stakes,same]
    exact tabled staker v
  cases kind : tx.txType <;> simp only [Roster.step,kind] at roster <;> simp only [persistTx,kind]
  case STAKE => exact one _ roster
  case DELEGATE => exact one _ roster
  case UNSTAKE => exact one _ roster
  case EVIDENCE =>
    by_cases holds : before.staking.evidenceHolds tx.payload = true
    · rw [if_pos ((Staking.evidenceConvicts _ tx).mp holds)] at roster
      rw [if_pos holds]
      have written : after.staking.roster.Tabled (List.foldl (fun (d : Store) staker =>
          d.putStake staker (Roster.target tx) (after.staking.stakes.get (Roster.target tx,staker))) d
          ((before.staking.stakes.items.filter (fun row => row.1.1 = Roster.target tx)).map
            (fun row => row.1.2))).stakes := by
        intro staker v
        rw [putStakesGet _ (Roster.target tx) (fun staker => after.staking.stakes.get (Roster.target tx,staker))]
        split
        · rename_i here
          rw [here.1]
          rfl
        · rename_i outside
          rw [tabled staker v,roster,Roster.punish]
          dsimp only
          split
          · rename_i here
            subst here
            have none : before.staking.roster.stake (Roster.target tx) staker = 0 := by
              by_contra some
              refine outside ⟨rfl,List.mem_map.mpr ⟨((Roster.target tx,staker),
                before.staking.stakes.get (Roster.target tx,staker)),List.mem_filter.mpr ⟨?_,by simp⟩,rfl⟩⟩
              exact (Table.memItems ..).mpr ⟨rfl,some⟩
            rw [none]
            split <;> rfl
          · rfl
      split <;> exact written
    · rw [if_neg (fun convicts => holds ((Staking.evidenceConvicts _ tx).mpr convicts))] at roster
      rw [if_neg holds]
      exact still (by rw [roster]) d rfl
  case REGISTER_VALIDATOR =>
    have same : after.staking.roster.stake = before.staking.roster.stake := by
      rw [roster]
      unfold Roster.register
      dsimp only
      split <;> rfl
    split <;> exact still same _ rfl
  case REVOKE_KEY => split <;> exact still (by rw [roster]; rfl) _ rfl
  all_goals (repeat' split) <;> exact still (by rw [roster]) _ rfl

end Store

namespace Blockchain
variable [Env]

omit [Env] in
def Tables (s : Blockchain) : Prop := ∃ d, s.backend = .sqlite d ∧ s.state.staking.roster.Tabled d.stakes

section Blocks
variable {s s' : Blockchain} {block : Block} {idx : Int}

omit [Env] in
theorem Tables.beside (tables : Tables s) (backend : s'.backend = s.backend)
    (roster : s'.state.staking.roster = s.state.staking.roster) : Tables s' := by
  obtain ⟨d,stored,tabled⟩ := tables
  exact ⟨d,backend.trans stored,roster ▸ tabled⟩

omit [Env] in
theorem Tables.mapStore (tables : Tables s) {f : Store → Store} (kept : ∀ d, (f d).stakes = d.stakes) :
    Tables (s.mapStore f) := by
  obtain ⟨d,stored,tabled⟩ := tables
  refine ⟨f d,?_,(kept d).symm ▸ tabled⟩
  rw [Blockchain.mapStore,stored]
  rfl

omit [Env] in
theorem openBlockTables (tables : Tables s) (run : s.openBlock idx = .ok s') : Tables s' := by
  simp only [openBlock,Outcome.bindOk,Outcome.withinOk] at run
  obtain ⟨_,⟨state,opened,rfl⟩,run⟩ := run
  cases run
  have before : Tables (s.withState state) := tables.beside rfl (ChainState.openBlockRoster opened)
  split
  · exact before.mapStore (fun d => rfl)
  · exact before

theorem applyBlockTxTables {p p' : Progress} {row : Transaction × Nat} (tables : Tables p.chain)
    (run : applyBlockTx block idx p row = .ok p') : Tables p'.chain := by
  simp only [applyBlockTx,Outcome.bindOk,Outcome.withinOk] at run
  obtain ⟨_,⟨_,⟨state,applied,rfl⟩,rfl⟩,run⟩ := run
  cases run
  obtain ⟨d,stored,tabled⟩ := tables
  refine ⟨d.persistTx p.chain.state state row.1,?_,Store.persistTxTabled tabled (ChainState.applyTxStaking applied)⟩
  simp only [Blockchain.mapStore,withState,stored,Backend.mapStoreSqlite]

theorem settleTables (tables : Tables s) (matured : List Address) (receipts : List Receipt) (events : List Event) :
    Tables (s.settleBlock block idx matured receipts events) := by
  simp only [settleBlock]
  obtain ⟨final,finality,-⟩ := updateFinalityOk ((((s.saveSnapshot idx).pruneCaches
    idx).persistBalancesAfterBlock block idx matured).persistReceipts idx receipts events) idx
  rw [finality]
  obtain ⟨index,log,pruned,-⟩ := pruneCachesOk (s.saveSnapshot idx) idx
  have caches : Tables ((s.saveSnapshot idx).pruneCaches idx) := by
    rw [pruned]
    exact tables.beside rfl (Staking.pruneRoster ..)
  have balances : Tables (((s.saveSnapshot idx).pruneCaches idx).persistBalancesAfterBlock block idx matured) := by
    unfold persistBalancesAfterBlock
    split
    · refine caches.mapStore (fun d => ?_)
      have rows : ∀ (addresses : List Address) (balance : Address → Int) (d : Store),
          (addresses.foldl (fun d address => d.putBalance address (balance address)) d).stakes = d.stakes := by
        intro addresses balance
        induction addresses with
        | nil => exact fun _ => rfl
        | cons address rest ih => exact fun d => ih (d.putBalance address (balance address))
      exact rows _ _ d
    · exact caches
  have written := balances.mapStore (f := fun d =>
    let d := receipts.foldl Store.putReceipt d
    if events.isEmpty then d else d.putBlockLevelEvents idx events) (fun d => by
      have rows : ∀ (receipts : List Receipt) (d : Store), (receipts.foldl Store.putReceipt d).stakes = d.stakes := by
        intro receipts
        induction receipts with
        | nil => exact fun _ => rfl
        | cons receipt rest ih => exact fun d => ih (d.putReceipt receipt)
      dsimp only
      split
      · exact rows receipts d
      · exact rows receipts d)
  exact written.beside rfl rfl

theorem appendInnerTables (tables : Tables s) (run : s.appendBlockInner block = .ok s') : Tables s' := by
  simp only [appendBlockInner,Outcome.bindOk] at run
  obtain ⟨s1,stored,s2,opened,run⟩ := run
  have first : Tables s1 := by
    obtain ⟨d,database,tabled⟩ := tables
    unfold storeBlock at stored
    rw [database] at stored
    dsimp only at stored
    split at stored
    · rename_i d' appended
      cases stored
      simp only [Store.appendBlock] at appended
      split at appended
      · contradiction
      · cases appended
        exact ⟨_,rfl,tabled⟩
    · contradiction
  have second := openBlockTables (show Tables (s1.advanceTip block (s.height + 1)) from first.beside rfl rfl) opened
  split at run
  · contradiction
  · rename_i p applied
    have third : Tables p.chain := Outcome.foldInvariant (fun p : Progress => Tables p.chain)
      (fun _ _ _ kept step => applyBlockTxTables kept step) (show Tables ({ chain := s2 } : Progress).chain from second)
      applied
    simp only [closeBlock,Outcome.bindOk,Outcome.withinOk] at run
    obtain ⟨_,⟨c,paid,rfl⟩,s4,checked,s5,rooted,run⟩ := run
    have fourth : Tables s4 := by
      simp only [checkReceiptsRoot] at checked
      split at checked
      · contradiction
      · cases checked
        exact third.beside rfl (ChainState.payRewardRoster paid)
    have fifth : Tables s5 := by
      simp only [checkStateRoot,Outcome.bindOk] at rooted
      obtain ⟨t,rebuilt,rooted⟩ := rooted
      obtain ⟨trie,-,rfl⟩ := rebuildStateTrieOk rebuilt
      simp only [compareStateRoot] at rooted
      split at rooted
      · contradiction
      · cases rooted
        exact fourth.beside rfl rfl
    rw [← Except.ok.inj run]
    exact settleTables fifth ..

end Blocks

section Runs
variable {s s' : Blockchain} {block : Block}

theorem replaceTipTables {old new : Block} (tables : Tables s) (run : s.replaceTip old new = .ok s') : Tables s' := by
  obtain ⟨d,database,tabled⟩ := tables
  simp only [replaceTip,database] at run
  split at run
  · rename_i d' updated
    cases run
    refine ⟨d',rfl,?_⟩
    unfold Store.updateBlock at updated
    split at updated
    · cases updated
      exact tabled
    · split at updated
      · contradiction
      · cases updated
        exact tabled
  · contradiction

theorem acceptsTables (tables : Tables s) (step : Accepts s block s') : Tables s' := by
  cases step with
  | received now answer =>
    obtain ⟨-,-,t,appended,rfl⟩ := addBlockOk answer
    exact (appendInnerTables tables appended).beside rfl rfl
  | produced address sk now later answer stored =>
    obtain ⟨-,parent,draft,t,u,-,-,-,appended,replaced,rfl⟩ := produceBlockOk answer
    exact (replaceTipTables (appendInnerTables tables appended) replaced).beside rfl rfl

def Spares (s : Blockchain) (block : Block) : Prop :=
  ∀ i tx, block.transactions[i]? = some tx → (s.state.staking.roster.run (block.transactions.take i)).Replays tx

def replayed (chain : List Block) : StakeTable :=
  (chain.flatMap Block.transactions).foldl Store.replayStake .empty

structure StakesReplayed (chain : List Block) (s : Blockchain) : Prop where
  tables : Tables s
  solvent : ∀ v staker, 0 ≤ s.state.staking.roster.stake v staker
  replay : s.state.staking.roster.Tabled (replayed chain)

theorem StakesReplayed.grows {chain : List Block} {stored : Block} (prior : StakesReplayed chain s) (tables : Tables s')
    (same : stored.transactions = block.transactions) (spares : Spares s block)
    (roster : s'.state.staking.roster = s.state.staking.roster.run block.transactions) :
    StakesReplayed (chain ++ [stored]) s' := by
  refine ⟨tables,?_,?_⟩
  · rw [roster]
    exact Roster.runSolvent prior.solvent _
  · rw [replayed,List.flatMap_append,List.flatMap_singleton,List.foldl_append,roster,same]
    exact Roster.replayTabled prior.replay prior.solvent spares

omit [Env] in
theorem StakesReplayed.beside {chain : List Block} (prior : StakesReplayed chain s) (tables : Tables s')
    (roster : s'.state.staking.roster = s.state.staking.roster) : StakesReplayed chain s' :=
  ⟨tables,roster ▸ prior.solvent,roster ▸ prior.replay⟩

omit [Env] in
theorem deleteBlocksStakes {d : Store} {chain : List Block} (holds : (Backend.sqlite d).Holds chain) (n : Nat) :
    (d.deleteBlocksFrom ((n : Int) + 1)).stakes = replayed (chain.take (n + 1)) := by
  have range := Backend.getBlocksRangeHolds holds 0 ((n : Int) + 1)
  have above : ∀ row ∈ d.blocks.toList, 0 ≤ row.1 := by
    intro row inside
    have found := Std.ExtTreeMap.mem_toList_iff_getElem?_eq_some.mp inside
    rw [holds.2,listAt] at found
    split at found
    · assumption
    · contradiction
  have remaining : (d.blocks.toList.filter (fun row => row.1 < (n : Int) + 1)).map Prod.snd = chain.take (n + 1) := by
    rw [show ((n : Int) + 1).toNat = n + 1 by omega] at range
    refine Eq.trans ?_ range
    simp only [Backend.getBlocksRange,Store.getBlocksRange]
    congr 1
    exact List.filter_congr (fun row inside => by simp [above row inside])
  rw [replayed,← remaining,List.flatMap_map]
  rfl

end Runs

section Claim

omit [Env] in
def databaseNode (validators : Dict Address Bytes) : Blockchain :=
  (new (.sqlite {})).withState { staking := { validators } }

inductive StakesRecorded (begins : Bytes → Prop) (meets : Blockchain → Block → Prop) : List StakeTable → Blockchain → Prop where
  | initChain {s : Blockchain} {d : Store} (validators : Dict Address Bytes) (address : Address) (sk pk : Bytes)
      (now : Int) (met : begins pk) (run : (databaseNode validators).initChain address sk pk now = .ok s)
      (database : s.backend = .sqlite d) : StakesRecorded begins meets [d.stakes] s
  | activate {tables : List StakeTable} {s s' : Blockchain} (address : Address) (prior : StakesRecorded begins meets tables s)
      (run : s.activateFinancialLayer address = .ok s') : StakesRecorded begins meets tables s'
  | submit {tables : List StakeTable} {s : Blockchain} (now : Int) (tx : Transaction)
      (prior : StakesRecorded begins meets tables s) : StakesRecorded begins meets tables (s.submitTx now tx).2
  | accept {tables : List StakeTable} {s s' : Blockchain} {d : Store} (block : Block)
      (prior : StakesRecorded begins meets tables s) (step : Accepts s block s') (met : meets s block)
      (database : s'.backend = .sqlite d) : StakesRecorded begins meets (tables ++ [d.stakes]) s'

variable {tables : List StakeTable} {s s' : Blockchain}

omit [Env] in
theorem databaseReplayed (validators : Dict Address Bytes) : StakesReplayed [] (databaseNode validators) := by
  refine ⟨⟨{},rfl,fun staker v => ?_⟩,fun v staker => ?_,fun staker v => ?_⟩
  · simp [databaseNode,withState,Staking.roster]
  · simp [databaseNode,withState,Staking.roster]
  · simp [databaseNode,withState,Staking.roster,replayed]

omit [Env] in
theorem activateTables {address : Address} (live : Tables s) (run : s.activateFinancialLayer address = .ok s') :
    Tables s' := by
  have finish : ∀ t : Blockchain, Tables t → (t.rebuildStateTrie >>= fun t => .ok (if 0 ≤ t.height then
      { t with stateSnapshots := t.stateSnapshots.insert t.height t.trie.snapshot } else t)) = .ok s' → Tables s' := by
    intro t before run
    obtain ⟨u,rebuilt,run⟩ := (Outcome.bindOk ..).mp run
    obtain ⟨trie,-,rfl⟩ := rebuildStateTrieOk rebuilt
    cases run
    split <;> exact before.beside rfl rfl
  unfold activateFinancialLayer at run
  split at run
  · cases run
    exact live
  · dsimp only at run
    have active : Tables (s.withState { s.state with ledger := { s.state.ledger with financialActive := true } }) :=
      live.beside rfl rfl
    split at run
    · rw [Outcome.bindOk] at run
      obtain ⟨t,allocated,run⟩ := run
      simp only [allocateGenesis,Outcome.bindOk,Outcome.withinOk] at allocated
      obtain ⟨_,⟨ledger,-,rfl⟩,allocated⟩ := allocated
      cases allocated
      refine finish _ ?_ run
      refine Tables.beside (Tables.mapStore (active.beside rfl rfl) ?_) rfl rfl
      exact fun d => rfl
    · exact finish _ active run

theorem initChainTables {address : Address} {sk : Bytes} {now : Int} (live : Tables s) (fresh : s.height < 0)
    (run : s.initChain address sk [] now = .ok s') : Tables s' := by
  unfold initChain at run
  rw [if_neg (by omega)] at run
  simp only [Outcome.bindOk] at run
  obtain ⟨t,appended,u,replaced,run⟩ := run
  cases run
  have first := appendInnerTables live (appendBlockOk appended)
  have final := replaceTipTables (show Tables t.stateRoot.2 from first.beside rfl rfl) replaced
  exact final.beside rfl rfl

theorem trivialLaw : Law (fun _ _ => True) (fun _ _ => True) :=
  ⟨trivial,fun _ _ _ => trivial,fun _ _ _ _ => trivial,fun _ _ _ => trivial,fun _ _ => trivial,fun _ _ _ => trivial⟩

theorem initChainReplayed {validators : Dict Address Bytes} {address : Address} {sk pk : Bytes} {now : Int}
    (unstaked : pk = []) (run : (databaseNode validators).initChain address sk pk now = .ok s) :
    ∃ genesis, Held [genesis] s ∧ StakesReplayed [genesis] s := by
  subst unstaked
  have fresh : Held [] (databaseNode validators) :=
    ⟨⟨rfl,fun i => by simp [listAt]⟩,rfl,rfl,fun i block found => by simp at found⟩
  have start := databaseReplayed validators
  have low : (databaseNode validators).height < 0 := show (-1 : Int) < 0 by decide
  obtain ⟨key,genesis,t,staked,backend,blockByHash,stamped,-,made,appended,same,marked,shape⟩ := initChainOk low run
  have held := (initChainLaw trivialLaw fresh trivial run (by rw [shape])).2
  refine ⟨stamped,held,?_⟩
  have unaccused : ∀ tx ∈ genesis.transactions, tx.txType ≠ .EVIDENCE := by
    intro tx inside evidence
    rw [made] at inside
    simp only [Block.signTransactions,Block.genesis] at inside
    split at inside
    · cases inside
    · rw [List.mem_singleton.mp inside] at evidence
      cases evidence
  obtain ⟨c,grown⟩ := appendInnerOk appended
  have first := StakesReplayed.grows start (appendInnerTables start.tables appended)
    (show stamped.transactions = genesis.transactions by rw [marked]; rfl)
    (fun i tx found evidence => absurd evidence (unaccused tx (List.mem_of_getElem? found)))
    (by rw [grown.staking,Staking.pruneRoster,ChainState.applyBlockRoster grown.applied])
  refine first.beside (initChainTables start.tables low run) ?_
  rw [shape,same]
  rfl

theorem recordedReplayed (recorded : StakesRecorded (· = []) Spares tables s) :
    ∃ chain, Held chain s ∧ StakesReplayed chain s ∧ tables = (List.range chain.length).map (fun n => replayed (chain.take (n + 1))) := by
  induction recorded with
  | @initChain s d validators address sk pk now unstaked run database =>
    obtain ⟨genesis,held,prior⟩ := initChainReplayed unstaked run
    refine ⟨[genesis],held,prior,?_⟩
    obtain ⟨d',stored,tabled⟩ := prior.tables
    cases database.symm.trans stored
    rw [Roster.tabledUnique tabled prior.replay]
    rfl
  | @activate tables s s' address prior run ih =>
    obtain ⟨chain,held,prior,tables⟩ := ih
    obtain ⟨height,tip,-,-,-,-,staking,-,stored⟩ := activateKeeps run
    exact ⟨chain,held.beside stored height tip,prior.beside (activateTables prior.tables run) (by rw [staking]),tables⟩
  | @submit tables s now tx prior ih =>
    obtain ⟨chain,held,prior,tables⟩ := ih
    obtain ⟨height,tip⟩ := submitTip s now tx
    have backend : (s.submitTx now tx).2.backend = s.backend := by
      unfold submitTx
      split <;> rfl
    refine ⟨chain,held.beside (by rw [backend]) height tip,?_,tables⟩
    exact prior.beside (prior.tables.beside backend (by rw [submitState])) (by rw [submitState])
  | @accept tables s s' d block prior step met database ih =>
    obtain ⟨chain,held,prior,tables⟩ := ih
    obtain ⟨c,grown⟩ := acceptsGrown step
    have next : StakesReplayed (chain ++ [block]) s' := by
      refine prior.grows (acceptsTables prior.tables step) rfl met ?_
      rw [grown.staking,Staking.pruneRoster,ChainState.applyBlockRoster grown.applied]
    refine ⟨chain ++ [block],acceptsHeld held step,next,?_⟩
    obtain ⟨d',stored,tabled⟩ := next.tables
    cases database.symm.trans stored
    rw [Roster.tabledUnique tabled next.replay,tables,List.length_append,List.length_singleton,List.range_succ,
      List.map_append,List.map_singleton]
    congr 1
    · refine List.map_congr_left (fun n inside => ?_)
      rw [List.take_append_of_le_length (List.mem_range.mp inside)]
    · rw [List.take_of_length_le (by simp)]

/- What a deletion leaves of the stakes is what the node had written by then, where no stake came
with the genesis block and all evidence replays. -/
theorem stakesReplayed : ∀ (tables : List StakeTable) (s : Blockchain) (d : Store),
    StakesRecorded (· = []) Spares tables s → s.backend = .sqlite d → (tables.length : Int) = s.height + 1 ∧
      ∀ (n : Nat) (table : StakeTable), tables[n]? = some table →
        (d.deleteBlocksFrom ((n : Int) + 1)).stakes = table := by
  intro tables s d recorded database
  obtain ⟨chain,held,-,rfl⟩ := recordedReplayed recorded
  have holds := held.holds
  rw [database] at holds
  refine ⟨by rw [List.length_map,List.length_range,held.height]; omega,fun n table found => ?_⟩
  rw [deleteBlocksStakes holds n]
  rw [List.getElem?_map,Option.map_eq_some_iff] at found
  obtain ⟨m,here,rfl⟩ := found
  obtain ⟨inside,rfl⟩ := List.getElem?_eq_some_iff.mp here
  rw [List.getElem_range]

end Claim

end Blockchain

namespace Devnet
attribute [local instance] legacy
open Blockchain

def databaseOf (s : Blockchain) : Option Store :=
  match s.backend with
  | .sqlite d => some d
  | .memory _ => none

theorem databaseStored {s : Blockchain} {d : Store} (stored : databaseOf s = some d) : s.backend = .sqlite d := by
  unfold databaseOf at stored
  split at stored
  · rename_i database
    cases stored
    exact database
  · cases stored

def seeded : Blockchain := Outcome.stateOf ((databaseNode ∅).initChain address key key 100)

/- The stake of the genesis validator is in no transaction, and the deletion loses it. -/
theorem stakesLost : ¬∀ (tables : List StakeTable) (s : Blockchain) (d : Store),
    StakesRecorded (fun _ => True) (fun _ _ => True) tables s → s.backend = .sqlite d →
      (tables.length : Int) = s.height + 1 ∧ ∀ (n : Nat) (table : StakeTable), tables[n]? = some table →
        (d.deleteBlocksFrom ((n : Int) + 1)).stakes = table := by
  have begun : (databaseNode ∅).initChain address key key 100 = .ok seeded := okState (by decide +kernel)
  have run : (databaseOf seeded).any (fun d => d.stakes.get (address,address) = 1 ∧
      (d.deleteBlocksFrom 1).stakes.get (address,address) = 0) = true := by decide +kernel
  intro claim
  obtain ⟨d,stored,held⟩ := (Option.any_eq_true ..).mp run
  obtain ⟨held,lost⟩ := of_decide_eq_true held
  have database := databaseStored stored
  have same := (claim [d.stakes] seeded d (.initChain ∅ address key key 100 trivial begun database) database).2 0
    d.stakes rfl
  rw [show ((0 : Nat) : Int) + 1 = 1 from rfl] at same
  rw [same,held] at lost
  cases lost

end Devnet

namespace Devnet
open Blockchain

@[reducible] def lasting : Env := brief 1000000

section Lasting
attribute [local instance] lasting

def owner : Address := deriveAddress key

def keyless : Blockchain :=
  Outcome.stateOf ((databaseNode (Std.ExtTreeMap.insert ∅ owner key)).initChain owner key [] 100)

def ownStake : Transaction :=
  Transaction.sign
    { txType := .STAKE
      sender := owner
      payload := { validatorAddress := some owner, amount := some 5 }
      timestamp := 101 } key key

def ownEvidence : Transaction :=
  Transaction.sign
    { txType := .EVIDENCE
      sender := owner
      payload :=
        { blockAHash := some (signedNote key 1).txId
          blockAHeader := some (hex (signedNote key 1).signableBytes)
          blockASig := some (hex (signedNote key 1).signature)
          blockBHash := some (signedNote key 2).txId
          blockBHeader := some (hex (signedNote key 2).signableBytes)
          blockBSig := some (hex (signedNote key 2).signature)
          blockIndex := some 1
          evidenceType := some "double_sign"
          validatorAddress := some owner }
      timestamp := 103
      nonce := 1 } key key

def ownWithdrawal : Transaction :=
  Transaction.sign
    { txType := .UNSTAKE
      sender := owner
      payload := { amount := some 1, validatorAddress := some owner }
      timestamp := 103
      nonce := 2 } key key

def ownStaking : Blockchain := (keyless.submitTx 101 ownStake).2

def ownStaked : Blockchain := (ownStaking.produceBlock owner key 102 102).2

def ownLeaving : Blockchain := ((ownStaked.submitTx 103 ownEvidence).2.submitTx 103 ownWithdrawal).2

def ownLeft : Blockchain := (ownLeaving.produceBlock owner key 104 104).2

theorem ownLeaves : (databaseOf keyless).isSome = true ∧ (databaseOf ownStaked).isSome = true ∧
    (databaseOf ownLeft).isSome = true ∧
    ((ownStaking.produceBlock owner key 102 102).1 = .accepted ∧ ownStaked.latestBlock.isSome = true ∧
      ownStaked.tipBlock.transactions = [ownStake]) ∧
    ((ownLeaving.produceBlock owner key 104 104).1 = .accepted ∧ ownLeft.latestBlock.isSome = true ∧
      ownLeft.tipBlock.transactions = [ownEvidence,ownWithdrawal]) ∧
    ownLeaving.state.staking.evidenceHolds ownEvidence.payload = true ∧
    minStake ≤ Staking.afterSlash (ownLeaving.state.staking.totalStake.get owner) := by decide +kernel

theorem ownLeavingSpares : Spares ownLeaving ownLeft.tipBlock := by
  obtain ⟨-,-,-,-,⟨-,-,transactions⟩,holds,stays⟩ := ownLeaves
  have named : Roster.target ownEvidence = owner := by decide +kernel
  intro i tx found evidence
  rw [transactions] at found ⊢
  match i with
  | 0 =>
    cases found
    have convicted := (Staking.evidenceConvicts ownLeaving.state.staking ownEvidence).mp holds
    rw [List.take_zero,Roster.run,List.foldl_nil]
    refine .inr (.inr ⟨convicted,.inl ?_⟩)
    rw [named,Staking.rosterWeight]
    exact stays
  | 1 =>
    cases found
    cases evidence
  | _ + 2 => cases found

theorem stakesReplayedSlashed : ∃ genesis d₁ d : Store, databaseOf keyless = some genesis ∧
    databaseOf ownStaked = some d₁ ∧ databaseOf ownLeft = some d ∧
    (([genesis.stakes,d₁.stakes,d.stakes].length : Nat) : Int) = ownLeft.height + 1 ∧
      ∀ (n : Nat) (table : StakeTable), [genesis.stakes,d₁.stakes,d.stakes][n]? = some table →
        (d.deleteBlocksFrom ((n : Int) + 1)).stakes = table := by
  have begun : (databaseNode (Std.ExtTreeMap.insert ∅ owner key)).initChain owner key [] 100 = .ok keyless :=
    okState (by decide +kernel)
  obtain ⟨first,second,last,⟨answer,made,transactions⟩,⟨answered,sealed,-⟩,-⟩ := ownLeaves
  obtain ⟨genesis,first⟩ := Option.isSome_iff_exists.mp first
  obtain ⟨d₁,second⟩ := Option.isSome_iff_exists.mp second
  obtain ⟨d,last⟩ := Option.isSome_iff_exists.mp last
  have start : StakesRecorded (· = []) Spares [genesis.stakes] ownStaking := by
    rw [ownStaking]
    exact .submit 101 ownStake (.initChain _ owner key [] 100 rfl begun (databaseStored first))
  have step : Accepts ownStaking ownStaked.tipBlock ownStaked := producedAccepts (by rw [ownStaked]) answer made
  have spares : Spares ownStaking ownStaked.tipBlock := by
    intro i tx found evidence
    rw [transactions] at found
    rw [List.mem_singleton.mp (List.mem_of_getElem? found)] at evidence
    cases evidence
  have staked : StakesRecorded (· = []) Spares [genesis.stakes,d₁.stakes] ownLeaving := by
    rw [ownLeaving]
    exact .submit 103 ownWithdrawal (.submit 103 ownEvidence (.accept _ start step spares (databaseStored second)))
  have slashed : Accepts ownLeaving ownLeft.tipBlock ownLeft := producedAccepts (by rw [ownLeft]) answered sealed
  exact ⟨genesis,d₁,d,first,second,last,stakesReplayed [genesis.stakes,d₁.stakes,d.stakes] ownLeft d
    (.accept _ staked slashed ownLeavingSpares (databaseStored last)) (databaseStored last)⟩

end Lasting

end Devnet

end QbitNetwork
