import QbitNetwork.Replay

/-! Whose turn is next. Stake and a place in the epoch belong to validators that can sign
as long as no transaction stakes with another one or takes the key of one that holds
stake. -/
namespace QbitNetwork

section Selection
variable [Env]

omit [Env] in
theorem pickByStakeMem (point : Int) (fallback : Address) (cumulative : Int)
    (active : List (Address × Int)) :
    pickByStake point fallback cumulative active = fallback ∨
      pickByStake point fallback cumulative active ∈ active.map Prod.fst := by
  induction active generalizing cumulative with
  | nil => exact .inl rfl
  | cons row rest ih =>
    obtain ⟨addr,stake⟩ := row
    simp only [pickByStake]
    split
    · exact .inr (List.mem_cons_self ..)
    · rcases ih (cumulative + stake) with last | inside
      · exact .inl last
      · exact .inr (List.mem_cons_of_mem _ inside)

theorem selectDposMem (blockIndex : Int) (parentHash : String) {active : List (Address × Int)}
    (nonempty : active ≠ []) :
    selectDpos blockIndex parentHash active ∈ active.map Prod.fst := by
  have last : (active.getLast?.map Prod.fst).getD "" ∈ active.map Prod.fst := by
    rw [List.getLast?_eq_some_getLast nonempty]
    exact List.mem_map_of_mem (List.getLast_mem nonempty)
  rcases pickByStakeMem (selectionSeed blockIndex parentHash % (active.map Prod.snd).sum)
    ((active.getLast?.map Prod.fst).getD "") 0 active with fallback | inside
  · rw [selectDpos,fallback]
    exact last
  · exact inside

theorem blockHashNonempty (block : Block) : block.blockHash ≠ "" := by
  intro empty
  have bytes : sha3_256 block.headerBytes = [] := hexInjective empty
  have length := Env.sha3_256Length block.headerBytes
  rw [bytes] at length
  contradiction

end Selection

namespace Staking

def Selectable (k : Staking) (v : Address) : Prop :=
  0 < k.totalStake.get v ∨ v ∈ k.epochValidators.map Prod.fst

def CanSign (k : Staking) (v : Address) : Prop :=
  v ∈ k.validators ∧ k.isKeyRevoked v "signing" = false

def Staffed (k : Staking) : Prop := ∀ v, k.Selectable v → k.CanSign v

def Retires (tx : Transaction) (v : Address) : Prop :=
  revocationKey tx.sender (tx.payload.keyType.getD "") = revocationKey v "signing" ∨
    (tx.payload.keyType.getD "" = "validator" ∧ tx.sender = v)

def KeepsStaff (k : Staking) (tx : Transaction) : Prop :=
  match tx.txType with
  | .STAKE | .DELEGATE => Roster.applies tx → k.CanSign (Roster.target tx)
  | .REVOKE_KEY => ∀ v, k.Selectable v → ¬Retires tx v
  | _ => True

theorem staffedMono {k k' : Staking} (staffed : k.Staffed)
    (fewer : ∀ v, k'.Selectable v → k.Selectable v)
    (signs : ∀ v, k'.Selectable v → k.CanSign v → k'.CanSign v) : k'.Staffed :=
  fun v selectable => signs v selectable (staffed v (fewer v selectable))

theorem pruneCanSign {k : Staking} {v : Address} (before : Int) (signs : k.CanSign v) :
    (k.pruneDistributions before).CanSign v := by
  unfold pruneDistributions
  split <;> exact signs

theorem pruneStaffed {k : Staking} (before : Int) (staffed : k.Staffed) :
    (k.pruneDistributions before).Staffed := by
  unfold pruneDistributions
  split <;> exact staffed

theorem registerStaffed {k k' : Staking} {p : Payload} (staffed : k.Staffed)
    (run : k.registerValidator p = .ok k') : k'.Staffed := by
  have commission : ∀ (k : Staking) (vaddr : Address) (rate : Option Int), k.Staffed →
      (k.setCommission vaddr rate).Staffed := by
    intro k vaddr rate staffed
    unfold setCommission
    split
    · split <;> exact staffed
    · exact staffed
  simp only [registerValidator] at run
  split at run
  · cases run; exact staffed
  · split at run
    · cases run; exact commission _ _ _ staffed
    · split at run
      · contradiction
      · rename_i pk decoded
        cases run
        refine commission _ _ _ (staffedMono staffed (fun _ same => same) ?_)
        rintro v - ⟨registered,unrevoked⟩
        exact ⟨(Dict.memInsert ..).mpr (.inr registered),unrevoked⟩

theorem registerCanSign {k k' : Staking} {p : Payload} {address : Address}
    (run : k.registerValidator p = .ok k') (given : p.validatorPubkey.getD "" ≠ "")
    (target : p.validatorAddress.getD "" = address) (named : address ≠ "")
    (fresh : address ∉ k.validatorRegistry) (unrevoked : k.isKeyRevoked address "signing" = false) :
    k'.CanSign address := by
  have commission : ∀ (k : Staking) (vaddr : Address) (rate : Option Int), k.CanSign address →
      (k.setCommission vaddr rate).CanSign address := by
    intro k vaddr rate signs
    unfold setCommission
    split
    · split <;> exact signs
    · exact signs
  subst target
  simp only [registerValidator] at run
  rw [if_neg (by tauto),if_neg fresh] at run
  split at run
  · contradiction
  · cases run
    exact commission _ _ _ ⟨(Dict.memInsert ..).mpr (.inl rfl),unrevoked⟩

theorem revokeStaffed {k : Staking} {tx : Transaction} (revocation : Revocation)
    (staffed : k.Staffed) (spared : ∀ v, k.Selectable v → ¬Retires tx v) :
    (k.revokeKey tx.sender tx.payload revocation).Staffed := by
  have unrevoked : ∀ v, ¬Retires tx v → k.isKeyRevoked v "signing" = false →
      (k.revokedKeys.insert (revocationKey tx.sender (tx.payload.keyType.getD "")) revocation).contains
        (revocationKey v "signing") = false := by
    intro v spared before
    rw [Std.ExtTreeMap.contains_insert,Bool.or_eq_false_iff]
    refine ⟨?_,before⟩
    simpa using fun same => spared (.inl same)
  simp only [revokeKey]
  split
  · rename_i validator
    refine staffedMono staffed (fun _ same => same) ?_
    rintro v selectable ⟨registered,before⟩
    have kept := spared v selectable
    refine ⟨(Dict.memErase ..).mpr ⟨?_,registered⟩,unrevoked v kept before⟩
    rintro rfl
    exact kept (.inr ⟨validator,rfl⟩)
  · refine staffedMono staffed (fun _ same => same) ?_
    rintro v selectable ⟨registered,before⟩
    exact ⟨registered,unrevoked v (spared v selectable) before⟩

theorem addStakeStaffed {k : Staking} {tx : Transaction} (staffed : k.Staffed)
    (allowed : Roster.applies tx → k.CanSign (Roster.target tx)) :
    (k.addStake tx.sender tx.payload).Staffed := by
  simp only [addStake]
  split
  · rename_i applies
    rintro v (staked | seated)
    · dsimp only at staked
      rw [Table.getUpdate] at staked
      split at staked
      · rename_i same
        rw [← same]
        exact allowed applies
      · exact staffed v (.inl staked)
    · exact staffed v (.inr seated)
  · exact staffed

theorem unstakeStaffed {k : Staking} (staker : Address) (p : Payload) (idx : Int)
    (staffed : k.Staffed) : (k.unstake staker p idx).Staffed := by
  simp only [unstake]
  split
  · rename_i applies
    rintro v (staked | seated)
    · dsimp only at staked
      rw [Table.getUpdate] at staked
      split at staked
      · rename_i same
        rw [← same]
        exact staffed _ (.inl (by omega))
      · exact staffed v (.inl staked)
    · exact staffed v (.inr seated)
  · exact staffed

theorem afterSlashPositive {total : Int} (left : 0 < afterSlash total) : 0 < total := by
  by_contra none
  have amount : slashAmount total = total * 50 / 100 :=
    if_neg (fun raised => none raised.2)
  rw [afterSlash,amount] at left
  omega

theorem slashSeats {vaddr v : Address} {newTotal : Int} {rows : List (Address × Int)}
    (seated : v ∈ (slashEpochValidators vaddr newTotal rows).map Prod.fst) :
    v ∈ rows.map Prod.fst ∧ (v = vaddr → minStake ≤ newTotal) := by
  obtain ⟨row,inside,rfl⟩ := List.mem_map.mp seated
  simp only [slashEpochValidators] at inside
  split at inside
  · rename_i enough
    obtain ⟨old,kept,rfl⟩ := List.mem_map.mp inside
    refine ⟨?_,fun _ => enough⟩
    have named : (if old.1 = vaddr then (old.1,newTotal) else old).1 = old.1 := by split <;> rfl
    rw [named]
    exact List.mem_map_of_mem (List.mem_filter.mp kept).1
  · obtain ⟨listed,other⟩ := List.mem_filter.mp inside
    refine ⟨List.mem_map_of_mem listed,fun same => ?_⟩
    simpa [same] using other

theorem slashStaffed {k : Staking} (vaddr : Address) (txId : String) (idx : Int)
    (staffed : k.Staffed) : (k.slash vaddr txId idx).Staffed := by
  simp only [slash]
  by_cases low : afterSlash (k.totalStake.get vaddr) < minStake
  · simp only [low,if_true]
    have other : ∀ v, (k.slash vaddr txId idx).Selectable v → v ≠ vaddr ∧ k.Selectable v := by
      intro v selectable
      simp only [slash,low,if_true,Selectable,expel,removeValidator,Table.getSet] at selectable
      rcases selectable with staked | seated
      · by_cases same : vaddr = v
        · simp [same] at staked
        · rw [if_neg same,if_neg same] at staked
          exact ⟨Ne.symm same,.inl staked⟩
      · obtain ⟨listed,enough⟩ := slashSeats seated
        refine ⟨?_,.inr listed⟩
        intro same
        have := enough same
        omega
    intro v selectable
    obtain ⟨different,before⟩ := other v (by simpa only [slash,low,if_true] using selectable)
    obtain ⟨registered,unrevoked⟩ := staffed v before
    exact ⟨(Dict.memErase ..).mpr ⟨different,registered⟩,unrevoked⟩
  · simp only [low,if_false]
    refine staffedMono staffed ?_ (fun _ _ signs => signs)
    rintro v (staked | seated)
    · dsimp only at staked
      rw [Table.getSet] at staked
      split at staked
      · rename_i same
        rw [← same]
        exact .inl (afterSlashPositive staked)
      · exact .inl staked
    · exact .inr (slashSeats seated).1

theorem enterEpochStaffed {k : Staking} (epoch : Int) (staffed : k.Staffed) :
    (k.enterEpoch epoch).Staffed := by
  refine staffedMono staffed ?_ (fun _ _ signs => signs)
  rintro v (staked | seated)
  · exact .inl staked
  · obtain ⟨⟨address,stake⟩,live,rfl⟩ := List.mem_map.mp seated
    obtain ⟨row,positive⟩ := List.mem_filter.mp live
    refine .inl ?_
    rw [((Table.memItems ..).mp row).1]
    simpa using positive

variable [Env]

theorem applyTxStaffed {k k' : Staking} {tx : Transaction} {idx : Int} (staffed : k.Staffed)
    (keeps : k.KeepsStaff tx) (run : k.applyTx tx idx = .ok k') : k'.Staffed := by
  cases kind : tx.txType <;> simp only [applyTx,kind] at run <;>
    simp only [KeepsStaff,kind] at keeps
  case REGISTER_VALIDATOR => exact registerStaffed staffed run
  all_goals cases run
  case REVOKE_KEY => exact revokeStaffed _ staffed keeps
  case STAKE => exact addStakeStaffed staffed keeps
  case DELEGATE => exact addStakeStaffed staffed keeps
  case UNSTAKE => exact unstakeStaffed _ _ _ staffed
  case EVIDENCE =>
    unfold processEvidenceTx
    split
    · exact slashStaffed _ _ _ staffed
    · exact staffed
  all_goals exact staffed

end Staking

namespace ChainState

theorem distributeEpochRewardsKeys {s s' : ChainState} {epoch : Int}
    (run : s.distributeEpochRewards epoch = .ok s') : ∃ epochRewards lastEpochDistributions,
      s'.staking = { s.staking with epochRewards, lastEpochDistributions } := by
  simp only [distributeEpochRewards] at run
  split at run
  · contradiction
  · cases run
    exact ⟨_,_,rfl⟩

theorem openBlockKeys {s s' : ChainState} {idx : Int} (run : s.openBlock idx = .ok s') :
    s'.staking.validators = s.staking.validators ∧
      s'.staking.validatorRegistry = s.staking.validatorRegistry ∧
      s'.staking.revokedKeys = s.staking.revokedKeys ∧
      (s.staking.Staffed → s'.staking.Staffed) := by
  obtain ⟨mid,matured,run⟩ := Outcome.bindOk .. |>.mp run
  have staking := processMatureStaking matured
  simp only [checkEpochTransition] at run
  split at run
  · have entered : ∃ epochRewards lastEpochDistributions, s'.staking =
        { mid.staking with epochRewards, lastEpochDistributions }.enterEpoch (idx / epochLength) := by
      split at run
      · obtain ⟨paid,distributed,run⟩ := Outcome.bindOk .. |>.mp run
        cases run
        obtain ⟨rewards,records,kept⟩ := distributeEpochRewardsKeys distributed
        exact ⟨rewards,records,by rw [kept]⟩
      · cases run
        exact ⟨mid.staking.epochRewards,mid.staking.lastEpochDistributions,rfl⟩
    obtain ⟨rewards,records,entered⟩ := entered
    rw [entered,staking]
    exact ⟨rfl,rfl,rfl,fun staffed => Staking.enterEpochStaffed _ staffed⟩
  · cases run
    rw [staking]
    exact ⟨rfl,rfl,rfl,fun staffed => staffed⟩

variable [Env]

omit [Env] in
theorem payRewardKeys {s s' : ChainState} {block : Block} {idx : Int}
    (run : s.payReward block idx = .ok s') :
    ∃ epochRewards, s'.staking = { s.staking with epochRewards } := by
  simp only [payReward] at run
  split at run
  · simp only [Outcome.bindOk,Outcome.withinOk] at run
    obtain ⟨_,⟨ledger,-,rfl⟩,run⟩ := run
    cases run
    exact ⟨_,rfl⟩
  · cases run
    exact ⟨_,rfl⟩

theorem applyTxStaking {block : Block} {idx : Int} {s s' : ChainState} {row : Transaction × Nat}
    (run : applyTx block idx s row = .ok s') : s.staking.applyTx row.1 idx = .ok s'.staking := by
  simp only [applyTx,Outcome.bindOk,Outcome.withinOk] at run
  obtain ⟨mid,charge,_,⟨staking,staked,rfl⟩,tokens,-,rfl⟩ := run
  rw [(chargeTxStaking charge).1] at staked
  exact staked

omit [Env] in
theorem zipIdxRow {txs : List Transaction} {i : Nat} {row : Transaction × Nat}
    (found : txs.zipIdx[i]? = some row) : txs[i]? = some row.1 := by
  rw [List.getElem?_zipIdx] at found
  cases here : txs[i]? with
  | none => rw [here] at found; contradiction
  | some tx =>
    rw [here] at found
    cases found
    rfl

theorem applyBlockStaffed {s c : ChainState} {block : Block} {idx : Int}
    (run : s.applyBlock block idx = .ok c) (staffed : s.staking.Staffed)
    (keeps : ∀ i tx t, block.transactions[i]? = some tx → s.beforeTx block idx i = .ok t →
      t.staking.KeepsStaff tx) : c.staking.Staffed := by
  simp only [applyBlock,Outcome.bindOk] at run
  obtain ⟨opened,opening,looped,loop,reward⟩ := run
  have start := (openBlockKeys opening).2.2.2 staffed
  have whole : looped.staking.Staffed := by
    refine Outcome.foldInvariantAt (fun t : ChainState => t.staking.Staffed)
      (fun i row t t' found reached before step => ?_) start loop
    have met := keeps i row.1 t (zipIdxRow found) (Outcome.bindOk .. |>.mpr ⟨opened,opening,reached⟩)
    exact Staking.applyTxStaffed before met (applyTxStaking step)
  obtain ⟨rewards,kept⟩ := payRewardKeys reward
  rw [kept]
  exact whole

end ChainState

namespace Blockchain
variable [Env]

def Sustains (s : Blockchain) (block : Block) : Prop :=
  ∀ i tx t, block.transactions[i]? = some tx → s.state.beforeTx block (s.height + 1) i = .ok t →
    t.staking.KeepsStaff tx

inductive Sustained : Blockchain → Prop where
  | memory {validators : Dict Address Bytes} : Sustained (new (.memory []) validators)
  | sqlite {validators : Dict Address Bytes} : Sustained (new (.sqlite {}) validators)
  | initChain {s s' : Blockchain} (address : Address) (sk pk : Bytes) (now : Int)
      (prior : Sustained s) (named : pk ≠ [] → address ≠ "")
      (run : s.initChain address sk pk now = .ok s') : Sustained s'
  | activate {s s' : Blockchain} (address : Address) (prior : Sustained s)
      (run : s.activateFinancialLayer address = .ok s') : Sustained s'
  | submit {s : Blockchain} (now : Int) (tx : Transaction) (prior : Sustained s) :
      Sustained (s.submitTx now tx).2
  | accept {s s' : Blockchain} (block : Block) (prior : Sustained s) (step : Accepts s block s')
      (met : Sustains s block) : Sustained s'

def HasProducer (s : Blockchain) : Prop :=
  s.getActiveValidators ≠ [] → ∀ tip, s.latestBlock = some tip → ∀ times, ∃ v pk,
    s.selectValidator (tip.index + 1) tip.blockHash times = .ok (some v) ∧
    s.state.staking.validators[v]? = some pk ∧ s.isKeyRevoked v "signing" = false ∧
    ∀ block : Block, block.index = tip.index + 1 → block.validator = v →
      block.verifySignature pk = true → s.validatorCheck block tip = .ok ()

theorem selectValidatorActive {s : Blockchain} (active : s.getActiveValidators ≠ [])
    (tip : Block) (blockIndex : Int) (times : Option (Int × Int)) :
    s.selectValidator blockIndex tip.blockHash times =
      .ok (some (selectDpos blockIndex tip.blockHash s.getActiveValidators)) := by
  unfold selectValidator
  rw [if_pos (by exact ⟨blockHashNonempty tip,active⟩)]

omit [Env] in
theorem activeSelectable (k : Staking) {v : Address}
    (active : v ∈ k.getActiveValidators.map Prod.fst) : k.Selectable v := by
  unfold Staking.getActiveValidators at active
  split at active
  · obtain ⟨⟨address,stake⟩,live,rfl⟩ := List.mem_map.mp active
    obtain ⟨row,positive⟩ := List.mem_filter.mp live
    refine .inl ?_
    rw [((Table.memItems ..).mp row).1]
    simpa using positive
  · exact .inr active

theorem staffedHasProducer {s : Blockchain} (staffed : s.state.staking.Staffed) :
    s.HasProducer := by
  intro active tip _ times
  have selectable := activeSelectable s.state.staking
    (selectDposMem (tip.index + 1) tip.blockHash active)
  obtain ⟨registered,unrevoked⟩ := staffed _ selectable
  obtain ⟨pk,key⟩ := Option.isSome_iff_exists.mp
    (Std.ExtTreeMap.mem_iff_isSome_getElem?.mp registered)
  refine ⟨_,pk,selectValidatorActive active tip _ times,key,unrevoked,?_⟩
  intro block position turn verifies
  have expected := selectValidatorActive active tip block.index (some (tip.timestamp,block.timestamp))
  rw [position] at expected
  rw [← show block.validator = selectDpos (tip.index + 1) tip.blockHash
    s.state.staking.getActiveValidators from turn] at key unrevoked
  rw [← turn] at expected
  unfold validatorCheck
  rw [key]
  simp only [isKeyRevoked,unrevoked,position,expected,orRaise,verifies,wrongTurn,Outcome.bindOk,refuseIfOk]
  simp

theorem genesisStaffs {s c : ChainState} {address : Address} {sk pk : Bytes} {now : Int}
    (clean : s.staking = { validators := s.staking.validators }) (named : address ≠ "") (given : pk ≠ [])
    (run : s.applyBlock ((Block.genesis address [registration address sk pk now] now).sign sk) 0 =
      .ok c) : c.staking.CanSign address := by
  simp only [ChainState.applyBlock,Outcome.bindOk] at run
  obtain ⟨opened,opening,looped,loop,reward⟩ := run
  obtain ⟨-,registry,revoked,-⟩ := ChainState.openBlockKeys opening
  rw [clean] at registry revoked
  obtain ⟨mid,step,rfl⟩ : ∃ mid, ChainState.applyTx
      ((Block.genesis address [registration address sk pk now] now).sign sk) 0 opened
      (registration address sk pk now,0) = .ok mid ∧ mid = looped := by
    simpa [ChainState.applyTxs,Block.genesis] using loop
  have staked := ChainState.applyTxStaking step
  have registered : opened.staking.registerValidator (registration address sk pk now).payload =
      .ok mid.staking := staked
  have key : hex pk ≠ "" := fun empty => given (hexInjective empty)
  have signs := Staking.registerCanSign registered key rfl named
    (by rw [registry]; exact Std.ExtTreeMap.not_mem_empty)
    (by rw [Staking.isKeyRevoked,revoked]; exact Std.ExtTreeMap.contains_empty)
  obtain ⟨rewards,kept⟩ := ChainState.payRewardKeys reward
  rw [kept]
  exact signs

theorem initChainStaffed {s s' : Blockchain} {address : Address} {sk pk : Bytes} {now : Int}
    (coherent : Coherent s) (clean : s.height < 0 → s.state.staking = { validators := s.state.staking.validators })
    (staffed : s.state.staking.Staffed) (named : pk ≠ [] → address ≠ "")
    (run : s.initChain address sk pk now = .ok s') :
    s'.state.staking.Staffed ∧ 0 ≤ s'.height := by
  unfold initChain at run
  split at run
  · rename_i started
    cases run
    exact ⟨staffed,started⟩
  · rename_i empty
    have next : s.height + 1 = 0 := by have := coherent.bounded; omega
    have nobody := clean (by omega)
    simp only [Outcome.bindOk] at run
    obtain ⟨t,appended,u,replaced,run⟩ := run
    cases run
    obtain ⟨c,grown⟩ := appendInnerOk (appendBlockOk appended)
    obtain ⟨backend,blockByHash,rfl⟩ := replaceTipOk replaced
    have applied := grown.applied
    rw [next] at applied
    have before : t.state.staking.Staffed := by
      rw [grown.staking]
      refine Staking.pruneStaffed _ (ChainState.applyBlockStaffed applied staffed ?_)
      intro i tx mid found _
      have registers : tx.txType = .REGISTER_VALIDATOR := by
        have inside := List.mem_of_getElem? found
        simp only [Block.signTransactions,Block.genesis] at inside
        generalize (if pk.isEmpty = true then s.state.staking.validators.getD address [] else pk) =
          key at inside
        cases key with
        | nil => cases inside
        | cons b rest =>
          rw [List.mem_singleton.mp inside]
          rfl
      simp only [Staking.KeepsStaff,registers]
    cases pk with
    | nil => exact ⟨before,by simp [stateRoot,withTrie,grown.height,next]⟩
    | cons b rest =>
      have given : (b :: rest).isEmpty = false := rfl
      simp only [given,Bool.false_eq_true,if_false] at applied ⊢
      have signs : t.state.staking.CanSign address := by
        rw [grown.staking]
        exact Staking.pruneCanSign _ (genesisStaffs nobody (named (List.cons_ne_nil b rest))
          (List.cons_ne_nil b rest) applied)
      refine ⟨?_,by simp [stateRoot,withTrie,autoStake,mapStore,withState,grown.height,next]⟩
      rintro v (staked | seated)
      · simp only [stateRoot,withTrie,autoStake,mapStore,withState,Table.getSet] at staked
        split at staked
        · rename_i same
          rw [← same]
          exact signs
        · exact before v (.inl staked)
      · exact before v (.inr seated)

theorem sustainedStaffed {s : Blockchain} (sustained : Sustained s) :
    Coherent s ∧ (s.height < 0 → s.state.staking = { validators := s.state.staking.validators }) ∧
      s.state.staking.Staffed := by
  have nobody (validators : Dict Address Bytes) : Staking.Staffed { validators } := by
    rintro v (staked | seated)
    · simp [Table.getEmpty] at staked
    · simp at seated
  induction sustained with
  | memory => exact ⟨builtCoherent .memory,fun _ => rfl,nobody _⟩
  | sqlite => exact ⟨builtCoherent .sqlite,fun _ => rfl,nobody _⟩
  | initChain address sk pk now prior named run ih =>
    obtain ⟨coherent,clean,staffed⟩ := ih
    obtain ⟨staffed,started⟩ := initChainStaffed coherent clean staffed named run
    exact ⟨initChainCoherent coherent run,fun low => absurd started (by omega),staffed⟩
  | activate address prior run ih =>
    obtain ⟨coherent,clean,staffed⟩ := ih
    obtain ⟨height,tip,-,-,-,-,staking,-⟩ := activateKeeps run
    refine ⟨⟨height ▸ coherent.bounded,by rw [height,tip]; exact coherent.tip⟩,?_,?_⟩
    · rw [height,staking]
      exact clean
    · rw [staking]
      exact staffed
  | @submit s now tx prior ih =>
    obtain ⟨coherent,clean,staffed⟩ := ih
    obtain ⟨height,tip⟩ := submitTip s now tx
    refine ⟨⟨height ▸ coherent.bounded,by rw [height,tip]; exact coherent.tip⟩,?_,?_⟩
    · rw [height,submitState]
      exact clean
    · rw [submitState]
      exact staffed
  | @accept s s' block prior step met ih =>
    obtain ⟨coherent,clean,staffed⟩ := ih
    obtain ⟨c,grown⟩ := acceptsGrown step
    refine ⟨acceptsCoherent coherent step,?_,?_⟩
    · intro low
      have bounded := coherent.bounded
      rw [grown.height] at low
      omega
    · rw [grown.staking]
      exact Staking.pruneStaffed _ (ChainState.applyBlockStaffed grown.applied staffed met)

theorem sustainedHasProducer : ∀ s : Blockchain, Sustained s → s.HasProducer :=
  fun _ sustained => staffedHasProducer (sustainedStaffed sustained).2.2

end Blockchain

end QbitNetwork

namespace QbitNetwork.Devnet
attribute [local instance] legacy
open Blockchain

def retirement : Transaction :=
  Transaction.sign
    { txType := .REVOKE_KEY
      sender := address
      payload := { keyType := some "signing", reason := some "rotation" }
      timestamp := 101 } key key

def retiring : Block := ((active.admitTx retirement).produceBlock address key 102 102).2.tipBlock

def retired : Blockchain := (active.addBlock retiring 102).2

theorem producerRetires :
    Built active ∧ Accepts active retiring retired ∧ retiring.transactions = [retirement] ∧
      ¬retired.HasProducer := by
  have run : (active.addBlock retiring 102).1 = .accepted ∧
      retiring.transactions = [retirement] ∧ retired.latestBlock.isSome = true ∧
      retired.getActiveValidators = [(address,1)] ∧
      retired.isKeyRevoked address "signing" = true := by decide +kernel
  obtain ⟨answer,transactions,made,active,revoked⟩ := run
  refine ⟨activeBuilt,receivedAccepts (by rw [retired]) answer,transactions,?_⟩
  intro producer
  obtain ⟨tip,found⟩ := Option.isSome_iff_exists.mp made
  have nonempty : retired.getActiveValidators ≠ [] := by
    rw [active]
    exact List.cons_ne_nil _ _
  obtain ⟨v,pk,turn,-,unrevoked,-⟩ := producer nonempty tip found none
  rw [selectValidatorActive nonempty] at turn
  have inside := selectDposMem (tip.index + 1) tip.blockHash nonempty
  rw [Option.some.inj (Except.ok.inj turn),active] at inside
  rw [List.mem_singleton.mp inside,revoked] at unrevoked
  cases unrevoked

end QbitNetwork.Devnet

namespace QbitNetwork.Devnet
attribute [local instance] turning
open Blockchain

def founding (staker : Address) (amount : Int) : Transaction :=
  { txType := .STAKE
    sender := staker
    payload := { amount := some amount, validatorAddress := some staker }
    timestamp := 100 }

def pairGenesis : Block :=
  (Block.genesis payer [registration payer key key 100,registration purse purseKey purseKey 100,
    founding payer 1,founding purse 3] 100).sign key

def twoFounded : Blockchain := ((new (.memory [])).addBlock pairGenesis 100).2

def parting : Blockchain := (twoFounded.submitTx 101 (withdrawal 0)).2

def parted : Blockchain := (parting.produceBlock payer key 102 102).2

def signsAt (s : Blockchain) (block : Block) (i : Nat) (v : Address) : Bool :=
  match s.state.beforeTx block (s.height + 1) i with
  | .ok t => t.staking.validators.contains v && !t.staking.isKeyRevoked v "signing"
  | .error _ => true

theorem signsAtCan {s : Blockchain} {block : Block} {i : Nat} {v : Address} (signs : signsAt s block i v = true)
    {t : ChainState} (reached : s.state.beforeTx block (s.height + 1) i = .ok t) : t.staking.CanSign v := by
  simp only [signsAt,reached,Bool.and_eq_true,Bool.not_eq_true'] at signs
  exact ⟨Std.ExtTreeMap.contains_iff_mem.mp signs.1,signs.2⟩

theorem registrationKeeps {k : Staking} {v : Address} {sk pk : Bytes} {now : Int} :
    k.KeepsStaff (registration v sk pk now) := True.intro

theorem foundingKeeps {k : Staking} {v : Address} {amount : Int} (signs : k.CanSign v) :
    k.KeepsStaff (founding v amount) := fun _ => signs

theorem parts : ((new (.memory [])).addBlock pairGenesis 100).1 = .accepted ∧ twoFounded.latestBlock.isSome = true ∧
    twoFounded.getActiveValidators = [(payer,1),(purse,3)] ∧ (parting.produceBlock payer key 102 102).1 = .accepted ∧
    parted.latestBlock.isSome = true ∧ parted.tipBlock.transactions = [withdrawal 0] ∧
    parted.getActiveValidators = [(purse,3)] ∧ signsAt (new (.memory [])) pairGenesis 2 payer = true ∧
    signsAt (new (.memory [])) pairGenesis 3 purse = true := by decide +kernel

theorem twoFoundedSustained : Sustained twoFounded := by
  obtain ⟨answer,-,-,-,-,-,-,first,second⟩ := parts
  have step : Accepts (new (.memory [])) pairGenesis twoFounded := receivedAccepts (by rw [twoFounded]) answer
  have listed : pairGenesis.transactions = [registration payer key key 100,registration purse purseKey purseKey 100,
    founding payer 1,founding purse 3] := rfl
  refine .accept pairGenesis .memory step ?_
  rw [Sustains,listed]
  intro i tx t found reached
  rcases i with _ | _ | _ | _ | i
  · obtain rfl := Option.some.inj found
    exact registrationKeeps
  · obtain rfl := Option.some.inj found
    exact registrationKeeps
  · obtain rfl := Option.some.inj found
    exact foundingKeeps (signsAtCan first reached)
  · obtain rfl := Option.some.inj found
    exact foundingKeeps (signsAtCan second reached)
  · cases found

theorem producerStays : parted.getActiveValidators = [(purse,3)] ∧ parted.HasProducer := by
  obtain ⟨-,-,-,answer,tip,transactions,active,-,-⟩ := parts
  have start : Sustained parting := by
    rw [parting]
    exact .submit 101 (withdrawal 0) twoFoundedSustained
  refine ⟨active,sustainedHasProducer parted (.accept _ start (producedAccepts (by rw [parted]) answer tip) ?_)⟩
  rw [Sustains,transactions]
  intro i tx t found _
  rw [List.mem_singleton.mp (List.mem_of_getElem? found)]
  trivial

end QbitNetwork.Devnet
