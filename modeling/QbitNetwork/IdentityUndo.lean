import QbitNetwork.Lib.Clamped
import QbitNetwork.Notarizations
import QbitNetwork.RollbackLaws

/-! The undo of a block's registrations and revocations: where it leads back to the registries
before the block. -/
namespace QbitNetwork

open FirstCopies

namespace Transaction

def newKey (address : Address) (tx : Transaction) : Option String :=
  if tx.txType = .REGISTER_KEY ∧ tx.sender = address ∧ tx.payload.encryptionPk.getD "" ≠ "" then
    some (tx.payload.encryptionPk.getD "")
  else none

def newRate (address : Address) (tx : Transaction) : Option Int :=
  if tx.txType = .REGISTER_VALIDATOR ∧ tx.payload.validatorPubkey.getD "" ≠ "" ∧ address ≠ "" ∧
      tx.payload.validatorAddress.getD "" = address then
    tx.payload.commission.filter (fun rate => 0 ≤ rate ∧ rate ≤ 100)
  else none

def Registers (tx : Transaction) (address : Address) : Prop :=
  tx.txType = .REGISTER_VALIDATOR ∧ address ≠ "" ∧ tx.payload.validatorAddress.getD "" = address

def Revokes (tx : Transaction) (address : Address) : Prop :=
  tx.txType = .REVOKE_KEY ∧ tx.sender = address ∧ tx.payload.keyType.getD "" = "validator"

def Records (tx : Transaction) (key : String) : Prop :=
  tx.txType = .REVOKE_KEY ∧ revocationKey tx.sender (tx.payload.keyType.getD "") = key

instance (tx : Transaction) (address : Address) : Decidable (tx.Registers address) := by
  unfold Registers; infer_instance

instance (tx : Transaction) (address : Address) : Decidable (tx.Revokes address) := by unfold Revokes; infer_instance

instance (tx : Transaction) (key : String) : Decidable (tx.Records key) := by unfold Records; infer_instance

end Transaction

open Transaction

def comesBack (address : Address) : List Transaction → Bool
  | [] => false
  | tx :: rest =>
    if tx.Records (revocationKey address "validator") then
      tx.Revokes address ∧ ∀ later ∈ rest, ¬later.Registers address
    else comesBack address rest

namespace Index

def keysAt (address : Address) (x : Index) : List String × Option String :=
  (x.keyHistory.get address,x.keyRegistry[address]?)

def addKey (address : Address) (keys : List String × Option String) (tx : Transaction) : List String × Option String :=
  match tx.newKey address with
  | some epk => (keys.1 ++ [epk],some epk)
  | none => keys

def dropKey (address : Address) (keys : List String × Option String) (tx : Transaction) : List String × Option String :=
  match tx.newKey address with
  | some epk => (keys.1.erase epk,(keys.1.erase epk).getLast?)
  | none => keys

theorem addKeys (address : Address) (txs : List Transaction) (keys : List String × Option String) :
    txs.foldl (addKey address) keys =
      (keys.1 ++ txs.filterMap (newKey address),(txs.filterMap (newKey address)).getLast?.or keys.2) := by
  induction txs generalizing keys with
  | nil => simp
  | cons tx rest ih =>
    rw [List.foldl_cons,ih,addKey]
    cases made : tx.newKey address with
    | none => rw [List.filterMap_cons_none made]
    | some epk =>
      rw [List.filterMap_cons_some made,List.append_assoc]
      refine Prod.ext rfl ?_
      cases rest.filterMap (newKey address) with
      | nil => rfl
      | cons later others => rw [List.getLast?_cons_cons,List.getLast?_eq_some_getLast (List.cons_ne_nil _ _)]; rfl

theorem dropKeys (address : Address) (txs : List Transaction) (keys : List String × Option String) :
    txs.foldl (dropKey address) keys = (keys.1.diff (txs.filterMap (newKey address)),
      if txs.filterMap (newKey address) = [] then keys.2 else (keys.1.diff (txs.filterMap (newKey address))).getLast?) := by
  induction txs generalizing keys with
  | nil => simp
  | cons tx rest ih =>
    rw [List.foldl_cons,ih,dropKey]
    cases made : tx.newKey address with
    | none => rw [List.filterMap_cons_none made]
    | some epk =>
      rw [List.filterMap_cons_some made,List.diff_cons,if_neg (List.cons_ne_nil _ _)]
      refine Prod.ext rfl ?_
      dsimp only
      split
      · rename_i none
        rw [none,List.diff_nil]
      · rfl

variable [Env]

theorem enterKeys (address : Address) (idx : Int) (x : Index) (row : Transaction × Nat) :
    (x.enter idx row).keysAt address = addKey address (x.keysAt address) row.1 := by
  have recorded : (x.recordTx idx row.2 row.1).keyHistory = x.keyHistory ∧
      (x.recordTx idx row.2 row.1).keyRegistry = x.keyRegistry := by
    unfold recordTx raiseNonce
    dsimp only
    split <;> exact ⟨rfl,rfl⟩
  rw [enter]
  generalize x.recordTx idx row.2 row.1 = y at recorded
  unfold applyTx
  cases kind : row.1.txType
  case REGISTER_KEY =>
    simp only [registerKey,keysAt,addKey,newKey,kind,true_and]
    by_cases none : row.1.payload.encryptionPk.getD "" = ""
    · rw [if_pos none,if_neg (fun both => both.2 none),recorded.1,recorded.2]
    · rw [if_neg none]
      by_cases own : row.1.sender = address
      · subst own
        rw [if_pos ⟨rfl,none⟩]
        simp [recorded.1]
      · rw [if_neg (fun both => own both.1)]
        simp only [Table.getUpdate,Std.ExtTreeMap.getElem?_insert,Std.compare_eq_iff_eq,if_neg own,recorded.1,recorded.2]
  case NOTARIZE =>
    simp only [keysAt,addKey,newKey,kind,reduceCtorEq,false_and,if_false,notarize]
    split <;> rw [← recorded.1,← recorded.2]
  all_goals
    simp only [keysAt,addKey,newKey,kind,reduceCtorEq,false_and,if_false]
    rw [recorded.1,recorded.2]

theorem unindexKeys (address : Address) (x : Index) (tx : Transaction) :
    (Blockchain.unindex x tx).keysAt address = dropKey address (x.keysAt address) tx := by
  rw [Blockchain.unindex]
  have forgotten : (x.forgetTx tx).keyHistory = x.keyHistory ∧ (x.forgetTx tx).keyRegistry = x.keyRegistry := ⟨rfl,rfl⟩
  generalize x.forgetTx tx = y at forgotten
  unfold undoTx
  cases kind : tx.txType
  case REGISTER_KEY =>
    simp only [undoRegisterKey,keysAt,dropKey,newKey,kind,true_and]
    by_cases none : tx.payload.encryptionPk.getD "" = ""
    · rw [if_pos none,if_neg (fun both => both.2 none),forgotten.1,forgotten.2]
    · rw [if_neg none]
      by_cases own : tx.sender = address
      · subst own
        rw [if_pos ⟨rfl,none⟩]
        simp only [Table.getSet,if_true,forgotten.1]
        refine Prod.ext rfl ?_
        dsimp only
        split
        · rename_i last
          rw [last,Std.ExtTreeMap.getElem?_insert_self]
        · rename_i last
          rw [last,Std.ExtTreeMap.getElem?_erase_self]
      · rw [if_neg (fun both => own both.1)]
        simp only [Table.getSet,if_neg own,forgotten.1]
        refine Prod.ext rfl ?_
        dsimp only
        rw [← forgotten.2]
        split
        · rw [Std.ExtTreeMap.getElem?_insert,if_neg (by rw [Std.compare_eq_iff_eq]; exact own)]
        · rw [Std.ExtTreeMap.getElem?_erase,if_neg (by rw [Std.compare_eq_iff_eq]; exact own)]
  case NOTARIZE =>
    simp only [keysAt,dropKey,newKey,kind,reduceCtorEq,false_and,if_false,undoNotarize]
    split <;> rw [← forgotten.1,← forgotten.2]
  all_goals
    simp only [keysAt,dropKey,newKey,kind,reduceCtorEq,false_and,if_false]
    rw [forgotten.1,forgotten.2]

end Index

namespace Staking

def placesAt (address : Address) (k : Staking) : Option Bytes × Option Bytes :=
  (k.validatorRegistry[address]?,k.validators[address]?)

def restore (found : Option Bytes) (places : Option Bytes × Option Bytes) : Option Bytes × Option Bytes :=
  match places.1.or found with
  | some pk => (some pk,some pk)
  | none => places

theorem commissionPlaces (k : Staking) (vaddr : Address) (rate : Option Int) (address : Address) :
    (k.setCommission vaddr rate).placesAt address = k.placesAt address := by
  unfold setCommission
  split
  · split <;> rfl
  · rfl

theorem registerPlaces {k k' : Staking} {p : Payload} (run : k.registerValidator p = .ok k') {address : Address}
    (other : ¬(address ≠ "" ∧ p.validatorAddress.getD "" = address)) : k'.placesAt address = k.placesAt address := by
  simp only [registerValidator] at run
  split at run
  · cases run
    rfl
  · rename_i named
    have apart : p.validatorAddress.getD "" ≠ address := by
      intro same
      refine other ⟨fun none => named (.inr (same.trans none)),same⟩
    split at run
    · cases run
      exact commissionPlaces ..
    · split at run
      · contradiction
      · cases run
        rw [commissionPlaces]
        simp only [placesAt,addValidator,Std.ExtTreeMap.getElem?_insert,Std.compare_eq_iff_eq,if_neg apart]

variable [Env]

theorem applyTxPlaces {k k' : Staking} {tx : Transaction} {idx : Int} (honest : tx.txType ≠ .EVIDENCE)
    (run : k.applyTx tx idx = .ok k') {address : Address} (other : ¬tx.Registers address) :
    k'.placesAt address = if tx.Revokes address then (none,none) else k.placesAt address := by
  unfold applyTx at run
  cases kind : tx.txType <;> simp only [kind] at run
  case EVIDENCE => exact absurd kind honest
  case REGISTER_VALIDATOR =>
    rw [if_neg (fun revokes => by rw [Revokes,kind] at revokes; cases revokes.1)]
    exact registerPlaces run (fun both => other ⟨kind,both⟩)
  case REVOKE_KEY =>
    cases run
    simp only [revokeKey,Revokes,kind,true_and]
    by_cases validator : tx.payload.keyType.getD "" = "validator"
    · rw [if_pos validator]
      simp only [placesAt,removeValidator,Std.ExtTreeMap.getElem?_erase,Std.compare_eq_iff_eq,validator,and_true]
      split <;> rfl
    · rw [if_neg validator,if_neg (fun both => validator both.2)]
      rfl
  case STAKE | DELEGATE | UNSTAKE =>
    cases run
    rw [if_neg (fun revokes => by rw [Revokes,kind] at revokes; cases revokes.1)]
    simp only [addStake,unstake]
    split <;> rfl
  all_goals
    cases run
    rw [if_neg (fun revokes => by rw [Revokes,kind] at revokes; cases revokes.1)]

theorem applyTxsPlaces {txs : List Transaction} {idx : Int} (honest : ∀ tx ∈ txs, tx.txType ≠ .EVIDENCE)
    {k k' : Staking} (run : txs.foldlM (fun k tx => Staking.applyTx k tx idx) k = .ok k') {address : Address}
    (others : ∀ tx ∈ txs, ¬tx.Registers address) :
    k'.placesAt address = if ∃ tx ∈ txs, tx.Revokes address then (none,none) else k.placesAt address := by
  induction txs generalizing k with
  | nil =>
    cases run
    simp
  | cons tx rest ih =>
    rw [List.foldlM_cons,Outcome.bindOk] at run
    obtain ⟨mid,first,later⟩ := run
    obtain ⟨plain,honest⟩ := List.forall_mem_cons.mp honest
    obtain ⟨mine,others⟩ := List.forall_mem_cons.mp others
    rw [ih honest later others,applyTxPlaces plain first mine]
    simp only [List.mem_cons,exists_eq_or_imp]
    by_cases revokes : tx.Revokes address <;> simp [revokes]

theorem applyTxRate {k k' : Staking} {tx : Transaction} {idx : Int} (run : k.applyTx tx idx = .ok k') (address : Address) :
    k'.validatorCommission.get address = (tx.newRate address).getD (k.validatorCommission.get address) := by
  have commission : ∀ (k : Staking) (vaddr : Address) (rate : Option Int),
      (k.setCommission vaddr rate).validatorCommission.get address =
        (if vaddr = address then rate.filter (fun rate => 0 ≤ rate ∧ rate ≤ 100) else none).getD
          (k.validatorCommission.get address) := by
    intro k vaddr rate
    unfold setCommission
    cases rate with
    | none => simp
    | some rate =>
      dsimp only
      by_cases valid : 0 ≤ rate ∧ rate ≤ 100
      · rw [if_pos valid,Table.getSet]
        split <;> simp [Option.filter,valid]
      · rw [if_neg valid]
        split <;> simp [Option.filter,valid]
  unfold applyTx at run
  cases kind : tx.txType <;> simp only [kind] at run
  case REGISTER_VALIDATOR =>
    simp only [newRate,kind,true_and]
    simp only [registerValidator] at run
    split at run
    · rename_i named
      cases run
      rw [if_neg (fun all => ?_)]
      · rfl
      · rcases named with none | none
        · exact all.1 none
        · exact all.2.1 (all.2.2.symm.trans none)
    · rename_i named
      obtain ⟨given,stated⟩ := not_or.mp named
      have rate : (if tx.payload.validatorPubkey.getD "" ≠ "" ∧ address ≠ "" ∧ tx.payload.validatorAddress.getD "" = address
          then tx.payload.commission.filter (fun rate => 0 ≤ rate ∧ rate ≤ 100) else none) =
          if tx.payload.validatorAddress.getD "" = address then
            tx.payload.commission.filter (fun rate => 0 ≤ rate ∧ rate ≤ 100) else none := by
        by_cases own : tx.payload.validatorAddress.getD "" = address
        · rw [if_pos ⟨given,own ▸ stated,own⟩,if_pos own]
        · rw [if_neg (fun all => own all.2.2),if_neg own]
      rw [rate]
      split at run
      · cases run
        exact commission ..
      · split at run
        · contradiction
        · cases run
          exact commission ..
  case EVIDENCE =>
    cases run
    simp only [newRate,kind,reduceCtorEq,false_and,if_false,Option.getD_none,processEvidenceTx,slash]
    split
    · split <;> rfl
    · rfl
  case STAKE | DELEGATE | UNSTAKE | REVOKE_KEY =>
    cases run
    simp only [newRate,kind,reduceCtorEq,false_and,if_false,Option.getD_none,addStake,unstake,revokeKey]
    split <;> rfl
  all_goals
    cases run
    simp only [newRate,kind,reduceCtorEq,false_and,if_false,Option.getD_none]

theorem applyTxsRate {txs : List Transaction} {idx : Int} {k k' : Staking}
    (run : txs.foldlM (fun k tx => Staking.applyTx k tx idx) k = .ok k') (address : Address) :
    k'.validatorCommission.get address =
      (txs.filterMap (newRate address)).getLast?.getD (k.validatorCommission.get address) := by
  induction txs generalizing k with
  | nil =>
    cases run
    rfl
  | cons tx rest ih =>
    rw [List.foldlM_cons,Outcome.bindOk] at run
    obtain ⟨mid,first,later⟩ := run
    rw [ih later,applyTxRate first]
    cases made : tx.newRate address with
    | none => rw [List.filterMap_cons_none made]; rfl
    | some rate =>
      rw [List.filterMap_cons_some made]
      cases rest.filterMap (newRate address) with
      | nil => rfl
      | cons later others => rw [List.getLast?_cons_cons,List.getLast?_eq_some_getLast (List.cons_ne_nil _ _)]; rfl

theorem applyTxRevoked {k k' : Staking} {tx : Transaction} {idx : Int} (run : k.applyTx tx idx = .ok k') :
    k'.revokedKeys = enterRevocation k.revokedKeys tx := by
  unfold applyTx at run
  cases kind : tx.txType <;> simp only [kind] at run <;>
    simp only [enterRevocation,kind,reduceCtorEq,if_true,if_false]
  case REGISTER_VALIDATOR =>
    simp only [registerValidator] at run
    split at run
    · cases run
      rfl
    · split at run
      · cases run
        exact setCommissionRevoked ..
      · split at run
        · contradiction
        · cases run
          exact setCommissionRevoked ..
  all_goals cases run
  case REVOKE_KEY => exact revokeKeyRevoked ..
  case STAKE => exact addStakeRevoked ..
  case DELEGATE => exact addStakeRevoked ..
  case UNSTAKE => exact unstakeRevoked ..
  case EVIDENCE =>
    simp only [processEvidenceTx,slash]
    split
    · split <;> rfl
    · rfl
  all_goals rfl

theorem enterRecorded {txs : List Transaction} {tx : Transaction} (inside : tx ∈ txs) {key : String}
    (records : tx.Records key) (revoked : Dict String Revocation) : key ∈ txs.foldl enterRevocation revoked := by
  have kept : ∀ (txs : List Transaction) (revoked : Dict String Revocation), key ∈ revoked →
      key ∈ txs.foldl enterRevocation revoked := by
    intro txs
    induction txs with
    | nil => exact fun _ held => held
    | cons other rest ih =>
      intro revoked held
      refine ih _ ?_
      unfold enterRevocation
      split
      · exact (Dict.memInsert ..).mpr (.inr held)
      · exact held
  obtain ⟨earlier,later,rfl⟩ := List.append_of_mem inside
  rw [List.foldl_append,List.foldl_cons]
  refine kept later _ ?_
  rw [enterRevocation,if_pos records.1,records.2]
  exact (Dict.memInsert ..).mpr (.inl rfl)

theorem revocationsBack (txs : List Transaction) (revoked : Dict String Revocation) (key : String) :
    (txs.foldl Blockchain.unrevoke (txs.foldl enterRevocation revoked))[key]? =
      if ∃ tx ∈ txs, tx.Records key then none else revoked[key]? := by
  have taken : ∀ (txs : List Transaction) (revoked : Dict String Revocation),
      (txs.foldl Blockchain.unrevoke revoked)[key]? = if ∃ tx ∈ txs, tx.Records key then none else revoked[key]? := by
    intro txs
    induction txs with
    | nil => simp
    | cons tx rest ih =>
      intro revoked
      rw [List.foldl_cons,ih]
      simp only [List.mem_cons,exists_eq_or_imp,Blockchain.unrevoke,Records]
      by_cases kind : tx.txType = .REVOKE_KEY
      · simp only [kind,true_and,if_true,Std.ExtTreeMap.getElem?_erase,Std.compare_eq_iff_eq]
        by_cases own : revocationKey tx.sender (tx.payload.keyType.getD "") = key <;> simp [own]
      · simp [kind]
  have given : ∀ (txs : List Transaction) (revoked : Dict String Revocation), (¬∃ tx ∈ txs, tx.Records key) →
      (txs.foldl enterRevocation revoked)[key]? = revoked[key]? := by
    intro txs
    induction txs with
    | nil => exact fun _ _ => rfl
    | cons tx rest ih =>
      intro revoked others
      have fewer : ¬∃ tx ∈ rest, tx.Records key :=
        fun found => others (found.imp (fun _ own => ⟨List.mem_cons_of_mem _ own.1,own.2⟩))
      rw [List.foldl_cons,ih _ fewer]
      unfold enterRevocation
      split
      · rename_i kind
        rw [Std.ExtTreeMap.getElem?_insert,if_neg]
        rw [Std.compare_eq_iff_eq]
        exact fun own => others ⟨tx,List.mem_cons_self ..,kind,own⟩
      · rfl
  rw [taken]
  split
  · rfl
  · rename_i others
    exact given txs revoked others

theorem undoTxPlaces (k : Staking) (lookup : Address → Option Bytes) (tx : Transaction) (blockIndex : Int)
    (address : Address) : (k.undoTx lookup tx blockIndex).placesAt address =
      if tx.Registers address then (none,none)
      else if tx.Revokes address ∧ revocationKey address "validator" ∈ k.revokedKeys then
        restore (lookup address) (k.placesAt address)
      else k.placesAt address := by
  unfold undoTx
  cases kind : tx.txType
  case REGISTER_VALIDATOR =>
    simp only [Registers,Revokes,kind,true_and,reduceCtorEq,false_and,if_false]
    by_cases none : tx.payload.validatorAddress.getD "" = ""
    · rw [if_pos none,if_neg (fun both => both.1 (both.2.symm.trans none))]
    · rw [if_neg none]
      simp only [placesAt,removeValidator,Std.ExtTreeMap.getElem?_erase,Std.compare_eq_iff_eq]
      by_cases own : tx.payload.validatorAddress.getD "" = address
      · subst own
        rw [if_pos rfl,if_pos rfl,if_pos ⟨none,rfl⟩]
      · rw [if_neg own,if_neg own,if_neg (fun both => own both.2)]
  case REVOKE_KEY =>
    simp only [Registers,Revokes,kind,true_and,reduceCtorEq,false_and,if_false,undoRevokeKey]
    by_cases validator : tx.payload.keyType.getD "" = "validator"
    · rw [validator]
      have known : ((k.revokedKeys[revocationKey tx.sender "validator"]?).isSome = true ∧ "validator" = "validator") ↔
          revocationKey tx.sender "validator" ∈ k.revokedKeys := by
        rw [Std.ExtTreeMap.mem_iff_isSome_getElem?]
        exact and_iff_left rfl
      by_cases held : revocationKey tx.sender "validator" ∈ k.revokedKeys
      · rw [if_pos (known.mpr held)]
        by_cases own : tx.sender = address
        · subst own
          rw [if_pos ⟨⟨rfl,rfl⟩,held⟩]
          simp only [restore,placesAt]
          cases k.validatorRegistry[tx.sender]?.or (lookup tx.sender) with
          | none => rfl
          | some pk => simp only [addValidator,Std.ExtTreeMap.getElem?_insert_self]
        · rw [if_neg (fun all => own all.1.1)]
          cases k.validatorRegistry[tx.sender]?.or (lookup tx.sender) with
          | none => rfl
          | some pk =>
            simp only [placesAt,addValidator,Std.ExtTreeMap.getElem?_insert,Std.compare_eq_iff_eq,if_neg own]
      · rw [if_neg (fun both => held (known.mp both))]
        by_cases own : tx.sender = address
        · subst own
          rw [if_neg (fun all => held all.2)]
          rfl
        · rw [if_neg (fun all => own all.1.1)]
          rfl
    · rw [if_neg (fun both => validator both.2),if_neg (fun all => validator all.1.2)]
      rfl
  all_goals
    simp only [Registers,Revokes,kind,reduceCtorEq,false_and,if_false]
    try split
    all_goals rfl

theorem undoTxKnown (k : Staking) (lookup : Address → Option Bytes) (tx : Transaction) (blockIndex : Int) (key : String) :
    key ∈ (k.undoTx lookup tx blockIndex).revokedKeys ↔ ¬tx.Records key ∧ key ∈ k.revokedKeys := by
  rw [Blockchain.undoTxRevoked,Blockchain.unrevoke,Records]
  split
  · rename_i kind
    rw [Dict.memErase]
    simp only [kind,true_and,ne_eq,eq_comm]
  · rename_i kind
    simp [kind]

theorem undoTxsStruck (lookup : Address → Option Bytes) (blockIndex : Int) {txs : List Transaction} {k : Staking}
    {address : Address} (gone : revocationKey address "validator" ∉ k.revokedKeys) :
    (txs.foldl (fun k tx => k.undoTx lookup tx blockIndex) k).placesAt address =
      if ∃ tx ∈ txs, tx.Registers address then (none,none) else k.placesAt address := by
  induction txs generalizing k with
  | nil => simp
  | cons tx rest ih =>
    have still : revocationKey address "validator" ∉ (k.undoTx lookup tx blockIndex).revokedKeys :=
      fun inside => gone ((undoTxKnown ..).mp inside).2
    rw [List.foldl_cons,ih still,undoTxPlaces]
    simp only [List.mem_cons,exists_eq_or_imp]
    by_cases registers : tx.Registers address
    · simp [registers]
    · simp [registers,gone]

theorem undoTxsPlaces (lookup : Address → Option Bytes) (blockIndex : Int) {txs : List Transaction} {k : Staking}
    {address : Address} (recorded : ∀ tx ∈ txs, tx.Records (revocationKey address "validator") →
      revocationKey address "validator" ∈ k.revokedKeys) :
    (txs.foldl (fun k tx => k.undoTx lookup tx blockIndex) k).placesAt address =
      let places := if ∃ tx ∈ txs, tx.Registers address then (none,none) else k.placesAt address
      if comesBack address txs then restore (lookup address) places else places := by
  induction txs generalizing k with
  | nil => simp [comesBack]
  | cons tx rest ih =>
    have step := undoTxPlaces k lookup tx blockIndex address
    rw [List.foldl_cons,comesBack]
    by_cases records : tx.Records (revocationKey address "validator")
    · -- the record is gone from here on
      have plain : ¬tx.Registers address := by
        intro registers
        rw [Registers,records.1] at registers
        cases registers.1
      have gone : revocationKey address "validator" ∉ (k.undoTx lookup tx blockIndex).revokedKeys :=
        fun inside => ((undoTxKnown ..).mp inside).1 records
      have held := recorded tx (List.mem_cons_self ..) records
      rw [undoTxsStruck lookup blockIndex gone,step,if_neg plain,if_pos records]
      simp only [List.mem_cons,exists_eq_or_imp,plain,false_or,held,and_true]
      by_cases later : ∃ tx ∈ rest, tx.Registers address
      · have none : ¬∀ tx ∈ rest, ¬tx.Registers address := fun all =>
          later.elim (fun other both => all other both.1 both.2)
        simp [later,none]
      · have none : ∀ tx ∈ rest, ¬tx.Registers address := fun other inside registers => later ⟨other,inside,registers⟩
        rw [if_neg later,if_neg later]
        by_cases mine : tx.Revokes address
        · simp only [mine,true_and,if_true]
          rw [if_pos (decide_eq_true none)]
        · simp [mine]
    · have mine : ¬tx.Revokes address := by
        rintro ⟨kind,own,validator⟩
        exact records ⟨kind,by rw [own,validator]⟩
      have known : ∀ other ∈ rest, other.Records (revocationKey address "validator") →
          revocationKey address "validator" ∈ (k.undoTx lookup tx blockIndex).revokedKeys :=
        fun other inside among => (undoTxKnown ..).mpr ⟨records,recorded other (List.mem_cons_of_mem _ inside) among⟩
      rw [ih known,step,if_neg records]
      simp only [List.mem_cons,exists_eq_or_imp,mine,false_and,if_false]
      by_cases registers : tx.Registers address <;> simp [registers]

theorem undoTxsRate (lookup : Address → Option Bytes) (blockIndex : Int) (txs : List Transaction) (k : Staking) :
    (txs.foldl (fun k tx => k.undoTx lookup tx blockIndex) k).validatorCommission = k.validatorCommission := by
  induction txs generalizing k with
  | nil => rfl
  | cons tx rest ih =>
    rw [List.foldl_cons,ih]
    unfold undoTx
    cases kind : tx.txType
    case REVOKE_KEY =>
      simp only [undoRevokeKey]
      split
      · split <;> rfl
      · rfl
    all_goals
      dsimp only
      try split
      all_goals rfl

end Staking

section Law

theorem comesBackSplit {address : Address} {txs : List Transaction} (back : comesBack address txs = true) :
    ∃ earlier tx later, txs = earlier ++ tx :: later ∧ tx.Revokes address ∧ ∀ other ∈ later, ¬other.Registers address := by
  induction txs with
  | nil => cases back
  | cons tx rest ih =>
    rw [comesBack] at back
    split at back
    · obtain ⟨revokes,last⟩ := of_decide_eq_true back
      exact ⟨[],tx,rest,rfl,revokes,last⟩
    · obtain ⟨earlier,other,later,rfl,revokes,last⟩ := ih back
      exact ⟨tx :: earlier,other,later,rfl,revokes,last⟩

structure SameIdentity (s u : ChainState) : Prop where
  keyHistory : u.index.keyHistory = s.index.keyHistory
  keyRegistry : u.index.keyRegistry = s.index.keyRegistry
  validatorRegistry : u.staking.validatorRegistry = s.staking.validatorRegistry
  validators : u.staking.validators = s.staking.validators
  validatorCommission : u.staking.validatorCommission = s.staking.validatorCommission
  revokedKeys : u.staking.revokedKeys = s.staking.revokedKeys

/- What undoing a block depends on. A history is what is left of it without the first copies of the
keys the block registers, and then those it registers again; a current key is the last of its
history; no revocation was on record before; a rate that was set is the one from before; and a
validator that the block touched stood where the undo puts it: nowhere, or where the look-up finds
it after a revocation. -/
structure Recalled (lookup : Address → Option Bytes) (s : ChainState) (txs : List Transaction) : Prop where
  histories : ∀ address, (s.index.keyHistory.get address).diff (txs.filterMap (newKey address)) ++
    again (s.index.keyHistory.get address) (txs.filterMap (newKey address)) = s.index.keyHistory.get address
  current : ∀ address, txs.filterMap (newKey address) ≠ [] →
    s.index.keyRegistry[address]? = (s.index.keyHistory.get address).getLast?
  unrecorded : ∀ tx ∈ txs, ∀ key, tx.Records key → key ∉ s.staking.revokedKeys
  rates : ∀ address rate, (txs.filterMap (newRate address)).getLast? = some rate →
    s.staking.validatorCommission.get address = rate
  placed : ∀ address, (∃ tx ∈ txs, tx.Registers address ∨ tx.Revokes address) → s.staking.placesAt address =
    if comesBack address txs then (lookup address,lookup address) else (none,none)

structure SameRegistries (k k' : Staking) : Prop where
  validatorRegistry : k'.validatorRegistry = k.validatorRegistry
  validators : k'.validators = k.validators
  validatorCommission : k'.validatorCommission = k.validatorCommission
  revokedKeys : k'.revokedKeys = k.revokedKeys

theorem SameRegistries.placesAt {k k' : Staking} (same : SameRegistries k k') (address : Address) :
    k'.placesAt address = k.placesAt address := by
  rw [Staking.placesAt,same.validatorRegistry,same.validators]
  rfl

theorem sameIdentityAt {s u : ChainState} : SameIdentity s u ↔
    (∀ address, u.index.keysAt address = s.index.keysAt address) ∧
      (∀ address, u.staking.placesAt address = s.staking.placesAt address) ∧
      (∀ address, u.staking.validatorCommission.get address = s.staking.validatorCommission.get address) ∧
      ∀ key : String, u.staking.revokedKeys[key]? = s.staking.revokedKeys[key]? := by
  constructor
  · intro same
    refine ⟨fun address => ?_,fun address => ?_,fun address => ?_,fun key => ?_⟩
    · rw [Index.keysAt,Index.keysAt,same.keyHistory,same.keyRegistry]
    · rw [Staking.placesAt,Staking.placesAt,same.validatorRegistry,same.validators]
    · rw [same.validatorCommission]
    · rw [same.revokedKeys]
  · rintro ⟨keys,places,rates,revoked⟩
    exact ⟨Table.ext (fun address => congrArg Prod.fst (keys address)),
      Std.ExtTreeMap.ext_getElem? (fun address => congrArg Prod.snd (keys address)),
      Std.ExtTreeMap.ext_getElem? (fun address => congrArg Prod.fst (places address)),
      Std.ExtTreeMap.ext_getElem? (fun address => congrArg Prod.snd (places address)),
      Table.ext rates,Std.ExtTreeMap.ext_getElem? revoked⟩

theorem keysBack (address : Address) (txs : List Transaction) (keys : List String × Option String) :
    txs.foldl (Index.dropKey address) (txs.foldl (Index.addKey address) keys) = keys ↔
      keys.1.diff (txs.filterMap (newKey address)) ++ again keys.1 (txs.filterMap (newKey address)) = keys.1 ∧
      (txs.filterMap (newKey address) ≠ [] → keys.2 = keys.1.getLast?) := by
  rw [Index.dropKeys,Index.addKeys,appendDiff,Prod.ext_iff]
  refine and_congr_right (fun whole => ?_)
  dsimp only at whole ⊢
  rw [whole]
  by_cases none : txs.filterMap (newKey address) = []
  · rw [if_pos none,none]
    simp
  · rw [if_neg none]
    exact ⟨fun same _ => same.symm,fun same => (same none).symm⟩

variable [Env]

theorem placesBack {txs : List Transaction} {idx : Int} {k k' left : Staking} (honest : ∀ tx ∈ txs, tx.txType ≠ .EVIDENCE)
    (run : txs.foldlM (fun k tx => Staking.applyTx k tx idx) k = .ok k') (lookup : Address → Option Bytes)
    (blockIndex : Int) (address : Address) (places : left.placesAt address = k'.placesAt address)
    (revocations : left.revokedKeys = k'.revokedKeys) :
    (txs.foldl (fun k tx => k.undoTx lookup tx blockIndex) left).placesAt address =
      if ∃ tx ∈ txs, tx.Registers address ∨ tx.Revokes address then
        if comesBack address txs then (lookup address,lookup address) else (none,none)
      else k.placesAt address := by
  have revoked := Outcome.foldSimulates Staking.revokedKeys Staking.enterRevocation
    (fun _ _ _ step => Staking.applyTxRevoked step) run
  have recorded : ∀ tx ∈ txs, tx.Records (revocationKey address "validator") →
      revocationKey address "validator" ∈ left.revokedKeys := by
    intro tx inside records
    rw [revocations,revoked]
    exact Staking.enterRecorded inside records _
  have restored : Staking.restore (lookup address) (none,none) = (lookup address,lookup address) := by
    simp only [Staking.restore,Option.none_or]
    cases lookup address <;> rfl
  rw [Staking.undoTxsPlaces lookup blockIndex recorded,places]
  dsimp only
  cases back : comesBack address txs with
  | true =>
    obtain ⟨earlier,tx,later,rfl,revokes,last⟩ := comesBackSplit back
    have touched : ∃ other ∈ earlier ++ tx :: later, other.Registers address ∨ other.Revokes address :=
      ⟨tx,by simp,.inr revokes⟩
    rw [if_pos rfl,if_pos touched,if_pos rfl]
    rw [List.foldlM_append,Outcome.bindOk] at run
    obtain ⟨mid,-,after⟩ := run
    have plain : ¬tx.Registers address := by
      intro registers
      rw [Registers,revokes.1] at registers
      cases registers.1
    have gone := Staking.applyTxsPlaces (fun other inside => honest other (List.mem_append_right _ inside)) after
      (List.forall_mem_cons.mpr ⟨plain,last⟩)
    rw [if_pos ⟨tx,List.mem_cons_self ..,revokes⟩] at gone
    rw [gone,ite_self,restored]
  | false =>
    rw [if_neg Bool.false_ne_true,if_neg Bool.false_ne_true]
    by_cases registers : ∃ tx ∈ txs, tx.Registers address
    · obtain ⟨tx,inside,mine⟩ := registers
      rw [if_pos ⟨tx,inside,mine⟩,if_pos ⟨tx,inside,.inl mine⟩]
    · have others : ∀ tx ∈ txs, ¬tx.Registers address := fun tx inside mine => registers ⟨tx,inside,mine⟩
      rw [if_neg registers,Staking.applyTxsPlaces honest run others]
      refine if_congr (exists_congr (fun tx => and_congr_right (fun inside => ?_))) rfl rfl
      exact ⟨.inr,fun either => either.resolve_left (others tx inside)⟩

end Law

namespace Blockchain
variable [Env]

theorem identityUndone (s s' t : Blockchain) (block : Block) (step : Accepts s block s')
    (honest : ∀ tx ∈ block.transactions, tx.txType ≠ .EVIDENCE) (tables : t.state = s'.state) :
    SameIdentity s.state (Outcome.stateOf (t.rollbackBlock block)).state ↔
      Recalled t.findValidatorPkInChain s.state block.transactions := by
  obtain ⟨c,grown⟩ := acceptsGrown step
  obtain ⟨opened,looped,opening,loop,paid⟩ := ChainState.applyBlockStaking grown.applied
  obtain ⟨-,⟨senderNonce,index⟩,⟨undoneRewards,currentEpoch,epochs,epochValidators,lastEpochDistributions,staking⟩,-⟩ :=
    rollbackBlockLeft (t := t) (acceptsRefundable step)
  generalize (Outcome.stateOf (t.rollbackBlock block)).state = u at index staking
  -- the opening of the block and what follows its transactions touch none of the registries
  obtain ⟨opens,closes⟩ : SameRegistries s.state.staking opened.staking ∧
      SameRegistries looped { t.state.staking with epochRewards := undoneRewards } := by
    obtain ⟨rewards,records,start⟩ := ChainState.openBlockStaking opening
    obtain ⟨epochRewards,paid⟩ := paid
    constructor
    · rw [start]
      split <;> exact ⟨rfl,rfl,rfl,rfl⟩
    · rw [tables,grown.staking,paid]
      unfold Staking.pruneDistributions
      split <;> exact ⟨rfl,rfl,rfl,rfl⟩
  have keys : ∀ address, u.index.keysAt address = block.transactions.foldl (Index.dropKey address)
      (block.transactions.foldl (Index.addKey address) (s.state.index.keysAt address)) := by
    intro address
    have added : t.state.index.keysAt address =
        block.transactions.foldl (Index.addKey address) (s.state.index.keysAt address) := by
      have same : SameIndex c.index t.state.index := tables ▸ grown.index
      rw [SameIndex] at same
      rw [same]
      show c.index.keysAt address = _
      have entered : block.transactions.zipIdx.foldl (fun keys row => Index.addKey address keys row.1)
          (s.state.index.keysAt address) = (block.transactions.zipIdx.foldl (Index.enter (s.height + 1))
            s.state.index).keysAt address :=
        List.foldl_hom (Index.keysAt address) (fun x row => (Index.enterKeys address (s.height + 1) x row).symm)
      rw [ChainState.applyBlockIndex grown.applied,← entered,← List.foldl_map (f := Prod.fst),List.zipIdx_map_fst]
    rw [index]
    show (block.transactions.foldl unindex t.state.index).keysAt address = _
    rw [← added,List.foldl_hom (Index.keysAt address) (fun x tx => (Index.unindexKeys address x tx).symm)]
  have places : ∀ address, u.staking.placesAt address =
      if ∃ tx ∈ block.transactions, tx.Registers address ∨ tx.Revokes address then
        if comesBack address block.transactions then
          (t.findValidatorPkInChain address,t.findValidatorPkInChain address)
        else (none,none)
      else s.state.staking.placesAt address := by
    intro address
    rw [staking,← opens.placesAt address]
    exact placesBack honest loop t.findValidatorPkInChain block.index address (closes.placesAt address) closes.revokedKeys
  have rates : ∀ address, u.staking.validatorCommission.get address =
      (block.transactions.filterMap (newRate address)).getLast?.getD (s.state.staking.validatorCommission.get address) := by
    intro address
    rw [← opens.validatorCommission,← Staking.applyTxsRate loop address,← closes.validatorCommission,staking]
    exact congrArg (Table.get · address) (Staking.undoTxsRate ..)
  have revocations : ∀ key : String, u.staking.revokedKeys[key]? =
      if ∃ tx ∈ block.transactions, tx.Records key then none else s.state.staking.revokedKeys[key]? := by
    intro key
    have taken : u.staking.revokedKeys = block.transactions.foldl unrevoke looped.revokedKeys := by
      rw [staking,← closes.revokedKeys]
      exact (List.foldl_hom Staking.revokedKeys (fun k tx => (undoTxRevoked k _ tx _).symm)).symm
    rw [taken,Outcome.foldSimulates Staking.revokedKeys Staking.enterRevocation
      (fun _ _ _ step => Staking.applyTxRevoked step) loop,Staking.revocationsBack,opens.revokedKeys]
  rw [sameIdentityAt]
  simp only [keys,keysBack,places,rates,revocations]
  constructor
  · rintro ⟨keys,places,rates,revocations⟩
    refine ⟨fun address => (keys address).1,fun address => (keys address).2,fun tx inside key records => ?_,
      fun address rate last => ?_,fun address touched => ?_⟩
    · have same := revocations key
      rw [if_pos ⟨tx,inside,records⟩] at same
      exact (Dict.absentIff ..).mp same.symm
    · have same := rates address
      rw [last,Option.getD_some] at same
      exact same.symm
    · have same := places address
      rw [if_pos touched] at same
      exact same.symm
  · intro recalled
    refine ⟨fun address => ⟨recalled.histories address,recalled.current address⟩,fun address => ?_,fun address => ?_,
      fun key => ?_⟩
    · split
      · rename_i touched
        exact (recalled.placed address touched).symm
      · rfl
    · cases last : (block.transactions.filterMap (newRate address)).getLast? with
      | none => rfl
      | some rate => exact (recalled.rates address rate last).symm
    · split
      · rename_i records
        obtain ⟨tx,inside,records⟩ := records
        exact ((Dict.absentIff ..).mpr (recalled.unrecorded tx inside key records)).symm
      · rfl

end Blockchain

end QbitNetwork

namespace QbitNetwork.Devnet
attribute [local instance] legacy
open Blockchain

def discard (nonce : Int) : Transaction :=
  Transaction.sign
    { txType := .REVOKE_KEY
      sender := address
      payload := { keyType := some "encryption", reason := some "compromised" }
      timestamp := 101
      nonce } key key

def discarding : Blockchain := (genesis.submitTx 101 (discard 0)).2

def discarded : Blockchain := (discarding.produceBlock address key 102 102).2

def rediscarding : Block :=
  ({ discarded with pool.txPool := [discard 1] }.produceBlock address key 104 104).2.tipBlock

def rediscarded : Blockchain := (discarded.addBlock rediscarding 104).2

theorem discardedRun : ((genesis.submitTx 101 (discard 0)).1.Ended ∧
      (discarding.produceBlock address key 102 102).1 = .accepted ∧
      (discarded.addBlock rediscarding 104).1 = .accepted ∧ rediscarding.transactions = [discard 1]) ∧
    discarded.state.staking.revokedKeys.contains (revocationKey address "encryption") = true ∧
    (Outcome.stateOf (rediscarded.rollbackBlock rediscarding)).state.staking.revokedKeys.contains
      (revocationKey address "encryption") = false := by
  decide +kernel

theorem discardedAnswer : (genesis.submitTx 101 (discard 0)).1.Ended ∧
    (discarding.produceBlock address key 102 102).1 = .accepted ∧
    (discarded.addBlock rediscarding 104).1 = .accepted ∧ rediscarding.transactions = [discard 1] := discardedRun.1

theorem rediscardedAccepts : Accepts discarded rediscarding rediscarded := by
  have answer : discarded.addBlock rediscarding 104 = (.accepted,rediscarded) := by
    rw [rediscarded]
    exact acceptedState discardedAnswer.2.2.1
  exact .received 104 answer

theorem discardedReached : Reached (fun _ _ => True) (new (.memory [])) discarded := by
  have submitted : Reached (fun _ _ => True) (new (.memory [])) discarding := by
    rw [discarding]
    exact Reached.submit (Reached.start.initChain address key key 100 trivial genesisRuns) 101 (discard 0) trivial
      discardedAnswer.1
  rw [discarded]
  exact Reached.produce submitted address key 102 102 trivial (discardedAnswer.2.1 ▸ .accepted)

theorem identityNotUndone : ¬∀ (s s' t : Blockchain) (block : Block),
    Reached (fun _ _ => True) (new (.memory [])) s ∨ Reached (fun _ _ => True) (new (.sqlite {})) s →
      Accepts s block s' →
      (∀ tx ∈ block.transactions, tx.txType ∈ [TxType.REGISTER_KEY,.REGISTER_VALIDATOR,.REVOKE_KEY]) →
        t.state = s'.state → SameIdentity s.state (Outcome.stateOf (t.rollbackBlock block)).state := by
  intro claim
  have typed : ∀ tx ∈ rediscarding.transactions,
      tx.txType ∈ [TxType.REGISTER_KEY,.REGISTER_VALIDATOR,.REVOKE_KEY] := by
    rw [discardedAnswer.2.2.2]
    intro tx inside
    rw [List.mem_singleton.mp inside]
    simp [discard,Transaction.sign]
  have same := (claim discarded rediscarded rediscarded rediscarding (.inl discardedReached) rediscardedAccepts typed
    rfl).revokedKeys
  have lost := discardedRun.2
  rw [same,lost.1] at lost
  exact absurd lost.2 (by decide)

theorem identityUndoneDiscarded :
    SameIdentity discarded.state (Outcome.stateOf (rediscarded.rollbackBlock rediscarding)).state ↔
      Recalled rediscarded.findValidatorPkInChain discarded.state rediscarding.transactions := by
  refine identityUndone discarded rediscarded rediscarded rediscarding rediscardedAccepts (fun tx inside => ?_) rfl
  rw [discardedAnswer.2.2.2] at inside
  rw [List.mem_singleton.mp inside]
  simp [discard,Transaction.sign]

end QbitNetwork.Devnet
