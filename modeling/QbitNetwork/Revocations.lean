import QbitNetwork.Accounting
import QbitNetwork.History

/-! Revoked signing keys: what their owners can still do on the chain. -/
namespace QbitNetwork

theorem revocationKeySigning {a b : Address} {keyType : String}
    (typed : keyType ∈ ["signing","encryption","validator"])
    (same : revocationKey a keyType = revocationKey b "signing") : keyType = "signing" ∧ a = b := by
  have letters : a.toList ++ ':' :: keyType.toList = b.toList ++ ":signing".toList := by
    simpa [revocationKey] using congrArg String.toList same
  have last := congrArg List.getLast? letters
  simp only [List.mem_cons,List.not_mem_nil,or_false] at typed
  rcases typed with rfl | rfl | rfl
  · exact ⟨rfl,String.toList_inj.mp (List.append_cancel_right letters)⟩
  · simp at last
  · simp at last

namespace Blockchain

def Silences (block later : Block) : Prop :=
  ∀ tx ∈ block.transactions, revokesSigningKey tx = true →
    (∀ other ∈ later.transactions, other.sender ≠ tx.sender) ∧ later.validator ≠ tx.sender

def RevokesLast (block : Block) : Prop :=
  block.transactions.Pairwise (fun tx later => revokesSigningKey tx = true → later.sender ≠ tx.sender)

structure DeadKeys (chain : List Block) : Prop where
  within : ∀ block ∈ chain, RevokesLast block
  after : chain.Pairwise Silences

section Revoked
variable [Env]

structure Revoking (chain : List Block) (c : ChainState) : Prop where
  revoked : ∀ tx ∈ chain.flatMap Block.transactions, revokesSigningKey tx = true →
    revocationKey tx.sender "signing" ∈ c.staking.revokedKeys
  after : chain.Pairwise Silences
  typed : ∀ block ∈ chain.drop 1, ∀ tx ∈ block.transactions, tx.txType = .REVOKE_KEY →
    tx.payload.keyType.getD "" ∈ ["signing","encryption","validator"]

omit [Env] in
theorem revokesSigningKeyIff {tx : Transaction} :
    revokesSigningKey tx = true ↔ tx.txType = .REVOKE_KEY ∧ tx.payload.keyType.getD "" = "signing" := by
  simp [revokesSigningKey]

theorem runRevoked (txs : List Transaction) (r : Roster) :
    r.revoked ⊆ (r.run txs).revoked ∧ ∀ tx ∈ txs, revokesSigningKey tx = true →
      revocationKey tx.sender "signing" ∈ (r.run txs).revoked := by
  induction txs generalizing r with
  | nil => exact ⟨subset_rfl,by simp⟩
  | cons tx rest ih =>
    obtain ⟨kept,added⟩ := ih (r.step tx)
    have grows : r.revoked ⊆ (r.step tx).revoked := by
      unfold Roster.step
      split
      · simp only [Roster.register]
        split <;> exact subset_rfl
      · exact Set.subset_insert ..
      all_goals first | exact subset_rfl | (split <;> exact subset_rfl)
    refine ⟨grows.trans kept,fun other inside revokes => ?_⟩
    rcases List.mem_cons.mp inside with rfl | later
    · obtain ⟨kind,keyType⟩ := revokesSigningKeyIff.mp revokes
      refine kept ?_
      simp only [Roster.step,kind,Roster.revoke,keyType]
      exact Set.mem_insert ..
    · exact added other later revokes

theorem applyBlockRevoked {block : Block} {idx : Int} {s s' : ChainState}
    (run : s.applyBlock block idx = .ok s') :
    s'.staking.roster.revoked = (s.staking.roster.run block.transactions).revoked := by
  simp only [ChainState.applyBlock,Outcome.bindOk] at run
  obtain ⟨opened,opening,looped,loop,reward⟩ := run
  have paid : looped.staking.roster.revoked = s'.staking.roster.revoked := by
    simp only [ChainState.payReward] at reward
    split at reward
    · simp only [Outcome.bindOk,Outcome.withinOk] at reward
      obtain ⟨_,⟨ledger,-,rfl⟩,reward⟩ := reward
      cases reward
      rfl
    · cases reward
      rfl
  have rows := Outcome.foldSimulates (fun s : ChainState => s.staking.roster)
    (fun r (row : Transaction × Nat) => r.step row.1) (fun _ _ _ step => ChainState.applyTxRoster step) loop
  rw [← paid,rows,ChainState.openBlockRoster opening,Roster.run,
    ← List.foldl_map (f := Prod.fst) (g := Roster.step),List.zipIdx_map_fst]

theorem enterRevocations (txs : List Transaction) (revoked : Dict String Revocation) :
    (∀ key ∈ revoked, key ∈ txs.foldl Staking.enterRevocation revoked) ∧
    ∀ tx ∈ txs, revokesSigningKey tx = true →
      revocationKey tx.sender "signing" ∈ txs.foldl Staking.enterRevocation revoked := by
  induction txs generalizing revoked with
  | nil => exact ⟨fun _ inside => inside,by simp⟩
  | cons tx rest ih =>
    obtain ⟨kept,added⟩ := ih (Staking.enterRevocation revoked tx)
    refine ⟨fun key inside => kept key ?_,fun other inside revokes => ?_⟩
    · unfold Staking.enterRevocation
      split
      · exact (Dict.memInsert ..).mpr (.inr inside)
      · exact inside
    · rcases List.mem_cons.mp inside with rfl | later
      · obtain ⟨kind,keyType⟩ := revokesSigningKeyIff.mp revokes
        refine kept _ ?_
        rw [Staking.enterRevocation,if_pos kind,keyType]
        exact (Dict.memInsert ..).mpr (.inl rfl)
      · exact added other later revokes

omit [Env] in
theorem unrevokeKeeps (txs : List Transaction) {revoked : Dict String Revocation} {key : String}
    (other : ∀ tx ∈ txs, tx.txType = .REVOKE_KEY →
      revocationKey tx.sender (tx.payload.keyType.getD "") ≠ key) (inside : key ∈ revoked) :
    key ∈ txs.foldl unrevoke revoked := by
  induction txs generalizing revoked with
  | nil => exact inside
  | cons tx rest ih =>
    refine ih (fun tx later => other tx (List.mem_cons_of_mem _ later)) ?_
    unfold unrevoke
    split
    · rename_i kind
      exact (Dict.memErase ..).mpr ⟨Ne.symm (other tx (List.mem_cons_self ..) kind),inside⟩
    · exact inside

theorem revokingAppend {chain : List Block} {block : Block} {s : Blockchain} {c : ChainState}
    (revoking : Revoking chain s.state)
    (checked : chain ≠ [] → s.transactionsCheck block = .ok () ∧
      s.isKeyRevoked block.validator "signing" = false)
    (applied : s.state.applyBlock block chain.length = .ok c) : Revoking (chain ++ [block]) c := by
  have members : ∀ k : Staking, ∀ key, key ∈ k.revokedKeys ↔ key ∈ k.roster.revoked := fun _ _ => Iff.rfl
  obtain ⟨kept,added⟩ := runRevoked block.transactions s.state.staking.roster
  rw [← applyBlockRevoked applied] at kept added
  refine ⟨fun tx inside revokes => ?_,?_,?_⟩
  · rw [members]
    rw [List.flatMap_append,List.flatMap_singleton] at inside
    rcases List.mem_append.mp inside with old | new
    · exact kept (revoking.revoked tx old revokes)
    · exact added tx new revokes
  · refine List.pairwise_append.mpr ⟨revoking.after,List.pairwise_singleton ..,fun a above b here => ?_⟩
    rw [List.mem_singleton.mp here]
    intro tx inside revokes
    have started : chain ≠ [] := List.ne_nil_of_mem above
    have known := revoking.revoked tx (List.mem_flatMap.mpr ⟨a,above,inside⟩) revokes
    have refused : ∀ address, s.isKeyRevoked address "signing" = false → address ≠ tx.sender := by
      rintro _ unrevoked rfl
      have : s.isKeyRevoked tx.sender "signing" = true := Std.ExtTreeMap.contains_iff_mem.mpr known
      rw [this] at unrevoked
      contradiction
    obtain ⟨transactions,producer⟩ := checked started
    exact ⟨fun other mined => refused _ (transactionsCheckMem transactions other mined).unrevoked,
      refused _ producer⟩
  · intro other listed tx inside kind
    cases chain with
    | nil => simp at listed
    | cons first rest =>
      rw [List.cons_append,List.drop_one,List.tail_cons] at listed
      rcases List.mem_append.mp listed with old | new
      · exact revoking.typed other (by simpa using old) tx inside kind
      · rw [List.mem_singleton.mp new] at inside
        have valid := (transactionsCheckMem (checked (by simp)).1 tx inside).payload
        have typed := (validatePayloadOk valid).2.2
        simp only [typeCheck,kind,revokeKeyCheck,Outcome.bindOk,refuseIfOk,not_not] at typed
        exact typed.choose_spec.1

theorem revokingDrop {prior : List Block} {block : Block} {t u : Blockchain}
    (revoking : Revoking (prior ++ [block]) t.state) (taken : Taken block t u) :
    Revoking prior u.state := by
  obtain ⟨lower,-,across⟩ := List.pairwise_append.mp revoking.after
  refine ⟨fun tx inside revokes => ?_,lower,fun other listed => revoking.typed other ?_⟩
  · rw [taken.revoked]
    refine unrevokeKeeps _ (fun other mined kind same => ?_) (revoking.revoked tx ?_ revokes)
    · obtain ⟨above,mem,own⟩ := List.mem_flatMap.mp inside
      have later : block ∈ (prior ++ [block]).drop 1 := by
        cases prior with
        | nil => cases mem
        | cons first rest => simp
      obtain ⟨-,sender⟩ := revocationKeySigning (revoking.typed block later other mined kind) same
      exact (across above mem block (List.mem_singleton_self block) tx own revokes).1 other mined sender
    · rw [List.flatMap_append]
      exact List.mem_append_left _ inside
  · cases prior with
    | nil => cases listed
    | cons first rest => simpa using .inl listed

theorem revokingLaw {meets : List Block → Block → Prop} : Law meets Revoking where
  begins := ⟨by simp,.nil,by simp⟩
  frame := fun revoking _ revoked => ⟨revoked ▸ revoking.revoked,revoking.after,revoking.typed⟩
  append := fun revoking checked _ applied => revokingAppend revoking checked applied
  restamp := by
    intro prior old block c revoking transactions validator
    obtain ⟨lower,-,across⟩ := List.pairwise_append.mp revoking.after
    refine ⟨?_,?_,fun other listed => ?_⟩
    · have all : (prior ++ [block]).flatMap Block.transactions =
          (prior ++ [old]).flatMap Block.transactions := by simp [transactions]
      rw [all]
      exact revoking.revoked
    · refine List.pairwise_append.mpr ⟨lower,List.pairwise_singleton ..,fun a above b here => ?_⟩
      rw [List.mem_singleton.mp here]
      have before := across a above old (List.mem_singleton_self old)
      unfold Silences at before ⊢
      rwa [transactions,validator]
    · cases prior with
      | nil => simp at listed
      | cons first rest =>
        rw [List.cons_append,List.drop_one,List.tail_cons] at listed
        rcases List.mem_append.mp listed with below | tip
        · exact revoking.typed other (by simpa using .inl below)
        · rw [List.mem_singleton.mp tip,transactions]
          exact revoking.typed old (by simp)
  drop := revokingDrop
  reload := fun revoking _ revoked => by
    refine ⟨fun tx inside revokes => ?_,revoking.after,revoking.typed⟩
    rw [revoked]
    exact (enterRevocations ..).2 tx inside revokes

theorem revokesLastLaw : Law (fun _ block => RevokesLast block) (fun chain _ => ∀ block ∈ chain, RevokesLast block) where
  begins := by simp
  frame := fun all _ _ => all
  append := by
    intro chain block s c all _ met _ other inside
    rcases List.mem_append.mp inside with old | new
    · exact all other old
    · rw [List.mem_singleton.mp new]
      rcases met with last | registrations
      · exact last
      · refine List.pairwise_of_forall_mem_list (fun tx mined later _ revokes => ?_)
        have kind := (revokesSigningKeyIff.mp revokes).1
        rw [registrations tx mined] at kind
        cases kind
  restamp := by
    intro prior old block c all transactions _ other inside
    rcases List.mem_append.mp inside with below | tip
    · exact all other (List.mem_append_left _ below)
    · rw [List.mem_singleton.mp tip,RevokesLast,transactions]
      exact all old (by simp)
  drop := fun all _ other inside => all other (List.mem_append_left _ inside)
  reload := fun all _ _ => all

/- A revoked signing key is dead exactly where no block has a transaction of its owner after
the revocation: the table the next ones are checked against is filled when the block is
applied, and again by every restart. -/
theorem deadKeysIff :
    (∀ (chain : List Block) (s : Blockchain), History (fun _ _ => True) chain s →
      (DeadKeys chain ↔ ∀ block ∈ chain, RevokesLast block)) ∧
    ∀ (chain : List Block) (s : Blockchain), History (fun _ block => RevokesLast block) chain s →
      DeadKeys chain := by
  refine ⟨fun chain s history => ⟨DeadKeys.within,fun last => ⟨last,?_⟩⟩,fun chain s history => ⟨?_,?_⟩⟩
  · exact (historyLaw revokingLaw history).1.after
  · exact (historyLaw revokesLastLaw history).1
  · exact (historyLaw revokingLaw history).1.after

end Revoked

end Blockchain

namespace Devnet
attribute [local instance] legacy
open Blockchain

def userKey : Bytes := [3]

def user : Address := deriveAddress userKey

def revocation : Transaction :=
  Transaction.sign
    { txType := .REVOKE_KEY
      sender := user
      payload := { keyType := some "signing", reason := some "rotation" }
      timestamp := 101 } userKey userKey

def afterthought : Transaction :=
  Transaction.sign
    { txType := .NOTARIZE
      sender := user
      payload := { documentHash := some "ab" }
      timestamp := 101
      nonce := 1 } userKey userKey

def outliving : Blockchain := ((genesis.submitTx 101 revocation).2.submitTx 101 afterthought).2

def outlived : Blockchain := (outliving.produceBlock address key 102 102).2

theorem outlives : Accepts outliving outlived.tipBlock outlived ∧
    outlived.tipBlock.transactions = [revocation,afterthought] := by
  have run : (outliving.produceBlock address key 102 102).1 = .accepted ∧
      outlived.latestBlock.isSome = true ∧
      outlived.tipBlock.transactions = [revocation,afterthought] := by decide +kernel
  exact ⟨producedAccepts (by rw [outlived]) run.1 run.2.1,run.2.2⟩

theorem keyOutlivesRevocation : ¬∀ (chain : List Block) (s : Blockchain),
    History (fun _ _ => True) chain s → DeadKeys chain := by
  intro claim
  have submitted : History (fun _ _ => True) [genesis.tipBlock] outliving := by
    rw [outliving]
    exact .submit 101 afterthought (.submit 101 revocation genesisHistory)
  have dead := claim _ _ (.accept outlived.tipBlock submitted outlives.1 trivial)
  have last := dead.within outlived.tipBlock (by simp)
  rw [RevokesLast,outlives.2] at last
  obtain ⟨first,-⟩ := List.pairwise_cons.mp last
  exact first afterthought (by simp) (by decide +kernel) rfl

def silencing : Blockchain := (genesis.submitTx 101 revocation).2

def silenced : Blockchain := (silencing.produceBlock address key 102 102).2

def resuming : Blockchain := (silenced.submitTx 103 (notarization 0)).2

def resumed : Blockchain := (resuming.produceBlock address key 104 104).2

theorem resumedDead : silenced.tipBlock.transactions = [revocation] ∧
    DeadKeys [genesis.tipBlock,silenced.tipBlock,resumed.tipBlock] := by
  have run : (silencing.produceBlock address key 102 102).1 = .accepted ∧ silenced.latestBlock.isSome = true ∧
      silenced.tipBlock.transactions = [revocation] ∧ (resuming.produceBlock address key 104 104).1 = .accepted ∧
      resumed.latestBlock.isSome = true ∧ resumed.tipBlock.transactions = [notarization 0] := by decide +kernel
  obtain ⟨first,tip,alone,second,later,notarized⟩ := run
  have silent : History (fun _ block => RevokesLast block) [genesis.tipBlock] silencing := by
    rw [silencing]
    exact .submit 101 revocation genesisHistory
  have revoked : History (fun _ block => RevokesLast block) [genesis.tipBlock,silenced.tipBlock] resuming := by
    rw [resuming]
    refine .submit 103 (notarization 0) (.accept _ silent (producedAccepts (by rw [silenced]) first tip) ?_)
    rw [RevokesLast,alone]
    exact List.pairwise_singleton ..
  refine ⟨alone,deadKeysIff.2 _ resumed (.accept _ revoked (producedAccepts (by rw [resumed]) second later) ?_)⟩
  rw [RevokesLast,notarized]
  exact List.pairwise_singleton ..

end Devnet

end QbitNetwork
