import QbitNetwork.Attempts
import QbitNetwork.Calls
import Mathlib.Data.List.Induction

/-! What the undo of a block leaves: the rows of the block are gone from the index, and the
nonces are those of the blocks below it. -/
namespace QbitNetwork

structure Refundable [Env] (block : Block) : Prop where
  fee : ChainState.isDynamic block.index = true → 0 ≤ block.baseFee
  transfers : ∀ tx ∈ block.transactions, tx.txType = .TRANSFER →
    ∃ amount, tx.payload.amount = some amount ∧ 0 ≤ amount

namespace Ledger

theorem creditReturns (l : Ledger) (address : Address) {amount : Int} (nonneg : 0 ≤ amount) :
    ∃ l', l.credit address amount = .ok l' := by
  unfold credit
  rw [if_neg (by omega)]
  split <;> exact ⟨_,rfl⟩

theorem creditAllReturns {rows : List (Address × Int)} (nonneg : ∀ row ∈ rows, 0 ≤ row.2) (l : Ledger) :
    ∃ l', rows.foldlM (fun l row => l.credit row.1 row.2) l = .ok l' := by
  induction rows generalizing l with
  | nil => exact ⟨l,rfl⟩
  | cons row rest ih =>
    obtain ⟨mid,paid⟩ := l.creditReturns row.1 (nonneg row (List.mem_cons_self ..))
    obtain ⟨last,run⟩ := ih (fun other inside => nonneg other (List.mem_cons_of_mem _ inside)) mid
    exact ⟨last,by rw [List.foldlM_cons,paid]; exact run⟩

theorem refundTxReturns {dynamic : Bool} {block : Block} {tx : Transaction}
    (fee : dynamic = true → 0 ≤ block.baseFee)
    (transfer : tx.txType = .TRANSFER → ∃ amount, tx.payload.amount = some amount ∧ 0 ≤ amount)
    (l : Ledger) : ∃ l', l.refundTx dynamic block tx = .ok l' := by
  have charged : 0 ≤ txFee dynamic block.baseFee tx := by
    cases dynamic with
    | true => exact txFeeNonneg (fee rfl) tx
    | false => exact txFeesNonneg _
  have back : ∀ mid : Ledger, ∃ l', (
      if dynamic then
        if 0 < txWeights tx.txType then
          (mid.rollbackDebit block.validator (txFee dynamic block.baseFee tx)).credit tx.sender
            (txFee dynamic block.baseFee tx)
        else .ok mid
      else if 0 < txFee dynamic block.baseFee tx then
        ((mid.rollbackDebit block.validator (txFee dynamic block.baseFee tx / 2)).burn
          (-(txFee dynamic block.baseFee tx - txFee dynamic block.baseFee tx / 2))).credit tx.sender
          (txFee dynamic block.baseFee tx)
      else .ok mid) = .ok l' := by
    intro mid
    split
    · split
      · exact creditReturns _ _ charged
      · exact ⟨mid,rfl⟩
    · split
      · exact creditReturns _ _ charged
      · exact ⟨mid,rfl⟩
  have after : ∀ {x : Except (Fault Ledger) Ledger}, (∃ mid, x = .ok mid) → ∃ l', (x >>= fun mid =>
      if dynamic then
        if 0 < txWeights tx.txType then
          (mid.rollbackDebit block.validator (txFee dynamic block.baseFee tx)).credit tx.sender
            (txFee dynamic block.baseFee tx)
        else .ok mid
      else if 0 < txFee dynamic block.baseFee tx then
        ((mid.rollbackDebit block.validator (txFee dynamic block.baseFee tx / 2)).burn
          (-(txFee dynamic block.baseFee tx - txFee dynamic block.baseFee tx / 2))).credit tx.sender
          (txFee dynamic block.baseFee tx)
      else .ok mid) = .ok l' := by
    rintro _ ⟨mid,rfl⟩
    exact back mid
  unfold refundTx
  dsimp only
  split
  · split
    · exact after (l.creditReturns tx.sender (by omega))
    · exact back l
  · split
    · exact after (l.creditReturns tx.sender (by omega))
    · exact back l
  · rename_i kind
    obtain ⟨amount,found,nonneg⟩ := transfer kind
    simp only [found]
    exact after ((l.rollbackDebit tx.recipient amount).creditReturns tx.sender nonneg)
  · exact back l

end Ledger

namespace Staking
variable [Env]

theorem undoTxPeriods (k : Staking) (lookup : Address → Option Bytes) (tx : Transaction) (blockIndex : Int) :
    SamePeriods k (k.undoTx lookup tx blockIndex) ∧
      (k.undoTx lookup tx blockIndex).epochValidators = k.epochValidators := by
  unfold undoTx
  dsimp only
  split
  · split <;> exact ⟨⟨rfl,rfl,rfl,rfl⟩,rfl⟩
  · simp only [undoRevokeKey]
    split
    · split <;> exact ⟨⟨rfl,rfl,rfl,rfl⟩,rfl⟩
    · exact ⟨⟨rfl,rfl,rfl,rfl⟩,rfl⟩
  · split <;> exact ⟨⟨rfl,rfl,rfl,rfl⟩,rfl⟩
  · split <;> exact ⟨⟨rfl,rfl,rfl,rfl⟩,rfl⟩
  · split <;> exact ⟨⟨rfl,rfl,rfl,rfl⟩,rfl⟩
  · split <;> exact ⟨⟨rfl,rfl,rfl,rfl⟩,rfl⟩
  · exact ⟨⟨rfl,rfl,rfl,rfl⟩,rfl⟩

theorem undoTxsPeriods (lookup : Address → Option Bytes) (txs : List Transaction) (blockIndex : Int) (k : Staking) :
    SamePeriods k (txs.foldl (fun k tx => k.undoTx lookup tx blockIndex) k) ∧
      (txs.foldl (fun k tx => k.undoTx lookup tx blockIndex) k).epochValidators = k.epochValidators := by
  induction txs generalizing k with
  | nil => exact ⟨⟨rfl,rfl,rfl,rfl⟩,rfl⟩
  | cons tx rest ih =>
    obtain ⟨same,frozen⟩ := undoTxPeriods k lookup tx blockIndex
    obtain ⟨later,still⟩ := ih (k.undoTx lookup tx blockIndex)
    exact ⟨same.trans later,still.trans frozen⟩

end Staking

namespace Store
variable [Env]

theorem persistUndoKeeps (after : ChainState) (tx : Transaction) (d : Store) :
    Keeps d (d.persistUndo after tx) := by
  unfold persistUndo
  split
  · exact keepsRefl d
  · dsimp only
    split <;> exact keepsRefl _
  · exact keepsRefl d
  · exact keepsRefl d

end Store

namespace Blockchain
variable [Env]

theorem undoMoneyReturns {block : Block} (refundable : 0 < block.index → Refundable block)
    (s : ChainState) : ∃ ledger staking, undoMoney s block = .ok { s with ledger, staking } ∧
      staking.lastEpochDistributions = s.staking.lastEpochDistributions := by
  simp only [undoMoney]
  split
  · rename_i later
    have money := refundable later.1
    have loop : ∀ (txs : List Transaction) (l : Ledger), (∀ tx ∈ txs, tx ∈ block.transactions) →
        ∃ l', txs.foldlM
          (fun l tx => l.refundTx (ChainState.isDynamic block.index) block tx) l = .ok l' := by
      intro txs
      induction txs with
      | nil => exact fun l _ => ⟨l,rfl⟩
      | cons tx rest ih =>
        intro l inside
        obtain ⟨mid,paid⟩ := l.refundTxReturns money.fee
          (money.transfers tx (inside tx (List.mem_cons_self ..)))
        obtain ⟨last,run⟩ := ih mid (fun other later => inside other (List.mem_cons_of_mem _ later))
        exact ⟨last,by rw [List.foldlM_cons,paid]; exact run⟩
    obtain ⟨ledger,run⟩ := loop block.transactions.reverse
      (s.ledger.undoReward block.validator (s.ledger.calcBlockReward block.index))
      (fun tx inside => List.mem_reverse.mp inside)
    rw [run]
    refine ⟨ledger,_,rfl,?_⟩
    unfold Staking.undoEpochReward
    split <;> rfl
  · exact ⟨s.ledger,s.staking,rfl,rfl⟩

omit [Env] in
theorem leaveEpochDistributions (k : Staking) (epoch : Int) :
    (k.leaveEpoch epoch).lastEpochDistributions = k.lastEpochDistributions := by
  simp only [Staking.leaveEpoch]
  split <;> rfl

omit [Env] in
theorem undoEpochReturns {s : ChainState} (drawn : s.staking.Drawn) (blockIndex : Int) :
    ∃ ledger staking, undoEpoch s blockIndex = .ok { s with ledger, staking } ∧ staking.Drawn := by
  have erased : ∀ epoch, ({ s.staking with
      lastEpochDistributions := s.staking.lastEpochDistributions.erase epoch } : Staking).Drawn := by
    intro epoch number record found
    simp only [Std.ExtTreeMap.getElem?_erase] at found
    split at found
    · contradiction
    · exact drawn number record found
  simp only [undoEpoch]
  split
  · split
    · have nonneg : ∀ row ∈ (s.staking.lastEpochDistributions.getD (blockIndex / epochLength - 1) {}).debits,
          0 ≤ row.2 := by
        rw [Std.ExtTreeMap.getD_eq_getD_getElem?]
        cases found : s.staking.lastEpochDistributions[blockIndex / epochLength - 1]? with
        | none => simp
        | some record => exact drawn _ record found
      obtain ⟨ledger,run⟩ := Ledger.creditAllReturns nonneg
        ((s.staking.lastEpochDistributions.getD (blockIndex / epochLength - 1) {}).credits.foldl
          (fun l row => l.rollbackDebit row.1 row.2) s.ledger)
      have kept := Staking.sameDrawn (leaveEpochDistributions _ (blockIndex / epochLength))
        (erased (blockIndex / epochLength - 1))
      refine ⟨ledger,_,?_,kept⟩
      simp only [Ledger.undoDistribution]
      rw [run]
      rfl
    · exact ⟨s.ledger,_,rfl,Staking.sameDrawn (leaveEpochDistributions _ _) drawn⟩
  · exact ⟨s.ledger,s.staking,rfl,drawn⟩

omit [Env] in
theorem rebuildRaises {s : ChainState} (named : s.tokens.Named) (t : StateTrie) :
    Outcome.Ends (fun _ => True) (fun e _ => e = .overflowError) (s.rebuildStateTrie t) := by
  have row : ∀ (t : StateTrie) (row : String × Int),
      Outcome.Ends (fun _ => True) (fun e _ => e = .overflowError) (ChainState.setRow t row) := by
    intro t row
    unfold ChainState.setRow
    split
    · exact trivial
    · rfl
  have tokenRow : ∀ (t : StateTrie), ∀ row ∈ s.tokenRows, True →
      Outcome.Ends (fun _ => True) (fun e _ => e = .overflowError) (ChainState.setTokenRow t row) := by
    intro t other inside _
    have valid : ChainState.validTokenId other.1 = true := by
      rcases List.mem_append.mp inside with held | issued
      · obtain ⟨⟨⟨tid,holder⟩,amount⟩,kept,rfl⟩ := List.mem_map.mp held
        refine named.balances tid holder (Std.ExtTreeMap.mem_iff_isSome_getElem?.mpr ?_)
        rw [Std.ExtTreeMap.mem_toList_iff_getElem?_eq_some.mp (List.mem_filter.mp kept).1]
        rfl
      · obtain ⟨⟨tid,reg⟩,listed,rfl⟩ := List.mem_map.mp issued
        refine named.registry tid (Std.ExtTreeMap.mem_iff_isSome_getElem?.mpr ?_)
        rw [Std.ExtTreeMap.mem_toList_iff_getElem?_eq_some.mp listed]
        rfl
    unfold ChainState.setTokenRow
    rw [if_pos valid]
    exact row t other.2
  simp only [ChainState.rebuildStateTrie]
  refine Outcome.endsBind (fun _ => True) (Outcome.foldEnds _ _ (fun t x _ _ => row t x) trivial)
    (fun balances _ => ?_)
  refine Outcome.endsBind (fun _ => True) (Outcome.foldEnds _ _ (fun t x _ _ => row t x) trivial)
    (fun nonces _ => ?_)
  exact Outcome.foldEnds _ _ tokenRow trivial

theorem undoTxsLeave {s : Blockchain} (named : s.state.tokens.Named) (drawn : s.state.staking.Drawn)
    (block : Block) {txs : List Transaction} (names : ∀ tx ∈ txs, Tokens.NamesToken tx) :
    ∃ state backend, txs.foldl (undoTx block) s = { s with state, backend } ∧
      backend.stored = s.backend.stored ∧
      state.index.core = txs.foldl Index.forgetTx s.state.index.core ∧
      state.tokens.Named ∧ state.staking.Drawn := by
  induction txs generalizing s with
  | nil => exact ⟨s.state,s.backend,rfl,rfl,rfl,named,drawn⟩
  | cons tx rest ih =>
    let state : ChainState := { s.state with
      index := (s.state.index.forgetTx tx).undoTx tx
      staking := s.state.staking.undoTx s.findValidatorPkInChain tx block.index
      tokens := s.state.tokens.undoTx tx }
    have core : state.index.core = s.state.index.core.forgetTx tx :=
      (Index.undoTxCore ..).trans (Index.forgetTxCore ..)
    have kept := Backend.storedMapStore (Store.persistUndo state tx) s.backend
      (Store.persistUndoKeeps state tx)
    obtain ⟨last,backend,run,stored,index,named',drawn'⟩ :=
      @ih ((s.withState state).mapStore (Store.persistUndo state tx))
        (Tokens.undoTxNamed named (names tx (List.mem_cons_self ..)))
        (Staking.sameDrawn (Staking.undoTxPeriods ..).1.lastEpochDistributions drawn)
        (fun other inside => names other (List.mem_cons_of_mem _ inside))
    refine ⟨last,backend,?_,stored.trans kept,?_,named',drawn'⟩
    · rw [List.foldl_cons]
      exact run
    · rw [index,List.foldl_cons,← core]
      rfl

omit [Env] in
theorem recomputeNonces (s : Blockchain) (txs : List Transaction) :
    ∃ senderNonce, txs.foldl recomputeNonce s =
        s.withState { s.state with index := { s.state.index with senderNonce } } ∧
      ∀ sender, senderNonce.get sender =
        if sender ∈ txs.map Transaction.sender then (s.remainingNonces sender).max?.getD (-1)
        else s.state.index.senderNonce.get sender := by
  induction txs generalizing s with
  | nil => exact ⟨s.state.index.senderNonce,rfl,fun sender => by simp⟩
  | cons tx rest ih =>
    obtain ⟨senderNonce,run,all⟩ := ih (s.recomputeNonce tx)
    refine ⟨senderNonce,?_,fun sender => ?_⟩
    · rw [List.foldl_cons,run]
      rfl
    · have same : (s.recomputeNonce tx).remainingNonces sender = s.remainingNonces sender := rfl
      rw [all,same]
      by_cases inside : sender ∈ rest.map Transaction.sender
      · simp [inside]
      · rw [if_neg inside]
        simp only [recomputeNonce,withStateState,Table.getSet,List.map_cons,List.mem_cons,inside,or_false]
        by_cases own : tx.sender = sender
        · rw [if_pos own,if_pos own.symm,own]
        · rw [if_neg own,if_neg (Ne.symm own)]

theorem findDistinct {rows : List Row} (distinct : (rows.map (fun row => row.1.txId)).Nodup) {row : Row}
    (inside : row ∈ rows) : rows.find? (fun other => other.1.txId = row.1.txId) = some row := by
  induction rows with
  | nil => cases inside
  | cons first rest ih =>
    rw [List.map_cons,List.nodup_cons] at distinct
    rcases List.mem_cons.mp inside with rfl | later
    · simp
    · have other : first.1.txId ≠ row.1.txId := by
        intro same
        rw [same] at distinct
        exact distinct.1 (List.mem_map_of_mem later)
      rw [List.find?_cons_of_neg (by simpa using other)]
      exact ih distinct.2 later

theorem remainingUserNonces {counting : Prop} {s : Blockchain} {prior chainList : List Block}
    (counted : counting) (memory : s.backend = .memory chainList) (below : prior <+: chainList)
    (indexed : Chronicle.Indexed counting (Chronicle.rows prior) s.state.index)
    (distinct : ((Chronicle.rows prior).map (fun row => row.1.txId)).Nodup) (sender : Address) :
    s.remainingNonces sender = (Chronicle.userTxs prior sender).map Transaction.nonce := by
  have read : ∀ row ∈ Chronicle.rows prior, s.getTx row.1.txId = some row.1 ∧
      s.getTxBlock row.1.txId = some row.2.1 := by
    intro row inside
    have located : s.state.index.txById[row.1.txId]? = some row.2 := by
      rw [indexed.byId,findDistinct distinct inside]
      rfl
    obtain ⟨i,block,found,place,position⟩ := Chronicle.memRowsFrom inside
    have stored : s.getBlockByIndex row.2.1 = some block := by
      simp only [getBlockByIndex,memory,Backend.getBlock,listAt]
      rw [place,if_pos (by omega)]
      obtain ⟨above,rfl⟩ := below
      have short := (List.getElem?_eq_some_iff.mp found).1
      simpa [List.getElem?_append_left short] using found
    constructor
    · simp only [getTx,located,Option.bind_eq_bind,Option.bind_some,stored]
      exact position
    · rw [getTxBlock,located]
      rfl
  rw [remainingNonces,indexed.bySender counted,List.filterMap_map,← Chronicle.userTxsRows,List.map_map]
  have kept : ∀ row ∈ (Chronicle.rows prior).filter (fun row => row.1.sender = sender),
      row ∈ Chronicle.rows prior := fun row inside => (List.mem_filter.mp inside).1
  refine (List.filterMap_congr
    (g := fun row => if row.2.1 ≠ 0 then some row.1.nonce else none) (fun row inside => ?_)).trans ?_
  · obtain ⟨tx,place⟩ := read row (kept row inside)
    simp only [Function.comp_apply,tx,place,Option.some.injEq,ite_not]
  generalize Chronicle.rows prior = rows
  induction rows with
  | nil => rfl
  | cons row rest ih =>
    by_cases own : row.1.sender = sender <;> by_cases first : row.2.1 = 0 <;>
      simp_all

end Blockchain

namespace Chronicle
variable [Env]

/- A block that may follow these: at its place, with new ids, nonces that go on, money that
can be given back and token ids that are well formed. The first block's money and nonces
are not looked at, and no nonces at all where they are not counted. -/
structure Fits (counting : Prop) (prior : List Block) (block : Block) : Prop where
  position : block.index = prior.length
  distinct : (block.transactions.map Transaction.txId).Nodup
  fresh : ∀ tx ∈ block.transactions, tx.txId ∉ (rows prior).map (fun row => row.1.txId)
  continues : counting → prior ≠ [] →
    Continues (fun sender => (userTxs prior sender).length) block.transactions
  refundable : prior ≠ [] → Refundable block
  names : ∀ tx ∈ block.transactions, Tokens.NamesToken tx

def Sound (counting : Prop) (chain : List Block) : Prop :=
  ∀ (i : Nat) (block : Block), chain[i]? = some block → Fits counting (chain.take i) block

variable {counting : Prop}

theorem soundNil : Sound counting [] := fun i block found => by simp at found

theorem soundTake {chain : List Block} (sound : Sound counting chain) (n : Nat) :
    Sound counting (chain.take n) := by
  intro i block found
  obtain ⟨short,_⟩ := List.getElem?_eq_some_iff.mp found
  rw [List.length_take] at short
  rw [List.getElem?_take,if_pos (by omega)] at found
  rw [List.take_take,Nat.min_eq_left (by omega)]
  exact sound i block found

theorem soundAppend {prior : List Block} {block : Block} :
    Sound counting (prior ++ [block]) ↔ Sound counting prior ∧ Fits counting prior block := by
  constructor
  · intro sound
    refine ⟨?_,?_⟩
    · simpa using soundTake sound prior.length
    · simpa using sound prior.length block (by simp)
  · rintro ⟨sound,fits⟩ i other found
    rcases Nat.lt_trichotomy i prior.length with below | rfl | above
    · rw [List.getElem?_append_left below] at found
      rw [List.take_append_of_le_length (by omega)]
      exact sound i other found
    · simp only [List.getElem?_append_right (Nat.le_refl _),Nat.sub_self,List.getElem?_cons_zero,
        Option.some.injEq] at found
      subst found
      simpa using fits
    · rw [List.getElem?_eq_none (by simp; omega)] at found
      contradiction

theorem blockRowsIds (block : Block) (height : Int) :
    (blockRows block height).map (fun row => row.1.txId) = block.transactions.map Transaction.txId := by
  rw [← blockRowsTxs block height,List.map_map]
  rfl

theorem soundIds {chain : List Block} (sound : Sound counting chain) :
    ((rows chain).map (fun row => row.1.txId)).Nodup := by
  induction chain using List.reverseRecOn with
  | nil => exact List.nodup_nil
  | append_singleton prior block ih =>
    obtain ⟨below,fits⟩ := soundAppend.mp sound
    rw [rowsAppend,List.map_append,blockRowsIds]
    refine List.nodup_append.mpr ⟨ih below,fits.distinct,?_⟩
    rintro _ old _ new rfl
    obtain ⟨tx,inside,same⟩ := List.mem_map.mp new
    exact fits.fresh tx inside (same ▸ old)

theorem soundNonces {chain : List Block} (counted : counting) (sound : Sound counting chain)
    (sender : Address) :
    (userTxs chain sender).map Transaction.nonce = upTo (userTxs chain sender).length := by
  induction chain using List.reverseRecOn with
  | nil => rfl
  | append_singleton prior block ih =>
    obtain ⟨below,fits⟩ := soundAppend.mp sound
    by_cases first : prior = []
    · subst first
      rfl
    · rw [userTxsAppend prior block sender first,List.map_append,ih below,
        fits.continues counted first sender,
        List.length_append,upToAdd]

end Chronicle

end QbitNetwork
