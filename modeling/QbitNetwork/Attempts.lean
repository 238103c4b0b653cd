import QbitNetwork.Chronicle
import QbitNetwork.Producers

/-! What an append leaves behind, whether it returns or raises. -/
namespace QbitNetwork

namespace Index

def core (x : Index) : Index :=
  { txById := x.txById
    chainTxIds := x.chainTxIds
    txsBySender := x.txsBySender
    txsByRecipient := x.txsByRecipient
    senderNonce := x.senderNonce }

variable [Env]

omit [Env] in
theorem raiseNonceCore (x : Index) (idx : Int) (tx : Transaction) :
    (x.raiseNonce idx tx).core = x.core.raiseNonce idx tx := by
  unfold raiseNonce
  by_cases raised : 0 < idx ∧ x.senderNonce.get tx.sender < tx.nonce
  · rw [if_pos raised,if_pos (by exact raised)]
    rfl
  · rw [if_neg raised,if_neg (by exact raised)]

theorem recordTxCore (x : Index) (idx txIdx : Int) (tx : Transaction) :
    (x.recordTx idx txIdx tx).core = x.core.recordTx idx txIdx tx := by
  simp only [recordTx]
  rw [raiseNonceCore]
  rfl

theorem applyTxCore (x : Index) (tx : Transaction) : (x.applyTx tx).core = x.core := by
  unfold applyTx
  split
  · simp only [notarize]
    split <;> rfl
  · simp only [registerKey]
    split <;> rfl
  · rfl

theorem undoTxCore (x : Index) (tx : Transaction) : (x.undoTx tx).core = x.core := by
  unfold undoTx
  split
  · simp only [undoNotarize]
    split <;> rfl
  · simp only [undoRegisterKey]
    split <;> rfl
  · rfl

theorem forgetTxCore (x : Index) (tx : Transaction) : (x.forgetTx tx).core = x.core.forgetTx tx := rfl

end Index

namespace Tokens
variable [Env]

structure Named (t : Tokens) : Prop where
  registry : ∀ tid ∈ t.registry, ChainState.validTokenId tid = true
  balances : ∀ tid address, (tid,address) ∈ t.balances → ChainState.validTokenId tid = true

theorem tokenIdValid (sender : Address) (symbol : String) (nonce : Int) :
    ChainState.validTokenId (tokenIdOf sender symbol nonce) = true := by
  have digits := hexBytesAreHex
    ((sha3_256 (encode (sender ++ symbol ++ toString nonce))).take 16)
  have hashed := Env.sha3_256Length (encode (sender ++ symbol ++ toString nonce))
  simp only [ChainState.validTokenId,tokenIdOf,hex,encodeAscii,dropFinalNewlineHex digits,
    hexBytesLength,List.length_take,hashed]
  simpa [sha3_256] using digits

omit [Env] in
@[simp] theorem updateTokenIndexTables (t : Tokens) (tid : TokenId) (address : Address) (amount : Int) :
    (t.updateTokenIndex tid address amount).registry = t.registry ∧
      (t.updateTokenIndex tid address amount).bySymbol = t.bySymbol ∧
      (t.updateTokenIndex tid address amount).balances = t.balances := by
  unfold updateTokenIndex
  split <;> exact ⟨rfl,rfl,rfl⟩

omit [Env] in
theorem setTables (t : Tokens) (tid : TokenId) (address : Address) (amount : Int) :
    (t.setTokenBalance tid address amount).registry = t.registry ∧
      (t.setTokenBalance tid address amount).bySymbol = t.bySymbol ∧
      (t.setTokenBalance tid address amount).balances = t.balances.insert (tid,address) amount :=
  updateTokenIndexTables { t with balances := t.balances.insert (tid,address) amount } tid address amount

omit [Env] in
theorem settleTables (t : Tokens) (tid : TokenId) (address : Address) (amount : Int) :
    (t.settleTokenBalance tid address amount).registry = t.registry ∧
      (t.settleTokenBalance tid address amount).bySymbol = t.bySymbol ∧
      (t.settleTokenBalance tid address amount).balances =
        if amount ≤ 0 then t.balances.erase (tid,address) else t.balances.insert (tid,address) amount := by
  unfold settleTokenBalance
  split
  · exact updateTokenIndexTables { t with balances := t.balances.erase (tid,address) } tid address 0
  · exact setTables ..

omit [Env] in
theorem setTokenBalanceNamed {t : Tokens} (named : t.Named) {tid : TokenId} {amount : Int}
    (address : Address) (valid : ChainState.validTokenId tid = true) :
    (t.setTokenBalance tid address amount).Named := by
  obtain ⟨registry,-,balances⟩ := setTables t tid address amount
  constructor
  · rw [registry]
    exact named.registry
  · intro other holder held
    rw [balances,Dict.memInsert] at held
    rcases held with same | old
    · cases same
      exact valid
    · exact named.balances other holder old

omit [Env] in
theorem settleTokenBalanceNamed {t : Tokens} (named : t.Named) {tid : TokenId} {amount : Int}
    (address : Address) (valid : 0 < amount → ChainState.validTokenId tid = true) :
    (t.settleTokenBalance tid address amount).Named := by
  by_cases left : 0 < amount
  · rw [settleTokenBalance,if_neg (by omega)]
    exact setTokenBalanceNamed named address (valid left)
  · obtain ⟨registry,-,balances⟩ := settleTables t tid address amount
    rw [if_pos (by omega)] at balances
    constructor
    · rw [registry]
      exact named.registry
    · intro other holder held
      rw [balances,Dict.memErase] at held
      exact named.balances other holder held.2

omit [Env] in
theorem requiredError {α : Type} {t : Tokens} {key : String} {value : Option α} {r : Fault Tokens}
    (run : t.required key value = .error r) : r.state = t := by
  unfold required at run
  split at run
  · contradiction
  · cases run; rfl

omit [Env] in
theorem insertNamed {t : Tokens} (named : t.Named) {tid : TokenId} (reg : TokenMeta)
    (valid : ChainState.validTokenId tid = true) :
    ({ t with registry := t.registry.insert tid reg } : Tokens).Named := by
  refine ⟨fun other inside => ?_,named.balances⟩
  rcases (Dict.memInsert ..).mp inside with rfl | old
  · exact valid
  · exact named.registry other old

theorem issueTokenNamed {t : Tokens} (named : t.Named) (tx : Transaction) (idx : Int) :
    (Outcome.stateOf (t.issueToken tx idx)).Named := by
  have missing : ∀ {α : Type} {key : String} {value : Option α} (r : Fault Tokens),
      t.required key value = .error r → r.state.Named := fun r run => requiredError run ▸ named
  unfold issueToken
  refine Outcome.stateOfBindValue _ missing (fun symbol _ => ?_)
  split
  · exact named
  · dsimp only
    split
    · exact named
    · refine Outcome.stateOfBindValue _ missing (fun name _ => ?_)
      refine Outcome.stateOfBindValue _ missing (fun decimals _ => ?_)
      exact ⟨(insertNamed named _ (tokenIdValid ..)).registry,named.balances⟩

omit [Env] in
theorem mintTokenNamed {t : Tokens} (named : t.Named) (tx : Transaction) :
    (Outcome.stateOf (t.mintToken tx)).Named := by
  have missing : ∀ {α : Type} {key : String} {value : Option α} (r : Fault Tokens),
      t.required key value = .error r → r.state.Named := fun r run => requiredError run ▸ named
  unfold mintToken
  refine Outcome.stateOfBindValue _ missing (fun tid _ => ?_)
  split
  · exact named
  · rename_i reg found
    have valid := named.registry tid (Std.ExtTreeMap.mem_iff_isSome_getElem?.mpr (by simp [found]))
    split
    · exact named
    · refine Outcome.stateOfBindValue _ missing (fun amount _ => ?_)
      split
      · exact named
      · split
        · exact named
        · exact setTokenBalanceNamed (insertNamed named _ valid) _ valid

omit [Env] in
theorem transferTokenNamed {t : Tokens} (named : t.Named) (tx : Transaction) :
    (Outcome.stateOf (t.transferToken tx)).Named := by
  have missing : ∀ {α : Type} {key : String} {value : Option α} (r : Fault Tokens),
      t.required key value = .error r → r.state.Named := fun r run => requiredError run ▸ named
  unfold transferToken
  refine Outcome.stateOfBindValue _ missing (fun tid _ => ?_)
  split
  · exact named
  · rename_i reg found
    have valid := named.registry tid (Std.ExtTreeMap.mem_iff_isSome_getElem?.mpr (by simp [found]))
    split
    · exact named
    · refine Outcome.stateOfBindValue _ missing (fun amount _ => ?_)
      dsimp only
      split
      · exact named
      · exact setTokenBalanceNamed (settleTokenBalanceNamed named _ (fun _ => valid)) _ valid

theorem applyTxNamed {t : Tokens} (named : t.Named) (tx : Transaction) (idx : Int) :
    (Outcome.stateOf (t.applyTx tx idx)).Named := by
  unfold applyTx
  split
  · exact named
  · split
    · exact issueTokenNamed named tx idx
    · exact mintTokenNamed named tx
    · exact transferTokenNamed named tx
    · exact named

def NamesToken (tx : Transaction) : Prop :=
  tx.txType = .MINT_TOKEN ∨ tx.txType = .TRANSFER_TOKEN →
    ChainState.validTokenId (tx.payload.tokenId.getD "") = true

theorem undoIssueTokenNamed {t : Tokens} (named : t.Named) (tx : Transaction) :
    (t.undoIssueToken tx).Named := by
  simp only [undoIssueToken]
  generalize tokenIdOf tx.sender (tx.payload.symbol.getD "") tx.nonce = tid
  generalize (t.balances.keys.filter _).map Prod.snd = held
  have start : ({ t with
      registry := t.registry.erase tid
      bySymbol := t.bySymbol.erase (tx.payload.symbol.getD "") } : Tokens).Named :=
    ⟨fun other inside => named.registry other ((Dict.memErase ..).mp inside).2,named.balances⟩
  generalize ({ t with
      registry := t.registry.erase tid
      bySymbol := t.bySymbol.erase (tx.payload.symbol.getD "") } : Tokens) = left at start
  induction held generalizing left with
  | nil => exact start
  | cons holder rest ih => exact ih _ (settleTokenBalanceNamed start holder (fun zero => absurd zero (by decide)))

theorem undoTxNamed {t : Tokens} (named : t.Named) {tx : Transaction} (names : NamesToken tx) :
    (t.undoTx tx).Named := by
  unfold undoTx
  split
  · exact undoIssueTokenNamed named tx
  · rename_i kind
    have valid := names (.inl kind)
    simp only [undoMintToken]
    refine settleTokenBalanceNamed ?_ _ (fun _ => valid)
    split
    · exact insertNamed named _ valid
    · exact named
  · rename_i kind
    have valid := names (.inr kind)
    exact setTokenBalanceNamed (settleTokenBalanceNamed named _ (fun _ => valid)) _ valid
  · exact named

end Tokens

namespace Staking

def Drawn (k : Staking) : Prop :=
  ∀ (epoch : Int) (record : Distribution), k.lastEpochDistributions[epoch]? = some record →
    ∀ row ∈ record.debits, 0 ≤ row.2

theorem sameDrawn {k k' : Staking} (same : k'.lastEpochDistributions = k.lastEpochDistributions)
    (drawn : k.Drawn) : k'.Drawn := by
  unfold Drawn at *
  rw [same]
  exact drawn

theorem pruneDrawn {k : Staking} (before : Int) (drawn : k.Drawn) :
    (k.pruneDistributions before).Drawn := by
  unfold pruneDistributions
  split
  · intro epoch record found
    rw [Std.ExtTreeMap.getElem?_filter',Option.filter_eq_some_iff] at found
    exact drawn epoch record found.1
  · exact drawn

variable [Env]

structure SamePeriods (k k' : Staking) : Prop where
  currentEpoch : k'.currentEpoch = k.currentEpoch
  epochs : k'.epochs = k.epochs
  epochRewards : k'.epochRewards = k.epochRewards
  lastEpochDistributions : k'.lastEpochDistributions = k.lastEpochDistributions

omit [Env] in
theorem SamePeriods.trans {a b c : Staking} (first : SamePeriods a b) (second : SamePeriods b c) : SamePeriods a c :=
  ⟨second.currentEpoch.trans first.currentEpoch,second.epochs.trans first.epochs,
    second.epochRewards.trans first.epochRewards,second.lastEpochDistributions.trans first.lastEpochDistributions⟩

theorem applyTxPeriods (k : Staking) (tx : Transaction) (idx : Int) :
    SamePeriods k (Outcome.stateOf (k.applyTx tx idx)) := by
  have commission : ∀ (k' : Staking) address rate, SamePeriods k k' → SamePeriods k (k'.setCommission address rate) := by
    intro k' address rate same
    unfold setCommission
    split
    · split <;> exact same.trans ⟨rfl,rfl,rfl,rfl⟩
    · exact same
  unfold applyTx
  split
  · simp only [registerValidator]
    split
    · exact ⟨rfl,rfl,rfl,rfl⟩
    · split
      · exact commission _ _ _ ⟨rfl,rfl,rfl,rfl⟩
      · split
        · exact ⟨rfl,rfl,rfl,rfl⟩
        · exact commission _ _ _ ⟨rfl,rfl,rfl,rfl⟩
  · simp only [revokeKey]
    split <;> exact ⟨rfl,rfl,rfl,rfl⟩
  · simp only [addStake]
    split <;> exact ⟨rfl,rfl,rfl,rfl⟩
  · simp only [addStake]
    split <;> exact ⟨rfl,rfl,rfl,rfl⟩
  · simp only [unstake]
    split <;> exact ⟨rfl,rfl,rfl,rfl⟩
  · simp only [processEvidenceTx]
    split
    · simp only [slash]
      split <;> exact ⟨rfl,rfl,rfl,rfl⟩
    · exact ⟨rfl,rfl,rfl,rfl⟩
  · exact ⟨rfl,rfl,rfl,rfl⟩

theorem applyTxsPeriods {txs : List Transaction} {idx : Int} {k k' : Staking}
    (run : txs.foldlM (fun k tx => Staking.applyTx k tx idx) k = .ok k') : SamePeriods k k' := by
  refine Outcome.foldInvariant (SamePeriods k) (fun mid tx next kept step => ?_) ⟨rfl,rfl,rfl,rfl⟩ run
  have same := applyTxPeriods mid tx idx
  rw [step] at same
  exact kept.trans same

end Staking

namespace ChainState

structure Apart (s s' : ChainState) : Prop where
  index : s'.index = s.index
  tokens : s'.tokens = s.tokens
  drawn : s.staking.Drawn → s'.staking.Drawn

theorem apartRefl (s : ChainState) : Apart s s := ⟨rfl,rfl,id⟩

theorem Apart.trans {a b c : ChainState} (first : Apart a b) (second : Apart b c) : Apart a c :=
  ⟨second.index.trans first.index,second.tokens.trans first.tokens,second.drawn ∘ first.drawn⟩

theorem apartLedger (s : ChainState) (x : Except (Fault Ledger) Ledger) :
    Apart s (Outcome.stateOf (Outcome.within (fun ledger => { s with ledger }) x)) := by
  rw [Outcome.stateOfWithin]
  exact ⟨rfl,rfl,id⟩

theorem distributeForDrawn {k : Staking} {snapshot : Address → Int} {p p' : Payout} {vaddr : Address}
    (drawn : ∀ row ∈ p.record.debits, 0 ≤ row.2) (run : distributeFor k snapshot p vaddr = .ok p') :
    ∀ row ∈ p'.record.debits, 0 ≤ row.2 := by
  simp only [distributeFor] at run
  split at run
  · cases run; exact drawn
  · simp only [Outcome.bindOk] at run
    obtain ⟨_,-,_,-,run⟩ := run
    cases run
    intro row inside
    rcases List.mem_append.mp inside with old | new
    · exact drawn row old
    · split at new
      · rename_i positive
        cases List.mem_singleton.mp new
        exact Int.le_of_lt positive
      · cases new

theorem distributeApart (s : ChainState) (epoch : Int) :
    Apart s (Outcome.stateOf (s.distributeEpochRewards epoch)) := by
  simp only [distributeEpochRewards]
  split
  · exact ⟨rfl,rfl,id⟩
  · rename_i p run
    refine ⟨rfl,rfl,fun drawn number record found => ?_⟩
    have paid := Outcome.foldInvariant (fun p : Payout => ∀ row ∈ p.record.debits, 0 ≤ row.2)
      (fun _ _ _ kept step => distributeForDrawn kept step) (by simp) run
    simp only [Outcome.stateOf,Std.ExtTreeMap.getElem?_insert] at found
    split at found
    · cases found; exact paid
    · exact drawn number record found

theorem openBlockApart (s : ChainState) (idx : Int) : Apart s (Outcome.stateOf (s.openBlock idx)) := by
  have mature : Apart s (Outcome.stateOf (s.processMatureUnbondings idx)) := by
    simp only [processMatureUnbondings]
    refine Outcome.stateOfBind (Apart s) (apartLedger s _) (fun paid run => ?_)
    obtain ⟨ledger,-,rfl⟩ := (Outcome.withinOk ..).mp run
    exact ⟨rfl,rfl,id⟩
  refine Outcome.stateOfBind (Apart s) mature (fun matured run => ?_)
  rw [run] at mature
  refine mature.trans ?_
  simp only [checkEpochTransition]
  split
  · split
    · have paid := distributeApart matured (idx / epochLength - 1)
      refine Outcome.stateOfBind (Apart matured) paid (fun s run => ?_)
      rw [run] at paid
      exact paid.trans ⟨rfl,rfl,id⟩
    · exact ⟨rfl,rfl,id⟩
  · exact apartRefl _

variable [Env]

omit [Env] in
theorem payRewardApart (s : ChainState) (block : Block) (idx : Int) :
    Apart s (Outcome.stateOf (s.payReward block idx)) := by
  simp only [payReward]
  split
  · refine Outcome.stateOfBind (Apart s) (apartLedger s _) (fun paid run => ?_)
    obtain ⟨ledger,-,rfl⟩ := (Outcome.withinOk ..).mp run
    exact ⟨rfl,rfl,id⟩
  · exact apartRefl _

structure Recorded (before : ChainState) (rows : List Row) (s : ChainState) : Prop where
  index : s.index.core =
    rows.foldl (fun x row => x.recordTx row.2.1 row.2.2 row.1) before.index.core
  named : s.tokens.Named
  drawn : s.staking.Drawn

theorem Recorded.apart {before s s' : ChainState} {rows : List Row} (recorded : Recorded before rows s)
    (apart : Apart s s') : Recorded before rows s' :=
  ⟨by rw [apart.index,recorded.index],apart.tokens ▸ recorded.named,apart.drawn recorded.drawn⟩

theorem applyTxRecorded {before s : ChainState} {rows : List Row} (recorded : Recorded before rows s)
    (block : Block) (idx : Int) (row : Transaction × Nat) :
    Recorded before (rows ++ [(row.1,idx,(row.2 : Int))])
      (Outcome.stateOf (applyTx block idx s row)) := by
  have start : Recorded before (rows ++ [(row.1,idx,(row.2 : Int))])
      { s with index := s.index.recordTx idx row.2 row.1 } := by
    refine ⟨?_,recorded.named,recorded.drawn⟩
    rw [List.foldl_append,← recorded.index]
    exact Index.recordTxCore ..
  simp only [applyTx]
  generalize ({ s with index := s.index.recordTx idx row.2 row.1 } : ChainState) = t at start
  have charged : Apart t (Outcome.stateOf (t.chargeTx block idx row.1)) := by
    unfold chargeTx
    split
    · exact apartLedger t _
    · exact apartRefl t
  refine Outcome.stateOfBind _ (start.apart charged) (fun t' run => ?_)
  have paid : Recorded before (rows ++ [(row.1,idx,(row.2 : Int))]) t' := by
    rw [run] at charged
    exact start.apart charged
  refine Outcome.stateOfBind _ ?_ (fun t'' run => ?_)
  · rw [Outcome.stateOfWithin]
    exact ⟨(Index.applyTxCore ..).trans paid.index,paid.named,
      Staking.sameDrawn (Staking.applyTxPeriods ..).lastEpochDistributions paid.drawn⟩
  · obtain ⟨staking,applied,rfl⟩ := (Outcome.withinOk ..).mp run
    have same := (Staking.applyTxPeriods t'.staking row.1 idx).lastEpochDistributions
    rw [applied] at same
    rw [Outcome.stateOfWithin]
    exact ⟨(Index.applyTxCore ..).trans paid.index,Tokens.applyTxNamed paid.named ..,
      Staking.sameDrawn same paid.drawn⟩

end ChainState

namespace Blockchain
variable [Env]

structure Attempt (start : Blockchain) (rows : List Row) (t : Blockchain) : Prop where
  stored : t.backend.stored = start.backend.stored
  height : t.height = start.height
  latestBlock : t.latestBlock = start.latestBlock
  chainNonces : t.chainNonces = start.chainNonces
  genesisHash : t.genesisHash = start.genesisHash
  finalized : t.finalizedHeight = start.finalizedHeight
  snapshots : t.stateSnapshots = start.stateSnapshots
  pool : ∃ senders : List Address, t.pool = senders.foldl TxPool.purgeSender start.pool
  state : ChainState.Recorded start.state rows t.state

theorem attemptStart {s : Blockchain} (named : s.state.tokens.Named) (drawn : s.state.staking.Drawn) :
    Attempt s [] s :=
  ⟨rfl,rfl,rfl,rfl,rfl,rfl,rfl,⟨[],rfl⟩,⟨rfl,named,drawn⟩⟩

theorem Attempt.withState {start t : Blockchain} {rows rows' : List Row} {state : ChainState}
    (attempt : Attempt start rows t) (recorded : ChainState.Recorded start.state rows' state) :
    Attempt start rows' (t.withState state) :=
  { attempt with state := recorded }

theorem Attempt.mapStore {start t : Blockchain} {rows : List Row} (attempt : Attempt start rows t)
    (f : Store → Store) (kept : ∀ d, Store.Keeps d (f d)) : Attempt start rows (t.mapStore f) :=
  { attempt with stored := (Backend.storedMapStore f _ kept).trans attempt.stored }

theorem openBlockAttempt {start t : Blockchain} {rows : List Row} (attempt : Attempt start rows t)
    (idx : Int) : Attempt start rows (Outcome.stateOf (t.openBlock idx)) := by
  have opened := ChainState.openBlockApart t.state idx
  have reached : Attempt start rows (Outcome.stateOf (Outcome.within t.withState (t.state.openBlock idx))) := by
    rw [Outcome.stateOfWithin]
    exact attempt.withState (attempt.state.apart opened)
  simp only [openBlock]
  refine Outcome.stateOfBind _ reached (fun u run => ?_)
  rw [run] at reached
  simp only [Outcome.stateOf] at reached ⊢
  split
  · exact reached.mapStore _ (fun d => Store.keepsRefl d)
  · exact reached

theorem applyBlockTxAttempt {start : Blockchain} {p : Progress} {rows : List Row}
    (attempt : Attempt start rows p.chain) (block : Block) (idx : Int) (row : Transaction × Nat) :
    Attempt start (rows ++ [(row.1,idx,(row.2 : Int))])
      (Outcome.stateOf (applyBlockTx block idx p row)).chain := by
  have recorded := ChainState.applyTxRecorded attempt.state block idx row
  have reached : Attempt start (rows ++ [(row.1,idx,(row.2 : Int))])
      (Outcome.stateOf (Outcome.within (fun chain => { p with chain })
        (Outcome.within p.chain.withState (ChainState.applyTx block idx p.chain.state row)))).chain := by
    rw [Outcome.stateOfWithin,Outcome.stateOfWithin]
    exact attempt.withState recorded
  simp only [applyBlockTx]
  refine Outcome.stateOfBind (fun q : Progress => Attempt start _ q.chain) reached (fun q run => ?_)
  rw [run] at reached
  simp only [Outcome.stateOf] at reached ⊢
  have stored := reached.mapStore (Store.persistTx p.chain.state q.chain.state row.1)
    (Store.persistTxKeeps _ _ _)
  obtain ⟨senders,purged⟩ := stored.pool
  split
  · exact { stored with pool := ⟨senders ++ [row.1.sender],by rw [purged,List.foldl_append]; rfl⟩ }
  · exact { stored with pool := ⟨senders,purged⟩ }

theorem applyTxsAttempt {start t : Blockchain} (attempt : Attempt start [] t) (block : Block) (idx : Int) :
    ∃ n ≤ block.transactions.length,
      Attempt start ((Chronicle.blockRows block idx).take n) (Outcome.stateOf (t.applyTxs block idx)).chain ∧
        ∀ p, t.applyTxs block idx = .ok p → n = block.transactions.length := by
  have steps : ∀ i row p, block.transactions.zipIdx[i]? = some row →
      Attempt start ((Chronicle.blockRows block idx).take i) p.chain →
        Attempt start ((Chronicle.blockRows block idx).take (i + 1))
          (Outcome.stateOf (applyBlockTx block idx p row)).chain := by
    intro i row p found attempt
    have next : (Chronicle.blockRows block idx)[i]? = some (row.1,idx,(row.2 : Int)) := by
      rw [Chronicle.blockRows,List.getElem?_map,found]
      rfl
    rw [List.take_add_one,next]
    exact applyBlockTxAttempt attempt block idx row
  have first : Attempt start ((Chronicle.blockRows block idx).take 0)
      ({ chain := t } : Progress).chain := attempt
  obtain ⟨n,below,reached,whole⟩ := Outcome.foldStages
    (fun n (p : Progress) => Attempt start ((Chronicle.blockRows block idx).take n) p.chain) steps first
  rw [List.length_zipIdx] at below whole
  exact ⟨n,below,reached,whole⟩

structure Finished (start : Blockchain) (rows : List Row) (t : Blockchain) : Prop where
  stored : t.backend.stored = start.backend.stored
  height : t.height = start.height
  latestBlock : t.latestBlock = start.latestBlock
  chainNonces : t.chainNonces = start.chainNonces
  genesisHash : t.genesisHash = start.genesisHash
  finalized : start.finalizedHeight ≤ t.finalizedHeight ∧
    (t.finalizedHeight = start.finalizedHeight ∨ t.finalizedHeight ≤ start.height)
  snapshot : t.stateSnapshots[start.height]? = some t.trie.entries
  pool : ∃ senders : List Address, t.pool = senders.foldl TxPool.purgeSender start.pool
  index : ∃ x : Index, x.core =
      rows.foldl (fun x row => x.recordTx row.2.1 row.2.2 row.1) start.state.index.core ∧
    SameIndex x t.state.index ∧ ∀ chainList, start.backend = .memory chainList → t.state.index = x
  named : t.state.tokens.Named
  drawn : t.state.staking.Drawn

theorem pruneCachesShape (s : Blockchain) (idx : Int) :
    ∃ index log, s.pruneCaches idx = ({ s with log } : Blockchain).withState { s.state with
        index, staking := s.state.staking.pruneDistributions (pruneBefore idx) } ∧
      SameIndex s.state.index index ∧
      ∀ chainList, s.backend = .memory chainList → index = s.state.index := by
  simp only [pruneCaches]
  obtain ⟨index,pruned,same⟩ :=
    pruneTxIndexOk { s with log := s.log.pruneReceipts (pruneBefore idx) } idx
  refine ⟨index,s.log.pruneReceipts (pruneBefore idx),by rw [pruned]; rfl,same,?_⟩
  intro chainList memory
  have kept : ({ s with log := s.log.pruneReceipts (pruneBefore idx) } : Blockchain).pruneTxIndex idx =
      { s with log := s.log.pruneReceipts (pruneBefore idx) } := by
    unfold pruneTxIndex
    rw [memory]
  exact congrArg (fun u : Blockchain => u.state.index) (pruned.symm.trans kept)

omit [Env] in
theorem writtenShape (s : Blockchain) (block : Block) (idx : Int) (matured : List Address)
    (receipts : List Receipt) (events : List Event) :
    ∃ backend, (s.persistBalancesAfterBlock block idx matured).persistReceipts idx receipts events =
      { s with backend } ∧ backend.stored = s.backend.stored := by
  have written := (persistReceiptsKept (s.persistBalancesAfterBlock block idx matured) idx receipts
    events).stored.trans (persistBalancesKept s block idx matured).stored
  have shape : ∃ backend, (s.persistBalancesAfterBlock block idx matured).persistReceipts idx receipts
      events = { s with backend } := by
    unfold persistBalancesAfterBlock
    split
    · exact ⟨_,rfl⟩
    · exact ⟨_,rfl⟩
  obtain ⟨backend,shape⟩ := shape
  rw [shape] at written
  exact ⟨backend,shape,written⟩

theorem settleFinished {start s : Blockchain} {rows : List Row} (attempt : Attempt start rows s)
    (block : Block) (matured : List Address) (receipts : List Receipt) (events : List Event) :
    Finished start rows (s.settleBlock block start.height matured receipts events) := by
  obtain ⟨index,log,pruned,same,idle⟩ := pruneCachesShape (s.saveSnapshot start.height) start.height
  unfold settleBlock
  dsimp only
  rw [pruned]
  generalize shape : ({ s.saveSnapshot start.height with log } : Blockchain).withState _ = mid
  obtain ⟨backend,written,stored⟩ := writtenShape mid block start.height matured receipts events
  rw [written]
  obtain ⟨final,finality,up,bound⟩ := updateFinalityOk { mid with backend } start.height
  rw [finality]
  subst shape
  have lower : s.finalizedHeight ≤ final := up
  have upper : final = s.finalizedHeight ∨ final ≤ start.height := bound
  rw [attempt.finalized] at lower upper
  refine ⟨stored.trans attempt.stored,attempt.height,attempt.latestBlock,attempt.chainNonces,
    attempt.genesisHash,⟨lower,upper⟩,?_,attempt.pool,⟨s.state.index,attempt.state.index,same,?_⟩,
    attempt.state.named,Staking.pruneDrawn _ attempt.state.drawn⟩
  · have inside : pruneBefore start.height ≠ start.height := by
      have depth : 0 ≤ maxReorgDepth := by decide
      simp only [pruneBefore]
      omega
    simp only [saveSnapshot,StateTrie.snapshot,withState]
    split
    · simp [inside]
    · simp
  · intro chainList memory
    obtain ⟨list,here⟩ : ∃ list, s.backend = .memory list := by
      have kept := attempt.stored
      rw [memory] at kept
      cases found : s.backend with
      | memory list => exact ⟨list,rfl⟩
      | sqlite store => rw [found] at kept; cases kept
    exact idle list here

theorem closeBlockEnds {start : Blockchain} {p : Progress} {rows : List Row}
    (attempt : Attempt start rows p.chain) (block : Block) (matured : List Address)
    (opening : List Event) :
    Outcome.Ends (Finished start rows) (fun _ => Attempt start rows)
      (closeBlock p block start.height matured opening) := by
  have start' : Attempt start rows (addReceipts p start.height) := { attempt with }
  simp only [closeBlock]
  generalize addReceipts p start.height = s at start'
  refine Outcome.endsBind (Attempt start rows) ?_ (fun paid reached => ?_)
  · refine Outcome.endsSame ?_
    rw [Outcome.stateOfWithin]
    exact start'.withState (start'.state.apart (ChainState.payRewardApart ..))
  refine Outcome.endsBind (Attempt start rows) ?_ (fun checked reached => ?_)
  · refine Outcome.endsSame ?_
    simp only [checkReceiptsRoot]
    split <;> exact { reached with }
  refine Outcome.endsBind (Attempt start rows) ?_ (fun rooted reached => ?_)
  · refine Outcome.endsBind (Attempt start rows) ?_ (fun rebuilt reached => ?_)
    · refine Outcome.endsSame ?_
      rw [rebuildStateTrie,Outcome.stateOfWithin]
      exact { reached with }
    · refine Outcome.endsSame ?_
      simp only [compareStateRoot]
      split <;> exact { reached with }
  exact settleFinished reached block matured _ _

def advanced (s : Blockchain) (backend : Backend) (block : Block) : Blockchain :=
  ({ s with backend } : Blockchain).advanceTip block (s.height + 1)

theorem appendBlockInnerEnds {s : Blockchain} (named : s.state.tokens.Named)
    (drawn : s.state.staking.Drawn) (block : Block) :
    (∃ backend, backend.stored = extended s.backend.stored block ∧
      Outcome.Ends
        (Finished (s.advanced backend block) (Chronicle.blockRows block (s.height + 1)))
        (fun _ t => ∃ n, Attempt (s.advanced backend block)
          ((Chronicle.blockRows block (s.height + 1)).take n) t)
        (s.appendBlockInner block)) ∨
      s.appendBlockInner block = .error ⟨.integrityError,s⟩ := by
  cases stored : s.storeBlock block with
  | error r =>
    refine .inr ?_
    simp only [appendBlockInner,stored]
    unfold storeBlock at stored
    split at stored
    · contradiction
    · split at stored
      · contradiction
      · rename_i failed
        cases stored
        unfold Store.appendBlock at failed
        dsimp only at failed
        split at failed
        · cases failed; rfl
        · contradiction
  | ok t =>
    obtain ⟨backend,rfl,extension⟩ := storeBlockOk stored
    refine .inl ⟨backend,extension,?_⟩
    have arrived := attemptStart (s := s.advanced backend block) named drawn
    have opened := openBlockAttempt arrived (s.height + 1)
    simp only [appendBlockInner]
    rw [stored]
    change Outcome.Ends _ _ ((s.advanced backend block).openBlock (s.height + 1) >>= _)
    refine Outcome.endsBind (Attempt (s.advanced backend block) []) ?_ (fun t reached => ?_)
    · exact Outcome.endsMono (Outcome.endsSame opened) (fun _ h => h) (fun _ t h => ⟨0,h⟩)
    obtain ⟨n,-,recorded,whole⟩ := applyTxsAttempt reached block (s.height + 1)
    split
    · rename_i r broken
      rw [broken] at recorded
      exact ⟨n,recorded⟩
    · rename_i p run
      rw [run] at recorded
      have all : (Chronicle.blockRows block (s.height + 1)).take n =
          Chronicle.blockRows block (s.height + 1) := by
        refine List.take_of_length_le ?_
        simp [Chronicle.blockRows,whole p run]
      simp only [Outcome.stateOf] at recorded
      refine Outcome.endsMono (closeBlockEnds recorded block _ _) (fun _ h => ?_)
        (fun _ t h => ⟨n,h⟩)
      exact all ▸ h

end Blockchain

end QbitNetwork
