import QbitNetwork.ConsensusLaws
import QbitNetwork.TokenLaws

/-! The token supply over accepted blocks. -/
namespace QbitNetwork

namespace ChainState
variable [Env]

theorem applyTxTokens {block : Block} {idx : Int} {s s' : ChainState} {row : Transaction × Nat}
    (run : applyTx block idx s row = .ok s') : s.tokens.applyTx row.1 idx = .ok s'.tokens := by
  simp only [applyTx,Outcome.bindOk,Outcome.withinOk] at run
  obtain ⟨mid,charged,_,⟨staking,-,rfl⟩,tokens,applied,rfl⟩ := run
  have same : mid.tokens = s.tokens := by
    unfold chargeTx at charged
    split at charged
    · simp only [Outcome.withinOk] at charged
      obtain ⟨ledger,-,rfl⟩ := charged
      rfl
    · cases charged
      rfl
  rw [← same]
  exact applied

theorem applyBlockTokens {block : Block} {idx : Int} {s s' : ChainState}
    (run : s.applyBlock block idx = .ok s') :
    block.transactions.foldlM (fun t tx => Tokens.applyTx t tx idx) s.tokens = .ok s'.tokens := by
  simp only [applyBlock,Outcome.bindOk] at run
  obtain ⟨opened,opening,looped,loop,reward⟩ := run
  have first : opened.tokens = s.tokens := by
    have apart := openBlockApart s idx
    rw [opening] at apart
    exact apart.tokens
  have last : s'.tokens = looped.tokens := by
    have apart := payRewardApart looped block idx
    rw [reward] at apart
    exact apart.tokens
  have rows := Outcome.foldProjects ChainState.tokens
    (fun t (row : Transaction × Nat) => Tokens.applyTx t row.1 idx)
    (fun _ _ _ step => applyTxTokens step) loop
  have same : ∀ (rows : List (Transaction × Nat)) (t : Tokens),
      rows.foldlM (fun t row => Tokens.applyTx t row.1 idx) t =
        (rows.map Prod.fst).foldlM (fun t tx => Tokens.applyTx t tx idx) t := by
    intro rows t
    rw [List.foldlM_map]
  rw [last,← first,← rows,same,List.zipIdx_map_fst]

end ChainState

namespace Tokens
variable [Env]

theorem lawfulFold {idx : Int} {txs : List Transaction} {t t' : Tokens} (lawful : t.Lawful)
    (positive : ∀ tx ∈ txs, PositiveAmount tx)
    (run : txs.foldlM (fun t tx => Tokens.applyTx t tx idx) t = .ok t') : t'.Lawful :=
  Outcome.foldInvariantMem Lawful
    (fun _ tx inside _ kept step => lawfulApply kept (positive tx inside) step) lawful run

theorem foldMints {idx : Int} (nonneg : 0 ≤ idx) {txs : List Transaction} {t t' : Tokens}
    (run : txs.foldlM (fun t tx => Tokens.applyTx t tx idx) t = .ok t') :
    (∀ tid, t'.totalMinted tid = t.totalMinted tid + (txs.map (fun tx => mints tx tid)).sum) ∧
      (∀ (tid : TokenId) (reg : TokenMeta), t.registry[tid]? = some reg →
        ∃ reg' : TokenMeta, t'.registry[tid]? = some reg' ∧
          reg' = { reg with totalMinted := reg'.totalMinted }) ∧
      (∀ tx ∈ txs, tx.txType = .MINT_TOKEN → ∃ (tid : TokenId) (reg : TokenMeta),
        tx.payload.tokenId = some tid ∧ t'.registry[tid]? = some reg ∧ reg.issuer = tx.sender) := by
  induction txs generalizing t with
  | nil =>
    cases run
    exact ⟨fun tid => by simp,fun tid reg found => ⟨reg,found,rfl⟩,by simp⟩
  | cons tx rest ih =>
    rw [List.foldlM_cons,Outcome.bindOk] at run
    obtain ⟨mid,first,later⟩ := run
    obtain ⟨moved,kept,own⟩ := applyTxMints nonneg first
    obtain ⟨moved',kept',own'⟩ := ih later
    refine ⟨fun tid => ?_,fun tid reg found => ?_,fun other inside mint => ?_⟩
    · rw [moved' tid,moved tid,List.map_cons,List.sum_cons]
      omega
    · obtain ⟨reg1,found1,same1⟩ := kept tid reg found
      obtain ⟨reg2,found2,same2⟩ := kept' tid reg1 found1
      exact ⟨reg2,found2,by rw [same2,same1]⟩
    · rcases List.mem_cons.mp inside with rfl | inside
      · obtain ⟨tid,reg,named,found,issuer⟩ := own mint
        obtain ⟨reg1,found1,same1⟩ := kept tid reg found
        obtain ⟨reg2,found2,same2⟩ := kept' tid reg1 found1
        exact ⟨tid,reg2,named,found2,by rw [same2,same1]; exact issuer⟩
      · exact own' other inside mint

omit [Env] in
theorem lawfulEmpty : Lawful {} := by
  refine ⟨?_,?_,?_,?_,?_,?_⟩ <;> simp [Positive]

omit [Env] in
theorem parsedPositive {tx : Transaction} (parsed : tx.amountsParse = true) : PositiveAmount tx := by
  intro kind amount given
  simp only [Transaction.amountsParse,Bool.and_eq_true,Bool.or_eq_true,given,Option.all_some] at parsed
  have listed : tx.txType ∈ [TxType.TRANSFER,.STAKE,.DELEGATE,.UNSTAKE,.MINT_TOKEN,.TRANSFER_TOKEN] := by
    rcases kind with kind | kind <;> simp [kind]
  rcases parsed.1.1 with other | positive
  · simp [listed] at other
  · simpa using (by simpa using positive : 0 < amount ∧ _).1

theorem validPositive {tx : Transaction} (valid : tx.validatePayload = .ok ()) : PositiveAmount tx := by
  intro kind amount given
  have checked := (validatePayloadOk valid).2.2
  unfold typeCheck at checked
  have positive : ∃ amount, tx.payload.amount = some amount ∧ 0 < amount := by
    rcases kind with kind | kind
    · simp only [kind,mintTokenCheck,Outcome.bindOk] at checked
      obtain ⟨_,-,_,positive,-⟩ := checked
      exact positiveAmountCheckOk positive
    · simp only [kind,transferTokenCheck,Outcome.bindOk] at checked
      obtain ⟨_,-,_,positive,-⟩ := checked
      exact positiveAmountCheckOk positive
  obtain ⟨_,found,more⟩ := positive
  rw [given] at found
  cases found
  exact more

end Tokens

namespace Blockchain
variable [Env]

/- A genesis block from outside has gone through `from_dict`; no later check reads it. -/
def GenesisParses (_ : Blockchain) (block : Block) : Prop :=
  block.index = 0 → ∀ tx ∈ block.transactions, tx.amountsParse = true

theorem acceptedPositive {s s' : Blockchain} {block : Block} (step : Accepts s block s')
    (parses : GenesisParses s block) : ∀ tx ∈ block.transactions, Tokens.PositiveAmount tx := by
  obtain ⟨c,grown⟩ := acceptsGrown step
  intro tx inside
  by_cases first : block.index = 0
  · exact Tokens.parsedPositive (parses first tx inside)
  · exact Tokens.validPositive (transactionsCheckMem (grown.checked first) tx inside).payload

theorem initChainTokens {s s' : Blockchain} {address : Address} {sk pk : Bytes} {now : Int}
    (run : s.initChain address sk pk now = .ok s') : s'.state.tokens = s.state.tokens := by
  by_cases fresh : s.height < 0
  · obtain ⟨key,_,t,staked,_,_,_,-,rfl,appended,rfl,-,rfl⟩ := initChainOk fresh run
    obtain ⟨c,grown⟩ := appendInnerOk appended
    have staked : (if pk.isEmpty then t else t.autoStake address).state.tokens = t.state.tokens := by
      split <;> rfl
    show (if pk.isEmpty then t else t.autoStake address).state.tokens = s.state.tokens
    rw [staked,grown.tokens]
    refine Outcome.foldInvariantMem (fun t => t = s.state.tokens) ?_ rfl (ChainState.applyBlockTokens grown.applied)
    intro t tx inside t' same step
    have registration : tx.txType = .REGISTER_VALIDATOR := by
      simp only [Block.signTransactions,Block.genesis] at inside
      split at inside
      · cases inside
      · cases List.mem_singleton.mp inside
        rfl
    simp only [Tokens.applyTx,registration,ite_self] at step
    cases step
    exact same
  · unfold initChain at run
    rw [if_pos (by omega)] at run
    cases run
    rfl

theorem acceptsLawful {s s' : Blockchain} {block : Block} (lawful : s.state.tokens.Lawful)
    (step : Accepts s block s') (parses : GenesisParses s block) : s'.state.tokens.Lawful := by
  obtain ⟨c,grown⟩ := acceptsGrown step
  rw [grown.tokens]
  exact Tokens.lawfulFold lawful (acceptedPositive step parses)
    (ChainState.applyBlockTokens grown.applied)

theorem builtLawful {s : Blockchain} (built : BuiltBy GenesisParses s) : s.state.tokens.Lawful := by
  induction built with
  | memory => exact Tokens.lawfulEmpty
  | sqlite => exact Tokens.lawfulEmpty
  | initChain address sk pk now prior run ih => rw [initChainTokens run]; exact ih
  | activate address prior run ih =>
    obtain ⟨-,-,-,-,-,-,-,tokens,-⟩ := activateKeeps run
    rw [tokens]
    exact ih
  | submit now tx prior ih => rw [submitState]; exact ih
  | accept block prior step met ih => exact acceptsLawful ih step met

theorem tokenSupplyLaw {s : Blockchain} (built : BuiltBy GenesisParses s) :
    s.state.tokens.Lawful ∧ ∀ block s', Accepts s block s' →
      (∀ tid, s'.state.tokens.totalMinted tid =
        s.state.tokens.totalMinted tid + (block.transactions.map (fun tx => Tokens.mints tx tid)).sum) ∧
      ∀ tx ∈ block.transactions, tx.txType = .MINT_TOKEN → ∃ (tid : TokenId) (reg : TokenMeta),
        tx.payload.tokenId = some tid ∧ s'.state.tokens.registry[tid]? = some reg ∧
          reg.issuer = tx.sender := by
  refine ⟨builtLawful built,fun block s' step => ?_⟩
  obtain ⟨c,grown⟩ := acceptsGrown step
  have height : 0 ≤ s.height + 1 := by
    have := (builtCoherent built.built).bounded
    omega
  obtain ⟨moved,-,own⟩ := Tokens.foldMints height (ChainState.applyBlockTokens grown.applied)
  rw [grown.tokens]
  exact ⟨moved,own⟩

end Blockchain

end QbitNetwork

namespace QbitNetwork.Devnet
attribute [local instance] legacy
open Blockchain

def issue : Transaction :=
  Transaction.sign
    { txType := .ISSUE_TOKEN
      sender := address
      payload := { name := some "Gold", symbol := some "GLD", decimals := some 2 }
      timestamp := 101 } key key

def gold : TokenId := Tokens.tokenIdOf address "GLD" 0

def mint (amount nonce : Int) : Transaction :=
  Transaction.sign
    { txType := .MINT_TOKEN
      sender := address
      payload := { tokenId := some gold, amount := some amount }
      recipient := address
      timestamp := 103
      nonce } key key

def issuing : Blockchain := (active.submitTx 101 issue).2

def issued : Blockchain := (issuing.produceBlock address key 102 102).2

def minting : Blockchain := (issued.submitTx 103 (mint 5 1)).2

def minted : Blockchain := (minting.produceBlock address key 104 104).2

theorem issuedAnswer : (issuing.produceBlock address key 102 102).1 = .accepted ∧
    issued.latestBlock.isSome = true ∧ issued.tipBlock.index = 1 := by decide +kernel

theorem mintedAnswer : (minting.produceBlock address key 104 104).1 = .accepted ∧
    minted.latestBlock.isSome = true ∧ minted.tipBlock.transactions = [mint 5 1] := by decide +kernel

theorem issuingBuilt : BuiltBy GenesisParses issuing := by
  rw [issuing]
  exact .submit 101 issue
    (.activate address (.initChain address key key 100 .memory genesisRuns) activeRuns)

theorem mintingBuilt : BuiltBy GenesisParses minting := by
  obtain ⟨answer,made,position⟩ := issuedAnswer
  have step : Accepts issuing issued.tipBlock issued := producedAccepts (by rw [issued]) answer made
  have parses : GenesisParses issuing issued.tipBlock := fun first =>
    absurd (position.symm.trans first) (by decide)
  rw [minting]
  exact .submit 103 (mint 5 1) (.accept issued.tipBlock issuingBuilt step parses)

theorem tokenSupplyMinted :
    minting.state.tokens.Lawful ∧
      minted.state.tokens.totalMinted gold = minting.state.tokens.totalMinted gold + 5 := by
  obtain ⟨lawful,law⟩ := tokenSupplyLaw mintingBuilt
  obtain ⟨answer,made,transactions⟩ := mintedAnswer
  obtain ⟨moved,-⟩ := law minted.tipBlock minted (producedAccepts (by rw [minted]) answer made)
  refine ⟨lawful,?_⟩
  rw [moved gold,transactions]
  simp [Tokens.mints,mint,Transaction.sign]

end QbitNetwork.Devnet
