import QbitNetwork.TokenLaws

/-! The holder indices of tokens and the steps that keep them exact. -/
namespace QbitNetwork

namespace Tokens

structure Exact (t : Tokens) : Prop where
  holders : ∀ tid address, Groups.Member t.holdersByToken tid address ↔ (tid,address) ∈ t.balances
  owned : ∀ tid address, Groups.Member t.tokensByAddress address tid ↔ (tid,address) ∈ t.balances
  positive : t.Positive
  fullHolders : Groups.Full t.holdersByToken
  fullOwned : Groups.Full t.tokensByAddress

def Moves (tx : Transaction) : Prop :=
  (tx.txType = .MINT_TOKEN → ∀ amount, tx.payload.amount = some amount → 0 < amount) ∧
    (tx.txType = .TRANSFER_TOKEN → 0 < tx.payload.amount.getD 0)

theorem exactEmpty : Exact {} := by
  refine ⟨fun tid address => ?_,fun tid address => ?_,?_,Groups.fullEmpty,Groups.fullEmpty⟩
  · simp [Groups.Member]
  · simp [Groups.Member]
  · simp [Positive]

theorem Exact.same {t u : Tokens} (precise : t.Exact) (balances : u.balances = t.balances)
    (holders : u.holdersByToken = t.holdersByToken) (owned : u.tokensByAddress = t.tokensByAddress) :
    u.Exact := by
  obtain ⟨registry,_,bySymbol,_,_⟩ := u
  cases balances
  cases holders
  cases owned
  exact ⟨precise.holders,precise.owned,precise.positive,precise.fullHolders,precise.fullOwned⟩

theorem exactSet {t : Tokens} (precise : t.Exact) (tid : TokenId) (address : Address) {amount : Int}
    (more : 0 < amount) : (t.setTokenBalance tid address amount).Exact := by
  have positive := positiveSet precise.positive tid address more
  rw [setTokenBalance,updateTokenIndex,if_pos more] at positive ⊢
  refine ⟨fun other holder => ?_,fun other holder => ?_,positive,Groups.fullAdd precise.fullHolders tid address,
    Groups.fullAdd precise.fullOwned address tid⟩
  · rw [Groups.memberAdd,precise.holders,Dict.memInsert,Prod.mk.injEq]
  · rw [Groups.memberAdd,precise.owned,Dict.memInsert,Prod.mk.injEq,and_comm]

theorem exactSettle {t : Tokens} (precise : t.Exact) (tid : TokenId) (address : Address) (amount : Int) :
    (t.settleTokenBalance tid address amount).Exact := by
  by_cases left : 0 < amount
  · rw [settleTokenBalance,if_neg (by omega)]
    exact exactSet precise tid address left
  · have positive := positiveSettle precise.positive tid address amount
    rw [settleTokenBalance,if_pos (by omega),updateTokenIndex,if_neg (by decide)] at positive ⊢
    refine ⟨fun other holder => ?_,fun other holder => ?_,positive,Groups.fullDrop precise.fullHolders tid address,
      Groups.fullDrop precise.fullOwned address tid⟩
    · rw [Groups.memberDrop,precise.holders,Dict.memErase,Ne,Prod.mk.injEq]
    · rw [Groups.memberDrop,precise.owned,Dict.memErase,Ne,Prod.mk.injEq,and_comm (a := holder = address)]

variable [Env]

theorem applyTxError {t : Tokens} {tx : Transaction} {idx : Int} {r : Fault Tokens}
    (run : t.applyTx tx idx = .error r) : r.state = t := by
  have missing : ∀ {α : Type} {key : String} {value : Option α} (r : Fault Tokens),
      t.required key value = .error r → r.state = t := fun r run => requiredError run
  have rejected : ∀ {message : String} {r : Fault Tokens}, t.reject message = .error r → r.state = t := by
    intro message r run
    cases run
    rfl
  unfold applyTx at run
  split at run
  · contradiction
  · split at run
    · refine Outcome.bindRaises missing (fun symbol r run => ?_) run
      split at run
      · exact rejected run
      · dsimp only at run
        split at run
        · exact rejected run
        · refine Outcome.bindRaises missing (fun name r run => ?_) run
          exact Outcome.bindRaises missing (fun decimals r run => by contradiction) run
    · refine Outcome.bindRaises missing (fun tid r run => ?_) run
      split at run
      · exact rejected run
      · split at run
        · exact rejected run
        · refine Outcome.bindRaises missing (fun amount r run => ?_) run
          split at run
          · exact rejected run
          · split at run
            · exact rejected run
            · contradiction
    · refine Outcome.bindRaises missing (fun tid r run => ?_) run
      split at run
      · exact rejected run
      · split at run
        · exact rejected run
        · refine Outcome.bindRaises missing (fun amount r run => ?_) run
          dsimp only at run
          split at run
          · exact rejected run
          · contradiction
    · contradiction

theorem exactApply {t : Tokens} {tx : Transaction} {idx : Int} (precise : t.Exact) (moves : Moves tx) :
    (Outcome.stateOf (t.applyTx tx idx)).Exact := by
  cases run : t.applyTx tx idx with
  | error r =>
    show r.state.Exact
    rw [applyTxError run]
    exact precise
  | ok t' =>
    show t'.Exact
    unfold applyTx at run
    split at run
    · cases run
      exact precise
    · split at run
      · obtain ⟨symbol,reg,-,-,-,rfl,-⟩ := issueTokenOk run
        exact precise.same rfl rfl rfl
      · rename_i kind
        obtain ⟨tid,reg,amount,-,-,-,given,-,-,rfl⟩ := mintTokenOk run
        have mine := balanceNonneg precise.positive tid tx.recipient
        have more := moves.1 kind amount given
        refine exactSet ?_ tid tx.recipient ?_
        · exact precise.same rfl rfl rfl
        · omega
      · rename_i kind
        obtain ⟨tid,reg,amount,-,-,given,enough,rfl⟩ := transferTokenOk run
        have more := moves.2 kind
        rw [given,Option.getD_some] at more
        have settled := exactSettle precise tid tx.sender (t.getTokenBalance tid tx.sender - amount)
        have mine := balanceNonneg settled.positive tid tx.recipient
        exact exactSet settled tid tx.recipient (by omega)
      · cases run
        exact precise

theorem exactUndo {t : Tokens} {tx : Transaction} (precise : t.Exact) (moves : Moves tx) :
    (t.undoTx tx).Exact := by
  unfold undoTx
  split
  · simp only [undoIssueToken]
    generalize tokenIdOf tx.sender (tx.payload.symbol.getD "") tx.nonce = tid
    generalize (t.balances.keys.filter _).map Prod.snd = held
    have start : ({ t with
        registry := t.registry.erase tid
        bySymbol := t.bySymbol.erase (tx.payload.symbol.getD "") } : Tokens).Exact :=
      precise.same rfl rfl rfl
    generalize ({ t with
        registry := t.registry.erase tid
        bySymbol := t.bySymbol.erase (tx.payload.symbol.getD "") } : Tokens) = left at start
    induction held generalizing left with
    | nil => exact start
    | cons holder rest ih => exact ih _ (exactSettle start tid holder 0)
  · simp only [undoMintToken]
    refine exactSettle ?_ _ _ _
    split
    · exact precise.same rfl rfl rfl
    · exact precise
  · rename_i kind
    have settled := exactSettle precise (tx.payload.tokenId.getD "") tx.recipient
      (t.getTokenBalance (tx.payload.tokenId.getD "") tx.recipient - tx.payload.amount.getD 0)
    have mine := balanceNonneg settled.positive (tx.payload.tokenId.getD "") tx.sender
    have more := moves.2 kind
    exact exactSet settled _ _ (by omega)
  · exact precise

end Tokens

end QbitNetwork
