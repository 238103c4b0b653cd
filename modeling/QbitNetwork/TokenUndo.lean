import QbitNetwork.Lib.Clamped
import QbitNetwork.RollbackLaws
import QbitNetwork.TokenHolders
import Mathlib.Algebra.Order.BigOperators.Group.List

/-! The undo of a block's token transactions, from the first to the last: where it leads back to
the tokens before the block. -/
namespace QbitNetwork

open Clamped

namespace Tokens

def entries (tx : Transaction) : List ((TokenId × Address) × Int) :=
  let tid := tx.payload.tokenId.getD ""
  let amount := tx.payload.amount.getD 0
  match tx.txType with
  | .MINT_TOKEN => [((tid,tx.recipient),amount)]
  | .TRANSFER_TOKEN => [((tid,tx.recipient),amount),((tid,tx.sender),-amount)]
  | _ => []

def mintSteps (tid : TokenId) (txs : List Transaction) : List Int :=
  (txs.filter (fun tx => tx.txType = .MINT_TOKEN ∧ tx.payload.tokenId.getD "" = tid)).map
    (fun tx => -tx.payload.amount.getD 0)

structure SameTokens (t u : Tokens) : Prop where
  registry : u.registry = t.registry
  bySymbol : u.bySymbol = t.bySymbol
  balance : ∀ tid address, u.getTokenBalance tid address = t.getTokenBalance tid address

section Balance
variable (t : Tokens)

theorem balanceSet (tid : TokenId) (address : Address) (amount : Int) (key : TokenId × Address) :
    (t.setTokenBalance tid address amount).getTokenBalance key.1 key.2 =
      if (tid,address) = key then amount else t.getTokenBalance key.1 key.2 := by
  rw [getTokenBalance,(setTables ..).2.2,Std.ExtTreeMap.getD_insert]
  simp only [Std.compare_eq_iff_eq,Prod.mk.eta]
  rfl

theorem balanceSettle (tid : TokenId) (address : Address) (amount : Int) (key : TokenId × Address) :
    (t.settleTokenBalance tid address amount).getTokenBalance key.1 key.2 =
      if (tid,address) = key then max 0 amount else t.getTokenBalance key.1 key.2 := by
  by_cases low : amount ≤ 0
  · rw [getTokenBalance,(settleTables ..).2.2,if_pos low,Std.ExtTreeMap.getD_erase,Int.max_eq_left low]
    simp only [Std.compare_eq_iff_eq,Prod.mk.eta]
    rfl
  · rw [settleTokenBalance,if_neg low,balanceSet,Int.max_eq_right (by omega)]

end Balance

variable [Env]

def Issues (tx : Transaction) (tid : TokenId) : Prop :=
  tx.txType = .ISSUE_TOKEN ∧ tokenIdOf tx.sender (tx.payload.symbol.getD "") tx.nonce = tid

def Names (tx : Transaction) (symbol : String) : Prop :=
  tx.txType = .ISSUE_TOKEN ∧ tx.payload.symbol.getD "" = symbol

instance (tx : Transaction) (tid : TokenId) : Decidable (Issues tx tid) := by unfold Issues; infer_instance

instance (tx : Transaction) (symbol : String) : Decidable (Names tx symbol) := by unfold Names; infer_instance

section UndoStep
variable {t : Tokens} {tx : Transaction}

omit [Env] in
theorem strikeAll (tid : TokenId) (holders : List Address) (t : Tokens) :
    (holders.foldl (fun t address => t.settleTokenBalance tid address 0) t).registry = t.registry ∧
      (holders.foldl (fun t address => t.settleTokenBalance tid address 0) t).bySymbol = t.bySymbol ∧
      ∀ key : TokenId × Address,
        (holders.foldl (fun t address => t.settleTokenBalance tid address 0) t).getTokenBalance key.1 key.2 =
          if key.1 = tid ∧ key.2 ∈ holders then 0 else t.getTokenBalance key.1 key.2 := by
  induction holders generalizing t with
  | nil => exact ⟨rfl,rfl,fun key => by simp⟩
  | cons holder rest ih =>
    obtain ⟨registry,symbols,balance⟩ := ih (t.settleTokenBalance tid holder 0)
    obtain ⟨registry',symbols',-⟩ := settleTables t tid holder 0
    refine ⟨registry.trans registry',symbols.trans symbols',fun key => ?_⟩
    rw [List.foldl_cons,balance,balanceSettle]
    by_cases own : (tid,holder) = key
    · subst own
      simp
    · by_cases token : key.1 = tid
      · have other : key.2 ≠ holder := fun same => own (by rw [← token,← same])
        simp [token,other,own]
      · simp [token,own]

theorem undoIssueTells (t : Tokens) (tx : Transaction) :
    (t.undoIssueToken tx).registry = t.registry.erase (tokenIdOf tx.sender (tx.payload.symbol.getD "") tx.nonce) ∧
      (t.undoIssueToken tx).bySymbol = t.bySymbol.erase (tx.payload.symbol.getD "") ∧
      ∀ key : TokenId × Address, (t.undoIssueToken tx).getTokenBalance key.1 key.2 =
        if tokenIdOf tx.sender (tx.payload.symbol.getD "") tx.nonce = key.1 then 0
        else t.getTokenBalance key.1 key.2 := by
  unfold undoIssueToken
  dsimp only
  generalize tokenIdOf tx.sender (tx.payload.symbol.getD "") tx.nonce = tid
  obtain ⟨registry,symbols,balance⟩ := strikeAll tid ((t.balances.keys.filter (fun key => key.1 = tid)).map Prod.snd)
    { t with registry := t.registry.erase tid, bySymbol := t.bySymbol.erase (tx.payload.symbol.getD "") }
  refine ⟨registry,symbols,fun key => ?_⟩
  rw [balance]
  by_cases token : tid = key.1
  · subst token
    rw [if_pos rfl]
    split
    · rfl
    · rename_i absent
      have gone : key ∉ t.balances := by
        intro held
        refine absent ⟨rfl,List.mem_map.mpr ⟨key,List.mem_filter.mpr ⟨?_,decide_eq_true rfl⟩,rfl⟩⟩
        exact Std.ExtTreeMap.mem_keys.mpr held
      show t.balances.getD key 0 = 0
      exact Std.ExtTreeMap.getD_eq_fallback gone
  · rw [if_neg token,if_neg (fun both => token both.1.symm)]
    rfl

theorem undoTxBalance (moves : Moves tx) (held : ∀ key : TokenId × Address, 0 ≤ t.getTokenBalance key.1 key.2)
    (key : TokenId × Address) : (t.undoTx tx).getTokenBalance key.1 key.2 =
      if Issues tx key.1 then 0 else settle (t.getTokenBalance key.1 key.2) (backSteps key (entries tx)) := by
  have mine := held key
  unfold undoTx
  cases kind : tx.txType
  case ISSUE_TOKEN =>
    simp only [Issues,entries,kind,true_and]
    exact (undoIssueTells t tx).2.2 key
  case MINT_TOKEN =>
    rw [if_neg (fun issued => by rw [Issues,kind] at issued; cases issued.1)]
    simp only [entries,kind,undoMintToken]
    have kept : ∀ (u : Tokens), u.balances = t.balances →
        (u.settleTokenBalance (tx.payload.tokenId.getD "") tx.recipient
          (u.getTokenBalance (tx.payload.tokenId.getD "") tx.recipient - tx.payload.amount.getD 0)).getTokenBalance
            key.1 key.2 = settle (t.getTokenBalance key.1 key.2)
          (backSteps key [((tx.payload.tokenId.getD "",tx.recipient),tx.payload.amount.getD 0)]) := by
      intro u same
      have balance : ∀ tid address, u.getTokenBalance tid address = t.getTokenBalance tid address := by
        intro tid address
        rw [getTokenBalance,same,getTokenBalance]
      rw [balanceSettle,balance,balance]
      simp only [backSteps,settle,List.map_cons,List.map_nil,List.foldl_cons,List.foldl_nil]
      split
      · rename_i own
        subst own
        rfl
      · rw [Int.add_zero,Int.max_eq_right mine]
    split
    · exact kept _ rfl
    · exact kept t rfl
  case TRANSFER_TOKEN =>
    have positive := moves.2 kind
    rw [if_neg (fun issued => by rw [Issues,kind] at issued; cases issued.1)]
    simp only [entries,kind,undoTransferToken]
    generalize tx.payload.tokenId.getD "" = tid
    generalize tx.payload.amount.getD 0 = amount at positive
    have first := balanceSettle t tid tx.recipient (t.getTokenBalance tid tx.recipient - amount)
    have debited : (t.settleTokenBalance tid tx.recipient
        (t.getTokenBalance tid tx.recipient - amount)).getTokenBalance key.1 key.2 =
          max 0 (t.getTokenBalance key.1 key.2 + if (tid,tx.recipient) = key then -amount else 0) := by
      rw [first]
      split
      · rename_i own
        subst own
        rfl
      · rw [Int.add_zero,Int.max_eq_right mine]
    rw [balanceSet]
    simp only [backSteps,settle,List.map_cons,List.map_nil,List.foldl_cons,List.foldl_nil,Int.neg_neg]
    rw [← debited]
    have left : 0 ≤ (t.settleTokenBalance tid tx.recipient
        (t.getTokenBalance tid tx.recipient - amount)).getTokenBalance key.1 key.2 := by
      rw [debited]
      exact Int.le_max_left ..
    split
    · rename_i own
      subst own
      dsimp only at left ⊢
      exact (Int.max_eq_right (by omega)).symm
    · rw [Int.add_zero,Int.max_eq_right left]
  all_goals
    rw [if_neg (fun issued => by rw [Issues,kind] at issued; cases issued.1)]
    simp only [entries,kind]
    rfl

theorem undoTxRegistry (t : Tokens) (tx : Transaction) (tid : TokenId) : (t.undoTx tx).registry[tid]? =
    if Issues tx tid then none
    else (t.registry[tid]?).map (fun reg => { reg with totalMinted := settle reg.totalMinted (mintSteps tid [tx]) }) := by
  unfold undoTx
  cases kind : tx.txType
  case ISSUE_TOKEN =>
    simp only [Issues,kind,true_and]
    rw [(undoIssueTells t tx).1,Std.ExtTreeMap.getElem?_erase]
    simp only [Std.compare_eq_iff_eq]
    split
    · rfl
    · simp [mintSteps,kind,settle]
  case MINT_TOKEN =>
    rw [if_neg (fun issued => by rw [Issues,kind] at issued; cases issued.1)]
    simp only [undoMintToken,(settleTables ..).1]
    by_cases own : tx.payload.tokenId.getD "" = tid
    · subst own
      have steps : mintSteps (tx.payload.tokenId.getD "") [tx] = [-tx.payload.amount.getD 0] := by
        simp [mintSteps,kind]
      rw [steps]
      split
      · rename_i reg found
        rw [Std.ExtTreeMap.getElem?_insert_self,found]
        rfl
      · rename_i absent
        rw [absent]
        rfl
    · have steps : mintSteps tid [tx] = [] := by simp [mintSteps,own]
      rw [steps]
      split
      · rename_i reg found
        rw [Std.ExtTreeMap.getElem?_insert,if_neg (by rw [Std.compare_eq_iff_eq]; exact own)]
        simp [settle]
      · simp [settle]
  case TRANSFER_TOKEN =>
    rw [if_neg (fun issued => by rw [Issues,kind] at issued; cases issued.1)]
    simp only [undoTransferToken,(settleTables ..).1,(setTables ..).1]
    simp [mintSteps,kind,settle]
  all_goals
    rw [if_neg (fun issued => by rw [Issues,kind] at issued; cases issued.1)]
    simp [mintSteps,kind,settle]

theorem undoTxSymbol (t : Tokens) (tx : Transaction) (symbol : String) : (t.undoTx tx).bySymbol[symbol]? =
    if Names tx symbol then none else t.bySymbol[symbol]? := by
  unfold undoTx
  cases kind : tx.txType
  case ISSUE_TOKEN =>
    simp only [Names,kind,true_and]
    rw [(undoIssueTells t tx).2.1,Std.ExtTreeMap.getElem?_erase]
    simp only [Std.compare_eq_iff_eq]
  case MINT_TOKEN =>
    rw [if_neg (fun issued => by rw [Names,kind] at issued; cases issued.1)]
    simp only [undoMintToken,(settleTables ..).2.1]
    split <;> rfl
  case TRANSFER_TOKEN =>
    rw [if_neg (fun issued => by rw [Names,kind] at issued; cases issued.1)]
    simp only [undoTransferToken,(settleTables ..).2.1,(setTables ..).2.1]
  all_goals rw [if_neg (fun issued => by rw [Names,kind] at issued; cases issued.1)]

end UndoStep

section UndoRun

theorem undoTxHeld {t : Tokens} {tx : Transaction} (moves : Moves tx)
    (held : ∀ key : TokenId × Address, 0 ≤ t.getTokenBalance key.1 key.2) (key : TokenId × Address) :
    0 ≤ (t.undoTx tx).getTokenBalance key.1 key.2 := by
  rw [undoTxBalance moves held]
  split
  · exact le_rfl
  · exact settleNonneg (held key) _

theorem undoTxsHeld {txs : List Transaction} (moves : ∀ tx ∈ txs, Moves tx) {t : Tokens}
    (held : ∀ key : TokenId × Address, 0 ≤ t.getTokenBalance key.1 key.2) (key : TokenId × Address) :
    0 ≤ (txs.foldl undoTx t).getTokenBalance key.1 key.2 := by
  induction txs generalizing t with
  | nil => exact held key
  | cons tx rest ih =>
    exact ih (fun other inside => moves other (List.mem_cons_of_mem _ inside))
      (undoTxHeld (moves tx (List.mem_cons_self ..)) held)

theorem undoTxsBalance {txs : List Transaction} (moves : ∀ tx ∈ txs, Moves tx) {t : Tokens}
    (held : ∀ key : TokenId × Address, 0 ≤ t.getTokenBalance key.1 key.2) {key : TokenId × Address}
    (older : ∀ tx ∈ txs, ¬Issues tx key.1) : (txs.foldl undoTx t).getTokenBalance key.1 key.2 =
      settle (t.getTokenBalance key.1 key.2) (backSteps key (txs.flatMap entries)) := by
  induction txs generalizing t with
  | nil => rfl
  | cons tx rest ih =>
    have first := moves tx (List.mem_cons_self ..)
    have step := undoTxBalance first held key
    rw [if_neg (older tx (List.mem_cons_self ..))] at step
    rw [List.foldl_cons,ih (fun other inside => moves other (List.mem_cons_of_mem _ inside)) (undoTxHeld first held)
      (fun other inside => older other (List.mem_cons_of_mem _ inside)),step,List.flatMap_cons,backAppend,settleAppend]

theorem undoTxsRegistry {txs : List Transaction} (t : Tokens) {tid : TokenId} (older : ∀ tx ∈ txs, ¬Issues tx tid) :
    (txs.foldl undoTx t).registry[tid]? = (t.registry[tid]?).map
      (fun reg => { reg with totalMinted := settle reg.totalMinted (mintSteps tid txs) }) := by
  induction txs generalizing t with
  | nil => simp [mintSteps,settle]
  | cons tx rest ih =>
    have step := undoTxRegistry t tx tid
    rw [if_neg (older tx (List.mem_cons_self ..))] at step
    have steps : mintSteps tid (tx :: rest) = mintSteps tid [tx] ++ mintSteps tid rest := by
      rw [mintSteps,mintSteps,mintSteps,← List.map_append,← List.filter_append]
      rfl
    rw [List.foldl_cons,ih _ (fun other inside => older other (List.mem_cons_of_mem _ inside)),step,Option.map_map,
      steps]
    simp only [settleAppend]
    rfl

theorem undoTxsForgotten {txs : List Transaction} {t : Tokens} {tid : TokenId} (gone : t.registry[tid]? = none) :
    (txs.foldl undoTx t).registry[tid]? = none := by
  induction txs generalizing t with
  | nil => exact gone
  | cons tx rest ih =>
    refine ih ?_
    rw [undoTxRegistry,gone]
    split <;> rfl

theorem undoTxsSymbol (txs : List Transaction) (t : Tokens) (symbol : String) : (txs.foldl undoTx t).bySymbol[symbol]? =
    if ∃ tx ∈ txs, Names tx symbol then none else t.bySymbol[symbol]? := by
  induction txs generalizing t with
  | nil => simp
  | cons tx rest ih =>
    rw [List.foldl_cons,ih,undoTxSymbol]
    simp only [List.mem_cons,exists_eq_or_imp]
    by_cases named : Names tx symbol
    · simp [named]
    · simp [named]

end UndoRun

section Forward

structure Told (t : Tokens) (tx : Transaction) (t' : Tokens) : Prop where
  balance : ∀ key : TokenId × Address,
    t'.getTokenBalance key.1 key.2 = t.getTokenBalance key.1 key.2 + effect (entries tx) key
  known : ∀ row ∈ entries tx, (t.registry[row.1.1]?).isSome = true
  issued : ∀ tid, Issues tx tid → t.registry[tid]? = none ∧ (t'.registry[tid]?).isSome = true
  registry : ∀ tid, ¬Issues tx tid → t'.registry[tid]? = (t.registry[tid]?).map
    (fun reg => { reg with totalMinted := reg.totalMinted - (mintSteps tid [tx]).sum })
  named : ∀ symbol, Names tx symbol → t.bySymbol[symbol]? = none ∧ (t'.bySymbol[symbol]?).isSome = true
  symbols : ∀ symbol, ¬Names tx symbol → t'.bySymbol[symbol]? = t.bySymbol[symbol]?

theorem issueTold {t t' : Tokens} {tx : Transaction} {idx : Int} (kind : tx.txType = .ISSUE_TOKEN)
    (run : t.issueToken tx idx = .ok t') : Told t tx t' := by
  obtain ⟨symbol,reg,given,unused,fresh,rfl,-⟩ := issueTokenOk run
  have here : tx.payload.symbol.getD "" = symbol := by rw [given]; rfl
  constructor
  · intro key
    simp only [entries,kind]
    exact (Int.add_zero _).symm
  · intro row inside
    simp [entries,kind] at inside
  · rintro tid ⟨-,rfl⟩
    rw [here,Std.ExtTreeMap.getElem?_insert_self]
    exact ⟨(Dict.absentIff ..).mpr fresh,rfl⟩
  · intro tid other
    have different : ¬compare (tokenIdOf tx.sender symbol tx.nonce) tid = .eq := by
      rw [Std.compare_eq_iff_eq]
      exact fun same => other ⟨kind,by rw [here]; exact same⟩
    rw [Std.ExtTreeMap.getElem?_insert,if_neg different]
    simp [mintSteps,kind]
  · rintro symbol' ⟨-,rfl⟩
    rw [here,Std.ExtTreeMap.getElem?_insert_self]
    exact ⟨(Dict.absentIff ..).mpr unused,rfl⟩
  · intro symbol' other
    have different : ¬compare symbol symbol' = .eq := by
      rw [Std.compare_eq_iff_eq]
      exact fun same => other ⟨kind,by rw [here]; exact same⟩
    rw [Std.ExtTreeMap.getElem?_insert,if_neg different]

theorem mintTold {t t' : Tokens} {tx : Transaction} (kind : tx.txType = .MINT_TOKEN)
    (run : t.mintToken tx = .ok t') : Told t tx t' := by
  obtain ⟨tid,reg,amount,named,found,-,given,-,-,rfl⟩ := mintTokenOk run
  have other : ∀ tid, ¬Issues tx tid := fun tid issued => by rw [Issues,kind] at issued; cases issued.1
  have unnamed : ∀ symbol, ¬Names tx symbol := fun symbol issued => by rw [Names,kind] at issued; cases issued.1
  have rows : entries tx = [((tid,tx.recipient),amount)] := by simp only [entries,kind,named,given,Option.getD_some]
  refine ⟨fun key => ?_,fun row inside => ?_,fun tid issued => absurd issued (other tid),fun tid' _ => ?_,
    fun symbol issued => absurd issued (unnamed symbol),fun symbol _ => ?_⟩
  · rw [balanceSet,rows]
    simp only [effect,List.map_cons,List.map_nil,List.sum_cons,List.sum_nil,Int.add_zero]
    split
    · rename_i own
      subst own
      rfl
    · rw [Int.add_zero]
      rfl
  · rw [rows,List.mem_singleton] at inside
    rw [inside,found]
    rfl
  · rw [(setTables ..).1]
    dsimp only
    rw [Std.ExtTreeMap.getElem?_insert]
    simp only [Std.compare_eq_iff_eq]
    split
    · rename_i same
      subst same
      have steps : mintSteps tid [tx] = [-amount] := by simp [mintSteps,kind,named,given]
      rw [found,steps,Option.map_some,List.sum_singleton,Int.sub_neg]
    · rename_i different
      have steps : mintSteps tid' [tx] = [] := by simp [mintSteps,named,different]
      rw [steps]
      simp
  · rw [(setTables ..).2.1]

theorem transferTold {t t' : Tokens} {tx : Transaction} (kind : tx.txType = .TRANSFER_TOKEN)
    (run : t.transferToken tx = .ok t') : Told t tx t' := by
  obtain ⟨tid,reg,amount,named,found,given,enough,rfl⟩ := transferTokenOk run
  have other : ∀ tid, ¬Issues tx tid := fun tid issued => by rw [Issues,kind] at issued; cases issued.1
  have unnamed : ∀ symbol, ¬Names tx symbol := fun symbol issued => by rw [Names,kind] at issued; cases issued.1
  have rows : entries tx = [((tid,tx.recipient),amount),((tid,tx.sender),-amount)] := by
    simp only [entries,kind,named,given,Option.getD_some]
  refine ⟨fun key => ?_,fun row inside => ?_,fun tid issued => absurd issued (other tid),fun tid' _ => ?_,
    fun symbol issued => absurd issued (unnamed symbol),fun symbol _ => ?_⟩
  · have debited := balanceSettle t tid tx.sender (t.getTokenBalance tid tx.sender - amount)
    have credited := debited (tid,tx.recipient)
    dsimp only at credited
    rw [balanceSet,rows,credited,debited]
    simp only [effect,List.map_cons,List.map_nil,List.sum_cons,List.sum_nil,Int.add_zero]
    have left : max 0 (t.getTokenBalance tid tx.sender - amount) = t.getTokenBalance tid tx.sender - amount :=
      Int.max_eq_right (by omega)
    rw [left]
    by_cases gains : (tid,tx.recipient) = key
    · subst gains
      by_cases self : tx.sender = tx.recipient
      · rw [self]
        simp
      · have apart : ¬(tid,tx.sender) = (tid,tx.recipient) := fun same => self (Prod.mk.inj same).2
        simp only [apart,if_true,if_false]
        omega
    · rw [if_neg gains,if_neg gains]
      by_cases pays : (tid,tx.sender) = key
      · subst pays
        simp only [if_true]
        omega
      · simp only [pays,if_false]
        omega
  · rw [rows] at inside
    rcases List.mem_cons.mp inside with rfl | inside
    · rw [found]
      rfl
    · rw [List.mem_singleton.mp inside,found]
      rfl
  · rw [(setTables ..).1,(settleTables ..).1]
    simp [mintSteps,kind]
  · rw [(setTables ..).2.1,(settleTables ..).2.1]

theorem applyTxTold {t t' : Tokens} {tx : Transaction} {idx : Int} (nonneg : 0 ≤ idx) (run : t.applyTx tx idx = .ok t') :
    Told t tx t' := by
  unfold applyTx at run
  rw [if_neg (show ¬idx < tokenActivationHeight by simp only [tokenActivationHeight]; omega)] at run
  cases kind : tx.txType <;> simp only [kind] at run
  case ISSUE_TOKEN => exact issueTold kind run
  case MINT_TOKEN => exact mintTold kind run
  case TRANSFER_TOKEN => exact transferTold kind run
  all_goals
    cases run
    refine ⟨fun key => ?_,fun row inside => ?_,fun tid issued => ?_,fun tid _ => ?_,fun symbol issued => ?_,fun _ _ => rfl⟩
    · simp only [entries,kind]
      exact (Int.add_zero _).symm
    · simp [entries,kind] at inside
    · rw [Issues,kind] at issued
      cases issued.1
    · simp [mintSteps,kind]
    · rw [Names,kind] at issued
      cases issued.1

theorem Told.grows {t t' : Tokens} {tx : Transaction} (told : Told t tx t') {tid : TokenId}
    (known : (t.registry[tid]?).isSome = true) : ¬Issues tx tid ∧ (t'.registry[tid]?).isSome = true := by
  have fresh : ¬Issues tx tid := by
    intro issues
    rw [(told.issued tid issues).1] at known
    cases known
  refine ⟨fresh,?_⟩
  rw [told.registry tid fresh,Option.isSome_map]
  exact known

structure ToldAll (t : Tokens) (txs : List Transaction) (t' : Tokens) : Prop where
  balance : ∀ key : TokenId × Address,
    t'.getTokenBalance key.1 key.2 = t.getTokenBalance key.1 key.2 + effect (txs.flatMap entries) key
  grows : ∀ tid, (t.registry[tid]?).isSome = true →
    (∀ tx ∈ txs, ¬Issues tx tid) ∧ (t'.registry[tid]?).isSome = true
  known : ∀ row ∈ txs.flatMap entries, (t'.registry[row.1.1]?).isSome = true
  registry : ∀ tid, (∀ tx ∈ txs, ¬Issues tx tid) → t'.registry[tid]? = (t.registry[tid]?).map
    (fun reg => { reg with totalMinted := reg.totalMinted - (mintSteps tid txs).sum })
  named : ∀ symbol, (∃ tx ∈ txs, Names tx symbol) → t.bySymbol[symbol]? = none ∧ (t'.bySymbol[symbol]?).isSome = true
  symbols : ∀ symbol, (¬∃ tx ∈ txs, Names tx symbol) → t'.bySymbol[symbol]? = t.bySymbol[symbol]?

theorem applyTxsTold {txs : List Transaction} {t t' : Tokens} {idx : Int} (nonneg : 0 ≤ idx)
    (run : txs.foldlM (fun t tx => Tokens.applyTx t tx idx) t = .ok t') : ToldAll t txs t' := by
  induction txs generalizing t with
  | nil =>
    cases run
    refine ⟨fun key => (Int.add_zero _).symm,fun tid known => ⟨by simp,known⟩,by simp,fun tid _ => ?_,by simp,
      fun symbol _ => rfl⟩
    simp [mintSteps]
  | cons tx rest ih =>
    rw [List.foldlM_cons,Outcome.bindOk] at run
    obtain ⟨mid,first,later⟩ := run
    have told := applyTxTold nonneg first
    have after := ih later
    constructor
    · intro key
      rw [after.balance,told.balance,List.flatMap_cons,effectAppend,Int.add_assoc]
    · intro tid known
      obtain ⟨fresh,still⟩ := told.grows known
      obtain ⟨others,last⟩ := after.grows tid still
      exact ⟨List.forall_mem_cons.mpr ⟨fresh,others⟩,last⟩
    · intro row inside
      rw [List.flatMap_cons,List.mem_append] at inside
      rcases inside with mine | theirs
      · exact (after.grows _ (told.grows (told.known row mine)).2).2
      · exact after.known row theirs
    · intro tid older
      obtain ⟨mine,theirs⟩ := List.forall_mem_cons.mp older
      have steps : mintSteps tid (tx :: rest) = mintSteps tid [tx] ++ mintSteps tid rest := by
        rw [mintSteps,mintSteps,mintSteps,← List.map_append,← List.filter_append]
        rfl
      rw [after.registry tid theirs,told.registry tid mine,Option.map_map,steps,List.sum_append]
      simp only [Function.comp_def,Int.sub_sub]
    · rintro symbol ⟨namer,inside,names⟩
      by_cases mine : Names tx symbol
      · refine ⟨(told.named symbol mine).1,?_⟩
        by_cases theirs : ∃ tx ∈ rest, Names tx symbol
        · exact (after.named symbol theirs).2
        · rw [after.symbols symbol theirs]
          exact (told.named symbol mine).2
      · rw [← told.symbols symbol mine]
        refine after.named symbol ⟨namer,?_,names⟩
        rcases List.mem_cons.mp inside with rfl | inside
        · exact absurd names mine
        · exact inside
    · intro symbol unnamed
      rw [after.symbols symbol (fun ⟨namer,inside,names⟩ => unnamed ⟨namer,List.mem_cons_of_mem _ inside,names⟩),
        told.symbols symbol (fun names => unnamed ⟨tx,List.mem_cons_self ..,names⟩)]

end Forward

section Law
variable {t t' : Tokens} {txs : List Transaction} {idx : Int}

/- What undoing a block depends on. Every mint adds to a total of at least zero; walking back over
the last transactions of the block overdraws nobody, wherever one stops; and where a token of the
block left a holder something before it was issued, one such walk ends at just that. -/
structure Reversible (t : Tokens) (txs : List Transaction) : Prop where
  totals : ∀ tx ∈ txs, tx.txType = .MINT_TOKEN → 0 ≤ t.totalMinted (tx.payload.tokenId.getD "")
  covered : ∀ (key : TokenId × Address) tail, tail <:+ txs.flatMap entries →
    0 ≤ t.getTokenBalance key.1 key.2 + effect tail key
  fresh : ∀ tid, (∃ tx ∈ txs, Issues tx tid) → ∀ address, ∃ tail, tail <:+ txs.flatMap entries ∧
    t.getTokenBalance tid address + effect tail (tid,address) = 0

theorem issuedBalance (nonneg : 0 ≤ idx) (run : txs.foldlM (fun t tx => Tokens.applyTx t tx idx) t = .ok t')
    (moves : ∀ tx ∈ txs, Moves tx) {u : Tokens} (held : ∀ key : TokenId × Address, 0 ≤ u.getTokenBalance key.1 key.2)
    {key : TokenId × Address} (issues : ∃ tx ∈ txs, Issues tx key.1) :
    (txs.foldl undoTx u).getTokenBalance key.1 key.2 = settle 0 (backSteps key (txs.flatMap entries)) := by
  obtain ⟨tx,inside,issued⟩ := issues
  obtain ⟨earlier,later,rfl⟩ := List.append_of_mem inside
  rw [List.foldlM_append,Outcome.bindOk] at run
  obtain ⟨first,before,run⟩ := run
  rw [List.foldlM_cons,Outcome.bindOk] at run
  obtain ⟨second,step,after⟩ := run
  have told := (applyTxTold nonneg step).issued _ issued
  -- no entry of the token stands before its issue, and no issue after it
  have still : ∀ step ∈ backSteps key (earlier.flatMap entries), step = 0 := by
    intro step among
    obtain ⟨row,listed,rfl⟩ := List.mem_map.mp among
    refine if_neg (fun own => ?_)
    have known := (applyTxsTold nonneg before).known row listed
    rw [own,told.1] at known
    cases known
  have once := ((applyTxsTold nonneg after).grows _ told.2).1
  have none : entries tx = [] := by simp only [entries,issued.1]
  have moved : ∀ other ∈ later, Moves other := fun other among =>
    moves other (List.mem_append_right _ (List.mem_cons_of_mem _ among))
  have reached := undoTxsHeld (fun other among => moves other (List.mem_append_left _ among)) held
  rw [List.foldl_append,List.foldl_cons,List.flatMap_append,List.flatMap_cons,none,List.nil_append,backAppend,
    settleAppend,settleStill le_rfl still,undoTxsBalance moved (undoTxHeld (moves tx inside) reached) once,
    undoTxBalance (moves tx inside) reached,if_pos issued]

theorem issuedRegistry {u : Tokens} {tid : TokenId} (issues : ∃ tx ∈ txs, Issues tx tid) :
    (txs.foldl undoTx u).registry[tid]? = none := by
  obtain ⟨tx,inside,issued⟩ := issues
  obtain ⟨earlier,later,rfl⟩ := List.append_of_mem inside
  rw [List.foldl_append,List.foldl_cons]
  refine undoTxsForgotten ?_
  rw [undoTxRegistry,if_pos issued]

omit [Env] in
theorem mintStepsSign {tid : TokenId} (moves : ∀ tx ∈ txs, Moves tx) : ∀ step ∈ mintSteps tid txs, step ≤ 0 := by
  intro step among
  obtain ⟨tx,listed,rfl⟩ := List.mem_map.mp among
  obtain ⟨inside,decided⟩ := List.mem_filter.mp listed
  have kind := (of_decide_eq_true decided).1
  cases given : tx.payload.amount with
  | none => exact le_rfl
  | some amount =>
    have positive := (moves tx inside).1 kind amount given
    simp only [Option.getD_some]
    omega

omit [Env] in
theorem mintsBack (moves : ∀ tx ∈ txs, Moves tx) (tid : TokenId) (total : Int) :
    settle (total - (mintSteps tid txs).sum) (mintSteps tid txs) = total ↔ mintSteps tid txs = [] ∨ 0 ≤ total := by
  have signs : ∀ step ∈ mintSteps tid txs, step ≤ 0 := mintStepsSign moves
  generalize mintSteps tid txs = steps at signs
  have below : ∀ tail, tail <:+ steps → tail.sum ≤ 0 := fun tail ends => by
    have most := List.sum_le_card_nsmul tail 0 (fun step among => signs step (ends.subset among))
    rwa [nsmul_zero] at most
  by_cases none : steps = []
  · subst none
    simp [settle]
  · constructor
    · intro same
      have := settleSome (total - steps.sum) none
      exact .inr (by omega)
    · rintro (empty | least)
      · exact absurd empty none
      · have whole := below steps (List.suffix_refl _)
        refine (settleBack (by omega) (by omega)).mpr (fun tail ends => ?_)
        have := below tail ends
        omega

omit [Env] in
theorem mintStepsNone {tid : TokenId} : mintSteps tid txs = [] ↔
    ∀ tx ∈ txs, tx.txType = .MINT_TOKEN → tx.payload.tokenId.getD "" ≠ tid := by
  rw [mintSteps,List.map_eq_nil_iff,List.filter_eq_nil_iff]
  simp

theorem undoneRegistry (nonneg : 0 ≤ idx) (run : txs.foldlM (fun t tx => Tokens.applyTx t tx idx) t = .ok t')
    (moves : ∀ tx ∈ txs, Moves tx) : (txs.foldl undoTx t').registry = t.registry ↔
      ∀ tx ∈ txs, tx.txType = .MINT_TOKEN → 0 ≤ t.totalMinted (tx.payload.tokenId.getD "") := by
  have told := applyTxsTold nonneg run
  have entry : ∀ tid, (txs.foldl undoTx t').registry[tid]? = t.registry[tid]? ↔
      (mintSteps tid txs = [] ∨ 0 ≤ t.totalMinted tid) := by
    intro tid
    by_cases issues : ∃ tx ∈ txs, Issues tx tid
    · have absent : t.registry[tid]? = none := by
        cases found : t.registry[tid]? with
        | none => rfl
        | some reg =>
          obtain ⟨tx,inside,issued⟩ := issues
          exact absurd issued ((told.grows tid (by rw [found]; rfl)).1 tx inside)
      rw [issuedRegistry issues,absent,totalMinted,absent]
      simp
    · have older : ∀ tx ∈ txs, ¬Issues tx tid := fun tx inside issued => issues ⟨tx,inside,issued⟩
      rw [undoTxsRegistry t' older,told.registry tid older,totalMinted]
      cases t.registry[tid]? with
      | none => simp
      | some reg =>
        simp only [Option.map_some,Option.some.injEq,Option.getD_some]
        rw [← mintsBack moves tid reg.totalMinted]
        constructor
        · intro same
          exact congrArg TokenMeta.totalMinted same
        · intro same
          rw [same]
  constructor
  · intro same tx inside kind
    rcases (entry (tx.payload.tokenId.getD "")).mp (by rw [same]) with none | least
    · exact absurd rfl (mintStepsNone.mp none tx inside kind)
    · exact least
  · intro totals
    refine Std.ExtTreeMap.ext_getElem? (fun tid => (entry tid).mpr ?_)
    by_cases none : mintSteps tid txs = []
    · exact .inl none
    · rw [mintStepsNone] at none
      push Not at none
      obtain ⟨tx,inside,kind,rfl⟩ := none
      exact .inr (totals tx inside kind)

theorem undoneSymbols (nonneg : 0 ≤ idx) (run : txs.foldlM (fun t tx => Tokens.applyTx t tx idx) t = .ok t') :
    (txs.foldl undoTx t').bySymbol = t.bySymbol := by
  have told := applyTxsTold nonneg run
  refine Std.ExtTreeMap.ext_getElem? (fun symbol => ?_)
  rw [undoTxsSymbol]
  split
  · rename_i names
    exact (told.named symbol names).1.symm
  · rename_i unnamed
    exact told.symbols symbol unnamed

theorem undoneBalance (nonneg : 0 ≤ idx) (run : txs.foldlM (fun t tx => Tokens.applyTx t tx idx) t = .ok t')
    (moves : ∀ tx ∈ txs, Moves tx) (held : ∀ key : TokenId × Address, 0 ≤ t'.getTokenBalance key.1 key.2)
    (key : TokenId × Address) :
    (txs.foldl undoTx t').getTokenBalance key.1 key.2 = t.getTokenBalance key.1 key.2 ↔
      (∀ tail, tail <:+ txs.flatMap entries → 0 ≤ t.getTokenBalance key.1 key.2 + effect tail key) ∧
      ((∃ tx ∈ txs, Issues tx key.1) → ∃ tail, tail <:+ txs.flatMap entries ∧
        t.getTokenBalance key.1 key.2 + effect tail key = 0) := by
  have told := (applyTxsTold nonneg run).balance key
  by_cases issues : ∃ tx ∈ txs, Issues tx key.1
  · rw [issuedBalance nonneg run moves held issues,settleReturns le_rfl]
    simp only [issues,true_imp_iff]
    constructor
    · rintro ⟨-,covered,whole | ends⟩
      · exact ⟨covered,_,List.suffix_refl _,whole.symm⟩
      · exact ⟨covered,ends⟩
    · rintro ⟨covered,ends⟩
      exact ⟨covered _ (List.suffix_refl _),covered,.inr ends⟩
  · rw [undoTxsBalance moves held (fun tx inside issued => issues ⟨tx,inside,issued⟩),settleReturns (held key)]
    simp only [issues,false_imp_iff,and_true]
    exact ⟨fun back => back.covered,fun covered => ⟨told.le,covered,.inl told⟩⟩

theorem undoneReversible (nonneg : 0 ≤ idx) (run : txs.foldlM (fun t tx => Tokens.applyTx t tx idx) t = .ok t')
    (moves : ∀ tx ∈ txs, Moves tx) (held : ∀ key : TokenId × Address, 0 ≤ t'.getTokenBalance key.1 key.2) :
    SameTokens t (txs.foldl undoTx t') ↔ Reversible t txs := by
  have balance := undoneBalance nonneg run moves held
  constructor
  · intro same
    refine ⟨(undoneRegistry nonneg run moves).mp same.registry,fun key => ?_,fun tid issues address => ?_⟩
    · exact ((balance key).mp (same.balance key.1 key.2)).1
    · exact ((balance (tid,address)).mp (same.balance tid address)).2 issues
  · intro back
    refine ⟨(undoneRegistry nonneg run moves).mpr back.totals,undoneSymbols nonneg run,fun tid address => ?_⟩
    exact (balance (tid,address)).mpr ⟨back.covered (tid,address),fun issues => back.fresh tid issues address⟩

end Law

end Tokens

namespace Blockchain
variable [Env]

theorem acceptsIndex {s s' : Blockchain} {block : Block} (step : Accepts s block s') : 0 ≤ s.height + 1 := by
  cases step with
  | received now answer =>
    obtain ⟨position,valid,-⟩ := addBlockOk answer
    by_contra below
    rw [if_neg (by omega)] at valid
    obtain ⟨above,none,-⟩ := validateBlockOk (by omega) valid
    cases none
  | produced address sk now later answer stored =>
    have := (produceBlockOk answer).1
    omega

theorem acceptsWhole {s s' : Blockchain} {block : Block} (step : Accepts s block s')
    (first : block.index = 0 → Whole block) : Whole block := by
  obtain ⟨c,grown⟩ := acceptsGrown step
  by_cases genesis : block.index = 0
  · exact first genesis
  · exact fun tx inside => Tokens.validMoves (transactionsCheckMem (grown.checked genesis) tx inside).payload

theorem tokensUndone (s s' t : Blockchain) (block : Block) {validators : Dict Address Bytes}
    (reached : Reached GivesAmounts (new (.memory []) validators) s ∨ Reached GivesAmounts (new (.sqlite {}) validators) s)
    (step : Accepts s block s') (first : block.index = 0 → Whole block) (tables : t.state = s'.state) :
    Tokens.SameTokens s.state.tokens (Outcome.stateOf (t.rollbackBlock block)).state.tokens ↔
      Tokens.Reversible s.state.tokens block.transactions := by
  obtain ⟨c,grown⟩ := acceptsGrown step
  have run := ChainState.applyBlockTokens grown.applied
  have whole := acceptsWhole step first
  have exactly : c.tokens.Exact := Outcome.foldInvariantMem Tokens.Exact
    (fun t tx inside u kept step => by
      have left : (Outcome.stateOf (t.applyTx tx (s.height + 1))).Exact := Tokens.exactApply kept (whole tx inside)
      rw [step] at left
      exact left) (reachedExact reached) run
  have held : ∀ key : TokenId × Address, 0 ≤ c.tokens.getTokenBalance key.1 key.2 := fun key =>
    Tokens.balanceNonneg exactly.positive key.1 key.2
  rw [(rollbackBlockLeft (acceptsRefundable step)).tokens,tables,grown.tokens]
  exact Tokens.undoneReversible (acceptsIndex step) run whole held

end Blockchain

end QbitNetwork

namespace QbitNetwork.Devnet
attribute [local instance] legacy
open Blockchain

def passOn : Transaction :=
  Transaction.sign
    { txType := .TRANSFER_TOKEN
      sender := address
      payload := { tokenId := some gold, amount := some 5 }
      recipient := deriveAddress [3]
      timestamp := 103
      nonce := 2 } key key

def passing : Block :=
  ({ issued with pool.txPool := [mint 5 1,passOn] }.produceBlock address key 104 104).2.tipBlock

def passedOn : Blockchain := (issued.addBlock passing 104).2

theorem passedOnRun : ((issued.addBlock passing 104).1 = .accepted ∧ passing.index = 2) ∧
    issued.state.tokens.getTokenBalance gold address = 0 ∧
    (Outcome.stateOf (passedOn.rollbackBlock passing)).state.tokens.getTokenBalance gold address = 5 := by
  decide +kernel

theorem passedOnAnswer : (issued.addBlock passing 104).1 = .accepted ∧ passing.index = 2 := passedOnRun.1

theorem issuedReached : Reached GivesAmounts (new (.memory [])) issued := by
  have begun : Reached GivesAmounts (new (.memory [])) active :=
    (Reached.start.initChain address key key 100 trivial genesisRuns).activate address trivial activeRuns
  have submitted : Reached GivesAmounts (new (.memory [])) issuing := by
    rw [issuing]
    exact Reached.submit begun 101 issue trivial issueSubmitted
  rw [issued]
  exact Reached.produce submitted address key 102 102 trivial (issuedAnswer.1 ▸ .accepted)

theorem passedOnAccepts : Accepts issued passing passedOn := by
  have answer : issued.addBlock passing 104 = (.accepted,passedOn) := by
    rw [passedOn]
    exact acceptedState passedOnAnswer.1
  exact .received 104 answer

theorem tokensNotUndone : ¬∀ (s s' t : Blockchain) (block : Block),
    Reached GivesAmounts (new (.memory [])) s ∨ Reached GivesAmounts (new (.sqlite {})) s →
      Accepts s block s' → (block.index = 0 → Whole block) → t.state = s'.state →
        Tokens.SameTokens s.state.tokens (Outcome.stateOf (t.rollbackBlock block)).state.tokens := by
  intro claim
  have later : passing.index = 0 → Whole passing := fun first =>
    absurd (passedOnAnswer.2.symm.trans first) (by decide)
  have same := (claim issued passedOn passedOn passing (.inl issuedReached) passedOnAccepts later
    rfl).balance gold address
  rw [passedOnRun.2.1,passedOnRun.2.2] at same
  exact absurd same (by decide)

theorem tokensUndonePassedOn : Tokens.SameTokens issued.state.tokens
    (Outcome.stateOf (passedOn.rollbackBlock passing)).state.tokens ↔
      Tokens.Reversible issued.state.tokens passing.transactions :=
  tokensUndone issued passedOn passedOn passing (.inl issuedReached) passedOnAccepts
    (fun first => absurd (passedOnAnswer.2.symm.trans first) (by decide)) rfl

end QbitNetwork.Devnet
