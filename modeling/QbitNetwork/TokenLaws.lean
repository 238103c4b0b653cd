import QbitNetwork.Attempts

/-! The supply of tokens: what issue, mint and transfer preserve. -/
namespace QbitNetwork

namespace Tokens

def held (t : Tokens) (tid : TokenId) : Int :=
  Dict.sumBy (fun key amount => if key.1 = tid then amount else 0) t.balances

def totalMinted (t : Tokens) (tid : TokenId) : Int := (t.registry[tid]?.map TokenMeta.totalMinted).getD 0

def Positive (t : Tokens) : Prop :=
  ∀ (key : TokenId × Address) amount, t.balances[key]? = some amount → 0 < amount

structure Lawful (t : Tokens) : Prop where
  supply : ∀ (tid : TokenId) reg, t.registry[tid]? = some reg → t.held tid = reg.totalMinted
  overflow : ∀ (tid : TokenId) reg, t.registry[tid]? = some reg → reg.totalMinted ≤ maxTokenAmount
  capped : ∀ (tid : TokenId) reg, t.registry[tid]? = some reg → 0 < reg.maxSupply →
    reg.totalMinted ≤ reg.maxSupply
  positive : t.Positive
  known : ∀ key ∈ t.balances, key.1 ∈ t.registry
  symbols : ∀ (symbol : String) (tid : TokenId), t.bySymbol[symbol]? = some tid ↔
    ∃ reg, t.registry[tid]? = some reg ∧ reg.symbol = symbol

def PositiveAmount (tx : Transaction) : Prop :=
  tx.txType = .MINT_TOKEN ∨ tx.txType = .TRANSFER_TOKEN →
    ∀ amount, tx.payload.amount = some amount → 0 < amount

theorem heldRow (t : Tokens) (tid other : TokenId) (address : Address) :
    (t.balances[(tid,address)]?.map (fun amount => if tid = other then amount else 0)).getD 0 =
      if tid = other then t.getTokenBalance tid address else 0 := by
  rw [getTokenBalance,Std.ExtTreeMap.getD_eq_getD_getElem?]
  cases t.balances[(tid,address)]? <;> simp

theorem heldSet (t : Tokens) (tid other : TokenId) (address : Address) (amount : Int) :
    (t.setTokenBalance tid address amount).held other =
      t.held other + if tid = other then amount - t.getTokenBalance tid address else 0 := by
  have old := heldRow t tid other address
  rw [held,(setTables ..).2.2,held,Dict.sumByInsert]
  dsimp only
  rw [old]
  split <;> omega

theorem heldSettle (t : Tokens) (tid other : TokenId) (address : Address) {amount : Int}
    (nonneg : 0 ≤ amount) :
    (t.settleTokenBalance tid address amount).held other =
      t.held other + if tid = other then amount - t.getTokenBalance tid address else 0 := by
  by_cases left : 0 < amount
  · rw [settleTokenBalance,if_neg (by omega)]
    exact heldSet ..
  · have old := heldRow t tid other address
    rw [held,(settleTables ..).2.2,if_pos (by omega),held,Dict.sumByErase]
    dsimp only
    rw [old]
    split <;> omega

theorem positiveSet {t : Tokens} (positive : t.Positive) (tid : TokenId) (address : Address)
    {amount : Int} (more : 0 < amount) : (t.setTokenBalance tid address amount).Positive := by
  intro key left found
  rw [(setTables ..).2.2,Std.ExtTreeMap.getElem?_insert] at found
  split at found
  · cases found
    exact more
  · exact positive key left found

theorem positiveSettle {t : Tokens} (positive : t.Positive) (tid : TokenId) (address : Address)
    (amount : Int) : (t.settleTokenBalance tid address amount).Positive := by
  by_cases left : 0 < amount
  · rw [settleTokenBalance,if_neg (by omega)]
    exact positiveSet positive tid address left
  · intro key left found
    rw [(settleTables ..).2.2,if_pos (by omega),Std.ExtTreeMap.getElem?_erase] at found
    split at found
    · contradiction
    · exact positive key left found

theorem balanceNonneg {t : Tokens} (positive : t.Positive) (tid : TokenId) (address : Address) :
    0 ≤ t.getTokenBalance tid address := by
  rw [getTokenBalance,Std.ExtTreeMap.getD_eq_getD_getElem?]
  cases found : t.balances[(tid,address)]? with
  | none => exact Int.le_refl 0
  | some amount => exact Int.le_of_lt (positive _ _ found)

theorem requiredOk {α : Type} {t : Tokens} {key : String} {value : Option α} {v : α}
    (run : t.required key value = .ok v) : value = some v := by
  unfold required at run
  split at run
  · cases run; rfl
  · contradiction

variable [Env]

theorem issueTokenOk {t t' : Tokens} {tx : Transaction} {idx : Int} (run : t.issueToken tx idx = .ok t') :
    ∃ symbol reg, tx.payload.symbol = some symbol ∧ symbol ∉ t.bySymbol ∧
      tokenIdOf tx.sender symbol tx.nonce ∉ t.registry ∧
      t' = { t with
        registry := t.registry.insert (tokenIdOf tx.sender symbol tx.nonce) reg
        bySymbol := t.bySymbol.insert symbol (tokenIdOf tx.sender symbol tx.nonce) } ∧
      reg.symbol = symbol ∧ reg.totalMinted = 0 ∧ reg.issuer = tx.sender := by
  simp only [issueToken,Outcome.bindOk] at run
  obtain ⟨symbol,given,run⟩ := run
  split at run
  · contradiction
  · rename_i unused
    split at run
    · contradiction
    · rename_i fresh
      simp only [Outcome.bindOk] at run
      obtain ⟨name,-,decimals,-,run⟩ := run
      cases run
      exact ⟨symbol,_,requiredOk given,unused,fresh,rfl,rfl,rfl,rfl⟩

omit [Env] in
theorem mintTokenOk {t t' : Tokens} {tx : Transaction} (run : t.mintToken tx = .ok t') :
    ∃ tid reg amount, tx.payload.tokenId = some tid ∧ t.registry[tid]? = some reg ∧
      reg.issuer = tx.sender ∧ tx.payload.amount = some amount ∧
      reg.totalMinted + amount ≤ maxTokenAmount ∧
      (0 < reg.maxSupply → reg.totalMinted + amount ≤ reg.maxSupply) ∧
      t' = ({ t with
          registry := t.registry.insert tid { reg with totalMinted := reg.totalMinted + amount } } :
        Tokens).setTokenBalance tid tx.recipient (t.getTokenBalance tid tx.recipient + amount) := by
  simp only [mintToken,Outcome.bindOk] at run
  obtain ⟨tid,named,run⟩ := run
  split at run
  · contradiction
  · rename_i reg found
    split at run
    · contradiction
    · rename_i issuer
      simp only [Outcome.bindOk] at run
      obtain ⟨amount,given,run⟩ := run
      split at run
      · contradiction
      · rename_i fits
        split at run
        · contradiction
        · rename_i below
          cases run
          refine ⟨tid,reg,amount,requiredOk named,found,by simpa using issuer,requiredOk given,
            by omega,fun limited => ?_,rfl⟩
          by_contra exceeds
          exact below ⟨limited,by omega⟩

omit [Env] in
theorem transferTokenOk {t t' : Tokens} {tx : Transaction} (run : t.transferToken tx = .ok t') :
    ∃ tid reg amount, tx.payload.tokenId = some tid ∧ t.registry[tid]? = some reg ∧
      tx.payload.amount = some amount ∧ amount ≤ t.getTokenBalance tid tx.sender ∧
      t' = (t.settleTokenBalance tid tx.sender (t.getTokenBalance tid tx.sender - amount)).setTokenBalance
        tid tx.recipient ((t.settleTokenBalance tid tx.sender
          (t.getTokenBalance tid tx.sender - amount)).getTokenBalance tid tx.recipient + amount) := by
  simp only [transferToken,Outcome.bindOk] at run
  obtain ⟨tid,named,run⟩ := run
  split at run
  · contradiction
  · rename_i reg found
    split at run
    · contradiction
    · simp only [Outcome.bindOk] at run
      obtain ⟨amount,given,run⟩ := run
      split at run
      · contradiction
      · rename_i enough
        cases run
        exact ⟨tid,reg,amount,requiredOk named,found,requiredOk given,by omega,rfl⟩

theorem lawfulIssue {t t' : Tokens} {tx : Transaction} {idx : Int} (lawful : t.Lawful)
    (run : t.issueToken tx idx = .ok t') : t'.Lawful := by
  obtain ⟨symbol,reg,-,unused,fresh,rfl,named,unminted,-⟩ := issueTokenOk run
  generalize tokenIdOf tx.sender symbol tx.nonce = tid at fresh
  have unheld : t.held tid = 0 := by
    rw [held,Dict.sumBy]
    refine List.sum_eq_zero (fun amount inside => ?_)
    obtain ⟨⟨key,value⟩,listed,rfl⟩ := List.mem_map.mp inside
    have found := Std.ExtTreeMap.mem_toList_iff_getElem?_eq_some.mp listed
    have registered := lawful.known key (Std.ExtTreeMap.mem_iff_isSome_getElem?.mpr (by simp [found]))
    refine if_neg (fun same => ?_)
    rw [same] at registered
    exact fresh registered
  have listed : ∀ (other : TokenId) r, (t.registry.insert tid reg)[other]? = some r →
      (other = tid ∧ r = reg) ∨ (other ≠ tid ∧ t.registry[other]? = some r) := by
    intro other r found
    rw [Std.ExtTreeMap.getElem?_insert] at found
    split at found
    · rename_i same
      exact .inl ⟨(by simpa using same : tid = other).symm,(Option.some.inj found).symm⟩
    · rename_i different
      exact .inr ⟨Ne.symm (by simpa using different),found⟩
  refine ⟨fun other r found => ?_,fun other r found => ?_,fun other r found limited => ?_,
    lawful.positive,fun key inside => (Dict.memInsert ..).mpr (.inr (lawful.known key inside)),
    fun s other => ?_⟩
  · rcases listed other r found with ⟨rfl,rfl⟩ | ⟨-,old⟩
    · exact unheld.trans unminted.symm
    · exact lawful.supply other r old
  · rcases listed other r found with ⟨rfl,rfl⟩ | ⟨-,old⟩
    · rw [unminted]; decide
    · exact lawful.overflow other r old
  · rcases listed other r found with ⟨rfl,rfl⟩ | ⟨-,old⟩
    · rw [unminted]; exact Int.le_of_lt limited
    · exact lawful.capped other r old limited
  · have absent : t.bySymbol[symbol]? = none := (Dict.absentIff ..).mpr unused
    have gone : t.registry[tid]? = none := (Dict.absentIff ..).mpr fresh
    rw [Std.ExtTreeMap.getElem?_insert]
    by_cases same : symbol = s
    · subst same
      rw [if_pos (by simp)]
      constructor
      · intro leads
        cases leads
        exact ⟨reg,by simp,named⟩
      · rintro ⟨r,found,uses⟩
        rcases listed other r found with ⟨rfl,-⟩ | ⟨-,old⟩
        · rfl
        · have leads := (lawful.symbols symbol other).mpr ⟨r,old,uses⟩
          rw [absent] at leads
          contradiction
    · rw [if_neg (by simpa using same),lawful.symbols s other]
      constructor
      · rintro ⟨r,found,uses⟩
        refine ⟨r,?_,uses⟩
        rw [Std.ExtTreeMap.getElem?_insert,if_neg]
        · exact found
        · intro equal
          rw [← show tid = other by simpa using equal,gone] at found
          contradiction
      · rintro ⟨r,found,uses⟩
        rcases listed other r found with ⟨-,rfl⟩ | ⟨-,old⟩
        · exact absurd (named.symm.trans uses) same
        · exact ⟨r,old,uses⟩

omit [Env] in
theorem lawfulMint {t t' : Tokens} {tx : Transaction} (lawful : t.Lawful)
    (positive : ∀ amount, tx.payload.amount = some amount → 0 < amount)
    (run : t.mintToken tx = .ok t') : t'.Lawful := by
  obtain ⟨tid,reg,amount,-,found,-,given,fits,below,rfl⟩ := mintTokenOk run
  have more := positive amount given
  have mine := balanceNonneg lawful.positive tid tx.recipient
  have registered : tid ∈ t.registry := Std.ExtTreeMap.mem_iff_isSome_getElem?.mpr (by simp [found])
  generalize grown : ({ t with
    registry := t.registry.insert tid { reg with totalMinted := reg.totalMinted + amount } } : Tokens) = u
  have balances : u.balances = t.balances := grown ▸ rfl
  have bySymbol : u.bySymbol = t.bySymbol := grown ▸ rfl
  have registry : u.registry = t.registry.insert tid
      { reg with totalMinted := reg.totalMinted + amount } := grown ▸ rfl
  have held : ∀ other, u.held other = t.held other := fun other => by rw [Tokens.held,balances]; rfl
  have balance : u.getTokenBalance tid tx.recipient = t.getTokenBalance tid tx.recipient := by
    rw [getTokenBalance,balances]; rfl
  obtain ⟨registry',bySymbol',balances'⟩ := setTables u tid tx.recipient
    (t.getTokenBalance tid tx.recipient + amount)
  have listed : ∀ (other : TokenId) r, (u.setTokenBalance tid tx.recipient
      (t.getTokenBalance tid tx.recipient + amount)).registry[other]? = some r →
      (other = tid ∧ r = { reg with totalMinted := reg.totalMinted + amount }) ∨
        (other ≠ tid ∧ t.registry[other]? = some r) := by
    intro other r here
    rw [registry',registry,Std.ExtTreeMap.getElem?_insert] at here
    split at here
    · rename_i same
      exact .inl ⟨(by simpa using same : tid = other).symm,(Option.some.inj here).symm⟩
    · rename_i different
      exact .inr ⟨Ne.symm (by simpa using different),here⟩
  refine ⟨fun other r here => ?_,fun other r here => ?_,fun other r here limited => ?_,
    positiveSet (fun key left here => lawful.positive key left (balances ▸ here)) tid tx.recipient
      (by omega),fun key inside => ?_,fun s other => ?_⟩
  · rw [heldSet,held,balance]
    rcases listed other r here with ⟨rfl,rfl⟩ | ⟨different,old⟩
    · rw [if_pos rfl,lawful.supply _ _ found]
      dsimp only
      omega
    · rw [if_neg (Ne.symm different),lawful.supply other r old,Int.add_zero]
  · rcases listed other r here with ⟨rfl,rfl⟩ | ⟨-,old⟩
    · exact fits
    · exact lawful.overflow other r old
  · rcases listed other r here with ⟨rfl,rfl⟩ | ⟨-,old⟩
    · exact below limited
    · exact lawful.capped other r old limited
  · rw [registry',registry]
    rw [balances',balances,Dict.memInsert] at inside
    refine (Dict.memInsert ..).mpr ?_
    rcases inside with rfl | old
    · exact .inl rfl
    · exact .inr (lawful.known key old)
  · rw [bySymbol',bySymbol,lawful.symbols s other,registry',registry,
      Std.ExtTreeMap.getElem?_insert]
    by_cases same : tid = other
    · subst same
      rw [if_pos (by simp),found]
      simp
    · rw [if_neg (by simpa using same)]

omit [Env] in
theorem lawfulTransfer {t t' : Tokens} {tx : Transaction} (lawful : t.Lawful)
    (positive : ∀ amount, tx.payload.amount = some amount → 0 < amount)
    (run : t.transferToken tx = .ok t') : t'.Lawful := by
  obtain ⟨tid,reg,amount,-,found,given,enough,rfl⟩ := transferTokenOk run
  have more := positive amount given
  have registered : tid ∈ t.registry := Std.ExtTreeMap.mem_iff_isSome_getElem?.mpr (by simp [found])
  have left : 0 ≤ t.getTokenBalance tid tx.sender - amount := by omega
  obtain ⟨registry,bySymbol,balances⟩ := settleTables t tid tx.sender
    (t.getTokenBalance tid tx.sender - amount)
  have settled := positiveSettle lawful.positive tid tx.sender
    (t.getTokenBalance tid tx.sender - amount)
  have held : ∀ other, (t.settleTokenBalance tid tx.sender
      (t.getTokenBalance tid tx.sender - amount)).held other =
      t.held other + if tid = other then -amount else 0 := by
    intro other
    rw [heldSettle _ _ _ _ left]
    split <;> omega
  have kept : ∀ key ∈ (t.settleTokenBalance tid tx.sender
      (t.getTokenBalance tid tx.sender - amount)).balances, key.1 ∈ t.registry := by
    intro key inside
    rw [balances] at inside
    split at inside
    · exact lawful.known key ((Dict.memErase ..).mp inside).2
    · rcases (Dict.memInsert ..).mp inside with rfl | old
      · exact registered
      · exact lawful.known key old
  generalize t.settleTokenBalance tid tx.sender (t.getTokenBalance tid tx.sender - amount) = u
    at registry bySymbol settled held kept
  have mine := balanceNonneg settled tid tx.recipient
  obtain ⟨registry',bySymbol',balances'⟩ := setTables u tid tx.recipient
    (u.getTokenBalance tid tx.recipient + amount)
  have same := registry'.trans registry
  refine ⟨?_,?_,?_,positiveSet settled tid tx.recipient (by omega),fun key inside => ?_,?_⟩
  · intro other r here
    rw [same] at here
    rw [heldSet,held,← lawful.supply other r here]
    split <;> omega
  · rw [same]
    exact lawful.overflow
  · rw [same]
    exact lawful.capped
  · rw [same]
    rw [balances',Dict.memInsert] at inside
    rcases inside with rfl | old
    · exact registered
    · exact kept key old
  · rw [same]
    intro s other
    rw [bySymbol',bySymbol]
    exact lawful.symbols s other

theorem lawfulApply {t t' : Tokens} {tx : Transaction} {idx : Int} (lawful : t.Lawful)
    (positive : PositiveAmount tx) (run : t.applyTx tx idx = .ok t') : t'.Lawful := by
  unfold applyTx at run
  split at run
  · cases run
    exact lawful
  · split at run
    · exact lawfulIssue lawful run
    · rename_i kind
      exact lawfulMint lawful (positive (.inl kind)) run
    · rename_i kind
      exact lawfulTransfer lawful (positive (.inr kind)) run
    · cases run
      exact lawful

def mints (tx : Transaction) (tid : TokenId) : Int :=
  if tx.txType = .MINT_TOKEN ∧ tx.payload.tokenId = some tid then tx.payload.amount.getD 0 else 0

theorem applyTxMints {t t' : Tokens} {tx : Transaction} {idx : Int} (nonneg : 0 ≤ idx)
    (run : t.applyTx tx idx = .ok t') :
    (∀ tid, t'.totalMinted tid = t.totalMinted tid + mints tx tid) ∧
      (∀ (tid : TokenId) (reg : TokenMeta), t.registry[tid]? = some reg →
        ∃ reg' : TokenMeta, t'.registry[tid]? = some reg' ∧
          reg' = { reg with totalMinted := reg'.totalMinted }) ∧
      (tx.txType = .MINT_TOKEN → ∃ (tid : TokenId) (reg : TokenMeta), tx.payload.tokenId = some tid ∧
        t.registry[tid]? = some reg ∧ reg.issuer = tx.sender) := by
  have unmoved : ∀ kind, kind ≠ TxType.MINT_TOKEN → tx.txType = kind → ∀ tid, mints tx tid = 0 := by
    intro kind other same tid
    exact if_neg (fun both => other (same ▸ both.1))
  unfold applyTx at run
  rw [if_neg (show ¬idx < tokenActivationHeight by simp only [tokenActivationHeight]; omega)] at run
  split at run
  · rename_i kind
    obtain ⟨symbol,reg,-,-,fresh,rfl,-,unminted,-⟩ := issueTokenOk run
    have gone := (Dict.absentIff ..).mpr fresh
    refine ⟨fun tid => ?_,fun tid r found => ⟨r,?_,rfl⟩,fun mint => by rw [kind] at mint; contradiction⟩
    · rw [unmoved _ (by decide) kind,Int.add_zero]
      simp only [totalMinted]
      rw [Std.ExtTreeMap.getElem?_insert]
      split
      · rename_i same
        rw [show tokenIdOf tx.sender symbol tx.nonce = tid by simpa using same] at gone
        simp [gone,unminted]
      · rfl
    · dsimp only
      rw [Std.ExtTreeMap.getElem?_insert,if_neg]
      · exact found
      · intro same
        rw [show tokenIdOf tx.sender symbol tx.nonce = tid by simpa using same,found] at gone
        contradiction
  · rename_i kind
    obtain ⟨tid,reg,amount,named,found,issuer,given,-,-,rfl⟩ := mintTokenOk run
    obtain ⟨registry,-,-⟩ := setTables ({ t with
      registry := t.registry.insert tid { reg with totalMinted := reg.totalMinted + amount } } : Tokens)
      tid tx.recipient (t.getTokenBalance tid tx.recipient + amount)
    refine ⟨fun other => ?_,fun other r here => ?_,fun _ => ⟨tid,reg,named,found,issuer⟩⟩
    · simp only [totalMinted,mints]
      rw [registry,kind,named,given,Std.ExtTreeMap.getElem?_insert]
      by_cases same : tid = other
      · subst same
        simp [found]
      · rw [if_neg (by simpa using same),if_neg (fun both => same (Option.some.inj both.2)),
          Int.add_zero]
    · rw [registry,Std.ExtTreeMap.getElem?_insert]
      by_cases same : tid = other
      · subst same
        rw [found] at here
        cases here
        exact ⟨_,if_pos (by simp),rfl⟩
      · exact ⟨r,by rw [if_neg (by simpa using same)]; exact here,rfl⟩
  · rename_i kind
    obtain ⟨tid,reg,amount,-,found,-,-,rfl⟩ := transferTokenOk run
    obtain ⟨registry,-,-⟩ := settleTables t tid tx.sender (t.getTokenBalance tid tx.sender - amount)
    generalize t.settleTokenBalance tid tx.sender (t.getTokenBalance tid tx.sender - amount) = u
      at registry
    have same := (setTables u tid tx.recipient
      (u.getTokenBalance tid tx.recipient + amount)).1.trans registry
    refine ⟨fun other => ?_,fun other r here => ⟨r,same ▸ here,rfl⟩,
      fun mint => by rw [kind] at mint; contradiction⟩
    rw [totalMinted,same,unmoved _ (by decide) kind,Int.add_zero]
    rfl
  · rename_i _ kind _
    cases run
    refine ⟨fun tid => ?_,fun tid r here => ⟨r,here,rfl⟩,fun mint => absurd mint kind⟩
    rw [mints,if_neg (fun both => kind both.1),Int.add_zero]

end Tokens

end QbitNetwork
