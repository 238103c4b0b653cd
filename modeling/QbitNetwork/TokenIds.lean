import QbitNetwork.JsonText
import QbitNetwork.Lib.Numeral
import QbitNetwork.TokenSupply

/-! The strings hashed to token ids: when two of them are the same, and what comes of it. -/
namespace QbitNetwork

section Strings

def Transaction.symbol (tx : Transaction) : String := tx.payload.symbol.getD ""

def Transaction.idString (tx : Transaction) : String := tx.sender ++ tx.symbol ++ toString tx.nonce

def Spills (symbol : String) (nonce : Int) (symbol' : String) (nonce' : Int) : Prop :=
  ∃ d : Nat, 0 < d ∧ 0 ≤ nonce' ∧ symbol' = symbol ++ toString d ∧
    nonce = d * 10 ^ (toString nonce').length + nonce'

theorem intDigits {n : Int} (nonneg : 0 ≤ n) : (toString n).toList = Nat.toDigits 10 n.toNat := by
  obtain ⟨m,rfl⟩ := Int.eq_ofNat_of_zero_le nonneg
  exact Nat.toList_repr

theorem minusDigits {n : Int} (negative : n < 0) : (toString n).toList = '-' :: Nat.toDigits 10 (-n).toNat := by
  obtain ⟨m,rfl⟩ := Int.eq_negSucc_of_lt_zero negative
  rw [show toString (Int.negSucc m) = "-" ++ (m + 1).repr from rfl,String.toList_append,Nat.toList_repr]
  rfl

theorem digitsPlain (n : Nat) : '-' ∉ Nat.toDigits 10 n := by
  intro inside
  have digit := Nat.isDigit_of_mem_toDigits (by decide) (by decide) inside
  cases digit

theorem decimalNonneg {n : Int} (plain : '-' ∉ (toString n).toList) : 0 ≤ n := by
  by_contra negative
  exact plain (by rw [minusDigits (by omega)]; exact List.mem_cons_self ..)

theorem decimalInjective {n m : Int} (same : (toString n).toList = (toString m).toList) : n = m := by
  by_cases nonneg : 0 ≤ n
  · have other : 0 ≤ m := decimalNonneg (by rw [← same,intDigits nonneg]; exact digitsPlain _)
    rw [intDigits nonneg,intDigits other] at same
    have := Numeral.digitsInjective same
    omega
  · have other : m < 0 := by
      by_contra positive
      rw [minusDigits (by omega),intDigits (show 0 ≤ m by omega)] at same
      exact digitsPlain m.toNat (same ▸ List.mem_cons_self ..)
    rw [minusDigits (by omega),minusDigits other] at same
    have := Numeral.digitsInjective (List.cons.inj same).2
    omega

theorem decimalCut {n m : Int} {front : List Char} (plain : '-' ∉ front) (some : front ≠ [])
    (cut : (toString n).toList = front ++ (toString m).toList) :
    ∃ d : Nat, 0 < d ∧ 0 ≤ m ∧ front = Nat.toDigits 10 d ∧ n = d * 10 ^ (toString m).length + m := by
  have nonneg : 0 ≤ n := by
    by_contra negative
    rw [minusDigits (by omega)] at cut
    cases front with
    | nil => exact some rfl
    | cons c rest => exact plain ((List.cons.inj cut).1 ▸ List.mem_cons_self ..)
  have other : 0 ≤ m := by
    refine decimalNonneg (fun inside => ?_)
    refine digitsPlain n.toNat ?_
    rw [← intDigits nonneg,cut]
    exact List.mem_append_right _ inside
  rw [intDigits nonneg,intDigits other] at cut
  obtain ⟨d,positive,rfl⟩ := Numeral.digitsCut cut some Nat.toDigits_ne_nil
  rw [Numeral.digitsAppend positive] at cut
  refine ⟨d,positive,other,rfl,?_⟩
  have value := Numeral.digitsInjective cut
  rw [← intDigits other,String.length_toList] at value
  have cast : (n.toNat : Int) = n := Int.toNat_of_nonneg nonneg
  rw [← cast,value]
  push_cast
  rw [Int.toNat_of_nonneg other]

theorem spillsSame {symbol symbol' : String} {nonce nonce' : Int} (spills : Spills symbol nonce symbol' nonce') :
    symbol ++ toString nonce = symbol' ++ toString nonce' := by
  obtain ⟨d,positive,nonneg,rfl,rfl⟩ := spills
  obtain ⟨k,rfl⟩ := Int.eq_ofNat_of_zero_le nonneg
  have digits : (toString (k : Int)).toList = Nat.toDigits 10 k := Nat.toList_repr
  have whole : (d : Int) * 10 ^ (toString (k : Int)).length + k =
      ((d * 10 ^ (Nat.toDigits 10 k).length + k : Nat) : Int) := by
    rw [← digits,String.length_toList]
    push_cast
    rfl
  have sum : (toString ((d * 10 ^ (Nat.toDigits 10 k).length + k : Nat) : Int)).toList =
      Nat.toDigits 10 (d * 10 ^ (Nat.toDigits 10 k).length + k) := Nat.toList_repr
  refine String.toList_inj.mp ?_
  rw [whole]
  simp only [String.toList_append,List.append_assoc]
  rw [sum,digits,Nat.toString_eq_repr,Nat.toList_repr,Numeral.digitsAppend positive]

theorem joinedSame {symbol symbol' : String} {nonce nonce' : Int} (plain : '-' ∉ symbol.toList)
    (plain' : '-' ∉ symbol'.toList) : symbol ++ toString nonce = symbol' ++ toString nonce' ↔
      (symbol = symbol' ∧ nonce = nonce') ∨ Spills symbol nonce symbol' nonce' ∨ Spills symbol' nonce' symbol nonce := by
  constructor
  · intro same
    have joined := congrArg String.toList same
    simp only [String.toList_append] at joined
    rcases List.append_eq_append_iff.mp joined with ⟨front,longer,cut⟩ | ⟨front,longer,cut⟩
    · by_cases none : front = []
      · subst none
        rw [List.append_nil] at longer
        exact .inl ⟨(String.toList_inj.mp longer).symm,decimalInjective cut⟩
      · have free : '-' ∉ front := fun inside => plain' (longer ▸ List.mem_append_right _ inside)
        obtain ⟨d,positive,nonneg,rfl,value⟩ := decimalCut free none cut
        refine .inr (.inl ⟨d,positive,nonneg,String.toList_inj.mp ?_,value⟩)
        rw [longer,String.toList_append,Nat.toString_eq_repr,Nat.toList_repr]
    · by_cases none : front = []
      · subst none
        rw [List.append_nil] at longer
        exact .inl ⟨String.toList_inj.mp longer,(decimalInjective cut).symm⟩
      · have free : '-' ∉ front := fun inside => plain (longer ▸ List.mem_append_right _ inside)
        obtain ⟨d,positive,nonneg,rfl,value⟩ := decimalCut free none cut
        refine .inr (.inr ⟨d,positive,nonneg,String.toList_inj.mp ?_,value⟩)
        rw [longer,String.toList_append,Nat.toString_eq_repr,Nat.toList_repr]
  · rintro (⟨rfl,rfl⟩ | spills | spills)
    · rfl
    · exact spillsSame spills
    · exact (spillsSame spills).symm

end Strings

section Issues
variable [Env]

structure ValidIssue (tx : Transaction) : Prop where
  kind : tx.txType = .ISSUE_TOKEN
  signed : tx.verify = true
  payload : tx.validatePayload = .ok ()

def Confused (a b : Transaction) : Prop :=
  a.sender = b.sender ∧ (Spills a.symbol a.nonce b.symbol b.nonce ∨ Spills b.symbol b.nonce a.symbol a.nonce)

omit [Env] in
theorem symbolPlain {symbol : String} (shaped : symbolRe symbol = true) : '-' ∉ symbol.toList := by
  intro inside
  have minus : 45 ∈ encode symbol := by
    rw [encodeChars]
    exact List.mem_flatMap.mpr ⟨'-',inside,by decide⟩
  have kept : 45 ∈ dropFinalNewline (encode symbol) := by
    unfold dropFinalNewline
    split
    · rename_i newline
      obtain ⟨body,shape⟩ := List.getLast?_eq_some_iff.mp newline
      rw [shape] at minus ⊢
      rw [List.dropLast_concat]
      exact (List.mem_append.mp minus).resolve_right (by decide)
    · exact minus
  unfold symbolRe at shaped
  split at shaped
  · rename_i first rest body
    simp only [Bool.and_eq_true,List.all_eq_true] at shaped
    rw [body] at kept
    rcases List.mem_cons.mp kept with rfl | later
    · exact absurd shaped.1.1 (by decide)
    · exact absurd (shaped.2 _ later) (by decide)
  · contradiction

theorem ValidIssue.plain {tx : Transaction} (valid : ValidIssue tx) : '-' ∉ tx.symbol.toList := by
  have checked := (validatePayloadOk valid.payload).2.2
  simp only [typeCheck,valid.kind,issueTokenCheck,Outcome.bindOk,refuseIfOk] at checked
  obtain ⟨_,-,_,-,_,-,_,-,_,-,_,-,_,shaped,-⟩ := checked
  exact symbolPlain (by unfold Transaction.symbol; simpa using shaped)

theorem ValidIssue.address {tx : Transaction} (valid : ValidIssue tx) : (encode tx.sender).length = 67 := by
  have signed := valid.signed
  simp only [Transaction.verify,Bool.and_eq_true,beq_iff_eq] at signed
  rw [← signed.1.2,deriveAddress,encodeAppend,List.length_append,hex,
    encodeAscii _ (hexBytesAscii _),hexBytesLength,Env.sha3_256Length]
  decide

omit [Env] in
theorem confusedSame {a b : Transaction} (confused : Confused a b) : a.idString = b.idString := by
  obtain ⟨sender,spills⟩ := confused
  simp only [Transaction.idString,String.append_assoc,sender]
  rcases spills with spills | spills
  · rw [spillsSame spills]
  · rw [spillsSame spills]

theorem idStringsSame {a b : Transaction} (validA : ValidIssue a) (validB : ValidIssue b) :
    a.idString = b.idString ↔ (a.sender = b.sender ∧ a.symbol = b.symbol ∧ a.nonce = b.nonce) ∨ Confused a b := by
  have join : a.symbol ++ toString a.nonce = b.symbol ++ toString b.nonce ↔ _ := joinedSame validA.plain validB.plain
  constructor
  · intro same
    have bytes := congrArg encode same
    simp only [Transaction.idString,String.append_assoc] at bytes
    rw [encodeAppend,encodeAppend b.sender] at bytes
    obtain ⟨senders,rests⟩ := List.append_inj bytes (validA.address.trans validB.address.symm)
    have sender := encodeInjective senders
    rcases join.mp (encodeInjective rests) with both | spills
    · exact .inl ⟨sender,both⟩
    · exact .inr ⟨sender,spills⟩
  · rintro (⟨sender,both⟩ | confused)
    · simp only [Transaction.idString,sender,both]
    · exact confusedSame confused

structure Origin (t : Tokens) (tid : TokenId) (reg : TokenMeta) (tx : Transaction) : Prop where
  kind : tx.txType = .ISSUE_TOKEN
  hashed : Tokens.tokenIdOf tx.sender tx.symbol tx.nonce = tid
  named : tx.symbol ∈ t.bySymbol
  valid : reg.createdBlock ≠ 0 → ValidIssue tx

def Sourced (t : Tokens) : Prop :=
  ∀ (tid : TokenId) reg, t.registry[tid]? = some reg → ∃ tx, Origin t tid reg tx

omit [Env] in
theorem issueTokenBlock [Env] {t t' : Tokens} {tx : Transaction} {idx : Int} (run : t.issueToken tx idx = .ok t') :
    ∃ reg, t'.registry = t.registry.insert (Tokens.tokenIdOf tx.sender tx.symbol tx.nonce) reg ∧
      t'.bySymbol = t.bySymbol.insert tx.symbol (Tokens.tokenIdOf tx.sender tx.symbol tx.nonce) ∧
      reg.createdBlock = idx := by
  simp only [Tokens.issueToken,Outcome.bindOk] at run
  obtain ⟨symbol,given,run⟩ := run
  have spelled : tx.symbol = symbol := by rw [Transaction.symbol,Tokens.requiredOk given,Option.getD_some]
  split at run
  · contradiction
  · split at run
    · contradiction
    · simp only [Outcome.bindOk] at run
      obtain ⟨name,-,decimals,-,run⟩ := run
      cases run
      exact ⟨_,by rw [spelled],by rw [spelled],rfl⟩

theorem Sourced.kept {t t' : Tokens} (sourced : Sourced t)
    (entries : ∀ (tid : TokenId) reg', t'.registry[tid]? = some reg' →
      ∃ reg, t.registry[tid]? = some reg ∧ reg.createdBlock = reg'.createdBlock)
    (symbols : t'.bySymbol = t.bySymbol) : Sourced t' := by
  intro tid reg' found
  obtain ⟨reg,before,block⟩ := entries tid reg' found
  obtain ⟨tx,origin⟩ := sourced tid reg before
  exact ⟨tx,origin.kind,origin.hashed,symbols ▸ origin.named,fun later => origin.valid (block ▸ later)⟩

theorem applyTxSourced {t t' : Tokens} {tx : Transaction} {idx : Int} (sourced : Sourced t)
    (valid : idx ≠ 0 → tx.txType = .ISSUE_TOKEN → ValidIssue tx) (run : t.applyTx tx idx = .ok t') : Sourced t' := by
  unfold Tokens.applyTx at run
  split at run
  · cases run
    exact sourced
  split at run
  · rename_i kind
    obtain ⟨reg,registry,symbols,block⟩ := issueTokenBlock run
    intro tid reg' found
    rw [registry,Std.ExtTreeMap.getElem?_insert] at found
    split at found
    · rename_i same
      cases found
      refine ⟨tx,kind,by simpa using same,?_,fun later => valid (block ▸ later) kind⟩
      rw [symbols]
      exact Std.ExtTreeMap.mem_insert_self
    · obtain ⟨other,origin⟩ := sourced tid reg' found
      refine ⟨other,origin.kind,origin.hashed,?_,origin.valid⟩
      rw [symbols]
      exact Std.ExtTreeMap.mem_insert.mpr (.inr origin.named)
  · obtain ⟨tid,reg,amount,-,found,-,-,-,-,rfl⟩ := Tokens.mintTokenOk run
    obtain ⟨registry,symbols,-⟩ := Tokens.setTables ({ t with
      registry := t.registry.insert tid { reg with totalMinted := reg.totalMinted + amount } } : Tokens)
      tid tx.recipient (t.getTokenBalance tid tx.recipient + amount)
    refine sourced.kept (fun other reg' here => ?_) symbols
    rw [registry,Std.ExtTreeMap.getElem?_insert] at here
    split at here
    · rename_i same
      cases here
      exact ⟨reg,(by simpa using same : tid = other) ▸ found,rfl⟩
    · exact ⟨reg',here,rfl⟩
  · obtain ⟨tid,reg,amount,-,-,-,-,rfl⟩ := Tokens.transferTokenOk run
    obtain ⟨settled,symbols,-⟩ := Tokens.settleTables t tid tx.sender (t.getTokenBalance tid tx.sender - amount)
    generalize t.settleTokenBalance tid tx.sender (t.getTokenBalance tid tx.sender - amount) = u at settled symbols
    obtain ⟨registry,symbols',-⟩ := Tokens.setTables u tid tx.recipient (u.getTokenBalance tid tx.recipient + amount)
    refine sourced.kept (fun other reg' here => ?_) (symbols'.trans symbols)
    rw [registry,settled] at here
    exact ⟨reg',here,rfl⟩
  · cases run
    exact sourced

theorem checkedIssue {s : Blockchain} {block : Block} {idx : Int} {tx : Transaction}
    (checked : idx ≠ 0 → s.transactionsCheck block = .ok ()) (listed : tx ∈ block.transactions) (later : idx ≠ 0)
    (kind : tx.txType = .ISSUE_TOKEN) : ValidIssue tx := by
  have admitted := Blockchain.transactionsCheckMem (checked later) tx listed
  exact ⟨kind,admitted.signed,admitted.payload⟩

theorem builtSourced {s : Blockchain} (built : Blockchain.Built s) : Sourced s.state.tokens := by
  induction built with
  | memory => exact fun tid reg found => absurd found (by simp [Blockchain.new])
  | sqlite => exact fun tid reg found => absurd found (by simp [Blockchain.new])
  | initChain address sk pk now prior run ih => rw [Blockchain.initChainTokens run]; exact ih
  | activate address prior run ih =>
    obtain ⟨-,-,-,-,-,-,-,tokens,-⟩ := Blockchain.activateKeeps run
    rw [tokens]
    exact ih
  | submit now tx prior ih => rw [Blockchain.submitState]; exact ih
  | accept block prior step ih =>
    obtain ⟨c,grown⟩ := Blockchain.acceptsGrown step
    rw [grown.tokens]
    have position := Blockchain.acceptsPosition (Blockchain.builtCoherent prior) step
    refine Outcome.foldInvariantMem Sourced (fun t tx listed t' kept step => ?_) ih
      (ChainState.applyBlockTokens grown.applied)
    exact applyTxSourced kept (checkedIssue (fun later => grown.checked (position ▸ later)) listed) step

def Refused (t : Tokens) (tx : Transaction) (idx : Int) : Prop :=
  ∃ tid, t.applyTx tx idx = t.reject ("token_id collision: " ++ tid)

theorem refusedIff {t : Tokens} {tx : Transaction} {idx : Int} (valid : ValidIssue tx) (started : 0 ≤ idx)
    (unused : tx.symbol ∉ t.bySymbol) :
    Refused t tx idx ↔ Tokens.tokenIdOf tx.sender tx.symbol tx.nonce ∈ t.registry := by
  obtain ⟨symbol,given⟩ : ∃ symbol, tx.payload.symbol = some symbol := by
    have checked := (validatePayloadOk valid.payload).2.2
    simp only [typeCheck,valid.kind,issueTokenCheck,Outcome.bindOk,refuseIfOk] at checked
    obtain ⟨_,-,_,-,_,-,_,nonempty,-⟩ := checked
    cases spelled : tx.payload.symbol with
    | none => exact absurd (by rw [spelled]; rfl) nonempty
    | some symbol => exact ⟨symbol,rfl⟩
  have spelled : tx.symbol = symbol := by rw [Transaction.symbol,given,Option.getD_some]
  rw [spelled] at unused ⊢
  have active : ¬idx < tokenActivationHeight := by
    have : tokenActivationHeight = 0 := rfl
    omega
  unfold Refused Tokens.applyTx
  rw [if_neg active]
  simp only [valid.kind,Tokens.issueToken,given,Tokens.required,bind,Except.bind,if_neg unused]
  split
  · rename_i taken
    exact ⟨fun _ => taken,fun _ => ⟨_,rfl⟩⟩
  · rename_i free
    refine ⟨fun ⟨tid,same⟩ => ?_,fun taken => absurd taken free⟩
    unfold Tokens.reject at same
    split at same
    · rename_i absent
      split at absent <;> cases absent
      simp at same
    · split at same
      · rename_i absent
        split at absent <;> cases absent
        simp at same
      · contradiction

/- An issued token whose string this transaction repeats: its symbol spills, or the genesis
block issued it unchecked. -/
def Repeats (issued tx : Transaction) : Prop :=
  Confused issued tx ∨ (¬ValidIssue issued ∧ issued.idString = tx.idString)

theorem repeatsIff {t : Tokens} {tid : TokenId} {reg : TokenMeta} {issued tx : Transaction}
    (origin : Origin t tid reg issued) (valid : ValidIssue tx) (unused : tx.symbol ∉ t.bySymbol) :
    Repeats issued tx ↔ issued.idString = tx.idString := by
  unfold Repeats
  by_cases checked : ValidIssue issued
  · rw [idStringsSame checked valid]
    have other : issued.symbol ≠ tx.symbol := fun same => unused (same ▸ origin.named)
    tauto
  · constructor
    · rintro (confused | ⟨-,same⟩)
      · exact confusedSame confused
      · exact same
    · exact fun same => .inr ⟨checked,same⟩

def Excused (t : Tokens) (issued : TokenId → Transaction) (tx : Transaction) (idx : Int) : Prop :=
  Refused t tx idx → ∃ tid ∈ t.registry, encode (issued tid).idString ≠ encode tx.idString ∧
    (sha3_256 (encode (issued tid).idString)).take 16 = (sha3_256 (encode tx.idString)).take 16

theorem excusedIff {t : Tokens} {issued : TokenId → Transaction} {tx : Transaction} {idx : Int}
    (origins : ∀ (tid : TokenId) reg, t.registry[tid]? = some reg → Origin t tid reg (issued tid))
    (valid : ValidIssue tx) (started : 0 ≤ idx) (unused : tx.symbol ∉ t.bySymbol) :
    Excused t issued tx idx ↔ ¬∃ tid ∈ t.registry, Repeats (issued tid) tx := by
  have hashed : ∀ tid ∈ t.registry, ((issued tid).idString = tx.idString ↔ Repeats (issued tid) tx) ∧
      Tokens.tokenIdOf (issued tid).sender (issued tid).symbol (issued tid).nonce = tid := by
    intro tid listed
    have origin := origins tid _ (Std.ExtTreeMap.getElem?_eq_some_getElem listed)
    exact ⟨(repeatsIff origin valid unused).symm,origin.hashed⟩
  unfold Excused
  rw [refusedIff valid started unused]
  constructor
  · rintro excused ⟨tid,listed,repeated⟩
    have same := (hashed tid listed).1.mpr repeated
    have own : Tokens.tokenIdOf tx.sender tx.symbol tx.nonce = tid := by
      rw [← (hashed tid listed).2]
      exact congrArg (fun text => hex ((sha3_256 (encode text)).take 16)) same.symm
    obtain ⟨other,listed',differ,bits⟩ := excused (own ▸ listed)
    have again : other = tid := by
      rw [← own,← (hashed other listed').2]
      exact congrArg hex bits
    rw [again] at differ
    exact differ (congrArg encode same)
  · rintro fresh taken
    refine ⟨_,taken,fun same => ?_,?_⟩
    · exact fresh ⟨_,taken,(hashed _ taken).1.mp (encodeInjective same)⟩
    · exact hexInjective (hashed _ taken).2

theorem refusedFails {s opened before mid : ChainState} {block : Block} {idx : Int} {i : Nat} {tx : Transaction}
    (listed : block.transactions[i]? = some tx) (opening : s.openBlock idx = .ok opened)
    (prior : (block.transactions.zipIdx.take i).foldlM (ChainState.applyTx block idx) opened = .ok before)
    (kind : tx.txType = .ISSUE_TOKEN)
    (charged : ChainState.chargeTx { before with index := before.index.recordTx idx i tx } block idx tx = .ok mid)
    (refused : Refused before.tokens tx idx) :
    ∃ r tid, s.applyBlock block idx = .error r ∧ r.exception = .valueError ("token_id collision: " ++ tid) := by
  obtain ⟨tid,refused⟩ := refused
  obtain ⟨staking,tokens⟩ := ChainState.chargeTxStaking charged
  have turn : ∃ r, ChainState.applyTx block idx before (tx,i) = .error r ∧
      r.exception = .valueError ("token_id collision: " ++ tid) := by
    simp only [ChainState.applyTx,charged,bind,Except.bind,Staking.applyTx,kind,Outcome.within]
    rw [show mid.tokens = before.tokens from tokens,refused]
    exact ⟨_,rfl,rfl⟩
  obtain ⟨r,raised,exception⟩ := turn
  have loop : block.transactions.zipIdx.foldlM (ChainState.applyTx block idx) opened = .error r := by
    have here : block.transactions.zipIdx[i]? = some (tx,i) := by simp [List.getElem?_zipIdx,listed]
    obtain ⟨within,same⟩ := List.getElem?_eq_some_iff.mp here
    rw [← List.take_append_drop i block.transactions.zipIdx,List.drop_eq_getElem_cons within,same,
      List.foldlM_append,prior]
    change (ChainState.applyTx block idx before (tx,i) >>= _) = _
    rw [raised]
    rfl
  refine ⟨r,tid,?_,exception⟩
  simp only [ChainState.applyBlock,opening,bind,Except.bind,ChainState.applyTxs]
  rw [loop]

/- The strings of two tokens differ unless a symbol spills into a nonce. A transaction with
an unused symbol is turned away over another string with the same 128 bits, unless it repeats
the string of a registered token; and what is turned away fails its block. -/
theorem tokenIdsAmbiguous :
    (∀ a b, ValidIssue a → ValidIssue b → (a.sender,a.symbol,a.nonce) ≠ (b.sender,b.symbol,b.nonce) →
      (encode a.idString ≠ encode b.idString ↔ ¬Confused a b)) ∧
    ∀ (s : Blockchain) (block : Block) (i : Nat) (opened before : ChainState), Blockchain.Built s →
      (s.height + 1 ≠ 0 → s.transactionsCheck block = .ok ()) → s.state.openBlock (s.height + 1) = .ok opened →
      (block.transactions.zipIdx.take i).foldlM (ChainState.applyTx block (s.height + 1)) opened = .ok before →
      ∃ issued : TokenId → Transaction,
        (∀ (tid : TokenId) reg, before.tokens.registry[tid]? = some reg → Origin before.tokens tid reg (issued tid)) ∧
        ∀ tx, ValidIssue tx → tx.symbol ∉ before.tokens.bySymbol →
          (Excused before.tokens issued tx (s.height + 1) ↔ ¬∃ tid ∈ before.tokens.registry, Repeats (issued tid) tx) ∧
          (Refused before.tokens tx (s.height + 1) → block.transactions[i]? = some tx → ∀ mid,
            ChainState.chargeTx { before with index := before.index.recordTx (s.height + 1) i tx } block (s.height + 1) tx =
              .ok mid → ∃ r tid, s.state.applyBlock block (s.height + 1) = .error r ∧
                r.exception = .valueError ("token_id collision: " ++ tid)) := by
  constructor
  · intro a b validA validB differ
    rw [Ne,encodeInjective.eq_iff,idStringsSame validA validB,not_or]
    exact and_iff_right (fun same => differ (by rw [same.1,same.2.1,same.2.2]))
  · intro s block i opened before built checked opening prior
    have started : 0 ≤ s.height + 1 := by
      have := (Blockchain.builtCoherent built).bounded
      omega
    have first : opened.tokens = s.state.tokens := by
      have apart := ChainState.openBlockApart s.state (s.height + 1)
      rw [opening] at apart
      exact apart.tokens
    have sourced : Sourced before.tokens := by
      refine Outcome.foldInvariantMem (fun c : ChainState => Sourced c.tokens) (fun c row inside c' kept step => ?_)
        (by rw [first]; exact builtSourced built) prior
      have listed := List.fst_mem_of_mem_zipIdx (List.mem_of_mem_take inside)
      exact applyTxSourced kept (checkedIssue checked listed) (ChainState.applyTxTokens step)
    have origins : ∀ tid : TokenId, ∃ tx, ∀ reg, before.tokens.registry[tid]? = some reg → Origin before.tokens tid reg tx := by
      intro tid
      cases found : before.tokens.registry[tid]? with
      | none => exact ⟨{ txType := .ISSUE_TOKEN, sender := "", payload := {}, timestamp := 0 },fun reg here => by cases here⟩
      | some reg =>
        obtain ⟨tx,origin⟩ := sourced tid reg found
        exact ⟨tx,fun reg' here => Option.some.inj here ▸ origin⟩
    obtain ⟨issued,origins⟩ := Classical.axiomOfChoice origins
    refine ⟨issued,origins,fun tx valid unused => ⟨excusedIff origins valid started unused,?_⟩⟩
    exact fun refused listed mid charged => refusedFails listed opening prior valid.kind charged refused

end Issues

end QbitNetwork

namespace QbitNetwork.Devnet
attribute [local instance] legacy
open Blockchain

def issueNamed (symbol : String) (nonce : Int) : Transaction :=
  Transaction.sign
    { txType := .ISSUE_TOKEN
      sender := address
      payload := { name := some "Gold", symbol := some symbol, decimals := some 2 }
      timestamp := 101
      nonce } key key

def spillingQueue : List Transaction :=
  issueNamed "AB1" 0 :: (List.range 9).map (fun i => notarization (i + 1)) ++ [issueNamed "AB" 10]

def spilling : Blockchain := spillingQueue.foldl (fun s tx => (s.submitTx 101 tx).2) active

theorem spillingBuilt : Built spilling := by
  have submitted : ∀ (txs : List Transaction) (s : Blockchain), Built s →
      Built (txs.foldl (fun s tx => (s.submitTx 101 tx).2) s) := by
    intro txs
    induction txs with
    | nil => exact fun _ built => built
    | cons tx rest ih => exact fun s built => ih _ (.submit 101 tx built)
  exact submitted spillingQueue active activeBuilt

theorem issuesValid : ValidIssue (issueNamed "AB1" 0) ∧ ValidIssue (issueNamed "AB" 10) := by
  have checked : (issueNamed "AB1" 0).verify = true ∧ (issueNamed "AB1" 0).validatePayload = .ok () ∧
      (issueNamed "AB" 10).verify = true ∧ (issueNamed "AB" 10).validatePayload = .ok () := by decide +kernel
  exact ⟨⟨rfl,checked.1,checked.2.1⟩,⟨rfl,checked.2.2.1,checked.2.2.2⟩⟩

theorem tokenIdsClash : (∃ a b, ValidIssue a ∧ ValidIssue b ∧ a.symbol ≠ b.symbol ∧ a.nonce ≠ b.nonce ∧
    encode a.idString = encode b.idString) ∧ Built spilling ∧ spilling.pool.txPool = spillingQueue ∧
      (spilling.produceBlock address key 102 102).1 =
        .raised (.valueError ("token_id collision: " ++ Tokens.tokenIdOf address "AB" 10)) := by
  have run : encode (issueNamed "AB1" 0).idString = encode (issueNamed "AB" 10).idString ∧
      spilling.pool.txPool = spillingQueue ∧ (spilling.produceBlock address key 102 102).1 =
        .raised (.valueError ("token_id collision: " ++ Tokens.tokenIdOf address "AB" 10)) := by decide +kernel
  refine ⟨⟨_,_,issuesValid.1,issuesValid.2,?_,by decide,run.1⟩,spillingBuilt,run.2⟩
  decide

theorem tokenIdsApart : encode (issueNamed "AB1" 0).idString ≠ encode (issueNamed "AB" 11).idString ∧
    ∃ opened issued, active.state.openBlock (active.height + 1) = .ok opened ∧
      Excused opened.tokens issued (issueNamed "AB" 10) (active.height + 1) := by
  have validOther : ValidIssue (issueNamed "AB" 11) := by
    have checked : (issueNamed "AB" 11).verify = true ∧ (issueNamed "AB" 11).validatePayload = .ok () := by decide +kernel
    exact ⟨rfl,checked.1,checked.2⟩
  have apart : ¬Confused (issueNamed "AB1" 0) (issueNamed "AB" 11) := by
    rintro ⟨-,⟨d,-,-,symbols,-⟩ | ⟨d,-,-,symbols,nonces⟩⟩
    · have shorter := congrArg String.length symbols
      rw [String.length_append] at shorter
      change 2 = 3 + _ at shorter
      omega
    · -- the digit of the symbol would have to be the 1 of the nonce, and 0 its rest
      have value : (11 : Int) = d * 10 ^ 1 + 0 := nonces
      omega
  have run : (active.state.openBlock (active.height + 1)).toOption.map
      (fun c => (c.tokens.registry.isEmpty,c.tokens.bySymbol.isEmpty)) = some (true,true) := by decide +kernel
  cases opening : active.state.openBlock (active.height + 1) with
  | error r =>
    rw [opening] at run
    contradiction
  | ok opened =>
    rw [opening] at run
    obtain ⟨tokens,symbols⟩ := Prod.mk.inj (Option.some.inj run)
    rw [Std.ExtTreeMap.isEmpty_iff] at tokens symbols
    obtain ⟨strings,refusals⟩ := tokenIdsAmbiguous
    obtain ⟨issued,-,law⟩ := refusals active { active.tipBlock with transactions := [] } 0 opened opened activeBuilt
      (fun _ => rfl) opening rfl
    have unused := (law (issueNamed "AB" 10) issuesValid.2 (by rw [symbols]; exact Std.ExtTreeMap.not_mem_empty)).1
    refine ⟨?_,opened,issued,rfl,unused.mpr ?_⟩
    · exact (strings _ _ issuesValid.1 validOther (by decide)).mpr apart
    · rintro ⟨tid,listed,-⟩
      rw [tokens] at listed
      exact Std.ExtTreeMap.not_mem_empty listed

end QbitNetwork.Devnet
