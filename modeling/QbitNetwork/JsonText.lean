import QbitNetwork.Bytes
import QbitNetwork.Lib.Scan

/-! Canonical JSON text: no value's text goes on where another's ends, and an object's text
tells its rows. -/
namespace QbitNetwork

theorem encodeChars (text : String) : encode text = text.toList.flatMap String.utf8EncodeChar := by
  rw [encode,String.toUTF8_eq_toByteArray,← String.utf8Encode_toList,List.utf8Encode,List.toList_data_toByteArray]

namespace Json

section Numerals

theorem digitNumeral {c : Char} (digit : c.isDigit = true) :
    ∀ b ∈ String.utf8EncodeChar c, isNumeral b = true := by
  have bounds : 48 ≤ c.toNat ∧ c.toNat ≤ 57 := by
    simp only [Char.isDigit,ge_iff_le,Bool.and_eq_true,decide_eq_true_eq] at digit
    exact ⟨UInt32.le_iff_toNat_le.mp digit.1,UInt32.le_iff_toNat_le.mp digit.2⟩
  have small := utf8EncodeSmall c.toNat (by omega)
  rw [Char.ofNat_toNat] at small
  rw [small]
  intro b inside
  rw [List.mem_singleton.mp inside]
  have numerals : ∀ n < 58, 48 ≤ n → isNumeral (UInt8.ofNat n) = true := by decide
  exact numerals _ (by omega) bounds.1

theorem natNumeral (n : Nat) : ∀ b ∈ encode n.repr, isNumeral b = true := by
  intro b inside
  rw [encodeChars,Nat.toList_repr] at inside
  obtain ⟨c,digit,byte⟩ := List.mem_flatMap.mp inside
  exact digitNumeral (Nat.isDigit_of_mem_toDigits (by decide) (by decide) digit) b byte

theorem intNumeral (n : Int) : ∀ b ∈ encode (toString n), isNumeral b = true := by
  cases n with
  | ofNat n => exact natNumeral n
  | negSucc n =>
    intro b inside
    rw [show toString (Int.negSucc n) = "-" ++ (n + 1).repr from rfl,encodeAppend] at inside
    rcases List.mem_append.mp inside with sign | digits
    · have minus : encode "-" = [45] := by decide
      rw [minus] at sign
      rw [List.mem_singleton.mp sign]
      decide
    · exact natNumeral _ b digits

end Numerals

section Strings

inductive Quoting where
  | before | inside | escape | behind
  deriving DecidableEq

def quote : Quoting → UInt8 → Option Quoting
  | .before,b => if b = 34 then some .inside else none
  | .inside,b => if b = 34 then some .behind else if b = 92 then some .escape else some .inside
  | .escape,_ => some .inside
  | .behind,_ => none

def Contained (body : Bytes) : Prop := body.foldlM quote .inside = some .inside

theorem containedAppend {a b : Bytes} (first : Contained a) (second : Contained b) : Contained (a ++ b) :=
  Scan.foldThrough quote first second

theorem containedPlain {body : Bytes} (plain : ∀ b ∈ body, b ≠ 34 ∧ b ≠ 92) : Contained body := by
  refine Scan.foldSteady quote (fun b inside => ?_)
  obtain ⟨quoted,escaped⟩ := plain b inside
  simp only [quote,if_neg quoted,if_neg escaped]

theorem containedEscaped (b : UInt8) {rest : Bytes} (plain : ∀ b ∈ rest, b ≠ 34 ∧ b ≠ 92) :
    Contained (escaped (b :: rest)) := by
  have opened : ([92,b] : Bytes).foldlM quote .inside = some .inside := rfl
  exact Scan.foldThrough quote opened (containedPlain plain)

theorem hexDigitPlain : ∀ n < 16, hexDigit n ≠ 34 ∧ hexDigit n ≠ 92 := by decide

theorem hex4Plain (n : Nat) : ∀ b ∈ hex4 n, b ≠ 34 ∧ b ≠ 92 := by
  intro b inside
  simp only [hex4,List.mem_cons,List.not_mem_nil,or_false] at inside
  rcases inside with rfl | rfl | rfl | rfl <;> exact hexDigitPlain _ (Nat.mod_lt _ (by decide))

theorem containedChar (c : Char) : Contained (escapeChar c) := by
  unfold escapeChar
  split
  · exact containedEscaped _ (by simp)
  split
  · exact containedEscaped _ (by simp)
  split
  · exact containedEscaped _ (by simp)
  split
  · exact containedEscaped _ (by simp)
  split
  · exact containedEscaped _ (by simp)
  split
  · exact containedEscaped _ (by simp)
  split
  · exact containedEscaped _ (by simp)
  split
  · rename_i quoted slash _ _ _ _ _ printable
    have codes : ∀ n < 127, n ≠ 34 → n ≠ 92 → UInt8.ofNat n ≠ 34 ∧ UInt8.ofNat n ≠ 92 := by decide
    refine containedPlain (fun b inside => ?_)
    rw [List.mem_singleton.mp inside]
    refine codes _ (by omega) (fun same => quoted ?_) (fun same => slash ?_)
    · exact Char.toNat_inj.mp same
    · exact Char.toNat_inj.mp same
  split
  · exact containedEscaped _ (hex4Plain _)
  · exact containedAppend (containedEscaped _ (hex4Plain _)) (containedEscaped _ (hex4Plain _))

def readHex4 : Bytes → Option (Nat × Bytes)
  | a :: b :: c :: d :: rest => do
      let a ← hexValue a
      let b ← hexValue b
      let c ← hexValue c
      let d ← hexValue d
      some (4096 * a + 256 * b + 16 * c + d,rest)
  | _ => none

theorem hexValueDigit : ∀ n < 16, hexValue (hexDigit n) = some n := by decide

theorem hexDigitSolid : ∀ n < 16, isSpace (hexDigit n) = false := by decide

theorem fromHexBytesHex (data : Bytes) : fromHexBytes (hexBytes data) = some data := by
  induction data with
  | nil => rfl
  | cons b rest ih =>
    have range := b.toNat_lt
    have high : b.toNat / 16 < 16 := by omega
    have low : b.toNat % 16 < 16 := Nat.mod_lt _ (by decide)
    rw [show hexBytes (b :: rest) = hexDigit (b.toNat / 16) :: hexDigit (b.toNat % 16) :: hexBytes rest from rfl,
      fromHexBytes,hexDigitSolid _ high,if_neg Bool.false_ne_true]
    simp only [hexValueDigit _ high,hexValueDigit _ low,ih,Option.bind_eq_bind,Option.bind_some,
      Nat.div_add_mod,UInt8.ofNat_toNat]

theorem fromHexHex (data : Bytes) : fromHex (hex data) = some data := by
  rw [fromHex,hex,encodeAscii,fromHexBytesHex]

theorem readHex4Digits {n : Nat} (small : n < 65536) (rest : Bytes) :
    readHex4 (hex4 n ++ rest) = some (n,rest) := by
  have digit : ∀ m, hexValue (hexDigit (m % 16)) = some (m % 16) :=
    fun m => hexValueDigit _ (Nat.mod_lt _ (by decide))
  simp only [hex4,List.cons_append,List.nil_append,readHex4,digit,Option.bind_eq_bind,Option.bind_some,
    Option.some.injEq,Prod.mk.injEq,and_true]
  omega

def shortEscape (b : UInt8) : Option Nat :=
  if b = 34 then some 34
  else if b = 92 then some 92
  else if b = 110 then some 10
  else if b = 114 then some 13
  else if b = 116 then some 9
  else if b = 98 then some 8
  else if b = 102 then some 12
  else none

def unescape : Bytes → Option (Nat × Bytes)
  | [] => none
  | b :: rest =>
      if b = 92 then
        match rest with
        | [] => none
        | e :: rest =>
            match shortEscape e with
            | some code => some (code,rest)
            | none =>
                match readHex4 rest with
                | none => none
                | some (high,rest) =>
                    if 55296 ≤ high ∧ high < 56320 then
                      (readHex4 (rest.drop 2)).map
                        (fun low => (65536 + (high - 55296) * 1024 + (low.1 - 56320),low.2))
                    else some (high,rest)
      else some (b.toNat,rest)

theorem unescapeHex {n : Nat} (small : n < 65536) (plain : ¬(55296 ≤ n ∧ n < 56320)) (rest : Bytes) :
    unescape (escaped (117 :: hex4 n) ++ rest) = some (n,rest) := by
  have letter : shortEscape 117 = none := by decide
  simp only [escaped,List.cons_append,unescape,if_true,letter,readHex4Digits small,if_neg plain]

theorem unescapePair {high low : Nat} (small : high < 1024) (smaller : low < 1024) (rest : Bytes) :
    unescape (escaped (117 :: hex4 (55296 + high)) ++ escaped (117 :: hex4 (56320 + low)) ++ rest) =
      some (65536 + high * 1024 + low,rest) := by
  have letter : shortEscape 117 = none := by decide
  have second : ((escaped (117 :: hex4 (56320 + low))) ++ rest).drop 2 = hex4 (56320 + low) ++ rest := rfl
  rw [List.append_assoc]
  generalize escaped (117 :: hex4 (56320 + low)) ++ rest = tail at second
  simp only [escaped,List.cons_append,unescape,if_true,letter]
  rw [readHex4Digits (by omega)]
  dsimp only
  have number : 65536 + (55296 + high - 55296) * 1024 + (56320 + low - 56320) = 65536 + high * 1024 + low := by
    omega
  rw [if_pos (by omega),second,readHex4Digits (by omega),Option.map_some]
  exact congrArg (fun n => some (n,rest)) number

theorem scalarValue (c : Char) : c.toNat < 55296 ∨ 57343 < c.toNat ∧ c.toNat < 1114112 := c.valid

theorem unescapeChar (c : Char) (rest : Bytes) : unescape (escapeChar c ++ rest) = some (c.toNat,rest) := by
  have short : ∀ b code, shortEscape b = some code → unescape (escaped [b] ++ rest) = some (code,rest) := by
    intro b code known
    simp only [escaped,List.cons_append,List.nil_append,unescape,if_true,known]
  unfold escapeChar
  split
  · rename_i same; subst same; exact short 34 34 (by decide)
  split
  · rename_i same; subst same; exact short 92 92 (by decide)
  split
  · rename_i same; subst same; exact short 110 10 (by decide)
  split
  · rename_i same; subst same; exact short 114 13 (by decide)
  split
  · rename_i same; subst same; exact short 116 9 (by decide)
  split
  · rename_i same; rw [same]; exact short 98 8 (by decide)
  split
  · rename_i same; rw [same]; exact short 102 12 (by decide)
  split
  · rename_i quoted slash _ _ _ _ _ printable
    have codes : ∀ n < 127, n ≠ 92 → UInt8.ofNat n ≠ 92 ∧ (UInt8.ofNat n).toNat = n := by decide
    obtain ⟨different,number⟩ := codes c.toNat (by omega) (fun same => slash (Char.toNat_inj.mp same))
    simp only [List.cons_append,List.nil_append,unescape,if_neg different,number]
  have valid := scalarValue c
  split
  · rename_i small
    exact unescapeHex small (by omega) rest
  · have number : 65536 + (c.toNat - 65536) / 1024 * 1024 + (c.toNat - 65536) % 1024 = c.toNat := by omega
    rw [unescapePair (by omega) (by omega)]
    exact congrArg (fun n => some (n,rest)) number

theorem escapeInjective : ∀ {a b : List Char}, a.flatMap escapeChar = b.flatMap escapeChar → a = b := by
  intro a
  induction a with
  | nil =>
    rintro (_ | ⟨d,b⟩) same
    · rfl
    · have first := unescapeChar d (b.flatMap escapeChar)
      rw [← List.flatMap_cons,← same] at first
      cases first
  | cons c a ih =>
    rintro (_ | ⟨d,b⟩) same
    · have first := unescapeChar c (a.flatMap escapeChar)
      rw [← List.flatMap_cons,same] at first
      cases first
    · have first := unescapeChar c (a.flatMap escapeChar)
      rw [← List.flatMap_cons,same,List.flatMap_cons,unescapeChar] at first
      simp only [Option.some.injEq,Prod.mk.injEq] at first
      rw [Char.toNat_inj.mp first.1,ih first.2.symm]

theorem plainChar {c : Char} (plain : ∀ b ∈ String.utf8EncodeChar c, isPlain b = true) :
    String.utf8EncodeChar c = escapeChar c := by
  by_cases ascii : c.toNat < 128
  · have small := utf8EncodeSmall c.toNat ascii
    rw [Char.ofNat_toNat] at small
    rw [small] at plain ⊢
    have codes : ∀ n < 128, isPlain (UInt8.ofNat n) = true → 32 ≤ n ∧ n ≤ 126 ∧ n ≠ 34 ∧ n ≠ 92 := by decide
    obtain ⟨low,high,quoted,slash⟩ := codes _ ascii (plain _ (List.mem_singleton_self _))
    have other : ∀ d : Char, d.toNat < 32 ∨ d.toNat = 34 ∨ d.toNat = 92 → c ≠ d := by
      rintro d range rfl
      omega
    unfold escapeChar
    rw [if_neg (other _ (by decide)),if_neg (other _ (by decide)),if_neg (other _ (by decide)),
      if_neg (other _ (by decide)),if_neg (other _ (by decide)),if_neg (by omega),if_neg (by omega),
      if_pos ⟨low,high⟩]
  · have leads : ∃ first rest, String.utf8EncodeChar c = first :: rest ∧ isPlain first = false := by
      have two : ∀ x < 32, isPlain (UInt8.ofNat (x + 192)) = false := by decide
      have three : ∀ x < 16, isPlain (UInt8.ofNat (x + 224)) = false := by decide
      have four : ∀ x < 8, isPlain (UInt8.ofNat (x + 240)) = false := by decide
      simp only [String.utf8EncodeChar]
      rw [if_neg (show ¬c.val.toNat ≤ 127 from fun low => ascii (Nat.lt_succ_of_le low))]
      split
      · exact ⟨_,_,rfl,two _ (Nat.mod_lt _ (by decide))⟩
      · split
        · exact ⟨_,_,rfl,three _ (Nat.mod_lt _ (by decide))⟩
        · exact ⟨_,_,rfl,four _ (Nat.mod_lt _ (by decide))⟩
    obtain ⟨first,rest,shape,special⟩ := leads
    have wrong := plain first (by rw [shape]; exact List.mem_cons_self ..)
    rw [special] at wrong
    contradiction

theorem dumpsStrEscaped (text : String) : dumpsStr text = 34 :: (text.toList.flatMap escapeChar ++ [34]) := by
  unfold dumpsStr
  split
  · rename_i plain
    rw [List.all_eq_true,encodeChars] at plain
    rw [encodeChars]
    congr 2
    refine List.flatMap_congr (fun c inside => plainChar (fun b byte => plain b ?_))
    exact List.mem_flatMap.mpr ⟨c,inside,byte⟩
  · rfl

theorem containedText (chars : List Char) : Contained (chars.flatMap escapeChar) := by
  induction chars with
  | nil => rfl
  | cons c rest ih => exact containedAppend (containedChar c) ih

theorem dumpsStrQuoted (text : String) : (dumpsStr text).foldlM quote .before = some .behind := by
  rw [dumpsStrEscaped,List.foldlM_cons]
  exact Scan.foldThrough quote (containedText text.toList) rfl

theorem dumpsStrUnique {a b : String} {t u : Bytes} (same : dumpsStr a ++ t = dumpsStr b ++ u) :
    a = b ∧ t = u := by
  obtain ⟨texts,tails⟩ := Scan.wordUnique quote (dumpsStrQuoted a) (dumpsStrQuoted b)
    (fun _ _ => rfl) (fun _ _ => rfl) same
  rw [dumpsStrEscaped,dumpsStrEscaped,List.cons.injEq] at texts
  exact ⟨String.toList_inj.mp (escapeInjective (List.append_cancel_right texts.2)),tails⟩

end Strings

section Values

inductive Reading where
  | outside (depth : Nat)
  | inside (depth : Nat)
  | escape (depth : Nat)

def read : Reading → UInt8 → Option Reading
  | .outside depth,b =>
      if b = 34 then some (.inside depth)
      else if b = 91 ∨ b = 123 then some (.outside (depth + 1))
      else if b = 44 ∨ b = 93 ∨ b = 125 then
        match depth with
        | 0 => none
        | open' + 1 => some (.outside (if b = 44 then open' + 1 else open'))
      else some (.outside depth)
  | .inside depth,b =>
      if b = 34 then some (.outside depth) else if b = 92 then some (.escape depth) else some (.inside depth)
  | .escape depth,_ => some (.inside depth)

def Reads (text : Bytes) : Prop := ∀ depth, text.foldlM read (.outside depth) = some (.outside depth)

theorem containedReads {body : Bytes} (depth : Nat) : ∀ escape : Bool,
    body.foldlM quote (if escape then .escape else .inside) = some .inside →
    body.foldlM read (if escape then .escape depth else .inside depth) = some (.inside depth) := by
  induction body with
  | nil =>
    rintro (_ | _) run
    · rfl
    · cases run
  | cons b rest ih =>
    rintro (_ | _) run
    · rw [List.foldlM_cons] at run ⊢
      simp only [Bool.false_eq_true,if_false,quote,read] at run ⊢
      by_cases quoted : b = 34
      · rw [if_pos quoted] at run
        cases rest <;> cases run
      · rw [if_neg quoted] at run ⊢
        by_cases slash : b = 92
        · rw [if_pos slash] at run ⊢
          exact ih true run
        · rw [if_neg slash] at run ⊢
          exact ih false run
    · rw [List.foldlM_cons] at run ⊢
      exact ih false run

theorem readsStr (text : String) : Reads (dumpsStr text) := by
  intro depth
  rw [dumpsStrEscaped,List.foldlM_cons]
  exact Scan.foldThrough read (containedReads depth false (containedText text.toList)) rfl

theorem readsNumeral {text : Bytes} (numeral : ∀ b ∈ text, isNumeral b = true) : Reads text := by
  intro depth
  refine Scan.foldSteady read (fun b inside => ?_)
  have neutral : ∀ n < 256, isNumeral (UInt8.ofNat n) = true → UInt8.ofNat n ≠ 34 ∧
      ¬(UInt8.ofNat n = 91 ∨ UInt8.ofNat n = 123) ∧
      ¬(UInt8.ofNat n = 44 ∨ UInt8.ofNat n = 93 ∨ UInt8.ofNat n = 125) := by decide +kernel
  have plain := neutral b.toNat b.toNat_lt
  rw [UInt8.ofNat_toNat] at plain
  obtain ⟨quoted,opening,closing⟩ := plain (numeral b inside)
  simp only [read,if_neg quoted,if_neg opening,if_neg closing]

theorem readsAppend {a b : Bytes} (first : Reads a) (second : Reads b) : Reads (a ++ b) :=
  fun depth => Scan.foldThrough read (first depth) (second depth)

theorem readsCommas {items : List Bytes} (reads : ∀ item ∈ items, Reads item) (depth : Nat) :
    (commaSeparated items).foldlM read (.outside (depth + 1)) = some (.outside (depth + 1)) := by
  induction items with
  | nil => rfl
  | cons item rest ih =>
    have first := reads item (List.mem_cons_self ..) (depth + 1)
    have later := ih (fun other inside => reads other (List.mem_cons_of_mem _ inside))
    cases rest with
    | nil => simpa [commaSeparated] using first
    | cons next rest =>
      rw [commaSeparated,List.intercalate_cons_cons,List.append_assoc]
      have comma : ([44] : Bytes).foldlM read (.outside (depth + 1)) = some (.outside (depth + 1)) := rfl
      exact Scan.foldThrough read first (Scan.foldThrough read comma later)

theorem readsBracketed {items : List Bytes} {opening closing : UInt8} (reads : ∀ item ∈ items, Reads item)
    (opens : opening = 91 ∨ opening = 123) (closes : closing = 93 ∨ closing = 125) :
    Reads (opening :: (commaSeparated items ++ [closing])) := by
  intro depth
  have opened : read (.outside depth) opening = some (.outside (depth + 1)) := by
    rcases opens with rfl | rfl <;> rfl
  have closed : ([closing] : Bytes).foldlM read (.outside (depth + 1)) = some (.outside depth) := by
    rcases closes with rfl | rfl <;> rfl
  rw [List.foldlM_cons,opened]
  exact Scan.foldThrough read (readsCommas reads depth) closed

theorem readsRow {row : String × Bytes} (reads : Reads row.2) : Reads (dumpsStr row.1 ++ 58 :: row.2) := by
  have colon : Reads [58] := fun _ => rfl
  exact readsAppend (readsStr row.1) (readsAppend colon reads)

mutual
theorem readsDumps : ∀ value : Json, Reads value.dumps
  | .null => by
    rw [dumps]
    exact readsNumeral (by decide +kernel)
  | .int value => by
    rw [dumps]
    exact readsNumeral (intNumeral value)
  | .float value => by
    rw [dumps]
    exact readsNumeral (List.all_eq_true.mp value.numeral)
  | .bool value => by
    rw [dumps]
    cases value <;> exact readsNumeral (by decide +kernel)
  | .str value => by
    rw [dumps]
    exact readsStr value
  | .arr items => by
    rw [dumps]
    exact readsBracketed (readsItems items) (.inl rfl) (.inl rfl)
  | .obj fields => by
    rw [dumps]
    refine readsBracketed (fun item inside => ?_) (.inr rfl) (.inr rfl)
    obtain ⟨row,listed,rfl⟩ := List.mem_map.mp inside
    exact readsRow (readsFields fields row ((List.mem_insertionSort ..).mp listed))

theorem readsItems : ∀ items : List Json, ∀ text ∈ dumpsItems items, Reads text
  | [] => by simp [dumpsItems]
  | item :: rest => by
    rw [dumpsItems]
    intro text inside
    rcases List.mem_cons.mp inside with rfl | later
    · exact readsDumps item
    · exact readsItems rest text later

theorem readsFields : ∀ fields : List (String × Json), ∀ row ∈ dumpsFields fields, Reads row.2
  | [] => by simp [dumpsFields]
  | (key,value) :: rest => by
    rw [dumpsFields]
    intro row inside
    rcases List.mem_cons.mp inside with rfl | later
    · exact readsDumps value
    · exact readsFields rest row later
end

theorem endsAt {b : UInt8} (ends : b = 44 ∨ b = 93 ∨ b = 125) (rest : Bytes) :
    Scan.Stops read (.outside 0) (b :: rest) := by
  refine Scan.stopsCons read ?_
  rcases ends with rfl | rfl | rfl <;> rfl

theorem commaSeparatedCons (item : Bytes) (rest : List Bytes) (closing : UInt8) :
    ∃ tail, commaSeparated (item :: rest) ++ [closing] = item ++ tail ∧
      (rest = [] → tail = [closing]) ∧
      (rest ≠ [] → tail = 44 :: (commaSeparated rest ++ [closing])) := by
  cases rest with
  | nil => exact ⟨[closing],by simp [commaSeparated],fun _ => rfl,fun other => absurd rfl other⟩
  | cons next rest =>
    refine ⟨44 :: (commaSeparated (next :: rest) ++ [closing]),?_,fun absent => absurd absent (by simp),fun _ => rfl⟩
    rw [commaSeparated,List.intercalate_cons_cons,List.append_assoc,List.append_assoc]
    rfl

theorem commaSeparatedUnique {closing : UInt8} (closes : closing = 93 ∨ closing = 125) :
    ∀ {items others : List Bytes}, (∀ item ∈ items, Reads item ∧ item ≠ []) →
      (∀ item ∈ others, Reads item ∧ item ≠ []) →
      commaSeparated items ++ [closing] = commaSeparated others ++ [closing] → items = others := by
  have final : ∀ b : UInt8, b = closing → b = 44 ∨ b = 93 ∨ b = 125 := by
    rintro _ rfl
    exact closes.elim (fun same => .inr (.inl same)) (fun same => .inr (.inr same))
  have empty : ∀ {item : Bytes} {rest : List Bytes}, Reads item ∧ item ≠ [] →
      [closing] ≠ commaSeparated (item :: rest) ++ [closing] := by
    intro item rest reads same
    obtain ⟨tail,shape,-,-⟩ := commaSeparatedCons item rest closing
    rw [shape] at same
    cases item with
    | nil => exact reads.2 rfl
    | cons b more =>
      rw [List.cons_append,List.cons.injEq] at same
      have refused : read (.outside 0) b = none := endsAt (final b same.1.symm) more b rfl
      have run := reads.1 0
      rw [List.foldlM_cons,refused] at run
      cases run
  have stops : ∀ {rest : List Bytes} {tail : Bytes}, (rest = [] → tail = [closing]) →
      (rest ≠ [] → tail = 44 :: (commaSeparated rest ++ [closing])) →
      Scan.Stops read (.outside 0) tail := by
    intro rest tail last more
    by_cases none : rest = []
    · rw [last none]
      exact endsAt (final _ rfl) []
    · rw [more none]
      exact endsAt (.inl rfl) _
  intro items
  induction items with
  | nil =>
    rintro (_ | ⟨other,others⟩) - reads same
    · rfl
    · exact absurd same (empty (reads other (List.mem_cons_self ..)))
  | cons item rest ih =>
    rintro (_ | ⟨other,others⟩) reads reads' same
    · exact absurd same.symm (empty (reads item (List.mem_cons_self ..)))
    · obtain ⟨tail,shape,last,more⟩ := commaSeparatedCons item rest closing
      obtain ⟨tail',shape',last',more'⟩ := commaSeparatedCons other others closing
      rw [shape,shape'] at same
      obtain ⟨first,tails⟩ := Scan.wordUnique read ((reads item (List.mem_cons_self ..)).1 0)
        ((reads' other (List.mem_cons_self ..)).1 0) (stops last more) (stops last' more') same
      have later : rest = others := by
        have comma : closing ≠ 44 := by rcases closes with rfl | rfl <;> decide
        by_cases none : rest = []
        · by_cases none' : others = []
          · rw [none,none']
          · rw [last none,more' none',List.cons.injEq] at tails
            exact absurd tails.1 comma
        · by_cases none' : others = []
          · rw [more none,last' none',List.cons.injEq] at tails
            exact absurd tails.1.symm comma
          · rw [more none,more' none',List.cons.injEq] at tails
            exact ih (fun x inside => reads x (List.mem_cons_of_mem _ inside))
              (fun x inside => reads' x (List.mem_cons_of_mem _ inside)) tails.2
      rw [first,later]

theorem dumpsObjUnique {fields others : List (String × Json)} (same : (obj fields).dumps = (obj others).dumps) :
    sortRows (dumpsFields fields) = sortRows (dumpsFields others) := by
  have rows : ∀ fields : List (String × Json), ∀ item ∈ (sortRows (dumpsFields fields)).map
      (fun row => dumpsStr row.1 ++ 58 :: row.2), Reads item ∧ item ≠ [] := by
    intro fields item inside
    obtain ⟨row,listed,rfl⟩ := List.mem_map.mp inside
    refine ⟨readsRow (readsFields fields row ((List.mem_insertionSort ..).mp listed)),?_⟩
    rw [dumpsStr]
    simp
  rw [dumps,dumps,List.cons.injEq] at same
  have texts := commaSeparatedUnique (.inr rfl) (rows fields) (rows others) same.2
  refine List.map_injective_iff.mpr (fun a b same => ?_) texts
  obtain ⟨keys,values⟩ := dumpsStrUnique same
  exact Prod.ext keys (List.cons.inj values).2

theorem memDumpsFields {fields : List (String × Json)} {key : String} {text : Bytes} :
    (key,text) ∈ dumpsFields fields ↔ ∃ value, (key,value) ∈ fields ∧ value.dumps = text := by
  induction fields with
  | nil => simp [dumpsFields]
  | cons field rest ih =>
    obtain ⟨name,value⟩ := field
    rw [dumpsFields,List.mem_cons,ih]
    constructor
    · rintro (here | ⟨other,inside,same⟩)
      · cases here
        exact ⟨value,List.mem_cons_self ..,rfl⟩
      · exact ⟨other,List.mem_cons_of_mem _ inside,same⟩
    · rintro ⟨other,inside,rfl⟩
      rcases List.mem_cons.mp inside with here | later
      · cases here
        exact .inl rfl
      · exact .inr ⟨other,later,rfl⟩

theorem dumpsObjField {fields others : List (String × Json)} (same : (obj fields).dumps = (obj others).dumps)
    {key : String} {value : Json} (inside : (key,value) ∈ fields) :
    ∃ other, (key,other) ∈ others ∧ other.dumps = value.dumps := by
  have row : (key,value.dumps) ∈ sortRows (dumpsFields others) := by
    rw [← dumpsObjUnique same]
    exact (List.mem_insertionSort ..).mpr (memDumpsFields.mpr ⟨value,inside,rfl⟩)
  exact memDumpsFields.mp ((List.mem_insertionSort ..).mp row)

theorem dumpsObjAgree {fields others : List (String × Json)} (same : (obj fields).dumps = (obj others).dumps)
    (distinct : (others.map Prod.fst).Nodup) (key : String) {value other : Json}
    (inside : (key,value) ∈ fields) (there : (key,other) ∈ others) : other.dumps = value.dumps := by
  obtain ⟨found,listed,text⟩ := dumpsObjField same inside
  have row : (key,found) = (key,other) := List.inj_on_of_nodup_map distinct listed there rfl
  cases row
  exact text

theorem dumpsStrOnly {value : Json} {text : String} (same : value.dumps = (str text).dumps) : value = .str text := by
  have quoted : ∀ {bytes : Bytes}, bytes = (str text).dumps → ¬∀ b ∈ bytes, isNumeral b = true := by
    intro bytes shape numeral
    rw [shape,dumps,dumpsStr] at numeral
    have quote := numeral 34 (List.mem_cons_self ..)
    have special : isNumeral 34 = false := by decide
    rw [special] at quote
    contradiction
  cases value with
  | null => exact absurd (show ∀ b ∈ encode "null", isNumeral b = true by decide +kernel) (quoted (by rw [← same,dumps]))
  | int value => exact absurd (intNumeral value) (quoted (by rw [← same,dumps]))
  | float value => exact absurd (List.all_eq_true.mp value.numeral) (quoted (by rw [← same,dumps]))
  | bool value =>
    have letters : ∀ b ∈ encode (if value then "true" else "false"), isNumeral b = true := by
      cases value <;> decide +kernel
    exact absurd letters (quoted (by rw [← same,dumps]))
  | str value =>
    rw [dumps,dumps] at same
    have texts := dumpsStrUnique (congrArg (· ++ []) same)
    rw [texts.1]
  | arr items =>
    rw [dumps,dumps,dumpsStr,List.cons.injEq] at same
    exact absurd same.1 (by decide)
  | obj fields =>
    rw [dumps,dumps,dumpsStr,List.cons.injEq] at same
    exact absurd same.1 (by decide)

end Values

end Json

end QbitNetwork
