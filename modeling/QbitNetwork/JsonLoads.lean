import QbitNetwork.JsonText

/-! `json.loads`, and that it reads back what `json.dumps` has written. -/
namespace QbitNetwork

/- `float(text)`, with the text `json.dumps` gives it. -/
class FloatText where
  float : String → JsonFloat

/- `data.decode('utf-8')`. -/
def decode (data : Bytes) : Option String := String.fromUTF8? ⟨⟨data⟩⟩

theorem decodeEncode (text : String) : decode (encode text) = some text := dif_pos text.isValidUTF8

namespace Json

section Reader

def isJsonSpace (c : Char) : Bool := c = ' ' || c = '\t' || c = '\n' || c = '\r'

def skip (text : List Char) : List Char := text.dropWhile isJsonSpace

def hexOfChar (c : Char) : Option Nat := if c.toNat < 128 then hexValue (UInt8.ofNat c.toNat) else none

def readCode : List Char → Option (Nat × List Char)
  | a :: b :: c :: d :: rest => do
    let a ← hexOfChar a
    let b ← hexOfChar b
    let c ← hexOfChar c
    let d ← hexOfChar d
    some (4096 * a + 256 * b + 16 * c + d,rest)
  | _ => none

/- After `\u`. Half a surrogate pair by itself is no character here. -/
def readUnicode (text : List Char) : Option (Char × List Char) := do
  let (high,rest) ← readCode text
  if 56320 ≤ high ∧ high < 57344 then none
  else if 55296 ≤ high ∧ high < 56320 then
    match rest with
    | '\\' :: 'u' :: rest => do
      let (low,rest) ← readCode rest
      if 56320 ≤ low ∧ low < 57344 then
        some (Char.ofNat (65536 + (high - 55296) * 1024 + (low - 56320)),rest)
      else none
    | _ => none
  else some (Char.ofNat high,rest)

def backslashes : List (Char × Char) :=
  [('"','"'),('\\','\\'),('/','/'),('b',Char.ofNat 8),('f',Char.ofNat 12),('n','\n'),('r','\r'),('t','\t')]

def readChar : List Char → Option (Char × List Char)
  | [] => none
  | c :: rest =>
    if c = '\\' then
      match rest with
      | [] => none
      | e :: rest =>
        match backslashes.lookup e with
        | some c => some (c,rest)
        | none => if e = 'u' then readUnicode rest else none
    else if c.toNat < 32 then none
    else some (c,rest)

def readString : Nat → List Char → Option (List Char × List Char)
  | 0,_ => none
  | n + 1,text =>
    if text.head? = some '"' then some ([],text.drop 1)
    else do
      let (c,rest) ← readChar text
      let (cs,rest) ← readString n rest
      some (c :: cs,rest)

def isDigits (digits : List Char) : Bool := !digits.isEmpty && digits.all Char.isDigit

/- `0|[1-9]\d*`. -/
def isWhole (digits : List Char) : Bool := isDigits digits && (digits.head? != some '0' || digits.length == 1)

def unsigned : List Char → List Char
  | '-' :: rest => rest
  | rest => rest

def isInt (word : List Char) : Bool := isWhole (unsigned word)

/- `([eE][-+]?\d+)?`. -/
def isExponent : List Char → Bool
  | [] => true
  | c :: rest =>
    (c = 'e' || c = 'E') && isDigits (match rest with
      | '+' :: rest => rest
      | '-' :: rest => rest
      | rest => rest)

/- `(\.\d+)?` and the exponent. -/
def isFraction : List Char → Bool
  | '.' :: rest => isDigits (rest.takeWhile Char.isDigit) && isExponent (rest.dropWhile Char.isDigit)
  | rest => isExponent rest

def isFloat (word : List Char) : Bool :=
  isWhole ((unsigned word).takeWhile Char.isDigit) && isFraction ((unsigned word).dropWhile Char.isDigit)

def constants : List String := ["NaN","Infinity","-Infinity"]

def natOf (digits : List Char) : Nat := digits.foldl (fun n c => 10 * n + (c.toNat - 48)) 0

def intOfWord : List Char → Int
  | '-' :: digits => -(natOf digits : Int)
  | digits => natOf digits

def isWordChar (c : Char) : Bool := c.isAlphanum || c = '+' || c = '-' || c = '.'

def setRow (rows : List (String × Json)) (row : String × Json) : List (String × Json) :=
  if rows.any (fun other => other.1 = row.1) then
    rows.map (fun other => if other.1 = row.1 then row else other)
  else rows ++ [row]

variable [FloatText]

def wordValue (word : List Char) : Option Json :=
  let text := String.ofList word
  if isInt word then some (.int (intOfWord word))
  else if isFloat word || constants.contains text then some (.float (FloatText.float text))
  else if text = "null" then some .null
  else if text = "true" then some (.bool true)
  else if text = "false" then some (.bool false)
  else none

/- The fuel counts characters, of which every value has one. -/
mutual
def readValue : Nat → List Char → Option (Json × List Char)
  | 0,_ => none
  | n + 1,text =>
    match text with
    | '"' :: rest => do
      let (cs,rest) ← readString n rest
      some (.str (String.ofList cs),rest)
    | '[' :: rest =>
      if (skip rest).head? = some ']' then some (.arr [],(skip rest).drop 1)
      else do
        let (items,rest) ← readItems n (skip rest)
        some (.arr items,rest)
    | '{' :: rest =>
      if (skip rest).head? = some '}' then some (.obj [],(skip rest).drop 1)
      else do
        let (rows,rest) ← readRows n (skip rest)
        some (.obj (rows.foldl setRow []),rest)
    | text => do
      let value ← wordValue (text.takeWhile isWordChar)
      some (value,text.dropWhile isWordChar)

def readItems : Nat → List Char → Option (List Json × List Char)
  | 0,_ => none
  | n + 1,text => do
    let (item,rest) ← readValue n text
    match skip rest with
    | ',' :: rest => do
      let (items,rest) ← readItems n (skip rest)
      some (item :: items,rest)
    | ']' :: rest => some ([item],rest)
    | _ => none

def readRows : Nat → List Char → Option (List (String × Json) × List Char)
  | 0,_ => none
  | n + 1,text =>
    match text with
    | '"' :: rest => do
      let (key,rest) ← readString n rest
      match skip rest with
      | ':' :: rest => do
        let (value,rest) ← readValue n (skip rest)
        match skip rest with
        | ',' :: rest => do
          let (rows,rest) ← readRows n (skip rest)
          some ((String.ofList key,value) :: rows,rest)
        | '}' :: rest => some ([(String.ofList key,value)],rest)
        | _ => none
      | _ => none
    | _ => none
end

/- `json.loads(text)`; `none` is its JSONDecodeError. -/
def loads (text : String) : Option Json := do
  let (value,rest) ← readValue (text.toList.length + 1) (skip text.toList)
  if skip rest = [] then some value else none

end Reader

/- `json.dumps(value, separators=(',', ':'))`. -/
mutual
def compact : Json → Bytes
  | .null => encode "null"
  | .int value => encode (toString value)
  | .float value => encode value.text
  | .bool value => encode (if value then "true" else "false")
  | .str value => dumpsStr value
  | .arr items => 91 :: (commaSeparated (compactItems items) ++ [93])
  | .obj fields => 123 :: (commaSeparated (compactFields fields) ++ [125])

def compactItems : List Json → List Bytes
  | [] => []
  | item :: rest => compact item :: compactItems rest

def compactFields : List (String × Json) → List Bytes
  | [] => []
  | (key,value) :: rest => (dumpsStr key ++ 58 :: compact value) :: compactFields rest
end

section Characters

def asChars (data : Bytes) : List Char := data.map (fun b => Char.ofNat b.toNat)

@[simp] theorem asCharsAppend (a b : Bytes) : asChars (a ++ b) = asChars a ++ asChars b := List.map_append

@[simp] theorem asCharsCons (b : UInt8) (rest : Bytes) : asChars (b :: rest) = Char.ofNat b.toNat :: asChars rest := rfl

theorem asCharsEncode {data : Bytes} (ascii : ∀ b ∈ data, b < 128) : encode (String.ofList (asChars data)) = data := by
  rw [encodeChars,String.toList_ofList]
  induction data with
  | nil => rfl
  | cons b rest ih =>
    have small : b.toNat < 128 := ascii b List.mem_cons_self
    rw [asCharsCons,List.flatMap_cons,utf8EncodeSmall _ small,UInt8.ofNat_toNat,
      ih (fun c inside => ascii c (List.mem_cons_of_mem _ inside))]
    rfl

theorem hexOfDigit : ∀ n < 16, hexOfChar (Char.ofNat (hexDigit n).toNat) = some n := by decide

theorem readCodeHex4 {n : Nat} (small : n < 65536) (rest : List Char) :
    readCode (asChars (hex4 n) ++ rest) = some (n,rest) := by
  have digit : ∀ m, hexOfChar (Char.ofNat (hexDigit (m % 16)).toNat) = some (m % 16) :=
    fun m => hexOfDigit _ (Nat.mod_lt _ (by decide))
  simp only [hex4,asChars,List.map_cons,List.map_nil,List.cons_append,List.nil_append,readCode,digit,
    Option.bind_eq_bind,Option.bind_some,Option.some.injEq,Prod.mk.injEq,and_true]
  omega

theorem readUnicodePlain {n : Nat} (small : n < 65536) (plain : ¬(55296 ≤ n ∧ n < 57344)) (rest : List Char) :
    readUnicode (asChars (hex4 n) ++ rest) = some (Char.ofNat n,rest) := by
  simp only [readUnicode,readCodeHex4 small,Option.bind_eq_bind,Option.bind_some]
  rw [if_neg (by omega),if_neg (by omega)]

theorem readUnicodePair {high low : Nat} (small : high < 1024) (smaller : low < 1024) (rest : List Char) :
    readUnicode (asChars (hex4 (55296 + high)) ++ asChars (escaped (117 :: hex4 (56320 + low))) ++ rest) =
      some (Char.ofNat (65536 + high * 1024 + low),rest) := by
  have second : asChars (escaped (117 :: hex4 (56320 + low))) ++ rest =
      '\\' :: 'u' :: (asChars (hex4 (56320 + low)) ++ rest) := rfl
  rw [List.append_assoc,second,readUnicode,readCodeHex4 (by omega)]
  simp only [Option.bind_eq_bind,Option.bind_some]
  rw [if_neg (by omega),if_pos (by omega),readCodeHex4 (by omega)]
  have number : 65536 + (55296 + high - 55296) * 1024 + (56320 + low - 56320) = 65536 + high * 1024 + low := by
    omega
  simp only [Option.bind_some]
  rw [if_pos (by omega),number]

theorem readEscaped (c : Char) (rest : List Char) : readChar (asChars (escapeChar c) ++ rest) = some (c,rest) := by
  have short : ∀ b code, backslashes.lookup (Char.ofNat (UInt8.toNat b)) = some code →
      readChar (asChars (escaped [b]) ++ rest) = some (code,rest) := by
    intro b code known
    have backslash : Char.ofNat (UInt8.toNat 92) = '\\' := by decide
    simp only [escaped,asCharsCons,List.cons_append,readChar,backslash,if_true,known]
    rfl
  have unicode : ∀ more : List Char, readChar (asChars (escaped [117]) ++ more) = readUnicode more := fun _ => rfl
  unfold escapeChar
  split
  · rename_i same; subst same; exact short 34 '"' (by decide)
  split
  · rename_i same; subst same; exact short 92 '\\' (by decide)
  split
  · rename_i same; subst same; exact short 110 '\n' (by decide)
  split
  · rename_i same; subst same; exact short 114 '\r' (by decide)
  split
  · rename_i same; subst same; exact short 116 '\t' (by decide)
  split
  · rename_i same
    obtain rfl : c = Char.ofNat 8 := Char.toNat_inj.mp same
    exact short 98 _ (by decide)
  split
  · rename_i same
    obtain rfl : c = Char.ofNat 12 := Char.toNat_inj.mp same
    exact short 102 _ (by decide)
  split
  · rename_i quoted slash _ _ _ _ _ printable
    have number : (UInt8.ofNat c.toNat).toNat = c.toNat := by simp; omega
    simp only [asChars,List.map_cons,List.map_nil,List.cons_append,List.nil_append,number,Char.ofNat_toNat,readChar]
    rw [if_neg slash,if_neg (by omega)]
  have valid := scalarValue c
  split
  · rename_i small
    rw [show asChars (escaped (117 :: hex4 c.toNat)) ++ rest =
      asChars (escaped [117]) ++ (asChars (hex4 c.toNat) ++ rest) from rfl,unicode,readUnicodePlain small (by omega),
      Char.ofNat_toNat]
  · have number : 65536 + (c.toNat - 65536) / 1024 * 1024 + (c.toNat - 65536) % 1024 = c.toNat := by omega
    rw [asCharsAppend,show asChars (escaped (117 :: hex4 (55296 + (c.toNat - 65536) / 1024))) =
      asChars (escaped [117]) ++ asChars (hex4 (55296 + (c.toNat - 65536) / 1024)) from rfl,List.append_assoc,
      List.append_assoc,unicode,← List.append_assoc,readUnicodePair (by omega) (by omega),number,Char.ofNat_toNat]

theorem escapeHead (c : Char) : ∃ b rest, escapeChar c = b :: rest ∧ Char.ofNat b.toNat ≠ '"' := by
  have backslash : ∀ rest : Bytes, ∃ b more, escaped rest = b :: more ∧ Char.ofNat b.toNat ≠ '"' :=
    fun rest => ⟨92,rest,rfl,by decide⟩
  unfold escapeChar
  split
  · exact backslash _
  split
  · exact backslash _
  split
  · exact backslash _
  split
  · exact backslash _
  split
  · exact backslash _
  split
  · exact backslash _
  split
  · exact backslash _
  split
  · rename_i quoted _ _ _ _ _ _ printable
    refine ⟨_,_,rfl,?_⟩
    have number : (UInt8.ofNat c.toNat).toNat = c.toNat := by simp; omega
    rw [number,Char.ofNat_toNat]
    exact quoted
  split
  · exact backslash _
  · exact backslash _

theorem readBody (cs : List Char) (tail : List Char) : ∀ n, cs.length < n →
    readString n (asChars (cs.flatMap escapeChar) ++ '"' :: tail) = some (cs,tail) := by
  induction cs with
  | nil =>
    intro n fuel
    obtain ⟨n,rfl⟩ := Nat.exists_eq_succ_of_ne_zero (Nat.ne_of_gt fuel)
    rfl
  | cons c cs ih =>
    intro n fuel
    obtain ⟨n,rfl⟩ := Nat.exists_eq_succ_of_ne_zero (Nat.ne_of_gt (Nat.zero_lt_of_lt fuel))
    obtain ⟨b,rest,shape,other⟩ := escapeHead c
    have first := readEscaped c (asChars (cs.flatMap escapeChar) ++ '"' :: tail)
    rw [List.flatMap_cons,asCharsAppend,List.append_assoc,readString]
    generalize asChars (cs.flatMap escapeChar) ++ '"' :: tail = more at first ih ⊢
    rw [if_neg (by rw [shape]; simpa using other),first]
    simp only [Option.bind_eq_bind,Option.bind_some,ih n (Nat.lt_of_succ_lt_succ fuel)]

theorem escapeLength (cs : List Char) : cs.length ≤ (cs.flatMap escapeChar).length := by
  induction cs with
  | nil => exact Nat.le_refl 0
  | cons c cs ih =>
    obtain ⟨b,rest,shape,-⟩ := escapeHead c
    rw [List.flatMap_cons,List.length_append,shape,List.length_cons,List.length_cons]
    omega

theorem readDumped (text : String) (tail : List Char) :
    ∃ body : List Char, asChars (dumpsStr text) ++ tail = '"' :: body ∧
      ∀ n, (dumpsStr text).length ≤ n + 1 → readString n body = some (text.toList,tail) := by
  refine ⟨asChars (text.toList.flatMap escapeChar) ++ '"' :: tail,?_,fun n fuel => readBody _ _ n ?_⟩
  · rw [dumpsStrEscaped,asCharsCons,asCharsAppend,List.cons_append,List.append_assoc]
    rfl
  · have shorter := escapeLength text.toList
    rw [dumpsStrEscaped,List.length_cons,List.length_append,List.length_singleton] at fuel
    omega

end Characters

section Words

theorem numeralAscii : ∀ n < 256, isNumeral (UInt8.ofNat n) = true →
    n < 128 ∧ isWordChar (Char.ofNat n) = true := by decide +kernel

theorem wordChars {data : Bytes} (word : ∀ b ∈ data, isNumeral b = true) :
    ∀ c ∈ asChars data, isWordChar c = true := by
  intro c inside
  obtain ⟨b,listed,rfl⟩ := List.mem_map.mp inside
  have numeral := word b listed
  rw [← UInt8.ofNat_toNat (x := b)] at numeral
  exact (numeralAscii b.toNat b.toNat_lt numeral).2

theorem wordAscii {data : Bytes} (word : ∀ b ∈ data, isNumeral b = true) : ∀ b ∈ data, b < 128 := by
  intro b inside
  have numeral := word b inside
  rw [← UInt8.ofNat_toNat (x := b)] at numeral
  exact (numeralAscii b.toNat b.toNat_lt numeral).1

theorem asCharsWord {text : String} (word : ∀ b ∈ encode text, isNumeral b = true) : asChars (encode text) = text.toList := by
  have same := encodeInjective (asCharsEncode (wordAscii word))
  rw [← same,String.toList_ofList,same]

theorem digitsRead (n : Nat) : natOf (Nat.toDigits 10 n) = n := by
  have digit : ∀ d < 10, (Nat.digitChar d).toNat - 48 = d := by decide
  induction n using Nat.strong_induction_on with
  | _ n ih =>
    rw [Nat.toDigits_eq_if (by decide)]
    split
    · rename_i small
      rw [natOf,List.foldl_cons,List.foldl_nil,digit n small]
      omega
    · rename_i large
      have front := ih (n / 10) (by omega)
      rw [natOf] at front
      rw [natOf,List.foldl_append,front,List.foldl_cons,List.foldl_nil,digit _ (Nat.mod_lt _ (by decide))]
      omega

theorem digitsWhole (n : Nat) : isWhole (Nat.toDigits 10 n) = true := by
  have leading : ∀ n, 0 < n → (Nat.toDigits 10 n).head? ≠ some '0' := by
    intro n
    induction n using Nat.strong_induction_on with
    | _ n ih =>
      intro positive
      rw [Nat.toDigits_eq_if (by decide)]
      split
      · rename_i small
        have nonzero : ∀ d < 10, 0 < d → Nat.digitChar d ≠ '0' := by decide
        simpa using nonzero n small positive
      · rename_i large
        have front := ih (n / 10) (by omega) (by omega)
        cases shape : Nat.toDigits 10 (n / 10) with
        | nil => exact absurd shape Nat.toDigits_ne_nil
        | cons c rest =>
          rw [shape] at front
          exact front
  have digits : isDigits (Nat.toDigits 10 n) = true := by
    rw [isDigits,Bool.and_eq_true,List.all_eq_true]
    refine ⟨?_,fun c inside => Nat.isDigit_of_mem_toDigits (by decide) (by decide) inside⟩
    cases shape : Nat.toDigits 10 n with
    | nil => exact absurd shape Nat.toDigits_ne_nil
    | cons c rest => rfl
  rw [isWhole,digits,Bool.true_and,Bool.or_eq_true]
  rcases Nat.eq_zero_or_pos n with rfl | positive
  · exact .inr (by decide)
  · exact .inl (by simpa using leading n positive)

theorem digitsUnsigned (n : Nat) : unsigned (Nat.toDigits 10 n) = Nat.toDigits 10 n ∧
    intOfWord (Nat.toDigits 10 n) = n := by
  cases shape : Nat.toDigits 10 n with
  | nil => exact absurd shape Nat.toDigits_ne_nil
  | cons c rest =>
    have digit : c.isDigit = true :=
      Nat.isDigit_of_mem_toDigits (b := 10) (n := n) (by decide) (by decide) (shape ▸ List.mem_cons_self)
    have other : c ≠ '-' := by
      rintro rfl
      cases digit
    have value := digitsRead n
    rw [shape] at value
    constructor
    · unfold unsigned
      split
      · rename_i same
        exact absurd (List.cons.inj same).1 other
      · rfl
    · unfold intOfWord
      split
      · rename_i same
        exact absurd (List.cons.inj same).1 other
      · rw [value]

variable [FloatText]

theorem intRead (n : Int) : wordValue (toString n).toList = some (.int n) := by
  cases n with
  | ofNat n =>
    obtain ⟨same,value⟩ := digitsUnsigned n
    rw [show (toString (Int.ofNat n)).toList = Nat.toDigits 10 n from Nat.toList_repr]
    unfold wordValue isInt
    rw [same,if_pos (digitsWhole n),value]
    rfl
  | negSucc n =>
    have shape : (toString (Int.negSucc n)).toList = '-' :: Nat.toDigits 10 (n + 1) := by
      rw [show toString (Int.negSucc n) = "-" ++ (n + 1).repr from rfl,String.toList_append,Nat.toList_repr]
      rfl
    rw [shape]
    unfold wordValue isInt
    rw [show unsigned ('-' :: Nat.toDigits 10 (n + 1)) = Nat.toDigits 10 (n + 1) from rfl,if_pos (digitsWhole _),
      show intOfWord ('-' :: Nat.toDigits 10 (n + 1)) = -(natOf (Nat.toDigits 10 (n + 1)) : Int) from rfl,digitsRead]
    rfl

def Stops (tail : List Char) : Prop := ∀ c ∈ tail.head?, isWordChar c = false

theorem readWord {data : Bytes} (word : ∀ b ∈ data, isNumeral b = true) (some' : data ≠ []) {tail : List Char}
    (stops : Stops tail) {value : Json} (means : wordValue (asChars data) = some value) (n : Nat) :
    readValue (n + 1) (asChars data ++ tail) = some (value,tail) := by
  have chars := wordChars word
  have through : tail.takeWhile isWordChar = [] ∧ tail.dropWhile isWordChar = tail := by
    cases tail with
    | nil => exact ⟨rfl,rfl⟩
    | cons c rest =>
      have other := stops c rfl
      simp only [List.takeWhile,List.dropWhile,other,and_self]
  have opening : ∀ c rest, asChars data ++ tail = c :: rest → isWordChar c = true := by
    intro c rest shape
    cases data with
    | nil => exact absurd rfl some'
    | cons b more =>
      rw [asCharsCons,List.cons_append,List.cons.injEq] at shape
      exact shape.1 ▸ chars _ List.mem_cons_self
  unfold readValue
  split
  · rename_i shape
    exact absurd (opening _ _ shape) (by decide)
  · rename_i shape
    exact absurd (opening _ _ shape) (by decide)
  · rename_i shape
    exact absurd (opening _ _ shape) (by decide)
  · rw [List.takeWhile_append_of_pos chars,List.dropWhile_append_of_pos chars,through.1,through.2,List.append_nil,means]
    rfl

end Words

section Ascii

theorem escapeAscii (c : Char) : ∀ b ∈ escapeChar c, b < 128 := by
  have digits : ∀ n < 16, hexDigit n < 128 := hexDigitAscii
  have short : ∀ b : UInt8, b < 128 → ∀ d ∈ escaped [b], d < 128 := by
    intro b small d inside
    rcases List.mem_cons.mp inside with rfl | inside
    · decide
    · exact List.mem_singleton.mp inside ▸ small
  have long : ∀ n, ∀ d ∈ escaped (117 :: hex4 n), d < 128 := by
    intro n d inside
    simp only [escaped,hex4,List.mem_cons,List.not_mem_nil,or_false] at inside
    rcases inside with rfl | rfl | rfl | rfl | rfl | rfl
    · decide
    · decide
    all_goals exact digits _ (Nat.mod_lt _ (by decide))
  unfold escapeChar
  split
  · exact short _ (by decide)
  split
  · exact short _ (by decide)
  split
  · exact short _ (by decide)
  split
  · exact short _ (by decide)
  split
  · exact short _ (by decide)
  split
  · exact short _ (by decide)
  split
  · exact short _ (by decide)
  split
  · rename_i printable
    intro b inside
    rw [List.mem_singleton.mp inside]
    have small : ∀ n < 127, UInt8.ofNat n < 128 := by decide
    exact small _ (by omega)
  split
  · exact long _
  · intro b inside
    exact (List.mem_append.mp inside).elim (long _ b) (long _ b)

theorem dumpsStrAscii (text : String) : ∀ b ∈ dumpsStr text, b < 128 := by
  rw [dumpsStrEscaped]
  intro b inside
  rcases List.mem_cons.mp inside with rfl | inside
  · decide
  rcases List.mem_append.mp inside with inside | inside
  · obtain ⟨c,-,byte⟩ := List.mem_flatMap.mp inside
    exact escapeAscii c b byte
  · rw [List.mem_singleton.mp inside]
    decide

theorem separatedAscii {items : List Bytes} (ascii : ∀ item ∈ items, ∀ b ∈ item, b < 128) :
    ∀ b ∈ commaSeparated items, b < 128 := by
  induction items with
  | nil => intro b inside; cases inside
  | cons item rest ih =>
    have later := ih (fun other inside => ascii other (List.mem_cons_of_mem _ inside))
    have here := ascii item List.mem_cons_self
    cases rest with
    | nil => simpa [commaSeparated] using here
    | cons next rest =>
      rw [commaSeparated,List.intercalate_cons_cons,List.append_assoc]
      intro b inside
      rcases List.mem_append.mp inside with inside | inside
      · exact here b inside
      rcases List.mem_append.mp inside with inside | inside
      · rw [List.mem_singleton.mp inside]
        decide
      · exact later b inside

theorem bracketedAscii {opening closing : UInt8} (opens : opening < 128) (closes : closing < 128) {items : List Bytes}
    (ascii : ∀ item ∈ items, ∀ b ∈ item, b < 128) :
    ∀ b ∈ opening :: (commaSeparated items ++ [closing]), b < 128 := by
  intro b inside
  rcases List.mem_cons.mp inside with rfl | inside
  · exact opens
  rcases List.mem_append.mp inside with inside | inside
  · exact separatedAscii ascii b inside
  · exact List.mem_singleton.mp inside ▸ closes

mutual
theorem compactAscii : ∀ value : Json, ∀ b ∈ compact value, b < 128
  | .null => wordAscii (by decide +kernel)
  | .int value => wordAscii (intNumeral value)
  | .float value => wordAscii (List.all_eq_true.mp value.numeral)
  | .bool true => wordAscii (by decide +kernel)
  | .bool false => wordAscii (by decide +kernel)
  | .str text => dumpsStrAscii text
  | .arr items => bracketedAscii (by decide) (by decide) (compactItemsAscii items)
  | .obj fields => bracketedAscii (by decide) (by decide) (compactFieldsAscii fields)

theorem compactItemsAscii : ∀ items : List Json, ∀ item ∈ compactItems items, ∀ b ∈ item, b < 128
  | [] => by simp [compactItems]
  | item :: rest => by
    rw [compactItems]
    intro text inside
    rcases List.mem_cons.mp inside with rfl | later
    · exact compactAscii item
    · exact compactItemsAscii rest text later

theorem compactFieldsAscii : ∀ fields : List (String × Json), ∀ item ∈ compactFields fields, ∀ b ∈ item, b < 128
  | [] => by simp [compactFields]
  | (key,value) :: rest => by
    rw [compactFields]
    intro text inside
    rcases List.mem_cons.mp inside with rfl | later
    · intro b byte
      rcases List.mem_append.mp byte with byte | byte
      · exact dumpsStrAscii key b byte
      rcases List.mem_cons.mp byte with rfl | byte
      · decide
      · exact compactAscii value b byte
    · exact compactFieldsAscii rest text later
end

end Ascii

section RoundTrip
variable [FloatText]

mutual
def Proper : Json → Prop
  | .float value => wordValue value.text.toList = some (.float value)
  | .arr items => ProperItems items
  | .obj fields => (fields.map Prod.fst).Nodup ∧ ProperFields fields
  | _ => True

def ProperItems : List Json → Prop
  | [] => True
  | item :: rest => Proper item ∧ ProperItems rest

def ProperFields : List (String × Json) → Prop
  | [] => True
  | (_,value) :: rest => Proper value ∧ ProperFields rest
end

omit [FloatText] in
theorem rowsKept (rows : List (String × Json)) : ∀ before : List (String × Json),
    ((before ++ rows).map Prod.fst).Nodup → rows.foldl setRow before = before ++ rows := by
  induction rows with
  | nil => intro before _; exact (List.append_nil before).symm
  | cons row rows ih =>
    intro before distinct
    have fresh : before.any (fun other => other.1 = row.1) = false := by
      rw [List.any_eq_false]
      intro other inside same
      rw [List.map_append,List.nodup_append] at distinct
      exact distinct.2.2 _ (List.mem_map_of_mem inside) _ (List.mem_map_of_mem List.mem_cons_self) (of_decide_eq_true same)
    rw [List.foldl_cons,setRow,fresh,if_neg Bool.false_ne_true,ih (before ++ [row]) (by simpa using distinct)]
    simp

theorem compactHead {value : Json} (proper : Proper value) :
    ∃ b rest, compact value = b :: rest ∧ isJsonSpace (Char.ofNat b.toNat) = false ∧ Char.ofNat b.toNat ≠ ']' := by
  have word : ∀ data : Bytes, (∀ b ∈ data, isNumeral b = true) → data ≠ [] → ∃ b rest, data = b :: rest ∧
      isJsonSpace (Char.ofNat b.toNat) = false ∧ Char.ofNat b.toNat ≠ ']' := by
    intro data numeral some'
    cases data with
    | nil => exact absurd rfl some'
    | cons b rest =>
      have clear : ∀ n < 256, isNumeral (UInt8.ofNat n) = true →
          isJsonSpace (Char.ofNat n) = false ∧ Char.ofNat n ≠ ']' := by decide +kernel
      have here := numeral b List.mem_cons_self
      rw [← UInt8.ofNat_toNat (x := b)] at here
      exact ⟨b,rest,rfl,clear b.toNat b.toNat_lt here⟩
  have named : ∀ text : String, (∀ b ∈ encode text, isNumeral b = true) → text.toList ≠ [] → encode text ≠ [] := by
    intro text numeral some' empty
    have same := asCharsWord numeral
    rw [empty] at same
    exact some' same.symm
  cases value with
  | null => exact word (encode "null") (by decide +kernel) (by decide +kernel)
  | int value =>
    have means := intRead value
    refine word (encode (toString value)) (intNumeral value) (named _ (intNumeral value) (fun empty => ?_))
    rw [empty] at means
    cases means
  | float value =>
    have numeral := List.all_eq_true.mp value.numeral
    refine word (encode value.text) numeral (named _ numeral (fun empty => ?_))
    rw [Proper,empty] at proper
    cases proper
  | bool value => cases value <;> exact word _ (by decide +kernel) (by decide +kernel)
  | str text => exact ⟨34,_,by rw [compact]; rfl,by decide,by decide⟩
  | arr items => exact ⟨91,_,by rw [compact],by decide,by decide⟩
  | obj fields => exact ⟨123,_,by rw [compact],by decide,by decide⟩

omit [FloatText] in
theorem stopsAt {c : Char} (other : isWordChar c = false) (tail : List Char) : Stops (c :: tail) := by
  intro d same
  cases same
  exact other

omit [FloatText] in
theorem skipAt {c : Char} (solid : isJsonSpace c = false) (tail : List Char) : skip (c :: tail) = c :: tail := by
  rw [skip,List.dropWhile_cons_of_neg (by rw [solid]; decide)]

omit [FloatText] in
theorem separatedChars (item : Bytes) (rest : List Bytes) (closing : UInt8) (tail : List Char) :
    asChars (commaSeparated (item :: rest) ++ [closing]) ++ tail =
      asChars item ++ (if rest = [] then Char.ofNat closing.toNat :: tail
        else ',' :: (asChars (commaSeparated rest ++ [closing]) ++ tail)) ∧
    (commaSeparated (item :: rest) ++ [closing]).length = item.length +
      if rest = [] then 1 else 1 + (commaSeparated rest ++ [closing]).length := by
  obtain ⟨text,shape,last,more⟩ := commaSeparatedCons item rest closing
  rw [shape,List.length_append,asCharsAppend,List.append_assoc]
  split
  · rename_i none
    rw [last none]
    exact ⟨rfl,rfl⟩
  · rename_i some'
    rw [more some',List.length_cons]
    exact ⟨rfl,by omega⟩

theorem namesRead : wordValue (asChars (encode "null")) = some .null ∧
    wordValue (asChars (encode "true")) = some (.bool true) ∧
    wordValue (asChars (encode "false")) = some (.bool false) := by
  refine ⟨?_,?_,?_⟩
  · unfold wordValue
    rw [if_neg (by decide +kernel),if_neg (by decide +kernel),if_pos (by decide +kernel)]
  · unfold wordValue
    rw [if_neg (by decide +kernel),if_neg (by decide +kernel),if_neg (by decide +kernel),if_pos (by decide +kernel)]
  · unfold wordValue
    rw [if_neg (by decide +kernel),if_neg (by decide +kernel),if_neg (by decide +kernel),if_neg (by decide +kernel),
      if_pos (by decide +kernel)]

omit [FloatText] in
theorem rowOpens (key : String) (value : Json) (tail : List Char) :
    ∃ body, asChars (dumpsStr key ++ 58 :: compact value) ++ tail = '"' :: body ∧
      ∀ n, (dumpsStr key).length ≤ n + 1 →
        readString n body = some (key.toList,':' :: (asChars (compact value) ++ tail)) := by
  obtain ⟨body,shape,reads⟩ := readDumped key (':' :: (asChars (compact value) ++ tail))
  refine ⟨body,?_,reads⟩
  rw [← shape,asCharsAppend,asCharsCons,List.append_assoc]
  rfl

omit [FloatText] in
theorem fieldsOpen (key : String) (value : Json) (rest : List (String × Json)) (tail : List Char) :
    ∃ text, asChars (commaSeparated (compactFields ((key,value) :: rest)) ++ [125]) ++ tail = '"' :: text := by
  rw [compactFields,(separatedChars ..).1]
  obtain ⟨body,shape,-⟩ := rowOpens key value
    (if compactFields rest = [] then Char.ofNat (UInt8.toNat 125) :: tail
      else ',' :: (asChars (commaSeparated (compactFields rest) ++ [125]) ++ tail))
  exact ⟨body,shape⟩

mutual
theorem readCompact : ∀ {value : Json}, Proper value → ∀ (n : Nat) (tail : List Char),
    (compact value).length < n → Stops tail → readValue n (asChars (compact value) ++ tail) = some (value,tail)
  | .null,_,n + 1,_,_,stops => readWord (by decide +kernel) (by decide +kernel) stops namesRead.1 n
  | .int value,_,n + 1,_,_,stops => by
    have means := intRead value
    rw [← asCharsWord (intNumeral value)] at means
    refine readWord (intNumeral value) (fun empty => ?_) stops means n
    rw [empty] at means
    cases means
  | .float value,proper,n + 1,_,_,stops => by
    have numeral := List.all_eq_true.mp value.numeral
    rw [Proper,← asCharsWord numeral] at proper
    refine readWord numeral (fun empty => ?_) stops proper n
    rw [empty] at proper
    cases proper
  | .bool true,_,n + 1,_,_,stops => readWord (by decide +kernel) (by decide +kernel) stops namesRead.2.1 n
  | .bool false,_,n + 1,_,_,stops => readWord (by decide +kernel) (by decide +kernel) stops namesRead.2.2 n
  | .str text,_,n + 1,tail,fuel,_ => by
    obtain ⟨body,shape,reads⟩ := readDumped text tail
    rw [compact] at fuel ⊢
    rw [shape,readValue,reads n (by omega)]
    simp only [Option.bind_eq_bind,Option.bind_some,String.ofList_toList]
  | .arr [],_,n + 1,_,_,_ => rfl
  | .arr (item :: rest),proper,n + 1,tail,fuel,_ => by
    rw [Proper] at proper
    have read := readCompactItems proper (List.cons_ne_nil item rest) n tail
    rw [compact,List.length_cons] at fuel
    obtain ⟨b,more,shape,solid,other⟩ := compactHead proper.1
    have opening : ∃ text, asChars (commaSeparated (compactItems (item :: rest)) ++ [93]) ++ tail =
        Char.ofNat b.toNat :: text := by
      rw [compactItems,(separatedChars ..).1,shape]
      exact ⟨_,rfl⟩
    obtain ⟨text,opened⟩ := opening
    rw [compact,asCharsCons,List.cons_append]
    rw [opened] at read ⊢
    rw [show Char.ofNat (UInt8.toNat 91) = '[' by decide,readValue,skipAt solid,if_neg (by simpa using other),
      read (by omega)]
    rfl
  | .obj [],_,n + 1,_,_,_ => rfl
  | .obj ((key,value) :: rest),proper,n + 1,tail,fuel,_ => by
    rw [Proper] at proper
    have read := readCompactFields proper.2 (List.cons_ne_nil (key,value) rest) n tail
    have kept := rowsKept ((key,value) :: rest) [] proper.1
    rw [compact,List.length_cons] at fuel
    obtain ⟨text,opened⟩ := fieldsOpen key value rest tail
    rw [compact,asCharsCons,List.cons_append]
    rw [opened] at read ⊢
    rw [show Char.ofNat (UInt8.toNat 123) = '{' by decide,readValue,skipAt (by decide),if_neg (by simp),read (by omega)]
    simp only [Option.bind_eq_bind,Option.bind_some,kept,List.nil_append]

theorem readCompactItems : ∀ {items : List Json}, ProperItems items → items ≠ [] → ∀ (n : Nat) (tail : List Char),
    (commaSeparated (compactItems items) ++ [93]).length < n →
    readItems n (asChars (commaSeparated (compactItems items) ++ [93]) ++ tail) = some (items,tail)
  | [],_,some',_,_,_ => absurd rfl some'
  | [item],proper,_,n + 1,tail,fuel => by
    obtain ⟨text,size⟩ := separatedChars (compact item) [] 93 tail
    rw [compactItems,compactItems] at fuel ⊢
    rw [if_pos rfl] at text size
    rw [text,readItems,readCompact proper.1 _ _ (by omega) (stopsAt (by decide) _)]
    simp only [Option.bind_eq_bind,Option.bind_some]
    rw [skipAt (by decide)]
    rfl
  | item :: next :: rest,proper,_,n + 1,tail,fuel => by
    obtain ⟨text,size⟩ := separatedChars (compact item) (compactItems (next :: rest)) 93 tail
    have later := readCompactItems proper.2 (List.cons_ne_nil next rest) n tail
    obtain ⟨b,more,shape,solid,-⟩ := compactHead proper.2.1
    have opening : ∃ text, asChars (commaSeparated (compactItems (next :: rest)) ++ [93]) ++ tail =
        Char.ofNat b.toNat :: text := by
      rw [compactItems,(separatedChars ..).1,shape]
      exact ⟨_,rfl⟩
    have several : compactItems (next :: rest) ≠ [] := by
      rw [compactItems]
      exact List.cons_ne_nil _ _
    rw [if_neg several] at text size
    rw [compactItems] at fuel ⊢
    rw [text,readItems,readCompact proper.1 _ _ (by omega) (stopsAt (by decide) _)]
    simp only [Option.bind_eq_bind,Option.bind_some]
    rw [skipAt (by decide)]
    obtain ⟨text,opened⟩ := opening
    rw [opened] at later ⊢
    simp only
    rw [skipAt solid,later (by omega)]
    rfl

theorem readCompactFields : ∀ {fields : List (String × Json)}, ProperFields fields → fields ≠ [] →
    ∀ (n : Nat) (tail : List Char), (commaSeparated (compactFields fields) ++ [125]).length < n →
    readRows n (asChars (commaSeparated (compactFields fields) ++ [125]) ++ tail) = some (fields,tail)
  | [],_,some',_,_,_ => absurd rfl some'
  | [(key,value)],proper,_,n + 1,tail,fuel => by
    obtain ⟨text,size⟩ := separatedChars (dumpsStr key ++ 58 :: compact value) [] 125 tail
    rw [compactFields,compactFields] at fuel ⊢
    rw [if_pos rfl] at text size
    have row : (dumpsStr key ++ 58 :: compact value).length = (dumpsStr key).length + ((compact value).length + 1) := by
      rw [List.length_append,List.length_cons]
    obtain ⟨body,shape,reads⟩ := rowOpens key value (Char.ofNat (UInt8.toNat 125) :: tail)
    obtain ⟨b,more,opened,solid,-⟩ := compactHead proper.1
    have inner := readCompact proper.1 n (Char.ofNat (UInt8.toNat 125) :: tail) (by omega)
      (stopsAt (by decide) _)
    rw [opened,asCharsCons,List.cons_append] at inner reads
    rw [text,shape,readRows,reads n (by omega)]
    simp only [Option.bind_eq_bind,Option.bind_some]
    rw [skipAt (by decide)]
    simp only
    rw [skipAt solid,inner]
    simp only [Option.bind_some]
    rw [skipAt (by decide),String.ofList_toList]
    rfl
  | (key,value) :: (other,next) :: rest,proper,_,n + 1,tail,fuel => by
    have later := readCompactFields proper.2 (List.cons_ne_nil (other,next) rest) n tail
    obtain ⟨last,closing⟩ := fieldsOpen other next rest tail
    have several : compactFields ((other,next) :: rest) ≠ [] := by
      rw [compactFields]
      exact List.cons_ne_nil _ _
    obtain ⟨text,size⟩ := separatedChars (dumpsStr key ++ 58 :: compact value) (compactFields ((other,next) :: rest)) 125 tail
    rw [if_neg several] at text size
    have row : (dumpsStr key ++ 58 :: compact value).length = (dumpsStr key).length + ((compact value).length + 1) := by
      rw [List.length_append,List.length_cons]
    rw [compactFields] at fuel ⊢
    obtain ⟨body,shape,reads⟩ := rowOpens key value
      (',' :: (asChars (commaSeparated (compactFields ((other,next) :: rest)) ++ [125]) ++ tail))
    obtain ⟨b,more,opened,solid,-⟩ := compactHead proper.1
    have inner := readCompact proper.1 n
      (',' :: (asChars (commaSeparated (compactFields ((other,next) :: rest)) ++ [125]) ++ tail)) (by omega)
      (stopsAt (by decide) _)
    rw [opened,asCharsCons,List.cons_append] at inner reads
    rw [text,shape,readRows,reads n (by omega)]
    simp only [Option.bind_eq_bind,Option.bind_some]
    rw [skipAt (by decide)]
    simp only
    rw [skipAt solid,inner]
    simp only [Option.bind_some]
    rw [skipAt (by decide)]
    rw [closing] at later ⊢
    simp only
    rw [skipAt (by decide),later (by omega),String.ofList_toList]
    rfl
end

theorem loadsCompact {value : Json} (proper : Proper value) : loads (String.ofList (asChars (compact value))) = some value := by
  obtain ⟨b,rest,shape,solid,-⟩ := compactHead proper
  have read := readCompact proper ((asChars (compact value)).length + 1) [] (by rw [asChars,List.length_map]; omega)
    (fun c absent => by cases absent)
  have start : skip (asChars (compact value)) = asChars (compact value) := by
    rw [shape,asCharsCons,skipAt solid]
  rw [List.append_nil] at read
  rw [loads,String.toList_ofList,start,read]
  rfl

end RoundTrip

end Json

end QbitNetwork
