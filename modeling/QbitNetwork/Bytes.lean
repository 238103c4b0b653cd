import Mathlib.Algebra.Order.Ring.Int
import Mathlib.Data.List.Sort
import Mathlib.Data.String.Basic

/-! Byte strings, hexadecimal text and canonical JSON, as Python's standard
library gives them. Nothing here depends on the chain. -/
namespace QbitNetwork

abbrev Bytes := List UInt8

/- `str.encode()`. -/
def encode (text : String) : Bytes := text.toUTF8.data.toList

theorem encodeInjective : Function.Injective encode := by
  intro a b same
  rw [← String.toByteArray_inj]
  exact ByteArray.ext (Array.toList_inj.mp same)

theorem encodeAppend (a b : String) : encode (a ++ b) = encode a ++ encode b := by
  simp [encode]

/- Python orders text by code points, which is the order of its UTF-8 bytes. -/
instance textOrd : Ord String where
  compare a b := compare (encode a) (encode b)

instance textTransOrd : Std.TransOrd String where
  eq_swap := fun {a b} => @Std.OrientedOrd.eq_swap Bytes _ _ (encode a) (encode b)
  isLE_trans := fun {a b c} => @Std.TransOrd.isLE_trans Bytes _ _ (encode a) (encode b) (encode c)

instance textLawfulEqOrd : Std.LawfulEqOrd String where
  eq_of_compare := fun same => encodeInjective (@Std.LawfulEqOrd.eq_of_compare Bytes _ _ _ _ same)

theorem utf8EncodeSmall : ∀ n < 128, String.utf8EncodeChar (Char.ofNat n) = [UInt8.ofNat n] := by
  decide +kernel

theorem asciiValid {data : Bytes} (ascii : ∀ b ∈ data, b < 128) : ByteArray.IsValidUTF8 ⟨⟨data⟩⟩ := by
  refine ⟨data.map (fun b => Char.ofNat b.toNat),ByteArray.ext (Array.toList_inj.mp ?_)⟩
  rw [List.utf8Encode,List.toList_data_toByteArray]
  induction data with
  | nil => rfl
  | cons b rest ih =>
    have small : b.toNat < 128 := ascii b (List.mem_cons_self ..)
    rw [List.map_cons,List.flatMap_cons,utf8EncodeSmall _ small,UInt8.ofNat_toNat,
      ← ih (fun b inside => ascii b (List.mem_cons_of_mem _ inside))]
    rfl

def asciiText (data : Bytes) (ascii : ∀ b ∈ data, b < 128) : String :=
  .ofByteArray ⟨⟨data⟩⟩ (asciiValid ascii)

@[simp] theorem encodeAscii (data : Bytes) (ascii : ∀ b ∈ data, b < 128) :
    encode (asciiText data ascii) = data := rfl

def hexDigit (n : Nat) : UInt8 := if n < 10 then UInt8.ofNat (48 + n) else UInt8.ofNat (87 + n)

def hexBytes (data : Bytes) : Bytes :=
  data.flatMap (fun b => [hexDigit (b.toNat / 16),hexDigit (b.toNat % 16)])

theorem hexDigitAscii : ∀ n < 16, hexDigit n < 128 := by decide

theorem hexBytesAscii (data : Bytes) : ∀ b ∈ hexBytes data, b < 128 := by
  intro b inside
  obtain ⟨source,-,digit⟩ := List.mem_flatMap.mp inside
  have range := source.toNat_lt
  rcases List.mem_cons.mp digit with rfl | digit
  · exact hexDigitAscii _ (by omega)
  · cases List.mem_singleton.mp digit
    exact hexDigitAscii _ (by omega)

def hex (data : Bytes) : String := asciiText (hexBytes data) (hexBytesAscii data)

theorem hexDigitInjective : ∀ m < 16, ∀ n < 16, hexDigit m = hexDigit n → m = n := by decide

theorem hexBytesInjective : Function.Injective hexBytes := by
  intro a
  induction a with
  | nil =>
    rintro (_ | ⟨c,b⟩) same
    · rfl
    · simp [hexBytes] at same
  | cons c a ih =>
    rintro (_ | ⟨d,b⟩) same
    · simp [hexBytes] at same
    · simp only [hexBytes,List.flatMap_cons,List.cons_append,List.nil_append,List.cons.injEq] at same
      obtain ⟨high,low,rest⟩ := same
      have rangeC := c.toNat_lt
      have rangeD := d.toNat_lt
      have highs := hexDigitInjective _ (by omega) _ (by omega) high
      have lows := hexDigitInjective _ (by omega) _ (by omega) low
      have bytes : c = d := UInt8.toNat_inj.mp (by omega)
      rw [bytes,ih rest]

theorem hexInjective : Function.Injective hex := by
  intro a b same
  have bytes := congrArg encode same
  simp only [hex,encodeAscii] at bytes
  exact hexBytesInjective bytes

def hexValue (b : UInt8) : Option Nat :=
  if 48 ≤ b ∧ b ≤ 57 then some (b.toNat - 48)
  else if 97 ≤ b ∧ b ≤ 102 then some (b.toNat - 87)
  else if 65 ≤ b ∧ b ≤ 70 then some (b.toNat - 55)
  else none

/- White space, which `bytes.fromhex` skips between two bytes. -/
def isSpace (b : UInt8) : Bool := b == 32 || (9 ≤ b && b ≤ 13)

def fromHexBytes : Bytes → Option Bytes
  | [] => some []
  | c :: rest =>
      if isSpace c then fromHexBytes rest
      else match rest with
        | [] => none
        | d :: rest => do
            let high ← hexValue c
            let low ← hexValue d
            let tail ← fromHexBytes rest
            some (UInt8.ofNat (16 * high + low) :: tail)

/- `bytes.fromhex(text)`; `none` is its ValueError. Only ASCII can pass, so that the bytes of
the text stand for its characters, here and in the patterns below. -/
def fromHex (text : String) : Option Bytes := fromHexBytes (encode text)

def isHexByte (b : UInt8) : Bool := (hexValue b).isSome

/- Python's `$` also matches before one trailing newline. -/
def dropFinalNewline (data : Bytes) : Bytes :=
  if data.getLast? = some 10 then data.dropLast else data

theorem hexDigitIsHex : ∀ n < 16, isHexByte (hexDigit n) = true := by decide

theorem hexBytesAreHex (data : Bytes) : ∀ b ∈ hexBytes data, isHexByte b = true := by
  intro b inside
  obtain ⟨source,-,digit⟩ := List.mem_flatMap.mp inside
  have range := source.toNat_lt
  rcases List.mem_cons.mp digit with rfl | digit
  · exact hexDigitIsHex _ (by omega)
  · cases List.mem_singleton.mp digit
    exact hexDigitIsHex _ (by omega)

theorem hexBytesLength (data : Bytes) : (hexBytes data).length = 2 * data.length := by
  simp [hexBytes,List.length_flatMap,Nat.mul_comm]

theorem dropFinalNewlineHex {data : Bytes} (digits : ∀ b ∈ data, isHexByte b = true) :
    dropFinalNewline data = data := by
  unfold dropFinalNewline
  rw [if_neg]
  intro newline
  have notHex : isHexByte 10 = false := by decide
  have hexadecimal := digits 10 (List.mem_of_getLast? newline)
  rw [notHex] at hexadecimal
  contradiction

/- `re.match(r'^[...]+$', text)` for a class of ASCII characters. -/
def matchesAll (allowed : UInt8 → Bool) (data : Bytes) : Bool :=
  let body := dropFinalNewline data
  !body.isEmpty && body.all allowed

def hexRe (text : String) : Bool := matchesAll isHexByte (encode text)

/- `int.to_bytes(8, 'big')`; `none` is its OverflowError. -/
def toBytes8 (n : Int) : Option Bytes :=
  if 0 ≤ n ∧ n < 2 ^ 64 then
    some ((List.range 8).map (fun i => UInt8.ofNat (n.toNat / 256 ^ (7 - i) % 256)))
  else none

theorem toBytes8Length {n : Int} {value : Bytes} (found : toBytes8 n = some value) : value.length = 8 := by
  unfold toBytes8 at found
  split at found
  · cases found
    simp
  · cases found

theorem digitsTell (base k : Nat) (many : 0 < base) : ∀ {m n : Nat}, m < base ^ k → n < base ^ k →
    (∀ i < k, m / base ^ i % base = n / base ^ i % base) → m = n := by
  induction k with
  | zero =>
    intro m n small small' _
    rw [Nat.pow_zero] at small small'
    omega
  | succ k ih =>
    intro m n small small' digits
    have last := digits 0 (by omega)
    rw [Nat.pow_zero,Nat.div_one,Nat.div_one] at last
    have front : m / base = n / base := by
      refine ih ?_ ?_ (fun i inside => ?_)
      · rwa [Nat.div_lt_iff_lt_mul many,← Nat.pow_succ]
      · rwa [Nat.div_lt_iff_lt_mul many,← Nat.pow_succ]
      · have digit := digits (i + 1) (by omega)
        rwa [Nat.pow_succ',← Nat.div_div_eq_div_mul,← Nat.div_div_eq_div_mul] at digit
    rw [← Nat.div_add_mod m base,← Nat.div_add_mod n base,front,last]

theorem toBytes8Injective {m n : Int} {value : Bytes} (left : toBytes8 m = some value)
    (right : toBytes8 n = some value) : m = n := by
  unfold toBytes8 at left right
  split at left
  · split at right
    · rename_i small small'
      have digits : ∀ i < 8, m.toNat / 256 ^ i % 256 = n.toNat / 256 ^ i % 256 := by
        intro i inside
        have bytes := congrArg (fun data : Bytes => data[7 - i]?)
          (Option.some.inj (left.trans right.symm))
        simp only [List.getElem?_map,List.getElem?_range (show 7 - i < 8 by omega),Option.map_some,
          Option.some.injEq] at bytes
        have same := congrArg UInt8.toNat bytes
        rw [show 7 - (7 - i) = i by omega] at same
        simpa using same
      have numbers := digitsTell 256 8 (by decide) (by omega) (by omega) digits
      omega
    · cases right
  · cases left

def fromBytesBig (data : Bytes) : Nat := data.foldl (fun acc b => 256 * acc + b.toNat) 0

inductive Number where
  | finite (value : Rat)
  | infinity (negative : Bool)
  | nan
  deriving DecidableEq

def isNumeral (b : UInt8) : Bool :=
  (48 ≤ b && b ≤ 57) || (65 ≤ b && b ≤ 90) || (97 ≤ b && b ≤ 122) || b == 43 || b == 45 || b == 46

structure JsonFloat where
  number : Number
  text : String
  numeral : (encode text).all isNumeral = true

inductive Json where
  | null
  | int (value : Int)
  | float (value : JsonFloat)
  | bool (value : Bool)
  | str (value : String)
  | arr (items : List Json)
  | obj (fields : List (String × Json))

namespace Json

def hex4 (n : Nat) : Bytes :=
  [hexDigit (n / 4096 % 16),hexDigit (n / 256 % 16),hexDigit (n / 16 % 16),hexDigit (n % 16)]

def escaped (rest : Bytes) : Bytes := 92 :: rest

/- `ensure_ascii`: everything outside space..tilde leaves as a UTF-16 escape. -/
def escapeChar (c : Char) : Bytes :=
  if c = '"' then escaped [34]
  else if c = '\\' then escaped [92]
  else if c = '\n' then escaped [110]
  else if c = '\r' then escaped [114]
  else if c = '\t' then escaped [116]
  else if c.toNat = 8 then escaped [98]
  else if c.toNat = 12 then escaped [102]
  else if 32 ≤ c.toNat ∧ c.toNat ≤ 126 then [UInt8.ofNat c.toNat]
  else if c.toNat < 65536 then escaped (117 :: hex4 c.toNat)
  else escaped (117 :: hex4 (55296 + (c.toNat - 65536) / 1024)) ++
    escaped (117 :: hex4 (56320 + (c.toNat - 65536) % 1024))

def isPlain (b : UInt8) : Bool := 32 ≤ b && b ≤ 126 && b != 34 && b != 92

def dumpsStr (text : String) : Bytes :=
  34 :: ((if (encode text).all isPlain then encode text else text.toList.flatMap escapeChar) ++ [34])

def sortRows (rows : List (String × Bytes)) : List (String × Bytes) :=
  rows.insertionSort (fun a b => (compare a.1 b.1).isLE)

def commaSeparated (items : List Bytes) : Bytes := List.intercalate [44] items

/- `json.dumps(value, sort_keys=True, separators=(',', ':')).encode()`. -/
mutual
def dumps : Json → Bytes
  | .null => encode "null"
  | .int value => encode (toString value)
  | .float value => encode value.text
  | .bool value => encode (if value then "true" else "false")
  | .str value => dumpsStr value
  | .arr items => 91 :: (commaSeparated (dumpsItems items) ++ [93])
  | .obj fields =>
      123 :: (commaSeparated
        ((sortRows (dumpsFields fields)).map (fun row => dumpsStr row.1 ++ 58 :: row.2)) ++ [125])

def dumpsItems : List Json → List Bytes
  | [] => []
  | item :: rest => dumps item :: dumpsItems rest

def dumpsFields : List (String × Json) → List (String × Bytes)
  | [] => []
  | (key,value) :: rest => (key,dumps value) :: dumpsFields rest
end

theorem dumpsFieldsKeys (fields : List (String × Json)) :
    (dumpsFields fields).map Prod.fst = fields.map Prod.fst := by
  induction fields with
  | nil => rfl
  | cons field rest ih => rw [dumpsFields,List.map_cons,List.map_cons,ih]

theorem dumpsObjHead {key : String} {value : Json} {fields : List (String × Json)}
    (least : ∀ other ∈ fields.map Prod.fst, (compare key other).isLE = true) :
    ∃ tail, (obj ((key,value) :: fields)).dumps = 123 :: (dumpsStr key ++ tail) := by
  have sorted : sortRows (dumpsFields ((key,value) :: fields)) =
      (key,value.dumps) :: sortRows (dumpsFields fields) := by
    unfold sortRows
    rw [dumpsFields,List.insertionSort_cons_of_forall_rel]
    intro row inside
    refine least row.1 ?_
    rw [← dumpsFieldsKeys]
    exact List.mem_map_of_mem inside
  rw [dumps,sorted,List.map_cons,commaSeparated]
  generalize (sortRows (dumpsFields fields)).map _ = rows
  cases rows with
  | nil => exact ⟨_,by rw [List.intercalate_singleton,List.append_assoc]⟩
  | cons row rest => exact ⟨_,by
      rw [List.intercalate_cons_cons,List.append_assoc,List.append_assoc,List.append_assoc]⟩

end Json

end QbitNetwork
