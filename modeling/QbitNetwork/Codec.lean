import QbitNetwork.JsonLoads
import QbitNetwork.PyValue

/-! The message codec: JSON lines, and msgpack frames with the binary fields as bytes. -/
namespace QbitNetwork

def binaryFields : List String :=
  ["signature","sender_pubkey","signing_pk","encryption_pk","challenge","challenge_sig","counter_challenge",
    "ciphertext","validator_pubkey"]

def maxFrameSize : Nat := 10 * 1024 * 1024

inductive Packed where
  | null
  | int (value : Int)
  | float (value : JsonFloat)
  | bool (value : Bool)
  | str (value : String)
  | bin (data : Bytes)
  | arr (items : List Packed)
  | map (fields : List (String × Packed))

/- `msgpack.packb(value, use_bin_type=True)` and `msgpack.unpackb(raw, raw=False)`; `none` is an
exception. -/
class MsgPack where
  packb : Packed → Option Bytes
  unpackb : Bytes → Option Packed

namespace Packed

def get (fields : List (String × Packed)) (key : String) (dflt : Packed) : Packed :=
  ((fields.find? (fun row => row.1 = key)).map Prod.snd).getD dflt

mutual
def plain : Json → Packed
  | .null => .null
  | .int value => .int value
  | .float value => .float value
  | .bool value => .bool value
  | .str value => .str value
  | .arr items => .arr (plainItems items)
  | .obj fields => .map (plainFields fields)

def plainItems : List Json → List Packed
  | [] => []
  | item :: rest => plain item :: plainItems rest

def plainFields : List (String × Json) → List (String × Packed)
  | [] => []
  | (key,value) :: rest => (key,plain value) :: plainFields rest
end

def binaryText (key : String) (value : Json) : Option String :=
  match binaryFields.contains key,value with
  | true,.str text => some text
  | _,_ => none

mutual
def hexToBytesRecursive (depth : Nat) : Json → Packed
  | .obj fields => if 10 < depth then plain (.obj fields) else .map (hexToBytesFields depth fields)
  | .arr items => if 10 < depth then plain (.arr items) else .arr (hexToBytesItems depth items)
  | value => plain value

def hexToBytesItems (depth : Nat) : List Json → List Packed
  | [] => []
  | item :: rest => hexToBytesRecursive (depth + 1) item :: hexToBytesItems depth rest

def hexToBytesFields (depth : Nat) : List (String × Json) → List (String × Packed)
  | [] => []
  | (key,value) :: rest =>
    (match binaryText key value with
      | some text =>
        match fromHex text with
        | some data => (key,.bin data)
        | none => (key,.str text)
      | none => (key,hexToBytesRecursive (depth + 1) value)) :: hexToBytesFields depth rest
end

def binaryData (key : String) (value : Packed) : Option Bytes :=
  match binaryFields.contains key,value with
  | true,.bin data => some data
  | _,_ => none

/- `_bytes_to_hex_recursive`; bytes in another place are read as text. -/
mutual
def bytesToHexRecursive (depth : Nat) : Packed → Packed
  | .map fields => if 10 < depth then .map fields else .map (bytesToHexFields depth fields)
  | .arr items => if 10 < depth then .arr items else .arr (bytesToHexItems depth items)
  | .bin data => if 10 < depth then .bin data else .str ((decode data).getD (hex data))
  | value => value

def bytesToHexItems (depth : Nat) : List Packed → List Packed
  | [] => []
  | item :: rest => bytesToHexRecursive (depth + 1) item :: bytesToHexItems depth rest

def bytesToHexFields (depth : Nat) : List (String × Packed) → List (String × Packed)
  | [] => []
  | (key,value) :: rest =>
    (match binaryData key value with
      | some data => (key,.str (hex data))
      | none => (key,bytesToHexRecursive (depth + 1) value)) :: bytesToHexFields depth rest
end

end Packed

/- Characters `str.strip` takes off. -/
def isPySpace (c : Char) : Bool :=
  let n := c.toNat
  (9 ≤ n && n ≤ 13) || (28 ≤ n && n ≤ 32) || n == 133 || n == 160 || n == 5760 || (8192 ≤ n && n ≤ 8202) ||
    n == 8232 || n == 8233 || n == 8239 || n == 8287 || n == 12288

def strip (text : String) : String :=
  .ofList ((text.toList.dropWhile isPySpace).reverse.dropWhile isPySpace).reverse

structure MessageCodec where
  wireFormat : String

namespace MessageCodec

def new (hasMsgpack : Bool) (wireFormat : String) : Except PyExc MessageCodec :=
  if wireFormat ≠ "json" ∧ wireFormat ≠ "msgpack" then .error (.valueError ("unknown wire_format: " ++ wireFormat))
  else if wireFormat = "msgpack" ∧ hasMsgpack = false then .ok ⟨"json"⟩
  else .ok ⟨wireFormat⟩

/- `struct.pack(">I", length)`. -/
def lengthPrefix (length : Nat) : Bytes :=
  [UInt8.ofNat (length / 2 ^ 24),UInt8.ofNat (length / 2 ^ 16),UInt8.ofNat (length / 2 ^ 8),UInt8.ofNat length]

def message (msgType : String) (data : Json) : Json := .obj [("type",.str msgType),("data",data)]

variable [MsgPack] [FloatText]

omit [FloatText] in
def encode (codec : MessageCodec) (msgType : String) (data : Json) : Except PyExc Bytes :=
  if codec.wireFormat = "msgpack" then
    match MsgPack.packb (Packed.hexToBytesRecursive 0 (message msgType data)) with
    | none => .error .overflowError
    | some payload =>
      if maxFrameSize < payload.length then
        .error (.valueError ("frame too large: " ++ toString payload.length ++ " > " ++ toString maxFrameSize))
      else .ok (lengthPrefix payload.length ++ payload)
  else .ok (Json.compact (message msgType data) ++ [10])

def read (codec : MessageCodec) (raw : Bytes) : Option Packed :=
  if codec.wireFormat = "msgpack" then (MsgPack.unpackb raw).map (Packed.bytesToHexRecursive 0)
  else (QbitNetwork.decode raw).bind (fun text => (Json.loads (strip text)).map Packed.plain)

def decode (codec : MessageCodec) (raw : Bytes) : Option (Packed × Packed) :=
  match codec.read raw with
  | some (.map fields) => some (Packed.get fields "type" (.str ""),Packed.get fields "data" (.map []))
  | _ => none

end MessageCodec

namespace Packed

def inRange (value : Int) : Bool := -2 ^ 63 ≤ value && value < 2 ^ 64

mutual
def fits : Packed → Bool
  | .int value => inRange value
  | .arr items => fitsItems items
  | .map fields => fitsFields fields
  | _ => true

def fitsItems : List Packed → Bool
  | [] => true
  | item :: rest => fits item && fitsItems rest

def fitsFields : List (String × Packed) → Bool
  | [] => true
  | (_,value) :: rest => fits value && fitsFields rest
end

/- A text that is no hex, or the hex `bytes.hex` gives back. -/
def canonical (text : String) : Bool :=
  match fromHex text with
  | some data => hex data == text
  | none => true

mutual
def hexKept (depth : Nat) : Json → Bool
  | .obj fields => 10 < depth || hexKeptFields depth fields
  | .arr items => 10 < depth || hexKeptItems depth items
  | _ => true

def hexKeptItems (depth : Nat) : List Json → Bool
  | [] => true
  | item :: rest => hexKept (depth + 1) item && hexKeptItems depth rest

def hexKeptFields (depth : Nat) : List (String × Json) → Bool
  | [] => true
  | (key,value) :: rest =>
    (match binaryText key value with
      | some text => canonical text
      | none => hexKept (depth + 1) value) && hexKeptFields depth rest
end

section Conversions

theorem plainNoBinary (key : String) (value : Json) : binaryData key (plain value) = none := by
  unfold binaryData
  split
  · rename_i same
    cases value <;> cases same
  · rfl

theorem hexNoBinary (key : String) (depth : Nat) (value : Json) :
    binaryData key (hexToBytesRecursive depth value) = none := by
  cases value with
  | arr items =>
    rw [hexToBytesRecursive]
    split
    · exact plainNoBinary key (.arr items)
    · unfold binaryData
      split
      · rename_i same
        cases same
      · rfl
  | obj fields =>
    rw [hexToBytesRecursive]
    split
    · exact plainNoBinary key (.obj fields)
    · unfold binaryData
      split
      · rename_i same
        cases same
      · rfl
  | _ => exact plainNoBinary key _

theorem binaryTextKey {key : String} {value : Json} {text : String} (found : binaryText key value = some text) :
    binaryFields.contains key = true ∧ value = .str text := by
  unfold binaryText at found
  split at found
  · rename_i listed
    cases found
    exact ⟨listed,rfl⟩
  · cases found

theorem binaryRow {key text : String} (listed : binaryFields.contains key = true) (depth : Nat) :
    (let packed := match fromHex text with
        | some data => Packed.bin data
        | none => .str text
      match binaryData key packed with
        | some data => (key,Packed.str (hex data))
        | none => (key,bytesToHexRecursive depth packed)) = (key,.str text) ↔ canonical text = true := by
  unfold canonical
  split
  · rename_i data _
    have bytes : binaryData key (.bin data) = some data := by
      unfold binaryData
      rw [listed]
    simp only [bytes,Prod.mk.injEq,true_and,str.injEq,beq_iff_eq]
  · have kept : binaryData key (.str text) = none := by
      unfold binaryData
      split
      · rename_i same
        cases same
      · rfl
    simp only [kept,bytesToHexRecursive]

mutual
theorem convertedBack (depth : Nat) : ∀ value : Json,
    bytesToHexRecursive depth (hexToBytesRecursive depth value) = plain value ↔ hexKept depth value = true
  | .null => by simp [hexToBytesRecursive,plain,bytesToHexRecursive,hexKept]
  | .int _ => by simp [hexToBytesRecursive,plain,bytesToHexRecursive,hexKept]
  | .float _ => by simp [hexToBytesRecursive,plain,bytesToHexRecursive,hexKept]
  | .bool _ => by simp [hexToBytesRecursive,plain,bytesToHexRecursive,hexKept]
  | .str _ => by simp [hexToBytesRecursive,plain,bytesToHexRecursive,hexKept]
  | .arr items => by
    rw [hexToBytesRecursive,hexKept]
    by_cases deep : 10 < depth
    · rw [if_pos deep,plain,bytesToHexRecursive,if_pos deep]
      simp [deep]
    · rw [if_neg deep,bytesToHexRecursive,if_neg deep,plain,arr.injEq,convertedItems depth items]
      simp [deep]
  | .obj fields => by
    rw [hexToBytesRecursive,hexKept]
    by_cases deep : 10 < depth
    · rw [if_pos deep,plain,bytesToHexRecursive,if_pos deep]
      simp [deep]
    · rw [if_neg deep,bytesToHexRecursive,if_neg deep,plain,map.injEq,convertedFields depth fields]
      simp [deep]

theorem convertedItems (depth : Nat) : ∀ items : List Json,
    bytesToHexItems depth (hexToBytesItems depth items) = plainItems items ↔ hexKeptItems depth items = true
  | [] => by simp [hexToBytesItems,bytesToHexItems,plainItems,hexKeptItems]
  | item :: rest => by
    rw [hexToBytesItems,bytesToHexItems,plainItems,hexKeptItems,List.cons.injEq,convertedBack (depth + 1) item,
      convertedItems depth rest,Bool.and_eq_true]

theorem convertedFields (depth : Nat) : ∀ fields : List (String × Json),
    bytesToHexFields depth (hexToBytesFields depth fields) = plainFields fields ↔ hexKeptFields depth fields = true
  | [] => by simp [hexToBytesFields,bytesToHexFields,plainFields,hexKeptFields]
  | (key,value) :: rest => by
    rw [hexToBytesFields,plainFields,hexKeptFields,Bool.and_eq_true,← convertedFields depth rest]
    cases found : binaryText key value with
    | some text =>
      obtain ⟨listed,rfl⟩ := binaryTextKey found
      have row := @binaryRow key text listed (depth + 1)
      dsimp only at row ⊢
      rw [← row,plain]
      cases fromHex text <;> rw [bytesToHexFields,List.cons.injEq]
    | none =>
      dsimp only
      rw [bytesToHexFields,hexNoBinary,List.cons.injEq,Prod.mk.injEq,← convertedBack (depth + 1) value]
      simp
end

mutual
theorem convertedFits (depth : Nat) : ∀ value : Json,
    fits (hexToBytesRecursive depth value) = fits (plain value)
  | .null => rfl
  | .int _ => rfl
  | .float _ => rfl
  | .bool _ => rfl
  | .str _ => rfl
  | .arr items => by
    rw [hexToBytesRecursive]
    split
    · rfl
    · rw [plain,fits,fits,convertedItemsFit depth items]
  | .obj fields => by
    rw [hexToBytesRecursive]
    split
    · rfl
    · rw [plain,fits,fits,convertedFieldsFit depth fields]

theorem convertedItemsFit (depth : Nat) : ∀ items : List Json,
    fitsItems (hexToBytesItems depth items) = fitsItems (plainItems items)
  | [] => rfl
  | item :: rest => by
    rw [hexToBytesItems,plainItems,fitsItems,fitsItems,convertedFits (depth + 1) item,convertedItemsFit depth rest]

theorem convertedFieldsFit (depth : Nat) : ∀ fields : List (String × Json),
    fitsFields (hexToBytesFields depth fields) = fitsFields (plainFields fields)
  | [] => rfl
  | (key,value) :: rest => by
    rw [hexToBytesFields,plainFields]
    cases found : binaryText key value with
    | some text =>
      obtain ⟨-,rfl⟩ := binaryTextKey found
      dsimp only
      cases fromHex text <;> rw [fitsFields,fitsFields,convertedFieldsFit depth rest] <;> rfl
    | none =>
      dsimp only
      rw [fitsFields,fitsFields,convertedFits (depth + 1) value,convertedFieldsFit depth rest]
end

end Conversions

end Packed

namespace MessageCodec
open Packed

section Lines

theorem stripLine (fields : List (String × Json)) :
    strip (String.ofList (Json.asChars (Json.compact (.obj fields) ++ [10]))) =
      String.ofList (Json.asChars (Json.compact (.obj fields))) := by
  have shape : Json.asChars (Json.compact (.obj fields)) =
      '{' :: (Json.asChars (Json.commaSeparated (Json.compactFields fields)) ++ ['}']) := by
    rw [Json.compact,Json.asCharsCons,Json.asCharsAppend]
    rfl
  have line : Json.asChars ([10] : Bytes) = ['\n'] := rfl
  rw [strip,String.toList_ofList,Json.asCharsAppend,shape,line]
  generalize Json.asChars (Json.commaSeparated (Json.compactFields fields)) = body
  have solid : isPySpace '{' = false ∧ isPySpace '}' = false ∧ isPySpace '\n' = true := by decide
  rw [List.cons_append,List.dropWhile_cons_of_neg (by rw [solid.1]; decide)]
  simp [solid.2.1,solid.2.2]

theorem readLine [MsgPack] [FloatText] {fields : List (String × Json)} (proper : Json.Proper (.obj fields)) :
    read ⟨"json"⟩ (Json.compact (.obj fields) ++ [10]) = some (plain (.obj fields)) := by
  have ascii : ∀ b ∈ Json.compact (.obj fields) ++ [10], b < 128 := by
    intro b inside
    rcases List.mem_append.mp inside with inside | inside
    · exact Json.compactAscii _ b inside
    · rw [List.mem_singleton.mp inside]
      decide
  have decoded := decodeEncode (String.ofList (Json.asChars (Json.compact (.obj fields) ++ [10])))
  rw [Json.asCharsEncode ascii] at decoded
  rw [read,if_neg (by decide),decoded,Option.bind_some,stripLine,Json.loadsCompact proper]
  rfl

end Lines

def delivers [MsgPack] [FloatText] (codec : MessageCodec) (msgType : String) (data : Json) : Option (Packed × Packed) :=
  match codec.encode msgType data with
  | .ok raw => codec.decode (if codec.wireFormat = "msgpack" then raw.drop 4 else raw)
  | .error _ => none

def Lossless [MsgPack] (value : Packed) : Prop :=
  value.fits = true → ∃ raw, MsgPack.packb value = some raw ∧ MsgPack.unpackb raw = some value

def Small [MsgPack] (msgType : String) (data : Json) : Prop :=
  ∀ payload, MsgPack.packb (hexToBytesRecursive 0 (message msgType data)) = some payload → payload.length ≤ maxFrameSize

section Delivery
variable [MsgPack] [FloatText]

theorem binaryDelivers {msgType : String} {data : Json}
    (lossless : Lossless (hexToBytesRecursive 0 (message msgType data))) (fitting : (plain data).fits = true)
    (small : Small msgType data) : delivers ⟨"msgpack"⟩ msgType data =
      some (.str msgType,bytesToHexRecursive 1 (hexToBytesRecursive 1 data)) := by
  have unlisted : binaryText "type" (.str msgType) = none ∧ binaryText "data" data = none := by
    have names : binaryFields.contains "type" = false ∧ binaryFields.contains "data" = false := by decide
    unfold binaryText
    rw [names.1,names.2]
    exact ⟨rfl,rfl⟩
  have converted : hexToBytesRecursive 0 (message msgType data) =
      .map [("type",.str msgType),("data",hexToBytesRecursive 1 data)] := by
    rw [message,hexToBytesRecursive,if_neg (by decide),hexToBytesFields,hexToBytesFields,unlisted.1,unlisted.2]
    rfl
  have whole : (hexToBytesRecursive 0 (message msgType data)).fits = true := by
    rw [convertedFits,message,plain,plainFields,plainFields,plainFields,fits,fitsFields,fitsFields,fitsFields,fitting]
    rfl
  obtain ⟨payload,packed,unpacked⟩ := lossless whole
  have back : bytesToHexRecursive 0 (.map [("type",.str msgType),("data",hexToBytesRecursive 1 data)]) =
      .map [("type",.str msgType),("data",bytesToHexRecursive 1 (hexToBytesRecursive 1 data))] := by
    rw [bytesToHexRecursive,if_neg (by decide),bytesToHexFields,bytesToHexFields,hexNoBinary]
    rfl
  unfold delivers encode decode read
  rw [if_pos rfl,packed]
  dsimp only
  rw [if_neg (Nat.not_lt.mpr (small payload packed))]
  dsimp only
  rw [if_pos rfl,if_pos rfl,show (lengthPrefix payload.length ++ payload).drop 4 = payload from rfl,unpacked,converted,
    Option.map_some,back]
  rfl

theorem textDelivers {msgType : String} {data : Json} (proper : Json.Proper data) :
    delivers ⟨"json"⟩ msgType data = some (.str msgType,plain data) := by
  have distinct : ["type","data"].Nodup := by decide
  have whole : Json.Proper (message msgType data) := ⟨distinct,trivial,proper,trivial⟩
  unfold delivers encode decode
  rw [if_neg (by decide)]
  dsimp only
  rw [if_neg (by decide),message,readLine whole]
  rfl

theorem binaryAsText (msgType : String) (data : Json) (proper : Json.Proper data) (fitting : (plain data).fits = true)
    (lossless : Lossless (hexToBytesRecursive 0 (message msgType data))) (small : Small msgType data)
    (kept : hexKept 1 data = true) :
    delivers ⟨"msgpack"⟩ msgType data = some (.str msgType,plain data) ∧
      delivers ⟨"msgpack"⟩ msgType data = delivers ⟨"json"⟩ msgType data := by
  have delivered := binaryDelivers lossless fitting small
  rw [(convertedBack 1 data).mpr kept] at delivered
  exact ⟨delivered,delivered.trans (textDelivers proper).symm⟩

end Delivery

namespace Devnet

@[reducible] def noFloats : FloatText where
  float := fun _ => ⟨.nan,"NaN",by decide⟩

@[reducible] def oneField : MsgPack where
  packb
    | .map [_,(_,.map [(_,.str text)])] => some (0 :: QbitNetwork.encode text)
    | .map [_,(_,.map [(_,.bin data)])] => some (1 :: data)
    | _ => none
  unpackb
    | 0 :: raw => (QbitNetwork.decode raw).map
        (fun text => .map [("type",.str "new_tx"),("data",.map [("payload",.str text)])])
    | 1 :: raw => some (.map [("type",.str "new_tx"),("data",.map [("signature",.bin raw)])])
    | _ => none

section Local
attribute [local instance] noFloats oneField

def signed (signature : String) : Json := .obj [("signature",.str signature)]

theorem signedBinary : delivers ⟨"msgpack"⟩ "new_tx" (signed "0aff") = some (.str "new_tx",plain (signed "0aff")) ∧
    delivers ⟨"msgpack"⟩ "new_tx" (signed "0aff") = delivers ⟨"json"⟩ "new_tx" (signed "0aff") := by
  have bytes : fromHex "0aff" = some [10,255] := by decide +kernel
  have sent : hexToBytesRecursive 0 (message "new_tx" (signed "0aff")) =
      .map [("type",.str "new_tx"),("data",.map [("signature",.bin [10,255])])] := by
    simp [message,signed,hexToBytesRecursive,hexToBytesFields,binaryText,binaryFields,plain,bytes]
  refine binaryAsText "new_tx" (signed "0aff") ⟨by decide,trivial,trivial⟩ rfl (fun _ => ?_) (fun payload packed => ?_)
    (by decide +kernel)
  · rw [sent]
    exact ⟨_,rfl,rfl⟩
  · rw [sent] at packed
    cases packed
    decide

def paying (text : String) : Json := .obj [("payload",.str text)]

def huge : String := .ofList (List.replicate (maxFrameSize + 1) 'x')

theorem encodeLength (n : Nat) : (QbitNetwork.encode (.ofList (List.replicate n 'x'))).length = n := by
  rw [encodeChars,String.toList_ofList]
  induction n with
  | zero => rfl
  | succ n ih =>
    rw [List.replicate_succ,List.flatMap_cons,List.length_append,ih]
    have one : (String.utf8EncodeChar 'x').length = 1 := by decide
    omega

theorem payingSent (text : String) : hexToBytesRecursive 0 (message "new_tx" (paying text)) =
    .map [("type",.str "new_tx"),("data",.map [("payload",.str text)])] := by
  simp [message,paying,hexToBytesRecursive,hexToBytesFields,binaryText,binaryFields,plain]

theorem payingRefused {text : String} (long : maxFrameSize < (QbitNetwork.encode text).length) :
    delivers ⟨"msgpack"⟩ "new_tx" (paying text) = none := by
  have large : maxFrameSize < (0 :: QbitNetwork.encode text).length := Nat.lt_succ_of_lt long
  unfold delivers encode
  rw [if_pos rfl,payingSent]
  simp only [MsgPack.packb,if_pos large]

theorem hugeRefused : Lossless (hexToBytesRecursive 0 (message "new_tx" (paying huge))) ∧
    delivers ⟨"msgpack"⟩ "new_tx" (paying huge) = none ∧
    delivers ⟨"json"⟩ "new_tx" (paying huge) = some (.str "new_tx",plain (paying huge)) := by
  have long : maxFrameSize < (QbitNetwork.encode huge).length := by
    rw [huge,encodeLength]
    exact Nat.lt_succ_self _
  have distinct : ["payload"].Nodup := by decide
  generalize huge = text at long
  refine ⟨fun _ => ?_,payingRefused long,textDelivers ⟨distinct,trivial,trivial⟩⟩
  rw [payingSent]
  refine ⟨_,rfl,?_⟩
  simp only [MsgPack.unpackb,decodeEncode,Option.map_some]

end Local

end Devnet

end MessageCodec

end QbitNetwork
