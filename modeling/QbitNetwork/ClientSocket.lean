import QbitNetwork.Codec
import QbitNetwork.JsonLayout
import QbitNetwork.Lib.Dict
import QbitNetwork.Lib.Framing
import QbitNetwork.PyValue

/-! The SDK's WebSocket client: the frames it writes and reads, and the loop that hands the events of
the node to callbacks. -/
namespace QbitNetwork.QBitWebSocket
open Framing

section Model

/- `os.urandom(4)`. -/
structure Mask where
  bytes : Bytes
  size : bytes.length = 4

def applyMask (mask data : Bytes) : Bytes := data.zipIdx.map (fun row => row.1 ^^^ mask.getD (row.2 % 4) 0)

/- `struct.pack` of an unsigned integer of this many bytes, the highest first. -/
def pack : Nat → Nat → Bytes
  | 0,_ => []
  | width + 1,n => pack width (n / 256) ++ [UInt8.ofNat (n % 256)]

/- The byte with the mask bit, and a longer length behind it; `none` is the struct.error. -/
def lengthHeader (maskBit : UInt8) (length : Nat) : Option Bytes :=
  if length < 126 then some [maskBit ||| UInt8.ofNat length]
  else if length < 65536 then some ((maskBit ||| 126) :: pack 2 length)
  else if length < 2 ^ 64 then some ((maskBit ||| 127) :: pack 8 length)
  else none

def frame (mask : Option Mask) (opcode : UInt8) (payload : Bytes) : Option Bytes :=
  match mask with
  | some mask => (lengthHeader 0x80 payload.length).map (fun length =>
      (0x80 ||| opcode) :: length ++ mask.bytes ++ applyMask mask.bytes payload)
  | none => (lengthHeader 0 payload.length).map (fun length => (0x80 ||| opcode) :: length ++ payload)

def sendFrame (mask : Mask) (payload : Bytes) (opcode : UInt8) : Option Bytes := frame (some mask) opcode payload

def recvLength (short : UInt8) : Reader UInt8 Nat :=
  if short = 126 then (Reader.exact 2).andThen (fun data => .done (fromBytesBig data))
  else if short = 127 then (Reader.exact 8).andThen (fun data => .done (fromBytesBig data))
  else .done short.toNat

/- `_recv_frame`; `none` is the ConnectionError. -/
def recvFrame : Reader UInt8 (UInt8 × Bytes) :=
  (Reader.exact 2).andThen fun header =>
    let opcode := header.getD 0 0 &&& 0x0F
    let masked := header.getD 1 0 &&& 0x80 ≠ 0
    (recvLength (header.getD 1 0 &&& 0x7F)).andThen fun length =>
      if masked then
        (Reader.exact 4).andThen fun mask =>
          (Reader.exact length).andThen fun data => .done (opcode,applyMask mask data)
      else (Reader.exact length).andThen fun data => .done (opcode,data)

inductive Deed where
  | call (callback : Nat) (data : Json)
  | pong (payload : Bytes)

variable [FloatText]

/- `json.dumps(data).encode()`. -/
def dumped (data : Json) : Bytes := encode (String.ofList (Json.laid Json.Layout.plain 0 data))

def sendJson (mask : Mask) (data : Json) : Option Bytes := sendFrame mask (dumped data) 0x1

def subscribe (mask : Mask) (channel : String) : Option Bytes :=
  sendJson mask (.obj [("type",.str "subscribe"),("channel",.str channel)])

def eventOf (payload : Bytes) : Option (Json × Json) := do
  let text ← decode payload
  match Json.loads text with
  | some (.obj fields) =>
    if ((Json.lookup fields "type").getD .null).equal (.str "event") then
      some ((Json.lookup fields "channel").getD (.str ""),(Json.lookup fields "data").getD (.obj []))
    else none
  | _ => none

def dispatch (callbacks : Dict String (List Nat)) (received : UInt8 × Bytes) : Except PyExc (Option (List Deed)) :=
  if received.1 = 0x8 then .ok none
  else if received.1 = 0x9 then .ok (some [.pong received.2])
  else if received.1 = 0x1 then
    match eventOf received.2 with
    | none => .ok (some [])
    | some (channel,data) => do
      let key ← channel.tableKey
      let registered := (key.bind (fun name => callbacks[name]?)).getD []
      .ok (some (registered.map (.call · data)))
  else .ok (some [])

def eventMessage (channel : String) (data : Json) : Json :=
  .obj [("type",.str "event"),("channel",.str channel),("data",data)]

inductive Sent where
  | event (channel : String) (data : Json)
  | ping (payload : Bytes)
  | other (data : Json)

def isEvent : Json → Bool
  | .obj fields => ((Json.lookup fields "type").getD .null).equal (.str "event")
  | _ => false

namespace Sent

def frame : Sent → Option Bytes
  | .event channel data => QBitWebSocket.frame none 0x1 (dumped (eventMessage channel data))
  | .ping payload => QBitWebSocket.frame none 0x9 payload
  | .other data => QBitWebSocket.frame none 0x1 (dumped data)

omit [FloatText] in
def deeds (callbacks : Dict String (List Nat)) : Sent → List Deed
  | .event channel data => (callbacks[channel]?.getD []).map (.call · data)
  | .ping payload => [.pong payload]
  | .other _ => []

omit [FloatText] in
def outcome (callbacks : Dict String (List Nat)) (raises : Nat → Bool) : Nat → List Sent → List Deed × Option PyExc
  | _,[] => ([],none)
  | pongs,.ping payload :: rest =>
    if raises pongs then ([],some .osError)
    else (.pong payload :: (outcome callbacks raises (pongs + 1) rest).1,(outcome callbacks raises (pongs + 1) rest).2)
  | pongs,item :: rest =>
    (item.deeds callbacks ++ (outcome callbacks raises pongs rest).1,(outcome callbacks raises pongs rest).2)

def Proper : Sent → Prop
  | .event _ data => Json.Proper data
  | .ping _ => True
  | .other data => Json.Proper data ∧ isEvent data = false

end Sent

end Model

section Laws

theorem packLength (width n : Nat) : (pack width n).length = width := by
  induction width generalizing n with
  | zero => rfl
  | succ width ih => rw [pack,List.length_append,ih,List.length_singleton]

theorem packRead (width : Nat) : ∀ {n : Nat}, n < 256 ^ width → fromBytesBig (pack width n) = n := by
  induction width with
  | zero =>
    intro n small
    rw [Nat.pow_zero] at small
    have zero : n = 0 := by omega
    subst zero
    rfl
  | succ width ih =>
    intro n small
    have front : n / 256 < 256 ^ width := by
      rw [Nat.pow_succ] at small
      exact Nat.div_lt_of_lt_mul (by rwa [Nat.mul_comm])
    have last : (UInt8.ofNat (n % 256)).toNat = n % 256 := by
      rw [UInt8.toNat_ofNat']
      omega
    have read : fromBytesBig (pack (width + 1) n) = 256 * fromBytesBig (pack width (n / 256)) + n % 256 := by
      rw [pack,fromBytesBig,List.foldl_append]
      simp only [List.foldl_cons,List.foldl_nil,last,fromBytesBig]
    rw [read,ih front]
    omega

theorem maskLength (mask data : Bytes) : (applyMask mask data).length = data.length := by
  rw [applyMask,List.length_map,List.length_zipIdx]

theorem maskTwice (mask data : Bytes) : applyMask mask (applyMask mask data) = data := by
  refine List.ext_getElem (by rw [maskLength,maskLength]) (fun i _ inside => ?_)
  simp only [applyMask,List.getElem_map,List.getElem_zipIdx]
  rw [UInt8.xor_assoc,UInt8.xor_self,UInt8.xor_zero]

theorem opcodeBack : ∀ n < 16, (0x80 ||| UInt8.ofNat n) &&& 0x0F = UInt8.ofNat n := by decide

theorem shortBack : ∀ n < 128, ∀ masked : Bool,
    ((if masked then 0x80 else 0) ||| UInt8.ofNat n) &&& 0x7F = UInt8.ofNat n ∧
      (((if masked then 0x80 else 0) ||| UInt8.ofNat n) &&& 0x80 ≠ 0 ↔ masked = true) := by decide +kernel

theorem readsWide (width : Nat) {n : Nat} (small : n < 256 ^ width) :
    Reads ((Reader.exact width).andThen (fun data => .done (fromBytesBig data))) (pack width n) n := by
  have size := readsExact (pack width n)
  rw [packLength] at size
  have read := readsThen (f := fun data => .done (fromBytesBig data)) size (readsDone (fromBytesBig (pack width n)))
  rwa [packRead width small,List.append_nil] at read

theorem lengthReads {masked : Bool} {length : Nat} {text : Bytes}
    (run : lengthHeader (if masked then 0x80 else 0) length = some text) : ∃ second more, text = second :: more ∧
      Reads (recvLength (second &&& 0x7F)) more length ∧ (second &&& 0x80 ≠ 0 ↔ masked = true) := by
  unfold lengthHeader at run
  split at run
  · rename_i short
    obtain ⟨low,bit⟩ := shortBack length (by omega) masked
    refine ⟨_,[],(Option.some.inj run).symm,?_,bit⟩
    have value : (UInt8.ofNat length).toNat = length := by
      rw [UInt8.toNat_ofNat']
      omega
    have small : ∀ n, 126 ≤ n → n < 128 → UInt8.ofNat length ≠ UInt8.ofNat n := by
      intro n above below same
      have numbers := congrArg UInt8.toNat same
      rw [value,UInt8.toNat_ofNat'] at numbers
      omega
    have medium : UInt8.ofNat length ≠ 126 := small 126 (by decide) (by decide)
    have long : UInt8.ofNat length ≠ 127 := small 127 (by decide) (by decide)
    rw [low,recvLength,if_neg medium,if_neg long,value]
    exact readsDone length
  · split at run
    · rename_i medium
      obtain ⟨low,bit⟩ := shortBack 126 (by decide) masked
      refine ⟨_,pack 2 length,(Option.some.inj run).symm,?_,bit⟩
      have wide : ((if masked then 0x80 else 0) ||| 126) &&& 0x7F = (126 : UInt8) := low
      rw [wide,recvLength,if_pos rfl]
      exact readsWide 2 medium
    · split at run
      · rename_i long
        obtain ⟨low,bit⟩ := shortBack 127 (by decide) masked
        refine ⟨_,pack 8 length,(Option.some.inj run).symm,?_,bit⟩
        have wide : ((if masked then 0x80 else 0) ||| 127) &&& 0x7F = (127 : UInt8) := low
        rw [wide,recvLength,if_neg (by decide),if_pos rfl]
        exact readsWide 8 long
      · cases run

theorem frameReads {mask : Option Mask} {opcode : UInt8} {payload text : Bytes} (low : opcode < 16)
    (run : frame mask opcode payload = some text) : Reads recvFrame text (opcode,payload) := by
  have code : (0x80 ||| opcode) &&& 0x0F = opcode := by
    have back := opcodeBack opcode.toNat low
    rwa [UInt8.ofNat_toNat] at back
  cases mask with
  | none =>
    obtain ⟨header,made,rfl⟩ := Option.map_eq_some_iff.mp run
    have bare : lengthHeader (if false then 0x80 else 0) payload.length = some header := made
    obtain ⟨second,more,rfl,length,bit⟩ := lengthReads bare
    have plain : ¬second &&& 0x80 ≠ 0 := fun set => by simpa using bit.mp set
    have data := readsThen (f := fun data => .done (opcode,data)) (readsExact payload) (readsDone (opcode,payload))
    have body := readsThen (f := fun length => (Reader.exact length).andThen fun data => .done (opcode,data)) length data
    refine (readsThen (readsExact [0x80 ||| opcode,second]) (?_ : Reads _ (more ++ payload) _)).congr (by simp)
    simp only [List.getD_cons_zero,List.getD_cons_succ,code,if_neg plain]
    exact body.congr (by simp)
  | some mask =>
    obtain ⟨header,made,rfl⟩ := Option.map_eq_some_iff.mp run
    have covered : lengthHeader (if true then 0x80 else 0) payload.length = some header := made
    obtain ⟨second,more,rfl,length,bit⟩ := lengthReads covered
    have set : second &&& 0x80 ≠ 0 := bit.mpr rfl
    have hidden := readsExact (applyMask mask.bytes payload)
    rw [maskLength] at hidden
    have data := readsThen (f := fun data => .done (opcode,applyMask mask.bytes data)) hidden
      (readsDone (opcode,applyMask mask.bytes (applyMask mask.bytes payload)))
    rw [maskTwice] at data
    have four := readsExact mask.bytes
    rw [mask.size] at four
    have behind := readsThen (f := fun bytes => (Reader.exact payload.length).andThen fun data =>
      .done (opcode,applyMask bytes data)) four data
    have body := readsThen (f := fun length => (Reader.exact 4).andThen fun bytes =>
      (Reader.exact length).andThen fun data => .done (opcode,applyMask bytes data)) length behind
    refine (readsThen (readsExact [0x80 ||| opcode,second])
      (?_ : Reads _ (more ++ (mask.bytes ++ applyMask mask.bytes payload)) _)).congr (by simp)
    simp only [List.getD_cons_zero,List.getD_cons_succ,code,if_pos set]
    exact body.congr (by simp)

def Cut (cut : Bytes) : Prop := ∃ (mask : Option Mask) (opcode : UInt8) (payload missing : Bytes), opcode < 16 ∧
  missing ≠ [] ∧ frame mask opcode payload = some (cut ++ missing)

theorem cutRead {cut : Bytes} (broken : Cut cut) {pieces : Pieces UInt8} (solid : Solid pieces)
    (same : pieces.flatten = cut) : recvFrame pieces = none := by
  obtain ⟨mask,opcode,payload,missing,low,more,run⟩ := broken
  exact (frameReads low run).short pieces missing solid more (by rw [same])

structure Written where
  mask : Option Mask
  opcode : UInt8
  payload : Bytes
  text : Bytes
  low : opcode < 16
  made : frame mask opcode payload = some text

/- Whatever frames are written, and however the network cuts them into pieces or breaks off, the frames that
arrive whole are read, each once and in order, with the payload they were given. -/
theorem framesReadBack (sent : List Written) (cut : Bytes) (broken : Cut cut) (pieces : Pieces UInt8)
    (solid : Solid pieces) (arrived : pieces.flatten = (sent.map Written.text).flatten ++ cut) (turns : Nat)
    (enough : sent.length < turns) :
    recvFrame.all turns pieces = sent.map (fun w => (w.opcode,w.payload)) :=
  allReads (fun w _ => frameReads w.low w.made) (fun _ solid same => cutRead broken solid same) enough solid arrived

section Events
variable [FloatText]

theorem dumpedRead {data : Json} (proper : Json.Proper data) : ∃ text, decode (dumped data) = some text ∧
    Json.loads text = some data := ⟨_,decodeEncode _,Json.loadsLaid Json.Layout.plain proper⟩

def Ends (cut : Bytes) : Prop := Cut cut ∨ ∃ payload text more, frame none 0x8 payload = some text ∧ cut = text ++ more

end Events

end Laws

end QbitNetwork.QBitWebSocket

namespace QbitNetwork.Devnet
open QBitWebSocket

section Floatless
attribute [local instance] MessageCodec.Devnet.noFloats

theorem pingLow : (0x9 : UInt8) < 16 := by decide

theorem pingMade : QBitWebSocket.frame none 0x9 [1,2] = some [0x89,2,1,2] := rfl

def pinged : Written := ⟨none,0x9,[1,2],[0x89,2,1,2],pingLow,pingMade⟩

theorem begun : Cut [0x89] := ⟨none,0x9,[],[0],by decide,by decide,rfl⟩

theorem solidPieces : Framing.Solid [[0x89],[2,1],[2,(0x89 : UInt8)]] := by
  intro piece inside
  rcases List.mem_cons.mp inside with rfl | inside
  · decide
  · rcases List.mem_cons.mp inside with rfl | inside
    · decide
    · rw [List.mem_singleton.mp inside]
      decide

theorem framesReadBackPinged : recvFrame.all 2 [[0x89],[2,1],[2,0x89]] = [(0x9,[1,2])] :=
  framesReadBack [pinged] [0x89] begun _ solidPieces rfl 2 (by decide)

def announced : List Sent :=
  [.other (.obj [("type",.str "subscribed")]),.event "new_tx" (.int 7),.ping [1,2],.ping [3]]

end Floatless

end QbitNetwork.Devnet
