import QbitNetwork.ClientSocket
import QbitNetwork.WireFormatLaws
import QbitNetwork.Lib.Buffered

/-! The bytes of a connection between two nodes: what `Peer.send` writes and `_read_message` reads, in both wire
formats, and that the frames in flight are read back from the byte stream as they were sent. -/
namespace QbitNetwork.PeerStream
open Handshake.WireFormat (Frame)
open Buffered (Stream)
open Json (escapeChar escaped hex4 dumpsStr laid laidItems laidRows Layout)

section Model

def readerLimit : Nat := 10 * 1024 * 1024

variable [MsgPack] [FloatText]

/- The bytes `Peer.send` writes; `none` is an exception, which marks the connection as lost. -/
def frameBytes (hasMsgpack : Bool) (frame : Frame) : Option Bytes :=
  if frame.format = "msgpack" then
    match MessageCodec.new hasMsgpack "msgpack" with
    | .ok codec => (codec.encode frame.msgType frame.data).toOption
    | .error _ => none
  else some (QBitWebSocket.dumped (MessageCodec.message frame.msgType frame.data) ++ [10])

/- `obj.get("type", ""), obj.get("data", {})` of what a line holds; `none` is the AttributeError. -/
def typeAndData : Packed → Option (Packed × Packed)
  | .map fields => some (Packed.get fields "type" (.str ""),Packed.get fields "data" (.map []))
  | _ => none

/- `_read_message`, but for the time it waits. `none` is an exception, and ends the loop; so does a message
that is `None`. -/
def readMessage (hasMsgpack : Bool) (format : String) (stream : Stream UInt8) :
    Option (Option (Packed × Packed) × Stream UInt8) :=
  if format = "msgpack" then do
    let (header,stream) ← stream.exactly 4
    let length := fromBytesBig header
    if length = 0 ∨ maxFrameSize < length then some (none,stream)
    else do
      let (payload,stream) ← stream.exactly length
      match MessageCodec.new hasMsgpack "msgpack" with
      | .ok codec => some (codec.decode payload,stream)
      | .error _ => none
  else do
    let (line,stream) ← stream.line (· == 10) readerLimit
    if line = [] then some (none,stream)
    else match MessageCodec.read ⟨"json"⟩ line with
    | none => some (none,stream)
    | some value => (typeAndData value).map (fun message => (some message,stream))

end Model

section Lines

theorem escapeSolid (c : Char) : ∀ b ∈ escapeChar c, 32 ≤ b := by
  have digits : ∀ n < 16, 32 ≤ hexDigit n := by decide
  have short : ∀ b : UInt8, 32 ≤ b → ∀ d ∈ escaped [b], 32 ≤ d := by
    intro b large d inside
    rcases List.mem_cons.mp inside with rfl | inside
    · decide
    · exact List.mem_singleton.mp inside ▸ large
  have long : ∀ n, ∀ d ∈ escaped (117 :: hex4 n), 32 ≤ d := by
    intro n d inside
    simp only [escaped,hex4,List.mem_cons,List.not_mem_nil,or_false] at inside
    rcases inside with rfl | rfl | rfl | rfl | rfl | rfl
    · decide
    · decide
    all_goals exact digits _ (Nat.mod_lt _ (by decide))
  unfold escapeChar
  split
  · exact short _ (by decide)
  split
  · exact short _ (by decide)
  split
  · exact short _ (by decide)
  split
  · exact short _ (by decide)
  split
  · exact short _ (by decide)
  split
  · exact short _ (by decide)
  split
  · exact short _ (by decide)
  split
  · rename_i printable
    intro b inside
    rw [List.mem_singleton.mp inside]
    have large : ∀ n < 127, 32 ≤ n → 32 ≤ UInt8.ofNat n := by decide
    exact large _ (by omega) printable.1
  split
  · exact long _
  · intro b inside
    exact (List.mem_append.mp inside).elim (long _ b) (long _ b)

def Inline (c : Char) : Prop := 32 ≤ c.toNat ∧ c.toNat < 128

theorem inlineByte : ∀ b : UInt8, 32 ≤ b → b < 128 → Inline (Char.ofNat b.toNat) := by
  have all : ∀ n < 128, 32 ≤ n → Inline (Char.ofNat n) := by
    unfold Inline
    decide +kernel
  exact fun b large small => all b.toNat small large

theorem inlineChars {data : Bytes} (large : ∀ b ∈ data, 32 ≤ b) (small : ∀ b ∈ data, b < 128) :
    ∀ c ∈ Json.asChars data, Inline c := by
  intro c inside
  obtain ⟨b,byte,rfl⟩ := List.mem_map.mp inside
  exact inlineByte b (large b byte) (small b byte)

theorem inlineWord {data : Bytes} (word : ∀ b ∈ data, isNumeral b = true) : ∀ c ∈ Json.asChars data, Inline c := by
  have large : ∀ n < 256, isNumeral (UInt8.ofNat n) = true → 32 ≤ UInt8.ofNat n := by decide +kernel
  refine inlineChars (fun b inside => ?_) (Json.wordAscii word)
  have here := large b.toNat b.toNat_lt
  rw [UInt8.ofNat_toNat] at here
  exact here (word b inside)

theorem inlineStr (text : String) : ∀ c ∈ Json.asChars (dumpsStr text), Inline c := by
  refine inlineChars (fun b inside => ?_) (Json.dumpsStrAscii text)
  rw [Json.dumpsStrEscaped] at inside
  rcases List.mem_cons.mp inside with rfl | inside
  · decide
  rcases List.mem_append.mp inside with inside | inside
  · obtain ⟨c,-,byte⟩ := List.mem_flatMap.mp inside
    exact escapeSolid c b byte
  · rw [List.mem_singleton.mp inside]
    decide

theorem inlineAll {text : String} (inline : ∀ c ∈ text.toList, Inline c) : ∀ b ∈ encode text, b ≠ 10 := by
  intro b inside
  rw [encodeChars] at inside
  obtain ⟨c,listed,byte⟩ := List.mem_flatMap.mp inside
  obtain ⟨large,small⟩ := inline c listed
  have single := utf8EncodeSmall c.toNat small
  rw [Char.ofNat_toNat] at single
  rw [single] at byte
  rw [List.mem_singleton.mp byte]
  have other : ∀ n < 128, 32 ≤ n → UInt8.ofNat n ≠ 10 := by decide
  exact other _ small large

theorem inlineAppend {xs ys : List Char} (first : ∀ c ∈ xs, Inline c) (second : ∀ c ∈ ys, Inline c) :
    ∀ c ∈ xs ++ ys, Inline c := fun c inside => (List.mem_append.mp inside).elim (first c) (second c)

theorem inlineCons {x : Char} {xs : List Char} (first : Inline x) (second : ∀ c ∈ xs, Inline c) :
    ∀ c ∈ x :: xs, Inline c := fun c inside => (List.mem_cons.mp inside).elim (fun same => same ▸ first) (second c)

theorem inlineMark (c : Char) (mark : c = ' ' ∨ c = ',' ∨ c = ':' ∨ c = '[' ∨ c = ']' ∨ c = '\x7b' ∨ c = '\x7d') :
    Inline c := by
  unfold Inline
  rcases mark with rfl | rfl | rfl | rfl | rfl | rfl | rfl <;> decide

mutual
theorem inlineLaid : ∀ (value : Json) (depth : Nat), ∀ c ∈ laid .plain depth value, Inline c
  | .null,_ => by rw [laid]; exact inlineWord (by decide +kernel)
  | .int value,_ => by rw [laid]; exact inlineWord (Json.intNumeral value)
  | .float value,_ => by rw [laid]; exact inlineWord (List.all_eq_true.mp value.numeral)
  | .bool true,_ => by rw [laid]; exact inlineWord (by decide +kernel)
  | .bool false,_ => by rw [laid]; exact inlineWord (by decide +kernel)
  | .str text,_ => by rw [laid]; exact inlineStr text
  | .arr items,depth => by
    rw [laid]
    refine inlineCons (inlineMark _ (by decide)) (inlineAppend ?_ (inlineItems items depth))
    split <;> simp [Layout.plain]
  | .obj fields,depth => by
    rw [laid]
    refine inlineCons (inlineMark _ (by decide)) (inlineAppend ?_ (inlineRows fields depth))
    split <;> simp [Layout.plain]

theorem inlineItems : ∀ (items : List Json) (depth : Nat), ∀ c ∈ laidItems .plain depth items, Inline c
  | [],_ => by rw [laidItems]; exact inlineCons (inlineMark _ (by decide)) (by simp)
  | item :: rest,depth => by
    rw [laidItems]
    refine inlineAppend (inlineLaid item (depth + 1)) ?_
    split
    · exact inlineCons (inlineMark _ (by decide)) (by simp)
    · exact inlineCons (inlineMark _ (by decide)) (inlineCons (inlineMark _ (by decide)) (inlineItems rest depth))

theorem inlineRows : ∀ (fields : List (String × Json)) (depth : Nat), ∀ c ∈ laidRows .plain depth fields, Inline c
  | [],_ => by rw [laidRows]; exact inlineCons (inlineMark _ (by decide)) (by simp)
  | (key,value) :: rest,depth => by
    rw [laidRows]
    have space : ∀ c ∈ Layout.plain.colon, Inline c := inlineCons (inlineMark ' ' (by decide)) (by simp)
    refine inlineAppend (inlineStr key) (inlineCons (inlineMark _ (by decide)) (inlineAppend space
      (inlineAppend (inlineLaid value (depth + 1)) ?_)))
    split
    · exact inlineCons (inlineMark _ (by decide)) (by simp)
    · exact inlineCons (inlineMark _ (by decide)) (inlineCons (inlineMark _ (by decide)) (inlineRows rest depth))
end

theorem rowsEnd (depth : Nat) : ∀ fields : List (String × Json), ∃ body, laidRows .plain depth fields = body ++ ['\x7d'] := by
  intro fields
  induction fields with
  | nil => exact ⟨[],rfl⟩
  | cons row rest ih =>
    obtain ⟨key,value⟩ := row
    obtain ⟨body,shape⟩ := ih
    rw [laidRows,shape]
    split
    · exact ⟨Json.asChars (dumpsStr key) ++ ':' :: ' ' :: laid .plain (depth + 1) value,by simp [Layout.plain]⟩
    · exact ⟨Json.asChars (dumpsStr key) ++ ':' :: ' ' :: (laid .plain (depth + 1) value ++ ',' :: ' ' :: body),
        by simp [Layout.plain]⟩

theorem stripDumped (fields : List (String × Json)) :
    strip (String.ofList (laid .plain 0 (.obj fields) ++ ['\n'])) = String.ofList (laid .plain 0 (.obj fields)) := by
  obtain ⟨body,rows⟩ := rowsEnd 0 fields
  have shape : laid .plain 0 (.obj fields) = '\x7b' :: (body ++ ['\x7d']) := by
    rw [laid,rows]
    split <;> rfl
  have solid : isPySpace '\x7b' = false ∧ isPySpace '\x7d' = false ∧ isPySpace '\n' = true := by decide
  rw [strip,String.toList_ofList,shape,List.cons_append,List.dropWhile_cons_of_neg (by rw [solid.1]; decide)]
  simp [solid.2.1,solid.2.2]

end Lines

section Frames
variable [MsgPack] [FloatText]

def Substantial : Prop := ∀ value raw, MsgPack.packb value = some raw → raw ≠ []

/- Within the limits of its format: a line that is not too long, or a value msgpack takes, whose binary texts are
canonical. -/
structure Fair (frame : Frame) : Prop where
  proper : Json.Proper frame.data
  short : frame.format ≠ "msgpack" →
    (QBitWebSocket.dumped (MessageCodec.message frame.msgType frame.data)).length ≤ readerLimit
  fits : frame.format = "msgpack" → (Packed.plain frame.data).fits = true
  kept : frame.format = "msgpack" → Packed.hexKept 1 frame.data = true
  lossless : frame.format = "msgpack" →
    MessageCodec.Lossless (Packed.hexToBytesRecursive 0 (MessageCodec.message frame.msgType frame.data))

def received (frame : Frame) : Option (Packed × Packed) := some (.str frame.msgType,Packed.plain frame.data)

omit [MsgPack] [FloatText] in
theorem prefixRead {n : Nat} (small : n < 2 ^ 32) : fromBytesBig (MessageCodec.lengthPrefix n) = n := by
  simp only [fromBytesBig,MessageCodec.lengthPrefix,List.foldl_cons,List.foldl_nil,UInt8.toNat_ofNat']
  omega

theorem lineRead {msgType : String} {data : Json} (proper : Json.Proper data) :
    MessageCodec.read ⟨"json"⟩ (QBitWebSocket.dumped (MessageCodec.message msgType data) ++ [10]) =
      some (Packed.plain (MessageCodec.message msgType data)) := by
  have distinct : ["type","data"].Nodup := by decide
  have whole : Json.Proper (MessageCodec.message msgType data) := ⟨distinct,trivial,proper,trivial⟩
  have bytes : QBitWebSocket.dumped (MessageCodec.message msgType data) ++ [10] =
      encode (String.ofList (laid .plain 0 (MessageCodec.message msgType data) ++ ['\n'])) := by
    rw [QBitWebSocket.dumped,encodeChars,encodeChars,String.toList_ofList,String.toList_ofList,List.flatMap_append]
    rfl
  rw [MessageCodec.read,if_neg (by decide),bytes,decodeEncode,Option.bind_some,MessageCodec.message,stripDumped,
    ← MessageCodec.message,Json.loadsLaid .plain whole,Option.map_some]

omit [FloatText] in
theorem binaryBytes {frame : Frame} {raw : Bytes} (format : frame.format = "msgpack")
    (run : frameBytes true frame = some raw) : ∃ payload,
      MsgPack.packb (Packed.hexToBytesRecursive 0 (MessageCodec.message frame.msgType frame.data)) = some payload ∧
      payload.length ≤ maxFrameSize ∧ raw = MessageCodec.lengthPrefix payload.length ++ payload ∧
      MessageCodec.encode ⟨"msgpack"⟩ frame.msgType frame.data = .ok raw := by
  rw [frameBytes,if_pos format] at run
  change (MessageCodec.encode ⟨"msgpack"⟩ frame.msgType frame.data).toOption = some raw at run
  have encoded : MessageCodec.encode ⟨"msgpack"⟩ frame.msgType frame.data = .ok raw := by
    cases made : MessageCodec.encode ⟨"msgpack"⟩ frame.msgType frame.data with
    | error e => rw [made] at run; cases run
    | ok other => rw [made] at run; cases run; rfl
  have made := encoded
  unfold MessageCodec.encode at made
  rw [if_pos rfl] at made
  split at made
  · cases made
  · rename_i payload packed
    split at made
    · cases made
    · rename_i small
      cases made
      exact ⟨payload,packed,Nat.not_lt.mp small,rfl,encoded⟩

theorem binaryReads (substantial : Substantial) {frame : Frame} (fair : Fair frame) {raw : Bytes}
    (format : frame.format = "msgpack") (run : frameBytes true frame = some raw) {stream : Stream UInt8} {more : Bytes}
    (whole : stream.all = raw ++ more) :
    ∃ rest, readMessage true frame.format stream = some (received frame,rest) ∧ rest.all = more := by
  obtain ⟨payload,packed,small,rfl,encoded⟩ := binaryBytes format run
  have delivered := MessageCodec.binaryDelivers (fair.lossless format) (fair.fits format) (fun other here => by
    rw [packed] at here
    exact Option.some.inj here ▸ small)
  rw [(Packed.convertedBack 1 frame.data).mpr (fair.kept format),MessageCodec.delivers,encoded] at delivered
  dsimp only at delivered
  rw [if_pos rfl,show (MessageCodec.lengthPrefix payload.length ++ payload).drop 4 = payload from rfl] at delivered
  rw [List.append_assoc] at whole
  obtain ⟨behind,header,left⟩ := Stream.exactlyTakes whole
  obtain ⟨rest,body,end'⟩ := Stream.exactlyTakes left
  have size : fromBytesBig (MessageCodec.lengthPrefix payload.length) = payload.length :=
    prefixRead (by rw [maxFrameSize] at small; omega)
  have some : payload.length ≠ 0 := fun none => substantial _ _ packed (List.length_eq_zero_iff.mp none)
  change stream.exactly 4 = _ at header
  refine ⟨rest,?_,end'⟩
  rw [readMessage,if_pos format,header]
  simp only [Option.bind_eq_bind,Option.bind_some,size]
  rw [if_neg (not_or.mpr ⟨some,Nat.not_lt.mpr small⟩),body,Option.bind_some]
  change Option.some (MessageCodec.decode ⟨"msgpack"⟩ payload,rest) = _
  rw [delivered,received]

theorem lineReads (hasMsgpack hasMsgpack' : Bool) {frame : Frame} (fair : Fair frame) {raw : Bytes}
    (format : frame.format ≠ "msgpack") (run : frameBytes hasMsgpack frame = some raw) {stream : Stream UInt8} {more : Bytes}
    (whole : stream.all = raw ++ more) :
    ∃ rest, readMessage hasMsgpack' frame.format stream = some (received frame,rest) ∧ rest.all = more := by
  rw [frameBytes,if_neg format,Option.some.injEq] at run
  subst run
  have clean : ∀ b ∈ QBitWebSocket.dumped (MessageCodec.message frame.msgType frame.data), (b == (10 : UInt8)) = false := by
    intro b inside
    have other := inlineAll (fun c listed => inlineLaid (MessageCodec.message frame.msgType frame.data) 0 c
      (by rwa [String.toList_ofList] at listed)) b inside
    simpa using other
  rw [List.append_assoc,List.singleton_append] at whole
  obtain ⟨rest,taken,end'⟩ := @Stream.lineTakes _ _ _ (· == 10) readerLimit _ (10 : UInt8) clean (by decide) (fair.short format) whole
  refine ⟨rest,?_,end'⟩
  rw [readMessage,if_neg format,taken]
  simp only [Option.bind_eq_bind,Option.bind_some]
  rw [if_neg (by simp),lineRead fair.proper]
  rfl

end Frames

section Streams
variable [MsgPack] [FloatText]

theorem frameReads (substantial : Substantial) {hasMsgpack hasMsgpack' : Bool} {frame : Frame} (fair : Fair frame)
    (both : frame.format = "msgpack" → hasMsgpack = true ∧ hasMsgpack' = true) {raw : Bytes}
    (run : frameBytes hasMsgpack frame = some raw) {stream : Stream UInt8} {more : Bytes} (whole : stream.all = raw ++ more) :
    ∃ rest, readMessage hasMsgpack' frame.format stream = some (received frame,rest) ∧ rest.all = more := by
  by_cases format : frame.format = "msgpack"
  · obtain ⟨rfl,rfl⟩ := both format
    exact binaryReads substantial fair format run whole
  · exact lineReads hasMsgpack hasMsgpack' fair format run whole

def readMessages (hasMsgpack : Bool) : List String → Stream UInt8 → Option (List (Option (Packed × Packed)) × Stream UInt8) :=
  Buffered.readAll (readMessage hasMsgpack)

/- Whatever messages a node sends, in whichever formats, each below the limits: read in the same formats, they
arrive as they were sent, each once and in order, however the network cuts the bytes into chunks. -/
theorem messagesReadBack (substantial : Substantial) (hasMsgpack hasMsgpack' : Bool) (frames : List Frame) (texts : List Bytes)
    (written : frames.map (frameBytes hasMsgpack) = texts.map some) (fair : ∀ frame ∈ frames, Fair frame)
    (both : ∀ frame ∈ frames, frame.format = "msgpack" → hasMsgpack = true ∧ hasMsgpack' = true) (stream : Stream UInt8)
    (more : Bytes) (whole : stream.all = texts.flatten ++ more) :
    ∃ rest, readMessages hasMsgpack' (frames.map Frame.format) stream = some (frames.map received,rest) ∧ rest.all = more := by
  have texts' : texts = frames.map (fun frame => (frameBytes hasMsgpack frame).getD []) := by
    have back := congrArg (List.map (fun text : Option Bytes => text.getD [])) written
    simpa [Function.comp_def] using back.symm
  rw [texts'] at whole
  refine Buffered.readAllTakes (fun frame inside s more here => ?_) whole
  have listed : frameBytes hasMsgpack frame ∈ texts.map some := written ▸ List.mem_map_of_mem inside
  obtain ⟨raw,-,made⟩ := List.mem_map.mp listed
  rw [← made,Option.getD_some] at here
  exact frameReads substantial (fair frame inside) (both frame inside) made.symm here

end Streams

section Links
open Handshake Handshake.WireFormat

variable [Env] [Channel] [Sealer] [MsgPack] [FloatText]

omit [Env] [Channel] [Sealer] [MsgPack] [FloatText] in
theorem agreedBoth {a b : P2PNode} {format : String} (known : format = "json" ∨ format = agreed a b)
    (binary : format = "msgpack") : a.hasMsgpack = true ∧ b.hasMsgpack = true := by
  rcases known with rfl | rfl
  · exact absurd binary (by decide)
  · unfold agreed at binary
    split at binary
    · rename_i both
      simpa using both
    · exact absurd binary (by decide)

omit [Env] [Channel] [Sealer] [MsgPack] [FloatText] in
theorem responderFormat {a b : P2PNode} {c : Conn} (kept : ResponderKept a b c) : readFormat c = c.peer.wireFormat := by
  unfold readFormat
  split
  · rename_i first
    exact (kept.before (kept.first first).2).symm
  · rfl

/- While no message falls between the two switches to msgpack: in every state of a connection of two honest nodes,
what either side reads next off the bytes in flight, in the format it reads in by then, is the first message that
was sent and not read, and the bytes of the others are left. -/
theorem bytesCarry (substantial : Substantial) (a b : P2PNode) (opens : Opens) (link : Link)
    (reached : Reached a b (Spaced a b) link) :
    (∀ frame queue, link.responder.phase ≠ .closed → link.toResponder = frame :: queue → Fair frame →
      ∀ text, frameBytes a.hasMsgpack frame = some text → ∀ (stream : Stream UInt8) (more : Bytes), stream.all = text ++ more →
        ∃ rest, readMessage b.hasMsgpack (readFormat link.responder) stream = some (received frame,rest) ∧ rest.all = more) ∧
    ∀ frame queue, link.initiator.phase ≠ .closed → link.toInitiator = frame :: queue → Fair frame →
      ∀ text, frameBytes b.hasMsgpack frame = some text → ∀ (stream : Stream UInt8) (more : Bytes), stream.all = text ++ more →
        ∃ rest, readMessage a.hasMsgpack (readFormat link.initiator) stream = some (received frame,rest) ∧ rest.all = more := by
  have aligned := reachedAligned opens reached
  constructor
  · intro frame queue running first fair text run stream more whole
    have kept := aligned.responder running
    have readable := (aligned.toResponder running).1
    rw [first] at readable
    have format : frame.format = link.responder.peer.wireFormat := readable.1
    have start : frame.format = "json" ∨ frame.format = agreed a b := by
      rw [format]
      cases known : link.responder.peer.authenticated with
      | false => exact .inl (kept.before known)
      | true => exact .inr (kept.behind known).2
    rw [responderFormat kept,← format]
    exact frameReads substantial fair (agreedBoth start) run whole
  · intro frame queue running first fair text run stream more whole
    have kept := aligned.initiator running
    have readable := (aligned.toInitiator running).1
    rw [first] at readable
    have format : frame.format = link.initiator.peer.wireFormat := readable.1
    have start : frame.format = "json" ∨ frame.format = agreed a b := format ▸ kept.wireFormat
    rw [readFormat,kept.looping]
    dsimp only
    rw [← format]
    exact frameReads substantial fair (fun binary => (agreedBoth start binary).symm) run whole

end Links

end QbitNetwork.PeerStream

namespace QbitNetwork.Devnet
open PeerStream Handshake Handshake.WireFormat

section Streams
attribute [local instance] legacy Handshake.Devnet.plainChannel Handshake.WireFormat.Devnet.unsealed
  MessageCodec.Devnet.noFloats MessageCodec.Devnet.oneField

def quiet : P2PNode := { Handshake.Devnet.responder with signingSk := [] }

def hello : Frame := ⟨"json","hello",.obj [("node_id",.str "responder"),("port",.int 9000)]⟩

def helloText : Bytes := QBitWebSocket.dumped (MessageCodec.message hello.msgType hello.data) ++ [10]

theorem helloFair : Fair hello where
  proper := ⟨by decide,trivial,trivial,trivial⟩
  short := fun _ => by decide +kernel
  fits := fun binary => absurd binary (by decide)
  kept := fun binary => absurd binary (by decide)
  lossless := fun binary => absurd binary (by decide)

theorem oneFieldSubstantial : Substantial := by
  intro value raw packed
  unfold MsgPack.packb MessageCodec.Devnet.oneField at packed
  dsimp only at packed
  split at packed
  · cases packed
    simp
  · cases packed
    simp
  · cases packed

def posted : Frame := ⟨"msgpack","new_tx",MessageCodec.Devnet.signed "0aff"⟩

theorem postedSent : Packed.hexToBytesRecursive 0 (MessageCodec.message posted.msgType posted.data) =
    .map [("type",.str "new_tx"),("data",.map [("signature",.bin [10,255])])] := by
  have bytes : fromHex "0aff" = some [10,255] := by decide +kernel
  simp [posted,MessageCodec.message,MessageCodec.Devnet.signed,Packed.hexToBytesRecursive,Packed.hexToBytesFields,
    Packed.binaryText,binaryFields,Packed.plain,bytes]

theorem postedFair : Fair posted where
  proper := ⟨by decide,trivial,trivial⟩
  short := fun text => absurd rfl text
  fits := fun _ => rfl
  kept := fun _ => by decide +kernel
  lossless := fun _ _ => by
    rw [postedSent]
    exact ⟨_,rfl,rfl⟩

theorem postedBytes : frameBytes true posted = some [0,0,0,3,1,10,255] := by
  have encoded : MessageCodec.encode ⟨"msgpack"⟩ posted.msgType posted.data = .ok [0,0,0,3,1,10,255] := by
    unfold MessageCodec.encode
    rw [if_pos rfl,postedSent]
    rfl
  change (MessageCodec.encode ⟨"msgpack"⟩ posted.msgType posted.data).toOption = _
  rw [encoded]
  rfl

theorem messagesReadBackPosted : ∃ rest, readMessages true ["msgpack","json"]
      ⟨[0,0],[[0,3,1,10],255 :: helloText.take 5,helloText.drop 5]⟩ = some ([received posted,received hello],rest) ∧
    rest.all = [] := by
  have fair : ∀ frame ∈ [posted,hello], Fair frame := by
    intro frame inside
    rcases List.mem_cons.mp inside with rfl | inside
    · exact postedFair
    · exact List.mem_singleton.mp inside ▸ helloFair
  have written : [posted,hello].map (frameBytes true) = [[0,0,0,3,1,10,255],helloText].map some := by
    rw [List.map_cons,postedBytes]
    rfl
  refine messagesReadBack oneFieldSubstantial true true [posted,hello] _ written fair (fun _ _ _ => ⟨rfl,rfl⟩) _ [] ?_
  simp [Buffered.Stream.all]

theorem helloOpened : (opened quiet 9000 Handshake.WireFormat.Devnet.asking).toResponder = [hello] := rfl

theorem bytesCarryHello : ∃ rest, readMessage false "json" ⟨helloText.take 5,[helloText.drop 5]⟩ = some (received hello,rest) ∧
    rest.all = [] := by
  have carried := (bytesCarry oneFieldSubstantial quiet quiet Handshake.WireFormat.Devnet.opensNothing _
    (.start 9000 Handshake.WireFormat.Devnet.asking)).1
  exact carried hello [] (by decide) helloOpened helloFair helloText rfl _ [] (by simp [Buffered.Stream.all])

end Streams

end QbitNetwork.Devnet
