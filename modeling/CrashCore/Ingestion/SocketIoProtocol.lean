import CrashCore.Common.Types
import CrashCore.Ingestion.Protobuf
import CrashCore.Library.TextSearch

/-! Packets and payloads (`ingestion/socketio/socketio_protocol.hpp`, `ingestion/socketio/socketio_packet.hpp`,
`ingestion/socketio/engineio.hpp`).

Hundredths of multipliers are exact rationals, and the curve `multiplierFromElapsed` is a parameter. The fields that
`parseOpen` fills have a structure of their own. -/

namespace CrashCore

/-- The text of bytes, one character for each. -/
def toText (bytes : Bytes) : String := String.ofList (bytes.map fun b => Char.ofNat b.toNat)

def ascii (s : String) : Bytes := s.toList.map fun c => UInt8.ofNat c.toNat

inductive PacketKind
  | unknown | connect | disconnect | event | ack | error | binaryEvent | binaryAck | ping | pong | «open» | other
deriving DecidableEq, Repr

structure SocketIoPacket where
  kind : PacketKind := .unknown
  nsp : Bytes := []
  event : Bytes := []
  payload : Bytes := []
deriving DecidableEq

def encodeConnect (nsp : Bytes) : Bytes := [0x04, 0x00, UInt8.ofNat nsp.length] ++ (nsp ++ [0])

/-- The flag 0x80 of the type stands for four reserved bytes. -/
def encodeJoin (nsp room : Bytes) : Bytes :=
  [0x04, 0x82, 0, 0, 0, 0, UInt8.ofNat nsp.length] ++ (nsp ++ (UInt8.ofNat room.length :: room))

def encodeEvent (nsp event payload : Bytes) : Bytes :=
  [0x04, 0x02, UInt8.ofNat nsp.length] ++ (nsp ++ (UInt8.ofNat event.length :: (event ++ payload)))

def parsePacket (buf : Bytes) (len : Nat) : Option SocketIoPacket := do
  if len < 2 then return {}
  let first ← buf[0]?
  if first ≠ 0x04 then return {}
  let type ← buf[1]?
  let base := type &&& 0x0f
  let offset := if type &&& 0x80 = 0 then 2 else 6
  if len ≤ offset then return {}
  let nspLen ← buf[offset]?
  let offset := offset + 1
  if len < offset + nspLen.toNat then return {}
  let nsp ← slice buf offset nspLen.toNat
  let offset := offset + nspLen.toNat
  if base = 0 ∨ len ≤ offset then return { kind := .connect, nsp }
  let evLen ← buf[offset]?
  let offset := offset + 1
  if len < offset + evLen.toNat then return { nsp }
  let event ← slice buf offset evLen.toNat
  let offset := offset + evLen.toNat
  if len ≤ offset then return { kind := .event, nsp, event }
  let payload ← slice buf offset (len - offset)
  return { kind := .event, nsp, event, payload }

/-! ### Packets that were written -/

theorem toNat_ofNat_length {bytes : Bytes} (h : bytes.length ≤ 255) : (UInt8.ofNat bytes.length).toNat = bytes.length := by
  rw [UInt8.toNat_ofNat']
  exact Nat.mod_eq_of_lt (Nat.lt_succ_of_le h)

section
variable {head nsp rest event payload : Bytes} {type : UInt8}

/-- A packet as all encoders lay it out: `head` up to the length of the namespace, and `rest` behind it. -/
def layout (head nsp rest : Bytes) : Bytes := head ++ (UInt8.ofNat nsp.length :: (nsp ++ rest))

theorem length_layout : (layout head nsp rest).length = head.length + 1 + nsp.length + rest.length := by
  simp [layout]
  omega

/-- The bytes of the head, and what stands behind it. -/
theorem layout_head {i : Nat} {b : UInt8} (h : head[i]? = some b) : (layout head nsp rest)[i]? = some b := by
  rw [layout, List.getElem?_append_left (List.getElem?_eq_some_iff.mp h).1, h]

theorem layout_nspLen : (layout head nsp rest)[head.length]? = some (UInt8.ofNat nsp.length) := by
  simp [layout]

theorem layout_nsp : slice (layout head nsp rest) (head.length + 1) nsp.length = some nsp := by
  have hslice := slice_append (head ++ [UInt8.ofNat nsp.length]) nsp rest
  simpa [layout] using hslice

theorem layout_rest {i : Nat} : (layout head nsp rest)[head.length + 1 + nsp.length + i]? = rest[i]? := by
  have hsplit : layout head nsp rest = (head ++ UInt8.ofNat nsp.length :: nsp) ++ rest := by simp [layout]
  have hlength : (head ++ UInt8.ofNat nsp.length :: nsp).length = head.length + 1 + nsp.length := by
    simp
    omega
  rw [hsplit, List.getElem?_append_right (by omega), hlength, Nat.add_sub_cancel_left]

theorem slice_layout_rest {i size : Nat} :
    slice (layout head nsp rest) (head.length + 1 + nsp.length + i) size = slice rest i size := by
  have hsplit : layout head nsp rest = (head ++ UInt8.ofNat nsp.length :: nsp) ++ rest := by simp [layout]
  have hlength : (head ++ UInt8.ofNat nsp.length :: nsp).length = head.length + 1 + nsp.length := by
    simp
    omega
  unfold slice
  rw [length_layout, hsplit, ← hlength, ← List.drop_drop, List.drop_left]
  simp only [Nat.add_assoc, Nat.add_le_add_iff_left]

variable (hfirst : head[0]? = some 0x04) (htype : head[1]? = some type)
  (hhead : (if type &&& 0x80 = 0 then 2 else 6) = head.length) (hnsp : nsp.length ≤ 255)
include hfirst htype hhead hnsp

/-- A packet without an event. -/
theorem parsePacket_connect (h : type &&& 0x0f = 0 ∨ rest = []) :
    parsePacket (layout head nsp rest) (layout head nsp rest).length = some { kind := .connect, nsp } := by
  have hlt : 1 < head.length := (List.getElem?_eq_some_iff.mp htype).1
  have hlength : (layout head nsp rest).length = head.length + 1 + nsp.length + rest.length := length_layout
  have hstop : type &&& 0x0f = 0 ∨ (layout head nsp rest).length ≤ head.length + 1 + nsp.length := by
    refine h.imp_right ?_
    rintro rfl
    simp [hlength]
  unfold parsePacket
  rw [if_neg (by omega)]
  simp only [layout_head hfirst, layout_head htype, hhead, layout_nspLen, toNat_ofNat_length hnsp, layout_nsp,
    Option.bind_eq_bind, Option.bind_some, Option.pure_def, ne_eq, not_true_eq_false, if_false]
  rw [if_neg (by omega), if_neg (by omega), if_pos hstop]

/-- A packet with an event. -/
theorem parsePacket_event (htype' : type &&& 0x0f ≠ 0) (hevent : event.length ≤ 255)
    (h : rest = UInt8.ofNat event.length :: (event ++ payload)) :
    parsePacket (layout head nsp rest) (layout head nsp rest).length = some { kind := .event, nsp, event, payload } := by
  have hlt : 1 < head.length := (List.getElem?_eq_some_iff.mp htype).1
  have hlength : (layout head nsp rest).length = head.length + 1 + nsp.length + rest.length := length_layout
  have hrest : rest.length = 1 + event.length + payload.length := by
    simp [h]
    omega
  have hevLen : (layout head nsp rest)[head.length + 1 + nsp.length]? = some (UInt8.ofNat event.length) := by
    rw [← Nat.add_zero (head.length + 1 + nsp.length), layout_rest, h]
    rfl
  have hat : slice (layout head nsp rest) (head.length + 1 + nsp.length + 1) event.length = some event := by
    rw [slice_layout_rest, h]
    exact slice_append [UInt8.ofNat event.length] event payload
  have hpayload : slice (layout head nsp rest) (head.length + 1 + nsp.length + 1 + event.length) payload.length =
      some payload := by
    rw [Nat.add_assoc _ 1, slice_layout_rest, h]
    have := slice_append (UInt8.ofNat event.length :: event) payload []
    simpa [Nat.add_comm] using this
  unfold parsePacket
  rw [if_neg (by omega)]
  simp only [layout_head hfirst, layout_head htype, hhead, layout_nspLen, toNat_ofNat_length hnsp, layout_nsp, hevLen,
    toNat_ofNat_length hevent, hat, Option.bind_eq_bind, Option.bind_some, Option.pure_def, ne_eq, not_true_eq_false,
    if_false]
  rw [if_neg (by omega), if_neg (by omega), if_neg (not_or.mpr ⟨htype', by omega⟩), if_neg (by omega)]
  have hleft : (layout head nsp rest).length - (head.length + 1 + nsp.length + 1 + event.length) = payload.length := by
    omega
  rw [hleft, hpayload]
  cases payload with
  | nil => exact if_pos (by rw [hlength, hrest, List.length_nil]; omega)
  | cons b payload => exact if_neg (by rw [hlength, hrest, List.length_cons]; omega)

end
theorem parsePacket_encodeEvent {nsp event : Bytes} (hnsp : nsp.length ≤ 255) (hevent : event.length ≤ 255)
    (payload : Bytes) : parsePacket (encodeEvent nsp event payload) (encodeEvent nsp event payload).length =
      some { kind := .event, nsp, event, payload } := by
  have htype : (0x02 : UInt8) &&& 0x0f ≠ 0 ∧ (0x02 : UInt8) &&& 0x80 = 0 := by decide
  show parsePacket (layout [0x04, 0x02] nsp _) (layout [0x04, 0x02] nsp _).length = _
  exact parsePacket_event rfl rfl (if_pos htype.2) hnsp htype.1 hevent rfl

/-! ### Engine.IO frames -/

namespace Engineio

abbrev isOpenFrame (buf : Bytes) : Prop := [0x30, 0x7b] <+: buf
abbrev isPing (buf : Bytes) : Prop := buf = [0x32]
abbrev isPong (buf : Bytes) : Prop := buf = [0x33]
abbrev isMessage (buf : Bytes) : Prop := [0x34] <+: buf
abbrev isClose (buf : Bytes) : Prop := [0x31] <+: buf

/-- What the first frame of a session says. -/
structure OpenPacket where
  kind : PacketKind := .open
  sid : Bytes := []
  pingInterval : Int := 0
  pingTimeout : Int := 0
deriving DecidableEq

/-- A value that an `int` holds. The behaviour is undefined when it does not. -/
def int (v : Int) : Option Int := if -2 ^ 31 ≤ v ∧ v < 2 ^ 31 then some v else none

def isDigit (c : UInt8) : Bool := '0'.toUInt8 ≤ c ∧ c ≤ '9'.toUInt8

/-- The loop over the digits, with all its intermediate values. -/
def accumulate : Int → Bytes → Option Int
  | v, [] => some v
  | v, c :: rest =>
    if isDigit c then (int (v * 10)).bind fun v => (int (v + (c.toNat - '0'.toNat : Int))).bind (accumulate · rest)
    else some v

/-- What stands behind the first occurrence of the key, colons and spaces apart. -/
def behind (json key : Bytes) : Option Bytes :=
  (TextSearch.find json key 0).map fun pos =>
    (json.drop (pos + key.length)).dropWhile fun c => c = ':'.toUInt8 ∨ c = ' '.toUInt8

def findNum (json key : Bytes) : Option Int :=
  match behind json key with
  | none => some 0
  | some text => accumulate 0 text

def findStr (json key : Bytes) : Bytes :=
  match TextSearch.find json key 0 with
  | none => []
  | some pos =>
    match TextSearch.find json (ascii "\"") (pos + key.length) with
    | none => []
    | some first =>
      match TextSearch.find json (ascii "\"") (first + 1) with
      | none => []
      | some last => (json.drop (first + 1)).take (last - first - 1)

def parseOpen (buf : Bytes) : Option OpenPacket :=
  if buf.length < 2 then some {}
  else
    let json := buf.drop 1
    (findNum json (ascii "\"pingInterval\"")).bind fun pingInterval =>
      (findNum json (ascii "\"pingTimeout\"")).map fun pingTimeout =>
        { sid := findStr json (ascii "\"sid\""), pingInterval, pingTimeout }

end Engineio

/-! ### Payloads -/

/-- `std::llround`: halves go away from zero. -/
def Double.llround (d : Double) : Int := if 0 ≤ d then (d + 1 / 2).floor else -(-d + 1 / 2).floor

structure CrashPayload where
  gameId : Option String := none
  multiplier : Option Double := none
  hash : Option String := none
  beginTime : Option Int := none
  endTime : Option Int := none
  elapsedMs : Option Int := none

def getNum (fields : Fields) (f : Int) : Option Nat :=
  match fields f with
  | some (.number n) => some n
  | _ => none

def getStr (fields : Fields) (f : Int) : Option String :=
  match fields f with
  | some (.text s) => some (toText s.bytes)
  | _ => none

def fieldsToPayload (multiplierFromElapsed : Int → Double) (event : String) (fields : Fields) (now : TimestampMs) :
    CrashPayload :=
  if event = "pg" then
    let elapsedMs := (getNum fields 1).map Int.ofNat
    { elapsedMs, multiplier := elapsedMs.map multiplierFromElapsed }
  else
    { gameId := ((getNum fields 1).map toString).or (getStr fields 1)
      multiplier := (getNum fields 6).map fun m => (m : Rat) / 100
      hash := getStr fields 7
      beginTime := ((getNum fields 3).or (getNum fields 4)).map Int.ofNat
      endTime := if event = "ed" ∨ event = "st" then some now else none }

/-- Build end-event protobuf for tests/replay: gameId, multiplier hundredths, optional hash. -/
def encodeEndPayload (gameId : Nat) (mult : Double) (hash : ByteString) : Bytes :=
  encodeProtobuf ([(1, .number gameId), (6, .number ((Double.llround (mult * 100)) % 2 ^ 64).toNat)] ++
    if hash.bytes = [] then [] else [(7, .text hash)])

/-- Build progress payload with elapsed ms. -/
def encodeProgressPayload (elapsedMs : Int) : Bytes := encodeProtobuf [(1, .number (elapsedMs % 2 ^ 64).toNat)]

/-- A first byte 8 is the tag of field 1 as a number. -/
def decodeProgressElapsed (buf : Bytes) (len : Nat) : Option (Option Int) :=
  if len = 0 then some none
  else
    match buf[0]? with
    | none => none
    | some first =>
      let rest := (decodeProtobuf buf len).map fun fields => (getNum fields 1).map Int.ofNat
      if first = 8 then
        match readVarint buf len 1 with
        | none => none
        | some (true, v, _) => some (some v)
        | some (false, _, _) => rest
      else rest

/-! ### Payloads that were written -/

theorem llround_hundredths (m : Nat) : Double.llround ((m : Rat) / 100 * 100) = m := by
  have whole : (m : Rat) / 100 * 100 = m := by
    rw [div_mul_cancel₀]
    norm_num
  have floor : ((m : Rat) + 1 / 2).floor = m := by
    refine le_antisymm (Int.lt_add_one_iff.mp (Rat.floor_lt_iff.mpr ?_)) (Rat.le_floor_iff.mpr ?_)
    · norm_num
    · norm_num
  rw [whole, Double.llround, if_pos (Nat.cast_nonneg m), floor]

/-- The fields of an end-event with exact hundredths. -/
def endFields (gameId m : Nat) (hash : ByteString) : List Field :=
  [(1, .number gameId), (6, .number m)] ++ if hash.bytes = [] then [] else [(7, .text hash)]

theorem encodeEndPayload_hundredths {m : Nat} (hm : m < 2 ^ 56) (gameId : Nat) (hash : ByteString) :
    encodeEndPayload gameId ((m : Rat) / 100) hash = encodeProtobuf (endFields gameId m hash) := by
  unfold encodeEndPayload endFields
  rw [llround_hundredths, Int.emod_eq_of_lt (by omega) (by omega), Int.toNat_natCast]

theorem decodeProtobuf_endFields {gameId m : Nat} (hgameId : gameId < 2 ^ 56) (hm : m < 2 ^ 56) (hash : ByteString) :
    decodeProtobuf (encodeProtobuf (endFields gameId m hash)) (encodeProtobuf (endFields gameId m hash)).length =
      some (lastWrites (endFields gameId m hash)) := by
  refine decodeProtobuf_encodeProtobuf fun f hf => ?_
  by_cases h : hash.bytes = []
  · simp only [endFields, h, if_true, List.append_nil, List.mem_cons, List.not_mem_nil, or_false] at hf
    rcases hf with rfl | rfl
    · simpa [Encodable] using hgameId
    · simpa [Encodable] using hm
  · simp only [endFields, h, if_false, List.cons_append, List.nil_append, List.mem_cons, List.not_mem_nil, or_false] at hf
    rcases hf with rfl | rfl | rfl
    · simpa [Encodable] using hgameId
    · simpa [Encodable] using hm
    · simp [Encodable]

theorem fieldsToPayload_endFields (multiplierFromElapsed : Int → Double) {name : String}
    (hname : name = "ed" ∨ name = "st") (gameId m : Nat) (hash : ByteString) (now : TimestampMs) :
    fieldsToPayload multiplierFromElapsed name (lastWrites (endFields gameId m hash)) now =
      { gameId := some (toString gameId)
        multiplier := some ((m : Rat) / 100)
        hash := if hash.bytes = [] then none else some (toText hash.bytes)
        endTime := some now } := by
  have hpg : name ≠ "pg" := by
    rcases hname with rfl | rfl
    · decide
    · decide
  by_cases h : hash.bytes = []
  · simp [fieldsToPayload, hpg, hname, endFields, h, lastWrites, writes, getNum, getStr]
  · simp [fieldsToPayload, hpg, hname, endFields, h, lastWrites, writes, getNum, getStr]

/-- A payload is never empty: it has a first tag. -/
theorem encodeProtobuf_ne_nil {f : Field} {fs : List Field} : encodeProtobuf (f :: fs) ≠ [] := by
  intro h
  have pos := encodeField_length_pos f
  rw [encodeProtobuf, List.flatMap_cons, List.append_eq_nil_iff] at h
  simp [h.1] at pos

end CrashCore
