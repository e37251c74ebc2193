import CrashCore.Ingestion.Protobuf
import CrashCore.Library.Codec

/-! WebSocket frames (`ingestion/websocket/ws_frame.hpp`). Sums of offsets and lengths are `std::size_t`. -/

namespace CrashCore
namespace Ws

structure Opcode where
  value : UInt8
deriving DecidableEq, Repr

namespace Opcode

def continuation : Opcode := ⟨0x0⟩
def text : Opcode := ⟨0x1⟩
def binary : Opcode := ⟨0x2⟩
def close : Opcode := ⟨0x8⟩
def ping : Opcode := ⟨0x9⟩
def pong : Opcode := ⟨0xA⟩

end Opcode

structure Frame where
  fin : Bool := true
  opcode : Opcode := .binary
  payload : Bytes := []
  masked : Bool := false
deriving DecidableEq

/-- The mask of all frames that are written. -/
def mask : Bytes := [0x12, 0x34, 0x56, 0x78]

/-- `bytes[i] ^ mask[i % 4]` for each `i`. -/
def applyMask (mask bytes : Bytes) : Bytes := bytes.mapIdx fun i b => b ^^^ mask.getD (i % 4) 0

def lengthBytes (flag : UInt8) (len : Nat) : Bytes :=
  if len < 126 then [UInt8.ofNat len ||| flag]
  else if len ≤ 0xffff then (126 ||| flag) :: BigEndian.bytes 2 len
  else (127 ||| flag) :: BigEndian.bytes 8 len

def encodeFrame (f : Frame) : Bytes :=
  let b0 := (if f.fin then 0x80 else 0) ||| (f.opcode.value &&& 0x0f)
  b0 :: (lengthBytes (if f.masked then 0x80 else 0) f.payload.length ++
    if f.masked then mask ++ applyMask mask f.payload else f.payload)

/-- What can go wrong in a call besides an incomplete frame. -/
inductive Fault
  /-- A read outside of the input. -/
  | outOfBounds
  /-- `std::length_error`: no vector is as long as asked for. -/
  | lengthError
deriving DecidableEq, Repr

/-- `max_size()` of a vector of bytes. -/
def maxSize : Nat := 2 ^ 63 - 1

def read (data : Bytes) (offset size : Nat) : Except Fault Bytes :=
  match slice data offset size with
  | none => .error .outOfBounds
  | some bytes => .ok bytes

def readByte (data : Bytes) (i : Nat) : Except Fault UInt8 :=
  match data[i]? with
  | none => .error .outOfBounds
  | some b => .ok b

/-- `payload.resize(size)`. -/
def resize (size : Nat) : Except Fault Unit := if maxSize < size then .error .lengthError else .ok ()

/-- The length of the payload and where the header ends. -/
def readLength (data : Bytes) (len : Nat) (b1 : UInt8) : Except Fault (Option (Nat × Nat)) := do
  let short := (b1 &&& 0x7f).toNat
  if short = 126 then
    if len < 4 then return none
    return some (BigEndian.value (← read data 2 2), 4)
  else if short = 127 then
    if len < 10 then return none
    return some (BigEndian.value (← read data 2 8), 10)
  else return some (short, 2)

/-- The bytes of the payload, when all of them are there. -/
def readPayload (data : Bytes) (len off payloadLen : Nat) : Except Fault (Option Bytes) := do
  if len < (off + payloadLen) % 2 ^ 64 then return none
  resize payloadLen
  return some (← read data off payloadLen)

def decodeFrame (data : Bytes) (len : Nat) : Except Fault (Option Frame) := do
  if len < 2 then return none
  let b0 ← readByte data 0
  let b1 ← readByte data 1
  let masked := b1 &&& 0x80 ≠ 0
  match ← readLength data len b1 with
  | none => return none
  | some (payloadLen, off) =>
    if masked ∧ len < off + 4 then return none
    let mask ← if masked then read data off 4 else .ok [0, 0, 0, 0]
    let payload ← readPayload data len (if masked then off + 4 else off) payloadLen
    return payload.map fun bytes =>
      { fin := b0 &&& 0x80 ≠ 0
        opcode := ⟨b0 &&& 0x0f⟩
        masked
        payload := if masked then applyMask mask bytes else bytes }

/-! ### What is read -/

def headerSize (b1 : UInt8) : Nat :=
  if (b1 &&& 0x7f).toNat = 126 then 4 else if (b1 &&& 0x7f).toNat = 127 then 10 else 2

/-- Where the payload begins, behind the mask. -/
def payloadOffset (b1 : UInt8) : Nat := headerSize b1 + if b1 &&& 0x80 ≠ 0 then 4 else 0

/-- The length that the header declares. -/
def declaredLength (data : Bytes) (b1 : UInt8) : Nat :=
  if (b1 &&& 0x7f).toNat = 126 then BigEndian.value ((data.drop 2).take 2)
  else if (b1 &&& 0x7f).toNat = 127 then BigEndian.value ((data.drop 2).take 8)
  else (b1 &&& 0x7f).toNat

/-- The frame at the front of the input. -/
def frameAt (data : Bytes) (b0 b1 : UInt8) : Frame :=
  let bytes := (data.drop (payloadOffset b1)).take (declaredLength data b1)
  { fin := b0 &&& 0x80 ≠ 0
    opcode := ⟨b0 &&& 0x0f⟩
    masked := b1 &&& 0x80 ≠ 0
    payload := if b1 &&& 0x80 ≠ 0 then applyMask ((data.drop (headerSize b1)).take 4) bytes else bytes }

theorem read_eq {data : Bytes} {offset size : Nat} (h : offset + size ≤ data.length) :
    read data offset size = .ok ((data.drop offset).take size) := by
  rw [read, slice, if_pos h]

theorem readLength_eq {data : Bytes} (b1 : UInt8) (hlen : 2 ≤ data.length) : readLength data data.length b1 =
    .ok (if data.length < headerSize b1 then none else some (declaredLength data b1, headerSize b1)) := by
  unfold readLength headerSize declaredLength
  dsimp only
  split
  · by_cases h : data.length < 4
    · simp only [if_pos h]
      rfl
    · simp only [if_neg h, read_eq (show 2 + 2 ≤ data.length by omega)]
      rfl
  · split
    · by_cases h : data.length < 10
      · simp only [if_pos h]
        rfl
      · simp only [if_neg h, read_eq (show 2 + 8 ≤ data.length by omega)]
        rfl
    · rw [if_neg (Nat.not_lt.mpr hlen)]
      rfl

/-- The sum of a length that a vector can have and of an offset is no more than the machine's sum. -/
theorem readPayload_eq {data : Bytes} {off : Nat} (n : Nat) (hoff : off ≤ 14) :
    readPayload data data.length off n =
      if data.length < (off + n) % 2 ^ 64 then .ok none
      else if maxSize < n then .error .lengthError
      else .ok (some ((data.drop off).take n)) := by
  unfold readPayload resize
  by_cases hshort : data.length < (off + n) % 2 ^ 64
  · rw [if_pos hshort, if_pos hshort]
    rfl
  rw [if_neg hshort, if_neg hshort]
  by_cases hsize : maxSize < n
  · rw [if_pos hsize, if_pos hsize]
    rfl
  · have hsum : (off + n) % 2 ^ 64 = off + n := Nat.mod_eq_of_lt (by unfold maxSize at hsize; omega)
    rw [if_neg hsize, if_neg hsize, read_eq (by omega)]
    rfl

theorem decodeFrame_short {data : Bytes} (h : data.length < 2) : decodeFrame data data.length = .ok none := by
  unfold decodeFrame
  rw [if_pos h]
  rfl

theorem headerSize_le (b1 : UInt8) : headerSize b1 ≤ 10 := by
  unfold headerSize
  split
  · decide
  · split <;> decide

/-- All that `decodeFrame` can do with an input of two bytes or more. -/
theorem decodeFrame_eq (b0 b1 : UInt8) (rest : Bytes) :
    decodeFrame (b0 :: b1 :: rest) (b0 :: b1 :: rest).length =
      if (b0 :: b1 :: rest).length < payloadOffset b1 then .ok none
      else if (b0 :: b1 :: rest).length < (payloadOffset b1 + declaredLength (b0 :: b1 :: rest) b1) % 2 ^ 64 then .ok none
      else if maxSize < declaredLength (b0 :: b1 :: rest) b1 then .error .lengthError
      else .ok (some (frameAt (b0 :: b1 :: rest) b0 b1)) := by
  generalize hdata : b0 :: b1 :: rest = data
  have hlen : 2 ≤ data.length := by simp [← hdata]
  have h0 : readByte data 0 = .ok b0 := by rw [← hdata]; rfl
  have h1 : readByte data 1 = .ok b1 := by rw [← hdata]; rfl
  have hsize := headerSize_le b1
  unfold decodeFrame
  rw [if_neg (Nat.not_lt.mpr hlen), h0, h1]
  simp only [bind, Except.bind, readLength_eq b1 hlen]
  by_cases hheader : data.length < headerSize b1
  · have hoffset : data.length < payloadOffset b1 := Nat.lt_add_right _ hheader
    rw [if_pos hheader]
    dsimp only
    rw [if_pos hoffset]
    rfl
  rw [if_neg hheader]
  by_cases hmasked : b1 &&& 0x80 ≠ 0
  · have hoffset : payloadOffset b1 = headerSize b1 + 4 := by rw [payloadOffset, if_pos hmasked]
    rw [hoffset]
    by_cases hmask : data.length < headerSize b1 + 4
    · rw [if_pos hmask]
      dsimp only
      rw [if_pos ⟨hmasked, hmask⟩]
      rfl
    · dsimp only
      rw [if_neg (fun h => hmask h.2), if_pos hmasked, if_pos hmasked, read_eq (Nat.not_lt.mp hmask)]
      dsimp only
      rw [readPayload_eq _ (show headerSize b1 + 4 ≤ 14 by omega), if_neg hmask, frameAt, hoffset]
      split_ifs <;> rfl
  · have hoffset : payloadOffset b1 = headerSize b1 := by rw [payloadOffset, if_neg hmasked, Nat.add_zero]
    rw [hoffset]
    dsimp only
    rw [if_neg (fun h => hmasked h.1), if_neg hmasked, if_neg hmasked]
    rw [readPayload_eq _ (show headerSize b1 ≤ 14 by omega), if_neg hheader, frameAt, hoffset]
    split_ifs <;> rfl

end Ws
end CrashCore
