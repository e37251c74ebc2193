import CrashCore.Ingestion.WsFrame

/-! WebSocket frames: what is written is read back, and what a peer may send to make the reader fail. The bound check
adds the declared length to an offset, in 64 bits. -/

namespace CrashCore
namespace Ws

variable {data : Bytes} {f : Frame}

/-! ### Hostile input -/

/-- `decodeFrame` returns no frame, or a frame whose header, mask and payload lie in the input; it reads nothing else,
    and asks for no more memory than the input has bytes. -/
def DecodesSafely (data : Bytes) : Prop :=
  match decodeFrame data data.length with
  | .ok none => True
  | .ok (some f) => ∃ b1, data[1]? = some b1 ∧ f.payload.length = declaredLength data b1 ∧
      payloadOffset b1 + f.payload.length ≤ data.length
  | .error _ => False

/-- The header and the mask are there, and the declared length passes the bound check although no vector is that
    long. -/
def Oversized (data : Bytes) : Prop :=
  ∃ b1, data[1]? = some b1 ∧ payloadOffset b1 ≤ data.length ∧ maxSize < declaredLength data b1 ∧
    (payloadOffset b1 + declaredLength data b1) % 2 ^ 64 ≤ data.length

theorem payloadOffset_le (b1 : UInt8) : payloadOffset b1 ≤ 14 := by
  unfold payloadOffset
  have := headerSize_le b1
  split <;> omega

@[simp] theorem length_applyMask (mask bytes : Bytes) : (applyMask mask bytes).length = bytes.length := by
  simp [applyMask]

theorem length_frameAt {b0 b1 : UInt8} (h : payloadOffset b1 + declaredLength data b1 ≤ data.length) :
    (frameAt data b0 b1).payload.length = declaredLength data b1 := by
  unfold frameAt
  dsimp only
  split
  · simp
    omega
  · simp
    omega

theorem decodesSafely_iff (data : Bytes) : DecodesSafely data ↔ ¬Oversized data := by
  rcases data with _ | ⟨b0, _ | ⟨b1, rest⟩⟩
  · exact iff_of_true (by rw [DecodesSafely, decodeFrame_short (by decide)]; trivial) (fun ⟨_, h, _⟩ => by cases h)
  · exact iff_of_true (by rw [DecodesSafely, decodeFrame_short (by simp)]; trivial) (fun ⟨_, h, _⟩ => by cases h)
  have hover : Oversized (b0 :: b1 :: rest) ↔ payloadOffset b1 ≤ (b0 :: b1 :: rest).length ∧
      maxSize < declaredLength (b0 :: b1 :: rest) b1 ∧
      (payloadOffset b1 + declaredLength (b0 :: b1 :: rest) b1) % 2 ^ 64 ≤ (b0 :: b1 :: rest).length := by
    refine ⟨fun ⟨b, hb, h⟩ => ?_, fun h => ⟨b1, rfl, h⟩⟩
    cases hb
    exact h
  rw [DecodesSafely, decodeFrame_eq, hover]
  by_cases hcut : (b0 :: b1 :: rest).length < payloadOffset b1
  · rw [if_pos hcut]
    exact iff_of_true trivial fun h => absurd h.1 (Nat.not_le.mpr hcut)
  by_cases hshort : (b0 :: b1 :: rest).length < (payloadOffset b1 + declaredLength (b0 :: b1 :: rest) b1) % 2 ^ 64
  · rw [if_neg hcut, if_pos hshort]
    exact iff_of_true trivial fun h => absurd h.2.2 (Nat.not_le.mpr hshort)
  by_cases hlarge : maxSize < declaredLength (b0 :: b1 :: rest) b1
  · rw [if_neg hcut, if_neg hshort, if_pos hlarge]
    exact iff_of_false id fun h => h ⟨Nat.not_lt.mp hcut, hlarge, Nat.not_lt.mp hshort⟩
  · have hoffset := payloadOffset_le b1
    have hfits : payloadOffset b1 + declaredLength (b0 :: b1 :: rest) b1 ≤ (b0 :: b1 :: rest).length := by
      have hsum : (payloadOffset b1 + declaredLength (b0 :: b1 :: rest) b1) % 2 ^ 64 =
          payloadOffset b1 + declaredLength (b0 :: b1 :: rest) b1 :=
        Nat.mod_eq_of_lt (by unfold maxSize at hlarge; omega)
      rwa [hsum, Nat.not_lt] at hshort
    rw [if_neg hcut, if_neg hshort, if_neg hlarge]
    refine iff_of_true ⟨b1, rfl, length_frameAt hfits, ?_⟩ fun h => hlarge h.2.1
    rwa [length_frameAt hfits]

/-- Ten bytes that declare a payload of `2 ^ 64 - 1` bytes. -/
theorem not_decodesSafely_wrap : ¬DecodesSafely [0x82, 127, 255, 255, 255, 255, 255, 255, 255, 255] := by
  have hthrows : decodeFrame [0x82, 127, 255, 255, 255, 255, 255, 255, 255, 255] 10 = .error .lengthError := rfl
  exact fun h => by rwa [DecodesSafely, show List.length _ = 10 from rfl, hthrows] at h

/-! ### Frames that were written -/

theorem applyMask_applyMask (mask bytes : Bytes) : applyMask mask (applyMask mask bytes) = bytes := by
  unfold applyMask
  rw [List.mapIdx_mapIdx]
  refine List.ext_getElem (by simp) fun i _ _ => ?_
  rw [List.getElem_mapIdx, Function.comp_apply, UInt8.xor_assoc, UInt8.xor_self, UInt8.xor_zero]

/-- The first byte. -/
theorem firstByte (fin : Bool) {op : UInt8} (h : op < 16) :
    (((if fin then 0x80 else 0) ||| (op &&& 0x0f)) &&& 0x80 ≠ 0 ↔ fin = true) ∧
      ((if fin then 0x80 else 0) ||| (op &&& 0x0f)) &&& 0x0f = op := by
  have hall : ∀ fin : Bool, ∀ n < 16, (((if fin then 0x80 else 0) ||| (UInt8.ofNat n &&& 0x0f)) &&& 0x80 ≠ 0 ↔ fin = true) ∧
      ((if fin then 0x80 else 0) ||| (UInt8.ofNat n &&& 0x0f)) &&& 0x0f = UInt8.ofNat n := by decide
  have hop := hall fin op.toNat (UInt8.lt_iff_toNat_lt.mp h)
  rwa [UInt8.ofNat_toNat] at hop

/-- The second byte: a length or the mark of a longer one, and the mask flag. -/
theorem secondByte (masked : Bool) {n : Nat} (h : n < 128) :
    ((UInt8.ofNat n ||| if masked then 0x80 else 0) &&& 0x7f).toNat = n ∧
      ((UInt8.ofNat n ||| if masked then 0x80 else 0) &&& 0x80 ≠ 0 ↔ masked = true) := by
  have hall : ∀ masked : Bool, ∀ n < 128, ((UInt8.ofNat n ||| if masked then 0x80 else 0) &&& 0x7f).toNat = n ∧
      ((UInt8.ofNat n ||| if masked then 0x80 else 0) &&& 0x80 ≠ 0 ↔ masked = true) := by decide
  exact hall masked n h

/-- What is written for a length is read as that length, whatever follows. -/
theorem lengthBytes_eq (masked : Bool) {n : Nat} (h : n < 2 ^ 64) :
    ∃ b1 ext, lengthBytes (if masked then 0x80 else 0) n = b1 :: ext ∧ (b1 &&& 0x80 ≠ 0 ↔ masked = true) ∧
      headerSize b1 = 2 + ext.length ∧ ∀ b0 rest, declaredLength (b0 :: b1 :: (ext ++ rest)) b1 = n := by
  unfold lengthBytes
  split
  · rename_i hn
    obtain ⟨hlen, hflag⟩ := secondByte masked (show n < 128 by omega)
    refine ⟨_, [], rfl, hflag, ?_, fun b0 rest => ?_⟩
    · rw [headerSize, hlen, if_neg (by omega), if_neg (by omega), List.length_nil]
    · rw [declaredLength, hlen, if_neg (by omega), if_neg (by omega)]
  split
  · rename_i hn
    obtain ⟨hlen, hflag⟩ := secondByte masked (show 126 < 128 by decide)
    have hmark : UInt8.ofNat 126 = 126 := rfl
    rw [hmark] at hlen hflag
    refine ⟨_, _, rfl, hflag, ?_, fun b0 rest => ?_⟩
    · rw [headerSize, hlen, if_pos rfl, BigEndian.length_bytes]
    · rw [declaredLength, hlen, if_pos rfl]
      show BigEndian.value ((BigEndian.bytes 2 n ++ rest).take 2) = n
      rw [List.take_left' (BigEndian.length_bytes n 2), BigEndian.value_bytes (by omega)]
  · obtain ⟨hlen, hflag⟩ := secondByte masked (show 127 < 128 by decide)
    have hmark : UInt8.ofNat 127 = 127 := rfl
    rw [hmark] at hlen hflag
    refine ⟨_, _, rfl, hflag, ?_, fun b0 rest => ?_⟩
    · rw [headerSize, hlen, if_neg (by decide), if_pos rfl, BigEndian.length_bytes]
    · rw [declaredLength, hlen, if_neg (by decide), if_pos rfl]
      show BigEndian.value ((BigEndian.bytes 8 n ++ rest).take 8) = n
      rw [List.take_left' (BigEndian.length_bytes n 8), BigEndian.value_bytes (by omega)]

/-- Behind the header stand the mask and the payload. -/
theorem frameAt_eq {b0 b1 op : UInt8} {ext payload trailing : Bytes} {fin masked : Bool}
    (hfin : b0 &&& 0x80 ≠ 0 ↔ fin = true) (hop : b0 &&& 0x0f = op) (hflag : b1 &&& 0x80 ≠ 0 ↔ masked = true)
    (hsize : headerSize b1 = 2 + ext.length)
    (hdeclared : ∀ b0 rest, declaredLength (b0 :: b1 :: (ext ++ rest)) b1 = payload.length) :
    frameAt (b0 :: b1 :: (ext ++ ((if masked then mask ++ applyMask mask payload else payload) ++ trailing))) b0 b1 =
      ⟨fin, ⟨op⟩, payload, masked⟩ := by
  have hdrop : ∀ rest : Bytes, (b0 :: b1 :: (ext ++ rest)).drop (2 + ext.length) = rest := fun rest => by
    rw [← List.drop_drop]
    exact List.drop_left
  have hfin : decide (b0 &&& 0x80 ≠ 0) = fin := by simp only [hfin, Bool.decide_eq_true]
  have hmasked : decide (b1 &&& 0x80 ≠ 0) = masked := by simp only [hflag, Bool.decide_eq_true]
  have hpayload : (if b1 &&& 0x80 ≠ 0 then 4 else 0) = if masked = true then 4 else 0 := by simp only [hflag]
  unfold frameAt payloadOffset
  rw [hdeclared, hpayload, hsize, hfin, hmasked, hop, hdrop]
  cases masked with
  | false =>
    simp only [hflag, Bool.false_eq_true, if_false, Nat.add_zero, hdrop]
    rw [List.take_left]
  | true =>
    simp only [hflag, if_true]
    have hmask : mask.length = 4 := rfl
    rw [← List.drop_drop, hdrop, List.append_assoc, List.take_left' hmask, List.drop_left' hmask,
      List.take_left' (length_applyMask ..), applyMask_applyMask]

/-- A frame comes back from the front of the input. -/
theorem decodeFrame_encodeFrame (f : Frame) (trailing : Bytes) (hop : f.opcode.value < 16)
    (hlen : f.payload.length < 2 ^ 63) :
    decodeFrame (encodeFrame f ++ trailing) (encodeFrame f ++ trailing).length = .ok (some f) := by
  obtain ⟨fin, ⟨op⟩, payload, masked⟩ := f
  obtain ⟨hfin, hopcode⟩ := firstByte fin hop
  have hlen : payload.length < 2 ^ 63 := hlen
  obtain ⟨b1, ext, hbytes, hflag, hsize, hdeclared⟩ := lengthBytes_eq masked (show payload.length < 2 ^ 64 by omega)
  have hframe : encodeFrame ⟨fin, ⟨op⟩, payload, masked⟩ ++ trailing =
      ((if fin then 0x80 else 0) ||| (op &&& 0x0f)) :: b1 ::
        (ext ++ ((if masked then mask ++ applyMask mask payload else payload) ++ trailing)) := by
    simp [encodeFrame, hbytes]
  have hoffset := payloadOffset_le b1
  have hfits : payloadOffset b1 + payload.length ≤
      (encodeFrame ⟨fin, ⟨op⟩, payload, masked⟩ ++ trailing).length := by
    have hpayload : (if b1 &&& 0x80 ≠ 0 then 4 else 0) = if masked = true then 4 else 0 := by simp only [hflag]
    rw [hframe, payloadOffset, hpayload, hsize]
    cases masked <;> simp [mask] <;> omega
  have hsum : (payloadOffset b1 + payload.length) % 2 ^ 64 = payloadOffset b1 + payload.length :=
    Nat.mod_eq_of_lt (by omega)
  rw [hframe] at hfits ⊢
  rw [decodeFrame_eq, hdeclared, hsum, if_neg (by omega), if_neg (by omega), if_neg (by unfold maxSize; omega),
    frameAt_eq hfin hopcode hflag hsize hdeclared]

theorem decodeFrame_encodeFrame_masked : decodeFrame [0x81, 0x82, 0x12, 0x34, 0x56, 0x78, 0x5a, 0x5d, 7] 9 =
    .ok (some { opcode := .text, payload := [0x48, 0x69], masked := true }) :=
  decodeFrame_encodeFrame { opcode := .text, payload := [0x48, 0x69], masked := true } [7] (by decide) (by decide)

end Ws
end CrashCore
