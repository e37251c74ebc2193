import CrashCore.PredictionsEngine.Sha256
import Mathlib.Data.List.Induction

/-! The hash of a stream does not depend on the pieces it comes in: it is the hash of the padded message, block by
block. Padding never leaves its array. -/

namespace CrashCore.Pe
namespace Sha256
variable {s : Sha256} {m data : List UInt8}

/-! ### The hash of a message -/

/-- The message with a one bit, zeros up to eight bytes before the end of a block, and its length in bits. -/
def padded (m : List UInt8) : List UInt8 :=
  m ++ (0x80 :: List.replicate ((119 - m.length % 64) % 64) 0 ++ lengthBytes (UInt64.ofNat (m.length * 8)))

def hash (m : List UInt8) : List UInt8 :=
  stateBytes (Blocks.absorb transform 64 ((padded m).length / 64) {} (padded m))

theorem length_padded_mod (m : List UInt8) : (padded m).length % 64 = 0 := by
  have hlength (bitlen : UInt64) : (lengthBytes bitlen).length = 8 := rfl
  simp only [padded, List.length_append, List.length_cons, List.length_replicate, hlength]
  omega

/-! ### Updates -/

/-- What has been streamed is `m`. -/
structure Streamed (s : Sha256) (m : List UInt8) : Prop where
  consumed : Blocks.Consumed transform 64 {} s.state s.buffer m
  bitlen : s.bitlen = UInt64.ofNat (m.length * 8)

theorem streamed_nil : Streamed {} [] := ⟨Blocks.consumed_nil (by decide), rfl⟩

theorem Streamed.length_lt (h : s.Streamed m) : s.buffer.length < 64 := by
  obtain ⟨k, whole, -, -, -, hlt⟩ := h.consumed
  exact hlt

theorem Streamed.mod_eq (h : s.Streamed m) : m.length % 64 = s.buffer.length := by
  obtain ⟨k, whole, hm, hlen, -, hlt⟩ := h.consumed
  rw [hm, List.length_append, hlen]
  omega

theorem Streamed.bitlen_update (h : s.Streamed m) (data : List UInt8) :
    (s.update data).bitlen = UInt64.ofNat ((m ++ data).length * 8) := by
  show s.bitlen + UInt64.ofNat data.length * 8 = _
  rw [h.bitlen, List.length_append, Nat.add_mul, UInt64.ofNat_add, UInt64.ofNat_mul data.length]
  rfl

/-- With an empty buffer the whole blocks are consumed and the rest is buffered. -/
theorem consumed_loop {state : HashState} (h : Blocks.Consumed transform 64 {} state [] m) (data : List UInt8) :
    let r := Blocks.consume transform 64 data.length state data
    Blocks.Consumed transform 64 {} r.1 (if r.2 ≠ [] then r.2 else []) (m ++ data) := by
  have hconsume := h.consume (b := data) (by decide) le_rfl
  dsimp only
  split
  · exact hconsume
  · rename_i hnil
    rwa [not_ne_iff.mp hnil] at hconsume

theorem Streamed.update (h : s.Streamed m) (data : List UInt8) : (s.update data).Streamed (m ++ data) := by
  refine ⟨?_, h.bitlen_update data⟩
  have hlt := h.length_lt
  by_cases hbuf : s.buffer = []
  · have hconsumed := h.consumed
    rw [hbuf] at hconsumed
    have hloop := consumed_loop hconsumed data
    unfold Sha256.update
    simpa only [hbuf, List.length_nil, Nat.lt_irrefl, if_false] using hloop
  have hpos : 0 < s.buffer.length := List.length_pos_iff.mpr hbuf
  by_cases hshort : data.length < 64 - s.buffer.length
  · -- all the data goes to the buffer, which is not full then
    have hne : ¬s.buffer.length + data.length = 64 := by omega
    have hwait := h.consumed.wait (b := data) (by omega)
    unfold Sha256.update
    simpa [hpos, hshort, hne, Blocks.consume] using hwait
  · have htake : (data.take (64 - s.buffer.length)).length = 64 - s.buffer.length :=
      List.length_take_of_le (Nat.le_of_not_lt hshort)
    have hfull : (s.buffer ++ data.take (64 - s.buffer.length)).length = 64 := by
      rw [List.length_append, htake]
      omega
    have hfill := h.consumed.fill (b := data.take (64 - s.buffer.length)) (by rw [htake]; omega)
    have hloop := consumed_loop hfill (data.drop (64 - s.buffer.length))
    rw [List.append_assoc, List.take_append_drop] at hloop
    unfold Sha256.update
    simpa only [hpos, hshort, hfull, if_true, if_false] using hloop

theorem streamed_foldl (chunks : List (List UInt8)) : (chunks.foldl Sha256.update {}).Streamed chunks.flatten := by
  induction chunks using List.reverseRecOn with
  | nil => exact streamed_nil
  | append_singleton chunks chunk ih =>
    rw [List.foldl_concat, List.flatten_concat]
    exact ih.update chunk

/-! ### Padding -/

theorem padZeros_eq (buflen : Nat) : ∀ (room : Nat) (pad : List UInt8), (120 - (buflen + pad.length) % 64) % 64 ≤ room →
    padZeros buflen room pad = some (pad ++ List.replicate ((120 - (buflen + pad.length) % 64) % 64) 0)
  | 0, pad, h => by
    have hdone : (buflen + pad.length) % 64 = 56 := by omega
    simp [padZeros, hdone]
  | room + 1, pad, h => by
    rw [padZeros]
    split
    · rename_i hmore
      have hlen : (pad ++ [0]).length = pad.length + 1 := List.length_append
      have hzeros : (120 - (buflen + pad.length) % 64) % 64 = (120 - (buflen + (pad ++ [0]).length) % 64) % 64 + 1 := by
        omega
      rw [padZeros_eq buflen room (pad ++ [0]) (by omega), hzeros, List.replicate_succ, List.append_assoc]
      rfl
    · rename_i hdone
      simp [not_ne_iff.mp hdone]

theorem Streamed.padding (h : s.Streamed m) : ∃ pad, s.padding = some pad ∧ m ++ pad = padded m := by
  have hmod := h.mod_eq
  have hlt := h.length_lt
  have hlength : (lengthBytes s.bitlen).length = 8 := rfl
  have hzeros : (120 - (s.buffer.length + [(0x80 : UInt8)].length) % 64) % 64 = (119 - m.length % 64) % 64 := by
    rw [List.length_singleton]
    omega
  refine ⟨_, ?_, rfl⟩
  unfold Sha256.padding
  rw [padZeros_eq _ _ _ (by omega), hzeros, ← h.bitlen]
  show (if _ ≤ 128 then some _ else none) = _
  rw [if_pos ?_]
  · rfl
  · rw [List.length_append, List.length_append, List.length_replicate, hlength, List.length_singleton]
    omega

theorem Streamed.digest (h : s.Streamed m) : s.digest = some (hash m) := by
  obtain ⟨pad, hpad, hmsg⟩ := h.padding
  obtain ⟨k, whole, hwhole, hlen, hstate, hlt⟩ := (h.update pad).consumed
  rw [hmsg] at hwhole
  have hmod := length_padded_mod m
  have hrest : (s.update pad).buffer = [] := by
    rw [hwhole, List.length_append, hlen] at hmod
    exact List.length_eq_zero_iff.mp (by omega)
  rw [hrest, List.append_nil] at hwhole
  rw [Sha256.digest, hpad, Option.map_some, hstate, hash, hwhole, hlen, Nat.mul_div_cancel_left k (by decide)]

/-! ### Texts and files -/

theorem length_hash (m : List UInt8) : (hash m).length = 32 := rfl

theorem flatten_readChunks : ∀ (fuel : Nat) (bytes : List UInt8), bytes.length < fuel → (readChunks fuel bytes).flatten = bytes
  | 0, _, h => absurd h (Nat.not_lt_zero _)
  | fuel + 1, bytes, h => by
    rw [readChunks, List.flatten_cons]
    split
    · rename_i hfull
      rw [flatten_readChunks fuel (bytes.drop 4096) ?_, List.take_append_drop]
      rw [List.length_drop]
      omega
    · rename_i hlast
      rw [List.flatten_nil, List.append_nil, List.take_of_length_le (Nat.le_of_not_le hlast)]

/-- The reads of a file, of which an empty one is skipped. -/
theorem streamed_file (bytes : List UInt8) :
    ((readChunks (bytes.length + 1) bytes).foldl (fun s chunk => if chunk ≠ [] then s.update chunk else s)
      ({} : Sha256)).Streamed bytes := by
  have hchunks : ∀ chunks : List (List UInt8),
      (chunks.foldl (fun s chunk => if chunk ≠ [] then s.update chunk else s) ({} : Sha256)).Streamed chunks.flatten := by
    intro chunks
    induction chunks using List.reverseRecOn with
    | nil => exact streamed_nil
    | append_singleton chunks chunk ih =>
      rw [List.foldl_concat, List.flatten_concat]
      split
      · exact ih.update chunk
      · rename_i hnil
        rwa [not_ne_iff.mp hnil, List.append_nil]
  have hfile := hchunks (readChunks (bytes.length + 1) bytes)
  rwa [flatten_readChunks _ _ bytes.length.lt_succ_self] at hfile

theorem length_hexText (bytes : List UInt8) : (hexText bytes).length = 2 * bytes.length := by
  rw [hexText, String.length_ofList]
  induction bytes with
  | nil => rfl
  | cons b bytes ih =>
    rw [List.flatMap_cons, List.length_append, ih]
    simp only [List.length_cons, List.length_nil]
    omega

/-- However a message is cut into pieces, and from a file too, its hash is that of the padded message. -/
theorem hex_eq (m : List UInt8) :
    (∀ chunks : List (List UInt8), chunks.flatten = m → (chunks.foldl Sha256.update {}).hex = some (hexText (hash m))) ∧
      sha256Hex m = some (hexText (hash m)) ∧ sha256File (some m) = some (hexText (hash m)) ∧
      (hexText (hash m)).length = 64 := by
  have hhex {s : Sha256} (h : s.Streamed m) : s.hex = some (hexText (hash m)) := by
    rw [hex, h.digest, Option.map_some]
  refine ⟨?_, ?_, hhex (streamed_file m), length_hexText (hash m)⟩
  · rintro chunks rfl
    exact hhex (streamed_foldl chunks)
  · unfold sha256Hex
    split
    · exact hhex (streamed_nil.update m)
    · rename_i hnil
      exact hhex (not_ne_iff.mp hnil ▸ streamed_nil)

end Sha256
end CrashCore.Pe
