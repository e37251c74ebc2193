import CrashCore.Library.Codec
import Mathlib.Logic.Function.Basic
import Mathlib.Tactic.Ring

/-! Varints and protobuf fields (`ingestion/socketio/socketio_protocol.hpp`).

A buffer is the list of the bytes that may be read, and a read outside of it gives `none`. Sums of offsets stay below
`2^64`. -/

namespace CrashCore

abbrev Bytes := List UInt8

/-- A `std::string` of the wire. A 57 bit address space leaves a process less than `2^56` bytes for all its objects. -/
structure ByteString where
  bytes : Bytes
  fits : bytes.length < 2 ^ 56
deriving DecidableEq

namespace ByteString

def empty : ByteString := ⟨[], by simp⟩

/-- The construction from bytes, which fails without the memory for it. -/
def ofBytes (bytes : Bytes) : Option ByteString :=
  if h : bytes.length < 2 ^ 56 then some ⟨bytes, h⟩ else none

@[simp] theorem ofBytes_bytes (s : ByteString) : ofBytes s.bytes = some s := by
  rw [ofBytes, dif_pos s.fits]

end ByteString

/-- The bytes from `offset` on, `size` of them. -/
def slice (buf : Bytes) (offset size : Nat) : Option Bytes :=
  if offset + size ≤ buf.length then some ((buf.drop offset).take size) else none

/-! ### Varints -/

/-- The loop, of at most eight groups. The flag is false when it ends without a last group. -/
def readVarintFrom (buf : Bytes) (len offset value shift : Nat) : Option (Bool × Nat × Nat) :=
  if offset < len ∧ shift < 56 then
    match buf[offset]? with
    | none => none
    | some b =>
      let value := value ||| ((b &&& 0x7f).toNat <<< shift)
      if b &&& 0x80 = 0 then some (true, value, offset + 1)
      else readVarintFrom buf len (offset + 1) value (shift + 7)
  else some (false, value, offset)
termination_by 56 - shift

def readVarint (buf : Bytes) (len offset : Nat) : Option (Bool × Nat × Nat) := readVarintFrom buf len offset 0 0

def writeVarint (n : Nat) : Bytes :=
  if 0x7f < n then UInt8.ofNat ((n &&& 0x7f) ||| 0x80) :: writeVarint (n >>> 7) else [UInt8.ofNat n]
termination_by n
decreasing_by
  rw [Nat.shiftRight_eq_div_pow]
  omega

/-- The check of `runProtocolSelfCheck` (`ingestion/socketio/protocol_edge_cases.hpp`). -/
def varintRoundtripOk (value : UInt64) : Bool :=
  let buf := writeVarint value.toNat
  match readVarint buf buf.length 0 with
  | some (true, out, off) => out = value.toNat ∧ off = buf.length
  | _ => false

/-! ### Protobuf fields -/

inductive FieldValue
  | number (n : Nat)
  | text (s : ByteString)
deriving DecidableEq

abbrev Field := Int × FieldValue

/-- The map of the fields by their numbers. -/
abbrev Fields := Int → Option FieldValue

/-- The conversion to `int`. -/
def toInt32 (n : Int) : Int := Int.bmod n (2 ^ 32)

/-- One round of the loop: the field and where the next one starts; nothing when the loop breaks. -/
def readField (buf : Bytes) (len offset : Nat) : Option (Option (Field × Nat)) :=
  match readVarint buf len offset with
  | none => none
  | some (false, _, _) => some none
  | some (true, tag, offset) =>
    let field := toInt32 (tag >>> 3 : Nat)
    if tag &&& 7 = 0 then
      match readVarint buf len offset with
      | none => none
      | some (false, _, _) => some none
      | some (true, value, offset) => some (some ((field, .number value), offset))
    else if tag &&& 7 = 2 then
      match readVarint buf len offset with
      | none => none
      | some (false, _, _) => some none
      | some (true, size, offset) =>
        if len < offset + size then some none
        else
          ((slice buf offset size).bind ByteString.ofBytes).map fun s => some ((field, .text s), offset + size)
    else some none

theorem readVarintFrom_offset {buf : Bytes} {len offset value shift value' offset' : Nat}
    (h : readVarintFrom buf len offset value shift = some (true, value', offset')) : offset < offset' := by
  induction offset, value, shift using readVarintFrom.induct buf len with
  | case1 offset value shift hlt none =>
    rw [readVarintFrom, if_pos hlt, none] at h
    cases h
  | case2 offset value shift hlt b found last =>
    rw [readVarintFrom, if_pos hlt, found] at h
    simp only [if_pos last, Option.some.injEq, Prod.mk.injEq] at h
    omega
  | case3 offset value shift hlt b found value₁ more ih =>
    rw [readVarintFrom, if_pos hlt, found] at h
    simp only [if_neg more] at h
    exact Nat.lt_of_succ_lt (ih h)
  | case4 offset value shift stop =>
    rw [readVarintFrom, if_neg stop] at h
    cases h

theorem readField_offset {buf : Bytes} {len offset next : Nat} {f : Field}
    (h : readField buf len offset = some (some (f, next))) : offset < next := by
  unfold readField at h
  split at h
  case h_1 => cases h
  case h_2 => cases h
  rename_i tag start found
  have hstart : offset < start := readVarintFrom_offset found
  dsimp only at h
  split at h
  · split at h
    case h_1 => cases h
    case h_2 => cases h
    rename_i value start' found'
    have hstart' : start < start' := readVarintFrom_offset found'
    simp only [Option.some.injEq, Prod.mk.injEq] at h
    omega
  · split at h
    case isFalse => cases h
    split at h
    case h_1 => cases h
    case h_2 => cases h
    rename_i size start' found'
    have hstart' : start < start' := readVarintFrom_offset found'
    split at h
    · cases h
    · obtain ⟨s, -, hs⟩ := Option.map_eq_some_iff.mp h
      simp only [Option.some.injEq, Prod.mk.injEq] at hs
      omega

/-- The loop from `offset` on. -/
def decodeFrom (buf : Bytes) (len offset : Nat) (fields : Fields) : Option Fields :=
  if offset < len then
    match _h : readField buf len offset with
    | none => none
    | some none => some fields
    | some (some ((field, value), next)) => decodeFrom buf len next (Function.update fields field (some value))
  else some fields
termination_by len - offset
decreasing_by
  have := readField_offset _h
  omega

def decodeProtobuf (buf : Bytes) (len : Nat) : Option Fields := decodeFrom buf len 0 fun _ => none

/-- `static_cast<std::uint64_t>((field << 3) | wire)`: the three bits are free. -/
def tagOf (field : Int) (wire : Nat) : Nat := ((toInt32 (field * 8) + wire) % 2 ^ 64).toNat

def encodeField : Field → Bytes
  | (field, .number n) => writeVarint (tagOf field 0) ++ writeVarint n
  | (field, .text s) => writeVarint (tagOf field 2) ++ (writeVarint s.bytes.length ++ s.bytes)

def encodeProtobuf (fields : List Field) : Bytes := fields.flatMap encodeField

/-! ### What is written is read -/

/-- The group of a byte, and whether another one follows. -/
theorem group_last {n : Nat} (h : n < 128) : (UInt8.ofNat n &&& 0x7f).toNat = n ∧ UInt8.ofNat n &&& 0x80 = 0 := by
  have all : ∀ n < 128, (UInt8.ofNat n &&& 0x7f).toNat = n ∧ UInt8.ofNat n &&& 0x80 = 0 := by decide
  exact all n h

theorem group_more (n : Nat) : (UInt8.ofNat ((n &&& 0x7f) ||| 0x80) &&& 0x7f).toNat = n % 128 ∧
    UInt8.ofNat ((n &&& 0x7f) ||| 0x80) &&& 0x80 ≠ 0 := by
  have all : ∀ n < 128, (UInt8.ofNat (n ||| 0x80) &&& 0x7f).toNat = n ∧ UInt8.ofNat (n ||| 0x80) &&& 0x80 ≠ 0 := by
    decide
  rw [show n &&& 0x7f = n % 128 from Nat.and_two_pow_sub_one_eq_mod n 7]
  exact all _ (Nat.mod_lt _ (by decide))

theorem writeVarint_small {n : Nat} (h : ¬0x7f < n) : writeVarint n = [UInt8.ofNat n] := by
  rw [writeVarint, if_neg h]

theorem writeVarint_large {n : Nat} (h : 0x7f < n) :
    writeVarint n = UInt8.ofNat ((n &&& 0x7f) ||| 0x80) :: writeVarint (n / 128) := by
  rw [writeVarint, if_pos h, Nat.shiftRight_eq_div_pow]

theorem writeVarint_length_pos (n : Nat) : 0 < (writeVarint n).length := by
  by_cases h : 0x7f < n
  · simp [writeVarint_large h]
  · simp [writeVarint_small h]

/-- Seven bits for each byte. -/
theorem writeVarint_length_le {k : Nat} : ∀ {n : Nat}, n < 2 ^ (7 * (k + 1)) → (writeVarint n).length ≤ k + 1 := by
  induction k with
  | zero =>
    intro n h
    rw [writeVarint_small (by omega)]
    exact Nat.le_refl 1
  | succ k ih =>
    intro n h
    by_cases hn : 0x7f < n
    · rw [writeVarint_large hn, List.length_cons]
      refine Nat.succ_le_succ (ih ?_)
      rw [Nat.div_lt_iff_lt_mul (by decide), show 128 = 2 ^ 7 from rfl, ← Nat.pow_add]
      exact h
    · simp [writeVarint_small hn]

/-- The bits of a group are free in the value read so far. -/
theorem or_group {value shift g : Nat} (h : value < 2 ^ shift) : value ||| g <<< shift = value + g * 2 ^ shift := by
  rw [Nat.or_comm, ← Nat.shiftLeft_add_eq_or_of_lt h, Nat.shiftLeft_eq, Nat.add_comm]

theorem readVarintFrom_write {buf : Bytes} {len : Nat} (n : Nat) : ∀ (pre rest : Bytes) {value shift : Nat},
    buf = pre ++ (writeVarint n ++ rest) → pre.length + (writeVarint n).length ≤ len → value < 2 ^ shift →
    shift + 7 * (writeVarint n).length ≤ 56 →
    readVarintFrom buf len pre.length value shift =
      some (true, value + n * 2 ^ shift, pre.length + (writeVarint n).length) := by
  induction n using Nat.strongRecOn with
  | ind n ih =>
    intro pre rest value shift hbuf hlen hvalue hshift
    have pos := writeVarint_length_pos n
    rw [readVarintFrom, if_pos (by omega)]
    by_cases hn : 0x7f < n
    · rw [writeVarint_large hn] at hbuf hlen hshift ⊢
      rw [List.length_cons] at hlen hshift ⊢
      have found : buf[pre.length]? = some (UInt8.ofNat ((n &&& 0x7f) ||| 0x80)) := by simp [hbuf]
      rw [found]
      simp only [if_neg (group_more n).2, (group_more n).1, or_group hvalue]
      have fits : value + n % 128 * 2 ^ shift < 2 ^ (shift + 7) := by
        have : n % 128 * 2 ^ shift ≤ 127 * 2 ^ shift := Nat.mul_le_mul_right _ (by omega)
        rw [Nat.pow_add]
        omega
      have next := ih (n / 128) (by omega) (pre ++ [UInt8.ofNat ((n &&& 0x7f) ||| 0x80)]) rest (by simp [hbuf])
        (by simp; omega) fits (by omega)
      rw [List.length_append, List.length_singleton] at next
      have sum : value + n % 128 * 2 ^ shift + n / 128 * 2 ^ (shift + 7) = value + n * 2 ^ shift := by
        conv_rhs => rw [← Nat.div_add_mod n 128]
        rw [Nat.pow_add]
        ring
      rw [next, sum, Nat.add_assoc, Nat.add_comm 1]
    · rw [writeVarint_small hn] at hbuf ⊢
      have found : buf[pre.length]? = some (UInt8.ofNat n) := by simp [hbuf]
      have last := group_last (Nat.lt_of_not_le hn)
      rw [found]
      simp only [if_pos last.2, last.1, or_group hvalue]
      rfl

/-- Of a cut varint each byte says that another one follows. -/
theorem readVarintFrom_cut (n : Nat) : ∀ (k : Nat) (pre : Bytes) (value shift : Nat), k < (writeVarint n).length →
    shift + 7 * k ≤ 56 → ∃ value' offset',
      readVarintFrom (pre ++ (writeVarint n).take k) (pre.length + k) pre.length value shift =
        some (false, value', offset') := by
  induction n using Nat.strongRecOn with
  | ind n ih =>
    intro k pre value shift hk hshift
    cases k with
    | zero =>
      rw [readVarintFrom, if_neg (by omega)]
      exact ⟨_, _, rfl⟩
    | succ k =>
      have hn : 0x7f < n := by
        by_contra hn
        rw [writeVarint_small hn] at hk
        simp at hk
      rw [writeVarint_large hn] at hk ⊢
      rw [List.take_succ_cons, readVarintFrom, if_pos (by omega)]
      have found : (pre ++ UInt8.ofNat ((n &&& 0x7f) ||| 0x80) :: (writeVarint (n / 128)).take k)[pre.length]? =
          some (UInt8.ofNat ((n &&& 0x7f) ||| 0x80)) := by simp
      rw [found]
      simp only [if_neg (group_more n).2]
      have next := ih (n / 128) (by omega) k (pre ++ [UInt8.ofNat ((n &&& 0x7f) ||| 0x80)])
        (value ||| (UInt8.ofNat ((n &&& 0x7f) ||| 0x80) &&& 0x7f).toNat <<< shift) (shift + 7) (by simpa using hk)
        (by omega)
      simpa [Nat.add_assoc, Nat.add_comm 1] using next

theorem readVarint_write {n : Nat} (len : Nat) (pre rest : Bytes) (hn : n < 2 ^ 56)
    (hlen : pre.length + (writeVarint n).length ≤ len) :
    readVarint (pre ++ (writeVarint n ++ rest)) len pre.length = some (true, n, pre.length + (writeVarint n).length) := by
  have short : (writeVarint n).length ≤ 8 := writeVarint_length_le hn
  unfold readVarint
  simpa using readVarintFrom_write n pre rest rfl hlen (by decide : 0 < 2 ^ 0) (by omega)

/-- More than eight bytes of one varint: the loop ends at its bound, after a byte that says that another one follows. -/
theorem readVarintFrom_long (n : Nat) : ∀ (pre rest : Bytes) (value groups : Nat),
    8 < groups + (writeVarint n).length → ∃ value' offset',
      readVarintFrom (pre ++ (writeVarint n ++ rest)) (pre ++ (writeVarint n ++ rest)).length pre.length value
        (7 * groups) = some (false, value', offset') := by
  induction n using Nat.strongRecOn with
  | ind n ih =>
    intro pre rest value groups hlong
    have hlen : pre.length < (pre ++ (writeVarint n ++ rest)).length := by
      have pos := writeVarint_length_pos n
      simp only [List.length_append]
      omega
    by_cases hstop : groups < 8
    · have hn : 0x7f < n := by
        by_contra hn
        rw [writeVarint_small hn, List.length_singleton] at hlong
        omega
      rw [readVarintFrom, if_pos ⟨hlen, by omega⟩]
      rw [writeVarint_large hn] at hlong ⊢
      have found : (pre ++ (UInt8.ofNat ((n &&& 0x7f) ||| 0x80) :: writeVarint (n / 128) ++ rest))[pre.length]? =
          some (UInt8.ofNat ((n &&& 0x7f) ||| 0x80)) := by simp
      rw [found]
      simp only [if_neg (group_more n).2]
      have next := ih (n / 128) (by omega) (pre ++ [UInt8.ofNat ((n &&& 0x7f) ||| 0x80)]) rest
        (value ||| (UInt8.ofNat ((n &&& 0x7f) ||| 0x80) &&& 0x7f).toNat <<< (7 * groups)) (groups + 1)
        (by rw [List.length_cons] at hlong; omega)
      simpa [Nat.mul_add] using next
    · rw [readVarintFrom, if_neg (by omega)]
      exact ⟨_, _, rfl⟩

theorem lt_writeVarint_length {k : Nat} : ∀ {n : Nat}, 2 ^ (7 * k) ≤ n → k < (writeVarint n).length := by
  induction k with
  | zero => exact fun _ => writeVarint_length_pos _
  | succ k ih =>
    intro n h
    have hn : 0x7f < n := by
      have : 2 ^ 7 ≤ 2 ^ (7 * (k + 1)) := Nat.pow_le_pow_right (by decide) (by omega)
      omega
    rw [writeVarint_large hn, List.length_cons]
    refine Nat.succ_lt_succ (ih ?_)
    rw [Nat.le_div_iff_mul_le (by decide), show 128 = 2 ^ 7 from rfl, ← Nat.pow_add]
    exact h

theorem readVarint_long {n : Nat} (pre rest : Bytes) (hn : 2 ^ 56 ≤ n) :
    ∃ value' offset', readVarint (pre ++ (writeVarint n ++ rest)) (pre ++ (writeVarint n ++ rest)).length pre.length =
      some (false, value', offset') :=
  readVarintFrom_long n pre rest 0 0 (by have := lt_writeVarint_length (k := 8) hn; omega)

theorem readVarint_cut {n k : Nat} (pre : Bytes) (hn : n < 2 ^ 56) (hk : k < (writeVarint n).length) :
    ∃ value' offset', readVarint (pre ++ (writeVarint n).take k) (pre.length + k) pre.length =
      some (false, value', offset') := by
  have short : (writeVarint n).length ≤ 8 := writeVarint_length_le hn
  exact readVarintFrom_cut n k pre 0 0 hk (by omega)

/-! ### Reading stays in the buffer -/

theorem readVarintFrom_ne_none (buf : Bytes) (offset value shift : Nat) :
    readVarintFrom buf buf.length offset value shift ≠ none := by
  induction offset, value, shift using readVarintFrom.induct buf buf.length with
  | case1 offset value shift hlt hnone => exact absurd hlt.1 (Nat.not_lt.mpr (List.getElem?_eq_none_iff.mp hnone))
  | case2 offset value shift hlt b found last =>
    rw [readVarintFrom, if_pos hlt, found]
    simp only [if_pos last]
    exact Option.some_ne_none _
  | case3 offset value shift hlt b found value₁ more ih =>
    rw [readVarintFrom, if_pos hlt, found]
    simpa only [if_neg more] using ih
  | case4 offset value shift stop =>
    rw [readVarintFrom, if_neg stop]
    exact Option.some_ne_none _

theorem or_group_lt {value shift : Nat} (b : UInt8) (h : value < 2 ^ shift) :
    value ||| (b &&& 0x7f).toNat <<< shift < 2 ^ (shift + 7) := by
  have hgroup : (b &&& 0x7f).toNat ≤ 127 := by
    rw [UInt8.toNat_and]
    exact Nat.and_le_right
  have hmul : (b &&& 0x7f).toNat * 2 ^ shift ≤ 127 * 2 ^ shift := Nat.mul_le_mul_right _ hgroup
  rw [or_group h, Nat.pow_add]
  omega

/-- Eight groups hold 56 bits. -/
theorem readVarintFrom_lt {buf : Bytes} {len offset value shift value' offset' : Nat} (hshift : 7 ∣ shift)
    (hvalue : value < 2 ^ shift) (h : readVarintFrom buf len offset value shift = some (true, value', offset')) :
    value' < 2 ^ 56 := by
  induction offset, value, shift using readVarintFrom.induct buf len with
  | case1 offset value shift hlt hnone =>
    rw [readVarintFrom, if_pos hlt, hnone] at h
    cases h
  | case2 offset value shift hlt b found last =>
    rw [readVarintFrom, if_pos hlt, found] at h
    simp only [if_pos last, Option.some.injEq, Prod.mk.injEq] at h
    obtain ⟨-, rfl, -⟩ := h
    exact (or_group_lt b hvalue).trans_le (Nat.pow_le_pow_right (by decide) (by omega))
  | case3 offset value shift hlt b found value₁ more ih =>
    rw [readVarintFrom, if_pos hlt, found] at h
    simp only [if_neg more] at h
    exact ih ((Nat.dvd_add_right hshift).mpr (Nat.dvd_refl 7)) (or_group_lt b hvalue) h
  | case4 offset value shift stop =>
    rw [readVarintFrom, if_neg stop] at h
    cases h

theorem readVarint_ne_none (buf : Bytes) (offset : Nat) : readVarint buf buf.length offset ≠ none :=
  readVarintFrom_ne_none buf offset 0 0

theorem readVarint_lt {buf : Bytes} {len offset value offset' : Nat}
    (h : readVarint buf len offset = some (true, value, offset')) : value < 2 ^ 56 :=
  readVarintFrom_lt (Nat.dvd_zero 7) Nat.one_pos h

/-- A text that lies in the buffer is read: its size has eight groups, so there is memory for it. -/
theorem slice_ofBytes_ne_none {buf : Bytes} {offset size : Nat} (h : offset + size ≤ buf.length) (hsize : size < 2 ^ 56) :
    (slice buf offset size).bind ByteString.ofBytes ≠ none := by
  have hlength : ((buf.drop offset).take size).length < 2 ^ 56 := Nat.lt_of_le_of_lt (List.length_take_le _ _) hsize
  rw [slice, if_pos h, Option.bind_some, ByteString.ofBytes, dif_pos hlength]
  exact Option.some_ne_none _

theorem readField_ne_none (buf : Bytes) (offset : Nat) : readField buf buf.length offset ≠ none := by
  unfold readField
  split
  case h_1 hnone => exact absurd hnone (readVarint_ne_none buf offset)
  case h_2 => exact Option.some_ne_none _
  rename_i tag start found
  dsimp only
  split
  · split
    case h_1 hnone => exact absurd hnone (readVarint_ne_none buf start)
    case h_2 => exact Option.some_ne_none _
    case h_3 => exact Option.some_ne_none _
  · split
    case isFalse => exact Option.some_ne_none _
    split
    case h_1 hnone => exact absurd hnone (readVarint_ne_none buf start)
    case h_2 => exact Option.some_ne_none _
    rename_i size stop found'
    split
    · exact Option.some_ne_none _
    · rename_i hfits
      exact mt Option.map_eq_none_iff.mp (slice_ofBytes_ne_none (Nat.not_lt.mp hfits) (readVarint_lt found'))

/-! ### Fields -/

/-- A field number of 28 bits, and a number that eight groups hold. -/
def Encodable (f : Field) : Prop := (0 ≤ f.1 ∧ f.1 < 2 ^ 28) ∧ ∀ n, f.2 = .number n → n < 2 ^ 56

theorem toInt32_of_small {n : Int} (h0 : 0 ≤ n) (h : n < 2 ^ 31) : toInt32 n = n := by
  unfold toInt32
  exact Int.bmod_eq_of_le (by omega) (by omega)

section Tag
variable {field : Int} {wire : Nat} (h : 0 ≤ field ∧ field < 2 ^ 28) (hw : wire < 8)
include h hw

theorem tagOf_eq : tagOf field wire = 8 * field.toNat + wire := by
  unfold tagOf
  rw [toInt32_of_small (by omega) (by omega)]
  omega

theorem tagOf_lt : tagOf field wire < 2 ^ 56 := by
  rw [tagOf_eq h hw]
  omega

theorem tagOf_field : toInt32 ((tagOf field wire : Int) >>> (3 : Nat)) = field := by
  have high : (tagOf field wire : Int) >>> (3 : Nat) = field := by
    rw [tagOf_eq h hw, Int.shiftRight_eq_div_pow]
    omega
  rw [high]
  exact toInt32_of_small h.1 (by omega)

theorem tagOf_wire : tagOf field wire &&& 7 = wire := by
  rw [show tagOf field wire &&& 7 = tagOf field wire % 8 from Nat.and_two_pow_sub_one_eq_mod _ 3, tagOf_eq h hw]
  omega

end Tag

theorem encodeField_length_pos (f : Field) : 0 < (encodeField f).length := by
  obtain ⟨field, n | s⟩ := f
  · exact List.length_append ▸ Nat.add_pos_left (writeVarint_length_pos _) _
  · exact List.length_append ▸ Nat.add_pos_left (writeVarint_length_pos _) _

theorem slice_append (pre mid rest : Bytes) : slice (pre ++ (mid ++ rest)) pre.length mid.length = some mid := by
  simp [slice]

section Read
variable {field : Int} {len k : Nat} (pre rest : Bytes) (h : 0 ≤ field ∧ field < 2 ^ 28)
include h

/-- A number that is there is read. -/
theorem readField_number {n : Nat} (hn : n < 2 ^ 56) (hlen : pre.length + (encodeField (field, .number n)).length ≤ len) :
    readField (pre ++ (encodeField (field, .number n) ++ rest)) len pre.length =
      some (some ((field, .number n), pre.length + (encodeField (field, .number n)).length)) := by
  have hw : 0 < 8 := by decide
  simp only [encodeField, List.length_append, List.append_assoc] at hlen ⊢
  have tag : readVarint (pre ++ (writeVarint (tagOf field 0) ++ (writeVarint n ++ rest))) len pre.length = _ :=
    readVarint_write len pre _ (tagOf_lt h hw) (by omega)
  have number := readVarint_write len (pre ++ writeVarint (tagOf field 0)) rest hn (by simp; omega)
  rw [List.append_assoc, List.length_append] at number
  unfold readField
  simp [tag, tagOf_field h hw, tagOf_wire h hw, number, Nat.add_assoc]

theorem readField_text {s : ByteString} (hlen : pre.length + (encodeField (field, .text s)).length ≤ len) :
    readField (pre ++ (encodeField (field, .text s) ++ rest)) len pre.length =
      some (some ((field, .text s), pre.length + (encodeField (field, .text s)).length)) := by
  have hw : 2 < 8 := by decide
  simp only [encodeField, List.length_append, List.append_assoc] at hlen ⊢
  have tag : readVarint (pre ++ (writeVarint (tagOf field 2) ++ (writeVarint s.bytes.length ++ (s.bytes ++ rest)))) len
      pre.length = _ := readVarint_write len pre _ (tagOf_lt h hw) (by omega)
  have size := readVarint_write len (pre ++ writeVarint (tagOf field 2)) (s.bytes ++ rest) s.fits (by simp; omega)
  have body := slice_append (pre ++ (writeVarint (tagOf field 2) ++ writeVarint s.bytes.length)) s.bytes rest
  simp only [List.append_assoc, List.length_append] at size body
  rw [Nat.add_assoc] at size
  simp [readField, tag, tagOf_field h hw, tagOf_wire h hw, size, body, Nat.add_assoc, Nat.not_lt.mpr hlen]

/-- A cut tag ends the loop. -/
theorem readField_tag_cut {wire : Nat} (hw : wire < 8) (body : Bytes) (cut : k < (writeVarint (tagOf field wire)).length) :
    readField (pre ++ (writeVarint (tagOf field wire) ++ body).take k) (pre.length + k) pre.length = some none := by
  obtain ⟨value, offset, tag⟩ := readVarint_cut pre (tagOf_lt h hw) cut
  rw [List.take_append_of_le_length cut.le]
  simp [readField, tag]

/-- So does a cut number. -/
theorem readField_number_cut {n : Nat} (hn : n < 2 ^ 56) (hk : k < (encodeField (field, .number n)).length) :
    readField (pre ++ (encodeField (field, .number n)).take k) (pre.length + k) pre.length = some none := by
  have hw : 0 < 8 := by decide
  rw [encodeField] at hk ⊢
  by_cases cut : k < (writeVarint (tagOf field 0)).length
  · exact readField_tag_cut pre h hw (writeVarint n) cut
  · obtain ⟨j, rfl⟩ := Nat.exists_eq_add_of_le (Nat.not_lt.mp cut)
    rw [List.length_append, Nat.add_lt_add_iff_left] at hk
    have tag := readVarint_write (pre.length + ((writeVarint (tagOf field 0)).length + j)) pre
      ((writeVarint n).take j) (tagOf_lt h hw) (by omega)
    obtain ⟨value, offset, number⟩ := readVarint_cut (pre ++ writeVarint (tagOf field 0)) hn hk
    simp only [List.append_assoc, List.length_append, Nat.add_assoc] at number
    simp [readField, List.take_length_add_append, tag, tagOf_wire h hw, number]

theorem readField_text_cut {s : ByteString} (hk : k < (encodeField (field, .text s)).length) :
    readField (pre ++ (encodeField (field, .text s)).take k) (pre.length + k) pre.length = some none := by
  have hw : 2 < 8 := by decide
  rw [encodeField] at hk ⊢
  by_cases cut : k < (writeVarint (tagOf field 2)).length
  · exact readField_tag_cut pre h hw (writeVarint s.bytes.length ++ s.bytes) cut
  obtain ⟨j, rfl⟩ := Nat.exists_eq_add_of_le (Nat.not_lt.mp cut)
  rw [List.length_append, Nat.add_lt_add_iff_left, List.length_append] at hk
  have tag := readVarint_write (pre.length + ((writeVarint (tagOf field 2)).length + j)) pre
    ((writeVarint s.bytes.length ++ s.bytes).take j) (tagOf_lt h hw) (by omega)
  rw [List.take_length_add_append]
  by_cases cut' : j < (writeVarint s.bytes.length).length
  · obtain ⟨value, offset, size⟩ := readVarint_cut (pre ++ writeVarint (tagOf field 2)) s.fits cut'
    rw [List.take_append_of_le_length cut'.le] at tag ⊢
    simp only [List.append_assoc, List.length_append, Nat.add_assoc] at size
    simp [readField, tag, tagOf_wire h hw, size]
  · obtain ⟨i, rfl⟩ := Nat.exists_eq_add_of_le (Nat.not_lt.mp cut')
    rw [List.take_length_add_append] at tag ⊢
    have size := readVarint_write (pre.length + ((writeVarint (tagOf field 2)).length +
      ((writeVarint s.bytes.length).length + i))) (pre ++ writeVarint (tagOf field 2)) (s.bytes.take i) s.fits
      (by simp; omega)
    simp only [List.append_assoc, List.length_append, Nat.add_assoc] at size
    simp [readField, tag, tagOf_wire h hw, size]
    omega

end Read

/-- A field that is there is read, and a cut one is not. -/
theorem readField_write {f : Field} (hf : Encodable f) (len : Nat) (pre rest : Bytes)
    (hlen : pre.length + (encodeField f).length ≤ len) :
    readField (pre ++ (encodeField f ++ rest)) len pre.length = some (some (f, pre.length + (encodeField f).length)) := by
  obtain ⟨field, n | s⟩ := f
  · exact readField_number pre rest hf.1 (hf.2 n rfl) hlen
  · exact readField_text pre rest hf.1 hlen

theorem readField_cut {f : Field} (hf : Encodable f) (pre : Bytes) {k : Nat} (hk : k < (encodeField f).length) :
    readField (pre ++ (encodeField f).take k) (pre.length + k) pre.length = some none := by
  obtain ⟨field, n | s⟩ := f
  · exact readField_number_cut pre hf.1 (hf.2 n rfl) hk
  · exact readField_text_cut pre hf.1 hk

/-! ### The loop -/

section Loop
variable {buf : Bytes} {len offset : Nat} {m : Fields}

theorem decodeFrom_end (h : len ≤ offset) : decodeFrom buf len offset m = some m := by
  rw [decodeFrom, if_neg (Nat.not_lt.mpr h)]

theorem decodeFrom_break (hlt : offset < len) (h : readField buf len offset = some none) :
    decodeFrom buf len offset m = some m := by
  rw [decodeFrom, if_pos hlt]
  split
  · simp_all
  · rfl
  · simp_all

theorem decodeFrom_next {f : Field} {next : Nat} (hlt : offset < len)
    (h : readField buf len offset = some (some (f, next))) :
    decodeFrom buf len offset m = decodeFrom buf len next (Function.update m f.1 (some f.2)) := by
  rw [decodeFrom, if_pos hlt]
  split
  · simp_all
  · simp_all
  · rename_i found
    rw [h] at found
    cases found
    rfl

end Loop

/-- The fields in a map, the later ones over the earlier ones. -/
def writes (m : Fields) (fs : List Field) : Fields := fs.foldl (fun m f => Function.update m f.1 (some f.2)) m

def lastWrites (fs : List Field) : Fields := writes (fun _ => none) fs

/-- The fields that the loop reads from `offset` on, in their order. -/
def fieldsFrom (buf : Bytes) (len offset : Nat) : List Field :=
  if offset < len then
    match _h : readField buf len offset with
    | some (some (f, next)) => f :: fieldsFrom buf len next
    | _ => []
  else []
termination_by len - offset
decreasing_by
  have := readField_offset _h
  omega

@[simp] theorem writes_nil (m : Fields) : writes m [] = m := rfl

@[simp] theorem writes_cons (m : Fields) (f : Field) (fs : List Field) :
    writes m (f :: fs) = writes (Function.update m f.1 (some f.2)) fs := rfl

/-- What was there before stays where no field is written. -/
theorem writes_apply (fs : List Field) (m : Fields) (k : Int) : writes m fs k = (lastWrites fs k).or (m k) := by
  induction fs generalizing m with
  | nil => rfl
  | cons f fs ih =>
    rw [lastWrites, writes_cons, writes_cons, ih, ih (Function.update _ _ _), Option.or_assoc]
    congr 1
    by_cases hk : k = f.1
    · subst hk
      simp
    · simp [Function.update_of_ne hk]

theorem fieldsFrom_break {buf : Bytes} {len offset : Nat} (hlt : offset < len) (h : readField buf len offset = some none) :
    fieldsFrom buf len offset = [] := by
  rw [fieldsFrom, if_pos hlt]
  split
  · simp_all
  · rfl

theorem fieldsFrom_next {buf : Bytes} {len offset next : Nat} {f : Field} (hlt : offset < len)
    (h : readField buf len offset = some (some (f, next))) : fieldsFrom buf len offset = f :: fieldsFrom buf len next := by
  rw [fieldsFrom, if_pos hlt]
  split
  · rename_i found
    rw [h] at found
    cases found
    rfl
  · rename_i hno
    exact absurd h (hno _ _)

/-- The decoder never reads outside of the buffer, and writes the fields in their order. -/
theorem decodeFrom_eq (buf : Bytes) (offset : Nat) (m : Fields) :
    decodeFrom buf buf.length offset m = some (writes m (fieldsFrom buf buf.length offset)) := by
  induction offset, m using decodeFrom.induct buf buf.length with
  | case1 offset m hlt hnone => exact absurd hnone (readField_ne_none buf offset)
  | case2 offset m hlt hbreak =>
    rw [decodeFrom_break hlt hbreak, fieldsFrom_break hlt hbreak, writes_nil]
  | case3 offset m hlt field value next found ih =>
    rw [decodeFrom_next hlt found, ih, fieldsFrom_next hlt found, writes_cons]
  | case4 offset m stop =>
    rw [decodeFrom_end (Nat.not_lt.mp stop), fieldsFrom, if_neg stop, writes_nil]

theorem decodeFrom_take {fs : List Field} (hfs : ∀ f ∈ fs, Encodable f) (pre : Bytes) (k : Nat) (m : Fields) :
    decodeFrom (pre ++ (encodeProtobuf fs).take k) (pre ++ (encodeProtobuf fs).take k).length pre.length m =
      some (writes m (Framing.whole encodeField fs k)) := by
  induction fs generalizing pre k m with
  | nil => exact decodeFrom_end (by simp [encodeProtobuf])
  | cons f fs ih =>
    obtain ⟨hf, hfs⟩ := List.forall_mem_cons.mp hfs
    unfold encodeProtobuf at ih ⊢
    by_cases hk : (encodeField f).length ≤ k
    · rw [Framing.take_of_le hk, Framing.whole_cons_of_le hk]
      have pos := encodeField_length_pos f
      have next := readField_write hf (pre ++ (encodeField f ++ (fs.flatMap encodeField).take
        (k - (encodeField f).length))).length pre ((fs.flatMap encodeField).take (k - (encodeField f).length)) (by simp)
      rw [decodeFrom_next (by simp; omega) next]
      simpa [writes] using ih hfs (pre ++ encodeField f) (k - (encodeField f).length) (Function.update m f.1 (some f.2))
    · have hk : k < (encodeField f).length := Nat.not_le.mp hk
      rw [Framing.take_of_lt hk, Framing.whole_cons_of_lt hk]
      have length : (pre ++ (encodeField f).take k).length = pre.length + k := by simp [hk.le]
      rw [length]
      rcases k.eq_zero_or_pos with rfl | pos
      · exact decodeFrom_end (Nat.le_refl _)
      · exact decodeFrom_break (by omega) (readField_cut hf pre hk)

theorem decodeProtobuf_encodeProtobuf {fs : List Field} (hfs : ∀ f ∈ fs, Encodable f) :
    decodeProtobuf (encodeProtobuf fs) (encodeProtobuf fs).length = some (lastWrites fs) := by
  have all := decodeFrom_take hfs [] (encodeProtobuf fs).length fun _ => none
  rw [List.take_length, show Framing.whole encodeField fs (encodeProtobuf fs).length = fs from Framing.whole_length fs]
    at all
  exact all

end CrashCore
