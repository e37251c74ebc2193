import CrashCore.Ingestion.Protobuf
import CrashCore.Ingestion.SocketIoProtocol

/-! Protobuf fields that are written, cut off and read: whole payloads, single varints, and the fast path for progress. -/

namespace CrashCore

/-- The first `k` bytes of the encoding decode, with no read outside of them, to the leading fields that lie wholly
    within; all of them when nothing is cut off. -/
theorem decodeProtobuf_take (fs : List Field) (hfs : ∀ f ∈ fs, Encodable f) (k : Nat) :
    decodeProtobuf ((encodeProtobuf fs).take k) ((encodeProtobuf fs).take k).length =
        some (lastWrites (Framing.whole encodeField fs k)) ∧
      (∀ n ≤ fs.length, n ≤ (Framing.whole encodeField fs k).length ↔ (encodeProtobuf (fs.take n)).length ≤ k) ∧
      (k = (encodeProtobuf fs).length → Framing.whole encodeField fs k = fs) := by
  refine ⟨decodeFrom_take hfs [] k _, fun n hn => Framing.le_length_whole_iff hn, ?_⟩
  rintro rfl
  exact Framing.whole_length fs

/-- A game id, and a hash of which one byte is missing. -/
theorem decodeProtobuf_take_five : decodeProtobuf [8, 172, 2, 58, 1] 5 = some (lastWrites [(1, .number 300)]) := by
  have cut := (decodeProtobuf_take [(1, .number 300), (7, .text ⟨[104], by decide⟩)] (by simp [Encodable]) 5).1
  have bytes : encodeProtobuf [(1, .number 300), (7, .text ⟨[104], by decide⟩)] = [8, 172, 2, 58, 1, 104] := by
    simp [encodeProtobuf, encodeField, tagOf, toInt32, writeVarint]
  have fields : Framing.whole encodeField [(1, .number 300), (7, .text ⟨[104], by decide⟩)] 5 = [(1, .number 300)] := by
    simp [Framing.whole, encodeField, tagOf, toInt32, writeVarint]
  rwa [bytes, fields] at cut

/-! ### Varints

Which numbers survive as varints. The writer has groups for all 64 bits, the reader stops after eight of them. -/

/-- Between whatever bytes the varint of `n` stands, it is read back, and nothing after it. -/
def VarintRoundTrips (n : UInt64) (pre rest : Bytes) : Prop :=
  let buf := pre ++ (writeVarint n.toNat ++ rest)
  readVarint buf buf.length pre.length = some (true, n.toNat, pre.length + (writeVarint n.toNat).length)

theorem varintRoundTrips_iff (n : UInt64) (pre rest : Bytes) : VarintRoundTrips n pre rest ↔ n.toNat < 2 ^ 56 := by
  constructor
  · intro h
    by_contra hn
    obtain ⟨value, offset, hread⟩ := readVarint_long pre rest (Nat.le_of_not_lt hn)
    have hfalse := hread.symm.trans h
    simp at hfalse
  · intro hn
    exact readVarint_write _ pre rest hn (by simp)

/-- The first number of nine groups, `2 ^ 56`, alone in its buffer. -/
theorem not_varintRoundTrips_nine : ¬VarintRoundTrips 72057594037927936 [] [] := by
  intro h
  obtain ⟨value, offset, hread⟩ := readVarint_long [] [] (Nat.le_refl (2 ^ 56))
  have hfalse := hread.symm.trans h
  simp at hfalse

/-- The check of the protocol itself fails from the same number on. -/
theorem varintRoundtripOk_iff (value : UInt64) : varintRoundtripOk value = true ↔ value.toNat < 2 ^ 56 := by
  by_cases hn : value.toNat < 2 ^ 56
  · have hread := readVarint_write (writeVarint value.toNat).length [] [] hn (by simp)
    simp only [List.nil_append, List.append_nil, List.length_nil, Nat.zero_add] at hread
    exact iff_of_true (by simp [varintRoundtripOk, hread]) hn
  · obtain ⟨out, off, hread⟩ := readVarint_long [] [] (Nat.le_of_not_lt hn)
    simp only [List.nil_append, List.append_nil, List.length_nil] at hread
    exact iff_of_false (by simp [varintRoundtripOk, hread]) hn

/-! ### The fast path for progress

When it agrees with the general decoder. It returns the first field of a payload that begins with the tag of field 1, and
the general decoder the last field 1 of the payload. -/

variable {b : Bytes} {v next : Nat}

/-- The fast path returns a value exactly if the general decoder finds a number in field 1, and then that number. -/
def ProgressAgrees (b : Bytes) : Prop :=
  ∃ fields found, decodeProtobuf b b.length = some fields ∧ decodeProgressElapsed b b.length = some found ∧
    ∀ elapsedMs, found = some elapsedMs ↔ ∃ n, fields 1 = some (.number n) ∧ elapsedMs = n

/-- The fast path returns what a progress event would get from the general decoder. -/
def AgreesWithPayload (multiplierFromElapsed : Int → Double) (now : TimestampMs) (b : Bytes) : Prop :=
  ∃ fields, decodeProtobuf b b.length = some fields ∧
    decodeProgressElapsed b b.length = some (fieldsToPayload multiplierFromElapsed "pg" fields now).elapsedMs

/-- No field after a first number under the one-byte tag of field 1 gives field 1 another value. -/
def FirstFieldStands (b : Bytes) : Prop :=
  ∀ v next, b[0]? = some 8 → readVarint b b.length 1 = some (true, v, next) →
    ∀ value, lastWrites (fieldsFrom b b.length next) 1 = some value → value = .number v

/-! ### The general decoder on a payload for the fast path -/

theorem readVarint_tag (h : b[0]? = some 8) : readVarint b b.length 0 = some (true, 8, 1) := by
  have hlt : 0 < b.length := (List.getElem?_eq_some_iff.mp h).1
  rw [readVarint, readVarintFrom, if_pos ⟨hlt, by decide⟩, h]
  rfl

theorem readField_first (h : b[0]? = some 8) : readField b b.length 0 =
    match readVarint b b.length 1 with
    | none => none
    | some (false, _, _) => some none
    | some (true, v, next) => some (some ((1, .number v), next)) := by
  unfold readField
  rw [readVarint_tag h]
  rfl

theorem decodeProtobuf_first (h : b[0]? = some 8) (hv : readVarint b b.length 1 = some (true, v, next)) :
    ∃ fields, decodeProtobuf b b.length = some fields ∧
      fields 1 = (lastWrites (fieldsFrom b b.length next) 1).or (some (.number v)) := by
  have hlt : 0 < b.length := (List.getElem?_eq_some_iff.mp h).1
  have hfield : readField b b.length 0 = some (some ((1, .number v), next)) := by rw [readField_first h, hv]
  refine ⟨_, (decodeFrom_next hlt hfield).trans (decodeFrom_eq ..), ?_⟩
  rw [writes_apply, Function.update_self]

/-- Without such a field first, the fast path asks the general decoder. -/
theorem decodeProgressElapsed_general (h : ∀ v next, b[0]? = some 8 → readVarint b b.length 1 ≠ some (true, v, next))
    {fields : Fields} (hfields : decodeProtobuf b b.length = some fields) :
    decodeProgressElapsed b b.length = some ((getNum fields 1).map Int.ofNat) := by
  unfold decodeProgressElapsed
  rw [hfields]
  split
  · rename_i hempty
    have hnil : decodeProtobuf b b.length = some fun _ => none := decodeFrom_end (Nat.le_of_eq hempty)
    cases hfields.symm.trans hnil
    rfl
  · rename_i hne
    have hlt : 0 < b.length := Nat.pos_of_ne_zero hne
    rw [List.getElem?_eq_getElem hlt]
    dsimp only
    split
    · rename_i hfirst
      have hfirst : b[0]? = some 8 := (List.getElem?_eq_getElem hlt).trans (congrArg some hfirst)
      split
      · rename_i hnone
        exact absurd hnone (readVarint_ne_none b 1)
      · rename_i hread
        exact absurd hread (h _ _ hfirst)
      · rfl
    · rfl

theorem decodeProgressElapsed_first (h : b[0]? = some 8) (hv : readVarint b b.length 1 = some (true, v, next)) :
    decodeProgressElapsed b b.length = some (some (v : Int)) := by
  have hne : b.length ≠ 0 := Nat.ne_of_gt (List.getElem?_eq_some_iff.mp h).1
  unfold decodeProgressElapsed
  rw [if_neg hne, h, hv]
  rfl

/-- Both decoders have a result, and the same one exactly if the first field stands. -/
theorem decodeProgressElapsed_eq_iff (b : Bytes) : ∃ fields, decodeProtobuf b b.length = some fields ∧
    (decodeProgressElapsed b b.length = some ((getNum fields 1).map Int.ofNat) ↔ FirstFieldStands b) := by
  by_cases h : ∃ v next, b[0]? = some 8 ∧ readVarint b b.length 1 = some (true, v, next)
  · obtain ⟨v, next, hfirst, hv⟩ := h
    obtain ⟨fields, hfields, hone⟩ := decodeProtobuf_first hfirst hv
    refine ⟨fields, hfields, ?_⟩
    rw [decodeProgressElapsed_first hfirst hv, getNum, hone]
    rcases hlater : lastWrites (fieldsFrom b b.length next) 1 with _ | value
    · refine iff_of_true rfl fun v' next' _ hv' value hvalue => ?_
      cases hv.symm.trans hv'
      cases hlater.symm.trans hvalue
    · have hstands : FirstFieldStands b ↔ value = .number v := by
        refine ⟨fun hs => hs v next hfirst hv value hlater, fun heq v' next' _ hv' value' hvalue' => ?_⟩
        cases hv.symm.trans hv'
        cases hlater.symm.trans hvalue'
        exact heq
      rw [hstands]
      cases value with
      | number n => simp [eq_comm]
      | text s => simp
  · push Not at h
    refine ⟨_, decodeFrom_eq b 0 _, ?_⟩
    exact iff_of_true (decodeProgressElapsed_general h (decodeFrom_eq b 0 _))
      fun v next hfirst hv => absurd hv (h v next hfirst)

theorem map_getNum_eq_some {fields : Fields} {elapsedMs : Int} :
    (getNum fields 1).map Int.ofNat = some elapsedMs ↔ ∃ n : Nat, fields 1 = some (.number n) ∧ elapsedMs = n := by
  unfold getNum
  rcases fields 1 with _ | (m | s)
  · simp
  · simp [eq_comm]
  · simp

/-- The fast path agrees with the general decoder, in either sense, exactly if the first field stands. -/
theorem progressAgrees_iff (multiplierFromElapsed : Int → Double) (now : TimestampMs) (b : Bytes) :
    (ProgressAgrees b ↔ FirstFieldStands b) ∧
      (AgreesWithPayload multiplierFromElapsed now b ↔ FirstFieldStands b) := by
  obtain ⟨fields, hfields, hiff⟩ := decodeProgressElapsed_eq_iff b
  rw [← hiff]
  refine ⟨⟨?_, fun h => ⟨fields, _, hfields, h, fun _ => map_getNum_eq_some⟩⟩, ⟨?_, fun h => ⟨fields, hfields, h⟩⟩⟩
  · rintro ⟨fields', found, hfields', hfound, hagree⟩
    cases hfields.symm.trans hfields'
    have hsame : found = (getNum fields 1).map Int.ofNat :=
      Option.ext fun elapsedMs => (hagree elapsedMs).trans map_getNum_eq_some.symm
    rw [hfound, hsame]
  · rintro ⟨fields', hfields', hpayload⟩
    cases hfields.symm.trans hfields'
    exact hpayload

/-- Field 1 twice, as 1 and as 2. -/
theorem not_progressAgrees_twice : ¬ProgressAgrees [8, 1, 8, 2] := by
  rintro ⟨fields, found, hfields, hfound, hagree⟩
  have hlast : (1 : UInt8) &&& 128 = 0 := by decide
  have hfast : decodeProgressElapsed [8, 1, 8, 2] 4 = some (some 1) := by
    simp [decodeProgressElapsed, readVarint, readVarintFrom, hlast]
  have hbytes : encodeProtobuf [(1, .number 1), (1, .number 2)] = [8, 1, 8, 2] := by
    have htag : tagOf 1 0 = 8 := by decide
    simp [encodeProtobuf, encodeField, htag, writeVarint]
  have hgeneral : decodeProtobuf [8, 1, 8, 2] 4 = some (lastWrites [(1, .number 1), (1, .number 2)]) := by
    have hread := @decodeProtobuf_encodeProtobuf [(1, .number 1), (1, .number 2)] (by simp [Encodable])
    rwa [hbytes] at hread
  obtain ⟨n, hn, heq⟩ := (hagree 1).mp (Option.some.inj (hfound.symm.trans hfast))
  cases hfields.symm.trans hgeneral
  simp [lastWrites] at hn
  omega

end CrashCore
