import CrashCore.Tools.ReplaySource

/-! A recording is replayed as it was written: what is loaded of a file are its leading records, up to the first that is
too long or was not written to its end, and they come out in their order. -/

namespace CrashCore

theorem toUnsigned_lt (i : Int) : toUnsigned i < 256 ^ 8 := by
  unfold toUnsigned
  omega

theorem toSigned_toUnsigned {i : Int} (hlow : -2 ^ 63 ≤ i) (hhigh : i < 2 ^ 63) : toSigned (toUnsigned i) = i := by
  unfold toSigned toUnsigned
  split <;> omega

theorem toUnsigned_toSigned {n : Nat} (h : n < 256 ^ 8) : toUnsigned (toSigned n) = n := by
  unfold toSigned toUnsigned
  split <;> omega

theorem toSigned_range {n : Nat} (h : n < 256 ^ 8) : -2 ^ 63 ≤ toSigned n ∧ toSigned n < 2 ^ 63 := by
  unfold toSigned
  split <;> omega

namespace RecordedFrame

/-- A frame whose time and length the fields of a record can hold. -/
structure Recordable (f : RecordedFrame) : Prop where
  low : -2 ^ 63 ≤ f.timestampMs
  high : f.timestampMs < 2 ^ 63
  length_lt : f.data.length < 2 ^ 32

/-- A frame that is loaded. -/
structure Valid (f : RecordedFrame) : Prop where
  low : -2 ^ 63 ≤ f.timestampMs
  high : f.timestampMs < 2 ^ 63
  length_le : f.data.length ≤ maxLength

theorem maxLength_lt : maxLength < 256 ^ 4 := by decide

theorem Valid.recordable {f : RecordedFrame} (h : f.Valid) : f.Recordable :=
  ⟨h.low, h.high, h.length_le.trans_lt maxLength_lt⟩

theorem Recordable.valid {f : RecordedFrame} (h : f.Recordable) (hle : f.data.length ≤ maxLength) : f.Valid :=
  ⟨h.low, h.high, hle⟩

@[simp] theorem length_writeFrame (f : RecordedFrame) : f.writeFrame.length = 12 + f.data.length := by
  simp only [writeFrame, List.length_append, LittleEndian.length_bytes]

theorem writeFrame_ne_nil (f : RecordedFrame) : f.writeFrame ≠ [] :=
  List.length_pos_iff.mp (by rw [length_writeFrame]; omega)

theorem exact_readFrame : Codec.Exact readFrame writeFrame Valid := by
  intro file f rest
  simp only [readFrame, Option.bind_eq_bind, Option.bind_eq_some_iff, Prod.exists, Codec.exact_number _ _ _ _]
  constructor
  · rintro ⟨ts, file, ⟨hts, rfl⟩, len, file, ⟨hlen, rfl⟩, h⟩
    split at h
    · cases h
    · rename_i hfits
      obtain ⟨hmax, hwhole⟩ := not_or.mp hfits
      obtain ⟨rfl, rfl⟩ := Prod.mk.inj (Option.some.inj h)
      have hdata : (file.take len).length = len := List.length_take_of_le (Nat.not_lt.mp hwhole)
      refine ⟨⟨(toSigned_range hts).1, (toSigned_range hts).2, hdata.le.trans (Nat.not_lt.mp hmax)⟩, ?_⟩
      rw [writeFrame, toUnsigned_toSigned hts, hdata, List.append_assoc, List.append_assoc, List.take_append_drop]
  · rintro ⟨hvalid, rfl⟩
    refine ⟨toUnsigned f.timestampMs, _, ⟨toUnsigned_lt _, ?_⟩, f.data.length, f.data ++ rest,
      ⟨hvalid.length_le.trans_lt maxLength_lt, rfl⟩, ?_⟩
    · rw [writeFrame, List.append_assoc, List.append_assoc]
    · rw [if_neg (by simp [hvalid.length_le]), toSigned_toUnsigned hvalid.low hvalid.high, List.take_left, List.drop_left]

/-- Bytes that do not start with a whole record that is loaded. -/
def NoRecord (file : List UInt8) : Prop := ∀ (f : RecordedFrame) (more : List UInt8), f.Valid → file ≠ f.writeFrame ++ more

/-- The leading records of a file, and what is behind them. -/
theorem readFrames_iff {file : List UInt8} {fs : List RecordedFrame} :
    readFrames file = fs ↔ (∀ f ∈ fs, f.Valid) ∧
      ∃ rest, file = fs.flatMap writeFrame ++ rest ∧ NoRecord rest := by
  have htoEnd {rest : List UInt8} : Codec.toEnd readFrame file.length file = (fs, rest) ↔
      (∀ f ∈ fs, f.Valid) ∧ file = fs.flatMap writeFrame ++ rest ∧ readFrame rest = none :=
    exact_readFrame.toEnd_iff writeFrame_ne_nil (Nat.le_refl file.length)
  have hend {rest : List UInt8} : readFrame rest = none ↔ NoRecord rest := by
    constructor
    · intro hnone f more hvalid heq
      rw [(exact_readFrame rest f more).mpr ⟨hvalid, heq⟩] at hnone
      cases hnone
    · intro h
      rcases hread : readFrame rest with _ | ⟨f, more⟩
      · rfl
      · obtain ⟨hvalid, heq⟩ := (exact_readFrame rest f more).mp hread
        exact absurd heq (h f more hvalid)
  constructor
  · intro h
    obtain ⟨hvalid, hfile, hnone⟩ := htoEnd.mp (Prod.ext h rfl)
    exact ⟨hvalid, _, hfile, hend.mp hnone⟩
  · rintro ⟨hvalid, rest, hfile, hnone⟩
    rw [readFrames, htoEnd.mpr ⟨hvalid, hfile, hend.mpr hnone⟩]

/-! ### Recordings that were cut off -/

/-- Two records that agree as far as both go have frames of one length. -/
theorem length_eq_of_append {f g : RecordedFrame} {rest more tail : List UInt8} (hf : f.Recordable) (hg : g.Recordable)
    (h : g.writeFrame ++ rest ++ tail = f.writeFrame ++ more) : g.data.length = f.data.length := by
  simp only [writeFrame, List.append_assoc] at h
  obtain ⟨-, h⟩ := List.append_inj h (by simp)
  obtain ⟨h, -⟩ := List.append_inj h (by simp)
  have hvalue := congrArg LittleEndian.value h
  rwa [LittleEndian.value_bytes hg.length_lt, LittleEndian.value_bytes hf.length_lt] at hvalue

/-- Nothing is read of a record that is too long or was not written to its end. -/
theorem noRecord_of_cut {f : RecordedFrame} {more : List UInt8} {k : Nat} (hf : f.Recordable)
    (hcut : maxLength < f.data.length ∨ k < f.writeFrame.length) : NoRecord ((f.writeFrame ++ more).take k) := by
  intro g rest hg h
  have hsplit := List.take_append_drop k (f.writeFrame ++ more)
  rw [h] at hsplit
  have hlength := length_eq_of_append hf hg.recordable hsplit
  rcases hcut with hlong | hshort
  · exact absurd hg.length_le (by omega)
  · have hle := congrArg List.length h
    simp only [List.length_take, List.length_append, length_writeFrame] at hle hshort
    omega

theorem readFrames_take {fs : List RecordedFrame} (hfs : ∀ f ∈ fs, f.Recordable) (k : Nat) :
    readFrames ((fs.flatMap writeFrame).take k) =
      Framing.whole writeFrame (fs.takeWhile (·.data.length ≤ maxLength)) k := by
  rw [readFrames_iff]
  induction fs generalizing k with
  | nil => exact ⟨by simp, [], by simp, fun f more _ h => writeFrame_ne_nil f (List.append_eq_nil_iff.mp h.symm).1⟩
  | cons f fs ih =>
    have hf : f.Recordable := hfs f List.mem_cons_self
    by_cases hlong : maxLength < f.data.length
    · rw [List.takeWhile_cons_of_neg (by simpa using hlong), Framing.whole_nil]
      refine ⟨by simp, _, rfl, ?_⟩
      rw [List.flatMap_cons]
      exact noRecord_of_cut hf (.inl hlong)
    · have hle : f.data.length ≤ maxLength := Nat.not_lt.mp hlong
      rw [List.takeWhile_cons_of_pos (by simpa using hle)]
      by_cases hk : f.writeFrame.length ≤ k
      · obtain ⟨hvalid, rest, hrest, hnone⟩ := ih (fun g hg => hfs g (List.mem_cons_of_mem f hg)) (k - f.writeFrame.length)
        rw [Framing.whole_cons_of_le hk]
        refine ⟨List.forall_mem_cons.mpr ⟨hf.valid hle, hvalid⟩, rest, ?_, hnone⟩
        rw [Framing.take_of_le hk, hrest, List.flatMap_cons, List.append_assoc]
      · rw [Framing.whole_cons_of_lt (Nat.not_le.mp hk)]
        refine ⟨by simp, _, rfl, ?_⟩
        rw [List.flatMap_cons]
        exact noRecord_of_cut hf (.inr (Nat.not_le.mp hk))

end RecordedFrame

/-! ### Replays -/

namespace ReplaySource
open RecordedFrame

theorem replay_eq (fuel : Nat) (s : ReplaySource) :
    s.replay fuel = ((s.frames.drop s.cursor).take fuel,
      { s with cursor := s.cursor + ((s.frames.drop s.cursor).take fuel).length }) := by
  induction fuel generalizing s with
  | zero => simp [replay]
  | succ fuel ih =>
    rcases hget : s.frames[s.cursor]? with _ | f
    · have hdrop : s.frames.drop s.cursor = [] := List.drop_eq_nil_of_le (List.getElem?_eq_none_iff.mp hget)
      simp [replay, next, hget, hdrop]
    · obtain ⟨hlt, hf⟩ := List.getElem?_eq_some_iff.mp hget
      have hdrop : s.frames.drop s.cursor = f :: s.frames.drop (s.cursor + 1) := by
        rw [List.drop_eq_getElem_cons hlt, hf]
      simp only [replay, next, hget, hdrop, ih, List.take_succ_cons, List.length_cons]
      congr 2
      omega

theorem frames_load {s : ReplaySource} {file : List UInt8} (hfile : s.file = some file) :
    s.load.2.frames = readFrames file := by
  simp [load, hfile]

/-- What is loaded of a file is the longest chain of whole records that it starts with; the load succeeds when it starts
    with one. -/
theorem load_iff {s : ReplaySource} {file : List UInt8} (hfile : s.file = some file) :
    (∀ fs, s.load.2.frames = fs ↔
      (∀ f ∈ fs, f.Valid) ∧ ∃ rest, file = fs.flatMap writeFrame ++ rest ∧ NoRecord rest) ∧
    (s.load.1 = true ↔ ¬NoRecord file) := by
  refine ⟨fun fs => ?_, ?_⟩
  · rw [frames_load hfile]
    exact readFrames_iff
  · have hempty : readFrames file = [] ↔ NoRecord file := by
      rw [readFrames_iff]
      simp
    simp [load, hfile, ← hempty]

/-- A recording that ends anywhere is replayed by its whole records, in the order in which they were written, up to the
    first that is longer than is loaded; and in the same way again after a `reset`. -/
theorem replay_cut {s : ReplaySource} {fs : List RecordedFrame} (hfs : ∀ f ∈ fs, f.Recordable) {k fuel : Nat}
    (hfile : s.file = some ((fs.flatMap writeFrame).take k)) (hfuel : fs.length ≤ fuel) :
    let (played, after) := s.load.2.replay fuel
    played = Framing.whole writeFrame (fs.takeWhile (·.data.length ≤ maxLength)) k ∧ after.remaining = 0 ∧
      after.next.1 = none ∧ (after.reset.replay fuel).1 = played := by
  have hframes : s.load.2.frames = Framing.whole writeFrame (fs.takeWhile (·.data.length ≤ maxLength)) k := by
    rw [frames_load hfile, readFrames_take hfs]
  have hcursor : s.load.2.cursor = 0 := by simp [load, hfile]
  have hall : s.load.2.frames.length ≤ fuel := by
    rw [hframes]
    exact (Framing.isPrefix_whole _ k).length_le.trans ((List.takeWhile_prefix _).length_le.trans hfuel)
  simp only [replay_eq, hcursor, List.drop_zero, List.take_of_length_le hall, Nat.zero_add, reset]
  exact ⟨hframes, by simp [remaining], by simp [next], trivial⟩

/-- Two recorded frames, of which the second is not written to its end. -/
def twoFrames : List RecordedFrame := [{ timestampMs := 5, data := [1, 2] }, { timestampMs := -1, data := [3] }]

def cutFile : ReplaySource := { file := some ((twoFrames.flatMap writeFrame).take 26) }

theorem load_iff_cut : ∃ rest, (twoFrames.flatMap writeFrame).take 26 =
    [({ timestampMs := 5, data := [1, 2] } : RecordedFrame)].flatMap writeFrame ++ rest ∧ NoRecord rest :=
  (((load_iff (s := cutFile) rfl).1 _).mp (by decide)).2

theorem replay_cut_two : (cutFile.load.2.replay 2).1 = [{ timestampMs := 5, data := [1, 2] }] := by
  have hrecordable : ∀ f ∈ twoFrames, f.Recordable := by
    intro f hf
    simp only [twoFrames, List.mem_cons, List.not_mem_nil, or_false] at hf
    rcases hf with rfl | rfl <;> exact ⟨by decide, by decide, by decide⟩
  have hcut := replay_cut (s := cutFile) hrecordable rfl (Nat.le_refl 2)
  exact hcut.1.trans (by decide)

end ReplaySource
end CrashCore
