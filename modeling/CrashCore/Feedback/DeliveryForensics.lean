import CrashCore.Common.Types
import Mathlib.Data.List.AList

/-! Traces of what happened to a message, and the search for lost ones (`feedback/delivery_forensics.hpp`). -/

namespace CrashCore

inductive DeliveryStage
  | published | claimed | attempted | delivered | failed | deadLettered
deriving DecidableEq, Repr

structure DeliveryTrace where
  correlationId : String := ""
  outboxId : String := ""
  lastError : String := ""
  stages : List (DeliveryStage × TimestampMs) := []

abbrev Traces := AList fun _ : String => DeliveryTrace

/-- Each trace carries its key. -/
structure DeliveryForensics where
  traces : Traces := ∅
  events : Nat := 0
  named : ∀ k t, traces.lookup k = some t → t.correlationId = k := by
    intro k t h
    simp at h

namespace DeliveryForensics

/-- The bound of `traces_`. -/
def maxTraces : Nat := 5000

/-- The trace of a key with one stage more. -/
def noted (f : DeliveryForensics) (correlationId : String) (stage : DeliveryStage) (outboxId error : String)
    (now : TimestampMs) : DeliveryTrace :=
  let t := (f.traces.lookup correlationId).getD {}
  { correlationId
    outboxId := if outboxId = "" then t.outboxId else outboxId
    lastError := if error = "" then t.lastError else error
    stages := t.stages ++ [(stage, now)] }

/-- With this key there are more traces than the bound allows. -/
def Overflows (f : DeliveryForensics) (correlationId : String) : Prop :=
  maxTraces < (correlationId :: f.traces.keys.erase correlationId).length

instance (f : DeliveryForensics) (correlationId : String) : Decidable (f.Overflows correlationId) :=
  inferInstanceAs (Decidable (_ < _))

/-- `first` is the key at `traces_.begin()`, some key or other of the unordered map. -/
def afterNote (f : DeliveryForensics) (correlationId : String) (stage : DeliveryStage) (outboxId error : String)
    (now : TimestampMs) (first : String) : Traces :=
  let traces := f.traces.insert correlationId (f.noted correlationId stage outboxId error now)
  if maxTraces < traces.keys.length then traces.erase first else traces

/-- What stands under a key after a note. -/
theorem lookup_afterNote (f : DeliveryForensics) (correlationId : String) (stage : DeliveryStage)
    (outboxId error : String) (now : TimestampMs) (first k : String) :
    (f.afterNote correlationId stage outboxId error now first).lookup k =
      if f.Overflows correlationId ∧ k = first then none
      else if k = correlationId then some (f.noted correlationId stage outboxId error now)
      else f.traces.lookup k := by
  have hinsert : (f.traces.insert correlationId (f.noted correlationId stage outboxId error now)).lookup k =
      if k = correlationId then some (f.noted correlationId stage outboxId error now) else f.traces.lookup k := by
    by_cases hk : k = correlationId
    · subst hk
      rw [if_pos rfl, AList.lookup_insert]
    · rw [if_neg hk, AList.lookup_insert_ne hk]
  unfold afterNote
  dsimp only
  rw [AList.keys_insert]
  by_cases hover : maxTraces < (correlationId :: f.traces.keys.erase correlationId).length
  · have hfull : f.Overflows correlationId := hover
    rw [if_pos hover]
    by_cases hfirst : k = first
    · rw [if_pos ⟨hfull, hfirst⟩, hfirst, AList.lookup_erase]
    · rw [if_neg fun h => hfirst h.2, AList.lookup_erase_ne hfirst, hinsert]
  · rw [if_neg hover, if_neg fun h => hover h.1, hinsert]

def note (f : DeliveryForensics) (correlationId : String) (stage : DeliveryStage) (outboxId error : String)
    (now : TimestampMs) (first : String) : DeliveryForensics where
  traces := f.afterNote correlationId stage outboxId error now first
  events := f.events + 1
  named k t h := by
    rw [lookup_afterNote] at h
    split at h
    · cases h
    · split at h <;> rename_i hk
      · cases h
        exact hk.symm
      · exact f.named k t h

/-- `first` can be at the beginning of the map when the note is made. -/
def CanBeFirst (f : DeliveryForensics) (correlationId first : String) : Prop :=
  f.Overflows correlationId → first = correlationId ∨ first ∈ f.traces

instance (f : DeliveryForensics) (correlationId first : String) : Decidable (f.CanBeFirst correlationId first) :=
  inferInstanceAs (Decidable (_ → _))

end DeliveryForensics

/-! ### The search for lost signals -/

/-- What the loop over the stages of a trace has found. -/
structure StageScan where
  published : Bool := false
  delivered : Bool := false
  pubAt : TimestampMs := 0

def StageScan.add (r : StageScan) (stage : DeliveryStage × TimestampMs) : StageScan :=
  let r := if stage.1 = .published then { r with published := true, pubAt := stage.2 } else r
  if stage.1 = .delivered then { r with delivered := true } else r

def DeliveryTrace.scan (t : DeliveryTrace) : StageScan := t.stages.foldl StageScan.add {}

namespace DeliveryForensics

def findLost (f : DeliveryForensics) (olderThanMs now : TimestampMs) : List DeliveryTrace :=
  let cutoff := now - olderThanMs
  (f.traces.entries.map (·.2)).filter fun t =>
    t.scan.published && !t.scan.delivered && decide (t.scan.pubAt > 0) && decide (t.scan.pubAt < cutoff)

/-- The trace under this key has a Delivered stage. -/
def Delivered (f : DeliveryForensics) (k : String) : Prop := ∃ t ∈ f.traces.lookup k, t.scan.delivered = true

instance (f : DeliveryForensics) (k : String) : Decidable (f.Delivered k) :=
  inferInstanceAs (Decidable (∃ t ∈ f.traces.lookup k, _))

/-- Since when the search takes the signal of this key for lost. -/
def lostSince (f : DeliveryForensics) (k : String) : Option TimestampMs :=
  (f.traces.lookup k).bind fun t =>
    if t.scan.published ∧ ¬t.scan.delivered ∧ 0 < t.scan.pubAt then some t.scan.pubAt else none

variable {f : DeliveryForensics} {k : String} {now : TimestampMs}

theorem mem_findLost (f : DeliveryForensics) (olderThanMs now : TimestampMs) (k : String) :
    k ∈ (f.findLost olderThanMs now).map (·.correlationId) ↔ ∃ since ∈ f.lostSince k, since < now - olderThanMs := by
  constructor
  · intro h
    obtain ⟨t, ht, rfl⟩ := List.mem_map.mp h
    obtain ⟨hmem, hlost⟩ := List.mem_filter.mp ht
    obtain ⟨⟨k, t⟩, hentry, rfl⟩ := List.mem_map.mp hmem
    have hlookup : f.traces.lookup k = some t := AList.mem_lookup_iff.mpr hentry
    simp only [Bool.and_eq_true, Bool.not_eq_true', decide_eq_true_eq] at hlost
    refine ⟨t.scan.pubAt, ?_, hlost.2⟩
    rw [f.named k t hlookup]
    simp [lostSince, hlookup, hlost.1.1.1, hlost.1.1.2, hlost.1.2]
  · rintro ⟨since, hsince, hlt⟩
    obtain ⟨t, hlookup, hlost⟩ := Option.bind_eq_some_iff.mp hsince
    split at hlost
    · rename_i hscan
      obtain rfl := Option.some.inj hlost
      refine List.mem_map.mpr ⟨t, List.mem_filter.mpr ⟨?_, ?_⟩, f.named k t hlookup⟩
      · exact List.mem_map.mpr ⟨⟨k, t⟩, AList.mem_lookup_iff.mp hlookup, rfl⟩
      · simp [hscan.1, hscan.2.1, hscan.2.2, hlt]
    · cases hlost

/-! ### What a note changes -/

theorem scan_noted (f : DeliveryForensics) (k : String) (stage : DeliveryStage) (outboxId error : String)
    (now : TimestampMs) :
    (f.noted k stage outboxId error now).scan = ((f.traces.lookup k).getD {}).scan.add (stage, now) := by
  simp [noted, DeliveryTrace.scan]

theorem scan_new : ({} : DeliveryTrace).scan = {} := rfl

/-- The key at the beginning of a full map is forgotten. -/
theorem lostSince_first {stage : DeliveryStage} {outboxId error first : String} (h : f.Overflows k) :
    (f.note k stage outboxId error now first).lostSince first = none := by
  simp [lostSince, note, lookup_afterNote, h]

theorem lostSince_other {stage : DeliveryStage} {outboxId error first q : String} (hk : q ≠ k)
    (hq : ¬(f.Overflows k ∧ q = first)) : (f.note k stage outboxId error now first).lostSince q = f.lostSince q := by
  simp only [lostSince, note, lookup_afterNote, if_neg hq, if_neg hk]

theorem lostSince_published {outboxId error first : String} (hpos : 0 < now) (hq : ¬(f.Overflows k ∧ k = first)) :
    (f.note k .published outboxId error now first).lostSince k = if f.Delivered k then none else some now := by
  rcases hl : f.traces.lookup k with _ | t
  · simp [lostSince, note, lookup_afterNote, hq, scan_noted, Delivered, hl, scan_new, StageScan.add, hpos]
  · cases hd : t.scan.delivered <;>
      simp [lostSince, note, lookup_afterNote, hq, scan_noted, Delivered, hl, StageScan.add, hd, hpos]

theorem lostSince_delivered {outboxId error first : String} :
    (f.note k .delivered outboxId error now first).lostSince k = none := by
  by_cases hq : f.Overflows k ∧ k = first
  · rw [hq.2]
    exact lostSince_first (hq.2 ▸ hq.1)
  · simp [lostSince, note, lookup_afterNote, hq, scan_noted, StageScan.add]

theorem lostSince_failed {outboxId error first : String} (hq : ¬(f.Overflows k ∧ k = first)) :
    (f.note k .failed outboxId error now first).lostSince k = f.lostSince k := by
  rcases hl : f.traces.lookup k with _ | t
  · simp [lostSince, note, lookup_afterNote, hq, scan_noted, hl, scan_new, StageScan.add]
  · simp [lostSince, note, lookup_afterNote, hq, scan_noted, hl, StageScan.add]

/-- When the search goes by `due` after a note: at the key of the note, at the one that is forgotten, and at all
    others as before. -/
theorem lostSince_note_iff {stage : DeliveryStage} {outboxId error first : String}
    (due : String → Option TimestampMs) :
    (∀ q, (f.note k stage outboxId error now first).lostSince q = due q) ↔
      (¬(f.Overflows k ∧ k = first) → (f.note k stage outboxId error now first).lostSince k = due k) ∧
      (f.Overflows k → due first = none) ∧ ∀ q, q ≠ k → ¬(f.Overflows k ∧ q = first) → f.lostSince q = due q := by
  constructor
  · intro h
    refine ⟨fun _ => h k, fun hover => ?_, fun q hk hq => ?_⟩
    · rw [← h first, lostSince_first hover]
    · rw [← h q, lostSince_other hk hq]
  · rintro ⟨hkey, hfirst, hother⟩ q
    by_cases hq : f.Overflows k ∧ q = first
    · rw [hq.2, lostSince_first hq.1, hfirst hq.1]
    · by_cases hk : q = k
      · subst hk
        exact hkey hq
      · rw [lostSince_other hk hq, hother q hk hq]

end DeliveryForensics
end CrashCore
