import CrashCore.Common.Types
import Mathlib.Data.List.Sort
import Mathlib.Logic.Function.Basic

/-! The outstanding predictions by target round (`validation/prediction_registry.hpp`). The vector of a round in
`by_round_` is the part of `entries` with that target, in the same order. -/

namespace CrashCore

structure PredictionRegistry where
  maxEntries : Nat := 10000
  entries : List PredictionEvent := []
  byId : PredictionId → Option RoundId := fun _ => none
  registered : Nat := 0
  duplicates : Nat := 0
  pruned : Nat := 0

namespace PredictionRegistry

/-- The order of `ages` in `pruneIfNeeded`. -/
def Older (a b : TimestampMs × PredictionId) : Prop := a.1 < b.1 ∨ (a.1 = b.1 ∧ a.2 ≤ b.2)

instance : DecidableRel Older := fun _ _ => inferInstanceAs (Decidable (_ ∨ _))

/-- One turn of the loop in `pruneIfNeeded`: an id that the index does not have is passed over. -/
def drop (r : PredictionRegistry) (predictionId : PredictionId) : PredictionRegistry :=
  match r.byId predictionId with
  | none => r
  | some roundId =>
    { r with
      byId := Function.update r.byId predictionId none
      entries := r.entries.filter fun e => ¬(e.targetRoundId = roundId ∧ e.predictionId = predictionId)
      pruned := r.pruned + 1 }

/-- The entries that `drop` erases. -/
def dropped (r : PredictionRegistry) (predictionId : PredictionId) : List PredictionEvent :=
  match r.byId predictionId with
  | none => []
  | some roundId => r.entries.filter fun e => e.targetRoundId = roundId ∧ e.predictionId = predictionId

def pruneIfNeeded (r : PredictionRegistry) : PredictionRegistry :=
  let total := r.entries.length
  if total ≤ r.maxEntries then r
  else
    let ages := (r.entries.map fun e => (e.createdAtMs, e.predictionId)).insertionSort Older
    ((ages.take (total - r.maxEntries)).map (·.2)).foldl drop r

/-- The prediction is registered for its target round. -/
def Lists (r : PredictionRegistry) (ev : PredictionEvent) : Prop :=
  ∃ e ∈ r.entries, e.targetRoundId = ev.targetRoundId ∧ e.predictionId = ev.predictionId

instance (r : PredictionRegistry) (ev : PredictionEvent) : Decidable (r.Lists ev) :=
  inferInstanceAs (Decidable (∃ e ∈ r.entries, _))

def registerPrediction (r : PredictionRegistry) (ev : PredictionEvent) : PredictionRegistry × Except Error Unit :=
  if ev.targetRoundId = "" then (r, .error ⟨.invalidArgument, "empty targetRoundId"⟩)
  else if r.Lists ev then
    ({ r with duplicates := r.duplicates + 1 }, .error ⟨.duplicate, "prediction already registered"⟩)
  else
    (({ r with
        entries := r.entries ++ [ev]
        byId := Function.update r.byId ev.predictionId (some ev.targetRoundId)
        registered := r.registered + 1 } : PredictionRegistry).pruneIfNeeded, .ok ())

def takeForRound (r : PredictionRegistry) (roundId : RoundId) : List PredictionEvent × PredictionRegistry :=
  let taken := r.entries.filter (·.targetRoundId = roundId)
  (taken, { r with
    entries := r.entries.filter (¬·.targetRoundId = roundId)
    byId := fun id => if ∃ e ∈ taken, e.predictionId = id then none else r.byId id })

def find (r : PredictionRegistry) (id : PredictionId) : Option PredictionEvent :=
  match r.byId id with
  | none => none
  | some roundId => (r.entries.filter (·.targetRoundId = roundId)).find? (·.predictionId = id)

/-- The entries that `expireStale` removes; it returns their number. -/
def stale (r : PredictionRegistry) (maxAgeMs : Int) (now : TimestampMs) : List PredictionEvent :=
  r.entries.filter (maxAgeMs < now - ·.createdAtMs)

def expireStale (r : PredictionRegistry) (maxAgeMs : Int) (now : TimestampMs) : PredictionRegistry :=
  let stale := r.entries.filter (maxAgeMs < now - ·.createdAtMs)
  { r with
    entries := r.entries.filter (¬maxAgeMs < now - ·.createdAtMs)
    byId := fun id => if ∃ e ∈ stale, e.predictionId = id then none else r.byId id }

/-- `registerPrediction` would accept the prediction. -/
def Accepts (r : PredictionRegistry) (ev : PredictionEvent) : Prop := ev.targetRoundId ≠ "" ∧ ¬r.Lists ev

instance (r : PredictionRegistry) (ev : PredictionEvent) : Decidable (r.Accepts ev) :=
  inferInstanceAs (Decidable (_ ∧ _))

theorem registerPrediction_cases (r : PredictionRegistry) (ev : PredictionEvent) :
    (r.Accepts ev ∧ (r.registerPrediction ev).2 = .ok ()) ∨
      (¬r.Accepts ev ∧ ∃ e, (r.registerPrediction ev).2 = .error e) := by
  unfold registerPrediction
  by_cases hempty : ev.targetRoundId = ""
  · rw [if_pos hempty]
    exact Or.inr ⟨fun h => h.1 hempty, _, rfl⟩
  by_cases hlists : r.Lists ev
  · rw [if_neg hempty, if_pos hlists]
    exact Or.inr ⟨fun h => h.2 hlists, _, rfl⟩
  · rw [if_neg hempty, if_neg hlists]
    exact Or.inl ⟨⟨hempty, hlists⟩, rfl⟩

/-! ### The entries -/

theorem drop_entries (r : PredictionRegistry) (id : PredictionId) : (r.drop id).entries.Sublist r.entries := by
  unfold drop
  split
  · exact List.Sublist.refl _
  · exact List.filter_sublist

theorem pruneIfNeeded_entries (r : PredictionRegistry) : r.pruneIfNeeded.entries.Sublist r.entries := by
  have hfold : ∀ (ids : List PredictionId) (r : PredictionRegistry), (ids.foldl drop r).entries.Sublist r.entries := by
    intro ids
    induction ids with
    | nil => exact fun r => List.Sublist.refl _
    | cons id ids ih => exact fun r => (ih (r.drop id)).trans (r.drop_entries id)
  simp only [pruneIfNeeded]
  split
  · exact List.Sublist.refl _
  · exact hfold _ r

/-- A registration adds its prediction or nothing. -/
theorem registerPrediction_entries (r : PredictionRegistry) (ev : PredictionEvent) :
    ((r.registerPrediction ev).2 = .ok () ∧ (r.registerPrediction ev).1.entries.Sublist (r.entries ++ [ev])) ∨
      ((r.registerPrediction ev).2 ≠ .ok () ∧ (r.registerPrediction ev).1.entries = r.entries) := by
  unfold registerPrediction
  by_cases hempty : ev.targetRoundId = ""
  · rw [if_pos hempty]
    exact Or.inr ⟨by simp, rfl⟩
  by_cases hlists : r.Lists ev
  · rw [if_neg hempty, if_pos hlists]
    exact Or.inr ⟨by simp, rfl⟩
  · rw [if_neg hempty, if_neg hlists]
    exact Or.inl ⟨rfl, pruneIfNeeded_entries _⟩

theorem takeForRound_perm (r : PredictionRegistry) (roundId : RoundId) :
    ((r.takeForRound roundId).1 ++ (r.takeForRound roundId).2.entries).Perm r.entries := by
  simpa [takeForRound] using List.filter_append_perm (fun e => decide (e.targetRoundId = roundId)) r.entries

theorem mem_takeForRound {r : PredictionRegistry} {roundId : RoundId} {ev : PredictionEvent}
    (h : ev ∈ (r.takeForRound roundId).1) : ev.targetRoundId = roundId := by
  simpa using (List.mem_filter.mp h).2

theorem expireStale_entries (r : PredictionRegistry) (maxAgeMs : Int) (now : TimestampMs) :
    (r.expireStale maxAgeMs now).entries.Sublist r.entries := List.filter_sublist

/-- The entries that have `p` are removed, and their ids leave the index. -/
structure Removes (r : PredictionRegistry) (p : PredictionEvent → Prop) [DecidablePred p] (r' : PredictionRegistry) :
    Prop where
  entries : r'.entries = r.entries.filter (¬p ·)
  index : ∀ id, r'.byId id = if ∃ e ∈ r.entries.filter (p ·), e.predictionId = id then none else r.byId id

theorem takeForRound_removes (r : PredictionRegistry) (roundId : RoundId) :
    r.Removes (·.targetRoundId = roundId) (r.takeForRound roundId).2 := ⟨rfl, fun _ => rfl⟩

theorem expireStale_removes (r : PredictionRegistry) (maxAgeMs : Int) (now : TimestampMs) :
    r.Removes (maxAgeMs < now - ·.createdAtMs) (r.expireStale maxAgeMs now) := ⟨rfl, fun _ => rfl⟩

/-! ### What a registration drops -/

/-- `registerPrediction` before it prunes. -/
def add (r : PredictionRegistry) (ev : PredictionEvent) : PredictionRegistry :=
  { r with
    entries := r.entries ++ [ev]
    byId := Function.update r.byId ev.predictionId (some ev.targetRoundId)
    registered := r.registered + 1 }

/-- The ids that `pruneIfNeeded` drops. -/
def surplus (r : PredictionRegistry) : List PredictionId :=
  (((r.entries.map fun e => (e.createdAtMs, e.predictionId)).insertionSort Older).take
    (r.entries.length - r.maxEntries)).map (·.2)

/-- The entries that are erased while the ids are dropped. -/
def droppedBy (r : PredictionRegistry) : List PredictionId → List PredictionEvent
  | [] => []
  | id :: ids => r.dropped id ++ (r.drop id).droppedBy ids

/-- The registry is full, and the new prediction is the oldest: it is dropped at once, and with it nothing else. -/
def Forgets (r : PredictionRegistry) (ev : PredictionEvent) : Prop :=
  ev.predictionId ∈ (r.add ev).surplus ∧ ∀ id ∈ (r.add ev).surplus, r.byId id = none

instance (r : PredictionRegistry) (ev : PredictionEvent) : Decidable (r.Forgets ev) :=
  inferInstanceAs (Decidable (_ ∧ ∀ id ∈ (r.add ev).surplus, r.byId id = none))

variable {r : PredictionRegistry} {ev : PredictionEvent}

theorem pruneIfNeeded_eq (r : PredictionRegistry) : r.pruneIfNeeded = r.surplus.foldl drop r := by
  unfold pruneIfNeeded surplus
  dsimp only
  split
  · rename_i hle
    rw [Nat.sub_eq_zero_of_le hle, List.take_zero]
    rfl
  · rfl

theorem registerPrediction_of_accepts (h : r.Accepts ev) :
    r.registerPrediction ev = ((r.add ev).surplus.foldl drop (r.add ev), .ok ()) := by
  rw [← pruneIfNeeded_eq, registerPrediction, if_neg h.1, if_neg h.2]
  rfl

theorem registerPrediction_of_not_accepts (h : ¬r.Accepts ev) :
    ∃ duplicates e, r.registerPrediction ev = ({ r with duplicates }, .error e) := by
  unfold registerPrediction
  by_cases hempty : ev.targetRoundId = ""
  · rw [if_pos hempty]
    exact ⟨r.duplicates, _, rfl⟩
  · have hlists : r.Lists ev := by
      by_contra hlists
      exact h ⟨hempty, hlists⟩
    rw [if_neg hempty, if_pos hlists]
    exact ⟨r.duplicates + 1, _, rfl⟩

/-- What the index points to is dropped, and the ids leave the index. -/
theorem foldl_drop (ids : List PredictionId) (r : PredictionRegistry) :
    (ids.foldl drop r).byId = (fun id => if id ∈ ids then none else r.byId id) ∧
    (ids.foldl drop r).entries = r.entries.filter fun e =>
      ¬(e.predictionId ∈ ids ∧ r.byId e.predictionId = some e.targetRoundId) := by
  induction ids generalizing r with
  | nil => simp
  | cons id ids ih =>
    obtain ⟨hindex, hentries⟩ := ih (r.drop id)
    rw [List.foldl_cons, hindex, hentries]
    rcases hid : r.byId id with _ | roundId
    · rw [show r.drop id = r by simp [drop, hid]]
      constructor
      · funext id'
        by_cases h : id' = id <;> simp [h, hid]
      · refine List.filter_congr fun e _ => ?_
        by_cases h : e.predictionId = id <;> simp [h, hid]
    · have hdrop : r.drop id = { r with
          byId := Function.update r.byId id none
          entries := r.entries.filter fun e => ¬(e.targetRoundId = roundId ∧ e.predictionId = id)
          pruned := r.pruned + 1 } := by simp [drop, hid]
      rw [hdrop]
      constructor
      · funext id'
        by_cases h : id' = id <;> simp [h]
      · rw [List.filter_filter]
        refine List.filter_congr fun e _ => ?_
        by_cases h : e.predictionId = id <;> simp [h, hid, eq_comm]

/-- A registration leaves no trace in the entries and the index exactly if the prediction is forgotten. -/
theorem registerPrediction_eq_iff (h : r.Accepts ev) :
    ((r.registerPrediction ev).1.entries = r.entries ∧ (r.registerPrediction ev).1.byId = r.byId) ↔ r.Forgets ev := by
  rw [registerPrediction_of_accepts h]
  obtain ⟨hindex, hentries⟩ := foldl_drop (r.add ev).surplus (r.add ev)
  dsimp only
  rw [hindex, hentries]
  have hindexed : (r.add ev).byId ev.predictionId = some ev.targetRoundId := Function.update_self ..
  have hother : ∀ id, id ≠ ev.predictionId → (r.add ev).byId id = r.byId id := fun id hid => Function.update_of_ne hid ..
  constructor
  · rintro ⟨hsame, hnone⟩
    refine ⟨?_, fun id hid => ?_⟩
    · by_contra hkept
      -- The entry would stay, but it was not there.
      have hev : ev ∈ r.entries := by
        rw [← hsame]
        exact List.mem_filter.mpr ⟨List.mem_append_right _ (List.mem_singleton_self ev), by simp [hkept]⟩
      exact h.2 ⟨ev, hev, rfl, rfl⟩
    · rw [← hnone]
      exact if_pos hid
  · rintro ⟨hev, hnone⟩
    constructor
    · rw [show (r.add ev).entries = r.entries ++ [ev] from rfl, List.filter_append]
      have hold : r.entries.filter (fun e => decide ¬(e.predictionId ∈ (r.add ev).surplus ∧
          (r.add ev).byId e.predictionId = some e.targetRoundId)) = r.entries := by
        refine List.filter_eq_self.mpr fun e he => decide_eq_true ?_
        rintro ⟨hdropped, hat⟩
        by_cases hid : e.predictionId = ev.predictionId
        · rw [hid, hindexed] at hat
          exact h.2 ⟨e, he, (Option.some.inj hat).symm, hid⟩
        · rw [hother _ hid, hnone _ hdropped] at hat
          cases hat
      rw [hold]
      simp [hev, hindexed]
    · funext id
      by_cases hid : id ∈ (r.add ev).surplus
      · rw [if_pos hid, hnone id hid]
      · rw [if_neg hid]
        exact hother id fun heq => hid (heq ▸ hev)

end PredictionRegistry
end CrashCore
