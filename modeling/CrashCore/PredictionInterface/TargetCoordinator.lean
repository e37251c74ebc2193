import CrashCore.Common.Types
import CrashCore.Library.Run
import CrashCore.Library.Table

/-! Which rounds are targets of a prediction (`prediction_interface/target_coordinator.hpp`). -/

namespace CrashCore

inductive TargetState
  | available | claimed | predicted | resolved | expired
deriving DecidableEq, Repr

structure TargetRecord where
  roundId : RoundId
  state : TargetState := .available
  availableAtMs : TimestampMs := 0
  claimedAtMs : TimestampMs := 0
  resolvedAtMs : TimestampMs := 0
  predictionId : PredictionId := ""
deriving DecidableEq, Repr

structure TargetCoordinator where
  targets : Table TargetRecord.roundId := {}
  claims : Nat := 0
  resolved : Nat := 0
  releases : Nat := 0

namespace TargetCoordinator

/-- The record of the round is changed in place; the others stay. -/
def modify (t : TargetCoordinator) (id : RoundId) (f : TargetRecord → TargetRecord) : TargetCoordinator :=
  { t with
    targets := t.targets.update (fun r => if r.roundId = id then { f r with roundId := id } else r) fun r => by
      split
      · rename_i h
        exact h.symm
      · rfl }

def noteRoundStart (t : TargetCoordinator) (id : RoundId) (now : TimestampMs) : TargetCoordinator :=
  ({ t with targets := t.targets.insertIfAbsent { roundId := id } }).modify id fun r =>
    { r with state := .available, availableAtMs := now }

def claim (t : TargetCoordinator) (id : RoundId) (predictionId : PredictionId) (now : TimestampMs) :
    TargetCoordinator × Bool :=
  match t.targets.find? id with
  | none =>
    let r : TargetRecord := { roundId := id, state := .claimed, claimedAtMs := now, predictionId }
    ({ t with targets := t.targets.insertIfAbsent r, claims := t.claims + 1 }, true)
  | some r =>
    if r.state ≠ .available then (t, false)
    else
      let t := t.modify id fun r => { r with state := .claimed, claimedAtMs := now, predictionId }
      ({ t with claims := t.claims + 1 }, true)

def markPredicted (t : TargetCoordinator) (id : RoundId) : TargetCoordinator :=
  t.modify id fun r => { r with state := .predicted }

/-- Rolls a failed claim back so that the target can be retried. -/
def release (t : TargetCoordinator) (id : RoundId) : TargetCoordinator × Bool :=
  match t.targets.find? id with
  | none => (t, false)
  | some r =>
    if r.state = .claimed ∨ r.state = .predicted then
      let t := t.modify id fun r => { r with state := .available, predictionId := "", claimedAtMs := 0 }
      ({ t with releases := t.releases + 1 }, true)
    else (t, false)

def markResolved (t : TargetCoordinator) (id : RoundId) (now : TimestampMs) : TargetCoordinator :=
  if t.targets.Has id then
    let t := t.modify id fun r => { r with state := .resolved, resolvedAtMs := now }
    { t with resolved := t.resolved + 1 }
  else t

/-- The round was announced long ago, and nobody has claimed it. -/
def Stale (ageMs : Int) (now : TimestampMs) (r : TargetRecord) : Prop :=
  r.state = .available ∧ 0 < r.availableAtMs ∧ ageMs < now - r.availableAtMs

instance (ageMs : Int) (now : TimestampMs) : DecidablePred (Stale ageMs now) :=
  fun _ => inferInstanceAs (Decidable (_ ∧ _ ∧ _))

/-- Also the number of expired records. The counter `expired_` that it is added to is never read. -/
def expireOlderThan (t : TargetCoordinator) (ageMs : Int) (now : TimestampMs) : TargetCoordinator × Nat :=
  ({ t with
      targets := t.targets.update (fun r => if Stale ageMs now r then { r with state := .expired } else r) fun r => by
        split <;> rfl },
    (t.targets.rows.filter (Stale ageMs now)).length)

def get (t : TargetCoordinator) (id : RoundId) : Option TargetRecord := t.targets.find? id

/-- The prediction that holds the claim of the round. -/
def owner (t : TargetCoordinator) (id : RoundId) : Option PredictionId :=
  match t.get id with
  | some r => if r.state = .claimed ∨ r.state = .predicted then some r.predictionId else none
  | none => none

/-- A claim of the round would succeed. -/
def Free (t : TargetCoordinator) (id : RoundId) : Prop := ∀ r ∈ t.get id, r.state = .available

instance (t : TargetCoordinator) (id : RoundId) : Decidable (t.Free id) :=
  inferInstanceAs (Decidable (∀ r ∈ t.get id, r.state = .available))

/-- The record of the round after `claim` and `markPredicted`; a claim that fails leaves the old owner. -/
def predicted (id : RoundId) (predictionId : PredictionId) (now : TimestampMs) : Option TargetRecord → TargetRecord
  | none => { roundId := id, state := .predicted, claimedAtMs := now, predictionId }
  | some r =>
    if r.state = .available then { r with state := .predicted, claimedAtMs := now, predictionId }
    else { r with state := .predicted }

section
variable {t : TargetCoordinator} {id id' : RoundId} {predictionId : PredictionId} {now : TimestampMs} {r : TargetRecord}

theorem get_roundId (h : t.get id = some r) : r.roundId = id := (Table.find?_eq_some.mp h).2

theorem get_modify (f : TargetRecord → TargetRecord) (id' : RoundId) :
    (t.modify id f).get id' = (t.get id').map fun r => if r.roundId = id then { f r with roundId := id } else r := by
  simp only [get, modify, Table.find?_update]

theorem get_modify_self (f : TargetRecord → TargetRecord) :
    (t.modify id f).get id = (t.get id).map fun r => { f r with roundId := id } := by
  rw [get_modify]
  rcases h : t.get id with _ | r
  · rfl
  · rw [Option.map_some, Option.map_some, if_pos (get_roundId h)]

theorem get_modify_ne (f : TargetRecord → TargetRecord) (h : id' ≠ id) : (t.modify id f).get id' = t.get id' := by
  rw [get_modify]
  rcases hr : t.get id' with _ | r
  · rfl
  · rw [Option.map_some, if_neg (by rw [get_roundId hr]; exact h)]

theorem get_claim : (t.claim id predictionId now).1.get id = some (match t.get id with
    | none => { roundId := id, state := .claimed, claimedAtMs := now, predictionId }
    | some r => if r.state = .available then { r with state := .claimed, claimedAtMs := now, predictionId } else r) := by
  unfold claim
  rcases h : t.targets.find? id with _ | r
  · have hadd := Table.find?_insertIfAbsent t.targets
      { roundId := id, state := .claimed, claimedAtMs := now, predictionId }
    rw [h] at hadd
    rw [show t.get id = none from h]
    exact hadd
  · have hget : t.get id = some r := h
    by_cases hs : r.state = .available
    · have hmod : (t.modify id _).get id = _ :=
        get_modify_self fun r => { r with state := .claimed, claimedAtMs := now, predictionId }
      rw [hget, Option.map_some, ← get_roundId hget] at hmod
      simpa [get, h, hs, get_roundId hget] using hmod
    · simp [hget, hs]

theorem get_claim_ne (h : id' ≠ id) : (t.claim id predictionId now).1.get id' = t.get id' := by
  unfold claim
  split
  · exact Table.find?_insertIfAbsent_ne h.symm
  · dsimp only
    split
    · rfl
    · exact get_modify_ne _ h

theorem get_predicted : ((t.claim id predictionId now).1.markPredicted id).get id =
    some (predicted id predictionId now (t.get id)) := by
  rw [markPredicted, get_modify_self, get_claim, Option.map_some]
  rcases h : t.get id with _ | r
  · rfl
  · have hid := get_roundId h
    by_cases hs : r.state = .available <;> simp [predicted, hs, ← hid]

theorem get_predicted_ne (h : id' ≠ id) : ((t.claim id predictionId now).1.markPredicted id).get id' = t.get id' := by
  rw [markPredicted, get_modify_ne _ h, get_claim_ne h]

theorem get_noteRoundStart : (t.noteRoundStart id now).get id =
    some { (t.get id).getD { roundId := id } with state := .available, availableAtMs := now, roundId := id } := by
  have hadd : ({ t with targets := t.targets.insertIfAbsent { roundId := id } } : TargetCoordinator).get id =
      some ((t.get id).getD { roundId := id }) := Table.find?_insertIfAbsent t.targets { roundId := id }
  rw [noteRoundStart, get_modify_self, hadd, Option.map_some]

theorem get_noteRoundStart_ne (h : id' ≠ id) : (t.noteRoundStart id now).get id' = t.get id' := by
  rw [noteRoundStart, get_modify_ne _ h]
  exact Table.find?_insertIfAbsent_ne h.symm

theorem get_expireOlderThan (ageMs : Int) : (t.expireOlderThan ageMs now).1.get id =
    (t.get id).map fun r => if Stale ageMs now r then { r with state := .expired } else r := by
  simp only [get, expireOlderThan, Table.find?_update]

theorem free_iff (h : t.get id = some r) : t.Free id ↔ r.state = .available := by
  simp only [Free, h, Option.mem_def, Option.some.injEq, forall_eq']

theorem free_of_none (h : t.get id = none) : t.Free id := fun r hr => by
  rw [h] at hr
  cases hr

theorem claim_eq_true : (t.claim id predictionId now).2 = true ↔ t.Free id := by
  unfold claim
  rcases h : t.targets.find? id with _ | r
  · exact iff_of_true rfl (free_of_none h)
  · rw [free_iff h]
    by_cases hs : r.state = .available <;> simp [hs]

/-- A prediction that is not published leaves the round available, whoever had claimed it. -/
theorem get_release (h : t.get id = some r) (hs : r.state = .claimed ∨ r.state = .predicted) :
    (t.release id).1.get id = some { r with state := .available, predictionId := "", claimedAtMs := 0 } := by
  have hmod : (t.modify id _).get id = _ := get_modify_self fun r =>
    { r with state := .available, predictionId := "", claimedAtMs := 0 }
  rw [h, Option.map_some, ← get_roundId h] at hmod
  have hfind : t.targets.find? id = some r := h
  simpa only [release, hfind, hs, ↓reduceIte, get_roundId h, get] using hmod

theorem get_release_ne (h : id' ≠ id) : (t.release id).1.get id' = t.get id' := by
  unfold release
  split
  · rfl
  · dsimp only
    split
    · exact get_modify_ne _ h
    · rfl

end

end TargetCoordinator

/-! ### Calls

Calls of a target coordinator in any order (`prediction_interface/target_coordinator.hpp`). -/

namespace TargetCalls

/-- What the calls that took effect have done to a round. -/
inductive Note
  | claimed (id : RoundId) | released (id : RoundId) | resolved (id : RoundId)
deriving DecidableEq, Repr

structure State where
  coordinator : TargetCoordinator := {}
  /-- Bookkeeping: the notes on all calls, the newest first. -/
  notes : List Note := []

/-- The calls, with the time that they read from the clock. -/
inductive Act
  | noteRoundStart (id : RoundId) (now : TimestampMs)
  | claim (id : RoundId) (predictionId : PredictionId) (now : TimestampMs)
  | markPredicted (id : RoundId)
  | release (id : RoundId)
  | markResolved (id : RoundId) (now : TimestampMs)
  | expireOlderThan (ageMs : Int) (now : TimestampMs)

def step (s : State) : Act → Option State
  | .noteRoundStart id now => some { s with coordinator := s.coordinator.noteRoundStart id now }
  | .claim id predictionId now =>
    let result := s.coordinator.claim id predictionId now
    some { coordinator := result.1, notes := if result.2 then .claimed id :: s.notes else s.notes }
  | .markPredicted id => some { s with coordinator := s.coordinator.markPredicted id }
  | .release id =>
    let result := s.coordinator.release id
    some { coordinator := result.1, notes := if result.2 then .released id :: s.notes else s.notes }
  | .markResolved id now =>
    some {
      coordinator := s.coordinator.markResolved id now
      notes := if s.coordinator.targets.Has id then .resolved id :: s.notes else s.notes }
  | .expireOlderThan ageMs now => some { s with coordinator := (s.coordinator.expireOlderThan ageMs now).1 }

/-- The last note on the round that is a claim or a release is a claim. -/
def Held (id : RoundId) : List Note → Prop
  | [] => False
  | .claimed r :: notes => r = id ∨ Held id notes
  | .released r :: notes => r ≠ id ∧ Held id notes
  | .resolved _ :: notes => Held id notes

instance Held.decidable (id : RoundId) : ∀ notes, Decidable (Held id notes)
  | [] => inferInstanceAs (Decidable False)
  | .claimed r :: notes =>
    have := Held.decidable id notes
    inferInstanceAs (Decidable (r = id ∨ Held id notes))
  | .released r :: notes =>
    have := Held.decidable id notes
    inferInstanceAs (Decidable (r ≠ id ∧ Held id notes))
  | .resolved _ :: notes => Held.decidable id notes

/-- The call does not make available what is claimed or resolved: it is no start of such a round, and no release of a
    resolved round that has been marked as predicted since. -/
def KeepsOwner (s : State) : Act → Prop
  | .noteRoundStart id _ => ¬Held id s.notes ∧ .resolved id ∉ s.notes
  | .release id => (s.coordinator.owner id).isSome → .resolved id ∉ s.notes
  | _ => True

instance (s : State) (a : Act) : Decidable (KeepsOwner s a) := by
  unfold KeepsOwner
  split <;> infer_instance

end TargetCalls
end CrashCore
