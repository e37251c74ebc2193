import CrashCore.Common.Types
import CrashCore.Library.Connection
import CrashCore.Library.Firsts
import CrashCore.Library.Table
import Mathlib.Data.List.Fold
import Mathlib.Data.List.MinMax
import Mathlib.Data.List.TakeWhile

/-! The tables behind predictions, target claims, notifications and outcomes (`migrations/0004`, `0005`,
`0006`, `0027`, `0050`) and the statements that insert into them. -/

namespace CrashCore

/-- What `std::to_string` keeps of a `double`. -/
def sixDecimals (d : Double) : Double := (d * 1000000).roundTiesToEven / 1000000

/-- The characters of `s.c_str()`. -/
def cString (s : String) : List Char := s.toList.takeWhile (· ≠ '\x00')

/-- A parameter of `executeParams` as the server gets it: it ends at the first NUL. -/
def asParam (s : String) : String := String.ofList (cString s)

def NulFree (s : String) : Prop := '\x00' ∉ s.toList

instance : DecidablePred NulFree := fun _ => inferInstanceAs (Decidable (¬_))

theorem cString_eq {s : String} (h : NulFree s) : cString s = s.toList :=
  List.takeWhile_eq_self_iff.mpr fun _ hc => decide_eq_true fun heq => h (heq ▸ hc)

theorem asParam_eq {s : String} (h : NulFree s) : asParam s = s := by
  rw [asParam, cString_eq h, String.ofList_toList]

theorem NulFree.append {s t : String} (hs : NulFree s) (ht : NulFree t) : NulFree (s ++ t) := by
  rw [NulFree, String.toList_append, List.mem_append, not_or]
  exact ⟨hs, ht⟩

def PredictionDecision.toNat : PredictionDecision → Nat
  | .skip => 0
  | .enter => 1
  | .hold => 2

structure PredictionRow where
  id : PredictionId
  roundId : RoundId
  gameId : GameId
  decision : Nat
  confidence : Double
  probability : Double
  entryMult : Double
  targetMult : Double
  correlationId : String
  modelVersion : String
  createdAtMs : TimestampMs
deriving DecidableEq

structure TargetClaimRow where
  roundId : RoundId
  predictionId : PredictionId
  claimedAtMs : TimestampMs
  expiresAtMs : TimestampMs
deriving DecidableEq, Repr

inductive NotificationStatus
  | pending | claimed | delivered | dead
deriving DecidableEq, Repr

structure NotificationRow where
  id : Nat
  dedupeKey : String
  payload : String
  status : NotificationStatus := .pending
  attempts : Nat := 0
  createdAtMs : TimestampMs
  availableAtMs : TimestampMs
  roundId : RoundId
  predictionId : String
  workerId : Option String := none
  claimedAtMs : Option TimestampMs := none
  deliveredAtMs : Option TimestampMs := none
  lastError : Option String := none
deriving DecidableEq, Repr

structure OutcomeRow where
  predictionId : PredictionId
  roundId : RoundId
  result : String
  isWin : Bool
  actualMult : Double
  targetMult : Double
  resolvedAtMs : TimestampMs
deriving DecidableEq

/-- The unique index `idx_predictions_open_target`: one prediction that enters per round. -/
def OpenTargetsUnique (predictions : Table PredictionRow.id) : Prop :=
  ((predictions.rows.filter (·.decision = 1)).map (·.roundId)).Nodup

instance (predictions : Table PredictionRow.id) : Decidable (OpenTargetsUnique predictions) :=
  inferInstanceAs (Decidable (List.Nodup _))

theorem openTargetsUnique_empty : OpenTargetsUnique {} := List.nodup_nil

@[ext] structure Tables where
  predictions : Table PredictionRow.id := {}
  targetClaims : Table TargetClaimRow.roundId := {}
  notifications : Table NotificationRow.dedupeKey := {}
  outcomes : Table OutcomeRow.predictionId := {}
  openTargets : OpenTargetsUnique predictions := by decide

namespace Tables

instance : DecidableEq Tables := fun a b =>
  decidable_of_iff (a.predictions = b.predictions ∧ a.targetClaims = b.targetClaims ∧
      a.notifications = b.notifications ∧ a.outcomes = b.outcomes)
    ⟨fun ⟨hp, hc, hn, ho⟩ => Tables.ext hp hc hn ho, fun h => h ▸ ⟨rfl, rfl, rfl, rfl⟩⟩

def openTargetMessage : String := "duplicate key value violates unique constraint idx_predictions_open_target"

/-- The predictions after `ON CONFLICT (id) DO UPDATE SET confidence=…, decision=…, model_version=…`. -/
def upsertPrediction (predictions : Table PredictionRow.id) (row : PredictionRow) : Table PredictionRow.id :=
  if predictions.Has row.id then
    predictions.update (fun r => if r.id = row.id then
      { r with confidence := row.confidence, decision := row.decision, modelVersion := row.modelVersion } else r)
      fun r => by split <;> rfl
  else predictions.insertIfAbsent row

def insertPrediction (row : PredictionRow) : Statement Tables := fun d =>
  if h : OpenTargetsUnique (upsertPrediction d.predictions row) then
    .ok { d with predictions := upsertPrediction d.predictions row, openTargets := h }
  else .error openTargetMessage

/-- `ON CONFLICT (round_id) DO NOTHING`. -/
def insertTargetClaim (row : TargetClaimRow) : Statement Tables := fun d =>
  .ok { d with targetClaims := d.targetClaims.insertIfAbsent row }

/-- The next `BIGSERIAL` value. -/
def nextNotificationId (d : Tables) : Nat := (d.notifications.rows.map (·.id)).foldl max 0 + 1

/-- The sequence gives an id that no row has. -/
theorem id_lt_next (d : Tables) : ∀ r ∈ d.notifications.rows, r.id < d.nextNotificationId := by
  intro r hr
  have hmem : r.id ∈ d.notifications.rows.map (·.id) := List.mem_map.mpr ⟨r, hr, rfl⟩
  rw [nextNotificationId, List.foldl_eq_foldr, Nat.lt_succ_iff]
  exact List.le_max_of_le' 0 hmem (Nat.le_refl _)

/-- `ON CONFLICT (dedupe_key) DO NOTHING`; the id comes from the sequence. -/
def insertNotification (row : NotificationRow) : Statement Tables := fun d =>
  .ok { d with notifications := d.notifications.insertIfAbsent { row with id := d.nextNotificationId } }

/-- `UPDATE notification_outbox SET … WHERE …`. -/
def updateNotifications (d : Tables) (where_ : NotificationRow → Prop) [DecidablePred where_]
    (set : NotificationRow → NotificationRow) (hset : ∀ r, (set r).dedupeKey = r.dedupeKey) : Tables :=
  { d with
    notifications := d.notifications.update (fun r => if where_ r then set r else r) fun r => by
      split
      · exact hset r
      · rfl }

/-- `ON CONFLICT (prediction_id) DO NOTHING`. -/
def insertOutcome (row : OutcomeRow) : Statement Tables := fun d =>
  .ok { d with outcomes := d.outcomes.insertIfAbsent row }

/-- The primary key of `notification_outbox`. -/
def IdsUnique (d : Tables) : Prop := (d.notifications.rows.map (·.id)).Nodup

instance : DecidablePred IdsUnique := fun _ => inferInstanceAs (Decidable (List.Nodup _))

/-- `target_claims[roundId]`: the prediction that owns the round. -/
def claimant (d : Tables) (roundId : RoundId) : Option PredictionId :=
  (d.targetClaims.find? roundId).map (·.predictionId)

/-! ### What the statements leave behind -/

variable {d d' : Tables}

theorem upsertPrediction_has (predictions : Table PredictionRow.id) (row : PredictionRow) :
    (upsertPrediction predictions row).Has row.id := by
  unfold upsertPrediction
  split
  · rename_i h
    exact Table.has_update.mpr h
  · exact Table.insertIfAbsent_has

theorem insertPrediction_ok {row : PredictionRow} (h : insertPrediction row d = .ok d') :
    d'.predictions = upsertPrediction d.predictions row ∧ d'.targetClaims = d.targetClaims ∧
      d'.notifications = d.notifications ∧ d'.outcomes = d.outcomes := by
  unfold insertPrediction at h
  split at h
  · cases h
    exact ⟨rfl, rfl, rfl, rfl⟩
  · cases h

theorem idsUnique_insertNotification {row : NotificationRow} (hids : d.IdsUnique)
    (h : insertNotification row d = .ok d') : d'.IdsUnique := by
  cases h
  let row' := { row with id := d.nextNotificationId }
  show ((d.notifications.insertIfAbsent row').rows.map (·.id)).Nodup
  by_cases hk : d.notifications.Has row'.dedupeKey
  · rwa [Table.insertIfAbsent_of_has hk]
  · rw [Table.insertIfAbsent_rows hk]
    exact List.nodup_map_append_singleton hids fun r hr => Nat.ne_of_lt (id_lt_next d r hr)

theorem idsUnique_update {where_ : NotificationRow → Prop} [DecidablePred where_]
    {set : NotificationRow → NotificationRow} {hset : ∀ r, (set r).dedupeKey = r.dedupeKey} (hids : d.IdsUnique)
    (hid : ∀ r, (set r).id = r.id) : (d.updateNotifications where_ set hset).IdsUnique := by
  have hmap : (d.updateNotifications where_ set hset).notifications.rows.map (·.id) =
      d.notifications.rows.map (·.id) := by
    show (d.notifications.rows.map _).map _ = _
    rw [List.map_map]
    refine List.map_congr_left fun r _ => ?_
    show (if where_ r then set r else r).id = r.id
    split
    · exact hid r
    · rfl
  rw [IdsUnique, hmap]
  exact hids

/-- The claim of a round goes to the first claimant. -/
theorem claimant_insertTargetClaim {row : TargetClaimRow} (h : insertTargetClaim row d = .ok d') :
    d'.claimant row.roundId = some ((d.claimant row.roundId).getD row.predictionId) := by
  cases h
  have hf := Table.find?_insertIfAbsent d.targetClaims row
  simp only [claimant, hf, Option.map_some]
  cases d.targetClaims.find? row.roundId <;> rfl

end Tables
end CrashCore
