import CrashCore.Delivery.Outbox
import CrashCore.Persistence.OutboxRepository

/-! Persistence of predictions and outcomes (`delivery/outbox/durable_prediction_tx.hpp`), and the handoff to the
in-memory outbox (`delivery/outbox/durable_handoff.hpp`). `f` says which statements fail for a reason of their own,
`now` is the clock reading of the call. -/

namespace CrashCore

structure DurableHandoff where
  outbox : Outbox
  predPublished : Finset PredictionId := ∅
  outOfOrder : Nat := 0

namespace DurableHandoff

def publishPrediction (h : DurableHandoff) (sig : Signal) (now : TimestampMs) :
    DurableHandoff × Except Error Nat :=
  let sig := { sig with kind := .prediction }
  match h.outbox.publish sig now with
  | (outbox, .ok id) => ({ h with outbox, predPublished := insert sig.predictionId h.predPublished }, .ok id)
  | (outbox, .error e) => ({ h with outbox }, .error e)

/-- An outcome without its prediction is counted, not refused. -/
def publishOutcome (h : DurableHandoff) (sig : Signal) (now : TimestampMs) : DurableHandoff × Except Error Nat :=
  let sig := { sig with kind := .outcome }
  let h := if sig.predictionId ∈ h.predPublished then h else { h with outOfOrder := h.outOfOrder + 1 }
  match h.outbox.publish sig now with
  | (outbox, r) => ({ h with outbox }, r)

theorem publishPrediction_outbox (h : DurableHandoff) (sig : Signal) (now : TimestampMs) :
    (h.publishPrediction sig now).1.outbox = (h.outbox.publish { sig with kind := .prediction } now).1 ∧
      (h.publishPrediction sig now).2 = (h.outbox.publish { sig with kind := .prediction } now).2 := by
  unfold publishPrediction
  dsimp only
  split <;> rename_i hp <;> exact ⟨(congrArg Prod.fst hp).symm, (congrArg Prod.snd hp).symm⟩

theorem publishOutcome_outbox (h : DurableHandoff) (sig : Signal) (now : TimestampMs) :
    (h.publishOutcome sig now).1.outbox = (h.outbox.publish { sig with kind := .outcome } now).1 ∧
      (h.publishOutcome sig now).2 = (h.outbox.publish { sig with kind := .outcome } now).2 := by
  unfold publishOutcome
  dsimp only
  split
  · exact ⟨rfl, rfl⟩
  · exact ⟨rfl, rfl⟩

end DurableHandoff

/-! ### Persistence -/

structure DurablePersistResult where
  ok : Bool := false
  durable : Bool := false
  memoryPublished : Bool := false
  error : String := ""
deriving DecidableEq, Repr

/-- No database, one that is not PostgreSQL, or a connection to PostgreSQL. -/
inductive Db
  | absent
  | base
  | pg (conn : Connection Tables)

/-- What is committed to the database, if it is PostgreSQL. -/
def Db.committed : Db → Option Tables
  | .pg conn => some conn.committed
  | _ => none

structure DurablePredictionTx where
  db : Db
  repo : Option OutboxRepository := none
  handoff : Option DurableHandoff := none
  memory : Option Outbox := none
  durableOk : Nat := 0

/-- The faults of the statements of one call. -/
structure Faults where
  beginTx : Fault := none
  prediction : Fault := none
  targetClaim : Fault := none
  notification : Fault := none
  notificationAgain : Fault := none
  commit : Fault := none
  rollback : Fault := none

namespace DurablePredictionTx

/-! ### The rows -/

def predictionRow (pev : PredictionEvent) (now : TimestampMs) : PredictionRow where
  id := pev.predictionId
  roundId := pev.targetRoundId
  gameId := pev.gameId
  decision := pev.decision.toNat
  confidence := sixDecimals pev.confidence
  probability := sixDecimals pev.probability
  entryMult := sixDecimals pev.entryMult
  targetMult := sixDecimals pev.targetMult
  correlationId := pev.correlationId
  modelVersion := pev.modelVersion
  createdAtMs := now

def targetClaimRow (pev : PredictionEvent) (now : TimestampMs) : TargetClaimRow where
  roundId := pev.targetRoundId
  predictionId := pev.predictionId
  claimedAtMs := now
  expiresAtMs := now + 120000

def notificationKey (predictionId : PredictionId) : String := predictionId ++ ":pred"

/-- The target round is encoded as a prefix of the payload. -/
def outboxRow (pev : PredictionEvent) (sig : Signal) (now : TimestampMs) : OutboxRow where
  id := pev.predictionId ++ "-pred"
  dedupeKey := notificationKey pev.predictionId
  payload := "round=" ++ pev.targetRoundId ++ "\n" ++ sig.text
  createdAtMs := now
  availableAtMs := now

def outcomeRow (o : Outcome) (now : TimestampMs) : OutcomeRow where
  predictionId := o.predictionId
  roundId := o.roundId
  result := if o.isWin ∨ o.result = .win then "win" else if o.result = .loss then "loss" else "unknown"
  isWin := o.isWin
  actualMult := sixDecimals o.actualMult
  targetMult := sixDecimals o.targetMult
  resolvedAtMs := now

/-! ### The transaction -/

/-- Step 3: the fallback enqueues without the round. -/
def enqueueOrRetry (repo : OutboxRepository) (c : Connection Tables) (pev : PredictionEvent) (sig : Signal)
    (now : TimestampMs) (f : Faults) : OutboxRepository × Connection Tables × Except String Unit :=
  match repo.enqueueWithRound c (outboxRow pev sig now) pev.targetRoundId now f.notification with
  | (repo, c, .ok _) => (repo, c, .ok ())
  | (repo, c, .error _) => repo.enqueue c (outboxRow pev sig now) now f.notificationAgain

/-- From BEGIN, whose result nobody looks at, to COMMIT; the destructor of the transaction rolls back on every
    other way out. -/
def persistRows (repo : OutboxRepository) (c : Connection Tables) (pev : PredictionEvent) (sig : Signal)
    (now : TimestampMs) (f : Faults) : OutboxRepository × Connection Tables × Except String Unit :=
  let c := (c.beginTx f.beginTx).1
  match c.exec (Tables.insertPrediction (predictionRow pev now)) f.prediction with
  | (c, .error m) => (repo, (c.rollback f.rollback).1, .error ("predictions insert: " ++ m))
  | (c, .ok _) =>
    match c.exec (Tables.insertTargetClaim (targetClaimRow pev now)) f.targetClaim with
    | (c, .error m) => (repo, (c.rollback f.rollback).1, .error ("target_claims insert: " ++ m))
    | (c, .ok _) =>
      match enqueueOrRetry repo c pev sig now f with
      | (repo, c, .error m) => (repo, (c.rollback f.rollback).1, .error ("outbox enqueue: " ++ m))
      | (repo, c, .ok _) =>
        match c.commit f.commit with
        | (c, .error m) => (repo, c, .error ("commit: " ++ m))
        | (c, .ok _) => (repo, c, .ok ())

/-! ### The calls -/

/-- The handoff if there is one, else the outbox itself; the flag says whether the outbox took the signal. -/
def publishMemory (s : DurablePredictionTx) (sig : Signal) (now : TimestampMs) : DurablePredictionTx × Bool :=
  match s.handoff, s.memory with
  | some h, _ => ({ s with handoff := some (h.publishPrediction sig now).1 }, (h.publishPrediction sig now).2.isOk)
  | none, some o => ({ s with memory := some (o.publish sig now).1 }, (o.publish sig now).2.isOk)
  | none, none => (s, false)

def persistPrediction (s : DurablePredictionTx) (pev : PredictionEvent) (sig : Signal) (now : TimestampMs)
    (f : Faults) : DurablePredictionTx × DurablePersistResult :=
  match s.db, s.repo with
  | .absent, _ | _, none =>
    let (s, published) := s.publishMemory sig now
    (s, { ok := published, memoryPublished := published,
          error := if published then "" else "memory outbox publish failed" })
  | .base, some _ =>
    let (s, published) := s.publishMemory sig now
    (s, { ok := published, memoryPublished := published, error := "no PgDatabase for durable path" })
  | .pg c, some repo =>
    match persistRows repo c pev sig now f with
    | (repo, c, .error m) => ({ s with db := .pg c, repo := some repo }, { error := m })
    | (repo, c, .ok _) =>
      let (s, published) := { s with db := .pg c, repo := some repo }.publishMemory sig now
      ({ s with durableOk := s.durableOk + 1 }, { ok := true, durable := true, memoryPublished := published })

theorem publishMemory_db (s : DurablePredictionTx) (sig : Signal) (now : TimestampMs) :
    (s.publishMemory sig now).1.db = s.db := by
  unfold publishMemory
  split <;> rfl

/-- Only the handoff takes outcomes. -/
def publishOutcomeMemory (s : DurablePredictionTx) (sig : Signal) (now : TimestampMs) :
    DurablePredictionTx × Bool :=
  match s.handoff with
  | some h => ({ s with handoff := some (h.publishOutcome sig now).1 }, (h.publishOutcome sig now).2.isOk)
  | none => (s, false)

def persistOutcome (s : DurablePredictionTx) (o : Outcome) (sig : Signal) (now : TimestampMs) (fault : Fault) :
    DurablePredictionTx × DurablePersistResult :=
  match s.db with
  | .absent | .base =>
    let (s, published) := s.publishOutcomeMemory sig now
    (s, { ok := published, memoryPublished := published })
  | .pg c =>
    match c.exec (Tables.insertOutcome (outcomeRow o now)) fault with
    | (c, .error m) => ({ s with db := .pg c }, { error := m })
    | (c, .ok _) =>
      let (s, published) := { s with db := .pg c }.publishOutcomeMemory sig now
      (s, { ok := true, durable := true, memoryPublished := published })

end DurablePredictionTx
end CrashCore
