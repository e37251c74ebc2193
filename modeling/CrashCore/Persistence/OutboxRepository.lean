import CrashCore.Library.Connection
import CrashCore.Persistence.Tables
import Mathlib.Data.List.Sort

/-! `persistence/outbox_repository.hpp` on PostgreSQL. Of its counters only that of the enqueues is kept. -/

namespace CrashCore

structure OutboxRow where
  id : String
  dedupeKey : String
  payload : String
  createdAtMs : TimestampMs := 0
  availableAtMs : TimestampMs := 0

structure OutboxRepository where
  enqueued : Nat := 0
deriving DecidableEq, Repr

namespace OutboxRepository

/-- The parameters of the INSERT; the row's own id becomes the `prediction_id` column. -/
def notification (row : OutboxRow) (roundId : RoundId) (now : TimestampMs) : NotificationRow where
  id := 0
  dedupeKey := row.dedupeKey
  payload := row.payload
  createdAtMs := if row.createdAtMs ≠ 0 then row.createdAtMs else now
  availableAtMs := if row.availableAtMs ≠ 0 then row.availableAtMs else now
  roundId := roundId
  predictionId := row.id

def enqueueWithRound (repo : OutboxRepository) (c : Connection Tables) (row : OutboxRow) (roundId : RoundId)
    (now : TimestampMs) (fault : Fault) : OutboxRepository × Connection Tables × Except String Unit :=
  match c.exec (Tables.insertNotification (notification row roundId now)) fault with
  | (c, .ok _) => ({ repo with enqueued := repo.enqueued + 1 }, c, .ok ())
  | (c, .error m) => (repo, c, .error m)

def enqueue (repo : OutboxRepository) (c : Connection Tables) (row : OutboxRow) (now : TimestampMs)
    (fault : Fault) : OutboxRepository × Connection Tables × Except String Unit :=
  repo.enqueueWithRound c row "" now fault

/-! ### The queue

Rows of the same creation time are taken in the order of their insertion. -/

/-- The ids of the oldest rows that are pending and due. -/
def due (d : Tables) (limit : Nat) (now : TimestampMs) : List Nat :=
  let pending := d.notifications.rows.filter fun r => r.status = .pending ∧ r.availableAtMs ≤ now
  ((pending.insertionSort (·.createdAtMs ≤ ·.createdAtMs)).take limit).map (·.id)

def claimRows (limit : Nat) (workerId : String) (now : TimestampMs) : Statement Tables := fun d =>
  .ok (d.updateNotifications (·.id ∈ due d limit now)
    (fun r => { r with
      status := .claimed, attempts := r.attempts + 1, workerId := some workerId, claimedAtMs := some now })
    fun _ => rfl)

/-- The claimed rows as the statement leaves them. -/
def claim (c : Connection Tables) (limit : Nat) (workerId : String) (now : TimestampMs) (fault : Fault) :
    Connection Tables × Except String (List NotificationRow) :=
  let ids := due c.visible limit now
  match c.exec (claimRows limit workerId now) fault with
  | (c, .ok _) => (c, .ok (c.visible.notifications.rows.filter (·.id ∈ ids)))
  | (c, .error m) => (c, .error m)

def markDelivered (id : Nat) (now : TimestampMs) : Statement Tables := fun d =>
  .ok (d.updateNotifications (·.id = id) (fun r => { r with status := .delivered, deliveredAtMs := some now })
    fun _ => rfl)

def markFailed (id : Nat) (err : String) (retryAfterMs : Int) (deadLetter : Bool) (now : TimestampMs) :
    Statement Tables := fun d =>
  .ok (d.updateNotifications (·.id = id)
    (fun r => { r with
      status := if deadLetter then .dead else .pending, lastError := some err, availableAtMs := now + retryAfterMs })
    fun _ => rfl)

def recoverStaleClaims (olderThanMs : Int) (now : TimestampMs) : Statement Tables := fun d =>
  .ok (d.updateNotifications (fun r => r.status = .claimed ∧ ∃ claimed ∈ r.claimedAtMs, claimed < now - olderThanMs)
    (fun r => { r with status := .pending, workerId := none }) fun _ => rfl)

end OutboxRepository
end CrashCore
