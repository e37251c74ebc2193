import CrashCore.Delivery.TemporalGuard
import CrashCore.Library.Run

/-! The table `notification_outbox` with both lifecycle columns (`migrations/0006`): `OutboxRepository` and
`TemporalGuard` name the text `status`, the statements of `persistence/sql_builder.hpp` and
`persistence/retention.hpp` the integer `state`. -/

namespace CrashCore

/-- `static_cast<int>(state)`. -/
def OutboxState.toNat : OutboxState → Nat
  | .pending => 0
  | .claimed => 1
  | .inFlight => 2
  | .delivered => 3
  | .failed => 4
  | .deadLetter => 5

/-- The state that a text status means. -/
def NotificationStatus.outboxState : NotificationStatus → OutboxState
  | .pending => .pending
  | .claimed => .claimed
  | .delivered => .delivered
  | .dead => .deadLetter

/-- A row with the columns that the repository does not name. A payload of NULL is the empty text. -/
structure OutboxRecord extends NotificationRow where
  state : Nat := 0
  signalKind : Option Nat := none
  text : Option String := none
deriving DecidableEq

def OutboxRecord.key (r : OutboxRecord) : String := r.dedupeKey

abbrev NotificationOutbox := Table OutboxRecord.key

namespace NotificationOutbox

/-! ### Through the repository -/

/-- The rows as the repository sees them. -/
def view (t : NotificationOutbox) : Tables where
  notifications :=
    { rows := t.rows.map (·.toNotificationRow)
      nodup := by
        rw [List.map_map]
        exact t.nodup }

/-- A row keeps the columns that the repository does not name; a new row has their defaults. -/
def withRow (t : NotificationOutbox) (row : NotificationRow) : OutboxRecord :=
  match t.find? row.dedupeKey with
  | some r => { r with toNotificationRow := row }
  | none => { toNotificationRow := row }

theorem withRow_row (t : NotificationOutbox) (row : NotificationRow) : (t.withRow row).toNotificationRow = row := by
  unfold withRow
  split <;> rfl

/-- A statement of the repository on the whole table. -/
def throughRepository (stmt : Statement Tables) : Statement NotificationOutbox := fun t =>
  match stmt t.view with
  | .error m => .error m
  | .ok d => .ok
    { rows := d.notifications.rows.map t.withRow
      nodup := by
        have hkeys : OutboxRecord.key ∘ t.withRow = NotificationRow.dedupeKey :=
          funext fun row => congrArg NotificationRow.dedupeKey (t.withRow_row row)
        rw [List.map_map, hkeys]
        exact d.notifications.nodup }

/-! ### Through `SqlBuilder` -/

/-- The next `BIGSERIAL` value. -/
def nextId (t : NotificationOutbox) : Nat := t.view.nextNotificationId

/-- `status` and `available_at_ms` get their defaults. -/
def insertOutbox (item : OutboxItem) : Statement NotificationOutbox := fun t =>
  .ok (t.insertIfAbsent
    { id := t.nextId
      dedupeKey := item.dedupeKey
      payload := ""
      attempts := item.attempts
      createdAtMs := item.createdAtMs
      availableAtMs := 0
      roundId := item.signal.roundId
      predictionId := item.signal.predictionId
      state := item.state.toNat
      signalKind := some item.signal.kind.toNat
      text := some item.signal.text })

/-- The ids of the oldest rows whose `state` is 0. -/
def oldestPending (t : NotificationOutbox) (limit : Nat) : List Nat :=
  (((t.rows.filter (·.state = 0)).insertionSort (·.createdAtMs ≤ ·.createdAtMs)).take limit).map (·.id)

/-- `UPDATE … SET` by one of these statements. -/
def updateState (t : NotificationOutbox) (where_ : OutboxRecord → Prop) [DecidablePred where_]
    (set : OutboxRecord → OutboxRecord) (hset : ∀ r, (set r).key = r.key) : NotificationOutbox :=
  t.update (fun r => if where_ r then set r else r) fun r => by
    split
    · exact hset r
    · rfl

def claimOutboxBatch (limit : Nat) (now : TimestampMs) : Statement NotificationOutbox := fun t =>
  .ok (t.updateState (·.id ∈ t.oldestPending limit)
    (fun r => { r with state := 1, claimedAtMs := some now }) fun _ => rfl)

def markOutboxDelivered (id : Nat) (now : TimestampMs) : Statement NotificationOutbox := fun t =>
  .ok (t.updateState (·.id = id) (fun r => { r with state := 3, deliveredAtMs := some now }) fun _ => rfl)

/-! ### Retention -/

/-- The last statement of `pruneDatabase`. -/
def pruneDatabase (maxAgeMs : Int) (now : TimestampMs) : Statement NotificationOutbox := fun t =>
  .ok (t.delete fun r => r.state = 3 ∧ ∃ delivered ∈ r.deliveredAtMs, 0 < delivered ∧ delivered < now - maxAgeMs)

/-! ### Any sequence of statements -/

inductive Operation
  | enqueue (row : OutboxRow) (roundId : RoundId) (now : TimestampMs)
  | claim (limit : Nat) (workerId : String) (now : TimestampMs)
  | markDelivered (id : Nat) (now : TimestampMs)
  | markFailed (id : Nat) (err : String) (retryAfterMs : Int) (deadLetter : Bool) (now : TimestampMs)
  | recoverStaleClaims (olderThanMs : Int) (now : TimestampMs)
  | killStale (roundId : RoundId)
  | insertOutbox (item : OutboxItem)
  | claimOutboxBatch (limit : Nat) (now : TimestampMs)
  | markOutboxDelivered (id : Nat) (now : TimestampMs)
  | prune (maxAgeMs : Int) (now : TimestampMs)

def statement : Operation → Statement NotificationOutbox
  | .enqueue row roundId now =>
    throughRepository (Tables.insertNotification (OutboxRepository.notification row roundId now))
  | .claim limit workerId now => throughRepository (OutboxRepository.claimRows limit workerId now)
  | .markDelivered id now => throughRepository (OutboxRepository.markDelivered id now)
  | .markFailed id err retryAfterMs deadLetter now =>
    throughRepository (OutboxRepository.markFailed id err retryAfterMs deadLetter now)
  | .recoverStaleClaims olderThanMs now => throughRepository (OutboxRepository.recoverStaleClaims olderThanMs now)
  | .killStale roundId => throughRepository (TemporalGuard.killStale roundId)
  | .insertOutbox item => insertOutbox item
  | .claimOutboxBatch limit now => claimOutboxBatch limit now
  | .markOutboxDelivered id now => markOutboxDelivered id now
  | .prune maxAgeMs now => pruneDatabase maxAgeMs now

/-- A statement that is executed, or prevented by a fault. -/
def step (t : NotificationOutbox) (a : Operation × Fault) : Option NotificationOutbox :=
  some (((⟨t, .idle⟩ : Connection NotificationOutbox).exec (statement a.1) a.2).1.committed)

end NotificationOutbox
end CrashCore
