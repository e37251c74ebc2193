import CrashCore.Common.Types
import CrashCore.Concurrency.BoundedQueue
import Mathlib.Data.Finset.Card

/-! The in-memory outbox (`delivery/outbox/outbox.hpp`, `outbox_queue.hpp`) and what each of its calls can
do. A call is one step and takes the clock reading as an argument. -/

namespace CrashCore

/-! ### The queue -/

structure OutboxQueue where
  q : BoundedQueue OutboxItem
  nextId : Nat := 1
  enqueued : Nat := 0
  dequeued : Nat := 0
  drops : Nat := 0

namespace OutboxQueue

def new (capacity : Nat) : OutboxQueue := { q := .new capacity }

/-- The item takes the next id; a full queue drops it. -/
def enqueue (oq : OutboxQueue) (item : OutboxItem) : OutboxQueue × Bool :=
  match oq.q.tryPush { item with id := oq.nextId } with
  | none => ({ oq with nextId := oq.nextId + 1, drops := oq.drops + 1 }, false)
  | some q => ({ oq with q, nextId := oq.nextId + 1, enqueued := oq.enqueued + 1 }, true)

def dequeue (oq : OutboxQueue) : Option (OutboxItem × OutboxQueue) :=
  oq.q.tryPop.map fun (item, q) => (item, { oq with q, dequeued := oq.dequeued + 1 })

def items (oq : OutboxQueue) : List OutboxItem := oq.q.items

/-- The queue would take one more item. -/
def HasRoom (oq : OutboxQueue) : Prop := oq.q.closed = false ∧ oq.q.size < oq.q.cap

instance (oq : OutboxQueue) : Decidable oq.HasRoom := inferInstanceAs (Decidable (_ ∧ _))

theorem enqueue_cases (oq : OutboxQueue) (item : OutboxItem) :
    (oq.HasRoom ∧ (oq.enqueue item).2 = true ∧
      (oq.enqueue item).1.items = oq.items ++ [{ item with id := oq.nextId }] ∧
      (oq.enqueue item).1.nextId = oq.nextId + 1 ∧ (oq.enqueue item).1.q.cap = oq.q.cap ∧
      (oq.enqueue item).1.q.closed = oq.q.closed) ∨
    (¬oq.HasRoom ∧
      oq.enqueue item = ({ oq with nextId := oq.nextId + 1, drops := oq.drops + 1 }, false)) := by
  unfold enqueue
  rcases h : oq.q.tryPush { item with id := oq.nextId } with _ | q
  · refine Or.inr ⟨fun hr => ?_, rfl⟩
    rcases BoundedQueue.tryPush_eq_none.mp h with hc | hf
    · rw [hr.1] at hc
      cases hc
    · exact absurd hr.2 (Nat.not_lt.mpr hf)
  · obtain ⟨hc, hsize, hitems, hcap, hclosed⟩ := BoundedQueue.tryPush_eq_some h
    exact Or.inl ⟨⟨hc, hsize⟩, rfl, hitems, rfl, hcap, hclosed⟩

theorem dequeue_eq_some {oq oq' : OutboxQueue} {item : OutboxItem} (h : oq.dequeue = some (item, oq')) :
    oq.items = item :: oq'.items ∧ oq'.nextId = oq.nextId ∧ oq'.q.cap = oq.q.cap ∧
      oq'.q.closed = oq.q.closed := by
  obtain ⟨⟨x, q⟩, hpop, heq⟩ := Option.map_eq_some_iff.mp h
  cases heq
  obtain ⟨hitems, hcap, hclosed⟩ := BoundedQueue.tryPop_eq_some hpop
  exact ⟨hitems, rfl, hcap, hclosed⟩

theorem dequeue_of_ne_nil {oq : OutboxQueue} (h : oq.items ≠ []) : ∃ item oq', oq.dequeue = some (item, oq') := by
  rcases hp : oq.q.tryPop with _ | ⟨item, q⟩
  · exact absurd (BoundedQueue.tryPop_eq_none.mp hp) h
  · exact ⟨item, _, by rw [dequeue, hp]; rfl⟩

end OutboxQueue

/-! ### The outbox -/

/-- `signal.predictionId + ":" + std::to_string(static_cast<int>(signal.kind))`. -/
def Signal.dedupeKey (s : Signal) : String := s.predictionId ++ ":" ++ toString s.kind.toNat

structure Outbox where
  queue : OutboxQueue
  pendingKeys : Finset String := ∅
  deliveredKeys : Finset String := ∅
  published : Nat := 0
  claimed : Nat := 0
  delivered : Nat := 0
  failed : Nat := 0
  duplicates : Nat := 0
  deadLetters : Nat := 0

namespace Outbox

def new (capacity : Nat) : Outbox := { queue := .new capacity }

/-- The most keys `delivered_keys_` holds before it is cleared. -/
def maxDeliveredKeys : Nat := 50000

/-- Reserves the key, then enqueues; the result is the approximate id `enqueuedCount()`. -/
def publish (o : Outbox) (signal : Signal) (now : TimestampMs) : Outbox × Except Error Nat :=
  let key := signal.dedupeKey
  if key ∈ o.deliveredKeys ∨ key ∈ o.pendingKeys then
    ({ o with duplicates := o.duplicates + 1 }, .error ⟨.duplicate, "already published"⟩)
  else
    let o := { o with pendingKeys := insert key o.pendingKeys }
    let item : OutboxItem := { state := .pending, signal, createdAtMs := now, dedupeKey := key }
    match o.queue.enqueue item with
    | (queue, false) =>
      ({ o with queue, pendingKeys := o.pendingKeys.erase key }, .error ⟨.queueFull, "outbox full"⟩)
    | (queue, true) => ({ o with queue, published := o.published + 1 }, .ok queue.enqueued)

/-- No result when the wait ends with an empty queue. -/
def claim (o : Outbox) (now : TimestampMs) : Option (OutboxItem × Outbox) :=
  o.queue.dequeue.map fun (item, queue) =>
    ({ item with state := .claimed, claimedAtMs := now }, { o with queue, claimed := o.claimed + 1 })

/-- The delivered set is cleared when it grows past its bound. -/
def markDelivered (o : Outbox) (item : OutboxItem) (now : TimestampMs) : Outbox × OutboxItem :=
  let keys := insert item.dedupeKey o.deliveredKeys
  ({ o with
      pendingKeys := o.pendingKeys.erase item.dedupeKey
      deliveredKeys := if keys.card > maxDeliveredKeys then ∅ else keys
      delivered := o.delivered + 1 },
    { item with state := .delivered, deliveredAtMs := now })

/-- Dead-letters the item at the last attempt and re-queues it otherwise; nothing looks at whether the
    queue took it. -/
def markFailed (o : Outbox) (item : OutboxItem) (error : String) : Outbox × OutboxItem :=
  let item := { item with lastError := error, attempts := item.attempts + 1 }
  if item.attempts ≥ Constants.OUTBOX_MAX_ATTEMPTS then
    ({ o with
        deadLetters := o.deadLetters + 1
        pendingKeys := o.pendingKeys.erase item.dedupeKey
        failed := o.failed + 1 },
      { item with state := .deadLetter })
  else
    let item := { item with state := .pending }
    ({ o with queue := (o.queue.enqueue item).1, failed := o.failed + 1 }, item)

def items (o : Outbox) : List OutboxItem := o.queue.items

/-- `key` is reserved by a live signal or remembered as delivered. -/
def Knows (o : Outbox) (key : String) : Prop := key ∈ o.deliveredKeys ∨ key ∈ o.pendingKeys

instance (o : Outbox) (key : String) : Decidable (o.Knows key) := inferInstanceAs (Decidable (_ ∨ _))

/-- `publish` would accept the signal. -/
def Accepts (o : Outbox) (signal : Signal) : Prop := ¬o.Knows signal.dedupeKey ∧ o.queue.HasRoom

instance (o : Outbox) (signal : Signal) : Decidable (o.Accepts signal) := inferInstanceAs (Decidable (_ ∧ _))

/-- The item of a signal published at `now` under the id `id`. -/
def freshItem (signal : Signal) (now : TimestampMs) (id : Nat) : OutboxItem :=
  { id, state := .pending, signal, createdAtMs := now, dedupeKey := signal.dedupeKey }

/-- The item as a failed delivery leaves it. -/
def failedItem (item : OutboxItem) (error : String) : OutboxItem :=
  { item with lastError := error, attempts := item.attempts + 1, state := .pending }

/-! ### What the calls do -/

/-- What two outboxes share when a call leaves the queued items and both key sets alone. -/
structure SameKeys (o o' : Outbox) : Prop where
  items : o'.items = o.items
  pending : o'.pendingKeys = o.pendingKeys
  delivered : o'.deliveredKeys = o.deliveredKeys
  cap : o'.queue.q.cap = o.queue.q.cap
  closed : o'.queue.q.closed = o.queue.q.closed
  nextId : o.queue.nextId ≤ o'.queue.nextId

theorem publish_cases (o : Outbox) (signal : Signal) (now : TimestampMs) :
    (o.Knows signal.dedupeKey ∧ (o.publish signal now).2 = .error ⟨.duplicate, "already published"⟩ ∧
      SameKeys o (o.publish signal now).1) ∨
    (¬o.Knows signal.dedupeKey ∧ ¬o.queue.HasRoom ∧
      (o.publish signal now).2 = .error ⟨.queueFull, "outbox full"⟩ ∧ SameKeys o (o.publish signal now).1) ∨
    (o.Accepts signal ∧ (∃ n, (o.publish signal now).2 = .ok n) ∧
      (o.publish signal now).1.items = o.items ++ [freshItem signal now o.queue.nextId] ∧
      (o.publish signal now).1.pendingKeys = insert signal.dedupeKey o.pendingKeys ∧
      (o.publish signal now).1.deliveredKeys = o.deliveredKeys ∧
      (o.publish signal now).1.queue.nextId = o.queue.nextId + 1 ∧
      (o.publish signal now).1.queue.q.cap = o.queue.q.cap ∧
      (o.publish signal now).1.queue.q.closed = o.queue.q.closed) := by
  by_cases hk : o.Knows signal.dedupeKey
  · have hk' : signal.dedupeKey ∈ o.deliveredKeys ∨ signal.dedupeKey ∈ o.pendingKeys := hk
    refine Or.inl ⟨hk, ?_, ?_⟩
    · simp [publish, hk']
    · simp only [publish, hk', ↓reduceIte]
      exact ⟨rfl, rfl, rfl, rfl, rfl, Nat.le_refl _⟩
  · have hk' : ¬(signal.dedupeKey ∈ o.deliveredKeys ∨ signal.dedupeKey ∈ o.pendingKeys) := hk
    have hp : signal.dedupeKey ∉ o.pendingKeys := fun h => hk' (.inr h)
    refine Or.inr ?_
    simp only [publish, hk', ↓reduceIte]
    rcases o.queue.enqueue_cases
        { state := .pending, signal, createdAtMs := now, dedupeKey := signal.dedupeKey } with
      ⟨hroom, hres, hitems, hnext, hcap, hclosed⟩ | ⟨hfull, heq⟩
    · rcases henq : o.queue.enqueue
          { state := .pending, signal, createdAtMs := now, dedupeKey := signal.dedupeKey } with ⟨q', res⟩
      rw [henq] at hres hitems hnext hcap hclosed
      cases hres
      exact Or.inr ⟨⟨hk, hroom⟩, ⟨_, rfl⟩, hitems, rfl, rfl, hnext, hcap, hclosed⟩
    · rw [heq]
      exact Or.inl ⟨hk, hfull, rfl, rfl, Finset.erase_insert hp, rfl, rfl, rfl, Nat.le_succ _⟩

/-- An accepted signal is queued under its key. -/
theorem publish_accepted {o : Outbox} {signal : Signal} (now : TimestampMs) (ha : o.Accepts signal) :
    (o.publish signal now).1.items = o.items ++ [freshItem signal now o.queue.nextId] ∧
      (o.publish signal now).1.pendingKeys = insert signal.dedupeKey o.pendingKeys ∧
      (o.publish signal now).1.deliveredKeys = o.deliveredKeys := by
  rcases o.publish_cases signal now with ⟨hk, -⟩ | ⟨-, hf, -⟩ | ⟨-, -, hitems, hpend, hdelivered, -⟩
  · exact absurd hk ha.1
  · exact absurd ha.2 hf
  · exact ⟨hitems, hpend, hdelivered⟩

/-- A publication succeeds exactly if the outbox accepts the signal. -/
theorem publish_ok_iff (o : Outbox) (signal : Signal) (now : TimestampMs) :
    (∃ n, (o.publish signal now).2 = .ok n) ↔ o.Accepts signal := by
  rcases o.publish_cases signal now with ⟨hk, hr, -⟩ | ⟨-, hf, hr, -⟩ | ⟨ha, hr, -⟩
  · simp [hr, Accepts, hk]
  · simp [hr, Accepts, hf]
  · exact ⟨fun _ => ha, fun _ => hr⟩

/-- A claim takes the head of the queue and touches no key. -/
theorem claim_eq_some {o o' : Outbox} {item : OutboxItem} {now : TimestampMs}
    (h : o.claim now = some (item, o')) :
    ∃ head, o.items = head :: o'.items ∧ item = { head with state := .claimed, claimedAtMs := now } ∧
      o'.pendingKeys = o.pendingKeys ∧ o'.deliveredKeys = o.deliveredKeys ∧
      o'.queue.nextId = o.queue.nextId ∧ o'.queue.q.cap = o.queue.q.cap ∧
      o'.queue.q.closed = o.queue.q.closed := by
  obtain ⟨⟨head, q⟩, hd, heq⟩ := Option.map_eq_some_iff.mp h
  cases heq
  obtain ⟨hitems, hnext, hcap, hclosed⟩ := OutboxQueue.dequeue_eq_some hd
  exact ⟨head, hitems, rfl, rfl, rfl, hnext, hcap, hclosed⟩

theorem claim_of_ne_nil {o : Outbox} (now : TimestampMs) (h : o.items ≠ []) :
    ∃ item o', o.claim now = some (item, o') := by
  obtain ⟨item, q, hd⟩ := OutboxQueue.dequeue_of_ne_nil h
  exact ⟨_, _, by rw [claim, hd]; rfl⟩

section
variable {o : Outbox} {item : OutboxItem} {now : TimestampMs} {error : String}

@[simp] theorem markDelivered_items : (o.markDelivered item now).1.items = o.items := rfl
@[simp] theorem markDelivered_pending :
    (o.markDelivered item now).1.pendingKeys = o.pendingKeys.erase item.dedupeKey := rfl

/-- Below the bound the delivered set grows by the item's key. -/
theorem markDelivered_delivered (now : TimestampMs)
    (h : (insert item.dedupeKey o.deliveredKeys).card ≤ maxDeliveredKeys) :
    (o.markDelivered item now).1.deliveredKeys = insert item.dedupeKey o.deliveredKeys := by
  simp [markDelivered, Nat.not_lt.mpr h]

/-- Past the bound every delivered key is forgotten, the item's own included. -/
theorem markDelivered_cleared (now : TimestampMs)
    (h : maxDeliveredKeys < (insert item.dedupeKey o.deliveredKeys).card) :
    (o.markDelivered item now).1.deliveredKeys = ∅ := by
  simp [markDelivered, h]

/-- A delivery that failed is the last one. -/
def LastAttempt (item : OutboxItem) : Prop := Constants.OUTBOX_MAX_ATTEMPTS ≤ item.attempts + 1

instance (item : OutboxItem) : Decidable (LastAttempt item) := inferInstanceAs (Decidable (_ ≤ _))

@[simp] theorem markFailed_delivered : (o.markFailed item error).1.deliveredKeys = o.deliveredKeys := by
  unfold markFailed
  dsimp only
  split <;> rfl

theorem markFailed_dead (o : Outbox) (error : String) (h : LastAttempt item) :
    (o.markFailed item error).1.items = o.items ∧ (o.markFailed item error).1.queue = o.queue ∧
      (o.markFailed item error).1.pendingKeys = o.pendingKeys.erase item.dedupeKey := by
  have h' : item.attempts + 1 ≥ Constants.OUTBOX_MAX_ATTEMPTS := h
  simp [markFailed, h', items]

/-- Before the last attempt the key stays reserved, and the item is back in the queue or nowhere. -/
theorem markFailed_requeue (o : Outbox) (error : String) (h : ¬LastAttempt item) :
    (o.markFailed item error).1.pendingKeys = o.pendingKeys ∧
    ((o.queue.HasRoom ∧
      (o.markFailed item error).1.items = o.items ++ [{ failedItem item error with id := o.queue.nextId }]) ∨
      (¬o.queue.HasRoom ∧ (o.markFailed item error).1.items = o.items)) ∧
    (o.markFailed item error).1.queue.nextId = o.queue.nextId + 1 ∧
    (o.markFailed item error).1.queue.q.cap = o.queue.q.cap ∧
    (o.markFailed item error).1.queue.q.closed = o.queue.q.closed := by
  have h' : ¬item.attempts + 1 ≥ Constants.OUTBOX_MAX_ATTEMPTS := h
  simp only [markFailed, h', ↓reduceIte, items]
  refine ⟨trivial, ?_⟩
  rcases o.queue.enqueue_cases (failedItem item error) with
    ⟨hroom, -, hitems, hnext, hcap, hclosed⟩ | ⟨hfull, heq⟩
  · exact ⟨Or.inl ⟨hroom, hitems⟩, hnext, hcap, hclosed⟩
  · have heq' : (o.queue.enqueue (failedItem item error)).1 =
        { o.queue with nextId := o.queue.nextId + 1, drops := o.queue.drops + 1 } := by rw [heq]
    unfold failedItem at heq'
    rw [heq']
    exact ⟨Or.inr ⟨hfull, rfl⟩, rfl, rfl, rfl⟩

end

/-! ### A new outbox -/

@[simp] theorem new_items {capacity : Nat} : (new capacity).items = [] := rfl
@[simp] theorem new_pendingKeys {capacity : Nat} : (new capacity).pendingKeys = ∅ := rfl
@[simp] theorem new_deliveredKeys {capacity : Nat} : (new capacity).deliveredKeys = ∅ := rfl

end Outbox
end CrashCore
