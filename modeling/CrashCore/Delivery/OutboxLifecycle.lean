import CrashCore.Delivery.Outbox
import CrashCore.Library.Run
import Mathlib.Data.List.Perm.Basic

/-! Leases over the outbox (`delivery/outbox/outbox_lifecycle.hpp`). A call is one step and takes the clock
reading as an argument. The two maps are lists; `recoverExpiredLeases` also takes the order in which
`std::unordered_map` yields the expired leases. -/

namespace CrashCore

structure OutboxLease where
  id : Nat
  claimedAtMs : TimestampMs
  deadlineMs : TimestampMs
  workerId : String
deriving DecidableEq, Repr

structure OutboxLifecycle where
  outbox : Outbox
  claimTimeoutMs : Int := Constants.OUTBOX_CLAIM_TIMEOUT_MS
  leases : List OutboxLease := []
  inFlight : List OutboxItem := []
  publishes : Nat := 0
  claims : Nat := 0
  delivered : Nat := 0
  failed : Nat := 0
  recovered : Nat := 0
  wakes : Nat := 0

namespace OutboxLifecycle

def new (capacity : Nat) (claimTimeoutMs : Int) : OutboxLifecycle :=
  { outbox := .new capacity, claimTimeoutMs }

def wake (l : OutboxLifecycle) : OutboxLifecycle := { l with wakes := l.wakes + 1 }

def publishSignal (l : OutboxLifecycle) (signal : Signal) (now : TimestampMs) :
    OutboxLifecycle × Except Error Nat :=
  match l.outbox.publish signal now with
  | (outbox, .ok id) => ({ { l with outbox }.wake with publishes := l.publishes + 1 }, .ok id)
  | (outbox, .error e) => ({ l with outbox }, .error e)

/-- The lease and a copy of the item are stored under the item's id. -/
def claimWithLease (l : OutboxLifecycle) (workerId : String) (now : TimestampMs) :
    Option (OutboxItem × OutboxLifecycle) :=
  (l.outbox.claim now).map fun (claimed, outbox) =>
    let item := { claimed with state := OutboxState.inFlight }
    let lease := { id := item.id, claimedAtMs := now, deadlineMs := now + l.claimTimeoutMs, workerId }
    (item, { l with
      outbox
      leases := l.leases.filter (·.id ≠ item.id) ++ [lease]
      inFlight := l.inFlight.filter (·.id ≠ item.id) ++ [item]
      claims := l.claims + 1 })

/-- `leases_.erase(id); in_flight_.erase(id)`. -/
def eraseLease (l : OutboxLifecycle) (id : Nat) : OutboxLifecycle :=
  { l with leases := l.leases.filter (·.id ≠ id), inFlight := l.inFlight.filter (·.id ≠ id) }

def completeDelivered (l : OutboxLifecycle) (item : OutboxItem) (now : TimestampMs) : OutboxLifecycle :=
  let l := { l with outbox := (l.outbox.markDelivered item now).1 }
  { l.eraseLease item.id with delivered := l.delivered + 1 }

def completeFailed (l : OutboxLifecycle) (item : OutboxItem) (error : String) : OutboxLifecycle :=
  let l := { l with outbox := (l.outbox.markFailed item error).1 }
  { l.eraseLease item.id with failed := l.failed + 1 }

/-- The ids of the leases whose deadline has passed. -/
def expired (l : OutboxLifecycle) (now : TimestampMs) : List Nat :=
  (l.leases.filter (now > ·.deadlineMs)).map (·.id)

/-- The copy that recovery takes out of `in_flight_`: the lost claim counts as an attempt. -/
def expiredItem (item : OutboxItem) : OutboxItem :=
  { item with state := .pending, attempts := item.attempts + 1 }

/-- The part of the recovery under the lifecycle's mutex: the expired leases and items are taken out. -/
def takeExpired : OutboxLifecycle → List Nat → List OutboxItem × OutboxLifecycle
  | l, [] => ([], l)
  | l, id :: ids =>
    match l.inFlight.find? (·.id = id) with
    | some item =>
      let (items, l) := takeExpired (l.eraseLease id) ids
      (expiredItem item :: items, l)
    | none => takeExpired (l.eraseLease id) ids

/-- The recovery marks the item as delivered before it dead-letters it. -/
def MaxAttempts (item : OutboxItem) : Prop := Constants.OUTBOX_MAX_ATTEMPTS ≤ item.attempts

instance (item : OutboxItem) : Decidable (MaxAttempts item) := inferInstanceAs (Decidable (_ ≤ _))

/-- `item.state = OutboxState::DeadLetter`. -/
def deadLettered (item : OutboxItem) : OutboxItem := { item with state := .deadLetter }

/-- The part of the recovery on the outbox, for one item; with it the item as `markFailed` has left it. -/
def requeueExpired (l : OutboxLifecycle) (now : TimestampMs) (item : OutboxItem) : OutboxLifecycle × OutboxItem :=
  if MaxAttempts item then
    let (outbox, copy) := l.outbox.markDelivered (deadLettered item) now
    let (outbox, copy) := outbox.markFailed copy "lease expired max attempts"
    ({ l with outbox, recovered := l.recovered + 1 }, copy)
  else
    let (outbox, item) := l.outbox.markFailed item "lease expired — requeued"
    ({ l with outbox, recovered := l.recovered + 1 }, item)

def requeueAll (now : TimestampMs) : OutboxLifecycle → List OutboxItem → OutboxLifecycle × List OutboxItem
  | l, [] => (l, [])
  | l, item :: items =>
    let (l, item) := l.requeueExpired now item
    let (l, items) := requeueAll now l items
    (l, item :: items)

/-- The state after the recovery, and the recovered items as it has left them; the code returns their number.
    `order` lists `l.expired now`. -/
def recoverExpiredLeases (l : OutboxLifecycle) (now : TimestampMs) (order : List Nat) :
    OutboxLifecycle × List OutboxItem :=
  let (items, l) := l.takeExpired order
  let (l, items) := l.requeueAll now items
  (if items.isEmpty then l else l.wake, items)

end OutboxLifecycle

/-! ### Calls

Publishers, any number of workers and the recovery calling one outbox lifecycle, call by call, under one
clock. A worker completes an item it has claimed at most once and at any time: the completion takes the item
out of `held`, the expiry of its lease does not. -/

namespace LifecycleCalls

/-- What happened to a copy of a key. -/
inductive Event
  | handedOut (key : String)
  | delivered (key : String)
deriving DecidableEq, Repr

def Event.key : Event → String
  | .handedOut key => key
  | .delivered key => key

structure State where
  lifecycle : OutboxLifecycle
  now : TimestampMs := 0
  /-- Claimed items that their claimer has not completed. -/
  held : List (String × OutboxItem) := []
  history : List Event := []

inductive Call
  | advance (ms : Nat)
  | publishSignal (signal : Signal)
  | claimWithLease (workerId : String)
  | completeDelivered (workerId : String) (item : OutboxItem)
  | completeFailed (workerId : String) (item : OutboxItem) (error : String)
  | recoverExpiredLeases (order : List Nat)

def initial (capacity : Nat) (claimTimeoutMs : Int) : State := { lifecycle := .new capacity claimTimeoutMs }

/-- The deliveries that a recovery records: those of the items at their last attempt. -/
def recoveryEvents (items : List OutboxItem) : List Event :=
  (items.filter fun x => decide (OutboxLifecycle.MaxAttempts x)).map (.delivered ·.dedupeKey)

def step (s : State) : Call → Option State
  | .advance ms => some { s with now := s.now + ms }
  | .publishSignal signal => some { s with lifecycle := (s.lifecycle.publishSignal signal s.now).1 }
  | .claimWithLease workerId =>
    match s.lifecycle.claimWithLease workerId s.now with
    | none => some s
    | some (item, lifecycle) => some { s with
        lifecycle
        held := s.held ++ [(workerId, item)]
        history := s.history ++ [.handedOut item.dedupeKey] }
  | .completeDelivered workerId item =>
    if (workerId, item) ∈ s.held then
      some { s with
        lifecycle := s.lifecycle.completeDelivered item s.now
        held := s.held.erase (workerId, item)
        history := s.history ++ [.delivered item.dedupeKey] }
    else none
  | .completeFailed workerId item error =>
    if (workerId, item) ∈ s.held then
      some { s with
        lifecycle := s.lifecycle.completeFailed item error
        held := s.held.erase (workerId, item) }
    else none
  | .recoverExpiredLeases order =>
    if order.Perm (s.lifecycle.expired s.now) then
      some { s with
        lifecycle := (s.lifecycle.recoverExpiredLeases s.now order).1
        history := s.history ++ recoveryEvents (s.lifecycle.takeExpired order).1 }
    else none

/-- The keys of the copies in the queue and of the leased ones. -/
def liveKeys (l : OutboxLifecycle) : List String :=
  l.outbox.items.map (·.dedupeKey) ++ l.inFlight.map (·.dedupeKey)

/-- Once `e` has recorded a delivery, no later event is about its key. -/
def Closes : Event → Event → Prop
  | .handedOut _, _ => True
  | .delivered key, e => e.key ≠ key

/-- No key has two live copies, and no copy is handed out or delivered after a recorded delivery of its key. -/
structure Exclusive (s : State) : Prop where
  single : (liveKeys s.lifecycle).Nodup
  closed : s.history.Pairwise Closes

/-- A worker completes an item only while its lease has not been recovered, and a signal is published under
    a delivered key only while the outbox remembers the key. -/
def OwnLease (s : State) : Call → Prop
  | .completeDelivered _ item => item.id ∈ s.lifecycle.leases.map (·.id)
  | .completeFailed _ item _ => item.id ∈ s.lifecycle.leases.map (·.id)
  | .publishSignal signal => .delivered signal.dedupeKey ∈ s.history → s.lifecycle.outbox.Knows signal.dedupeKey
  | _ => True

instance (s : State) : DecidablePred (OwnLease s)
  | .advance _ => .isTrue trivial
  | .claimWithLease _ => .isTrue trivial
  | .recoverExpiredLeases _ => .isTrue trivial
  | .completeDelivered .. => inferInstanceAs (Decidable (_ ∈ _))
  | .completeFailed .. => inferInstanceAs (Decidable (_ ∈ _))
  | .publishSignal _ => inferInstanceAs (Decidable (_ → _))

/-! ### Inversion -/

variable {s t : State} {w : String} {item : OutboxItem} {error : String} {order : List Nat}

theorem claimWithLease_inv (hs : step s (.claimWithLease w) = some t) :
    t = s ∨ ∃ item lifecycle, s.lifecycle.claimWithLease w s.now = some (item, lifecycle) ∧ t = { s with
      lifecycle
      held := s.held ++ [(w, item)]
      history := s.history ++ [.handedOut item.dedupeKey] } := by
  rcases hc : s.lifecycle.claimWithLease w s.now with _ | ⟨item, lifecycle⟩ <;>
    simp only [step, hc, Option.some.injEq] at hs
  · exact Or.inl hs.symm
  · exact Or.inr ⟨item, lifecycle, rfl, hs.symm⟩

theorem completeDelivered_inv (hs : step s (.completeDelivered w item) = some t) :
    (w, item) ∈ s.held ∧ t = { s with
      lifecycle := s.lifecycle.completeDelivered item s.now
      held := s.held.erase (w, item)
      history := s.history ++ [.delivered item.dedupeKey] } := by
  simp only [step] at hs
  split at hs
  · rename_i hm
    exact ⟨hm, (Option.some.inj hs).symm⟩
  · cases hs

theorem completeFailed_inv (hs : step s (.completeFailed w item error) = some t) :
    (w, item) ∈ s.held ∧ t = { s with
      lifecycle := s.lifecycle.completeFailed item error
      held := s.held.erase (w, item) } := by
  simp only [step] at hs
  split at hs
  · rename_i hm
    exact ⟨hm, (Option.some.inj hs).symm⟩
  · cases hs

theorem recoverExpiredLeases_inv (hs : step s (.recoverExpiredLeases order) = some t) :
    order.Perm (s.lifecycle.expired s.now) ∧ t = { s with
      lifecycle := (s.lifecycle.recoverExpiredLeases s.now order).1
      history := s.history ++ recoveryEvents (s.lifecycle.takeExpired order).1 } := by
  simp only [step] at hs
  split at hs
  · rename_i hp
    exact ⟨hp, (Option.some.inj hs).symm⟩
  · cases hs

end LifecycleCalls
end CrashCore
