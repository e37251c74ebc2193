import CrashCore.Common.Types
import CrashCore.Concurrency.SpscAccesses
import CrashCore.Concurrency.SpscQueue
import CrashCore.Library.BoundedList
import CrashCore.Library.Lru
import CrashCore.Library.Run
import Mathlib.Logic.Function.Basic

/-! The router of decoded events (`ingestion/event_router.hpp`): its calls one after the other, its memory for duplicates
with nodes and iterators, and `route` called by two threads. `t0` is the reading of the steady clock. -/

namespace CrashCore

/-- `static_cast<int>(kind)`. -/
def EventKind.toNat : EventKind → Nat
  | .unknown => 0
  | .progress => 1
  | .start => 2
  | .end => 3
  | .prepare => 4
  | .betsOpen => 5
  | .betsClosed => 6
  | .heartbeat => 7
  | .connect => 8
  | .disconnect => 9
  | .error => 10

structure EventRouter where
  toPrediction : SpscQueue CrashEvent
  toValidation : SpscQueue CrashEvent
  toPersistence : SpscQueue CrashEvent
  /-- The keys in `seen_order_`, from the least to the most recent. -/
  seenOrder : List String := []
  routedPred : Nat := 0
  routedVal : Nat := 0
  routedPers : Nat := 0
  dropsPred : Nat := 0
  dropsVal : Nat := 0
  duplicates : Nat := 0
  rejected : Nat := 0

namespace EventRouter

def new (queueCapacity : Nat) : EventRouter where
  toPrediction := .new queueCapacity
  toValidation := .new queueCapacity
  toPersistence := .new queueCapacity

def maxSeen : Nat := 10000

def dedupeKey (ev : CrashEvent) : String :=
  ev.gameId ++ ":" ++ toString ev.kind.toNat ++ ":" ++ toString ev.sequence

/-- The detection of duplicates, which looks only at events with a game id. -/
def noteSeen (r : EventRouter) (ev : CrashEvent) : EventRouter × Bool :=
  if ev.gameId = "" then (r, true)
  else if dedupeKey ev ∈ r.seenOrder then
    ({ r with
        seenOrder := r.seenOrder.erase (dedupeKey ev) ++ [dedupeKey ev]
        duplicates := r.duplicates + 1 }, false)
  else ({ r with seenOrder := (r.seenOrder ++ [dedupeKey ev]).popFrontTo maxSeen }, true)

def pushValidation (r : EventRouter) (ev : CrashEvent) : EventRouter × Bool :=
  match r.toValidation.tryPush ev with
  | none => ({ r with dropsVal := r.dropsVal + 1 }, false)
  | some toValidation => ({ r with toValidation, routedVal := r.routedVal + 1 }, true)

def pushPrediction (r : EventRouter) (ev : CrashEvent) : EventRouter × Bool :=
  match r.toPrediction.tryPush ev with
  | none => ({ r with dropsPred := r.dropsPred + 1 }, false)
  | some toPrediction => ({ r with toPrediction, routedPred := r.routedPred + 1 }, true)

/-- Nobody looks at whether the event was taken. -/
def pushPersistence (r : EventRouter) (ev : CrashEvent) : EventRouter :=
  { r with toPersistence := (r.toPersistence.tryPush ev).getD r.toPersistence, routedPers := r.routedPers + 1 }

/-- An End goes to the validation and to the prediction queue, and like a Start to the persistence queue. The result
    is false when a queue was full. -/
def route (r : EventRouter) (ev : CrashEvent) (t0 : Int) : EventRouter × Bool :=
  let ev := { ev with routedAtNs := t0 }
  if ¬ev.valid then ({ r with rejected := r.rejected + 1 }, true)
  else
    match r.noteSeen ev with
    | (r, false) => (r, true)
    | (r, true) =>
      if ev.kind = .end then
        let (r, okVal) := r.pushValidation ev
        let (r, okPred) := r.pushPrediction ev
        (r.pushPersistence ev, okVal && okPred)
      else if ev.kind = .start then (r.pushPersistence ev, true)
      else (r, true)

def popValidation (r : EventRouter) : Option (CrashEvent × EventRouter) :=
  r.toValidation.tryPop.map fun (ev, toValidation) => (ev, { r with toValidation })

def popPrediction (r : EventRouter) : Option (CrashEvent × EventRouter) :=
  r.toPrediction.tryPop.map fun (ev, toPrediction) => (ev, { r with toPrediction })

def popPersistence (r : EventRouter) : Option (CrashEvent × EventRouter) :=
  r.toPersistence.tryPop.map fun (ev, toPersistence) => (ev, { r with toPersistence })

/-! ### The detection of duplicates -/

variable {r : EventRouter} {ev : CrashEvent} {t0 : Int}

/-- The router knows the key of the event. -/
def Remembers (r : EventRouter) (ev : CrashEvent) : Prop := ev.gameId ≠ "" ∧ dedupeKey ev ∈ r.seenOrder

instance (r : EventRouter) (ev : CrashEvent) : Decidable (r.Remembers ev) := inferInstanceAs (Decidable (_ ∧ _))

theorem noteSeen_eq_false : (r.noteSeen ev).2 = false ↔ ev.gameId ≠ "" ∧ dedupeKey ev ∈ r.seenOrder := by
  unfold noteSeen
  split
  · rename_i h
    exact ⟨nofun, fun hc => absurd h hc.1⟩
  · rename_i h
    split
    · rename_i hk
      exact ⟨fun _ => ⟨h, hk⟩, fun _ => rfl⟩
    · rename_i hk
      exact ⟨nofun, fun hc => absurd hc.2 hk⟩

theorem noteSeen_frame (r : EventRouter) (ev : CrashEvent) : (r.noteSeen ev).1.toValidation = r.toValidation ∧
    (r.noteSeen ev).1.toPrediction = r.toPrediction ∧ (r.noteSeen ev).1.toPersistence = r.toPersistence := by
  unfold noteSeen
  split
  · exact ⟨rfl, rfl, rfl⟩
  · split <;> exact ⟨rfl, rfl, rfl⟩

theorem noteSeen_of_old (h : r.Remembers ev) : r.noteSeen ev = ((r.noteSeen ev).1, false) :=
  Prod.ext rfl (noteSeen_eq_false.mpr h)

theorem noteSeen_of_new (h : ¬r.Remembers ev) : r.noteSeen ev = ((r.noteSeen ev).1, true) :=
  Prod.ext rfl (Bool.not_eq_false _ ▸ mt noteSeen_eq_false.mp h)

/-! ### Routing an End -/

theorem pushValidation_eq : r.pushValidation ev =
    ({ r with
        toValidation := r.toValidation.offer ev
        routedVal := if r.toValidation.Full then r.routedVal else r.routedVal + 1
        dropsVal := if r.toValidation.Full then r.dropsVal + 1 else r.dropsVal },
      decide (¬r.toValidation.Full)) := by
  unfold pushValidation SpscQueue.offer
  by_cases h : r.toValidation.Full
  · simp [SpscQueue.tryPush_eq_none.mpr h, h]
  · obtain ⟨q, hq⟩ := Option.ne_none_iff_exists'.mp (mt SpscQueue.tryPush_eq_none.mp h : r.toValidation.tryPush ev ≠ none)
    simp [hq, h]

theorem pushPrediction_eq : r.pushPrediction ev =
    ({ r with
        toPrediction := r.toPrediction.offer ev
        routedPred := if r.toPrediction.Full then r.routedPred else r.routedPred + 1
        dropsPred := if r.toPrediction.Full then r.dropsPred + 1 else r.dropsPred },
      decide (¬r.toPrediction.Full)) := by
  unfold pushPrediction SpscQueue.offer
  by_cases h : r.toPrediction.Full
  · simp [SpscQueue.tryPush_eq_none.mpr h, h]
  · obtain ⟨q, hq⟩ := Option.ne_none_iff_exists'.mp (mt SpscQueue.tryPush_eq_none.mp h : r.toPrediction.tryPush ev ≠ none)
    simp [hq, h]

/-- A valid event whose key is known stops there. -/
theorem route_valid (t0 : Int) (hv : ev.valid = true) : r.route ev t0 =
    match r.noteSeen ev with
    | (r, false) => (r, true)
    | (r, true) =>
      if ev.kind = .end then
        let (r, okVal) := r.pushValidation { ev with routedAtNs := t0 }
        let (r, okPred) := r.pushPrediction { ev with routedAtNs := t0 }
        (r.pushPersistence { ev with routedAtNs := t0 }, okVal && okPred)
      else if ev.kind = .start then (r.pushPersistence { ev with routedAtNs := t0 }, true)
      else (r, true) :=
  if_neg (not_not_intro hv)

/-- A new End is offered to all three queues. -/
structure Offered (r : EventRouter) (ev : CrashEvent) (t0 : Int) : Prop where
  taken : (r.route ev t0).2 = true ↔ ¬r.toValidation.Full ∧ ¬r.toPrediction.Full
  validation : (r.route ev t0).1.toValidation = r.toValidation.offer { ev with routedAtNs := t0 }
  prediction : (r.route ev t0).1.toPrediction = r.toPrediction.offer { ev with routedAtNs := t0 }
  persistence : (r.route ev t0).1.toPersistence = r.toPersistence.offer { ev with routedAtNs := t0 }
  noted : (r.route ev t0).1.seenOrder = (r.noteSeen ev).1.seenOrder

theorem route_newEnd (t0 : Int) (hv : ev.valid = true) (hk : ev.kind = .end) (hnew : ¬r.Remembers ev) :
    r.Offered ev t0 := by
  obtain ⟨hval, hpred, hpers⟩ := noteSeen_frame r ev
  have hroute : r.route ev t0 =
      ((((r.noteSeen ev).1.pushValidation { ev with routedAtNs := t0 }).1.pushPrediction
        { ev with routedAtNs := t0 }).1.pushPersistence { ev with routedAtNs := t0 },
        ((r.noteSeen ev).1.pushValidation { ev with routedAtNs := t0 }).2 &&
          (((r.noteSeen ev).1.pushValidation { ev with routedAtNs := t0 }).1.pushPrediction
            { ev with routedAtNs := t0 }).2) := by
    rw [route_valid t0 hv, noteSeen_of_new hnew]
    exact if_pos hk
  rw [pushValidation_eq, pushPrediction_eq] at hroute
  refine ⟨?_, ?_, ?_, ?_, ?_⟩
  · rw [hroute, ← hval, ← hpred]
    simp
  · rw [hroute, ← hval]
    rfl
  · rw [hroute, ← hpred]
    rfl
  · rw [hroute, ← hpers]
    rfl
  · rw [hroute]
    rfl

/-- Anything else does not reach the two queues. -/
theorem route_other (t0 : Int) (h : ev.valid = true → ev.kind = .end → ¬¬r.Remembers ev) :
    (r.route ev t0).1.toPrediction = r.toPrediction ∧ (r.route ev t0).1.toValidation = r.toValidation := by
  obtain ⟨hval, hpred, -⟩ := noteSeen_frame r ev
  by_cases hv : ev.valid = true
  swap
  · simp [route, hv]
  rw [route_valid t0 hv]
  by_cases hold : r.Remembers ev
  · rw [noteSeen_of_old hold]
    exact ⟨hpred, hval⟩
  · have hk : ¬ev.kind = .end := fun hk => h hv hk hold
    rw [noteSeen_of_new hold]
    dsimp only
    rw [if_neg hk]
    split <;> exact ⟨hpred, hval⟩

/-! ### What reaches the validation queue -/

/-- The router does not put the End into the validation queue: its key was seen, or the queue is full. -/
def Refuses (r : EventRouter) (ev : CrashEvent) : Prop :=
  (ev.gameId ≠ "" ∧ dedupeKey ev ∈ r.seenOrder) ∨ r.toValidation.Full

instance (r : EventRouter) (ev : CrashEvent) : Decidable (r.Refuses ev) := inferInstanceAs (Decidable (_ ∨ _))

/-- A valid End gets behind the others in the queue, unless the router refuses it. -/
theorem route_end (t0 : Int) (hk : ev.kind = .end) (hv : ev.valid = true) :
    (r.Refuses ev ∧ (r.route ev t0).1.toValidation = r.toValidation) ∨
    (¬r.Refuses ev ∧ (r.route ev t0).1.toValidation.items = r.toValidation.items ++ [{ ev with routedAtNs := t0 }]) := by
  by_cases hold : r.Remembers ev
  · refine Or.inl ⟨Or.inl hold, ?_⟩
    rw [route_valid t0 hv, noteSeen_of_old hold]
    exact (noteSeen_frame r ev).1
  · rw [(route_newEnd t0 hv hk hold).validation]
    by_cases hfull : r.toValidation.Full
    · exact Or.inl ⟨Or.inr hfull, SpscQueue.offer_of_full hfull⟩
    · exact Or.inr ⟨fun hc => hc.elim hold hfull, SpscQueue.items_offer hfull⟩

theorem popValidation_eq_some {r' : EventRouter} (h : r.popValidation = some (ev, r')) :
    r.toValidation.items = ev :: r'.toValidation.items := by
  obtain ⟨⟨x, q⟩, hpop, heq⟩ := Option.map_eq_some_iff.mp h
  cases heq
  exact SpscQueue.tryPop_eq_some hpop

theorem popPrediction_eq_some {r' : EventRouter} (h : r.popPrediction = some (ev, r')) :
    r'.toValidation = r.toValidation := by
  obtain ⟨⟨x, q⟩, hpop, heq⟩ := Option.map_eq_some_iff.mp h
  cases heq
  rfl

end EventRouter

/-! ### The memory for duplicates

With its nodes and iterators, and the calls of a router in any order. -/

/-- `seen_order_` and `seen_map_`. -/
abbrev SeenNodes := LinkedMap String String

/-- Whether the key was seen before. -/
def SeenNodes.note (seen : SeenNodes) (k : String) : Option (Bool × SeenNodes) :=
  match seen.find k with
  | some it => (seen.spliceToEnd it).map (true, ·)
  | none => do
    let seen := seen.pushBack k
    let it ← seen.last
    let seen ← (seen.bind k it).evict id EventRouter.maxSeen
    return (false, seen)

/-- The memory after the keys were noted one after the other. -/
def SeenNodes.noteAll (seen : SeenNodes) : List String → Option SeenNodes
  | [] => some seen
  | k :: ks => do
    let (_, seen) ← seen.note k
    seen.noteAll ks

namespace EventRouter

/-- `t0` is the reading of the steady clock. -/
inductive Call
  | route (ev : CrashEvent) (t0 : Int)
  | popPrediction
  | popValidation
  | popPersistence

/-- A pop of an empty queue changes nothing. -/
def call (r : EventRouter) : Call → EventRouter
  | .route ev t0 => (r.route ev t0).1
  | .popPrediction => (r.popPrediction.map (·.2)).getD r
  | .popValidation => (r.popValidation.map (·.2)).getD r
  | .popPersistence => (r.popPersistence.map (·.2)).getD r

/-- The detection of duplicates looks at the event. -/
def Keyed (ev : CrashEvent) : Prop := ev.valid = true ∧ ev.gameId ≠ ""

instance (ev : CrashEvent) : Decidable (Keyed ev) := inferInstanceAs (Decidable (_ ∧ _))

/-- The key that a call routes. -/
def Call.key : Call → Option String
  | .route ev _ => if Keyed ev then some (dedupeKey ev) else none
  | _ => none

/-- The call counts a duplicate and puts nothing into a queue. -/
def ReportsDuplicate (r : EventRouter) (ev : CrashEvent) (t0 : Int) : Prop :=
  (r.route ev t0).1.duplicates = r.duplicates + 1 ∧ (r.route ev t0).2 = true ∧
    (r.route ev t0).1.toPrediction = r.toPrediction ∧ (r.route ev t0).1.toValidation = r.toValidation ∧
    (r.route ev t0).1.toPersistence = r.toPersistence

end EventRouter

/-! ### Two threads

`route` called by two threads, one access of a queue at a time, while the main loop pops. The detection of duplicates is
one step, since it runs under `dedupe_mu_`; the statistics are left out. -/

/-- The threads that call `route`: the reader of the socket and the poll worker. -/
inductive RouterThread
  | socket | pollWorker
deriving DecidableEq

def RouterThread.other : RouterThread → RouterThread
  | .socket => .pollWorker
  | .pollWorker => .socket

/-- In the order in which `route` pushes an End. -/
inductive RouterQueue
  | validation | prediction | persistence
deriving DecidableEq

/-- The place of a queue among the pushes of one call. -/
def RouterQueue.rank : RouterQueue → Nat
  | .validation => 0
  | .prediction => 1
  | .persistence => 2

theorem RouterQueue.rank_injective {q q' : RouterQueue} (h : q.rank = q'.rank) : q = q' := by
  cases q <;> cases q' <;> first | rfl | cases h

/-- An element of a queue with the call of `route` that it comes from; calls are counted from one. -/
structure Routed where
  call : Nat
  event : CrashEvent

instance : Inhabited Routed := ⟨{ call := 0, event := {} }⟩

namespace RouterThreads

/-- Where a thread stands: in `try_push(ev)` on a queue, with the result `ok` of `route` so far. -/
inductive Caller
  | idle
  | pushing (q : RouterQueue) (stage : SpscCells.Push) (x : Routed) (ok : Bool)

structure State where
  queues : RouterQueue → SpscChannel Routed
  seenOrder : List String := []
  calls : Nat := 0
  callers : RouterThread → Caller := fun _ => .idle
  /-- The valid Ends that were no duplicates and for which `route` returned true. -/
  accepted : List Routed := []

inductive Act
  /-- The thread calls `route` and runs up to its first access of a queue. `t0` is the reading of the steady clock. -/
  | route (i : RouterThread) (ev : CrashEvent) (t0 : Int)
  /-- The next access of a thread in `try_push`. -/
  | push (i : RouterThread)
  /-- The next access of the main loop in the `try_pop` of a queue. -/
  | pop (q : RouterQueue)

def initial (queueCapacity : Nat) : State := { queues := fun _ => .new queueCapacity }

/-- The detection of duplicates: the keys after it, and whether the event goes on. -/
def noteKey (seenOrder : List String) (ev : CrashEvent) : List String × Bool :=
  if ev.gameId = "" then (seenOrder, true)
  else if EventRouter.dedupeKey ev ∈ seenOrder then
    (seenOrder.erase (EventRouter.dedupeKey ev) ++ [EventRouter.dedupeKey ev], false)
  else ((seenOrder ++ [EventRouter.dedupeKey ev]).popFrontTo EventRouter.maxSeen, true)

/-- The router of a single thread notes the same keys. -/
theorem noteKey_eq (r : EventRouter) (ev : CrashEvent) :
    noteKey r.seenOrder ev = ((r.noteSeen ev).1.seenOrder, (r.noteSeen ev).2) := by
  unfold noteKey EventRouter.noteSeen
  split
  · rfl
  · split <;> rfl

def setCaller (s : State) (i : RouterThread) (c : Caller) : State :=
  { s with callers := Function.update s.callers i c }

def setQueue (s : State) (q : RouterQueue) (c : SpscChannel Routed) : State :=
  { s with queues := Function.update s.queues q c }

/-- `route` up to the first push. -/
def route (s : State) (i : RouterThread) (ev : CrashEvent) (t0 : Int) : State :=
  let ev := { ev with routedAtNs := t0 }
  let s := { s with calls := s.calls + 1 }
  if ¬ev.valid then s
  else
    match noteKey s.seenOrder ev with
    | (seenOrder, false) => { s with seenOrder }
    | (seenOrder, true) =>
      let s := { s with seenOrder }
      let x : Routed := { call := s.calls, event := ev }
      if ev.kind = .end then setCaller s i (.pushing .validation .loadTail x true)
      else if ev.kind = .start then setCaller s i (.pushing .persistence .loadTail x true)
      else s

/-- What `route` does when `try_push` returns: on to the next queue, or its own return. -/
def pushed (s : State) (i : RouterThread) (x : Routed) (ok taken : Bool) : RouterQueue → State
  | .validation => setCaller s i (.pushing .prediction .loadTail x (ok && taken))
  | .prediction => setCaller s i (.pushing .persistence .loadTail x (ok && taken))
  | .persistence =>
    setCaller { s with accepted := if x.event.kind = .end ∧ ok then s.accepted ++ [x] else s.accepted } i .idle

def step (s : State) : Act → Option State
  | .route i ev t0 =>
    match s.callers i with
    | .idle => some (route s i ev t0)
    | _ => none
  | .push i =>
    match s.callers i with
    | .idle => none
    | .pushing q stage x ok =>
      match (s.queues q).push x stage with
      | (c, .goesOn stage) => some (setCaller (setQueue s q c) i (.pushing q stage x ok))
      | (c, .returns taken) => some (pushed (setQueue s q c) i x ok taken q)
  | .pop q => some (setQueue s q (s.queues q).pop)

end RouterThreads
end CrashCore
