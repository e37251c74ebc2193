import CrashCore.Library.Run
import CrashCore.Persistence.BatchWriter
import Mathlib.Data.List.Infix

/-! The batch writer neither loses nor repeats an item. What is on its way stands in order in the batch, in the buffer, in
the hand of the worker and in the queue; the worker and `stop` never work at the same time, and `stop` leaves a closed and
empty queue. -/

namespace CrashCore
namespace BatchWriter
open Transition

variable {α : Type} {sql : α → String} {s t : State α} {execution : Execution} {c : Call α} {held : List α}

/-- Items are passed in the order in which they were pushed, and all of them when `stop` returns. Each one passed is then
    counted on both sides, if no call of `enqueue` has still to count. -/
structure Conserved (s : State α) : Prop where
  inOrder : s.passed <+: s.accepted
  all : s.stop = .returned → s.passed = s.accepted
  counted : s.stop = .returned → s.counting = 0 → s.enqueued = s.written + s.errors + s.offlineDrops

/-! ### The invariant -/

/-- The items that `flush` has taken and not passed on. -/
def Call.batch : Call α → List α
  | .drain batch => batch
  | .swap | .write _ => []

/-- The items that `writeBatch` has not reached. -/
def Call.rest : Call α → List α
  | .write rest => rest
  | .swap | .drain _ => []

/-- After the swap there is nothing in the buffer, up to the call of `writeBatch`. -/
def Call.Swapped (s : State α) : Call α → Prop
  | .drain _ => s.buffer = []
  | .swap | .write _ => True

/-- For a call from `stop`: there is nothing left behind it. -/
def Call.Emptied (s : State α) : Call α → Prop
  | .write _ => s.buffer = [] ∧ s.queue.items = []
  | .swap | .drain _ => True

def Worker.call : Worker α → Option (Call α)
  | .calling call => some call
  | _ => none

def Worker.hand : Worker α → List α
  | .holding item => [item]
  | _ => []

def Worker.Ended : Worker α → Prop
  | .absent | .finished => True
  | _ => False

def Stop.call : Stop α → Option (Call α)
  | .flushing call => some call
  | _ => none

/-- The call that is going on, in one of the two threads. -/
def current (s : State α) : Option (Call α) := s.worker.call.or s.stop.call

/-- How `stop` has left the writer so far. -/
def Stop.Reached (s : State α) : Stop α → Prop
  | .notCalled => s.running = false → s.worker.Ended
  | .closing => True
  | .joining => s.queue.closed = true
  | .flushing call => s.queue.closed = true ∧ s.worker.Ended ∧ call.Emptied s
  | .returned => s.queue.closed = true ∧ s.worker.Ended ∧ s.buffer = [] ∧ s.queue.items = []

/-- The call `c` is going on, and the worker holds the items `held`. -/
structure Ordered (s : State α) (c : Option (Call α)) (held : List α) : Prop where
  order : s.passed ++ (c.elim [] Call.batch ++ s.buffer ++ held ++ s.queue.items) = s.accepted
  counted : s.enqueued + s.counting = s.accepted.length
  written : s.written + s.errors + s.offlineDrops + (c.elim [] Call.rest).length = s.passed.length
  swapped : ∀ call ∈ c, call.Swapped s

structure Inv (s : State α) : Prop where
  ordered : Ordered s (current s) s.worker.hand
  reached : s.stop.Reached s

theorem inv_initial (batchSize queueCapacity : Nat) : Inv (initial batchSize queueCapacity : State α) where
  ordered := ⟨rfl, rfl, rfl, fun _ h => by cases h⟩
  reached := fun _ => trivial

theorem Worker.Ended.hand {worker : Worker α} (h : worker.Ended) : worker.hand = [] := by
  cases worker with
  | absent | finished => rfl
  | looping | popping | idle | holding _ | calling _ => cases h

theorem Worker.Ended.call {worker : Worker α} (h : worker.Ended) : worker.call = none := by
  cases worker with
  | absent | finished => rfl
  | looping | popping | idle | holding _ | calling _ => cases h

theorem Inv.conserved (h : Inv s) : Conserved s := by
  have hend : s.stop = .returned → s.passed = s.accepted ∧ current s = none := by
    intro hstop
    have hreached := h.reached
    rw [hstop] at hreached
    obtain ⟨-, hended, hbuffer, hqueue⟩ := hreached
    have hcurrent : current s = none := by
      rw [current, Worker.Ended.call hended, hstop]
      rfl
    have horder := h.ordered.order
    rw [hcurrent, hbuffer, Worker.Ended.hand hended, hqueue] at horder
    exact ⟨by simpa using horder, hcurrent⟩
  refine ⟨⟨_, h.ordered.order⟩, fun hstop => (hend hstop).1, fun hstop hcounting => ?_⟩
  obtain ⟨hall, hcurrent⟩ := hend hstop
  have hcounted := h.ordered.counted
  have hwritten := h.ordered.written
  rw [hcounting, Nat.add_zero] at hcounted
  rw [hcurrent, Option.elim_none, List.length_nil, Nat.add_zero] at hwritten
  rw [hcounted, hwritten, hall]

/-- The order of the items does not depend on what the threads do next. -/
theorem Ordered.goOn {call : Option (Call α)} (h : Ordered s call held) (running : Bool) (worker : Worker α)
    (stop : Stop α) : Ordered { s with running, worker, stop } call held :=
  ⟨h.order, h.counted, h.written, h.swapped⟩

/-! ### Steps of a call -/

section
variable (sql)

/-- An item is written, or counted as an error or as an offline drop. -/
theorem Ordered.writeItem {item : α} {rest : List α} (h : Ordered s (some (.write (item :: rest))) held)
    (execution : Execution) : Ordered (writeItem sql s item execution) (some (.write rest)) held := by
  have hwritten := h.written
  simp only [Option.elim_some, Call.rest, List.length_cons] at hwritten
  cases execution with
  | done | failed | offline =>
    refine ⟨h.order, h.counted, ?_, fun _ hc => by cases hc; trivial⟩
    simp only [BatchWriter.writeItem, Option.elim_some, Call.rest]
    omega

/-- A call moves items only forward. -/
theorem Ordered.callStep (h : Ordered s (some c) []) (execution : Execution) :
    Ordered (callStep sql s execution c).1 (callStep sql s execution c).2 [] := by
  have horder := h.order
  have hwritten := h.written
  cases c with
  | swap =>
    refine ⟨?_, h.counted, h.written, fun _ hc => by cases hc; rfl⟩
    simpa [BatchWriter.callStep, Call.batch] using horder
  | drain batch =>
    have hbuffer : s.buffer = [] := h.swapped _ rfl
    simp only [Option.elim_some, Call.batch, hbuffer, List.append_nil] at horder
    rw [BatchWriter.callStep]
    split
    · rename_i item queue hpop
      obtain ⟨hitems, -, -⟩ := BoundedQueue.tryPop_eq_some hpop
      refine ⟨?_, h.counted, h.written, fun _ hc => by cases hc; exact hbuffer⟩
      rw [hitems] at horder
      simpa [Call.batch, hbuffer] using horder
    · refine ⟨?_, h.counted, ?_, fun _ hc => by cases hc; trivial⟩
      · simpa [Call.batch, hbuffer] using horder
      · simp only [Option.elim_some, Call.rest, List.length_nil] at hwritten
        simp only [Option.elim_some, Call.rest, List.length_append]
        omega
  | write rest =>
    cases rest with
    | nil => exact ⟨horder, h.counted, hwritten, fun _ hc => by cases hc⟩
    | cons item rest => exact h.writeItem sql execution

/-- A call touches neither of the two threads. -/
theorem callStep_frame (execution : Execution) : (callStep sql s execution c).1.worker = s.worker ∧
    (callStep sql s execution c).1.stop = s.stop ∧
    (callStep sql s execution c).1.queue.closed = s.queue.closed ∧
    (callStep sql s execution c).1.running = s.running := by
  cases c with
  | swap => exact ⟨rfl, rfl, rfl, rfl⟩
  | drain batch =>
    rw [callStep]
    split
    · rename_i item queue hpop
      exact ⟨rfl, rfl, (BoundedQueue.tryPop_eq_some hpop).2.2, rfl⟩
    · exact ⟨rfl, rfl, rfl, rfl⟩
  | write rest =>
    cases rest with
    | nil => exact ⟨rfl, rfl, rfl, rfl⟩
    | cons item rest => cases execution <;> exact ⟨rfl, rfl, rfl, rfl⟩

/-- A call that begins with the swap leaves nothing behind. -/
theorem callStep_emptied (execution : Execution) (hswapped : c.Swapped s) (hemptied : c.Emptied s) :
    match callStep sql s execution c with
    | (t, some call) => call.Emptied t
    | (t, none) => t.buffer = [] ∧ t.queue.items = [] := by
  cases c with
  | swap => trivial
  | drain batch =>
    rw [callStep]
    cases hpop : s.queue.tryPop with
    | some p => trivial
    | none => exact ⟨hswapped, BoundedQueue.tryPop_eq_none.mp hpop⟩
  | write rest =>
    cases rest with
    | nil => exact hemptied
    | cons item rest => cases execution <;> exact hemptied

end

/-! ### Steps of the worker -/

/-- As long as the worker goes on, no call of `stop` is going on. -/
theorem Inv.stop_call (h : Inv s) (hgoes : ¬s.worker.Ended) : s.stop.call = none := by
  have hreached := h.reached
  cases hs : s.stop with
  | notCalled | closing | joining | returned => rfl
  | flushing c =>
    rw [hs] at hreached
    exact absurd hreached.2.1 hgoes

theorem Inv.worker_ordered (h : Inv s) {worker : Worker α} (hworker : s.worker = worker) (hgoes : ¬worker.Ended) :
    Ordered s worker.call worker.hand := by
  subst hworker
  have hordered := h.ordered
  rwa [current, h.stop_call hgoes, Option.or_none] at hordered

/-- A step of a worker that goes on. -/
theorem Inv.worked (h : Inv s) {worker : Worker α} (hworker : s.worker = worker) (hgoes : ¬worker.Ended)
    (hstop : t.stop = s.stop) (hrunning : t.running = s.running) (hclosed : t.queue.closed = s.queue.closed)
    (hordered : Ordered t t.worker.call t.worker.hand) : Inv t where
  ordered := by
    subst hworker
    rwa [current, hstop, h.stop_call hgoes, Option.or_none]
  reached := by
    subst hworker
    have hreached := h.reached
    rw [hstop]
    cases hs : s.stop with
    | notCalled =>
      rw [hs] at hreached
      exact fun hrun => absurd (hreached (hrunning ▸ hrun)) hgoes
    | closing => trivial
    | joining =>
      rw [hs] at hreached
      exact hclosed.trans hreached
    | flushing c | returned =>
      rw [hs] at hreached
      exact absurd hreached.2.1 hgoes

/-- The popped item comes into the buffer, and a full buffer is passed on. -/
theorem Inv.hold (h : Inv s) {item : α} (hworker : s.worker = .holding item) (hs : work sql s execution = some t) :
    Inv t := by
  have hordered := h.worker_ordered hworker id
  have horder := hordered.order
  have hwritten := hordered.written
  rw [BatchWriter.work, hworker] at hs
  dsimp only at hs
  split at hs <;> cases hs
  · refine h.worked hworker id rfl rfl rfl ⟨?_, hordered.counted, ?_, fun _ hc => by cases hc; trivial⟩
    · simpa [Worker.hand, Worker.call, Call.batch] using horder
    · simp only [Worker.call, Option.elim_none, List.length_nil] at hwritten
      simp only [Worker.call, Option.elim_some, Call.rest, List.length_append]
      omega
  · refine h.worked hworker id rfl rfl rfl ⟨?_, hordered.counted, hwritten, fun _ hc => by cases hc⟩
    simpa [Worker.hand, Worker.call] using horder

theorem Inv.call (h : Inv s) (hworker : s.worker = .calling c) (hs : work sql s execution = some t) : Inv t := by
  have hordered := h.worker_ordered hworker id
  have hnext := Ordered.callStep sql hordered execution
  obtain ⟨-, hstop, hclosed, hrunning⟩ := callStep_frame sql (s := s) (c := c) execution
  rw [BatchWriter.work, hworker] at hs
  dsimp only at hs
  split at hs <;> rename_i hcall <;> rw [hcall] at hnext hstop hclosed hrunning <;> cases hs
  · exact h.worked hworker id hstop hrunning hclosed (hnext.goOn _ _ _)
  · exact h.worked hworker id hstop hrunning hclosed (hnext.goOn _ _ _)

theorem Inv.work (h : Inv s) (hs : work sql s execution = some t) : Inv t := by
  cases hworker : s.worker with
  | absent | finished =>
    rw [BatchWriter.work, hworker] at hs
    cases hs
  | looping =>
    have hordered := h.worker_ordered hworker id
    rw [BatchWriter.work, hworker] at hs
    cases hs
    refine h.worked hworker id rfl rfl rfl ?_
    dsimp only
    split
    · exact hordered.goOn _ _ _
    · exact hordered.goOn _ _ _
  | popping =>
    have hordered := h.worker_ordered hworker id
    rw [BatchWriter.work, hworker] at hs
    dsimp only at hs
    split at hs <;> cases hs
    · rename_i item queue hpop
      obtain ⟨hitems, -, hclosed⟩ := BoundedQueue.tryPop_eq_some hpop
      refine h.worked hworker id rfl rfl hclosed ⟨?_, hordered.counted, hordered.written, fun _ hc => by cases hc⟩
      have horder := hordered.order
      rw [hitems] at horder
      simpa [Worker.hand, Worker.call] using horder
    · exact h.worked hworker id rfl rfl rfl (hordered.goOn _ _ _)
  | idle =>
    have hordered := h.worker_ordered hworker id
    rw [BatchWriter.work, hworker] at hs
    cases hs
    refine h.worked hworker id rfl rfl rfl ?_
    dsimp only
    split
    · exact ⟨hordered.order, hordered.counted, hordered.written, fun _ hc => by cases hc; trivial⟩
    · exact hordered.goOn _ _ _
  | holding item => exact h.hold hworker hs
  | calling c => exact h.call hworker hs

/-! ### Steps of `stop` -/

theorem Inv.ended_ordered (h : Inv s) (hended : s.worker.Ended) : Ordered s s.stop.call [] := by
  have hordered := h.ordered
  rwa [current, hended.call, hended.hand] at hordered

theorem Inv.of_ended (hended : s.worker.Ended) (hordered : Ordered s s.stop.call []) (hreached : s.stop.Reached s) :
    Inv s where
  ordered := by
    rwa [current, hended.call, hended.hand]
  reached := hreached

theorem Inv.join (h : Inv s) (hstop : s.stop = .joining) (hended : s.worker.Ended) :
    Inv { s with stop := .flushing .swap } := by
  have hordered := h.ended_ordered hended
  have hclosed : s.queue.closed = true := by
    have hreached := h.reached
    rwa [hstop] at hreached
  rw [hstop] at hordered
  exact .of_ended hended ⟨hordered.order, hordered.counted, hordered.written, fun _ hc => by cases hc; trivial⟩
    ⟨hclosed, hended, trivial⟩

theorem Inv.stop (h : Inv s) (hs : stop sql s execution = some t) : Inv t := by
  have hordered := h.ordered
  have hreached := h.reached
  rw [BatchWriter.stop] at hs
  split at hs <;> rename_i hstop
  · cases hs
    rw [current, hstop] at hordered
    exact ⟨hordered.goOn _ _ _, trivial⟩
  · cases hs
    rw [current, hstop] at hordered
    exact ⟨⟨hordered.order, hordered.counted, hordered.written, hordered.swapped⟩, rfl⟩
  · split at hs <;> rename_i hworker <;> cases hs
    · exact h.join hstop (by rw [hworker]; trivial)
    · exact h.join hstop (by rw [hworker]; trivial)
  · rename_i c
    rw [hstop] at hreached
    obtain ⟨hclosed, hended, hemptied⟩ := hreached
    have hordered := h.ended_ordered hended
    rw [hstop] at hordered
    have hnext := Ordered.callStep sql hordered execution
    have hleft := callStep_emptied sql execution (hordered.swapped c rfl) hemptied
    obtain ⟨hworker, -, hclosed', -⟩ := callStep_frame sql (s := s) (c := c) execution
    have hended' : (callStep sql s execution c).1.worker.Ended := hworker.symm ▸ hended
    split at hs <;> rename_i hcall <;> rw [hcall] at hnext hleft hclosed' hended' <;> cases hs
    · exact .of_ended hended' (hnext.goOn _ _ _) ⟨hclosed'.trans hclosed, hended', hleft⟩
    · exact .of_ended hended' (hnext.goOn _ _ _) ⟨hclosed'.trans hclosed, hended', hleft⟩
  · cases hs

/-! ### Steps of `start` and `enqueue` -/

theorem Inv.start (h : Inv s) (hstop : s.stop = .notCalled) : Inv (start s) := by
  rw [BatchWriter.start]
  split
  · exact h
  rename_i hrunning
  have hended : s.worker.Ended := by
    have hreached := h.reached
    rw [hstop] at hreached
    exact hreached (by simpa using hrunning)
  have hordered := h.ordered
  rw [current, hended.call, hended.hand] at hordered
  refine ⟨hordered.goOn _ _ _, ?_⟩
  show s.stop.Reached _
  rw [hstop]
  exact fun hstopped => by cases hstopped

theorem Inv.push (h : Inv s) (item : α) : Inv (push s item) := by
  have hordered := h.ordered
  rw [BatchWriter.push]
  split
  · rename_i queue hpush
    obtain ⟨hopen, -, hitems, -, hclosed⟩ := BoundedQueue.tryPush_eq_some hpush
    have horder := hordered.order
    refine ⟨⟨?_, ?_, hordered.written, hordered.swapped⟩, ?_⟩
    · rw [hitems, ← horder]
      simp [current]
    · rw [List.length_append, List.length_singleton, ← hordered.counted]
      rfl
    · have hreached := h.reached
      show s.stop.Reached _
      cases hstop : s.stop with
      | notCalled =>
        rw [hstop] at hreached
        exact hreached
      | closing => trivial
      | joining | flushing _ | returned =>
        rw [hstop] at hreached
        simp [Stop.Reached, hopen] at hreached
  · exact ⟨⟨hordered.order, hordered.counted, hordered.written, hordered.swapped⟩, h.reached⟩

theorem step_inv {a : Act α} (h : Inv s) (hs : step sql s a = some t) : Inv t := by
  cases a with
  | start =>
    simp only [step] at hs
    split at hs
    · rename_i hstop
      cases hs
      exact h.start hstop
    · cases hs
  | push item =>
    cases hs
    exact h.push item
  | count =>
    simp only [step] at hs
    split at hs <;> cases hs
    have hcounted := h.ordered.counted
    refine ⟨⟨h.ordered.order, ?_, h.ordered.written, h.ordered.swapped⟩, h.reached⟩
    dsimp only
    omega
  | drop =>
    simp only [step] at hs
    split at hs <;> cases hs
    exact ⟨⟨h.ordered.order, h.ordered.counted, h.ordered.written, h.ordered.swapped⟩, h.reached⟩
  | work execution => exact h.work hs
  | stop execution => exact h.stop hs

/-- For every batch size, queue and database: when `stop` returns, the items that were pushed have been passed to
    `writeBatch`, each of them once and in order, and `enqueued()` is the sum of the other counters as soon as all calls of
    `enqueue` have counted. -/
theorem conserved_of_reaches (batchSize queueCapacity : Nat)
    (hr : Reaches (step sql) anyStep (initial batchSize queueCapacity) s) : Conserved s :=
  (hr.invariant (inv_initial batchSize queueCapacity) fun _ _ _ h _ hs => step_inv h hs).conserved

/-- Batches of two items, and a queue with room for two: one item is not executed, one finds no connection, and the
    queue refuses one when it is full and one when it is closed. -/
def twoBatches : List (Act Nat) :=
  List.flatten
    [[.start, .push 1, .count], List.replicate 3 (.work .done), [.push 2, .count], List.replicate 4 (.work .done),
      [.work .offline], [.push 3, .count, .push 4, .push 5, .drop], List.replicate 2 (.stop .done),
      [.count, .push 6, .drop], List.replicate 2 (.work .done), List.replicate 5 (.stop .done), [.stop .failed],
      List.replicate 2 (.stop .done)]

theorem twoBatches_conserved : ∃ s, run (step fun _ => "") (initial 2 2) twoBatches = some s ∧
    (s.passed = [1, 2, 3, 4] ∧ s.enqueued = 4 ∧ s.written = 2 ∧ s.errors = 1 ∧ s.offlineDrops = 1 ∧ s.drops = 2) ∧
    Conserved s := by
  have hrun : (run (step fun _ => "") (initial 2 2) twoBatches).map
      (fun s => (s.passed, s.enqueued, s.written, s.errors, s.offlineDrops, s.drops)) =
        some ([1, 2, 3, 4], 4, 2, 1, 1, 2) := by decide +kernel
  obtain ⟨s, hs, heq⟩ := Option.map_eq_some_iff.mp hrun
  exact ⟨s, hs, by simpa using heq, conserved_of_reaches 2 2 (Reaches.of_run (meets_anyStep ..) hs)⟩

/-- `stop` comes between the push of a call of `enqueue` and its `++enqueued_`. -/
def stopBeforeCount : List (Act Nat) := .push 1 :: List.replicate 8 (.stop .done)

theorem stopBeforeCount_not_counted : ¬∀ s : State Nat, Reaches (step fun _ => "") anyStep (initial 1 1) s →
    s.stop = .returned → s.passed = s.accepted ∧ s.enqueued = s.written + s.errors + s.offlineDrops := by
  intro h
  have hrun : (run (step fun _ => "") (initial 1 1) stopBeforeCount).map
      (fun s => (s.stop, s.enqueued, s.written, s.errors, s.offlineDrops)) = some (.returned, 0, 1, 0, 0) := by
    decide +kernel
  obtain ⟨s, hs, heq⟩ := Option.map_eq_some_iff.mp hrun
  obtain ⟨hstop, henqueued, hwritten, herrors, hoffline⟩ :
      s.stop = .returned ∧ s.enqueued = 0 ∧ s.written = 1 ∧ s.errors = 0 ∧ s.offlineDrops = 0 := by simpa using heq
  have hcounted := (h s (Reaches.of_run (meets_anyStep ..) hs) hstop).2
  rw [henqueued, hwritten, herrors, hoffline] at hcounted
  cases hcounted

end BatchWriter
end CrashCore
