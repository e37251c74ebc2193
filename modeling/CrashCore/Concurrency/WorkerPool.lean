import CrashCore.Concurrency.BoundedQueue
import CrashCore.Library.Run
import Mathlib.Logic.Function.Basic

/-! The worker pool (`concurrency/worker_pool.hpp`): any number of threads submit tasks while the workers pop, steal and
run them. Each operation of a queue holds its mutex and is one step. The pool is not stopped. -/

namespace CrashCore

/-- A callable stands for the call that submitted it; a moved-from task has none. -/
abbrev Task := Option Nat

namespace WorkerPool

/-- A call of `submit`, which waits for room as long as `timeoutMs` says, or of `try_submit`, which does not wait. -/
structure Call where
  id : Nat
  /-- What the variable `task` of the call holds. -/
  task : Task
  timeoutMs : Option Int

/-- The next step of a submitting thread. -/
inductive Submitter
  | idle
  /-- Reads the size of queue `i`; `best` is the shortest queue so far. -/
  | scan (call : Call) (i best bestSize : Nat)
  | pushBest (call : Call) (best : Nat)
  | pushAny (call : Call) (i : Nat)
  /-- Adds to `submits_` and returns true. -/
  | count (call : Call)
  /-- Adds to `drops_`, at the end of `try_submit` or of `submit`. -/
  | drop (call : Call)
  /-- Is in the `push` of `submit` on the first queue. -/
  | wait (call : Call) (timeoutMs : Int)

inductive Worker
  /-- Tries the queue that is `j` places behind its own. -/
  | polling (j : Nat)
  | running (task : Task)

structure State (ι : Type) where
  /-- `n_`. -/
  n : Nat
  queues : Nat → BoundedQueue Task
  workers : Nat → Worker := fun _ => .polling 0
  submitters : ι → Submitter := fun _ => .idle
  submits : Nat := 0
  drops : Nat := 0
  steals : Nat := 0
  calls : Nat := 0
  /-- The callables that were called. -/
  executed : List Nat := []
  /-- The calls that returned true. -/
  accepted : List Nat := []
  /-- The calls that returned false. -/
  refused : List Nat := []

inductive Act (ι : Type)
  /-- A thread calls `submit` or, with no timeout, `try_submit`. -/
  | submit (i : ι) (timeoutMs : Option Int)
  /-- The next step of a submitting thread. `timedOut` says whether the time of its wait is over. -/
  | go (i : ι) (timedOut : Bool)
  /-- The next step of a worker. -/
  | work (w : Nat)

variable {ι : Type} [DecidableEq ι]

def initial (numWorkers queueCapacity : Nat) : State ι where
  n := if numWorkers ≠ 0 then numWorkers else 1
  queues := fun _ => .new queueCapacity

def setSubmitter (s : State ι) (i : ι) (c : Submitter) : State ι :=
  { s with submitters := Function.update s.submitters i c }

def setQueue (s : State ι) (k : Nat) (q : BoundedQueue Task) : State ι :=
  { s with queues := Function.update s.queues k q }

def setWorker (s : State ι) (w : Nat) (c : Worker) : State ι :=
  { s with workers := Function.update s.workers w c }

/-- The call after `std::move(task)`. -/
def Call.moved (call : Call) : Call := { call with task := none }

/-- A push of the task of a call on queue `k`, which goes on at `refusal` when the queue refuses it. -/
def push (s : State ι) (i : ι) (call : Call) (k : Nat) (refusal : Submitter) : State ι :=
  match (s.queues k).tryPush call.task with
  | some q => setSubmitter (setQueue s k q) i (.count call.moved)
  | none => setSubmitter s i refusal

def go (s : State ι) (i : ι) (timedOut : Bool) : Option (State ι) :=
  match s.submitters i with
  | .idle => none
  | .scan call k best bestSize =>
    let size := (s.queues k).size
    let shorter := k = 0 ∨ size < bestSize
    let best := if shorter then k else best
    let bestSize := if shorter then size else bestSize
    some (setSubmitter s i (if k + 1 < s.n then .scan call (k + 1) best bestSize else .pushBest call best))
  | .pushBest call best => some (push s i call best (.pushAny call.moved 0))
  | .pushAny call k =>
    some (push s i call k (if k + 1 < s.n then .pushAny call.moved (k + 1) else .drop call.moved))
  | .count call =>
    some (setSubmitter { s with submits := s.submits + 1, accepted := s.accepted ++ [call.id] } i .idle)
  | .drop call =>
    let s := { s with drops := s.drops + 1 }
    match call.timeoutMs with
    | some timeoutMs => some (setSubmitter s i (.wait { call with timeoutMs := none } timeoutMs))
    | none => some (setSubmitter { s with refused := s.refused ++ [call.id] } i .idle)
  | .wait call timeoutMs =>
    if (s.queues 0).closed ∨ (s.queues 0).size < (s.queues 0).cap ∨ (timedOut ∧ 0 < timeoutMs) then
      some (push s i call 0 (.drop call.moved))
    else none

def work (s : State ι) (w : Nat) : Option (State ι) :=
  if w < s.n then
    match s.workers w with
    | .polling j =>
      let k := (w + j) % s.n
      match (s.queues k).tryPop with
      | some (task, q) =>
        some (setWorker { setQueue s k q with steals := if j = 0 then s.steals else s.steals + 1 } w (.running task))
      -- With all queues empty the worker waits for a while and starts again.
      | none => some (setWorker s w (.polling (if j + 1 < s.n then j + 1 else 0)))
    | .running task => some (setWorker { s with executed := s.executed ++ task.toList } w (.polling 0))
  else none

def step (s : State ι) : Act ι → Option (State ι)
  | .submit i timeoutMs =>
    match s.submitters i with
    | .idle =>
      let call := { id := s.calls + 1, task := some (s.calls + 1), timeoutMs }
      some (setSubmitter { s with calls := s.calls + 1 } i (.scan call 0 0 0))
    | _ => none
  | .go i timedOut => go s i timedOut
  | .work w => work s w

end WorkerPool
end CrashCore
