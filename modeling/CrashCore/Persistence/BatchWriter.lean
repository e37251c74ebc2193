import CrashCore.Concurrency.BoundedQueue

/-! The batch writer (`persistence/batch_writer.hpp`): any number of threads enqueue items, one worker thread writes them
in batches, and `stop` writes what is left. Each critical section, each item of a batch and each change of an atomic
counter is one step. -/

namespace CrashCore
namespace BatchWriter

/-- What becomes of a statement. -/
inductive Execution
  | done
  | failed
  /-- There is no database, or no connection to it. -/
  | offline

/-- The next step of a call of `flush` or of `writeBatch`. -/
inductive Call (α : Type)
  /-- Takes the buffer. -/
  | swap
  /-- Takes the remainder of the queue. -/
  | drain (batch : List α)
  /-- Writes the items of the batch that are left. -/
  | write (rest : List α)
  deriving DecidableEq

/-- The next step of the worker thread. -/
inductive Worker (α : Type)
  | absent
  /-- Reads `running_`, which is false whenever the stop of the thread is requested. -/
  | looping
  | popping
  /-- Its `pop` has returned without an item. -/
  | idle
  | holding (item : α)
  | calling (call : Call α)
  | finished

/-- The next step of `stop`. -/
inductive Stop (α : Type)
  | notCalled
  /-- `running_` is false. -/
  | closing
  | joining
  | flushing (call : Call α)
  | returned
  deriving DecidableEq

structure State (α : Type) where
  batchSize : Nat
  queue : BoundedQueue α
  buffer : List α := []
  offlineLog : List String := []
  running : Bool := false
  written : Nat := 0
  enqueued : Nat := 0
  drops : Nat := 0
  errors : Nat := 0
  offlineDrops : Nat := 0
  worker : Worker α := .absent
  stop : Stop α := .notCalled
  /-- The calls of `enqueue` that have pushed their item and not added to `enqueued_` yet. -/
  counting : Nat := 0
  /-- The calls of `enqueue` whose push has failed and that have not added to `drops_` yet. -/
  dropping : Nat := 0
  /-- The items that were pushed. -/
  accepted : List α := []
  /-- The items of the batches that `writeBatch` was called with. -/
  passed : List α := []

inductive Act (α : Type)
  | start
  /-- The `try_push` of a call of `enqueue`. -/
  | push (item : α)
  /-- `++enqueued_` -/
  | count
  /-- `++drops_` -/
  | drop
  /-- The next step of the worker. -/
  | work (execution : Execution)
  /-- The call of `stop`, or its next step. -/
  | stop (execution : Execution)

variable {α : Type} (sql : α → String)

def initial (batchSize queueCapacity : Nat) : State α where
  batchSize
  queue := .new queueCapacity

def start (s : State α) : State α :=
  if s.running then s else { s with running := true, worker := .looping }

def push (s : State α) (item : α) : State α :=
  match s.queue.tryPush item with
  | some queue => { s with queue, accepted := s.accepted ++ [item], counting := s.counting + 1 }
  | none => { s with dropping := s.dropping + 1 }

/-- The body of the loop of `writeBatch`. -/
def writeItem (s : State α) (item : α) : Execution → State α
  | .done => { s with written := s.written + 1 }
  | .failed => { s with errors := s.errors + 1 }
  | .offline =>
    let offlineLog := s.offlineLog ++ [sql item]
    { s with
      offlineLog := if 1000 < offlineLog.length then offlineLog.drop 1 else offlineLog
      offlineDrops := s.offlineDrops + 1 }

/-- A step of a call of `flush` or of `writeBatch`, and its next step unless it returns. -/
def callStep (s : State α) (execution : Execution) : Call α → State α × Option (Call α)
  | .swap => ({ s with buffer := [] }, some (.drain s.buffer))
  | .drain batch =>
    match s.queue.tryPop with
    | some (item, queue) => ({ s with queue }, some (.drain (batch ++ [item])))
    | none => ({ s with passed := s.passed ++ batch }, some (.write batch))
  | .write [] => (s, none)
  | .write (item :: rest) => (writeItem sql s item execution, some (.write rest))

def work (s : State α) (execution : Execution) : Option (State α) :=
  match s.worker with
  | .absent | .finished => none
  | .looping => some { s with worker := if s.running then .popping else .finished }
  | .popping =>
    match s.queue.tryPop with
    | some (item, queue) => some { s with queue, worker := .holding item }
    -- The wait is over, or the queue is closed.
    | none => some { s with worker := .idle }
  | .idle => some { s with worker := if s.batchSize ≤ s.buffer.length then .calling .swap else .looping }
  | .holding item =>
    let buffer := s.buffer ++ [item]
    if s.batchSize ≤ buffer.length then
      some { s with buffer := [], passed := s.passed ++ buffer, worker := .calling (.write buffer) }
    else some { s with buffer, worker := .looping }
  | .calling call =>
    match callStep sql s execution call with
    | (t, some call) => some { t with worker := .calling call }
    | (t, none) => some { t with worker := .looping }

def stop (s : State α) (execution : Execution) : Option (State α) :=
  match s.stop with
  | .notCalled => some { s with running := false, stop := .closing }
  | .closing => some { s with queue := s.queue.close, stop := .joining }
  | .joining =>
    match s.worker with
    | .absent | .finished => some { s with stop := .flushing .swap }
    | _ => none
  | .flushing call =>
    match callStep sql s execution call with
    | (t, some call) => some { t with stop := .flushing call }
    | (t, none) => some { t with stop := .returned }
  | .returned => none

def step (s : State α) : Act α → Option (State α)
  | .start =>
    match s.stop with
    | .notCalled => some (start s)
    | _ => none
  | .push item => some (push s item)
  | .count =>
    if 0 < s.counting then some { s with counting := s.counting - 1, enqueued := s.enqueued + 1 } else none
  | .drop =>
    if 0 < s.dropping then some { s with dropping := s.dropping - 1, drops := s.drops + 1 } else none
  | .work execution => work sql s execution
  | .stop execution => stop sql s execution

end BatchWriter
end CrashCore
