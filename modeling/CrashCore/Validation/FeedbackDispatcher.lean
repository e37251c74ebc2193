import CrashCore.Common.Types
import CrashCore.Concurrency.SpscQueue

/-! The feedback dispatcher (`validation/feedback_dispatcher.hpp`) with a handler set: one thread calls `dispatch`, the
worker takes outcomes from the queue, and `stop` comes last. -/

namespace CrashCore
namespace FeedbackDispatcher

/-- The next step of the dispatching thread. -/
inductive Caller
  | idle
  /-- Reads `running_`. -/
  | reading (o : Outcome)
  | handing (o : Outcome)
  | pushing (o : Outcome)

/-- The next step of the worker. -/
inductive Worker
  | absent
  /-- Reads `running_`, which is false whenever the stop of the thread is requested. -/
  | looping
  | popping
  /-- Looks the key up. -/
  | holding (o : Outcome)
  | handing (o : Outcome)
  | finished
deriving DecidableEq

inductive Stop
  | notCalled
  /-- `running_` is false. -/
  | joining
  | returned
deriving DecidableEq

end FeedbackDispatcher

structure FeedbackDispatcher where
  queue : SpscQueue Outcome
  running : Bool := false
  seen : List String := []
  dispatched : Nat := 0
  drops : Nat := 0
  dupes : Nat := 0
  handled : Nat := 0
  caller : FeedbackDispatcher.Caller := .idle
  worker : FeedbackDispatcher.Worker := .absent
  stop : FeedbackDispatcher.Stop := .notCalled
  /-- Bookkeeping: the outcomes of the calls of `dispatch` that have returned, and what became of outcomes. -/
  returned : List Outcome := []
  handed : List Outcome := []
  dropped : List Outcome := []
  duped : List Outcome := []
  /-- The keys of the outcomes that `dispatch` handed over itself. -/
  aside : List String := []
  /-- The keys that were in `seen_` when it was cleared. -/
  forgotten : List String := []

namespace FeedbackDispatcher

inductive Act
  | start
  | dispatch (o : Outcome)
  /-- The next step of the call of `dispatch`. -/
  | proceed
  /-- The next step of the worker. -/
  | work
  /-- The call of `stop`, or its next step. -/
  | stop

def initial (queueCapacity : Nat) : FeedbackDispatcher := { queue := .new queueCapacity }

def key (o : Outcome) : String := if o.predictionId = "" then o.roundId else o.predictionId

def start (s : FeedbackDispatcher) : FeedbackDispatcher :=
  if s.running then s else { s with running := true, worker := .looping }

def hand (s : FeedbackDispatcher) (o : Outcome) : FeedbackDispatcher := { s with handed := s.handed ++ [o] }

/-- The end of a call of `dispatch`. -/
def ret (s : FeedbackDispatcher) (o : Outcome) : FeedbackDispatcher :=
  { s with caller := .idle, returned := s.returned ++ [o] }

def proceed (s : FeedbackDispatcher) : Option FeedbackDispatcher :=
  match s.caller with
  | .idle => none
  | .reading o => some { s with caller := if s.running then .pushing o else .handing o }
  | .handing o => some { (s.hand o).ret o with aside := s.aside ++ [key o] }
  | .pushing o =>
    match s.queue.tryPush o with
    | some queue => some { s.ret o with queue }
    | none => some { s.ret o with drops := s.drops + 1, dropped := s.dropped ++ [o] }

/-- `seen_.insert(key)`, and what is done when there are too many. -/
def insert (s : FeedbackDispatcher) (k : String) : FeedbackDispatcher :=
  let seen := s.seen ++ [k]
  if 10000 < seen.length then { s with seen := [], forgotten := s.forgotten ++ seen } else { s with seen }

def work (s : FeedbackDispatcher) : Option FeedbackDispatcher :=
  match s.worker with
  | .absent | .finished => none
  | .looping => some { s with worker := if s.running then .popping else .finished }
  | .popping =>
    match s.queue.tryPop with
    | some (o, queue) => some { s with queue, worker := .holding o }
    | none => some { s with worker := .looping }
  | .holding o =>
    if key o = "" then some { s with worker := .handing o }
    else if key o ∈ s.seen then some { s with dupes := s.dupes + 1, duped := s.duped ++ [o], worker := .looping }
    else some { s.insert (key o) with worker := .handing o }
  | .handing o => some { s.hand o with handled := s.handled + 1, worker := .looping }

def stopStep (s : FeedbackDispatcher) : Option FeedbackDispatcher :=
  match s.stop with
  | .notCalled => some { s with running := false, stop := .joining }
  | .joining =>
    match s.worker with
    | .absent | .finished => some { s with stop := .returned }
    | _ => none
  | .returned => none

def step (s : FeedbackDispatcher) : Act → Option FeedbackDispatcher
  | .start =>
    match s.stop with
    | .notCalled => some s.start
    | _ => none
  | .dispatch o =>
    match s.caller with
    | .idle => some { s with dispatched := s.dispatched + 1, caller := .reading o }
    | _ => none
  | .proceed => s.proceed
  | .work => s.work
  | .stop => s.stopStep

end FeedbackDispatcher
end CrashCore
