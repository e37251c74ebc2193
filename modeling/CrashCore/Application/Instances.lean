import CrashCore.Delivery.SendingWorkers
import CrashCore.Live.LiveSupervisor

/-! Any number of application instances over one database: `init`, `start` and `stop` of
`application/application.hpp` with `live/live_boot.hpp`, the lease of the supervisors, and the threads that publish
and send.

`main` is the position of the thread that calls `init`, `start`, the loop of `run` and `stop`. Publications come from
this thread (`drainQueues`) and from the poll worker; sends come from the two delivery workers and, during `stop`,
from this thread, with each try of a message as a step. Each instance has its own connection, and all see the committed
tables. -/

namespace CrashCore
namespace Instances

inductive Main
  | created
  | bootAcquiring
  | initialized
  | startAcquiring
  | starting
  | running
  /-- The bounded drain at the beginning of `stop`. -/
  | draining
  /-- Before the release in `LiveBoot::shutdown`; the poll worker is stopped. -/
  | shuttingDown
  | releasing
  /-- The other threads are being stopped. -/
  | stopping
  | releasingAgain
  | stopped
deriving DecidableEq, Repr

structure Instance where
  main : Main := .created
  /-- `LiveBoot` has acquired the lease. -/
  booted : Bool := false
  renewLoop : Bool := false
  pollWorker : Bool := false
  outboxWorker : Bool := false
  notificationWorker : Bool := false
  delivery : SendingWorkers.State

/-- A publication, or a message that is handed to the Telegram client. -/
structure Act where
  workerId : String
  hadAuthority : Bool
deriving DecidableEq, Repr

structure State where
  lease : LiveSupervisor.State
  tables : Tables
  inst : String → Instance
  acts : List Act := []

inductive Action
  | advance (ms : Nat)
  | acquire (w : String)
  | upsert (w : String) (ok : Bool)
  | readBack (w : String) (ok : Bool)
  | renew (w : String)
  | update (w : String) (ok : Bool)
  | verify (w : String) (ok : Bool)
  | startPollWorker (w : String)
  | startOutboxWorker (w : String)
  | startNotificationWorker (w : String)
  | started (w : String)
  | stop (w : String)
  | stopPollWorker (w : String)
  | stopRenewLoop (w : String)
  | release (w : String)
  | delete (w : String) (ok : Bool)
  | stopNotificationWorker (w : String)
  | stopOutboxWorker (w : String)
  | delivery (w : String) (a : SendingWorkers.Action)

def initial (row : Option LeaseRow) (tables : Tables) (clock : TimestampMs) (capacity : Nat) (deliveryDeadlineMs : Int) :
    State :=
  { lease := LiveSupervisor.initial row clock, tables
    inst := fun _ => { delivery := { base := DeliveryWorkers.initial tables clock capacity deliveryDeadlineMs } } }

def setInst (s : State) (w : String) (i : Instance) : State := { s with inst := Function.update s.inst w i }

/-- The thread that drains a batch of rows is running. -/
def drains (i : Instance) : DeliveryWorkers.Drainer → Bool
  | .loop => i.notificationWorker
  | .stop => i.main = .draining

/-- A thread of the instance may take this step. -/
def mayRun (i : Instance) : SendingWorkers.Action → Bool
  | .base (.persist ..) | .base (.publish _) => i.pollWorker || i.main = .running || i.main = .draining
  | .base .claim | .base .deliver | .base .complete | .authorize | .send _ => i.outboxWorker
  | .base (.recoverStaleClaims _) => i.notificationWorker
  | .base (.claimRows d _) | .base (.deliverRow d) | .base (.completeRow d _) | .authorizeRow d | .sendRow d _ => drains i d
  | .base (.noteTargetStarted ..) | .base (.killStale ..) => true
  | .base (.advance _) => false

/-- The delivery part of the instance with what the database holds and the clock shows. -/
def connect (s : State) (i : Instance) : SendingWorkers.State :=
  { i.delivery with
    base := { i.delivery.base with conn := { i.delivery.base.conn with committed := s.tables }, clock := s.lease.clock } }

/-- Something was published or sent. -/
def Acted (u v : DeliveryWorkers.State) : Prop :=
  ¬(v.handoff.outbox.published = u.handoff.outbox.published ∧ v.persisted = u.persisted ∧
    v.signalsSent = u.signalsSent ∧ v.rowsSent = u.rowsSent)

instance (u v : DeliveryWorkers.State) : Decidable (Acted u v) := inferInstanceAs (Decidable (¬(_ ∧ _ ∧ _ ∧ _)))

def hasAuthority (s : State) (w : String) : Bool := (s.lease.proc w).sup.hasAuthority

def afterDelivery (s : State) (w : String) (d : SendingWorkers.State) : State :=
  { setInst { s with tables := d.base.conn.committed } w { s.inst w with delivery := d } with
    acts := if Acted (connect s (s.inst w)).base d.base then s.acts ++ [⟨w, hasAuthority s w⟩] else s.acts }

/-- A statement or another step of a supervisor, and where its thread is afterwards. -/
def supervise (cfg : String → LiveSupervisor.Config) (s : State) (a : LiveSupervisor.Action) (w : String)
    (i : Instance) : Option State :=
  (LiveSupervisor.step cfg s.lease a).map fun lease => setInst { s with lease } w i

/-- Nothing of the application asks for the authority before it acts; a failed acquisition is logged. -/
def step (cfg : String → LiveSupervisor.Config) (s : State) : Action → Option State
  | .advance ms => (LiveSupervisor.step cfg s.lease (.advance ms)).map fun lease => { s with lease }
  | .acquire w =>
    let i := s.inst w
    match i.main with
    | .created => supervise cfg s (.acquire w) w { i with main := .bootAcquiring }
    | .initialized => supervise cfg s (.acquire w) w { i with main := .startAcquiring }
    | _ => none
  | .upsert w ok =>
    let i := s.inst w
    match i.main with
    | .bootAcquiring => supervise cfg s (.upsert w ok) w (if ok then i else { i with main := .initialized })
    | .startAcquiring => supervise cfg s (.upsert w ok) w (if ok then i else { i with main := .starting })
    | _ => none
  | .readBack w ok =>
    let i := s.inst w
    match i.main with
    | .bootAcquiring =>
      supervise cfg s (.readBack w ok) w { i with main := .initialized, booted := true, renewLoop := true }
    | .startAcquiring => supervise cfg s (.readBack w ok) w { i with main := .starting, renewLoop := true }
    | _ => none
  | .renew w => if (s.inst w).renewLoop then supervise cfg s (.renew w) w (s.inst w) else none
  | .update w ok => supervise cfg s (.update w ok) w (s.inst w)
  | .verify w ok => supervise cfg s (.verify w ok) w (s.inst w)
  | .startPollWorker w =>
    let i := s.inst w
    if (i.main = .initialized ∧ i.booted = true) ∨ i.main = .starting then
      some (setInst s w { i with pollWorker := true })
    else none
  | .startOutboxWorker w =>
    let i := s.inst w
    if i.main = .starting then some (setInst s w { i with outboxWorker := true }) else none
  | .startNotificationWorker w =>
    let i := s.inst w
    if i.main = .starting then some (setInst s w { i with notificationWorker := true }) else none
  | .started w =>
    let i := s.inst w
    if i.main = .starting then some (setInst s w { i with main := .running }) else none
  | .stop w =>
    let i := s.inst w
    if i.main = .running then some (setInst s w { i with main := .draining }) else none
  | .stopPollWorker w =>
    let i := s.inst w
    if i.main = .draining ∧ (i.delivery.base.batches .stop).rows = [] then
      some (setInst s w { i with main := .shuttingDown, pollWorker := false })
    else none
  | .stopRenewLoop w =>
    let i := s.inst w
    if i.main = .shuttingDown ∧ (s.lease.proc w).renewing = .idle then
      some (setInst s w { i with renewLoop := false })
    else none
  | .release w =>
    let i := s.inst w
    match i.main with
    | .shuttingDown => if i.renewLoop then none else supervise cfg s (.release w) w { i with main := .releasing }
    | .stopping =>
      if i.outboxWorker || i.notificationWorker then none
      else supervise cfg s (.release w) w { i with main := .releasingAgain }
    | _ => none
  | .delete w ok =>
    let i := s.inst w
    match i.main with
    | .releasing => supervise cfg s (.delete w ok) w { i with main := .stopping }
    | .releasingAgain => supervise cfg s (.delete w ok) w { i with main := .stopped }
    | _ => none
  | .stopNotificationWorker w =>
    let i := s.inst w
    if i.main = .stopping ∧ (i.delivery.base.batches .loop).rows = [] then
      some (setInst s w { i with notificationWorker := false })
    else none
  | .stopOutboxWorker w =>
    let i := s.inst w
    match i.main, i.delivery.base.worker with
    | .stopping, .waiting => some (setInst s w { i with outboxWorker := false })
    | _, _ => none
  | .delivery w a =>
    if mayRun (s.inst w) a then
      (SendingWorkers.step (connect s (s.inst w)) a).map (afterDelivery s w)
    else none

end Instances
end CrashCore
