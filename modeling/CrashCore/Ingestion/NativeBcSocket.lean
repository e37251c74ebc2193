import CrashCore.Common.Types
import CrashCore.Library.Run

/-! The control plane of the crash socket (`ingestion/native_bc_socket.hpp`): its owner, the watchdog, the reconnect
worker and the threads that deliver frames, one access of the shared state at a time. `stop` is not called, and
`scheduleReconnect` is only ever called with `waf = false`. The lengths of the delays are arbitrary. -/

namespace CrashCore

inductive NativeSocketStatus
  | stopped | connecting | socketOpen | connected | degraded | reconnecting | wafBlocked
deriving DecidableEq

structure NativeSocketConfig where
  degradedMs : Int := 15000
  staleMs : Int := 90000

namespace NativeBcSocket

/-- The next access of a thread in `start` or in the `scheduleReconnect` that follows. -/
inductive Pc
  /-- `start` loads the status. -/
  | check
  /-- `start` sets the status to connecting and makes a new client. -/
  | launch
  /-- `client_->start()`. -/
  | connect
  | setFailed
  | setOpen
  /-- The second status of a successful `start`, and the watchdog. -/
  | setConnected
  /-- `scheduleReconnect` loads `intentional_stop_`. -/
  | scheduleCheck
  | scheduleStatus
  /-- `scheduleReconnect` stops the client and drops it. -/
  | scheduleReset
  | scheduleJoin
  /-- Waits for the end of the old worker. -/
  | scheduleAwait
  | scheduleResume
  | scheduleSpawn
  /-- `join` in the thread that is to be joined: an exception. -/
  | selfJoin
deriving DecidableEq

inductive Watchdog
  | off
  | sleeping
  | setDegraded
  | checkStale
  | scheduling (pc : Pc)
  /-- It has seen `intentional_stop_`. -/
  | ended
deriving DecidableEq

/-- The thread of `reconnect_worker_`, as long as it is joinable. -/
inductive Worker
  | delay
  | starting (pc : Pc)
  | ended
deriving DecidableEq

/-- What a frame is for the socket, which looks at nothing else in it. -/
inductive Frame
  /-- Engine.IO open. -/
  | engineOpen
  /-- Engine.IO close. -/
  | engineClose
  /-- A Connect packet of the namespace; `sent` says whether the frames of a join can be sent. -/
  | connect (sent : Bool)
  /-- A tracked event that decodes. -/
  | event (isEnd : Bool)
  | other

structure State where
  cfg : NativeSocketConfig := {}
  status : NativeSocketStatus := .stopped
  intentionalStop : Bool := false
  /-- There is a `client_`. -/
  client : Bool := false
  /-- `sio_.joined()`. -/
  joined : Bool := false
  lastEventMs : TimestampMs := 0
  lastFrameMs : TimestampMs := 0
  reconnects : Nat := 0
  owner : Option Pc := none
  watchdog : Watchdog := .off
  worker : Option Worker := none
  /-- The status changes that threads with a frame are about to make. -/
  handlers : List NativeSocketStatus := []
  /-- The connection attempts: clients made and started. -/
  attempts : Nat := 0
  /-- For each call of `start` by a reconnect worker, whether it has gone on to a new client. -/
  workerCalls : List Bool := []

inductive Act
  /-- The owner calls `start`. -/
  | start
  /-- The next step of the owner; `ok` is the result of a connection attempt. -/
  | owner (ok : Bool)
  | watchdog (now : TimestampMs)
  | worker (ok : Bool)
  /-- A thread gets a frame, from `injectFrame` or from the session. -/
  | frame (f : Frame) (injected : Bool) (now : TimestampMs)
  /-- A thread with a frame sets the status. -/
  | handlerSets (status : NativeSocketStatus)

def Idle (s : State) : Prop := s.status = .stopped ∨ s.status = .wafBlocked

instance (s : State) : Decidable (Idle s) := inferInstanceAs (Decidable (_ ∨ _))

/-- The next access in `start` or `scheduleReconnect`, and what comes after it (`none` for the return). -/
def advance (s : State) (isWorker ok : Bool) : Pc → Option (State × Option Pc)
  | .check => if ¬Idle s then some (s, none) else some (s, some .launch)
  | .launch =>
    some ({ s with intentionalStop := false, status := .connecting, client := true, attempts := s.attempts + 1 },
      some .connect)
  | .connect => if ok then some ({ s with joined := true }, some .setOpen) else some (s, some .setFailed)
  | .setFailed => some ({ s with status := .reconnecting }, some .scheduleCheck)
  | .setOpen => some ({ s with status := .socketOpen }, some .setConnected)
  | .setConnected =>
    some ({ s with
      status := if s.joined then .connected else s.status
      watchdog := if s.watchdog = .off then .sleeping else s.watchdog }, none)
  | .scheduleCheck => if s.intentionalStop then some (s, none) else some (s, some .scheduleStatus)
  | .scheduleStatus => some ({ s with status := .reconnecting, reconnects := s.reconnects + 1 }, some .scheduleReset)
  | .scheduleReset => some ({ s with client := false }, some .scheduleJoin)
  | .scheduleJoin =>
    if s.worker = none then some (s, some .scheduleSpawn)
    else some ({ s with intentionalStop := true }, some (if isWorker then .selfJoin else .scheduleAwait))
  | .scheduleAwait => if s.worker = some .ended then some ({ s with worker := none }, some .scheduleResume) else none
  | .scheduleResume => some ({ s with intentionalStop := false }, some .scheduleSpawn)
  | .scheduleSpawn => some ({ s with worker := some .delay }, none)
  | .selfJoin => none

def stepOwner (s : State) (ok : Bool) : Option State :=
  match s.owner with
  | none => none
  | some pc => (advance s false ok pc).map fun (s, owner) => { s with owner }

def stepWatchdog (s : State) (now : TimestampMs) : Option State :=
  match s.watchdog with
  | .off | .ended => none
  | .sleeping =>
    if s.intentionalStop then some { s with watchdog := .ended }
    else if s.status = .connected ∧ s.lastEventMs ≠ 0 ∧ s.cfg.degradedMs < now - s.lastEventMs then
      some { s with watchdog := .setDegraded }
    else some { s with watchdog := .checkStale }
  | .setDegraded => some { s with status := .degraded, watchdog := .checkStale }
  | .checkStale =>
    if ¬Idle s ∧ s.lastFrameMs ≠ 0 ∧ s.cfg.staleMs < now - s.lastFrameMs then
      some { s with watchdog := .scheduling .scheduleCheck }
    else some { s with watchdog := .sleeping }
  | .scheduling pc =>
    (advance s false false pc).map fun (s, next) =>
      { s with watchdog := match next with | none => .sleeping | some pc => .scheduling pc }

def stepWorker (s : State) (ok : Bool) : Option State :=
  match s.worker with
  | none | some .ended => none
  | some .delay => some { s with worker := some (if s.intentionalStop then .ended else .starting .check) }
  | some (.starting pc) =>
    (advance s true ok pc).map fun (t, next) =>
      { t with
        workerCalls := if pc = .check then s.workerCalls ++ [next.isSome] else t.workerCalls
        worker := some (match next with | none => .ended | some pc => .starting pc) }

def onFrame (s : State) (f : Frame) (injected : Bool) (now : TimestampMs) : State :=
  let s := if injected then { s with lastFrameMs := now } else s
  match f with
  | .engineOpen => if injected then { s with handlers := s.handlers ++ [.socketOpen] } else s
  | .engineClose => { s with joined := false, handlers := s.handlers ++ [.reconnecting] }
  | .connect sent =>
    if ¬s.joined ∧ sent then { s with joined := true, handlers := s.handlers ++ [.connected] } else s
  | .event isEnd =>
    let s := { s with lastEventMs := now }
    if isEnd ∧ (s.status = .socketOpen ∨ s.status = .degraded ∨ s.status = .connected) then
      { s with handlers := s.handlers ++ [.connected] }
    else s
  | .other => s

def step (s : State) : Act → Option State
  | .start => if s.owner = none then some { s with owner := some .check } else none
  | .owner ok => stepOwner s ok
  | .watchdog now => stepWatchdog s now
  | .worker ok => stepWorker s ok
  | .frame f injected now => some (onFrame s f injected now)
  | .handlerSets status =>
    if status ∈ s.handlers then some { s with status, handlers := s.handlers.erase status } else none

end NativeBcSocket
end CrashCore
