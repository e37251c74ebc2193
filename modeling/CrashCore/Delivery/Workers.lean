import CrashCore.Delivery.DurablePredictionTx
import CrashCore.Delivery.Signal
import CrashCore.Delivery.TemporalGuard
import CrashCore.Library.Run

/-! The two workers that hand messages to the Telegram client (`delivery/outbox/outbox_worker.hpp`,
`delivery/notification_worker.hpp`, their deliver functions in `application/application.hpp`) and the calls that
feed them, under one clock. Every send succeeds at once; sends that fail and are tried again are the matter of
`SendingWorkers`.

The batches of the notification table are drained by the loop of the worker and, while the application stops, by
`stop`. A call of `persistPrediction` is one step here; its single statements are the matter of
`SharedConnection`. -/

namespace CrashCore
namespace DeliveryWorkers

/-- Where the outbox worker is in its loop. -/
inductive OutboxWorker
  | waiting
  | claimed (item : OutboxItem)
  | sent (item : OutboxItem)
  | rejected (item : OutboxItem)

inductive Drainer
  | loop | stop
deriving DecidableEq, Repr

/-- The claimed rows that are left, and what came of the delivery of the first one. -/
structure Batch where
  rows : List NotificationRow := []
  head : Option (Except String Unit) := none

namespace NotificationWorker

def workerId : String := "nw-1"
def batchSize : Nat := 16
def claimStaleMs : Int := 30000
def maxAttempts : Nat := 8
def baseRetryMs : Int := 500
def maxRetryMs : Int := 60000

def retryMs (row : NotificationRow) : Int := min maxRetryMs (baseRetryMs * 2 ^ min row.attempts 10)

end NotificationWorker

/-- What follows the first `round=`, up to the end of the text. -/
def afterRound : List Char → Option (List Char)
  | [] => none
  | c :: cs => if "round=".toList.isPrefixOf (c :: cs) then some ((c :: cs).drop 6) else afterRound cs

/-- The target round of a row: what its payload says, or else its dedupe key. -/
def targetRound (row : NotificationRow) : RoundId :=
  match afterRound row.payload.toList with
  | some rest => String.ofList (rest.takeWhile (· ≠ '\n'))
  | none => row.dedupeKey

structure State where
  conn : Connection Tables
  repo : OutboxRepository := {}
  handoff : DurableHandoff
  durableOk : Nat := 0
  guard : TemporalGuard := {}
  clock : TimestampMs
  worker : OutboxWorker := .waiting
  batches : Drainer → Batch := fun _ => {}
  /-- The predictions whose persistence was reported durable. -/
  persisted : List PredictionId := []
  /-- What was handed to the Telegram client: signals, and the dedupe keys of rows. -/
  signalsSent : List Signal := []
  rowsSent : List String := []

inductive Action
  | advance (ms : Nat)
  | persist (pev : PredictionEvent) (f : Faults)
  /-- Any other publication to the in-memory outbox. -/
  | publish (signal : Signal)
  | noteTargetStarted (roundId : RoundId) (startedAtMs : TimestampMs)
  | killStale (roundId : RoundId) (fault : Fault)
  | claim
  | deliver
  | complete
  | recoverStaleClaims (fault : Fault)
  | claimRows (d : Drainer) (fault : Fault)
  | deliverRow (d : Drainer)
  | completeRow (d : Drainer) (fault : Fault)

def initial (tables : Tables) (clock : TimestampMs) (capacity : Nat) (deliveryDeadlineMs : Int) : State :=
  { conn := ⟨tables, .idle⟩, handoff := { outbox := .new capacity }, guard := { deliveryDeadlineMs }, clock }

def durableTx (s : State) : DurablePredictionTx :=
  { db := .pg s.conn, repo := some s.repo, handoff := some s.handoff, memory := some s.handoff.outbox,
    durableOk := s.durableOk }

/-- The state with the parts of the transaction object put back. -/
def withTx (s : State) (tx : DurablePredictionTx) : State :=
  match tx with
  | { db := .pg conn, repo := some repo, handoff := some handoff, durableOk, .. } =>
    { s with conn, repo, handoff, durableOk }
  | _ => s

def withOutbox (s : State) (outbox : Outbox) : State := { s with handoff := { s.handoff with outbox } }

def setBatch (s : State) (d : Drainer) (b : Batch) : State := { s with batches := Function.update s.batches d b }

/-- The deliver function of the outbox worker. -/
def authorize (s : State) (item : OutboxItem) : TemporalAuthResult :=
  s.guard.authorizeSend item.signal.roundId item.signal.createdAtMs s.clock

/-- That of the notification worker. -/
def authorizeRow (s : State) (row : NotificationRow) : TemporalAuthResult :=
  s.guard.authorizeSend (targetRound row) row.createdAtMs s.clock

def step (s : State) : Action → Option State
  | .advance ms => some { s with clock := s.clock + ms }
  | .persist pev f =>
    let (tx, dr) := (durableTx s).persistPrediction pev (signalFromPrediction pev s.clock) s.clock f
    let t := withTx s tx
    some (if dr.ok && dr.durable then { t with persisted := t.persisted ++ [pev.predictionId] } else t)
  | .publish signal => some (withOutbox s (s.handoff.outbox.publish signal s.clock).1)
  | .noteTargetStarted roundId startedAtMs =>
    some { s with guard := s.guard.noteTargetStarted roundId startedAtMs s.clock }
  | .killStale roundId fault =>
    let (guard, conn) := s.guard.killStaleForTarget s.conn roundId s.clock fault
    some { s with guard, conn }
  | .claim =>
    match s.worker, s.handoff.outbox.claim s.clock with
    | .waiting, some (item, outbox) =>
      some { withOutbox s outbox with worker := .claimed { item with state := .inFlight } }
    | .waiting, none => some s
    | _, _ => none
  | .deliver =>
    match s.worker with
    | .claimed item =>
      if (authorize s item).allowed then
        some { s with worker := .sent item, signalsSent := s.signalsSent ++ [item.signal] }
      else some { s with worker := .rejected item }
    | _ => none
  | .complete =>
    match s.worker with
    | .sent item => some { withOutbox s (s.handoff.outbox.markDelivered item s.clock).1 with worker := .waiting }
    | .rejected item =>
      some { withOutbox s (s.handoff.outbox.markFailed item "delivery failed").1 with worker := .waiting }
    | _ => none
  | .recoverStaleClaims fault =>
    if (s.batches .loop).rows = [] then
      some { s with
        conn := (s.conn.exec (OutboxRepository.recoverStaleClaims NotificationWorker.claimStaleMs s.clock) fault).1 }
    else none
  | .claimRows d fault =>
    if (s.batches d).rows = [] then
      match OutboxRepository.claim s.conn NotificationWorker.batchSize NotificationWorker.workerId s.clock fault with
      | (conn, .ok rows) => some (setBatch { s with conn } d { rows })
      | (conn, .error _) => some { s with conn }
    else none
  | .deliverRow d =>
    match s.batches d with
    | ⟨row :: rest, none⟩ =>
      if (authorizeRow s row).allowed then
        some (setBatch { s with rowsSent := s.rowsSent ++ [row.dedupeKey] } d ⟨row :: rest, some (.ok ())⟩)
      else some (setBatch s d ⟨row :: rest, some (.error (authorizeRow s row).reason)⟩)
    | _ => none
  | .completeRow d fault =>
    match s.batches d with
    | ⟨row :: rest, some (.ok _)⟩ =>
      let conn := (s.conn.exec (OutboxRepository.markDelivered row.id s.clock) fault).1
      some (setBatch { s with conn } d ⟨rest, none⟩)
    | ⟨row :: rest, some (.error m)⟩ =>
      let dead := decide (row.attempts ≥ NotificationWorker.maxAttempts)
      let conn := (s.conn.exec (OutboxRepository.markFailed row.id m (NotificationWorker.retryMs row) dead s.clock) fault).1
      some (setBatch { s with conn } d ⟨rest, none⟩)
    | _ => none

/-! ### The batches -/

variable {s t : State} {d d' : Drainer} {b : Batch}

theorem setBatch_self (s : State) (d : Drainer) (b : Batch) : (setBatch s d b).batches d = b :=
  Function.update_self ..

theorem setBatch_other (h : d' ≠ d) : (setBatch s d b).batches d' = s.batches d' :=
  Function.update_of_ne h ..

/-- A copy in a batch is one of those that were put there, or the batch is another one. -/
theorem mem_setBatch {r : NotificationRow} (part : Batch → List NotificationRow)
    (hr : r ∈ part ((setBatch s d b).batches d')) : r ∈ part b ∨ (d' ≠ d ∧ r ∈ part (s.batches d')) := by
  by_cases hd : d' = d
  · rw [hd, setBatch_self] at hr
    exact Or.inl hr
  · rw [setBatch_other hd] at hr
    exact Or.inr ⟨hd, hr⟩

/-! ### Inversion -/

/-- The claimed item is delivered: sent if its time allows, else rejected. -/
theorem deliver_inv (hs : step s .deliver = some t) :
    ∃ item, s.worker = .claimed item ∧
      (((authorize s item).allowed = true ∧
          t = { s with worker := .sent item, signalsSent := s.signalsSent ++ [item.signal] }) ∨
        ((authorize s item).allowed = false ∧ t = { s with worker := .rejected item })) := by
  simp only [step] at hs
  split at hs
  · rename_i item hw
    refine ⟨item, hw, ?_⟩
    split at hs <;> rename_i ha
    · exact Or.inl ⟨ha, (Option.some.inj hs).symm⟩
    · exact Or.inr ⟨by simpa using ha, (Option.some.inj hs).symm⟩
  · cases hs

theorem claim_inv (hs : step s .claim = some t) :
    s.worker = .waiting ∧ (t = s ∨ ∃ item outbox, s.handoff.outbox.claim s.clock = some (item, outbox) ∧
      t = { withOutbox s outbox with worker := .claimed { item with state := .inFlight } }) := by
  simp only [step] at hs
  split at hs
  · rename_i item outbox hw hc
    exact ⟨hw, Or.inr ⟨item, outbox, hc, (Option.some.inj hs).symm⟩⟩
  · rename_i hw _
    exact ⟨hw, Or.inl (Option.some.inj hs).symm⟩
  · cases hs

theorem complete_inv (hs : step s .complete = some t) :
    ∃ item, (s.worker = .sent item ∧
        t = { withOutbox s (s.handoff.outbox.markDelivered item s.clock).1 with worker := .waiting }) ∨
      (s.worker = .rejected item ∧
        t = { withOutbox s (s.handoff.outbox.markFailed item "delivery failed").1 with worker := .waiting }) := by
  simp only [step] at hs
  split at hs
  · rename_i item hw
    exact ⟨item, Or.inl ⟨hw, (Option.some.inj hs).symm⟩⟩
  · rename_i item hw
    exact ⟨item, Or.inr ⟨hw, (Option.some.inj hs).symm⟩⟩
  · cases hs

/-- The head of a batch is delivered: sent if its time allows, else marked as rejected. -/
theorem deliverRow_inv (hs : step s (.deliverRow d) = some t) :
    ∃ row rest, s.batches d = ⟨row :: rest, none⟩ ∧
      (((authorizeRow s row).allowed = true ∧
          t = setBatch { s with rowsSent := s.rowsSent ++ [row.dedupeKey] } d ⟨row :: rest, some (.ok ())⟩) ∨
        ((authorizeRow s row).allowed = false ∧
          t = setBatch s d ⟨row :: rest, some (.error (authorizeRow s row).reason)⟩)) := by
  simp only [step] at hs
  split at hs
  · rename_i row rest hb
    refine ⟨row, rest, hb, ?_⟩
    split at hs <;> rename_i ha
    · exact Or.inl ⟨ha, (Option.some.inj hs).symm⟩
    · exact Or.inr ⟨by simpa using ha, (Option.some.inj hs).symm⟩
  · cases hs

/-- The transaction offers the signal to the outbox or leaves it alone. -/
theorem persist_outbox {pev : PredictionEvent} {f : Faults} (hs : step s (.persist pev f) = some t) :
    t.worker = s.worker ∧ (t.handoff = s.handoff ∨
      t.handoff = (s.handoff.publishPrediction (signalFromPrediction pev s.clock) s.clock).1) := by
  rcases hrows : DurablePredictionTx.persistRows s.repo s.conn pev (signalFromPrediction pev s.clock) s.clock f with
    ⟨repo, conn, m | u⟩ <;>
    simp only [step, durableTx, DurablePredictionTx.persistPrediction, hrows, DurablePredictionTx.publishMemory,
      withTx] at hs <;>
    cases hs
  · exact ⟨rfl, Or.inl rfl⟩
  · exact ⟨rfl, Or.inr rfl⟩

/-- The actions that neither touch the outbox nor send anything. -/
def Action.Local : Action → Prop
  | .advance _ | .noteTargetStarted .. | .killStale .. | .recoverStaleClaims _ | .claimRows .. | .completeRow .. => True
  | .persist .. | .publish _ | .claim | .deliver | .complete | .deliverRow _ => False

/-- What such an action leaves as it is. -/
structure Untouched (s t : State) : Prop where
  handoff : t.handoff = s.handoff
  worker : t.worker = s.worker
  persisted : t.persisted = s.persisted
  signalsSent : t.signalsSent = s.signalsSent
  rowsSent : t.rowsSent = s.rowsSent
  clock : s.clock ≤ t.clock

theorem step_local {a : Action} (hs : step s a = some t) (ha : a.Local) : Untouched s t := by
  cases a with
  | persist | publish | claim | deliver | complete | deliverRow => exact ha.elim
  | advance ms =>
    cases hs
    exact ⟨rfl, rfl, rfl, rfl, rfl, Int.le_add_of_nonneg_right (Int.natCast_nonneg ms)⟩
  | noteTargetStarted | killStale =>
    cases hs
    exact ⟨rfl, rfl, rfl, rfl, rfl, Int.le_refl _⟩
  | recoverStaleClaims fault =>
    simp only [step] at hs
    split at hs <;> cases hs
    exact ⟨rfl, rfl, rfl, rfl, rfl, Int.le_refl _⟩
  | claimRows d fault =>
    simp only [step] at hs
    split at hs
    · split at hs <;> cases hs <;> exact ⟨rfl, rfl, rfl, rfl, rfl, Int.le_refl _⟩
    · cases hs
  | completeRow d fault =>
    simp only [step] at hs
    split at hs <;> cases hs <;> exact ⟨rfl, rfl, rfl, rfl, rfl, Int.le_refl _⟩

/-- Only the outbox worker takes items out, and only it moves. -/
theorem step_frame {a : Action} (hs : step s a = some t) (hclaim : a ≠ .claim) (hdeliver : a ≠ .deliver)
    (hcomplete : a ≠ .complete) :
    t.worker = s.worker ∧ (t.handoff.outbox = s.handoff.outbox ∨
      ∃ signal, t.handoff.outbox = (s.handoff.outbox.publish signal s.clock).1) := by
  cases a with
  | claim => exact absurd rfl hclaim
  | deliver => exact absurd rfl hdeliver
  | complete => exact absurd rfl hcomplete
  | persist pev f =>
    obtain ⟨hworker, hhandoff | hhandoff⟩ := persist_outbox hs
    · exact ⟨hworker, Or.inl (congrArg DurableHandoff.outbox hhandoff)⟩
    · exact ⟨hworker, Or.inr ⟨_, (congrArg DurableHandoff.outbox hhandoff).trans
        (s.handoff.publishPrediction_outbox _ _).1⟩⟩
  | publish signal =>
    cases hs
    exact ⟨rfl, Or.inr ⟨signal, rfl⟩⟩
  | deliverRow d =>
    obtain ⟨row, rest, -, ⟨-, rfl⟩ | ⟨-, rfl⟩⟩ := deliverRow_inv hs <;> exact ⟨rfl, Or.inl rfl⟩
  | _ =>
    have h := step_local hs trivial
    exact ⟨h.worker, Or.inl (congrArg DurableHandoff.outbox h.handoff)⟩

end DeliveryWorkers

/-! ### Any number of workers

Any number of workers on the notification table (`delivery/notification_worker.hpp`). Each of their statements
commits by itself. -/

namespace NotificationWorkers

/-- `NotificationWorker::Config`. -/
structure Config where
  workerId : String := "nw-1"
  batchSize : Nat := 16
  claimStaleMs : Int := 30000
  maxAttempts : Nat := 8
  baseRetryMs : Int := 500
  maxRetryMs : Int := 60000

def Config.retryMs (config : Config) (row : NotificationRow) : Int :=
  min config.maxRetryMs (config.baseRetryMs * 2 ^ min row.attempts 10)

structure State (ω : Type) where
  tables : Tables := {}
  clock : TimestampMs := 0
  guard : TemporalGuard := {}
  /-- The claimed rows that a worker has not completed. -/
  batches : ω → List NotificationRow := fun _ => []

inductive Action (ω : Type)
  | advance (ms : Nat)
  | enqueue (row : OutboxRow) (roundId : RoundId) (fault : Fault)
  | claim (worker : ω) (fault : Fault)
  /-- The first row of the batch: delivered or not, and the statement that says so. -/
  | complete (worker : ω) (result : Except String Unit) (fault : Fault)
  | recoverStaleClaims (worker : ω) (fault : Fault)
  | killStale (roundId : RoundId) (fault : Fault)

section
variable {ω : Type}

/-- A statement that is executed at once, on an idle connection. -/
def execute (s : State ω) (stmt : Statement Tables) (fault : Fault) : State ω :=
  { s with tables := ((⟨s.tables, .idle⟩ : Connection Tables).exec stmt fault).1.committed }

/-- The row is given up after this failure. -/
def Exhausted (config : Config) (row : NotificationRow) : Prop := config.maxAttempts ≤ row.attempts

instance (config : Config) (row : NotificationRow) : Decidable (Exhausted config row) :=
  inferInstanceAs (Decidable (_ ≤ _))

def completion (config : Config) (row : NotificationRow) (now : TimestampMs) : Except String Unit → Statement Tables
  | .ok _ => OutboxRepository.markDelivered row.id now
  | .error m => OutboxRepository.markFailed row.id m (config.retryMs row) (decide (Exhausted config row)) now

variable [DecidableEq ω]

def step (config : ω → Config) (s : State ω) : Action ω → Option (State ω)
  | .advance ms => some { s with clock := s.clock + ms }
  | .enqueue row roundId fault =>
    some (execute s (Tables.insertNotification (OutboxRepository.notification row roundId s.clock)) fault)
  | .claim w fault =>
    if s.batches w = [] then
      match OutboxRepository.claim ⟨s.tables, .idle⟩ (config w).batchSize (config w).workerId s.clock fault with
      | (conn, .ok rows) =>
        some { s with tables := conn.committed, batches := Function.update s.batches w rows }
      | (conn, .error _) => some { s with tables := conn.committed }
    else none
  | .complete w result fault =>
    match s.batches w with
    | row :: rest =>
      some { execute s (completion (config w) row s.clock result) fault with
        batches := Function.update s.batches w rest }
    | [] => none
  | .recoverStaleClaims w fault =>
    if s.batches w = [] then
      some (execute s (OutboxRepository.recoverStaleClaims (config w).claimStaleMs s.clock) fault)
    else none
  | .killStale roundId fault =>
    let (guard, conn) := s.guard.killStaleForTarget ⟨s.tables, .idle⟩ roundId s.clock fault
    some { s with guard, tables := conn.committed }

end
end NotificationWorkers

/-! ### Between delivery and completion

The notification workers between the delivery function and the statement that stores its result, and workers that crash.
The workers have one `maxAttempts`. -/

namespace RowDeliveries
open NotificationWorkers (Config)

structure State (ω : Type) where
  base : NotificationWorkers.State ω := {}
  /-- What the delivery function has answered about the first row of the batch, while nothing has stored it. -/
  answers : ω → Option (Except String Unit) := fun _ => none
  /-- Bookkeeping: id and attempts of each row that the delivery function was given, and the ids of those that it
      delivered. -/
  handed : List (Nat × Nat) := []
  sent : List Nat := []

inductive Action (ω : Type)
  | deliver (worker : ω) (answer : Except String Unit)
  | complete (worker : ω) (fault : Fault)
  /-- The worker loses its batch, and may start again. -/
  | crash (worker : ω)
  /-- All that is neither a delivery nor a completion. -/
  | other (a : NotificationWorkers.Action ω)

/-- Id and attempts of a claimed row: a row has other attempts at each of its claims. -/
def attempt (row : NotificationRow) : Nat × Nat := (row.id, row.attempts)

section
variable {ω : Type} [DecidableEq ω]

def configOf (config : ω → Config) (maxAttempts : Nat) (w : ω) : Config := { config w with maxAttempts }

def Other : NotificationWorkers.Action ω → Prop
  | .complete .. => False
  | _ => True

instance : DecidablePred (Other (ω := ω))
  | .complete .. => .isFalse id
  | .advance _ | .enqueue .. | .claim .. | .recoverStaleClaims .. | .killStale .. => .isTrue trivial

def step (config : ω → Config) (maxAttempts : Nat) (s : State ω) : Action ω → Option (State ω)
  | .deliver w answer =>
    match s.base.batches w, s.answers w with
    | row :: _, none => some { s with
        answers := Function.update s.answers w (some answer)
        handed := s.handed ++ [attempt row]
        sent := if answer.isOk then s.sent ++ [row.id] else s.sent }
    | _, _ => none
  | .complete w fault =>
    match s.answers w with
    | some answer =>
      (NotificationWorkers.step (configOf config maxAttempts) s.base (.complete w answer fault)).map fun base =>
        { s with base, answers := Function.update s.answers w none }
    | none => none
  | .crash w => some { s with
      base := { s.base with batches := Function.update s.base.batches w [] }
      answers := Function.update s.answers w none }
  | .other a =>
    if Other a then (NotificationWorkers.step (configOf config maxAttempts) s.base a).map fun base => { s with base }
    else none

/-- How often the delivery function was given the row with this id. -/
def deliveries (s : State ω) (id : Nat) : Nat := (s.handed.filter (·.1 = id)).length

end
end RowDeliveries
end CrashCore
