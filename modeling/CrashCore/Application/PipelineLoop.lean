import CrashCore.Delivery.OutboxLifecycle
import CrashCore.Delivery.Signal
import CrashCore.Ingestion.EventRouter
import CrashCore.PredictionInterface.PredictionAttempt
import CrashCore.Validation.LiveValidator

/-! A pipeline loop that owns its handlers (`application/pipeline_loop.hpp`, `ingestion/duplicate_filter.hpp`).

The prediction client is a parameter. What the decoder makes of a frame and whether the realtime pipeline accepts it
come with the frame. Round states, statistics and metrics are left out: nothing here reads them. A frame has one
clock reading. -/

namespace CrashCore

/-- The keys of `order_`, which `seen_` holds as well, from the oldest to the newest. -/
structure DuplicateFilter where
  max : Nat := 8192
  order : List String := []
  accepted : Nat := 0
  duplicates : Nat := 0

namespace DuplicateFilter

def makeKey (ev : CrashEvent) : String :=
  (if ev.gameId ≠ "" then ev.gameId else ev.roundId) ++ ":" ++ toString ev.kind.toNat ++ ":" ++ toString ev.sequence ++
    ":" ++ toString ev.elapsedMs

/-- The event is valid and its key is new. -/
def Accepts (d : DuplicateFilter) (ev : CrashEvent) : Prop := ev.valid = true ∧ makeKey ev ∉ d.order

instance (d : DuplicateFilter) (ev : CrashEvent) : Decidable (d.Accepts ev) := inferInstanceAs (Decidable (_ ∧ _))

def accept (d : DuplicateFilter) (ev : CrashEvent) : DuplicateFilter × Bool :=
  if ¬ev.valid then (d, false)
  else if makeKey ev ∈ d.order then ({ d with duplicates := d.duplicates + 1 }, false)
  else ({ d with order := (d.order ++ [makeKey ev]).popFrontTo d.max, accepted := d.accepted + 1 }, true)

theorem accept_iff (d : DuplicateFilter) (ev : CrashEvent) : (d.accept ev).2 = true ↔ d.Accepts ev := by
  unfold accept Accepts
  split
  · rename_i h
    simp [h]
  · split <;> simp_all

end DuplicateFilter

/-- What a client does with a request: its next state, the response that it hands to the handler, and its result. -/
structure Submission (κ : Type) where
  client : κ
  response : Option PredictionResponse := none
  result : Except Error Unit := .ok ()

namespace PipelineLoop

/-- An End out of the prediction queue, with the requests that the client got in its turn of the loop. -/
structure Turn where
  endEvent : CrashEvent
  requests : List PredictionRequest

structure State (κ : Type) where
  client : κ
  router : EventRouter
  validation : ValidatorCalls.State := {}
  outbox : OutboxLifecycle
  attempts : PredictionAttemptCoordinator := {}
  dupes : DuplicateFilter := {}
  /-- Bookkeeping: all requests to the client. -/
  submitted : List PredictionRequest := []
  turns : List Turn := []

inductive Act
  /-- `order` lists the expired leases as `recoverExpiredLeases` finds them. -/
  | frame (decoded : Except Error CrashEvent) (accepted : Bool) (now : TimestampMs) (ns : Int) (order : List Nat)
  /-- The client gives a response to the handler later than in `submit`. -/
  | response (resp : PredictionResponse) (now : TimestampMs)

section
variable {κ : Type} (submit : κ → PredictionRequest → Submission κ)

def initial (client : κ) (queueCapacity : Nat) (outbox : OutboxLifecycle) : State κ :=
  { client, router := .new queueCapacity, outbox }

def registerPrediction (v : ValidatorCalls.State) (ev : PredictionEvent) : ValidatorCalls.State × Bool :=
  match v.validator.registry.registerPrediction ev with
  | (registry, .ok ()) =>
    ({ v with validator := { v.validator with registry }, registered := v.registered ++ [ev] }, true)
  | (registry, .error _) => ({ v with validator := { v.validator with registry } }, false)

def onPredictionResponse (s : State κ) (resp : PredictionResponse) (now : TimestampMs) : State κ :=
  let s := { s with attempts := (s.attempts.complete resp now).1 }
  if ¬isActionable resp then s
  else
    let pev := fromResponse resp resp.targetRoundId 0 now
    match registerPrediction s.validation pev with
    | (validation, false) => { s with validation }
    | (validation, true) =>
      { s with validation, outbox := (s.outbox.publishSignal (signalFromPrediction pev now) now).1 }

/-- A request to the client, whose response is handled before it returns. -/
def submitTo (s : State κ) (req : PredictionRequest) (now : TimestampMs) : State κ × Except Error Unit :=
  let r := submit s.client req
  let s := { s with client := r.client, submitted := s.submitted ++ [req] }
  match r.response with
  | none => (s, r.result)
  | some resp => (onPredictionResponse s resp now, r.result)

/-- `attempts_.begin`. -/
def beginAttempt (s : State κ) (req : PredictionRequest) (now : TimestampMs) : State κ :=
  let (attempts, r) := s.attempts.beginAttempt req now
  let (s, result) := submitTo submit { s with attempts } r now
  { s with attempts := s.attempts.submitted r.correlationId now result }

/-- One turn of the loop over the prediction queue: End events only. -/
def predict (s : State κ) (ev : CrashEvent) (now : TimestampMs) (ns : Int) : State κ :=
  if ev.kind ≠ .end then s
  else
    let req := makePredictionRequest ev "" now ns
    let t := (submitTo submit (beginAttempt submit s req now) req now).1
    { t with turns := t.turns ++ [⟨ev, t.submitted.drop s.submitted.length⟩] }

/-- `while (popPrediction)`, for at most `fuel` turns. -/
def drainPrediction (now : TimestampMs) (ns : Int) : Nat → State κ → State κ
  | 0, s => s
  | fuel + 1, s =>
    match s.router.popPrediction with
    | none => s
    | some (ev, router) => drainPrediction now ns fuel (predict submit { s with router } ev now ns)

/-- The call of `onGameEnd` that has begun goes through its stages, at most `fuel` of them. -/
def finish (now : TimestampMs) : Nat → ValidatorCalls.State → ValidatorCalls.State
  | 0, v => v
  | fuel + 1, v =>
    match v.calls with
    | [] => v
    | c :: _ => finish now fuel (ValidatorCalls.resume v c now)

/-- `onGameEnd`, whose outcomes go to the handler, and from there into the outbox. -/
def settle (s : State κ) (ev : CrashEvent) (now : TimestampMs) : State κ :=
  let validation := finish now (2 * s.validation.validator.registry.entries.length + 4)
    (ValidatorCalls.onGameEnd s.validation ev)
  let outcomes := (validation.emitted.drop s.validation.emitted.length).map (·.outcome)
  { s with validation, outbox := outcomes.foldl (fun l o => (l.publishSignal (signalFromOutcome o now) now).1) s.outbox }

/-- `while (popValidation)`, for at most `fuel` turns. -/
def drainValidation (now : TimestampMs) : Nat → State κ → State κ
  | 0, s => s
  | fuel + 1, s =>
    match s.router.popValidation with
    | none => s
    | some (ev, router) => drainValidation now fuel (settle { s with router } ev now)

def drain (s : State κ) (now : TimestampMs) (ns : Int) (order : List Nat) : State κ :=
  let s := drainPrediction submit now ns s.router.toPrediction.items.length s
  let s := drainValidation now s.router.toValidation.items.length s
  { s with
    attempts := s.attempts.expireTimeouts now
    validation := { s.validation with
      validator := { s.validation.validator with registry := s.validation.validator.registry.expireStale 300000 now } }
    outbox := (s.outbox.recoverExpiredLeases now order).1 }

/-- `onFrame` up to `drain`; the flag is false when it returns before. -/
def intake (s : State κ) (decoded : Except Error CrashEvent) (accepted : Bool) (ns : Int) : State κ × Bool :=
  match decoded with
  | .error _ => (s, false)
  | .ok ev =>
    if ¬accepted ∧ (ev.kind = .heartbeat ∨ ev.kind = .connect) then (s, false)
    else if ¬accepted ∧ ¬ev.valid then (s, false)
    else
      match s.dupes.accept ev with
      | (dupes, false) => ({ s with dupes }, false)
      | (dupes, true) => ({ s with dupes, router := (s.router.route ev ns).1 }, true)

/-- A frame that gets as far as `drain` is a step when `order` lists the expired leases, of which there are as many
    before the loops as after them. -/
def step (s : State κ) : Act → Option (State κ)
  | .frame decoded accepted now ns order =>
    match intake s decoded accepted ns with
    | (s, false) => some s
    | (s, true) => if order.Perm (s.outbox.expired now) then some (drain submit s now ns order) else none
  | .response resp now => some (onPredictionResponse s resp now)

end
end PipelineLoop
end CrashCore
