import CrashCore.Library.Codec
import CrashCore.PredictionInterface.InProcessSubmit

/-! Calls of `predictNextAfterEnd` on one client by two threads (`prediction_interface/in_process_prediction_client.hpp`,
`pollResponse` in `prediction_interface/prediction_client.hpp`). A call takes the lock of the engine twice, to observe
and to predict, then that of the pending responses twice, to store and to poll; between them the other thread may do
anything. No response handler is set, and the counters that only report are left out. -/

namespace CrashCore

/-- The response to a request that the engine has answered with `result`, after `observed` finished rounds. -/
def ClientOptions.answer (opt : ClientOptions) (adaptive : Option AdaptiveEdge) (req : PredictionRequest)
    (now : TimestampMs) (observed : Nat) : Except EngineFailure PredictResult → PredictionResponse
  | .ok pr =>
    { predictionId := if pr.output.predictionId = "" then "pe-" ++ req.correlationId else pr.output.predictionId
      targetRoundId := req.targetRoundId
      decision := opt.decision adaptive pr.signal observed
      confidence := pr.signal.confidence
      probability := pr.signal.probability
      targetMult := pr.output.target
      responseTimeMs := now
      correlationId := req.correlationId
      modelVersion := if pr.signal.modelVersion = "" then pr.output.modelName else pr.signal.modelVersion
      valid := true }
  | .error failure =>
    { predictionId := "skip-" ++ req.correlationId
      targetRoundId := req.targetRoundId
      responseTimeMs := now
      correlationId := req.correlationId
      modelVersion := "pe-error:" ++ failure.text
      valid := true }

theorem SubmittingClient.response_eq_answer (c : SubmittingClient) (engine : PredictionEngine)
    (adaptive : Option AdaptiveEdge) (req : PredictionRequest) (now : TimestampMs) :
    c.response engine adaptive req now = c.options.answer adaptive req now c.observed (c.predict engine req) := by
  unfold SubmittingClient.response
  cases c.predict engine req <;> rfl

theorem ClientOptions.answer_targetRoundId (opt : ClientOptions) (adaptive : Option AdaptiveEdge) (req : PredictionRequest)
    (now : TimestampMs) (observed : Nat) (result : Except EngineFailure PredictResult) :
    (opt.answer adaptive req now observed result).targetRoundId = req.targetRoundId := by
  cases result <;> rfl

namespace NextRoundCalls

def correlationId (targetRoundId : RoundId) (requestTimeMs : TimestampMs) : String :=
  targetRoundId ++ "-n1-" ++ toString requestTimeMs

/-- Only requests for one round in one millisecond have the same correlation id. -/
theorem correlationId_inj {target other : RoundId} {m n : Nat} (h : correlationId target m = correlationId other n) :
    target = other ∧ m = n := by
  have hsplit (s : RoundId) (k : Nat) : correlationId s k = s ++ "-n1" ++ "-" ++ toString k := by
    show s ++ "-n1-" ++ toString k = _
    rw [show "-n1-" = "-n1" ++ "-" by decide, ← String.append_assoc]
  rw [hsplit, hsplit] at h
  obtain ⟨htarget, hms⟩ := Separator.append_nat_inj (c := '-') (by decide) (by decide) h
  exact ⟨by simpa using htarget, hms⟩

/-- The request for the round after an End. -/
def request (e : CrashEvent) (requestTimeMs : TimestampMs) (requestNs : Int) : PredictionRequest :=
  let targetRoundId := nextRoundId (if e.roundId = "" then e.gameId else e.roundId)
  { gameId := e.gameId
    targetRoundId
    requestTimeMs
    requestNs
    sequence := (e.sequence + 1) % 2 ^ 64
    currentMult := e.crashPoint
    correlationId := correlationId targetRoundId requestTimeMs }

inductive Caller
  | pollHandler
  | mainLoop
deriving DecidableEq

/-- A response, and as bookkeeping the call that has computed it: the caller, and which of its calls. -/
structure Answer where
  source : Option (Caller × Nat) := none
  response : PredictionResponse := { predictionId := "", targetRoundId := "" }

/-- Where a call is. From the store on, what it has computed is bookkeeping. -/
inductive Phase
  | idle
  | requested (req : PredictionRequest)
  | predicted (req : PredictionRequest) (responseTimeMs : TimestampMs) (result : Except EngineFailure PredictResult)
  | answered (req : PredictionRequest) (own : Answer)
  | waiting (req : PredictionRequest) (own : Answer)
  /-- Its poll has found nothing. -/
  | missed (req : PredictionRequest) (own : Answer)

/-- What a call has returned, with its target round and the answer of its own `submit`. -/
structure Return where
  targetRoundId : RoundId
  own : Answer
  got : Answer

structure State where
  client : InProcessPredictionClient := {}
  pending : String → Option Answer := fun _ => none
  /-- `last_response_`. -/
  last : Answer := {}
  phase : Caller → Phase := fun _ => .idle
  /-- Bookkeeping: how many calls each thread has begun, and what was returned. -/
  begun : Caller → Nat := fun _ => 0
  returned : List Return := []

inductive Act
  | begin (caller : Caller) (e : CrashEvent) (now requestTimeMs : TimestampMs) (requestNs : Int)
  | predict (caller : Caller) (responseTimeMs : TimestampMs)
  | answer (caller : Caller) (adaptive : Option AdaptiveEdge)
  | store (caller : Caller)
  | poll (caller : Caller)
  | fallback (caller : Caller)

namespace State

def setPhase (s : State) (caller : Caller) (phase : Phase) : State :=
  { s with phase := Function.update s.phase caller phase }

/-- The call returns. -/
def finish (s : State) (caller : Caller) (req : PredictionRequest) (own got : Answer) : State :=
  { s.setPhase caller .idle with returned := s.returned ++ [⟨req.targetRoundId, own, got⟩] }

end State

variable (engine : PredictionEngine) (options : ClientOptions)

def step (s : State) : Act → Option State
  | .begin caller e now requestTimeMs requestNs =>
    match s.phase caller with
    | .idle => some { s.setPhase caller (.requested (request e requestTimeMs requestNs)) with
        client := s.client.observeEnd e now
        begun := Function.update s.begun caller (s.begun caller + 1) }
    | _ => none
  | .predict caller responseTimeMs =>
    match s.phase caller with
    | .requested req =>
      let client := s.client.warmUp
      let result := engine client.samples { targetRoundId := req.targetRoundId, target := options.defaultTarget }
      some { s.setPhase caller (.predicted req responseTimeMs result) with client }
    | _ => none
  | .answer caller adaptive =>
    match s.phase caller with
    | .predicted req responseTimeMs result =>
      -- The count of the rounds and the edge are read without the lock.
      let response := options.answer adaptive req responseTimeMs s.client.observed result
      some (s.setPhase caller (.answered req ⟨some (caller, s.begun caller), response⟩))
    | _ => none
  | .store caller =>
    match s.phase caller with
    | .answered req own => some { s.setPhase caller (.waiting req own) with
        pending := Function.update s.pending req.correlationId (some own)
        last := own }
    | _ => none
  | .poll caller =>
    match s.phase caller with
    | .waiting req own =>
      match s.pending req.correlationId with
      | some got => some { s.finish caller req own got with
          pending := Function.update s.pending req.correlationId none }
      | none => some (s.setPhase caller (.missed req own))
    | _ => none
  | .fallback caller =>
    match s.phase caller with
    | .missed req own => some (s.finish caller req own s.last)
    | _ => none

/-- The client that the calls work on, after one more End. -/
def State.observing (s : State) (e : CrashEvent) (now : TimestampMs) : SubmittingClient where
  toInProcessPredictionClient := s.client.observeEnd e now
  options := options
  pending := fun id => (s.pending id).map (·.response)
  lastResponse := s.last.source.map fun _ => s.last.response

/-- The acts of a call that nobody interrupts. -/
def alone (caller : Caller) (e : CrashEvent) (now requestTimeMs : TimestampMs) (requestNs : Int)
    (adaptive : Option AdaptiveEdge) (responseTimeMs : TimestampMs) : List Act :=
  [.begin caller e now requestTimeMs requestNs, .predict caller responseTimeMs, .answer caller adaptive, .store caller,
    .poll caller]

/-- Such a call returns what `submit` answers. -/
theorem run_alone {s : State} {caller : Caller} (h : s.phase caller = .idle) (e : CrashEvent)
    (now requestTimeMs : TimestampMs) (requestNs : Int) (adaptive : Option AdaptiveEdge) (responseTimeMs : TimestampMs) :
    ∃ t r, Transition.run (step engine options) s
        (alone caller e now requestTimeMs requestNs adaptive responseTimeMs) = some t ∧
      t.returned = s.returned ++ [r] ∧
      r.got.response =
        ((s.observing options e now).submit engine adaptive (request e requestTimeMs requestNs) responseTimeMs).1 := by
  have hanswer := (s.observing options e now).response_eq_answer engine adaptive (request e requestTimeMs requestNs)
    responseTimeMs
  simp only [alone, Transition.run, step, h, Option.bind_some, State.setPhase, State.finish, Function.update_self]
  refine ⟨_, _, rfl, rfl, ?_⟩
  rw [InProcessPredictionClient.warmUp_observed]
  exact hanswer.symm

end NextRoundCalls
end CrashCore
