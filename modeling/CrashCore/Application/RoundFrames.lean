import CrashCore.Application.PipelineLoop
import CrashCore.Ingestion.EventDecoder
import CrashCore.Ingestion.RoundState
import CrashCore.Ingestion.Stats
import Mathlib.Logic.Function.Basic

/-! Frames of synthetic rounds (`ingestion/socketio/protocol_edge_cases.hpp`, `timing/timestamp.hpp`), and a pipeline
loop with its round states and statistics that is fed with them (`application/pipeline_loop.hpp`).

The curve between time and multiplier is a parameter, and the verdict of the realtime pipeline comes with the frame. -/

namespace CrashCore

/-- `elapsedOf` is `std::log(multiplier) / 6e-5` as an integer. -/
def elapsedFromMultiplier (elapsedOf : Double → Int) (multiplier : Double) : Int :=
  if multiplier ≤ 1 then 0 else elapsedOf multiplier

namespace RoundFrames

def startFrame (gameId : Nat) : Bytes := encodeEvent (ascii "/g/cm") (ascii "st") (encodeEndPayload gameId 1 .empty)

def progressFrame (elapsed : Int) : Bytes := encodeEvent (ascii "/g/cm") (ascii "pg") (encodeProgressPayload elapsed)

def endFrame (gameId : Nat) (finalMult : Double) : Bytes :=
  encodeEvent (ascii "/g/cm") (ascii "ed") (encodeEndPayload gameId finalMult ⟨ascii "synth", by decide⟩)

/-- Build a sequence of synthetic frames for a full round (tests/replay). -/
def syntheticRoundFrames (elapsedOf : Double → Int) (gameId : Nat) (finalMult : Double) (progressTicks : Nat) :
    List Bytes :=
  let totalElapsed := elapsedFromMultiplier elapsedOf finalMult
  startFrame gameId ::
    ((List.range progressTicks).map fun i : Nat => progressFrame ((totalElapsed * (i + 1 : Nat)).tdiv progressTicks)) ++
    [endFrame gameId finalMult]

structure State (κ : Type) where
  loop : PipelineLoop.State κ
  rounds : RoundStateRegistry := {}
  stats : CrashStatsAccumulator := {}
  /-- Bookkeeping: the Ends that the router has put into the queues of validation and prediction. -/
  routed : List CrashEvent := []

/-- A frame, and what `onFrame` meets with it: the readings of the clocks, the verdict of the realtime pipeline, and
    the order in which `recoverExpiredLeases` finds the leases. -/
structure Frame where
  data : Bytes
  clock : Readings := ⟨0, 0, 0, 0⟩
  accepted : Bool := true
  now : TimestampMs := 0
  ns : Int := 0
  order : List Nat := []

section
variable {κ : Type} (submit : κ → PredictionRequest → Submission κ) (multiplierFromElapsed : Int → Double)

def initial (client : κ) (queueCapacity : Nat) (outbox : OutboxLifecycle) : State κ :=
  { loop := PipelineLoop.initial client queueCapacity outbox }

/-- The router puts the event into both queues. -/
def Routes (r : EventRouter) (ev : CrashEvent) : Prop := ev.IsValidEnd ∧ ¬r.Refuses ev ∧ ¬r.toPrediction.Full

instance (r : EventRouter) (ev : CrashEvent) : Decidable (Routes r ev) := inferInstanceAs (Decidable (_ ∧ _))

/-- What `onFrame` does with an event that is new to the filter, the router and `drain` apart. -/
def observe (s : State κ) (ev : CrashEvent) (now : TimestampMs) : State κ :=
  { s with
    rounds := (s.rounds.apply ev now).1
    stats := if ev.kind = .end ∧ 0 < ev.crashPoint then s.stats.addRound ev.crashPoint else s.stats
    routed := if Routes s.loop.router ev then s.routed ++ [ev] else s.routed }

/-- `onFrame` after the decoder. -/
def takeIn (s : State κ) (f : Frame) (decoded : Except Error CrashEvent) : Option (State κ) :=
  (PipelineLoop.step submit s.loop (.frame decoded f.accepted f.now f.ns f.order)).map fun loop =>
    match decoded, (PipelineLoop.intake s.loop decoded f.accepted f.ns).2 with
    | .ok ev, true => { observe s ev f.now with loop }
    | _, _ => { s with loop }

/-- The counters of the decoder are left out. -/
def onFrame (s : State κ) (f : Frame) : Option (State κ) :=
  (EventDecoder.decodeBinary multiplierFromElapsed {} f.data .nativeSocket f.clock).bind fun r => takeIn submit s f r.2

end
end RoundFrames

/-! ### What a loop has heard

A pipeline loop that is fed with frames, with a record of what it has heard: the events that its filter let
through, and the progress of the rounds that are started and not ended. -/

/-- `timing/timestamp.hpp`; `exp` is `std::exp`. -/
def multiplierFromElapsed (exp : Double → Double) (elapsedMs : Int) : Double :=
  if elapsedMs ≤ 0 then 1
  else
    let growth := exp (Double.nearest (Double.nearest (6 / 100000) * Double.nearest elapsedMs))
    let x := Double.nearest ((Double.nearest (100 * growth)).floor / 100)
    if x < 1 then 1 else x

theorem one_le_multiplierFromElapsed (exp : Double → Double) (elapsedMs : Int) :
    1 ≤ multiplierFromElapsed exp elapsedMs := by
  unfold multiplierFromElapsed
  dsimp only
  split
  · exact le_refl _
  · split
    · exact le_refl _
    · exact le_of_not_gt ‹_›

namespace RoundFrames

/-- `taken` and `since` are bookkeeping. -/
structure Watched (κ : Type) where
  state : State κ
  /-- The events that the filter let through. -/
  taken : List CrashEvent := []
  /-- For a round that is started and not ended, the elapsed times that were received since its Start. -/
  since : GameId → Option (List Int) := fun _ => none

/-- The filter lets the event of the frame through. -/
def passes {κ : Type} (s : State κ) (f : Frame) (ev : CrashEvent) : Bool :=
  (PipelineLoop.intake s.loop (.ok ev) f.accepted f.ns).2

/-- Start and End count when they pass, progress when it is received. -/
def hear (since : GameId → Option (List Int)) (ev : CrashEvent) (passed : Bool) : GameId → Option (List Int) :=
  match ev.kind with
  | .start => if passed then Function.update since ev.gameId (some []) else since
  | .end => if passed then Function.update since ev.gameId none else since
  | .progress => if ev.valid then fun id => (since id).map (· ++ [ev.elapsedMs]) else since
  | _ => since

section
variable {κ : Type} (submit : κ → PredictionRequest → Submission κ) (exp : Double → Double)

/-- A frame that is decoded so. -/
def take (w : Watched κ) (f : Frame) (decoded : Except Error CrashEvent) : Option (Watched κ) :=
  (takeIn submit w.state f decoded).map fun state =>
    match decoded with
    | .error _ => { w with state }
    | .ok ev =>
      { state
        taken := if passes w.state f ev then w.taken ++ [ev] else w.taken
        since := hear w.since ev (passes w.state f ev) }

def watch (w : Watched κ) (f : Frame) : Option (Watched κ) :=
  (EventDecoder.decodeBinary (multiplierFromElapsed exp) {} f.data .nativeSocket f.clock).bind fun r =>
    take submit w f r.2

def Watched.initial (client : κ) (queueCapacity : Nat) (outbox : OutboxLifecycle) : Watched κ where
  state := RoundFrames.initial client queueCapacity outbox

/-- The record changes nothing. -/
theorem watch_state (w : Watched κ) (f : Frame) :
    (watch submit exp w f).map (·.state) = onFrame submit (multiplierFromElapsed exp) w.state f := by
  unfold watch onFrame
  rw [Option.map_bind]
  refine congrArg _ (funext fun r => ?_)
  rw [Function.comp_apply, take, Option.map_map]
  rcases takeIn submit w.state f r.2 with _ | s
  · rfl
  · rcases r.2 with e | ev <;> rfl

end
end RoundFrames
end CrashCore
