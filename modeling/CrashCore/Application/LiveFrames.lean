import CrashCore.Application.RoundFrames
import CrashCore.Realtime.RealtimePipeline

/-! What `onFrame` gives to the realtime pipeline, what that makes of it, and the counters of the loop. -/

namespace CrashCore
namespace RoundFrames
open Realtime

structure LoopMetrics where
  eventsReceived : Nat := 0
  eventsDecoded : Nat := 0
  eventsDropped : Nat := 0
  eventsRouted : Nat := 0

structure Live (κ : Type) where
  state : State κ
  realtime : RealtimePipeline := {}
  metrics : LoopMetrics := {}
  /-- Bookkeeping: the frames that are neither dropped nor routed. -/
  passed : Nat := 0

/-- `onFrame` returns without a trace. -/
def Quiet (ev : CrashEvent) (accepted : Bool) : Prop :=
  ¬accepted ∧ ((ev.kind = .heartbeat ∨ ev.kind = .connect) ∨ ¬ev.valid)

instance (ev : CrashEvent) (accepted : Bool) : Decidable (Quiet ev accepted) := inferInstanceAs (Decidable (_ ∧ _))

section
variable {κ : Type} (submit : κ → PredictionRequest → Submission κ) (multiplierFromElapsed : Int → Double)

/-- What is counted of an event. -/
def count (l : Live κ) (ev : CrashEvent) (accepted : Bool) (ns : Int) : Live κ :=
  let loop := l.state.loop
  let metrics := { l.metrics with
    eventsReceived := l.metrics.eventsReceived + 1
    eventsDecoded := l.metrics.eventsDecoded + 1 }
  if Quiet ev accepted then { l with metrics, passed := l.passed + 1 }
  else if (loop.dupes.accept ev).2 ∧ (loop.router.route ev ns).2 then
    { l with metrics := { metrics with eventsRouted := metrics.eventsRouted + 1 } }
  else { l with metrics := { metrics with eventsDropped := metrics.eventsDropped + 1 } }

def onLiveFrame (l : Live κ) (f : Frame) : Option (Live κ) :=
  (EventDecoder.decodeBinary multiplierFromElapsed {} f.data .nativeSocket f.clock).bind fun r =>
    match r.2 with
    | .error e =>
      (takeIn submit l.state f (.error e)).map fun state =>
        { l with
          state
          metrics := { l.metrics with
            eventsReceived := l.metrics.eventsReceived + 1
            eventsDropped := l.metrics.eventsDropped + 1 } }
    | .ok ev =>
      let (realtime, accepted) := l.realtime.observe multiplierFromElapsed ev f.now
      (takeIn submit l.state { f with accepted := accepted.isSome } (.ok ev)).map fun state =>
        { count l ev accepted.isSome f.ns with state, realtime }

end
end RoundFrames
end CrashCore
