import CrashCore.Realtime.EventValidator

/-! The way of an event through the realtime pipeline: into a raw source event, normalization (`realtime/realtime_types.hpp`,
`realtime/normalizer.hpp`), validation and the counters (`realtime/realtime_pipeline.hpp`,
`realtime/realtime_metrics.hpp`). The curve `multiplierFromElapsed` is a parameter; the times that are measured are left
out. -/

namespace CrashCore
namespace Realtime

inductive SourceKind
  | socket | poll
deriving DecidableEq, Repr

structure RawSourceEvent where
  sourceId : String
  sourceKind : SourceKind := .socket
  event : String
  gameId : Option GameId := none
  multiplier : Option Double := none
  hash : Option String := none
  salt : Option String := none
  beganAt : Option Int := none
  crashedAt : Option Int := none
  elapsedMs : Option Int := none
  receivedAt : TimestampMs := 0
  backfill : Bool := false

/-- A normalized event with the fields that the validator does not read. -/
structure SourceRoundEvent extends NormalizedRoundEvent where
  sourceId : String
  sourceKind : SourceKind := .socket
  multiplier : Option Double := none
  hash : Option String := none
  salt : Option String := none
  beganAt : Option Int := none
  crashedAt : Option Int := none
  rawEvent : String := ""
  backfill : Bool := false
  elapsedMs : Option Int := none

/-- "st" is End, "bg" is Begin. -/
def mapEventName (event : String) : Option RoundPhase :=
  let event := String.ofList (event.toList.map Char.toLower)
  if event = "pr" ∨ event = "prepare" ∨ event = "ready" then some .prepare
  else if event = "pg" then some .progress
  else if event = "bg" ∨ event = "begin" ∨ event = "start" then some .begin
  else if event = "ed" ∨ event = "st" ∨ event = "end" ∨ event = "crash" ∨ event = "bust" then some .end
  else none

/-- Seconds become milliseconds. -/
def toEpochMs (value : Int) : TimestampMs :=
  if value ≤ 0 then 0 else if 0 < value ∧ value < 1000000000000 then value * 1000 else value

def normalizeSourceEvent (multiplierFromElapsed : Int → Double) (raw : RawSourceEvent) (now : TimestampMs) :
    Option SourceRoundEvent :=
  match mapEventName raw.event with
  | none => none
  | some phase =>
    let n : SourceRoundEvent :=
      { sourceId := raw.sourceId
        sourceKind := raw.sourceKind
        phase
        rawEvent := raw.event
        receivedAt := if raw.receivedAt ≠ 0 then raw.receivedAt else now
        backfill := raw.backfill
        elapsedMs := raw.elapsedMs
        gameId := (raw.gameId.filter fun gameId => gameId ≠ "").getD ""
        multiplier :=
          -- progress with elapsed but no multiplier
          if phase = .progress ∧ raw.multiplier = none then raw.elapsedMs.map multiplierFromElapsed else raw.multiplier
        hash := raw.hash
        salt := raw.salt
        beganAt := raw.beganAt.map toEpochMs
        crashedAt := raw.crashedAt.map toEpochMs }
    -- End requires gameId for identity; progress may be anonymous mid-round
    if n.phase ≠ .progress ∧ n.gameId = "" then none else some n

def fromCrashEvent (ev : CrashEvent) (sourceId : String) : RawSourceEvent :=
  let raw : RawSourceEvent :=
    { sourceId
      event := if ev.rawEventName = "" then "unknown" else ev.rawEventName
      receivedAt := if ev.eventTimeMs ≠ 0 then ev.eventTimeMs else ev.receivedAtNs.tdiv 1000000
      gameId := if ev.gameId = "" then none else some ev.gameId
      hash := if ev.hash = "" then none else some ev.hash
      elapsedMs := if 0 ≤ ev.elapsedMs then some ev.elapsedMs else none }
  match ev.kind with
  | .prepare => { raw with event := "pr" }
  | .start => { raw with event := "bg", beganAt := some ev.beganAtMs }
  | .progress => { raw with event := "pg", multiplier := some ev.currentMult }
  | .end => { raw with event := "ed", multiplier := some ev.crashPoint, crashedAt := some ev.endedAtMs }
  | _ => raw

/-! ### The pipeline -/

structure RealtimeMetrics where
  received : Nat := 0
  accepted : Nat := 0
  duplicates : Nat := 0
  stale : Nat := 0
  invalid : Nat := 0

structure AdapterHealth where
  lastEventAt : TimestampMs := 0
  lastEventKind : String := ""

structure RealtimePipeline where
  validator : EventValidator := {}
  metrics : RealtimeMetrics := {}
  health : AdapterHealth := {}

namespace RealtimePipeline

/-- The counter of a rejection. -/
def reject (p : RealtimePipeline) (reason : String) : RealtimePipeline :=
  if reason = "duplicate" then { p with metrics := { p.metrics with duplicates := p.metrics.duplicates + 1 } }
  else if reason = "stale" then { p with metrics := { p.metrics with stale := p.metrics.stale + 1 } }
  else { p with metrics := { p.metrics with invalid := p.metrics.invalid + 1 } }

/-- Feed a CrashEvent through normalize → validate. What is accepted comes with the time. -/
def observe (multiplierFromElapsed : Int → Double) (p : RealtimePipeline) (ev : CrashEvent) (now : TimestampMs) :
    RealtimePipeline × Option (SourceRoundEvent × TimestampMs) :=
  match normalizeSourceEvent multiplierFromElapsed (fromCrashEvent ev "native-bc-socket") now with
  | none => ({ p with metrics := { p.metrics with invalid := p.metrics.invalid + 1 } }, none)
  | some n =>
    let (result, validator) := p.validator.validate n.toNormalizedRoundEvent now
    let p : RealtimePipeline :=
      { validator
        metrics := { p.metrics with received := p.metrics.received + 1 }
        health := { p.health with lastEventAt := n.receivedAt } }
    if ¬result.ok then (p.reject result.reason, none)
    else
      ({ p with
          metrics := { p.metrics with accepted := p.metrics.accepted + 1 }
          health := if n.phase = .end then { p.health with lastEventKind := "end" } else p.health },
        some (n, result.acceptedAt))

end RealtimePipeline
end Realtime
end CrashCore
