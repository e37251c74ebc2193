import CrashCore.Ingestion.EventDecoder
import CrashCore.Realtime.RealtimePipeline

/-! Decoding with normalization (`ingestion/decode_helpers.hpp`). -/

namespace CrashCore
open Realtime (SourceRoundEvent)

/-- `ns` is the reading of the steady clock. -/
def crashEventFromNormalized (n : SourceRoundEvent) (ns : Int) : CrashEvent :=
  let e : CrashEvent :=
    { valid := true
      gameId := n.gameId
      roundId := n.gameId
      rawEventName := n.rawEvent
      eventTimeMs := n.receivedAt
      receivedAtNs := ns
      decodedAtNs := ns
      source := .nativeSocket
      hash := n.hash.getD ""
      beganAtMs := n.beganAt.getD 0
      endedAtMs := n.crashedAt.getD 0
      elapsedMs := n.elapsedMs.getD (-1) }
  match n.phase with
  | .prepare => { e with kind := .prepare }
  | .begin => { e with kind := .start }
  | .progress => { e with kind := .progress, currentMult := n.multiplier.getD 0 }
  | .end => { e with kind := .end, crashPoint := n.multiplier.getD 0 }

/-- The event that was decoded, normalized unless the normalizer rejects it. -/
def normalized (multiplierFromElapsed : Int → Double) (ev : CrashEvent) (now : TimestampMs) (ns : Int) : CrashEvent :=
  let raw := Realtime.fromCrashEvent ev "native-bc-socket"
  match Realtime.normalizeSourceEvent multiplierFromElapsed raw now with
  | none => ev
  | some n => crashEventFromNormalized n ns

/-- `clock` is read by the decoder, `now` and `ns` after it. -/
def decodeAndNormalizeBinary (multiplierFromElapsed : Int → Double) (dec : EventDecoder) (data : Bytes)
    (clock : Readings) (now : TimestampMs) (ns : Int) : Option (EventDecoder × Option CrashEvent) :=
  (dec.decodeBinary multiplierFromElapsed data .nativeSocket clock).map fun
    | (dec, .error _) => (dec, none)
    | (dec, .ok ev) => (dec, some (normalized multiplierFromElapsed ev now ns))

end CrashCore
