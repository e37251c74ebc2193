import Mathlib.Data.Int.Log
import Mathlib.Data.Rat.Floor

/-! Core domain types (`common/types.hpp`, `common/errors.hpp`, `common/constants.hpp`).

A `double` is the exact rational it denotes. Counters and ids are `Nat`, timestamps `Int` milliseconds. -/

namespace CrashCore

abbrev RoundId := String
abbrev PredictionId := String
abbrev GameId := String
abbrev TimestampMs := Int
abbrev Double := Rat

/-- The nearest integer, ties to even: the rounding of `std::to_string` and of stream output. -/
def Double.roundTiesToEven (d : Double) : Int :=
  let low := d.floor
  let rest := d - low
  if rest < 1 / 2 ∨ (rest = 1 / 2 ∧ low % 2 = 0) then low else low + 1

/-- The binary64 number nearest to `q`, ties to even: a literal, and the result of one operation. The exponent is
    not bounded. -/
def Double.nearest (q : Rat) : Double :=
  if q = 0 then 0
  else
    let ulp : Rat := 2 ^ (Int.log 2 |q| - 52)
    Double.roundTiesToEven (q / ulp) * ulp

inductive ErrorCode
  | ok | invalidArgument | notFound | alreadyExists | timeout | cancelled | connectionFailed
  | protocolError | parseError | signatureError | authFailed | queueFull | queueEmpty | databaseError
  | networkError | rateLimited | internalError | notImplemented | shutdown | staleData | duplicate
  | validationFailed | configError | resourceExhausted | ioError
deriving DecidableEq, Repr

structure Error where
  code : ErrorCode
  message : String
deriving DecidableEq, Repr

structure CrashRound where
  gameId : GameId
  multiplier : Double := 0
  hash : String := ""
  salt : String := ""
  beganAtMs : TimestampMs := 0
  crashedAtMs : TimestampMs := 0
  sequence : Nat := 0
  hasHash : Bool := false
  hasSalt : Bool := false
deriving DecidableEq

inductive EventKind
  | unknown | progress | start | «end» | prepare | betsOpen | betsClosed | heartbeat | connect | disconnect | error
deriving DecidableEq, Repr

inductive EventSource
  | unknown | nativeSocket | socketIo | restPoll | replay | synthetic
deriving DecidableEq, Repr

structure CrashEvent where
  kind : EventKind := .unknown
  source : EventSource := .unknown
  roundId : RoundId := ""
  gameId : GameId := ""
  crashPoint : Double := 0
  currentMult : Double := 0
  beganAtMs : TimestampMs := 0
  endedAtMs : TimestampMs := 0
  eventTimeMs : TimestampMs := 0
  sequence : Nat := 0
  receivedAtNs : Int := 0
  decodedAtNs : Int := 0
  routedAtNs : Int := 0
  hash : String := ""
  rawEventName : String := ""
  elapsedMs : Int := -1
  valid : Bool := false
deriving DecidableEq

def CrashEvent.IsValidEnd (e : CrashEvent) : Prop := e.kind = .end ∧ e.valid

instance : DecidablePred CrashEvent.IsValidEnd := fun _ => inferInstanceAs (Decidable (_ ∧ _))

/-- The round that an End ends: its round id, or its game id when it has none. -/
def CrashEvent.endedRound (e : CrashEvent) : RoundId := if e.roundId ≠ "" then e.roundId else e.gameId

inductive PredictionDecision
  | skip | enter | hold
deriving DecidableEq, Repr

inductive PredictionOutcome
  | pending | win | loss | void | stale | duplicate
deriving DecidableEq, Repr

structure PredictionResponse where
  predictionId : PredictionId
  targetRoundId : RoundId
  decision : PredictionDecision := .skip
  confidence : Double := 0
  probability : Double := 0
  targetMult : Double := 0
  responseTimeMs : TimestampMs := 0
  correlationId : String := ""
  modelVersion : String := ""
  valid : Bool := false
deriving DecidableEq

structure PredictionEvent where
  predictionId : PredictionId
  targetRoundId : RoundId
  gameId : GameId := ""
  decision : PredictionDecision := .skip
  confidence : Double := 0
  probability : Double := 0
  entryMult : Double := 0
  targetMult : Double := 0
  createdAtMs : TimestampMs := 0
  correlationId : String := ""
  modelVersion : String := ""
deriving DecidableEq

structure Outcome where
  predictionId : PredictionId
  roundId : RoundId
  result : PredictionOutcome := .pending
  actualMult : Double := 0
  targetMult : Double := 0
  resolvedAtMs : TimestampMs := 0
  isWin : Bool := false
deriving DecidableEq

inductive SignalKind
  | prediction | outcome | heartbeat | systemAlert
deriving DecidableEq, Repr

/-- `static_cast<int>(kind)`. -/
def SignalKind.toNat : SignalKind → Nat
  | .prediction => 0
  | .outcome => 1
  | .heartbeat => 2
  | .systemAlert => 3

structure Signal where
  kind : SignalKind := .prediction
  predictionId : PredictionId
  roundId : RoundId := ""
  text : String := ""
  createdAtMs : TimestampMs := 0
  correlationId : String := ""
  urgent : Bool := false
deriving DecidableEq, Repr

inductive OutboxState
  | pending | claimed | inFlight | delivered | failed | deadLetter
deriving DecidableEq, Repr

structure OutboxItem where
  id : Nat := 0
  state : OutboxState := .pending
  signal : Signal
  createdAtMs : TimestampMs := 0
  claimedAtMs : TimestampMs := 0
  deliveredAtMs : TimestampMs := 0
  attempts : Nat := 0
  lastError : String := ""
  dedupeKey : String
deriving DecidableEq, Repr

namespace Constants

def OUTBOX_MAX_ATTEMPTS : Nat := 5
def OUTBOX_CLAIM_TIMEOUT_MS : Int := 30000
def TELEGRAM_MAX_RETRIES : Nat := 3

end Constants
end CrashCore
