import CrashCore.Delivery.Signal
import CrashCore.Library.SqlTable
import CrashCore.Persistence.NotificationOutbox
import CrashCore.PredictionInterface.PredictionClient

/-! The texts of the SQL statements (`persistence/sql_builder.hpp`), and the way of a record through the database: its INSERT
into an empty table, the SELECT by its id, and the row parser of its repository (`persistence/repositories/*.hpp`). Of the
tables (`migrations/0003`, `0004`, `0005`) the columns that the statements name are kept. -/

namespace CrashCore

/-- `std::fixed << std::setprecision(digits)`. -/
def fixed (digits : Nat) (d : Double) : String :=
  let n := (|d| * 10 ^ digits).roundTiesToEven.toNat
  let part := (toString (n % 10 ^ digits)).toList
  (if d < 0 then "-" else "") ++ toString (n / 10 ^ digits) ++ "." ++ String.ofList (part.leftpad digits '0')

namespace SqlBuilder

def quote (s : String) : String :=
  "'" ++ String.ofList (s.toList.flatMap fun c => if c = '\'' then ['\'', '\''] else [c]) ++ "'"

def upsertCrashRound (r : CrashRound) : String :=
  "INSERT INTO crash_rounds(game_id, " ++ "multiplier, hash, salt, began_at_ms, " ++
    "crashed_at_ms, sequence) VALUES(" ++
    quote r.gameId ++ ", " ++ fixed 4 r.multiplier ++ ", " ++ quote r.hash ++ ", " ++ quote r.salt ++ ", " ++
    toString r.beganAtMs ++ ", " ++ toString r.crashedAtMs ++ ", " ++ toString r.sequence ++
    ") ON CONFLICT (game_id) DO UPDATE SET " ++ "multiplier = EXCLUDED.multiplier, " ++
    "hash = COALESCE(EXCLUDED.hash, crash_rounds.hash), " ++ "crashed_at_ms = EXCLUDED.crashed_at_ms, " ++
    "sequence = EXCLUDED.sequence"

def upsertPrediction (e : PredictionEvent) : String :=
  "INSERT INTO predictions(id, round_id, " ++ "game_id, decision, confidence, entry_mult, " ++
    "target_mult, correlation_id, " ++ "model_version, created_at_ms) VALUES(" ++
    quote e.predictionId ++ ", " ++ quote e.targetRoundId ++ ", " ++ quote e.gameId ++ ", " ++
    toString e.decision.toNat ++ ", " ++ fixed 6 e.confidence ++ ", " ++ fixed 6 e.entryMult ++ ", " ++
    fixed 6 e.targetMult ++ ", " ++ quote e.correlationId ++ ", " ++ quote e.modelVersion ++ ", " ++
    toString e.createdAtMs ++ ") ON CONFLICT (id) DO NOTHING"

def upsertOutcome (o : Outcome) : String :=
  "INSERT INTO outcomes(prediction_id, " ++ "round_id, result, actual_mult, target_mult, " ++
    "is_win, resolved_at_ms) VALUES(" ++
    quote o.predictionId ++ ", " ++ quote o.roundId ++ ", " ++ quote (outcomeName o.result) ++ ", " ++
    fixed 4 o.actualMult ++ ", " ++ fixed 4 o.targetMult ++ ", " ++ (if o.isWin then "TRUE" else "FALSE") ++ ", " ++
    toString o.resolvedAtMs ++ ") ON CONFLICT (prediction_id) DO NOTHING"

def insertOutbox (item : OutboxItem) : String :=
  "INSERT INTO notification_outbox(state, " ++ "prediction_id, round_id, signal_kind, " ++
    "text, dedupe_key, attempts, " ++ "created_at_ms) VALUES(" ++
    toString item.state.toNat ++ ", " ++ quote item.signal.predictionId ++ ", " ++ quote item.signal.roundId ++ ", " ++
    toString item.signal.kind.toNat ++ ", " ++ quote item.signal.text ++ ", " ++ quote item.dedupeKey ++ ", " ++
    toString item.attempts ++ ", " ++ toString item.createdAtMs ++ ") ON CONFLICT (dedupe_key) DO NOTHING"

def selectPredictionById (id : PredictionId) : String :=
  "SELECT id, round_id, game_id, decision, " ++ "confidence, entry_mult, target_mult, " ++
    "correlation_id, model_version, " ++ "created_at_ms FROM predictions " ++ "WHERE id = " ++ quote id ++ " LIMIT 1"

def selectOutcomeById (id : PredictionId) : String :=
  "SELECT prediction_id, round_id, result, " ++ "actual_mult, target_mult, is_win, " ++
    "resolved_at_ms FROM outcomes " ++ "WHERE prediction_id = " ++ quote id ++ " LIMIT 1"

def selectCrashRoundById (id : GameId) : String :=
  "SELECT game_id, multiplier, hash, salt, " ++ "began_at_ms, crashed_at_ms, sequence " ++ "FROM crash_rounds " ++
    "WHERE game_id = " ++ quote id ++ " LIMIT 1"

end SqlBuilder

/-! ### Rows -/

open SqlTable

/-! ### Texts and numbers of C -/

/-- `std::atoll` and `std::atoi` on what their types hold. -/
def atoll (s : String) : Int :=
  Decimal.signed (fun ds => (Decimal.natural ds : Int)) (s.toList.dropWhile isSpace)

def atof (s : String) : Double := .nearest (Decimal.signed Decimal.real (s.toList.dropWhile isSpace))

/-! ### The server -/

/-- `double precision` with the given texts of its numbers. -/
def float8 (out : Double → String) : Float8 where
  ofDecimal := Double.nearest
  out := fun d => (out d).toList

/-- What `read` makes of the first row that `select` finds after `sql` on an empty table; NULL comes as an empty
    text. -/
def insertAndRead {ε : Type} (out : Double → String) (schema : Schema) (sql select : String)
    (read : List String → Option ε) : Option ε := do
  let insert ← (SqlLexer.tokens (cString sql)).bind Insert.parse
  let row ← insert.row (float8 out) schema
  let select ← (SqlLexer.tokens (cString select)).bind Select.parse
  let rows ← select.rows (float8 out) schema [row]
  let texts ← rows.head?
  read (texts.map fun text => String.ofList (text.getD []))

def crashRoundsTable : Schema where
  name := "crash_rounds".toList
  columns := [("game_id".toList, .text), ("multiplier".toList, .float8), ("hash".toList, .text), ("salt".toList, .text),
    ("began_at_ms".toList, .bigint), ("crashed_at_ms".toList, .bigint), ("sequence".toList, .bigint)]

def predictionsTable : Schema where
  name := "predictions".toList
  columns := [("id".toList, .text), ("round_id".toList, .text), ("game_id".toList, .text),
    ("decision".toList, .smallint), ("confidence".toList, .float8), ("entry_mult".toList, .float8),
    ("target_mult".toList, .float8), ("correlation_id".toList, .text), ("model_version".toList, .text),
    ("created_at_ms".toList, .bigint)]

def outcomesTable : Schema where
  name := "outcomes".toList
  columns := [("prediction_id".toList, .text), ("round_id".toList, .text), ("result".toList, .text),
    ("actual_mult".toList, .float8), ("target_mult".toList, .float8), ("is_win".toList, .boolean),
    ("resolved_at_ms".toList, .bigint)]

/-! ### The row parsers -/

namespace OutcomeRepository

/-- The result by the text of its column. -/
def resultOf (text : String) : PredictionOutcome :=
  if text = "Win" then .win
  else if text = "Loss" then .loss
  else if text = "Void" then .void
  else if text = "Stale" then .stale
  else if text = "Duplicate" then .duplicate
  else .pending

def flagOf (text : String) : Bool := text = "t" ∨ text = "true" ∨ text = "TRUE" ∨ text = "1"

def rowToOutcome : List String → Option Outcome
  | predictionId :: roundId :: result :: actualMult :: targetMult :: isWin :: resolvedAtMs :: _ =>
    some {
      predictionId := predictionId
      roundId := roundId
      result := resultOf result
      actualMult := atof actualMult
      targetMult := atof targetMult
      isWin := flagOf isWin
      resolvedAtMs := atoll resolvedAtMs }
  | _ => none

def roundTrip (out : Double → String) (o : Outcome) : Option Outcome :=
  insertAndRead out outcomesTable (SqlBuilder.upsertOutcome o) (SqlBuilder.selectOutcomeById o.predictionId) rowToOutcome

end OutcomeRepository

/-- `static_cast<PredictionDecision>`, where there is such an enumerator. -/
def PredictionDecision.ofInt (i : Int) : Option PredictionDecision :=
  if i = 0 then some .skip else if i = 1 then some .enter else if i = 2 then some .hold else none

namespace PredictionRepository

def rowToEvent : List String → Option PredictionEvent
  | predictionId :: targetRoundId :: gameId :: decision :: confidence :: entryMult :: targetMult :: correlationId ::
      modelVersion :: createdAtMs :: _ =>
    (PredictionDecision.ofInt (atoll decision)).map fun decision => {
      predictionId := predictionId
      targetRoundId := targetRoundId
      gameId := gameId
      decision := decision
      confidence := atof confidence
      entryMult := atof entryMult
      targetMult := atof targetMult
      correlationId := correlationId
      modelVersion := modelVersion
      createdAtMs := atoll createdAtMs }
  | _ => none

def roundTrip (out : Double → String) (e : PredictionEvent) : Option PredictionEvent :=
  insertAndRead out predictionsTable (SqlBuilder.upsertPrediction e) (SqlBuilder.selectPredictionById e.predictionId)
    rowToEvent

end PredictionRepository

namespace CrashRoundRepository

def rowToRound : List String → Option CrashRound
  | gameId :: multiplier :: hash :: salt :: beganAtMs :: crashedAtMs :: sequence :: _ =>
    some {
      gameId := gameId
      multiplier := atof multiplier
      hash := hash
      salt := salt
      beganAtMs := atoll beganAtMs
      crashedAtMs := atoll crashedAtMs
      sequence := (atoll sequence % 2 ^ 64).toNat
      hasHash := hash ≠ ""
      hasSalt := salt ≠ "" }
  | _ => none

def roundTrip (out : Double → String) (r : CrashRound) : Option CrashRound :=
  insertAndRead out crashRoundsTable (SqlBuilder.upsertCrashRound r) (SqlBuilder.selectCrashRoundById r.gameId) rowToRound

end CrashRoundRepository
end CrashCore
