import CrashCore.Library.Connection
import CrashCore.Library.Table
import CrashCore.Persistence.Tables
import Mathlib.Data.List.Sort

/-! The repositories of predictions, outcomes and rounds (`persistence/repositories/*.hpp`) in front of their tables in
PostgreSQL. A row is what its columns say, however their texts spell it. -/

namespace CrashCore

/-- A repository of entities (`persistence/repository.hpp`) over rows with a key. -/
structure Repository {ρ κ : Type} (key : ρ → κ) (ε : Type) extends TableCache key ε where
  upserts : Nat := 0

namespace Repository
variable {ρ κ ε : Type} {key : ρ → κ} [DecidableEq κ]

/-- A new repository over a database. -/
def fresh (table : Table key) : Repository key ε where
  table := table

/-- `upsert` with the statement that stores the entity under the id. -/
def upsertWith (stmt : Statement (Table key)) (id : κ) (e : ε) (repo : Repository key ε) :
    Repository key ε × Except String Unit :=
  match stmt repo.table with
  | .ok table => ({ toTableCache := repo.put table id e, upserts := repo.upserts + 1 }, .ok ())
  | .error m => (repo, .error m)

/-- `findById` while the database is connected. -/
def findWith (read : ρ → ε) (repo : Repository key ε) (id : κ) : Repository key ε × Option ε :=
  let (store, found) := repo.get read id
  ({ repo with toTableCache := store }, found)

/-- What is asked of a repository. -/
inductive Call (ε κ : Type)
  | upsert (e : ε)
  | findById (id : κ)

end Repository

/-! ### Predictions -/

/-- The fields with a column in the statements; `probability` has none. -/
def PredictionEvent.persisted (e : PredictionEvent) : PredictionEvent := { e with probability := 0 }

abbrev PredictionRepository := Repository PredictionEvent.predictionId PredictionEvent

namespace PredictionRepository

/-- `ON CONFLICT (id) DO NOTHING`; a new row must respect `idx_predictions_open_target`. -/
def insert (e : PredictionEvent) : Statement (Table PredictionEvent.predictionId) := fun t =>
  if ¬t.Has e.predictionId ∧ e.decision = .enter ∧
      ∃ r ∈ t.rows, r.decision = .enter ∧ r.targetRoundId = e.targetRoundId then
    .error Tables.openTargetMessage
  else .ok (t.insertIfAbsent e.persisted)

def upsert (repo : PredictionRepository) (e : PredictionEvent) : PredictionRepository × Except String Unit :=
  repo.upsertWith (insert e) e.predictionId e

def findById (repo : PredictionRepository) (id : PredictionId) : PredictionRepository × Option PredictionEvent :=
  repo.findWith PredictionEvent.persisted id

def step (repo : PredictionRepository) : Repository.Call PredictionEvent PredictionId → Option PredictionRepository
  | .upsert e => some (repo.upsert e).1
  | .findById id => some (repo.findById id).1

end PredictionRepository

/-! ### Outcomes -/

def Outcome.IsLoss (o : Outcome) : Prop := ¬o.isWin ∧ o.result = .loss

instance : DecidablePred Outcome.IsLoss := fun _ => inferInstanceAs (Decidable (_ ∧ _))

structure OutcomeRepository extends Repository Outcome.predictionId Outcome where
  wins : Nat := 0
  losses : Nat := 0

namespace OutcomeRepository

/-- A new repository over a database. -/
def fresh (table : Table Outcome.predictionId) : OutcomeRepository where
  table := table

/-- `ON CONFLICT (prediction_id) DO NOTHING`. -/
def insert (o : Outcome) : Statement (Table Outcome.predictionId) := fun t => .ok (t.insertIfAbsent o)

def upsert (repo : OutcomeRepository) (o : Outcome) : OutcomeRepository × Except String Unit :=
  match repo.upsertWith (insert o) o.predictionId o with
  | (base, .ok _) =>
    ({ toRepository := base
       wins := if o.isWin then repo.wins + 1 else repo.wins
       losses := if o.IsLoss then repo.losses + 1 else repo.losses }, .ok ())
  | (base, .error m) => ({ repo with toRepository := base }, .error m)

def findById (repo : OutcomeRepository) (id : PredictionId) : OutcomeRepository × Option Outcome :=
  let (base, found) := repo.findWith (fun o => o) id
  ({ repo with toRepository := base }, found)

def step (repo : OutcomeRepository) : Repository.Call Outcome PredictionId → Option OutcomeRepository
  | .upsert o => some (repo.upsert o).1
  | .findById id => some (repo.findById id).1

end OutcomeRepository

/-! ### Rounds -/

/-- A row of `crash_rounds`, whose columns but two may be NULL. -/
structure CrashRoundRow where
  gameId : GameId
  multiplier : Double
  hash : Option String
  salt : Option String
  beganAtMs : Option TimestampMs
  crashedAtMs : Option TimestampMs
  sequence : Option Nat
deriving DecidableEq

namespace CrashRoundRow

/-- The row that the INSERT proposes: a text is quoted, hence never NULL. -/
def ofRound (r : CrashRound) : CrashRoundRow where
  gameId := r.gameId
  multiplier := r.multiplier
  hash := some r.hash
  salt := some r.salt
  beganAtMs := some r.beganAtMs
  crashedAtMs := some r.crashedAtMs
  sequence := some r.sequence

/-- What is read from the row: NULL is an empty text or zero, the flags say whether there is a text. -/
def round (row : CrashRoundRow) : CrashRound where
  gameId := row.gameId
  multiplier := row.multiplier
  hash := row.hash.getD ""
  salt := row.salt.getD ""
  beganAtMs := row.beganAtMs.getD 0
  crashedAtMs := row.crashedAtMs.getD 0
  sequence := row.sequence.getD 0
  hasHash := row.hash.getD "" ≠ ""
  hasSalt := row.salt.getD "" ≠ ""

/-- `DO UPDATE SET …`: neither `salt` nor `began_at_ms` is among the columns that are set. -/
def merge (old new : CrashRoundRow) : CrashRoundRow :=
  { old with
    multiplier := new.multiplier
    hash := new.hash.or old.hash
    crashedAtMs := new.crashedAtMs
    sequence := new.sequence }

end CrashRoundRow

/-- The fields with a column; the flags have none. -/
def CrashRound.persisted (r : CrashRound) : CrashRound := { r with hasHash := false, hasSalt := false }

abbrev CrashRoundRepository := Repository CrashRoundRow.gameId CrashRound

namespace CrashRoundRepository

/-- `ON CONFLICT (game_id) DO UPDATE`; `sequence` is a BIGINT. -/
def insert (r : CrashRound) : Statement (Table CrashRoundRow.gameId) := fun t =>
  if r.sequence < 2 ^ 63 then .ok (t.upsert (.ofRound r) CrashRoundRow.merge fun _ _ => rfl)
  else .error "bigint out of range"

def upsert (repo : CrashRoundRepository) (r : CrashRound) : CrashRoundRepository × Except String Unit :=
  repo.upsertWith (insert r) r.gameId r

def findById (repo : CrashRoundRepository) (id : GameId) : CrashRoundRepository × Option CrashRound :=
  repo.findWith CrashRoundRow.round id

def step (repo : CrashRoundRepository) : Repository.Call CrashRound GameId → Option CrashRoundRepository
  | .upsert r => some (repo.upsert r).1
  | .findById id => some (repo.findById id).1

end CrashRoundRepository
end CrashCore
