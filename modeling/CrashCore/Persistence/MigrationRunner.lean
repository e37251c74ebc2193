import CrashCore.Common.Types
import CrashCore.Library.SqlScript
import CrashCore.Library.Table
import Mathlib.Data.List.Sort

/-! The migration runner (`persistence/migration_runner.hpp`) on PostgreSQL. -/

namespace CrashCore

/-- A file of the migrations directory. -/
structure MigrationFile where
  name : String
  sql : String
deriving DecidableEq, Repr

/-- A row of `schema_migrations`. -/
structure MigrationRow where
  id : String
  checksum : String
  appliedAtMs : TimestampMs
deriving DecidableEq, Repr

/-- The database as the runner sees it: `schema_migrations`, if it exists, and everything else. -/
structure MigratedDatabase (D : Type) where
  schema : D
  migrations : Option (Table MigrationRow.id) := none

namespace MigrationRunner

/-! ### The statements of a script -/

/-- The texts between the `;`. -/
def pieces (sql : List Char) : List (List Char) := sql.between (· = ';')

/-- What the loop strips from the front of a piece. -/
def IsBlank (c : Char) : Prop := c = ' ' ∨ c = '\n' ∨ c = '\t' ∨ c = '\r'

instance : DecidablePred IsBlank := fun _ => inferInstanceAs (Decidable (_ ∨ _))

def strip (piece : List Char) : List Char := piece.dropWhile fun c => IsBlank c

/-- The test for a piece that holds only a comment. -/
def Skipped (piece : List Char) : Prop := ∀ c ∈ piece, IsBlank c ∨ c = '-'

instance : DecidablePred Skipped := List.decidableBAll fun c => IsBlank c ∨ c = '-'

/-- What `applySql` sends to the database, in order. -/
def executed (sql : List Char) : List (List Char) := ((pieces sql).map strip).filter fun piece => ¬Skipped piece

def statements (file : MigrationFile) : List String := (executed file.sql.toList).map String.ofList

/-! ### One script -/

variable {D : Type}

/-- A statement of a script; it leaves `schema_migrations` alone. -/
def onSchema (stmt : Statement D) : Statement (MigratedDatabase D) := fun d =>
  match stmt d.schema with
  | .ok schema => .ok { d with schema }
  | .error m => .error m

/-- `INSERT INTO schema_migrations … ON CONFLICT DO NOTHING`. -/
def recordMigration (row : MigrationRow) : Statement (MigratedDatabase D) := fun d =>
  match d.migrations with
  | some t => .ok { d with migrations := some (t.insertIfAbsent row) }
  | none => .error "relation schema_migrations does not exist"

/-- `CREATE TABLE IF NOT EXISTS schema_migrations`. -/
def createMigrations : Statement (MigratedDatabase D) := fun d =>
  .ok { d with migrations := some (d.migrations.getD {}) }

def IsRecorded (d : MigratedDatabase D) (id : String) : Prop := ∃ t ∈ d.migrations, t.Has id

instance (d : MigratedDatabase D) (id : String) : Decidable (IsRecorded d id) :=
  match hm : d.migrations with
  | none => .isFalse fun ⟨t, ht, _⟩ => by rw [hm] at ht; cases ht
  | some t => decidable_of_iff (t.Has id) ⟨fun h => ⟨t, hm, h⟩, fun ⟨t', ht', h⟩ => by
      rw [hm] at ht'
      cases ht'
      exact h⟩

/-- Which statements of a run the server fails, and which files cannot be opened. -/
structure Faults where
  createTable : Fault := none
  isApplied : String → Fault := fun _ => none
  unreadable : String → Bool := fun _ => false
  beginTx : String → Fault := fun _ => none
  statement : String → Nat → Fault := fun _ _ => none
  record : String → Fault := fun _ => none
  rollback : String → Fault := fun _ => none
  commit : String → Fault := fun _ => none

/-- The log is bookkeeping: the statements of which scripts are in effect. -/
abbrev Conn (D : Type) := Connection (Logged (MigratedDatabase D) (String × String))

/-- The statements of a script one after another from the `n`-th, up to the first that fails. `sem`: what a
    statement does. -/
def runStatements (sem : String → Statement D) (id : String) (fault : Nat → Fault) :
    Nat → Conn D → List String → Conn D × Except String Unit
  | _, c, [] => (c, .ok ())
  | n, c, stmt :: rest =>
    match c.exec ((onSchema (sem stmt)).logged (id, stmt)) (fault n) with
    | (c, .ok _) => runStatements sem id fault (n + 1) c rest
    | (c, .error m) => (c, .error m)

/-- A statement of the runner's own, which is not logged. -/
def unlogged (stmt : Statement (MigratedDatabase D)) : Statement (Logged (MigratedDatabase D) (String × String)) :=
  fun d =>
    match stmt d.data with
    | .ok data => .ok { d with data }
    | .error m => .error m

def applySql (sem : String → Statement D) (f : Faults) (now : TimestampMs) (c : Conn D) (id : String)
    (stmts : List String) : Conn D × Except String Unit :=
  match c.beginTx (f.beginTx id) with
  | (c, .error m) => (c, .error m)
  | (c, .ok _) =>
    match runStatements sem id (f.statement id) 0 c stmts with
    | (c, .error m) => ((c.rollback (f.rollback id)).1, .error m)
    | (c, .ok _) =>
      match c.exec (unlogged (recordMigration ⟨id, "sha-pending", now⟩)) (f.record id) with
      | (c, .error m) => ((c.rollback (f.rollback id)).1, .error m)
      | (c, .ok _) => ((c.commit (f.commit id)).1, .ok ())

/-! ### All scripts -/

/-- The runner object, and the connection of its database. -/
structure State (D : Type) where
  conn : Conn D
  /-- `applied_`. -/
  applied : Nat := 0

/-- A failed query counts as "not applied". -/
def isApplied (f : Faults) (c : Conn D) (id : String) : Bool :=
  match c.tx, f.isApplied id with
  | .aborted, _ | _, some _ => false
  | _, none => decide (IsRecorded c.visible.data id)

/-- The connection after the query of `isApplied`. -/
def afterQuery (f : Faults) (c : Conn D) (id : String) : Conn D :=
  (c.exec (fun d => .ok d) (f.isApplied id)).1

/-- The loop over the files. -/
def applyFiles (sem : String → Statement D) (f : Faults) (now : TimestampMs) :
    State D → List MigrationFile → State D × Except String Unit
  | s, [] => (s, .ok ())
  | s, file :: rest =>
    let conn := afterQuery f s.conn file.name
    if isApplied f s.conn file.name then applyFiles sem f now { s with conn } rest
    else if f.unreadable file.name then ({ s with conn }, .error ("cannot read " ++ file.name))
    else
      match applySql sem f now conn file.name (statements file) with
      | (conn, .ok _) => applyFiles sem f now ⟨conn, s.applied + 1⟩ rest
      | (conn, .error m) => ({ s with conn }, .error m)

/-- The loop over the embedded scripts (`persistence/schema.hpp`), which are numbered by `applied_`. -/
def applyEmbedded (sem : String → Statement D) (f : Faults) (now : TimestampMs) :
    State D → List String → State D × Except String Unit
  | s, [] => (s, .ok ())
  | s, sql :: rest =>
    let id := "embedded_" ++ toString s.applied
    match applySql sem f now s.conn id (statements ⟨id, sql⟩) with
    | (conn, .ok _) => applyEmbedded sem f now ⟨conn, s.applied + 1⟩ rest
    | (conn, .error m) => ({ s with conn }, .error m)

/-- The directory in the order of `std::sort`. -/
def sortedFiles (dir : Table MigrationFile.name) : List MigrationFile :=
  dir.rows.insertionSort (·.name ≤ ·.name)

def applyAll (sem : String → Statement D) (dir : Table MigrationFile.name) (embedded : List String) (f : Faults)
    (now : TimestampMs) (s : State D) : State D × Except String Unit :=
  match s.conn.exec (unlogged createMigrations) f.createTable with
  | (conn, .error m) => ({ s with conn }, .error m)
  | (conn, .ok _) =>
    if dir.rows ≠ [] then applyFiles sem f now { s with conn } (sortedFiles dir)
    else applyEmbedded sem f now { s with conn } embedded

end MigrationRunner
end CrashCore
