import CrashCore.Library.Run
import CrashCore.Persistence.MigrationRunner

/-! Runs of the migration runner. A script and its record are one transaction, so the recorded files are a prefix
of the directory, with their statements in effect once each, as long as no COMMIT fails and no query for a
recorded file does. -/

namespace CrashCore
namespace MigrationRunner
open Transition Connection

variable {D : Type} {sem : String → Statement D} {d₀ : D} {f : Faults} {now : TimestampMs}

def recordedIds (d : MigratedDatabase D) : List String := (d.migrations.map fun t => t.rows.map (·.id)).getD []

/-- What the statements do to `d`, one after another. -/
def replay (sem : String → Statement D) : D → List String → Except String D
  | d, [] => .ok d
  | d, stmt :: rest =>
    match sem stmt d with
    | .ok d => replay sem d rest
    | .error m => .error m

/-- The log of the scripts of `files`, each applied once and in order. -/
def appliedLog (files : List MigrationFile) : List (String × String) :=
  files.flatMap fun file => (statements file).map fun stmt => (file.name, stmt)

/-- The recorded files are the first `k`, and what is in effect is what their statements do to `d₀`. -/
structure AppliedPrefix (sem : String → Statement D) (d₀ : D) (files : List MigrationFile) (k : Nat)
    (l : Logged (MigratedDatabase D) (String × String)) : Prop where
  le : k ≤ files.length
  recorded : recordedIds l.data = (files.take k).map (·.name)
  log : l.log = appliedLog (files.take k)
  effects : replay sem d₀ (l.log.map (·.2)) = .ok l.data.schema

theorem isRecorded_iff {d : MigratedDatabase D} {id : String} : IsRecorded d id ↔ id ∈ recordedIds d := by
  unfold IsRecorded recordedIds
  rcases d.migrations with _ | t
  · simp
  · constructor
    · rintro ⟨t', ht', r, hr, hid⟩
      cases ht'
      exact List.mem_map.mpr ⟨r, hr, hid⟩
    · intro hid
      obtain ⟨r, hr, hid⟩ := List.mem_map.mp hid
      exact ⟨t, rfl, r, hr, hid⟩

theorem replay_append (sem : String → Statement D) (as bs : List String) (d e : D) (h : replay sem d as = .ok e) :
    replay sem d (as ++ bs) = replay sem e bs := by
  induction as generalizing d with
  | nil =>
    cases h
    rfl
  | cons a as ih =>
    rcases ha : sem a d with m | d'
    · simp [replay, ha] at h
    · have hrest : replay sem d' as = .ok e := by simpa [replay, ha] using h
      simpa [replay, ha] using ih d' hrest

/-! ### One script -/

variable {l w : Logged (MigratedDatabase D) (String × String)} {id : String}

/-- The statements that succeed are logged and in effect; a failure aborts the transaction. -/
theorem runStatements_cases (sem : String → Statement D) (id : String) (fault : Nat → Fault) (stmts : List String) :
    ∀ (n : Nat) (w : Logged (MigratedDatabase D) (String × String)),
      (∃ w', runStatements sem id fault n ⟨l, .inTx w⟩ stmts = (⟨l, .inTx w'⟩, .ok ()) ∧
          w'.log = w.log ++ stmts.map (id, ·) ∧ w'.data.migrations = w.data.migrations ∧
          replay sem w.data.schema stmts = .ok w'.data.schema) ∨
        ∃ m, runStatements sem id fault n ⟨l, .inTx w⟩ stmts = (⟨l, .aborted⟩, .error m) := by
  induction stmts with
  | nil => exact fun n w => Or.inl ⟨w, rfl, by simp, rfl, rfl⟩
  | cons stmt rest ih =>
    intro n w
    rcases ha : attempt ((onSchema (sem stmt)).logged (id, stmt)) (fault n) w with m | w₁
    · refine Or.inr ⟨m, ?_⟩
      simp only [runStatements, exec_inTx_error ha]
    · have hlog := Statement.logged_ok (attempt_eq_ok.mp ha).2
      have hdata : sem stmt w.data.schema = .ok w₁.data.schema ∧ w₁.data.migrations = w.data.migrations := by
        have hok := (attempt_eq_ok.mp ha).2
        unfold Statement.logged onSchema at hok
        rcases hsem : sem stmt w.data.schema with m | e
        · rw [hsem] at hok
          cases hok
        · rw [hsem] at hok
          cases hok
          exact ⟨rfl, rfl⟩
      have hrun : runStatements sem id fault n ⟨l, .inTx w⟩ (stmt :: rest) =
          runStatements sem id fault (n + 1) ⟨l, .inTx w₁⟩ rest := by
        simp only [runStatements, exec_inTx_ok ha]
      rw [hrun]
      obtain ⟨w', hok, hlog', hmig, hreplay⟩ | ⟨m, herr⟩ := ih (n + 1) w₁
      · refine Or.inl ⟨w', hok, ?_, hmig.trans hdata.2, ?_⟩
        · rw [hlog', hlog, List.append_assoc]
          rfl
        · rw [replay, hdata.1]
          exact hreplay
      · exact Or.inr ⟨m, herr⟩

/-- A script takes effect as a whole, with its record, or not at all. -/
theorem applySql_cases (sem : String → Statement D) (f : Faults) (now : TimestampMs)
    (l : Logged (MigratedDatabase D) (String × String)) (stmts : List String) (hcommit : f.commit id = none)
    (hnew : id ∉ recordedIds l.data) :
    (∃ w, applySql sem f now ⟨l, .idle⟩ id stmts = (⟨w, .idle⟩, .ok ()) ∧ w.log = l.log ++ stmts.map (id, ·) ∧
        recordedIds w.data = recordedIds l.data ++ [id] ∧ replay sem l.data.schema stmts = .ok w.data.schema) ∨
      ∃ m c, applySql sem f now ⟨l, .idle⟩ id stmts = (c, .error m) ∧ c.committed = l ∧ c.Closed := by
  rcases hbegin : f.beginTx id with _ | m
  swap
  · exact Or.inr ⟨m, _, by simp only [applySql, hbegin, beginTx_idle_fault], rfl, closed_idle⟩
  obtain ⟨w, hrun, hlog, hmig, hreplay⟩ | ⟨m, hrun⟩ := runStatements_cases (l := l) sem id (f.statement id) stmts 0 l
  swap
  · exact Or.inr ⟨m, (rollback ⟨l, .aborted⟩ (f.rollback id)).1, by simp only [applySql, hbegin, beginTx_idle, hrun],
      rollback_committed, rollback_closed⟩
  rcases ha : attempt (unlogged (recordMigration ⟨id, "sha-pending", now⟩)) (f.record id) w with m | w'
  · exact Or.inr ⟨m, (rollback ⟨l, .aborted⟩ (f.rollback id)).1,
      by simp only [applySql, hbegin, beginTx_idle, hrun, exec_inTx_error ha], rollback_committed, rollback_closed⟩
  · refine Or.inl ⟨w', by simp only [applySql, hbegin, beginTx_idle, hrun, exec_inTx_ok ha, hcommit, commit_inTx], ?_⟩
    have hok := (attempt_eq_ok.mp ha).2
    unfold unlogged recordMigration at hok
    rcases ht : w.data.migrations with _ | t
    · simp [ht] at hok
    · simp only [ht, Except.ok.injEq] at hok
      subst hok
      have hold : recordedIds l.data = t.rows.map (·.id) := by
        rw [recordedIds, ← hmig, ht]
        rfl
      let row : MigrationRow := ⟨id, "sha-pending", now⟩
      have habsent : ¬t.Has (MigrationRow.id row) := by
        rintro ⟨r, hr, hid⟩
        exact hnew (hold ▸ List.mem_map.mpr ⟨r, hr, hid⟩)
      refine ⟨hlog, ?_, hreplay⟩
      rw [hold]
      show (t.insertIfAbsent row).rows.map (·.id) = _
      rw [Table.insertIfAbsent_rows habsent, List.map_append]
      rfl

/-! ### All scripts -/

variable {files before rest : List MigrationFile} {file : MigrationFile} {k : Nat}

/-- The file at position `before.length` is recorded exactly if it is among the first `k`. -/
theorem AppliedPrefix.mem_recorded (h : AppliedPrefix sem d₀ files k l) (hnames : (files.map (·.name)).Nodup)
    (hfiles : files = before ++ file :: rest) : file.name ∈ recordedIds l.data ↔ before.length < k := by
  rw [h.recorded]
  constructor
  · intro hmem
    by_contra hge
    have hsub : files.take k = before.take k := by
      rw [hfiles, List.take_append_of_le_length (Nat.le_of_not_lt hge)]
    rw [hsub] at hmem
    rw [hfiles, List.map_append, List.nodup_append] at hnames
    exact hnames.2.2 _ ((List.take_sublist k before).map _ |>.subset hmem) _ List.mem_cons_self rfl
  · intro hlt
    refine List.mem_map.mpr ⟨file, ?_, rfl⟩
    obtain ⟨m, rfl⟩ : ∃ m, k = before.length + (m + 1) := ⟨k - before.length - 1, by omega⟩
    rw [hfiles, List.take_length_add_append, List.take_succ_cons]
    exact List.mem_append_right _ List.mem_cons_self

/-- The queries for the recorded files succeed, and so does the COMMIT of each other file that comes to it. -/
structure Calm (f : Faults) (l : Logged (MigratedDatabase D) (String × String)) (files : List MigrationFile) :
    Prop where
  queries : ∀ file ∈ files, IsRecorded l.data file.name → f.isApplied file.name = none
  commits : ∀ file ∈ files, ¬IsRecorded l.data file.name → f.commit file.name = none

theorem Calm.tail (h : Calm f l (file :: rest)) : Calm f l rest :=
  ⟨fun x hx => h.queries x (List.mem_cons_of_mem _ hx), fun x hx => h.commits x (List.mem_cons_of_mem _ hx)⟩

/-- The files after the one that is recorded. -/
theorem Calm.next (h : Calm f l (file :: rest)) (hnames : ((file :: rest).map (·.name)).Nodup)
    (hids : recordedIds w.data = recordedIds l.data ++ [file.name]) : Calm f w rest := by
  have hsame : ∀ x ∈ rest, IsRecorded w.data x.name ↔ IsRecorded l.data x.name := by
    intro x hx
    rw [isRecorded_iff, isRecorded_iff, hids, List.mem_append, List.mem_singleton]
    refine or_iff_left fun heq => ?_
    rw [List.map_cons, List.nodup_cons] at hnames
    exact hnames.1 (heq ▸ List.mem_map.mpr ⟨x, hx, rfl⟩)
  exact ⟨fun x hx hr => h.tail.queries x hx ((hsame x hx).mp hr),
    fun x hx hr => h.tail.commits x hx fun hr' => hr ((hsame x hx).mpr hr')⟩

/-- What a run leaves: a prefix, with no transaction open, and all files if it reports success. -/
structure Leaves (sem : String → Statement D) (d₀ : D) (files : List MigrationFile) (c : Conn D)
    (result : Except String Unit) : Prop where
  closed : c.Closed
  applied : ∃ k, AppliedPrefix sem d₀ files k c.committed ∧ (result = .ok () → k = files.length)

theorem afterQuery_idle : afterQuery f (⟨l, .idle⟩ : Conn D) id = ⟨l, .idle⟩ := by
  unfold afterQuery
  cases f.isApplied id <;> rfl

theorem isApplied_idle : isApplied f (⟨l, .idle⟩ : Conn D) id = true ↔ f.isApplied id = none ∧ IsRecorded l.data id := by
  unfold isApplied
  rcases f.isApplied id with _ | m
  · exact ⟨fun h => ⟨rfl, of_decide_eq_true h⟩, fun h => decide_eq_true h.2⟩
  · simp

theorem AppliedPrefix.next (h : AppliedPrefix sem d₀ files before.length l) (hfiles : files = before ++ file :: rest)
    (hlog : w.log = l.log ++ (statements file).map (file.name, ·))
    (hrecorded : recordedIds w.data = recordedIds l.data ++ [file.name])
    (hreplay : replay sem l.data.schema (statements file) = .ok w.data.schema) :
    AppliedPrefix sem d₀ files (before.length + 1) w := by
  have htake : files.take before.length = before := by rw [hfiles, List.take_left]
  have htake' : files.take (before.length + 1) = before ++ [file] := by
    rw [hfiles, List.take_length_add_append]
    rfl
  refine ⟨?_, ?_, ?_, ?_⟩
  · rw [hfiles, List.length_append, List.length_cons]
    omega
  · rw [hrecorded, h.recorded, htake, htake', List.map_append]
    rfl
  · rw [hlog, h.log, htake, htake', appliedLog, appliedLog, List.flatMap_append]
    simp
  · rw [hlog, List.map_append, replay_append sem _ _ _ _ h.effects]
    simpa using hreplay

/-- The loop, from the files before it on. -/
theorem applyFiles_leaves (hnames : (files.map (·.name)).Nodup) :
    ∀ (rest before : List MigrationFile) (l : Logged (MigratedDatabase D) (String × String)) (n k : Nat),
      files = before ++ rest → AppliedPrefix sem d₀ files k l → before.length ≤ k → Calm f l rest →
      Leaves sem d₀ files (applyFiles sem f now ⟨⟨l, .idle⟩, n⟩ rest).1.conn
        (applyFiles sem f now ⟨⟨l, .idle⟩, n⟩ rest).2 := by
  intro rest
  induction rest with
  | nil =>
    intro before l n k hfiles h hbefore _
    have hall : k = files.length := by
      have hle := h.le
      rw [hfiles, List.append_nil] at hle ⊢
      omega
    exact ⟨closed_idle, k, h, fun _ => hall⟩
  | cons file rest ih =>
    intro before l n k hfiles h hbefore hcalm
    have hfiles' : files = (before ++ [file]) ++ rest := by rw [hfiles]; simp
    have hlen : (before ++ [file]).length = before.length + 1 := by simp
    have hmem := h.mem_recorded hnames hfiles
    by_cases hrecorded : IsRecorded l.data file.name
    · -- An applied file is passed over.
      have hlt : before.length < k := hmem.mp (isRecorded_iff.mp hrecorded)
      have hquery := hcalm.queries file List.mem_cons_self hrecorded
      have happlied : isApplied f (⟨l, .idle⟩ : Conn D) file.name = true := isApplied_idle.mpr ⟨hquery, hrecorded⟩
      rw [applyFiles]
      simp only [happlied, if_true, afterQuery_idle]
      exact ih _ l n k hfiles' h (by rw [hlen]; omega) hcalm.tail
    · have hk : before.length = k := by
        have hnot : ¬before.length < k := fun hlt => hrecorded (isRecorded_iff.mpr (hmem.mpr hlt))
        omega
      subst hk
      have hno : ¬isApplied f (⟨l, .idle⟩ : Conn D) file.name = true := fun happlied =>
        hrecorded (isApplied_idle.mp happlied).2
      have hfail : ∀ {c : Conn D} {m : String}, c.Closed → c.committed = l →
          Leaves sem d₀ files c (.error m) := fun hc heq => ⟨hc, _, heq ▸ h, fun hok => by cases hok⟩
      rw [applyFiles]
      simp only [hno, afterQuery_idle]
      by_cases hread : f.unreadable file.name = true
      · simp only [hread, if_true]
        exact hfail closed_idle rfl
      · simp only [hread]
        obtain ⟨w, hok, hlog, hids, hreplay⟩ | ⟨m, c, herr, hcommitted, hclosed⟩ :=
          applySql_cases sem f now l (statements file) (hcalm.commits file List.mem_cons_self hrecorded)
            fun hid => hrecorded (isRecorded_iff.mpr hid)
        · simp only [hok]
          have hrest : ((file :: rest).map (·.name)).Nodup := by
            rw [hfiles, List.map_append, List.nodup_append] at hnames
            exact hnames.2.1
          exact ih _ w (n + 1) _ hfiles' (h.next hfiles hlog hids hreplay) (Nat.le_of_eq hlen) (hcalm.next hrest hids)
        · simp only [herr]
          exact hfail hclosed hcommitted

/-! ### Histories of runs -/

variable {dir : Table MigrationFile.name} {embedded : List String}

theorem sortedFiles_perm (dir : Table MigrationFile.name) : (sortedFiles dir).Perm dir.rows := List.perm_insertionSort ..

theorem sortedFiles_nodup (dir : Table MigrationFile.name) : ((sortedFiles dir).map (·.name)).Nodup :=
  ((sortedFiles_perm dir).map _).nodup_iff.mpr dir.nodup

/-- There is a file, and the run is calm. -/
def Undisturbed (dir : Table MigrationFile.name) (s : State D) (f : Faults) : Prop :=
  dir.rows ≠ [] ∧ Calm f s.conn.committed (sortedFiles dir)

theorem applyAll_leaves {s : State D} {result : Except String Unit} (hf : Undisturbed dir s f)
    (h : Leaves sem d₀ (sortedFiles dir) s.conn result) :
    Leaves sem d₀ (sortedFiles dir) (applyAll sem dir embedded f now s).1.conn
      (applyAll sem dir embedded f now s).2 := by
  obtain ⟨hclosed, k, hpre, -⟩ := h
  obtain ⟨l, -, hcreate, hexec, -⟩ | ⟨m, hexec⟩ := exec_cases (unlogged createMigrations) f.createTable hclosed
  · have hl : recordedIds l.data = recordedIds s.conn.committed.data ∧ l.log = s.conn.committed.log ∧
        l.data.schema = s.conn.committed.data.schema := by
      cases hcreate
      refine ⟨?_, rfl, rfl⟩
      unfold recordedIds
      cases s.conn.committed.data.migrations <;> rfl
    have hpre' : AppliedPrefix sem d₀ (sortedFiles dir) k l :=
      ⟨hpre.le, hl.1.trans hpre.recorded, hl.2.1.trans hpre.log, by rw [hl.2.1, hl.2.2]; exact hpre.effects⟩
    simp only [applyAll, hexec, if_pos hf.1]
    have hsame : ∀ id, IsRecorded l.data id ↔ IsRecorded s.conn.committed.data id := fun id => by
      rw [isRecorded_iff, isRecorded_iff, hl.1]
    refine applyFiles_leaves (sortedFiles_nodup dir) _ [] l _ k rfl hpre' (Nat.zero_le _) ?_
    exact ⟨fun x hx hr => hf.2.queries x hx ((hsame _).mp hr),
      fun x hx hr => hf.2.commits x hx fun hr' => hr ((hsame _).mpr hr')⟩
  · simp only [applyAll, hexec]
    exact ⟨hclosed, k, hpre, fun hok => by cases hok⟩

/-- A process with its runner, and what its last run returned. -/
structure Process (D : Type) where
  state : State D
  result : Except String Unit

inductive Act
  | applyAll (f : Faults) (now : TimestampMs)
  /-- A new process: a new runner on a new connection. -/
  | restart

def step (sem : String → Statement D) (dir : Table MigrationFile.name) (embedded : List String) (p : Process D) :
    Act → Option (Process D)
  | .applyAll f now =>
    let (state, result) := applyAll sem dir embedded f now p.state
    some ⟨state, result⟩
  | .restart => some { p with state := { conn := ⟨p.state.conn.committed, .idle⟩ } }

/-- A database without a trace of the runner. -/
def fresh (d₀ : D) : Process D := ⟨{ conn := ⟨⟨{ schema := d₀ }, []⟩, .idle⟩ }, .error "not run"⟩

def UndisturbedAct (dir : Table MigrationFile.name) (p : Process D) : Act → Prop
  | .applyAll f _ => Undisturbed dir p.state f
  | .restart => True

/-- Along every history of undisturbed runs, whatever else fails, the recorded files are a prefix of the sorted
    directory, exactly their statements are in effect, once each and in order, and a run that reports success has
    recorded them all. -/
theorem leaves_of_reaches {p : Process D} (dir : Table MigrationFile.name) (embedded : List String)
    (hr : Reaches (step sem dir embedded) (UndisturbedAct dir) (fresh d₀) p) :
    Leaves sem d₀ (sortedFiles dir) p.state.conn p.result := by
  have hnone : (fresh d₀).result ≠ .ok () := by simp [fresh]
  have hfresh : Leaves sem d₀ (sortedFiles dir) (fresh d₀).state.conn (fresh d₀).result :=
    ⟨closed_idle, 0, ⟨Nat.zero_le _, rfl, rfl, rfl⟩, fun h => absurd h hnone⟩
  refine hr.invariant (P := fun p => Leaves sem d₀ (sortedFiles dir) p.state.conn p.result) hfresh ?_
  intro p a q h hok hs
  cases a with
  | applyAll f now =>
    obtain rfl := Option.some.inj hs
    exact applyAll_leaves hok h
  | restart =>
    obtain rfl := Option.some.inj hs
    exact ⟨closed_idle, h.applied⟩

/-! ### A directory with one file -/

/-- The schema is the list of the statements that made it. -/
def listed (stmt : String) : Statement (List String) := fun d => .ok (d ++ [stmt])

def oneFile : Table MigrationFile.name where
  rows := [⟨"0001.sql", "CREATE TABLE a();"⟩]
  nodup := List.nodup_singleton _

/-- The record fails, and the next process finishes. -/
def secondTry : List Act :=
  [.applyAll { record := fun _ => some "timeout" } 1, .restart, .applyAll {} 2]

theorem leaves_secondTry : ∃ p, run (step listed oneFile []) (fresh []) secondTry = some p ∧
    Leaves listed [] (sortedFiles oneFile) p.state.conn p.result := by
  have hrun : run (step listed oneFile []) (fresh []) secondTry = some _ := rfl
  refine ⟨_, hrun, leaves_of_reaches oneFile [] (Reaches.of_run ?_ hrun)⟩
  have hcalm (f : Faults) (hc : f.commit = fun _ => none) (hq : f.isApplied = fun _ => none)
      (s : State (List String)) : Undisturbed oneFile s f :=
    ⟨by decide, fun _ _ _ => by rw [hq], fun _ _ _ => by rw [hc]⟩
  exact ⟨hcalm _ rfl rfl _, fun _ _ => ⟨trivial, fun _ _ => ⟨hcalm _ rfl rfl _, fun _ _ => trivial⟩⟩⟩

/-- The COMMIT fails: the run reports success, and the file is not recorded. -/
theorem not_leaves_commit : ∃ p, run (step listed oneFile []) (fresh [])
      [.applyAll { commit := fun _ => some "could not serialize access" } 1] = some p ∧
    ¬Leaves listed [] (sortedFiles oneFile) p.state.conn p.result := by
  refine ⟨_, rfl, fun h => ?_⟩
  obtain ⟨k, hpre, hall⟩ := h.applied
  have hk : k = 1 := hall rfl
  have hrecorded := hpre.recorded
  subst hk
  cases hrecorded

end MigrationRunner
end CrashCore
