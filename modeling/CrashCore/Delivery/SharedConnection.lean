import CrashCore.Delivery.DurablePredictionTx
import CrashCore.Library.Run
import CrashCore.Library.Table

/-! Several threads on the one connection of `PgDatabase`: its mutex is held for a single statement, so calls of
`persistPrediction` and other statements interleave statement by statement.

`Stage` is the position of a call between its statements; `resume` is the rest of `persistRows` from there, and
each statement of a call that runs undisturbed takes it one step along (`statement_resume`). -/

namespace CrashCore
namespace SharedConnection
open DurablePredictionTx Tables Transition

/-- Whose write it was: one of the three rows of a call, or another statement. -/
inductive Part
  | prediction | targetClaim | notification
deriving DecidableEq, Repr

inductive Write
  | own (call : Nat) (part : Part)
  | other (n : Nat)
deriving DecidableEq, Repr

/-- The next statement of a call, or its result. -/
inductive Stage
  | beginning
  | inserting
  | claiming
  | enqueuing
  | retrying
  | committing
  | rollingBack (error : String)
  | done (result : Except String Unit)
deriving DecidableEq

structure PersistCall where
  pev : PredictionEvent
  sig : Signal
  now : TimestampMs
  stage : Stage := .beginning

abbrev LoggedConnection := Connection (Logged Tables Write)

structure State where
  conn : LoggedConnection
  calls : Nat → Option PersistCall := fun _ => none
  /-- The calls between their BEGIN and their COMMIT or ROLLBACK. -/
  open_ : List Nat := []
  /-- The other statements that were reported successful. -/
  acked : List Nat := []

inductive Action
  | call (id : Nat) (pev : PredictionEvent) (sig : Signal) (now : TimestampMs)
  | statement (id : Nat) (fault : Fault)
  | other (n : Nat) (stmt : Statement Tables) (fault : Fault)

def initial (conn : Connection Tables) : State :=
  { conn := conn.map fun d => { data := d } }

/-- One statement of the call `id`, and the stage after it. -/
def statement (c : LoggedConnection) (id : Nat) (p : PersistCall) (fault : Fault) : LoggedConnection × Stage :=
  match p.stage with
  | .beginning => ((c.beginTx fault).1, .inserting)
  | .inserting =>
    match c.exec ((insertPrediction (predictionRow p.pev p.now)).logged (.own id .prediction)) fault with
    | (c, .ok _) => (c, .claiming)
    | (c, .error m) => (c, .rollingBack ("predictions insert: " ++ m))
  | .claiming =>
    match c.exec ((insertTargetClaim (targetClaimRow p.pev p.now)).logged (.own id .targetClaim)) fault with
    | (c, .ok _) => (c, .enqueuing)
    | (c, .error m) => (c, .rollingBack ("target_claims insert: " ++ m))
  | .enqueuing =>
    match c.exec ((insertNotification (OutboxRepository.notification (outboxRow p.pev p.sig p.now) p.pev.targetRoundId
        p.now)).logged (.own id .notification)) fault with
    | (c, .ok _) => (c, .committing)
    | (c, .error _) => (c, .retrying)
  | .retrying =>
    match c.exec ((insertNotification (OutboxRepository.notification (outboxRow p.pev p.sig p.now) ""
        p.now)).logged (.own id .notification)) fault with
    | (c, .ok _) => (c, .committing)
    | (c, .error m) => (c, .rollingBack ("outbox enqueue: " ++ m))
  | .committing =>
    match c.commit fault with
    | (c, .ok _) => (c, .done (.ok ()))
    | (c, .error m) => (c, .done (.error ("commit: " ++ m)))
  | .rollingBack m => ((c.rollback fault).1, .done (.error m))
  | .done r => (c, .done r)

/-- BEGIN opens the call's transaction, as far as the call knows; COMMIT and ROLLBACK end it. -/
def stillOpen (ids : List Nat) (id : Nat) : Stage → List Nat
  | .beginning => ids ++ [id]
  | .committing | .rollingBack _ => ids.erase id
  | _ => ids

def setCall (calls : Nat → Option PersistCall) (id : Nat) (p : PersistCall) : Nat → Option PersistCall :=
  fun x => if x = id then some p else calls x

def Stage.isDone : Stage → Bool
  | .done _ => true
  | _ => false

/-- The state after the next statement of the call `id`, which is `p`. -/
def afterStatement (s : State) (id : Nat) (p : PersistCall) (fault : Fault) : State :=
  { s with
    conn := (statement s.conn id p fault).1
    calls := setCall s.calls id { p with stage := (statement s.conn id p fault).2 }
    open_ := stillOpen s.open_ id p.stage }

def step (s : State) : Action → Option State
  | .call id pev sig now =>
    match s.calls id with
    | none => some { s with calls := setCall s.calls id { pev, sig, now } }
    | some _ => none
  | .statement id fault =>
    match s.calls id with
    | none => none
    | some p =>
      if p.stage.isDone then none else some (afterStatement s id p fault)
  | .other n stmt fault =>
    match s.conn.exec (stmt.logged (.other n)) fault with
    | (conn, .ok _) => some { s with conn, acked := s.acked ++ [n] }
    | (conn, .error _) => some { s with conn }

/-! ### Inversion -/

variable {s t : State} {id : Nat} {fault : Fault}

@[simp] theorem setCall_self (calls : Nat → Option PersistCall) (id : Nat) (p : PersistCall) :
    setCall calls id p id = some p := if_pos rfl

theorem setCall_other (calls : Nat → Option PersistCall) {id x : Nat} (p : PersistCall) (h : x ≠ id) :
    setCall calls id p x = calls x := if_neg h

theorem call_inv {pev : PredictionEvent} {sig : Signal} {now : TimestampMs}
    (hs : step s (.call id pev sig now) = some t) :
    s.calls id = none ∧ t = { s with calls := setCall s.calls id { pev, sig, now } } := by
  simp only [step] at hs
  split at hs
  · rename_i hnone
    exact ⟨hnone, (Option.some.inj hs).symm⟩
  · cases hs

theorem statement_inv (hs : step s (.statement id fault) = some t) :
    ∃ p, s.calls id = some p ∧ p.stage.isDone = false ∧ t = afterStatement s id p fault := by
  simp only [step] at hs
  split at hs
  · cases hs
  · rename_i p hp
    split at hs
    · cases hs
    · rename_i hdone
      exact ⟨p, hp, by simpa using hdone, (Option.some.inj hs).symm⟩

/-! ### A call that runs undisturbed -/

/-- The fault of the next statement. -/
def nextFault (f : Faults) : Stage → Fault
  | .beginning => f.beginTx
  | .inserting => f.prediction
  | .claiming => f.targetClaim
  | .enqueuing => f.notification
  | .retrying => f.notificationAgain
  | .committing => f.commit
  | .rollingBack _ => f.rollback
  | .done _ => none

/-- How `persistRows` goes on from each stage. -/
def resume (c : Connection Tables) (p : PersistCall) (f : Faults) : Connection Tables × Except String Unit :=
  let committing (c : Connection Tables) : Connection Tables × Except String Unit :=
    match c.commit f.commit with
    | (c, .ok _) => (c, .ok ())
    | (c, .error m) => (c, .error ("commit: " ++ m))
  let rollingBack (c : Connection Tables) (m : String) := ((c.rollback f.rollback).1, Except.error m)
  let retrying (c : Connection Tables) :=
    match c.exec (insertNotification (OutboxRepository.notification (outboxRow p.pev p.sig p.now) "" p.now))
        f.notificationAgain with
    | (c, .ok _) => committing c
    | (c, .error m) => rollingBack c ("outbox enqueue: " ++ m)
  let enqueuing (c : Connection Tables) :=
    match c.exec (insertNotification (OutboxRepository.notification (outboxRow p.pev p.sig p.now) p.pev.targetRoundId
        p.now)) f.notification with
    | (c, .ok _) => committing c
    | (c, .error _) => retrying c
  let claiming (c : Connection Tables) :=
    match c.exec (insertTargetClaim (targetClaimRow p.pev p.now)) f.targetClaim with
    | (c, .ok _) => enqueuing c
    | (c, .error m) => rollingBack c ("target_claims insert: " ++ m)
  let inserting (c : Connection Tables) :=
    match c.exec (insertPrediction (predictionRow p.pev p.now)) f.prediction with
    | (c, .ok _) => claiming c
    | (c, .error m) => rollingBack c ("predictions insert: " ++ m)
  match p.stage with
  | .beginning => inserting (c.beginTx f.beginTx).1
  | .inserting => inserting c
  | .claiming => claiming c
  | .enqueuing => enqueuing c
  | .retrying => retrying c
  | .committing => committing c
  | .rollingBack m => rollingBack c m
  | .done r => (c, r)

/-- From the beginning it is `persistRows`. -/
theorem resume_beginning (repo : OutboxRepository) (c : Connection Tables) (pev : PredictionEvent) (sig : Signal)
    (now : TimestampMs) (f : Faults) :
    resume c { pev, sig, now } f = (persistRows repo c pev sig now f).2 := by
  simp only [resume, persistRows]
  rcases (c.beginTx f.beginTx).1.exec (insertPrediction (predictionRow pev now)) f.prediction with ⟨c₁, m | u⟩
  · rfl
  dsimp only
  rcases c₁.exec (insertTargetClaim (targetClaimRow pev now)) f.targetClaim with ⟨c₂, m | u⟩
  · rfl
  simp only [enqueueOrRetry, OutboxRepository.enqueue, OutboxRepository.enqueueWithRound]
  rcases c₂.exec (insertNotification (OutboxRepository.notification (outboxRow pev sig now) pev.targetRoundId now))
    f.notification with ⟨c₃, m | u⟩
  · dsimp only
    rcases c₃.exec (insertNotification (OutboxRepository.notification (outboxRow pev sig now) "" now))
      f.notificationAgain with ⟨c₄, m | u⟩
    · rfl
    · dsimp only
      rcases c₄.commit f.commit with ⟨c₅, m | u⟩ <;> rfl
  · dsimp only
    rcases c₃.commit f.commit with ⟨c₄, m | u⟩ <;> rfl

/-- A statement of the call leaves the rest of it as it is. -/
theorem statement_resume (c : LoggedConnection) (id : Nat) (p : PersistCall) (f : Faults) :
    resume ((statement c id p (nextFault f p.stage)).1.map Logged.data)
      { p with stage := (statement c id p (nextFault f p.stage)).2 } f = resume (c.map Logged.data) p f := by
  obtain ⟨pev, sig, now, stage⟩ := p
  cases stage with
  | beginning => simp only [statement, nextFault, resume, Connection.beginTx_map]
  | inserting =>
    simp only [nextFault]
    rcases he : c.exec ((insertPrediction (predictionRow pev now)).logged (.own id .prediction)) f.prediction with
      ⟨c', m | u⟩ <;> simp only [statement, he, resume, Connection.exec_map he]
  | claiming =>
    simp only [nextFault]
    rcases he : c.exec ((insertTargetClaim (targetClaimRow pev now)).logged (.own id .targetClaim)) f.targetClaim with
      ⟨c', m | u⟩ <;> simp only [statement, he, resume, Connection.exec_map he]
  | enqueuing =>
    simp only [nextFault]
    rcases he : c.exec ((insertNotification (OutboxRepository.notification (outboxRow pev sig now) pev.targetRoundId
      now)).logged (.own id .notification)) f.notification with
      ⟨c', m | u⟩ <;> simp only [statement, he, resume, Connection.exec_map he]
  | retrying =>
    simp only [nextFault]
    rcases he : c.exec ((insertNotification (OutboxRepository.notification (outboxRow pev sig now) ""
      now)).logged (.own id .notification)) f.notificationAgain with
      ⟨c', m | u⟩ <;> simp only [statement, he, resume, Connection.exec_map he]
  | committing =>
    simp only [nextFault]
    rcases he : c.commit f.commit with ⟨c', m | u⟩ <;> simp only [statement, he, resume, Connection.commit_map]
  | rollingBack m => simp only [statement, nextFault, resume, Connection.rollback_map]
  | done r => rfl

/-- The statements that a call still has before it, at most. -/
def Stage.rank : Stage → Nat
  | .beginning => 7
  | .inserting => 6
  | .claiming => 5
  | .enqueuing => 4
  | .retrying => 3
  | .committing => 2
  | .rollingBack _ => 1
  | .done _ => 0

theorem statement_rank (c : LoggedConnection) (id : Nat) (p : PersistCall) (fault : Fault) (h : p.stage.isDone = false) :
    (statement c id p fault).2.rank < p.stage.rank := by
  obtain ⟨pev, sig, now, stage⟩ := p
  cases stage with
  | beginning | rollingBack m => simp [statement, Stage.rank]
  | inserting | claiming | enqueuing | retrying | committing =>
    simp only [statement]
    split <;> simp [Stage.rank]
  | done r => cases h

theorem step_statement {p : PersistCall} (hp : s.calls id = some p) (h : p.stage.isDone = false) (fault : Fault) :
    step s (.statement id fault) = some (afterStatement s id p fault) := by
  simp only [step, hp, h, Bool.false_eq_true, ↓reduceIte]

/-- A call whose statements run one after the other ends as `persistRows` does. -/
theorem exists_run_alone (id : Nat) (f : Faults) : ∀ (n : Nat) (s : State) (p : PersistCall), s.calls id = some p →
    p.stage.rank ≤ n → ∃ (faults : List Fault) (t : State) (p' : PersistCall),
      run step s (faults.map (.statement id ·)) = some t ∧ t.calls id = some p' ∧
      p'.stage = .done (resume (s.conn.map Logged.data) p f).2 ∧
      t.conn.map Logged.data = (resume (s.conn.map Logged.data) p f).1
  | n, s, p, hp, hrank => by
    rcases hdone : p.stage.isDone with _ | _
    · have hlt := statement_rank s.conn id p (nextFault f p.stage) hdone
      obtain ⟨m, rfl⟩ : ∃ m, n = m + 1 := ⟨n - 1, by omega⟩
      obtain ⟨faults, t, p', hrun, hp', hstage, hconn⟩ := exists_run_alone id f m
        (afterStatement s id p (nextFault f p.stage)) _ (setCall_self s.calls id _) (Nat.le_of_lt_succ (Nat.lt_of_lt_of_le hlt hrank))
      refine ⟨nextFault f p.stage :: faults, t, p', ?_, hp', ?_, ?_⟩
      · rw [List.map_cons, run, step_statement hp hdone, Option.bind_some, hrun]
      · rw [hstage, afterStatement, statement_resume]
      · rw [hconn, afterStatement, statement_resume]
    · refine ⟨[], s, p, rfl, hp, ?_⟩
      obtain ⟨pev, sig, now, stage⟩ := p
      cases stage with
      | done r => exact ⟨rfl, rfl⟩
      | _ => cases hdone

/-- The stages of a call refine `persistRows`: run alone, they end with its result and its tables. -/
theorem call_alone (repo : OutboxRepository) (s : State) (id : Nat) (pev : PredictionEvent) (sig : Signal)
    (now : TimestampMs) (f : Faults) (hnew : s.calls id = none) :
    ∃ (faults : List Fault) (t : State) (p : PersistCall),
      run step s (.call id pev sig now :: faults.map (.statement id ·)) = some t ∧ t.calls id = some p ∧
      p.stage = .done (persistRows repo (s.conn.map Logged.data) pev sig now f).2.2 ∧
      t.conn.map Logged.data = (persistRows repo (s.conn.map Logged.data) pev sig now f).2.1 := by
  have hcall : step s (.call id pev sig now) = some { s with calls := setCall s.calls id { pev, sig, now } } := by
    simp only [step, hnew]
  obtain ⟨faults, t, p, hrun, hp, hstage, hconn⟩ := exists_run_alone id f 7
    { s with calls := setCall s.calls id { pev, sig, now } } { pev, sig, now } (setCall_self _ _ _) (Nat.le_refl _)
  rw [resume_beginning repo] at hstage hconn
  exact ⟨faults, t, p, by rw [run, hcall, Option.bind_some, hrun], hp, hstage, hconn⟩

end SharedConnection
end CrashCore
