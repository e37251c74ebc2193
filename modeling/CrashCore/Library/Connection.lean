import Mathlib.Logic.Basic
import Mathlib.Data.Prod.Basic

/-! One connection to a transactional database, over an arbitrary type `D` of database contents.

A statement outside a transaction commits by itself. A failed statement aborts the open transaction, every
statement of an aborted transaction fails, and the COMMIT of an aborted transaction rolls back and is
reported as a success. BEGIN inside an open transaction is a no-op, and COMMIT and ROLLBACK outside one
are. A statement can also fail for a reason of its own, which the caller of these functions supplies as a
`Fault`. -/

/-- A statement changes the contents or fails with a message. -/
abbrev Statement (D : Type) := D → Except String D

/-- The message of a failure that does not come from the contents, if there is one. -/
abbrev Fault := Option String

/-- What the server keeps for a connection. -/
inductive TxState (D : Type)
  | idle
  /-- The contents as the open transaction sees them. -/
  | inTx (working : D)
  | aborted
deriving DecidableEq

structure Connection (D : Type) where
  committed : D
  tx : TxState D
deriving DecidableEq

namespace Connection
variable {D : Type} {c : Connection D} {stmt : Statement D} {fault : Fault} {d w : D}

def abortedMessage : String :=
  "current transaction is aborted, commands ignored until end of transaction block"

/-- The outcome of a statement that a fault may prevent. -/
def attempt (stmt : Statement D) (fault : Fault) (d : D) : Except String D :=
  match fault with
  | some m => .error m
  | none => stmt d

def exec (c : Connection D) (stmt : Statement D) (fault : Fault) : Connection D × Except String Unit :=
  match c.tx with
  | .idle =>
    match attempt stmt fault c.committed with
    | .ok d => ({ c with committed := d }, .ok ())
    | .error m => (c, .error m)
  | .inTx w =>
    match attempt stmt fault w with
    | .ok d => ({ c with tx := .inTx d }, .ok ())
    | .error m => ({ c with tx := .aborted }, .error m)
  | .aborted => (c, .error (fault.getD abortedMessage))

def beginTx (c : Connection D) (fault : Fault) : Connection D × Except String Unit :=
  match c.tx, fault with
  | .idle, none => ({ c with tx := .inTx c.committed }, .ok ())
  | .idle, some m => (c, .error m)
  | .inTx _, none => (c, .ok ())
  | .inTx _, some m => ({ c with tx := .aborted }, .error m)
  | .aborted, _ => (c, .error (fault.getD abortedMessage))

/-- A COMMIT that fails within a transaction is taken to leave it aborted: nothing of it is committed, and the session
    waits for ROLLBACK. -/
def commit (c : Connection D) (fault : Fault) : Connection D × Except String Unit :=
  match c.tx, fault with
  | .idle, none => (c, .ok ())
  | .idle, some m => (c, .error m)
  | .inTx w, none => (⟨w, .idle⟩, .ok ())
  | .inTx _, some m => ({ c with tx := .aborted }, .error m)
  | .aborted, none => ({ c with tx := .idle }, .ok ())
  | .aborted, some m => (c, .error m)

def rollback (c : Connection D) (fault : Fault) : Connection D × Except String Unit :=
  match c.tx, fault with
  | .idle, none => (c, .ok ())
  | .inTx _, some m => ({ c with tx := .aborted }, .error m)
  | _, some m => (c, .error m)
  | _, none => ({ c with tx := .idle }, .ok ())

/-- The contents as the connection sees them; those of an aborted transaction are lost. -/
def visible (c : Connection D) : D :=
  match c.tx with
  | .inTx w => w
  | _ => c.committed

/-- No transaction is open: the connection is idle or its transaction has failed. -/
def Closed (c : Connection D) : Prop := ∀ w, c.tx ≠ .inTx w

instance (c : Connection D) : Decidable c.Closed :=
  decidable_of_iff ((match c.tx with | .inTx _ => true | _ => false) = false) (by cases h : c.tx <;> simp [Closed, h])

/-! ### A statement outside and inside a transaction -/

@[simp] theorem attempt_none : attempt stmt none d = stmt d := rfl
@[simp] theorem attempt_some {m : String} : attempt stmt (some m) d = .error m := rfl

theorem attempt_eq_ok : attempt stmt fault d = .ok w ↔ fault = none ∧ stmt d = .ok w := by
  cases fault <;> simp

theorem exec_idle_ok (h : attempt stmt fault d = .ok w) :
    exec ⟨d, .idle⟩ stmt fault = (⟨w, .idle⟩, .ok ()) := by
  simp [exec, h]

theorem exec_idle_error {m : String} (h : attempt stmt fault d = .error m) :
    exec ⟨d, .idle⟩ stmt fault = (⟨d, .idle⟩, .error m) := by
  simp [exec, h]

theorem exec_inTx_ok {e : D} (h : attempt stmt fault w = .ok e) :
    exec ⟨d, .inTx w⟩ stmt fault = (⟨d, .inTx e⟩, .ok ()) := by
  simp [exec, h]

theorem exec_inTx_error {m : String} (h : attempt stmt fault w = .error m) :
    exec ⟨d, .inTx w⟩ stmt fault = (⟨d, .aborted⟩, .error m) := by
  simp [exec, h]

@[simp] theorem exec_aborted :
    exec ⟨d, .aborted⟩ stmt fault = (⟨d, .aborted⟩, .error (fault.getD abortedMessage)) := rfl

@[simp] theorem beginTx_idle : beginTx (⟨d, .idle⟩ : Connection D) none = (⟨d, .inTx d⟩, .ok ()) := rfl
@[simp] theorem beginTx_idle_fault {m : String} :
    beginTx (⟨d, .idle⟩ : Connection D) (some m) = (⟨d, .idle⟩, .error m) := rfl
@[simp] theorem beginTx_aborted :
    beginTx (⟨d, .aborted⟩ : Connection D) fault = (⟨d, .aborted⟩, .error (fault.getD abortedMessage)) := by
  cases fault <;> rfl

@[simp] theorem commit_inTx : commit (⟨d, .inTx w⟩ : Connection D) none = (⟨w, .idle⟩, .ok ()) := rfl
@[simp] theorem commit_inTx_fault {m : String} :
    commit (⟨d, .inTx w⟩ : Connection D) (some m) = (⟨d, .aborted⟩, .error m) := rfl
@[simp] theorem commit_idle : commit (⟨d, .idle⟩ : Connection D) none = (⟨d, .idle⟩, .ok ()) := rfl
@[simp] theorem commit_idle_fault {m : String} :
    commit (⟨d, .idle⟩ : Connection D) (some m) = (⟨d, .idle⟩, .error m) := rfl

/-! ### What is never touched -/

/-- ROLLBACK never changes what is committed. -/
@[simp] theorem rollback_committed : (c.rollback fault).1.committed = c.committed := by
  unfold rollback
  split <;> rfl

/-- After a ROLLBACK no transaction is open. -/
theorem rollback_closed : (c.rollback fault).1.Closed := by
  intro w
  unfold rollback
  split <;> simp_all

/-- Nor is one open after a COMMIT. -/
theorem commit_closed : (c.commit fault).1.Closed := by
  intro w
  unfold commit
  split <;> simp_all

/-- A statement never opens a transaction. -/
theorem exec_closed (h : c.Closed) : (c.exec stmt fault).1.Closed := by
  intro w
  unfold exec
  split
  · split <;> exact h w
  · rename_i hw
    exact absurd hw (h _)
  · exact h w

theorem closed_idle : (⟨d, .idle⟩ : Connection D).Closed := fun _ => nofun
theorem closed_aborted : (⟨d, .aborted⟩ : Connection D).Closed := fun _ => nofun

theorem Closed.visible_eq (h : c.Closed) : c.visible = c.committed := by
  unfold visible
  split
  · rename_i w hw
    exact absurd hw (h w)
  · rfl

/-- On a closed connection a statement that succeeds commits by itself, and one that fails changes nothing. -/
theorem exec_cases (stmt : Statement D) (fault : Fault) (h : c.Closed) :
    (∃ d, fault = none ∧ stmt c.committed = .ok d ∧ c.exec stmt fault = (⟨d, .idle⟩, .ok ()) ∧ c.tx = .idle) ∨
      ∃ m, c.exec stmt fault = (c, .error m) := by
  obtain ⟨d, tx⟩ := c
  cases tx with
  | idle =>
    rcases ha : attempt stmt fault d with m | d'
    · exact Or.inr ⟨m, exec_idle_error ha⟩
    · exact Or.inl ⟨d', (attempt_eq_ok.mp ha).1, (attempt_eq_ok.mp ha).2, exec_idle_ok ha, rfl⟩
  | inTx w => exact absurd rfl (h w)
  | aborted => exact Or.inr ⟨_, exec_aborted⟩

/-- A closed connection is idle or aborted. -/
theorem Closed.cases (h : c.Closed) : c = ⟨c.committed, .idle⟩ ∨ c = ⟨c.committed, .aborted⟩ := by
  obtain ⟨d, tx⟩ := c
  cases tx with
  | idle => exact Or.inl rfl
  | inTx w => exact absurd rfl (h w)
  | aborted => exact Or.inr rfl

end Connection
