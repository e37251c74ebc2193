import CrashCore.Common.Types
import CrashCore.Library.Run

/-! The lease of `live/live_supervisor.hpp`: any number of supervisors over one row of `worker_leases`.

A SQL statement is one step, together with the local code that follows it up to the next statement; the code
before the first statement of a call (clock reading, loads of the atomics) is a step of its own. `ok` says
whether the statement succeeds. Acquisitions of one supervisor exclude each other (`mu_`); a renewal and a
release may overlap with them. -/

namespace CrashCore

/-! ### The row -/

structure LeaseRow where
  ownerId : String
  epoch : Nat
  expiresAtMs : TimestampMs
deriving DecidableEq, Repr

namespace LeaseRow

/-- `INSERT … VALUES ($1,$2,1,$3) ON CONFLICT (lock_key) DO UPDATE SET …, epoch=worker_leases.epoch+1, …
    WHERE worker_leases.expires_at_ms < $4 OR worker_leases.owner_id=$2`. -/
def upsert (row : Option LeaseRow) (workerId : String) (expires now : TimestampMs) : Option LeaseRow :=
  match row with
  | none => some ⟨workerId, 1, expires⟩
  | some r =>
    if r.expiresAtMs < now ∨ r.ownerId = workerId then some ⟨workerId, r.epoch + 1, expires⟩ else some r

/-- `SELECT epoch … WHERE lock_key=$1 AND owner_id=$2`. -/
def selectEpoch (row : Option LeaseRow) (workerId : String) : Option Nat :=
  match row with
  | none => none
  | some r => if r.ownerId = workerId then some r.epoch else none

/-- `UPDATE … SET expires_at_ms=$1 WHERE lock_key=$2 AND owner_id=$3 AND epoch=$4`. -/
def renew (row : Option LeaseRow) (expires : TimestampMs) (workerId : String) (epoch : Nat) : Option LeaseRow :=
  match row with
  | none => none
  | some r => if r.ownerId = workerId ∧ r.epoch = epoch then some { r with expiresAtMs := expires } else some r

/-- `DELETE … WHERE lock_key=$1 AND owner_id=$2 AND epoch=$3`. -/
def delete (row : Option LeaseRow) (workerId : String) (epoch : Nat) : Option LeaseRow :=
  match row with
  | none => none
  | some r => if r.ownerId = workerId ∧ r.epoch = epoch then none else some r

/-- The row names `workerId` as its owner. -/
def Owns (row : Option LeaseRow) (workerId : String) : Prop := ∃ r ∈ row, r.ownerId = workerId

instance (row : Option LeaseRow) (workerId : String) : Decidable (Owns row workerId) :=
  inferInstanceAs (Decidable (∃ r ∈ row, r.ownerId = workerId))

/-- The conflict clause lets the upsert write: there is no row, or it has expired, or it is the worker's own. -/
def Claimable (row : Option LeaseRow) (workerId : String) (now : TimestampMs) : Prop :=
  ∀ r ∈ row, r.expiresAtMs < now ∨ r.ownerId = workerId

instance (row : Option LeaseRow) (workerId : String) (now : TimestampMs) : Decidable (Claimable row workerId now) :=
  inferInstanceAs (Decidable (∀ r ∈ row, r.expiresAtMs < now ∨ r.ownerId = workerId))

end LeaseRow

/-! ### The supervisor -/

structure LiveSupervisor where
  hasAuthority : Bool := false
  epoch : Nat := 0
  renewals : Nat := 0
deriving DecidableEq, Repr

namespace LiveSupervisor

structure Config where
  leaseTtlSeconds : Int := 8

def Config.ttlMs (cfg : Config) : Int := cfg.leaseTtlSeconds * 1000

/-- The end of `acquire`, with the epoch that the read-back found, if it found one. -/
def acquired (sup : LiveSupervisor) (epoch : Option Nat) : LiveSupervisor :=
  { sup with epoch := epoch.getD (sup.epoch + 1), hasAuthority := true }

def loseAuthority (sup : LiveSupervisor) : LiveSupervisor := { sup with hasAuthority := false }

def renewed (sup : LiveSupervisor) : LiveSupervisor := { sup with renewals := sup.renewals + 1 }

/-! ### Calls in progress -/

inductive Acquiring
  | idle
  | upserting (now : TimestampMs)
  | readingBack (now : TimestampMs)
deriving DecidableEq, Repr

inductive Renewing
  | idle
  | updating (now : TimestampMs) (epoch : Nat)
  | verifying (now : TimestampMs)
deriving DecidableEq, Repr

inductive Releasing
  | idle
  | deleting (epoch : Nat)
deriving DecidableEq, Repr

/-- The clock reading of an acquisition before its upsert. -/
def Acquiring.upserting? : Acquiring → Option TimestampMs
  | .upserting now => some now
  | _ => none

def Acquiring.readingBack? : Acquiring → Option TimestampMs
  | .readingBack now => some now
  | _ => none

def Renewing.updating? : Renewing → Option (TimestampMs × Nat)
  | .updating now epoch => some (now, epoch)
  | _ => none

def Renewing.verifying? : Renewing → Option TimestampMs
  | .verifying now => some now
  | _ => none

def Releasing.deleting? : Releasing → Option Nat
  | .deleting epoch => some epoch
  | _ => none

structure Process where
  sup : LiveSupervisor := {}
  acquiring : Acquiring := .idle
  renewing : Renewing := .idle
  releasing : Releasing := .idle
  /-- The clock reading of the most recent successful `acquire` or `renew`. -/
  grantedAt : TimestampMs := 0
deriving DecidableEq, Repr

/-- What a successful `acquire` leaves behind, for the record. -/
structure Grant where
  workerId : String
  row : Option LeaseRow
  clock : TimestampMs
  epoch : Nat
deriving DecidableEq, Repr

structure State where
  row : Option LeaseRow
  clock : TimestampMs
  proc : String → Process := fun _ => {}
  grants : List Grant := []
  /-- Of each successful `renew`, the supervisor's epoch and the row's. -/
  renewals : List (Nat × Nat) := []

def initial (row : Option LeaseRow) (clock : TimestampMs) : State := { row, clock }

def State.setProc (s : State) (w : String) (p : Process) : State :=
  { s with proc := fun x => if x = w then p else s.proc x }

inductive Action
  | advance (ms : Nat)
  | acquire (w : String)
  | upsert (w : String) (ok : Bool)
  | readBack (w : String) (ok : Bool)
  | renew (w : String)
  | update (w : String) (ok : Bool)
  | verify (w : String) (ok : Bool)
  | release (w : String)
  | delete (w : String) (ok : Bool)

/-- The lease until which `acquire` and `renew` ask, for a call that read the clock at `now`. -/
def expires (cfg : String → Config) (w : String) (now : TimestampMs) : TimestampMs := now + (cfg w).ttlMs

section
variable (cfg : String → Config) (s : State) (w : String) (p : Process)

def afterUpsert (now : TimestampMs) : State :=
  { s with row := LeaseRow.upsert s.row w (expires cfg w now) now }.setProc w { p with acquiring := .readingBack now }

/-- The read-back; without an epoch from it the local one is counted up. -/
def afterReadBack (ok : Bool) (now : TimestampMs) : State :=
  let sup := p.sup.acquired (if ok then LeaseRow.selectEpoch s.row w else none)
  { s with grants := s.grants ++ [Grant.mk w s.row s.clock sup.epoch] }.setProc w
    { p with sup, acquiring := .idle, grantedAt := now }

def afterUpdate (now : TimestampMs) (epoch : Nat) : State :=
  { s with row := LeaseRow.renew s.row (expires cfg w now) w epoch }.setProc w { p with renewing := .verifying now }

def afterVerify (r : LeaseRow) (now : TimestampMs) : State :=
  { s with renewals := s.renewals ++ [(p.sup.epoch, r.epoch)] }.setProc w
    { p with sup := p.sup.renewed, renewing := .idle, grantedAt := now }

def afterDelete (ok : Bool) (epoch : Nat) : State :=
  { s with row := if ok then LeaseRow.delete s.row w epoch else s.row }.setProc w
    { p with sup := p.sup.loseAuthority, releasing := .idle }

/-- A statement of a renewal failed, or did not confirm the ownership. -/
def renewLost : State := s.setProc w { p with sup := p.sup.loseAuthority, renewing := .idle }

end

def step (cfg : String → Config) (s : State) : Action → Option State
  | .advance ms => some { s with clock := s.clock + ms }
  | .acquire w =>
    let p := s.proc w
    match p.acquiring with
    | .idle => some (s.setProc w { p with acquiring := .upserting s.clock })
    | _ => none
  | .upsert w ok =>
    let p := s.proc w
    match p.acquiring, ok with
    | .upserting now, true => some (afterUpsert cfg s w p now)
    | .upserting _, false => some (s.setProc w { p with sup := p.sup.loseAuthority, acquiring := .idle })
    | _, _ => none
  | .readBack w ok =>
    let p := s.proc w
    match p.acquiring with
    | .readingBack now => some (afterReadBack s w p ok now)
    | _ => none
  | .renew w =>
    let p := s.proc w
    match p.renewing, p.sup.hasAuthority with
    | .idle, true => some (s.setProc w { p with renewing := .updating s.clock p.sup.epoch })
    | _, _ => none
  | .update w ok =>
    let p := s.proc w
    match p.renewing, ok with
    | .updating now epoch, true => some (afterUpdate cfg s w p now epoch)
    | .updating _ _, false => some (renewLost s w p)
    | _, _ => none
  | .verify w ok =>
    let p := s.proc w
    match p.renewing, ok, s.row with
    | .verifying now, true, some r => some (if r.ownerId = w then afterVerify s w p r now else renewLost s w p)
    | .verifying _, _, _ => some (renewLost s w p)
    | _, _, _ => none
  | .release w =>
    let p := s.proc w
    match p.releasing with
    | .idle => some (s.setProc w { p with releasing := .deleting p.sup.epoch })
    | _ => none
  | .delete w ok =>
    let p := s.proc w
    match p.releasing with
    | .deleting epoch => some (afterDelete s w p ok epoch)
    | _ => none

/-! ### Inversion -/

-- the equations of `step`, made once for all of the lemmas
attribute [local simp] step

variable {cfg : String → Config} {s t : State} {w x : String} {p : Process} {ok : Bool}

@[simp] theorem setProc_self : (s.setProc w p).proc w = p := if_pos rfl
theorem setProc_other (h : x ≠ w) : (s.setProc w p).proc x = s.proc x := if_neg h

theorem acquire_inv (hs : step cfg s (.acquire w) = some t) : (s.proc w).acquiring = .idle ∧
    t = s.setProc w { s.proc w with acquiring := .upserting s.clock } := by
  simp only [step] at hs
  split at hs
  · rename_i hidle
    exact ⟨hidle, (Option.some.inj hs).symm⟩
  · cases hs

theorem upsert_inv (hs : step cfg s (.upsert w ok) = some t) : ∃ now, (s.proc w).acquiring = .upserting now ∧
    ((ok = true ∧ t = afterUpsert cfg s w (s.proc w) now) ∨
      (ok = false ∧ t = s.setProc w { s.proc w with sup := (s.proc w).sup.loseAuthority, acquiring := .idle })) := by
  simp only [step] at hs
  split at hs
  · rename_i now hpc
    exact ⟨now, hpc, Or.inl ⟨rfl, (Option.some.inj hs).symm⟩⟩
  · rename_i now hpc
    exact ⟨now, hpc, Or.inr ⟨rfl, (Option.some.inj hs).symm⟩⟩
  · cases hs

theorem readBack_inv (hs : step cfg s (.readBack w ok) = some t) : ∃ now,
    (s.proc w).acquiring = .readingBack now ∧ t = afterReadBack s w (s.proc w) ok now := by
  simp only [step] at hs
  split at hs
  · rename_i now hpc
    exact ⟨now, hpc, (Option.some.inj hs).symm⟩
  · cases hs

theorem renew_inv (hs : step cfg s (.renew w) = some t) : (s.proc w).sup.hasAuthority = true ∧
    t = s.setProc w { s.proc w with renewing := .updating s.clock (s.proc w).sup.epoch } := by
  simp only [step] at hs
  split at hs
  · rename_i hauth
    exact ⟨hauth, (Option.some.inj hs).symm⟩
  · cases hs

theorem update_inv (hs : step cfg s (.update w ok) = some t) : ∃ now epoch,
    (s.proc w).renewing = .updating now epoch ∧
    ((ok = true ∧ t = afterUpdate cfg s w (s.proc w) now epoch) ∨ (ok = false ∧ t = renewLost s w (s.proc w))) := by
  simp only [step] at hs
  split at hs
  · rename_i now epoch hpc
    exact ⟨now, epoch, hpc, Or.inl ⟨rfl, (Option.some.inj hs).symm⟩⟩
  · rename_i now epoch hpc
    exact ⟨now, epoch, hpc, Or.inr ⟨rfl, (Option.some.inj hs).symm⟩⟩
  · cases hs

theorem verify_inv (hs : step cfg s (.verify w ok) = some t) : ∃ now, (s.proc w).renewing = .verifying now ∧
    ((ok = true ∧ ∃ r, s.row = some r ∧ r.ownerId = w ∧ t = afterVerify s w (s.proc w) r now) ∨
      t = renewLost s w (s.proc w)) := by
  simp only [step] at hs
  split at hs
  · rename_i now r hpc hrow
    refine ⟨now, hpc, ?_⟩
    split at hs
    · rename_i hown
      exact Or.inl ⟨rfl, r, hrow, hown, (Option.some.inj hs).symm⟩
    · exact Or.inr (Option.some.inj hs).symm
  · rename_i now hpc _
    exact ⟨now, hpc, Or.inr (Option.some.inj hs).symm⟩
  · cases hs

theorem release_inv (hs : step cfg s (.release w) = some t) :
    t = s.setProc w { s.proc w with releasing := .deleting (s.proc w).sup.epoch } := by
  simp only [step] at hs
  split at hs
  · exact (Option.some.inj hs).symm
  · cases hs

theorem delete_inv (hs : step cfg s (.delete w ok) = some t) : ∃ epoch, (s.proc w).releasing = .deleting epoch ∧
    t = afterDelete s w (s.proc w) ok epoch := by
  simp only [step] at hs
  split at hs
  · rename_i epoch hpc
    exact ⟨epoch, hpc, (Option.some.inj hs).symm⟩
  · cases hs

/-- The supervisor that takes the step. -/
def Action.worker? : Action → Option String
  | .advance _ => none
  | .acquire w | .upsert w _ | .readBack w _ | .renew w | .update w _ | .verify w _ | .release w | .delete w _ => some w

/-- A step of one supervisor leaves the others alone. -/
theorem step_other {a : Action} (hx : a.worker? ≠ some x) (hs : step cfg s a = some t) : t.proc x = s.proc x := by
  have hne : ∀ w, a.worker? = some w → x ≠ w := fun w hw heq => hx (heq ▸ hw)
  cases a with
  | advance ms =>
    cases hs
    rfl
  | acquire w =>
    obtain ⟨-, rfl⟩ := acquire_inv hs
    exact setProc_other (hne w rfl)
  | upsert w ok =>
    obtain ⟨now, -, ⟨-, rfl⟩ | ⟨-, rfl⟩⟩ := upsert_inv hs <;> exact setProc_other (hne w rfl)
  | readBack w ok =>
    obtain ⟨now, -, rfl⟩ := readBack_inv hs
    exact setProc_other (hne w rfl)
  | renew w =>
    obtain ⟨-, rfl⟩ := renew_inv hs
    exact setProc_other (hne w rfl)
  | update w ok =>
    obtain ⟨now, epoch, -, ⟨-, rfl⟩ | ⟨-, rfl⟩⟩ := update_inv hs <;> exact setProc_other (hne w rfl)
  | verify w ok =>
    obtain ⟨now, -, ⟨-, r, -, -, rfl⟩ | rfl⟩ := verify_inv hs <;> exact setProc_other (hne w rfl)
  | release w =>
    obtain rfl := release_inv hs
    exact setProc_other (hne w rfl)
  | delete w ok =>
    obtain ⟨epoch, -, rfl⟩ := delete_inv hs
    exact setProc_other (hne w rfl)

/-- A renewal that finds the row its own is not lost. -/
theorem verify_owned (hown : LeaseRow.Owns s.row w) (hs : step cfg s (.verify w true) = some t) :
    ∃ now r, t = afterVerify s w (s.proc w) r now := by
  obtain ⟨r, hrow, hr⟩ := hown
  simp only [step, show s.row = some r from hrow] at hs
  split at hs
  · rename_i now r' _ _ heq
    cases heq
    rw [if_pos hr] at hs
    exact ⟨now, r, (Option.some.inj hs).symm⟩
  · rename_i now _ hno
    exact (hno r rfl rfl).elim
  · cases hs

end LiveSupervisor
end CrashCore
