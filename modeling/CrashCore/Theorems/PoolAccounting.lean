import CrashCore.Library.Run
import CrashCore.Persistence.ConnectionPool

/-! The counter of the connection pool and its slots. A start that fails leaves connections that are not counted, and a
second start counts slots that are empty. -/

namespace CrashCore
namespace ConnectionPool
open Transition

variable {s t : ConnectionPool} {a : Act} {slots rest : List (Option Nat)} {db : Nat}

/-- The connections in the slots. -/
def held (slots : List (Option Nat)) : Nat := slots.countP Option.isSome

def empty (slots : List (Option Nat)) : Nat := slots.countP Option.isNone

structure Accounts (s : ConnectionPool) : Prop where
  available : s.available = held s.pool
  conserved : held s.pool + s.handedOut.length = s.created
  waits : s.Blocked → s.handedOut ≠ []

/-- A start fails at its first connect or finds no empty slot, a stop comes when all connections are back, and only a
    connection of the pool is given back. -/
def Careful (s : ConnectionPool) : Act → Prop
  | .start failsAt => (s.failure failsAt).elim (none ∉ s.pool) (· = 0)
  | .stop => s.handedOut = []
  | .acquire => True
  | .release db => ∀ c, db = some c → c ∈ s.handedOut

/-- Beside the accounts: an empty slot is that of a connection handed out. -/
structure Kept (s : ConnectionPool) : Prop where
  accounts : Accounts s
  empty_le : empty s.pool ≤ s.handedOut.length

theorem kept_initial (size : Nat) : Kept { size } := ⟨⟨rfl, rfl, fun h => absurd rfl h.2⟩, Nat.le_refl 0⟩

/-! ### Slots -/

theorem held_add_empty (slots : List (Option Nat)) : held slots + empty slots = slots.length := by
  rw [List.length_eq_countP_add_countP Option.isSome]
  congr 1
  refine List.countP_congr fun x _ => ?_
  cases x <;> rfl

theorem empty_eq_zero : empty slots = 0 ↔ none ∉ slots := by
  rw [empty, List.countP_eq_zero]
  constructor
  · exact fun h hmem => h none hmem rfl
  · intro h x hx hnone
    rw [Option.isNone_iff_eq_none] at hnone
    exact h (hnone ▸ hx)

theorem held_append (slots rest : List (Option Nat)) : held (slots ++ rest) = held slots + held rest := List.countP_append

theorem empty_append (slots rest : List (Option Nat)) : empty (slots ++ rest) = empty slots + empty rest :=
  List.countP_append

theorem held_some (dbs : List Nat) : held (dbs.map some) = dbs.length := by
  rw [held, List.countP_map]
  exact List.countP_eq_length.mpr fun _ _ => rfl

theorem empty_some (dbs : List Nat) : empty (dbs.map some) = 0 := by
  rw [empty_eq_zero]
  simp

theorem takeFirst_eq_some (h : takeFirst slots = some (db, rest)) :
    held slots = held rest + 1 ∧ empty rest = empty slots + 1 := by
  induction slots generalizing rest with
  | nil => cases h
  | cons x slots ih =>
    cases x with
    | some c =>
      cases h
      simp [held, empty]
    | none =>
      obtain ⟨⟨c, rest'⟩, hrest, heq⟩ := Option.map_eq_some_iff.mp h
      cases heq
      obtain ⟨hheld, hempty⟩ := ih hrest
      simp only [held, empty, List.countP_cons] at hheld hempty ⊢
      simp only [Option.isSome_none, Option.isNone_none]
      omega

theorem held_putFirst (db : Nat) (slots : List (Option Nat)) : held (putFirst db slots) = held slots + 1 := by
  induction slots with
  | nil => rfl
  | cons x slots ih => cases x <;> simp_all [putFirst, held]

theorem empty_putFirst (db : Nat) (slots : List (Option Nat)) : empty (putFirst db slots) = empty slots - 1 := by
  induction slots with
  | nil => rfl
  | cons x slots ih => cases x <;> simp_all [putFirst, empty]

/-! ### Steps -/

theorem held_connect (s : ConnectionPool) (n : Nat) : held (s.connect n).pool = held s.pool + n := by
  rw [connect, held_append, held_some, List.length_range']

theorem empty_connect (s : ConnectionPool) (n : Nat) : empty (s.connect n).pool = empty s.pool := by
  rw [connect, empty_append, empty_some, Nat.add_zero]

/-- A failed start keeps the accounts if it has made no connection. -/
theorem kept_connect_iff (h : Kept s) (n : Nat) :
    (Accounts (s.connect n) → n = 0) ∧ (n = 0 → Kept (s.connect n)) := by
  constructor
  · intro haccounts
    have havailable : s.available = held (s.connect n).pool := haccounts.available
    rw [held_connect, ← h.accounts.available] at havailable
    omega
  · rintro rfl
    have hsame : s.connect 0 = s := by simp [connect]
    rwa [hsame]

/-- A start that succeeds keeps them if there was no empty slot. -/
theorem kept_connect_all_iff (h : Kept s) (n : Nat) :
    (Accounts { s.connect n with available := (s.connect n).pool.length } → none ∉ s.pool) ∧
    (none ∉ s.pool → Kept { s.connect n with available := (s.connect n).pool.length }) := by
  have hslots := held_add_empty (s.connect n).pool
  rw [empty_connect] at hslots
  constructor
  · intro haccounts
    have havailable : (s.connect n).pool.length = held (s.connect n).pool := haccounts.available
    exact empty_eq_zero.mp (by omega)
  · intro hnone
    rw [empty_eq_zero.mpr hnone] at hslots
    refine ⟨⟨hslots.symm, ?_, fun hblocked => ?_⟩, ?_⟩
    · have hconserved := h.accounts.conserved
      show held (s.connect n).pool + s.handedOut.length = s.created + n
      rw [held_connect]
      omega
    · exact absurd (List.eq_nil_of_length_eq_zero hblocked.1) hblocked.2
    · show empty (s.connect n).pool ≤ s.handedOut.length
      rw [empty_connect]
      exact h.empty_le

theorem kept_start_iff (h : Kept s) (failsAt : Option Nat) :
    (Accounts (s.start failsAt) → Careful s (.start failsAt)) ∧ (Careful s (.start failsAt) → Kept (s.start failsAt)) := by
  rw [start, Careful]
  cases s.failure failsAt with
  | some n => exact kept_connect_iff h n
  | none => exact kept_connect_all_iff h s.size

theorem kept_stop_iff (s : ConnectionPool) : (Accounts s.stop → s.handedOut = []) ∧ (s.handedOut = [] → Kept s.stop) := by
  constructor
  · intro haccounts
    have hconserved : 0 + s.handedOut.length = 0 := haccounts.conserved
    exact List.eq_nil_of_length_eq_zero (by omega)
  · intro hnil
    refine ⟨⟨rfl, ?_, fun hblocked => absurd rfl hblocked.2⟩, Nat.zero_le _⟩
    show 0 + s.handedOut.length = 0
    rw [hnil]
    rfl

/-- Where no slot holds a connection, each of them is that of one handed out. -/
theorem Kept.of_counts (havailable : s.available = held s.pool) (hconserved : held s.pool + s.handedOut.length = s.created)
    (hempty : empty s.pool ≤ s.handedOut.length) : Kept s := by
  refine ⟨⟨havailable, hconserved, fun hblocked hnil => hblocked.2 ?_⟩, hempty⟩
  have hslots := held_add_empty s.pool
  rw [hnil, List.length_nil] at hempty
  have hzero := hblocked.1
  exact List.eq_nil_of_length_eq_zero (by omega)

theorem kept_acquire (h : Kept s) (hs : s.acquire = some t) : Kept t := by
  have havailable := h.accounts.available
  have hconserved := h.accounts.conserved
  have hempty := h.empty_le
  rw [acquire] at hs
  split at hs
  · cases hs
  · split at hs <;> cases hs
    · rename_i db slots htake
      obtain ⟨hheld, hrest⟩ := takeFirst_eq_some htake
      refine .of_counts ?_ ?_ ?_ <;> dsimp only <;> (try rw [List.length_append, List.length_singleton]) <;> omega
    · exact h

theorem kept_release_iff (h : Kept s) (db : Option Nat) :
    (Accounts (s.release db) → Careful s (.release db)) ∧ (Careful s (.release db) → Kept (s.release db)) := by
  cases db with
  | none => exact ⟨fun _ c hc => (by cases hc), fun _ => h⟩
  | some c =>
    have hconserved := h.accounts.conserved
    have hheld := held_putFirst c s.pool
    constructor
    · rintro haccounts _ ⟨⟩
      have hafter : held (putFirst c s.pool) + (s.handedOut.erase c).length = s.created := haccounts.conserved
      by_contra hforeign
      rw [List.erase_of_not_mem hforeign] at hafter
      omega
    · intro hcareful
      have hmem : c ∈ s.handedOut := hcareful c rfl
      have hlen := List.length_erase_of_mem hmem
      have hpos := List.length_pos_of_mem hmem
      have havailable := h.accounts.available
      have hempty := h.empty_le
      have hempty' := empty_putFirst c s.pool
      exact .of_counts (by dsimp only [release]; omega) (by dsimp only [release]; omega) (by dsimp only [release]; omega)

theorem step_iff (h : Kept s) (hs : step s a = some t) : (Accounts t → Careful s a) ∧ (Careful s a → Kept t) := by
  cases a with
  | start failsAt =>
    cases hs
    exact kept_start_iff h failsAt
  | stop =>
    cases hs
    exact kept_stop_iff s
  | acquire => exact ⟨fun _ => trivial, fun _ => kept_acquire h hs⟩
  | release db =>
    cases hs
    exact kept_release_iff h db

theorem careful_of_disabled (hs : step s a = none) : Careful s a := by
  cases a with
  | acquire => trivial
  | start failsAt | stop | release db => cases hs

/-- The accounts are right in every state of a run exactly if its calls are careful. -/
theorem accounts_along_iff (size : Nat) (as : List Act) :
    Along step Accounts { size } as ↔ Meets step Careful { size } as :=
  along_iff_meets_of_disabled (fun _ h => h.accounts) (fun _ _ _ h hok hs => (step_iff h hs).2 hok)
    (fun _ _ _ h hs ht => (step_iff h hs).1 ht) (fun _ _ hs => careful_of_disabled hs) (kept_initial size)

/-- After a start whose second connect fails, `acquire` waits for a connection, and nobody has one. -/
theorem not_accounts_along : ¬Along step Accounts { size := 4 } [.start (some 1)] := by
  have hrun : ∃ s, run step { size := 4 } [.start (some 1)] = some s ∧ s.Blocked ∧ s.handedOut = [] :=
    ⟨_, rfl, by decide, rfl⟩
  obtain ⟨s, hs, hblocked, hnil⟩ := hrun
  exact not_along_of_last hs fun haccounts => haccounts.waits hblocked hnil

end ConnectionPool
end CrashCore
