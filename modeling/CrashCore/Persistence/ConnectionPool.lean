import Mathlib.Data.List.Basic

/-! The connection pool (`persistence/connection_pool.hpp`). Each call holds the mutex from the end of its wait to its
return and is one step. -/

namespace CrashCore

structure ConnectionPool where
  size : Nat
  /-- The slots with their connections, which are numbered. -/
  pool : List (Option Nat) := []
  available : Nat := 0
  /-- Bookkeeping: the number of the next connection, the connections created since the last stop, and those that the
      callers hold. -/
  next : Nat := 0
  created : Nat := 0
  handedOut : List Nat := []

namespace ConnectionPool

inductive Act
  /-- The connect of this turn of the loop fails, if it is reached. -/
  | start (failsAt : Option Nat)
  | stop
  | acquire
  /-- With a connection or a null pointer. -/
  | release (db : Option Nat)

/-- The first connection, and the slots without it. -/
def takeFirst : List (Option Nat) → Option (Nat × List (Option Nat))
  | [] => none
  | some db :: rest => some (db, none :: rest)
  | none :: rest => (takeFirst rest).map fun (db, rest) => (db, none :: rest)

/-- The connection comes into the first empty slot, or into a new one. -/
def putFirst (db : Nat) : List (Option Nat) → List (Option Nat)
  | [] => [some db]
  | none :: rest => some db :: rest
  | some other :: rest => some other :: putFirst db rest

/-- `n` turns of the loop of `start`. -/
def connect (s : ConnectionPool) (n : Nat) : ConnectionPool :=
  { s with pool := s.pool ++ (List.range' s.next n).map some, next := s.next + n, created := s.created + n }

/-- The turn of the loop of `start` whose connect fails. -/
def failure (s : ConnectionPool) (failsAt : Option Nat) : Option Nat := failsAt.filter (· < s.size)

def start (s : ConnectionPool) (failsAt : Option Nat) : ConnectionPool :=
  match s.failure failsAt with
  | some n => s.connect n
  | none => { s.connect s.size with available := (s.connect s.size).pool.length }

def stop (s : ConnectionPool) : ConnectionPool := { s with pool := [], available := 0, created := 0 }

/-- `acquire` waits. -/
def Blocked (s : ConnectionPool) : Prop := s.available = 0 ∧ s.pool ≠ []

instance : DecidablePred Blocked := fun _ => inferInstanceAs (Decidable (_ ∧ _))

def acquire (s : ConnectionPool) : Option ConnectionPool :=
  if s.Blocked then none
  else
    match takeFirst s.pool with
    | some (db, pool) => some { s with pool, available := s.available - 1, handedOut := s.handedOut ++ [db] }
    | none => some s

def release (s : ConnectionPool) : Option Nat → ConnectionPool
  | none => s
  | some db =>
    { s with pool := putFirst db s.pool, available := s.available + 1, handedOut := s.handedOut.erase db }

def step (s : ConnectionPool) : Act → Option ConnectionPool
  | .start failsAt => some (s.start failsAt)
  | .stop => some s.stop
  | .acquire => s.acquire
  | .release db => some (s.release db)

end ConnectionPool
end CrashCore
