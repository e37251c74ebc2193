import Mathlib.Data.Fintype.Basic
import Mathlib.Logic.Function.Basic
import Mathlib.Data.Int.Notation

/-! The latencies and the counters that all threads write without a common lock (`timing/latency_tracker.hpp`,
`telemetry/metric_registry.hpp`), one access of a shared variable or one critical section at a time. The accesses are
relaxed: each variable for itself is read and written in one order. Counts and sums have 64 bits and wrap around. -/

namespace CrashCore

/-! ### Latencies -/

/-- The number of the stages. -/
def stageCount : Nat := 8

def bucketIndex (us : Int) : Nat :=
  if us < 10 then 0
  else if us < 25 then 1
  else if us < 50 then 2
  else if us < 100 then 3
  else if us < 200 then 4
  else if us < 500 then 5
  else if us < 1000 then 6
  else if us < 2000 then 7
  else if us < 5000 then 8
  else if us < 10000 then 9
  else if us < 25000 then 10
  else if us < 50000 then 11
  else if us < 100000 then 12
  else if us < 250000 then 13
  else if us < 1000000 then 14
  else 15

namespace LatencyThreads

/-- Where a thread stands in `record`: before the access of this name, with the stage and the time. -/
inductive Place
  | idle
  | addCount (stage : Nat) (us : Int)
  | addSum (stage : Nat) (us : Int)
  | loadMax (stage : Nat) (us : Int)
  /-- Before the test of the loop; `cur` is what was read last. -/
  | raiseMax (stage : Nat) (us cur : Int)
  | addBucket (stage : Nat) (us : Int)
deriving DecidableEq

structure State (τ : Type) where
  count : Nat → BitVec 64 := fun _ => 0
  sum : Nat → BitVec 64 := fun _ => 0
  max : Nat → Int := fun _ => 0
  buckets : Nat → Nat → BitVec 64 := fun _ _ => 0
  places : τ → Place := fun _ => .idle
  /-- Bookkeeping: the calls of `record`. -/
  calls : List (Nat × Int) := []

inductive Act (τ : Type)
  /-- A thread calls `record`. -/
  | record (i : τ) (stage : Nat) (us : Int)
  /-- Its next access. The exchange may fail for no reason. -/
  | next (i : τ) (spurious : Bool)

variable {τ : Type} [DecidableEq τ]

def moveTo (s : State τ) (i : τ) (p : Place) : State τ := { s with places := Function.update s.places i p }

/-- A stage that does not exist is not recorded. -/
def step (s : State τ) : Act τ → Option (State τ)
  | .record i stage us =>
    match s.places i with
    | .idle =>
      if stageCount ≤ stage then some s
      else some { moveTo s i (.addCount stage us) with calls := s.calls ++ [(stage, us)] }
    | _ => none
  | .next i spurious =>
    match s.places i with
    | .idle => none
    | .addCount stage us =>
      some { moveTo s i (.addSum stage us) with count := Function.update s.count stage (s.count stage + 1) }
    | .addSum stage us =>
      some { moveTo s i (.loadMax stage us) with sum := Function.update s.sum stage (s.sum stage + BitVec.ofInt 64 us) }
    | .loadMax stage us => some (moveTo s i (.raiseMax stage us (s.max stage)))
    | .raiseMax stage us cur =>
      if cur < us then
        if s.max stage = cur ∧ !spurious then
          some { moveTo s i (.addBucket stage us) with max := Function.update s.max stage us }
        else some (moveTo s i (.raiseMax stage us (s.max stage)))
      else some (moveTo s i (.addBucket stage us))
    | .addBucket stage us =>
      let bucket := Function.update (s.buckets stage) (bucketIndex us) (s.buckets stage (bucketIndex us) + 1)
      some { moveTo s i .idle with buckets := Function.update s.buckets stage bucket }

end LatencyThreads

/-! ### Counters -/

namespace CounterThreads

/-- Where a thread stands in `counterInc`. -/
inductive Place
  | idle
  /-- Before the look under the shared lock. -/
  | find (name : String) (n : BitVec 64)
  /-- Before the look under the unique lock, which may make the counter. -/
  | ensure (name : String) (n : BitVec 64)
  /-- With the address of the counter, outside the locks. -/
  | add (name : String) (n : BitVec 64) (address : Nat)

structure State (τ : Type) where
  table : String → Option Nat := fun _ => none
  /-- The memory of the counters; what was freed is `none`. -/
  cells : Nat → Option (BitVec 64) := fun _ => none
  /-- Addresses are not used again. -/
  fresh : Nat := 0
  places : τ → Place := fun _ => .idle
  /-- A thread has written to memory that was freed. -/
  fault : Bool := false
  /-- Bookkeeping: the calls of `counterInc`, and what `reset` has thrown away by name. -/
  calls : List (String × BitVec 64) := []
  forgotten : String → BitVec 64 := fun _ => 0

inductive Act (τ : Type)
  | counterInc (i : τ) (name : String) (n : BitVec 64)
  | next (i : τ)
  | reset

variable {τ : Type} [DecidableEq τ]

def counterGet (s : State τ) (name : String) : BitVec 64 := ((s.table name).bind s.cells).getD 0

def moveTo (s : State τ) (i : τ) (p : Place) : State τ := { s with places := Function.update s.places i p }

def step (s : State τ) : Act τ → Option (State τ)
  | .counterInc i name n =>
    match s.places i with
    | .idle => some { moveTo s i (.find name n) with calls := s.calls ++ [(name, n)] }
    | _ => none
  | .next i =>
    match s.places i with
    | .idle => none
    | .find name n =>
      match s.table name with
      | some address => some (moveTo s i (.add name n address))
      | none => some (moveTo s i (.ensure name n))
    | .ensure name n =>
      match s.table name with
      | some address => some (moveTo s i (.add name n address))
      | none => some { moveTo s i (.add name n s.fresh) with
          table := Function.update s.table name (some s.fresh)
          cells := Function.update s.cells s.fresh (some 0)
          fresh := s.fresh + 1 }
    | .add _ n address =>
      match s.cells address with
      | some v => some { moveTo s i .idle with cells := Function.update s.cells address (some (v + n)) }
      | none => some { moveTo s i .idle with fault := true }
  | .reset => some { s with
      table := fun _ => none
      cells := fun _ => none
      forgotten := fun name => s.forgotten name + counterGet s name }

/-- A thread between the look and the addition. -/
def Place.holds : Place → Bool
  | .add .. => true
  | _ => false

def NoneHolds (s : State τ) : Prop := ∀ i, (s.places i).holds = false

instance [Fintype τ] (s : State τ) : Decidable (NoneHolds s) := inferInstanceAs (Decidable (∀ _, _))

/-- The table is not cleared while a thread has the address of a counter. -/
def QuietReset (s : State τ) : Act τ → Prop
  | .reset => NoneHolds s
  | _ => True

instance [Fintype τ] (s : State τ) : ∀ a, Decidable (QuietReset s a)
  | .reset => inferInstanceAs (Decidable (NoneHolds s))
  | .counterInc .. | .next _ => .isTrue trivial

end CounterThreads
end CrashCore
