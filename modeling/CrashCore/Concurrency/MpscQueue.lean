import CrashCore.Concurrency.SpscQueue
import CrashCore.Library.RingBuffer
import CrashCore.Library.Run

/-! The multi-producer single-consumer queue (`concurrency/mpsc_queue.hpp`), one access of a shared variable at a time.
Any number of producers and one consumer interleave; memory is sequentially consistent. The counters do not wrap. -/

namespace CrashCore

/-- A default-constructed or moved-from value is `default`. -/
structure Slot (α : Type) where
  sequence : Nat
  data : α

structure MpscQueue (α : Type) where
  slots : RingBuffer (Slot α)
  head : Nat := 0
  tail : Nat := 0
  pushes : Nat := 0
  pops : Nat := 0

def MpscQueue.new {α : Type} [Inhabited α] (capacity : Nat) : MpscQueue α where
  slots :=
    { cap := SpscQueue.grow capacity capacity 2
      isPow := SpscQueue.isPow_cap capacity
      cells := fun i => { sequence := i, data := default } }

namespace MpscThreads

/-- The next access of a producer in `try_push`. -/
inductive Producer (α : Type)
  | idle
  | loadTail (item : α)
  | loadSequence (item : α) (pos : Nat)
  | exchange (item : α) (pos : Nat)
  | write (item : α) (pos : Nat)
  | publish (item : α) (pos : Nat)
  | count (item : α) (pos : Nat)

/-- The next access of the consumer in `try_pop`. -/
inductive Consumer (α : Type)
  | idle
  | loadSequence (pos : Nat)
  | read (pos : Nat)
  | release (item : α) (pos : Nat)
  | storeHead (item : α) (pos : Nat)
  | count (item : α)

structure State (ι α : Type) where
  queue : MpscQueue α
  producers : ι → Producer α := fun _ => .idle
  consumer : Consumer α := .idle
  /-- The items in the order in which their tail reservations succeeded. -/
  reserved : List α := []
  /-- The items that the consumer has moved out of their slots. -/
  popped : List α := []
  /-- The calls of `try_push` that returned true: reserved position and item. -/
  accepted : List (Nat × α) := []
  /-- What the calls of `try_pop` returned. -/
  results : List (Option α) := []

inductive Act (ι α : Type)
  | tryPush (i : ι) (item : α)
  /-- `compare_exchange_weak` may fail although it finds what it expects. -/
  | produce (i : ι) (spurious : Bool)
  /-- The next access of the consumer; an idle one calls `try_pop`. -/
  | consume

variable {ι α : Type} [DecidableEq ι] [Inhabited α]

def initial (capacity : Nat) : State ι α := { queue := .new capacity }

def setProducer (s : State ι α) (i : ι) (p : Producer α) : State ι α :=
  { s with producers := Function.update s.producers i p }

def setSlot (s : State ι α) (pos : Nat) (slot : Slot α) : State ι α :=
  { s with queue := { s.queue with slots := s.queue.slots.set pos slot } }

/-- The slot of a position. -/
def slot (s : State ι α) (pos : Nat) : Slot α := s.queue.slots.get pos

def produce (s : State ι α) (i : ι) (spurious : Bool) : Option (State ι α) :=
  match s.producers i with
  | .idle => none
  | .loadTail item => some (setProducer s i (.loadSequence item s.queue.tail))
  | .loadSequence item pos =>
    let dif : Int := (slot s pos).sequence - pos
    if dif = 0 then some (setProducer s i (.exchange item pos))
    else if dif < 0 then some (setProducer s i .idle)
    else some (setProducer s i (.loadTail item))
  | .exchange item pos =>
    if s.queue.tail = pos ∧ spurious = false then
      some (setProducer
        { s with queue := { s.queue with tail := pos + 1 }, reserved := s.reserved ++ [item] } i (.write item pos))
    else some (setProducer s i (.loadSequence item s.queue.tail))
  | .write item pos =>
    some (setProducer (setSlot s pos { slot s pos with data := item }) i (.publish item pos))
  | .publish item pos =>
    some (setProducer (setSlot s pos { slot s pos with sequence := pos + 1 }) i (.count item pos))
  | .count item pos =>
    some (setProducer
      { s with queue := { s.queue with pushes := s.queue.pushes + 1 }, accepted := s.accepted ++ [(pos, item)] } i .idle)

def consume (s : State ι α) : State ι α :=
  match s.consumer with
  | .idle => { s with consumer := .loadSequence s.queue.head }
  | .loadSequence pos =>
    if (slot s pos).sequence ≠ pos + 1 then { s with consumer := .idle, results := s.results ++ [none] }
    else { s with consumer := .read pos }
  | .read pos =>
    let item := (slot s pos).data
    { setSlot s pos { slot s pos with data := default } with
      consumer := .release item pos, popped := s.popped ++ [item] }
  | .release item pos =>
    { setSlot s pos { slot s pos with sequence := pos + s.queue.slots.cap } with consumer := .storeHead item pos }
  | .storeHead item pos => { s with queue := { s.queue with head := pos + 1 }, consumer := .count item }
  | .count item =>
    { s with
      queue := { s.queue with pops := s.queue.pops + 1 }, consumer := .idle, results := s.results ++ [some item] }

def step (s : State ι α) : Act ι α → Option (State ι α)
  | .tryPush i item =>
    match s.producers i with
    | .idle => some (setProducer s i (.loadTail item))
    | _ => none
  | .produce i spurious => produce s i spurious
  | .consume => some (consume s)

end MpscThreads
end CrashCore
