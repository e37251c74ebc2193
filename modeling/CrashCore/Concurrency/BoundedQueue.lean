import CrashCore.Library.Fifo
import CrashCore.Library.RingBuffer
import Mathlib.Data.List.Basic

/-! The bounded queue with backpressure (`concurrency/bounded_queue.hpp`), as the list of its elements from
head to tail, and with its buffer and indices and its calls by any number of threads. A call holds the mutex up to the
end of its wait and from there to its return, so it is one step: the one with which it ends. A blocking `pop` that
times out is a `tryPop` that finds nothing. -/

namespace CrashCore

structure BoundedQueue (α : Type) where
  cap : Nat
  items : List α := []
  closed : Bool := false
  pushes : Nat := 0
  pops : Nat := 0
  cap_pos : 0 < cap
  length_le : items.length ≤ cap

namespace BoundedQueue
variable {α : Type} {q : BoundedQueue α} {x : α}

/-- `cap_(capacity < 1 ? 1 : capacity)`. -/
def new (capacity : Nat) : BoundedQueue α where
  cap := if capacity < 1 then 1 else capacity
  cap_pos := by split <;> omega
  length_le := by simp

def size (q : BoundedQueue α) : Nat := q.items.length

/-- `try_push`, with no result when the queue refuses the element. -/
def tryPush (q : BoundedQueue α) (x : α) : Option (BoundedQueue α) :=
  if h : q.closed = true ∨ q.cap ≤ q.size then none
  else some { q with
    items := q.items ++ [x]
    pushes := q.pushes + 1
    length_le := by
      have : ¬q.cap ≤ q.items.length := fun hc => h (.inr hc)
      simp
      omega }

theorem length_tail_le {rest : List α} (q : BoundedQueue α) (h : q.items = x :: rest) : rest.length ≤ q.cap := by
  have hlen := q.length_le
  rw [h, List.length_cons] at hlen
  omega

/-- `try_pop`, and `pop` when its wait ends. -/
def tryPop (q : BoundedQueue α) : Option (α × BoundedQueue α) :=
  match h : q.items with
  | [] => none
  | x :: rest => some (x, { q with items := rest, pops := q.pops + 1, length_le := q.length_tail_le h })

def close (q : BoundedQueue α) : BoundedQueue α := { q with closed := true }

theorem tryPush_eq_none : q.tryPush x = none ↔ q.closed = true ∨ q.cap ≤ q.size := by
  unfold tryPush
  split <;> simp_all

theorem tryPush_eq_some {q' : BoundedQueue α} (h : q.tryPush x = some q') :
    q.closed = false ∧ q.size < q.cap ∧ q'.items = q.items ++ [x] ∧ q'.cap = q.cap ∧ q'.closed = q.closed := by
  unfold tryPush at h
  split at h
  · cases h
  · rename_i hn
    rw [not_or, Bool.not_eq_true, Nat.not_le] at hn
    cases h
    exact ⟨hn.1, hn.2, rfl, rfl, rfl⟩

theorem tryPop_eq_some {q' : BoundedQueue α} (h : q.tryPop = some (x, q')) :
    q.items = x :: q'.items ∧ q'.cap = q.cap ∧ q'.closed = q.closed := by
  unfold tryPop at h
  split at h
  · cases h
  · rename_i y rest hitems
    cases h
    exact ⟨hitems, rfl, rfl⟩

/-- The first element is taken, and nothing else changes but the count. -/
theorem exists_tryPop {rest : List α} (h : q.items = x :: rest) :
    ∃ q', q.tryPop = some (x, q') ∧ q'.items = rest ∧ q'.cap = q.cap ∧ q'.closed = q.closed ∧ q'.pushes = q.pushes ∧
      q'.pops = q.pops + 1 := by
  unfold tryPop
  split
  · rename_i hnil
    rw [hnil] at h
    cases h
  · rename_i y rest' hitems
    obtain ⟨rfl, rfl⟩ := List.cons.inj (hitems.symm.trans h)
    exact ⟨_, rfl, rfl, rfl, rfl, rfl, rfl⟩

theorem tryPop_eq_none : q.tryPop = none ↔ q.items = [] := by
  unfold tryPop
  split <;> simp_all

end BoundedQueue

/-! ### Buffer and indices -/

structure BoundedCells (α : Type) where
  cap : Nat
  buf : Nat → α
  head : Nat := 0
  tail : Nat := 0
  size : Nat := 0
  closed : Bool := false
  pushes : Nat := 0
  pops : Nat := 0

namespace BoundedCells
variable {α : Type} {q q' : BoundedCells α} {l l' : BoundedQueue α} {x : α}

/-- A default-constructed or moved-from element is `default`. -/
def new [Inhabited α] (capacity : Nat) : BoundedCells α where
  cap := if capacity < 1 then 1 else capacity
  buf _ := default

def put (q : BoundedCells α) (x : α) : BoundedCells α :=
  { q with
    buf := Function.update q.buf q.tail x, tail := (q.tail + 1) % q.cap, size := q.size + 1, pushes := q.pushes + 1 }

def take [Inhabited α] (q : BoundedCells α) : BoundedCells α :=
  { q with
    buf := Function.update q.buf q.head default, head := (q.head + 1) % q.cap, size := q.size - 1, pops := q.pops + 1 }

def tryPush (q : BoundedCells α) (x : α) : BoundedCells α × Bool :=
  if q.closed ∨ q.cap ≤ q.size then (q, false) else (q.put x, true)

/-- What `cv_push_` waits for. -/
def MayPush (q : BoundedCells α) : Prop := q.closed = true ∨ q.size < q.cap

instance : Decidable q.MayPush := inferInstanceAs (Decidable (_ ∨ _))

/-- The end of `push`. Without a timeout there is none as long as the queue is full. -/
def push (q : BoundedCells α) (x : α) (timeout : Int) : Option (BoundedCells α × Bool) :=
  if ¬q.MayPush then
    if timeout ≤ 0 then none else some (q, false)
  else if q.closed then some (q, false)
  else some (q.put x, true)

def tryPop [Inhabited α] (q : BoundedCells α) : BoundedCells α × Option α :=
  if q.size = 0 then (q, none) else (q.take, some (q.buf q.head))

/-- The end of `pop`, whose wait has found something or run out of time. -/
def pop [Inhabited α] (q : BoundedCells α) : BoundedCells α × Option α :=
  if ¬(q.closed ∨ 0 < q.size) then (q, none)
  else if q.size = 0 then (q, none)
  else (q.take, some (q.buf q.head))

def close (q : BoundedCells α) : BoundedCells α := { q with closed := true }

/-- A `pop` that has waited long enough does what `try_pop` does. -/
theorem pop_eq_tryPop [Inhabited α] (q : BoundedCells α) : q.pop = q.tryPop := by
  unfold pop tryPop
  split
  · rename_i h
    rw [not_or, Nat.not_lt, Nat.le_zero] at h
    rw [if_pos h.2]
  · rfl

/-! ### The elements in the buffer -/

/-- From head to tail. -/
def contents (q : BoundedCells α) : List α := RingWindow.window q.cap q.buf q.head q.size

@[simp] theorem length_contents (q : BoundedCells α) : q.contents.length = q.size := RingWindow.length_window

/-- The indices agree with each other. -/
structure Sound (q : BoundedCells α) : Prop where
  cap_pos : 0 < q.cap
  size_le : q.size ≤ q.cap
  head_lt : q.head < q.cap
  tail : q.tail = (q.head + q.size) % q.cap

theorem sound_new [Inhabited α] (capacity : Nat) : Sound (new capacity : BoundedCells α) := by
  have hpos : 0 < (new capacity : BoundedCells α).cap := by
    dsimp only [new]
    split <;> omega
  exact ⟨hpos, Nat.zero_le _, hpos, (Nat.zero_mod _).symm⟩

theorem Sound.put (h : q.Sound) (hroom : q.size < q.cap) (x : α) : (q.put x).Sound where
  cap_pos := h.cap_pos
  size_le := hroom
  head_lt := h.head_lt
  tail := by
    dsimp only [BoundedCells.put]
    rw [h.tail, Nat.mod_add_mod, Nat.add_assoc]

theorem Sound.contents_put (h : q.Sound) (hroom : q.size < q.cap) (x : α) : (q.put x).contents = q.contents ++ [x] :=
  RingWindow.window_update_last hroom h.tail

section
variable [Inhabited α]

theorem Sound.take (h : q.Sound) (hsize : q.size ≠ 0) : q.take.Sound where
  cap_pos := h.cap_pos
  size_le := Nat.le_trans (Nat.sub_le ..) h.size_le
  head_lt := Nat.mod_lt _ h.cap_pos
  tail := by
    dsimp only [BoundedCells.take]
    rw [h.tail, Nat.mod_add_mod]
    congr 1
    omega

theorem Sound.contents_take (h : q.Sound) (hsize : q.size ≠ 0) : q.contents = q.buf q.head :: q.take.contents := by
  obtain ⟨n, hn⟩ := Nat.exists_eq_succ_of_ne_zero hsize
  have hlt : n < q.cap := by
    have := h.size_le
    omega
  rw [contents, hn, RingWindow.window_succ h.head_lt, ← RingWindow.window_update_first h.head_lt hlt, contents]
  dsimp only [BoundedCells.take]
  rw [hn, Nat.succ_sub_one]

end

/-! ### The queue as a list -/

/-- The buffer holds the elements of the list model. -/
structure Represents (q : BoundedCells α) (l : BoundedQueue α) : Prop where
  sound : q.Sound
  cap : q.cap = l.cap
  items : q.contents = l.items
  closed : q.closed = l.closed
  pushes : q.pushes = l.pushes
  pops : q.pops = l.pops

theorem represents_new [Inhabited α] (capacity : Nat) : Represents (new capacity : BoundedCells α) (.new capacity) :=
  ⟨sound_new capacity, rfl, rfl, rfl, rfl, rfl⟩

theorem Represents.size_eq (h : q.Represents l) : q.size = l.size := by
  rw [BoundedQueue.size, ← h.items, length_contents]

/-- `try_push` does what it does to the list. -/
theorem Represents.tryPush (h : q.Represents l) (x : α) :
    (l.tryPush x = none ∧ q.tryPush x = (q, false)) ∨
    ∃ l', l.tryPush x = some l' ∧ q.tryPush x = (q.put x, true) ∧ (q.put x).Represents l' := by
  have hcond : (q.closed = true ∨ q.cap ≤ q.size) ↔ (l.closed = true ∨ l.cap ≤ l.size) := by
    rw [h.closed, h.cap, h.size_eq]
  unfold BoundedCells.tryPush BoundedQueue.tryPush
  by_cases hrefuse : l.closed = true ∨ l.cap ≤ l.size
  · rw [if_pos (hcond.mpr hrefuse), dif_pos hrefuse]
    exact .inl ⟨rfl, rfl⟩
  · rw [if_neg fun hc => hrefuse (hcond.mp hc), dif_neg hrefuse]
    have hroom : q.size < q.cap := by
      rw [h.size_eq, h.cap]
      exact Nat.lt_of_not_le fun hle => hrefuse (.inr hle)
    refine .inr ⟨_, rfl, rfl, h.sound.put hroom x, h.cap, ?_, h.closed, congrArg (· + 1) h.pushes, h.pops⟩
    rw [h.sound.contents_put hroom, h.items]

/-- A `push` that ends does what `try_push` does. -/
theorem push_eq_tryPush (q : BoundedCells α) (x : α) (timeout : Int) :
    q.push x timeout = if ¬q.MayPush ∧ timeout ≤ 0 then none else some (q.tryPush x) := by
  unfold push BoundedCells.tryPush
  by_cases hmay : q.MayPush
  · have hends : ¬(¬q.MayPush ∧ timeout ≤ 0) := fun h => h.1 hmay
    rw [if_neg (not_not_intro hmay), if_neg hends]
    by_cases hclosed : q.closed = true
    · rw [if_pos hclosed, if_pos (.inl hclosed)]
    · have hroom : q.size < q.cap := hmay.resolve_left hclosed
      rw [if_neg hclosed, if_neg (not_or.mpr ⟨hclosed, Nat.not_le.mpr hroom⟩)]
  · have hfull : q.closed = true ∨ q.cap ≤ q.size := .inr (Nat.le_of_not_lt fun hlt => hmay (.inr hlt))
    rw [if_pos hmay, if_pos hfull]
    by_cases htimeout : timeout ≤ 0
    · rw [if_pos htimeout, if_pos ⟨hmay, htimeout⟩]
    · rw [if_neg htimeout, if_neg fun h => htimeout h.2]

theorem Represents.tryPop [Inhabited α] (h : q.Represents l) :
    (l.tryPop = none ∧ q.tryPop = (q, none)) ∨
    ∃ l', l.tryPop = some (q.buf q.head, l') ∧ q.tryPop = (q.take, some (q.buf q.head)) ∧ q.take.Represents l' := by
  unfold BoundedCells.tryPop
  by_cases hsize : q.size = 0
  · have hitems : l.items = [] := List.eq_nil_of_length_eq_zero (h.size_eq.symm.trans hsize)
    rw [if_pos hsize]
    exact .inl ⟨BoundedQueue.tryPop_eq_none.mpr hitems, rfl⟩
  · have hitems : l.items = q.buf q.head :: q.take.contents := h.items.symm.trans (h.sound.contents_take hsize)
    rw [if_neg hsize]
    obtain ⟨l', hpop, hrest, hcap, hclosed, hpushes, hpops⟩ := BoundedQueue.exists_tryPop hitems
    refine .inr ⟨l', hpop, rfl, h.sound.take hsize, h.cap.trans hcap.symm, hrest.symm, h.closed.trans hclosed.symm,
      h.pushes.trans hpushes.symm, ?_⟩
    rw [hpops, ← h.pops]
    rfl

theorem Represents.close (h : q.Represents l) : q.close.Represents l.close :=
  ⟨⟨h.sound.cap_pos, h.sound.size_le, h.sound.head_lt, h.sound.tail⟩, h.cap, h.items, rfl, h.pushes, h.pops⟩

end BoundedCells

/-! ### Calls -/

/-- A queue with the calls of all threads, in the order of their ends. -/
structure BoundedCalls (α : Type) where
  queue : BoundedCells α
  calls : List (Fifo.Event α) := []

namespace BoundedCalls
variable {α : Type}

inductive Act (α : Type)
  | tryPush (item : α)
  | push (item : α) (timeout : Int)
  | tryPop
  | pop
  | close

def initial [Inhabited α] (capacity : Nat) : BoundedCalls α := { queue := .new capacity }

def pushed (s : BoundedCalls α) (item : α) (r : BoundedCells α × Bool) : BoundedCalls α :=
  { queue := r.1, calls := s.calls ++ [.push item r.2] }

def popped (s : BoundedCalls α) (r : BoundedCells α × Option α) : BoundedCalls α :=
  { queue := r.1, calls := s.calls ++ [.pop r.2] }

def step [Inhabited α] (s : BoundedCalls α) : Act α → Option (BoundedCalls α)
  | .tryPush item => some (s.pushed item (s.queue.tryPush item))
  | .push item timeout => (s.queue.push item timeout).map (s.pushed item)
  | .tryPop => some (s.popped s.queue.tryPop)
  | .pop => some (s.popped s.queue.pop)
  | .close => some { queue := s.queue.close, calls := s.calls ++ [.close] }

def fifo (s : BoundedCalls α) : Fifo α :=
  { capacity := s.queue.cap, items := s.queue.contents, closed := s.queue.closed }

end BoundedCalls
end CrashCore
