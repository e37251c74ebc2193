import CrashCore.Concurrency.SpscQueue
import CrashCore.Library.Fifo
import CrashCore.Library.RingBuffer
import Mathlib.Data.List.Infix
import Mathlib.Logic.Function.Iterate

/-! The ring buffer of `concurrency/spsc_queue.hpp`, one access of a shared variable at a time, in sequentially
consistent memory. Positions are kept below the capacity, where `buf_[t]` and `buf_[t & mask_]` are the same cell. -/

namespace CrashCore

structure SpscCells (α : Type) where
  buf : RingBuffer α
  head : Nat := 0
  tail : Nat := 0

namespace SpscCells
variable {α : Type}

/-- A default-constructed or moved-from element is `default`. -/
def new [Inhabited α] (capacity : Nat) : SpscCells α where
  buf :=
    { cap := SpscQueue.grow capacity capacity 2
      isPow := SpscQueue.isPow_cap capacity
      cells := fun _ => default }

/-- `(i + 1) & mask_`. -/
def next (q : SpscCells α) (i : Nat) : Nat := q.buf.index (i + 1)

/-- What a call does after an access. -/
inductive After (σ ρ : Type)
  | goesOn (stage : σ)
  | returns (result : ρ)
deriving DecidableEq

/-- The next access of `try_push`. `t` is the tail that the call has loaded. -/
inductive Push
  | loadTail
  | loadHead (t : Nat)
  | write (t : Nat)
  | storeTail (t : Nat)
deriving DecidableEq

/-- Past the full check. -/
def Push.Past : Push → Prop
  | .write _ | .storeTail _ => True
  | .loadTail | .loadHead _ => False

instance : DecidablePred Push.Past
  | .write _ | .storeTail _ => inferInstanceAs (Decidable True)
  | .loadTail | .loadHead _ => inferInstanceAs (Decidable False)

def push (q : SpscCells α) (item : α) : Push → SpscCells α × After Push Bool
  | .loadTail => (q, .goesOn (.loadHead q.tail))
  | .loadHead t => if q.next t = q.head then (q, .returns false) else (q, .goesOn (.write t))
  | .write t => ({ q with buf := q.buf.set t item }, .goesOn (.storeTail t))
  | .storeTail t => ({ q with tail := q.next t }, .returns true)

/-- The next access of `try_pop`. `h` is the head that the call has loaded. -/
inductive Pop (α : Type)
  | loadHead
  | loadTail (h : Nat)
  | read (h : Nat)
  | storeHead (h : Nat) (item : α)

def pop [Inhabited α] (q : SpscCells α) : Pop α → SpscCells α × After (Pop α) (Option α)
  | .loadHead => (q, .goesOn (.loadTail q.head))
  | .loadTail h => if h = q.tail then (q, .returns none) else (q, .goesOn (.read h))
  | .read h => ({ q with buf := q.buf.set h default }, .goesOn (.storeHead h (q.buf.get h)))
  | .storeHead h item => ({ q with head := q.next h }, .returns (some item))

end SpscCells

/-- A queue with its one consumer, which is about to call `try_pop` or in such a call. -/
structure SpscChannel (α : Type) where
  cells : SpscCells α
  popper : SpscCells.Pop α := .loadHead
  /-- The items that calls of `try_pop` returned. -/
  popped : List α := []
  /-- The items of the tail stores. -/
  pushed : List α := []

namespace SpscChannel
open SpscCells

variable {α : Type}

abbrev cap (c : SpscChannel α) : Nat := c.cells.buf.cap

def new [Inhabited α] (capacity : Nat) : SpscChannel α := { cells := .new capacity }

def push (c : SpscChannel α) (item : α) (stage : Push) : SpscChannel α × After Push Bool :=
  match c.cells.push item stage with
  | (cells, .goesOn stage) => ({ c with cells }, .goesOn stage)
  | (cells, .returns ok) => ({ c with cells, pushed := if ok then c.pushed ++ [item] else c.pushed }, .returns ok)

def pop [Inhabited α] (c : SpscChannel α) : SpscChannel α :=
  match c.cells.pop c.popper with
  | (cells, .goesOn popper) => { c with cells, popper }
  | (cells, .returns item) => { c with cells, popper := .loadHead, popped := c.popped ++ item.toList }

/-- The cells from `first` to the tail. -/
def cellsFrom (c : SpscChannel α) (first : Nat) : List α :=
  (List.range ((c.cells.tail + c.cap - first) % c.cap)).map fun k => c.cells.buf.get (first + k)

/-- The queue as it lies in memory: the item that the consumer has moved out of the first cell, then the cells. -/
def contents (c : SpscChannel α) : List α :=
  match c.popper with
  | .storeHead h item => item :: c.cellsFrom (h + 1)
  | _ => c.cellsFrom c.cells.head

/-! ### What a channel holds when no push is overtaken -/

variable {c : SpscChannel α} {item : α} {stage : Push}

/-- The items that are popped or in the hands of the consumer. -/
def taken (c : SpscChannel α) : Nat :=
  match c.popper with
  | .storeHead .. => c.popped.length + 1
  | _ => c.popped.length

def PopInv (c : SpscChannel α) : Pop α → Prop
  | .loadHead => True
  | .loadTail h => h = c.cells.head
  | .read h => h = c.cells.head ∧ c.popped.length < c.pushed.length
  | .storeHead h item => h = c.cells.head ∧ c.pushed[c.popped.length]? = some item

structure Inv (c : SpscChannel α) : Prop where
  popped : c.popped <+: c.pushed
  room : c.pushed.length < c.popped.length + c.cap
  head : c.cells.head = c.popped.length % c.cap
  tail : c.cells.tail = c.pushed.length % c.cap
  stored : ∀ k, c.taken ≤ k → k < c.pushed.length → c.pushed[k]? = some (c.cells.buf.get k)
  popper : c.PopInv c.popper

/-- There is room behind the tail that the push has loaded. -/
def HasRoom (c : SpscChannel α) (t : Nat) : Prop :=
  t = c.cells.tail ∧ c.pushed.length + 1 < c.popped.length + c.cap

/-- What a push relies on past its full check. -/
def PushInv (c : SpscChannel α) (item : α) : Push → Prop
  | .loadTail | .loadHead _ => True
  | .write t => c.HasRoom t
  | .storeTail t => c.HasRoom t ∧ c.cells.buf.get c.pushed.length = item

theorem inv_new [Inhabited α] (capacity : Nat) : Inv (new capacity : SpscChannel α) where
  popped := List.prefix_refl _
  room := by
    have := (new capacity : SpscChannel α).cells.buf.cap_pos
    simpa [new] using this
  head := by simp [new, SpscCells.new]
  tail := by simp [new, SpscCells.new]
  stored k _ hk := absurd hk (by simp [new])
  popper := trivial

theorem length_popped_le_taken (c : SpscChannel α) : c.popped.length ≤ c.taken := by
  unfold taken
  split
  · exact Nat.le_succ _
  · exact Nat.le_refl _

theorem Inv.lt_of_found (h : c.Inv) (hne : c.cells.head ≠ c.cells.tail) : c.popped.length < c.pushed.length := by
  refine Nat.lt_of_le_of_ne h.popped.length_le fun heq => hne ?_
  rw [h.head, h.tail, heq]

theorem Inv.found_of_lt (h : c.Inv) (hlt : c.popped.length < c.pushed.length) : c.cells.head ≠ c.cells.tail := by
  have hnear : c.cells.buf.Near c.pushed.length c.popped.length := ⟨h.room, by omega⟩
  rw [h.head, h.tail]
  exact hnear.mod_ne (Nat.ne_of_lt hlt)

/-- The first cell holds the oldest item. -/
theorem Inv.get_head (h : c.Inv) (ht : c.taken = c.popped.length) (hlt : c.popped.length < c.pushed.length) :
    c.pushed[c.popped.length]? = some (c.cells.buf.get c.cells.head) := by
  rw [h.stored _ (Nat.le_of_eq ht) hlt, h.head, RingBuffer.get_mod]

/-! ### One access of the consumer -/

section
variable [Inhabited α]

/-- What an access of the consumer does, by what was its next access. -/
theorem pop_loadHead (hs : c.popper = .loadHead) : c.pop = { c with popper := .loadTail c.cells.head } := by
  simp [pop, SpscCells.pop, hs]

theorem pop_empty {h : Nat} (hs : c.popper = .loadTail h) (he : h = c.cells.tail) :
    c.pop = { c with popper := .loadHead } := by
  simp [pop, SpscCells.pop, hs, he]

theorem pop_found {h : Nat} (hs : c.popper = .loadTail h) (he : h ≠ c.cells.tail) :
    c.pop = { c with popper := .read h } := by
  simp [pop, SpscCells.pop, hs, he]

theorem pop_read {h : Nat} (hs : c.popper = .read h) :
    c.pop = { c with
      cells := { c.cells with buf := c.cells.buf.set h default }
      popper := .storeHead h (c.cells.buf.get h) } := by
  simp [pop, SpscCells.pop, hs]

theorem pop_storeHead {h : Nat} (hs : c.popper = .storeHead h item) :
    c.pop = { c with
      cells := { c.cells with head := c.cells.next h }, popper := .loadHead, popped := c.popped ++ [item] } := by
  simp [pop, SpscCells.pop, hs]

theorem Inv.pop (h : c.Inv) : c.pop.Inv := by
  have hp := h.popper
  rcases hs : c.popper with _ | hd | hd | ⟨hd, item⟩ <;> rw [hs] at hp
  case loadHead =>
    rw [pop_loadHead hs]
    exact { h with stored := by simpa [taken, hs] using h.stored, popper := rfl }
  case loadTail =>
    by_cases he : hd = c.cells.tail
    · rw [pop_empty hs he]
      exact { h with stored := by simpa [taken, hs] using h.stored, popper := trivial }
    · rw [pop_found hs he]
      exact { h with
        stored := by simpa [taken, hs] using h.stored
        popper := ⟨hp, h.lt_of_found (hp ▸ he)⟩ }
  case read =>
    obtain ⟨rfl, hlt⟩ := hp
    have htaken : c.taken = c.popped.length := by simp [taken, hs]
    rw [pop_read hs]
    refine { h with stored := fun k hk hlt' => ?_, popper := ⟨rfl, h.get_head htaken hlt⟩ }
    have hne : k ≠ c.popped.length := by
      simp only [taken] at hk
      omega
    have hnear : c.cells.buf.Near c.popped.length k := by
      have := h.room
      simp only [taken] at hk hlt'
      exact ⟨by omega, by dsimp only [cap] at this; omega⟩
    simp only [h.head, RingBuffer.set_mod, RingBuffer.get_set_of_near hnear hne]
    exact h.stored k (by simp only [taken] at hk; omega) hlt'
  case storeHead =>
    obtain ⟨rfl, hitem⟩ := hp
    obtain ⟨hlt, -⟩ := List.getElem?_eq_some_iff.mp hitem
    rw [pop_storeHead hs]
    exact
      { popped := List.prefix_iff_getElem?.mpr fun k hk => by
          simp only [List.length_append, List.length_singleton] at hk
          rcases Nat.lt_succ_iff_lt_or_eq.mp hk with hk' | rfl
          · rw [List.getElem_append_left hk']
            exact List.prefix_iff_getElem?.mp h.popped k hk'
          · simpa using hitem
        room := by
          simp only [List.length_append, List.length_singleton]
          exact h.room.trans_le (Nat.add_le_add_right (Nat.le_succ _) _)
        head := by simp [SpscCells.next, RingBuffer.index_eq, h.head]
        tail := h.tail
        stored := fun k hk => h.stored k (by simpa [taken, hs] using hk)
        popper := trivial }

/-- What a push past its full check relies on is not disturbed by the consumer. -/
theorem HasRoom.pop {t : Nat} (hr : c.HasRoom t) : c.pop.HasRoom t := by
  obtain ⟨rfl, hlt⟩ := hr
  rcases hs : c.popper with _ | hd | hd | ⟨hd, item⟩
  case loadHead => exact pop_loadHead hs ▸ ⟨rfl, hlt⟩
  case loadTail =>
    by_cases he : hd = c.cells.tail
    · exact pop_empty hs he ▸ ⟨rfl, hlt⟩
    · exact pop_found hs he ▸ ⟨rfl, hlt⟩
  case read => exact pop_read hs ▸ ⟨rfl, hlt⟩
  case storeHead =>
    rw [pop_storeHead hs]
    refine ⟨rfl, ?_⟩
    simp only [List.length_append, List.length_singleton]
    exact hlt.trans_le (Nat.add_le_add_right (Nat.le_succ _) _)

theorem pop_pushed : c.pop.pushed = c.pushed := by
  unfold pop
  split <;> rfl

/-- The consumer empties the first cell only. -/
theorem Inv.pop_get (h : c.Inv) (hlt : c.pushed.length < c.popped.length + c.cap) :
    c.pop.cells.buf.get c.pushed.length = c.cells.buf.get c.pushed.length := by
  have hp := h.popper
  rcases hs : c.popper with _ | hd | hd | ⟨hd, item⟩ <;> rw [hs] at hp
  case loadHead => rw [pop_loadHead hs]
  case loadTail =>
    by_cases he : hd = c.cells.tail
    · rw [pop_empty hs he]
    · rw [pop_found hs he]
  case read =>
    obtain ⟨rfl, hfound⟩ := hp
    rw [pop_read hs]
    simp only [h.head, RingBuffer.set_mod]
    exact RingBuffer.get_set_of_near ⟨by omega, by omega⟩ (Nat.ne_of_gt hfound)
  case storeHead => rw [pop_storeHead hs]

theorem PushInv.pop (h : c.Inv) (hp : c.PushInv item stage) : c.pop.PushInv item stage := by
  cases stage with
  | loadTail | loadHead t => trivial
  | write t => exact HasRoom.pop hp
  | storeTail t =>
    refine ⟨hp.1.pop, ?_⟩
    rw [pop_pushed, h.pop_get h.room]
    exact hp.2

end

/-! ### One access of a producer -/

/-- The access is a full check that finds room. -/
def Enters (c : SpscChannel α) : Push → Prop
  | .loadHead t => c.cells.next t ≠ c.cells.head
  | _ => False

/-- A push that gets past its full check has loaded the present tail. -/
def Fresh (c : SpscChannel α) : Push → Prop
  | .loadHead t => c.cells.next t ≠ c.cells.head → t = c.cells.tail
  | _ => True

instance (c : SpscChannel α) : DecidablePred c.Enters
  | .loadHead _ => inferInstanceAs (Decidable (_ ≠ _))
  | .loadTail | .write _ | .storeTail _ => inferInstanceAs (Decidable False)

instance (c : SpscChannel α) : DecidablePred c.Fresh
  | .loadHead _ => inferInstanceAs (Decidable (_ → _))
  | .loadTail | .write _ | .storeTail _ => inferInstanceAs (Decidable True)

theorem fresh_of_not_enters (h : ¬c.Enters stage) : c.Fresh stage := by
  cases stage with
  | loadHead t => exact fun hne => absurd hne h
  | loadTail | write t | storeTail t => trivial

theorem push_full {t : Nat} (hf : c.cells.next t = c.cells.head) : c.push item (.loadHead t) = (c, .returns false) := by
  simp [push, SpscCells.push, hf]

theorem push_room {t : Nat} (hf : c.cells.next t ≠ c.cells.head) :
    c.push item (.loadHead t) = (c, .goesOn (.write t)) := by
  simp [push, SpscCells.push, hf]

theorem push_write (t : Nat) :
    c.push item (.write t) = ({ c with cells := { c.cells with buf := c.cells.buf.set t item } }, .goesOn (.storeTail t)) := rfl

theorem push_storeTail (t : Nat) :
    c.push item (.storeTail t) =
      ({ c with cells := { c.cells with tail := c.cells.next t }, pushed := c.pushed ++ [item] }, .returns true) := rfl

/-- Up to its full check a push changes nothing. -/
theorem push_of_not_past (h : ¬stage.Past) : (c.push item stage).1 = c := by
  cases stage with
  | loadTail => rfl
  | loadHead t =>
    by_cases hf : c.cells.next t = c.cells.head
    · rw [push_full hf]
    · rw [push_room hf]
  | write t | storeTail t => exact absurd trivial h

theorem enters_or_past {stage' : Push} (hgo : (c.push item stage).2 = .goesOn stage') (hp : stage'.Past) :
    c.Enters stage ∨ stage.Past := by
  cases stage with
  | loadTail =>
    cases hgo
    exact hp.elim
  | loadHead t =>
    refine Or.inl fun hf => ?_
    rw [push_full hf] at hgo
    cases hgo
  | write t | storeTail t => exact Or.inr trivial

theorem push_pushed (c : SpscChannel α) (item : α) (stage : Push) :
    (c.push item stage).1.pushed = if (c.push item stage).2 = .returns true then c.pushed ++ [item] else c.pushed := by
  cases stage with
  | loadTail => rfl
  | loadHead t =>
    by_cases hf : c.cells.next t = c.cells.head
    · simp [push_full hf]
    · simp [push_room hf]
  | write t => rfl
  | storeTail t => simp [push_storeTail]

theorem Inv.hasRoom (h : c.Inv) {t : Nat} (ht : t = c.cells.tail) (hne : c.cells.next t ≠ c.cells.head) : c.HasRoom t := by
  refine ⟨ht, Nat.lt_of_le_of_ne h.room fun heq => hne ?_⟩
  rw [SpscCells.next, RingBuffer.index_eq, ht, h.tail, h.head, Nat.mod_add_mod, heq, Nat.add_mod_right]

/-- The cell behind the tail is not used by the queue. -/
theorem Inv.write (h : c.Inv) {t : Nat} (hroom : c.HasRoom t) :
    Inv { c with cells := { c.cells with buf := c.cells.buf.set t item } } := by
  obtain ⟨rfl, hlt⟩ := hroom
  refine { h with stored := fun k hk hlt' => ?_, popper := h.popper }
  have hle := length_popped_le_taken c
  have hnear : c.cells.buf.Near c.pushed.length k := ⟨by dsimp only [taken, cap] at *; omega, by dsimp only at hlt'; omega⟩
  simp only [h.tail, RingBuffer.set_mod, RingBuffer.get_set_of_near hnear (Nat.ne_of_lt hlt')]
  exact h.stored k hk hlt'

theorem PopInv.push {stage : Pop α} {cells : SpscCells α} (h : c.PopInv stage) (hhead : cells.head = c.cells.head) :
    PopInv { c with cells, pushed := c.pushed ++ [item] } stage := by
  cases stage with
  | loadHead => trivial
  | loadTail hd => exact h.trans hhead.symm
  | read hd => exact ⟨h.1.trans hhead.symm, h.2.trans_le (by simp)⟩
  | storeHead hd item' =>
    refine ⟨h.1.trans hhead.symm, ?_⟩
    obtain ⟨hlt, -⟩ := List.getElem?_eq_some_iff.mp h.2
    exact (List.getElem?_append_left hlt).trans h.2

theorem Inv.storeTail (h : c.Inv) {t : Nat} (hroom : c.HasRoom t) (hcell : c.cells.buf.get c.pushed.length = item) :
    Inv { c with cells := { c.cells with tail := c.cells.next t }, pushed := c.pushed ++ [item] } := by
  obtain ⟨rfl, hlt⟩ := hroom
  exact
    { popped := h.popped.trans (List.prefix_append ..)
      room := by simpa using hlt
      head := h.head
      tail := by simp [SpscCells.next, RingBuffer.index_eq, h.tail]
      stored := fun k hk hlt' => by
        simp only [List.length_append, List.length_singleton] at hlt'
        rcases Nat.lt_succ_iff_lt_or_eq.mp hlt' with hold | rfl
        · rw [List.getElem?_append_left hold]
          exact h.stored k hk hold
        · simp [hcell]
      popper := PopInv.push h.popper rfl }

/-- One access of a push that is not overtaken keeps the queue sound. -/
theorem Inv.push (h : c.Inv) (hp : c.PushInv item stage) (hf : c.Fresh stage) : (c.push item stage).1.Inv := by
  cases stage with
  | loadTail => exact h
  | loadHead t =>
    by_cases hfull : c.cells.next t = c.cells.head
    · rwa [push_full hfull]
    · rwa [push_room hfull]
  | write t => exact h.write hp
  | storeTail t => exact h.storeTail hp.1 hp.2

theorem PushInv.push {stage' : Push} (h : c.Inv) (hp : c.PushInv item stage) (hf : c.Fresh stage)
    (hgo : (c.push item stage).2 = .goesOn stage') : (c.push item stage).1.PushInv item stage' := by
  cases stage with
  | loadTail =>
    cases hgo
    trivial
  | loadHead t =>
    by_cases hfull : c.cells.next t = c.cells.head
    · rw [push_full hfull] at hgo
      cases hgo
    · rw [push_room hfull] at hgo ⊢
      cases hgo
      exact h.hasRoom (hf hfull) hfull
  | write t =>
    cases hgo
    refine ⟨hp, ?_⟩
    rw [push_write, hp.1, h.tail]
    simp
  | storeTail t => cases hgo

/-! ### The queue in memory -/

theorem Inv.taken_le (h : c.Inv) : c.taken ≤ c.pushed.length := by
  have hp := h.popper
  have hle := h.popped.length_le
  unfold taken
  rcases hs : c.popper with _ | _ | _ | ⟨hd, item⟩ <;> rw [hs] at hp <;> dsimp only
  case storeHead => exact (List.getElem?_eq_some_iff.mp hp.2).1
  all_goals exact hle

theorem Inv.cellsFrom_eq (h : c.Inv) {first : Nat} (hfirst : first % c.cap = c.taken % c.cap) (hle : first ≤ c.cap) :
    c.cellsFrom first = c.pushed.drop c.taken := by
  have hroom := h.room
  have hpopped := length_popped_le_taken c
  have hsize : (c.cells.tail + c.cap - first) % c.cap = c.pushed.length - c.taken :=
    RingBuffer.distance hfirst (by rw [h.tail, Nat.mod_mod]) h.taken_le (hroom.trans_le (Nat.add_le_add_right hpopped _)) hle
  refine List.ext_getElem (by simp [cellsFrom, hsize]) fun k hk hk' => ?_
  simp only [cellsFrom, hsize, List.getElem_map, List.getElem_range, List.getElem_drop]
  have hlt : c.taken + k < c.pushed.length := by
    simp only [List.length_drop] at hk'
    omega
  have hget := h.stored (c.taken + k) (Nat.le_add_right ..) hlt
  rw [List.getElem?_eq_getElem hlt] at hget
  rw [Option.some.inj hget]
  exact RingBuffer.get_congr (Nat.ModEq.add_right k hfirst)

theorem Inv.popped_append_contents (h : c.Inv) : c.popped ++ c.contents = c.pushed := by
  have hp := h.popper
  have hhead_lt : c.cells.head < c.cap := h.head ▸ Nat.mod_lt _ c.cells.buf.cap_pos
  have htake : c.popped = c.pushed.take c.popped.length := List.prefix_iff_eq_take.mp h.popped
  unfold contents
  rcases hs : c.popper with _ | hd | hd | ⟨hd, item⟩ <;> rw [hs] at hp <;> dsimp only
  case storeHead =>
    obtain ⟨rfl, hitem⟩ := hp
    have htaken : c.taken = c.popped.length + 1 := by simp [taken, hs]
    obtain ⟨hlt, hget⟩ := List.getElem?_eq_some_iff.mp hitem
    have hle : c.cells.head + 1 ≤ c.cap := hhead_lt
    rw [h.cellsFrom_eq (by rw [htaken, h.head, Nat.mod_add_mod]) hle, htaken, ← hget, ← List.drop_eq_getElem_cons hlt]
    nth_rewrite 1 [htake]
    exact List.take_append_drop ..
  all_goals
    have htaken : c.taken = c.popped.length := by simp [taken, hs]
    rw [h.cellsFrom_eq (by rw [htaken, h.head, Nat.mod_mod]) hhead_lt.le, htaken]
    nth_rewrite 1 [htake]
    exact List.take_append_drop ..

theorem Inv.iterate_pop [Inhabited α] (h : c.Inv) (n : Nat) :
    (SpscChannel.pop^[n] c).Inv ∧ (SpscChannel.pop^[n] c).pushed = c.pushed := by
  induction n with
  | zero => exact ⟨h, rfl⟩
  | succ n ih =>
    rw [Function.iterate_succ_apply']
    exact ⟨ih.1.pop, pop_pushed.trans ih.2⟩

/-- A call of `try_pop` that nobody gets in between returns the oldest item: four accesses. -/
theorem Inv.pop_call [Inhabited α] (h : c.Inv) (hs : c.popper = .loadHead) (hlt : c.popped.length < c.pushed.length) :
    (SpscChannel.pop^[4] c).popper = .loadHead ∧
    (SpscChannel.pop^[4] c).popped = c.popped ++ [c.cells.buf.get c.cells.head] := by
  have hfound : c.pop.pop = { c with popper := .read c.cells.head } := by
    rw [pop_loadHead hs]
    exact pop_found rfl (h.found_of_lt hlt)
  have hread : c.pop.pop.pop.popper = .storeHead c.cells.head (c.cells.buf.get c.cells.head) := by
    rw [hfound, pop_read rfl]
  have hkept : c.pop.pop.pop.popped = c.popped := by
    rw [hfound, pop_read rfl]
  have hcall : SpscChannel.pop^[4] c = c.pop.pop.pop.pop := rfl
  rw [hcall, pop_storeHead hread, hkept]
  exact ⟨rfl, rfl⟩

/-- When the main loop calls `try_pop` as often as there are items, it gets them all, in their order. -/
theorem Inv.drains [Inhabited α] (h : c.Inv) (hs : c.popper = .loadHead) :
    (SpscChannel.pop^[4 * c.contents.length] c).popped = c.popped ++ c.contents := by
  have hsplit := h.popped_append_contents
  induction hn : c.contents.length generalizing c with
  | zero => simpa using List.eq_nil_of_length_eq_zero hn
  | succ n ih =>
    have hlen := congrArg List.length hsplit
    rw [List.length_append] at hlen
    obtain ⟨hs₁, hpopped⟩ := h.pop_call hs (by omega)
    obtain ⟨h₁, hpushed⟩ := h.iterate_pop 4
    have hsplit₁ := h₁.popped_append_contents
    have hlen₁ := congrArg List.length hsplit₁
    rw [List.length_append, hpopped, hpushed, List.length_append, List.length_singleton] at hlen₁
    rw [Nat.mul_succ, Function.iterate_add_apply, ih h₁ hs₁ hsplit₁ (by omega), hsplit₁, hpushed, hsplit]

end SpscChannel

/-! ### One producer and one consumer

A failed call is settled by the access that finds the ring full or empty, any other by the store of the tail or the
head. -/

structure SpscThreads (α : Type) where
  channel : SpscChannel α
  /-- The call of `try_push` that the producer is in. -/
  pusher : Option (α × SpscCells.Push) := none
  /-- Bookkeeping: the calls that are settled, with their results. -/
  calls : List (Fifo.Event α) := []

namespace SpscThreads
open SpscCells Transition

variable {α : Type}

inductive Act (α : Type)
  /-- The producer calls `try_push`. -/
  | call (item : α)
  /-- The next access of the producer. -/
  | push
  /-- The next access of the consumer, who calls `try_pop` again and again. -/
  | pop

def initial [Inhabited α] (capacity : Nat) : SpscThreads α := { channel := .new capacity }

def push (s : SpscThreads α) : Option (SpscThreads α) :=
  match s.pusher with
  | none => none
  | some (item, stage) =>
    match s.channel.push item stage with
    | (channel, .goesOn stage) => some { s with channel, pusher := some (item, stage) }
    | (channel, .returns ok) => some { s with channel, pusher := none, calls := s.calls ++ [.push item ok] }

/-- The call of `try_pop` that the next access of the consumer settles. -/
def popCalls [Inhabited α] (c : SpscChannel α) : List (Fifo.Event α) :=
  match (c.cells.pop c.popper).2 with
  | .goesOn _ => []
  | .returns item => [.pop item]

def step [Inhabited α] (s : SpscThreads α) : Act α → Option (SpscThreads α)
  | .call item =>
    match s.pusher with
    | none => some { s with pusher := some (item, .loadTail) }
    | some _ => none
  | .push => s.push
  | .pop => some { s with channel := s.channel.pop, calls := s.calls ++ popCalls s.channel }

/-- What lies in memory, as a queue of one cell less. -/
def fifo (s : SpscThreads α) : Fifo α := { capacity := s.channel.cap - 1, items := s.channel.contents }

/-- The tail that the producer has loaded is still the tail, since nobody else stores it. -/
def Loaded (c : SpscChannel α) : Push → Prop
  | .loadHead t => t = c.cells.tail
  | _ => True

structure Inv (s : SpscThreads α) : Prop where
  channel : s.channel.Inv
  pusher : ∀ item stage, s.pusher = some (item, stage) → s.channel.PushInv item stage ∧ Loaded s.channel stage

theorem inv_initial [Inhabited α] (capacity : Nat) : Inv (initial capacity : SpscThreads α) where
  channel := SpscChannel.inv_new capacity
  pusher _ _ h := absurd h (Option.some_ne_none _).symm

theorem Loaded.fresh {c : SpscChannel α} {stage : Push} (h : Loaded c stage) : c.Fresh stage := by
  cases stage with
  | loadHead t => exact fun _ => h
  | loadTail | write t | storeTail t => trivial

theorem Loaded.push {c : SpscChannel α} {item : α} {stage stage' : Push}
    (hgo : (c.push item stage).2 = .goesOn stage') : Loaded (c.push item stage).1 stage' := by
  cases stage with
  | loadTail =>
    cases hgo
    rfl
  | loadHead t =>
    by_cases hfull : c.cells.next t = c.cells.head
    · rw [SpscChannel.push_full hfull] at hgo
      cases hgo
    · rw [SpscChannel.push_room hfull] at hgo
      cases hgo
      trivial
  | write t =>
    cases hgo
    trivial
  | storeTail t => cases hgo

/-! ### The contents -/

section
variable {c d : SpscChannel α} {item : α} {stage : Push} {rest : List α}

theorem contents_eq_drop (h : c.Inv) : c.contents = c.pushed.drop c.popped.length := by
  rw [← h.popped_append_contents, List.drop_left]

theorem contents_congr (h : c.Inv) (hd : d.Inv) (hpopped : d.popped = c.popped) (hpushed : d.pushed = c.pushed) :
    d.contents = c.contents := by
  rw [contents_eq_drop hd, contents_eq_drop h, hpopped, hpushed]

theorem length_contents (h : c.Inv) : c.popped.length + c.contents.length = c.pushed.length := by
  rw [← List.length_append, h.popped_append_contents]

theorem push_cap (c : SpscChannel α) (item : α) (stage : Push) : (c.push item stage).1.cap = c.cap := by
  cases stage with
  | loadTail | write t | storeTail t => rfl
  | loadHead t => rw [SpscChannel.push_of_not_past id]

theorem push_popped (c : SpscChannel α) (item : α) (stage : Push) : (c.push item stage).1.popped = c.popped := by
  cases stage with
  | loadTail | write t | storeTail t => rfl
  | loadHead t => rw [SpscChannel.push_of_not_past id]

/-- A push that does not return leaves the queue as it is. -/
theorem contents_push_goesOn {stage' : Push} (h : c.Inv) (hp : c.PushInv item stage) (hl : Loaded c stage)
    (hgo : (c.push item stage).2 = .goesOn stage') : (c.push item stage).1.contents = c.contents := by
  refine contents_congr h (h.push hp hl.fresh) (push_popped c item stage) ?_
  rw [SpscChannel.push_pushed, if_neg (by rw [hgo]; exact fun h => by cases h)]

/-- The access that makes a push return is a step of the queue. -/
theorem step_of_push_returns {ok : Bool} (h : c.Inv) (hp : c.PushInv item stage) (hl : Loaded c stage)
    (hret : (c.push item stage).2 = .returns ok) :
    Fifo.Step { capacity := c.cap - 1, items := c.contents } (.push item ok)
      { capacity := c.cap - 1, items := (c.push item stage).1.contents } := by
  have hinv := h.push hp hl.fresh
  cases stage with
  | loadTail | write t => cases hret
  | loadHead t =>
    by_cases hfull : c.cells.next t = c.cells.head
    · have hlen := length_contents h
      have hround : c.pushed.length + 1 = c.popped.length + c.cap := by
        by_contra hne
        have hnear : c.cells.buf.Near c.popped.length (c.pushed.length + 1) := by
          have hroom := h.room
          exact ⟨by omega, by dsimp only [SpscChannel.cap] at *; omega⟩
        refine hnear.mod_ne (by omega) ?_
        rw [← h.head, ← hfull, hl, SpscCells.next, RingBuffer.index_eq, h.tail, Nat.mod_add_mod]
      rw [SpscChannel.push_full hfull] at hret ⊢
      cases hret
      exact .refuse (.inr (by dsimp only; omega))
    · rw [SpscChannel.push_room hfull] at hret
      cases hret
  | storeTail t =>
    cases hret
    have hroom := hp.1.2
    have hlen := length_contents h
    have hpushed : (c.push item (.storeTail t)).1.contents = c.contents ++ [item] := by
      have hsplit := hinv.popped_append_contents
      rw [push_popped, SpscChannel.push_storeTail] at hsplit
      rw [← h.popped_append_contents, List.append_assoc] at hsplit
      exact List.append_cancel_left hsplit
    rw [hpushed]
    exact .accept rfl (by dsimp only; omega)

variable [Inhabited α]

theorem pop_cap (c : SpscChannel α) : c.pop.cap = c.cap := by
  rcases hs : c.popper with _ | hd | hd | ⟨hd, item⟩
  case loadHead => rw [SpscChannel.pop_loadHead hs]
  case loadTail =>
    by_cases he : hd = c.cells.tail
    · rw [SpscChannel.pop_empty hs he]
    · rw [SpscChannel.pop_found hs he]
  case read =>
    rw [SpscChannel.pop_read hs]
    rfl
  case storeHead => rw [SpscChannel.pop_storeHead hs]

theorem pop_tail (c : SpscChannel α) : c.pop.cells.tail = c.cells.tail := by
  unfold SpscChannel.pop SpscCells.pop
  rcases c.popper with _ | hd | hd | ⟨hd, item⟩
  case loadTail => by_cases he : hd = c.cells.tail <;> simp [he]
  all_goals rfl

theorem Loaded.pop (h : Loaded c stage) : Loaded c.pop stage := by
  cases stage with
  | loadHead t => exact h.trans (pop_tail c).symm
  | loadTail | write t | storeTail t => trivial

/-- An access of the consumer leaves the queue as it is, finds it empty, or takes its first item. -/
theorem pop_cases (h : c.Inv) :
    (popCalls c = [] ∧ c.pop.contents = c.contents) ∨
    ∃ r, popCalls c = [.pop r] ∧
      Fifo.Step { capacity := c.cap - 1, items := c.contents } (.pop r)
        { capacity := c.cap - 1, items := c.pop.contents } := by
  have hp := h.popper
  rcases hs : c.popper with _ | hd | hd | ⟨hd, item⟩ <;> rw [hs] at hp
  case loadHead =>
    refine .inl ⟨by rw [popCalls, hs]; rfl, contents_congr h h.pop ?_ SpscChannel.pop_pushed⟩
    rw [SpscChannel.pop_loadHead hs]
  case loadTail =>
    by_cases he : hd = c.cells.tail
    · have hsame : c.pop.contents = c.contents := by
        refine contents_congr h h.pop ?_ SpscChannel.pop_pushed
        rw [SpscChannel.pop_empty hs he]
      have hempty : c.contents = [] := by
        by_contra hne
        have hlen := length_contents h
        have hpos := List.length_pos_of_ne_nil hne
        exact h.found_of_lt (by omega) (hp.symm.trans he)
      refine .inr ⟨none, ?_, ?_⟩
      · rw [popCalls, hs, SpscCells.pop, if_pos he]
      · rw [hsame]
        exact .empty hempty
    · refine .inl ⟨?_, contents_congr h h.pop ?_ SpscChannel.pop_pushed⟩
      · rw [popCalls, hs, SpscCells.pop, if_neg he]
      · rw [SpscChannel.pop_found hs he]
  case read =>
    refine .inl ⟨by rw [popCalls, hs]; rfl, contents_congr h h.pop ?_ SpscChannel.pop_pushed⟩
    rw [SpscChannel.pop_read hs]
  case storeHead =>
    have hsplit := h.pop.popped_append_contents
    have hpopped : c.pop.popped = c.popped ++ [item] := by rw [SpscChannel.pop_storeHead hs]
    rw [hpopped, SpscChannel.pop_pushed, ← h.popped_append_contents, List.append_assoc] at hsplit
    exact .inr ⟨some item, by rw [popCalls, hs]; rfl, .pop (List.append_cancel_left hsplit).symm⟩

end

/-! ### Steps -/

section
variable [Inhabited α] {s t : SpscThreads α} {a : Act α}

/-- What a step does: it begins a call, or it is an access of one of the two threads. -/
theorem step_cases (hs : step s a = some t) :
    (∃ item, s.pusher = none ∧ t = { s with pusher := some (item, .loadTail) }) ∨
    (∃ item stage stage', s.pusher = some (item, stage) ∧ (s.channel.push item stage).2 = .goesOn stage' ∧
      t = { s with channel := (s.channel.push item stage).1, pusher := some (item, stage') }) ∨
    (∃ item stage ok, s.pusher = some (item, stage) ∧ (s.channel.push item stage).2 = .returns ok ∧
      t = { s with
        channel := (s.channel.push item stage).1, pusher := none, calls := s.calls ++ [.push item ok] }) ∨
    t = { s with channel := s.channel.pop, calls := s.calls ++ popCalls s.channel } := by
  cases a with
  | call item =>
    rcases hp : s.pusher with _ | _ <;> simp only [step, hp] at hs <;> cases hs
    exact .inl ⟨item, rfl, rfl⟩
  | push =>
    rcases hp : s.pusher with _ | ⟨item, stage⟩
    · simp only [step, push, hp] at hs
      cases hs
    · rcases hc : s.channel.push item stage with ⟨channel, stage' | ok⟩ <;> simp only [step, push, hp, hc] at hs <;>
        cases hs
      · exact .inr (.inl ⟨item, stage, stage', rfl, by rw [hc], by rw [hc]⟩)
      · exact .inr (.inr (.inl ⟨item, stage, ok, rfl, by rw [hc], by rw [hc]⟩))
  | pop =>
    cases hs
    exact .inr (.inr (.inr rfl))

theorem Inv.step (h : Inv s) (hs : step s a = some t) : Inv t := by
  obtain ⟨item, hp, rfl⟩ | ⟨item, stage, stage', hp, hgo, rfl⟩ | ⟨item, stage, ok, hp, hret, rfl⟩ | rfl := step_cases hs
  · refine ⟨h.channel, fun item' stage' hp' => ?_⟩
    cases hp'
    exact ⟨trivial, trivial⟩
  · obtain ⟨hpush, hloaded⟩ := h.pusher item stage hp
    refine ⟨h.channel.push hpush hloaded.fresh, fun item' stage' hp' => ?_⟩
    cases hp'
    exact ⟨hpush.push h.channel hloaded.fresh hgo, Loaded.push hgo⟩
  · obtain ⟨hpush, hloaded⟩ := h.pusher item stage hp
    exact ⟨h.channel.push hpush hloaded.fresh, fun item' stage' hp' => by cases hp'⟩
  · refine ⟨h.channel.pop, fun item stage hp => ?_⟩
    obtain ⟨hpush, hloaded⟩ := h.pusher item stage hp
    exact ⟨hpush.pop h.channel, hloaded.pop⟩

/-- A step leaves the queue as it is, or is one call of it. -/
theorem step_fifo (h : Inv s) (hs : SpscThreads.step s a = some t) :
    (t.calls = s.calls ∧ t.fifo = s.fifo) ∨ ∃ e, t.calls = s.calls ++ [e] ∧ Fifo.Step s.fifo e t.fifo := by
  obtain ⟨item, hp, rfl⟩ | ⟨item, stage, stage', hp, hgo, rfl⟩ | ⟨item, stage, ok, hp, hret, rfl⟩ | rfl := step_cases hs
  · exact .inl ⟨rfl, rfl⟩
  · obtain ⟨hpush, hloaded⟩ := h.pusher item stage hp
    refine .inl ⟨rfl, ?_⟩
    rw [fifo, fifo, push_cap, contents_push_goesOn h.channel hpush hloaded hgo]
  · obtain ⟨hpush, hloaded⟩ := h.pusher item stage hp
    refine .inr ⟨_, rfl, ?_⟩
    rw [fifo, fifo, push_cap]
    exact step_of_push_returns h.channel hpush hloaded hret
  · rw [fifo, fifo, pop_cap]
    rcases pop_cases h.channel with ⟨hnone, hsame⟩ | ⟨r, hone, hstep⟩
    · exact .inl ⟨by rw [hnone, List.append_nil], by rw [hsame]⟩
    · exact .inr ⟨_, by rw [hone], hstep⟩

end

end SpscThreads
end CrashCore
