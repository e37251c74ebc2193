import CrashCore.Concurrency.BoundedQueue
import CrashCore.Concurrency.SpscAccesses
import CrashCore.Concurrency.SpscQueue

/-! The two ring buffers behave as bounded first-in first-out queues: the one between two threads, which keeps a cell
free, and the one with a mutex, which counts its elements. -/

namespace CrashCore
open Transition

variable {α : Type}

/-! ### The queue of two threads -/

namespace SpscThreads

/-- The settled calls, with their results, are those of a queue with room for `room` items, and what this queue holds
    lies in memory. The items come out once each, in order. -/
structure RefinesFifo (room : Nat) (s : SpscThreads α) : Prop where
  runs : Fifo.Runs { capacity := room } s.calls s.fifo
  inOrder : Fifo.accepted s.calls = Fifo.delivered s.calls ++ s.channel.contents

theorem along_refinesFifo [Inhabited α] (capacity : Nat) (as : List (Act α)) :
    Along step (RefinesFifo (SpscQueue.grow capacity capacity 2 - 1)) (initial capacity) as := by
  refine Along.mono ?_ (Fifo.along_runs calls fifo (inv_initial capacity) rfl (fun _ _ _ h hs => h.step hs)
    (fun _ _ _ h hs => step_fifo h hs) as)
  intro s ⟨_, hruns⟩
  have hempty : (initial capacity : SpscThreads α).fifo = { capacity := SpscQueue.grow capacity capacity 2 - 1 } := by
    have hnil : (initial capacity : SpscThreads α).channel.contents = [] :=
      (contents_eq_drop (SpscChannel.inv_new capacity)).trans rfl
    rw [fifo, hnil]
    rfl
  rw [hempty] at hruns
  exact ⟨hruns, hruns.accepted_eq⟩

end SpscThreads

/-! ### The queue with a mutex -/

/-- The list model as a queue. -/
def BoundedQueue.fifo (l : BoundedQueue α) : Fifo α := { capacity := l.cap, items := l.items, closed := l.closed }

namespace BoundedQueue
variable {l l' : BoundedQueue α} {x : α}

theorem step_tryPush (h : l.tryPush x = some l') : Fifo.Step l.fifo (.push x true) l'.fifo := by
  obtain ⟨hopen, hroom, hitems, hcap, hclosed⟩ := tryPush_eq_some h
  have hl' : l'.fifo = { l.fifo with items := l.items ++ [x] } := by rw [fifo, hitems, hcap, hclosed]; rfl
  rw [hl']
  exact .accept hopen hroom

theorem step_tryPush_none (h : l.tryPush x = none) : Fifo.Step l.fifo (.push x false) l.fifo :=
  .refuse ((tryPush_eq_none.mp h).imp_right fun hfull => Nat.le_antisymm l.length_le hfull)

theorem step_tryPop (h : l.tryPop = some (x, l')) : Fifo.Step l.fifo (.pop (some x)) l'.fifo := by
  obtain ⟨hitems, hcap, hclosed⟩ := tryPop_eq_some h
  have hl' : l'.fifo = { l.fifo with items := l'.items } := by rw [fifo, hcap, hclosed]; rfl
  rw [hl']
  exact .pop hitems

theorem step_tryPop_none (h : l.tryPop = none) : Fifo.Step l.fifo (.pop none) l.fifo := .empty (tryPop_eq_none.mp h)

end BoundedQueue

namespace BoundedCalls
variable {s t : BoundedCalls α} {a : Act α} {l : BoundedQueue α}

/-- The same as for two threads. Besides, nothing is taken after `close`, and what was taken before can still be
    popped. -/
structure RefinesFifo [Inhabited α] (room : Nat) (s : BoundedCalls α) : Prop where
  runs : Fifo.Runs { capacity := room } s.calls s.fifo
  inOrder : Fifo.accepted s.calls = Fifo.delivered s.calls ++ s.queue.contents
  afterClose : ∀ before after, s.calls = before ++ .close :: after → Fifo.accepted after = []
  poppable : (run step s (List.replicate s.queue.size .tryPop)).map calls =
    some (s.calls ++ s.queue.contents.map fun x => .pop (some x))

theorem fifo_eq (h : s.queue.Represents l) : s.fifo = l.fifo := by
  rw [fifo, BoundedQueue.fifo, h.cap, h.items, h.closed]

theorem pushed_tryPush (h : s.queue.Represents l) (x : α) :
    ∃ l' ok, (s.pushed x (s.queue.tryPush x)).queue.Represents l' ∧
      (s.pushed x (s.queue.tryPush x)).calls = s.calls ++ [.push x ok] ∧ Fifo.Step l.fifo (.push x ok) l'.fifo := by
  rcases h.tryPush x with ⟨hnone, hfalse⟩ | ⟨l', hsome, htrue, hl'⟩
  · rw [hfalse]
    exact ⟨l, false, h, rfl, BoundedQueue.step_tryPush_none hnone⟩
  · rw [htrue]
    exact ⟨l', true, hl', rfl, BoundedQueue.step_tryPush hsome⟩

theorem popped_tryPop [Inhabited α] (h : s.queue.Represents l) :
    ∃ l' r, (s.popped s.queue.tryPop).queue.Represents l' ∧ (s.popped s.queue.tryPop).calls = s.calls ++ [.pop r] ∧
      Fifo.Step l.fifo (.pop r) l'.fifo := by
  rcases h.tryPop with ⟨hnone, hq⟩ | ⟨l', hsome, hq, hl'⟩
  · rw [hq]
    exact ⟨l, none, h, rfl, BoundedQueue.step_tryPop_none hnone⟩
  · rw [hq]
    exact ⟨l', some (s.queue.buf s.queue.head), hl', rfl, BoundedQueue.step_tryPop hsome⟩

/-- Each call that ends is one of the queue. -/
theorem step_represents [Inhabited α] (h : s.queue.Represents l) (hs : step s a = some t) :
    ∃ l' e, t.queue.Represents l' ∧ t.calls = s.calls ++ [e] ∧ Fifo.Step l.fifo e l'.fifo := by
  cases a with
  | tryPush x =>
    cases hs
    obtain ⟨l', ok, hl', hcalls, hstep⟩ := pushed_tryPush h x
    exact ⟨l', _, hl', hcalls, hstep⟩
  | push x timeout =>
    obtain ⟨r, hr, rfl⟩ := Option.map_eq_some_iff.mp hs
    rw [BoundedCells.push_eq_tryPush] at hr
    split at hr
    · cases hr
    · cases hr
      obtain ⟨l', ok, hl', hcalls, hstep⟩ := pushed_tryPush h x
      exact ⟨l', _, hl', hcalls, hstep⟩
  | tryPop =>
    cases hs
    obtain ⟨l', r, hl', hcalls, hstep⟩ := popped_tryPop h
    exact ⟨l', _, hl', hcalls, hstep⟩
  | pop =>
    rw [step, BoundedCells.pop_eq_tryPop] at hs
    cases hs
    obtain ⟨l', r, hl', hcalls, hstep⟩ := popped_tryPop h
    exact ⟨l', _, hl', hcalls, hstep⟩
  | close =>
    cases hs
    exact ⟨l.close, .close, h.close, rfl, .close⟩

/-- As many calls of `try_pop` as there are elements return them all. -/
theorem run_tryPop [Inhabited α] (s : BoundedCalls α) (h : s.queue.Sound) :
    (run step s (List.replicate s.queue.size .tryPop)).map calls =
      some (s.calls ++ s.queue.contents.map fun x => .pop (some x)) := by
  induction hn : s.queue.size generalizing s with
  | zero =>
    have hnil : s.queue.contents = [] := List.eq_nil_of_length_eq_zero ((BoundedCells.length_contents _).trans hn)
    rw [hnil, List.map_nil, List.append_nil]
    rfl
  | succ n ih =>
    have hsize : s.queue.size ≠ 0 := by omega
    have hpop : s.queue.tryPop = (s.queue.take, some (s.queue.buf s.queue.head)) := if_neg hsize
    have hrest : s.queue.take.size = n := by
      dsimp only [BoundedCells.take]
      omega
    have hstep : step s .tryPop =
        some { queue := s.queue.take, calls := s.calls ++ [.pop (some (s.queue.buf s.queue.head))] } := by
      rw [step, hpop]
      rfl
    rw [List.replicate_succ, run, hstep, Option.bind_some, ih _ (h.take hsize) hrest, h.contents_take hsize,
      List.map_cons, List.append_assoc]
    rfl

theorem along_refinesFifo [Inhabited α] (capacity : Nat) (as : List (Act α)) :
    Along step (RefinesFifo (max capacity 1)) (initial capacity) as := by
  refine Along.mono ?_ (Fifo.along_runs (I := fun s => ∃ l, s.queue.Represents l) calls fifo
    ⟨_, BoundedCells.represents_new capacity⟩ rfl ?_ ?_ as)
  · intro s ⟨⟨l, hl⟩, hruns⟩
    have hempty : (initial capacity : BoundedCalls α).fifo = { capacity := max capacity 1 } := by
      have hcap : (if capacity < 1 then 1 else capacity) = max capacity 1 := by split <;> omega
      rw [← hcap]
      rfl
    rw [hempty] at hruns
    refine ⟨hruns, hruns.accepted_eq, ?_, run_tryPop s hl.sound⟩
    intro before after hcalls
    rw [hcalls] at hruns
    exact hruns.accepted_after_close
  · intro s a t ⟨l, hl⟩ hs
    obtain ⟨l', e, hl', -, -⟩ := step_represents hl hs
    exact ⟨l', hl'⟩
  · intro s a t ⟨l, hl⟩ hs
    obtain ⟨l', e, hl', hcalls, hstep⟩ := step_represents hl hs
    refine .inr ⟨e, hcalls, ?_⟩
    rw [fifo_eq hl, fifo_eq hl']
    exact hstep

end BoundedCalls

end CrashCore
