import CrashCore.Library.Run
import Mathlib.Data.List.Induction

/-! First-in first-out queues of bounded capacity that can be closed, and runs of their calls. A step of an
implementation stands for no call, or for the one call whose outcome it settles; `along_runs` carries this from steps to
runs. -/

structure Fifo (α : Type) where
  capacity : Nat
  items : List α := []
  closed : Bool := false

namespace Fifo
open Transition

/-- A call with its result. -/
inductive Event (α : Type)
  | push (item : α) (ok : Bool)
  | pop (item : Option α)
  | close

variable {α : Type} {f g h : Fifo α} {e : Event α} {es : List (Event α)} {x : α}

/-- Only a full or closed queue refuses an item, and only an empty one has none to give. -/
inductive Step (f : Fifo α) : Event α → Fifo α → Prop
  | accept {x : α} (hopen : f.closed = false) (hroom : f.items.length < f.capacity) :
    Step f (.push x true) { f with items := f.items ++ [x] }
  | refuse {x : α} (hfull : f.closed = true ∨ f.items.length = f.capacity) : Step f (.push x false) f
  | pop {x : α} {rest : List α} (hitems : f.items = x :: rest) : Step f (.pop (some x)) { f with items := rest }
  | empty (hitems : f.items = []) : Step f (.pop none) f
  | close : Step f .close { f with closed := true }

inductive Runs (f : Fifo α) : List (Event α) → Fifo α → Prop
  | refl : Runs f [] f
  | step {es : List (Event α)} {e : Event α} {g h : Fifo α} : Runs f es g → Step g e h → Runs f (es ++ [e]) h

/-- The items that the queue took. -/
def accepted (es : List (Event α)) : List α :=
  es.filterMap fun
    | .push x true => some x
    | _ => none

/-- The items that it gave. -/
def delivered (es : List (Event α)) : List α :=
  es.filterMap fun
    | .pop r => r
    | _ => none

theorem accepted_append (es es' : List (Event α)) : accepted (es ++ es') = accepted es ++ accepted es' :=
  List.filterMap_append ..

theorem delivered_append (es es' : List (Event α)) : delivered (es ++ es') = delivered es ++ delivered es' :=
  List.filterMap_append ..

theorem Step.accepted_eq (hs : Step f e g) : f.items ++ accepted [e] = delivered [e] ++ g.items := by
  cases hs with
  | accept hopen hroom => rfl
  | refuse hfull => exact List.append_nil _
  | pop hitems => rw [hitems]; exact List.append_nil _
  | empty hitems => exact List.append_nil _
  | close => exact List.append_nil _

/-- The items come out once each, in the order in which they went in. -/
theorem Runs.accepted_eq (hr : Runs f es g) : f.items ++ accepted es = delivered es ++ g.items := by
  induction hr with
  | refl => exact List.append_nil _
  | step _ hs ih =>
    rw [accepted_append, delivered_append, ← List.append_assoc, ih, List.append_assoc, hs.accepted_eq, List.append_assoc]

theorem Step.closed (hs : Step f e g) (hclosed : f.closed = true) : g.closed = true ∧ accepted [e] = [] := by
  cases hs with
  | accept hopen hroom => rw [hopen] at hclosed; cases hclosed
  | refuse hfull => exact ⟨hclosed, rfl⟩
  | pop hitems => exact ⟨hclosed, rfl⟩
  | empty hitems => exact ⟨hclosed, rfl⟩
  | close => exact ⟨rfl, rfl⟩

theorem Runs.closed (hr : Runs f es g) (hclosed : f.closed = true) : g.closed = true ∧ accepted es = [] := by
  induction hr with
  | refl => exact ⟨hclosed, rfl⟩
  | step _ hs ih =>
    obtain ⟨hg, hes⟩ := ih
    obtain ⟨hh, he⟩ := hs.closed hg
    exact ⟨hh, by rw [accepted_append, hes, he]; rfl⟩

theorem runs_concat : Runs f (es ++ [e]) h ↔ ∃ g, Runs f es g ∧ Step g e h := by
  constructor
  · generalize hall : es ++ [e] = all
    intro hr
    cases hr with
    | refl => exact absurd hall (List.concat_ne_nil e es)
    | step hr hs =>
      obtain ⟨rfl, rfl⟩ := List.append_singleton_inj.mp hall
      exact ⟨_, hr, hs⟩
  · rintro ⟨g, hr, hs⟩
    exact hr.step hs

/-- A run of some calls and others after them passes through a state in between. -/
theorem Runs.split {after : List (Event α)} (hr : Runs f (es ++ after) h) : ∃ g, Runs f es g ∧ Runs g after h := by
  induction after using List.reverseRecOn generalizing h with
  | nil => exact ⟨h, by rwa [List.append_nil] at hr, .refl⟩
  | append_singleton after e ih =>
    rw [← List.append_assoc] at hr
    obtain ⟨m, hr, hs⟩ := runs_concat.mp hr
    obtain ⟨g, hbefore, hafter⟩ := ih hr
    exact ⟨g, hbefore, hafter.step hs⟩

/-- Nothing is taken after the queue has been closed. -/
theorem Runs.accepted_after_close {before after : List (Event α)} (hr : Runs f (before ++ .close :: after) g) :
    accepted after = [] := by
  rw [List.append_cons] at hr
  obtain ⟨m, hclose, hafter⟩ := hr.split
  obtain ⟨k, -, hs⟩ := runs_concat.mp hclose
  cases hs
  exact (hafter.closed rfl).2

/-! ### Implementations -/

/-- The states of an implementation hold what the queue holds after the calls in their log, when each step adds nothing
    to the log and leaves the queue, or adds one call of the queue. `I` is an invariant of the implementation. -/
theorem along_runs {σ β : Type} {step : σ → β → Option σ} {I : σ → Prop} {s₀ : σ} (log : σ → List (Event α))
    (queue : σ → Fifo α) (h0 : I s₀) (hlog : log s₀ = []) (hkeep : ∀ s a t, I s → step s a = some t → I t)
    (hsim : ∀ s a t, I s → step s a = some t →
      (log t = log s ∧ queue t = queue s) ∨ ∃ e, log t = log s ++ [e] ∧ Step (queue s) e (queue t))
    (as : List β) : Along step (fun s => I s ∧ Runs (queue s₀) (log s) (queue s)) s₀ as := by
  refine Along.of_invariant (I := fun s => I s ∧ Runs (queue s₀) (log s) (queue s)) (fun _ h => h) ?_
    ⟨h0, by rw [hlog]; exact .refl⟩
  intro s a t ⟨hI, hruns⟩ hs
  refine ⟨hkeep s a t hI hs, ?_⟩
  rcases hsim s a t hI hs with ⟨hsame, hqueue⟩ | ⟨e, he, hstep⟩
  · rwa [hsame, hqueue]
  · rw [he]
    exact hruns.step hstep

end Fifo
