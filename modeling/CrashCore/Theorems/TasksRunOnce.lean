import CrashCore.Concurrency.WorkerPool
import CrashCore.Library.Firsts
import Mathlib.Data.Nat.Basic

/-! What the worker pool accepts is executed, in the hands of a worker or queued exactly once, as long as no queue takes
a task that an earlier queue has refused: the refused push has consumed the callable. -/

namespace CrashCore
namespace WorkerPool
open Transition

variable {ι : Type} {s t : State ι} {i j : ι} {c : Submitter} {call : Call} {k w : Nat}

def Worker.hand : Worker → List Task
  | .polling _ => []
  | .running task => [task]

/-- The tasks that are popped and not executed yet, and those that are queued. -/
def pending (s : State ι) : List Task :=
  List.gather s.n (fun w => (s.workers w).hand) ++ List.gather s.n (fun k => (s.queues k).items)

/-- How often the callable of a call was executed or can still be. -/
def copies (s : State ι) (id : Nat) : Nat := s.executed.count id + (pending s).count (some id)

structure RunsAccepted (s : State ι) : Prop where
  once : ∀ id ∈ s.accepted, copies s id = 1
  executed : pending s = [] → ∀ id ∈ s.accepted, s.executed.count id = 1
  never : ∀ id ∈ s.refused, copies s id = 0
  counted : s.submits = s.accepted.length

/-- A thread whose first push has failed would get no task into the queue that it tries now. -/
def RefusesAgain (s : State ι) : Submitter → Prop
  | .pushAny _ k => (s.queues k).closed = true ∨ (s.queues k).cap ≤ (s.queues k).size
  | .wait .. => (s.queues 0).closed = true ∨ (s.queues 0).cap ≤ (s.queues 0).size
  | .idle | .scan .. | .pushBest .. | .count _ | .drop _ => True

def FirstQueueOnly (s : State ι) : Act ι → Prop
  | .go i _ => RefusesAgain s (s.submitters i)
  | .submit .. | .work _ => True

instance (s : State ι) : DecidablePred (RefusesAgain s)
  | .pushAny .. | .wait .. => inferInstanceAs (Decidable (_ ∨ _))
  | .idle | .scan .. | .pushBest .. | .count _ | .drop _ => inferInstanceAs (Decidable True)

instance (s : State ι) : DecidablePred (FirstQueueOnly s)
  | .go .. => inferInstanceAs (Decidable (RefusesAgain ..))
  | .submit .. | .work _ => inferInstanceAs (Decidable True)

/-! ### The invariant -/

def Submitter.current : Submitter → Option Call
  | .idle => none
  | .scan call .. | .pushBest call _ | .pushAny call _ | .count call | .drop call | .wait call _ => some call

/-- The queues that the thread may still push on exist. -/
def Submitter.Fits (n : Nat) : Submitter → Prop
  | .scan _ k best _ => k < n ∧ (k = 0 ∨ best < n)
  | .pushBest _ k | .pushAny _ k => k < n
  | _ => True

/-- Up to the first push the call has its callable. -/
def Submitter.Unmoved : Submitter → Prop
  | .scan call .. | .pushBest call _ => call.task = some call.id
  | _ => True

/-- Whether a queue has taken the task. -/
def Submitter.taken : Submitter → Nat
  | .count _ => 1
  | _ => 0

structure Inv (s : State ι) : Prop where
  pos : 0 < s.n
  fits : ∀ i, (s.submitters i).Fits s.n
  unmoved : ∀ i, (s.submitters i).Unmoved
  flying : ∀ i call, (s.submitters i).current = some call →
    call.id ≤ s.calls ∧ copies s call.id = (s.submitters i).taken ∧ call.id ∉ s.accepted ∧ call.id ∉ s.refused
  distinct : ∀ i j call call', (s.submitters i).current = some call → (s.submitters j).current = some call' →
    call.id = call'.id → i = j
  fresh : ∀ id, s.calls < id → copies s id = 0
  accepted : ∀ id ∈ s.accepted, id ≤ s.calls ∧ copies s id = 1
  refused : ∀ id ∈ s.refused, id ≤ s.calls ∧ copies s id = 0
  counted : s.submits = s.accepted.length

theorem pending_initial (numWorkers queueCapacity : Nat) : pending (initial numWorkers queueCapacity : State ι) = [] := by
  simp [pending, initial, Worker.hand, BoundedQueue.new, List.gather]

theorem inv_initial (numWorkers queueCapacity : Nat) : Inv (initial numWorkers queueCapacity : State ι) where
  pos := by
    unfold initial
    dsimp only
    split <;> omega
  fits _ := trivial
  unmoved _ := trivial
  flying _ _ h := by cases h
  distinct _ _ _ _ h := by cases h
  fresh m _ := by
    rw [copies, pending_initial]
    rfl
  accepted _ h := by cases h
  refused _ h := by cases h
  counted := rfl

theorem Inv.runsAccepted (h : Inv s) : RunsAccepted s where
  once id hid := (h.accepted id hid).2
  executed hnone id hid := by
    have honce := (h.accepted id hid).2
    rwa [copies, hnone, List.count_nil, Nat.add_zero] at honce
  never id hid := (h.refused id hid).2
  counted := h.counted

/-! ### The tasks in the pool -/

/-- A queue takes one more task. -/
theorem copies_push (hk : k < s.n) {q : BoundedQueue Task} {m : Nat} (hq : q.items = (s.queues k).items ++ [some m]) (id : Nat) :
    copies { s with queues := Function.update s.queues k q } id = copies s id + if id = m then 1 else 0 := by
  have hcount := List.count_gather (x := some id) (g := fun i => (Function.update s.queues k q i).items)
    (f := fun i => (s.queues i).items) hk fun i _ hne => by rw [Function.update_of_ne hne]
  rw [Function.update_self, hq, List.count_append, List.count_singleton] at hcount
  simp only [copies, pending, List.count_append]
  split
  · rename_i heq
    subst heq
    simp only [beq_self_eq_true, if_true] at hcount
    omega
  · rename_i hne
    have hbeq : (some m == some id) = false := by simpa using fun heq => hne heq.symm
    simp only [hbeq] at hcount
    simp only [Bool.false_eq_true, if_false] at hcount
    omega

/-! ### Steps of a worker -/

/-- A worker moves tasks only. -/
theorem Inv.worked (h : Inv s) {queues : Nat → BoundedQueue Task} {workers : Nat → Worker} {steals : Nat}
    {executed : List Nat} (hcopies : ∀ m, copies { s with queues, workers, steals, executed } m = copies s m) :
    Inv { s with queues, workers, steals, executed } :=
  { h with
    flying := fun i call hi => by
      rw [hcopies]
      exact h.flying i call hi
    fresh := fun m hm => (hcopies m).trans (h.fresh m hm)
    accepted := fun m hm => ⟨(h.accepted m hm).1, (hcopies m).trans (h.accepted m hm).2⟩
    refused := fun m hm => ⟨(h.refused m hm).1, (hcopies m).trans (h.refused m hm).2⟩ }

theorem count_hands (worker : Worker) (hw : w < s.n) (task : Task) :
    (List.gather s.n fun i => (Function.update s.workers w worker i).hand).count task + (s.workers w).hand.count task =
      (List.gather s.n fun i => (s.workers i).hand).count task + worker.hand.count task := by
  have hcount := List.count_gather (x := task) (g := fun i => (Function.update s.workers w worker i).hand)
    (f := fun i => (s.workers i).hand) hw fun i _ hne => by rw [Function.update_of_ne hne]
  rwa [Function.update_self] at hcount

theorem Inv.work (h : Inv s) (hs : work s w = some t) : Inv t := by
  unfold WorkerPool.work at hs
  split at hs
  · rename_i hw
    split at hs
    · rename_i j hpolling
      dsimp only at hs
      have hk : (w + j) % s.n < s.n := Nat.mod_lt _ h.pos
      split at hs <;> cases hs
      · rename_i task q hpop
        obtain ⟨hitems, -, -⟩ := BoundedQueue.tryPop_eq_some hpop
        refine h.worked fun m => ?_
        have hhand := count_hands (.running task) hw (some m)
        have hqueue := List.count_gather (x := some m) (g := fun i => (Function.update s.queues ((w + j) % s.n) q i).items)
          (f := fun i => (s.queues i).items) hk fun i _ hne => by rw [Function.update_of_ne hne]
        rw [Function.update_self, hitems, List.count_cons] at hqueue
        rw [hpolling] at hhand
        simp only [Worker.hand, List.count_nil, List.count_singleton] at hhand
        simp only [copies, pending, setQueue, List.count_append, Worker.hand] at hhand ⊢
        omega
      · refine h.worked fun m => ?_
        have hhand := count_hands (.polling (if j + 1 < s.n then j + 1 else 0)) hw (some m)
        rw [hpolling] at hhand
        simp only [Worker.hand, List.count_nil] at hhand
        simp only [copies, pending, List.count_append, Worker.hand] at hhand ⊢
        omega
    · rename_i task hrunning
      cases hs
      refine h.worked fun m => ?_
      have hhand := count_hands (.polling 0) hw (some m)
      rw [hrunning] at hhand
      have hdone : task.toList.count m = [task].count (some m) := by
        cases task <;> simp [List.count_singleton]
      simp only [Worker.hand, List.count_nil] at hhand
      simp only [copies, pending, List.count_append, Worker.hand] at hhand ⊢
      omega
  · cases hs

/-! ### Steps of a submitting thread -/

section
variable [DecidableEq ι]

@[simp] theorem setSubmitter_self : (setSubmitter s i c).submitters i = c := Function.update_self ..

theorem setSubmitter_other (h : j ≠ i) : (setSubmitter s i c).submitters j = s.submitters j := Function.update_of_ne h ..

/-- The call goes on at `c`; only the copies of its own task may have changed. -/
theorem Inv.goOn (h : Inv s) (hcall : (s.submitters i).current = some call) (queues : Nat → BoundedQueue Task)
    (drops : Nat) {call' : Call} (hc : c.current = some call') (hid : call'.id = call.id) (hfits : c.Fits s.n)
    (hunmoved : c.Unmoved)
    (hcopies : ∀ id, copies { s with queues } id = copies s id + if id = call.id then c.taken - (s.submitters i).taken else 0)
    (hle : (s.submitters i).taken ≤ c.taken) :
    Inv (setSubmitter { s with queues, drops } i c) := by
  obtain ⟨hle', howed, hacc, href⟩ := h.flying i call hcall
  have hcopies' : ∀ id, copies (setSubmitter { s with queues, drops } i c) id =
      copies s id + if id = call.id then c.taken - (s.submitters i).taken else 0 := hcopies
  have hsame : ∀ id, id ≠ call.id → copies (setSubmitter { s with queues, drops } i c) id = copies s id := fun id hne => by
    rw [hcopies', if_neg hne, Nat.add_zero]
  exact
    { pos := h.pos
      fits := fun j => by
        by_cases hji : j = i
        · subst hji
          rw [setSubmitter_self]
          exact hfits
        · rw [setSubmitter_other hji]
          exact h.fits j
      unmoved := fun j => by
        by_cases hji : j = i
        · subst hji
          rw [setSubmitter_self]
          exact hunmoved
        · rw [setSubmitter_other hji]
          exact h.unmoved j
      flying := fun j call'' hj => by
        by_cases hji : j = i
        · subst hji
          rw [setSubmitter_self] at hj ⊢
          obtain rfl : call' = call'' := Option.some.inj (hc.symm.trans hj)
          rw [hid, hcopies', if_pos rfl, howed]
          exact ⟨hle', by omega, hacc, href⟩
        · rw [setSubmitter_other hji] at hj ⊢
          obtain ⟨hle'', howed'', hrest⟩ := h.flying j call'' hj
          have hne : call''.id ≠ call.id := fun heq => hji (h.distinct j i call'' call hj hcall heq)
          exact ⟨hle'', (hsame _ hne).trans howed'', hrest⟩
      distinct := fun j j' call₁ call₂ hj hj' heq => by
        have hold : ∀ j call₁, ((setSubmitter { s with queues, drops } i c).submitters j).current = some call₁ →
            ∃ call₀, (s.submitters j).current = some call₀ ∧ call₀.id = call₁.id := by
          intro j call₁ hj
          by_cases hji : j = i
          · subst hji
            rw [setSubmitter_self] at hj
            obtain rfl : call' = call₁ := Option.some.inj (hc.symm.trans hj)
            exact ⟨call, hcall, hid.symm⟩
          · rw [setSubmitter_other hji] at hj
            exact ⟨call₁, hj, rfl⟩
        obtain ⟨call₁', hj, hid₁⟩ := hold j call₁ hj
        obtain ⟨call₂', hj', hid₂⟩ := hold j' call₂ hj'
        exact h.distinct j j' call₁' call₂' hj hj' (hid₁.trans (heq.trans hid₂.symm))
      fresh := fun id hlt => by
        have hlt : s.calls < id := hlt
        rw [hsame id (by omega)]
        exact h.fresh id hlt
      accepted := fun id hmem => by
        rw [hsame id fun heq => hacc (heq ▸ hmem)]
        exact h.accepted id hmem
      refused := fun id hmem => by
        rw [hsame id fun heq => href (heq ▸ hmem)]
        exact h.refused id hmem
      counted := h.counted }

/-- The thread has returned. -/
theorem Inv.leave (h : Inv s) (i : ι) : Inv (setSubmitter s i .idle) := by
  have hother : ∀ j call, ((setSubmitter s i .idle).submitters j).current = some call →
      j ≠ i ∧ (s.submitters j).current = some call := by
    intro j call hj
    by_cases hji : j = i
    · subst hji
      rw [setSubmitter_self] at hj
      cases hj
    · rw [setSubmitter_other hji] at hj
      exact ⟨hji, hj⟩
  refine { h with fits := fun j => ?_, unmoved := fun j => ?_, flying := fun j call hj => ?_, distinct := ?_ }
  · by_cases hji : j = i
    · subst hji
      rw [setSubmitter_self]
      trivial
    · rw [setSubmitter_other hji]
      exact h.fits j
  · by_cases hji : j = i
    · subst hji
      rw [setSubmitter_self]
      trivial
    · rw [setSubmitter_other hji]
      exact h.unmoved j
  · obtain ⟨hji, hj⟩ := hother j call hj
    rw [setSubmitter_other hji]
    exact h.flying j call hj
  · intro j j' call₁ call₂ hj hj' heq
    exact h.distinct j j' call₁ call₂ (hother j call₁ hj).2 (hother j' call₂ hj').2 heq

theorem leave_current (h : Inv s) (hcall : (s.submitters i).current = some call) {call' : Call}
    (hj : ((setSubmitter s i .idle).submitters j).current = some call') : call'.id ≠ call.id := by
  by_cases hji : j = i
  · subst hji
    rw [setSubmitter_self] at hj
    cases hj
  · rw [setSubmitter_other hji] at hj
    exact fun heq => hji (h.distinct j i call' call hj hcall heq)

theorem Inv.accept (h : Inv s) (hcall : s.submitters i = .count call) :
    Inv (setSubmitter { s with submits := s.submits + 1, accepted := s.accepted ++ [call.id] } i .idle) := by
  have hcurrent : (s.submitters i).current = some call := by rw [hcall]; rfl
  obtain ⟨hle, hcopies, hacc, href⟩ := h.flying i call hcurrent
  have hidle := h.leave i
  refine { hidle with flying := fun j call' hj => ?_, accepted := fun m hm => ?_, counted := by simp [setSubmitter, h.counted] }
  · obtain ⟨hle', hcopies', hacc', href'⟩ := hidle.flying j call' hj
    have hne := leave_current h hcurrent hj
    refine ⟨hle', hcopies', fun hm => ?_, href'⟩
    rcases List.mem_append.mp hm with hm | hm
    · exact hacc' hm
    · exact hne (List.mem_singleton.mp hm)
  · rcases List.mem_append.mp hm with hm | hm
    · exact h.accepted m hm
    · rw [List.mem_singleton.mp hm]
      exact ⟨hle, hcopies.trans (by rw [hcall]; rfl)⟩

theorem Inv.refuse (h : Inv s) (hcall : s.submitters i = .drop call) :
    Inv (setSubmitter { s with drops := s.drops + 1, refused := s.refused ++ [call.id] } i .idle) := by
  have hcurrent : (s.submitters i).current = some call := by rw [hcall]; rfl
  obtain ⟨hle, hcopies, hacc, href⟩ := h.flying i call hcurrent
  have hidle := h.leave i
  refine { hidle with flying := fun j call' hj => ?_, refused := fun m hm => ?_ }
  · obtain ⟨hle', hcopies', hacc', href'⟩ := hidle.flying j call' hj
    have hne := leave_current h hcurrent hj
    refine ⟨hle', hcopies', hacc', fun hm => ?_⟩
    rcases List.mem_append.mp hm with hm | hm
    · exact href' hm
    · exact hne (List.mem_singleton.mp hm)
  · rcases List.mem_append.mp hm with hm | hm
    · exact h.refused m hm
    · rw [List.mem_singleton.mp hm]
      exact ⟨hle, hcopies.trans (by rw [hcall]; rfl)⟩

theorem Inv.submit (h : Inv s) (hidle : s.submitters i = .idle) (timeoutMs : Option Int) :
    Inv (setSubmitter { s with calls := s.calls + 1 } i
      (.scan { id := s.calls + 1, task := some (s.calls + 1), timeoutMs } 0 0 0)) where
  pos := h.pos
  fits j := by
    by_cases hji : j = i
    · subst hji
      rw [setSubmitter_self]
      exact ⟨h.pos, Or.inl rfl⟩
    · rw [setSubmitter_other hji]
      exact h.fits j
  unmoved j := by
    by_cases hji : j = i
    · subst hji
      rw [setSubmitter_self]
      rfl
    · rw [setSubmitter_other hji]
      exact h.unmoved j
  flying j call hj := by
    by_cases hji : j = i
    · subst hji
      rw [setSubmitter_self] at hj ⊢
      cases hj
      refine ⟨Nat.le_refl _, h.fresh _ (Nat.lt_succ_self _), fun hm => ?_, fun hm => ?_⟩
      · exact absurd (h.accepted _ hm).1 (Nat.not_succ_le_self _)
      · exact absurd (h.refused _ hm).1 (Nat.not_succ_le_self _)
    · rw [setSubmitter_other hji] at hj ⊢
      obtain ⟨hle, hrest⟩ := h.flying j call hj
      exact ⟨Nat.le_succ_of_le hle, hrest⟩
  distinct j j' call₁ call₂ hj hj' heq := by
    have hnew : ∀ j call, j ≠ i → (s.submitters j).current = some call → call.id ≠ s.calls + 1 := fun j call _ hj heq => by
      have := (h.flying j call hj).1
      omega
    by_cases hji : j = i <;> by_cases hji' : j' = i
    · exact hji.trans hji'.symm
    · subst hji
      rw [setSubmitter_self] at hj
      rw [setSubmitter_other hji'] at hj'
      cases hj
      exact absurd heq.symm (hnew j' call₂ hji' hj')
    · subst hji'
      rw [setSubmitter_self] at hj'
      rw [setSubmitter_other hji] at hj
      cases hj'
      exact absurd heq (hnew j call₁ hji hj)
    · rw [setSubmitter_other hji] at hj
      rw [setSubmitter_other hji'] at hj'
      exact h.distinct j j' call₁ call₂ hj hj' heq
  fresh m hlt := h.fresh m (Nat.lt_of_succ_lt hlt)
  accepted m hm := ⟨Nat.le_succ_of_le (h.accepted m hm).1, (h.accepted m hm).2⟩
  refused m hm := ⟨Nat.le_succ_of_le (h.refused m hm).1, (h.refused m hm).2⟩
  counted := h.counted

/-- The queue refuses the task, and the thread goes on at `refusal`. -/
theorem push_refused {refusal : Submitter} (hfull : (s.queues k).closed = true ∨ (s.queues k).cap ≤ (s.queues k).size) :
    push s i call k refusal = setSubmitter s i refusal := by
  simp [push, BoundedQueue.tryPush_eq_none.mpr hfull]

/-- Nothing changes but what the thread does next. -/
theorem Inv.next (h : Inv s) (hcall : (s.submitters i).current = some call) (drops : Nat) (call' : Call)
    (hc : c.current = some call') (hid : call'.id = call.id) (hfits : c.Fits s.n) (hunmoved : c.Unmoved)
    (htaken : c.taken = (s.submitters i).taken) : Inv (setSubmitter { s with drops } i c) :=
  h.goOn hcall s.queues drops hc hid hfits hunmoved (fun m => by simp [htaken]) (Nat.le_of_eq htaken.symm)

/-- The first push of a call. -/
theorem Inv.pushBest (h : Inv s) (hcall : s.submitters i = .pushBest call k) :
    Inv (push s i call k (.pushAny call.moved 0)) := by
  have hcurrent : (s.submitters i).current = some call := by rw [hcall]; rfl
  have htask : call.task = some call.id := by
    have := h.unmoved i
    rwa [hcall] at this
  have hk : k < s.n := by
    have := h.fits i
    rwa [hcall] at this
  unfold push
  split
  · rename_i q hq
    obtain ⟨-, -, hitems, -, -⟩ := BoundedQueue.tryPush_eq_some hq
    rw [htask] at hitems
    exact h.goOn hcurrent _ s.drops (c := .count call.moved) rfl rfl trivial trivial
      (fun m => by rw [copies_push hk hitems, hcall]; rfl) (by rw [hcall]; exact Nat.zero_le _)
  · exact h.next hcurrent s.drops call.moved (c := .pushAny call.moved 0) rfl rfl h.pos trivial (by rw [hcall]; rfl)

theorem Inv.go {timedOut : Bool} (h : Inv s) (hok : FirstQueueOnly s (.go i timedOut)) (hs : go s i timedOut = some t) :
    Inv t := by
  unfold WorkerPool.go at hs
  have hok : RefusesAgain s (s.submitters i) := hok
  have hfits := h.fits i
  have hunmoved := h.unmoved i
  split at hs <;> rename_i hcall <;> try rw [hcall] at hfits hunmoved
  · cases hs
  · rename_i call k best bestSize
    have hcurrent : (s.submitters i).current = some call := by rw [hcall]; rfl
    obtain ⟨hk, hbest⟩ := hfits
    have hbest' : (if k = 0 ∨ (s.queues k).size < bestSize then k else best) < s.n := by
      split
      · exact hk
      · rename_i hno
        exact hbest.resolve_left fun hz => hno (Or.inl hz)
    cases hs
    split
    · rename_i hk'
      exact h.next hcurrent s.drops call rfl rfl ⟨hk', Or.inr hbest'⟩ hunmoved (by rw [hcall]; rfl)
    · exact h.next hcurrent s.drops call rfl rfl hbest' hunmoved (by rw [hcall]; rfl)
  · cases hs
    exact h.pushBest hcall
  · rename_i call k
    have hcurrent : (s.submitters i).current = some call := by rw [hcall]; rfl
    cases hs
    rw [hcall] at hok
    rw [push_refused hok]
    split
    · rename_i hk
      exact h.next hcurrent s.drops call.moved rfl rfl hk trivial (by rw [hcall]; rfl)
    · exact h.next hcurrent s.drops call.moved rfl rfl trivial trivial (by rw [hcall]; rfl)
  · cases hs
    exact h.accept hcall
  · rename_i call
    have hcurrent : (s.submitters i).current = some call := by rw [hcall]; rfl
    dsimp only at hs
    split at hs <;> cases hs
    · exact h.next hcurrent (s.drops + 1) { call with timeoutMs := none } rfl rfl trivial trivial (by rw [hcall]; rfl)
    · exact h.refuse hcall
  · rename_i call timeoutMs
    have hcurrent : (s.submitters i).current = some call := by rw [hcall]; rfl
    rw [hcall] at hok
    split at hs <;> cases hs
    rw [push_refused hok]
    exact h.next hcurrent s.drops call.moved rfl rfl trivial trivial (by rw [hcall]; rfl)

theorem step_inv {a : Act ι} (h : Inv s) (hok : FirstQueueOnly s a) (hs : step s a = some t) : Inv t := by
  cases a with
  | submit i timeoutMs =>
    simp only [step] at hs
    split at hs
    · rename_i hidle
      cases hs
      exact h.submit hidle timeoutMs
    · cases hs
  | go i timedOut => exact h.go hok hs
  | work w => exact h.work hs

/-- As long as no queue takes the empty task of a failed push, the pool runs what it accepts once and nothing else. -/
theorem runsAccepted_of_reaches (numWorkers queueCapacity : Nat)
    (hr : Reaches step FirstQueueOnly (initial numWorkers queueCapacity : State ι) s) : RunsAccepted s :=
  (hr.invariant (inv_initial numWorkers queueCapacity) fun _ _ _ h hok hs => step_inv h hok hs).runsAccepted

/-! One worker with a queue of one task, and two threads that call `try_submit`. -/

/-- The second thread finds the queue full once and for all. -/
def fullQueue : List (Act Bool) :=
  List.flatten
    [.submit false none :: List.replicate 3 (.go false false), .submit true none :: List.replicate 4 (.go true false),
      List.replicate 2 (.work 0)]

/-- The worker makes room between the two tries of the second thread. -/
def roomForTheSecondTry : List (Act Bool) :=
  List.flatten
    [.submit false none :: List.replicate 3 (.go false false), .submit true none :: List.replicate 2 (.go true false),
      List.replicate 2 (.work 0), List.replicate 2 (.go true false), List.replicate 2 (.work 0)]

theorem fullQueue_runsAccepted : ∃ s, run step (initial 1 1) fullQueue = some s ∧
    (s.accepted = [1] ∧ s.refused = [2] ∧ s.executed = [1]) ∧ RunsAccepted s := by
  have hrun : ((run step (initial 1 1) fullQueue).map fun s => (s.accepted, s.refused, s.executed)) =
      some ([1], [2], [1]) := by decide +kernel
  have hmeets : Meets step FirstQueueOnly (initial 1 1) fullQueue := by decide +kernel
  obtain ⟨s, hs, heq⟩ := Option.map_eq_some_iff.mp hrun
  exact ⟨s, hs, by simpa using heq, runsAccepted_of_reaches 1 1 (Reaches.of_run hmeets hs)⟩

/-- The second call returned true, and no task of it is left anywhere. -/
theorem roomForTheSecondTry_not_runsAccepted :
    ¬∀ s : State Bool, Reaches step anyStep (initial 1 1) s → RunsAccepted s := by
  intro h
  have hrun : ((run step (initial 1 1) roomForTheSecondTry).map fun s => (s.accepted, s.executed, pending s)) =
      some ([1, 2], [1], []) := by decide +kernel
  obtain ⟨s, hs, heq⟩ := Option.map_eq_some_iff.mp hrun
  obtain ⟨hacc, hexec, hnone⟩ : s.accepted = [1, 2] ∧ s.executed = [1] ∧ pending s = [] := by simpa using heq
  have honce := (h s (Reaches.of_run (meets_anyStep ..) hs)).executed hnone 2 (by simp [hacc])
  simp [hexec] at honce

end

end WorkerPool
end CrashCore
