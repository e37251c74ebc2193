import CrashCore.Ingestion.EventRouter
import Mathlib.Data.List.Nodup

/-! An End that `route` accepts is in the validation queue and in the prediction queue exactly once, as long as no
push of the two threads overtakes the other in `try_push`: the queues are built for a single producer. -/

namespace CrashCore
namespace RouterThreads
open Transition

variable {s t : State} {i j : RouterThread} {q q' : RouterQueue} {x y : Routed} {ok : Bool}

/-- All accepted Ends, with the event that `route` was given, are popped or in the queue, and only once; and the main
    loop gets what is there by as many calls of `try_pop` (of four accesses) as there are items. -/
structure RoutesOnce (s : State) : Prop where
  once : ∀ q, q ≠ .persistence → ∀ x ∈ s.accepted,
    ((s.queues q).popped ++ (s.queues q).contents).filter (·.call = x.call) = [x]
  drains : ∀ q, q ≠ .persistence → (s.queues q).popper = .loadHead →
    (SpscChannel.pop^[4 * (s.queues q).contents.length] (s.queues q)).popped = (s.queues q).popped ++ (s.queues q).contents

/-! ### The calls of `route` and the pushes they have made -/

/-- What a thread has to push, where, and the result so far. -/
def Caller.job : Caller → Option (RouterQueue × Routed × Bool)
  | .idle => none
  | .pushing q _ x ok => some (q, x, ok)

/-- The queues before `q` have the event of the call, and the others have it not. -/
structure JobInv (s : State) (q : RouterQueue) (x : Routed) (ok : Bool) : Prop where
  counted : x.call ≤ s.calls
  ahead : ∀ q', q.rank ≤ q'.rank → x.call ∉ (s.queues q').pushed.map (·.call)
  behind : ok = true → x.event.kind = .end → ∀ q', q'.rank < q.rank → x ∈ (s.queues q').pushed

theorem JobInv.congr (h : JobInv s q x ok) (hqueues : t.queues = s.queues) (hcalls : s.calls ≤ t.calls) :
    JobInv t q x ok :=
  ⟨h.counted.trans hcalls, hqueues ▸ h.ahead, hqueues ▸ h.behind⟩

structure Books (s : State) : Prop where
  jobs : ∀ i q x ok, (s.callers i).job = some (q, x, ok) → JobInv s q x ok
  distinct : ∀ i j q x ok q' x' ok', (s.callers i).job = some (q, x, ok) → (s.callers j).job = some (q', x', ok') →
    x.call = x'.call → i = j
  counted : ∀ q, ∀ y ∈ (s.queues q).pushed, y.call ≤ s.calls
  nodup : ∀ q, ((s.queues q).pushed.map (·.call)).Nodup
  accepted : ∀ x ∈ s.accepted, ∀ q, q ≠ .persistence → x ∈ (s.queues q).pushed

theorem books_initial (queueCapacity : Nat) : Books (initial queueCapacity) where
  jobs _ _ _ _ h := by cases h
  distinct _ _ _ _ _ _ _ _ h := by cases h
  counted _ _ hy := by cases hy
  nodup _ := List.nodup_nil
  accepted _ hx := by cases hx

theorem Books.congr (h : Books s) (hjobs : ∀ i, (t.callers i).job = (s.callers i).job)
    (hpushed : ∀ q, (t.queues q).pushed = (s.queues q).pushed) (hcalls : t.calls = s.calls)
    (haccepted : t.accepted = s.accepted) : Books t where
  jobs i q x ok hi := by
    obtain ⟨hcounted, hahead, hbehind⟩ := h.jobs i q x ok (hjobs i ▸ hi)
    exact ⟨hcalls ▸ hcounted, fun q' hq => hpushed q' ▸ hahead q' hq, fun ho hk q' hq => hpushed q' ▸ hbehind ho hk q' hq⟩
  distinct i j q x ok q' x' ok' hi hj := h.distinct i j q x ok q' x' ok' (hjobs i ▸ hi) (hjobs j ▸ hj)
  counted q y hy := hcalls ▸ h.counted q y (hpushed q ▸ hy)
  nodup q := hpushed q ▸ h.nodup q
  accepted x hx q hq := hpushed q ▸ h.accepted x (haccepted ▸ hx) q hq

@[simp] theorem setCaller_self (c : Caller) : (setCaller s i c).callers i = c := Function.update_self ..

theorem setCaller_other (c : Caller) (h : j ≠ i) : (setCaller s i c).callers j = s.callers j := Function.update_of_ne h ..

@[simp] theorem setQueue_self (c : SpscChannel Routed) : (setQueue s q c).queues q = c := Function.update_self ..

theorem setQueue_other (c : SpscChannel Routed) (h : q' ≠ q) : (setQueue s q c).queues q' = s.queues q' :=
  Function.update_of_ne h ..

/-- A thread comes to an end with its job, or goes on to a later queue. -/
theorem Books.setCaller (h : Books s) (c : Caller)
    (hjob : ∀ q x ok, c.job = some (q, x, ok) → JobInv s q x ok ∧
      ∀ j q' x' ok', j ≠ i → (s.callers j).job = some (q', x', ok') → x.call ≠ x'.call) : Books (setCaller s i c) where
  jobs j q x ok hj := by
    by_cases hji : j = i
    · subst hji
      rw [setCaller_self] at hj
      exact (hjob q x ok hj).1.congr rfl (Nat.le_refl _)
    · rw [setCaller_other c hji] at hj
      exact (h.jobs j q x ok hj).congr rfl (Nat.le_refl _)
  distinct j k q x ok q' x' ok' hj hk heq := by
    by_cases hji : j = i <;> by_cases hki : k = i
    · exact hji.trans hki.symm
    · subst hji
      rw [setCaller_self] at hj
      rw [setCaller_other c hki] at hk
      exact absurd heq ((hjob q x ok hj).2 k q' x' ok' hki hk)
    · subst hki
      rw [setCaller_self] at hk
      rw [setCaller_other c hji] at hj
      exact absurd heq.symm ((hjob q' x' ok' hk).2 j q x ok hji hj)
    · rw [setCaller_other c hji] at hj
      rw [setCaller_other c hki] at hk
      exact h.distinct j k q x ok q' x' ok' hj hk heq
  counted := h.counted
  nodup := h.nodup
  accepted := h.accepted

/-- The tail store of a job: the event is behind the others in the queue. -/
theorem Books.store (h : Books s) (hjob : (s.callers i).job = some (q, x, ok)) {c : SpscChannel Routed}
    (hc : c.pushed = (s.queues q).pushed ++ [x]) : Books (RouterThreads.setCaller (setQueue s q c) i .idle) := by
  obtain ⟨hcounted, hahead, -⟩ := h.jobs i q x ok hjob
  have hpushed : ∀ q', q' ≠ q → ((setQueue s q c).queues q').pushed = (s.queues q').pushed := fun q' hq => by
    rw [setQueue_other c hq]
  have hkept : ∀ q' y, y ∈ (s.queues q').pushed → y ∈ ((setQueue s q c).queues q').pushed := by
    intro q' y hy
    by_cases hq : q' = q
    · subst hq
      rw [setQueue_self, hc]
      exact List.mem_append_left _ hy
    · rw [hpushed q' hq]
      exact hy
  exact
    { jobs := fun j q' x' ok' hj => by
        by_cases hji : j = i
        · subst hji
          rw [setCaller_self] at hj
          cases hj
        rw [setCaller_other _ hji] at hj
        obtain ⟨hcounted', hahead', hbehind'⟩ := h.jobs j q' x' ok' hj
        have hne : x'.call ≠ x.call := fun heq => hji (h.distinct j i q' x' ok' q x ok hj hjob heq)
        refine ⟨hcounted', fun q'' hq => ?_, fun ho hk q'' hq => hkept q'' x' (hbehind' ho hk q'' hq)⟩
        by_cases hq'' : q'' = q
        · subst hq''
          simpa [RouterThreads.setCaller, hc, hne] using hahead' q'' hq
        · simpa [RouterThreads.setCaller, hpushed q'' hq''] using hahead' q'' hq
      distinct := fun j k q' x' ok' q'' x'' ok'' hj hk => by
        by_cases hji : j = i
        · subst hji
          rw [setCaller_self] at hj
          cases hj
        by_cases hki : k = i
        · subst hki
          rw [setCaller_self] at hk
          cases hk
        rw [setCaller_other _ hji] at hj
        rw [setCaller_other _ hki] at hk
        exact h.distinct j k q' x' ok' q'' x'' ok'' hj hk
      counted := fun q' y hy => by
        by_cases hq : q' = q
        · subst hq
          rw [RouterThreads.setCaller, setQueue_self, hc, List.mem_append, List.mem_singleton] at hy
          rcases hy with hy | rfl
          · exact h.counted q' y hy
          · exact hcounted
        · rw [RouterThreads.setCaller, hpushed q' hq] at hy
          exact h.counted q' y hy
      nodup := fun q' => by
        by_cases hq : q' = q
        · subst hq
          rw [RouterThreads.setCaller, setQueue_self, hc, List.map_append]
          exact (h.nodup q').append (List.nodup_singleton _) (List.disjoint_singleton.mpr (hahead q' (Nat.le_refl _)))
        · rw [RouterThreads.setCaller, hpushed q' hq]
          exact h.nodup q'
      accepted := fun y hy q' hq => hkept q' y (h.accepted y hy q' hq) }

/-- `try_push` has returned whether the queue has the event now. -/
theorem Books.taken (h : Books s) (hjob : (s.callers i).job = some (q, x, ok)) {c : SpscChannel Routed} {taken : Bool}
    (hc : c.pushed = if taken = true then (s.queues q).pushed ++ [x] else (s.queues q).pushed) :
    Books (RouterThreads.setCaller (setQueue s q c) i .idle) := by
  cases taken with
  | true => exact h.store hjob (by simpa using hc)
  | false =>
    have hidle : Books (RouterThreads.setCaller s i .idle) := h.setCaller .idle fun _ _ _ hj => by cases hj
    refine hidle.congr (fun _ => rfl) (fun q' => ?_) rfl rfl
    by_cases hq : q' = q
    · subst hq
      simpa [RouterThreads.setCaller] using hc
    · simp [RouterThreads.setCaller, setQueue_other c hq]

/-- The job goes on to the queue behind `q`. -/
theorem JobInv.next (h : Books s) (hjob : (s.callers i).job = some (q, x, ok)) {c : SpscChannel Routed} {taken : Bool}
    (hc : c.pushed = if taken = true then (s.queues q).pushed ++ [x] else (s.queues q).pushed) {q₁ : RouterQueue}
    (hq₁ : q₁.rank = q.rank + 1) : JobInv (setQueue s q c) q₁ x (ok && taken) := by
  obtain ⟨hcounted, hahead, hbehind⟩ := h.jobs i q x ok hjob
  refine ⟨hcounted, fun q' hq => ?_, fun ho hk q' hq => ?_⟩
  · have hne : q' ≠ q := fun heq => by
      rw [heq, hq₁] at hq
      omega
    rw [setQueue_other c hne]
    exact hahead q' (by omega)
  · obtain ⟨rfl, rfl⟩ : ok = true ∧ taken = true := by simpa using ho
    by_cases hne : q' = q
    · subst hne
      simp [hc]
    · have hlt : q'.rank < q.rank := by
        have : q'.rank ≠ q.rank := fun heq => hne (RouterQueue.rank_injective heq)
        omega
      rw [setQueue_other c hne]
      exact hbehind rfl hk q' hlt

theorem mem_accepted_pushed {taken : Bool} (hy : y ∈ (pushed s i x ok taken .persistence).accepted) :
    y ∈ s.accepted ∨ (y = x ∧ x.event.kind = .end ∧ ok = true) := by
  simp only [pushed, RouterThreads.setCaller] at hy
  split at hy
  · rename_i hend
    rcases List.mem_append.mp hy with hy | hy
    · exact Or.inl hy
    · exact Or.inr ⟨List.mem_singleton.mp hy, hend⟩
  · exact Or.inl hy

theorem Books.returned (h : Books s) (hjob : (s.callers i).job = some (q, x, ok)) {c : SpscChannel Routed} {taken : Bool}
    (hc : c.pushed = if taken = true then (s.queues q).pushed ++ [x] else (s.queues q).pushed) :
    Books (pushed (setQueue s q c) i x ok taken q) := by
  have hidle := h.taken hjob hc
  have hgoOn : ∀ q₁, q₁.rank = q.rank + 1 →
      Books (RouterThreads.setCaller (setQueue s q c) i (.pushing q₁ .loadTail x (ok && taken))) := by
    intro q₁ hq₁
    have hset := hidle.setCaller (i := i) (.pushing q₁ .loadTail x (ok && taken)) ?_
    · simpa [RouterThreads.setCaller] using hset
    rintro q' x' ok' hj
    cases hj
    refine ⟨(JobInv.next h hjob hc hq₁).congr rfl (Nat.le_refl _), fun j q' x' ok' hji hj heq => ?_⟩
    rw [setCaller_other _ hji] at hj
    exact hji (h.distinct j i q' x' ok' q x ok hj hjob heq.symm)
  cases q with
  | validation => exact hgoOn .prediction rfl
  | prediction => exact hgoOn .persistence rfl
  | persistence =>
    refine { hidle with
      jobs := fun j q' x' ok' hj => (hidle.jobs j q' x' ok' hj).congr rfl (Nat.le_refl _)
      accepted := fun y hy q' hq' => ?_ }
    rcases mem_accepted_pushed hy with hold | ⟨rfl, hk, ho⟩
    · exact hidle.accepted y hold q' hq'
    · have hlt : q'.rank < RouterQueue.persistence.rank := by
        cases q' <;> simp_all [RouterQueue.rank]
      have hmem := (h.jobs i .persistence y ok hjob).behind ho hk q' hlt
      exact (congrArg (y ∈ ·.pushed) (setQueue_other c hq')).mpr hmem

theorem route_cases (s : State) (i : RouterThread) (ev : CrashEvent) (t0 : Int) :
    ∃ keys, route s i ev t0 = { s with calls := s.calls + 1, seenOrder := keys } ∨
      ∃ q, (ev.kind = .end → q = .validation) ∧
        route s i ev t0 = setCaller { s with calls := s.calls + 1, seenOrder := keys } i
          (.pushing q .loadTail { call := s.calls + 1, event := { ev with routedAtNs := t0 } } true) := by
  unfold route
  dsimp only
  split
  · exact ⟨s.seenOrder, Or.inl rfl⟩
  split
  · rename_i keys _
    exact ⟨keys, Or.inl rfl⟩
  · rename_i keys _
    refine ⟨keys, ?_⟩
    split
    · exact Or.inr ⟨.validation, fun _ => rfl, rfl⟩
    · rename_i hne
      split
      · exact Or.inr ⟨.persistence, fun hk => absurd hk hne, rfl⟩
      · exact Or.inl rfl

theorem Books.count (h : Books s) (keys : List String) : Books { s with calls := s.calls + 1, seenOrder := keys } :=
  { h with
    jobs := fun i q x ok hi => (h.jobs i q x ok hi).congr rfl (Nat.le_succ _)
    counted := fun q y hy => (h.counted q y hy).trans (Nat.le_succ _) }

theorem Books.route (h : Books s) (i : RouterThread) (ev : CrashEvent) (t0 : Int) :
    Books (RouterThreads.route s i ev t0) := by
  obtain ⟨keys, hstays | ⟨q, hq, hgoes⟩⟩ := route_cases s i ev t0
  · exact hstays ▸ h.count keys
  rw [hgoes]
  refine (h.count keys).setCaller _ ?_
  rintro q x ok hjob
  cases hjob
  refine ⟨⟨Nat.le_refl _, fun q' _ hmem => ?_, fun _ hk q' hlt => ?_⟩, fun j q' x' ok' _ hj heq => ?_⟩
  · obtain ⟨y, hy, heq⟩ := List.mem_map.mp hmem
    have := h.counted q' y hy
    dsimp only at heq
    omega
  · rw [hq hk] at hlt
    exact absurd hlt (Nat.not_lt_zero _)
  · have := (h.jobs j q' x' ok' hj).counted
    dsimp only at heq
    omega

/-- An access of a push: the call goes on with the push, or the push returns. -/
theorem push_inv (hs : step s (.push i) = some t) :
    ∃ q stage x ok, s.callers i = .pushing q stage x ok ∧
      ((∃ stage', ((s.queues q).push x stage).2 = .goesOn stage' ∧
        t = setCaller (setQueue s q ((s.queues q).push x stage).1) i (.pushing q stage' x ok)) ∨
       ∃ taken, ((s.queues q).push x stage).2 = .returns taken ∧
        t = pushed (setQueue s q ((s.queues q).push x stage).1) i x ok taken q) := by
  simp only [step] at hs
  rcases hi : s.callers i with _ | ⟨q, stage, x, ok⟩
  · simp [hi] at hs
  refine ⟨q, stage, x, ok, rfl, ?_⟩
  simp only [hi] at hs
  rcases hpush : (s.queues q).push x stage with ⟨c, stage' | taken⟩
  · simp only [hpush, Option.some.injEq] at hs
    exact Or.inl ⟨stage', rfl, hs.symm⟩
  · simp only [hpush, Option.some.injEq] at hs
    exact Or.inr ⟨taken, rfl, hs.symm⟩

theorem setQueue_pushed {c : SpscChannel Routed} (hc : c.pushed = (s.queues q).pushed) (q' : RouterQueue) :
    ((setQueue s q c).queues q').pushed = (s.queues q').pushed := by
  by_cases hq : q' = q
  · subst hq
    simpa using hc
  · rw [setQueue_other c hq]

theorem step_books {a : Act} (h : Books s) (hs : step s a = some t) : Books t := by
  cases a with
  | route i ev t0 =>
    simp only [step] at hs
    split at hs
    · cases hs
      exact h.route i ev t0
    · cases hs
  | push i =>
    obtain ⟨q, stage, x, ok, hi, ⟨stage', hgo, rfl⟩ | ⟨taken, hret, rfl⟩⟩ := push_inv hs
    · have hc := SpscChannel.push_pushed (s.queues q) x stage
      rw [if_neg (by simp [hgo])] at hc
      refine h.congr (fun j => ?_) (setQueue_pushed hc) rfl rfl
      by_cases hji : j = i
      · subst hji
        simp [hi, Caller.job]
      · rw [setCaller_other _ hji]
        rfl
    · have hc := SpscChannel.push_pushed (s.queues q) x stage
      rw [hret] at hc
      exact h.returned (by rw [hi]; rfl) (by simpa using hc)
  | pop q =>
    cases hs
    exact h.congr (fun _ => rfl) (setQueue_pushed SpscChannel.pop_pushed) rfl rfl

/-! ### The queues in memory -/

/-- The thread is between its full check of the queue and its tail store. -/
def Caller.PastCheck (q : RouterQueue) : Caller → Prop
  | .idle => False
  | .pushing q' stage _ _ => q' = q ∧ stage.Past

instance (q : RouterQueue) : DecidablePred (Caller.PastCheck q)
  | .idle => inferInstanceAs (Decidable False)
  | .pushing .. => inferInstanceAs (Decidable (_ ∧ _))

/-- If thread `i`, being at `c`, gets past the full check of the validation or of the prediction queue, it has loaded
    the tail that the queue still has, and the other thread is not past its own full check there. -/
def GoesFirst (s : State) (i : RouterThread) : Caller → Prop
  | .idle => True
  | .pushing q stage _ _ =>
    q ≠ .persistence → (s.queues q).Enters stage → (s.queues q).Fresh stage ∧ ¬(s.callers i.other).PastCheck q

def NotOvertaken (s : State) : Act → Prop
  | .push i => GoesFirst s i (s.callers i)
  | .route .. | .pop _ => True

instance (s : State) (i : RouterThread) : DecidablePred (GoesFirst s i)
  | .idle => inferInstanceAs (Decidable True)
  | .pushing .. => inferInstanceAs (Decidable (_ → _ → _))

instance (s : State) : DecidablePred (NotOvertaken s)
  | .push _ => inferInstanceAs (Decidable (GoesFirst ..))
  | .route .. | .pop _ => inferInstanceAs (Decidable True)

structure Held (s : State) : Prop where
  queues : ∀ q, q ≠ .persistence → (s.queues q).Inv
  pushes : ∀ i q stage x ok, s.callers i = .pushing q stage x ok → q ≠ .persistence → (s.queues q).PushInv x stage
  alone : ∀ q, q ≠ .persistence → (s.callers .socket).PastCheck q → ¬(s.callers .pollWorker).PastCheck q

theorem held_initial (queueCapacity : Nat) : Held (initial queueCapacity) where
  queues _ _ := SpscChannel.inv_new queueCapacity
  pushes _ _ _ _ _ h := by cases h
  alone _ _ h := h.elim

theorem eq_or_eq_other (i j : RouterThread) : j = i ∨ j = i.other := by
  cases i <;> cases j <;> simp [RouterThread.other]

theorem other_ne (i : RouterThread) : i.other ≠ i := by
  cases i <;> simp [RouterThread.other]

theorem Held.alone' (h : Held s) (hq : q ≠ .persistence) (hi : (s.callers i).PastCheck q) :
    ¬(s.callers i.other).PastCheck q := by
  cases i with
  | socket => exact h.alone q hq hi
  | pollWorker => exact fun hp => h.alone q hq hp hi

/-- One thread, and at most one queue, change. -/
theorem Held.moved (h : Held s) (c : Caller) (d : SpscChannel Routed)
    (hd : q ≠ .persistence → d.Inv)
    (hother : ∀ stage x ok, s.callers i.other = .pushing q stage x ok → q ≠ .persistence → d.PushInv x stage)
    (hself : ∀ q' stage x ok, c = .pushing q' stage x ok → q' ≠ .persistence → ((setQueue s q d).queues q').PushInv x stage)
    (halone : ∀ q', q' ≠ .persistence → c.PastCheck q' → ¬(s.callers i.other).PastCheck q') :
    Held (setCaller (setQueue s q d) i c) where
  queues q' hq' := by
    by_cases hq : q' = q
    · subst hq
      simpa [setCaller] using hd hq'
    · rw [setCaller, setQueue_other d hq]
      exact h.queues q' hq'
  pushes j q' stage x ok hj hq' := by
    rcases eq_or_eq_other i j with rfl | rfl
    · rw [setCaller_self] at hj
      exact hself q' stage x ok hj hq'
    · rw [setCaller_other _ (other_ne i)] at hj
      by_cases hq : q' = q
      · subst hq
        simpa [setCaller] using hother stage x ok hj hq'
      · rw [setCaller, setQueue_other d hq]
        exact h.pushes i.other q' stage x ok hj hq'
  alone q' hq' := by
    have hi := setCaller_self (s := setQueue s q d) (i := i) c
    have ho := setCaller_other (s := setQueue s q d) c (other_ne i)
    cases i with
    | socket =>
      rw [hi, show (setCaller (setQueue s q d) .socket c).callers .pollWorker = s.callers .pollWorker from ho]
      exact halone q' hq'
    | pollWorker =>
      rw [hi, show (setCaller (setQueue s q d) .pollWorker c).callers .socket = s.callers .socket from ho]
      exact fun hs hc => halone q' hq' hc hs

/-- What the other thread relies on in the queue of a push is not disturbed. -/
theorem Held.other_pushInv {stage stage' : SpscCells.Push} {ok' : Bool} (h : Held s) (hq : q ≠ .persistence)
    (hi : s.callers i = .pushing q stage x ok) (ho : s.callers i.other = .pushing q stage' y ok') :
    ((s.queues q).push x stage).1.PushInv y stage' := by
  have hy := h.pushes i.other q stage' y ok' ho hq
  by_cases hpast : stage.Past
  · have hno : ¬(s.callers i.other).PastCheck q := h.alone' hq (hi ▸ ⟨rfl, hpast⟩)
    rw [ho] at hno
    cases stage' with
    | loadTail | loadHead t => trivial
    | write t | storeTail t => exact absurd ⟨rfl, trivial⟩ hno
  · rwa [SpscChannel.push_of_not_past hpast]

theorem Held.push (h : Held s) (hok : NotOvertaken s (.push i)) (hs : step s (.push i) = some t) : Held t := by
  obtain ⟨q, stage, x, ok, hi, hcase⟩ := push_inv hs
  have hfirst : GoesFirst s i (s.callers i) := hok
  rw [hi] at hfirst
  have hfresh : q ≠ .persistence → (s.queues q).Fresh stage := by
    intro hq
    by_cases he : (s.queues q).Enters stage
    · exact (hfirst hq he).1
    · exact SpscChannel.fresh_of_not_enters he
  have hother : ∀ stage' y ok', s.callers i.other = .pushing q stage' y ok' → q ≠ .persistence →
      ((s.queues q).push x stage).1.PushInv y stage' := fun stage' y ok' ho hq => h.other_pushInv hq hi ho
  have hinv : q ≠ .persistence → ((s.queues q).push x stage).1.Inv := fun hq =>
    (h.queues q hq).push (h.pushes i q stage x ok hi hq) (hfresh hq)
  obtain ⟨stage', hgo, rfl⟩ | ⟨taken, -, rfl⟩ := hcase
  · refine h.moved _ _ hinv hother ?_ ?_
    · rintro q' stage x ok ⟨⟩ hq
      rw [setQueue_self]
      exact SpscChannel.PushInv.push (h.queues q hq) (h.pushes i q _ _ _ hi hq) (hfresh hq) hgo
    · rintro q' hq' ⟨rfl, hpast⟩
      rcases SpscChannel.enters_or_past hgo hpast with he | hp
      · exact (hfirst hq' he).2
      · exact h.alone' hq' (hi ▸ ⟨rfl, hp⟩)
  · -- The call goes on with a push that has not loaded anything, or is over.
    have hnext : ∀ q₁ ok₁, Held (setCaller (setQueue s q ((s.queues q).push x stage).1) i (.pushing q₁ .loadTail x ok₁)) := by
      intro q₁ ok₁
      refine h.moved _ _ hinv hother ?_ fun _ _ hp => hp.2.elim
      rintro q' stage' x' ok' ⟨⟩ -
      trivial
    cases q with
    | validation => exact hnext .prediction (ok && taken)
    | prediction => exact hnext .persistence (ok && taken)
    | persistence =>
      have hidle := h.moved (i := i) .idle _ hinv hother (fun _ _ _ _ hc => by cases hc) fun _ _ hp => hp.elim
      exact ⟨hidle.queues, hidle.pushes, hidle.alone⟩

theorem Held.pop (h : Held s) (q : RouterQueue) : Held (setQueue s q (s.queues q).pop) where
  queues q' hq' := by
    by_cases hq : q' = q
    · subst hq
      simpa using (h.queues q' hq').pop
    · rw [setQueue_other _ hq]
      exact h.queues q' hq'
  pushes i q' stage x ok hi hq' := by
    have hp := h.pushes i q' stage x ok hi hq'
    by_cases hq : q' = q
    · subst hq
      simpa using hp.pop (h.queues q' hq')
    · rwa [setQueue_other _ hq]
  alone := h.alone

theorem Held.route (h : Held s) (i : RouterThread) (ev : CrashEvent) (t0 : Int) :
    Held (RouterThreads.route s i ev t0) := by
  obtain ⟨keys, hstays | ⟨q, -, hgoes⟩⟩ := route_cases s i ev t0
  · exact hstays ▸ ⟨h.queues, h.pushes, h.alone⟩
  · rw [hgoes]
    have hnoted : Held { s with calls := s.calls + 1, seenOrder := keys } := ⟨h.queues, h.pushes, h.alone⟩
    have hset := hnoted.moved (i := i) (q := q)
      (.pushing q .loadTail { call := s.calls + 1, event := { ev with routedAtNs := t0 } } true) (s.queues q) (h.queues q)
      (fun stage x ok ho hq => h.pushes i.other q stage x ok ho hq) ?_ fun _ _ hp => hp.2.elim
    · rwa [show setQueue { s with calls := s.calls + 1, seenOrder := keys } q (s.queues q) = _ from
        congrArg (fun queues => { s with calls := s.calls + 1, seenOrder := keys, queues }) (Function.update_eq_self ..)]
        at hset
    · rintro q' stage' x' ok' ⟨⟩ -
      trivial

theorem step_held {a : Act} (h : Held s) (hok : NotOvertaken s a) (hs : step s a = some t) : Held t := by
  cases a with
  | route i ev t0 =>
    simp only [step] at hs
    split at hs
    · cases hs
      exact h.route i ev t0
    · cases hs
  | push i => exact h.push hok hs
  | pop q =>
    cases hs
    exact h.pop q

/-! ### Runs -/

theorem filter_call_eq {l : List Routed} (hl : (l.map (·.call)).Nodup) (hx : x ∈ l) :
    l.filter (·.call = x.call) = [x] := by
  induction l with
  | nil => cases hx
  | cons y l ih =>
    obtain ⟨hy, hl⟩ := List.nodup_cons.mp hl
    rcases List.mem_cons.mp hx with rfl | hx
    · have hrest : l.filter (·.call = x.call) = [] := List.filter_eq_nil_iff.mpr fun z hz heq =>
        hy (List.mem_map.mpr ⟨z, hz, of_decide_eq_true heq⟩)
      simp [hrest]
    · have hne : y.call ≠ x.call := fun heq => hy (List.mem_map.mpr ⟨x, hx, heq.symm⟩)
      simpa [hne] using ih hl hx

theorem Held.routesOnce (h : Held s) (hb : Books s) : RoutesOnce s where
  once q hq x hx := by
    rw [(h.queues q hq).popped_append_contents]
    exact filter_call_eq (hb.nodup q) (hb.accepted x hx q hq)
  drains q hq hs := (h.queues q hq).drains hs

/-- As long as no push is overtaken, every accepted End is routed once to both queues, in every state of a run. -/
theorem routesOnce_of_reaches (queueCapacity : Nat) (hr : Reaches step NotOvertaken (initial queueCapacity) s) :
    RoutesOnce s := by
  have hinv := hr.invariant (P := fun s => Held s ∧ Books s) ⟨held_initial queueCapacity, books_initial queueCapacity⟩
    fun _ _ _ h hok hs => ⟨step_held h.1 hok hs, step_books h.2 hs⟩
  exact hinv.1.routesOnce hinv.2

/-! Two Ends, each routed by its own thread. -/

def endEvent (gameId : GameId) : CrashEvent := { kind := .end, gameId, valid := true }

def accesses (i : RouterThread) (n : Nat) : List Act := List.replicate n (.push i)

/-- The poll worker starts when the socket thread has pushed its End to the validation queue. -/
def inTurn : List Act :=
  List.flatten
    [.route .socket (endEvent "a") 1 :: accesses .socket 4, .route .pollWorker (endEvent "b") 2 :: accesses .pollWorker 4,
      accesses .socket 8, accesses .pollWorker 8, List.replicate 4 (.pop .validation)]

/-- Both threads load the tail of the validation queue before one of them stores it. -/
def overtaken : List Act :=
  List.flatten
    [[.route .socket (endEvent "a") 1, .route .pollWorker (endEvent "b") 2],
      (List.replicate 4 [.push .socket, .push .pollWorker]).flatten, accesses .socket 8, accesses .pollWorker 8]

theorem inTurn_routesOnce : ∃ s, run step (initial 4) inTurn = some s ∧ s.accepted.map (·.call) = [1, 2] ∧ RoutesOnce s := by
  have hrun : ((run step (initial 4) inTurn).map fun s => s.accepted.map (·.call)) = some [1, 2] := by decide +kernel
  have hmeets : Meets step NotOvertaken (initial 4) inTurn := by decide +kernel
  obtain ⟨s, hs, hacc⟩ := Option.map_eq_some_iff.mp hrun
  exact ⟨s, hs, hacc, routesOnce_of_reaches 4 (Reaches.of_run hmeets hs)⟩

/-- Both calls returned true, and the validation queue has only the event of the second. -/
theorem overtaken_not_routesOnce : ¬∀ s, Reaches step anyStep (initial 4) s → RoutesOnce s := by
  intro h
  have hrun : ((run step (initial 4) overtaken).map fun s =>
      (s.accepted.map (·.call), ((s.queues .validation).popped ++ (s.queues .validation).contents).map (·.call))) =
      some ([1, 2], [2]) := by decide +kernel
  obtain ⟨s, hs, heq⟩ := Option.map_eq_some_iff.mp hrun
  obtain ⟨hacc, hthere⟩ := Prod.mk.inj heq
  have honce := (h s (Reaches.of_run (meets_anyStep ..) hs)).once .validation nofun
  obtain ⟨x, hx, hcall⟩ := List.mem_map.mp (hacc ▸ List.mem_cons_self : 1 ∈ s.accepted.map (·.call))
  have hmem : x ∈ (s.queues .validation).popped ++ (s.queues .validation).contents :=
    List.mem_of_mem_filter (honce x hx ▸ List.mem_singleton_self x)
  have hcalls := List.mem_map_of_mem (f := (·.call)) hmem
  rw [hthere, hcall] at hcalls
  simp at hcalls

end RouterThreads

/-! ### Backpressure

What `route` leaves behind when it reports backpressure. It notes the key of an End before it pushes, and pushes to each
queue whatever the other ones say. -/

namespace EventRouter

variable {r r' : EventRouter} {ev : CrashEvent} {t0 : Int}

/-- What the consumers make of the router: they pop from the three queues, in any order and as often as they like. -/
inductive Popped (r : EventRouter) : EventRouter → Prop
  | refl : Popped r r
  | validation {r' r'' : EventRouter} {ev : CrashEvent} : Popped r r' → r'.popValidation = some (ev, r'') → Popped r r''
  | prediction {r' r'' : EventRouter} {ev : CrashEvent} : Popped r r' → r'.popPrediction = some (ev, r'') → Popped r r''
  | persistence {r' r'' : EventRouter} {ev : CrashEvent} : Popped r r' → r'.popPersistence = some (ev, r'') → Popped r r''

/-- The event is put into the validation and into the prediction queue, once. -/
def EnqueuesOnce (r : EventRouter) (ev : CrashEvent) (t0 : Int) : Prop :=
  (r.route ev t0).1.toValidation.items = r.toValidation.items ++ [{ ev with routedAtNs := t0 }] ∧
  (r.route ev t0).1.toPrediction.items = r.toPrediction.items ++ [{ ev with routedAtNs := t0 }]

/-- An event that `route` reports as not taken is in no queue and not remembered, and taken by both queues when it is
    routed again after they got room. -/
structure LeftOut (r : EventRouter) (ev : CrashEvent) (t0 : Int) : Prop where
  validation : (r.route ev t0).1.toValidation.items = r.toValidation.items
  prediction : (r.route ev t0).1.toPrediction.items = r.toPrediction.items
  persistence : (r.route ev t0).1.toPersistence.items = r.toPersistence.items
  forgotten : ¬(r.route ev t0).1.Remembers ev
  again : ∀ r' t1, (r.route ev t0).1.Popped r' → ¬r'.toValidation.Full → ¬r'.toPrediction.Full → r'.EnqueuesOnce ev t1

def UndoesBackpressure (r : EventRouter) (ev : CrashEvent) (t0 : Int) : Prop :=
  (r.route ev t0).2 = false → r.LeftOut ev t0

/-! ### When backpressure is reported -/

/-- Backpressure is reported for a new End that one of the two queues does not take, and for nothing else. -/
theorem route_eq_false : (r.route ev t0).2 = false ↔
    (ev.valid = true ∧ ev.kind = .end ∧ ¬r.Remembers ev) ∧ (r.toValidation.Full ∨ r.toPrediction.Full) := by
  by_cases hv : ev.valid = true
  swap
  · simp [route, hv]
  by_cases hnew : r.Remembers ev
  · rw [route_valid t0 hv, noteSeen_of_old hnew]
    simp [hnew]
  by_cases hk : ev.kind = .end
  · have htaken := (route_newEnd t0 hv hk hnew).taken
    rw [← Bool.not_eq_true, htaken]
    tauto
  · rw [route_valid t0 hv, noteSeen_of_new hnew]
    by_cases hstart : ev.kind = .start
    · simp [hstart]
    · simp [hk, hstart]

/-! ### What stays of an event that was not taken -/

/-- The key of a new event is noted. -/
theorem remembers_noteSeen (h : ev.gameId ≠ "") : (r.noteSeen ev).1.Remembers ev := by
  refine ⟨h, ?_⟩
  unfold noteSeen
  rw [if_neg h]
  split
  · simp
  · exact List.mem_popFrontTo (show ([] : List String).length < maxSeen by decide) r.seenOrder

/-- The event is no new End, or both queues take it, or no queue has room and it has no key. -/
def AllOrNothing (r : EventRouter) (ev : CrashEvent) : Prop :=
  ev.valid = true → ev.kind = .end → ¬r.Remembers ev →
    (¬r.toValidation.Full ∧ ¬r.toPrediction.Full) ∨
    (ev.gameId = "" ∧ r.toValidation.Full ∧ r.toPrediction.Full ∧ r.toPersistence.Full)

theorem full_of_items_offer {q : SpscQueue CrashEvent} {x : CrashEvent} (h : (q.offer x).items = q.items) : q.Full := by
  by_contra hfull
  rw [SpscQueue.items_offer hfull] at h
  simp at h

theorem leftOut_of_full (t0 : Int) (hv : ev.valid = true) (hk : ev.kind = .end) (hid : ev.gameId = "")
    (hval : r.toValidation.Full) (hpred : r.toPrediction.Full) (hpers : r.toPersistence.Full) : r.LeftOut ev t0 := by
  have hnone : ∀ r : EventRouter, ¬r.Remembers ev := fun _ hc => hc.1 hid
  have hoff := route_newEnd t0 hv hk (hnone r)
  refine ⟨?_, ?_, ?_, hnone _, fun r' t1 _ hval' hpred' => ?_⟩
  · rw [hoff.validation, SpscQueue.offer_of_full hval]
  · rw [hoff.prediction, SpscQueue.offer_of_full hpred]
  · rw [hoff.persistence, SpscQueue.offer_of_full hpers]
  · have hagain := route_newEnd t1 hv hk (hnone r')
    exact ⟨by rw [hagain.validation, SpscQueue.items_offer hval'], by rw [hagain.prediction, SpscQueue.items_offer hpred']⟩

theorem LeftOut.full (h : r.LeftOut ev t0) (hv : ev.valid = true) (hk : ev.kind = .end) (hnew : ¬r.Remembers ev) :
    ev.gameId = "" ∧ r.toValidation.Full ∧ r.toPrediction.Full ∧ r.toPersistence.Full := by
  have hoff := route_newEnd t0 hv hk hnew
  refine ⟨?_, full_of_items_offer (hoff.validation ▸ h.validation), full_of_items_offer (hoff.prediction ▸ h.prediction),
    full_of_items_offer (hoff.persistence ▸ h.persistence)⟩
  by_contra hid
  obtain ⟨-, hkey⟩ := remembers_noteSeen (r := r) hid
  exact h.forgotten ⟨hid, hoff.noted ▸ hkey⟩

theorem undoesBackpressure_iff (r : EventRouter) (ev : CrashEvent) (t0 : Int) :
    r.UndoesBackpressure ev t0 ↔ r.AllOrNothing ev := by
  constructor
  · intro h hv hk hnew
    by_cases hfull : r.toValidation.Full ∨ r.toPrediction.Full
    · exact Or.inr ((h (route_eq_false.mpr ⟨⟨hv, hk, hnew⟩, hfull⟩)).full hv hk hnew)
    · exact Or.inl (not_or.mp hfull)
  · intro h hfalse
    obtain ⟨⟨hv, hk, hnew⟩, hfull⟩ := route_eq_false.mp hfalse
    rcases h hv hk hnew with ⟨hval, hpred⟩ | ⟨hid, hval, hpred, hpers⟩
    · exact absurd hfull (not_or.mpr ⟨hval, hpred⟩)
    · exact leftOut_of_full t0 hv hk hid hval hpred hpers

/-- The End of round `g2`, while that of `g1` waits for validation in a queue for one event. -/
theorem not_undoesBackpressure_slowValidation :
    ¬UndoesBackpressure
      { toPrediction := .new 2
        toValidation := ⟨2, [{ kind := .end, gameId := "g1", valid := true }], by decide, by decide⟩
        toPersistence := .new 2
        seenOrder := ["g1:3:0"] }
      { kind := .end, gameId := "g2", valid := true } 0 := by
  intro h
  have hpred := (h (by decide)).prediction
  revert hpred
  decide

end EventRouter
end CrashCore
