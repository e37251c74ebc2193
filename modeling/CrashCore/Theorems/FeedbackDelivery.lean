import CrashCore.Library.Run
import CrashCore.Validation.FeedbackDispatcher

/-! What becomes of the outcomes that are dispatched. Only the worker looks at the keys, and only while it runs is there
anyone to take an outcome from the queue. -/

namespace CrashCore
namespace FeedbackDispatcher
open Transition

variable {s t : FeedbackDispatcher} {a : Act} {o : Outcome} {k : String}

/-- The non-empty keys of outcomes. -/
def keys (os : List Outcome) : List String := (os.map key).filter (· ≠ "")

/-- When `stop` has returned, each outcome whose `dispatch` has returned was handed over, dropped or found to be a
    duplicate, once; no key is handed over twice. -/
structure Delivers (s : FeedbackDispatcher) : Prop where
  lossless : s.stop = .returned → s.returned.Perm (s.handed ++ s.dropped ++ s.duped)
  counted : s.drops = s.dropped.length ∧ s.dupes = s.duped.length
  once : (keys s.handed).Nodup

/-- A call of `dispatch` hands over a new key only, and pushes nothing when the worker has ended. -/
def Caller.Careful (s : FeedbackDispatcher) : Caller → Prop
  | .handing o => key o = "" ∨ (key o ∉ s.aside ∧ key o ∉ s.seen ∧ key o ∉ s.forgotten)
  | .pushing _ => s.worker ≠ .finished ∨ s.queue.Full
  | .idle | .reading _ => True

/-- The worker ends with an empty queue only, and a key that it does not find was neither handed over by `dispatch` nor
    forgotten. -/
def Worker.Careful (s : FeedbackDispatcher) : Worker → Prop
  | .looping => s.running = true ∨ s.queue.items = []
  | .holding o => key o = "" ∨ key o ∈ s.seen ∨ (key o ∉ s.aside ∧ key o ∉ s.forgotten)
  | .absent | .popping | .handing _ | .finished => True

def Careful (s : FeedbackDispatcher) : Act → Prop
  | .proceed => s.caller.Careful s
  | .work => s.worker.Careful s
  | .start | .dispatch _ | .stop => True

instance (s : FeedbackDispatcher) : DecidablePred (Caller.Careful s)
  | .handing _ | .pushing _ => inferInstanceAs (Decidable (_ ∨ _))
  | .idle | .reading _ => inferInstanceAs (Decidable True)

instance (s : FeedbackDispatcher) : DecidablePred (Worker.Careful s)
  | .looping | .holding _ => inferInstanceAs (Decidable (_ ∨ _))
  | .absent | .popping | .handing _ | .finished => inferInstanceAs (Decidable True)

instance (s : FeedbackDispatcher) : DecidablePred (Careful s)
  | .proceed => inferInstanceAs (Decidable (s.caller.Careful s))
  | .work => inferInstanceAs (Decidable (s.worker.Careful s))
  | .start | .dispatch _ | .stop => inferInstanceAs (Decidable True)

/-! ### Where an outcome is -/

/-- The outcome that the worker holds. -/
def Worker.hand : Worker → List Outcome
  | .holding o | .handing o => [o]
  | .absent | .looping | .popping | .finished => []

/-- The outcome that the worker will hand over. -/
def Worker.flight : Worker → List Outcome
  | .handing o => [o]
  | .absent | .looping | .popping | .holding _ | .finished => []

def Worker.Ended : Worker → Prop
  | .absent | .finished => True
  | .looping | .popping | .holding _ | .handing _ => False

/-- The returned calls are accounted for, and an ended worker leaves nothing in the queue. -/
structure Accounted (s : FeedbackDispatcher) : Prop where
  count : ∀ o, s.returned.count o = s.handed.count o + s.dropped.count o + s.duped.count o + s.queue.items.count o +
    s.worker.hand.count o
  counted : s.drops = s.dropped.length ∧ s.dupes = s.duped.length
  empty : s.worker.Ended → s.queue.items = []
  started : s.worker = .absent → s.running = false ∧ ∀ o, s.caller ≠ .pushing o
  fresh : s.stop = .notCalled → s.running = false → s.worker = .absent
  stopped : s.stop = .returned → s.worker.Ended

/-- A key that was or will be handed over is noted somewhere. -/
structure Noted (s : FeedbackDispatcher) : Prop where
  once : (keys (s.handed ++ s.worker.flight)).Nodup
  noted : ∀ k ∈ keys (s.handed ++ s.worker.flight), k ∈ s.aside ∨ k ∈ s.seen ∨ k ∈ s.forgotten

theorem accounted_initial (queueCapacity : Nat) : Accounted (initial queueCapacity) :=
  ⟨fun _ => rfl, ⟨rfl, rfl⟩, fun _ => rfl, fun _ => ⟨rfl, fun _ h => by cases h⟩, fun _ _ => rfl, fun h => by cases h⟩

theorem noted_initial (queueCapacity : Nat) : Noted (initial queueCapacity) :=
  ⟨List.nodup_nil, fun _ h => absurd h List.not_mem_nil⟩

theorem Accounted.lossless (h : Accounted s) (hstop : s.stop = .returned) :
    s.returned.Perm (s.handed ++ s.dropped ++ s.duped) := by
  have hended := h.stopped hstop
  have hhand : s.worker.hand = [] := by
    cases hw : s.worker with
    | absent | finished => rfl
    | looping | popping => rfl
    | holding o | handing o => rw [hw] at hended; exact hended.elim
  refine List.perm_iff_count.mpr fun o => ?_
  have hcount := h.count o
  rw [h.empty hended, hhand] at hcount
  simpa [Nat.add_assoc] using hcount

/-! ### Keys -/

@[simp] theorem keys_append (os os' : List Outcome) : keys (os ++ os') = keys os ++ keys os' := by
  simp [keys]

theorem mem_keys_singleton : k ∈ keys [o] ↔ k = key o ∧ key o ≠ "" := by
  by_cases h : key o = "" <;> simp [keys, h]

theorem nodup_keys_singleton (o : Outcome) : (keys [o]).Nodup := (List.pairwise_singleton _ _).filter _

/-- One more outcome is or will be handed over, with a key that was not noted before and is now. -/
theorem Noted.add (h : Noted s)
    (hkeys : (keys (t.handed ++ t.worker.flight)).Perm (keys [o] ++ keys (s.handed ++ s.worker.flight)))
    (hnew : ∀ k ∈ keys [o], k ∉ s.aside ∧ k ∉ s.seen ∧ k ∉ s.forgotten)
    (hnoted : ∀ k, k ∈ keys [o] ∨ k ∈ s.aside ∨ k ∈ s.seen ∨ k ∈ s.forgotten → k ∈ t.aside ∨ k ∈ t.seen ∨ k ∈ t.forgotten) :
    Noted t where
  once := by
    refine hkeys.nodup_iff.mpr (List.nodup_append.mpr ⟨nodup_keys_singleton o, h.once, ?_⟩)
    rintro k hk _ hk' rfl
    obtain ⟨haside, hseen, hforgotten⟩ := hnew k hk
    rcases h.noted k hk' with hin | hin | hin
    · exact haside hin
    · exact hseen hin
    · exact hforgotten hin
  noted k hk := by
    rcases List.mem_append.mp (hkeys.mem_iff.mp hk) with hone | hold
    · exact hnoted k (.inl hone)
    · exact hnoted k (.inr (h.noted k hold))

theorem Noted.congr (h : Noted s) (hhanded : t.handed ++ t.worker.flight = s.handed ++ s.worker.flight)
    (haside : t.aside = s.aside) (hseen : t.seen = s.seen) (hforgotten : t.forgotten = s.forgotten) : Noted t :=
  ⟨by rw [hhanded]; exact h.once, by rw [hhanded, haside, hseen, hforgotten]; exact h.noted⟩

theorem delivers (h : Accounted s) (hn : Noted s) : Delivers s := by
  refine ⟨h.lossless, h.counted, ?_⟩
  have honce := hn.once
  rw [keys_append] at honce
  exact (List.nodup_append.mp honce).1

/-! ### Steps -/

/-- What `insert` does to the keys, and that it does nothing else. -/
theorem insert_keys (s : FeedbackDispatcher) (k : String) : ∃ seen forgotten, s.insert k = { s with seen, forgotten } ∧
    ∀ k', k' = k ∨ k' ∈ s.seen ∨ k' ∈ s.forgotten → k' ∈ seen ∨ k' ∈ forgotten := by
  by_cases hmany : 10000 < (s.seen ++ [k]).length
  · refine ⟨[], s.forgotten ++ (s.seen ++ [k]), if_pos hmany, fun k' hk' => .inr ?_⟩
    simp only [List.mem_append, List.mem_singleton]
    tauto
  · refine ⟨s.seen ++ [k], s.forgotten, if_neg hmany, fun k' hk' => ?_⟩
    simp only [List.mem_append, List.mem_singleton]
    tauto

theorem Noted.proceed (h : Noted s) (hok : s.caller.Careful s) (hs : proceed s = some t) : Noted t := by
  rw [FeedbackDispatcher.proceed] at hs
  split at hs <;> rename_i hcaller
  · cases hs
  · cases hs
    exact h.congr rfl rfl rfl rfl
  · rename_i o
    cases hs
    rw [hcaller] at hok
    refine h.add (o := o) ?_ ?_ ?_
    · show (keys (s.handed ++ [o] ++ s.worker.flight)).Perm _
      simp only [keys_append, List.append_assoc]
      exact List.perm_append_comm_assoc ..
    · intro k hk
      obtain ⟨rfl, hne⟩ := mem_keys_singleton.mp hk
      exact hok.resolve_left hne
    · rintro k (hk | haside | hnoted)
      · exact .inl (List.mem_append_right _ (List.mem_singleton.mpr (mem_keys_singleton.mp hk).1))
      · exact .inl (List.mem_append_left _ haside)
      · exact .inr hnoted
  · split at hs <;> cases hs
    · exact h.congr rfl rfl rfl rfl
    · exact h.congr rfl rfl rfl rfl

theorem Noted.work (h : Noted s) (hok : s.worker.Careful s) (hs : work s = some t) : Noted t := by
  rw [FeedbackDispatcher.work] at hs
  split at hs <;> rename_i hworker
  · cases hs
  · cases hs
  · cases hs
    refine h.congr ?_ rfl rfl rfl
    rw [hworker]
    dsimp only
    split <;> rfl
  · split at hs <;> cases hs
    · exact h.congr (by rw [hworker]; rfl) rfl rfl rfl
    · exact h.congr (by rw [hworker]; rfl) rfl rfl rfl
  · rename_i o
    rw [hworker] at hok
    have hflight : s.worker.flight = [] := by rw [hworker]; rfl
    have hkeys : (keys (s.handed ++ [o])).Perm (keys [o] ++ keys (s.handed ++ s.worker.flight)) := by
      rw [hflight, List.append_nil, keys_append]
      exact List.perm_append_comm
    split at hs
    · rename_i hempty
      cases hs
      refine h.add (o := o) hkeys ?_ ?_
      · exact fun k hk => absurd hempty (mem_keys_singleton.mp hk).2
      · rintro k (hk | hnoted)
        · exact absurd hempty (mem_keys_singleton.mp hk).2
        · exact hnoted
    · rename_i hne
      split at hs
      · cases hs
        refine h.congr ?_ rfl rfl rfl
        rw [hflight]
        rfl
      · rename_i hunseen
        obtain ⟨haside, hforgotten⟩ := (hok.resolve_left hne).resolve_left hunseen
        obtain ⟨seen, forgotten, hinsert, hmem⟩ := insert_keys s (key o)
        rw [hinsert] at hs
        cases hs
        refine h.add (o := o) hkeys ?_ ?_
        · intro k hk
          obtain ⟨rfl, -⟩ := mem_keys_singleton.mp hk
          exact ⟨haside, hunseen, hforgotten⟩
        · rintro k (hk | hin | hnoted)
          · exact .inr (hmem k (.inl (mem_keys_singleton.mp hk).1))
          · exact .inl hin
          · exact .inr (hmem k (.inr hnoted))
  · cases hs
    refine h.congr ?_ rfl rfl rfl
    rw [hworker]
    simp [hand, Worker.flight]

theorem Accounted.proceed (h : Accounted s) (hok : s.caller.Careful s) (hs : proceed s = some t) : Accounted t := by
  rw [FeedbackDispatcher.proceed] at hs
  split at hs <;> rename_i hcaller
  · cases hs
  · rename_i o
    cases hs
    refine { h with started := fun habsent => ⟨(h.started habsent).1, fun o' ho' => ?_⟩ }
    dsimp only at ho'
    rw [(h.started habsent).1] at ho'
    cases ho'
  · rename_i o
    cases hs
    refine { h with count := fun x => ?_, started := fun habsent => ⟨(h.started habsent).1, fun o' ho' => by cases ho'⟩ }
    have hcount := h.count x
    simp only [ret, hand, List.count_append]
    omega
  · rename_i o
    rw [hcaller] at hok
    split at hs <;> cases hs
    · rename_i queue hpush
      obtain ⟨hroom, hitems⟩ := SpscQueue.tryPush_eq_some hpush
      have hgoes : ¬s.worker.Ended := by
        intro hended
        cases hw : s.worker with
        | absent => exact (h.started hw).2 o hcaller
        | finished => exact hroom (hok.resolve_left (not_not_intro hw))
        | looping | popping | holding _ | handing _ => rw [hw] at hended; exact hended
      refine { h with
        count := fun x => ?_
        empty := fun hended => absurd hended hgoes
        started := fun habsent => ⟨(h.started habsent).1, fun o' ho' => by cases ho'⟩ }
      have hcount := h.count x
      simp only [ret, hitems, List.count_append]
      omega
    · refine { h with
        count := fun x => ?_
        counted := ⟨?_, h.counted.2⟩
        started := fun habsent => ⟨(h.started habsent).1, fun o' ho' => by cases ho'⟩ }
      · have hcount := h.count x
        simp only [ret, List.count_append]
        omega
      · simp only [List.length_append, List.length_singleton, h.counted.1]

/-- A step of the worker keeps the accounts if what it holds goes where it is counted. -/
theorem Accounted.worked (h : Accounted s) (hgoes : ¬s.worker.Ended) (hrunning : t.running = s.running)
    (hstop : t.stop = s.stop) (hworker : t.worker ≠ .absent) (hempty : t.worker = .finished → t.queue.items = [])
    (hcounted : t.drops = t.dropped.length ∧ t.dupes = t.duped.length)
    (hcount : ∀ o, t.returned.count o = t.handed.count o + t.dropped.count o + t.duped.count o +
      t.queue.items.count o + t.worker.hand.count o) : Accounted t where
  count := hcount
  counted := hcounted
  empty hended := by
    cases hw : t.worker with
    | absent => exact absurd hw hworker
    | finished => exact hempty hw
    | looping | popping | holding _ | handing _ => rw [hw] at hended; exact hended.elim
  started habsent := absurd habsent hworker
  fresh hnot hrun := by
    have habsent := h.fresh (hstop ▸ hnot) (hrunning ▸ hrun)
    rw [habsent] at hgoes
    exact absurd trivial hgoes
  stopped hret := absurd (h.stopped (hstop ▸ hret)) hgoes

theorem Accounted.work (h : Accounted s) (hok : s.worker.Careful s) (hs : work s = some t) : Accounted t := by
  rw [FeedbackDispatcher.work] at hs
  split at hs <;> rename_i hworker
  · cases hs
  · cases hs
  all_goals
    have hgoes : ¬s.worker.Ended := by rw [hworker]; exact id
    have hcount := h.count
    rw [hworker] at hcount hok
  · cases hs
    by_cases hrunning : s.running = true
    · rw [if_pos hrunning]
      exact h.worked hgoes rfl rfl (by simp) (by simp) h.counted hcount
    · have hempty : s.queue.items = [] := hok.resolve_left hrunning
      rw [if_neg hrunning]
      exact h.worked hgoes rfl rfl (by simp) (fun _ => hempty) h.counted hcount
  · split at hs <;> cases hs
    · rename_i o queue hpop
      have hitems := SpscQueue.tryPop_eq_some hpop
      refine h.worked hgoes rfl rfl (by simp) (by simp) h.counted fun x => ?_
      have hx := hcount x
      rw [hitems, ← List.singleton_append, List.count_append] at hx
      simp only [Worker.hand, List.count_nil] at hx ⊢
      omega
    · exact h.worked hgoes rfl rfl (by simp) (by simp) h.counted hcount
  · rename_i o
    split at hs
    · cases hs
      exact h.worked hgoes rfl rfl (by simp) (by simp) h.counted hcount
    · split at hs
      · cases hs
        refine h.worked hgoes rfl rfl (by simp) (by simp) ⟨h.counted.1, ?_⟩ fun x => ?_
        · simp only [List.length_append, List.length_singleton, h.counted.2]
        · have hx := hcount x
          simp only [Worker.hand, List.count_append, List.count_nil] at hx ⊢
          omega
      · obtain ⟨seen, forgotten, hinsert, -⟩ := insert_keys s (key o)
        rw [hinsert] at hs
        cases hs
        exact h.worked hgoes rfl rfl (by simp) (by simp) h.counted hcount
  · rename_i o
    cases hs
    refine h.worked hgoes rfl rfl (by simp) (by simp) h.counted fun x => ?_
    have hx := hcount x
    simp only [hand, Worker.hand, List.count_append, List.count_nil] at hx ⊢
    omega

theorem step_start (hs : step s .start = some t) :
    s.stop = .notCalled ∧ (t = s ∨ (s.running = false ∧ t = { s with running := true, worker := .looping })) := by
  simp only [step] at hs
  split at hs <;> cases hs
  rename_i hstop
  refine ⟨hstop, ?_⟩
  rw [start]
  split
  · exact .inl rfl
  · rename_i hrunning
    exact .inr ⟨by simpa using hrunning, rfl⟩

theorem step_dispatch {o : Outcome} (hs : step s (.dispatch o) = some t) :
    t = { s with dispatched := s.dispatched + 1, caller := .reading o } := by
  simp only [step] at hs
  split at hs <;> cases hs
  rfl

/-- `stop` closes the queue, and returns when the worker has ended or was never started. -/
theorem step_stop (hs : step s .stop = some t) : t = { s with running := false, stop := .joining } ∨
    ((s.worker = .absent ∨ s.worker = .finished) ∧ t = { s with stop := .returned }) := by
  simp only [step, stopStep] at hs
  split at hs
  · cases hs
    exact .inl rfl
  · split at hs <;> rename_i hworker <;> cases hs
    · exact .inr ⟨.inl hworker, rfl⟩
    · exact .inr ⟨.inr hworker, rfl⟩
  · cases hs

theorem step_accounted (h : Accounted s) (hok : Careful s a) (hs : step s a = some t) : Accounted t := by
  cases a with
  | start =>
    obtain ⟨hstop, rfl | ⟨hrunning, rfl⟩⟩ := step_start hs
    · exact h
    have habsent := h.fresh hstop hrunning
    refine ⟨?_, h.counted, fun hended => hended.elim, fun habsent => (by cases habsent), fun _ hrun => (by cases hrun), ?_⟩
    · have hcount := h.count
      rwa [habsent] at hcount
    · intro hret
      rw [hstop] at hret
      cases hret
  | dispatch o =>
    obtain rfl := step_dispatch hs
    exact { h with started := fun habsent => ⟨(h.started habsent).1, fun o' ho' => by cases ho'⟩ }
  | proceed => exact h.proceed hok hs
  | work => exact h.work hok hs
  | stop =>
    obtain rfl | ⟨hworker, rfl⟩ := step_stop hs
    · exact { h with
        started := fun habsent => ⟨rfl, (h.started habsent).2⟩
        fresh := fun hnot => by cases hnot
        stopped := fun hret => by cases hret }
    · rcases hworker with hworker | hworker
      · exact { h with fresh := fun hnot => (by cases hnot), stopped := fun _ => hworker ▸ trivial }
      · exact { h with fresh := fun hnot => (by cases hnot), stopped := fun _ => hworker ▸ trivial }

theorem step_noted (h : Noted s) (ha : Accounted s) (hok : Careful s a) (hs : step s a = some t) : Noted t := by
  cases a with
  | start =>
    obtain ⟨hstop, rfl | ⟨hrunning, rfl⟩⟩ := step_start hs
    · exact h
    have habsent := ha.fresh hstop hrunning
    refine h.congr ?_ rfl rfl rfl
    rw [habsent]
    rfl
  | dispatch o =>
    obtain rfl := step_dispatch hs
    exact h.congr rfl rfl rfl rfl
  | proceed => exact h.proceed hok hs
  | work => exact h.work hok hs
  | stop => obtain rfl | ⟨-, rfl⟩ := step_stop hs <;> exact h.congr rfl rfl rfl rfl

/-- In every run of careful steps. -/
theorem delivers_along (queueCapacity : Nat) (as : List Act) (h : Meets step Careful (initial queueCapacity) as) :
    Along step Delivers (initial queueCapacity) as :=
  Meets.along (I := fun s => Accounted s ∧ Noted s) (fun _ h => delivers h.1 h.2)
    (fun _ _ _ h hok hs => ⟨step_accounted h.1 hok hs, step_noted h.2 h.1 hok hs⟩)
    ⟨accounted_initial queueCapacity, noted_initial queueCapacity⟩ h

def won : Outcome := { predictionId := "p1", roundId := "r1" }

/-- An outcome is dispatched before the start, another one twice while the worker runs. -/
def dispatches : List Act :=
  let dispatch (o : Outcome) : List Act := [.dispatch o, .proceed, .proceed]
  dispatch { won with predictionId := "" } ++ [.start] ++ dispatch won ++ dispatch won ++ List.replicate 8 .work ++
    [.stop, .work, .work, .stop]

theorem delivers_dispatches : ∃ s, run step (initial 4) dispatches = some s ∧ s.stop = .returned ∧
    s.handed.map key = ["r1", "p1"] ∧ s.duped.map key = ["p1"] ∧ Delivers s := by
  have hmeets : Meets step Careful (initial 4) dispatches := by decide +kernel
  have hrun : ∃ s, run step (initial 4) dispatches = some s ∧ s.stop = .returned ∧ s.handed.map key = ["r1", "p1"] ∧
      s.duped.map key = ["p1"] := ⟨_, rfl, by decide +kernel, by decide +kernel, by decide +kernel⟩
  obtain ⟨s, hs, hstop, hhanded, hduped⟩ := hrun
  exact ⟨s, hs, hstop, hhanded, hduped, (delivers_along 4 dispatches hmeets).last hs⟩

/-- The same outcome twice, before the start. -/
def twiceAside : List Act := [.dispatch won, .proceed, .proceed, .dispatch won, .proceed, .proceed]

/-- The outcome is in the queue when the dispatcher is stopped. -/
def stillQueued : List Act := [.start, .dispatch won, .proceed, .proceed, .stop, .work, .stop]

/-- The first run hands it over twice, the second one not at all. -/
theorem not_delivers_along :
    ¬Along step Delivers (initial 4) twiceAside ∧ ¬Along step Delivers (initial 4) stillQueued := by
  constructor
  · have hrun : ∃ s, run step (initial 4) twiceAside = some s ∧ keys s.handed = ["p1", "p1"] :=
      ⟨_, rfl, by decide +kernel⟩
    obtain ⟨s, hs, hkeys⟩ := hrun
    refine not_along_of_last hs fun hdelivers => ?_
    have honce := hdelivers.once
    rw [hkeys] at honce
    exact absurd honce (by decide)
  · have hrun : ∃ s, run step (initial 4) stillQueued = some s ∧ s.stop = .returned ∧ s.returned.length = 1 ∧
        (s.handed ++ s.dropped ++ s.duped).length = 0 :=
      ⟨_, rfl, by decide +kernel, by decide +kernel, by decide +kernel⟩
    obtain ⟨s, hs, hstop, hone, hnone⟩ := hrun
    refine not_along_of_last hs fun hdelivers => ?_
    have hlen := (hdelivers.lossless hstop).length_eq
    rw [hone, hnone] at hlen
    cases hlen

end FeedbackDispatcher
end CrashCore
