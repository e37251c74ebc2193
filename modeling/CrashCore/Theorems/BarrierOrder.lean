import CrashCore.Library.Firsts
import CrashCore.Observability.ReadinessBarrier
import Mathlib.Data.List.Nodup
import Mathlib.Data.List.Perm.Basic

/-! The readiness barrier keeps all events and their order, as long as nobody holds an event that no drain will find and
no event overtakes an earlier one of its thread. -/

namespace CrashCore
namespace ReadinessBarrier
open Transition

variable {s t : State} {i j : Nat} {c : Thread} {x y : Admitted}

/-- Events of one thread are handled in the order of their admission, and with the barrier fully up and no call left
    every event was handled once or dropped, and the drops were counted. -/
structure KeepsEvents (s : State) : Prop where
  defined : s.undefined = false
  ordered : s.handled.Pairwise fun x y => x.thread = y.thread → x.id < y.id
  once : (s.handled ++ s.lost).Nodup
  settled : (∀ i, i < s.n → s.threads i = .idle) → s.stage = .fullHydrationReady →
    s.held = [] ∧ (s.handled ++ s.lost).Perm s.admitted ∧ s.dropped = s.lost.length

/-! ### The condition -/

/-- The events that the thread is draining. -/
def Thread.batch : Thread → List Admitted
  | .handling batch => batch
  | _ => []

/-- The events that are held or in a batch. -/
def waiting (s : State) : List Admitted := s.held ++ List.gather s.n fun j => (s.threads j).batch

/-- No earlier event of the same thread is held or being drained. -/
def IsNext (s : State) (x : Admitted) : Prop := ∀ y ∈ waiting s, y.thread = x.thread → x.id ≤ y.id

/-- There is a drain to come after this moment. -/
def DrainToCome (s : State) : Prop :=
  s.stage.toNat < ReadinessStage.fullHydrationReady.toNat ∨ ∃ j, j < s.n ∧ s.threads j = .drain

def StepKeeps (s : State) : Thread → Prop
  | .handle x | .handling (x :: _) => IsNext s x
  | .hold _ => 0 < s.holdCapacity ∧ DrainToCome s
  | .idle | .check _ | .load _ | .exchange .. | .drain | .handling [] => True

/-- The handler is called for the next event of its thread only, and an event is held only with a positive capacity and
    a drain to come. -/
def Orderly (s : State) : Act → Prop
  | .go i _ => StepKeeps s (s.threads i)
  | .admitEvent .. | .advanceTo .. => True

instance (s : State) (x : Admitted) : Decidable (IsNext s x) := inferInstanceAs (Decidable (∀ y ∈ _, _ → _))

instance (s : State) : Decidable (DrainToCome s) :=
  decidable_of_iff (s.stage.toNat < ReadinessStage.fullHydrationReady.toNat ∨
      ∃ j ∈ List.range s.n, (match s.threads j with | .drain => true | _ => false) = true) <| by
    refine or_congr_right (exists_congr fun j => ?_)
    rw [List.mem_range]
    refine and_congr_right fun _ => ?_
    cases s.threads j <;> simp

instance (s : State) : DecidablePred (StepKeeps s)
  | .handle _ | .handling (_ :: _) => inferInstanceAs (Decidable (IsNext ..))
  | .hold _ => inferInstanceAs (Decidable (_ ∧ _))
  | .idle | .check _ | .load _ | .exchange .. | .drain | .handling [] => inferInstanceAs (Decidable True)

instance (s : State) : DecidablePred (Orderly s)
  | .go .. => inferInstanceAs (Decidable (StepKeeps ..))
  | .admitEvent .. | .advanceTo .. => inferInstanceAs (Decidable True)

/-! ### The invariant -/

/-- The event that a call of `admit` has in its hands. -/
def Thread.current : Thread → Option Admitted
  | .check x | .handle x | .hold x => some x
  | _ => none

def Thread.events (c : Thread) : List Admitted := c.current.toList ++ c.batch

/-- All events in the hands of threads. -/
def inHands (s : State) : List Admitted := List.gather s.n fun i => (s.threads i).events

/-- All events, by where they are. -/
def places (s : State) : List Admitted := s.handled ++ s.lost ++ (s.held ++ inHands s)

theorem count_places :
    (places s).count x = s.handled.count x + s.lost.count x + (s.held.count x + (inHands s).count x) := by
  simp only [places, List.count_append]

structure Inv (s : State) : Prop where
  numbered : s.admitted.map (·.id) = List.range' 1 s.admitted.length
  everywhere : ∀ x, (places s).count x = s.admitted.count x
  current : ∀ i, i < s.n → ∀ x, (s.threads i).current = some x →
    x.thread = i ∧ ∀ y ∈ s.admitted, y.thread = i → y.id ≤ x.id
  defined : s.undefined = false
  dropped : s.dropped = s.lost.length
  drained : s.held = [] ∨ DrainToCome s
  ordered : s.handled.Pairwise fun x y => x.thread = y.thread → x.id < y.id
  ahead : ∀ x ∈ s.handled, ∀ y ∈ s.held ++ inHands s, x.thread = y.thread → x.id < y.id

theorem Inv.nodup_ids (h : Inv s) : (s.admitted.map (·.id)).Nodup := h.numbered ▸ List.nodup_range'

theorem Inv.perm (h : Inv s) : (places s).Perm s.admitted := List.perm_iff_count.mpr h.everywhere

theorem Inv.eq_of_id (h : Inv s) (hx : x ∈ s.admitted) (hy : y ∈ s.admitted) (hid : x.id = y.id) : x = y :=
  List.inj_on_of_nodup_map h.nodup_ids hx hy hid

theorem Inv.nodup_places (h : Inv s) : (places s).Nodup := h.perm.nodup_iff.mpr (List.Nodup.of_map _ h.nodup_ids)

theorem Inv.keepsEvents (h : Inv s) : KeepsEvents s where
  defined := h.defined
  ordered := h.ordered
  once := (List.nodup_append.mp h.nodup_places).1
  settled hidle hstage := by
    have hheld : s.held = [] := by
      refine h.drained.resolve_right ?_
      rintro (hlt | ⟨j, hj, hdrain⟩)
      · rw [hstage] at hlt
        exact absurd hlt (Nat.lt_irrefl _)
      · rw [hidle j hj] at hdrain
        cases hdrain
    have hhands : inHands s = [] := by
      refine List.eq_nil_iff_forall_not_mem.mpr fun x hx => ?_
      obtain ⟨i, hi, hx⟩ := List.mem_gather.mp hx
      rw [hidle i hi] at hx
      cases hx
    have hperm := h.perm
    rw [places, hheld, hhands, List.append_nil, List.append_nil] at hperm
    exact ⟨hheld, hperm, h.dropped⟩

theorem inv_initial (n holdCapacity : Nat) : Inv (initial n holdCapacity) where
  numbered := rfl
  everywhere x := by simp [places, inHands, initial, Thread.events, Thread.current, Thread.batch]
  current _ _ _ h := by cases h
  defined := rfl
  dropped := rfl
  drained := Or.inl rfl
  ordered := List.Pairwise.nil
  ahead _ h := by cases h

/-! ### Steps -/

@[simp] theorem setThread_self : (setThread s i c).threads i = c := Function.update_self ..

theorem setThread_other (h : j ≠ i) : (setThread s i c).threads j = s.threads j := Function.update_of_ne h ..

theorem count_inHands (hi : i < s.n) (c : Thread) (x : Admitted) :
    (inHands (setThread s i c)).count x + (s.threads i).events.count x = (inHands s).count x + c.events.count x := by
  have hcount := List.count_gather (x := x) (g := fun j => ((setThread s i c).threads j).events)
    (f := fun j => (s.threads j).events) hi fun j _ hne => by rw [setThread_other hne]
  rwa [setThread_self] at hcount

theorem DrainToCome.congr (h : DrainToCome s) (hstage : t.stage = s.stage) (hn : t.n = s.n)
    (hthreads : ∀ j, s.threads j = .drain → t.threads j = .drain) : DrainToCome t := by
  rcases h with hlt | ⟨j, hj, hdrain⟩
  · exact Or.inl (hstage ▸ hlt)
  · exact Or.inr ⟨j, hn ▸ hj, hthreads j hdrain⟩

theorem drain_kept (hi : s.threads i ≠ .drain) (hj : s.threads j = .drain) : (setThread s i c).threads j = .drain := by
  have hne : j ≠ i := by
    rintro rfl
    exact hi hj
  rw [setThread_other hne, hj]

/-- Events go from the hands of a thread to the buffer, or the other way, or are dropped. -/
theorem Inv.moved (h : Inv s) (hi : i < s.n) (c : Thread) (stage : ReadinessStage) (held extra : List Admitted)
    (hcount : ∀ x, extra.count x + held.count x + c.events.count x = s.held.count x + (s.threads i).events.count x)
    (hcurrent : ∀ x, c.current = some x → (s.threads i).current = some x)
    (hdrained : held = [] ∨ DrainToCome (setThread { s with stage } i c)) :
    Inv (setThread { s with stage, held, dropped := s.dropped + extra.length, lost := s.lost ++ extra } i c) := by
  have hhands := count_inHands hi c
  have hplaces : ∀ x, extra.count x + held.count x + (inHands (setThread s i c)).count x =
      s.held.count x + (inHands s).count x := fun x => by
    have := hcount x
    have := hhands x
    omega
  refine
    { numbered := h.numbered
      everywhere := fun x => ?_
      current := fun j hj x hx => ?_
      defined := h.defined
      dropped := by simp [setThread, h.dropped]
      drained := hdrained.imp_right fun hd => hd
      ordered := h.ordered
      ahead := fun x hx y hy => h.ahead x hx y ?_ }
  · have hall := h.everywhere x
    have := hplaces x
    rw [count_places] at hall
    have hnow : (places (setThread { s with stage, held, dropped := s.dropped + extra.length, lost := s.lost ++ extra }
        i c)).count x = s.handled.count x + (s.lost ++ extra).count x +
          (held.count x + (inHands (setThread s i c)).count x) := count_places
    rw [List.count_append] at hnow
    refine hnow.trans ?_
    change _ = s.admitted.count x
    omega
  · by_cases hji : j = i
    · subst hji
      rw [setThread_self] at hx
      exact h.current j hj x (hcurrent x hx)
    · rw [setThread_other hji] at hx
      exact h.current j hj x hx
  · have hpos : 0 < held.count y + (inHands (setThread s i c)).count y := by
      have := List.count_pos_iff.mpr hy
      rwa [List.count_append] at this
    have := hplaces y
    rw [← List.count_pos_iff, List.count_append]
    omega

theorem IsNext.le (h : Inv s) (hnext : IsNext s x) (hx : x ∈ s.admitted) (hy : y ∈ s.held ++ inHands s)
    (hthread : x.thread = y.thread) : x.id ≤ y.id := by
  rcases List.mem_append.mp hy with hy | hy
  · exact hnext y (List.mem_append_left _ hy) hthread.symm
  · obtain ⟨j, hj, hy⟩ := List.mem_gather.mp hy
    rcases List.mem_append.mp hy with hy | hy
    · obtain ⟨howner, hlast⟩ := h.current j hj y (Option.mem_toList.mp hy)
      exact hlast x hx (hthread.trans howner)
    · exact hnext y (List.mem_append_right _ (List.mem_gather.mpr ⟨j, hj, hy⟩)) hthread.symm

/-- The handler is called for an event in the hands of the thread. -/
theorem Inv.handle (h : Inv s) (hi : i < s.n) (hevents : (s.threads i).events = x :: c.events) (hnext : IsNext s x)
    (hcurrent : ∀ y, c.current = some y → (s.threads i).current = some y) (hdrain : s.threads i ≠ .drain) :
    Inv (setThread { s with handled := s.handled ++ [x] } i c) := by
  have hhands : ∀ y, (inHands (setThread s i c)).count y + [x].count y = (inHands s).count y := fun y => by
    have hcount := count_inHands hi c y
    rw [hevents, List.count_cons] at hcount
    rw [List.count_singleton]
    omega
  have heverywhere : ∀ y, (places (setThread { s with handled := s.handled ++ [x] } i c)).count y = s.admitted.count y := by
    intro y
    have hall := h.everywhere y
    have := hhands y
    rw [count_places] at hall
    have hnow : (places (setThread { s with handled := s.handled ++ [x] } i c)).count y =
        (s.handled ++ [x]).count y + s.lost.count y + (s.held.count y + (inHands (setThread s i c)).count y) := count_places
    rw [List.count_append] at hnow
    omega
  have hx : x ∈ s.admitted := by
    rw [← List.count_pos_iff, ← heverywhere, List.count_pos_iff]
    simp [places, setThread]
  have hnodup : (places (setThread { s with handled := s.handled ++ [x] } i c)).Nodup :=
    (List.perm_iff_count.mpr heverywhere).nodup_iff.mpr (List.Nodup.of_map _ h.nodup_ids)
  have hsub : ∀ y ∈ s.held ++ inHands (setThread s i c), y ∈ s.held ++ inHands s := fun y hy => by
    rw [← List.count_pos_iff, List.count_append] at hy ⊢
    have := hhands y
    omega
  exact
    { numbered := h.numbered
      everywhere := heverywhere
      current := fun j hj y hy => by
        by_cases hji : j = i
        · subst hji
          rw [setThread_self] at hy
          exact h.current j hj y (hcurrent y hy)
        · rw [setThread_other hji] at hy
          exact h.current j hj y hy
      defined := h.defined
      dropped := h.dropped
      drained := h.drained.imp_right fun hd => hd.congr rfl rfl fun j hj => drain_kept hdrain hj
      ordered := by
        refine List.pairwise_append.mpr ⟨h.ordered, List.pairwise_singleton .., fun z hz y hy => ?_⟩
        rw [List.mem_singleton.mp hy]
        have hmem : x ∈ inHands s := List.mem_gather.mpr ⟨i, hi, hevents ▸ List.mem_cons_self⟩
        exact h.ahead z hz x (List.mem_append_right _ hmem)
      ahead := fun z hz y hy hthread => by
        rcases List.mem_append.mp hz with hz | hz
        · exact h.ahead z hz y (hsub y hy) hthread
        · obtain rfl := List.mem_singleton.mp hz
          have hne : y ≠ z := by
            rintro rfl
            exact List.disjoint_of_nodup_append hnodup (by simp [setThread]) hy
          have hy' : y ∈ s.admitted := h.perm.mem_iff.mp (List.mem_append_right _ (hsub y hy))
          refine Nat.lt_of_le_of_ne (hnext.le h hx (hsub y hy) hthread) fun hid => hne (h.eq_of_id hy' hx hid.symm) }

theorem live_or_full (target : ReadinessStage) :
    target.toNat < ReadinessStage.fullHydrationReady.toNat ∨ ReadinessStage.liveN1Ready.toNat ≤ target.toNat := by
  cases target <;> simp [ReadinessStage.toNat]

theorem Inv.hold (h : Inv s) (hi : i < s.n) (hx : s.threads i = .hold x) (hcap : 0 < s.holdCapacity) (hdrain : DrainToCome s) :
    Inv (setThread (push s x) i .idle) := by
  have hnot : s.threads i ≠ .drain := by rw [hx]; nofun
  have hd : DrainToCome (setThread { s with stage := s.stage } i .idle) :=
    hdrain.congr rfl rfl fun j hj => drain_kept hnot hj
  have hevents : (s.threads i).events = [x] := by rw [hx]; rfl
  unfold push
  split
  · rename_i hfull
    rcases hheld : s.held with _ | ⟨y, rest⟩
    · rw [hheld] at hfull
      exact absurd hcap (Nat.not_lt.mpr hfull)
    · have hmoved := h.moved hi .idle s.stage (rest ++ [x]) [y] (fun z => ?_) (fun _ hc => by cases hc) (Or.inr hd)
      · simpa [hheld] using hmoved
      · rw [hevents, hheld]
        simp only [Thread.events, Thread.current, Thread.batch, Option.toList, List.count_append, List.count_cons,
          List.count_nil]
        omega
  · have hmoved := h.moved hi .idle s.stage (s.held ++ [x]) [] (fun z => ?_) (fun _ hc => by cases hc) (Or.inr hd)
    · simpa using hmoved
    · rw [hevents, List.count_append]
      simp only [Thread.events, Thread.current, Thread.batch, Option.toList, List.count_nil, List.append_nil]
      omega

theorem Inv.id_le (h : Inv s) (hx : x ∈ s.admitted) : x.id ≤ s.admitted.length := by
  have hid : x.id ∈ s.admitted.map (·.id) := List.mem_map_of_mem hx
  rw [h.numbered, List.mem_range'_1] at hid
  omega

theorem Inv.new (h : Inv s) (hi : i < s.n) (hidle : s.threads i = .idle) (event : CrashEvent) :
    Inv (setThread { s with admitted := s.admitted ++ [{ id := s.admitted.length + 1, thread := i, event }] } i
      (.check { id := s.admitted.length + 1, thread := i, event })) := by
  set x : Admitted := { id := s.admitted.length + 1, thread := i, event } with hx
  have hhands : ∀ y, (inHands (setThread s i (.check x))).count y = (inHands s).count y + [x].count y := fun y => by
    have hcount := count_inHands hi (.check x) y
    rw [hidle] at hcount
    simpa [Thread.events, Thread.current, Thread.batch] using hcount
  have hnot : s.threads i ≠ .drain := by rw [hidle]; nofun
  exact
    { numbered := by simp [setThread, h.numbered, hx, List.range'_concat, Nat.add_comm]
      everywhere := fun y => by
        have hall := h.everywhere y
        have := hhands y
        rw [count_places] at hall
        have hnow : (places (setThread { s with admitted := s.admitted ++ [x] } i (.check x))).count y =
            s.handled.count y + s.lost.count y + (s.held.count y + (inHands (setThread s i (.check x))).count y) :=
          count_places
        refine hnow.trans ?_
        change _ = (s.admitted ++ [x]).count y
        rw [List.count_append]
        omega
      current := fun j hj z hz => by
        by_cases hji : j = i
        · subst hji
          rw [setThread_self] at hz
          obtain rfl : z = x := (Option.some.inj hz).symm
          refine ⟨rfl, fun y hy _ => ?_⟩
          rcases List.mem_append.mp hy with hy | hy
          · exact Nat.le_succ_of_le (h.id_le hy)
          · rw [List.mem_singleton.mp hy]
        · rw [setThread_other hji] at hz
          obtain ⟨howner, hlast⟩ := h.current j hj z hz
          refine ⟨howner, fun y hy hthread => ?_⟩
          rcases List.mem_append.mp hy with hy | hy
          · exact hlast y hy hthread
          · rw [List.mem_singleton.mp hy] at hthread
            exact absurd hthread.symm hji
      defined := h.defined
      dropped := h.dropped
      drained := h.drained.imp_right fun hd => hd.congr rfl rfl fun j hj => drain_kept hnot hj
      ordered := h.ordered
      ahead := fun z hz y hy hthread => by
        have hcount : 0 < (s.held ++ inHands s).count y + [x].count y := by
          have hpos := List.count_pos_iff.mpr hy
          have := hhands y
          have hnow : (setThread { s with admitted := s.admitted ++ [x] } i (.check x)).held.count y +
              (inHands (setThread { s with admitted := s.admitted ++ [x] } i (.check x))).count y =
              s.held.count y + (inHands (setThread s i (.check x))).count y := rfl
          rw [List.count_append] at hpos ⊢
          omega
        by_cases hold : y ∈ s.held ++ inHands s
        · exact h.ahead z hz y hold hthread
        · rw [List.count_eq_zero_of_not_mem hold, Nat.zero_add, List.count_pos_iff, List.mem_singleton] at hcount
          have hz' : z ∈ s.admitted := h.perm.mem_iff.mp
            (List.mem_append_left _ (List.mem_append_left _ hz))
          rw [hcount]
          exact Nat.lt_succ_of_le (h.id_le hz') }

/-- The thread goes on, and no event changes its place. -/
theorem Inv.goOn (h : Inv s) (hi : i < s.n) (hevents : c.events = (s.threads i).events)
    (hcurrent : ∀ x, c.current = some x → (s.threads i).current = some x) (hdrain : s.threads i ≠ .drain) :
    Inv (setThread s i c) := by
  have hmoved := h.moved hi c s.stage s.held [] (fun x => by rw [hevents]; simp) hcurrent
    (h.drained.imp_right fun hd => hd.congr rfl rfl fun j hj => drain_kept hdrain hj)
  simpa using hmoved

theorem attempt_events (expected target : ReadinessStage) : (attempt expected target).events = [] := by
  unfold attempt
  split <;> rfl

theorem attempt_current (expected target : ReadinessStage) : (attempt expected target).current = none := by
  unfold attempt
  split <;> rfl

theorem Inv.go {spurious : Bool} (h : Inv s) (hi : i < s.n) (hok : StepKeeps s (s.threads i))
    (hs : go s i spurious = some t) : Inv t := by
  unfold ReadinessBarrier.go at hs
  split at hs <;> rename_i hc <;> rw [hc] at hok
  · cases hs
  · rename_i x
    cases hs
    have hnot : s.threads i ≠ .drain := by rw [hc]; nofun
    split
    · exact h.goOn hi (by rw [hc]; rfl) (fun y hy => by rw [hc]; exact hy) hnot
    · exact h.goOn hi (by rw [hc]; rfl) (fun y hy => by rw [hc]; exact hy) hnot
  · rename_i x
    cases hs
    exact h.handle hi (by rw [hc]; rfl) hok (fun _ hy => by cases hy) (by rw [hc]; nofun)
  · rename_i x
    cases hs
    exact h.hold hi hc hok.1 hok.2
  · rename_i target
    cases hs
    refine h.goOn hi ?_ (fun y hy => ?_) (by rw [hc]; nofun)
    · rw [hc, attempt_events]
      rfl
    · rw [attempt_current] at hy
      cases hy
  · rename_i expected target
    have hnot : s.threads i ≠ .drain := by rw [hc]; nofun
    have hevents : (s.threads i).events = [] := by rw [hc]; rfl
    split at hs
    · cases hs
      have hmoved : ∀ c : Thread, c.events = [] → c.current = none →
          DrainToCome (setThread { s with stage := target } i c) → Inv (setThread { s with stage := target } i c) := by
        intro c hc hnone hdrain
        have hmoved := h.moved hi c target s.held [] (fun x => by rw [hc, hevents]; simp)
          (fun y hy => by rw [hnone] at hy; cases hy) (Or.inr hdrain)
        simpa using hmoved
      split
      · exact hmoved .drain rfl rfl (Or.inr ⟨i, hi, setThread_self⟩)
      · rename_i hnlive
        exact hmoved .idle rfl rfl (Or.inl ((live_or_full target).resolve_right hnlive))
    · cases hs
      refine h.goOn hi ?_ (fun y hy => ?_) hnot
      · rw [hevents, attempt_events]
      · rw [attempt_current] at hy
        cases hy
  · cases hs
    have hmoved := h.moved hi (.handling s.held) s.stage [] [] (fun x => ?_) (fun _ hy => by cases hy) (Or.inl rfl)
    · simpa using hmoved
    · rw [hc]
      simp [Thread.events, Thread.current, Thread.batch]
  · cases hs
    exact h.goOn hi (by rw [hc]; rfl) (fun _ hy => by cases hy) (by rw [hc]; nofun)
  · rename_i x batch
    cases hs
    exact h.handle hi (by rw [hc]; rfl) hok (fun _ hy => by cases hy) (by rw [hc]; nofun)

theorem step_inv {a : Act} (h : Inv s) (hok : Orderly s a) (hs : step s a = some t) : Inv t := by
  cases a with
  | admitEvent i event =>
    simp only [step] at hs
    split at hs
    · rename_i hidle
      split at hs
      · rename_i hi
        cases hs
        exact h.new hi hidle event
      · cases hs
    · cases hs
  | advanceTo i target =>
    simp only [step] at hs
    split at hs
    · rename_i hidle
      split at hs
      · rename_i hi
        cases hs
        exact h.goOn hi (by rw [hidle]; rfl) (fun _ hy => by cases hy) (by rw [hidle]; nofun)
      · cases hs
    · cases hs
  | go i spurious =>
    simp only [step] at hs
    split at hs
    · rename_i hi
      exact h.go hi hok hs
    · cases hs

/-- In every state of an orderly run, for every hold capacity and every number of threads. -/
theorem keepsEvents_of_reaches (n holdCapacity : Nat) (hr : Reaches step Orderly (initial n holdCapacity) s) :
    KeepsEvents s :=
  (hr.invariant (inv_initial n holdCapacity) fun _ _ _ h hok hs => step_inv h hok hs).keepsEvents

/-! Thread 0 brings the barrier up while thread 1 has one event. -/

/-- An uncontended `advanceTo` of thread 0: load and exchange, then the drain of `handlers` events. -/
def advance (target : ReadinessStage) (handlers : Nat) : List Act :=
  .advanceTo 0 target :: List.replicate (handlers + 4) (.go 0 false)

/-- The event is held before the barrier goes up. -/
def heldInTime : List Act :=
  List.flatten [[.admitEvent 1 {}, .go 1 false, .go 1 false], advance .liveN1Ready 1, advance .fullHydrationReady 0]

/-- Thread 1 has read the stage before the barrier goes up, and holds the event when it is up. -/
def heldTooLate : List Act :=
  List.flatten [[.admitEvent 1 {}, .go 1 false], advance .liveN1Ready 0, advance .fullHydrationReady 0, [.go 1 false]]

theorem heldInTime_keepsEvents : ∃ s, run step (initial 2 8) heldInTime = some s ∧
    (s.stage = .fullHydrationReady ∧ s.handled.map (·.id) = [1]) ∧ KeepsEvents s := by
  have hrun : ((run step (initial 2 8) heldInTime).map fun s => (s.stage, s.handled.map (·.id))) =
      some (.fullHydrationReady, [1]) := by decide +kernel
  have hmeets : Meets step Orderly (initial 2 8) heldInTime := by decide +kernel
  obtain ⟨s, hs, heq⟩ := Option.map_eq_some_iff.mp hrun
  exact ⟨s, hs, by simpa using heq, keepsEvents_of_reaches 2 8 (Reaches.of_run hmeets hs)⟩

def isIdle : Thread → Bool
  | .idle => true
  | _ => false

theorem eq_idle_of_isIdle {thread : Thread} (h : isIdle thread = true) : thread = .idle := by
  cases thread with
  | idle => rfl
  | check _ | handle _ | hold _ | load _ | exchange _ _ | drain | handling _ => cases h

/-- All calls have returned, the barrier is fully up, and the event is still held. -/
theorem heldTooLate_not_keepsEvents : ¬∀ s, Reaches step anyStep (initial 2 8) s → KeepsEvents s := by
  intro h
  have hrun : ((run step (initial 2 8) heldTooLate).map fun s =>
      (s.stage, s.held.map (·.id), (List.range s.n).all fun i => isIdle (s.threads i), s.n)) =
      some (.fullHydrationReady, [1], true, 2) := by decide +kernel
  obtain ⟨s, hs, heq⟩ := Option.map_eq_some_iff.mp hrun
  obtain ⟨hstage, hheld, hidle, -⟩ : s.stage = .fullHydrationReady ∧ s.held.map (·.id) = [1] ∧
      ((List.range s.n).all fun i => isIdle (s.threads i)) = true ∧ s.n = 2 := by simpa using heq
  have hsettled := (h s (Reaches.of_run (meets_anyStep ..) hs)).settled (fun i hi => ?_) hstage
  · simp [hsettled.1] at hheld
  · exact eq_idle_of_isIdle (List.all_eq_true.mp hidle i (List.mem_range.mpr hi))

end ReadinessBarrier

end CrashCore
