import CrashCore.Live.LiveBoot
import CrashCore.Theorems.BarrierOrder

/-! What has been done when the barrier comes up, over all interleavings of the boot with the threads that bring events. -/

namespace CrashCore
namespace LiveBoot
open Transition ReadinessBarrier

variable {s t : State} {deps : Deps} {done : List Op} {stage stage' : ReadinessStage} {i : Nat} {c : Thread}

/-- Events are handled at once in this stage. -/
def Live (stage : ReadinessStage) : Prop := ReadinessStage.liveN1Ready.toNat ≤ stage.toNat

instance : DecidablePred Live := fun _ => inferInstanceAs (Decidable (_ ≤ _))

/-- Where a thread may be: the boot advances to stages of `done` only, and no event is handled before the barrier is
    live. -/
def Fits (done : List Op) (stage : ReadinessStage) (i : Nat) : Thread → Prop
  | .idle => True
  | .check _ | .hold _ => i ≠ 0
  | .handle _ => i ≠ 0 ∧ Live stage
  | .load target => i = 0 ∧ .advanceTo target ∈ done
  | .exchange expected target => i = 0 ∧ .advanceTo target ∈ done ∧ expected.toNat < target.toNat
  | .drain | .handling _ => i = 0 ∧ Live stage

theorem Fits.mono {more : List Op} (hlive : Live stage → Live stage') (h : Fits done stage i c) :
    Fits (done ++ more) stage' i c := by
  cases c with
  | idle => trivial
  | check | hold => exact h
  | handle => exact ⟨h.1, hlive h.2⟩
  | load => exact ⟨h.1, List.mem_append_left _ h.2⟩
  | exchange => exact ⟨h.1, List.mem_append_left _ h.2.1, h.2.2⟩
  | drain | handling => exact ⟨h.1, hlive h.2⟩

structure Kept (done : List Op) (b : ReadinessBarrier.State) : Prop where
  threads : ∀ i, Fits done b.stage i (b.threads i)
  stage : b.stage = .booting ∨ .advanceTo b.stage ∈ done
  handled : b.handled ≠ [] → Live b.stage

/-- A thread goes to a place where it may be, and the stage may become a live one. -/
theorem Kept.moved {b b' : ReadinessBarrier.State} (h : Kept done b) (hlive : Live b.stage → Live b'.stage)
    (hthreads : b'.threads = Function.update b.threads i c) (hc : Fits done b'.stage i c)
    (hstage : b'.stage = .booting ∨ .advanceTo b'.stage ∈ done) (hhandled : b'.handled ≠ [] → Live b'.stage) :
    Kept done b' := by
  refine ⟨fun j => ?_, hstage, hhandled⟩
  rw [hthreads]
  by_cases hj : j = i
  · subst hj
    rwa [Function.update_self]
  · rw [Function.update_of_ne hj]
    have hfits : Fits (done ++ []) b'.stage j (b.threads j) := (h.threads j).mono hlive
    rwa [List.append_nil] at hfits

theorem fits_attempt {expected target : ReadinessStage} (htarget : .advanceTo target ∈ done) :
    Fits done stage 0 (attempt expected target) := by
  unfold attempt
  split
  · rename_i hlt
    exact ⟨rfl, htarget, hlt⟩
  · trivial

theorem Kept.go {b b' : ReadinessBarrier.State} {spurious : Bool} (h : Kept done b)
    (hs : ReadinessBarrier.go b i spurious = some b') : Kept done b' := by
  have hfits := h.threads i
  unfold ReadinessBarrier.go at hs
  rcases hthread : b.threads i with _ | x | x | x | target | ⟨expected, target⟩ | _ | _ | ⟨x, batch⟩ <;>
    rw [hthread] at hs hfits <;> dsimp only at hs
  · cases hs
  · cases hs
    refine h.moved id rfl ?_ h.stage h.handled
    split
    · rename_i hlive
      exact ⟨hfits, hlive⟩
    · exact hfits
  · cases hs
    exact h.moved id rfl trivial h.stage fun _ => hfits.2
  · cases hs
    have hpush : (push b x).threads = b.threads ∧ (push b x).stage = b.stage ∧ (push b x).handled = b.handled := by
      unfold push
      split <;> exact ⟨rfl, rfl, rfl⟩
    obtain ⟨hthreads, hstage, hhandled⟩ := hpush
    have hidle : (setThread (push b x) i .idle).threads = Function.update b.threads i .idle := by
      rw [← hthreads]
      rfl
    refine h.moved (fun hlive => ?_) hidle trivial ?_ ?_
    · exact hstage.symm ▸ hlive
    · exact hstage.symm ▸ h.stage
    · exact fun hne => hstage.symm ▸ h.handled (hhandled ▸ hne)
  · cases hs
    obtain ⟨rfl, htarget⟩ := hfits
    exact h.moved id rfl (fits_attempt htarget) h.stage h.handled
  · obtain ⟨rfl, htarget, hlt⟩ := hfits
    split at hs
    · rename_i hexpected
      cases hs
      have hlive : Live b.stage → Live target := fun hlive => by
        unfold Live at *
        rw [hexpected.1] at hlive
        omega
      refine h.moved hlive rfl ?_ (.inr htarget) fun hne => hlive (h.handled hne)
      split
      · rename_i hup
        exact ⟨rfl, hup⟩
      · trivial
    · cases hs
      exact h.moved id rfl (fits_attempt htarget) h.stage h.handled
  · cases hs
    exact h.moved id rfl ⟨hfits.1, hfits.2⟩ h.stage h.handled
  · cases hs
    exact h.moved id rfl trivial h.stage h.handled
  · cases hs
    exact h.moved id rfl ⟨hfits.1, hfits.2⟩ h.stage fun _ => hfits.2

theorem Kept.admitEvent {b b' : ReadinessBarrier.State} {event : CrashEvent} (h : Kept done b) (hi : i ≠ 0)
    (hs : ReadinessBarrier.step b (.admitEvent i event) = some b') : Kept done b' := by
  simp only [ReadinessBarrier.step] at hs
  split at hs
  · split at hs
    · cases hs
      exact h.moved id rfl hi h.stage h.handled
    · cases hs
  · cases hs

/-- The boot begins an `advanceTo`. -/
theorem Kept.advanceTo {b b' : ReadinessBarrier.State} {target : ReadinessStage} (h : Kept done b)
    (hs : ReadinessBarrier.step b (.advanceTo 0 target) = some b') : Kept (done ++ [.advanceTo target]) b' := by
  have hmore : Kept (done ++ [.advanceTo target]) b :=
    ⟨fun i => (h.threads i).mono id, h.stage.imp id (List.mem_append_left _), h.handled⟩
  simp only [ReadinessBarrier.step] at hs
  split at hs
  · split at hs
    · cases hs
      exact hmore.moved id rfl ⟨rfl, List.mem_append_right _ (List.mem_singleton_self _)⟩ hmore.stage hmore.handled
    · cases hs
  · cases hs

/-- What the boot has done is the beginning of its program, and after a failure it does no more. -/
structure Boots (deps : Deps) (s : State) : Prop where
  kept : Kept s.done s.barrier
  split : s.error = none → program deps = s.done ++ s.todo
  failed : s.error.isSome → s.todo = [] ∧ ∃ c rest, program deps = s.done ++ .call c :: rest

theorem boots_initial (deps : Deps) (n holdCapacity : Nat) : Boots deps (initial deps n holdCapacity) where
  kept := ⟨fun _ => trivial, .inl rfl, fun h => absurd rfl h⟩
  split _ := rfl
  failed h := by cases h

theorem Boots.call {op : Op} {todo : List Op} (h : Boots deps s) (htodo : s.todo = op :: todo) :
    s.error = none ∧ program deps = (s.done ++ [op]) ++ todo := by
  have herror : s.error = none := by
    rcases herror : s.error with _ | e
    · rfl
    · have hnil := (h.failed (by rw [herror]; rfl)).1
      rw [htodo] at hnil
      cases hnil
  refine ⟨herror, ?_⟩
  rw [h.split herror, htodo, List.append_assoc]
  rfl

theorem Boots.step {a : Step} (h : Boots deps s) (hs : step s a = some t) : Boots deps t := by
  cases a with
  | barrier a =>
    obtain ⟨hallowed, hs⟩ := Option.ite_none_right_eq_some.mp hs
    obtain ⟨b, hb, rfl⟩ := Option.map_eq_some_iff.mp hs
    refine ⟨?_, h.split, h.failed⟩
    cases a with
    | admitEvent i event => exact h.kept.admitEvent hallowed hb
    | advanceTo i target => exact absurd hallowed id
    | go i spurious =>
      obtain ⟨-, hb⟩ := Option.ite_none_right_eq_some.mp hb
      exact h.kept.go hb
  | boot error =>
    simp only [LiveBoot.step] at hs
    split at hs
    · rename_i htodo
      obtain ⟨b, hb, rfl⟩ := Option.map_eq_some_iff.mp hs
      obtain ⟨herror, hsplit⟩ := h.call htodo
      exact ⟨h.kept.advanceTo hb, fun _ => hsplit, fun hsome => by simp [herror] at hsome⟩
    · rename_i c todo _ htodo
      obtain ⟨herror, hsplit⟩ := h.call htodo
      split at hs
      · cases hs
        refine ⟨?_, fun _ => hsplit, fun hsome => by simp [herror] at hsome⟩
        exact ⟨fun i => (h.kept.threads i).mono id, h.kept.stage.imp id (List.mem_append_left _), h.kept.handled⟩
      · cases hs
        refine ⟨h.kept, fun hnone => (nomatch hnone), fun _ => ⟨rfl, c, todo, ?_⟩⟩
        rw [hsplit, List.append_assoc]
        rfl
    · cases hs

theorem not_mem_calls (present : Bool) (cs : List Call) : .advanceTo stage ∉ calls present cs := by
  unfold calls
  split <;> simp

/-- No stage before the live one is live. -/
theorem not_mem_beforeLive (deps : Deps) (hlive : Live stage) : .advanceTo stage ∉ beforeLive deps := by
  intro hmem
  have hstage : stage = .booting ∨ stage = .minimalStateReady ∨ stage = .predictionStateReady := by
    simpa [beforeLive, not_mem_calls] using hmem
  rcases hstage with rfl | rfl | rfl <;> exact absurd hlive (by decide)

/-- The calls among the operations. -/
def callsOf (ops : List Op) : List Call := ops.filterMap fun
  | .advanceTo _ => none
  | .call c => some c

/-- However the threads that admit events interleave with the boot, and whichever of its calls fail: when the handler has
    been called for an event, the boot has made all its calls (the schema is valid, the lease is held and being renewed,
    the history is seeded, the models are warm, the polls have started), none of them has failed, and it has come to a
    stage in which events are handled. -/
theorem boot_before_events {n holdCapacity : Nat} (hr : Reaches step anyStep (initial deps n holdCapacity) s)
    (hhandled : s.barrier.handled ≠ []) :
    s.error = none ∧ callsOf s.done = callsOf (program deps) ∧ Live s.barrier.stage := by
  have h : Boots deps s := hr.invariant (boots_initial deps n holdCapacity) fun _ _ _ h _ hs => h.step hs
  have hlive : Live s.barrier.stage := h.kept.handled hhandled
  have hdone : .advanceTo s.barrier.stage ∈ s.done := h.kept.stage.resolve_left fun hbooting => by
    rw [hbooting] at hlive
    exact absurd hlive (by decide)
  have hout := not_mem_beforeLive deps hlive
  -- The boot is past the calls.
  have hpast : ∀ rest, program deps = s.done ++ rest → ∃ ops,
      s.done = beforeLive deps ++ ops ∧ [.advanceTo .liveN1Ready, .advanceTo .fullHydrationReady] = ops ++ rest := by
    intro rest heq
    rcases List.append_eq_append_iff.mp heq with ⟨ops, hops, hrest⟩ | ⟨ops, hops, -⟩
    · exact ⟨ops, hops, hrest⟩
    · exact absurd (hops ▸ List.mem_append_left _ hdone) hout
  have herror : s.error = none := by
    rcases herror : s.error with _ | e
    · rfl
    · obtain ⟨-, c, rest, heq⟩ := h.failed (by rw [herror]; rfl)
      obtain ⟨ops, -, hops⟩ := hpast _ heq
      have hmem : Op.call c ∈ [Op.advanceTo .liveN1Ready, .advanceTo .fullHydrationReady] := by
        rw [hops]
        exact List.mem_append_right _ List.mem_cons_self
      simp at hmem
  refine ⟨herror, ?_, hlive⟩
  obtain ⟨ops, hops, hrest⟩ := hpast _ (h.split herror)
  have hnone : callsOf ops = [] := by
    refine List.filterMap_eq_nil_iff.mpr fun op hop => ?_
    have hmem : op ∈ [Op.advanceTo .liveN1Ready, .advanceTo .fullHydrationReady] := hrest ▸ List.mem_append_left _ hop
    simp only [List.mem_cons, List.not_mem_nil, or_false] at hmem
    rcases hmem with rfl | rfl <;> rfl
  rw [hops, program, callsOf, callsOf, List.filterMap_append, List.filterMap_append]
  exact congrArg _ hnone

/-- A boot in which nothing fails, with all the parts there; thread 1 has an event before it begins. -/
def bootAll : List Step :=
  [.barrier (.admitEvent 1 {}), .barrier (.go 1 false), .barrier (.go 1 false),
    .boot none, .barrier (.go 0 false), .boot none, .boot none, .boot none,
    .boot none, .barrier (.go 0 false), .barrier (.go 0 false), .boot none,
    .boot none, .barrier (.go 0 false), .barrier (.go 0 false), .boot none, .boot none,
    .boot none, .barrier (.go 0 false), .barrier (.go 0 false), .barrier (.go 0 false), .barrier (.go 0 false)]

theorem boot_before_events_held : ∃ s, run step (initial {} 2 8) bootAll = some s ∧
    s.barrier.handled.map (·.id) = [1] ∧ s.error = none ∧ callsOf s.done = callsOf (program {}) ∧
    Live s.barrier.stage := by
  have hrun : ((run step (initial {} 2 8) bootAll).map fun s => s.barrier.handled.map (·.id)) = some [1] := by
    decide +kernel
  obtain ⟨s, hs, hhandled⟩ := Option.map_eq_some_iff.mp hrun
  refine ⟨s, hs, hhandled, boot_before_events (Reaches.of_run (meets_anyStep ..) hs) fun hnil => ?_⟩
  rw [hnil] at hhandled
  cases hhandled

end LiveBoot
end CrashCore
