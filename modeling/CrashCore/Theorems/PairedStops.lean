import CrashCore.Library.Run
import CrashCore.Orchestration.Orchestrator
import Mathlib.Data.List.Enum
import Mathlib.Data.List.Nodup

/-! Starts and stops of the orchestrator. It remembers the started components by their ids, and stops all components with
such an id. -/

namespace CrashCore
namespace Orchestrator
open Transition

variable {placed live : List Placed} {s t : Orchestrator} {a : Act} {p q : Placed}

/-- Each started component that can be stopped is stopped once, no other is stopped, and the last one started is stopped
    first. -/
structure Paired (x : Stop) : Prop where
  once : ∀ p ∈ x.live, p.1.hasStop = true → x.stopped.count p = 1
  started : ∀ p ∈ x.stopped, p ∈ x.live
  reversed : x.stopped.Sublist x.live.reverse

def PairsStops (s : Orchestrator) : Prop := ∀ x ∈ s.stops, Paired x

/-- No component that can be stopped was started twice, and no started component shares its id with another one that can
    be stopped. -/
structure Apart (placed live : List Placed) : Prop where
  once : (live.filter (·.1.hasStop)).Nodup
  alone : ∀ p ∈ live, ∀ q ∈ found placed p.1.id, q = p

/-- The components that a stop within the action finds started. -/
def stopsAt (s : Orchestrator) : Act → Option (List Placed)
  | .startAll sorted result =>
    if s.Sorted sorted ∧ ∃ p ∈ sorted, startError result p ≠ none then
      some (s.live ++ sorted.takeWhile fun p => startError result p = none)
    else none
  | .stopAll => some s.live

def StopsApart (s : Orchestrator) (a : Act) : Prop := ∀ live, s.stopsAt a = some live → Apart s.placed live

/-! ### One stop -/

def calls (placed live : List Placed) : List Placed := (live.map (·.1.id)).reverse.flatMap (found placed)

theorem mem_found {id : ComponentId} : q ∈ found placed id ↔ q ∈ placed ∧ q.1.id = id ∧ q.1.hasStop = true := by
  simp [found]

theorem calls_cons : calls placed (p :: live) = calls placed live ++ found placed p.1.id := by
  simp [calls]

theorem mem_calls : q ∈ calls placed live ↔ ∃ p ∈ live, q ∈ found placed p.1.id := by
  simp [calls]

theorem count_found (hplaced : placed.Nodup) (hq : q ∈ placed) (hstop : q.1.hasStop = true) (id : ComponentId) :
    (found placed id).count q = if q.1.id = id then 1 else 0 := by
  have hnodup : (found placed id).Nodup := hplaced.filter _
  rw [hnodup.count]
  by_cases hid : q.1.id = id
  · rw [if_pos hid, if_pos (mem_found.mpr ⟨hq, hid, hstop⟩)]
  · rw [if_neg hid, if_neg fun hmem => hid (mem_found.mp hmem).2.1]

/-- A component is stopped as often as a component with its id was started. -/
theorem count_calls (hplaced : placed.Nodup) (hq : q ∈ placed) (hstop : q.1.hasStop = true) (live : List Placed) :
    (calls placed live).count q = live.countP fun p => q.1.id = p.1.id := by
  induction live with
  | nil => rfl
  | cons p live ih => rw [calls_cons, List.count_append, ih, count_found hplaced hq hstop, List.countP_cons]; simp

theorem eq_of_countP_eq_one {α : Type} {P : α → Bool} {l : List α} {x y : α} (h : l.countP P = 1) (hx : x ∈ l)
    (hy : y ∈ l) (hPx : P x = true) (hPy : P y = true) : x = y := by
  rw [List.countP_eq_length_filter] at h
  obtain ⟨z, hz⟩ := List.length_eq_one_iff.mp h
  have hmem : ∀ w ∈ l, P w = true → w = z := fun w hw hPw =>
    List.mem_singleton.mp (hz ▸ List.mem_filter.mpr ⟨hw, hPw⟩)
  rw [hmem x hx hPx, hmem y hy hPy]

theorem found_of_alone (hplaced : placed.Nodup) (hp : p ∈ placed) (halone : ∀ q ∈ found placed p.1.id, q = p) :
    found placed p.1.id = [p].filter (·.1.hasStop) := by
  cases hstop : p.1.hasStop with
  | false =>
    have hnone : [p].filter (·.1.hasStop) = [] := by simp [hstop]
    rw [hnone]
    refine List.eq_nil_iff_forall_not_mem.mpr fun q hq => ?_
    obtain rfl := halone q hq
    rw [(mem_found.mp hq).2.2] at hstop
    cases hstop
  | true =>
    have hsame : [p].filter (·.1.hasStop) = [p] := by simp [hstop]
    have hone : (found placed p.1.id).count p = 1 := by rw [count_found hplaced hp hstop, if_pos rfl]
    have hall : found placed p.1.id = List.replicate (found placed p.1.id).length p := List.eq_replicate_of_mem halone
    rw [hall, List.count_replicate_self] at hone
    rw [hsame, hall, hone]
    rfl

/-- The started components in reverse. -/
theorem calls_of_alone (hplaced : placed.Nodup) (hlive : ∀ p ∈ live, p ∈ placed)
    (halone : ∀ p ∈ live, ∀ q ∈ found placed p.1.id, q = p) :
    calls placed live = (live.filter (·.1.hasStop)).reverse := by
  induction live with
  | nil => rfl
  | cons p live ih =>
    rw [calls_cons, ih (fun q hq => hlive q (List.mem_cons_of_mem p hq)) (fun q hq => halone q (List.mem_cons_of_mem p hq)),
      found_of_alone hplaced (hlive p List.mem_cons_self) (halone p List.mem_cons_self)]
    cases hstop : p.1.hasStop <;> simp [hstop]

theorem paired_iff (hplaced : placed.Nodup) (hlive : ∀ p ∈ live, p ∈ placed) :
    Paired ⟨live, calls placed live⟩ ↔ Apart placed live := by
  constructor
  · intro h
    have hcount : ∀ q ∈ live, q.1.hasStop = true → (live.countP fun p => q.1.id = p.1.id) = 1 := fun q hq hstop => by
      rw [← count_calls hplaced (hlive q hq) hstop]
      exact h.once q hq hstop
    constructor
    · refine List.nodup_iff_count_le_one.mpr fun q => ?_
      by_cases hq : q ∈ live.filter (·.1.hasStop)
      · obtain ⟨hmem, hstop⟩ := List.mem_filter.mp hq
        rw [List.count_filter (p := fun x : Placed => x.1.hasStop) hstop, ← hcount q hmem hstop]
        refine List.countP_mono_left fun p _ hp => ?_
        rw [eq_of_beq hp]
        exact decide_eq_true rfl
      · rw [List.count_eq_zero_of_not_mem hq]
        exact Nat.zero_le _
    · intro p hp q hq
      obtain ⟨-, hid, hstop⟩ := mem_found.mp hq
      have hmem : q ∈ live := h.started q (mem_calls.mpr ⟨p, hp, hq⟩)
      exact eq_of_countP_eq_one (hcount q hmem hstop) hmem hp (decide_eq_true rfl) (decide_eq_true hid)
  · intro h
    have hcalls := calls_of_alone hplaced hlive h.alone
    rw [hcalls]
    refine ⟨fun p hp hstop => ?_, fun p hp => ?_, ?_⟩
    · dsimp only
      rw [List.count_reverse]
      exact List.count_eq_one_of_mem h.once (List.mem_filter.mpr ⟨hp, hstop⟩)
    · exact (List.mem_filter.mp (List.mem_reverse.mp hp)).1
    · exact List.filter_sublist.reverse

/-! ### Runs -/

/-- `started_` has the ids of the started components. -/
structure Kept (s : Orchestrator) : Prop where
  started : s.started = s.live.map (·.1.id)
  live : ∀ p ∈ s.live, p ∈ s.placed

theorem kept_initial (components : List Component) : Kept { components } := ⟨rfl, fun _ h => absurd h List.not_mem_nil⟩

theorem nodup_placed (s : Orchestrator) : s.placed.Nodup := by
  refine List.Nodup.of_map Prod.snd ?_
  rw [placed, List.zipIdx_map_snd]
  exact List.nodup_range'

/-- After the starts of `ps` have succeeded. -/
def begun (s : Orchestrator) (ps : List Placed) : Orchestrator :=
  { s with started := s.started ++ ps.map (·.1.id), live := s.live ++ ps }

theorem begun_cons (s : Orchestrator) (p : Placed) (ps : List Placed) :
    s.begun (p :: ps) = begun { s with started := s.started ++ [p.1.id], live := s.live ++ [p] } ps := by
  simp [begun]

theorem Kept.begun {ps : List Placed} (h : Kept s) (hps : ∀ p ∈ ps, p ∈ s.placed) : Kept (s.begun ps) where
  started := by rw [Orchestrator.begun, h.started, List.map_append]
  live p hp := (List.mem_append.mp hp).elim (h.live p) (hps p)

/-- A start that fails comes to a stop of those before it. -/
theorem startFrom_eq (result : Nat → Option Error) (s : Orchestrator) (ps : List Placed) :
    (startFrom result s ps).1 =
      if ∃ p ∈ ps, startError result p ≠ none then (s.begun (ps.takeWhile fun p => startError result p = none)).stopAll
      else { s.begun ps with running := true } := by
  induction ps generalizing s with
  | nil => simp [startFrom, begun]
  | cons p ps ih =>
    rw [startFrom]
    cases herror : startError result p with
    | some e => simp [herror, begun]
    | none =>
      have hexists : (∃ q ∈ p :: ps, startError result q ≠ none) ↔ ∃ q ∈ ps, startError result q ≠ none := by
        simp [herror]
      have htake : (p :: ps).takeWhile (fun q => startError result q = none) =
          p :: ps.takeWhile fun q => startError result q = none := by simp [herror]
      simp only [hexists, htake, begun_cons]
      exact ih _

theorem kept_stopAll (s : Orchestrator) : Kept s.stopAll := ⟨rfl, fun _ h => absurd h List.not_mem_nil⟩

theorem pairsStops_stopAll_iff (h : Kept s) (hs : PairsStops s) : PairsStops s.stopAll ↔ Apart s.placed s.live := by
  have hcalls : s.stopCalls = calls s.placed s.live := by rw [stopCalls, calls, h.started]
  rw [← paired_iff s.nodup_placed h.live, ← hcalls]
  constructor
  · exact fun hall => hall _ (List.mem_append_right _ List.mem_cons_self)
  · intro hlast x hx
    rcases List.mem_append.mp hx with hold | hnew
    · exact hs x hold
    · exact List.mem_singleton.mp hnew ▸ hlast

theorem step_kept (h : Kept s) (hs : step s a = some t) : Kept t := by
  cases a with
  | stopAll =>
    cases hs
    exact kept_stopAll s
  | startAll sorted result =>
    simp only [step] at hs
    split at hs <;> cases hs
    rename_i hsorted
    rw [startFrom_eq]
    split
    · exact kept_stopAll _
    · have hbegun := h.begun fun p hp => hsorted.1.mem_iff.mp hp
      exact ⟨hbegun.started, hbegun.live⟩

/-- A step pairs its stop, if it makes one, exactly if the started components are apart. -/
theorem step_iff (h : Kept s) (hpairs : PairsStops s) (hs : step s a = some t) : PairsStops t ↔ StopsApart s a := by
  cases a with
  | stopAll =>
    cases hs
    rw [pairsStops_stopAll_iff h hpairs]
    exact ⟨fun hapart live hlive => (by cases hlive; exact hapart), fun hapart => hapart _ rfl⟩
  | startAll sorted result =>
    simp only [step] at hs
    split at hs <;> cases hs
    rename_i hsorted
    rw [startFrom_eq]
    by_cases hfails : ∃ p ∈ sorted, startError result p ≠ none
    · have hat : s.stopsAt (.startAll sorted result) =
          some (s.live ++ sorted.takeWhile fun p => startError result p = none) := if_pos ⟨hsorted, hfails⟩
      have hbegun : Kept (s.begun (sorted.takeWhile fun p => startError result p = none)) :=
        h.begun fun p hp => hsorted.1.mem_iff.mp ((List.takeWhile_prefix _).mem hp)
      rw [if_pos hfails, pairsStops_stopAll_iff hbegun hpairs, StopsApart, hat]
      exact ⟨fun hapart live hlive => (by cases hlive; exact hapart), fun hapart => hapart _ rfl⟩
    · have hat : s.stopsAt (.startAll sorted result) = none := if_neg fun hboth => hfails hboth.2
      rw [if_neg hfails, StopsApart, hat]
      exact iff_of_true hpairs fun live hlive => by cases hlive

theorem stopsApart_of_disabled (hs : step s a = none) : StopsApart s a := by
  cases a with
  | stopAll => cases hs
  | startAll sorted result =>
    have hsorted : ¬s.Sorted sorted := by
      intro hsorted
      simp [step, hsorted] at hs
    intro live hlive
    rw [stopsAt, if_neg fun hboth => hsorted hboth.1] at hlive
    cases hlive

/-- Whatever components there are, however they are sorted and whichever starts fail: all stops of a run are paired with
    the starts exactly if the components that each of them finds started are apart. -/
theorem pairsStops_along_iff (components : List Component) (as : List Act) :
    Along step PairsStops { components } as ↔ Meets step StopsApart { components } as :=
  along_iff_meets_of_disabled (I := fun s => Kept s ∧ PairsStops s) (fun _ h => h.2)
    (fun _ _ _ h hok hs => ⟨step_kept h.1 hs, (step_iff h.1 h.2 hs).mpr hok⟩)
    (fun _ _ _ h hs ht => (step_iff h.1 h.2 hs).mp ht) (fun _ _ hs => stopsApart_of_disabled hs)
    ⟨kept_initial components, fun _ h => absurd h List.not_mem_nil⟩

/-- Two components of one id; the start of the second one fails. -/
def sameId : List Component := [{ id := .ingestion, order := 1 }, { id := .ingestion, order := 2 }]

def secondFails : List Act :=
  [.startAll sameId.zipIdx fun place => if place = 1 then some ⟨.networkError, "failed"⟩ else none]

/-- It is stopped nevertheless. -/
theorem not_pairsStops_along : ¬Along step PairsStops { components := sameId } secondFails := by
  have hrun : ∃ s, run step { components := sameId } secondFails = some s ∧
      s.stops.map (fun x => (x.live.map Prod.snd, x.stopped.map Prod.snd)) = [([0], [0, 1])] :=
    ⟨_, rfl, by decide +kernel⟩
  obtain ⟨s, hs, hstops⟩ := hrun
  refine not_along_of_last hs fun hpairs => ?_
  obtain ⟨x, hx, hplaces⟩ := List.map_eq_singleton_iff.mp hstops
  obtain ⟨hlive, hstopped⟩ := Prod.mk.inj hplaces
  have hle := (hpairs x (hx ▸ List.mem_singleton_self x)).reversed.length_le
  have hone : x.live.length = 1 := by simpa using congrArg List.length hlive
  have htwo : x.stopped.length = 2 := by simpa using congrArg List.length hstopped
  rw [List.length_reverse, hone, htwo] at hle
  exact absurd hle (by decide)

end Orchestrator
end CrashCore
