import CrashCore.Application.LiveFrames
import CrashCore.Theorems.NormalizedFrames
import CrashCore.Theorems.RepeatedProgress

/-! What the realtime pipeline has to do with the loop that feeds it: its verdict changes nothing for the loop, and the
counters of both lose no frame. -/

namespace CrashCore
namespace RoundFrames
open Realtime EventDecoder Transition

variable {κ : Type} {submit : κ → PredictionRequest → Submission κ} {multiplierFromElapsed : Int → Double} {s : State κ}
  {ev : CrashEvent} {now : TimestampMs} {p : RealtimePipeline}

/-- An event that is accepted has a phase, so it is neither a heartbeat nor a connect. -/
theorem hasPhase_of_observe (hdecoded : Decoded ev) (h : (p.observe multiplierFromElapsed ev now).2.isSome) :
    HasPhase ev := by
  by_contra hphase
  have hevent : (fromCrashEvent ev "native-bc-socket").event = rawName ev := by
    unfold HasPhase at hphase
    unfold fromCrashEvent
    cases hk : ev.kind <;> simp [hk] at hphase <;> rfl
  have hnone : normalizeSourceEvent multiplierFromElapsed (fromCrashEvent ev "native-bc-socket") now = none := by
    rw [normalizeSourceEvent, hevent, hdecoded.phase hphase]
  rw [RealtimePipeline.observe, hnone] at h
  cases h

theorem accept_of_not_valid (d : DuplicateFilter) (h : ¬ev.valid = true) : d.accept ev = (d, false) := if_pos h

/-- An event with a phase is taken in alike, whether it was accepted or not. -/
theorem intake_of_hasPhase (l : PipelineLoop.State κ) (hphase : HasPhase ev) (accepted : Bool) (ns : Int) :
    PipelineLoop.intake l (.ok ev) accepted ns = PipelineLoop.intake l (.ok ev) false ns := by
  have hkind : ¬(ev.kind = .heartbeat ∨ ev.kind = .connect) := by
    rcases hphase with hk | hk | hk | hk <;> simp [hk]
  unfold PipelineLoop.intake
  by_cases hvalid : ev.valid = true
  · simp [hkind, hvalid]
  · cases accepted <;> simp [hkind, hvalid, accept_of_not_valid]

theorem takeIn_of_hasPhase (f : Frame) (hphase : HasPhase ev) (accepted : Bool) :
    takeIn submit s { f with accepted } (.ok ev) = takeIn submit s { f with accepted := false } (.ok ev) := by
  simp only [takeIn, PipelineLoop.step, intake_of_hasPhase s.loop hphase accepted f.ns]

theorem onLiveFrame_state (l : Live κ) (f : Frame) : (onLiveFrame submit multiplierFromElapsed l f).map (·.state) =
    onFrame submit multiplierFromElapsed l.state { f with accepted := false } := by
  unfold onLiveFrame onFrame
  rw [Option.map_bind]
  rcases hdecoded : decodeBinary multiplierFromElapsed {} f.data .nativeSocket f.clock with _ | ⟨d, e | ev⟩
  · rfl
  · simp only [Option.bind_some, Function.comp_apply, Option.map_map]
    exact congrFun Option.map_id _
  · simp only [Option.bind_some, Function.comp_apply, Option.map_map]
    have hverdict :
        takeIn submit l.state { f with accepted := (l.realtime.observe multiplierFromElapsed ev f.now).2.isSome } (.ok ev) =
          takeIn submit l.state { f with accepted := false } (.ok ev) := by
      by_cases hsome : (l.realtime.observe multiplierFromElapsed ev f.now).2.isSome = true
      · rw [takeIn_of_hasPhase f (hasPhase_of_observe (decoded_of_decodeBinary hdecoded) hsome)]
      · rw [Bool.eq_false_iff.mpr hsome]
    rw [hverdict]
    exact congrFun Option.map_id _

/-- Over any frames the realtime pipeline makes no difference: round states, statistics, filter, queues, predictions,
    outcomes and outbox are those of a loop whose realtime pipeline accepts nothing. -/
theorem verdict_immaterial (l : Live κ) (fs : List Frame) :
    (run (onLiveFrame submit multiplierFromElapsed) l fs).map (·.state) =
      run (fun s f => onFrame submit multiplierFromElapsed s { f with accepted := false }) l.state fs :=
  run_map _ onLiveFrame_state fs l

/-! ### Counters -/

/-- The ways a validation can go. -/
inductive Validates (v : EventValidator) : ValidateResult × EventValidator → Prop
  | accepted {r : ValidateResult} {w : EventValidator} (hok : r.ok = true) (haccepted : w.accepted = v.accepted + 1)
      (hrest : w.duplicates = v.duplicates ∧ w.stale = v.stale ∧ w.invalid = v.invalid) : Validates v (r, w)
  | duplicate {r : ValidateResult} {w : EventValidator} (hok : r.ok = false) (hreason : r.reason = "duplicate")
      (hduplicates : w.duplicates = v.duplicates + 1)
      (hrest : w.accepted = v.accepted ∧ w.stale = v.stale ∧ w.invalid = v.invalid) : Validates v (r, w)
  | stale {r : ValidateResult} {w : EventValidator} (hok : r.ok = false) (hreason : r.reason = "stale")
      (hstale : w.stale = v.stale + 1)
      (hrest : w.accepted = v.accepted ∧ w.duplicates = v.duplicates ∧ w.invalid = v.invalid) : Validates v (r, w)
  | invalid {r : ValidateResult} {w : EventValidator} (hok : r.ok = false)
      (hreason : r.reason ≠ "duplicate" ∧ r.reason ≠ "stale") (hinvalid : w.invalid = v.invalid + 1)
      (hrest : w.accepted = v.accepted ∧ w.duplicates = v.duplicates ∧ w.stale = v.stale) : Validates v (r, w)

theorem validates_acceptOnce (v w : EventValidator) (n : NormalizedRoundEvent) (now : TimestampMs)
    (hsame : w.accepted = v.accepted ∧ w.duplicates = v.duplicates ∧ w.stale = v.stale ∧ w.invalid = v.invalid) :
    Validates v (w.acceptOnce n now) := by
  obtain ⟨haccepted, hduplicates, hstale, hinvalid⟩ := hsame
  unfold EventValidator.acceptOnce
  split
  · split
    · exact .duplicate rfl rfl (congrArg (· + 1) hduplicates) ⟨haccepted, hstale, hinvalid⟩
    · exact .accepted rfl (congrArg (· + 1) haccepted) ⟨hduplicates, hstale, hinvalid⟩
  · exact .accepted rfl (congrArg (· + 1) haccepted) ⟨hduplicates, hstale, hinvalid⟩

theorem validates_validate (v : EventValidator) (n : NormalizedRoundEvent) (now : TimestampMs) :
    Validates v (v.validate n now) := by
  unfold EventValidator.validate
  split
  · exact .invalid rfl ⟨by simp, by simp⟩ rfl ⟨rfl, rfl, rfl⟩
  split
  · exact .invalid rfl ⟨by simp, by simp⟩ rfl ⟨rfl, rfl, rfl⟩
  split
  · dsimp only
    split
    · exact .stale rfl rfl rfl ⟨rfl, rfl, rfl⟩
    · exact validates_acceptOnce _ _ n now ⟨rfl, rfl, rfl, rfl⟩
  · exact validates_acceptOnce _ _ n now ⟨rfl, rfl, rfl, rfl⟩

/-- The counters of the realtime pipeline after `n` events: those of its validator, and the events without a phase or a
    game. -/
structure Counted (n : Nat) (p : RealtimePipeline) : Prop where
  accepted : p.metrics.accepted = p.validator.accepted
  duplicates : p.metrics.duplicates = p.validator.duplicates
  stale : p.metrics.stale = p.validator.stale
  received : p.metrics.received =
    p.metrics.accepted + p.metrics.duplicates + p.metrics.stale + p.validator.invalid
  observed : n + p.validator.invalid = p.metrics.received + p.metrics.invalid

theorem Counted.observe {n : Nat} (h : Counted n p) (ev : CrashEvent) (now : TimestampMs) :
    Counted (n + 1) (p.observe multiplierFromElapsed ev now).1 := by
  obtain ⟨haccepted, hduplicates, hstale, hreceived, hobserved⟩ := h
  unfold RealtimePipeline.observe
  split
  · refine ⟨haccepted, hduplicates, hstale, hreceived, ?_⟩
    show n + 1 + p.validator.invalid = p.metrics.received + (p.metrics.invalid + 1)
    omega
  · rename_i e _
    have hv := validates_validate p.validator e.toNormalizedRoundEvent now
    generalize p.validator.validate e.toNormalizedRoundEvent now = r at hv ⊢
    cases hv with
    | accepted hok hone hrest =>
      simp only [hok, not_true, if_false]
      constructor <;> dsimp only <;> omega
    | duplicate hok hreason hone hrest =>
      simp only [hok, Bool.false_eq_true, not_false_iff, if_true, RealtimePipeline.reject, if_pos hreason]
      constructor <;> dsimp only <;> omega
    | @stale r _ hok hreason hone hrest =>
      have hother : ¬r.reason = "duplicate" := by simp [hreason]
      simp only [hok, Bool.false_eq_true, not_false_iff, if_true, RealtimePipeline.reject, if_neg hother, if_pos hreason]
      constructor <;> dsimp only <;> omega
    | invalid hok hreason hone hrest =>
      simp only [hok, Bool.false_eq_true, not_false_iff, if_true, RealtimePipeline.reject, if_neg hreason.1, if_neg hreason.2]
      constructor <;> dsimp only <;> omega

/-- The counters of a loop after `n` frames. -/
structure Tallied (n : Nat) (l : Live κ) : Prop where
  received : l.metrics.eventsReceived = n
  spread : l.metrics.eventsDropped + l.metrics.eventsRouted + l.passed = n
  decoded : l.metrics.eventsDecoded ≤ n
  routed : l.metrics.eventsRouted ≤ l.state.loop.dupes.accepted
  realtime : Counted l.metrics.eventsDecoded l.realtime

theorem accept_accepted (d : DuplicateFilter) (ev : CrashEvent) :
    (d.accept ev).1.accepted = d.accepted + if (d.accept ev).2 then 1 else 0 := by
  unfold DuplicateFilter.accept
  split
  · rfl
  · split <;> rfl

/-- What is counted of a frame with an event. -/
theorem Tallied.count {n : Nat} {l : Live κ} (h : Tallied n l) {f : Frame} {accepted : Bool} {state : State κ}
    {realtime : RealtimePipeline} (hrealtime : Counted (l.metrics.eventsDecoded + 1) realtime)
    (hstate : takeIn submit l.state { f with accepted } (.ok ev) = some state) :
    Tallied (n + 1) { RoundFrames.count l ev accepted f.ns with state, realtime } := by
  obtain ⟨hreceived, hspread, hdecoded, hrouted, -⟩ := h
  obtain ⟨hdupes, -⟩ := takeIn_ok hstate
  have haccepted := accept_accepted l.state.loop.dupes ev
  have hfilter : state.loop.dupes.accepted =
      if Quiet ev accepted then l.state.loop.dupes.accepted else (l.state.loop.dupes.accept ev).1.accepted := by
    rw [hdupes]
    unfold PipelineLoop.intake
    dsimp only
    by_cases hcontrol : ¬accepted = true ∧ (ev.kind = .heartbeat ∨ ev.kind = .connect)
    · have hquiet : Quiet ev accepted := ⟨hcontrol.1, .inl hcontrol.2⟩
      rw [if_pos hcontrol, if_pos hquiet]
    by_cases hinvalid : ¬accepted = true ∧ ¬ev.valid = true
    · have hquiet : Quiet ev accepted := ⟨hinvalid.1, .inr hinvalid.2⟩
      rw [if_neg hcontrol, if_pos hinvalid, if_pos hquiet]
    have hquiet : ¬Quiet ev accepted := by
      rintro ⟨hno, hkind | hvalid⟩
      · exact hcontrol ⟨hno, hkind⟩
      · exact hinvalid ⟨hno, hvalid⟩
    rw [if_neg hcontrol, if_neg hinvalid, if_neg hquiet]
    rcases l.state.loop.dupes.accept ev with ⟨dupes, _ | _⟩ <;> rfl
  unfold RoundFrames.count
  by_cases hquiet : Quiet ev accepted
  · rw [if_pos hquiet] at hfilter ⊢
    exact ⟨congrArg (· + 1) hreceived, by dsimp only; omega, Nat.succ_le_succ hdecoded, hfilter ▸ hrouted, hrealtime⟩
  · rw [if_neg hquiet] at hfilter ⊢
    rw [haccepted] at hfilter
    split
    · rename_i hboth
      rw [if_pos hboth.1] at hfilter
      exact ⟨congrArg (· + 1) hreceived, by dsimp only; omega, Nat.succ_le_succ hdecoded,
        hfilter ▸ Nat.succ_le_succ hrouted, hrealtime⟩
    · exact ⟨congrArg (· + 1) hreceived, by dsimp only; omega, Nat.succ_le_succ hdecoded,
        hfilter ▸ hrouted.trans (Nat.le_add_right _ _), hrealtime⟩

theorem Tallied.frame {n : Nat} {l m : Live κ} (h : Tallied n l) {f : Frame}
    (hs : onLiveFrame submit multiplierFromElapsed l f = some m) : Tallied (n + 1) m := by
  obtain ⟨⟨d, e | ev⟩, -, hs⟩ := Option.bind_eq_some_iff.mp hs
  · obtain ⟨state, hstate, rfl⟩ := Option.map_eq_some_iff.mp hs
    obtain ⟨hreceived, hspread, hdecoded, hrouted, hrealtime⟩ := h
    refine ⟨congrArg (· + 1) hreceived, by dsimp only; omega, hdecoded.trans (Nat.le_succ n), ?_, hrealtime⟩
    rw [(takeIn_error hstate).1]
    exact hrouted
  · obtain ⟨state, hstate, rfl⟩ := Option.map_eq_some_iff.mp hs
    exact h.count (h.realtime.observe ev f.now) hstate

/-- No frame gets lost in the counters: each one is dropped, routed or passed over, each decoded event is received by the
    realtime pipeline or invalid for it, and each received event is accepted, a duplicate, stale or invalid. -/
theorem frames_tallied (client : κ) (queueCapacity : Nat) (outbox : OutboxLifecycle) :
    ∀ (fs : List Frame) (l : Live κ),
      run (onLiveFrame submit multiplierFromElapsed) { state := RoundFrames.initial client queueCapacity outbox } fs = some l →
      Tallied fs.length l := by
  have hrun : ∀ (fs : List Frame) (n : Nat) (k l : Live κ), Tallied n k →
      run (onLiveFrame submit multiplierFromElapsed) k fs = some l → Tallied (n + fs.length) l := by
    intro fs
    induction fs with
    | nil =>
      intro n k l hk hl
      cases hl
      exact hk
    | cons f fs ih =>
      intro n k l hk hl
      obtain ⟨m, hm, hl⟩ := Option.bind_eq_some_iff.mp hl
      have hlength : n + (f :: fs).length = n + 1 + fs.length := by
        rw [List.length_cons]
        omega
      rw [hlength]
      exact ih (n + 1) m l (hk.frame hm) hl
  intro fs l hl
  have h := hrun fs 0 _ l ⟨rfl, rfl, Nat.le_refl 0, Nat.le_refl 0, ⟨rfl, rfl, rfl, rfl, rfl⟩⟩ hl
  rwa [Nat.zero_add] at h

/-- A loop that nothing has reached. -/
def freshLive : Live Unit := { state := RoundFrames.initial () 4 (.new 4 30000) }

/-- Round 1 ends at 2.50. -/
def ended250 : Frame := { data := endFrame 1 ((250 : Nat) / 100), now := 1000 }

/-- A ping, the End of a round twice, and an empty frame. -/
def fourFrames : List Frame := [{ data := [0x32] }, ended250, ended250, { data := [] }]

def afterFourFrames : Live Unit := (run (onLiveFrame silent fun _ => 1) freshLive fourFrames).getD freshLive

/-- The ping is passed over, the first End is routed and accepted, the second is dropped and a duplicate, and the empty
    frame is dropped. -/
theorem frames_tallied_four : Tallied 4 afterFourFrames ∧
    (afterFourFrames.passed = 1 ∧ afterFourFrames.metrics.eventsRouted = 1 ∧ afterFourFrames.metrics.eventsDropped = 2) ∧
    afterFourFrames.metrics.eventsDecoded = 3 ∧ afterFourFrames.realtime.metrics.accepted = 1 ∧
    afterFourFrames.realtime.metrics.duplicates = 1 ∧ afterFourFrames.realtime.metrics.invalid = 1 := by
  have hruns : (run (onLiveFrame silent fun _ => 1) freshLive fourFrames).isSome = true := by decide +kernel
  have hrun : run (onLiveFrame silent fun _ => 1) freshLive fourFrames = some afterFourFrames := by
    obtain ⟨l, hl⟩ := Option.isSome_iff_exists.mp hruns
    rw [afterFourFrames, hl, Option.getD_some]
  refine ⟨frames_tallied () 4 (.new 4 30000) fourFrames afterFourFrames hrun, ?_⟩
  decide +kernel

end RoundFrames
end CrashCore
