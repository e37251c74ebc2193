import CrashCore.Validation.LiveValidator
import Mathlib.Data.List.Perm.Subperm

/-! Settlement in the live validator: every successful registration is settled at most once, by an End of its own
round, and the counters are those of the outcomes. A prediction is in the registry, taken by one call of
`onGameEnd`, or settled. -/

namespace CrashCore
namespace ValidatorCalls
open Transition

variable {s t : State} {c : EndCall} {e : CrashEvent} {now : TimestampMs}

/-- The predictions a call has taken and not yet settled. -/
def EndCall.todo (c : EndCall) : List PredictionEvent :=
  match c.stage with
  | .matching todo _ => todo
  | .accepted | .recording .. => []

/-- The outcomes of a call so far. -/
def EndCall.outcomes (c : EndCall) : List Outcome :=
  match c.stage with
  | .matching _ outcomes | .recording outcomes _ => outcomes
  | .accepted => []

/-- The outcomes of a call that `stats_` does not count yet. -/
def EndCall.unrecorded (c : EndCall) : List Outcome :=
  match c.stage with
  | .matching _ outcomes => outcomes
  | .recording _ todo => todo
  | .accepted => []

/-- The settled, the taken and the registered predictions. -/
def predictions (s : State) : List PredictionEvent :=
  s.emitted.map (·.prediction) ++ (s.calls.flatMap (·.todo) ++ s.validator.registry.entries)

def settled (s : State) : List Outcome := s.emitted.map (·.outcome)

def unrecorded (s : State) : List Outcome := s.calls.flatMap (·.unrecorded)

def countOf (r : PredictionOutcome) (os : List Outcome) : Nat := os.countP (·.result = r)

/-- The outcome was made by an End of the round of its prediction, from that End's crash point. -/
structure Emission.Sound (m : Emission) : Prop where
  validEnd : m.endEvent.IsValidEnd
  round : m.endEvent.endedRound = m.prediction.targetRoundId
  predictionId : m.outcome.predictionId = m.prediction.predictionId
  roundId : m.outcome.roundId = m.prediction.targetRoundId
  actualMult : m.outcome.actualMult = m.endEvent.crashPoint
  win : m.outcome.result = .win ↔ Wins m.prediction m.endEvent.crashPoint
  loss : m.outcome.result = .loss ↔ m.prediction.decision = .enter ∧ ¬Wins m.prediction m.endEvent.crashPoint
  void : m.outcome.result = .void ↔ m.prediction.decision ≠ .enter

/-- What holds in every state. While a call is between the handler and `stats_.record`, its outcomes are not yet
    counted. -/
structure SettlesSafely (s : State) : Prop where
  once : (s.emitted.map (·.prediction)).Subperm s.registered
  sound : ∀ m ∈ s.emitted, m.Sound
  returned : (s.returned.flatMap (·.outcomes) ++ s.calls.flatMap (·.outcomes)).Perm (settled s)
  counting : ∀ r, WinLossStats.Counted r →
    s.validator.stats.tally r + countOf r (unrecorded s) = countOf r (settled s)
  counted : s.calls = [] → s.validator.stats.wins = countOf .win (settled s) ∧
    s.validator.stats.losses = countOf .loss (settled s) ∧ s.validator.stats.voids = countOf .void (settled s)

/-! ### One step -/

/-- The calls in progress are of valid Ends and have taken predictions of their own round only. -/
structure CallsSound (s : State) : Prop where
  validEnd : ∀ c ∈ s.calls, c.endEvent.IsValidEnd
  round : ∀ c ∈ s.calls, ∀ p ∈ c.todo, c.endEvent.endedRound = p.targetRoundId

/-- The invariant of one step. -/
structure Safe (s : State) : Prop where
  predictions : (predictions s).Subperm s.registered
  calls : CallsSound s
  sound : ∀ m ∈ s.emitted, m.Sound
  returned : (s.returned.flatMap (·.outcomes) ++ s.calls.flatMap (·.outcomes)).Perm (settled s)
  counting : ∀ r, WinLossStats.Counted r →
    s.validator.stats.tally r + countOf r (unrecorded s) = countOf r (settled s)

theorem safe_initial : Safe {} where
  predictions := List.Subperm.refl _
  calls := ⟨fun _ hc => absurd hc List.not_mem_nil, fun _ hc => absurd hc List.not_mem_nil⟩
  sound := fun _ hm => absurd hm List.not_mem_nil
  returned := List.Perm.refl _
  counting := fun r _ => by cases r <;> rfl

theorem Safe.settlesSafely (h : Safe s) : SettlesSafely s where
  once := (List.sublist_append_left _ _).subperm.trans h.predictions
  sound := h.sound
  returned := h.returned
  counting := h.counting
  counted := fun hcalls => by
    have hcount : ∀ r, WinLossStats.Counted r → s.validator.stats.tally r = countOf r (settled s) := by
      intro r hr
      simpa [unrecorded, hcalls, countOf] using h.counting r hr
    exact ⟨hcount .win (by decide), hcount .loss (by decide), hcount .void (by decide)⟩

theorem emission_sound (p : PredictionEvent) (he : e.IsValidEnd) (hround : e.endedRound = p.targetRoundId) :
    Emission.Sound ⟨p, e, makeOutcome p e.crashPoint now⟩ := by
  obtain ⟨hid, hr, hactual, -⟩ := makeOutcome_fields p e.crashPoint now
  exact ⟨he, hround, hid, hr, hactual, makeOutcome_win_iff .., makeOutcome_loss_iff .., makeOutcome_void_iff ..⟩

/-- A step that leaves the calls, the outcomes and the counters alone. -/
theorem Safe.of_same (h : Safe s) (hpred : (ValidatorCalls.predictions t).Subperm t.registered)
    (hcalls : t.calls = s.calls) (hemitted : t.emitted = s.emitted) (hreturned : t.returned = s.returned)
    (hstats : t.validator.stats = s.validator.stats) : Safe t where
  predictions := hpred
  calls := ⟨by rw [hcalls]; exact h.calls.validEnd, by rw [hcalls]; exact h.calls.round⟩
  sound := by
    rw [hemitted]
    exact h.sound
  returned := by
    rw [hreturned, hcalls, settled, hemitted]
    exact h.returned
  counting := by
    rw [hstats, unrecorded, settled, hcalls, hemitted]
    exact h.counting

/-- Where the predictions are when the call `c` (or a new one, `c = []`) has gone on to `c'` and emitted `new`. -/
theorem predictions_moved (c c' rest : List EndCall) (new : List Emission) (hbefore : s.calls.Perm (c ++ rest))
    (hcalls : t.calls = c' ++ rest) (hemitted : t.emitted = s.emitted ++ new)
    (hpred : (new.map (·.prediction) ++ (c'.flatMap (·.todo) ++ t.validator.registry.entries)).Perm
      (c.flatMap (·.todo) ++ s.validator.registry.entries)) : (predictions t).Perm (predictions s) := by
  rw [List.perm_iff_count]
  intro p
  have hnew := hpred.count_eq p
  have hold := (hbefore.flatMap_right (·.todo)).count_eq p
  simp only [List.flatMap_append, List.count_append] at hnew hold
  simp only [predictions, hemitted, hcalls, List.map_append, List.flatMap_append, List.count_append]
  omega

/-- A step that takes the call `c` (or a new one, `c = []`) on to `c'`, emits `new` and returns `done`. -/
theorem Safe.of_calls (h : Safe s) (c c' rest : List EndCall) (new : List Emission)
    (done : List ValidateGameEndResult) (hbefore : s.calls.Perm (c ++ rest)) (hcalls : t.calls = c' ++ rest)
    (hregistered : t.registered = s.registered) (hemitted : t.emitted = s.emitted ++ new)
    (hreturned : t.returned = s.returned ++ done)
    (hpred : (new.map (·.prediction) ++ (c'.flatMap (·.todo) ++ t.validator.registry.entries)).Perm
      (c.flatMap (·.todo) ++ s.validator.registry.entries))
    (hvalid : ∀ d ∈ c', d.endEvent.IsValidEnd)
    (hround : ∀ d ∈ c', ∀ p ∈ d.todo, d.endEvent.endedRound = p.targetRoundId) (hsound : ∀ m ∈ new, m.Sound)
    (houtcomes : (done.flatMap (·.outcomes) ++ c'.flatMap (·.outcomes)).Perm
      (c.flatMap (·.outcomes) ++ new.map (·.outcome)))
    (hcount : ∀ r, WinLossStats.Counted r → t.validator.stats.tally r + countOf r (c'.flatMap (·.unrecorded)) =
      s.validator.stats.tally r + countOf r (c.flatMap (·.unrecorded)) + countOf r (new.map (·.outcome))) :
    Safe t where
  predictions := by
    rw [hregistered]
    exact (predictions_moved c c' rest new hbefore hcalls hemitted hpred).subperm.trans h.predictions
  calls := by
    have hrest : ∀ d ∈ rest, d ∈ s.calls := fun d hd => hbefore.symm.subset (List.mem_append_right _ hd)
    constructor
    · intro d hd
      rw [hcalls] at hd
      exact (List.mem_append.mp hd).elim (hvalid d) fun hd => h.calls.validEnd d (hrest d hd)
    · intro d hd
      rw [hcalls] at hd
      exact (List.mem_append.mp hd).elim (hround d) fun hd => h.calls.round d (hrest d hd)
  sound := by
    intro m hm
    rw [hemitted] at hm
    exact (List.mem_append.mp hm).elim (h.sound m) (hsound m)
  returned := by
    rw [List.perm_iff_count]
    intro o
    have hall := h.returned.count_eq o
    have hnew := houtcomes.count_eq o
    have hold := (hbefore.flatMap_right (·.outcomes)).count_eq o
    simp only [settled, List.flatMap_append, List.count_append] at hall hnew hold
    simp only [settled, hemitted, hreturned, hcalls, List.map_append, List.flatMap_append, List.count_append]
    omega
  counting := by
    intro r hr
    have hall := h.counting r hr
    have hnew := hcount r hr
    have hold := (hbefore.flatMap_right (·.unrecorded)).countP_eq (·.result = r)
    simp only [countOf, unrecorded, settled, List.flatMap_append, List.countP_append] at hall hnew hold
    simp only [countOf, unrecorded, settled, hemitted, hcalls, List.map_append, List.flatMap_append,
      List.countP_append]
    omega

theorem registerPrediction_safe (h : Safe s) {ev : PredictionEvent}
    (hs : step s (.registerPrediction ev) = some t) : Safe t := by
  have hcases := s.validator.registry.registerPrediction_entries ev
  rcases hr : s.validator.registry.registerPrediction ev with ⟨registry, _ | _⟩ <;> rw [hr] at hcases <;>
    simp only [step, hr, Option.some.injEq] at hs <;> subst hs
  · -- A refusal.
    obtain ⟨hok, -⟩ | ⟨-, hentries⟩ := hcases
    · cases hok
    · have hsame : registry.entries = s.validator.registry.entries := hentries
      refine h.of_same ?_ rfl rfl rfl rfl
      simp only [predictions, hsame]
      exact h.predictions
  · obtain ⟨-, hentries⟩ | ⟨hno, -⟩ := hcases
    · refine h.of_same ?_ rfl rfl rfl rfl
      have hsub : (predictions s ++ [ev]).Subperm (s.registered ++ [ev]) := h.predictions.append (List.Subperm.refl _)
      refine List.Subperm.trans (List.Sublist.subperm ?_) hsub
      simp only [predictions, List.append_assoc]
      exact (List.Sublist.refl _).append ((List.Sublist.refl _).append hentries)
    · exact absurd rfl hno

theorem expireStale_safe (h : Safe s) {maxAgeMs : Int} (hs : step s (.expireStale maxAgeMs now) = some t) :
    Safe t := by
  obtain rfl := Option.some.inj hs
  refine h.of_same (List.Subperm.trans (List.Sublist.subperm ?_) h.predictions) rfl rfl rfl rfl
  exact (List.Sublist.refl _).append ((List.Sublist.refl _).append (PredictionRegistry.expireStale_entries ..))

/-- A call that is refused returns no outcome. -/
theorem Safe.of_refused (h : Safe s) {validator : LiveValidator} {r : ValidateGameEndResult}
    (hregistry : validator.registry = s.validator.registry) (hstats : validator.stats = s.validator.stats)
    (hr : r.outcomes = []) : Safe { s with validator, returned := s.returned ++ [r] } := by
  refine h.of_calls [] [] s.calls [] [r] (List.Perm.refl _) rfl rfl (List.append_nil _).symm rfl ?_ ?_ ?_ ?_ ?_ ?_
  · rw [hregistry]
    exact List.Perm.refl _
  · exact fun d hd => absurd hd List.not_mem_nil
  · exact fun d hd => absurd hd List.not_mem_nil
  · exact fun m hm => absurd hm List.not_mem_nil
  · simp [hr]
  · intro k _
    rw [hstats]
    rfl

theorem onGameEnd_safe (h : Safe s) (hs : step s (.onGameEnd e) = some t) : Safe t := by
  obtain rfl := Option.some.inj hs
  obtain ⟨hregistry, hstats⟩ := s.validator.acceptEnd_rest e.endedRound
  unfold onGameEnd
  by_cases hvalid : ¬e.IsValidEnd
  · rw [if_pos hvalid]
    exact h.of_refused rfl rfl rfl
  by_cases hempty : e.endedRound = ""
  · rw [if_neg hvalid, if_pos hempty]
    exact h.of_refused rfl rfl rfl
  rw [if_neg hvalid, if_neg hempty]
  rcases haccept : s.validator.acceptEnd e.endedRound with ⟨validator, _ | _⟩ <;> rw [haccept] at hregistry hstats
  · exact h.of_refused hregistry hstats rfl
  · have hentries : validator.registry = s.validator.registry := hregistry
    refine h.of_calls [] [⟨e, .accepted⟩] s.calls [] [] (List.Perm.refl _) rfl rfl (List.append_nil _).symm
      (List.append_nil _).symm ?_ ?_ ?_ ?_ ?_ ?_
    · simp [hentries, EndCall.todo]
    · rintro d hd
      obtain rfl := List.mem_singleton.mp hd
      exact not_not.mp hvalid
    · rintro d hd p hp
      obtain rfl := List.mem_singleton.mp hd
      exact absurd hp List.not_mem_nil
    · exact fun m hm => absurd hm List.not_mem_nil
    · exact List.Perm.refl _
    · intro k _
      simp only [if_true]
      rw [show validator.stats = s.validator.stats from hstats]
      rfl

/-- What is left to show of a step of one call to its next stage `d`. -/
theorem Safe.of_resume (h : Safe s) (hc : c ∈ s.calls) (d : EndCall) (new : List Emission)
    (hend : d.endEvent = c.endEvent) (hcalls : t.calls = d :: s.calls.erase c) (hregistered : t.registered = s.registered)
    (hemitted : t.emitted = s.emitted ++ new) (hreturned : t.returned = s.returned)
    (hpred : (new.map (·.prediction) ++ (d.todo ++ t.validator.registry.entries)).Perm
      (c.todo ++ s.validator.registry.entries))
    (hround : ∀ p ∈ d.todo, c.endEvent.endedRound = p.targetRoundId) (hsound : ∀ m ∈ new, m.Sound)
    (houtcomes : d.outcomes = c.outcomes ++ new.map (·.outcome))
    (hcount : ∀ r, WinLossStats.Counted r → t.validator.stats.tally r + countOf r d.unrecorded =
      s.validator.stats.tally r + countOf r c.unrecorded + countOf r (new.map (·.outcome))) : Safe t := by
  refine h.of_calls [c] [d] (s.calls.erase c) new [] (List.perm_cons_erase hc) hcalls hregistered hemitted
    (by rw [hreturned, List.append_nil]) ?_ ?_ ?_ hsound ?_ ?_
  · simpa using hpred
  · rintro d' hd'
    obtain rfl := List.mem_singleton.mp hd'
    rw [hend]
    exact h.calls.validEnd c hc
  · rintro d' hd' p hp
    obtain rfl := List.mem_singleton.mp hd'
    rw [hend]
    exact hround p hp
  · simp [houtcomes]
  · intro r hr
    simpa using hcount r hr

/-- A step in which a call returns. -/
theorem Safe.of_return (h : Safe s) (hc : c ∈ s.calls) (r : ValidateGameEndResult) (htodo : c.todo = [])
    (hunrecorded : c.unrecorded = []) (hcalls : t.calls = s.calls.erase c) (hregistered : t.registered = s.registered)
    (hemitted : t.emitted = s.emitted) (hreturned : t.returned = s.returned ++ [r])
    (hregistry : t.validator.registry = s.validator.registry) (hstats : t.validator.stats = s.validator.stats)
    (houtcomes : r.outcomes = c.outcomes) : Safe t := by
  refine h.of_calls [c] [] (s.calls.erase c) [] [r] (List.perm_cons_erase hc) hcalls hregistered
    (by rw [hemitted, List.append_nil]) hreturned ?_ ?_ ?_ ?_ ?_ ?_
  · simp [htodo, hregistry]
  · exact fun d hd => absurd hd List.not_mem_nil
  · exact fun d hd => absurd hd List.not_mem_nil
  · exact fun m hm => absurd hm List.not_mem_nil
  · simp [houtcomes]
  · intro k _
    simp [hunrecorded, hstats, countOf]

theorem resume_safe (h : Safe s) (hs : step s (.resume c now) = some t) : Safe t := by
  rw [step, Option.ite_none_right_eq_some] at hs
  obtain ⟨hc, hs⟩ := hs
  obtain rfl := Option.some.inj hs
  have hvalid := h.calls.validEnd c hc
  have hround := h.calls.round c hc
  obtain ⟨e, stage⟩ := c
  rcases stage with _ | ⟨_ | ⟨p, todo⟩, outcomes⟩ | ⟨outcomes, _ | ⟨o, todo⟩⟩
  · -- The predictions of the round leave the registry.
    have htake := s.validator.registry.takeForRound_perm e.endedRound
    refine h.of_resume hc ⟨e, .matching (s.validator.registry.takeForRound e.endedRound).1 []⟩ [] rfl rfl rfl
      (List.append_nil _).symm rfl htake ?_ ?_ rfl fun _ _ => rfl
    · exact fun p hp => (PredictionRegistry.mem_takeForRound hp).symm
    · exact fun m hm => absurd hm List.not_mem_nil
  · exact h.of_resume hc ⟨e, .recording outcomes outcomes⟩ [] rfl rfl rfl (List.append_nil _).symm rfl
      (List.Perm.refl _) (fun p hp => absurd hp List.not_mem_nil) (fun m hm => absurd hm List.not_mem_nil)
      (List.append_nil _).symm fun _ _ => rfl
  · -- One prediction is settled.
    have hp := hround p List.mem_cons_self
    refine h.of_resume hc ⟨e, .matching todo (outcomes ++ [makeOutcome p e.crashPoint now])⟩
      [⟨p, e, makeOutcome p e.crashPoint now⟩] rfl rfl rfl rfl rfl (List.Perm.refl _) ?_ ?_ rfl ?_
    · exact fun q hq => hround q (List.mem_cons_of_mem _ hq)
    · rintro m hm
      obtain rfl := List.mem_singleton.mp hm
      exact emission_sound p hvalid hp
    · intro r _
      simp only [EndCall.unrecorded, countOf, List.countP_append, List.map_cons, List.map_nil]
      exact (Nat.add_assoc ..).symm
  · rcases outcomes with _ | ⟨o, outcomes⟩
    · exact h.of_return hc { kind := .noPending, gameId := e.endedRound, detail := "no pending prediction" }
        rfl rfl rfl rfl rfl rfl rfl rfl rfl
    · exact h.of_return hc { kind := .matched, outcomes := o :: outcomes, gameId := e.endedRound }
        rfl rfl rfl rfl rfl rfl rfl rfl rfl
  · -- One outcome is counted.
    refine h.of_resume hc ⟨e, .recording outcomes todo⟩ [] rfl rfl rfl (List.append_nil _).symm rfl (List.Perm.refl _)
      (fun p hp => absurd hp List.not_mem_nil) (fun m hm => absurd hm List.not_mem_nil) (List.append_nil _).symm ?_
    intro r hr
    simp only [EndCall.unrecorded, countOf, List.countP_cons, decide_eq_true_eq, List.map_nil, List.countP_nil]
    show (s.validator.stats.record o 0).tally r + _ = _
    rw [WinLossStats.tally_record _ _ _ hr]
    omega

/-! ### Runs -/

theorem step_safe (h : Safe s) {a : Act} (hs : step s a = some t) : Safe t := by
  cases a with
  | registerPrediction ev => exact registerPrediction_safe h hs
  | expireStale maxAgeMs now => exact expireStale_safe h hs
  | onGameEnd e => exact onGameEnd_safe h hs
  | resume c now => exact resume_safe h hs

/-- Every interleaving of registrations, expiries and the stages of any number of `onGameEnd` calls settles
    safely, in each of its states. -/
theorem settlesSafely_along (acts : List Act) : Along step SettlesSafely {} acts :=
  Along.of_invariant (fun _ h => h.settlesSafely) (fun _ _ _ h hs => step_safe h hs) safe_initial

end ValidatorCalls
end CrashCore
