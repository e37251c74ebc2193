import CrashCore.Theorems.SettlementSafety
import CrashCore.Validation.RegistryCalls

/-! Every registered prediction is pending, settled or reported as stale, exactly as long as no registration drops an
entry and no expiry and no scan finds an old one: these three say nothing about what they remove. -/

namespace CrashCore

/-! ### Steps of the validator that move predictions -/

namespace ValidatorCalls

variable {s t : State} {c : EndCall} {e : CrashEvent} {now : TimestampMs}

theorem onGameEnd_predictions (s : State) (e : CrashEvent) :
    (predictions (onGameEnd s e)).Perm (predictions s) ∧ (onGameEnd s e).registered = s.registered := by
  have hrefused : ∀ (validator : LiveValidator) (r : ValidateGameEndResult), validator.registry = s.validator.registry →
      (predictions { s with validator, returned := s.returned ++ [r] }).Perm (predictions s) := by
    intro validator r hregistry
    simp only [predictions, hregistry]
    exact List.Perm.refl _
  unfold onGameEnd
  split
  · exact ⟨hrefused s.validator _ rfl, rfl⟩
  split
  · exact ⟨hrefused s.validator _ rfl, rfl⟩
  obtain ⟨hregistry, -⟩ := s.validator.acceptEnd_rest e.endedRound
  dsimp only
  split
  · refine ⟨?_, rfl⟩
    simp only [predictions, hregistry, List.flatMap_cons]
    exact List.Perm.refl _
  · exact ⟨hrefused _ _ hregistry, rfl⟩

theorem resume_predictions (hc : c ∈ s.calls) (now : TimestampMs) :
    (predictions (resume s c now)).Perm (predictions s) ∧ (resume s c now).registered = s.registered := by
  have hbefore := List.perm_cons_erase hc
  have hnone : s.emitted = s.emitted ++ [] := (List.append_nil _).symm
  obtain ⟨e, stage⟩ := c
  rcases stage with _ | ⟨_ | ⟨p, todo⟩, outcomes⟩ | ⟨_ | ⟨o, outcomes⟩, _ | ⟨o', todo⟩⟩
  · have htake := s.validator.registry.takeForRound_perm e.endedRound
    exact ⟨predictions_moved [_] [⟨e, .matching (s.validator.registry.takeForRound e.endedRound).1 []⟩] _ [] hbefore rfl
      hnone (by simpa [EndCall.todo, resume] using htake), rfl⟩
  · exact ⟨predictions_moved [_] [⟨e, .recording outcomes outcomes⟩] _ [] hbefore rfl hnone (List.Perm.refl _), rfl⟩
  · exact ⟨predictions_moved [_] [⟨e, .matching todo (outcomes ++ [makeOutcome p e.crashPoint now])⟩] _
      [⟨p, e, makeOutcome p e.crashPoint now⟩] hbefore rfl rfl (by simp [EndCall.todo, resume]), rfl⟩
  · exact ⟨predictions_moved [_] [] _ [] hbefore rfl hnone (List.Perm.refl _), rfl⟩
  · exact ⟨predictions_moved [_] [⟨e, .recording [] todo⟩] _ [] hbefore rfl hnone (List.Perm.refl _), rfl⟩
  · exact ⟨predictions_moved [_] [] _ [] hbefore rfl hnone (List.Perm.refl _), rfl⟩
  · exact ⟨predictions_moved [_] [⟨e, .recording (o :: outcomes) todo⟩] _ [] hbefore rfl hnone (List.Perm.refl _), rfl⟩

end ValidatorCalls

/-! ### The accounting -/

namespace StuckRecovery
open Transition
open ValidatorCalls (predictions)

variable {s t : State} {ev : PredictionEvent} {maxAgeMs : Int} {now : TimestampMs}

/-- Each successful registration is in the registry, in the hands of a call of `onGameEnd`, or was given to the outcome
    handler or to the stale handler, and to one of them once. -/
def Accounted (s : State) : Prop := (predictions s.validation ++ s.stale).Perm s.validation.registered

/-- The registration would drop nothing from the full registry: none of the oldest ids in excess is indexed to the round
    of an entry with that id. -/
def DropsNothing (r : PredictionRegistry) (ev : PredictionEvent) : Prop :=
  ∀ e ∈ (r.add ev).entries, ¬(e.predictionId ∈ (r.add ev).surplus ∧ (r.add ev).byId e.predictionId = some e.targetRoundId)

/-- All entries are young enough. -/
def NoneStale (r : PredictionRegistry) (maxAgeMs : Int) (now : TimestampMs) : Prop :=
  ∀ e ∈ r.entries, ¬maxAgeMs < now - e.createdAtMs

/-- The step takes no prediction out of the registry without a report. -/
def TakesNone (s : State) : Act → Prop
  | .validate (.registerPrediction ev) =>
    s.validation.validator.registry.Accepts ev → DropsNothing s.validation.validator.registry ev
  | .validate (.expireStale maxAgeMs now) => NoneStale s.validation.validator.registry maxAgeMs now
  | .validate (.onGameEnd _) | .validate (.resume ..) => True
  | .scan now => NoneStale s.validation.validator.registry s.maxAgeMs now

instance (r : PredictionRegistry) (ev : PredictionEvent) : Decidable (DropsNothing r ev) :=
  inferInstanceAs (Decidable (∀ e ∈ _, _))

instance (r : PredictionRegistry) (maxAgeMs : Int) (now : TimestampMs) : Decidable (NoneStale r maxAgeMs now) :=
  inferInstanceAs (Decidable (∀ e ∈ _, _))

instance (s : State) : DecidablePred (TakesNone s)
  | .validate (.registerPrediction _) => inferInstanceAs (Decidable (_ → DropsNothing ..))
  | .validate (.expireStale ..) => inferInstanceAs (Decidable (NoneStale ..))
  | .validate (.onGameEnd _) | .validate (.resume ..) => inferInstanceAs (Decidable True)
  | .scan _ => inferInstanceAs (Decidable (NoneStale ..))

theorem accounted_initial (maxEntries : Nat) (maxAgeMs : Int) : Accounted (initial maxEntries maxAgeMs) := List.Perm.refl _

/-- After a step that adds `new` and may take entries out of the registry, the accounts are right exactly if it has
    taken out none. -/
theorem accounted_iff_entries (h : Accounted s) (new : List PredictionEvent)
    (hcalls : t.validation.calls = s.validation.calls) (hemitted : t.validation.emitted = s.validation.emitted)
    (hstale : t.stale = s.stale) (hregistered : t.validation.registered = s.validation.registered ++ new)
    (hsub : t.validation.validator.registry.entries.Sublist (s.validation.validator.registry.entries ++ new)) :
    Accounted t ↔ t.validation.validator.registry.entries = s.validation.validator.registry.entries ++ new := by
  unfold Accounted at h ⊢
  constructor
  · intro ht
    have hbefore := h.length_eq
    have hafter := ht.length_eq
    simp only [predictions, hcalls, hemitted, hstale, hregistered, List.length_append] at hbefore hafter
    refine hsub.eq_of_length ?_
    rw [List.length_append]
    omega
  · intro hentries
    rw [List.perm_iff_count] at h ⊢
    intro p
    have hbefore := h p
    simp only [predictions, List.count_append] at hbefore
    simp only [predictions, hcalls, hemitted, hstale, hregistered, hentries, List.count_append]
    omega

/-- What an expiry leaves. -/
theorem expireStale_entries_eq_iff (r : PredictionRegistry) (maxAgeMs : Int) (now : TimestampMs) :
    (r.expireStale maxAgeMs now).entries = r.entries ↔ NoneStale r maxAgeMs now := by
  simp only [PredictionRegistry.expireStale, List.filter_eq_self, decide_eq_true_eq, NoneStale]

theorem registered_entries_eq_iff (r : PredictionRegistry) (ev : PredictionEvent) (h : r.Accepts ev) :
    (r.registerPrediction ev).1.entries = r.entries ++ [ev] ↔ DropsNothing r ev := by
  rw [PredictionRegistry.registerPrediction_of_accepts h, (PredictionRegistry.foldl_drop _ _).2]
  change (r.add ev).entries.filter _ = (r.add ev).entries ↔ _
  rw [List.filter_eq_self]
  exact forall₂_congr fun _ _ => decide_eq_true_iff

theorem registerPrediction_accounted (h : Accounted s) (hs : step s (.validate (.registerPrediction ev)) = some t) :
    Accounted t ↔ TakesNone s (.validate (.registerPrediction ev)) := by
  obtain ⟨validation, hv, rfl⟩ := Option.map_eq_some_iff.mp hs
  have hcases := s.validation.validator.registry.registerPrediction_entries ev
  have haccepts := s.validation.validator.registry.registerPrediction_cases ev
  have hdrops := registered_entries_eq_iff s.validation.validator.registry ev
  rcases hr : s.validation.validator.registry.registerPrediction ev with ⟨registry, _ | _⟩ <;>
    rw [hr] at hcases haccepts hdrops <;> simp only [ValidatorCalls.step, hr, Option.some.injEq] at hv <;> subst hv
  · -- A refusal.
    obtain ⟨hok, -⟩ | ⟨-, hentries⟩ := hcases
    · cases hok
    obtain ⟨-, hok⟩ | ⟨hno, -⟩ := haccepts
    · cases hok
    have hsame : registry.entries = s.validation.validator.registry.entries := hentries
    refine Iff.trans (accounted_iff_entries h [] rfl rfl rfl (List.append_nil _).symm (by simp [hsame])) ?_
    exact ⟨fun _ hacc => absurd hacc hno, fun _ => by simp [hsame]⟩
  · obtain ⟨-, hsub⟩ | ⟨hno, -⟩ := hcases
    · obtain ⟨hacc, -⟩ | ⟨-, e, hno⟩ := haccepts
      · refine Iff.trans (accounted_iff_entries h [ev] rfl rfl rfl rfl hsub) ?_
        exact (hdrops hacc).trans ⟨fun hd _ => hd, fun hd => hd hacc⟩
      · cases hno
    · exact absurd rfl hno

/-- An expiry, by the validator or by a scan. -/
theorem expireStale_accounted (h : Accounted s) {calls : ValidatorCalls.State} {recovered : Nat}
    (hcalls : calls = { s.validation with validator := { s.validation.validator with
      registry := s.validation.validator.registry.expireStale maxAgeMs now } }) :
    Accounted { s with validation := calls, recovered } ↔ NoneStale s.validation.validator.registry maxAgeMs now := by
  subst hcalls
  rw [← expireStale_entries_eq_iff]
  have hiff := accounted_iff_entries (t := { s with
    validation := { s.validation with validator := { s.validation.validator with
      registry := s.validation.validator.registry.expireStale maxAgeMs now } }
    recovered }) h [] rfl rfl rfl (List.append_nil _).symm
    (by simpa using PredictionRegistry.expireStale_entries s.validation.validator.registry maxAgeMs now)
  simpa using hiff

theorem step_accounted {a : Act} (h : Accounted s) (hs : step s a = some t) : Accounted t ↔ TakesNone s a := by
  have hmoved : ∀ validation : ValidatorCalls.State, (predictions validation).Perm (predictions s.validation) ∧
      validation.registered = s.validation.registered → Accounted { s with validation } := by
    rintro validation ⟨hperm, hregistered⟩
    rw [Accounted, hregistered]
    exact (hperm.append_right _).trans h
  cases a with
  | scan now =>
    cases hs
    exact expireStale_accounted h rfl
  | validate a =>
    cases a with
    | registerPrediction ev => exact registerPrediction_accounted h hs
    | expireStale maxAgeMs now =>
      cases hs
      exact expireStale_accounted h rfl
    | onGameEnd e =>
      cases hs
      exact ⟨fun _ => trivial, fun _ => hmoved _ (ValidatorCalls.onGameEnd_predictions s.validation e)⟩
    | resume c now =>
      obtain ⟨validation, hv, rfl⟩ := Option.map_eq_some_iff.mp hs
      rw [ValidatorCalls.step, Option.ite_none_right_eq_some] at hv
      obtain ⟨hc, hv⟩ := hv
      cases hv
      exact ⟨fun _ => trivial, fun _ => hmoved _ (ValidatorCalls.resume_predictions hc now)⟩

/-- A run keeps every registered prediction accounted for, in each of its states, exactly if no registration drops an
    entry and no expiry and no scan finds a stale one. -/
theorem accounted_along_iff (maxEntries : Nat) (maxAgeMs : Int) (acts : List Act)
    (hrun : run step (initial maxEntries maxAgeMs) acts ≠ none) :
    Along step Accounted (initial maxEntries maxAgeMs) acts ↔ Meets step TakesNone (initial maxEntries maxAgeMs) acts :=
  along_iff_meets (I := Accounted) (fun _ h => h) (fun _ _ _ h hok hs => (step_accounted h hs).mpr hok)
    (fun _ _ _ h hs ht => (step_accounted h hs).mp ht) (accounted_initial maxEntries maxAgeMs) hrun

/-- A prediction for round `r2`, made at time 0. -/
def stuck : PredictionEvent := { predictionId := "p1", targetRoundId := "r2" }

theorem accounted_along_youngEnough : Along step Accounted (initial 10 180000)
    [.validate (.registerPrediction stuck), .scan 1000, .validate (.expireStale 300000 2000)] :=
  (accounted_along_iff 10 180000 _ (by decide +kernel)).mpr (by decide +kernel)

/-- The scan removes the stuck prediction, and nobody hears of it. -/
theorem not_accounted_along_scan : ¬Along step Accounted (initial 10 180000)
    [.validate (.registerPrediction stuck), .scan 180001] := by
  intro h
  have hmeets := (Along.meets (I := Accounted) (fun _ _ _ h hok hs => (step_accounted h hs).mpr hok)
    (fun _ _ _ h hs ht => (step_accounted h hs).mp ht) (accounted_initial 10 180000) (by decide +kernel) h)
  exact absurd hmeets (by decide +kernel)

end StuckRecovery
end CrashCore
