import CrashCore.PredictionInterface.TargetCoordinator

/-! When the claims of a target are exclusive. The start of a round makes its target available, whoever has claimed
it, and also when it is resolved; and a resolved target that is marked as predicted can be released. -/

namespace CrashCore
namespace TargetCalls
open TargetCoordinator Transition

variable {s t : State} {a : Act} {c : TargetCoordinator} {id r : RoundId} {notes : List Note}
  {predictionId : PredictionId} {now : TimestampMs} {ageMs : Int}

/-- Between two claims of a round there is a release of it, a round that is claimed and not released since is not
    available, and a round that was resolved never is again. -/
structure Exclusive (s : State) : Prop where
  released : ∀ id newer between older, s.notes = newer ++ .claimed id :: (between ++ .claimed id :: older) →
    .released id ∈ between
  held : ∀ id, Held id s.notes → ¬s.coordinator.Free id
  resolved : ∀ id, .resolved id ∈ s.notes → ¬s.coordinator.Free id

/-! ### Notes -/

/-- A claim that no release follows is held. -/
theorem held_of_claimed {older : List Note} :
    ∀ {between : List Note}, .released id ∉ between → Held id (between ++ .claimed id :: older)
  | [], _ => Or.inl rfl
  | .claimed _ :: _, h => Or.inr (held_of_claimed fun hm => h (List.mem_cons_of_mem _ hm))
  | .released r :: _, h => by
    refine ⟨?_, held_of_claimed fun hm => h (List.mem_cons_of_mem _ hm)⟩
    rintro rfl
    exact h List.mem_cons_self
  | .resolved _ :: between, h =>
    have hrest : Held id (between ++ .claimed id :: older) := held_of_claimed fun hm => h (List.mem_cons_of_mem _ hm)
    hrest

/-- A new note keeps the order of claims and releases, if it is no claim of a round that is held. -/
theorem released_cons {note : Note}
    (h : ∀ id newer between older, notes = newer ++ .claimed id :: (between ++ .claimed id :: older) →
      .released id ∈ between)
    (hnew : ∀ id, note = .claimed id → ¬Held id notes) (id : RoundId) (newer between older : List Note)
    (heq : note :: notes = newer ++ .claimed id :: (between ++ .claimed id :: older)) : .released id ∈ between := by
  rcases newer with _ | ⟨n, newer⟩
  · obtain ⟨hnote, hnotes⟩ := List.cons.inj heq
    by_contra hrel
    exact hnew id hnote (hnotes ▸ held_of_claimed hrel)
  · exact h id newer between older (List.cons.inj heq).2

/-! ### What a call does to a target -/

theorem free_congr {c' : TargetCoordinator} (h : c'.get id = c.get id) : c'.Free id ↔ c.Free id := by
  rw [Free, Free, h]

theorem free_noteRoundStart : (c.noteRoundStart id now).Free r ↔ r = id ∨ c.Free r := by
  by_cases hr : r = id
  · subst hr
    exact iff_of_true ((free_iff get_noteRoundStart).mpr rfl) (Or.inl rfl)
  · rw [free_congr (get_noteRoundStart_ne hr)]
    exact ⟨Or.inr, fun h => h.resolve_left hr⟩

theorem not_free_claim : ¬(c.claim id predictionId now).1.Free id := by
  rw [free_iff get_claim]
  rcases c.get id with _ | rec
  · exact TargetState.noConfusion
  · dsimp only
    split
    · exact TargetState.noConfusion
    · assumption

theorem free_of_claim (h : (c.claim id predictionId now).1.Free r) : r ≠ id ∧ c.Free r := by
  have hr : r ≠ id := by
    rintro rfl
    exact not_free_claim h
  exact ⟨hr, (free_congr (get_claim_ne hr)).mp h⟩

/-- A record that is changed to a state other than `available` is not free. -/
theorem free_of_modify {f : TargetRecord → TargetRecord} (hf : ∀ rec, (f rec).state ≠ .available)
    (h : (c.modify id f).Free r) : c.Free r ∧ (c.targets.Has id → r ≠ id) := by
  by_cases hr : r = id
  · subst hr
    rcases hget : c.get r with _ | rec
    · exact ⟨free_of_none hget, fun hhas => absurd hhas (Table.find?_eq_none.mp hget)⟩
    · have hmod : (c.modify r f).get r = _ := get_modify_self f
      rw [hget, Option.map_some] at hmod
      exact absurd ((free_iff hmod).mp h) (hf rec)
  · exact ⟨(free_congr (get_modify_ne _ hr)).mp h, fun _ => hr⟩

theorem free_of_markPredicted (h : (c.markPredicted id).Free r) : c.Free r :=
  (free_of_modify (fun _ => TargetState.noConfusion) h).1

theorem free_of_markResolved (h : (c.markResolved id now).Free r) : c.Free r ∧ (c.targets.Has id → r ≠ id) := by
  by_cases hhas : c.targets.Has id
  · rw [markResolved, if_pos hhas] at h
    exact free_of_modify (f := fun r => { r with state := .resolved, resolvedAtMs := now })
      (fun _ => TargetState.noConfusion) h
  · rw [markResolved, if_neg hhas] at h
    exact ⟨h, fun h' => absurd h' hhas⟩

/-- A release succeeds if there is an owner. -/
theorem release_eq : (c.release id).2 = (c.owner id).isSome ∧ ((c.owner id).isSome = false → (c.release id).1 = c) := by
  unfold release owner
  rcases hget : c.targets.find? id with _ | rec
  · rw [show c.get id = none from hget]
    exact ⟨rfl, fun _ => rfl⟩
  · rw [show c.get id = some rec from hget]
    dsimp only
    split
    · exact ⟨rfl, fun h => by cases h⟩
    · exact ⟨rfl, fun _ => rfl⟩

theorem owner_isSome_iff :
    (c.owner id).isSome ↔ ∃ rec, c.get id = some rec ∧ (rec.state = .claimed ∨ rec.state = .predicted) := by
  unfold owner
  rcases c.get id with _ | rec
  · simp
  · by_cases h : rec.state = .claimed ∨ rec.state = .predicted <;> simp [h]

theorem free_release (h : (c.owner id).isSome) : (c.release id).1.Free r ↔ r = id ∨ c.Free r := by
  by_cases hr : r = id
  · subst hr
    obtain ⟨rec, hget, hstate⟩ := owner_isSome_iff.mp h
    exact iff_of_true ((free_iff (get_release hget hstate)).mpr rfl) (Or.inl rfl)
  · rw [free_congr (get_release_ne hr)]
    exact ⟨Or.inr, fun h => h.resolve_left hr⟩

theorem free_of_expireOlderThan (h : (c.expireOlderThan ageMs now).1.Free r) : c.Free r := by
  rcases hget : c.get r with _ | rec
  · exact free_of_none hget
  · have hexp : (c.expireOlderThan ageMs now).1.get r = _ := get_expireOlderThan ageMs
    rw [hget, Option.map_some] at hexp
    have hstate := (free_iff hexp).mp h
    rw [free_iff hget]
    split at hstate
    · cases hstate
    · exact hstate

/-! ### Runs -/

theorem exclusive_init : Exclusive {} where
  released _ newer _ _ h := by simp at h
  held _ h := h.elim
  resolved _ h := by simp at h

/-- The notes are the same and nothing becomes available. -/
theorem Exclusive.of_free (h : Exclusive s) (hnotes : t.notes = s.notes)
    (hfree : ∀ r, t.coordinator.Free r → s.coordinator.Free r) : Exclusive t where
  released := hnotes ▸ h.released
  held id hheld hf := h.held id (hnotes ▸ hheld) (hfree id hf)
  resolved id hres hf := h.resolved id (hnotes ▸ hres) (hfree id hf)

theorem Exclusive.noteRoundStart (h : Exclusive s) (hok : KeepsOwner s (.noteRoundStart id now)) :
    Exclusive { s with coordinator := s.coordinator.noteRoundStart id now } where
  released := h.released
  held r hheld hf := by
    rcases free_noteRoundStart.mp hf with rfl | hf
    · exact hok.1 hheld
    · exact h.held r hheld hf
  resolved r hres hf := by
    rcases free_noteRoundStart.mp hf with rfl | hf
    · exact hok.2 hres
    · exact h.resolved r hres hf

theorem Exclusive.claim (h : Exclusive s) (hfree : s.coordinator.Free id) :
    Exclusive { coordinator := (s.coordinator.claim id predictionId now).1, notes := .claimed id :: s.notes } where
  released := released_cons h.released fun r hr hheld => by
    cases hr
    exact h.held id hheld hfree
  held r hheld hf := by
    obtain ⟨hne, hf⟩ := free_of_claim hf
    exact h.held r (hheld.resolve_left (Ne.symm hne)) hf
  resolved r hres hf := by
    obtain ⟨-, hf⟩ := free_of_claim hf
    exact h.resolved r (by simpa using hres) hf

theorem Exclusive.release (h : Exclusive s) (howner : (s.coordinator.owner id).isSome)
    (hok : KeepsOwner s (.release id)) :
    Exclusive { coordinator := (s.coordinator.release id).1, notes := .released id :: s.notes } where
  released := released_cons h.released fun r hr => nomatch hr
  held r hheld hf := by
    rcases (free_release howner).mp hf with rfl | hf
    · exact hheld.1 rfl
    · exact h.held r hheld.2 hf
  resolved r hres hf := by
    have hold : Note.resolved r ∈ s.notes := by simpa using hres
    rcases (free_release howner).mp hf with rfl | hf
    · exact hok howner hold
    · exact h.resolved r hold hf

theorem Exclusive.markResolved (h : Exclusive s) (hhas : s.coordinator.targets.Has id) :
    Exclusive { coordinator := s.coordinator.markResolved id now, notes := .resolved id :: s.notes } where
  released := released_cons h.released fun r hr => nomatch hr
  held r hheld hf := h.held r hheld (free_of_markResolved hf).1
  resolved r hres hf := by
    obtain ⟨hf, hne⟩ := free_of_markResolved hf
    have hold : Note.resolved r ∈ s.notes := by simpa [hne hhas] using hres
    exact h.resolved r hold hf

theorem exclusive_step (h : Exclusive s) (hok : KeepsOwner s a) (hs : step s a = some t) : Exclusive t := by
  cases a with
  | noteRoundStart id now =>
    cases hs
    exact h.noteRoundStart hok
  | claim id predictionId now =>
    cases hs
    by_cases hfree : s.coordinator.Free id
    · rw [if_pos (claim_eq_true.mpr hfree)]
      exact h.claim hfree
    · refine h.of_free (if_neg fun hdone => hfree (claim_eq_true.mp hdone)) fun r hf => (free_of_claim hf).2
  | markPredicted id =>
    cases hs
    exact h.of_free rfl fun r => free_of_markPredicted
  | release id =>
    cases hs
    rw [release_eq.1]
    by_cases howner : (s.coordinator.owner id).isSome
    · rw [if_pos howner]
      exact h.release howner hok
    · refine h.of_free (if_neg howner) fun r hf => ?_
      rwa [release_eq.2 (Bool.eq_false_iff.mpr howner)] at hf
  | markResolved id now =>
    cases hs
    by_cases hhas : s.coordinator.targets.Has id
    · rw [if_pos hhas]
      exact h.markResolved hhas
    · exact h.of_free (if_neg hhas) fun r hf => (free_of_markResolved hf).1
  | expireOlderThan ageMs now =>
    cases hs
    exact h.of_free rfl fun r => free_of_expireOlderThan

/-- A step that leaves the claims exclusive has kept the owner. -/
theorem keepsOwner_of_exclusive (hs : step s a = some t) (h : Exclusive t) : KeepsOwner s a := by
  cases a with
  | noteRoundStart id now =>
    cases hs
    have hfree : (s.coordinator.noteRoundStart id now).Free id := free_noteRoundStart.mpr (Or.inl rfl)
    exact ⟨fun hheld => h.held id hheld hfree, fun hres => h.resolved id hres hfree⟩
  | release id =>
    cases hs
    intro howner hres
    refine h.resolved id ?_ ((free_release howner).mpr (Or.inl rfl))
    rw [release_eq.1, if_pos howner]
    exact List.mem_cons_of_mem _ hres
  | claim | markPredicted | markResolved | expireOlderThan => trivial

theorem step_ne_none (s : State) (a : Act) : step s a ≠ none := by
  cases a <;> exact Option.some_ne_none _

/-- In a run of the calls of a coordinator the claims are exclusive exactly if no start comes for a round that is
    claimed or was resolved, and no release for a round that was marked as predicted after it was resolved. -/
theorem exclusive_along_iff (as : List Act) :
    Along step Exclusive {} as ↔ Meets step KeepsOwner {} as :=
  along_iff_meets (fun _ => id) (fun _ _ _ => exclusive_step) (fun _ _ _ _ => keepsOwner_of_exclusive) exclusive_init
    (run_ne_none step_ne_none as _)

/-- The target is claimed, and then its round starts. -/
def claimedBeforeStart : List Act :=
  [.claim "r2" "p1" 1000, .noteRoundStart "r2" 2000, .claim "r2" "p2" 3000]

theorem not_exclusive_along_claimedBeforeStart : ¬Along step Exclusive {} claimedBeforeStart := by
  refine not_along_of_last rfl fun h => ?_
  have hbetween := h.released "r2" [] [] [] rfl
  exact List.not_mem_nil hbetween

end TargetCalls
end CrashCore
