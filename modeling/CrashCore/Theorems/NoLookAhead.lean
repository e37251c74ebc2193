import CrashCore.Application.RoundEnds

/-! When no prediction for a round is registered or published once the End of the round was processed. No function
compares the End it is given with what was processed before: an End that comes late, as the second of a batch that
starts with the newest round or as an old round once more, leads to a prediction for a round that is over. -/

namespace CrashCore
namespace RoundEnds
open Transition

variable {persistent : Bool} {s t : State} {c : Call} {stage : Stage} {roundId : RoundId} {resp : PredictionResponse}
  {pev : PredictionEvent} {now : TimestampMs} {t0 : Int} {f : Faults} {a : Act}

/-- Nothing is announced for a round after its End, and a round that is settled has no pending prediction. -/
structure NoLookAhead (s : State) : Prop where
  announced : ∀ a ∈ s.log.announced, a.afterEnd = false
  settled : ∀ roundId ∈ s.log.settled, ∀ ev ∈ s.validator.registry.entries, ev.targetRoundId ≠ roundId

/-! ### The condition -/

/-- The rounds that the call may still announce a prediction for. -/
def Call.targets (c : Call) : List RoundId :=
  match c.stage with
  | .handling resp | .coordinating resp => [resp.targetRoundId]
  | .publishing resp pev => [pev.targetRoundId, resp.targetRoundId]
  | .handingOff pev => [pev.targetRoundId]
  | _ => []

/-- * When the engine gives an actionable prediction after an End, the End of the next round was not processed yet.
    * While the prediction for a round is on its way, no End of that round is processed. -/
def InOrder (s : State) : Act → Prop
  | .advance c resp _ _ _ =>
    (c.stage = .submitting → isActionable (answer c.event resp) → nextRoundId c.event.endedRound ∉ s.log.processed) ∧
    (c.stage = .settling ∨ c.stage = .observing → ∀ c' ∈ s.calls, c.event.endedRound ∉ c'.targets)
  | _ => True

instance : ∀ a, Decidable (InOrder s a)
  | .advance c resp _ _ _ => decidable_of_iff ((c.stage = .submitting → isActionable (answer c.event resp) →
      nextRoundId c.event.endedRound ∉ s.log.processed) ∧
    (c.stage = .settling ∨ c.stage = .observing → ∀ c' ∈ s.calls, c.event.endedRound ∉ c'.targets)) Iff.rfl
  | .packet _ _ => decidable_of_iff True Iff.rfl
  | .poll _ _ => decidable_of_iff True Iff.rfl
  | .popValidation => decidable_of_iff True Iff.rfl
  | .popPrediction => decidable_of_iff True Iff.rfl
  | .expireStale _ _ => decidable_of_iff True Iff.rfl
  | .outside _ _ => decidable_of_iff True Iff.rfl

/-! ### The invariant -/

/-- What the log and the registry must be for a call. -/
structure Call.Fits (c : Call) (s : State) : Prop where
  targets : ∀ roundId ∈ c.targets, roundId ∉ s.log.processed
  taking : c.stage = .taking → c.event.endedRound ∈ s.log.processed

structure Ordered (s : State) : Prop where
  noLookAhead : NoLookAhead s
  settled : ∀ roundId ∈ s.log.settled, roundId ∈ s.log.processed
  calls : ∀ c ∈ s.calls, c.Fits s

/-- A step that makes no announcement, processes and settles nothing and registers nothing. -/
theorem Ordered.frame (h : Ordered s) (hlog : t.log.processed = s.log.processed ∧ t.log.settled = s.log.settled ∧
      t.log.announced = s.log.announced)
    (hentries : ∀ ev ∈ t.validator.registry.entries, ev ∈ s.validator.registry.entries)
    (hcalls : ∀ c ∈ t.calls, c ∈ s.calls ∨ c.Fits s) : Ordered t := by
  obtain ⟨hprocessed, hsettled, hannounced⟩ := hlog
  refine ⟨⟨?_, ?_⟩, ?_, fun c hc => ?_⟩
  · rw [hannounced]
    exact h.noLookAhead.announced
  · rw [hsettled]
    exact fun roundId hr ev hev => h.noLookAhead.settled roundId hr ev (hentries ev hev)
  · rw [hsettled, hprocessed]
    exact h.settled
  · have hfits : c.Fits s := (hcalls c hc).elim (h.calls c) id
    refine ⟨?_, ?_⟩
    · rw [hprocessed]
      exact hfits.targets
    · rw [hprocessed]
      exact hfits.taking

theorem Ordered.goOn (h : Ordered s) (hfits : Call.Fits { c with stage } s) : Ordered (goOn s c stage) := by
  refine h.frame ⟨rfl, rfl, rfl⟩ (fun _ => id) fun c' hc' => ?_
  rcases List.mem_cons.mp hc' with rfl | hc'
  · exact Or.inr hfits
  · exact Or.inl (List.mem_of_mem_erase hc')

/-- A call begins, with no round that it could make a prediction for. -/
theorem Ordered.enter (h : Ordered s) (hlog : t.log.processed = s.log.processed ∧ t.log.settled = s.log.settled ∧
      t.log.announced = s.log.announced)
    (hentries : t.validator.registry.entries = s.validator.registry.entries) (hcalls : t.calls = c :: s.calls)
    (hfits : c.Fits s) : Ordered t := by
  refine h.frame hlog (fun ev hev => hentries ▸ hev) fun c' hc' => ?_
  rw [hcalls] at hc'
  rcases List.mem_cons.mp hc' with rfl | hc'
  · exact Or.inr hfits
  · exact Or.inl hc'

theorem Ordered.leave (h : Ordered s) : Ordered (leave s c) :=
  h.frame ⟨rfl, rfl, rfl⟩ (fun _ => id) fun _ hc' => Or.inl (List.mem_of_mem_erase hc')

theorem Ordered.roundEndDone (h : Ordered s) : Ordered (roundEndDone s c) := by
  unfold RoundEnds.roundEndDone
  split
  · exact h.goOn ⟨nofun, nofun⟩
  · exact h.leave

/-- A round whose End is processed is no target of a call. -/
theorem Ordered.process (h : Ordered s) (hfree : ∀ c ∈ s.calls, roundId ∉ c.targets) : Ordered (process s roundId) := by
  refine ⟨⟨h.noLookAhead.announced, h.noLookAhead.settled⟩, fun r hr => Finset.mem_insert_of_mem (h.settled r hr), ?_⟩
  intro c hc
  refine ⟨fun r hr hmem => ?_, fun ht => Finset.mem_insert_of_mem ((h.calls c hc).taking ht)⟩
  rcases Finset.mem_insert.mp hmem with rfl | hmem
  · exact hfree c hc hr
  · exact (h.calls c hc).targets r hr hmem

theorem Ordered.announce (h : Ordered s) (hr : roundId ∉ s.log.processed) : Ordered (announce s roundId) := by
  refine ⟨⟨fun a ha => ?_, h.noLookAhead.settled⟩, h.settled, fun c hc => ⟨(h.calls c hc).targets, (h.calls c hc).taking⟩⟩
  rcases List.mem_append.mp ha with ha | ha
  · exact h.noLookAhead.announced a ha
  · rw [List.mem_singleton.mp ha]
    exact decide_eq_false hr

/-- A registration for a round that was not processed; a settled round was. -/
theorem Ordered.register (h : Ordered s) (hr : pev.targetRoundId ∉ s.log.processed) :
    Ordered (setRegistry s (s.validator.registry.registerPrediction pev).1) := by
  refine ⟨⟨h.noLookAhead.announced, fun r hs ev hev => ?_⟩, h.settled,
    fun c hc => ⟨(h.calls c hc).targets, (h.calls c hc).taking⟩⟩
  have hold : ev ∈ s.validator.registry.entries ++ [pev] := by
    rcases s.validator.registry.registerPrediction_entries pev with ⟨-, hsub⟩ | ⟨-, hsame⟩
    · exact hsub.subset hev
    · exact List.mem_append_left _ (hsame ▸ hev)
  rcases List.mem_append.mp hold with hold | hold
  · exact h.noLookAhead.settled r hs ev hold
  · rw [List.mem_singleton.mp hold]
    rintro rfl
    exact hr (h.settled _ hs)

/-- `onGameEnd` takes all predictions of its round. -/
theorem Ordered.settle (h : Ordered s) (hr : roundId ∈ s.log.processed) :
    Ordered { setRegistry s (s.validator.registry.takeForRound roundId).2 with
      log := { s.log with settled := insert roundId s.log.settled } } := by
  refine ⟨⟨h.noLookAhead.announced, fun r hs ev hev => ?_⟩, fun r hs => ?_,
    fun c hc => ⟨(h.calls c hc).targets, (h.calls c hc).taking⟩⟩
  · have hev : ev ∈ (s.validator.registry.takeForRound roundId).2.entries := hev
    obtain ⟨hold, hne⟩ := List.mem_filter.mp hev
    rcases Finset.mem_insert.mp hs with rfl | hs
    · simpa using hne
    · exact h.noLookAhead.settled r hs ev hold
  · rcases Finset.mem_insert.mp hs with rfl | hs
    · exact hr
    · exact h.settled r hs

/-! ### The steps -/

/-- A step that concerns none of the log, the registry and the calls. -/
theorem Ordered.quiet (h : Ordered s) (hlog : t.log.processed = s.log.processed ∧ t.log.settled = s.log.settled ∧
      t.log.announced = s.log.announced)
    (hentries : t.validator.registry.entries = s.validator.registry.entries) (hcalls : t.calls = s.calls) : Ordered t :=
  h.frame hlog (fun _ hev => hentries ▸ hev) fun _ hc => Or.inl (hcalls ▸ hc)

theorem advance_ordered (h : Ordered s) (hc : c ∈ s.calls) (hok : InOrder s (.advance c resp now t0 f)) :
    Ordered (advance persistent s c resp now t0 f) := by
  obtain ⟨hsubmit, hprocess⟩ := hok
  obtain ⟨htargets, htaking⟩ := h.calls c hc
  unfold advance
  dsimp only
  unfold Call.targets at htargets
  rcases hst : c.stage with _ | _ | _ | _ | _ | _ | resp' | ⟨resp', pev⟩ | resp' | pev | _ <;> rw [hst] at htargets <;>
    dsimp only at htargets ⊢
  case routed => exact Ordered.leave (h.quiet ⟨rfl, rfl, rfl⟩ rfl rfl)
  case popped => exact Ordered.goOn (h.quiet ⟨rfl, rfl, rfl⟩ rfl rfl) ⟨nofun, nofun⟩
  case settling =>
    have hrest := (s.validator.acceptEnd_rest c.event.endedRound).1
    have hproc : Ordered (process { s with validator := (s.validator.acceptEnd c.event.endedRound).1 }
        c.event.endedRound) :=
      Ordered.process (h.quiet ⟨rfl, rfl, rfl⟩ (congrArg PredictionRegistry.entries hrest) rfl) (hprocess (Or.inl hst))
    refine hproc.goOn ⟨?_, fun _ => Finset.mem_insert_self _ _⟩
    split <;> exact nofun
  case taking => exact (h.settle (htaking hst)).goOn ⟨nofun, nofun⟩
  case observing =>
    have hseen : Ordered { s with client := s.client.observeEnd c.event now } := h.quiet ⟨rfl, rfl, rfl⟩ rfl rfl
    exact (hseen.process (hprocess (Or.inr hst))).goOn ⟨nofun, nofun⟩
  case submitting =>
    have hwarm : Ordered { s with client := s.client.warmUp } := h.quiet ⟨rfl, rfl, rfl⟩ rfl rfl
    split
    · rename_i hact
      refine hwarm.goOn ⟨fun r hr => ?_, nofun⟩
      rw [List.mem_singleton.mp hr]
      exact hsubmit hst hact
    · exact hwarm.roundEndDone
  case handling =>
    have hr : resp'.targetRoundId ∉ s.log.processed := htargets _ (List.mem_singleton_self _)
    have hreg : Ordered (setRegistry s (s.validator.registry.registerPrediction
        (fromResponse resp' resp'.targetRoundId 0 now)).1) := h.register hr
    rcases hres : s.validator.registry.registerPrediction (fromResponse resp' resp'.targetRoundId 0 now) with
      ⟨registry, e | u⟩ <;> rw [hres] at hreg <;> dsimp only
    · exact hreg.goOn ⟨fun r hr' => List.mem_singleton.mp hr' ▸ hr, nofun⟩
    · have hclaimed : Ordered { setRegistry s registry with
          targets := (s.targets.claim resp'.targetRoundId resp'.predictionId now).1.markPredicted resp'.targetRoundId } :=
        hreg.quiet ⟨rfl, rfl, rfl⟩ rfl rfl
      refine (hclaimed.announce hr).goOn ⟨fun r hr' => ?_, nofun⟩
      rcases List.mem_cons.mp hr' with rfl | hr'
      · exact hr
      · exact List.mem_singleton.mp hr' ▸ hr
  case publishing =>
    have hpev : pev.targetRoundId ∉ s.log.processed := htargets _ List.mem_cons_self
    have hr : resp'.targetRoundId ∉ s.log.processed := htargets _ (List.mem_cons_of_mem _ (List.mem_singleton_self _))
    refine Ordered.goOn ?_ ⟨fun r hr' => List.mem_singleton.mp hr' ▸ hr, nofun⟩
    refine Ordered.announce ?_ hpev
    exact h.quiet ⟨rfl, rfl, rfl⟩ rfl rfl
  case coordinating =>
    have hr : resp'.targetRoundId ∉ s.log.processed := htargets _ (List.mem_singleton_self _)
    have hreg : Ordered (setRegistry s (s.validator.registry.registerPrediction
        (fromResponse resp' c.event.gameId c.event.crashPoint now)).1) := h.register hr
    rcases hres : s.validator.registry.registerPrediction (fromResponse resp' c.event.gameId c.event.crashPoint now) with
      ⟨registry, e | u⟩ <;> rw [hres] at hreg <;> dsimp only
    · exact hreg.roundEndDone
    · exact (hreg.announce hr).goOn ⟨fun r hr' => List.mem_singleton.mp hr' ▸ hr, nofun⟩
  case handingOff =>
    have hpev : pev.targetRoundId ∉ s.log.processed := htargets _ (List.mem_singleton_self _)
    refine Ordered.roundEndDone ?_
    refine Ordered.announce ?_ hpev
    exact h.quiet ⟨rfl, rfl, rfl⟩ rfl rfl
  case routing => exact Ordered.leave (h.quiet ⟨rfl, rfl, rfl⟩ rfl rfl)

theorem step_ordered (h : Ordered s) (hok : InOrder s a) (hs : step persistent s a = some t) : Ordered t := by
  cases a with
  | packet e t0 =>
    simp only [step, Option.ite_none_right_eq_some, Option.some.injEq] at hs
    obtain ⟨-, rfl⟩ := hs
    exact h.enter ⟨rfl, rfl, rfl⟩ rfl rfl ⟨nofun, nofun⟩
  | poll fr now =>
    cases hs
    exact h.enter ⟨rfl, rfl, rfl⟩ rfl rfl ⟨nofun, nofun⟩
  | popValidation =>
    obtain ⟨⟨e, router⟩, -, rfl⟩ := Option.map_eq_some_iff.mp hs
    exact h.enter ⟨rfl, rfl, rfl⟩ rfl rfl ⟨nofun, nofun⟩
  | popPrediction =>
    obtain ⟨⟨e, router⟩, -, rfl⟩ := Option.map_eq_some_iff.mp hs
    exact h.quiet ⟨rfl, rfl, rfl⟩ rfl rfl
  | advance c resp now t0 f =>
    simp only [step, Option.ite_none_right_eq_some, Option.some.injEq] at hs
    obtain ⟨hc, rfl⟩ := hs
    exact advance_ordered h hc hok
  | expireStale maxAgeMs now =>
    cases hs
    exact h.frame ⟨rfl, rfl, rfl⟩ (fun _ hev => (s.validator.registry.expireStale_entries maxAgeMs now).subset hev)
      fun _ => Or.inl
  | outside targets durableTx =>
    cases hs
    exact h.quiet ⟨rfl, rfl, rfl⟩ rfl rfl

theorem ordered_initial (durableTx : DurablePredictionTx) (eventQueueCapacity : Nat) :
    Ordered (initial durableTx eventQueueCapacity) where
  noLookAhead := ⟨fun _ ha => absurd ha List.not_mem_nil, fun r hr => absurd hr (Finset.notMem_empty r)⟩
  settled := fun r hr => absurd hr (Finset.notMem_empty r)
  calls := fun _ hc => absurd hc List.not_mem_nil

/-- A prediction that the registry accepts comes before the End of its round. -/
def OnTime (s : State) : Act → Prop
  | .advance c _ now _ _ => ∀ resp, c.stage = .handling resp →
    s.validator.registry.Accepts (fromResponse resp resp.targetRoundId 0 now) → resp.targetRoundId ∉ s.log.processed
  | _ => True

theorem onTime_of_noLookAhead (hs : step persistent s a = some t) (ht : NoLookAhead t) : OnTime s a := by
  cases a with
  | advance c resp now t0 f =>
    intro resp' hst hacc hmem
    simp only [step, Option.ite_none_right_eq_some, Option.some.injEq] at hs
    obtain ⟨-, rfl⟩ := hs
    have hlog : (advance persistent s c resp now t0 f).log.announced =
        s.log.announced ++ [⟨resp'.targetRoundId, decide (resp'.targetRoundId ∈ s.log.processed)⟩] := by
      simp only [advance, hst, PredictionRegistry.registerPrediction_of_accepts hacc]
      rfl
    have hlate := ht.announced _ (hlog ▸ List.mem_append_right _ (List.mem_singleton_self _))
    exact of_decide_eq_false hlate hmem
  | _ => trivial

/-- In every run whose Ends are processed in order there is no look-ahead, whatever the engine predicts and whatever
    happens to the outbox and the database; and in a run without look-ahead no prediction is accepted late. -/
theorem noLookAhead_along (persistent : Bool) (durableTx : DurablePredictionTx) (eventQueueCapacity : Nat)
    (acts : List Act) :
    (Meets (step persistent) InOrder (initial durableTx eventQueueCapacity) acts →
      Along (step persistent) NoLookAhead (initial durableTx eventQueueCapacity) acts) ∧
    (run (step persistent) (initial durableTx eventQueueCapacity) acts ≠ none →
      Along (step persistent) NoLookAhead (initial durableTx eventQueueCapacity) acts →
        Meets (step persistent) OnTime (initial durableTx eventQueueCapacity) acts) := by
  constructor
  · exact Meets.along (fun _ hs => Ordered.noLookAhead hs) (fun _ _ _ => step_ordered) (ordered_initial durableTx _)
  · exact Along.meets (I := fun _ => True) (fun _ _ _ _ _ _ => trivial) (fun _ _ _ _ => onTime_of_noLookAhead) trivial

/-! ### Two rounds from the history service -/

def fetched (gameId : GameId) (h : gameId ≠ "") : FetchedRound :=
  { gameId, multiplier := 2, crashedAtMs := 1, named := h, inRange := by decide +kernel, crashed := by decide }

/-- A stage of the poll worker's call for the round, with what the engine says. -/
def polledStage (fr : FetchedRound) (stage : Stage) (decision : PredictionDecision) : Act :=
  .advance ⟨.poll, fr.event, stage⟩ { predictionId := "p", targetRoundId := "", decision, confidence := 1 } 5 0 {}

def round1 : FetchedRound := fetched "1" (by decide)
def round2 : FetchedRound := fetched "2" (by decide)

/-- The response that enters the round 2. -/
def entersRound2 : PredictionResponse :=
  { predictionId := "p", targetRoundId := "2", decision := .enter, confidence := 1, valid := true }

def inMemory : DurablePredictionTx := { db := .absent, handoff := some { outbox := .new 8 } }

/-- The round 1, a prediction for the round 2, and the End of the round 2. -/
def oldestFirst : List Act :=
  [.poll round1 5, polledStage round1 .observing .skip, polledStage round1 .submitting .enter,
    polledStage round1 (.handling entersRound2) .skip,
    polledStage round1 (.publishing entersRound2 (fromResponse entersRound2 "2" 0 5)) .skip,
    polledStage round1 (.coordinating entersRound2) .skip, .poll round2 5, polledStage round2 .observing .skip]

/-- The round 2 first. -/
def newestFirst : List Act :=
  [.poll round2 5, polledStage round2 .observing .skip, polledStage round2 .submitting .skip,
    polledStage round2 .routing .skip, .poll round1 5, polledStage round1 .observing .skip,
    polledStage round1 .submitting .enter, polledStage round1 (.handling entersRound2) .skip]

theorem noLookAhead_oldestFirst : Along (step false) NoLookAhead (initial inMemory 8) oldestFirst :=
  (noLookAhead_along false inMemory 8 oldestFirst).1 (by decide +kernel)

/-- The prediction for the round 2 is registered after the End of the round 2. -/
theorem not_noLookAhead_newestFirst : ¬Along (step false) NoLookAhead (initial inMemory 8) newestFirst := by
  intro ha
  obtain ⟨t, ht⟩ := Option.isSome_iff_exists.mp
    (by decide +kernel : (run (step false) (initial inMemory 8) newestFirst).isSome = true)
  have hlog : (run (step false) (initial inMemory 8) newestFirst).map (·.log.announced) = some [⟨"2", true⟩] := by
    decide +kernel
  rw [ht, Option.map_some, Option.some.injEq] at hlog
  have hlate := (ha.last ht).announced ⟨"2", true⟩ (hlog ▸ List.mem_singleton_self _)
  cases hlate

end RoundEnds
end CrashCore
