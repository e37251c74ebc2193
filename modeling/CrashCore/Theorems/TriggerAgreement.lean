import CrashCore.Application.PipelineLoop
import CrashCore.PredictionInterface.PredictionClient

/-! The two prediction triggers. `N1Coordinator::onRoundEnd` asks once, for the round after the ended one. A turn of the
pipeline loop asks twice, for the ended round itself: the triggers agree in a run exactly if no frame of it brings an
End. -/

namespace CrashCore

/-! ### The prediction queue of the router -/

namespace EventRouter
variable {r : EventRouter} {ev : CrashEvent}

/-- The router takes the event for one it has seen. -/
def Seen (r : EventRouter) (ev : CrashEvent) : Prop := ev.gameId ≠ "" ∧ dedupeKey ev ∈ r.seenOrder

instance (r : EventRouter) (ev : CrashEvent) : Decidable (r.Seen ev) := inferInstanceAs (Decidable (_ ∧ _))

/-- Only a valid End that was not seen gets into the prediction queue. -/
theorem route_toPrediction (t0 : Int) (hfull : ¬r.toPrediction.Full) :
    (r.route ev t0).1.toPrediction.items =
      r.toPrediction.items ++ if ev.IsValidEnd ∧ ¬r.Seen ev then [{ ev with routedAtNs := t0 }] else [] := by
  by_cases hnew : ev.IsValidEnd ∧ ¬r.Seen ev
  · rw [if_pos hnew, (route_newEnd t0 hnew.1.2 hnew.1.1 hnew.2).prediction, SpscQueue.items_offer hfull]
  · rw [if_neg hnew, List.append_nil, (route_other t0 fun hv hk hold => hnew ⟨⟨hk, hv⟩, hold⟩).1]

theorem popPrediction_eq_none (h : r.popPrediction = none) : r.toPrediction.items = [] := by
  have hpop : r.toPrediction.tryPop = none := Option.map_eq_none_iff.mp h
  unfold SpscQueue.tryPop at hpop
  split at hpop
  · assumption
  · cases hpop

theorem popPrediction_items {r' : EventRouter} (h : r.popPrediction = some (ev, r')) :
    r.toPrediction.items = ev :: r'.toPrediction.items := by
  obtain ⟨⟨x, q⟩, hpop, heq⟩ := Option.map_eq_some_iff.mp h
  cases heq
  exact SpscQueue.tryPop_eq_some hpop

theorem popValidation_toPrediction {r' : EventRouter} (h : r.popValidation = some (ev, r')) :
    r'.toPrediction = r.toPrediction := by
  obtain ⟨⟨x, q⟩, hpop, heq⟩ := Option.map_eq_some_iff.mp h
  cases heq
  rfl

end EventRouter

namespace PipelineLoop
open Transition

variable {κ : Type} {submit : κ → PredictionRequest → Submission κ} {s t : State κ} {ev : CrashEvent}
  {now : TimestampMs} {ns : Int}

/-- Each End out of the prediction queue has made one request, for the next round, and no prediction that answers it was
    settled by that End. -/
structure Agrees (s : State κ) : Prop where
  requested : ∀ turn ∈ s.turns, turn.requests.map (·.targetRoundId) = [nextRoundId turn.endEvent.endedRound]
  notByTrigger : ∀ turn ∈ s.turns, ∀ req ∈ turn.requests, ∀ em ∈ s.validation.emitted, em.endEvent = turn.endEvent →
    em.prediction.correlationId ≠ req.correlationId

/-- A valid End that is new to the filter and to the router. -/
def BringsEnd (s : State κ) : Except Error CrashEvent → Prop
  | .error _ => False
  | .ok ev => ev.IsValidEnd ∧ s.dupes.Accepts ev ∧ ¬s.router.Seen ev

instance (s : State κ) : DecidablePred (BringsEnd s)
  | .error _ => inferInstanceAs (Decidable False)
  | .ok _ => inferInstanceAs (Decidable (_ ∧ _))

def NoEnd (s : State κ) : Act → Prop
  | .frame decoded .. => ¬BringsEnd s decoded
  | .response .. => True

instance (s : State κ) : DecidablePred (NoEnd s)
  | .frame .. => inferInstanceAs (Decidable (¬_))
  | .response .. => inferInstanceAs (Decidable True)

/-! ### What the parts of the loop leave alone -/

/-- The queues, the turns and the calls of `onGameEnd` are the same. -/
structure Aside (s t : State κ) : Prop where
  router : t.router = s.router
  turns : t.turns = s.turns
  calls : t.validation.calls = s.validation.calls

theorem Aside.trans {u : State κ} (h₁ : Aside s t) (h₂ : Aside t u) : Aside s u :=
  ⟨h₂.router.trans h₁.router, h₂.turns.trans h₁.turns, h₂.calls.trans h₁.calls⟩

theorem registerPrediction_calls (v : ValidatorCalls.State) (ev : PredictionEvent) :
    (registerPrediction v ev).1.calls = v.calls := by
  unfold registerPrediction
  split <;> rfl

theorem onPredictionResponse_aside (s : State κ) (resp : PredictionResponse) (now : TimestampMs) :
    Aside s (onPredictionResponse s resp now) ∧ (onPredictionResponse s resp now).submitted = s.submitted := by
  unfold onPredictionResponse
  dsimp only
  split
  · exact ⟨⟨rfl, rfl, rfl⟩, rfl⟩
  · have hcalls := registerPrediction_calls s.validation (fromResponse resp resp.targetRoundId 0 now)
    split <;> rename_i hr <;> rw [hr] at hcalls <;> exact ⟨⟨rfl, rfl, hcalls⟩, rfl⟩

theorem submitTo_aside (submit : κ → PredictionRequest → Submission κ) (s : State κ)
    (req : PredictionRequest) (now : TimestampMs) :
    Aside s (submitTo submit s req now).1 ∧ (submitTo submit s req now).1.submitted = s.submitted ++ [req] := by
  unfold submitTo
  dsimp only
  split
  · exact ⟨⟨rfl, rfl, rfl⟩, rfl⟩
  · rename_i resp _
    obtain ⟨haside, hsub⟩ := onPredictionResponse_aside
      { s with client := (submit s.client req).client, submitted := s.submitted ++ [req] } resp now
    exact ⟨⟨haside.router, haside.turns, haside.calls⟩, hsub⟩

theorem beginAttempt_aside (submit : κ → PredictionRequest → Submission κ) (s : State κ)
    (req : PredictionRequest) (now : TimestampMs) :
    Aside s (beginAttempt submit s req now) ∧ ∃ r : PredictionRequest, r.targetRoundId = req.targetRoundId ∧
      (beginAttempt submit s req now).submitted = s.submitted ++ [r] := by
  obtain ⟨haside, hsub⟩ := submitTo_aside submit { s with attempts := (s.attempts.beginAttempt req now).1 }
    (s.attempts.beginAttempt req now).2 now
  exact ⟨⟨haside.router, haside.turns, haside.calls⟩, (s.attempts.beginAttempt req now).2, rfl, hsub⟩

/-! ### The settlement -/

/-- How many stages a call of `onGameEnd` still has, with `entries` predictions in the registry. -/
def stagesLeft (entries : Nat) : ValidatorCalls.Stage → Nat
  | .accepted => 2 * entries + 3
  | .matching todo outcomes => 2 * todo.length + outcomes.length + 2
  | .recording _ todo => todo.length + 1

/-- A call that is alone takes its next stage, or returns. -/
theorem resume_stagesLeft (v : ValidatorCalls.State) (c : ValidatorCalls.EndCall) (now : TimestampMs)
    (hc : v.calls = [c]) :
    (ValidatorCalls.resume v c now).calls = [] ∨ ∃ c', (ValidatorCalls.resume v c now).calls = [c'] ∧
      stagesLeft (ValidatorCalls.resume v c now).validator.registry.entries.length c'.stage <
        stagesLeft v.validator.registry.entries.length c.stage := by
  obtain ⟨e, stage⟩ := c
  have hrest : v.calls.erase ⟨e, stage⟩ = [] := by simp [hc]
  cases stage with
  | accepted =>
    refine Or.inr ⟨_, congrArg (_ :: ·) hrest, ?_⟩
    have hlen := List.length_filter_le (·.targetRoundId = e.endedRound) v.validator.registry.entries
    simp only [stagesLeft, List.length_nil]
    omega
  | matching todo outcomes =>
    cases todo with
    | nil =>
      refine Or.inr ⟨_, congrArg (_ :: ·) hrest, ?_⟩
      simp [stagesLeft]
    | cons p todo =>
      refine Or.inr ⟨_, congrArg (_ :: ·) hrest, ?_⟩
      simp only [stagesLeft, List.length_append, List.length_cons, List.length_nil]
      omega
  | recording outcomes todo =>
    cases todo with
    | nil => cases outcomes <;> exact Or.inl hrest
    | cons o todo =>
      refine Or.inr ⟨_, congrArg (_ :: ·) hrest, ?_⟩
      simp [stagesLeft]

/-- With enough turns the call returns. -/
theorem finish_calls (fuel : Nat) (v : ValidatorCalls.State)
    (h : v.calls = [] ∨ ∃ c, v.calls = [c] ∧ stagesLeft v.validator.registry.entries.length c.stage ≤ fuel) :
    (finish now fuel v).calls = [] := by
  induction fuel generalizing v with
  | zero =>
    rcases h with h | ⟨c, -, hle⟩
    · exact h
    · obtain ⟨e, stage⟩ := c
      cases stage <;> simp [stagesLeft] at hle
  | succ fuel ih =>
    rcases h with h | ⟨c, hc, hle⟩
    · rw [finish, h]
      exact h
    · rw [finish, hc]
      refine ih _ ?_
      rcases resume_stagesLeft v c now hc with hdone | ⟨c', hc', hlt⟩
      · exact Or.inl hdone
      · exact Or.inr ⟨c', hc', Nat.le_of_lt_succ (hlt.trans_le hle)⟩

/-- `settle` has the turns that `onGameEnd` takes. -/
theorem settle_calls (s : State κ) (ev : CrashEvent) (now : TimestampMs) (h : s.validation.calls = []) :
    (settle s ev now).validation.calls = [] := by
  refine finish_calls _ _ ?_
  unfold ValidatorCalls.onGameEnd
  split
  · exact Or.inl h
  split
  · exact Or.inl h
  have hregistry := (s.validation.validator.acceptEnd_rest ev.endedRound).1
  rcases ha : s.validation.validator.acceptEnd ev.endedRound with ⟨v, _ | _⟩ <;> rw [ha] at hregistry
  · exact Or.inl h
  · refine Or.inr ⟨_, congrArg (_ :: ·) h, ?_⟩
    have hentries : v.registry.entries = s.validation.validator.registry.entries := congrArg (·.entries) hregistry
    simp only [stagesLeft, if_true, hentries]
    omega

/-! ### The turns -/

/-- The End has made two requests, both for the round that it ends. -/
def Twice (turn : Turn) : Prop :=
  turn.requests.map (·.targetRoundId) = [turn.endEvent.endedRound, turn.endEvent.endedRound]

theorem makePredictionRequest_target (ev : CrashEvent) (correlationId : String) (now : TimestampMs) (ns : Int) :
    (makePredictionRequest ev correlationId now ns).targetRoundId = ev.endedRound := by
  simp only [makePredictionRequest, CrashEvent.endedRound]
  split <;> simp_all

/-- A turn of the loop asks twice. -/
theorem predict_end (submit : κ → PredictionRequest → Submission κ) (s : State κ)
    (now : TimestampMs) (ns : Int) (hk : ev.kind = .end) :
    (predict submit s ev now ns).router = s.router ∧
      (predict submit s ev now ns).validation.calls = s.validation.calls ∧
      ∃ turn : Turn, turn.endEvent = ev ∧ Twice turn ∧ (predict submit s ev now ns).turns = s.turns ++ [turn] := by
  set req := makePredictionRequest ev "" now ns with hreq
  obtain ⟨hbegun, r, hr, hfirst⟩ := beginAttempt_aside submit s req now
  obtain ⟨hsent, hsecond⟩ := submitTo_aside submit (beginAttempt submit s req now) req now
  have hdrop : ((submitTo submit (beginAttempt submit s req now) req now).1.submitted).drop s.submitted.length =
      [r, req] := by
    rw [hsecond, hfirst, List.append_assoc, List.drop_left]
    rfl
  have haside := hbegun.trans hsent
  simp only [predict, hk, ne_eq, not_true_eq_false, if_false, ← hreq, hdrop]
  refine ⟨haside.router, haside.calls, ⟨ev, [r, req]⟩, rfl, ?_, by rw [haside.turns]⟩
  rw [Twice, List.map_cons, List.map_cons, List.map_nil, hr, hreq, makePredictionRequest_target]

/-- The loop ends with an empty queue, and has had one turn for each End of it. -/
theorem drainPrediction_turns (submit : κ → PredictionRequest → Submission κ) (now : TimestampMs)
    (ns : Int) (fuel : Nat) (s : State κ) (hlen : s.router.toPrediction.items.length ≤ fuel) :
    (drainPrediction submit now ns fuel s).router.toPrediction.items = [] ∧
      (drainPrediction submit now ns fuel s).validation.calls = s.validation.calls ∧
      ∃ turns, (drainPrediction submit now ns fuel s).turns = s.turns ++ turns ∧ (∀ turn ∈ turns, Twice turn) ∧
        turns.map (·.endEvent) = s.router.toPrediction.items.filter (·.kind = .end) := by
  induction fuel generalizing s with
  | zero =>
    have hnil : s.router.toPrediction.items = [] := List.eq_nil_of_length_eq_zero (Nat.le_zero.mp hlen)
    exact ⟨hnil, rfl, [], (List.append_nil _).symm, List.forall_mem_nil _, by rw [hnil]; rfl⟩
  | succ fuel ih =>
    rw [drainPrediction]
    split
    · rename_i hpop
      have hnil := EventRouter.popPrediction_eq_none hpop
      exact ⟨hnil, rfl, [], (List.append_nil _).symm, List.forall_mem_nil _, by rw [hnil]; rfl⟩
    rename_i ev router hpop
    have hitems := EventRouter.popPrediction_items hpop
    rw [hitems, List.length_cons] at hlen
    by_cases hk : ev.kind = .end
    · obtain ⟨hrouter, hcalls, turn, hev, htwice, hturns⟩ :=
        predict_end submit { s with router } now ns hk
      obtain ⟨hempty, hcalls', turns, hall, htwices, hends⟩ := ih (predict submit { s with router } ev now ns) (by
        rw [hrouter]
        exact Nat.le_of_succ_le_succ hlen)
      refine ⟨hempty, hcalls'.trans hcalls, turn :: turns, ?_, List.forall_mem_cons.mpr ⟨htwice, htwices⟩, ?_⟩
      · rw [hall, hturns, List.append_assoc]
        rfl
      · rw [hrouter] at hends
        rw [List.map_cons, hends, hitems, List.filter_cons_of_pos (by simpa using hk), hev]
    · have hskip : predict submit { s with router } ev now ns = { s with router } := if_pos hk
      rw [hskip]
      obtain ⟨hempty, hcalls, turns, hall, htwices, hends⟩ := ih { s with router } (Nat.le_of_succ_le_succ hlen)
      refine ⟨hempty, hcalls, turns, hall, htwices, ?_⟩
      rw [hends, hitems, List.filter_cons_of_neg (by simpa using hk)]

theorem drainValidation_turns (now : TimestampMs) (fuel : Nat) (s : State κ) (h : s.validation.calls = []) :
    (drainValidation now fuel s).turns = s.turns ∧ (drainValidation now fuel s).validation.calls = [] ∧
      (drainValidation now fuel s).router.toPrediction = s.router.toPrediction := by
  induction fuel generalizing s with
  | zero => exact ⟨rfl, h, rfl⟩
  | succ fuel ih =>
    rw [drainValidation]
    split
    · exact ⟨rfl, h, rfl⟩
    · rename_i ev router hpop
      obtain ⟨hturns, hcalls, hqueue⟩ := ih (settle { s with router } ev now) (settle_calls { s with router } ev now h)
      exact ⟨hturns, hcalls, hqueue.trans (EventRouter.popValidation_toPrediction hpop)⟩

theorem drain_turns (submit : κ → PredictionRequest → Submission κ) (s : State κ)
    (now : TimestampMs) (ns : Int) (order : List Nat) (h : s.validation.calls = []) :
    (drain submit s now ns order).router.toPrediction.items = [] ∧
      (drain submit s now ns order).validation.calls = [] ∧
      ∃ turns, (drain submit s now ns order).turns = s.turns ++ turns ∧ (∀ turn ∈ turns, Twice turn) ∧
        turns.map (·.endEvent) = s.router.toPrediction.items.filter (·.kind = .end) := by
  obtain ⟨hempty, hcalls, turns, hall, htwice, hends⟩ :=
    drainPrediction_turns submit now ns _ s (Nat.le_refl _)
  obtain ⟨hturns, hreturned, hqueue⟩ := drainValidation_turns now
    (drainPrediction submit now ns s.router.toPrediction.items.length s).router.toValidation.items.length
    (drainPrediction submit now ns s.router.toPrediction.items.length s) (hcalls.trans h)
  refine ⟨?_, hreturned, turns, hturns.trans hall, htwice, hends⟩
  exact (congrArg SpscQueue.items hqueue).trans hempty

/-! ### Frames -/

/-- A frame that is taken in puts its End, if it brings one, behind the others; one that is not brings none. -/
theorem intake_cases (s : State κ) (decoded : Except Error CrashEvent) (accepted : Bool) (ns : Int)
    (hfull : ¬s.router.toPrediction.Full) :
    ((intake s decoded accepted ns).1.turns = s.turns ∧ (intake s decoded accepted ns).1.validation = s.validation) ∧
    ((¬BringsEnd s decoded ∧ (intake s decoded accepted ns).1.router.toPrediction.items = s.router.toPrediction.items) ∨
      (BringsEnd s decoded ∧ (intake s decoded accepted ns).2 = true ∧ ∃ ev : CrashEvent, ev.kind = .end ∧
        (intake s decoded accepted ns).1.router.toPrediction.items = s.router.toPrediction.items ++ [ev])) := by
  cases decoded with
  | error => exact ⟨⟨rfl, rfl⟩, Or.inl ⟨id, rfl⟩⟩
  | ok ev =>
    simp only [intake]
    split
    · rename_i h
      refine ⟨⟨rfl, rfl⟩, Or.inl ⟨fun hb => ?_, rfl⟩⟩
      have hk : ev.kind = .end := hb.1.1
      rw [hk] at h
      rcases h.2 with h | h <;> cases h
    split
    · rename_i h
      exact ⟨⟨rfl, rfl⟩, Or.inl ⟨fun hb => h.2 hb.1.2, rfl⟩⟩
    have haccepts := s.dupes.accept_iff ev
    split
    · rename_i hd
      rw [hd] at haccepts
      exact ⟨⟨rfl, rfl⟩, Or.inl ⟨fun hb => absurd (haccepts.mpr hb.2.1) (by simp), rfl⟩⟩
    · rename_i hd
      rw [hd] at haccepts
      refine ⟨⟨rfl, rfl⟩, ?_⟩
      simp only [EventRouter.route_toPrediction ns hfull]
      by_cases hend : ev.IsValidEnd ∧ ¬s.router.Seen ev
      · rw [if_pos hend]
        exact Or.inr ⟨⟨hend.1, haccepts.mp rfl, hend.2⟩, trivial, { ev with routedAtNs := ns }, hend.1.1, rfl⟩
      · rw [if_neg hend]
        exact Or.inl ⟨fun hb => hend ⟨hb.1, hb.2.2⟩, List.append_nil _⟩

/-- Between two frames the prediction queue is empty, and every `onGameEnd` has returned. -/
structure Inv (s : State κ) : Prop where
  queue : s.router.toPrediction.items = []
  returned : s.validation.calls = []
  twice : ∀ turn ∈ s.turns, Twice turn

theorem inv_initial (client : κ) (queueCapacity : Nat) (outbox : OutboxLifecycle) :
    Inv (initial client queueCapacity outbox) := ⟨rfl, rfl, List.forall_mem_nil _⟩

/-- An empty queue takes an element. -/
theorem Inv.notFull (h : Inv s) : ¬s.router.toPrediction.Full := by
  have hcap := s.router.toPrediction.two_le
  simp [SpscQueue.Full, h.queue]
  omega

/-- A step has a turn exactly if its frame brings an End. -/
theorem step_turns {a : Act} (h : Inv s) (hs : step submit s a = some t) :
    Inv t ∧ ((NoEnd s a ∧ t.turns = s.turns) ∨ (¬NoEnd s a ∧ ∃ turn, t.turns = s.turns ++ [turn])) := by
  cases a with
  | response resp now =>
    cases hs
    obtain ⟨haside, -⟩ := onPredictionResponse_aside s resp now
    refine ⟨⟨?_, haside.calls.trans h.returned, ?_⟩, Or.inl ⟨trivial, haside.turns⟩⟩
    · rw [haside.router]
      exact h.queue
    · rw [haside.turns]
      exact h.twice
  | frame decoded accepted now ns order =>
    obtain ⟨⟨hturns, hvalidation⟩, hqueue⟩ := intake_cases s decoded accepted ns h.notFull
    rw [h.queue] at hqueue
    have hcalls := (congrArg ValidatorCalls.State.calls hvalidation).trans h.returned
    rcases hin : intake s decoded accepted ns with ⟨u, _ | _⟩ <;> rw [hin] at hturns hqueue hcalls <;>
      simp only [step, hin] at hs
    · cases hs
      rcases hqueue with ⟨hno, hitems⟩ | ⟨-, hin', -⟩
      · refine ⟨⟨hitems, hcalls, ?_⟩, Or.inl ⟨hno, hturns⟩⟩
        rw [hturns]
        exact h.twice
      · cases hin'
    · obtain ⟨-, hs⟩ := Option.ite_none_right_eq_some.mp hs
      cases hs
      obtain ⟨hempty, hreturned, turns, hall, htwice, hends⟩ := drain_turns submit u now ns order hcalls
      rw [hturns] at hall
      refine ⟨⟨hempty, hreturned, ?_⟩, ?_⟩
      · rw [hall]
        exact List.forall_mem_append.mpr ⟨h.twice, htwice⟩
      rcases hqueue with ⟨hno, hitems⟩ | ⟨hbrings, -, ev, hk, hitems⟩
      · rw [hitems, List.filter_nil, List.map_eq_nil_iff] at hends
        exact Or.inl ⟨hno, by rw [hall, hends, List.append_nil]⟩
      · rw [hitems, List.nil_append, List.filter_cons_of_pos (by simpa using hk), List.filter_nil] at hends
        obtain ⟨turn, rfl, -⟩ := List.map_eq_singleton_iff.mp hends
        exact Or.inr ⟨not_not_intro hbrings, turn, hall⟩

/-- In every run, each End out of the prediction queue makes two requests, both for the round that it ends. -/
theorem twice_of_reaches {client : κ} {queueCapacity : Nat} {outbox : OutboxLifecycle}
    (hr : Reaches (step submit) anyStep (initial client queueCapacity outbox) s) : ∀ turn ∈ s.turns, Twice turn :=
  (hr.invariant (inv_initial client queueCapacity outbox) fun _ _ _ h _ hs => (step_turns h hs).1).twice

/-- None of the two requests is for the round that the coordinator asks for. -/
theorem Twice.disagrees {turn : Turn} (h : Twice turn) :
    turn.requests.map (·.targetRoundId) ≠ [nextRoundId turn.endEvent.endedRound] := by
  rw [h]
  intro heq
  exact nextRoundId_ne _ (List.cons.inj heq).1.symm

/-- The triggers agree in all states of a run exactly if no frame of it brings an End. -/
theorem agrees_along_iff {client : κ} {queueCapacity : Nat} {outbox : OutboxLifecycle} {acts : List Act}
    (hrun : run (step submit) (initial client queueCapacity outbox) acts ≠ none) :
    Along (step submit) Agrees (initial client queueCapacity outbox) acts ↔
      Meets (step submit) NoEnd (initial client queueCapacity outbox) acts := by
  refine along_iff_meets (I := fun s : State κ => Inv s ∧ s.turns = []) ?_ ?_ ?_
    ⟨inv_initial client queueCapacity outbox, rfl⟩ hrun
  · rintro s ⟨-, hnil⟩
    constructor <;> rw [hnil] <;> exact List.forall_mem_nil _
  · rintro s a t ⟨h, hnil⟩ hok hs
    obtain ⟨ht, ⟨-, hturns⟩ | ⟨hno, -⟩⟩ := step_turns h hs
    · exact ⟨ht, hturns.trans hnil⟩
    · exact absurd hok hno
  · rintro s a t ⟨h, hnil⟩ hs hp
    obtain ⟨ht, ⟨hno, -⟩ | ⟨-, turn, hturns⟩⟩ := step_turns h hs
    · exact hno
    · have hmem : turn ∈ t.turns := by simp [hturns]
      exact absurd (hp.requested turn hmem) (ht.twice turn hmem).disagrees

/-- An engine that answers each request at once, with an actionable response. -/
def alwaysEnters (_ : Unit) (req : PredictionRequest) : Submission Unit where
  client := ()
  response := some
    { predictionId := "pe-" ++ req.correlationId, targetRoundId := req.targetRoundId, decision := .enter
      confidence := 9 / 10, targetMult := 13 / 10, correlationId := req.correlationId, valid := true }

/-- Frames up to the start of a round, and a response that comes late. -/
def beforeTheEnd : List Act := [
  .frame (.error ⟨.parseError, "empty frame"⟩) false 1000 0 [],
  .frame (.ok { kind := .start, roundId := "100", gameId := "100", valid := true }) true 2000 0 [],
  .frame (.ok { kind := .progress, elapsedMs := 500, valid := true }) false 2500 0 [],
  .response { predictionId := "p", targetRoundId := "100", decision := .enter, confidence := 1, valid := true } 2600]

theorem agrees_along_beforeTheEnd :
    Along (step alwaysEnters) Agrees (initial () 4096 (.new 2048 30000)) beforeTheEnd :=
  (agrees_along_iff (by decide +kernel)).mpr (by decide +kernel)

def end100 : Act :=
  .frame (.ok { kind := .end, roundId := "100", gameId := "100", crashPoint := 2, valid := true }) true 5000 0 []

/-- The End of round 100 makes two requests for round 100, and settles the prediction that it has asked for. -/
theorem not_agrees_along_end100 :
    ¬Along (step alwaysEnters) Agrees (initial () 4096 (.new 2048 30000)) [end100] := by
  intro h
  have hturns : (run (step alwaysEnters) (initial () 4096 (.new 2048 30000)) [end100]).map
      (fun s => (s.turns.map fun turn => turn.requests.map (·.targetRoundId),
        s.validation.emitted.map fun em => (em.prediction.targetRoundId, em.endEvent.roundId))) =
      some ([["100", "100"]], [("100", "100")]) := by decide +kernel
  obtain ⟨t, ht, hturns⟩ := Option.map_eq_some_iff.mp hturns
  obtain ⟨turn, hturn, hreq⟩ := List.map_eq_singleton_iff.mp (Prod.ext_iff.mp hturns).1
  have hone := (h.last ht).requested turn (by simp [hturn])
  rw [hreq] at hone
  simp at hone

end PipelineLoop
end CrashCore
