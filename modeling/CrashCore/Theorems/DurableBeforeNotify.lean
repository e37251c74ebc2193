import CrashCore.Application.Handlers
import CrashCore.Theorems.PersistPrediction

/-! When the in-memory outbox takes no signal before its rows are committed. The handlers fall back to the
handoff when the persistence fails, the claim of a round that is owned already writes nothing, and the
publication at the end of a round never touches the database. -/

namespace CrashCore
namespace ApplicationEvents
open Application DurablePredictionTx Connection Tables Transition

variable {s t : State} {tx : DurablePredictionTx} {c : Connection Tables} {repo : OutboxRepository}
  {h : DurableHandoff} {pev : PredictionEvent} {o : Outcome} {sig : Signal} {now : TimestampMs} {f : Faults}
  {fault : Fault} {resp : PredictionResponse} {gameId : GameId} {crashPoint : Double}

/-- The rows that belong to a signal. -/
def RowsOf (sig : Signal) (d : Tables) : Prop :=
  match sig.kind with
  | .prediction => d.predictions.Has sig.predictionId ∧ d.notifications.Has (notificationKey sig.predictionId) ∧
    d.claimant sig.roundId = some sig.predictionId
  | .outcome => d.outcomes.Has sig.predictionId
  | .heartbeat | .systemAlert => True

/-- The signal was committed before, and its last persistence had not failed. -/
structure Entry.Durable (e : Entry) : Prop where
  committed : ∃ d ∈ e.committed, RowsOf e.signal d
  persisted : e.afterFailure = false

def DurableBeforeNotify (s : State) : Prop := ∀ e ∈ s.entered, e.Durable

/-! ### The condition -/

/-- The in-memory outbox would take the signal. -/
def Takes (s : State) (sig : Signal) : Prop := ∃ h ∈ s.app.durableTx.handoff, h.outbox.Accepts sig

/-- The handler comes to publish the prediction, and the outbox would take it. -/
def Announces (s : State) (resp : PredictionResponse) (pev : PredictionEvent) (now : TimestampMs) : Prop :=
  isActionable resp ∧ s.app.registry.Accepts pev ∧ Takes s (signalFromPrediction pev now)

/-- * A prediction that the outbox takes: all statements succeed and no other prediction owns the round.
    * An outcome that it takes: the insert succeeds, in no aborted transaction.
    * A prediction that it takes at the end of a round: its rows are there, and their persistence had not
      failed. -/
def CommitsFirst (s : State) : Event → Prop
  | .response resp now f =>
    let pev := fromResponse resp resp.targetRoundId 0 now
    Announces s resp pev now → ∀ c, s.app.durableTx.db = .pg c → Commits pev now c f ∧ SlotFree pev c.committed
  | .outcome o now fault =>
    Takes s (signalFromOutcome o now) → fault = none ∧ ∀ c, s.app.durableTx.db = .pg c → c.tx = .idle
  | .roundEnd resp gameId crashPoint now =>
    let pev := fromResponse resp gameId crashPoint now
    let sig := signalFromPrediction pev now
    Announces s resp pev now → (∃ d ∈ s.app.durableTx.db.committed, RowsOf sig d) ∧ sig.dedupeKey ∉ s.failed
  | _ => True

/-! ### The calls of the transaction object -/

/-- As `init` sets it up: PostgreSQL with no open transaction, the repository and the handoff. -/
structure Ready (tx : DurablePredictionTx) : Prop where
  db : ∃ c, tx.db = .pg c ∧ c.Closed
  repo : ∃ repo, tx.repo = some repo
  handoff : ∃ h, tx.handoff = some h

/-- What a publication makes of the transaction object and its handoff `h`: the signal is taken exactly if the
    outbox accepts it, and the database is not touched. -/
structure Offered (tx : DurablePredictionTx) (h : DurableHandoff) (sig : Signal) (r : DurablePredictionTx × Bool) :
    Prop where
  db : r.1.db = tx.db
  repo : r.1.repo = tx.repo
  handoff : ∃ h', r.1.handoff = some h'
  taken : r.2 = true ↔ h.outbox.Accepts sig

theorem Offered.ready {r : DurablePredictionTx × Bool} (ho : Offered tx h sig r) (hr : Ready tx) : Ready r.1 :=
  ⟨ho.db.symm ▸ hr.db, ho.repo.symm ▸ hr.repo, ho.handoff⟩

theorem isOk_publish (o : Outbox) (sig : Signal) (now : TimestampMs) :
    (o.publish sig now).2.isOk = true ↔ o.Accepts sig := by
  rw [← o.publish_ok_iff sig now]
  cases (o.publish sig now).2 <;> simp [Except.isOk, Except.toBool]

theorem publishMemory_offered (now : TimestampMs) (hh : tx.handoff = some h) (hk : sig.kind = .prediction) :
    Offered tx h sig (tx.publishMemory sig now) := by
  have hsig : { sig with kind := .prediction } = sig := by rw [← hk]
  have hout := (h.publishPrediction_outbox sig now).2
  rw [hsig] at hout
  have heq : tx.publishMemory sig now =
      ({ tx with handoff := some (h.publishPrediction sig now).1 }, (h.outbox.publish sig now).2.isOk) := by
    simp only [publishMemory, hh, hout]
  rw [heq]
  exact ⟨rfl, rfl, ⟨_, rfl⟩, isOk_publish h.outbox sig now⟩

theorem publishOutcomeMemory_offered (now : TimestampMs) (hh : tx.handoff = some h) (hk : sig.kind = .outcome) :
    Offered tx h sig (tx.publishOutcomeMemory sig now) := by
  have hsig : { sig with kind := .outcome } = sig := by rw [← hk]
  have hout := (h.publishOutcome_outbox sig now).2
  rw [hsig] at hout
  have heq : tx.publishOutcomeMemory sig now =
      ({ tx with handoff := some (h.publishOutcome sig now).1 }, (h.outbox.publish sig now).2.isOk) := by
    simp only [publishOutcomeMemory, hh, hout]
  rw [heq]
  exact ⟨rfl, rfl, ⟨_, rfl⟩, isOk_publish h.outbox sig now⟩

/-- Under the condition the call succeeds and offers the signal to the outbox; otherwise it fails and offers
    it nothing. -/
theorem persistPrediction_spec (pev : PredictionEvent) (now : TimestampMs) (f : Faults) (hr : Ready tx)
    (hdb : tx.db = .pg c) (hh : tx.handoff = some h) (hk : sig.kind = .prediction) :
    Ready (tx.persistPrediction pev sig now f).1 ∧
    ((Commits pev now c f ∧ (tx.persistPrediction pev sig now f).2.ok = true ∧
        ((tx.persistPrediction pev sig now f).2.memoryPublished = true ↔ h.outbox.Accepts sig) ∧
        ∃ d, (tx.persistPrediction pev sig now f).1.db.committed = some d ∧ (Persisted pev d ↔ SlotFree pev c.committed)) ∨
      (¬Commits pev now c f ∧ (tx.persistPrediction pev sig now f).2.ok = false ∧
        (tx.persistPrediction pev sig now f).1.handoff = some h)) := by
  obtain ⟨repo, hrepo⟩ := hr.repo
  have hc : c.Closed := by
    obtain ⟨c', hdb', hc'⟩ := hr.db
    rw [hdb] at hdb'
    cases hdb'
    exact hc'
  have hclosed : (persistRows repo c pev sig now f).2.1.Closed := persistRows_closed
  rcases persistRows_commits repo pev sig now f hc with ⟨hcommits, hok, howner⟩ | ⟨hfail, m, herr⟩
  · rcases hrows : persistRows repo c pev sig now f with ⟨repo', c', r⟩
    rw [hrows] at hok howner hclosed
    obtain rfl : r = .ok () := hok
    have ho : Offered { tx with db := .pg c', repo := some repo' } h sig _ := publishMemory_offered now hh hk
    simp only [persistPrediction, hdb, hrepo, hrows]
    refine ⟨⟨⟨c', ho.db, hclosed⟩, ⟨repo', ho.repo⟩, ho.handoff⟩,
      Or.inl ⟨hcommits, trivial, ho.taken, c'.committed, ?_, howner⟩⟩
    exact congrArg Db.committed ho.db
  · rcases hrows : persistRows repo c pev sig now f with ⟨repo', c', r⟩
    rw [hrows] at herr hclosed
    obtain rfl : r = .error m := herr
    simp only [persistPrediction, hdb, hrepo, hrows]
    exact ⟨⟨⟨c', rfl, hclosed⟩, ⟨repo', rfl⟩, ⟨h, hh⟩⟩, Or.inr ⟨hfail, trivial, hh⟩⟩

theorem persistOutcome_spec (o : Outcome) (now : TimestampMs) (fault : Fault) (hr : Ready tx) (hdb : tx.db = .pg c)
    (hh : tx.handoff = some h) (hk : sig.kind = .outcome) :
    Ready (tx.persistOutcome o sig now fault).1 ∧
    ((fault = none ∧ c.tx = .idle ∧ (tx.persistOutcome o sig now fault).2.ok = true ∧
        ((tx.persistOutcome o sig now fault).2.memoryPublished = true ↔ h.outbox.Accepts sig) ∧
        ∃ d, (tx.persistOutcome o sig now fault).1.db.committed = some d ∧ d.outcomes.Has o.predictionId) ∨
      (¬(fault = none ∧ c.tx = .idle) ∧ (tx.persistOutcome o sig now fault).2.ok = false ∧
        (tx.persistOutcome o sig now fault).1.handoff = some h)) := by
  obtain ⟨c', hdb', hc⟩ := hr.db
  obtain rfl : c = c' := by
    rw [hdb] at hdb'
    cases hdb'
    rfl
  obtain ⟨d, ctx⟩ := c
  rcases hc.cases with heq | heq <;> cases heq
  · rcases fault with _ | m
    · obtain ⟨d', hd'⟩ : ∃ d', insertOutcome (outcomeRow o now) d = .ok d' := ⟨_, rfl⟩
      have hhas : d'.outcomes.Has o.predictionId := by
        cases hd'
        exact Table.insertIfAbsent_has
      have ho : Offered { tx with db := .pg ⟨d', .idle⟩ } h sig _ := publishOutcomeMemory_offered now hh hk
      simp only [persistOutcome, hdb, exec_idle_ok (attempt_eq_ok.mpr ⟨rfl, hd'⟩)]
      refine ⟨ho.ready ⟨⟨_, rfl, closed_idle⟩, hr.repo, ⟨h, hh⟩⟩,
        Or.inl ⟨trivial, trivial, trivial, ho.taken, d', ?_, hhas⟩⟩
      exact congrArg Db.committed ho.db
    · simp only [persistOutcome, hdb, exec_idle_error attempt_some]
      exact ⟨⟨⟨_, rfl, closed_idle⟩, hr.repo, ⟨h, hh⟩⟩, Or.inr ⟨by simp, trivial, hh⟩⟩
  · simp only [persistOutcome, hdb, exec_aborted]
    exact ⟨⟨⟨_, rfl, closed_aborted⟩, hr.repo, ⟨h, hh⟩⟩, Or.inr ⟨by simp, trivial, hh⟩⟩

/-! ### What a handler adds to the log -/

theorem durable_append {e : Entry} (ht : t.entered = s.entered ++ [e]) :
    DurableBeforeNotify t ↔ DurableBeforeNotify s ∧ e.Durable := by
  unfold DurableBeforeNotify
  rw [ht]
  constructor
  · intro hd
    exact ⟨fun x hx => hd x (List.mem_append_left _ hx), hd e (List.mem_append_right _ (List.mem_singleton_self e))⟩
  · rintro ⟨hd, he⟩ x hx
    rcases List.mem_append.mp hx with hx | hx
    · exact hd x hx
    · rwa [List.mem_singleton.mp hx]

theorem durable_congr (ht : t.entered = s.entered) : DurableBeforeNotify t ↔ DurableBeforeNotify s := by
  unfold DurableBeforeNotify
  rw [ht]

variable {app : Application} {taken : Bool}

theorem durable_entered : DurableBeforeNotify (after s (app, entered taken sig tx)) ↔
    DurableBeforeNotify s ∧ (taken = true → (∃ d ∈ tx.db.committed, RowsOf sig d) ∧ sig.dedupeKey ∉ s.failed) := by
  cases taken with
  | false =>
    have hsame : DurableBeforeNotify (after s (app, entered false sig tx)) ↔ DurableBeforeNotify s := durable_congr rfl
    rw [hsame]
    exact ⟨fun hd => ⟨hd, nofun⟩, And.left⟩
  | true =>
    have happ : (after s (app, entered true sig tx)).entered =
        s.entered ++ [⟨sig, tx.db.committed, decide (sig.dedupeKey ∈ s.failed)⟩] := rfl
    rw [durable_append happ]
    constructor
    · rintro ⟨hd, hrows, hnot⟩
      exact ⟨hd, fun _ => ⟨hrows, of_decide_eq_false hnot⟩⟩
    · rintro ⟨hd, he⟩
      obtain ⟨hrows, hnot⟩ := he rfl
      exact ⟨hd, hrows, decide_eq_false hnot⟩

/-- After a persistence that succeeded only the rows matter. -/
theorem durable_persisted : DurableBeforeNotify (after s (app, .persisted sig true :: entered taken sig tx)) ↔
    DurableBeforeNotify s ∧ (taken = true → ∃ d ∈ tx.db.committed, RowsOf sig d) := by
  have heq : after s (app, .persisted sig true :: entered taken sig tx) =
      after { s with failed := s.failed.erase sig.dedupeKey } (app, entered taken sig tx) := rfl
  rw [heq, durable_entered]
  simp only [Finset.mem_erase, ne_eq, not_true_eq_false, false_and, not_false_eq_true, and_true]
  exact Iff.rfl

/-- After one that failed nothing may enter the outbox. -/
theorem durable_not_persisted : DurableBeforeNotify (after s (app, .persisted sig false :: entered taken sig tx)) ↔
    DurableBeforeNotify s ∧ taken = false := by
  have heq : after s (app, .persisted sig false :: entered taken sig tx) =
      after { s with failed := insert sig.dedupeKey s.failed } (app, entered taken sig tx) := rfl
  rw [heq, durable_entered]
  simp only [Finset.mem_insert, true_or, not_true_eq_false, and_false, imp_false, Bool.not_eq_true]
  exact Iff.rfl

theorem after_app (effects : List Effect) : (after s (app, effects)).app = app := by
  have hnote : ∀ (effects : List Effect) (s : State), (effects.foldl note s).app = s.app := by
    intro effects
    induction effects with
    | nil => intro s; rfl
    | cons e rest ih =>
      intro s
      rw [List.foldl_cons, ih]
      cases e <;> rfl
  exact hnote effects _

theorem rowsOf_prediction {d : Tables} : RowsOf (signalFromPrediction pev now) d ↔ Persisted pev d :=
  ⟨fun ⟨hp, hn, hc⟩ => ⟨hp, hn, hc⟩, fun ⟨hp, hn, hc⟩ => ⟨hp, hn, hc⟩⟩

/-! ### The handlers -/

theorem takes_iff (hh : s.app.durableTx.handoff = some h) : Takes s sig ↔ h.outbox.Accepts sig := by
  unfold Takes
  rw [hh]
  exact ⟨fun ⟨_, hh', ha⟩ => by cases hh'; exact ha, fun ha => ⟨h, rfl, ha⟩⟩

/-- A step that changes neither the database nor the handoff nor the log. -/
theorem quiet_durable {e : Event} {app : Application} (hr : Ready s.app.durableTx) (happ : app.durableTx = s.app.durableTx)
    (hc : CommitsFirst s e) : Ready (after s (app, [])).app.durableTx ∧
      (DurableBeforeNotify (after s (app, [])) ↔ DurableBeforeNotify s ∧ CommitsFirst s e) := by
  refine ⟨by rw [after_app, happ]; exact hr, ?_⟩
  have hsame : DurableBeforeNotify (after s (app, [])) ↔ DurableBeforeNotify s := durable_congr rfl
  rw [hsame]
  exact ⟨fun hd => ⟨hd, hc⟩, And.left⟩

theorem onResponse_durable (hr : Ready s.app.durableTx) (ht : t = after s (s.app.onResponse resp now f)) :
    Ready t.app.durableTx ∧
      (DurableBeforeNotify t ↔ DurableBeforeNotify s ∧ CommitsFirst s (.response resp now f)) := by
  subst ht
  unfold onResponse
  by_cases hact : isActionable resp
  swap
  · rw [if_pos hact]
    exact quiet_durable hr rfl fun ha => absurd ha.1 hact
  rw [if_neg (not_not_intro hact)]
  dsimp only
  rcases s.app.registry.registerPrediction_cases (fromResponse resp resp.targetRoundId 0 now) with
    ⟨hnew, hreg⟩ | ⟨hold, e, hreg⟩ <;>
    rcases hres : s.app.registry.registerPrediction (fromResponse resp resp.targetRoundId 0 now) with ⟨registry, r⟩ <;>
    rw [hres] at hreg <;> cases hreg <;> dsimp only
  swap
  · exact quiet_durable hr rfl fun ha => absurd ha.2.1 hold
  obtain ⟨c, hdb, -⟩ := hr.db
  obtain ⟨h, hh⟩ := hr.handoff
  have hcond : CommitsFirst s (.response resp now f) ↔
      (h.outbox.Accepts (signalFromPrediction (fromResponse resp resp.targetRoundId 0 now) now) →
        Commits (fromResponse resp resp.targetRoundId 0 now) now c f ∧
          SlotFree (fromResponse resp resp.targetRoundId 0 now) c.committed) := by
    rw [← takes_iff hh]
    constructor
    · intro hc ha
      exact hc ⟨hact, hnew, ha⟩ c hdb
    · rintro hc ⟨-, -, ha⟩ c' hdb'
      rw [hdb] at hdb'
      cases hdb'
      exact hc ha
  rw [hcond]
  generalize hpev : fromResponse resp resp.targetRoundId 0 now = pev
  obtain ⟨hready, ⟨hcommits, hok, htaken, d, hd, howner⟩ | ⟨hfail, hok, hkeep⟩⟩ :=
    persistPrediction_spec pev now f hr hdb hh (rfl : (signalFromPrediction pev now).kind = .prediction)
  · rw [if_pos hok, durable_persisted, after_app]
    refine ⟨hready, and_congr_right fun _ => ?_⟩
    rw [htaken, hd]
    constructor
    · intro hrows ha
      obtain ⟨d', hd', hrows⟩ := hrows ha
      cases hd'
      exact ⟨hcommits, howner.mp (rowsOf_prediction.mp hrows)⟩
    · intro hc ha
      exact ⟨d, rfl, rowsOf_prediction.mpr (howner.mpr (hc ha).2)⟩
  · rw [if_neg (by rw [hok]; exact Bool.false_ne_true), durable_not_persisted, after_app]
    have ho := publishMemory_offered now hkeep (rfl : (signalFromPrediction pev now).kind = .prediction)
    refine ⟨ho.ready hready, and_congr_right fun _ => ?_⟩
    rw [← Bool.not_eq_true, ho.taken]
    exact ⟨fun hn ha => absurd ha hn, fun hc ha => hfail (hc ha).1⟩

theorem onOutcome_durable (hr : Ready s.app.durableTx) (ht : t = after s (s.app.onOutcome o now fault)) :
    Ready t.app.durableTx ∧
      (DurableBeforeNotify t ↔ DurableBeforeNotify s ∧ CommitsFirst s (.outcome o now fault)) := by
  subst ht
  obtain ⟨c, hdb, -⟩ := hr.db
  obtain ⟨h, hh⟩ := hr.handoff
  have hcond : CommitsFirst s (.outcome o now fault) ↔
      (h.outbox.Accepts (signalFromOutcome o now) → fault = none ∧ c.tx = .idle) := by
    rw [← takes_iff hh]
    constructor
    · intro hc ha
      exact ⟨(hc ha).1, (hc ha).2 c hdb⟩
    · intro hc ha
      refine ⟨(hc ha).1, fun c' hdb' => ?_⟩
      rw [hdb] at hdb'
      cases hdb'
      exact (hc ha).2
  rw [hcond]
  unfold onOutcome
  dsimp only
  obtain ⟨hready, ⟨hnone, hidle, hok, htaken, d, hd, hhas⟩ | ⟨hfail, hok, hkeep⟩⟩ :=
    persistOutcome_spec o now fault hr hdb hh (rfl : (signalFromOutcome o now).kind = .outcome)
  · rw [if_pos hok, durable_persisted, after_app]
    refine ⟨hready, and_congr_right fun _ => ?_⟩
    rw [hd]
    exact ⟨fun _ _ => ⟨hnone, hidle⟩, fun _ _ => ⟨d, rfl, hhas⟩⟩
  · rw [if_neg (by rw [hok]; exact Bool.false_ne_true), durable_not_persisted, after_app]
    have ho := publishOutcomeMemory_offered now hkeep (rfl : (signalFromOutcome o now).kind = .outcome)
    refine ⟨ho.ready hready, and_congr_right fun _ => ?_⟩
    rw [← Bool.not_eq_true, ho.taken]
    exact ⟨fun hn ha => absurd ha hn, fun hc ha => hfail (hc ha)⟩

theorem onRoundEnd_durable (hr : Ready s.app.durableTx)
    (ht : t = after s (s.app.onRoundEnd resp gameId crashPoint now)) :
    Ready t.app.durableTx ∧
      (DurableBeforeNotify t ↔ DurableBeforeNotify s ∧ CommitsFirst s (.roundEnd resp gameId crashPoint now)) := by
  subst ht
  unfold onRoundEnd
  by_cases hact : isActionable resp
  swap
  · rw [if_pos hact]
    exact quiet_durable hr rfl fun ha => absurd ha.1 hact
  rw [if_neg (not_not_intro hact)]
  dsimp only
  rcases s.app.registry.registerPrediction_cases (fromResponse resp gameId crashPoint now) with
    ⟨hnew, hreg⟩ | ⟨hold, e, hreg⟩ <;>
    rcases hres : s.app.registry.registerPrediction (fromResponse resp gameId crashPoint now) with ⟨registry, r⟩ <;>
    rw [hres] at hreg <;> cases hreg <;> dsimp only
  swap
  · exact quiet_durable hr rfl fun ha => absurd ha.2.1 hold
  obtain ⟨h, hh⟩ := hr.handoff
  have hcond : CommitsFirst s (.roundEnd resp gameId crashPoint now) ↔
      (h.outbox.Accepts (signalFromPrediction (fromResponse resp gameId crashPoint now) now) →
        (∃ d ∈ s.app.durableTx.db.committed,
          RowsOf (signalFromPrediction (fromResponse resp gameId crashPoint now) now) d) ∧
        (signalFromPrediction (fromResponse resp gameId crashPoint now) now).dedupeKey ∉ s.failed) := by
    rw [← takes_iff hh]
    exact ⟨fun hc ha => hc ⟨hact, hnew, ha⟩, fun hc ha => hc ha.2.2⟩
  rw [hcond]
  have ho := publishMemory_offered now hh
    (rfl : (signalFromPrediction (fromResponse resp gameId crashPoint now) now).kind = .prediction)
  rw [durable_entered, after_app, ho.taken, ho.db]
  exact ⟨ho.ready hr, Iff.rfl⟩

/-! ### Runs -/

theorem onOutbox_ready (hr : Ready s.app.durableTx) (call : Outbox → Outbox) : Ready (onOutbox s call).app.durableTx := by
  obtain ⟨h, hh⟩ := hr.handoff
  refine ⟨hr.db, hr.repo, ⟨{ h with outbox := call h.outbox }, ?_⟩⟩
  simp only [onOutbox, hh, Option.map_some]

theorem step_durable {e : Event} (hr : Ready s.app.durableTx) (hs : step s e = some t) :
    Ready t.app.durableTx ∧ (DurableBeforeNotify t ↔ DurableBeforeNotify s ∧ CommitsFirst s e) := by
  have other : Ready t.app.durableTx → t.entered = s.entered → CommitsFirst s e →
      Ready t.app.durableTx ∧ (DurableBeforeNotify t ↔ DurableBeforeNotify s ∧ CommitsFirst s e) := by
    intro hrt ht hc
    exact ⟨hrt, (durable_congr ht).trans ⟨fun hd => ⟨hd, hc⟩, And.left⟩⟩
  cases e with
  | response resp now f => exact onResponse_durable hr (Option.some.inj hs).symm
  | outcome o now fault => exact onOutcome_durable hr (Option.some.inj hs).symm
  | roundEnd resp gameId crashPoint now => exact onRoundEnd_durable hr (Option.some.inj hs).symm
  | roundStart roundId now =>
    cases hs
    exact other hr rfl trivial
  | takeForRound roundId =>
    cases hs
    exact other hr rfl trivial
  | expireStale maxAgeMs now =>
    cases hs
    exact other hr rfl trivial
  | claim now =>
    cases hs
    exact other (onOutbox_ready hr _) rfl trivial
  | markDelivered item now =>
    cases hs
    exact other (onOutbox_ready hr _) rfl trivial
  | markFailed item error =>
    cases hs
    exact other (onOutbox_ready hr _) rfl trivial
  | statement stmt fault =>
    cases hs
    obtain ⟨c, hdb, hc⟩ := hr.db
    have heq : onDb s (fun c => (c.exec stmt fault).1) =
        { s with app := { s.app with durableTx := { s.app.durableTx with db := .pg (c.exec stmt fault).1 } } } := by
      simp only [onDb, hdb]
    rw [heq] at other ⊢
    exact other ⟨⟨_, rfl, exec_closed hc⟩, hr.repo, hr.handoff⟩ rfl trivial

theorem ready_initial (d : Tables) (capacity : Nat) : Ready (initial d capacity).app.durableTx :=
  ⟨⟨_, rfl, closed_idle⟩, ⟨_, rfl⟩, ⟨_, rfl⟩⟩

/-- The insert into `predictions` fails, and the prediction is announced all the same. -/
def failedInsert : List Event :=
  [.response { predictionId := "p1", targetRoundId := "r1", decision := .enter, confidence := 1, valid := true } 5
    { prediction := some "disk full" }]

end ApplicationEvents
end CrashCore
