import CrashCore.Application.Handlers
import CrashCore.Theorems.DurableBeforeNotify

/-! What one run of the response handler does, and what it publishes for a target round: at most one prediction, and again what
failed. A run ends in one of several ways, and each leaves its own things in the registry, the targets and the outbox. -/

namespace CrashCore
namespace ResponseRuns
open Application DurablePredictionTx

variable {persistent : Bool} {s : Application} {tx : DurablePredictionTx} {c : Connection Tables} {h h' : DurableHandoff}
  {pev : PredictionEvent} {sig : Signal} {now : TimestampMs} {f : Faults} {resp : PredictionResponse}

/-- The handler registers the prediction and goes on to publish it. -/
def Attempts (s : Application) (resp : PredictionResponse) (now : TimestampMs) : Prop :=
  isActionable resp ∧ s.registry.Accepts (fromResponse resp resp.targetRoundId 0 now)

instance : Decidable (Attempts s resp now) := inferInstanceAs (Decidable (_ ∧ _))

/-- The transaction commits, or the in-memory outbox takes the signal. -/
def CanPublish (persistent : Bool) (tx : DurablePredictionTx) (pev : PredictionEvent) (sig : Signal) (now : TimestampMs)
    (f : Faults) : Prop :=
  (persistent = true ∧ ∀ c, tx.db = .pg c → Commits pev now c f) ∨ ∃ h ∈ tx.handoff, h.outbox.Accepts sig

/-- `CanPublish` for the signal of a response. -/
def Publishable (persistent : Bool) (s : Application) (resp : PredictionResponse) (now : TimestampMs) (f : Faults) : Prop :=
  let pev := fromResponse resp resp.targetRoundId 0 now
  CanPublish persistent s.durableTx pev (signalFromPrediction pev now) now f

/-- The sets against which the outbox and the handoff look up a signal. -/
structure SameSets (h h' : DurableHandoff) : Prop where
  pending : h'.outbox.pendingKeys = h.outbox.pendingKeys
  delivered : h'.outbox.deliveredKeys = h.outbox.deliveredKeys
  published : h'.predPublished = h.predPublished

theorem Installed.get (hi : Installed persistent tx) : ∃ h, tx.handoff = some h := Option.isSome_iff_exists.mp hi.handoff

theorem Installed.conn (hi : Installed true tx) : ∃ c, tx.db = .pg c ∧ c.Closed := by
  have hdb := hi.db rfl
  rcases heq : tx.db with _ | _ | c <;> rw [heq] at hdb
  · exact hdb.elim
  · exact hdb.elim
  · exact ⟨c, rfl, hdb⟩

theorem Installed.ready (hi : Installed true tx) : ApplicationEvents.Ready tx :=
  ⟨hi.conn, Option.isSome_iff_exists.mp (hi.repo rfl), hi.get⟩

theorem installed_of_ready (hr : ApplicationEvents.Ready tx) : Installed true tx := by
  obtain ⟨c, hdb, hc⟩ := hr.db
  refine ⟨Option.isSome_iff_exists.mpr hr.handoff, fun _ => ?_, fun _ => Option.isSome_iff_exists.mpr hr.repo⟩
  rw [hdb]
  exact hc

/-! ### The publication -/

/-- What a publication in memory makes of the handoff `h`. -/
theorem publishMemory_spec (now : TimestampMs) (hh : tx.handoff = some h) (hk : sig.kind = .prediction) :
    ∃ h', (tx.publishMemory sig now).1 = { tx with handoff := some h' } ∧
      ((tx.publishMemory sig now).2 = true ↔ h.outbox.Accepts sig) ∧
      ((tx.publishMemory sig now).2 = false → SameSets h h') := by
  have hsig : { sig with kind := .prediction } = sig := by rw [← hk]
  have hok := ApplicationEvents.isOk_publish h.outbox sig now
  have heq : tx.publishMemory sig now =
      ({ tx with handoff := some (h.publishPrediction sig now).1 }, (h.outbox.publish sig now).2.isOk) := by
    have hout := (h.publishPrediction_outbox sig now).2
    rw [hsig] at hout
    simp only [publishMemory, hh, hout]
  rw [heq]
  refine ⟨_, rfl, hok, fun hno => ?_⟩
  have hrefused : ¬h.outbox.Accepts sig := fun ha => by rw [hok.mpr ha] at hno; cases hno
  have hkeys : Outbox.SameKeys h.outbox (h.outbox.publish sig now).1 ∧ ∃ e, (h.outbox.publish sig now).2 = .error e := by
    rcases h.outbox.publish_cases sig now with ⟨-, hr, hsame⟩ | ⟨-, -, hr, hsame⟩ | ⟨ha, -⟩
    · exact ⟨hsame, _, hr⟩
    · exact ⟨hsame, _, hr⟩
    · exact absurd ha hrefused
  obtain ⟨hsame, e, he⟩ := hkeys
  rcases hp : h.outbox.publish sig now with ⟨outbox, r⟩
  rw [hp] at hsame he
  obtain rfl : r = .error e := he
  have hpub : (h.publishPrediction sig now).1 = { h with outbox } := by
    simp only [DurableHandoff.publishPrediction, hsig, hp]
  rw [hpub]
  exact ⟨hsame.pending, hsame.delivered, rfl⟩

theorem publish_spec (pev : PredictionEvent) (now : TimestampMs) (f : Faults) (hi : Installed persistent tx)
    (hh : tx.handoff = some h) (hk : sig.kind = .prediction) :
    Installed persistent (tx.publish persistent pev sig now f).1 ∧
      ((tx.publish persistent pev sig now f).2 = true ↔ CanPublish persistent tx pev sig now f) ∧
      ((tx.publish persistent pev sig now f).2 = false →
        ∃ h', (tx.publish persistent pev sig now f).1.handoff = some h' ∧ SameSets h h') := by
  have htakes : (∃ h ∈ tx.handoff, h.outbox.Accepts sig) ↔ h.outbox.Accepts sig := by
    rw [hh]
    constructor
    · rintro ⟨_, heq, ha⟩
      cases heq
      exact ha
    · exact fun ha => ⟨h, rfl, ha⟩
  unfold CanPublish
  rw [htakes]
  cases persistent with
  | false =>
    obtain ⟨h', heq, hok, hkeep⟩ := publishMemory_spec now hh hk
    have hpub : tx.publish false pev sig now f = tx.publishMemory sig now := if_neg Bool.false_ne_true
    rw [hpub, heq, hok]
    refine ⟨⟨rfl, nofun, nofun⟩, ⟨Or.inr, fun hc => hc.resolve_left fun hp => Bool.false_ne_true hp.1⟩, ?_⟩
    exact fun hno => ⟨h', rfl, hkeep hno⟩
  | true =>
    obtain ⟨c, hdb, -⟩ := hi.conn
    have hcommits : (∀ c, tx.db = .pg c → Commits pev now c f) ↔ Commits pev now c f := by
      rw [hdb]
      exact ⟨fun hc => hc c rfl, fun hc _ heq => by cases heq; exact hc⟩
    obtain ⟨hready, hcases⟩ := ApplicationEvents.persistPrediction_spec pev now f hi.ready hdb hh hk
    rcases hp : tx.persistPrediction pev sig now f with ⟨tx', dr⟩
    rw [hp] at hready hcases
    dsimp only at hready hcases
    rw [hcommits]
    rcases hcases with ⟨hc, hok, -⟩ | ⟨hc, hok, hsame⟩
    · have hpub : tx.publish true pev sig now f = (tx', true) := by simp only [publish, hp, hok, ↓reduceIte]
      rw [hpub]
      refine ⟨installed_of_ready hready, ⟨fun _ => Or.inl ⟨rfl, hc⟩, fun _ => rfl⟩, fun hno => ?_⟩
      cases hno
    · have hpub : tx.publish true pev sig now f = tx'.publishMemory sig now := by
        simp only [publish, hp, hok, ↓reduceIte, Bool.false_eq_true]
      obtain ⟨h', heq, htaken, hkeep⟩ := publishMemory_spec now hsame hk
      rw [hpub, heq, htaken]
      refine ⟨installed_of_ready ⟨hready.db, hready.repo, ⟨h', rfl⟩⟩, ?_, fun hno => ⟨h', rfl, hkeep hno⟩⟩
      exact ⟨Or.inr, fun h => h.resolve_left fun hp => hc hp.2⟩

/-! ### The handler -/

/-- The targets once the round is claimed for the prediction of the response. -/
def claimed (s : Application) (resp : PredictionResponse) (now : TimestampMs) : TargetCoordinator :=
  (s.targets.claim resp.targetRoundId resp.predictionId now).1.markPredicted resp.targetRoundId

/-- What a run that comes to the publication leaves behind, apart from the targets. -/
structure Left (persistent : Bool) (s : Application) (resp : PredictionResponse) (now : TimestampMs) (t : Application) :
    Prop where
  installed : Installed persistent t.durableTx
  registry : t.registry = (s.registry.registerPrediction (fromResponse resp resp.targetRoundId 0 now)).1

/-- A run that does not come to the publication keeps the entries, the targets and the outbox. -/
structure Passed (s t : Application) : Prop where
  entries : t.registry.entries = s.registry.entries
  targets : t.targets = s.targets
  durableTx : t.durableTx = s.durableTx

theorem handleResponse_cases (resp : PredictionResponse) (now : TimestampMs) (f : Faults)
    (hi : Installed persistent s.durableTx) :
    (¬Attempts s resp now ∧ Passed s (handleResponse persistent s resp now f).1 ∧
      ((handleResponse persistent s resp now f).2 = .skipped ∨ (handleResponse persistent s resp now f).2 = .refused)) ∨
    (Attempts s resp now ∧ Publishable persistent s resp now f ∧
      (handleResponse persistent s resp now f).2 = .published ∧
      Left persistent s resp now (handleResponse persistent s resp now f).1 ∧
      (handleResponse persistent s resp now f).1.targets = claimed s resp now) ∨
    (Attempts s resp now ∧ ¬Publishable persistent s resp now f ∧
      (handleResponse persistent s resp now f).2 = .unpublished ∧
      Left persistent s resp now (handleResponse persistent s resp now f).1 ∧
      (handleResponse persistent s resp now f).1.targets = ((claimed s resp now).release resp.targetRoundId).1 ∧
      ∀ h, s.durableTx.handoff = some h →
        ∃ h', (handleResponse persistent s resp now f).1.durableTx.handoff = some h' ∧ SameSets h h') := by
  unfold handleResponse
  by_cases hact : isActionable resp
  swap
  · rw [if_pos hact]
    exact Or.inl ⟨fun ha => hact ha.1, ⟨rfl, rfl, rfl⟩, Or.inl rfl⟩
  rw [if_neg (not_not_intro hact)]
  dsimp only
  have hentries := s.registry.registerPrediction_entries (fromResponse resp resp.targetRoundId 0 now)
  rcases s.registry.registerPrediction_cases (fromResponse resp resp.targetRoundId 0 now) with
    ⟨hnew, hreg⟩ | ⟨hold, e, hreg⟩ <;>
    rcases hres : s.registry.registerPrediction (fromResponse resp resp.targetRoundId 0 now) with ⟨registry, r⟩ <;>
    rw [hres] at hreg hentries <;> cases hreg <;> dsimp only
  swap
  · refine Or.inl ⟨fun ha => hold ha.2, ⟨?_, rfl, rfl⟩, Or.inr rfl⟩
    rcases hentries with ⟨hok, -⟩ | ⟨-, hsame⟩
    · cases hok
    · exact hsame
  refine Or.inr ?_
  obtain ⟨h, hh⟩ := hi.get
  obtain ⟨hinst, hiff, hkeep⟩ := publish_spec (fromResponse resp resp.targetRoundId 0 now) now f hi hh
    (rfl : (signalFromPrediction (fromResponse resp resp.targetRoundId 0 now) now).kind = .prediction)
  rcases hp : s.durableTx.publish persistent (fromResponse resp resp.targetRoundId 0 now)
    (signalFromPrediction (fromResponse resp resp.targetRoundId 0 now) now) now f with ⟨tx', published⟩
  rw [hp] at hinst hiff hkeep
  have hregistry : registry = (s.registry.registerPrediction (fromResponse resp resp.targetRoundId 0 now)).1 :=
    (congrArg Prod.fst hres).symm
  cases published with
  | true => exact Or.inl ⟨⟨hact, hnew⟩, hiff.mp rfl, rfl, ⟨hinst, hregistry⟩, rfl⟩
  | false =>
    refine Or.inr ⟨⟨hact, hnew⟩, fun hc => Bool.false_ne_true (hiff.mpr hc), rfl, ⟨hinst, hregistry⟩, rfl, ?_⟩
    intro h₁ hh₁
    cases hh.symm.trans hh₁
    exact hkeep rfl

end ResponseRuns

/-! ### One prediction per target

The handler does not look at the result of the claim: a second prediction for a round that is claimed is published like the
first, and if it is not published it releases the claim of the first. -/

namespace ResponseRuns
open Application Transition

variable {persistent : Bool} {s t : State} {a : Application} {resp : PredictionResponse} {now : TimestampMs} {f : Faults}
  {tc : TargetCoordinator} {id : RoundId} {r : TargetRecord} {p q : PredictionId} {e : Event}

/-- Of each target round one prediction at most is published, and a run that publishes nothing releases no claim
    but its own. -/
structure Exclusive (s : State) : Prop where
  published : ∀ p ∈ s.published, ∀ q ∈ s.published, p.1 = q.1 → p.2 = q.2
  released : ∀ r ∈ s.released, ∀ owner ∈ r.owner, owner = r.releasedBy

/-- The target round of a prediction that the handler is to publish is free; or the prediction owns it already, and
    is published once more. -/
def ClaimsFirst (persistent : Bool) (s : State) : Event → Prop
  | .response resp now f => Attempts s.app resp now →
    s.app.targets.Free resp.targetRoundId ∨
      (s.app.targets.owner resp.targetRoundId = some resp.predictionId ∧ Publishable persistent s.app resp now f)
  | .outside _ => True

/-- What is left of `ClaimsFirst` when it does not matter whether the prediction is published. -/
def FreeOrOwn (s : State) : Event → Prop
  | .response resp now _ => Attempts s.app resp now →
    s.app.targets.Free resp.targetRoundId ∨ s.app.targets.owner resp.targetRoundId = some resp.predictionId
  | .outside _ => True

/-! ### The owner of a round -/

theorem owner_eq (h : tc.get id = some r) (hs : r.state = .claimed ∨ r.state = .predicted) :
    tc.owner id = some r.predictionId := by
  simp only [TargetCoordinator.owner, h, hs, ↓reduceIte]

theorem owner_congr {tc' : TargetCoordinator} (h : tc'.get id = tc.get id) : tc'.owner id = tc.owner id := by
  unfold TargetCoordinator.owner
  rw [h]

theorem claimed_owner_of_free (h : a.targets.Free resp.targetRoundId) :
    (claimed a resp now).owner resp.targetRoundId = some resp.predictionId := by
  have hget : (claimed a resp now).get resp.targetRoundId = _ := TargetCoordinator.get_predicted
  rcases hold : a.targets.get resp.targetRoundId with _ | r <;> rw [hold] at hget
  · exact owner_eq hget (Or.inr rfl)
  · simp only [TargetCoordinator.predicted, h r hold, ↓reduceIte] at hget
    exact owner_eq hget (Or.inr rfl)

theorem claimed_owner_of_owner (h : a.targets.owner resp.targetRoundId = some q) :
    (claimed a resp now).owner resp.targetRoundId = some q := by
  have hget : (claimed a resp now).get resp.targetRoundId = _ := TargetCoordinator.get_predicted
  unfold TargetCoordinator.owner at h
  rcases hold : a.targets.get resp.targetRoundId with _ | r <;> rw [hold] at hget h
  · cases h
  · dsimp only at h
    split at h
    · rename_i hs
      have hne : r.state ≠ .available := by
        rintro heq
        rw [heq] at hs
        simp at hs
      simp only [TargetCoordinator.predicted, hne, ↓reduceIte] at hget
      rw [owner_eq hget (Or.inr rfl)]
      exact h
    · cases h

theorem claimed_owner_ne (h : id ≠ resp.targetRoundId) : (claimed a resp now).owner id = a.targets.owner id :=
  owner_congr (TargetCoordinator.get_predicted_ne h)

/-- The claimed round is predicted, so a release makes it available. -/
theorem released_get : ∃ r, ((claimed a resp now).release resp.targetRoundId).1.get resp.targetRoundId = some r ∧
    r.state = .available := by
  have hget : (claimed a resp now).get resp.targetRoundId = _ := TargetCoordinator.get_predicted
  refine ⟨_, TargetCoordinator.get_release hget (Or.inr ?_), rfl⟩
  unfold TargetCoordinator.predicted
  split
  · rfl
  · split <;> rfl

theorem released_owner_ne (h : id ≠ resp.targetRoundId) :
    ((claimed a resp now).release resp.targetRoundId).1.owner id = a.targets.owner id :=
  (owner_congr (TargetCoordinator.get_release_ne h)).trans (claimed_owner_ne h)

/-! ### What every run keeps -/

/-- A round is free or owned by a prediction that was published. -/
structure Kept (persistent : Bool) (s : State) : Prop where
  installed : Installed persistent s.app.durableTx
  owned : ∀ id, s.app.targets.Free id ∨ ∃ p, s.app.targets.owner id = some p ∧ (id, p) ∈ s.published

theorem kept_claimed {t : State} (hk : Kept persistent s) (ht : t.app.targets = claimed s.app resp now)
    (hinst : Installed persistent t.app.durableTx)
    (hpub : t.published = s.published ++ [(resp.targetRoundId, resp.predictionId)]) : Kept persistent t := by
  refine ⟨hinst, fun id => ?_⟩
  rw [ht, hpub]
  by_cases hid : id = resp.targetRoundId
  · subst hid
    rcases hk.owned resp.targetRoundId with hfree | ⟨q, hq, hmem⟩
    · exact Or.inr ⟨_, claimed_owner_of_free hfree, List.mem_append_right _ (List.mem_singleton_self _)⟩
    · exact Or.inr ⟨q, claimed_owner_of_owner hq, List.mem_append_left _ hmem⟩
  · rcases hk.owned id with hfree | ⟨q, hq, hmem⟩
    · refine Or.inl fun r hr => hfree r ?_
      rwa [Option.mem_def, ← TargetCoordinator.get_predicted_ne hid]
    · exact Or.inr ⟨q, (claimed_owner_ne hid).trans hq, List.mem_append_left _ hmem⟩

theorem kept_released {t : State} (hk : Kept persistent s)
    (ht : t.app.targets = ((claimed s.app resp now).release resp.targetRoundId).1)
    (hinst : Installed persistent t.app.durableTx) (hpub : t.published = s.published) : Kept persistent t := by
  refine ⟨hinst, fun id => ?_⟩
  rw [ht, hpub]
  by_cases hid : id = resp.targetRoundId
  · subst hid
    obtain ⟨r, hr, hs⟩ : ∃ r, ((claimed s.app resp now).release resp.targetRoundId).1.get resp.targetRoundId = some r ∧
        r.state = .available := released_get
    refine Or.inl fun r' hr' => ?_
    rw [Option.mem_def, hr] at hr'
    cases hr'
    exact hs
  · rcases hk.owned id with hfree | ⟨q, hq, hmem⟩
    · refine Or.inl fun r hr => hfree r ?_
      rwa [Option.mem_def, TargetCoordinator.get_release_ne hid, claimed, TargetCoordinator.get_predicted_ne hid] at hr
    · exact Or.inr ⟨q, (released_owner_ne hid).trans hq, hmem⟩

/-- What a run of the handler does to the state: nothing to the targets and the log, or a publication, or a
    release. -/
theorem response_cases (hk : Kept persistent s) (hs : step persistent s (.response resp now f) = some t) :
    (¬Attempts s.app resp now ∧ t.app.targets = s.app.targets ∧ t.app.durableTx = s.app.durableTx ∧
      t.published = s.published ∧ t.released = s.released) ∨
    (Attempts s.app resp now ∧ Publishable persistent s.app resp now f ∧ t.app.targets = claimed s.app resp now ∧
      Installed persistent t.app.durableTx ∧
      t.published = s.published ++ [(resp.targetRoundId, resp.predictionId)] ∧ t.released = s.released) ∨
    (Attempts s.app resp now ∧ ¬Publishable persistent s.app resp now f ∧
      t.app.targets = ((claimed s.app resp now).release resp.targetRoundId).1 ∧ Installed persistent t.app.durableTx ∧
      t.published = s.published ∧ t.released = s.released ++
        [⟨resp.targetRoundId, (claimed s.app resp now).owner resp.targetRoundId, resp.predictionId⟩]) := by
  rcases hr : handleResponse persistent s.app resp now f with ⟨app, e⟩
  have hcases := handleResponse_cases resp now f hk.installed
  rw [hr] at hcases
  simp only [step, hr, Option.some.injEq] at hs
  subst hs
  rcases hcases with ⟨hno, hpass, rfl | rfl⟩ | ⟨hatt, hpub, rfl, hleft, htargets⟩ | ⟨hatt, hpub, rfl, hleft, htargets, -⟩
  · exact Or.inl ⟨hno, hpass.targets, hpass.durableTx, rfl, rfl⟩
  · exact Or.inl ⟨hno, hpass.targets, hpass.durableTx, rfl, rfl⟩
  · exact Or.inr (Or.inl ⟨hatt, hpub, htargets, hleft.installed, rfl, rfl⟩)
  · exact Or.inr (Or.inr ⟨hatt, hpub, htargets, hleft.installed, rfl, rfl⟩)

theorem outside_cases {tx : DurablePredictionTx} (hs : step persistent s (.outside tx) = some t) :
    Installed persistent tx ∧ t = { s with app := { s.app with durableTx := tx } } := by
  by_cases hi : Installed persistent tx
  · simp only [step, hi, ↓reduceIte, Option.some.injEq] at hs
    exact ⟨hi, hs.symm⟩
  · simp [step, hi] at hs

theorem step_kept (hk : Kept persistent s) (hs : step persistent s e = some t) : Kept persistent t := by
  cases e with
  | response resp now f =>
    rcases response_cases hk hs with ⟨-, htargets, htx, hpub, -⟩ | ⟨-, -, htargets, hinst, hpub, -⟩ |
      ⟨-, -, htargets, hinst, hpub, -⟩
    · refine ⟨htx ▸ hk.installed, fun id => ?_⟩
      rw [htargets, hpub]
      exact hk.owned id
    · exact kept_claimed hk htargets hinst hpub
    · exact kept_released hk htargets hinst hpub
  | outside tx =>
    obtain ⟨hi, rfl⟩ := outside_cases hs
    exact ⟨hi, hk.owned⟩

/-! ### Exclusive runs -/

/-- With the first claims of the published predictions still in place. -/
structure Claimed (s : State) : Prop where
  exclusive : Exclusive s
  claims : ∀ p ∈ s.published, s.app.targets.owner p.1 = some p.2

theorem owner_none_of_free (h : tc.Free id) : tc.owner id = none := by
  unfold TargetCoordinator.owner
  rcases hr : tc.get id with _ | r
  · rfl
  · simp [h r hr]

theorem step_claimed (hk : Kept persistent s) (hc : Claimed s) (hok : ClaimsFirst persistent s e)
    (hs : step persistent s e = some t) : Claimed t := by
  cases e with
  | outside tx =>
    obtain ⟨-, rfl⟩ := outside_cases hs
    exact ⟨⟨hc.exclusive.published, hc.exclusive.released⟩, hc.claims⟩
  | response resp now f =>
    rcases response_cases hk hs with ⟨-, htargets, -, hpub, hrel⟩ | ⟨hatt, -, htargets, -, hpub, hrel⟩ |
      ⟨hatt, hno, htargets, -, hpub, hrel⟩
    · refine ⟨⟨?_, ?_⟩, ?_⟩
      · rw [hpub]
        exact hc.exclusive.published
      · rw [hrel]
        exact hc.exclusive.released
      · rw [hpub, htargets]
        exact hc.claims
    · -- The new prediction owns its round now, so its log is told by the owners.
      have hclaims : ∀ p ∈ t.published, t.app.targets.owner p.1 = some p.2 := by
        have hown : t.app.targets.owner resp.targetRoundId = some resp.predictionId := by
          rw [htargets]
          rcases hok hatt with hfree | ⟨hown, -⟩
          · exact claimed_owner_of_free hfree
          · exact claimed_owner_of_owner hown
        intro p hp
        rw [hpub] at hp
        rcases List.mem_append.mp hp with hp | hp
        · by_cases hid : p.1 = resp.targetRoundId
          · have hold := hc.claims p hp
            rw [hid] at hold ⊢
            rcases hok hatt with hfree | ⟨hown', -⟩
            · rw [owner_none_of_free hfree] at hold
              cases hold
            · rw [hown, ← hown', hold]
          · rw [htargets, claimed_owner_ne hid]
            exact hc.claims p hp
        · rw [List.mem_singleton.mp hp]
          exact hown
      refine ⟨⟨fun p hp q hq hpq => ?_, ?_⟩, hclaims⟩
      · have hp' := hclaims p hp
        rw [hpq, hclaims q hq] at hp'
        exact (Option.some.inj hp').symm
      · rw [hrel]
        exact hc.exclusive.released
    · obtain hfree : s.app.targets.Free resp.targetRoundId := (hok hatt).resolve_right fun h => hno h.2
      refine ⟨⟨?_, ?_⟩, ?_⟩
      · rw [hpub]
        exact hc.exclusive.published
      · intro r hr owner ho
        rw [hrel] at hr
        rcases List.mem_append.mp hr with hr | hr
        · exact hc.exclusive.released r hr owner ho
        · rw [List.mem_singleton.mp hr, claimed_owner_of_free hfree] at ho
          rw [List.mem_singleton.mp hr]
          exact (Option.some.inj ho).symm
      · intro p hp
        rw [hpub] at hp
        by_cases hid : p.1 = resp.targetRoundId
        · have hold := hc.claims p hp
          rw [hid, owner_none_of_free hfree] at hold
          cases hold
        · rw [htargets, released_owner_ne hid]
          exact hc.claims p hp

/-- A run of the handler that neither finds its round free nor owns it breaks the exclusion. -/
theorem freeOrOwn_of_exclusive (hk : Kept persistent s) (hs : step persistent s e = some t) (ht : Exclusive t) :
    FreeOrOwn s e := by
  cases e with
  | outside tx => trivial
  | response resp now f =>
    intro hatt
    rcases hk.owned resp.targetRoundId with hfree | ⟨q, hq, hmem⟩
    · exact Or.inl hfree
    refine Or.inr (hq.trans (congrArg some ?_))
    rcases response_cases hk hs with ⟨hno, -⟩ | ⟨-, -, -, -, hpub, -⟩ | ⟨-, -, -, -, -, hrel⟩
    · exact absurd hatt hno
    · have hold : (resp.targetRoundId, q) ∈ t.published := hpub ▸ List.mem_append_left _ hmem
      have hnew : (resp.targetRoundId, resp.predictionId) ∈ t.published :=
        hpub ▸ List.mem_append_right _ (List.mem_singleton_self _)
      exact ht.published _ hold _ hnew rfl
    · have hmem' : ⟨resp.targetRoundId, (claimed s.app resp now).owner resp.targetRoundId, resp.predictionId⟩ ∈
          t.released := hrel ▸ List.mem_append_right _ (List.mem_singleton_self _)
      exact ht.released _ hmem' q (claimed_owner_of_owner hq)

/-! ### Runs -/

theorem kept_initial {durableTx : DurablePredictionTx} (hi : Installed persistent durableTx) :
    Kept persistent (initial durableTx) := ⟨hi, fun _ => Or.inl fun _ h => by cases h⟩

/-- Every run of responses whose steps meet the condition is exclusive, whatever happens to the outbox and the
    database between them; and in a run that is exclusive every round is free, or owned by the very prediction. -/
theorem exclusive_along (persistent : Bool) (durableTx : DurablePredictionTx) (hi : Installed persistent durableTx)
    (events : List Event) :
    (Meets (step persistent) (ClaimsFirst persistent) (initial durableTx) events →
      Along (step persistent) Exclusive (initial durableTx) events) ∧
    (run (step persistent) (initial durableTx) events ≠ none →
      Along (step persistent) Exclusive (initial durableTx) events →
        Meets (step persistent) FreeOrOwn (initial durableTx) events) := by
  have hclaimed : Claimed (initial durableTx) := ⟨⟨nofun, nofun⟩, nofun⟩
  constructor
  · exact Meets.along (I := fun s => Kept persistent s ∧ Claimed s) (fun _ hs => hs.2.exclusive)
      (fun _ _ _ hs hok ht => ⟨step_kept hs.1 ht, step_claimed hs.1 hs.2 hok ht⟩) ⟨kept_initial hi, hclaimed⟩
  · exact Along.meets (fun _ _ _ h _ hs => step_kept h hs) (fun _ _ _ => freeOrOwn_of_exclusive) (kept_initial hi)

/-- In memory only, with an empty outbox. -/
def inMemory : DurablePredictionTx := { db := .absent, handoff := some { outbox := .new 8 } }

/-- A response that enters the round. -/
def entering (predictionId : PredictionId) (targetRoundId : RoundId) : Event :=
  .response { predictionId, targetRoundId, decision := .enter, confidence := 1, valid := true } 5 {}

/-- Two rounds with a prediction each. -/
theorem exclusive_along_twoRounds :
    Along (step false) Exclusive (initial inMemory) [entering "p1" "r1", entering "p2" "r2"] := by
  refine (exclusive_along false inMemory (by decide) [entering "p1" "r1", entering "p2" "r2"]).1 ?_
  refine ⟨fun _ => Or.inl (by decide), fun t ht => ⟨fun _ => Or.inl ?_, fun u _ => trivial⟩⟩
  have hfree : ∀ t, step false (initial inMemory) (entering "p1" "r1") = some t → t.app.targets.Free "r2" := by
    decide
  exact hfree t ht

/-- One round with two predictions: both are published. -/
theorem not_exclusive_twoPredictions :
    ¬Along (step false) Exclusive (initial inMemory) [entering "p1" "r1", entering "p2" "r1"] := by
  intro ha
  obtain ⟨t, ht⟩ := Option.isSome_iff_exists.mp
    (by decide : (run (step false) (initial inMemory) [entering "p1" "r1", entering "p2" "r1"]).isSome = true)
  have hlog : (run (step false) (initial inMemory) [entering "p1" "r1", entering "p2" "r1"]).map (·.published) =
      some [("r1", "p1"), ("r1", "p2")] := by decide
  rw [ht, Option.map_some, Option.some.injEq] at hlog
  have hsame := (ha.last ht).published ("r1", "p1") (by rw [hlog]; decide) ("r1", "p2") (by rw [hlog]; decide) rfl
  exact absurd hsame (by decide)

end ResponseRuns

/-! ### Another try

When a response whose publication failed can be handled again. The handler gives back the claim of the target but not
the registration, so the second run is refused as a duplicate. -/

namespace ResponseRuns
open Application DurablePredictionTx

variable {persistent : Bool} {s t : Application} {tx : DurablePredictionTx} {h h' : DurableHandoff}
  {resp : PredictionResponse} {now now' : TimestampMs} {f f' : Faults} {id : RoundId} {r : TargetRecord}

/-- The pending predictions, the targets and the dedupe sets are as they were; counters aside. -/
structure Restored (s t : Application) : Prop where
  entries : t.registry.entries = s.registry.entries
  byId : t.registry.byId = s.registry.byId
  targets : ∀ id, t.targets.get id = s.targets.get id
  sets : ∀ h, s.durableTx.handoff = some h → ∃ h', t.durableTx.handoff = some h' ∧ SameSets h h'

/-- `tx'` is `tx` once its outbox has room; the database and the queue may have changed. -/
structure RoomAgain (persistent : Bool) (tx tx' : DurablePredictionTx) : Prop where
  installed : Installed persistent tx'
  room : ∀ h, tx.handoff = some h → ∃ h', tx'.handoff = some h' ∧ SameSets h h' ∧ h'.outbox.queue.HasRoom

/-- A run that publishes nothing leaves everything as it was, and the same response is published once the outbox
    has room. -/
def Retryable (persistent : Bool) (s : Application) (resp : PredictionResponse) (now : TimestampMs) (f : Faults) : Prop :=
  let r := handleResponse persistent s resp now f
  r.2 = .unpublished → Restored s r.1 ∧ ∀ tx now' f', RoomAgain persistent r.1.durableTx tx →
    (handleResponse persistent { r.1 with durableTx := tx } resp now' f').2 = .published

/-- The round has a record without any trace of a claim. -/
def Untouched (tc : TargetCoordinator) (id : RoundId) : Prop :=
  ∃ r ∈ tc.get id, r.state = .available ∧ r.predictionId = "" ∧ r.claimedAtMs = 0

/-- A prediction that the handler is to publish is published; or the full registry drops it at once, its round has a
    record without a claim, and its signal is new to the outbox. -/
def PublishesOrForgets (persistent : Bool) (s : Application) (resp : PredictionResponse) (now : TimestampMs) (f : Faults) :
    Prop :=
  let pev := fromResponse resp resp.targetRoundId 0 now
  Attempts s resp now → Publishable persistent s resp now f ∨
    (s.registry.Forgets pev ∧ Untouched s.targets resp.targetRoundId ∧
      ∀ h ∈ s.durableTx.handoff, ¬h.outbox.Knows (signalFromPrediction pev now).dedupeKey)

/-! ### The targets -/

/-- The record after a claim that is given back. -/
theorem released_record :
    ((claimed s resp now).release resp.targetRoundId).1.get resp.targetRoundId =
      some { TargetCoordinator.predicted resp.targetRoundId resp.predictionId now (s.targets.get resp.targetRoundId) with
        state := .available, predictionId := "", claimedAtMs := 0 } := by
  have hget : (claimed s resp now).get resp.targetRoundId = _ := TargetCoordinator.get_predicted
  refine TargetCoordinator.get_release hget (Or.inr ?_)
  unfold TargetCoordinator.predicted
  split
  · rfl
  · split <;> rfl

theorem targets_restored_iff : (∀ id, ((claimed s resp now).release resp.targetRoundId).1.get id = s.targets.get id) ↔
    Untouched s.targets resp.targetRoundId := by
  constructor
  · intro hsame
    exact ⟨_, (hsame _).symm.trans released_record, rfl, rfl, rfl⟩
  · rintro ⟨r, hr, hs, hid, hat⟩ id
    by_cases heq : id = resp.targetRoundId
    · obtain ⟨roundId, state, availableAtMs, claimedAtMs, resolvedAtMs, predictionId⟩ := r
      obtain rfl : state = .available := hs
      obtain rfl : predictionId = "" := hid
      obtain rfl : claimedAtMs = 0 := hat
      rw [Option.mem_def] at hr
      rw [heq, released_record, hr]
      rfl
    · rw [TargetCoordinator.get_release_ne heq, claimed, TargetCoordinator.get_predicted_ne heq]

/-! ### The second run -/

theorem attempts_congr (hentries : t.registry.entries = s.registry.entries) :
    Attempts t resp now' ↔ Attempts s resp now := by
  unfold Attempts PredictionRegistry.Accepts PredictionRegistry.Lists
  rw [hentries]
  exact Iff.rfl

theorem SameSets.knows (hs : SameSets h h') (key : String) : h'.outbox.Knows key ↔ h.outbox.Knows key := by
  unfold Outbox.Knows
  rw [hs.pending, hs.delivered]

theorem SameSets.trans {h'' : DurableHandoff} (h₁ : SameSets h h') (h₂ : SameSets h' h'') : SameSets h h'' :=
  ⟨h₂.pending.trans h₁.pending, h₂.delivered.trans h₁.delivered, h₂.published.trans h₁.published⟩

/-- The handoff with an empty queue in its outbox. -/
def emptied (tx : DurablePredictionTx) : DurablePredictionTx :=
  { tx with handoff := tx.handoff.map fun h => { h with outbox := { h.outbox with queue := .new 1 } } }

theorem emptied_roomAgain (hi : Installed persistent tx) : RoomAgain persistent tx (emptied tx) := by
  refine ⟨⟨?_, hi.db, hi.repo⟩, fun h hh => ⟨_, congrArg (Option.map _) hh, ⟨rfl, rfl, rfl⟩, ?_⟩⟩
  · obtain ⟨h, hh⟩ := hi.get
    simp [emptied, hh]
  · show (OutboxQueue.new 1).HasRoom
    decide

/-- No statement of a transaction that fails at its first one commits. -/
def failing : Faults := { prediction := some "" }

theorem not_commits_failing {pev : PredictionEvent} {c : Connection Tables} : ¬Commits pev now c failing :=
  fun h => Option.some_ne_none _ h.1.1

theorem published_of_publishable (hi : Installed persistent s.durableTx) (ha : Attempts s resp now)
    (hp : Publishable persistent s resp now f) : (handleResponse persistent s resp now f).2 = .published := by
  rcases handleResponse_cases resp now f hi with ⟨hno, -⟩ | ⟨-, -, hend, -⟩ | ⟨-, hno, -⟩
  · exact absurd ha hno
  · exact hend
  · exact absurd hp hno

theorem publishable_of_published (hi : Installed persistent s.durableTx)
    (hend : (handleResponse persistent s resp now f).2 = .published) : Publishable persistent s resp now f := by
  rcases handleResponse_cases resp now f hi with ⟨-, -, h | h⟩ | ⟨-, hp, -⟩ | ⟨-, -, h, -⟩
  · rw [hend] at h
    cases h
  · rw [hend] at h
    cases h
  · exact hp
  · rw [hend] at h
    cases h

/-- For every state and every response the run can be repeated exactly under the condition. -/
theorem retryable_iff (persistent : Bool) (s : Application) (resp : PredictionResponse) (now : TimestampMs) (f : Faults)
    (hi : Installed persistent s.durableTx) :
    Retryable persistent s resp now f ↔ PublishesOrForgets persistent s resp now f := by
  unfold Retryable PublishesOrForgets
  dsimp only
  obtain ⟨h, hh⟩ := hi.get
  rcases handleResponse_cases resp now f hi with ⟨hno, -, hend⟩ | ⟨-, hpub, hend, -⟩ |
    ⟨hatt, hpub, hend, hleft, htargets, hsets⟩
  · refine ⟨fun _ ha => absurd ha hno, fun _ hun => ?_⟩
    rw [hun] at hend
    simp at hend
  · refine ⟨fun _ _ => Or.inl hpub, fun _ hun => ?_⟩
    rw [hun] at hend
    cases hend
  obtain ⟨h', hh', hsame⟩ := hsets h hh
  have hregistry := PredictionRegistry.registerPrediction_eq_iff hatt.2
  rw [← hleft.registry] at hregistry
  constructor
  · intro hretry _
    obtain ⟨hrest, hagain⟩ := hretry hend
    have huntouched := hrest.targets
    rw [htargets] at huntouched
    refine Or.inr ⟨hregistry.mp ⟨hrest.entries, hrest.byId⟩, targets_restored_iff.mp huntouched, ?_⟩
    · -- With an empty outbox and a transaction that fails, only the outbox can take the signal.
      intro h₁ hh₁
      cases hh.symm.trans hh₁
      have hroom := emptied_roomAgain hleft.installed
      rcases publishable_of_published hroom.installed (hagain _ now failing hroom) with ⟨hp, hcommits⟩ | ⟨h₂, hh₂, hacc⟩
      · subst hp
        obtain ⟨c, hdb, -⟩ := hleft.installed.conn
        exact absurd (hcommits c hdb) not_commits_failing
      · obtain ⟨h₃, hh₃, hsame', -⟩ := hroom.room h' hh'
        cases hh₃.symm.trans hh₂
        exact fun hknows => hacc.1 (((hsame.trans hsame').knows _).mpr hknows)
  · intro hcond _
    obtain ⟨hforgets, huntouched, hnew⟩ := (hcond hatt).resolve_left hpub
    obtain ⟨hentries, hbyId⟩ := hregistry.mpr hforgets
    refine ⟨⟨hentries, hbyId, ?_, hsets⟩, fun tx now' f' hroom => ?_⟩
    · rw [htargets]
      exact targets_restored_iff.mpr huntouched
    · refine published_of_publishable hroom.installed ((attempts_congr hentries).mpr hatt) (Or.inr ?_)
      obtain ⟨h₂, hh₂, hsame', hfits⟩ := hroom.room h' hh'
      exact ⟨h₂, hh₂, fun hknows => hnew h hh (((hsame.trans hsame').knows _).mp hknows), hfits⟩

/-- Unless the registry has dropped it, a prediction that was not published is never published: the same response
    is refused whatever becomes of the outbox and the database. -/
theorem refused_after_unpublished (hi : Installed persistent s.durableTx)
    (hend : (handleResponse persistent s resp now f).2 = .unpublished)
    (hkept : resp.predictionId ∉ (s.registry.add (fromResponse resp resp.targetRoundId 0 now)).surplus)
    (tx : DurablePredictionTx) (now' : TimestampMs) (f' : Faults) :
    (handleResponse persistent { (handleResponse persistent s resp now f).1 with durableTx := tx } resp now' f').2 =
      .refused := by
  obtain ⟨hatt, hleft⟩ : Attempts s resp now ∧ Left persistent s resp now (handleResponse persistent s resp now f).1 := by
    rcases handleResponse_cases resp now f hi with ⟨-, -, h | h⟩ | ⟨-, -, h, -⟩ | ⟨hatt, -, -, hleft, -⟩
    · exact absurd (hend.symm.trans h) (by decide)
    · exact absurd (hend.symm.trans h) (by decide)
    · exact absurd (hend.symm.trans h) (by decide)
    · exact ⟨hatt, hleft⟩
  generalize hpev : fromResponse resp resp.targetRoundId 0 now = pev at hkept
  have hentry : pev ∈ (handleResponse persistent s resp now f).1.registry.entries := by
    have hid : pev.predictionId = resp.predictionId := hpev ▸ rfl
    rw [hleft.registry, hpev, PredictionRegistry.registerPrediction_of_accepts (hpev ▸ hatt.2),
      (PredictionRegistry.foldl_drop _ _).2]
    refine List.mem_filter.mpr ⟨List.mem_append_right _ (List.mem_singleton_self pev), decide_eq_true fun h => ?_⟩
    exact hkept (hid ▸ h.1)
  have hlists : (handleResponse persistent s resp now f).1.registry.Lists (fromResponse resp resp.targetRoundId 0 now') :=
    ⟨pev, hentry, hpev ▸ rfl, hpev ▸ rfl⟩
  have hround : (fromResponse resp resp.targetRoundId 0 now').targetRoundId ≠ "" := hatt.2.1
  generalize (handleResponse persistent s resp now f).1 = t at hlists
  simp only [handleResponse, hatt.1, not_true_eq_false, ↓reduceIte, PredictionRegistry.registerPrediction, hround, hlists]

/-- In memory only, with an outbox that is full with one signal. -/
def fullOutbox : Application :=
  { durableTx := { db := .absent, handoff := some { outbox := ((Outbox.new 1).publish { predictionId := "p0" } 1).1 } } }

def enteringResponse : PredictionResponse :=
  { predictionId := "p1", targetRoundId := "r1", decision := .enter, confidence := 1, valid := true }

/-- A run that publishes. -/
theorem retryable_published : Retryable false { durableTx := emptied fullOutbox.durableTx } enteringResponse 5 {} :=
  (retryable_iff false _ _ 5 {} (by decide)).mpr fun _ => Or.inl (Or.inr ⟨_, rfl, by decide⟩)

/-- The outbox is full; once it has room, the same response is refused. -/
theorem not_retryable_fullOutbox : ¬Retryable false fullOutbox enteringResponse 5 {} := by
  intro h
  have hagain := (h (by decide)).2 _ 6 {} (emptied_roomAgain (by decide))
  exact absurd hagain (by decide)

end ResponseRuns
end CrashCore
