import CrashCore.Delivery.DurablePredictionTx

/-! When `persistPrediction` is all or nothing for a single caller. Two things stand in its way: the insert into
`target_claims` does nothing when another prediction owns the round, and a BEGIN that fails leaves every
statement to commit by itself. -/

namespace CrashCore
namespace DurablePredictionTx
open Connection Tables

variable {s : DurablePredictionTx} {pev : PredictionEvent} {sig : Signal} {now : TimestampMs} {f : Faults}
  {d d₁ : Tables} {c : Connection Tables} {repo : OutboxRepository} {roundId : RoundId}

/-- The three rows are there, and the target round is owned by this very prediction. -/
structure Persisted (pev : PredictionEvent) (d : Tables) : Prop where
  prediction : d.predictions.Has pev.predictionId
  notification : d.notifications.Has (notificationKey pev.predictionId)
  claim : d.claimant pev.targetRoundId = some pev.predictionId

/-- What a call on PostgreSQL may leave behind: all three rows, or everything as it was. -/
structure AllOrNothing (s : DurablePredictionTx) (pev : PredictionEvent)
    (r : DurablePredictionTx × DurablePersistResult) : Prop where
  all : r.2.ok = true → r.2.durable = true → ∃ d ∈ r.1.db.committed, Persisted pev d
  nothing : r.2.ok = false →
    r.1.db.committed = s.db.committed ∧ r.1.handoff = s.handoff ∧ r.1.memory = s.memory

/-! ### The condition -/

/-- No other prediction owns the target round. -/
def SlotFree (pev : PredictionEvent) (d : Tables) : Prop :=
  ∀ owner ∈ d.claimant pev.targetRoundId, owner = pev.predictionId

instance : Decidable (SlotFree pev d) :=
  inferInstanceAs (Decidable (∀ owner ∈ d.claimant pev.targetRoundId, owner = pev.predictionId))

/-- The insert into `predictions` succeeds. -/
def PredictionAccepted (pev : PredictionEvent) (now : TimestampMs) (d : Tables) (f : Faults) : Prop :=
  f.prediction = none ∧ ∃ d₁, insertPrediction (predictionRow pev now) d = .ok d₁

instance : Decidable (PredictionAccepted pev now d f) :=
  match h : insertPrediction (predictionRow pev now) d with
  | .ok d₁ => decidable_of_iff (f.prediction = none) ⟨fun hf => ⟨hf, d₁, h⟩, fun hf => hf.1⟩
  | .error _ => .isFalse fun ⟨_, _, hd⟩ => by rw [h] at hd; cases hd

/-- It would change nothing. -/
def PredictionThere (pev : PredictionEvent) (now : TimestampMs) (d : Tables) : Prop :=
  insertPrediction (predictionRow pev now) d = .ok d

/-- * In a transaction: if every statement succeeds, no other prediction owns the round.
    * After a failed BEGIN on an idle connection: the statements before the first failure find their rows in
      place, and if there is no further failure no other prediction owns the round.
    * In an aborted transaction: always. -/
def Tight (pev : PredictionEvent) (now : TimestampMs) (c : Connection Tables) (f : Faults) : Prop :=
  match c.tx, f.beginTx with
  | .idle, none =>
    PredictionAccepted pev now c.committed f → f.targetClaim = none → f.notification = none → f.commit = none →
      SlotFree pev c.committed
  | .idle, some _ =>
    PredictionAccepted pev now c.committed f →
      if f.targetClaim ≠ none then PredictionThere pev now c.committed
      else if f.notification ≠ none ∧ f.notificationAgain ≠ none then
        PredictionThere pev now c.committed ∧ c.committed.targetClaims.Has pev.targetRoundId
      else if f.commit ≠ none then
        PredictionThere pev now c.committed ∧ c.committed.targetClaims.Has pev.targetRoundId ∧
          c.committed.notifications.Has (notificationKey pev.predictionId)
      else SlotFree pev c.committed
  | _, _ => True

/-- Every statement from BEGIN to COMMIT succeeds; after a BEGIN that failed one of the two enqueues is
    enough. -/
def Commits (pev : PredictionEvent) (now : TimestampMs) (c : Connection Tables) (f : Faults) : Prop :=
  PredictionAccepted pev now c.committed f ∧ f.targetClaim = none ∧ f.commit = none ∧
    match c.tx, f.beginTx with
    | .idle, none => f.notification = none
    | .idle, some _ => ¬(f.notification ≠ none ∧ f.notificationAgain ≠ none)
    | _, _ => False

instance : Decidable (Commits pev now c f) :=
  have : Decidable (match c.tx, f.beginTx with
      | .idle, none => f.notification = none
      | .idle, some _ => ¬(f.notification ≠ none ∧ f.notificationAgain ≠ none)
      | _, _ => False) :=
    match c.tx, f.beginTx with
    | .idle, none => inferInstanceAs (Decidable (f.notification = none))
    | .idle, some _ => inferInstanceAs (Decidable (¬(f.notification ≠ none ∧ f.notificationAgain ≠ none)))
    | .inTx _, _ => .isFalse id
    | .aborted, _ => .isFalse id
  inferInstanceAs (Decidable (_ ∧ _ ∧ _ ∧ _))

/-! ### The rows that the statements write -/

def withClaim (pev : PredictionEvent) (now : TimestampMs) (d : Tables) : Tables :=
  { d with targetClaims := d.targetClaims.insertIfAbsent (targetClaimRow pev now) }

def withNotification (pev : PredictionEvent) (sig : Signal) (now : TimestampMs) (roundId : RoundId) (d : Tables) :
    Tables :=
  let row := OutboxRepository.notification (outboxRow pev sig now) roundId now
  { d with notifications := d.notifications.insertIfAbsent { row with id := d.nextNotificationId } }

/-- All three rows, after the insert into `predictions` made `d₁`. -/
def withRows (pev : PredictionEvent) (sig : Signal) (now : TimestampMs) (roundId : RoundId) (d₁ : Tables) : Tables :=
  withNotification pev sig now roundId (withClaim pev now d₁)

theorem insertTargetClaim_eq : insertTargetClaim (targetClaimRow pev now) d = .ok (withClaim pev now d) := rfl

theorem insertNotification_eq : insertNotification (OutboxRepository.notification (outboxRow pev sig now) roundId now) d =
    .ok (withNotification pev sig now roundId d) := rfl

/-- After all three inserts everything is persisted but, perhaps, the ownership of the round. -/
theorem persisted_withRows (h : insertPrediction (predictionRow pev now) d = .ok d₁) :
    Persisted pev (withRows pev sig now roundId d₁) ↔ SlotFree pev d := by
  obtain ⟨hpred, hclaims, -, -⟩ := insertPrediction_ok h
  have hhas : (withRows pev sig now roundId d₁).predictions.Has pev.predictionId := by
    show d₁.predictions.Has pev.predictionId
    rw [hpred]
    exact upsertPrediction_has d.predictions (predictionRow pev now)
  have howner : (withRows pev sig now roundId d₁).claimant pev.targetRoundId =
      some ((d.claimant pev.targetRoundId).getD pev.predictionId) := by
    rw [show d.claimant pev.targetRoundId = d₁.claimant pev.targetRoundId by rw [claimant, claimant, hclaims]]
    exact claimant_insertTargetClaim insertTargetClaim_eq
  constructor
  · rintro ⟨-, -, hclaim⟩ owner hown
    rw [howner, show d.claimant pev.targetRoundId = some owner from hown] at hclaim
    exact Option.some.inj hclaim
  · intro hfree
    refine ⟨hhas, Table.insertIfAbsent_has, ?_⟩
    rw [howner]
    rcases hown : d.claimant pev.targetRoundId with _ | owner
    · rfl
    · rw [Option.getD_some, hfree owner hown]

/-- The claim changes nothing exactly if the prediction did not and the round is owned. -/
theorem withClaim_eq_iff (h : insertPrediction (predictionRow pev now) d = .ok d₁) :
    withClaim pev now d₁ = d ↔ d₁ = d ∧ d.targetClaims.Has pev.targetRoundId := by
  obtain ⟨-, hclaims, hnotifs, houtcomes⟩ := insertPrediction_ok h
  constructor
  · intro heq
    obtain ⟨hpred, hsame, -, -⟩ := Tables.ext_iff.mp heq
    rw [withClaim, hclaims] at hsame
    exact ⟨Tables.ext hpred hclaims hnotifs houtcomes, Table.insertIfAbsent_eq_self.mp hsame⟩
  · rintro ⟨rfl, hhas⟩
    exact Tables.ext rfl (Table.insertIfAbsent_eq_self.mpr hhas) rfl rfl

theorem withRows_eq_iff (h : insertPrediction (predictionRow pev now) d = .ok d₁) :
    withRows pev sig now roundId d₁ = d ↔
      d₁ = d ∧ d.targetClaims.Has pev.targetRoundId ∧ d.notifications.Has (notificationKey pev.predictionId) := by
  obtain ⟨-, -, hnotifs, -⟩ := insertPrediction_ok h
  constructor
  · intro heq
    obtain ⟨hpred, hclaims, -, houtcomes⟩ := Tables.ext_iff.mp heq
    have hclaim : withClaim pev now d₁ = d := Tables.ext hpred hclaims hnotifs houtcomes
    obtain ⟨hd, hhas⟩ := (withClaim_eq_iff h).mp hclaim
    refine ⟨hd, hhas, ?_⟩
    rw [← heq]
    exact Table.insertIfAbsent_has
  · rintro ⟨hd, hhas, hkey⟩
    have hclaim := (withClaim_eq_iff h).mpr ⟨hd, hhas⟩
    rw [withRows, hclaim]
    exact Tables.ext rfl rfl (Table.insertIfAbsent_of_has hkey) rfl

/-! ### The transaction -/

/-- In an aborted transaction the call fails at its first statement. -/
theorem persistRows_aborted (repo : OutboxRepository) (d : Tables) (pev : PredictionEvent) (sig : Signal)
    (now : TimestampMs) (f : Faults) :
    ∃ m, (persistRows repo ⟨d, .aborted⟩ pev sig now f).2.2 = .error m ∧
      (persistRows repo ⟨d, .aborted⟩ pev sig now f).2.1.committed = d := by
  simp only [persistRows, beginTx_aborted, exec_aborted]
  exact ⟨_, rfl, rollback_committed⟩

/-- In a transaction the rows are committed together, or none of them. -/
theorem persistRows_inTx (repo : OutboxRepository) (d : Tables) (pev : PredictionEvent) (sig : Signal)
    (now : TimestampMs) (hb : f.beginTx = none) :
    (∃ d₁, insertPrediction (predictionRow pev now) d = .ok d₁ ∧ f.prediction = none ∧ f.targetClaim = none ∧
      f.notification = none ∧ f.commit = none ∧ (persistRows repo ⟨d, .idle⟩ pev sig now f).2.2 = .ok () ∧
      (persistRows repo ⟨d, .idle⟩ pev sig now f).2.1.committed = withRows pev sig now pev.targetRoundId d₁) ∨
    (¬(PredictionAccepted pev now d f ∧ f.targetClaim = none ∧ f.notification = none ∧ f.commit = none) ∧
      (∃ m, (persistRows repo ⟨d, .idle⟩ pev sig now f).2.2 = .error m) ∧
      (persistRows repo ⟨d, .idle⟩ pev sig now f).2.1.committed = d) := by
  rcases h₁ : attempt (insertPrediction (predictionRow pev now)) f.prediction d with m | d₁
  · refine Or.inr ⟨fun ⟨⟨hf, d₁, hd₁⟩, _⟩ => ?_, ?_⟩
    · rw [hf, attempt_none, hd₁] at h₁
      cases h₁
    · simp only [persistRows, hb, beginTx_idle, exec_inTx_error h₁]
      exact ⟨⟨_, rfl⟩, rollback_committed⟩
  obtain ⟨hf₁, hd₁⟩ := attempt_eq_ok.mp h₁
  rcases hf₂ : f.targetClaim with _ | m
  · have h₂ : attempt (insertTargetClaim (targetClaimRow pev now)) f.targetClaim d₁ = .ok (withClaim pev now d₁) := by
      rw [hf₂]
      rfl
    rcases hf₃ : f.notification with _ | m
    · have h₃ : attempt (insertNotification (OutboxRepository.notification (outboxRow pev sig now)
          pev.targetRoundId now)) f.notification (withClaim pev now d₁) =
          .ok (withRows pev sig now pev.targetRoundId d₁) := by
        rw [hf₃]
        rfl
      rcases hf₄ : f.commit with _ | m
      · refine Or.inl ⟨d₁, hd₁, hf₁, rfl, rfl, rfl, ?_, ?_⟩ <;>
          simp only [persistRows, hb, beginTx_idle, exec_inTx_ok h₁, exec_inTx_ok h₂, enqueueOrRetry,
            OutboxRepository.enqueueWithRound, exec_inTx_ok h₃, hf₄, commit_inTx]
      · refine Or.inr ⟨fun h => by simp at h, ?_⟩
        simp only [persistRows, hb, beginTx_idle, exec_inTx_ok h₁, exec_inTx_ok h₂, enqueueOrRetry,
          OutboxRepository.enqueueWithRound, exec_inTx_ok h₃, hf₄, commit_inTx_fault]
        exact ⟨⟨_, rfl⟩, trivial⟩
    · -- The failed enqueue aborts the transaction, so the retry fails too.
      have h₃ : attempt (insertNotification (OutboxRepository.notification (outboxRow pev sig now)
          pev.targetRoundId now)) f.notification (withClaim pev now d₁) = .error m := by
        rw [hf₃]
        rfl
      refine Or.inr ⟨fun h => by simp at h, ?_⟩
      simp only [persistRows, hb, beginTx_idle, exec_inTx_ok h₁, exec_inTx_ok h₂, enqueueOrRetry,
        OutboxRepository.enqueue, OutboxRepository.enqueueWithRound, exec_inTx_error h₃, exec_aborted]
      exact ⟨⟨_, rfl⟩, rollback_committed⟩
  · have h₂ : attempt (insertTargetClaim (targetClaimRow pev now)) f.targetClaim d₁ = .error m := by
      rw [hf₂]
      rfl
    refine Or.inr ⟨fun h => by simp at h, ?_⟩
    simp only [persistRows, hb, beginTx_idle, exec_inTx_ok h₁, exec_inTx_error h₂]
    exact ⟨⟨_, rfl⟩, rollback_committed⟩

/-- Outside a transaction, with the enqueue that succeeds: the one with the round, or the one without it. -/
theorem enqueueOrRetry_idle (repo : OutboxRepository) (d : Tables) (pev : PredictionEvent) (sig : Signal)
    (now : TimestampMs) (f : Faults) :
    (f.notification ≠ none ∧ f.notificationAgain ≠ none ∧
        ∃ m, enqueueOrRetry repo ⟨d, .idle⟩ pev sig now f = (repo, ⟨d, .idle⟩, .error m)) ∨
      (¬(f.notification ≠ none ∧ f.notificationAgain ≠ none) ∧ ∃ repo' roundId,
        enqueueOrRetry repo ⟨d, .idle⟩ pev sig now f =
          (repo', ⟨withNotification pev sig now roundId d, .idle⟩, .ok ())) := by
  rcases hf : f.notification with _ | m
  · refine Or.inr ⟨fun h => h.1 rfl, { repo with enqueued := repo.enqueued + 1 }, pev.targetRoundId, ?_⟩
    simp only [enqueueOrRetry, OutboxRepository.enqueueWithRound, hf,
      exec_idle_ok (attempt_eq_ok.mpr ⟨rfl, insertNotification_eq⟩)]
  · rcases hf' : f.notificationAgain with _ | m'
    · refine Or.inr ⟨fun h => h.2 rfl, { repo with enqueued := repo.enqueued + 1 }, "", ?_⟩
      simp only [enqueueOrRetry, OutboxRepository.enqueue, OutboxRepository.enqueueWithRound, hf, hf',
        exec_idle_error attempt_some, exec_idle_ok (attempt_eq_ok.mpr ⟨rfl, insertNotification_eq⟩)]
    · refine Or.inl ⟨Option.some_ne_none m, Option.some_ne_none m', m', ?_⟩
      simp only [enqueueOrRetry, OutboxRepository.enqueue, OutboxRepository.enqueueWithRound, hf, hf',
        exec_idle_error attempt_some]

/-- After a failed BEGIN every statement commits by itself: what ran before the first failure stays. -/
theorem persistRows_autocommit (repo : OutboxRepository) (d : Tables) (pev : PredictionEvent) (sig : Signal)
    (now : TimestampMs) {m₀ : String} (hb : f.beginTx = some m₀) :
    (¬PredictionAccepted pev now d f ∧ (∃ m, (persistRows repo ⟨d, .idle⟩ pev sig now f).2.2 = .error m) ∧
      (persistRows repo ⟨d, .idle⟩ pev sig now f).2.1.committed = d) ∨
    ∃ d₁, insertPrediction (predictionRow pev now) d = .ok d₁ ∧ f.prediction = none ∧
      ((f.targetClaim ≠ none ∧ (∃ m, (persistRows repo ⟨d, .idle⟩ pev sig now f).2.2 = .error m) ∧
          (persistRows repo ⟨d, .idle⟩ pev sig now f).2.1.committed = d₁) ∨
        (f.targetClaim = none ∧ (f.notification ≠ none ∧ f.notificationAgain ≠ none) ∧
          (∃ m, (persistRows repo ⟨d, .idle⟩ pev sig now f).2.2 = .error m) ∧
          (persistRows repo ⟨d, .idle⟩ pev sig now f).2.1.committed = withClaim pev now d₁) ∨
        (f.targetClaim = none ∧ ¬(f.notification ≠ none ∧ f.notificationAgain ≠ none) ∧ f.commit ≠ none ∧
          (∃ m, (persistRows repo ⟨d, .idle⟩ pev sig now f).2.2 = .error m) ∧
          ∃ roundId, (persistRows repo ⟨d, .idle⟩ pev sig now f).2.1.committed = withRows pev sig now roundId d₁) ∨
        (f.targetClaim = none ∧ ¬(f.notification ≠ none ∧ f.notificationAgain ≠ none) ∧ f.commit = none ∧
          (persistRows repo ⟨d, .idle⟩ pev sig now f).2.2 = .ok () ∧
          ∃ roundId, (persistRows repo ⟨d, .idle⟩ pev sig now f).2.1.committed = withRows pev sig now roundId d₁)) := by
  rcases h₁ : attempt (insertPrediction (predictionRow pev now)) f.prediction d with m | d₁
  · refine Or.inl ⟨fun ⟨hf, d₁, hd₁⟩ => ?_, ?_⟩
    · rw [hf, attempt_none, hd₁] at h₁
      cases h₁
    · simp only [persistRows, hb, beginTx_idle_fault, exec_idle_error h₁]
      exact ⟨⟨_, rfl⟩, rollback_committed⟩
  obtain ⟨hf₁, hd₁⟩ := attempt_eq_ok.mp h₁
  refine Or.inr ⟨d₁, hd₁, hf₁, ?_⟩
  rcases hf₂ : f.targetClaim with _ | m
  · have h₂ : attempt (insertTargetClaim (targetClaimRow pev now)) f.targetClaim d₁ = .ok (withClaim pev now d₁) := by
      rw [hf₂]
      rfl
    refine Or.inr ?_
    rcases enqueueOrRetry_idle repo (withClaim pev now d₁) pev sig now f with ⟨hn, hn', m, he⟩ | ⟨hn, repo', roundId, he⟩
    · refine Or.inl ⟨rfl, ⟨hn, hn'⟩, ?_⟩
      simp only [persistRows, hb, beginTx_idle_fault, exec_idle_ok h₁, exec_idle_ok h₂, he]
      exact ⟨⟨_, rfl⟩, rollback_committed⟩
    · have he : enqueueOrRetry repo ⟨withClaim pev now d₁, .idle⟩ pev sig now f =
          (repo', ⟨withRows pev sig now roundId d₁, .idle⟩, .ok ()) := he
      refine Or.inr ?_
      rcases hf₅ : f.commit with _ | m
      · refine Or.inr ⟨rfl, hn, rfl, ?_, roundId, ?_⟩ <;>
          simp only [persistRows, hb, beginTx_idle_fault, exec_idle_ok h₁, exec_idle_ok h₂, he, hf₅, commit_idle]
      · refine Or.inl ⟨rfl, hn, Option.some_ne_none m, ?_⟩
        simp only [persistRows, hb, beginTx_idle_fault, exec_idle_ok h₁, exec_idle_ok h₂, he, hf₅, commit_idle_fault]
        exact ⟨⟨_, rfl⟩, roundId, rfl⟩
  · have h₂ : attempt (insertTargetClaim (targetClaimRow pev now)) f.targetClaim d₁ = .error m := by
      rw [hf₂]
      rfl
    refine Or.inl ⟨Option.some_ne_none m, ?_⟩
    simp only [persistRows, hb, beginTx_idle_fault, exec_idle_ok h₁, exec_idle_error h₂]
    exact ⟨⟨_, rfl⟩, rollback_committed⟩

/-- No transaction stays open. -/
theorem persistRows_closed : (persistRows repo c pev sig now f).2.1.Closed := by
  unfold persistRows
  dsimp only
  split
  · exact rollback_closed
  · split
    · exact rollback_closed
    · split
      · exact rollback_closed
      · split <;> rename_i hc <;> rw [show _ = (Connection.commit _ f.commit).1 from (congrArg Prod.fst hc).symm] <;>
          exact commit_closed

/-- The rows are committed and the call succeeds, or it fails, exactly under the condition. -/
theorem persistRows_commits (repo : OutboxRepository) (pev : PredictionEvent) (sig : Signal) (now : TimestampMs)
    (f : Faults) (hc : c.Closed) :
    (Commits pev now c f ∧ (persistRows repo c pev sig now f).2.2 = .ok () ∧
      (Persisted pev (persistRows repo c pev sig now f).2.1.committed ↔ SlotFree pev c.committed)) ∨
    (¬Commits pev now c f ∧ ∃ m, (persistRows repo c pev sig now f).2.2 = .error m) := by
  obtain ⟨d, tx⟩ := c
  rcases hc.cases with heq | heq <;> cases heq
  · rcases hb : f.beginTx with _ | m₀
    · have hiff : Commits pev now ⟨d, .idle⟩ f ↔ PredictionAccepted pev now d f ∧ f.targetClaim = none ∧
          f.commit = none ∧ f.notification = none := by simp only [Commits, hb]
      rw [hiff]
      rcases persistRows_inTx repo d pev sig now hb with
        ⟨d₁, hd₁, hf₁, hf₂, hf₃, hf₄, hok, hcommitted⟩ | ⟨hfail, herr, -⟩
      · refine Or.inl ⟨⟨⟨hf₁, d₁, hd₁⟩, hf₂, hf₄, hf₃⟩, hok, ?_⟩
        rw [hcommitted]
        exact persisted_withRows hd₁
      · exact Or.inr ⟨fun ⟨h₁, h₂, h₄, h₃⟩ => hfail ⟨h₁, h₂, h₃, h₄⟩, herr⟩
    · have hiff : Commits pev now ⟨d, .idle⟩ f ↔ PredictionAccepted pev now d f ∧ f.targetClaim = none ∧
          f.commit = none ∧ ¬(f.notification ≠ none ∧ f.notificationAgain ≠ none) := by simp only [Commits, hb]
      rw [hiff]
      rcases persistRows_autocommit repo d pev sig now hb with ⟨hfail, herr, -⟩ |
        ⟨d₁, hd₁, hf₁, ⟨h₂, herr, -⟩ | ⟨-, h₃, herr, -⟩ | ⟨-, -, h₄, herr, -⟩ | ⟨h₂, h₃, h₄, hok, roundId, hcommitted⟩⟩
      · exact Or.inr ⟨fun h => hfail h.1, herr⟩
      · exact Or.inr ⟨fun h => h₂ h.2.1, herr⟩
      · exact Or.inr ⟨fun h => h.2.2.2 h₃, herr⟩
      · exact Or.inr ⟨fun h => h₄ h.2.2.1, herr⟩
      · refine Or.inl ⟨⟨⟨hf₁, d₁, hd₁⟩, h₂, h₄, h₃⟩, hok, ?_⟩
        rw [hcommitted]
        exact persisted_withRows hd₁
  · obtain ⟨m, herr, -⟩ := persistRows_aborted repo d pev sig now f
    exact Or.inr ⟨fun h => h.2.2.2, m, herr⟩

/-- The notification table stays as it is or gains the pending row of the prediction. -/
theorem persistRows_notifications (repo : OutboxRepository) (pev : PredictionEvent) (sig : Signal)
    (now : TimestampMs) (f : Faults) (hc : c.Closed) :
    (persistRows repo c pev sig now f).2.1.committed.notifications = c.committed.notifications ∨
    ∃ roundId, (persistRows repo c pev sig now f).2.1.committed.notifications =
      c.committed.notifications.insertIfAbsent
        { OutboxRepository.notification (outboxRow pev sig now) roundId now with id := c.committed.nextNotificationId } := by
  obtain ⟨d, tx⟩ := c
  -- The first insert leaves the notifications alone, so the third finds them as they were.
  have hrows : ∀ {d₁ : Tables} {roundId : RoundId}, insertPrediction (predictionRow pev now) d = .ok d₁ →
      (withRows pev sig now roundId d₁).notifications = d.notifications.insertIfAbsent
        { OutboxRepository.notification (outboxRow pev sig now) roundId now with id := d.nextNotificationId } := by
    intro d₁ roundId hd₁
    have hsame : (withClaim pev now d₁).notifications = d.notifications := (insertPrediction_ok hd₁).2.2.1
    simp only [withRows, withNotification, nextNotificationId, hsame]
  rcases hc.cases with heq | heq <;> cases heq
  · rcases hb : f.beginTx with _ | m₀
    · rcases persistRows_inTx repo d pev sig now hb with ⟨d₁, hd₁, -, -, -, -, -, hcommitted⟩ | ⟨-, -, hcommitted⟩
      · exact Or.inr ⟨_, (congrArg Tables.notifications hcommitted).trans (hrows hd₁)⟩
      · exact Or.inl (congrArg Tables.notifications hcommitted)
    · rcases persistRows_autocommit repo d pev sig now hb with ⟨-, -, hcommitted⟩ |
        ⟨d₁, hd₁, -, ⟨-, -, hcommitted⟩ | ⟨-, -, -, hcommitted⟩ | ⟨-, -, -, -, roundId, hcommitted⟩ |
          ⟨-, -, -, -, roundId, hcommitted⟩⟩
      · exact Or.inl (congrArg Tables.notifications hcommitted)
      · exact Or.inl ((congrArg Tables.notifications hcommitted).trans (insertPrediction_ok hd₁).2.2.1)
      · exact Or.inl ((congrArg Tables.notifications hcommitted).trans (insertPrediction_ok hd₁).2.2.1)
      · exact Or.inr ⟨roundId, (congrArg Tables.notifications hcommitted).trans (hrows hd₁)⟩
      · exact Or.inr ⟨roundId, (congrArg Tables.notifications hcommitted).trans (hrows hd₁)⟩
  · obtain ⟨m, -, hcommitted⟩ := persistRows_aborted repo d pev sig now f
    exact Or.inl (congrArg Tables.notifications hcommitted)

/-! ### The call -/

theorem allOrNothing_of_error {m : String} (hdb : s.db = .pg c) (hrepo : s.repo = some repo)
    (h : (persistRows repo c pev sig now f).2.2 = .error m) :
    AllOrNothing s pev (s.persistPrediction pev sig now f) ↔
      (persistRows repo c pev sig now f).2.1.committed = c.committed := by
  rcases hr : persistRows repo c pev sig now f with ⟨repo', c', r⟩
  rw [hr] at h
  obtain rfl : r = .error m := h
  have heq : s.persistPrediction pev sig now f = ({ s with db := .pg c', repo := some repo' }, { error := m }) := by
    simp only [persistPrediction, hdb, hrepo, hr]
  rw [heq]
  constructor
  · intro ha
    have hsame := (ha.nothing rfl).1
    rw [hdb] at hsame
    exact Option.some.inj hsame
  · intro hsame
    refine ⟨fun hok => by simp at hok, fun _ => ⟨?_, rfl, rfl⟩⟩
    rw [hdb]
    exact congrArg some hsame

theorem allOrNothing_of_ok (hdb : s.db = .pg c) (hrepo : s.repo = some repo)
    (h : (persistRows repo c pev sig now f).2.2 = .ok ()) :
    AllOrNothing s pev (s.persistPrediction pev sig now f) ↔
      Persisted pev (persistRows repo c pev sig now f).2.1.committed := by
  rcases hr : persistRows repo c pev sig now f with ⟨repo', c', r⟩
  rw [hr] at h
  obtain rfl : r = .ok () := h
  have hok : (s.persistPrediction pev sig now f).2.ok = true ∧ (s.persistPrediction pev sig now f).2.durable = true := by
    simp only [persistPrediction, hdb, hrepo, hr, and_self]
  have hcommitted : (s.persistPrediction pev sig now f).1.db.committed = some c'.committed := by
    have hkeep := publishMemory_db { s with db := .pg c', repo := some repo' } sig now
    simp only [persistPrediction, hdb, hrepo, hr, hkeep]
    rfl
  constructor
  · intro ha
    obtain ⟨d, hd, hp⟩ := ha.all hok.1 hok.2
    rw [hcommitted] at hd
    cases hd
    exact hp
  · intro hp
    exact ⟨fun _ _ => ⟨c'.committed, hcommitted, hp⟩, fun hn => by rw [hok.1] at hn; cases hn⟩

theorem predictionThere_iff (h : insertPrediction (predictionRow pev now) d = .ok d₁) :
    PredictionThere pev now d ↔ d₁ = d := by
  rw [PredictionThere, h]
  exact Except.ok.injEq d₁ d ▸ Iff.rfl

/-- A database in which `p0` owns the round `r1`. -/
def ownedRound : Tables :=
  { targetClaims := { rows := [⟨"r1", "p0", 0, 120000⟩], nodup := List.nodup_singleton _ }
    openTargets := openTargetsUnique_empty }

def idleOn (d : Tables) : DurablePredictionTx :=
  { db := .pg ⟨d, .idle⟩, repo := some {}, handoff := some { outbox := .new 8 } }

/-- A prediction that enters the round `r1`. -/
def entering (predictionId : PredictionId) : PredictionEvent :=
  { predictionId, targetRoundId := "r1", decision := .enter }

end DurablePredictionTx
end CrashCore
