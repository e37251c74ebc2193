import CrashCore.Library.Run
import CrashCore.Persistence.Repositories

/-! The repositories before their tables: the cache takes every write, the table does not. A cache stays coherent
exactly as long as no upsert under a stored id says something else than the table keeps. -/

namespace CrashCore
open Transition
open Repository (Call)

namespace Repository
variable {ρ κ ε π : Type} {key : ρ → κ} [DecidableEq κ] {repo : Repository key ε} {stmt : Statement (Table key)}
  {table : Table key} {read : ρ → ε} {view : ε → π} {id : κ} {e : ε} {row : ρ}

theorem upsertWith_ok (h : stmt repo.table = .ok table) :
    (repo.upsertWith stmt id e).1 = { toTableCache := repo.put table id e, upserts := repo.upserts + 1 } := by
  rw [upsertWith, h]

theorem upsertWith_error {m : String} (h : stmt repo.table = .error m) : (repo.upsertWith stmt id e).1 = repo := by
  rw [upsertWith, h]

theorem coherent_upsertWith (hs : repo.Coherent read view) (h : stmt repo.table = .ok table)
    (hother : ∀ k, id ≠ k → table.find? k = repo.table.find? k) (hrow : table.find? id = some row) :
    (repo.upsertWith stmt id e).1.Coherent read view ↔ view (read row) = view e := by
  rw [upsertWith_ok h]
  exact TableCache.coherent_put hs hother hrow

end Repository

/-! ### Predictions -/

namespace PredictionRepository
variable {repo repo' : PredictionRepository} {call : Call PredictionEvent PredictionId}

/-- What the cache answers is what a new repository over the same database answers. -/
def Coherent (repo : PredictionRepository) : Prop :=
  ∀ id, repo.cache id ≠ none → (repo.findById id).2.map PredictionEvent.persisted =
    (findById (.fresh repo.table) id).2.map PredictionEvent.persisted

/-- An upsert under a stored id repeats what is stored. -/
def Agrees (repo : PredictionRepository) : Call PredictionEvent PredictionId → Prop
  | .upsert e => ∀ old, repo.table.find? e.predictionId = some old → old.persisted = e.persisted
  | .findById _ => True

theorem coherent_step (hs : Coherent repo) (h : step repo call = some repo') :
    Coherent repo' ↔ Agrees repo call := by
  cases call with
  | findById id =>
    cases h
    exact iff_of_true (TableCache.coherent_get hs id) trivial
  | upsert e =>
    cases h
    by_cases hopen : ¬repo.table.Has e.predictionId ∧ e.decision = .enter ∧
        ∃ r ∈ repo.table.rows, r.decision = .enter ∧ r.targetRoundId = e.targetRoundId
    · have hrefused : insert e repo.table = .error Tables.openTargetMessage := if_pos hopen
      rw [upsert, Repository.upsertWith_error hrefused]
      have hnew : repo.table.find? e.predictionId = none := Table.find?_eq_none.mpr hopen.1
      exact iff_of_true hs fun old hold => nomatch hnew.symm.trans hold
    · have hstored : insert e repo.table = .ok (repo.table.insertIfAbsent e.persisted) := if_neg hopen
      have hother : ∀ k, e.predictionId ≠ k →
          (repo.table.insertIfAbsent e.persisted).find? k = repo.table.find? k :=
        fun k hk => Table.find?_insertIfAbsent_ne hk
      refine (Repository.coherent_upsertWith hs hstored hother
        (Table.find?_insertIfAbsent repo.table e.persisted)).trans ?_
      show (((repo.table.find? e.predictionId).getD e.persisted).persisted).persisted = e.persisted ↔ _
      rcases hfind : repo.table.find? e.predictionId with _ | old
      · exact iff_of_true rfl fun old hold => nomatch hfind.symm.trans hold
      · exact ⟨fun h old' hold => Option.some.inj (hfind.symm.trans hold) ▸ h, fun h => h old hfind⟩

end PredictionRepository

/-! ### Outcomes -/

namespace OutcomeRepository
variable {repo repo' : OutcomeRepository} {call : Call Outcome PredictionId}

/-- What the cache answers is what a new repository over the same database answers. -/
def Coherent (repo : OutcomeRepository) : Prop :=
  ∀ id, repo.cache id ≠ none → (repo.findById id).2 = (findById (fresh repo.table) id).2

/-- The counters are the numbers of stored wins and losses. -/
def Counted (repo : OutcomeRepository) : Prop :=
  repo.wins = repo.table.rows.countP (·.isWin) ∧ repo.losses = repo.table.rows.countP (·.IsLoss)

/-- An upsert under a stored id repeats what is stored, and is neither a win nor a loss. -/
def Agrees (repo : OutcomeRepository) : Call Outcome PredictionId → Prop
  | .upsert o => ∀ old, repo.table.find? o.predictionId = some old → old = o ∧ ¬o.isWin ∧ ¬o.IsLoss
  | .findById _ => True

theorem coherent_iff : Coherent repo ↔ repo.toTableCache.Coherent (fun o => o) id := by
  show (∀ id, repo.cache id ≠ none → _ = _) ↔ ∀ id, repo.cache id ≠ none → _ = _
  simp only [Option.map_id]
  rfl

theorem upsert_eq (repo : OutcomeRepository) (o : Outcome) :
    (repo.upsert o).1 =
      { toTableCache := repo.put (repo.table.insertIfAbsent o) o.predictionId o
        upserts := repo.upserts + 1
        wins := if o.isWin then repo.wins + 1 else repo.wins
        losses := if o.IsLoss then repo.losses + 1 else repo.losses } := rfl

theorem counted_upsert (hs : Counted repo) (o : Outcome) :
    Counted (repo.upsert o).1 ↔ (repo.table.Has o.predictionId → ¬o.isWin ∧ ¬o.IsLoss) := by
  obtain ⟨hwins, hlosses⟩ := hs
  rw [upsert_eq]
  show (if o.isWin then repo.wins + 1 else repo.wins) = (repo.table.insertIfAbsent o).rows.countP _ ∧
      (if o.IsLoss then repo.losses + 1 else repo.losses) = (repo.table.insertIfAbsent o).rows.countP _ ↔ _
  rw [Table.countP_insertIfAbsent, Table.countP_insertIfAbsent, ← hwins, ← hlosses]
  by_cases hhas : repo.table.Has o.predictionId
  · by_cases hwin : o.isWin = true <;> by_cases hloss : o.IsLoss <;> simp [hhas, hwin, hloss]
  · by_cases hwin : o.isWin = true <;> by_cases hloss : o.IsLoss <;> simp [hhas, hwin, hloss]

theorem coherent_upsert (hs : Coherent repo) (o : Outcome) :
    Coherent (repo.upsert o).1 ↔ ∀ old, repo.table.find? o.predictionId = some old → old = o := by
  have hother : ∀ k, o.predictionId ≠ k → (repo.table.insertIfAbsent o).find? k = repo.table.find? k :=
    fun k hk => Table.find?_insertIfAbsent_ne hk
  rw [coherent_iff, upsert_eq]
  refine (TableCache.coherent_put (coherent_iff.mp hs) hother (Table.find?_insertIfAbsent repo.table o)).trans ?_
  show (repo.table.find? o.predictionId).getD o = o ↔ _
  rcases hfind : repo.table.find? o.predictionId with _ | old
  · exact iff_of_true rfl fun old hold => nomatch hold
  · exact ⟨fun h old' hold => Option.some.inj hold ▸ h, fun h => h old rfl⟩

theorem coherent_step (hs : Coherent repo ∧ Counted repo) (h : step repo call = some repo') :
    Coherent repo' ∧ Counted repo' ↔ Agrees repo call := by
  cases call with
  | findById id =>
    cases h
    have htable : (repo.findById id).1.table = repo.table := TableCache.get_table repo.toTableCache id
    refine iff_of_true ⟨coherent_iff.mpr (TableCache.coherent_get (coherent_iff.mp hs.1) id), ?_⟩ trivial
    rw [Counted, htable]
    exact hs.2
  | upsert o =>
    cases h
    rw [coherent_upsert hs.1, counted_upsert hs.2]
    constructor
    · rintro ⟨hsame, hcount⟩ old hold
      obtain ⟨hmem, hid⟩ := Table.find?_eq_some.mp hold
      exact ⟨hsame old hold, hcount ⟨old, hmem, hid⟩⟩
    · intro h
      refine ⟨fun old hold => (h old hold).1, fun ⟨old, hmem, hid⟩ => ?_⟩
      exact (h old (Table.find?_eq_some.mpr ⟨hmem, hid⟩)).2

end OutcomeRepository

/-! ### Rounds -/

namespace CrashRoundRepository
variable {repo repo' : CrashRoundRepository} {call : Call CrashRound GameId}

/-- What the cache answers is what a new repository over the same database answers. -/
def Coherent (repo : CrashRoundRepository) : Prop :=
  ∀ id, repo.cache id ≠ none →
    (repo.findById id).2.map CrashRound.persisted = (findById (.fresh repo.table) id).2.map CrashRound.persisted

/-- An upsert under a stored id that the database takes has the stored salt and begin. -/
def Agrees (repo : CrashRoundRepository) : Call CrashRound GameId → Prop
  | .upsert r => r.sequence < 2 ^ 63 → ∀ old, repo.table.find? r.gameId = some old →
      old.round.salt = r.salt ∧ old.round.beganAtMs = r.beganAtMs
  | .findById _ => True

theorem persisted_round_ofRound (r : CrashRound) : (CrashRoundRow.ofRound r).round.persisted = r.persisted := rfl

theorem persisted_merge {old : CrashRoundRow} {r : CrashRound} (h : old.gameId = r.gameId) :
    (old.merge (.ofRound r)).round.persisted = r.persisted ↔
      old.round.salt = r.salt ∧ old.round.beganAtMs = r.beganAtMs := by
  simp [CrashRound.persisted, CrashRoundRow.round, CrashRoundRow.merge, CrashRoundRow.ofRound, h]

theorem coherent_step (hs : Coherent repo) (h : step repo call = some repo') :
    Coherent repo' ↔ Agrees repo call := by
  cases call with
  | findById id =>
    cases h
    exact iff_of_true (TableCache.coherent_get hs id) trivial
  | upsert r =>
    cases h
    by_cases hrange : r.sequence < 2 ^ 63
    · have hstored : insert r repo.table =
          .ok (repo.table.upsert (.ofRound r) CrashRoundRow.merge fun _ _ => rfl) := if_pos hrange
      have hother : ∀ k, r.gameId ≠ k →
          (repo.table.upsert (.ofRound r) CrashRoundRow.merge fun _ _ => rfl).find? k = repo.table.find? k :=
        fun k hk => Table.find?_upsert_ne hk
      refine (Repository.coherent_upsertWith hs hstored hother
        (Table.find?_upsert repo.table (.ofRound r))).trans ?_
      show ((repo.table.find? r.gameId).elim (.ofRound r) (·.merge (.ofRound r))).round.persisted = r.persisted ↔
        (r.sequence < 2 ^ 63 → ∀ old, repo.table.find? r.gameId = some old → _)
      rcases hfind : repo.table.find? r.gameId with _ | old
      · exact iff_of_true (persisted_round_ofRound r) fun _ old hold => nomatch hold
      · refine (persisted_merge (Table.find?_eq_some.mp hfind).2).trans ?_
        exact ⟨fun h _ old' hold => Option.some.inj hold ▸ h, fun h => h hrange old rfl⟩
    · have hrefused : insert r repo.table = .error "bigint out of range" := if_neg hrange
      rw [upsert, Repository.upsertWith_error hrefused]
      exact iff_of_true hs fun h => absurd h hrange

end CrashRoundRepository

/-! ### Runs of calls -/

/-- Each repository over any database: after every call the cache answers what the database keeps, and the counters of
    the outcomes are those of the stored ones, exactly if no upsert contradicts the row under its id. -/
theorem repositories_coherent_iff (predictions : Table PredictionEvent.predictionId)
    (outcomes : Table Outcome.predictionId) (rounds : Table CrashRoundRow.gameId)
    (predictionCalls : List (Call PredictionEvent PredictionId)) (outcomeCalls : List (Call Outcome PredictionId))
    (roundCalls : List (Call CrashRound GameId)) :
    (Along PredictionRepository.step PredictionRepository.Coherent (.fresh predictions) predictionCalls ↔
      Meets PredictionRepository.step PredictionRepository.Agrees (.fresh predictions) predictionCalls) ∧
    (Along OutcomeRepository.step (fun repo => repo.Coherent ∧ repo.Counted) (.fresh outcomes) outcomeCalls ↔
      (∀ o ∈ outcomes.rows, ¬o.isWin ∧ ¬o.IsLoss) ∧
        Meets OutcomeRepository.step OutcomeRepository.Agrees (.fresh outcomes) outcomeCalls) ∧
    (Along CrashRoundRepository.step CrashRoundRepository.Coherent (.fresh rounds) roundCalls ↔
      Meets CrashRoundRepository.step CrashRoundRepository.Agrees (.fresh rounds) roundCalls) := by
  refine ⟨?_, ?_, ?_⟩
  · have hfresh : PredictionRepository.Coherent (.fresh predictions) := TableCache.coherent_fresh
    exact along_iff_meets_of_total (fun repo call => by cases call <;> exact Option.some_ne_none _)
      (fun _ _ _ => PredictionRepository.coherent_step) hfresh predictionCalls
  · have hcounted : (OutcomeRepository.fresh outcomes).Counted ↔ ∀ o ∈ outcomes.rows, ¬o.isWin ∧ ¬o.IsLoss := by
      show 0 = outcomes.rows.countP _ ∧ 0 = outcomes.rows.countP _ ↔ _
      rw [eq_comm, List.countP_eq_zero, eq_comm, List.countP_eq_zero, ← forall₂_and]
      simp only [decide_eq_true_eq]
    have hfresh : (OutcomeRepository.fresh outcomes).Coherent :=
      OutcomeRepository.coherent_iff.mpr TableCache.coherent_fresh
    have hrun (h : (OutcomeRepository.fresh outcomes).Counted) :
        Along OutcomeRepository.step (fun repo => repo.Coherent ∧ repo.Counted) (.fresh outcomes) outcomeCalls ↔
          Meets OutcomeRepository.step OutcomeRepository.Agrees (.fresh outcomes) outcomeCalls :=
      along_iff_meets_of_total (fun repo call => by cases call <;> exact Option.some_ne_none _)
        (fun _ _ _ => OutcomeRepository.coherent_step) ⟨hfresh, h⟩ outcomeCalls
    rw [← hcounted]
    exact ⟨fun h => ⟨h.head.2, (hrun h.head.2).mp h⟩, fun h => (hrun h.1).mpr h.2⟩
  · have hfresh : CrashRoundRepository.Coherent (.fresh rounds) := TableCache.coherent_fresh
    exact along_iff_meets_of_total (fun repo call => by cases call <;> exact Option.some_ne_none _)
      (fun _ _ _ => CrashRoundRepository.coherent_step) hfresh roundCalls

/-- A prediction with another target, an outcome that is settled again as a loss, a round whose end comes without the
    salt: each time the cache says the second record and the database the first. -/
theorem not_repositories_coherent :
    ¬Along PredictionRepository.step PredictionRepository.Coherent (.fresh {})
      [.upsert { predictionId := "p", targetRoundId := "r", targetMult := 2 },
        .upsert { predictionId := "p", targetRoundId := "r", targetMult := 3 }] ∧
    ¬Along OutcomeRepository.step (fun repo => repo.Coherent ∧ repo.Counted) (.fresh {})
      [.upsert { predictionId := "p", roundId := "r", result := .win, isWin := true },
        .upsert { predictionId := "p", roundId := "r", result := .loss }] ∧
    ¬Along CrashRoundRepository.step CrashRoundRepository.Coherent (.fresh {})
      [.upsert { gameId := "g", multiplier := 2, salt := "s" }, .upsert { gameId := "g", multiplier := 2 }] := by
  refine ⟨not_along_of_last rfl fun h => ?_, not_along_of_last rfl fun h => ?_, not_along_of_last rfl fun h => ?_⟩
  · exact absurd (h "p" (by decide)) (by decide)
  · exact absurd (h.1 "p" (by decide)) (by decide)
  · exact absurd (h "g" (by decide)) (by decide)

end CrashCore
