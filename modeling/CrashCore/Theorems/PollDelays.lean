import CrashCore.Ingestion.PollWorker
import CrashCore.Library.LongestRun

/-! How long the poll worker pauses. A page that comes resets the number of the failures in a row, but not the number of
all errors, which selects the formula; and the wait in steps of 50 ms ends at a multiple of them. -/

namespace CrashCore
namespace PollWorker
open Transition

variable {reader : HistoryReader} {s t : Paced} {a : PacedAct}

/-- The pause `d` after the fetches of pages so far. -/
structure PausesWell (s : Paced) (d : Int) : Prop where
  afterSuccess : s.history.getLast? = some true → s.pacing.intervalMs ≤ d
  afterFailures : ∀ k, 1 ≤ k → List.replicate k false <:+ s.history →
    min s.pacing.maxBackoffMs (s.pacing.minBackoffMs * 2 ^ min k 5) ≤ d
  le_bound : d ≤ max s.pacing.intervalMs s.pacing.maxBackoffMs + 500

/-- The pause before the next turn, if there is one. -/
def Recovers (s : Paced) : Prop := ∀ d, s.pauseMs = some d → PausesWell s d

/-! ### The wait loop -/

/-- It ends at the first multiple of its step that is not below the time. -/
theorem waitLoop_eq (sleepMs w : Int) : waitLoop sleepMs w = 50 * ((max 0 (sleepMs - w) + 49) / 50) := by
  fun_induction waitLoop sleepMs w with
  | case1 w hlt ih => omega
  | case2 w hge => omega

theorem le_waitLoop (d : Int) : d ≤ waitLoop d 0 := by
  rw [waitLoop_eq]
  omega

/-- The last multiple of its step up to a bound decides whether the wait keeps to it. -/
theorem waitLoop_le_iff (d bound : Int) : waitLoop d 0 ≤ bound ↔ max 0 d ≤ 50 * (bound / 50) := by
  rw [waitLoop_eq]
  omega

/-! ### The conditions -/

/-- The longest wait that the bound allows. -/
def longestWait (p : Pacing) : Int := 50 * ((max p.intervalMs p.maxBackoffMs + 500) / 50)

/-- What the counters and times must be when a turn of `loop` ends. The second part is met where `minBackoffMs` is not
    negative, the others where `max intervalMs maxBackoffMs` is a multiple of 50 and not negative. -/
structure PausesEnough (s : Paced) (jitter backoffJitter : Fin 501) : Prop where
  afterSuccess : s.history.getLast? = some true → false ∉ s.history ∨
    s.pacing.intervalMs ≤ waitLoop (min s.pacing.maxBackoffMs s.pacing.minBackoffMs + backoffJitter.val) 0
  afterFailures : s.history.getLast? = some false →
    min s.pacing.maxBackoffMs (s.pacing.minBackoffMs * 2) ≤
      waitLoop (min s.pacing.maxBackoffMs (s.pacing.minBackoffMs * 2 ^ min s.consecutiveFails 5) + backoffJitter.val) 0
  neverFailed : false ∉ s.history → max 0 (s.pacing.intervalMs + jitter.val) ≤ longestWait s.pacing
  failedOnce : false ∈ s.history →
    max 0 (min s.pacing.maxBackoffMs (s.pacing.minBackoffMs * 2 ^ min s.consecutiveFails 5) + backoffJitter.val) ≤
      longestWait s.pacing

/-- The action ends a turn of `loop`. -/
def EndsTurn (s : Paced) (a : PacedAct) : Prop := ∃ t0 total, a.act = .handle t0 ∧ s.worker.phase = .handling [] total true

def pauseOk (s : Paced) (a : PacedAct) : Prop := EndsTurn s a → PausesEnough s a.jitter a.backoffJitter

/-- The counters count the fetches of the history, and the worker is idle in its pause. -/
structure Counted (s : Paced) : Prop where
  errors : s.errors = s.history.count false
  consecutiveFails : s.consecutiveFails = (s.history.rtakeWhile (!·)).length
  idle : s.pauseMs ≠ none → s.worker.phase = .idle

theorem counted_initial (worker : State) (pacing : Pacing) : Counted { worker, pacing } := ⟨rfl, rfl, fun h => absurd rfl h⟩

/-! ### The counters -/

theorem Counted.errors_pos (h : Counted s) : 0 < s.errors ↔ false ∈ s.history := by
  rw [h.errors, List.count_pos_iff]

/-- The last `k` fetches failed. -/
theorem Counted.le_consecutiveFails (h : Counted s) {k : Nat} :
    List.replicate k false <:+ s.history ↔ k ≤ s.consecutiveFails := by
  have hall : ∀ x ∈ s.history.rtakeWhile (!·), x = false := fun x hx => by simpa using List.mem_rtakeWhile_imp hx
  rw [h.consecutiveFails]
  constructor
  · intro hk
    have hle := List.length_le_rtakeWhile (p := (!·)) hk fun x hx => by rw [List.eq_of_mem_replicate hx]; rfl
    rwa [List.length_replicate] at hle
  · intro hk
    refine List.IsSuffix.trans ?_ (List.rtakeWhile_suffix (!·) s.history)
    rw [List.eq_replicate_of_mem hall]
    refine List.suffix_replicate_iff.mpr ⟨?_, ?_⟩
    · rwa [List.length_replicate]
    · rw [List.length_replicate]

theorem Counted.last_failed (h : Counted s) : s.history.getLast? = some false ↔ 1 ≤ s.consecutiveFails := by
  rw [← h.le_consecutiveFails, List.replicate_one, List.singleton_suffix_iff_getLast?_eq_some]

theorem Counted.pull (h : Counted s) (resp : Except Error (List Char)) (hpause : s.pauseMs = none) :
    Counted (PollWorker.pull s resp) := by
  cases resp with
  | error e =>
    refine ⟨?_, ?_, fun hne => absurd hpause hne⟩
    · simp [PollWorker.pull, h.errors]
    · simp [PollWorker.pull, h.consecutiveFails, List.rtakeWhile_concat_pos]
  | ok body =>
    refine ⟨?_, ?_, fun hne => absurd hpause hne⟩
    · simp [PollWorker.pull, h.errors]
    · simp [PollWorker.pull, List.rtakeWhile_concat_neg]

/-! ### The pause -/

/-- Among the pauses after one failure or more, the first or the last is the longest. -/
theorem backoff_le {minBackoffMs maxBackoffMs d : Int} {k n : Nat} (hk : 1 ≤ k) (hkn : k ≤ n)
    (hone : min maxBackoffMs (minBackoffMs * 2) ≤ d) (hlast : min maxBackoffMs (minBackoffMs * 2 ^ min n 5) ≤ d) :
    min maxBackoffMs (minBackoffMs * 2 ^ min k 5) ≤ d := by
  rcases le_total 0 minBackoffMs with hpos | hneg
  · have hpow : (2 : Int) ^ min k 5 ≤ 2 ^ min n 5 := pow_le_pow_right₀ (by omega) (by omega)
    exact (min_le_min_left _ (mul_le_mul_of_nonneg_left hpow hpos)).trans hlast
  · have hpow : (2 : Int) ^ 1 ≤ 2 ^ min k 5 := pow_le_pow_right₀ (by omega) (by omega)
    exact (min_le_min_left _ (mul_le_mul_of_nonpos_left hpow hneg)).trans hone

/-- After a failure, ever. -/
theorem sleepMs_of_failed (h : Counted s) (hfailed : false ∈ s.history) (jitter backoffJitter : Fin 501) :
    sleepMs s jitter backoffJitter =
      min s.pacing.maxBackoffMs (s.pacing.minBackoffMs * 2 ^ min s.consecutiveFails 5) + backoffJitter.val := by
  rw [sleepMs, if_pos (h.errors_pos.mpr hfailed)]

theorem sleepMs_of_not_failed (h : Counted s) (hfailed : false ∉ s.history) (jitter backoffJitter : Fin 501) :
    sleepMs s jitter backoffJitter = s.pacing.intervalMs + jitter.val := by
  rw [sleepMs, if_neg fun hpos => hfailed (h.errors_pos.mp hpos)]

/-- A page that came has made the first back-off the one in force. -/
theorem backoff_of_succeeded (h : Counted s) (hlast : s.history.getLast? = some true) :
    s.pacing.minBackoffMs * 2 ^ min s.consecutiveFails 5 = s.pacing.minBackoffMs := by
  have hzero : s.consecutiveFails = 0 := by
    by_contra hne
    have hfailed := h.last_failed.mpr (Nat.one_le_iff_ne_zero.mpr hne)
    rw [hlast] at hfailed
    cases hfailed
  rw [hzero, Nat.zero_min, pow_zero, mul_one]

theorem pausesWell_of_failed (h : Counted s) (hfailed : false ∈ s.history) (jitter backoffJitter : Fin 501) :
    PausesWell s (waitLoop (sleepMs s jitter backoffJitter) 0) ↔ PausesEnough s jitter backoffJitter := by
  rw [sleepMs_of_failed h hfailed]
  constructor
  · intro hwell
    refine ⟨fun hlast => .inr ?_, fun hlast => ?_, fun hnever => absurd hfailed hnever,
      fun _ => (waitLoop_le_iff _ _).mp hwell.le_bound⟩
    · have hinterval := hwell.afterSuccess hlast
      rwa [backoff_of_succeeded h hlast] at hinterval
    · exact hwell.afterFailures 1 le_rfl (h.le_consecutiveFails.mpr (h.last_failed.mp hlast))
  · intro henough
    refine ⟨fun hlast => ?_, fun k hk hsuffix => ?_, (waitLoop_le_iff _ _).mpr (henough.failedOnce hfailed)⟩
    · rw [backoff_of_succeeded h hlast]
      exact (henough.afterSuccess hlast).resolve_left (not_not_intro hfailed)
    · have hle : k ≤ s.consecutiveFails := h.le_consecutiveFails.mp hsuffix
      have hlast : s.history.getLast? = some false := h.last_failed.mpr (hk.trans hle)
      refine backoff_le hk hle (henough.afterFailures hlast) ((le_waitLoop _).trans' ?_)
      omega

theorem pausesWell_of_not_failed (h : Counted s) (hfailed : false ∉ s.history) (jitter backoffJitter : Fin 501) :
    PausesWell s (waitLoop (sleepMs s jitter backoffJitter) 0) ↔ PausesEnough s jitter backoffJitter := by
  have hlast : s.history.getLast? ≠ some false := fun hlast => hfailed (List.mem_of_getLast? hlast)
  rw [sleepMs_of_not_failed h hfailed]
  constructor
  · intro hwell
    exact ⟨fun _ => .inl hfailed, fun hfalse => absurd hfalse hlast, fun _ => (waitLoop_le_iff _ _).mp hwell.le_bound,
      fun hf => absurd hf hfailed⟩
  · intro henough
    refine ⟨fun _ => (le_waitLoop _).trans' ?_, fun k hk hsuffix => ?_,
      (waitLoop_le_iff _ _).mpr (henough.neverFailed hfailed)⟩
    · omega
    · exact absurd (h.last_failed.mpr (hk.trans (h.le_consecutiveFails.mp hsuffix))) hlast

theorem pausesWell_iff (h : Counted s) (jitter backoffJitter : Fin 501) :
    PausesWell s (waitLoop (sleepMs s jitter backoffJitter) 0) ↔ PausesEnough s jitter backoffJitter := by
  by_cases hfailed : false ∈ s.history
  · exact pausesWell_of_failed h hfailed jitter backoffJitter
  · exact pausesWell_of_not_failed h hfailed jitter backoffJitter

/-! ### The run -/

theorem not_endsTurn (h : ∀ t0, a.act ≠ .handle t0) : ¬EndsTurn s a := by
  rintro ⟨t0, total, hact, -⟩
  exact h t0 hact

/-- What a step does: it ends a turn and sets the pause, begins one, asks for a page, or changes the worker only. -/
theorem pacedStep_cases (hs : pacedStep reader s a = some t) :
    (EndsTurn s a ∧ ∃ worker, worker.phase = .idle ∧
      t = { s with worker, pauseMs := some (waitLoop (sleepMs s a.jitter a.backoffJitter) 0) }) ∨
    ¬EndsTurn s a ∧
      ((∃ worker, t = { s with worker, pauseMs := none }) ∨
       (∃ resp worker, s.worker.phase ≠ .idle ∧ t = { pull s resp with worker }) ∨
       ∃ worker, (s.worker.phase = .idle → worker.phase = .idle) ∧ t = { s with worker }) := by
  obtain ⟨worker, hworker, rfl⟩ := Option.map_eq_some_iff.mp hs
  obtain ⟨act, jitter, backoffJitter⟩ := a
  cases act with
  | start =>
    refine .inr ⟨not_endsTurn fun _ h => (by cases h), .inr (.inr ⟨worker, ?_, rfl⟩)⟩
    cases hworker
    split <;> exact id
  | stop =>
    refine .inr ⟨not_endsTurn fun _ h => (by cases h), .inr (.inr ⟨worker, ?_, rfl⟩)⟩
    cases hworker
    exact id
  | fetch looping => exact .inr ⟨not_endsTurn fun _ h => (by cases h), .inl ⟨worker, rfl⟩⟩
  | page resp fuel now =>
    have hends : ¬EndsTurn s ⟨.page resp fuel now, jitter, backoffJitter⟩ := not_endsTurn fun _ h => by cases h
    have hphase : s.worker.phase ≠ .idle := by
      intro hidle
      simp [step, stepPage, hidle] at hworker
    refine .inr ⟨hends, ?_⟩
    by_cases hrequests : requests s.worker = true
    · exact .inr (.inl ⟨resp, worker, hphase, by simp only [count, if_pos hrequests]⟩)
    · exact .inr (.inr ⟨worker, fun hidle => absurd hidle hphase, by simp only [count, if_neg hrequests]⟩)
  | handle t0 =>
    rcases hphase : s.worker.phase with _ | ⟨page, maxPages, batch, looping⟩ | ⟨_ | ⟨r, todo⟩, total, looping⟩
    · simp [step, stepHandle, hphase] at hworker
    · simp [step, stepHandle, hphase] at hworker
    · have hidle : worker.phase = .idle := by
        simp only [step, stepHandle, hphase, Option.some.injEq] at hworker
        rw [← hworker]
      cases looping with
      | true => exact .inl ⟨⟨t0, total, rfl, hphase⟩, worker, hidle, by simp only [count, hphase]⟩
      | false =>
        refine .inr ⟨?_, .inr (.inr ⟨worker, fun _ => hidle, by simp only [count, hphase]⟩)⟩
        rintro ⟨_, _, -, hloop⟩
        simp [hphase] at hloop
    · refine .inr ⟨?_, .inr (.inr ⟨worker, fun hidle => ?_, by simp only [count, hphase]⟩)⟩
      · rintro ⟨_, _, -, hloop⟩
        simp [hphase] at hloop
      · cases hidle

theorem counted_step (h : Counted s) (hs : pacedStep reader s a = some t) : Counted t := by
  obtain ⟨-, worker, hidle, rfl⟩ | ⟨-, ⟨worker, rfl⟩ | ⟨resp, worker, hphase, rfl⟩ | ⟨worker, hkeep, rfl⟩⟩ :=
    pacedStep_cases hs
  · exact ⟨h.errors, h.consecutiveFails, fun _ => hidle⟩
  · exact ⟨h.errors, h.consecutiveFails, fun hne => absurd rfl hne⟩
  · have hpause : s.pauseMs = none := by
      by_contra hne
      exact hphase (h.idle hne)
    have hpull := h.pull resp hpause
    refine ⟨hpull.errors, hpull.consecutiveFails, fun hne => ?_⟩
    cases resp <;> exact absurd hpause hne
  · exact ⟨h.errors, h.consecutiveFails, fun hne => hkeep (h.idle hne)⟩

/-- A step keeps the pauses long enough exactly if the counters are such when it ends a turn. -/
theorem recovers_step_iff (h : Counted s) (hrecovers : Recovers s) (hs : pacedStep reader s a = some t) :
    Recovers t ↔ pauseOk s a := by
  obtain ⟨hends, worker, -, rfl⟩ | ⟨hends, ⟨worker, rfl⟩ | ⟨resp, worker, hphase, rfl⟩ | ⟨worker, -, rfl⟩⟩ :=
    pacedStep_cases hs
  · have hwell := pausesWell_iff h a.jitter a.backoffJitter
    constructor
    · intro ht _
      have hset := ht _ rfl
      exact hwell.mp ⟨hset.afterSuccess, hset.afterFailures, hset.le_bound⟩
    · intro hok d hd
      have hset := hwell.mpr (hok hends)
      cases hd
      exact ⟨hset.afterSuccess, hset.afterFailures, hset.le_bound⟩
  · refine iff_of_true (fun d hd => ?_) fun hturn => absurd hturn hends
    cases hd
  · refine iff_of_true (fun d hd => ?_) fun hturn => absurd hturn hends
    have hpause : s.pauseMs = none := by
      by_contra hne
      exact hphase (h.idle hne)
    cases resp <;> exact absurd (hpause.symm.trans hd) (by simp)
  · refine iff_of_true (fun d hd => ?_) fun hturn => absurd hturn hends
    have hset := hrecovers d hd
    exact ⟨hset.afterSuccess, hset.afterFailures, hset.le_bound⟩

/-- The first page of a turn fails, the second one comes, and has no rounds. -/
def failsOnce : List PacedAct :=
  [⟨.start, 0, 0⟩, ⟨.fetch true, 0, 0⟩, ⟨.page (.error ⟨.networkError, "history HTTP error"⟩) 0 0, 0, 0⟩,
    ⟨.page (.ok "[]".toList) 2 0, 0, 0⟩, ⟨.handle 0, 0, 0⟩]

end PollWorker
end CrashCore
