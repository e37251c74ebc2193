import CrashCore.Delivery.TemporalGuard

/-! Whether a send that was rejected because its target has started stays rejected: it does exactly as long as no
rejected round is stamped with a start that is still to come. -/

namespace CrashCore
namespace GuardCalls
open TemporalGuard Transition

variable {g : TemporalGuard} {db : Db} {roundId r : RoundId} {now later createdAtMs startedAtMs : TimestampMs}
  {fault : Fault}

/-! ### Started targets -/

/-- The round has a start, and its grace is over. -/
def Started (g : TemporalGuard) (now : TimestampMs) (roundId : RoundId) : Prop :=
  ∃ started ∈ g.started roundId, started + g.postStartGraceMs ≤ now

/-- A signal without a creation time is never too old, so only the start of its target can stop it. -/
theorem started_iff_never_allowed :
    Started g now roundId ↔ ∀ createdAtMs, (g.authorizeSend roundId createdAtMs now).allowed = false := by
  constructor
  · rintro ⟨started, hs, hle⟩ createdAtMs
    rw [← Bool.not_eq_true, allowed_iff]
    exact fun h => absurd hle (Int.not_le.mpr (h.2 started hs))
  · intro h
    have h0 := h 0
    rw [← Bool.not_eq_true, allowed_iff] at h0
    by_contra hn
    refine h0 ⟨fun hpos => absurd hpos (Int.lt_irrefl 0), fun started hs => ?_⟩
    exact Int.not_le.mp fun hle => hn ⟨started, hs, hle⟩

theorem started_of_rejected (h : (g.authorizeSend roundId createdAtMs now).decision = .rejectTargetStarted) :
    Started g now roundId := by
  unfold authorizeSend at h
  split at h
  · cases h
  · split at h
    · rename_i started hg
      split at h
      · rename_i hle
        exact ⟨started, hg, hle⟩
      · cases h
    · cases h

theorem Started.mono (h : Started g now roundId) (hle : now ≤ later) : Started g later roundId := by
  obtain ⟨started, hs, hnow⟩ := h
  exact ⟨started, hs, hnow.trans hle⟩

/-! ### What the calls do to a start -/

/-- The stamp that `noteTargetStarted` writes. -/
def stamp (startedAtMs now : TimestampMs) : TimestampMs := if startedAtMs > 0 then startedAtMs else now

theorem noteTargetStarted_started (hne : roundId ≠ "") :
    (g.noteTargetStarted roundId startedAtMs now).started r =
      if r = roundId then some (stamp startedAtMs now) else g.started r := by
  rw [noteTargetStarted, if_neg hne]
  exact Function.update_apply ..

theorem noteTargetStarted_grace :
    (g.noteTargetStarted roundId startedAtMs now).postStartGraceMs = g.postStartGraceMs := by
  unfold noteTargetStarted
  split <;> rfl

/-- The kill leaves a start that is there. -/
theorem killStaleIn_started {started : TimestampMs} (h : started ∈ g.started r) :
    started ∈ (g.killStaleIn db roundId now fault).1.started r := by
  cases db with
  | absent => exact h
  | base => exact h
  | pg conn =>
    show started ∈ (g.killStaleForTarget conn roundId now fault).1.started r
    unfold killStaleForTarget
    split
    · exact h
    · split
      · show started ∈ Function.update g.started roundId _ r
        rw [Function.update_apply]
        split
        · rename_i heq
          rw [heq] at h
          rw [Option.mem_def.mp h]
          rfl
        · exact h
      · exact h

theorem killStaleIn_grace : (g.killStaleIn db roundId now fault).1.postStartGraceMs = g.postStartGraceMs := by
  cases db with
  | absent => rfl
  | base => rfl
  | pg conn =>
    show (g.killStaleForTarget conn roundId now fault).1.postStartGraceMs = _
    unfold killStaleForTarget
    split
    · rfl
    · split <;> rfl

theorem Started.killStaleIn (h : Started g now r) : Started (g.killStaleIn db roundId now fault).1 now r := by
  obtain ⟨started, hs, hle⟩ := h
  exact ⟨started, killStaleIn_started hs, by rwa [killStaleIn_grace]⟩

/-- A started round stays so exactly if its new stamp is not in the future. -/
theorem started_noteTargetStarted_iff (hne : roundId ≠ "") :
    Started (g.noteTargetStarted roundId startedAtMs now) now r ↔
      if r = roundId then stamp startedAtMs now + g.postStartGraceMs ≤ now else Started g now r := by
  unfold Started
  rw [noteTargetStarted_grace, noteTargetStarted_started hne]
  split
  · simp
  · rfl

/-! ### Runs -/

variable {s t : State} {a : Act}

/-- No send for a round that was rejected as started would be allowed now. -/
def StaysRejected (s : State) : Prop :=
  ∀ roundId ∈ s.rejected, ∀ createdAtMs, (s.guard.authorizeSend roundId createdAtMs s.clock).allowed = false

/-- A start that is noted for a rejected round, together with the grace, is not in the future. -/
def KeepsStart (s : State) : Act → Prop
  | .noteTargetStarted roundId startedAtMs =>
    roundId ≠ "" → roundId ∈ s.rejected → stamp startedAtMs s.clock + s.guard.postStartGraceMs ≤ s.clock
  | _ => True

theorem staysRejected_iff : StaysRejected s ↔ ∀ roundId ∈ s.rejected, Started s.guard s.clock roundId :=
  forall₂_congr fun _ _ => started_iff_never_allowed.symm

theorem step_keeps (h : StaysRejected s) (hok : KeepsStart s a) (hs : step s a = some t) : StaysRejected t := by
  rw [staysRejected_iff] at h ⊢
  cases a with
  | advance ms =>
    cases hs
    exact fun r hr => (h r hr).mono (Int.le_add_of_nonneg_right (Int.natCast_nonneg ms))
  | noteTargetStarted roundId startedAtMs =>
    cases hs
    intro r hr
    by_cases hne : roundId = ""
    · rw [noteTargetStarted, if_pos hne]
      exact h r hr
    · rw [started_noteTargetStarted_iff hne]
      split
      · rename_i heq
        exact hok hne (heq ▸ hr)
      · exact h r hr
  | killStaleForTarget roundId fault =>
    cases hs
    exact fun r hr => (h r hr).killStaleIn
  | authorizeSend roundId createdAtMs =>
    unfold step at hs
    dsimp only at hs
    split at hs <;> cases hs
    · rename_i hrej
      intro r hr
      rcases List.mem_cons.mp hr with rfl | hr
      · exact started_of_rejected hrej
      · exact h r hr
    · exact h

theorem keepsStart_of_step (hs : step s a = some t) (ht : StaysRejected t) : KeepsStart s a := by
  cases a with
  | noteTargetStarted roundId startedAtMs =>
    cases hs
    intro hne hr
    have hstarted := staysRejected_iff.mp ht roundId hr
    rw [started_noteTargetStarted_iff hne, if_pos rfl] at hstarted
    exact hstarted
  | advance => trivial
  | killStaleForTarget => trivial
  | authorizeSend => trivial

theorem step_ne_none (s : State) (a : Act) : step s a ≠ none := by
  cases a with
  | authorizeSend =>
    unfold step
    dsimp only
    split <;> exact Option.some_ne_none _
  | _ => exact Option.some_ne_none _

/-- Whatever the guard has noted before: its rejections are permanent exactly in the runs that note no start in the
    future for a rejected round. -/
theorem staysRejected_along_iff (guard : TemporalGuard) (db : Db) (clock : TimestampMs) (acts : List Act) :
    Along step StaysRejected { guard, db, clock } acts ↔ Meets step KeepsStart { guard, db, clock } acts :=
  along_iff_meets (I := StaysRejected) (fun _ h => h) (fun _ _ _ => step_keeps) (fun _ _ _ _ => keepsStart_of_step)
    (fun _ hr => absurd hr List.not_mem_nil) (run_ne_none step_ne_none acts _)

/-- The send is rejected at the start of the round, whose Prepare then comes with a later time. -/
def stampedAgain : List Act :=
  [.noteTargetStarted "r1" 1000, .authorizeSend "r1" 1000, .noteTargetStarted "r1" 6000]

theorem not_staysRejected_along_stampedAgain : ¬Along step StaysRejected { clock := 1000 } stampedAgain :=
  not_along_of_last rfl fun h => absurd (h "r1" (List.mem_singleton.mpr rfl) 1000) (by decide)

end GuardCalls
end CrashCore
