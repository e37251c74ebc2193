import CrashCore.Application.ApplicationConfig
import CrashCore.Prediction.AdaptiveEdge
import Mathlib.Tactic.NormNum

/-! How the edge of the default configuration reacts to outcomes, in exact numbers. The pull toward the initial edge is
as strong as the effect of a win: a win at the initial edge goes below it and is pulled back. -/

namespace CrashCore
namespace AdaptiveEdge

variable {e : AdaptiveEdge} {o : Outcome} {k : Nat}

/-- A new edge after some outcomes. -/
def after (outcomes : List Outcome) : AdaptiveEdge := outcomes.foldl (noteOutcomeWith id) { config := .exact }

def Bounded (e : AdaptiveEdge) : Prop := e.config.minEdge ≤ e.edge ∧ e.edge ≤ e.config.maxEdge

/-- A win lowers the edge and a loss raises it, up to the bounds, and other results leave it. -/
structure Reacts (e : AdaptiveEdge) (o : Outcome) : Prop where
  bounded : (noteOutcomeWith id e o).Bounded
  win : o.result = .win → e.edge ≠ e.config.minEdge → (noteOutcomeWith id e o).edge < e.edge
  loss : o.result = .loss → e.edge ≠ e.config.maxEdge → e.edge < (noteOutcomeWith id e o).edge
  other : o.result ≠ .win → o.result ≠ .loss → (noteOutcomeWith id e o).edge = e.edge

/-- The edge is above the initial one when a win comes; and a loss is not also marked as a win, unless it finds the
    edge at its maximum. -/
structure Takes (e : AdaptiveEdge) (o : Outcome) : Prop where
  win : o.result = .win → e.config.initialEdge < e.edge
  loss : o.result = .loss → o.isWin = true → e.edge = e.config.maxEdge

/-! ### The edges that are reached -/

/-- The edge is `k` steps of 0.002 above the initial one, and thirty of them reach the maximum. -/
structure OnGrid (e : AdaptiveEdge) (k : Nat) : Prop where
  config : e.config = .exact
  edge : e.edge = 1 / 50 + k / 500
  le : k ≤ 30

theorem onGrid_init : OnGrid { config := .exact } 0 := ⟨rfl, by norm_num [AdaptiveEdgeConfig.exact], Nat.zero_le _⟩

theorem OnGrid.bounded (h : OnGrid e k) : e.Bounded := by
  have hk : (k : Rat) ≤ 30 := by exact_mod_cast h.le
  have h0 : (0 : Rat) ≤ k := Nat.cast_nonneg k
  unfold Bounded
  rw [h.config, h.edge]
  constructor <;> norm_num [AdaptiveEdgeConfig.exact] <;> linarith

/-! ### One outcome -/

/-- What the code takes for a win. -/
def CountsAsWin (o : Outcome) : Prop := o.result = .win ∨ (o.result = .loss ∧ o.isWin = true)

theorem config_noteOutcomeWith (round : Rat → Double) : (noteOutcomeWith round e o).config = e.config := by
  unfold noteOutcomeWith
  split <;> rfl

theorem edge_of_win (round : Rat → Double) (ho : CountsAsWin o) : (noteOutcomeWith round e o).edge =
    clamp (pullWith round e.config (round (e.edge + e.config.winDelta))) e.config.minEdge e.config.maxEdge := by
  unfold noteOutcomeWith
  rcases ho with ho | ⟨ho, hwin⟩
  · rw [if_neg (by simp [ho])]
    simp [ho]
  · rw [if_neg (by simp [ho])]
    simp [hwin]

theorem edge_of_loss (round : Rat → Double) (ho : o.result = .loss) (hno : o.isWin = false) :
    (noteOutcomeWith round e o).edge =
      clamp (pullWith round e.config (round (e.edge + e.config.lossDelta))) e.config.minEdge e.config.maxEdge := by
  unfold noteOutcomeWith
  rw [if_neg (by simp [ho])]
  simp [ho, hno]

theorem edge_of_other (round : Rat → Double) (hwin : o.result ≠ .win) (hloss : o.result ≠ .loss) :
    (noteOutcomeWith round e o).edge = e.edge := by
  unfold noteOutcomeWith
  rw [if_pos ⟨hwin, hloss⟩]

theorem clamp_of_mem {v low high : Double} (hlow : low ≤ v) (hhigh : v ≤ high) : clamp v low high = v := by
  rw [clamp, if_neg (not_lt_of_ge hlow), if_neg (not_lt_of_ge hhigh)]

theorem clamp_of_le {v low high : Double} (hlow : low ≤ high) (hhigh : high ≤ v) : clamp v low high = high := by
  rcases hhigh.lt_or_eq with hlt | rfl
  · rw [clamp, if_neg (not_lt_of_ge (hlow.trans hhigh)), if_pos hlt]
  · exact clamp_of_mem hlow le_rfl

/-- A win goes one step down, and stays where it is at the initial edge. -/
theorem OnGrid.win (h : OnGrid e k) (ho : CountsAsWin o) : OnGrid (noteOutcomeWith id e o) (k - 1) where
  config := (config_noteOutcomeWith id).trans h.config
  edge := by
    rw [edge_of_win id ho, h.config, h.edge]
    rcases k with _ | k
    · -- Below the initial edge by the delta, and back by the pull.
      have hpull : pullWith id .exact (id (1 / 50 + ((0 : Nat) : Rat) / 500 + AdaptiveEdgeConfig.exact.winDelta)) =
          1 / 50 := by
        norm_num [pullWith, AdaptiveEdgeConfig.exact]
      rw [hpull, clamp_of_mem] <;> norm_num [AdaptiveEdgeConfig.exact]
    · have h0 : (0 : Rat) ≤ k := Nat.cast_nonneg k
      have hk : (k : Rat) + 1 ≤ 30 := by exact_mod_cast h.le
      have habove : AdaptiveEdgeConfig.exact.initialEdge <
          id (1 / 50 + ((k + 1 : Nat) : Rat) / 500 + AdaptiveEdgeConfig.exact.winDelta) := by
        push_cast [AdaptiveEdgeConfig.exact, id]
        linarith
      have hpull : pullWith id .exact (id (1 / 50 + ((k + 1 : Nat) : Rat) / 500 + AdaptiveEdgeConfig.exact.winDelta)) =
          1 / 50 + k / 500 := by
        rw [pullWith, if_pos habove]
        push_cast [AdaptiveEdgeConfig.exact, id]
        ring
      rw [hpull, clamp_of_mem]
      · rfl
      · norm_num [AdaptiveEdgeConfig.exact]
        linarith
      · norm_num [AdaptiveEdgeConfig.exact]
        linarith
  le := (Nat.sub_le k 1).trans h.le

/-- A loss goes one step up, as far as the maximum. -/
theorem OnGrid.loss (h : OnGrid e k) (ho : o.result = .loss) (hno : o.isWin = false) :
    OnGrid (noteOutcomeWith id e o) (min (k + 1) 30) where
  config := (config_noteOutcomeWith id).trans h.config
  edge := by
    have h0 : (0 : Rat) ≤ k := Nat.cast_nonneg k
    have hk : (k : Rat) ≤ 30 := by exact_mod_cast h.le
    rw [edge_of_loss id ho hno, h.config, h.edge]
    have habove : AdaptiveEdgeConfig.exact.initialEdge < id (1 / 50 + k / 500 + AdaptiveEdgeConfig.exact.lossDelta) := by
      norm_num [AdaptiveEdgeConfig.exact]
      linarith
    have hpull : pullWith id .exact (id (1 / 50 + k / 500 + AdaptiveEdgeConfig.exact.lossDelta)) =
        1 / 50 + (k + 1) / 500 := by
      rw [pullWith, if_pos habove]
      simp only [AdaptiveEdgeConfig.exact, id]
      ring
    rw [hpull]
    rcases h.le.lt_or_eq with hlt | rfl
    · have hk' : (k : Rat) + 1 ≤ 30 := by exact_mod_cast hlt
      rw [Nat.min_eq_left hlt, clamp_of_mem]
      · push_cast
        rfl
      · norm_num [AdaptiveEdgeConfig.exact]
        linarith
      · norm_num [AdaptiveEdgeConfig.exact]
        linarith
    · rw [clamp_of_le] <;> norm_num [AdaptiveEdgeConfig.exact]
  le := Nat.min_le_right _ _

theorem OnGrid.other (h : OnGrid e k) (hwin : o.result ≠ .win) (hloss : o.result ≠ .loss) :
    OnGrid (noteOutcomeWith id e o) k where
  config := (config_noteOutcomeWith id).trans h.config
  edge := (edge_of_other id hwin hloss).trans h.edge
  le := h.le

/-! ### All outcomes -/

theorem OnGrid.note (h : OnGrid e k) (o : Outcome) : ∃ k', OnGrid (noteOutcomeWith id e o) k' := by
  by_cases hwin : CountsAsWin o
  · exact ⟨k - 1, h.win hwin⟩
  · obtain ⟨hresult, hmarked⟩ := not_or.mp hwin
    by_cases hloss : o.result = .loss
    · exact ⟨_, h.loss hloss (Bool.eq_false_iff.mpr fun hw => hmarked ⟨hloss, hw⟩)⟩
    · exact ⟨k, h.other hresult hloss⟩

theorem onGrid_after (outcomes : List Outcome) : ∃ k, OnGrid (after outcomes) k :=
  List.foldlRecOn (motive := fun e => ∃ k, OnGrid e k) outcomes _ ⟨0, onGrid_init⟩ fun _ ⟨_, h⟩ o _ => h.note o

theorem OnGrid.above_iff (h : OnGrid e k) : e.config.initialEdge < e.edge ↔ k ≠ 0 := by
  rw [h.config, h.edge, ← Nat.pos_iff_ne_zero, ← Nat.cast_pos (α := Rat)]
  norm_num [AdaptiveEdgeConfig.exact]

theorem OnGrid.max_iff (h : OnGrid e k) : e.edge = e.config.maxEdge ↔ k = 30 := by
  rw [h.config, h.edge, ← Nat.cast_inj (R := Rat)]
  norm_num [AdaptiveEdgeConfig.exact]
  constructor <;> intro hk <;> linarith

theorem OnGrid.ne_min (h : OnGrid e k) : e.edge ≠ e.config.minEdge := by
  have h0 : (0 : Rat) ≤ k := Nat.cast_nonneg k
  rw [h.config, h.edge]
  norm_num [AdaptiveEdgeConfig.exact]
  linarith

theorem OnGrid.lt_iff {e' : AdaptiveEdge} {k' : Nat} (h : OnGrid e k) (h' : OnGrid e' k') :
    e.edge < e'.edge ↔ k < k' := by
  rw [h.edge, h'.edge, ← Nat.cast_lt (α := Rat)]
  constructor <;> intro hlt <;> linarith

theorem OnGrid.reacts_iff (h : OnGrid e k) : e.Reacts o ↔ e.Takes o := by
  constructor
  · intro hr
    refine ⟨fun ho => ?_, fun ho hmarked => ?_⟩
    · have hlt := ((h.win (Or.inl ho)).lt_iff h).mp (hr.win ho h.ne_min)
      rw [h.above_iff]
      omega
    · by_contra hmax
      have hlt := (h.lt_iff (h.win (Or.inr ⟨ho, hmarked⟩))).mp (hr.loss ho hmax)
      omega
  · intro ht
    obtain ⟨_, hnext⟩ := h.note o
    refine ⟨hnext.bounded, fun ho _ => ?_, fun ho hmax => ?_, fun hwin hloss => edge_of_other id hwin hloss⟩
    · have hk : k ≠ 0 := h.above_iff.mp (ht.win ho)
      exact ((h.win (Or.inl ho)).lt_iff h).mpr (by omega)
    · have hno : o.isWin = false := Bool.eq_false_iff.mpr fun hmarked => hmax (ht.loss ho hmarked)
      have hk : k ≠ 30 := fun hk => hmax (h.max_iff.mpr hk)
      have hle := h.le
      exact (h.lt_iff (h.loss ho hno)).mpr (by omega)

/-- After any outcomes the edge is within its bounds; and it reacts to the next one exactly if that is no win at the
    initial edge, nor a loss that is also marked as a win. -/
theorem reacts_after_iff (outcomes : List Outcome) (o : Outcome) :
    (after outcomes).Bounded ∧ ((after outcomes).Reacts o ↔ (after outcomes).Takes o) := by
  obtain ⟨k, h⟩ := onGrid_after outcomes
  exact ⟨h.bounded, h.reacts_iff⟩

/-- The first outcome is a win. -/
theorem not_reacts_firstWin : ¬(after []).Reacts { predictionId := "p", roundId := "r", result := .win, isWin := true } := by
  intro h
  have hlt := h.win rfl onGrid_init.ne_min
  exact absurd (((onGrid_init.win (Or.inl rfl)).lt_iff onGrid_init).mp hlt) (Nat.lt_irrefl 0)

end AdaptiveEdge

/-! ### Warm-up

When the client uses the edge that the warm-up of the adaptive edge calls for. It takes the adaptive edge from the
first prediction on, and that starts where it was constructed, not at the configured edge. -/

namespace ApplicationConfig

variable {config : ApplicationConfig} {edgeConfig : AdaptiveEdgeConfig} {options : ClientOptions} {outcomes : List Outcome}

/-- The outcome is one that the edge counts. -/
def Settled (o : Outcome) : Prop := o.result = .win ∨ o.result = .loss

instance : DecidablePred Settled := fun _ => inferInstanceAs (Decidable (_ ∨ _))

/-- The quality edge of `submit` is the one that `applyTo` gives: the configured edge while few outcomes were noted, and
    the adaptive one afterwards. -/
structure HonoursWarmUp (config : ApplicationConfig) (options : ClientOptions) (edgeConfig : AdaptiveEdgeConfig)
    (outcomes : List Outcome) : Prop where
  applied : ((config.setOptions options).strategyConfig (some (config.attachedEdge edgeConfig outcomes))).qualityEdge =
    ((config.attachedEdge edgeConfig outcomes).applyTo ((config.setOptions options).strategyConfig none)).qualityEdge
  edge : ((config.setOptions options).strategyConfig (some (config.attachedEdge edgeConfig outcomes))).qualityEdge =
    if (outcomes.filter Settled).length < edgeConfig.minOutcomesBeforeAdapt then config.qualityEdge
    else (config.attachedEdge edgeConfig outcomes).edge

theorem noteOutcome_config (e : AdaptiveEdge) (o : Outcome) : (e.noteOutcome o).config = e.config := by
  unfold AdaptiveEdge.noteOutcome
  split <;> rfl

theorem noteOutcome_outcomes (e : AdaptiveEdge) (o : Outcome) :
    (e.noteOutcome o).outcomes = e.outcomes + if Settled o then 1 else 0 := by
  unfold AdaptiveEdge.noteOutcome Settled
  by_cases hwin : o.result = .win
  · simp [hwin]
  · by_cases hloss : o.result = .loss <;> simp [hwin, hloss]

/-- The outcomes change no setting. -/
theorem attachedEdge_config : (config.attachedEdge edgeConfig outcomes).config =
    { edgeConfig with initialEdge := config.qualityEdge } :=
  List.foldlRecOn (motive := fun e => e.config = { edgeConfig with initialEdge := config.qualityEdge }) outcomes _ rfl
    fun e h o _ => (noteOutcome_config e o).trans h

/-- The settled outcomes are counted. -/
theorem attachedEdge_outcomes : (config.attachedEdge edgeConfig outcomes).outcomes = (outcomes.filter Settled).length := by
  have hcount := Transition.foldl_count AdaptiveEdge.outcomes noteOutcome_outcomes outcomes (config.setEdge { config := edgeConfig })
  exact hcount.trans (Nat.zero_add _)

/-- What `applyTo` does to the configured edge. -/
theorem applyTo_attachedEdge (config : ApplicationConfig) (edgeConfig : AdaptiveEdgeConfig) (options : ClientOptions)
    (outcomes : List Outcome) :
    ((config.attachedEdge edgeConfig outcomes).applyTo ((config.setOptions options).strategyConfig none)).qualityEdge =
      if (outcomes.filter Settled).length < edgeConfig.minOutcomesBeforeAdapt then config.qualityEdge
      else (config.attachedEdge edgeConfig outcomes).edge := by
  show AdaptiveEdge.qualityEdge _ config.qualityEdge = _
  rw [AdaptiveEdge.qualityEdge, attachedEdge_config, attachedEdge_outcomes]
  dsimp only
  by_cases h : edgeConfig.minOutcomesBeforeAdapt ≤ (outcomes.filter Settled).length
  · rw [if_pos h, if_neg (Nat.not_lt_of_le h)]
  · rw [if_neg h, if_pos (Nat.lt_of_not_le h)]

/-- The warm-up is honoured exactly if it is over, or the edge has the configured value by itself. -/
theorem honoursWarmUp_iff (config : ApplicationConfig) (options : ClientOptions) (edgeConfig : AdaptiveEdgeConfig)
    (outcomes : List Outcome) : config.HonoursWarmUp options edgeConfig outcomes ↔
      edgeConfig.minOutcomesBeforeAdapt ≤ (outcomes.filter Settled).length ∨
        (config.attachedEdge edgeConfig outcomes).edge = config.qualityEdge := by
  have happly := applyTo_attachedEdge config edgeConfig options outcomes
  have hedge : (config.attachedEdge edgeConfig outcomes).edge =
      (if (outcomes.filter Settled).length < edgeConfig.minOutcomesBeforeAdapt then config.qualityEdge
        else (config.attachedEdge edgeConfig outcomes).edge) ↔
      edgeConfig.minOutcomesBeforeAdapt ≤ (outcomes.filter Settled).length ∨
        (config.attachedEdge edgeConfig outcomes).edge = config.qualityEdge := by
    by_cases h : (outcomes.filter Settled).length < edgeConfig.minOutcomesBeforeAdapt
    · rw [if_pos h]
      exact ⟨Or.inr, fun hor => hor.resolve_left (Nat.not_le_of_lt h)⟩
    · rw [if_neg h]
      exact iff_of_true rfl (Or.inl (Nat.le_of_not_lt h))
  rw [← hedge]
  exact ⟨fun h => h.edge, fun h => ⟨h.trans happly.symm, h⟩⟩

/-- A quality edge of 0.05 and no outcomes: the edge is still 0.02. -/
theorem not_honoursWarmUp_noOutcomes :
    ¬HonoursWarmUp { qualityEdge := .nearest (5 / 100) } {} {} [] := by
  intro h
  have hedge : Double.nearest (2 / 100) = Double.nearest (5 / 100) := h.edge
  revert hedge
  decide +kernel

end ApplicationConfig
end CrashCore
