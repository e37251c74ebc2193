import CrashCore.Ingestion.WebSocketSession
import Mathlib.Algebra.Order.Field.Basic
import Mathlib.Data.Rat.Floor
import Mathlib.Tactic.Linarith
import Mathlib.Tactic.Positivity

/-! When the delay before a reconnect keeps to its maximum. The cap comes before the jitter, which may lift the delay
above it. -/

namespace CrashCore
namespace ReconnectPolicy

variable {p : ReconnectPolicy} {attempt later : Int} {draw : Double}

/-- The policies that are looked at. -/
structure Proper (p : ReconnectPolicy) : Prop where
  base_pos : 0 < p.baseMs
  base_le : p.baseMs ≤ p.maxMs
  max_lt : p.maxMs < 2 ^ 40
  jitter_nonneg : 0 ≤ p.jitterRatio
  jitter_le : p.jitterRatio ≤ 1

/-- The distribution may give `draw`. -/
def Draws (p : ReconnectPolicy) (draw : Double) : Prop := 1 - p.jitterRatio ≤ draw ∧ draw ≤ 1 + p.jitterRatio

/-- The product fits its type, the delay lies between 1 and the maximum, and without jitter no later attempt waits for
    less. -/
structure Kept (p : ReconnectPolicy) (attempt : Int) (draw : Double) : Prop where
  fits : p.baseMs * 2 ^ shift attempt < 2 ^ 63
  low : 1 ≤ p.delayMs attempt false draw
  high : p.delayMs attempt false draw ≤ p.maxMs
  mono : p.jitterRatio = 0 → ∀ later, attempt ≤ later → ∀ draw', p.delayMs attempt false draw ≤ p.delayMs later false draw'

/-- The draw lifts the delay, or the maximum itself, by less than a millisecond above the maximum. -/
def Capped (p : ReconnectPolicy) (attempt : Int) (draw : Double) : Prop :=
  p.jitterRatio = 0 ∨ (p.baseMs * 2 ^ shift attempt : Int) * draw < p.maxMs + 1 ∨ p.maxMs * draw < p.maxMs + 1

/-! ### Without jitter -/

/-- The delay before the jitter. -/
def capped (p : ReconnectPolicy) (attempt : Int) : Int := min p.maxMs (p.baseMs * 2 ^ shift attempt)

theorem delayMs_eq (p : ReconnectPolicy) (attempt : Int) (draw : Double) :
    p.delayMs attempt false draw = p.applyJitter (p.capped attempt) draw := by
  have hmin (a b : Int) : (if a < b then a else b) = min a b := by
    split <;> omega
  simp [delayMs, capped, hmin]

theorem shift_eq (attempt : Int) : shift attempt = min 20 attempt.toNat := by
  simp only [shift]
  split <;> split <;> omega

theorem capped_pos (h : p.Proper) : 1 ≤ p.capped attempt := by
  have hproduct : 0 < p.baseMs * 2 ^ shift attempt := by
    have hbase := h.base_pos
    positivity
  have hmax : 0 < p.maxMs := lt_of_lt_of_le h.base_pos h.base_le
  exact le_min hmax hproduct

theorem capped_mono (h : p.Proper) (hle : attempt ≤ later) : p.capped attempt ≤ p.capped later := by
  refine min_le_min (le_refl _) (Int.mul_le_mul_of_nonneg_left ?_ (le_of_lt h.base_pos))
  have hshift : shift attempt ≤ shift later := by
    rw [shift_eq, shift_eq]
    omega
  exact pow_le_pow_right₀ (by decide) hshift

theorem product_lt (h : p.Proper) : p.baseMs * 2 ^ shift attempt < 2 ^ 63 := by
  have hshift : shift attempt ≤ 20 := by
    rw [shift_eq]
    exact min_le_left _ _
  have hpow : (2 : Int) ^ shift attempt ≤ 2 ^ 20 := pow_le_pow_right₀ (by decide) hshift
  have hbase : p.baseMs < 2 ^ 40 := lt_of_le_of_lt h.base_le h.max_lt
  calc p.baseMs * 2 ^ shift attempt ≤ p.baseMs * 2 ^ 20 := Int.mul_le_mul_of_nonneg_left hpow (le_of_lt h.base_pos)
    _ < 2 ^ 63 := by omega

/-! ### With jitter -/

theorem applyJitter_none (h : p.jitterRatio = 0) (delay : Int) (draw : Double) : p.applyJitter delay draw = delay := by
  rw [applyJitter, h, if_pos (le_refl _)]

/-- A draw is not negative, so that the delay is rounded down. -/
theorem applyJitter_some (h : p.Proper) (hjitter : p.jitterRatio ≠ 0) (hdraw : p.Draws draw) {delay : Int}
    (hdelay : 0 ≤ delay) : p.applyJitter delay draw = max 1 (delay * draw).floor := by
  have hpos : ¬p.jitterRatio ≤ 0 := fun hle => hjitter (le_antisymm hle h.jitter_nonneg)
  have hdraw : 0 ≤ draw := le_trans (sub_nonneg.mpr h.jitter_le) hdraw.1
  have hproduct : 0 ≤ delay * draw := mul_nonneg (Int.cast_nonneg hdelay) hdraw
  rw [applyJitter, if_neg hpos, Double.truncate_of_nonneg hproduct]

/-- The smaller one of two numbers stays below a bound if one of them does. -/
theorem min_mul_lt (hdraw : 0 ≤ draw) (a b : Int) (bound : Double) :
    ((min a b : Int) : Double) * draw < bound ↔ (b : Double) * draw < bound ∨ (a : Double) * draw < bound := by
  rw [Int.cast_min, min_mul_of_nonneg _ _ hdraw, min_lt_iff, or_comm]

/-- For all attempts, policies and draws, the delay keeps to its bounds exactly if the draw does not lift it above the
    maximum. -/
theorem delay_kept_iff (h : p.Proper) (hdraw : p.Draws draw) : p.Kept attempt draw ↔ p.Capped attempt draw := by
  have hcapped : p.capped attempt ≤ p.maxMs := min_le_left _ _
  have hone : 1 ≤ p.maxMs := le_trans (capped_pos h) hcapped
  by_cases hjitter : p.jitterRatio = 0
  · refine iff_of_true ⟨product_lt h, ?_, ?_, fun _ later hle draw' => ?_⟩ (.inl hjitter)
    · rw [delayMs_eq, applyJitter_none hjitter]
      exact capped_pos h
    · rwa [delayMs_eq, applyJitter_none hjitter]
    · rw [delayMs_eq, delayMs_eq, applyJitter_none hjitter, applyJitter_none hjitter]
      exact capped_mono h hle
  · have hnonneg : 0 ≤ draw := le_trans (sub_nonneg.mpr h.jitter_le) hdraw.1
    have hdelay : p.delayMs attempt false draw = max 1 (p.capped attempt * draw).floor := by
      rw [delayMs_eq, applyJitter_some h hjitter hdraw (le_trans (by decide) (capped_pos h))]
    have hhigh : p.delayMs attempt false draw ≤ p.maxMs ↔ p.Capped attempt draw := by
      rw [hdelay, max_le_iff, ← Int.lt_add_one_iff (a := Rat.floor _), Rat.floor_lt_iff, Int.cast_add, Int.cast_one,
        capped, min_mul_lt hnonneg]
      exact ⟨fun hc => .inr hc.2, fun hc => ⟨hone, hc.resolve_left hjitter⟩⟩
    refine ⟨fun hkept => hhigh.mp hkept.high, fun hc => ⟨product_lt h, ?_, hhigh.mpr hc, fun hc => absurd hc hjitter⟩⟩
    rw [hdelay]
    exact le_max_left _ _

/-- The default policy at the fifth attempt, with a draw in the middle. -/
theorem delay_kept_default : ({} : ReconnectPolicy).Kept 5 1 := by
  have hproper : Proper {} := ⟨by decide, by decide, by decide, by norm_num, by norm_num⟩
  refine (delay_kept_iff hproper ⟨by norm_num, by norm_num⟩).mpr (.inr (.inl ?_))
  have hshift : shift 5 = 5 := rfl
  norm_num [hshift]

/-- With the largest draw the tenth attempt of the default policy waits for 36 seconds. -/
theorem not_delay_kept_default : ({} : ReconnectPolicy).Proper ∧ ({} : ReconnectPolicy).Draws (12 / 10) ∧
    ({} : ReconnectPolicy).delayMs 10 false (12 / 10) = 36000 ∧ ¬({} : ReconnectPolicy).Kept 10 (12 / 10) := by
  have hdelay : ({} : ReconnectPolicy).delayMs 10 false (12 / 10) = 36000 := by
    have hcapped : ({} : ReconnectPolicy).capped 10 = 30000 := rfl
    have hproduct : ((30000 : Int) : Double) * (12 / 10) = (36000 : Int) := by norm_num
    have hjitter : ¬(2 / 10 : Double) ≤ 0 := by norm_num
    rw [delayMs_eq, hcapped, applyJitter, if_neg hjitter, hproduct, Double.truncate_of_nonneg (by norm_num)]
    exact congrArg (max 1) (Rat.floor_intCast 36000)
  refine ⟨⟨by decide, by decide, by decide, by norm_num, by norm_num⟩, ⟨by norm_num, by norm_num⟩, hdelay, fun hkept => ?_⟩
  have hhigh := hkept.high
  rw [hdelay] at hhigh
  exact absurd hhigh (by decide)

end ReconnectPolicy
end CrashCore
