import CrashCore.Common.Types
import Mathlib.Tactic.FieldSimp
import Mathlib.Tactic.Linarith
import Mathlib.Tactic.NormNum
import Mathlib.Tactic.Positivity
import Mathlib.Tactic.Ring

/-! Rounding to the nearest integer and to the nearest `double`: how far it goes, and that the decimal places of a
`double` that has few of them survive it. -/

namespace CrashCore
namespace Double
variable {x q : Rat} {n : Int}

/-! ### To an integer -/

/-- The conversion to an integer type: towards zero. -/
def truncate (d : Double) : Int := if 0 ≤ d then d.floor else -(-d).floor

theorem truncate_of_nonneg (h : 0 ≤ x) : truncate x = x.floor := if_pos h

theorem roundTiesToEven_of_lt (h : |x - n| < 1 / 2) : roundTiesToEven x = n := by
  obtain ⟨hlow, hhigh⟩ := abs_lt.mp h
  have hfloor : x.floor = ⌊x⌋ := rfl
  unfold roundTiesToEven
  dsimp only
  rw [hfloor]
  rcases le_or_gt (n : Rat) x with hle | hlt
  · have heq : ⌊x⌋ = n := Int.floor_eq_iff.mpr ⟨hle, by linarith⟩
    rw [heq, if_pos (.inl (by linarith))]
  · have heq : ⌊x⌋ = n - 1 := Int.floor_eq_iff.mpr ⟨by push_cast; linarith, by push_cast; linarith⟩
    have hrest : x - ((n - 1 : Int) : Rat) > 1 / 2 := by
      push_cast
      linarith
    rw [heq, if_neg fun hor => ?_, sub_add_cancel]
    rcases hor with hless | ⟨htie, -⟩
    · linarith
    · linarith

theorem roundTiesToEven_intCast (n : Int) : roundTiesToEven (n : Rat) = n :=
  roundTiesToEven_of_lt (by simp)

theorem abs_roundTiesToEven_sub_le (x : Rat) : |roundTiesToEven x - x| ≤ 1 / 2 := by
  have hfloor : x.floor = ⌊x⌋ := rfl
  have hle := Int.floor_le x
  have hlt := Int.lt_floor_add_one x
  unfold roundTiesToEven
  dsimp only
  rw [hfloor]
  split
  · rename_i hor
    have hrest : x - ⌊x⌋ ≤ 1 / 2 := hor.elim le_of_lt fun h => h.1.le
    rw [abs_le]
    constructor <;> linarith
  · rename_i hor
    have hrest : 1 / 2 ≤ x - ⌊x⌋ := not_lt.mp fun h => hor (.inl h)
    push_cast
    rw [abs_le]
    constructor <;> linarith

theorem roundTiesToEven_nonneg (h : 0 ≤ x) : 0 ≤ roundTiesToEven x := by
  obtain ⟨hleft, -⟩ := abs_le.mp (abs_roundTiesToEven_sub_le x)
  have hlt : ((-1 : Int) : Rat) < roundTiesToEven x := by
    push_cast
    linarith
  exact Int.add_one_le_of_lt (Int.cast_lt.mp hlt)

theorem roundTiesToEven_half (n : Int) : roundTiesToEven (n + 1 / 2) = if n % 2 = 0 then n else n + 1 := by
  have hfloor : Rat.floor (n + 1 / 2) = n := by
    refine (Int.floor_eq_iff (a := (n : Rat) + 1 / 2)).mpr ⟨?_, ?_⟩ <;> linarith
  unfold roundTiesToEven
  dsimp only
  rw [hfloor, add_sub_cancel_left]
  simp

theorem roundTiesToEven_neg (x : Rat) : roundTiesToEven (-x) = -roundTiesToEven x := by
  have hle := Int.floor_le x
  have hlt := Int.lt_floor_add_one x
  have hneg {n : Int} (h : |x - n| < 1 / 2) : roundTiesToEven (-x) = -roundTiesToEven x := by
    rw [roundTiesToEven_of_lt h]
    refine roundTiesToEven_of_lt ?_
    rw [Int.cast_neg, neg_sub_neg, abs_sub_comm]
    exact h
  rcases lt_trichotomy (x - ⌊x⌋) (1 / 2) with h | h | h
  · refine hneg (n := ⌊x⌋) ?_
    rw [abs_lt]
    constructor <;> linarith
  · -- a tie: the even neighbour of `-x` is the negation of that of `x`
    have hx : x = ⌊x⌋ + 1 / 2 := by linarith
    have hneg : -x = ((-⌊x⌋ - 1 : Int) : Rat) + 1 / 2 := by
      push_cast
      linarith
    rw [hneg, roundTiesToEven_half, congrArg roundTiesToEven hx, roundTiesToEven_half]
    split <;> split <;> omega
  · refine hneg (n := ⌊x⌋ + 1) ?_
    push_cast
    rw [abs_lt]
    constructor <;> linarith

/-! ### To a `double` -/

/-- The distance of the neighbours of `q`. -/
def ulp (q : Rat) : Rat := 2 ^ (Int.log 2 |q| - 52)

theorem ulp_pos (q : Rat) : 0 < ulp q := zpow_pos (by norm_num) _

theorem nearest_of_ne_zero (h : q ≠ 0) : nearest q = roundTiesToEven (q / ulp q) * ulp q := by
  rw [nearest, if_neg h]
  rfl

theorem nearest_zero : nearest 0 = 0 := rfl

theorem abs_nearest_sub_le (q : Rat) : |nearest q - q| ≤ ulp q / 2 := by
  by_cases hq : q = 0
  · rw [hq, nearest_zero, sub_zero, abs_zero]
    exact (half_pos (ulp_pos 0)).le
  · have hpos := ulp_pos q
    have hround := abs_roundTiesToEven_sub_le (q / ulp q)
    have hscale : nearest q - q = (roundTiesToEven (q / ulp q) - q / ulp q) * ulp q := by
      rw [nearest_of_ne_zero hq, sub_mul, div_mul_cancel₀ q hpos.ne']
    rw [hscale, abs_mul, abs_of_pos hpos]
    calc |roundTiesToEven (q / ulp q) - q / ulp q| * ulp q ≤ 1 / 2 * ulp q :=
          mul_le_mul_of_nonneg_right hround hpos.le
      _ = ulp q / 2 := by ring

theorem nearest_neg (q : Rat) : nearest (-q) = -nearest q := by
  by_cases hq : q = 0
  · rw [hq, neg_zero, nearest_zero, neg_zero]
  · have hulp : ulp (-q) = ulp q := by rw [ulp, abs_neg, ulp]
    rw [nearest_of_ne_zero hq, nearest_of_ne_zero (neg_ne_zero.mpr hq), hulp, neg_div, roundTiesToEven_neg]
    push_cast
    ring

theorem nearest_nonneg (h : 0 ≤ q) : 0 ≤ nearest q := by
  by_cases hq : q = 0
  · rw [hq, nearest_zero]
  · rw [nearest_of_ne_zero hq]
    have hround := roundTiesToEven_nonneg (div_nonneg h (ulp_pos q).le)
    exact mul_nonneg (by exact_mod_cast hround) (ulp_pos q).le

/-! ### Few decimal places -/

theorem mul_ulp (q : Rat) : 4503599627370496 * ulp q = 2 ^ Int.log 2 |q| := by
  have hpow : (2 : Rat) ^ (52 : Int) = 4503599627370496 := by norm_num
  have hsplit : (2 : Rat) ^ (52 + (Int.log 2 |q| - 52)) = 2 ^ (52 : Int) * 2 ^ (Int.log 2 |q| - 52) :=
    zpow_add₀ (by norm_num) _ _
  rw [add_sub_cancel] at hsplit
  rw [hsplit, hpow]
  rfl

theorem le_abs_of_ne_zero (h : q ≠ 0) : 4503599627370496 * ulp q ≤ |q| := by
  rw [mul_ulp]
  exact Int.zpow_log_le_self (by norm_num) (abs_pos.mpr h)

theorem abs_lt_mul_ulp (q : Rat) : |q| < 9007199254740992 * ulp q := by
  have hnext : (2 : Rat) ^ (Int.log 2 |q| + 1) = 2 ^ Int.log 2 |q| * 2 := zpow_add_one₀ (by norm_num) _
  have hlt : |q| < (2 : Rat) ^ (Int.log 2 |q| + 1) := Int.lt_zpow_succ_log_self (by norm_num) _
  rw [hnext, ← mul_ulp] at hlt
  linarith

theorem ulp_congr (hlow : 4503599627370496 * ulp q ≤ |x|) (hhigh : |x| < 9007199254740992 * ulp q) :
    ulp x = ulp q := by
  have hpos : 0 < |x| := lt_of_lt_of_le (mul_pos (by norm_num) (ulp_pos q)) hlow
  have hnext : (2 : Rat) ^ (Int.log 2 |q| + 1) = 2 ^ Int.log 2 |q| * 2 := zpow_add_one₀ (by norm_num) _
  have hle : Int.log 2 |q| ≤ Int.log 2 |x| := by
    rw [← Int.zpow_le_iff_le_log (by norm_num) hpos]
    exact (mul_ulp q).symm.trans_le hlow
  have hlt : Int.log 2 |x| < Int.log 2 |q| + 1 := by
    rw [← Int.lt_zpow_iff_log_lt (by norm_num) hpos]
    show |x| < (2 : Rat) ^ (Int.log 2 |q| + 1)
    rw [hnext, ← mul_ulp]
    linarith
  rw [ulp, ulp, le_antisymm (Int.lt_add_one_iff.mp hlt) hle]

theorem nearest_zpow (e : Int) : nearest (2 ^ e) = 2 ^ e := by
  have hpos : (0 : Rat) < 2 ^ e := zpow_pos (by norm_num) e
  have hlog : Int.log 2 |(2 : Rat) ^ e| = e := by
    rw [abs_of_pos hpos]
    exact Int.log_zpow (by norm_num) e
  have hmul := mul_ulp (2 ^ e)
  rw [hlog] at hmul
  have hdiv : (2 : Rat) ^ e / ulp (2 ^ e) = ((4503599627370496 : Int) : Rat) := by
    rw [div_eq_iff (ulp_pos _).ne', Int.cast_ofNat]
    exact hmul.symm
  rw [nearest_of_ne_zero hpos.ne', hdiv, roundTiesToEven_intCast, Int.cast_ofNat]
  exact hmul

/-- Within half the distance of its neighbours, a `double` that is no power of two is the nearest one. -/
theorem nearest_of_lt_half_ulp (hlow : 4503599627370496 < n) (hhigh : n < 9007199254740992)
    (hx : |x - n * ulp q| < ulp q / 2) : nearest x = n * ulp q := by
  have hpos := ulp_pos q
  obtain ⟨hleft, hright⟩ := abs_lt.mp hx
  have hlow' : (4503599627370497 : Rat) ≤ n := by exact_mod_cast hlow
  have hhigh' : (n : Rat) ≤ 9007199254740991 := by exact_mod_cast Int.le_sub_one_of_lt hhigh
  have hge : 4503599627370497 * ulp q ≤ n * ulp q := mul_le_mul_of_nonneg_right hlow' hpos.le
  have hle : n * ulp q ≤ 9007199254740991 * ulp q := mul_le_mul_of_nonneg_right hhigh' hpos.le
  have hxpos : 0 < x := by linarith
  have hulp : ulp x = ulp q := by
    refine ulp_congr ?_ ?_
    · rw [abs_of_pos hxpos]
      linarith
    · rw [abs_of_pos hxpos]
      linarith
  have hround : roundTiesToEven (x / ulp q) = n := by
    refine roundTiesToEven_of_lt ?_
    have hdiv : x / ulp q - n = (x - n * ulp q) / ulp q := by
      rw [sub_div, mul_div_cancel_right₀ _ hpos.ne']
    rw [hdiv, abs_div, abs_of_pos hpos, div_lt_iff₀ hpos]
    linarith
  rw [nearest_of_ne_zero hxpos.ne', hulp, hround]

theorem nearest_round_zpow {N : Nat} (hN : 0 < N) {e : Int} (he : 0 ≤ e) :
    nearest (roundTiesToEven (2 ^ e * N) / N) = 2 ^ e := by
  obtain ⟨m, rfl⟩ := Int.eq_ofNat_of_zero_le he
  have hNpos : (0 : Rat) < N := by exact_mod_cast hN
  have hnat : (2 : Rat) ^ (m : Int) = (2 : Rat) ^ m := zpow_natCast 2 m
  have hint : (2 : Rat) ^ (m : Int) * N = ((2 ^ m * N : Int) : Rat) := by
    rw [hnat]
    push_cast
    rfl
  rw [hint, roundTiesToEven_intCast, ← hint, mul_div_cancel_right₀ _ hNpos.ne', nearest_zpow]

theorem exists_significand (hq : 0 < q) :
    ∃ n : Int, nearest q = n * ulp q ∧ 4503599627370496 ≤ n ∧ n ≤ 9007199254740992 := by
  have hupos := ulp_pos q
  have hqlow := le_abs_of_ne_zero hq.ne'
  have hqhigh := abs_lt_mul_ulp q
  rw [abs_of_pos hq] at hqlow hqhigh
  obtain ⟨n, hn⟩ : ∃ n, roundTiesToEven (q / ulp q) = n := ⟨_, rfl⟩
  obtain ⟨hnlow, hnhigh⟩ := abs_le.mp (hn ▸ abs_roundTiesToEven_sub_le (q / ulp q))
  refine ⟨n, by rw [nearest_of_ne_zero hq.ne', hn], ?_, ?_⟩
  · have hdiv : 4503599627370496 ≤ q / ulp q := (le_div_iff₀ hupos).mpr hqlow
    have hlt : ((4503599627370495 : Int) : Rat) < n := by
      push_cast
      linarith
    exact Int.add_one_le_of_lt (Int.cast_lt.mp hlt)
  · have hdiv : q / ulp q < 9007199254740992 := (div_lt_iff₀ hupos).mpr hqhigh
    have hlt : (n : Rat) < ((9007199254740993 : Int) : Rat) := by
      push_cast
      linarith
    exact Int.lt_add_one_iff.mp (Int.cast_lt.mp hlt)

/-- Where two neighbours are that far apart, the numbers are not below 1. -/
theorem log_nonneg_of_wide {N : Nat} (hle : N ≤ 4503599627370496) (hwide : 1 < ulp q * N) : 0 ≤ Int.log 2 |q| := by
  have hN : (N : Rat) ≤ 4503599627370496 := by exact_mod_cast hle
  have hbig : 1 < 4503599627370496 * ulp q := by
    calc 1 < ulp q * N := hwide
      _ ≤ ulp q * 4503599627370496 := mul_le_mul_of_nonneg_left hN (ulp_pos q).le
      _ = 4503599627370496 * ulp q := mul_comm _ _
  by_contra hneg
  have hsmall : (2 : Rat) ^ Int.log 2 |q| ≤ 1 := zpow_le_one_of_nonpos₀ (by norm_num) (not_le.mp hneg).le
  rw [← mul_ulp] at hsmall
  linarith

/-- Where two neighbours are further apart than `1 / N`, the multiple of `1 / N` next to a `double` is near enough. -/
theorem nearest_round_of_wide {N : Nat} (hN : 0 < N) (hle : N ≤ 4503599627370496) (hq : 0 < q)
    (hwide : 1 < ulp q * N) : nearest (roundTiesToEven (nearest q * N) / N) = nearest q := by
  have hNpos : (0 : Rat) < N := by exact_mod_cast hN
  obtain ⟨n, hnearest, hnlow, hnhigh⟩ := exists_significand hq
  -- a power of two with a neighbour that far is an integer
  have hlog := log_nonneg_of_wide hle hwide
  rcases eq_or_lt_of_le hnlow with rfl | hnlow
  · have hpow : nearest q = 2 ^ Int.log 2 |q| := by
      rw [hnearest, Int.cast_ofNat, mul_ulp]
    rw [hpow]
    exact nearest_round_zpow hN hlog
  rcases eq_or_lt_of_le hnhigh with rfl | hnhigh
  · have hnext : (2 : Rat) ^ (Int.log 2 |q| + 1) = 2 ^ Int.log 2 |q| * 2 := zpow_add_one₀ (by norm_num) _
    have hpow : nearest q = 2 ^ (Int.log 2 |q| + 1) := by
      rw [hnearest, Int.cast_ofNat, hnext, ← mul_ulp]
      ring
    rw [hpow]
    exact nearest_round_zpow hN (by omega)
  · rw [hnearest]
    refine nearest_of_lt_half_ulp hnlow hnhigh ?_
    have hround := abs_roundTiesToEven_sub_le (n * ulp q * N)
    have hdiv : roundTiesToEven (n * ulp q * N) / N - n * ulp q =
        (roundTiesToEven (n * ulp q * N) - n * ulp q * N) / N := by
      rw [sub_div, mul_div_cancel_right₀ _ hNpos.ne']
    rw [hdiv, abs_div, abs_of_pos hNpos, div_lt_iff₀ hNpos]
    linarith

/-- A `double` that is the nearest one to a multiple of `1 / N` is also the nearest one to the multiple of `1 / N` that
    it is rounded to. -/
theorem nearest_round_div {N : Nat} (hN : 0 < N) (hle : N ≤ 4503599627370496) (k : Nat) :
    nearest (roundTiesToEven (nearest (k / N) * N) / N) = nearest (k / N) := by
  have hNpos : (0 : Rat) < N := by exact_mod_cast hN
  have hk : (k : Rat) = k / N * N := (div_mul_cancel₀ _ hNpos.ne').symm
  by_cases hnear : |nearest (k / N) * N - k| < 1 / 2
  · rw [roundTiesToEven_of_lt (n := k) (by exact_mod_cast hnear)]
    rfl
  have hq : (k : Rat) / N ≠ 0 := by
    intro hzero
    rw [hzero, zero_mul] at hk
    rw [hzero, nearest_zero, zero_mul, hk, sub_zero, abs_zero] at hnear
    exact hnear (by norm_num)
  refine nearest_round_of_wide hN hle (lt_of_le_of_ne (by positivity) hq.symm) ?_
  have hdist : |nearest (k / N) * N - k| ≤ ulp (k / N) / 2 * N := by
    rw [congrArg (nearest (k / N) * N - ·) hk, ← sub_mul, abs_mul, abs_of_pos hNpos]
    exact mul_le_mul_of_nonneg_right (abs_nearest_sub_le _) hNpos.le
  refine lt_of_le_of_ne (by linarith [not_lt.mp hnear]) fun hone => hnear ?_
  -- neighbours at the distance `1 / N` are multiples of it, so nothing was rounded
  have hexact : (k : Rat) / N / ulp (k / N) = ((k : Int) : Rat) := by
    rw [div_div, mul_comm (N : Rat), ← hone, div_one]
    rfl
  have hsame : nearest (k / N) * N = k := by
    rw [nearest_of_ne_zero hq, hexact, roundTiesToEven_intCast, mul_assoc, ← hone, mul_one]
    rfl
  rw [hsame, sub_self, abs_zero]
  norm_num

/-- A number and its sign: what is left of the `double` next to a multiple of `1 / N` when it is rounded to such
    multiples is next to the same `double`. -/
theorem nearest_round_abs {N : Nat} (hN : 0 < N) (hle : N ≤ 4503599627370496) {d : Double} {k : Int}
    (hd : d = nearest (k / N)) :
    nearest ((if d < 0 then -1 else 1) * ((roundTiesToEven (|d| * N)).toNat / N)) = d := by
  have hNpos : (0 : Rat) < N := by exact_mod_cast hN
  have habs : |d| = nearest (k.natAbs / N) ∧ ((if d < 0 then -1 else 1) * |d| = d) := by
    rcases Int.natAbs_eq k with hk | hk
    · have hnonneg : 0 ≤ d := by
        rw [hd, hk]
        exact nearest_nonneg (by positivity)
      rw [abs_of_nonneg hnonneg, if_neg (not_lt.mpr hnonneg), one_mul]
      exact ⟨by rw [hd, congrArg Int.cast hk, Int.cast_natCast], rfl⟩
    · have hnonpos : d ≤ 0 := by
        rw [hd, hk, Int.cast_neg, neg_div, nearest_neg]
        exact neg_nonpos.mpr (nearest_nonneg (by positivity))
      refine ⟨?_, ?_⟩
      · rw [abs_of_nonpos hnonpos, hd, congrArg Int.cast hk, Int.cast_neg, neg_div, nearest_neg, neg_neg,
          Int.cast_natCast]
      · rw [abs_of_nonpos hnonpos]
        split
        · ring
        · linarith
  have hround : ((roundTiesToEven (|d| * N)).toNat : Rat) = roundTiesToEven (|d| * N) := by
    have hnonneg := roundTiesToEven_nonneg (mul_nonneg (abs_nonneg d) hNpos.le)
    exact_mod_cast congrArg (Int.cast (R := Rat)) (Int.toNat_of_nonneg hnonneg)
  have hvalue := nearest_round_div hN hle k.natAbs
  rw [← habs.1] at hvalue
  rw [hround]
  split
  · rename_i hneg
    have hsign := habs.2
    rw [if_pos hneg] at hsign
    rw [neg_one_mul, nearest_neg, hvalue, ← neg_one_mul, hsign]
  · rename_i hneg
    have hsign := habs.2
    rw [if_neg hneg, one_mul] at hsign
    rw [one_mul, hvalue, hsign]

/-! ### Order -/

theorem roundTiesToEven_bounds (x : Rat) : ⌊x⌋ ≤ roundTiesToEven x ∧ roundTiesToEven x ≤ ⌊x⌋ + 1 := by
  have hfloor : x.floor = ⌊x⌋ := rfl
  unfold roundTiesToEven
  dsimp only
  rw [hfloor]
  split <;> omega

theorem roundTiesToEven_mono {y : Rat} (h : x ≤ y) : roundTiesToEven x ≤ roundTiesToEven y := by
  rcases (Int.floor_le_floor h).lt_or_eq with hlt | heq
  · have hx := (roundTiesToEven_bounds x).2
    have hy := (roundTiesToEven_bounds y).1
    omega
  · have hx : x.floor = ⌊x⌋ := rfl
    have hy : y.floor = ⌊x⌋ := heq.symm
    have hrest : x - ⌊x⌋ ≤ y - ⌊x⌋ := sub_le_sub_right h _
    unfold roundTiesToEven
    dsimp only
    rw [hx, hy]
    split
    · split <;> omega
    · rename_i hup
      rw [if_neg fun hdown => hup ?_]
      rcases hdown with hless | ⟨htie, heven⟩
      · exact .inl (hrest.trans_lt hless)
      · rcases hrest.lt_or_eq with hless | hsame
        · exact .inl (hless.trans_eq htie)
        · exact .inr ⟨hsame.trans htie, heven⟩

theorem nearest_mono_of_pos {y : Rat} (hx : 0 < x) (h : x ≤ y) : nearest x ≤ nearest y := by
  have hy := hx.trans_le h
  have hlog : Int.log 2 |x| ≤ Int.log 2 |y| := by
    rw [abs_of_pos hx, abs_of_pos hy]
    exact Int.log_mono_right hx h
  rcases hlog.lt_or_eq with hlt | heq
  · -- a power of two lies between them
    obtain ⟨n, hn, -, hnhigh⟩ := exists_significand hx
    obtain ⟨m, hm, hmlow, -⟩ := exists_significand hy
    have hnhigh : (n : Rat) ≤ 9007199254740992 := by exact_mod_cast hnhigh
    have hmlow : (4503599627370496 : Rat) ≤ m := by exact_mod_cast hmlow
    have hnext : (2 : Rat) ^ (Int.log 2 |x| + 1) = 2 ^ Int.log 2 |x| * 2 := zpow_add_one₀ (by norm_num) _
    calc nearest x = n * ulp x := hn
      _ ≤ 9007199254740992 * ulp x := mul_le_mul_of_nonneg_right hnhigh (ulp_pos x).le
      _ = 2 ^ (Int.log 2 |x| + 1) := by
        rw [hnext, ← mul_ulp]
        ring
      _ ≤ 2 ^ Int.log 2 |y| := zpow_le_zpow_right₀ (by norm_num) hlt
      _ = 4503599627370496 * ulp y := (mul_ulp y).symm
      _ ≤ m * ulp y := mul_le_mul_of_nonneg_right hmlow (ulp_pos y).le
      _ = nearest y := hm.symm
  · have hulp : ulp x = ulp y := by rw [ulp, ulp, heq]
    rw [nearest_of_ne_zero hx.ne', nearest_of_ne_zero hy.ne', hulp]
    refine mul_le_mul_of_nonneg_right ?_ (ulp_pos y).le
    exact_mod_cast roundTiesToEven_mono (div_le_div_of_nonneg_right h (ulp_pos y).le)

theorem nearest_nonpos (h : q ≤ 0) : nearest q ≤ 0 := by
  have hneg := nearest_nonneg (neg_nonneg.mpr h)
  rw [nearest_neg] at hneg
  exact neg_nonneg.mp hneg

theorem nearest_mono {y : Rat} (h : x ≤ y) : nearest x ≤ nearest y := by
  rcases lt_or_ge 0 x with hx | hx
  · exact nearest_mono_of_pos hx h
  rcases lt_or_ge y 0 with hy | hy
  · have hneg := nearest_mono_of_pos (neg_pos.mpr hy) (neg_le_neg h)
    rw [nearest_neg, nearest_neg] at hneg
    exact neg_le_neg_iff.mp hneg
  · exact (nearest_nonpos hx).trans (nearest_nonneg hy)

/-- What is a `double` is not rounded. -/
theorem nearest_nearest_of_pos (h : 0 < q) : nearest (nearest q) = nearest q := by
  obtain ⟨n, hn, hnlow, hnhigh⟩ := exists_significand h
  rcases hnlow.lt_or_eq with hnlow | rfl
  · rcases hnhigh.lt_or_eq with hnhigh | rfl
    · rw [hn]
      refine nearest_of_lt_half_ulp hnlow hnhigh ?_
      rw [sub_self, abs_zero]
      exact half_pos (ulp_pos q)
    · have hnext : (2 : Rat) ^ (Int.log 2 |q| + 1) = 2 ^ Int.log 2 |q| * 2 := zpow_add_one₀ (by norm_num) _
      have hpow : nearest q = 2 ^ (Int.log 2 |q| + 1) := by
        rw [hn, Int.cast_ofNat, hnext, ← mul_ulp]
        ring
      rw [hpow, nearest_zpow]
  · have hpow : nearest q = 2 ^ Int.log 2 |q| := by
      rw [hn, Int.cast_ofNat, mul_ulp]
    rw [hpow, nearest_zpow]

theorem nearest_nearest (q : Rat) : nearest (nearest q) = nearest q := by
  rcases lt_trichotomy q 0 with h | rfl | h
  · have hneg := nearest_nearest_of_pos (neg_pos.mpr h)
    rw [nearest_neg, nearest_neg] at hneg
    exact neg_inj.mp hneg
  · rfl
  · exact nearest_nearest_of_pos h

theorem abs_nearest_sub_le_abs (q : Rat) : |nearest q - q| ≤ |q| / 9007199254740992 := by
  by_cases hq : q = 0
  · rw [hq, nearest_zero, sub_zero, abs_zero, zero_div]
  · have hulp := le_abs_of_ne_zero hq
    have herr := abs_nearest_sub_le q
    rw [le_div_iff₀ (by norm_num)]
    linarith

theorem nearest_le_mul (h : 0 ≤ q) : nearest q ≤ q * (9007199254740993 / 9007199254740992) := by
  have herr := (abs_le.mp (abs_nearest_sub_le_abs q)).2
  rw [abs_of_nonneg h] at herr
  linarith

theorem nearest_one : nearest 1 = 1 := by
  simpa using nearest_zpow 0

/-- Small integers are doubles. -/
theorem nearest_natCast {n : Nat} (h : n ≤ 4503599627370496) : nearest n = n := by
  rcases n.eq_zero_or_pos with rfl | hpos
  · exact nearest_zero
  have hn : (0 : Rat) < n := by exact_mod_cast hpos
  have hlow : 0 ≤ Int.log 2 |(n : Rat)| := by
    rw [abs_of_pos hn, Int.log_natCast]
    exact Int.natCast_nonneg _
  have hhigh : Int.log 2 |(n : Rat)| ≤ 52 := by
    rw [abs_of_pos hn, Int.log_natCast]
    exact_mod_cast (Nat.log_mono_right h).trans_eq (Nat.log_pow (b := 2) Nat.one_lt_two 52)
  obtain ⟨k, hk⟩ := Int.eq_ofNat_of_zero_le (sub_nonneg.mpr hhigh)
  have hulp : ulp (n : Rat) = (2 ^ k)⁻¹ := by
    rw [ulp, show Int.log 2 |(n : Rat)| - 52 = -(k : Int) by omega, zpow_neg, zpow_natCast]
  have hquot : (n : Rat) / ulp n = ((n * 2 ^ k : Nat) : Int) := by
    rw [hulp, div_inv_eq_mul]
    push_cast
    rfl
  rw [nearest_of_ne_zero hn.ne', hquot, roundTiesToEven_intCast, ← hquot, div_mul_cancel₀ _ (ulp_pos _).ne']

end Double
end CrashCore
