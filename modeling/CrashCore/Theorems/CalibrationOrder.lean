import CrashCore.Common.Rounding
import CrashCore.Prediction.IsotonicCalibrator
import Mathlib.Data.List.Infix

/-! When calibration is monotone. The one pass averages a 0 with the 1 before it; a second 1 before that one stays above
the average, and a second 0 behind pulls the later bin below the earlier. -/

namespace CrashCore
namespace IsotonicCalibrator

variable {c : IsotonicCalibrator} {prev b : Bin} {bs : List Bin} {s t : Double} {labels : List Int}

/-! ### From the bins to the scores -/

/-- The values of the bins do not decrease. -/
def NonDecreasing (bs : List Bin) : Prop := (bs.map Prod.snd).Pairwise (· ≤ ·)

theorem binOf_of_le (h : s ≤ b.1) : binOf s (b :: bs) = some b := List.find?_cons_of_pos (decide_eq_true h)

theorem binOf_of_not_le (h : ¬s ≤ b.1) : binOf s (b :: bs) = binOf s bs :=
  List.find?_cons_of_neg (by simpa using h)

/-- A larger score finds no earlier bin. -/
theorem binOf_le : ∀ {bs : List Bin} {last : Double}, NonDecreasing bs → (∀ b ∈ bs, b.2 ≤ last) → s ≤ t →
    (binOf s bs).elim last Prod.snd ≤ (binOf t bs).elim last Prod.snd
  | [], _, _, _, _ => le_refl _
  | b :: bs, last, h, hlast, hst => by
    obtain ⟨hhead, htail⟩ := List.pairwise_cons.mp h
    by_cases hs : s ≤ b.1
    · rw [binOf_of_le hs, Option.elim_some]
      by_cases ht : t ≤ b.1
      · rw [binOf_of_le ht, Option.elim_some]
      · rw [binOf_of_not_le ht]
        rcases hfind : binOf t bs with _ | b'
        · exact hlast b List.mem_cons_self
        · exact hhead b'.2 (List.mem_map_of_mem (List.mem_of_find?_eq_some hfind))
    · have ht : ¬t ≤ b.1 := fun ht => hs (hst.trans ht)
      rw [binOf_of_not_le hs, binOf_of_not_le ht]
      exact binOf_le htail (fun b' hb' => hlast b' (List.mem_cons_of_mem _ hb')) hst

theorem NonDecreasing.le_last {last : Bin} (h : NonDecreasing bs) (hlast : bs.getLast? = some last) (hb : b ∈ bs) :
    b.2 ≤ last.2 := by
  obtain ⟨front, rfl⟩ := List.getLast?_eq_some_iff.mp hlast
  rw [NonDecreasing, List.map_append, List.pairwise_append] at h
  rcases List.mem_append.mp hb with hb | hb
  · exact h.2.2 b.2 (List.mem_map_of_mem hb) last.2 (List.mem_map_of_mem List.mem_cons_self)
  · exact List.mem_singleton.mp hb ▸ le_refl _

/-- What a fitted calibrator answers when its last bin is known. -/
theorem calibrate_eq {last : Bin} (hfitted : c.fitted = true) (hlast : c.bins.getLast? = some last) (score : Double) :
    c.calibrate score = (binOf score c.bins).elim last.2 Prod.snd := by
  rw [calibrate, if_neg (not_not.mpr hfitted), hlast]
  rcases binOf score c.bins with _ | b
  · rfl
  · rfl

theorem calibrate_le (hfitted : c.fitted = true) (h : NonDecreasing c.bins) (hst : s ≤ t) :
    c.calibrate s ≤ c.calibrate t := by
  rcases hlast : c.bins.getLast? with _ | last
  · have hnil : c.bins = [] := List.getLast?_eq_none_iff.mp hlast
    unfold calibrate
    rwa [if_neg (not_not.mpr hfitted), if_neg (not_not.mpr hfitted), hnil]
  · rw [calibrate_eq hfitted hlast, calibrate_eq hfitted hlast]
    exact binOf_le h (fun b hb => h.le_last hlast hb) hst

/-! ### The pass -/

theorem average_zero_one : average 0 1 = 1 / 2 := by
  have hone : Double.nearest (0 + 1) = 1 := by simpa using Double.nearest_zpow 0
  have hhalf : Double.nearest (1 / 2) = 1 / 2 := by simpa using Double.nearest_zpow (-1)
  rw [average, hone, hhalf]

theorem average_zero_half : average 0 (1 / 2) = 1 / 4 := by
  have hhalf : Double.nearest (0 + 1 / 2) = 1 / 2 := by simpa using Double.nearest_zpow (-1)
  have hquarter : Double.nearest (1 / 2 / 2) = 1 / 4 := by
    have h := Double.nearest_zpow (-2)
    norm_num at h ⊢
    exact h
  rw [average, hhalf, hquarter]

/-- The value of the first bin after the pass. -/
def headValue (prev : Bin) : List Bin → Double
  | [] => prev.2
  | b :: _ => if b.2 < prev.2 then average b.2 prev.2 else prev.2

theorem poolFrom_eq_cons (prev : Bin) (bs : List Bin) : ∃ bs', poolFrom prev bs = (prev.1, headValue prev bs) :: bs' := by
  cases bs with
  | nil => exact ⟨[], rfl⟩
  | cons b bs =>
    rw [poolFrom, headValue]
    split
    · exact ⟨_, rfl⟩
    · exact ⟨_, rfl⟩

theorem nonDecreasing_cons_poolFrom (x : Bin) : NonDecreasing (x :: poolFrom prev bs) ↔
    x.2 ≤ headValue prev bs ∧ NonDecreasing (poolFrom prev bs) := by
  obtain ⟨bs', hbs'⟩ := poolFrom_eq_cons prev bs
  rw [hbs', NonDecreasing, NonDecreasing, List.map_cons, List.map_cons, ← List.isChain_iff_pairwise,
    ← List.isChain_iff_pairwise, List.isChain_cons_cons]

/-! ### The labels -/

/-- No 0 comes right after a 1 that another 1 precedes or another 0 follows. -/
def Clean (labels : List Int) : Prop := ¬[1, 1, 0] <:+: labels ∧ ¬[1, 0, 0] <:+: labels

instance : DecidablePred Clean := fun _ => inferInstanceAs (Decidable (_ ∧ _))

theorem infix_three_cons {a b c x : Int} :
    [a, b, c] <:+: x :: labels ↔ (a = x ∧ [b, c] <+: labels) ∨ [a, b, c] <:+: labels := by
  rw [List.infix_cons_iff, List.cons_prefix_cons]

theorem prefix_one {a : Int} : [a] <+: labels ↔ labels.head? = some a := by
  cases labels with
  | nil => simp
  | cons y ys => simp [List.cons_prefix_cons, eq_comm]

theorem clean_zero_cons : Clean (0 :: labels) ↔ Clean labels := by
  simp [Clean, infix_three_cons]

theorem clean_one_one_cons : Clean (1 :: 1 :: labels) ↔ labels.head? ≠ some 0 ∧ Clean (1 :: labels) := by
  simp [Clean, infix_three_cons, prefix_one]
  tauto

theorem clean_one_zero_cons : Clean (1 :: 0 :: labels) ↔ labels.head? ≠ some 0 ∧ Clean labels := by
  simp [Clean, infix_three_cons, prefix_one]
  tauto

/-! ### The pass over labels -/

variable {ps : List (Double × Int)} {score : Double}

/-- The pass over the bins of labels, behind a bin with a value. -/
def pooled (score value : Double) (ps : List (Double × Int)) : List Bin := poolFrom (score, value) (ps.map toBin)

def Binary (ps : List (Double × Int)) : Prop := ∀ p ∈ ps, p.2 = 0 ∨ p.2 = 1

theorem Binary.tail {p : Double × Int} (h : Binary (p :: ps)) : Binary ps := fun q hq => h q (List.mem_cons_of_mem _ hq)

/-- Only a 0 behind a larger value changes the bin before it. -/
theorem headValue_eq (h : Binary ps) {value : Double} (hhigh : value ≤ 1) :
    headValue (score, value) (ps.map toBin) =
      if (ps.map Prod.snd).head? = some 0 ∧ 0 < value then average 0 value else value := by
  cases ps with
  | nil => rfl
  | cons p ps =>
    rcases h p List.mem_cons_self with hp | hp
    · simp [headValue, toBin, hp]
    · simp [headValue, toBin, hp, not_lt.mpr hhigh]

theorem pooled_cons_zero {p : Double × Int} (hp : p.2 = 0) {value : Double} (hvalue : 0 < value) :
    pooled score value (p :: ps) = (score, average 0 value) :: pooled p.1 (average 0 value) ps := by
  simp [pooled, poolFrom, toBin, hp, hvalue]

/-- A bin with the value 0 is not changed. -/
theorem pooled_zero_cons {p : Double × Int} (hp : p.2 = 0 ∨ p.2 = 1) :
    pooled score 0 (p :: ps) = (score, 0) :: pooled p.1 p.2 ps := by
  rcases hp with hp | hp
  · simp [pooled, poolFrom, toBin, hp]
  · simp [pooled, poolFrom, toBin, hp, not_lt.mpr (zero_le_one : (0 : Double) ≤ 1)]

theorem pooled_cons_one {p : Double × Int} (hp : p.2 = 1) {value : Double} (hvalue : value ≤ 1) :
    pooled score value (p :: ps) = (score, value) :: pooled p.1 1 ps := by
  simp [pooled, poolFrom, toBin, hp, not_lt.mpr hvalue]

theorem nonDecreasing_singleton : NonDecreasing [b] := List.pairwise_singleton ..

/-- Behind a 1 the first value stays at least 1 / 2. -/
theorem half_le_headValue_one (h : Binary ps) : 1 / 2 ≤ headValue (score, 1) (ps.map toBin) := by
  rw [headValue_eq h le_rfl, average_zero_one]
  split <;> norm_num

theorem nonDecreasing_pooled_one : ∀ {ps : List (Double × Int)} (score : Double), Binary ps →
    (NonDecreasing (pooled score 1 ps) ↔ Clean (1 :: ps.map Prod.snd))
  | [], _, _ => iff_of_true nonDecreasing_singleton (by decide)
  | p :: ps, score, h => by
    rw [List.map_cons]
    rcases h p List.mem_cons_self with hp | hp
    · rw [pooled_cons_zero hp one_pos, average_zero_one, pooled, nonDecreasing_cons_poolFrom, hp, clean_one_zero_cons,
        headValue_eq h.tail (by norm_num), average_zero_half]
      by_cases hhead : (ps.map Prod.snd).head? = some 0
      · rw [if_pos ⟨hhead, by norm_num⟩]
        exact iff_of_false (fun hand => absurd hand.1 (by norm_num)) fun hand => hand.1 hhead
      · rw [if_neg fun hand => hhead hand.1]
        rw [and_iff_right le_rfl, and_iff_right hhead]
        -- a 1 follows, or nothing
        match ps, h.tail with
        | [], _ => exact iff_of_true nonDecreasing_singleton (by decide)
        | q :: qs, hqs =>
          have hq : q.2 = 1 := (hqs q List.mem_cons_self).resolve_left (by simpa using hhead)
          have hpooled : poolFrom (p.1, 1 / 2) ((q :: qs).map toBin) = (p.1, 1 / 2) :: pooled q.1 1 qs :=
            pooled_cons_one hq (by norm_num)
          rw [hpooled, pooled, nonDecreasing_cons_poolFrom, List.map_cons, hq]
          exact (and_iff_right (half_le_headValue_one hqs.tail)).trans (nonDecreasing_pooled_one q.1 hqs.tail)
    · rw [pooled_cons_one hp le_rfl, pooled, nonDecreasing_cons_poolFrom, hp, clean_one_one_cons,
        headValue_eq h.tail le_rfl, average_zero_one]
      refine and_congr ?_ (nonDecreasing_pooled_one p.1 h.tail)
      by_cases hhead : (ps.map Prod.snd).head? = some 0
      · rw [if_pos ⟨hhead, one_pos⟩]
        exact iff_of_false (by norm_num) (not_not.mpr hhead)
      · rw [if_neg fun hand => hhead hand.1]
        exact iff_of_true le_rfl hhead

theorem nonDecreasing_pooled_zero : ∀ {ps : List (Double × Int)} (score : Double), Binary ps →
    (NonDecreasing (pooled score 0 ps) ↔ Clean (ps.map Prod.snd))
  | [], _, _ => iff_of_true nonDecreasing_singleton (by decide)
  | p :: ps, score, h => by
    rw [List.map_cons, pooled_zero_cons (h p List.mem_cons_self), pooled, nonDecreasing_cons_poolFrom]
    rcases h p List.mem_cons_self with hp | hp
    · rw [hp, clean_zero_cons, Int.cast_zero, headValue_eq h.tail zero_le_one, if_neg fun hand => lt_irrefl _ hand.2]
      exact (and_iff_right le_rfl).trans (nonDecreasing_pooled_zero p.1 h.tail)
    · rw [hp, Int.cast_one]
      have hnonneg : (0 : Double) ≤ headValue (p.1, 1) (ps.map toBin) :=
        le_trans (by norm_num) (half_le_headValue_one h.tail)
      exact (and_iff_right hnonneg).trans (nonDecreasing_pooled_one p.1 h.tail)

/-! ### The calibrator -/

/-- The labels in the order of their scores, a 0 before a 1 at the same score. -/
def sortedLabels (scores : List Double) (labels : List Int) : List Int :=
  ((scores.zip labels).insertionSort PairLE).map Prod.snd

variable {scores : List Double}

theorem binary_sorted (h : ∀ l ∈ labels, l = 0 ∨ l = 1) : Binary ((scores.zip labels).insertionSort PairLE) := by
  rintro ⟨score, label⟩ hp
  exact h label (List.of_mem_zip ((List.mem_insertionSort _).mp hp)).2

theorem nonDecreasing_pool : ∀ {ps : List (Double × Int)}, Binary ps →
    (NonDecreasing (pool (ps.map toBin)) ↔ Clean (ps.map Prod.snd))
  | [], _ => iff_of_true List.Pairwise.nil (by decide)
  | p :: ps, h => by
    have hpool : pool ((p :: ps).map toBin) = pooled p.1 p.2 ps := rfl
    rw [hpool, List.map_cons]
    rcases h p List.mem_cons_self with hp | hp
    · rw [hp, clean_zero_cons, Int.cast_zero]
      exact nonDecreasing_pooled_zero p.1 h.tail
    · rw [hp, Int.cast_one]
      exact nonDecreasing_pooled_one p.1 h.tail

theorem fit_eq (c : IsotonicCalibrator) (hne : scores ≠ []) (hlen : scores.length = labels.length) :
    c.fit scores labels =
      { bins := pool (((scores.zip labels).insertionSort PairLE).map toBin), fitted := true } :=
  if_neg fun h => h.elim (absurd hlen) hne

theorem nonDecreasing_fit_iff (c : IsotonicCalibrator) (hne : scores ≠ []) (hlen : scores.length = labels.length)
    (h : ∀ l ∈ labels, l = 0 ∨ l = 1) :
    NonDecreasing (c.fit scores labels).bins ↔ Clean (sortedLabels scores labels) := by
  rw [fit_eq c hne hlen]
  exact nonDecreasing_pool (binary_sorted h)

/-- Calibration is monotone exactly if, in the order of the scores, no 0 comes right after a 1 that another 1 precedes
    or another 0 follows: if the labels are 0s, then pairs of a 1 and a 0, then 1s. -/
theorem monotone_calibrate_iff (c : IsotonicCalibrator) (scores : List Double) (labels : List Int) (hne : scores ≠ [])
    (hlen : scores.length = labels.length) (h : ∀ l ∈ labels, l = 0 ∨ l = 1) :
    (NonDecreasing (c.fit scores labels).bins ∧
      ∀ s t, s ≤ t → (c.fit scores labels).calibrate s ≤ (c.fit scores labels).calibrate t) ↔
      Clean (sortedLabels scores labels) := by
  rw [← nonDecreasing_fit_iff c hne hlen h]
  have hfitted : (c.fit scores labels).fitted = true := by rw [fit_eq c hne hlen]
  exact ⟨And.left, fun hbins => ⟨hbins, fun s t hst => calibrate_le hfitted hbins hst⟩⟩

theorem monotone_calibrate_pair : Clean (sortedLabels [1, 2, 3] [1, 0, 1]) ∧
    NonDecreasing (fit {} [1, 2, 3] [1, 0, 1]).bins ∧
      ∀ s t, s ≤ t → (fit {} [1, 2, 3] [1, 0, 1]).calibrate s ≤ (fit {} [1, 2, 3] [1, 0, 1]).calibrate t :=
  have hclean : Clean (sortedLabels [1, 2, 3] [1, 0, 1]) := by decide
  ⟨hclean, (monotone_calibrate_iff {} [1, 2, 3] [1, 0, 1] (by decide) rfl (by decide)).mpr hclean⟩

/-- The labels 1, 1, 0: the first bin keeps its 1, the other two get 1 / 2. -/
theorem not_monotone_calibrate : ¬NonDecreasing (fit {} [1, 2, 3] [1, 1, 0]).bins ∧
    (fit {} [1, 2, 3] [1, 1, 0]).calibrate 2 < (fit {} [1, 2, 3] [1, 1, 0]).calibrate 1 := by
  refine ⟨mt (nonDecreasing_fit_iff {} (by decide) rfl (by decide)).mp (by decide), ?_⟩
  have hsorted : (([1, 2, 3] : List Double).zip [1, 1, 0]).insertionSort PairLE = [(1, 1), (2, 1), (3, 0)] := by decide
  have hbins : pool ([(1, 1), (2, 1), (3, 0)].map toBin) = [(1, 1), (2, 1 / 2), (3, 1 / 2)] := by
    simp [pool, poolFrom, toBin, average_zero_one]
  rw [fit_eq {} (by decide) rfl, hsorted, hbins]
  norm_num [calibrate, binOf]

end IsotonicCalibrator
end CrashCore
