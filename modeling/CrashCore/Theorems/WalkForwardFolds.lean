import CrashCore.Prediction.WalkForward
import Mathlib.Algebra.Order.Field.Basic
import Mathlib.Data.Rat.Floor

/-! Walk-forward folds do not leak: the test windows are apart from the data that their folds train on, and tile the
end of the data. -/

namespace CrashCore
namespace WalkForwardEngine

variable {n nFolds : UInt64} {testFrac : Double} {size : UInt64} {f : Nat}

/-- The folds have true differences as their bounds, in the right order, and test windows that follow one another back
    from the end of the data. -/
structure Sound (n size : UInt64) (folds : List WalkForwardFold) : Prop where
  unwrapped : ∀ f (h : f < folds.length), (folds[f].testEnd.toNat : Int) = n.toNat - f * size.toNat ∧
    (folds[f].testStart.toNat : Int) = folds[f].testEnd.toNat - size.toNat
  ordered : ∀ fold ∈ folds, fold.trainStart = 0 ∧ 0 < fold.trainEnd ∧ fold.trainEnd = fold.testStart ∧
    fold.testStart < fold.testEnd ∧ fold.testEnd ≤ n
  apart : ∀ fold ∈ folds, ∀ i, fold.Tests i → ¬fold.Trains i
  disjoint : folds.Pairwise fun fold fold' => ∀ i, fold.Tests i → ¬fold'.Tests i
  contiguous : ∀ f (h : f + 1 < folds.length), folds[f + 1].testEnd = folds[f].testStart
  tiles : ∃ start ≤ n.toNat, ∀ i, (∃ fold ∈ folds, fold.Tests i) ↔ start ≤ i ∧ i < n.toNat

theorem sound_nil : Sound n size [] where
  unwrapped _ h := absurd h (Nat.not_lt_zero _)
  ordered := nofun
  apart := nofun
  disjoint := .nil
  contiguous _ h := absurd h (Nat.not_lt_zero _)
  tiles := ⟨n.toNat, Nat.le_refl _, fun i => by simp⟩

/-! ### Folds that fit -/

/-- The fold is computed without a wrap when its test window lies in the data. -/
theorem fold_fits (hpos : 0 < size.toNat) (hfits : (f + 1) * size.toNat ≤ n.toNat) :
    (fold n size (UInt64.ofNat f)).testEnd.toNat = n.toNat - f * size.toNat ∧
      (fold n size (UInt64.ofNat f)).testStart.toNat = n.toNat - (f + 1) * size.toNat := by
  have hn := n.toNat_lt
  have hsum : (f + 1) * size.toNat = f * size.toNat + size.toNat := Nat.succ_mul f size.toNat
  have hf : f < 2 ^ 64 := by
    have hle : f + 1 ≤ (f + 1) * size.toNat := Nat.le_mul_of_pos_right _ hpos
    omega
  have hproduct : (UInt64.ofNat f * size).toNat = f * size.toNat := by
    rw [UInt64.toNat_mul, UInt64.toNat_ofNat', Nat.mod_eq_of_lt hf, Nat.mod_eq_of_lt (by omega)]
  have hend : (n - UInt64.ofNat f * size).toNat = n.toNat - f * size.toNat := by
    rw [UInt64.toNat_sub_of_le _ _ (UInt64.le_iff_toNat_le.mpr (by omega)), hproduct]
  refine ⟨hend, ?_⟩
  show (if size < n - UInt64.ofNat f * size then n - UInt64.ofNat f * size - size else 0).toNat = _
  split
  · rename_i hlt
    rw [UInt64.toNat_sub_of_le _ _ (UInt64.le_of_lt hlt), hend]
    omega
  · rename_i hlt
    have hle : n.toNat - f * size.toNat ≤ size.toNat := hend ▸ UInt64.le_iff_toNat_le.mp (UInt64.not_lt.mp hlt)
    show 0 = _
    omega

/-- Windows of one size back from `n` cover what lies between the last of them and `n`. -/
theorem windows_tile {n s k i : Nat} (hk : k * s ≤ n) :
    (∃ f < k, n - (f + 1) * s ≤ i ∧ i < n - f * s) ↔ n - k * s ≤ i ∧ i < n := by
  induction k with
  | zero => simp
  | succ k ih =>
    have hsum : (k + 1) * s = k * s + s := Nat.succ_mul k s
    have hlast : (∃ f < k + 1, n - (f + 1) * s ≤ i ∧ i < n - f * s) ↔
        (∃ f < k, n - (f + 1) * s ≤ i ∧ i < n - f * s) ∨ (n - (k + 1) * s ≤ i ∧ i < n - k * s) := by
      constructor
      · rintro ⟨f, hf, hi⟩
        rcases Nat.lt_succ_iff_lt_or_eq.mp hf with hf | rfl
        · exact .inl ⟨f, hf, hi⟩
        · exact .inr hi
      · rintro (⟨f, hf, hi⟩ | hi)
        · exact ⟨f, Nat.lt_succ_of_lt hf, hi⟩
        · exact ⟨k, Nat.lt_succ_self k, hi⟩
    rw [hlast, ih (by omega)]
    omega

theorem tests_iff {i : Nat} (hpos : 0 < size.toNat) (hfits : (f + 1) * size.toNat ≤ n.toNat) :
    (fold n size (UInt64.ofNat f)).Tests i ↔ n.toNat - (f + 1) * size.toNat ≤ i ∧ i < n.toNat - f * size.toNat := by
  obtain ⟨hend, hstart⟩ := fold_fits hpos hfits
  rw [← hend, ← hstart]
  exact Iff.rfl

theorem fold_unwrapped (hpos : 0 < size.toNat) (hfits : (f + 1) * size.toNat ≤ n.toNat) :
    ((fold n size (UInt64.ofNat f)).testEnd.toNat : Int) = n.toNat - f * size.toNat ∧
      ((fold n size (UInt64.ofNat f)).testStart.toNat : Int) =
        (fold n size (UInt64.ofNat f)).testEnd.toNat - size.toNat := by
  obtain ⟨hend, hstart⟩ := fold_fits hpos hfits
  have hsum : (f + 1) * size.toNat = f * size.toNat + size.toNat := Nat.succ_mul f size.toNat
  rw [hend, hstart]
  push_cast [Nat.cast_sub hfits, Nat.cast_sub (by omega : f * size.toNat ≤ n.toNat)]
  constructor <;> ring

/-- A fold with something to train on has its bounds in the right order. -/
theorem fold_ordered (hpos : 0 < size.toNat) (hlt : (f + 1) * size.toNat < n.toNat) :
    0 < (fold n size (UInt64.ofNat f)).testStart ∧
      (fold n size (UInt64.ofNat f)).testStart < (fold n size (UInt64.ofNat f)).testEnd ∧
        (fold n size (UInt64.ofNat f)).testEnd ≤ n := by
  obtain ⟨hend, hstart⟩ := fold_fits hpos (Nat.le_of_lt hlt)
  have hsum : (f + 1) * size.toNat = f * size.toNat + size.toNat := Nat.succ_mul f size.toNat
  refine ⟨UInt64.lt_iff_toNat_lt.mpr ?_, UInt64.lt_iff_toNat_lt.mpr ?_, UInt64.le_iff_toNat_le.mpr ?_⟩
  · show 0 < (fold n size (UInt64.ofNat f)).testStart.toNat
    omega
  · omega
  · omega

/-- Later folds test earlier data. -/
theorem fold_disjoint {f' i : Nat} (hpos : 0 < size.toNat) (hfits : (f' + 1) * size.toNat ≤ n.toNat) (hlt : f < f')
    (htest : (fold n size (UInt64.ofNat f)).Tests i) : ¬(fold n size (UInt64.ofNat f')).Tests i := by
  have hle : (f + 1) * size.toNat ≤ f' * size.toNat := Nat.mul_le_mul_right _ hlt
  have hsum : (f' + 1) * size.toNat = f' * size.toNat + size.toNat := Nat.succ_mul f' size.toNat
  have hstart := ((tests_iff hpos (by omega)).mp htest).1
  intro htest'
  have hend := ((tests_iff hpos hfits).mp htest').2
  omega

/-- The first `k` folds, when all of them leave something to train on. -/
theorem sound_range {k : Nat} (hpos : 0 < size.toNat) (hk : ∀ f < k, (f + 1) * size.toNat < n.toNat) :
    Sound n size ((List.range k).map fun f => fold n size (UInt64.ofNat f)) := by
  have hfits {f : Nat} (hf : f < k) : (f + 1) * size.toNat ≤ n.toNat := Nat.le_of_lt (hk f hf)
  have hmem {fold' : WalkForwardFold} (h : fold' ∈ (List.range k).map fun f => fold n size (UInt64.ofNat f)) :
      ∃ f < k, fold n size (UInt64.ofNat f) = fold' := by simpa using h
  refine ⟨fun f hf => ?_, fun fold' h => ?_, fun fold' h i htest htrain => ?_, ?_, fun f hf => ?_, ?_⟩
  · rw [List.getElem_map, List.getElem_range]
    exact fold_unwrapped hpos (hfits (by simpa using hf))
  · obtain ⟨f, hf, rfl⟩ := hmem h
    obtain ⟨hstart, hwindow, hend⟩ := fold_ordered hpos (hk f hf)
    exact ⟨rfl, hstart, rfl, hwindow, hend⟩
  · obtain ⟨f, hf, rfl⟩ := hmem h
    exact absurd htrain.2 (Nat.not_lt.mpr htest.1)
  · rw [List.pairwise_map]
    refine List.pairwise_lt_range.imp_of_mem fun {f f'} _ hf' hlt i htest => ?_
    exact fold_disjoint hpos (hfits (List.mem_range.mp hf')) hlt htest
  · have hf : f + 1 < k := by simpa using hf
    have hend := (fold_fits hpos (hfits hf)).1
    have hstart := (fold_fits hpos (hfits (Nat.lt_of_succ_lt hf))).2
    rw [List.getElem_map, List.getElem_map, List.getElem_range, List.getElem_range]
    exact UInt64.toNat_inj.mp (hend.trans hstart.symm)
  · have hle : k * size.toNat ≤ n.toNat := by
      rcases k with _ | k
      · simp
      · exact hfits (Nat.lt_succ_self k)
    refine ⟨n.toNat - k * size.toNat, Nat.sub_le _ _, fun i => ?_⟩
    rw [← windows_tile hle]
    constructor
    · rintro ⟨fold', h, htest⟩
      obtain ⟨f, hf, rfl⟩ := hmem h
      exact ⟨f, hf, (tests_iff hpos (hfits hf)).mp htest⟩
    · rintro ⟨f, hf, hi⟩
      exact ⟨_, List.mem_map_of_mem (List.mem_range.mpr hf), (tests_iff hpos (hfits hf)).mpr hi⟩

/-! ### The folds that are kept -/

/-- Below a bound, the smaller of the bound and the length of the range are left. -/
theorem filter_range_lt (N k : Nat) : (List.range N).filter (· < k) = List.range (min N k) := by
  induction N with
  | zero => simp
  | succ N ih =>
    rw [List.range_succ, List.filter_append, ih]
    by_cases h : N < k
    · rw [Nat.min_eq_left (Nat.le_of_lt h), Nat.min_eq_left h, List.range_succ]
      simp [h]
    · rw [Nat.min_eq_right (by omega), Nat.min_eq_right (by omega)]
      simp [h]

/-- When all windows lie in the data, the folds that are kept are the first ones. -/
theorem sound_folds (hpos : 0 < size.toNat) (hfits : nFolds.toNat * size.toNat ≤ n.toNat) :
    Sound n size (folds n nFolds size) := by
  have hkept : folds n nFolds size =
      (List.range (min nFolds.toNat ((n.toNat - 1) / size.toNat))).map fun f => fold n size (UInt64.ofNat f) := by
    rw [folds, List.filter_map, ← filter_range_lt]
    refine congrArg _ (List.filter_congr fun f hf => decide_eq_decide.mpr ?_)
    have hf : f < nFolds.toNat := List.mem_range.mp hf
    have hle : (f + 1) * size.toNat ≤ n.toNat := (Nat.mul_le_mul_right _ hf).trans hfits
    have hstart : (0 : UInt64) < (fold n size (UInt64.ofNat f)).testStart ↔ (f + 1) * size.toNat < n.toNat := by
      rw [UInt64.lt_iff_toNat_lt, (fold_fits hpos hle).2]
      show 0 < _ ↔ _
      omega
    refine hstart.trans ?_
    have hdiv : f < (n.toNat - 1) / size.toNat ↔ (f + 1) * size.toNat ≤ n.toNat - 1 := Nat.le_div_iff_mul_le hpos
    have hone : 0 < (f + 1) * size.toNat := Nat.mul_pos (Nat.succ_pos f) hpos
    rw [hdiv]
    omega
  rw [hkept]
  refine sound_range hpos fun f hf => ?_
  have hf : f + 1 ≤ (n.toNat - 1) / size.toNat := (Nat.lt_min.mp hf).2
  have hle := (Nat.le_div_iff_mul_le hpos).mp hf
  have hone : 0 < (f + 1) * size.toNat := Nat.mul_pos (Nat.succ_pos f) hpos
  omega

/-! ### The size of a window -/

/-- The size before it is made one at least: not more than the data divided by the number of folds. -/
theorem truncate_mul_le (hfolds : 0 < nFolds.toNat) (hlow : 0 ≤ testFrac) (hhigh : testFrac ≤ 1) :
    (Double.truncate (n.toNat * testFrac / nFolds.toNat)).toNat * nFolds.toNat ≤ n.toNat := by
  have hvalue : (0 : Double) ≤ n.toNat * testFrac / nFolds.toNat :=
    div_nonneg (mul_nonneg (Nat.cast_nonneg _) hlow) (Nat.cast_nonneg _)
  have hpos : (0 : Double) < nFolds.toNat := Nat.cast_pos.mpr hfolds
  rw [Double.truncate_of_nonneg hvalue]
  have hfloor : ((n.toNat * testFrac / nFolds.toNat : Double).floor : Double) ≤ n.toNat * testFrac / nFolds.toNat :=
    Int.floor_le _
  have hnonneg : 0 ≤ (n.toNat * testFrac / nFolds.toNat : Double).floor := Int.floor_nonneg.mpr hvalue
  obtain ⟨t, ht⟩ := Int.eq_ofNat_of_zero_le hnonneg
  rw [ht] at hfloor ⊢
  have hle : ((t * nFolds.toNat : Nat) : Double) ≤ (n.toNat : Nat) := by
    calc ((t * nFolds.toNat : Nat) : Double) = t * nFolds.toNat := Nat.cast_mul _ _
      _ ≤ n.toNat * testFrac := (le_div_iff₀ hpos).mp hfloor
      _ ≤ n.toNat := mul_le_of_le_one_right (Nat.cast_nonneg _) hhigh
  exact Nat.cast_le.mp hle

theorem testSize_pos : 0 < (testSize n nFolds testFrac).toNat := by
  unfold testSize
  dsimp only
  split
  · rename_i h
    exact Nat.lt_trans Nat.zero_lt_one (UInt64.lt_iff_toNat_lt.mp h)
  · exact Nat.zero_lt_one

theorem testSize_mul_le (hfolds : 0 < nFolds.toNat) (hdata : nFolds.toNat ≤ n.toNat) (hlow : 0 ≤ testFrac)
    (hhigh : testFrac ≤ 1) : nFolds.toNat * (testSize n nFolds testFrac).toNat ≤ n.toNat := by
  have hsize := truncate_mul_le (n := n) hfolds hlow hhigh
  have hfits := Nat.le_mul_of_pos_right (Double.truncate (n.toNat * testFrac / nFolds.toNat)).toNat hfolds
  have hn := n.toNat_lt
  unfold testSize
  dsimp only
  split
  · rw [UInt64.toNat_ofNat', Nat.mod_eq_of_lt (by omega), Nat.mul_comm]
    exact hsize
  · simpa using hdata

/-! ### More folds than data -/

theorem range'_sublist_range {a k N : Nat} (h : a + k ≤ N) : (List.range' a k).Sublist (List.range N) := by
  obtain ⟨rest, rfl⟩ := Nat.exists_eq_add_of_le h
  rw [List.range'_eq_map_range, Nat.add_assoc, List.range_add]
  exact ((List.range_sublist.mpr (Nat.le_add_right _ _)).map _).trans (List.sublist_append_right _ _)

/-- The windows of one element of a loop that wraps around: only two of its folds leave nothing to train on. -/
theorem maxFolds_lt_length (hfolds : 2 ^ 63 ≤ nFolds.toNat) : maxFolds < (folds n nFolds 1).length := by
  have hmax : maxFolds < 2 ^ 60 := by decide
  have hn := n.toNat_lt
  have hN := nFolds.toNat_lt
  -- a run of turns that all keep their folds
  have hrun : ∃ a, a + (maxFolds + 1) ≤ nFolds.toNat ∧ ∀ f, a ≤ f → f < a + (maxFolds + 1) →
      (1 : UInt64) < n - UInt64.ofNat f := by
    have hsub (f : Nat) (hf : f < 2 ^ 64) : (n - UInt64.ofNat f).toNat = (2 ^ 64 - f + n.toNat) % 2 ^ 64 := by
      rw [UInt64.toNat_sub, UInt64.toNat_ofNat', Nat.mod_eq_of_lt hf]
    by_cases hlarge : maxFolds + 2 < n.toNat
    · refine ⟨0, by omega, fun f _ hf => UInt64.lt_iff_toNat_lt.mpr ?_⟩
      rw [hsub f (by omega)]
      show 1 < _
      omega
    · refine ⟨n.toNat + 1, by omega, fun f ha hf => UInt64.lt_iff_toNat_lt.mpr ?_⟩
      rw [hsub f (by omega)]
      show 1 < _
      omega
  obtain ⟨a, ha, hkept⟩ := hrun
  have hsublist := range'_sublist_range ha
  have hall : (List.range' a (maxFolds + 1)).filter (fun f =>
      (fold n 1 (UInt64.ofNat f)).trainStart < (fold n 1 (UInt64.ofNat f)).trainEnd) = List.range' a (maxFolds + 1) := by
    refine List.filter_eq_self.mpr fun f hf => decide_eq_true ?_
    obtain ⟨hlow, hhigh⟩ := List.mem_range'_1.mp hf
    have hlt := hkept f hlow hhigh
    show (0 : UInt64) < if 1 < n - UInt64.ofNat f * 1 then n - UInt64.ofNat f * 1 - 1 else 0
    rw [UInt64.mul_one, if_pos hlt, UInt64.lt_iff_toNat_lt, UInt64.toNat_sub_of_le _ _ (UInt64.le_of_lt hlt)]
    exact Nat.sub_pos_of_lt (UInt64.lt_iff_toNat_lt.mp hlt)
  have hlength := (hsublist.filter fun f =>
    (fold n 1 (UInt64.ofNat f)).trainStart < (fold n 1 (UInt64.ofNat f)).trainEnd).length_le
  rw [hall, List.length_range'] at hlength
  rw [folds, List.filter_map, List.length_map]
  exact Nat.lt_of_succ_le hlength

theorem testSize_eq_one (hfolds : 2 ^ 63 ≤ nFolds.toNat) (hlow : 0 ≤ testFrac) (hhigh : testFrac ≤ 1) :
    testSize n nFolds testFrac = 1 := by
  have hsize := truncate_mul_le (n := n) (Nat.lt_of_lt_of_le (by decide) hfolds) hlow hhigh
  have hn := n.toNat_lt
  have hle : (Double.truncate (n.toNat * testFrac / nFolds.toNat)).toNat ≤ 1 := by
    by_contra hlt
    have htwo := Nat.mul_le_mul_right nFolds.toNat (Nat.lt_of_not_le hlt)
    omega
  refine if_neg (UInt64.not_lt.mpr (UInt64.le_iff_toNat_le.mpr ?_))
  rw [UInt64.toNat_ofNat', Nat.mod_eq_of_lt (by omega)]
  exact hle

/-! ### All inputs -/

/-- Whatever is returned, for any amount of data, number of folds and share of test data, does not leak. -/
theorem split_sound (n : UInt64) {nFolds : UInt64} {testFrac : Double} (hfolds : 1 ≤ nFolds) (hlow : 0 ≤ testFrac)
    (hhigh : testFrac ≤ 1) : (nFolds.toNat ≤ maxFolds → split n nFolds testFrac ≠ none) ∧
      ∀ folds, split n nFolds testFrac = some folds → Sound n (testSize n nFolds testFrac) folds := by
  have hpos : 0 < nFolds.toNat := UInt64.le_iff_toNat_le.mp hfolds
  unfold split
  by_cases hfew : n < nFolds * 2
  · rw [if_pos hfew]
    refine ⟨fun _ => Option.some_ne_none _, ?_⟩
    rintro folds ⟨⟩
    exact sound_nil
  rw [if_neg hfew]
  dsimp only
  constructor
  · intro hmax
    have hlength : (folds n nFolds (testSize n nFolds testFrac)).length ≤ nFolds.toNat :=
      (List.length_filter_le _ _).trans (by simp)
    rw [if_pos (hlength.trans hmax)]
    exact Option.some_ne_none _
  · intro folds hsplit
    by_cases hlarge : 2 ^ 63 ≤ nFolds.toNat
    · rw [testSize_eq_one hlarge hlow hhigh, if_neg (Nat.not_le.mpr (maxFolds_lt_length hlarge))] at hsplit
      cases hsplit
    · have hdata : nFolds.toNat ≤ n.toNat := by
        have hle := UInt64.le_iff_toNat_le.mp (UInt64.not_lt.mp hfew)
        have htwo : (2 : UInt64).toNat = 2 := rfl
        rw [UInt64.toNat_mul, htwo] at hle
        omega
      have hsound := sound_folds testSize_pos (testSize_mul_le hpos hdata hlow hhigh)
      split at hsplit
      · exact Option.some.inj hsplit ▸ hsound
      · cases hsplit

/-- Ten elements, five folds and half of the data for tests. -/
theorem split_sound_ten : ∃ folds, split 10 5 (1 / 2) = some folds ∧
    folds.map (fun fold => (fold.trainEnd, fold.testStart, fold.testEnd)) =
      [(9, 9, 10), (8, 8, 9), (7, 7, 8), (6, 6, 7), (5, 5, 6)] ∧ Sound 10 (testSize 10 5 (1 / 2)) folds := by
  have hlow : (0 : Double) ≤ 1 / 2 := by norm_num
  have hhigh : (1 / 2 : Double) ≤ 1 := by norm_num
  have hfolds : (1 : UInt64) ≤ 5 := by decide
  have hrun : (split 10 5 (1 / 2)).map (List.map fun fold => (fold.trainEnd, fold.testStart, fold.testEnd)) =
      some [(9, 9, 10), (8, 8, 9), (7, 7, 8), (6, 6, 7), (5, 5, 6)] := by decide +kernel
  obtain ⟨folds, hsplit, hlist⟩ := Option.map_eq_some_iff.mp hrun
  exact ⟨folds, hsplit, hlist, (split_sound 10 hfolds hlow hhigh).2 folds hsplit⟩

end WalkForwardEngine
end CrashCore
