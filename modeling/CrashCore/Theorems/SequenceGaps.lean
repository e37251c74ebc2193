import CrashCore.Ingestion.SequenceTracker
import CrashCore.Library.Gaps

/-! What the total of missed numbers counts: the numbers that were passed over, also those that arrive late. -/

namespace CrashCore.SequenceTracker
open Gaps

/-- The observed words as numbers. -/
def numbers (obs : List (String × UInt64)) : List (String × Nat) := obs.map fun p => (p.1, p.2.toNat)

/-- Behind the largest word a source is observed with zero at most. -/
def NoTop (obs : List (String × UInt64)) : Prop :=
  obs.Pairwise fun p q => p.1 = q.1 → p.2.toNat ≠ 2 ^ 64 - 1 ∨ q.2 = 0

instance (obs : List (String × UInt64)) : Decidable (NoTop obs) := inferInstanceAs (Decidable (List.Pairwise _ obs))

variable {obs : List (String × UInt64)} {nums : List (String × Nat)} {t : SequenceTracker} {source : String}
variable {last seq : UInt64}

theorem mem_numbers : (source, seq.toNat) ∈ numbers obs ↔ (source, seq) ∈ obs := by
  simp [numbers, UInt64.toNat_inj]

/-- The tracker after some numbers: the largest of every source, and the size of the gaps. -/
structure Tracks (nums : List (String × Nat)) (t : SequenceTracker) : Prop where
  new : ∀ source, t.initialized source = false → ∀ y, (source, y) ∉ nums
  old : ∀ source, t.initialized source = true → IsLargest nums source (t.last source).toNat
  finite : (passed nums).Finite
  total : t.missedTotal.toNat = (passed nums).ncard % 2 ^ 64

theorem tracks_nil : Tracks [] {} := by
  have hempty : passed ([] : List (String × Nat)) = ∅ := by
    ext p
    simp [passed, first]
  refine ⟨by simp, by simp, ?_, ?_⟩
  · rw [hempty]
    exact Set.finite_empty
  · rw [hempty, Set.ncard_empty]
    rfl

/-- Below the largest word the gap is the one between the numbers. -/
theorem missed_toNat (h : last.toNat ≠ 2 ^ 64 - 1 ∨ seq = 0) :
    (if seq > last + 1 then seq - last - 1 else 0).toNat = seq.toNat - last.toNat - 1 := by
  rcases h with h | rfl
  swap
  · rw [if_neg UInt64.not_lt_zero, UInt64.toNat_zero]
    omega
  have hbound := last.toNat_lt
  have hsucc : (last + 1).toNat = last.toNat + 1 := by
    rw [UInt64.toNat_add, UInt64.toNat_one, Nat.mod_eq_of_lt (by omega)]
  by_cases hgap : seq > last + 1
  · have hlt : last.toNat + 1 < seq.toNat := hsucc ▸ UInt64.lt_iff_toNat_lt.mp hgap
    have hsub : (seq - last).toNat = seq.toNat - last.toNat :=
      UInt64.toNat_sub_of_le _ _ (UInt64.le_iff_toNat_le.mpr (by omega))
    rw [if_pos hgap, UInt64.toNat_sub_of_le _ _ (UInt64.le_iff_toNat_le.mpr (by rw [hsub, UInt64.toNat_one]; omega)), hsub,
      UInt64.toNat_one]
  · have hle : seq.toNat ≤ last.toNat + 1 := hsucc ▸ UInt64.le_iff_toNat_le.mp (UInt64.not_lt.mp hgap)
    rw [if_neg hgap, UInt64.toNat_zero]
    omega

theorem larger_toNat : (if seq > last then seq else last).toNat = max last.toNat seq.toNat := by
  by_cases h : seq > last
  · rw [if_pos h, Nat.max_eq_right (Nat.le_of_lt (UInt64.lt_iff_toNat_lt.mp h))]
  · rw [if_neg h, Nat.max_eq_left (UInt64.le_iff_toNat_le.mp (UInt64.not_lt.mp h))]

theorem notMem_concat {other : String} {y : Nat} (hne : other ≠ source) (h : ∀ z, (other, z) ∉ nums) (z : Nat) :
    (other, z) ∉ nums ++ [(source, y)] := by
  simpa [hne] using h z

/-- The first number of a source opens no gap. -/
theorem tracks_new (h : Tracks nums t) (hnew : t.initialized source = false) :
    Tracks (nums ++ [(source, seq.toNat)]) (t.observe source seq).2 := by
  have hpassed : passed (nums ++ [(source, seq.toNat)]) = passed nums := passed_concat_new (h.new source hnew)
  rw [observe_new hnew]
  refine ⟨fun other hother => ?_, fun other hother => ?_, hpassed ▸ h.finite, hpassed ▸ h.total⟩
  · by_cases hne : other = source
    · subst hne
      simp at hother
    · exact notMem_concat hne (h.new other (by simpa [hne] using hother))
  · by_cases hne : other = source
    · subst hne
      simpa using isLargest_concat_new (h.new other hnew) seq.toNat
    · have hlargest := h.old other (by simpa [hne] using hother)
      simpa [hne] using isLargest_concat_other hlargest hne seq.toNat

/-- Every other one opens the gap above the largest before it. -/
theorem tracks_old (h : Tracks nums t) (hold : t.initialized source = true)
    (htop : (t.last source).toNat ≠ 2 ^ 64 - 1 ∨ seq = 0) :
    Tracks (nums ++ [(source, seq.toNat)]) (t.observe source seq).2 := by
  obtain ⟨hfinite, hcard⟩ := ncard_passed_concat (h.old source hold) h.finite seq.toNat
  rw [observe_old hold]
  refine ⟨fun other hother => ?_, fun other hother => ?_, hfinite, ?_⟩
  · have hne : other ≠ source := by
      rintro rfl
      exact absurd (hold.symm.trans hother) (by decide)
    exact notMem_concat hne (h.new other hother)
  · by_cases hne : other = source
    · subst hne
      show IsLargest _ _ (Function.update t.last other _ other).toNat
      rw [Function.update_self, larger_toNat]
      exact isLargest_concat (h.old other hold) seq.toNat
    · show IsLargest _ _ (Function.update t.last source _ other).toNat
      rw [Function.update_of_ne hne]
      exact isLargest_concat_other (h.old other hother) hne seq.toNat
  · rw [UInt64.toNat_add, missed_toNat htop, hcard, h.total]
    exact Nat.mod_add_mod ..

theorem tracks_after (h : NoTop obs) : Tracks (numbers obs) (after obs) := by
  induction obs using List.reverseRecOn with
  | nil => exact tracks_nil
  | append_singleton obs p ih =>
    obtain ⟨hobs, -, htop⟩ := List.pairwise_append.mp h
    have htracks := ih hobs
    rw [after_concat, numbers, List.map_append]
    cases hinit : (after obs).initialized p.1 with
    | false => exact tracks_new htracks hinit
    | true =>
      have hmem := mem_numbers.mp (htracks.old p.1 hinit).1
      exact tracks_old htracks hinit (htop _ hmem p (List.mem_singleton_self p) rfl)

/-- The total is the number of those that were passed over, of which the ones that never arrive are a part. -/
theorem missedTotal_passed (h : NoTop obs) :
    (after obs).missedTotal.toNat = (passed (numbers obs)).ncard % 2 ^ 64 ∧
      missing (numbers obs) = passed (numbers obs) \ {p | p ∈ numbers obs} :=
  ⟨(tracks_after h).total, Set.ext fun _ => mem_missing⟩

theorem missedTotal_passed_late :
    (after [("a", 1), ("b", 7), ("a", 5), ("a", 3)]).missedTotal.toNat =
        (passed (numbers [("a", 1), ("b", 7), ("a", 5), ("a", 3)])).ncard % 2 ^ 64 ∧
      missing (numbers [("a", 1), ("b", 7), ("a", 5), ("a", 3)]) =
        passed (numbers [("a", 1), ("b", 7), ("a", 5), ("a", 3)]) \
          {p | p ∈ numbers [("a", 1), ("b", 7), ("a", 5), ("a", 3)]} :=
  missedTotal_passed (by decide)

/-- A number that arrives late stays counted as missed. -/
theorem not_missedTotal_missing :
    ¬∀ obs, (after obs).missedTotal.toNat = (missing (numbers obs)).ncard := by
  intro h
  have hone := h [("a", 1), ("a", 3), ("a", 2)]
  have hempty : missing (numbers [("a", 1), ("a", 3), ("a", 2)]) = ∅ := by
    ext ⟨source, x⟩
    simp only [Set.mem_empty_iff_false, iff_false]
    rintro ⟨⟨f, hf, hfx⟩, ⟨y, hy, hxy⟩, hnot⟩
    obtain ⟨rfl, hy⟩ : source = "a" ∧ (y = 1 ∨ y = 3 ∨ y = 2) := by
      simpa [numbers, ← and_or_left] using hy
    have hfirst : f = 1 ∨ f = 3 ∨ f = 2 := by simpa [numbers] using mem_of_first hf
    have hnot : x ≠ 1 ∧ x ≠ 3 ∧ x ≠ 2 := by simpa [numbers] using hnot
    have hfx : f < x := hfx
    have hxy : x < y := hxy
    omega
  rw [hempty, Set.ncard_empty] at hone
  exact absurd hone (by decide)

end CrashCore.SequenceTracker
