import CrashCore.PredictionInterface.PredictionClient

/-! When the target of a prediction is the round after the current one: as long as the number of the next round fits
into 64 bits. -/

namespace CrashCore

variable {id id' : String}

/-- The string denotes the number after that of `id`. -/
structure Succeeds (id next : String) : Prop where
  numeric : Numeric next
  value : numericValue next = numericValue id + 1

theorem nextRoundId_of_lt (h : Numeric id) (hv : numericValue id < 2 ^ 64) :
    nextRoundId id = toString ((numericValue id + 1) % 2 ^ 64) := by
  rw [nextRoundId, stoull_numeric h, if_pos hv]

theorem nextRoundId_of_le (h : Numeric id) (hv : 2 ^ 64 ≤ numericValue id) : nextRoundId id = id ++ ".next" := by
  rw [nextRoundId, stoull_numeric h, if_neg (Nat.not_lt_of_le hv)]

theorem not_numeric_append_next : ¬Numeric (id ++ ".next") := by
  intro h
  have hdot := h.2 '.' (by simp)
  cases hdot

theorem append_next_inj (h : id ++ ".next" = id' ++ ".next") : id = id' := by
  have hlist := congrArg String.toList h
  rw [String.toList_append, String.toList_append] at hlist
  exact String.toList_inj.mp (List.append_cancel_right hlist)

/-- Whatever the numbers of two rounds, when they differ the targets do. -/
theorem nextRoundId_value_inj (h : Numeric id) (h' : Numeric id') (heq : nextRoundId id = nextRoundId id') :
    numericValue id = numericValue id' := by
  by_cases hv : numericValue id < 2 ^ 64 <;> by_cases hv' : numericValue id' < 2 ^ 64
  · rw [nextRoundId_of_lt h hv, nextRoundId_of_lt h' hv'] at heq
    have hmod := Decimal.nat_injective heq
    omega
  · rw [nextRoundId_of_lt h hv, nextRoundId_of_le h' (Nat.le_of_not_lt hv')] at heq
    exact absurd (heq ▸ numeric_toString _) not_numeric_append_next
  · rw [nextRoundId_of_le h (Nat.le_of_not_lt hv), nextRoundId_of_lt h' hv'] at heq
    exact absurd (heq ▸ numeric_toString _) not_numeric_append_next
  · rw [nextRoundId_of_le h (Nat.le_of_not_lt hv), nextRoundId_of_le h' (Nat.le_of_not_lt hv')] at heq
    rw [append_next_inj heq]

theorem succeeds_iff (h : Numeric id) : Succeeds id (nextRoundId id) ↔ numericValue id + 1 < 2 ^ 64 := by
  by_cases hv : numericValue id < 2 ^ 64
  · rw [nextRoundId_of_lt h hv]
    constructor
    · intro hs
      have hvalue := hs.value
      rw [numericValue_toString] at hvalue
      omega
    · intro hfits
      refine ⟨numeric_toString _, ?_⟩
      rw [numericValue_toString, Nat.mod_eq_of_lt hfits]
  · rw [nextRoundId_of_le h (Nat.le_of_not_lt hv)]
    exact iff_of_false (fun hs => not_numeric_append_next hs.numeric) (by omega)

/-- The ids that the validator accepts: the target is the next round exactly if the number of that fits into 64 bits;
    and in any case no id with another number has the same target. -/
theorem nextRoundId_succeeds_iff (id id' : String) (h : Numeric id) (h' : Numeric id') :
    (Succeeds id (nextRoundId id) ↔ numericValue id + 1 < 2 ^ 64) ∧
      (numericValue id ≠ numericValue id' → nextRoundId id ≠ nextRoundId id') :=
  ⟨succeeds_iff h, fun hne heq => hne (nextRoundId_value_inj h h' heq)⟩

theorem nextRoundId_succeeds_iff_0099 :
    (Succeeds "0099" (nextRoundId "0099") ↔ numericValue "0099" + 1 < 2 ^ 64) ∧
      (numericValue "0099" ≠ numericValue "100" → nextRoundId "0099" ≠ nextRoundId "100") :=
  nextRoundId_succeeds_iff "0099" "100" (by decide) (by decide)

/-- The last number of 64 bits is followed by 0. -/
theorem not_succeeds_last : ¬Succeeds "18446744073709551615" (nextRoundId "18446744073709551615") := by
  rw [succeeds_iff (by decide)]
  decide

end CrashCore
