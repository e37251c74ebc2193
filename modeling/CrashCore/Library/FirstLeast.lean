/-! The first of the least elements of a list, as a loop finds it that keeps what is best so far: its index and its value.
The loop starts with a bound, and an element that is not below it is not taken. Of the order only what a partial
comparison has is asked. -/

namespace List
variable {δ : Type} {lt : δ → δ → Bool} {best : Nat × δ} {ds : List δ} {c : Nat}

/-- The loop from the index `c` on. -/
def firstLeast (lt : δ → δ → Bool) (c : Nat) (best : Nat × δ) : List δ → Nat × δ
  | [] => best
  | d :: ds => firstLeast lt (c + 1) (if lt d best.2 then (c, d) else best) ds

/-- What is found is what was best before, or an element of the list. -/
theorem firstLeast_eq_or (lt : δ → δ → Bool) (c : Nat) (best : Nat × δ) (ds : List δ) : firstLeast lt c best ds = best ∨
    ∃ i, ∃ h : i < ds.length, firstLeast lt c best ds = (c + i, ds[i]) := by
  induction ds generalizing c best with
  | nil => exact .inl rfl
  | cons d ds ih =>
    rw [firstLeast]
    rcases ih (c + 1) (if lt d best.2 then (c, d) else best) with heq | ⟨i, hi, heq⟩
    · rw [heq]
      by_cases hlt : lt d best.2 = true
      · rw [if_pos hlt]
        exact .inr ⟨0, Nat.zero_lt_succ _, rfl⟩
      · rw [if_neg hlt]
        exact .inl rfl
    · refine .inr ⟨i + 1, Nat.succ_lt_succ hi, heq.trans ?_⟩
      rw [getElem_cons_succ, Nat.add_right_comm, Nat.add_assoc]

theorem firstLeast_lt {n : Nat} (hbest : best.1 < n) (hlen : c + ds.length ≤ n) : (firstLeast lt c best ds).1 < n := by
  rcases firstLeast_eq_or lt c best ds with heq | ⟨i, hi, heq⟩
  · rwa [heq]
  · rw [heq]
    exact Nat.lt_of_lt_of_le (Nat.add_lt_add_left hi c) hlen

section Order
variable (htrans : ∀ a b c, lt a b = true → lt b c = true → lt a c = true)
include htrans

/-- The value only goes down. -/
theorem firstLeast_le (c : Nat) (best : Nat × δ) (ds : List δ) : (firstLeast lt c best ds).2 = best.2 ∨ lt (firstLeast lt c best ds).2 best.2 = true := by
  induction ds generalizing c best with
  | nil => exact .inl rfl
  | cons d ds ih =>
    rw [firstLeast]
    by_cases hlt : lt d best.2 = true
    · rw [if_pos hlt]
      rcases ih (c + 1) (c, d) with heq | hdown
      · exact .inr (heq ▸ hlt)
      · exact .inr (htrans _ _ _ hdown hlt)
    · rw [if_neg hlt]
      exact ih _ _

/-- Nothing is below what is found. -/
theorem not_lt_firstLeast (hirrefl : ∀ a, lt a a = false) :
    ∀ d ∈ ds, lt d (firstLeast lt c best ds).2 = false := by
  induction ds generalizing c best with
  | nil => exact fun _ h => absurd h not_mem_nil
  | cons d ds ih =>
    rw [firstLeast]
    refine forall_mem_cons.mpr ⟨?_, ih⟩
    rw [Bool.eq_false_iff]
    by_cases hlt : lt d best.2 = true
    · rw [if_pos hlt]
      intro hbelow
      rcases firstLeast_le htrans (c + 1) (c, d) ds with heq | hdown
      · rw [heq, hirrefl] at hbelow
        cases hbelow
      · have hself := htrans _ _ _ hbelow hdown
        rw [hirrefl] at hself
        cases hself
    · rw [if_neg hlt]
      intro hbelow
      rcases firstLeast_le htrans (c + 1) best ds with heq | hdown
      · exact hlt (heq ▸ hbelow)
      · exact hlt (htrans _ _ _ hbelow hdown)

/-- An element below the first bound makes what is found an element of the list. -/
theorem firstLeast_eq_getElem (hirrefl : ∀ a, lt a a = false) {d : δ} (hd : d ∈ ds) (hlt : lt d best.2 = true) :
    ∃ i, ∃ h : i < ds.length, firstLeast lt c best ds = (c + i, ds[i]) := by
  refine (firstLeast_eq_or lt c best ds).resolve_left fun heq => ?_
  have hnot : lt d (firstLeast lt c best ds).2 = false := not_lt_firstLeast htrans hirrefl d hd
  rw [heq, hlt] at hnot
  cases hnot

end Order
end List
