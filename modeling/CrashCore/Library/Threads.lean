import Mathlib.Algebra.BigOperators.Group.Finset.Basic
import Mathlib.Data.Fintype.Basic
import Mathlib.Tactic.Abel

/-! Threads that each stand at a place of their program and move one at a time: `Function.update places i p`. What a place
still owes to a shared total is summed over all threads; what some thread does at its place is kept by the moves of the
others. -/

namespace Threads

variable {τ ρ : Type} [DecidableEq τ] {places : τ → ρ} {i : τ} {p : ρ}

/-- A total and what the threads still owe to it: the thread that moves adds to the total what it owes less, and owes what
    is called for in addition. -/
theorem add_sum_update [Fintype τ] {M : Type} [AddCommMonoid M] (owed : ρ → M) {q q' c d : M}
    (h : q + ∑ j, owed (places j) = c) (hmove : q' + owed p = q + owed (places i) + d) :
    q' + ∑ j, owed (Function.update places i p j) = c + d := by
  rw [← Finset.add_sum_erase _ _ (Finset.mem_univ i)] at h
  have hrest : ∑ j ∈ Finset.univ.erase i, owed (Function.update places i p j) = ∑ j ∈ Finset.univ.erase i, owed (places j) :=
    Finset.sum_congr rfl fun j hj => by rw [Function.update_of_ne (Finset.ne_of_mem_erase hj)]
  rw [← Finset.add_sum_erase _ _ (Finset.mem_univ i), Function.update_self, hrest, ← add_assoc, hmove, ← h]
  abel

theorem sum_update_of_paid [Fintype τ] {M : Type} [AddCommMonoid M] (owed : ρ → M) {q q' c : M}
    (h : q + ∑ j, owed (places j) = c) (hmove : q' + owed p = q + owed (places i)) :
    q' + ∑ j, owed (Function.update places i p j) = c := by
  simpa only [add_zero] using add_sum_update owed h (d := 0) (by rw [hmove, add_zero])

/-- Some thread is still at such a place, if the one that moves stays at such a place. -/
theorem exists_update {R : ρ → Prop} (h : ∃ j, R (places j)) (hmove : R (places i) → R p) :
    ∃ j, R (Function.update places i p j) := by
  obtain ⟨j, hj⟩ := h
  by_cases hji : j = i
  · exact ⟨i, by rw [Function.update_self]; exact hmove (hji ▸ hj)⟩
  · exact ⟨j, by rwa [Function.update_of_ne hji]⟩

/-- What holds of every place holds after a move to a place it holds of. -/
theorem forall_update {R : τ → ρ → Prop} (h : ∀ j, R j (places j)) (hmove : R i p) (j : τ) :
    R j (Function.update places i p j) := by
  by_cases hji : j = i
  · rw [hji, Function.update_self]
    exact hmove
  · rw [Function.update_of_ne hji]
    exact h j

end Threads
