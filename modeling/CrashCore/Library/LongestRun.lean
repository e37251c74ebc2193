import Mathlib.Data.List.DropRight
import Mathlib.Data.List.Infix

/-! Runs of a list: its sublists of neighbours that all have a property. The run at the end is `List.rtakeWhile`; the
longest run of a list that grows at its end is known from the one before and the run at the end. The pairs of
neighbours are `l.zip l.tail`. -/

namespace List
variable {α : Type} {p : α → Bool} {l r : List α} {x : α} {n : Nat}

/-- The longest runs of `l` have `n` elements. -/
structure IsLongestRun (p : α → Bool) (l : List α) (n : Nat) : Prop where
  exists_run : ∃ r, r <:+: l ∧ (∀ x ∈ r, p x = true) ∧ r.length = n
  length_le : ∀ r, r <:+: l → (∀ x ∈ r, p x = true) → r.length ≤ n

theorem isLongestRun_nil : IsLongestRun p [] 0 where
  exists_run := ⟨[], infix_refl _, fun _ h => absurd h not_mem_nil, rfl⟩
  length_le r hr _ := by rw [eq_nil_of_infix_nil hr, length_nil]

/-- A run at the end lies in the longest one there. -/
theorem length_le_rtakeWhile (hr : r <:+ l) (hp : ∀ x ∈ r, p x = true) : r.length ≤ (l.rtakeWhile p).length := by
  induction l using reverseRecOn generalizing r with
  | nil => rw [suffix_nil.mp hr, length_nil]; exact Nat.zero_le _
  | append_singleton l x ih =>
    rcases suffix_concat_iff.mp hr with rfl | ⟨t, rfl, ht⟩
    · exact Nat.zero_le _
    · have hx : p x = true := hp x (mem_append_right _ mem_cons_self)
      rw [rtakeWhile_concat_pos _ _ _ hx, length_append, length_append]
      exact Nat.add_le_add_right (ih ht fun y hy => hp y (mem_append_left _ hy)) _

theorem IsLongestRun.concat (h : IsLongestRun p l n) (x : α) :
    IsLongestRun p (l ++ [x]) (max n ((l ++ [x]).rtakeWhile p).length) where
  exists_run := by
    rcases le_total n ((l ++ [x]).rtakeWhile p).length with hle | hle
    · rw [Nat.max_eq_right hle]
      exact ⟨_, (rtakeWhile_suffix _ _).isInfix, fun _ => mem_rtakeWhile_imp, rfl⟩
    · obtain ⟨r, hr, hp, hlen⟩ := h.exists_run
      rw [Nat.max_eq_left hle]
      exact ⟨r, hr.trans (prefix_append _ _).isInfix, hp, hlen⟩
  length_le r hr hp := by
    rcases infix_concat_iff.mp hr with hend | hinner
    · exact (length_le_rtakeWhile hend hp).trans (Nat.le_max_right _ _)
    · exact (h.length_le r hinner hp).trans (Nat.le_max_left _ _)

/-- An element without the property makes no run longer. -/
theorem IsLongestRun.concat_neg (h : IsLongestRun p l n) (hx : ¬p x = true) : IsLongestRun p (l ++ [x]) n := by
  have hconcat := h.concat x
  rwa [rtakeWhile_concat_neg _ _ _ hx, length_nil, Nat.max_zero] at hconcat

theorem length_rtakeWhile_concat (p : α → Bool) (l : List α) (x : α) :
    ((l ++ [x]).rtakeWhile p).length = if p x then (l.rtakeWhile p).length + 1 else 0 := by
  split
  · rename_i hx
    rw [rtakeWhile_concat_pos _ _ _ hx, length_append, length_singleton]
  · rename_i hx
    rw [rtakeWhile_concat_neg _ _ _ hx, length_nil]

/-! ### Neighbours -/

theorem zip_tail_concat (x : α) : ∀ l : List α, (l ++ [x]).zip (l ++ [x]).tail = l.zip l.tail ++ l.getLast?.toList.map (·, x)
  | [] => rfl
  | [_] => rfl
  | y :: z :: l => by
    have ih := zip_tail_concat x (z :: l)
    simp only [cons_append, tail_cons, zip_cons_cons, getLast?_cons_cons] at ih ⊢
    rw [ih]

theorem length_zip_tail (l : List α) : (l.zip l.tail).length = l.length - 1 := by
  rw [length_zip, length_tail, Nat.min_eq_right (Nat.sub_le _ _)]

end List
