import Mathlib.Data.List.Basic

/-! Search for a piece of a text from a position on, as in `std::string::find`, over lists of arbitrary elements. -/

namespace TextSearch
variable {α : Type} {text needle rest gap : List α} {x : α} {pos i : Nat}

/-- The needle stands at position `i`. -/
def Occurs (needle text : List α) (i : Nat) : Prop := needle <+: text.drop i

theorem occurs_drop {j : Nat} : Occurs needle (text.drop pos) j ↔ Occurs needle text (pos + j) := by
  rw [Occurs, Occurs, List.drop_drop]

theorem Occurs.lt_length (h : Occurs needle text i) (hne : needle ≠ []) : i < text.length := by
  by_contra hle
  rw [Occurs, List.drop_eq_nil_of_le (Nat.le_of_not_lt hle)] at h
  exact hne (List.prefix_nil.mp h)

/-- The first occurrence of the needle has `gap` in front of it and `rest` behind it. -/
structure FirstAt (needle text gap rest : List α) : Prop where
  eq : text = gap ++ (needle ++ rest)
  first : ∀ i, i < gap.length → ¬Occurs needle text i

/-- What stands behind the needle that a search finds. -/
theorem FirstAt.drop_eq (h : FirstAt needle (text.drop pos) gap rest) :
    text.drop (pos + gap.length + needle.length) = rest := by
  rw [Nat.add_assoc, ← List.drop_drop, h.eq, ← List.append_assoc, ← List.length_append, List.drop_left]

theorem FirstAt.occurs (h : FirstAt needle text gap rest) : Occurs needle text gap.length := by
  rw [Occurs, h.eq, List.drop_left]
  exact List.prefix_append needle rest

theorem FirstAt.isInfix (h : FirstAt needle text gap rest) : needle <:+: text :=
  ⟨gap, rest, by rw [List.append_assoc]; exact h.eq.symm⟩

/-- The first occurrence in a text is not behind the first one in what is left of it. -/
theorem FirstAt.suffix {text' gap' rest' : List α} (h : FirstAt needle text gap rest) (h' : FirstAt needle text' gap' rest')
    (hleft : text' <:+ text) : rest' <:+ rest := by
  obtain ⟨before, rfl⟩ := hleft
  have hocc : Occurs needle (before ++ text') (before.length + gap'.length) := by
    refine occurs_drop.mp ?_
    rw [List.drop_left]
    exact h'.occurs
  have hle : gap.length ≤ before.length + gap'.length := Nat.le_of_not_lt fun hlt => h.first _ hlt hocc
  have hrest : (before ++ text').drop (gap.length + needle.length) = rest := by
    rw [h.eq, ← List.append_assoc, ← List.length_append, List.drop_left]
  have hrest' : (before ++ text').drop (before.length + gap'.length + needle.length) = rest' := by
    rw [Nat.add_assoc, ← List.drop_drop, List.drop_left, h'.eq, ← List.append_assoc, ← List.length_append, List.drop_left]
  rw [← hrest, ← hrest']
  exact List.drop_suffix_drop_left _ (Nat.add_le_add_right hle _)

/-- The first occurrence in a text is the first one in a part of it that it is left in. -/
theorem FirstAt.later {text' : List α} (h : FirstAt needle text gap rest) (hleft : text' <:+ text)
    (hin : needle ++ rest <:+ text') : ∃ gap', FirstAt needle text' gap' rest := by
  obtain ⟨before, rfl⟩ := hleft
  obtain ⟨gap', rfl⟩ := hin
  refine ⟨gap', rfl, fun i hi hocc => h.first (before.length + i) ?_ (occurs_drop.mp (by rwa [List.drop_left]))⟩
  have hlen := congrArg List.length h.eq
  simp only [List.length_append] at hlen
  omega

variable [DecidableEq α]

/-- The position of the first occurrence of `needle` in `rest`, whose first element is at position `i`. -/
def findFrom (needle : List α) : List α → Nat → Option Nat
  | [], i => if needle = [] then some i else none
  | x :: rest, i => if needle.isPrefixOf (x :: rest) then some i else findFrom needle rest (i + 1)

/-- The first occurrence at or after `pos`. -/
def find (text needle : List α) (pos : Nat) : Option Nat :=
  if text.length < pos then none else findFrom needle (text.drop pos) pos

/-- A search that starts in the text looks at what comes after its start. -/
theorem find_of_drop (h : text.drop pos = rest) (hne : rest ≠ []) : find text needle pos = findFrom needle rest pos := by
  have hlen : ¬text.length < pos := fun hlt => hne (h ▸ List.drop_eq_nil_of_le (Nat.le_of_lt hlt))
  rw [find, if_neg hlen, h]

theorem findFrom_head (h : needle ≠ []) : findFrom needle (needle ++ rest) i = some i := by
  obtain ⟨y, ys, rfl⟩ := List.exists_cons_of_ne_nil h
  rw [List.cons_append, findFrom, if_pos (by simp [List.isPrefixOf])]

/-- Elements other than the first of the needle are passed over. -/
theorem findFrom_skip (h : x ∉ gap) : findFrom (x :: needle) (gap ++ rest) i = findFrom (x :: needle) rest (i + gap.length) := by
  induction gap generalizing i with
  | nil => rfl
  | cons y gap ih =>
    obtain ⟨hxy, hgap⟩ : x ≠ y ∧ x ∉ gap := by simpa using h
    rw [List.cons_append, findFrom, if_neg (by simp [List.isPrefixOf, hxy]), ih hgap, List.length_cons, Nat.add_assoc,
      Nat.add_comm 1]

theorem findFrom_none (h : x ∉ gap) : findFrom (x :: needle) gap i = none := by
  induction gap generalizing i with
  | nil => rfl
  | cons y gap ih =>
    obtain ⟨hxy, hgap⟩ : x ≠ y ∧ x ∉ gap := by simpa using h
    rw [findFrom, if_neg (by simp [List.isPrefixOf, hxy]), ih hgap]

theorem le_findFrom {j : Nat} (h : findFrom needle rest i = some j) : i ≤ j := by
  induction rest generalizing i with
  | nil =>
    rw [findFrom] at h
    split at h
    · exact Nat.le_of_eq (Option.some.inj h)
    · cases h
  | cons y rest ih =>
    rw [findFrom] at h
    split at h
    · exact Nat.le_of_eq (Option.some.inj h)
    · exact Nat.le_of_succ_le (ih h)

/-- Nothing is found before the start of the search. -/
theorem le_find {j : Nat} (h : find text needle pos = some j) : pos ≤ j := by
  rw [find] at h
  split at h
  · cases h
  · exact le_findFrom h

theorem find_of_length_le (h : text.length ≤ pos) (hne : needle ≠ []) : find text needle pos = none := by
  rw [find, List.drop_eq_nil_of_le h, findFrom, if_neg hne, ite_self]

/-! ### Occurrences -/

theorem findFrom_eq_none (hne : needle ≠ []) : findFrom needle rest i = none ↔ ∀ j, ¬Occurs needle rest j := by
  induction rest generalizing i with
  | nil =>
    rw [findFrom, if_neg hne]
    refine ⟨fun _ j hj => hne ?_, fun _ => rfl⟩
    rw [Occurs, List.drop_nil] at hj
    exact List.prefix_nil.mp hj
  | cons x rest ih =>
    rw [findFrom]
    split
    · rename_i hx
      exact ⟨nofun, fun h => absurd (List.isPrefixOf_iff_prefix.mp hx) (h 0)⟩
    · rename_i hx
      rw [ih]
      refine ⟨fun h j => ?_, fun h j => h (j + 1)⟩
      cases j with
      | zero => exact fun hj => hx (List.isPrefixOf_iff_prefix.mpr hj)
      | succ j => exact h j

/-- Where a needle stands that does not stand further in front, the search finds it. -/
theorem findFrom_eq_some (hne : needle ≠ []) {j : Nat} (hj : Occurs needle rest j)
    (hfirst : ∀ k, k < j → ¬Occurs needle rest k) : findFrom needle rest i = some (i + j) := by
  induction rest generalizing i j with
  | nil =>
    rw [Occurs, List.drop_nil] at hj
    exact absurd (List.prefix_nil.mp hj) hne
  | cons x rest ih =>
    rw [findFrom]
    cases j with
    | zero =>
      have hx : needle.isPrefixOf (x :: rest) = true := List.isPrefixOf_iff_prefix.mpr hj
      rw [if_pos hx, Nat.add_zero]
    | succ j =>
      have hx : ¬needle.isPrefixOf (x :: rest) = true := fun h =>
        hfirst 0 (Nat.succ_pos j) (List.isPrefixOf_iff_prefix.mp h)
      rw [if_neg hx, ih (j := j) hj fun k hk => hfirst (k + 1) (Nat.succ_lt_succ hk), Nat.add_assoc, Nat.add_comm 1]

theorem find_eq_none (hne : needle ≠ []) : find text needle pos = none ↔ ∀ j, pos ≤ j → ¬Occurs needle text j := by
  by_cases hlen : text.length < pos
  · rw [find, if_pos hlen]
    exact ⟨fun _ j hj h => absurd (h.lt_length hne) (by omega), fun _ => rfl⟩
  · rw [find, if_neg hlen, findFrom_eq_none hne]
    constructor
    · intro h j hj hocc
      exact h (j - pos) (occurs_drop.mpr (by rwa [Nat.add_sub_cancel' hj]))
    · intro h j hocc
      exact h (pos + j) (Nat.le_add_right _ _) (occurs_drop.mp hocc)

theorem find_eq_some (hne : needle ≠ []) {j : Nat} (hpos : pos ≤ j) (hj : Occurs needle text j)
    (hfirst : ∀ k, pos ≤ k → k < j → ¬Occurs needle text k) : find text needle pos = some j := by
  have hlen : ¬text.length < pos := by
    have := hj.lt_length hne
    omega
  have hhere : Occurs needle (text.drop pos) (j - pos) := occurs_drop.mpr (by rwa [Nat.add_sub_cancel' hpos])
  rw [find, if_neg hlen, findFrom_eq_some hne hhere fun k hk hocc => ?_, Nat.add_sub_cancel' hpos]
  exact hfirst (pos + k) (Nat.le_add_right _ _) (by omega) (occurs_drop.mp hocc)

theorem findFrom_le (hne : needle ≠ []) {j k : Nat} (h : findFrom needle rest i = some j) (hk : Occurs needle rest k) :
    j ≤ i + k := by
  induction rest generalizing i k with
  | nil =>
    rw [Occurs, List.drop_nil] at hk
    exact absurd (List.prefix_nil.mp hk) hne
  | cons x rest ih =>
    rw [findFrom] at h
    split at h
    · exact Nat.le_add_right_of_le (Nat.le_of_eq (Option.some.inj h).symm)
    · rename_i hx
      cases k with
      | zero => exact absurd (List.isPrefixOf_iff_prefix.mpr hk) hx
      | succ k =>
        have hle := ih (k := k) h hk
        omega

/-- What is found is the first occurrence. -/
theorem find_le {j : Nat} (hne : needle ≠ []) (h : find text needle pos = some i) (hpos : pos ≤ j)
    (hj : Occurs needle text j) : i ≤ j := by
  rw [find] at h
  split at h
  · cases h
  · have hle := findFrom_le hne h (occurs_drop.mpr (by rwa [Nat.add_sub_cancel' hpos] : Occurs needle text (pos + (j - pos))))
    omega

theorem occurs_of_findFrom (hne : needle ≠ []) {j : Nat} (h : findFrom needle rest i = some j) :
    ∃ k, j = i + k ∧ Occurs needle rest k := by
  induction rest generalizing i with
  | nil =>
    rw [findFrom, if_neg hne] at h
    cases h
  | cons x rest ih =>
    rw [findFrom] at h
    split at h
    · rename_i hx
      cases h
      exact ⟨0, rfl, List.isPrefixOf_iff_prefix.mp hx⟩
    · obtain ⟨k, rfl, hk⟩ := ih h
      exact ⟨k + 1, Nat.add_right_comm i 1 k, hk⟩

theorem occurs_of_find (hne : needle ≠ []) (h : find text needle pos = some i) : Occurs needle text i := by
  rw [find] at h
  split at h
  · cases h
  · obtain ⟨k, rfl, hk⟩ := occurs_of_findFrom hne h
    exact occurs_drop.mp hk

/-- Where the needle stands. -/
def occurrences (needle text : List α) : List Nat := (List.range text.length).filter fun i => needle.isPrefixOf (text.drop i)

theorem mem_occurrences (hne : needle ≠ []) : i ∈ occurrences needle text ↔ Occurs needle text i := by
  rw [occurrences, List.mem_filter, List.mem_range, List.isPrefixOf_iff_prefix]
  exact ⟨fun h => h.2, fun h => ⟨h.lt_length hne, h⟩⟩

/-! ### What stands around the first occurrence -/

theorem find_iff_firstAt (hne : needle ≠ []) :
    find text needle pos = some i ↔ ∃ gap rest, FirstAt needle (text.drop pos) gap rest ∧ i = pos + gap.length := by
  constructor
  · intro h
    obtain ⟨k, rfl⟩ := Nat.exists_eq_add_of_le (le_find h)
    obtain ⟨rest, hrest⟩ := occurs_drop.mpr (occurs_of_find hne h)
    refine ⟨(text.drop pos).take k, rest, ⟨?_, fun j hj hocc => ?_⟩, ?_⟩
    · rw [hrest, List.take_append_drop]
    · have hle := find_le hne h (Nat.le_add_right pos j) (occurs_drop.mp hocc)
      rw [List.length_take] at hj
      omega
    · have hlt := (occurs_of_find hne h).lt_length hne
      rw [List.length_take, List.length_drop]
      omega
  · rintro ⟨gap, rest, hat, rfl⟩
    refine find_eq_some hne (Nat.le_add_right _ _) (occurs_drop.mp hat.occurs) fun k hk hlt hfront => ?_
    exact hat.first (k - pos) (by omega) (occurs_drop.mpr (by rwa [Nat.add_sub_cancel' hk]))

theorem exists_firstAt (hne : needle ≠ []) (h : needle <:+: text) : ∃ gap rest, FirstAt needle text gap rest := by
  obtain ⟨before, behind, heq⟩ := h
  have hocc : Occurs needle text before.length := by
    rw [Occurs, ← heq, List.append_assoc, List.drop_left]
    exact List.prefix_append needle behind
  rcases hfind : find text needle 0 with _ | i
  · exact absurd hocc ((find_eq_none hne).mp hfind _ (Nat.zero_le _))
  · obtain ⟨gap, rest, hat, -⟩ := (find_iff_firstAt hne).mp hfind
    exact ⟨gap, rest, hat⟩

theorem find_singleton_eq_none : find text [x] pos = none ↔ x ∉ text.drop pos := by
  rw [find_eq_none (List.cons_ne_nil x [])]
  constructor
  · intro h hmem
    obtain ⟨before, behind, heq⟩ := List.append_of_mem hmem
    refine h (pos + before.length) (Nat.le_add_right _ _) (occurs_drop.mp ?_)
    rw [Occurs, heq, List.drop_left]
    exact ⟨behind, rfl⟩
  · rintro h j hj ⟨behind, heq⟩
    refine h (List.mem_of_mem_drop (i := j - pos) ?_)
    rw [List.drop_drop, Nat.add_sub_cancel' hj, ← heq]
    exact List.mem_cons_self

end TextSearch
