import Mathlib.Data.Set.Card
import Mathlib.Order.Interval.Finset.Nat

/-! Numbers of several sources that are observed in any order: which numbers are never observed, and which are passed
over, that is, have not been observed when a larger one of their source is. -/

namespace Gaps
variable {κ : Type} {obs rest : List (κ × Nat)} {source : κ} {l y : Nat}

def IsLargest (obs : List (κ × Nat)) (source : κ) (l : Nat) : Prop :=
  (source, l) ∈ obs ∧ ∀ y, (source, y) ∈ obs → y ≤ l

theorem isLargest_concat (h : IsLargest obs source l) (y : Nat) : IsLargest (obs ++ [(source, y)]) source (max l y) := by
  refine ⟨?_, fun z hz => ?_⟩
  · rcases Nat.le_total l y with hle | hle
    · simp [Nat.max_eq_right hle]
    · simp [Nat.max_eq_left hle, h.1]
  · have hcases : (source, z) ∈ obs ∨ z = y := by simpa using hz
    rcases hcases with hz | rfl
    · exact le_trans (h.2 z hz) (Nat.le_max_left l y)
    · exact Nat.le_max_right l z

theorem isLargest_concat_new (h : ∀ z, (source, z) ∉ obs) (y : Nat) : IsLargest (obs ++ [(source, y)]) source y := by
  refine ⟨by simp, fun z hz => ?_⟩
  have hcases : (source, z) ∈ obs ∨ z = y := by simpa using hz
  exact Nat.le_of_eq (hcases.resolve_left (h z))

theorem isLargest_concat_other {other : κ} (h : IsLargest obs other l) (hne : other ≠ source) (y : Nat) :
    IsLargest (obs ++ [(source, y)]) other l := by
  refine ⟨List.mem_append_left _ h.1, fun z hz => h.2 z ?_⟩
  simpa [hne] using hz

variable [DecidableEq κ]

/-- The first number of a source. -/
def first (obs : List (κ × Nat)) (source : κ) : Option Nat := (obs.find? (·.1 = source)).map (·.2)

/-- Strictly between the first and the largest number of their source, and never observed. -/
def missing (obs : List (κ × Nat)) : Set (κ × Nat) :=
  {p | (∃ f ∈ first obs p.1, f < p.2) ∧ (∃ y, (p.1, y) ∈ obs ∧ p.2 < y) ∧ p ∉ obs}

/-- Strictly between the first and the largest number of their source, and not observed before a larger one. -/
def passed (obs : List (κ × Nat)) : Set (κ × Nat) :=
  {p | (∃ f ∈ first obs p.1, f < p.2) ∧
    ∃ before y after, obs = before ++ (p.1, y) :: after ∧ p.2 < y ∧ ∀ z, (p.1, z) ∈ before → z < p.2}

theorem first_append (h : (source, y) ∈ obs) : first (obs ++ rest) source = first obs source := by
  have hfind : (obs.find? (·.1 = source)).isSome := by
    rw [List.find?_isSome]
    exact ⟨(source, y), h, by simp⟩
  obtain ⟨p, hp⟩ := Option.isSome_iff_exists.mp hfind
  rw [first, first, List.find?_append, hp, Option.some_or]

theorem mem_of_first {f : Nat} (h : f ∈ first obs source) : (source, f) ∈ obs := by
  obtain ⟨p, hp, rfl⟩ := Option.map_eq_some_iff.mp h
  have hsource : p.1 = source := by simpa using List.find?_some hp
  exact hsource ▸ List.mem_of_find?_eq_some hp

/-- What is never observed is what was passed over and has not been observed late. -/
theorem mem_missing {p : κ × Nat} : p ∈ missing obs ↔ p ∈ passed obs ∧ p ∉ obs := by
  constructor
  · rintro ⟨hfirst, ⟨y, hy, hlt⟩, hnot⟩
    refine ⟨⟨hfirst, ?_⟩, hnot⟩
    -- The first number of the source above this one passes it over.
    have hfind : (obs.find? fun q => q.1 = p.1 ∧ p.2 < q.2).isSome := by
      rw [List.find?_isSome]
      exact ⟨(p.1, y), hy, by simpa using hlt⟩
    obtain ⟨⟨source, z⟩, hz⟩ := Option.isSome_iff_exists.mp hfind
    obtain ⟨hpred, before, after, heq, hbefore⟩ := List.find?_eq_some_iff_append.mp hz
    obtain ⟨rfl, hpz⟩ : source = p.1 ∧ p.2 < z := by simpa using hpred
    refine ⟨before, z, after, heq, hpz, fun x hx => ?_⟩
    have hle : x ≤ p.2 := by simpa using hbefore _ hx
    refine lt_of_le_of_ne hle fun h => hnot ?_
    subst h
    rw [heq]
    exact List.mem_append_left _ hx
  · rintro ⟨⟨hfirst, before, y, after, rfl, hlt, -⟩, hnot⟩
    exact ⟨hfirst, ⟨y, by simp, hlt⟩, hnot⟩

/-- What was passed over stays so. -/
theorem passed_subset_append : passed obs ⊆ passed (obs ++ rest) := by
  rintro ⟨source, x⟩ ⟨⟨f, hf, hfx⟩, before, y, after, rfl, hxy, hbefore⟩
  refine ⟨⟨f, ?_, hfx⟩, before, y, after ++ rest, by simp, hxy, hbefore⟩
  rw [first_append (mem_of_first hf)]
  exact hf

/-- One more number passes over those above all of its source so far. -/
theorem mem_passed_concat {p : κ × Nat} (h : p ∈ passed (obs ++ [(source, y)])) :
    p ∈ passed obs ∨ (p.1 = source ∧ p.2 < y ∧ (∀ z, (source, z) ∈ obs → z < p.2) ∧ ∃ z, (source, z) ∈ obs) := by
  obtain ⟨q, x⟩ := p
  obtain ⟨⟨f, hf, hfx⟩, before, z, after, heq, hxz, hbefore⟩ := h
  rcases List.eq_nil_or_concat after with rfl | ⟨after, r, rfl⟩
  · obtain ⟨rfl, hlast⟩ := List.append_inj' heq rfl
    obtain ⟨rfl, rfl⟩ : source = q ∧ y = z := by simpa using hlast
    have hmem : (source, f) ∈ obs ∨ f = y := by simpa using mem_of_first hf
    rcases hmem with hmem | rfl
    · exact .inr ⟨rfl, hxz, hbefore, f, hmem⟩
    · exact absurd hfx (by omega)
  · have hsplit : obs ++ [(source, y)] = (before ++ (q, z) :: after) ++ [r] := by rw [heq]; simp
    obtain ⟨rfl, -⟩ := List.append_inj' hsplit rfl
    rw [first_append (y := z) (by simp)] at hf
    exact .inl ⟨⟨f, hf, hfx⟩, before, z, after, rfl, hxz, hbefore⟩

theorem passed_concat_new (h : ∀ z, (source, z) ∉ obs) : passed (obs ++ [(source, y)]) = passed obs := by
  refine Set.Subset.antisymm (fun p hp => ?_) passed_subset_append
  rcases mem_passed_concat hp with hp | ⟨-, -, -, z, hz⟩
  · exact hp
  · exact absurd hz (h z)

theorem passed_concat_old (h : IsLargest obs source l) :
    passed (obs ++ [(source, y)]) = passed obs ∪ (source, ·) '' (Finset.Ioo l y : Set Nat) := by
  obtain ⟨hmem, hlargest⟩ := h
  refine Set.Subset.antisymm (fun p hp => ?_) (Set.union_subset passed_subset_append ?_)
  · rcases mem_passed_concat hp with hp | ⟨rfl, hxy, hbefore, -⟩
    · exact .inl hp
    · exact .inr ⟨p.2, by simpa using ⟨hbefore l hmem, hxy⟩, rfl⟩
  · rintro _ ⟨x, hx, rfl⟩
    obtain ⟨hlx, hxy⟩ : l < x ∧ x < y := by simpa using hx
    have hfirst : (first obs source).isSome := by
      rw [first, Option.isSome_map, List.find?_isSome]
      exact ⟨(source, l), hmem, by simp⟩
    obtain ⟨f, hf⟩ := Option.isSome_iff_exists.mp hfirst
    have hfx : f < x := lt_of_le_of_lt (hlargest f (mem_of_first hf)) hlx
    refine ⟨⟨f, ?_, hfx⟩, obs, y, [], rfl, hxy, fun z hz => lt_of_le_of_lt (hlargest z hz) hlx⟩
    rw [first_append hmem]
    exact hf

/-- The numbers that are passed over are counted where they are: between the largest number so far and the new one. -/
theorem ncard_passed_concat (h : IsLargest obs source l) (hfinite : (passed obs).Finite) (y : Nat) :
    (passed (obs ++ [(source, y)])).Finite ∧ (passed (obs ++ [(source, y)])).ncard = (passed obs).ncard + (y - l - 1) := by
  have hgap : ((source, ·) '' (Finset.Ioo l y : Set Nat)).Finite := (Finset.finite_toSet _).image _
  have hdisjoint : Disjoint (passed obs) ((source, ·) '' (Finset.Ioo l y : Set Nat)) := by
    rw [Set.disjoint_left]
    rintro _ ⟨-, before, z, after, rfl, hxz, -⟩ ⟨x, hx, rfl⟩
    have hlx : l < x := (Finset.mem_Ioo.mp hx).1
    have hzl := h.2 z (by simp)
    have hxz : x < z := hxz
    omega
  rw [passed_concat_old h]
  refine ⟨hfinite.union hgap, ?_⟩
  rw [Set.ncard_union_eq hdisjoint hfinite hgap, Set.ncard_image_of_injective _ (Prod.mk_right_injective source),
    Set.ncard_coe_finset, Nat.card_Ioo]

end Gaps
