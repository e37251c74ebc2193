import Mathlib.Data.List.Basic
import Mathlib.Data.List.Induction
import Mathlib.Data.List.Nodup
import Mathlib.Tactic.Common

/-! Lists under a key: an element with a new key at the end, and the first element under each key, in the order of the
    list. -/

namespace List
variable {α κ : Type} {key : α → κ} {l : List α} {a : α}

theorem nodup_map_append_singleton (h : (l.map key).Nodup) (hnew : ∀ x ∈ l, key x ≠ key a) :
    ((l ++ [a]).map key).Nodup := by
  have hfresh : key a ∉ l.map key := fun hmem => by
    obtain ⟨x, hx, heq⟩ := List.mem_map.mp hmem
    exact hnew x hx heq
  rw [List.map_append, List.map_singleton, ← List.concat_eq_append]
  exact List.Nodup.concat hfresh h

variable [DecidableEq κ]

def firstsBy (key : α → κ) (l : List α) : List α :=
  l.foldl (fun firsts a => if key a ∈ firsts.map key then firsts else firsts ++ [a]) []

theorem firstsBy_concat (key : α → κ) (l : List α) (a : α) :
    (l ++ [a]).firstsBy key =
      if key a ∈ (l.firstsBy key).map key then l.firstsBy key else l.firstsBy key ++ [a] := by
  simp [firstsBy, List.foldl_append]

theorem nodup_firstsBy (key : α → κ) (l : List α) : ((l.firstsBy key).map key).Nodup := by
  induction l using List.reverseRecOn with
  | nil => exact List.nodup_nil
  | append_singleton l a ih =>
    rw [firstsBy_concat]
    split
    · exact ih
    · rename_i hnew
      exact List.nodup_map_append_singleton ih fun x hx heq => hnew (heq ▸ List.mem_map_of_mem hx)

/-- The keys of the first elements are the keys of all. -/
theorem mem_firstsBy_keys {k : κ} : k ∈ (l.firstsBy key).map key ↔ k ∈ l.map key := by
  induction l using List.reverseRecOn with
  | nil => exact Iff.rfl
  | append_singleton l a ih =>
    rw [firstsBy_concat]
    split
    · rename_i hold
      have hkey : k = key a → k ∈ l.map key := fun heq => ih.mp (heq ▸ hold)
      rw [ih, List.map_append, List.mem_append]
      exact ⟨Or.inl, fun h => h.elim id fun h => hkey (by simpa using h)⟩
    · rw [List.map_append, List.map_append, List.mem_append, List.mem_append, ih]

theorem firstsBy_of_nodup (h : (l.map key).Nodup) : l.firstsBy key = l := by
  induction l using List.reverseRecOn with
  | nil => rfl
  | append_singleton l a ih =>
    rw [List.map_append, List.nodup_append] at h
    obtain ⟨hl, -, hdisj⟩ := h
    have hnew : key a ∉ l.map key := fun hk => hdisj _ hk _ (by simp) rfl
    rw [firstsBy_concat, ih hl, if_neg hnew]

/-- The elements after the first `n` of a list without repetitions are those whose position is at least `n`. -/
theorem mem_drop_iff_idxOf {l : List κ} (hl : l.Nodup) {k : κ} (hk : k ∈ l) {n : Nat} : k ∈ l.drop n ↔ n ≤ l.idxOf k := by
  rw [List.mem_drop_iff_getElem]
  constructor
  · rintro ⟨i, hi, rfl⟩
    rw [hl.idxOf_getElem]
    omega
  · intro hn
    have hlt : l.idxOf k < l.length := List.idxOf_lt_length_iff.mpr hk
    refine ⟨l.idxOf k - n, by omega, ?_⟩
    simp [Nat.add_sub_cancel' hn]

end List

/-! ### Families of lists

The lists `f 0, …, f (n - 1)` of a family, put together. When one of them changes, the count of an element changes
as it does in that list. -/

namespace List
variable {α : Type} {n k : Nat} {f g : Nat → List α} {x : α}

def gather (n : Nat) (f : Nat → List α) : List α := (List.range n).flatMap f

theorem gather_succ (n : Nat) (f : Nat → List α) : gather (n + 1) f = gather n f ++ f n := by
  simp [gather, List.range_succ]

@[simp] theorem gather_nil : gather n (fun _ => ([] : List α)) = [] := by
  simp [gather]

theorem gather_congr (h : ∀ i, i < n → g i = f i) : gather n g = gather n f := by
  induction n with
  | zero => rfl
  | succ n ih => rw [gather_succ, gather_succ, ih fun i hi => h i (Nat.lt_succ_of_lt hi), h n (Nat.lt_succ_self n)]

theorem count_gather [BEq α] (hk : k < n) (hother : ∀ i, i < n → i ≠ k → g i = f i) :
    (gather n g).count x + (f k).count x = (gather n f).count x + (g k).count x := by
  induction n with
  | zero => exact absurd hk (Nat.not_lt_zero k)
  | succ n ih =>
    simp only [gather_succ, List.count_append]
    rcases Nat.lt_succ_iff_lt_or_eq.mp hk with hk | rfl
    · have hn := hother n (Nat.lt_succ_self n) (Nat.ne_of_gt hk)
      have := ih hk fun i hi => hother i (Nat.lt_succ_of_lt hi)
      rw [hn]
      omega
    · have hsame : gather k g = gather k f := gather_congr fun i hi =>
        hother i (Nat.lt_succ_of_lt hi) (Nat.ne_of_lt hi)
      rw [hsame]
      omega

theorem mem_gather : x ∈ gather n f ↔ ∃ i, i < n ∧ x ∈ f i := by
  simp [gather]

end List
