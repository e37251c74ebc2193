import Mathlib.Data.List.DropRight
import Mathlib.Data.Nat.ModEq
import Mathlib.Logic.Function.Basic

/-! A ring of `cap` cells, a power of two, addressed by positions that are never reduced: position `pos` lies in the
cell `pos & (cap - 1)`. Positions less than `cap` apart lie in different cells. -/

structure RingBuffer (α : Type) where
  cap : Nat
  isPow : ∃ k, cap = 2 ^ k
  cells : Nat → α

namespace RingBuffer
variable {α : Type} {r : RingBuffer α} {pos pos' : Nat} {x : α}

theorem cap_pos (r : RingBuffer α) : 0 < r.cap := by
  obtain ⟨k, hk⟩ := r.isPow
  exact hk ▸ Nat.two_pow_pos k

def index (r : RingBuffer α) (pos : Nat) : Nat := pos &&& (r.cap - 1)

theorem index_eq (r : RingBuffer α) (pos : Nat) : r.index pos = pos % r.cap := by
  obtain ⟨k, hk⟩ := r.isPow
  rw [index, hk, Nat.and_two_pow_sub_one_eq_mod]

def get (r : RingBuffer α) (pos : Nat) : α := r.cells (r.index pos)

def set (r : RingBuffer α) (pos : Nat) (x : α) : RingBuffer α := { r with cells := Function.update r.cells (r.index pos) x }

theorem index_congr (h : pos % r.cap = pos' % r.cap) : r.index pos = r.index pos' := by
  rw [index_eq, index_eq, h]

theorem get_congr (h : pos % r.cap = pos' % r.cap) : r.get pos = r.get pos' := by
  rw [get, get, index_congr h]

@[simp] theorem get_mod : r.get (pos % r.cap) = r.get pos := get_congr (Nat.mod_mod ..)

@[simp] theorem set_mod : r.set (pos % r.cap) x = r.set pos x := by
  rw [set, set, index_congr (Nat.mod_mod pos r.cap)]

theorem get_add_cap : r.get (pos + r.cap) = r.get pos := get_congr (Nat.add_mod_right ..)

@[simp] theorem get_set_self : (r.set pos x).get pos = x := by
  simp [get, set, index]

/-- Less than a round apart. -/
def Near (r : RingBuffer α) (pos pos' : Nat) : Prop := pos < pos' + r.cap ∧ pos' < pos + r.cap

theorem Near.mod_ne (h : r.Near pos pos') (hne : pos' ≠ pos) : pos' % r.cap ≠ pos % r.cap := by
  intro hmod
  have hmod : pos' ≡ pos [MOD r.cap] := hmod
  have habs : |(pos : Int) - pos'| < r.cap := by
    rw [abs_lt]
    obtain ⟨h₁, h₂⟩ := h
    omega
  exact hne (hmod.eq_of_abs_lt habs)

theorem get_set_of_near (h : r.Near pos pos') (hne : pos' ≠ pos) : (r.set pos x).get pos' = r.get pos' := by
  have hmod := h.mod_ne hne
  rw [get, get, show (r.set pos x).index pos' = r.index pos' from rfl]
  simp only [index_eq, set]
  exact Function.update_of_ne hmod ..

/-- How far the position `n` is behind `m`, from their cells alone. -/
theorem distance {m n first last : Nat} (hfirst : first % r.cap = m % r.cap) (hlast : last % r.cap = n % r.cap)
    (hle : m ≤ n) (hlt : n < m + r.cap) (hcap : first ≤ r.cap) : (last + r.cap - first) % r.cap = n - m := by
  have hmod : last + r.cap - first ≡ n - m [MOD r.cap] := by
    refine Nat.ModEq.add_right_cancel' first ?_
    calc last + r.cap - first + first = last + r.cap := by omega
      _ ≡ n [MOD r.cap] := (Nat.add_mod_right ..).trans hlast
      _ = n - m + m := by omega
      _ ≡ n - m + first [MOD r.cap] := Nat.ModEq.add_left _ hfirst.symm
  rw [hmod, Nat.mod_eq_of_lt (by omega)]

end RingBuffer

/-! ### Windows

The elements of a ring of `cap` cells from a first one on: what writes at the two ends do to them. -/

namespace RingWindow
variable {α : Type} {cap first last size : Nat} {buf : Nat → α} {x : α}

/-- `size` elements, from the cell `first` on. -/
def window (cap : Nat) (buf : Nat → α) (first size : Nat) : List α :=
  (List.range size).map fun k => buf ((first + k) % cap)

@[simp] theorem length_window : (window cap buf first size).length = size := by
  rw [window, List.length_map, List.length_range]

/-- Offsets below the capacity lead to different cells. -/
theorem offset_ne {j k : Nat} (hj : j < k) (hk : k < cap) : (first + j) % cap ≠ (first + k) % cap := by
  intro heq
  have hmod : j ≡ k [MOD cap] := Nat.ModEq.add_left_cancel' first heq
  rw [Nat.ModEq, Nat.mod_eq_of_lt (hj.trans hk), Nat.mod_eq_of_lt hk] at hmod
  exact Nat.ne_of_lt hj hmod

/-- A write into the cell behind the last one makes the window longer. -/
theorem window_update_last (hroom : size < cap) (hlast : last = (first + size) % cap) :
    window cap (Function.update buf last x) first (size + 1) = window cap buf first size ++ [x] := by
  have hold : ∀ k ∈ List.range size, Function.update buf last x ((first + k) % cap) = buf ((first + k) % cap) := by
    intro k hk
    rw [hlast]
    exact Function.update_of_ne (offset_ne (List.mem_range.mp hk) hroom) ..
  rw [window, List.range_succ, List.map_append, List.map_congr_left hold, List.map_singleton, ← hlast,
    Function.update_self, window]

theorem window_succ (hfirst : first < cap) :
    window cap buf first (size + 1) = buf first :: window cap buf ((first + 1) % cap) size := by
  have hrest : ∀ k, buf ((first + (k + 1)) % cap) = buf (((first + 1) % cap + k) % cap) := fun k => by
    rw [Nat.mod_add_mod, Nat.add_assoc, Nat.add_comm 1 k]
  rw [window, List.range_succ_eq_map, List.map_cons, List.map_map, Nat.add_zero, Nat.mod_eq_of_lt hfirst, window]
  exact congrArg _ (List.map_congr_left fun k _ => hrest k)

/-- The cell before the window is not in it. -/
theorem window_update_first (hfirst : first < cap) (hsize : size < cap) :
    window cap (Function.update buf first x) ((first + 1) % cap) size = window cap buf ((first + 1) % cap) size := by
  refine List.map_congr_left fun k hk => Function.update_of_ne ?_ ..
  have hlt : k + 1 < cap := Nat.lt_of_le_of_lt (List.mem_range.mp hk) hsize
  have hne : (first + 0) % cap ≠ (first + (k + 1)) % cap := offset_ne k.succ_pos hlt
  rw [Nat.mod_add_mod, Nat.add_assoc, Nat.add_comm 1 k]
  rwa [Nat.add_zero, Nat.mod_eq_of_lt hfirst, ne_comm] at hne

end RingWindow

/-! ### Overwriting

A ring of `cap` cells in which an element takes the place of the oldest one when there is no other left. -/

structure OverwritingRing (α : Type) where
  cells : Nat → α
  /-- The cell that is written next. -/
  pos : Nat := 0
  len : Nat := 0

namespace OverwritingRing
variable {α : Type} {cap : Nat} {r : OverwritingRing α} {xs : List α} {x : α} {i k : Nat}

def push (cap : Nat) (r : OverwritingRing α) (x : α) : OverwritingRing α where
  cells := Function.update r.cells r.pos x
  pos := (r.pos + 1) % cap
  len := if r.len < cap then r.len + 1 else r.len

/-- The cell of the oldest element. -/
def first (cap : Nat) (r : OverwritingRing α) : Nat := if r.len < cap then 0 else r.pos

/-- From the oldest element to the newest. -/
def toList (cap : Nat) (r : OverwritingRing α) : List α := RingWindow.window cap r.cells (r.first cap) r.len

/-- The `k`-th newest element, counted from 1. -/
def back (cap : Nat) (r : OverwritingRing α) (k : Nat) : α := r.cells ((r.pos + cap - k) % cap)

/-- The elements `xs` have been pushed: each of the last `cap` ones is in the cell of its number. -/
structure Holds (cap : Nat) (r : OverwritingRing α) (xs : List α) : Prop where
  pos : r.pos = xs.length % cap
  len : r.len = min xs.length cap
  cells : ∀ {i} (h : i < xs.length), xs.length ≤ i + cap → r.cells (i % cap) = xs[i]

theorem holds_nil {cells : Nat → α} : Holds cap ⟨cells, 0, 0⟩ [] where
  pos := (Nat.zero_mod cap).symm
  len := (Nat.zero_min cap).symm
  cells h := absurd h (Nat.not_lt_zero _)

theorem mod_ne_of_near {n : Nat} (hlt : i < n) (hnear : n < i + cap) : i % cap ≠ n % cap := by
  intro hmod
  have hle : cap ∣ n - i := (Nat.modEq_iff_dvd' hlt.le).mp hmod
  have := Nat.le_of_dvd (Nat.sub_pos_of_lt hlt) hle
  omega

theorem Holds.push (h : Holds cap r xs) (x : α) : Holds cap (r.push cap x) (xs ++ [x]) where
  pos := by
    rw [OverwritingRing.push, h.pos, Nat.mod_add_mod, List.length_append, List.length_singleton]
  len := by
    show (if r.len < cap then r.len + 1 else r.len) = _
    rw [h.len, List.length_append, List.length_singleton]
    split <;> omega
  cells := by
    intro i hi hnear
    rw [List.length_append, List.length_singleton] at hi hnear
    show Function.update r.cells r.pos x (i % cap) = _
    rw [h.pos]
    rcases Nat.lt_succ_iff_lt_or_eq.mp hi with hold | rfl
    · rw [Function.update_of_ne (mod_ne_of_near hold hnear), List.getElem_append_left hold]
      exact h.cells hold (Nat.le_of_succ_le hnear)
    · rw [Function.update_self, List.getElem_concat_length rfl]

theorem Holds.toList (h : Holds cap r xs) : r.toList cap = xs.rtake cap := by
  refine List.ext_getElem ?_ fun k hk hk' => ?_
  · rw [OverwritingRing.toList, RingWindow.length_window, h.len, List.rtake, List.length_drop]
    omega
  · rw [OverwritingRing.toList, RingWindow.length_window, h.len] at hk
    simp only [OverwritingRing.toList, RingWindow.window, List.getElem_map, List.getElem_range, List.rtake,
      List.getElem_drop]
    by_cases hlen : xs.length < cap
    · have hfirst : r.first cap = 0 := if_pos (by rw [h.len]; omega)
      simp only [hfirst, Nat.zero_add, Nat.sub_eq_zero_of_le hlen.le]
      exact h.cells (by omega) (by omega)
    · have hfirst : r.first cap = r.pos := if_neg (by rw [h.len]; omega)
      have hcell : (r.pos + k) % cap = (xs.length - cap + k) % cap := by
        rw [h.pos, Nat.mod_add_mod, ← Nat.add_mod_right (xs.length - cap + k)]
        congr 1
        omega
      rw [hfirst, hcell]
      exact h.cells (by omega) (by omega)

theorem Holds.back (h : Holds cap r xs) (hk : 0 < k) (hle : k ≤ r.len) :
    r.back cap k = xs.get ⟨xs.length - k, by have := h.len; omega⟩ := by
  rw [h.len] at hle
  have hcell : (r.pos + cap - k) % cap = (xs.length - k) % cap := by
    refine Nat.ModEq.add_right_cancel' k ?_
    calc r.pos + cap - k + k = r.pos + cap := by omega
      _ ≡ xs.length [MOD cap] := by
        rw [h.pos]
        exact (Nat.add_mod_right ..).trans (Nat.mod_mod ..)
      _ = xs.length - k + k := by omega
  rw [OverwritingRing.back, hcell]
  exact h.cells (by omega) (by omega)

/-- In a full ring the next push overwrites the oldest element. -/
theorem Holds.overwritten (h : Holds cap r xs) (hcap : 0 < cap) (hfull : r.len = cap) :
    r.cells r.pos = xs.get ⟨xs.length - cap, by have := h.len; omega⟩ := by
  have hback := h.back hcap hfull.ge
  have hpos : r.pos < cap := h.pos ▸ Nat.mod_lt _ hcap
  rwa [OverwritingRing.back, Nat.add_sub_cancel, Nat.mod_eq_of_lt hpos] at hback

theorem rtake_succ_of_lt {n : Nat} (hn : n < xs.length) : xs.rtake (n + 1) = xs[xs.length - (n + 1)] :: xs.rtake n := by
  rw [List.rtake, List.rtake, List.drop_eq_getElem_cons (by omega)]
  congr 2
  omega

/-- A loop over the newest elements. -/
theorem Holds.countP_back (h : Holds cap r xs) (p : α → Bool) :
    ∀ n ≤ r.len, (List.range' 1 n).countP (fun k => p (r.back cap k)) = (xs.rtake n).countP p
  | 0, _ => by simp [List.rtake]
  | n + 1, hn => by
    have hlen := h.len
    have hback := h.back (Nat.succ_pos n) hn
    rw [List.range'_1_concat, List.countP_append, List.countP_singleton, h.countP_back p n (Nat.le_of_succ_le hn),
      rtake_succ_of_lt (by omega), List.countP_cons, Nat.add_comm 1 n, hback, List.get_eq_getElem]

end OverwritingRing
