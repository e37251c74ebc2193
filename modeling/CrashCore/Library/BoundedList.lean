import Mathlib.Data.List.Basic
import Mathlib.Data.List.DropRight

/-! Lists that lose their first elements when they grow past a bound: `while (size > max) pop_front`. -/

namespace List
variable {α : Type} {max : Nat} {l : List α}

def popFrontTo (max : Nat) : List α → List α
  | [] => []
  | x :: xs => if max < (x :: xs).length then popFrontTo max xs else x :: xs

theorem popFrontTo_of_le (h : l.length ≤ max) : popFrontTo max l = l := by
  cases l with
  | nil => rfl
  | cons x xs => rw [popFrontTo, if_neg (Nat.not_lt.mpr h)]

theorem map_popFrontTo {β : Type} (f : α → β) : ∀ l : List α, (popFrontTo max l).map f = popFrontTo max (l.map f)
  | [] => rfl
  | x :: xs => by
    have hlen : (f x :: xs.map f).length = (x :: xs).length := congrArg (· + 1) (List.length_map f)
    rw [List.map_cons, popFrontTo, popFrontTo, hlen]
    split
    · exact map_popFrontTo f xs
    · rfl

/-- What was cut off before makes no difference later. -/
theorem popFrontTo_append_singleton (y : α) :
    ∀ l : List α, popFrontTo max (popFrontTo max l ++ [y]) = popFrontTo max (l ++ [y])
  | [] => rfl
  | x :: xs => by
    by_cases h : max < (x :: xs).length
    · have hlen : max < (x :: (xs ++ [y])).length := by
        simp only [List.length_cons, List.length_append] at h ⊢
        omega
      rw [List.cons_append, popFrontTo, popFrontTo, if_pos h, if_pos hlen]
      exact popFrontTo_append_singleton y xs
    · rw [popFrontTo_of_le (Nat.le_of_not_lt h)]

theorem popFrontTo_suffix : ∀ l : List α, popFrontTo max l <:+ l
  | [] => suffix_refl _
  | x :: xs => by
    rw [popFrontTo]
    split
    · exact (popFrontTo_suffix xs).trans (suffix_cons x xs)
    · exact suffix_refl _

theorem length_popFrontTo_le : ∀ l : List α, (popFrontTo max l).length ≤ max
  | [] => Nat.zero_le _
  | x :: xs => by
    rw [popFrontTo]
    split
    · exact length_popFrontTo_le xs
    · rename_i h
      exact Nat.le_of_not_lt h

theorem popFrontTo_eq_drop : ∀ l : List α, popFrontTo max l = l.drop (l.length - max)
  | [] => by rw [popFrontTo, drop_nil]
  | x :: xs => by
    by_cases h : max < (x :: xs).length
    · have hsub : (x :: xs).length - max = xs.length - max + 1 := by
        rw [List.length_cons] at h ⊢
        omega
      rw [popFrontTo, if_pos h, hsub, drop_succ_cons]
      exact popFrontTo_eq_drop xs
    · rw [popFrontTo_of_le (Nat.le_of_not_lt h), Nat.sub_eq_zero_of_le (Nat.le_of_not_lt h), drop_zero]

/-- An element with fewer than `max` others behind it stays. -/
theorem mem_popFrontTo {x : α} {l₂ : List α} (h : l₂.length < max) : ∀ l₁ : List α, x ∈ popFrontTo max (l₁ ++ x :: l₂)
  | [] => by
    rw [nil_append, popFrontTo_of_le (Nat.succ_le_of_lt h)]
    exact mem_cons_self
  | y :: l₁ => by
    rw [cons_append, popFrontTo]
    split
    · exact mem_popFrontTo h l₁
    · simp

/-! ### Repetitions -/

/-- Between two occurrences of an element there are at least `n` others. -/
def Spaced (n : Nat) (l : List α) : Prop := ∀ l₁ x l₂ l₃, l = l₁ ++ x :: (l₂ ++ x :: l₃) → n ≤ l₂.length

theorem Spaced.of_append {n : Nat} {l' : List α} (h : Spaced n (l ++ l')) : Spaced n l := by
  rintro l₁ x l₂ l₃ rfl
  exact h l₁ x l₂ (l₃ ++ l') (by simp)

/-- The lists without an element that has occurred among the last `max` are those with `max` elements between two
    occurrences. -/
theorem Spaced.append_singleton {x : α} {before : List α} (h : Spaced max l) (hx : x ∉ popFrontTo max (before ++ l)) :
    Spaced max (l ++ [x]) := by
  intro l₁ y l₂ l₃ heq
  rcases eq_nil_or_concat l₃ with rfl | ⟨l₃, z, rfl⟩
  · have hsplit : l ++ [x] = (l₁ ++ y :: l₂) ++ [y] := by rw [heq, append_assoc, cons_append]
    obtain ⟨rfl, hxy⟩ := append_inj' hsplit rfl
    obtain rfl : x = y := (cons.inj hxy).1
    by_contra hlt
    refine hx ?_
    rw [← append_assoc]
    exact mem_popFrontTo (Nat.lt_of_not_le hlt) (before ++ l₁)
  · have hsplit : l ++ [x] = (l₁ ++ y :: (l₂ ++ y :: l₃)) ++ [z] := by rw [heq]; simp
    obtain ⟨rfl, -⟩ := append_inj' hsplit rfl
    exact h l₁ y l₂ l₃ rfl

end List

/-! ### A set and a queue

A set and a queue with the same elements. When there are more than a bound allows, the oldest leave both. -/

/-- The set comes as a list, of which only the members count. -/
structure SeenWindow (α : Type) where
  seen : List α := []
  order : List α := []

namespace SeenWindow
variable {α : Type} {max : Nat} {x : α} {w : SeenWindow α} {taken : List α}

/-- Set and queue have the same elements, each of them once in the queue. -/
structure Agrees (w : SeenWindow α) : Prop where
  nodup : w.order.Nodup
  mem : ∀ x, x ∈ w.seen ↔ x ∈ w.order

/-- After the elements `taken`, the last ones of them are there. -/
structure Holds (max : Nat) (w : SeenWindow α) (taken : List α) : Prop extends Agrees w where
  order : w.order = taken.rtake max

theorem holds_nil : Holds max ({} : SeenWindow α) [] where
  nodup := List.nodup_nil
  mem _ := Iff.rfl
  order := by simp

/-- An element is known exactly if it is among the last ones. -/
theorem Holds.mem_seen (h : Holds max w taken) : x ∈ w.seen ↔ x ∈ taken.rtake max := by
  rw [h.mem, h.order]

theorem Holds.length_le (h : Holds max w taken) : w.order.length ≤ max := by
  rw [h.order, List.rtake, List.length_drop]
  omega

/-! ### A new element -/

variable [DecidableEq α]

/-- The loop that forgets the oldest elements. -/
def trim (max : Nat) : List α → List α → SeenWindow α
  | seen, [] => ⟨seen, []⟩
  | seen, x :: order =>
    if max < (x :: order).length then trim max (seen.filter (· ≠ x)) order else ⟨seen, x :: order⟩

def push (max : Nat) (w : SeenWindow α) (x : α) : SeenWindow α := trim max (x :: w.seen) (w.order ++ [x])

theorem trim_order : ∀ seen order : List α, (trim max seen order).order = order.popFrontTo max
  | _, [] => rfl
  | seen, x :: order => by
    rw [trim, List.popFrontTo]
    split
    · exact trim_order _ order
    · rfl

/-- An element that leaves the queue has no younger equal in it, so that the set may forget it. -/
theorem agrees_trim : ∀ {seen order : List α}, Agrees ⟨seen, order⟩ → Agrees (trim max seen order)
  | _, [], h => h
  | seen, x :: order, h => by
    rw [trim]
    split
    · obtain ⟨hx, hnodup⟩ := List.nodup_cons.mp h.nodup
      refine agrees_trim ⟨hnodup, fun y => ?_⟩
      have hmem := h.mem y
      by_cases hy : y = x
      · simp [hy, hx]
      · simpa [hy] using hmem
    · exact h

theorem Agrees.push (h : Agrees w) (hx : x ∉ w.seen) : Agrees (w.push max x) := by
  have hnew : x ∉ w.order := mt (h.mem x).mpr hx
  refine agrees_trim ⟨?_, fun y => ?_⟩
  · refine List.nodup_append.mpr ⟨h.nodup, by simp, ?_⟩
    rintro y hy z hz rfl
    obtain rfl := List.mem_singleton.mp hz
    exact hnew hy
  · simp [h.mem y, or_comm]

theorem Holds.push (h : Holds max w taken) (hx : x ∉ w.seen) : Holds max (w.push max x) (taken ++ [x]) where
  toAgrees := h.toAgrees.push hx
  order := by
    have hlast (l : List α) : l.rtake max = l.popFrontTo max := (List.popFrontTo_eq_drop l).symm
    rw [SeenWindow.push, trim_order, h.order, hlast, hlast, List.popFrontTo_append_singleton]

end SeenWindow
