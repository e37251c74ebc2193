import Mathlib.Data.List.Basic
import Mathlib.Tactic.Ring

/-! The single-producer single-consumer ring buffer (`concurrency/spsc_queue.hpp`), as the list of its elements from
head to tail. One cell of the ring stays empty. Each operation is one step. -/

namespace CrashCore

structure SpscQueue (α : Type) where
  cap : Nat
  items : List α := []
  two_le : 2 ≤ cap
  length_lt : items.length < cap

namespace SpscQueue
variable {α : Type} {q q' : SpscQueue α} {x : α}

/-- `while (c < capacity_pow2) c <<= 1`, for at most `fuel` turns. -/
def grow (capacity : Nat) : Nat → Nat → Nat
  | 0, c => c
  | fuel + 1, c => if c < capacity then grow capacity fuel (2 * c) else c

theorem le_grow {capacity c : Nat} : ∀ fuel, c ≤ grow capacity fuel c
  | 0 => Nat.le_refl c
  | fuel + 1 => by
    rw [grow]
    split
    · exact (Nat.le_mul_of_pos_left c Nat.two_pos).trans (le_grow fuel)
    · exact Nat.le_refl c

/-- The loop ends by itself before the fuel does. -/
theorem capacity_le_grow {capacity : Nat} : ∀ {fuel c : Nat}, capacity ≤ 2 ^ fuel * c → capacity ≤ grow capacity fuel c
  | 0, c, h => by simpa [grow] using h
  | fuel + 1, c, h => by
    rw [grow]
    split
    · exact capacity_le_grow (h.trans_eq (by ring))
    · rename_i hc
      exact Nat.le_of_not_lt hc

theorem grow_isPow {capacity : Nat} : ∀ {fuel c : Nat}, (∃ k, c = 2 ^ k) → ∃ k, grow capacity fuel c = 2 ^ k
  | 0, _, h => h
  | fuel + 1, c, ⟨k, hk⟩ => by
    rw [grow]
    split
    · exact grow_isPow ⟨k + 1, by rw [hk, pow_succ, Nat.mul_comm]⟩
    · exact ⟨k, hk⟩

theorem isPow_cap (capacity : Nat) : ∃ k, grow capacity capacity 2 = 2 ^ k := grow_isPow ⟨1, rfl⟩

def new (capacity : Nat) : SpscQueue α where
  cap := grow capacity capacity 2
  two_le := le_grow capacity
  length_lt := Nat.lt_of_lt_of_le Nat.two_pos (le_grow capacity)

theorem capacity_le_cap (capacity : Nat) : capacity ≤ (new capacity : SpscQueue α).cap :=
  capacity_le_grow (Nat.lt_two_pow_self.le.trans (Nat.le_mul_of_pos_right _ Nat.two_pos))

/-- The queue would take no more element. -/
def Full (q : SpscQueue α) : Prop := q.cap ≤ q.items.length + 1

instance (q : SpscQueue α) : Decidable q.Full := inferInstanceAs (Decidable (_ ≤ _))

/-- `try_push`, with no result when the queue refuses the element. -/
def tryPush (q : SpscQueue α) (x : α) : Option (SpscQueue α) :=
  if h : q.Full then none
  else some { q with
    items := q.items ++ [x]
    length_lt := by
      have : ¬q.cap ≤ q.items.length + 1 := h
      simp
      omega }

theorem length_tail_lt {rest : List α} (q : SpscQueue α) (h : q.items = x :: rest) : rest.length < q.cap := by
  have hlen := q.length_lt
  rw [h, List.length_cons] at hlen
  omega

def tryPop (q : SpscQueue α) : Option (α × SpscQueue α) :=
  match h : q.items with
  | [] => none
  | x :: rest => some (x, { q with items := rest, length_lt := q.length_tail_lt h })

theorem tryPush_eq_none : q.tryPush x = none ↔ q.Full := by
  unfold tryPush
  split
  · rename_i h
    exact ⟨fun _ => h, fun _ => rfl⟩
  · rename_i h
    exact ⟨fun hn => absurd hn (Option.some_ne_none _), fun hf => absurd hf h⟩

theorem tryPush_eq_some (h : q.tryPush x = some q') : ¬q.Full ∧ q'.items = q.items ++ [x] := by
  unfold tryPush at h
  split at h
  · cases h
  · rename_i hf
    cases h
    exact ⟨hf, rfl⟩

/-- The queue after a `try_push` whose result nobody looks at. -/
def offer (q : SpscQueue α) (x : α) : SpscQueue α := (q.tryPush x).getD q

theorem offer_of_full (h : q.Full) : q.offer x = q := by
  rw [offer, tryPush_eq_none.mpr h, Option.getD_none]

theorem items_offer (h : ¬q.Full) : (q.offer x).items = q.items ++ [x] := by
  obtain ⟨q', hq'⟩ := Option.ne_none_iff_exists'.mp (mt tryPush_eq_none.mp h : q.tryPush x ≠ none)
  rw [offer, hq', Option.getD_some]
  exact (tryPush_eq_some hq').2

theorem tryPop_eq_some (h : q.tryPop = some (x, q')) : q.items = x :: q'.items := by
  unfold tryPop at h
  split at h
  · cases h
  · rename_i hq
    cases h
    exact hq

end SpscQueue
end CrashCore
