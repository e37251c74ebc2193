import CrashCore.Concurrency.SpscQueue

/-! How `concurrency/spsc_queue.hpp` and `concurrency/mpsc_queue.hpp` compute the capacity of a queue, on 64 bits. -/

namespace CrashCore
namespace QueueCapacity

/-- `while (c < capacity_pow2) c <<= 1;` if it ends within so many turns. -/
def loop (capacity : UInt64) : Nat → UInt64 → Option UInt64
  | 0, _ => none
  | turns + 1, c => if c < capacity then loop capacity turns (c <<< 1) else some c

variable {capacity c : UInt64} {turns : Nat}

theorem loop_of_lt (h : c < capacity) : loop capacity (turns + 1) c = loop capacity turns (c <<< 1) := if_pos h

theorem loop_of_not_lt (h : ¬c < capacity) : loop capacity (turns + 1) c = some c := if_neg h

theorem toNat_shiftLeft_one (c : UInt64) : (c <<< 1).toNat = 2 * c.toNat % 2 ^ 64 := by
  rw [UInt64.toNat_shiftLeft, Nat.shiftLeft_eq, Nat.mul_comm]
  rfl

/-- A power of two below the top bit is doubled. -/
theorem toNat_shiftLeft_of_lt (hc : c.toNat < 2 ^ 63) : (c <<< 1).toNat = 2 * c.toNat := by
  rw [toNat_shiftLeft_one]
  exact Nat.mod_eq_of_lt (by omega)

/-- Up to the top bit the loop computes without wrapping. -/
theorem loop_eq_grow (hcap : capacity.toNat ≤ 2 ^ 63) : ∀ {turns : Nat} {c : UInt64},
    capacity.toNat ≤ 2 ^ turns * c.toNat → ∃ c', loop capacity (turns + 1) c = some c' ∧
      c'.toNat = SpscQueue.grow capacity.toNat turns c.toNat
  | 0, c, h => by
    have hge : ¬c < capacity := by
      rw [UInt64.lt_iff_toNat_lt]
      omega
    exact ⟨c, loop_of_not_lt hge, rfl⟩
  | turns + 1, c, h => by
    by_cases hlt : c < capacity
    · have hnat := UInt64.lt_iff_toNat_lt.mp hlt
      have hdouble := toNat_shiftLeft_of_lt (hnat.trans_le hcap)
      have hnext : capacity.toNat ≤ 2 ^ turns * (c <<< 1).toNat := by
        rw [hdouble]
        exact h.trans_eq (by ring)
      obtain ⟨c', hloop, hc'⟩ := loop_eq_grow hcap hnext
      refine ⟨c', (loop_of_lt hlt).trans hloop, ?_⟩
      rw [hc', hdouble, SpscQueue.grow, if_pos hnat]
    · have hnat : ¬c.toNat < capacity.toNat := mt UInt64.lt_iff_toNat_lt.mpr hlt
      exact ⟨c, loop_of_not_lt hlt, by rw [SpscQueue.grow, if_neg hnat]⟩

/-- What the loop goes through: the powers of two that 64 bits hold, and then 0. -/
def Visited (c : UInt64) : Prop := c = 0 ∨ ∃ k ≤ 63, c.toNat = 2 ^ k

theorem Visited.le (h : Visited c) : c.toNat ≤ 2 ^ 63 := by
  rcases h with rfl | ⟨k, hle, hk⟩
  · exact Nat.zero_le _
  · exact hk.trans_le (Nat.pow_le_pow_right Nat.two_pos hle)

theorem Visited.shiftLeft (h : Visited c) : Visited (c <<< 1) := by
  rcases h with rfl | ⟨k, hle, hk⟩
  · exact .inl rfl
  rcases Nat.lt_or_eq_of_le hle with hlt | rfl
  · have hc : c.toNat < 2 ^ 63 := hk.trans_lt (Nat.pow_lt_pow_right (by decide) hlt)
    exact .inr ⟨k + 1, hlt, by rw [toNat_shiftLeft_of_lt hc, hk, pow_succ, Nat.mul_comm]⟩
  · refine .inl (UInt64.toNat_inj.mp ?_)
    rw [toNat_shiftLeft_one, hk]
    rfl

/-- No number that the loop goes through is above the top bit. -/
theorem loop_eq_none (hcap : 2 ^ 63 < capacity.toNat) : ∀ {turns : Nat} {c : UInt64},
    Visited c → loop capacity turns c = none
  | 0, _, _ => rfl
  | _ + 1, _, h => by
    rw [loop_of_lt (UInt64.lt_iff_toNat_lt.mpr (h.le.trans_lt hcap))]
    exact loop_eq_none hcap h.shiftLeft

end QueueCapacity

/-- `cap_` and `mask_` after the constructor of an `SpscQueue`. -/
def SpscQueue.construct (capacity_pow2 : UInt64) (turns : Nat) : Option (UInt64 × UInt64) :=
  (QueueCapacity.loop capacity_pow2 turns 2).map fun c => (c, c - 1)

/-- `cap_` and `mask_` after the constructor of an `MpscQueue`. -/
def MpscQueue.construct (capacity_pow2 : UInt64) (turns : Nat) : Option (UInt64 × UInt64) :=
  (QueueCapacity.loop capacity_pow2 turns 2).map fun c => (c, c - 1)

end CrashCore
