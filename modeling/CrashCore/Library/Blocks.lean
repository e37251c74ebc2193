import Mathlib.Data.List.Basic
import Mathlib.Tactic.Ring

/-! A stream that is consumed in blocks of `n` symbols: the state after its whole blocks, and the rest that waits for
more. A stream that comes in pieces of any length is consumed like one that comes at once. -/

namespace Blocks
variable {σ β : Type} (compress : σ → List β → σ) (n : Nat)

/-- The state after the first `k` blocks. -/
def absorb : Nat → σ → List β → σ
  | 0, s, _ => s
  | k + 1, s, l => absorb k (compress s (l.take n)) (l.drop n)

/-- Consumes whole blocks, as long as there are any, at most `fuel` ones. -/
def consume : Nat → σ → List β → σ × List β
  | 0, s, l => (s, l)
  | fuel + 1, s, l => if n ≤ l.length then consume fuel (compress s (l.take n)) (l.drop n) else (s, l)

/-- Of the stream `l` the whole blocks have been consumed from `start` on, and `rest` is left. -/
def Consumed (start s : σ) (rest l : List β) : Prop :=
  ∃ k whole, l = whole ++ rest ∧ whole.length = n * k ∧ s = absorb compress n k start whole ∧ rest.length < n

variable {compress n} {start s : σ} {rest l l' b : List β} {k j fuel : Nat}

theorem absorb_succ (h : l.length = n * k) (hb : b.length = n) :
    absorb compress n (k + 1) s (l ++ b) = compress (absorb compress n k s l) b := by
  induction k generalizing s l with
  | zero =>
    obtain rfl : l = [] := List.length_eq_zero_iff.mp h
    rw [absorb, absorb, absorb, List.nil_append, List.take_of_length_le hb.le]
  | succ k ih =>
    have hn : n ≤ l.length := h ▸ Nat.le_mul_of_pos_right n k.succ_pos
    have hdrop : (l.drop n).length = n * k := by
      rw [List.length_drop, h, Nat.mul_succ, Nat.add_sub_cancel]
    rw [absorb, List.take_append_of_le_length hn, List.drop_append_of_le_length hn, ih hdrop]
    rfl

theorem consumed_nil (hn : 0 < n) : Consumed compress n start start [] [] :=
  ⟨0, [], rfl, rfl, rfl, hn⟩

/-- Symbols that do not fill the block wait. -/
theorem Consumed.wait (h : Consumed compress n start s rest l) (hlt : rest.length + b.length < n) :
    Consumed compress n start s (rest ++ b) (l ++ b) := by
  obtain ⟨k, whole, rfl, hlen, hs, -⟩ := h
  refine ⟨k, whole, (List.append_assoc ..), hlen, hs, ?_⟩
  rwa [List.length_append]

theorem Consumed.fill (h : Consumed compress n start s rest l) (hfull : rest.length + b.length = n) :
    Consumed compress n start (compress s (rest ++ b)) [] (l ++ b) := by
  obtain ⟨k, whole, rfl, hlen, rfl, hrest⟩ := h
  have hb : (rest ++ b).length = n := by rwa [List.length_append]
  refine ⟨k + 1, whole ++ (rest ++ b), by simp, ?_, (absorb_succ hlen hb).symm, Nat.zero_lt_of_lt hrest⟩
  rw [List.length_append, hlen, hb, Nat.mul_succ]

theorem Consumed.consume (hn : 0 < n) (h : Consumed compress n start s [] l) (hfuel : b.length ≤ fuel) :
    Consumed compress n start (consume compress n fuel s b).1 (consume compress n fuel s b).2 (l ++ b) := by
  induction fuel generalizing s l b with
  | zero =>
    obtain rfl : b = [] := List.length_eq_zero_iff.mp (Nat.le_zero.mp hfuel)
    rwa [List.append_nil]
  | succ fuel ih =>
    rw [Blocks.consume]
    split
    · rename_i hblock
      have htake : (b.take n).length = n := List.length_take_of_le hblock
      have hnext := h.fill (b := b.take n) (by rw [htake, List.length_nil, Nat.zero_add])
      have hrest : (b.drop n).length ≤ fuel := by
        rw [List.length_drop]
        omega
      have hconsume := ih hnext hrest
      rwa [List.append_assoc, List.take_append_drop] at hconsume
    · rename_i hblock
      exact h.wait (by simpa using Nat.lt_of_not_le hblock)

end Blocks
