import CrashCore.Ingestion.SocketIoProtocol

/-! When an open frame is parsed without an overflow: the digits behind its two keys are read into an `int`, however many
there are. -/

namespace CrashCore
namespace Engineio

variable {buf json key text : Bytes} {c : UInt8} {v : Nat}

/-- Every intermediate value fits, and the values that are returned are not negative. -/
def Safe (buf : Bytes) : Prop := ∃ p, parseOpen buf = some p ∧ 0 ≤ p.pingInterval ∧ 0 ≤ p.pingTimeout

/-- The number that the digits at the beginning of the text denote, with `v` in front of them. -/
def numeral (v : Nat) (text : Bytes) : Nat := (text.takeWhile isDigit).foldl (fun n c => 10 * n + (c.toNat - '0'.toNat)) v

/-- An `int` holds the number behind the key, if there is one. -/
def Small (json key : Bytes) : Prop := ∀ text ∈ behind json key, numeral 0 text < 2 ^ 31

def SmallNumbers (buf : Bytes) : Prop :=
  buf.length < 2 ∨ (Small (buf.drop 1) (ascii "\"pingInterval\"") ∧ Small (buf.drop 1) (ascii "\"pingTimeout\""))

/-! ### One number -/

theorem numeral_cons (h : isDigit c = true) : numeral v (c :: text) = numeral (10 * v + (c.toNat - '0'.toNat)) text := by
  rw [numeral, numeral, List.takeWhile_cons_of_pos h, List.foldl_cons]

theorem numeral_stop (h : isDigit c = false) : numeral v (c :: text) = v := by
  rw [numeral, List.takeWhile_cons_of_neg (by simp [h])]
  rfl

/-- More digits make the number no smaller. -/
theorem le_numeral (v : Nat) (text : Bytes) : v ≤ numeral v text := by
  induction text generalizing v with
  | nil => exact Nat.le_refl v
  | cons c text ih =>
    by_cases h : isDigit c = true
    · rw [numeral_cons h]
      exact le_trans (by omega) (ih _)
    · rw [numeral_stop (by simpa using h)]

theorem int_natCast (v : Nat) : int v = if v < 2 ^ 31 then some (v : Int) else none := by
  rw [int]
  split <;> split <;> first | rfl | omega

/-- The loop ends with the number, unless it has grown too large on the way. -/
theorem accumulate_eq (hv : v < 2 ^ 31) (text : Bytes) :
    accumulate v text = if numeral v text < 2 ^ 31 then some (numeral v text : Int) else none := by
  induction text generalizing v with
  | nil => exact (if_pos hv).symm
  | cons c text ih =>
    by_cases h : isDigit c = true
    · have hdigit : '0'.toNat ≤ c.toNat := UInt8.le_iff_toNat_le.mp (of_decide_eq_true h).1
      have hnext : ((v * 10 : Nat) : Int) + (c.toNat - '0'.toNat : Int) = (10 * v + (c.toNat - '0'.toNat) : Nat) := by
        omega
      have hle := le_numeral (10 * v + (c.toNat - '0'.toNat)) text
      have hten : (v : Int) * 10 = (v * 10 : Nat) := by simp
      rw [accumulate, if_pos h, numeral_cons h, hten, int_natCast]
      by_cases hfits : v * 10 < 2 ^ 31
      · rw [if_pos hfits, Option.bind_some, hnext, int_natCast]
        by_cases hsum : 10 * v + (c.toNat - '0'.toNat) < 2 ^ 31
        · rw [if_pos hsum, Option.bind_some, ih hsum]
        · rw [if_neg hsum, if_neg (by omega), Option.bind_none]
      · rw [if_neg hfits, if_neg (by omega), Option.bind_none]
    · have hstop : isDigit c = false := by simpa using h
      rw [accumulate, if_neg h, numeral_stop hstop, if_pos hv]

/-- The number behind a key is read exactly if it is small. -/
theorem findNum_cases (json key : Bytes) :
    (Small json key ∧ ∃ v, findNum json key = some v ∧ 0 ≤ v) ∨ (¬Small json key ∧ findNum json key = none) := by
  unfold findNum Small
  rcases behind json key with _ | text
  · exact .inl ⟨nofun, 0, rfl, Int.le_refl 0⟩
  · have hread := accumulate_eq (v := 0) (by decide) text
    by_cases h : numeral 0 text < 2 ^ 31
    · rw [if_pos h] at hread
      exact .inl ⟨by simpa using h, numeral 0 text, hread, Int.natCast_nonneg _⟩
    · rw [if_neg h] at hread
      exact .inr ⟨by simpa using h, hread⟩

/-! ### The frame -/

/-- For every byte sequence, the parser stays in the range of its type exactly if both numbers do. -/
theorem parseOpen_safe_iff (buf : Bytes) : Safe buf ↔ SmallNumbers buf := by
  unfold Safe SmallNumbers parseOpen
  by_cases hlen : buf.length < 2
  · rw [if_pos hlen]
    exact iff_of_true ⟨{}, rfl, Int.le_refl 0, Int.le_refl 0⟩ (.inl hlen)
  · rw [if_neg hlen]
    dsimp only
    rcases findNum_cases (buf.drop 1) (ascii "\"pingInterval\"") with ⟨hsmall, v, hv, hnonneg⟩ | ⟨hlarge, hnone⟩
    · rcases findNum_cases (buf.drop 1) (ascii "\"pingTimeout\"") with ⟨hsmall', w, hw, hnonneg'⟩ | ⟨hlarge', hnone'⟩
      · rw [hv, hw]
        exact iff_of_true ⟨_, rfl, hnonneg, hnonneg'⟩ (.inr ⟨hsmall, hsmall'⟩)
      · rw [hv, hnone']
        exact iff_of_false (by simp) fun h => hlarge' (h.resolve_left hlen).2
    · rw [hnone]
      exact iff_of_false (by simp) fun h => hlarge (h.resolve_left hlen).1

/-- An interval of 2^31 milliseconds. -/
theorem not_parseOpen_safe : ¬Safe (ascii "0\x7b\"pingInterval\":2147483648,\"pingTimeout\":60000\x7d") := by
  have hnone : parseOpen (ascii "0\x7b\"pingInterval\":2147483648,\"pingTimeout\":60000\x7d") = none := by
    decide +kernel
  rintro ⟨p, hp, -⟩
  rw [hnone] at hp
  cases hp

end Engineio
end CrashCore
