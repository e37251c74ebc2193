import Mathlib.Algebra.Order.Field.Basic
import Mathlib.Data.Rat.Cast.Order
import Mathlib.Logic.Function.Basic
import Mathlib.Data.List.TakeWhile
import Mathlib.Tactic.Common

/-! Numbers in decimal, as `toString` writes them: their characters, that different numbers have different texts, and
that a reader of numbers gets them back. -/

namespace Decimal
variable {c : Char} {m n : Nat} {i j : Int}

theorem toList_nat (n : Nat) : (toString n).toList = Nat.toDigits 10 n := Nat.toList_repr

theorem isDigit_of_mem_nat (h : c ∈ (toString n).toList) : c.isDigit = true :=
  Nat.isDigit_of_mem_toDigits (by decide) (by decide) (toList_nat n ▸ h)

/-- A natural number is written with at least one digit. -/
theorem exists_digits (n : Nat) : ∃ d ds, (toString n).toList = d :: ds ∧ d.isDigit = true ∧
    ∀ c ∈ ds, c.isDigit = true := by
  have hne : (toString n).toList ≠ [] := toList_nat n ▸ Nat.toDigits_ne_nil
  obtain ⟨d, ds, htext⟩ := List.exists_cons_of_ne_nil hne
  have hall : ∀ c ∈ d :: ds, c.isDigit = true := fun c hc => isDigit_of_mem_nat (htext ▸ hc)
  exact ⟨d, ds, htext, hall d List.mem_cons_self, fun c hc => hall c (List.mem_cons_of_mem _ hc)⟩

theorem nat_injective : Function.Injective (toString : Nat → String) := by
  intro m n h
  have hdigits : Nat.toDigits 10 m = Nat.toDigits 10 n := by simpa using congrArg String.toList h
  simpa using congrArg (Nat.ofDigitChars 10 · 0) hdigits

/-- An integer is written as a natural number, with a sign before it if it is negative. -/
theorem toList_int (i : Int) :
    (∃ n : Nat, i = n ∧ (toString i).toList = (toString n).toList) ∨
      ∃ n : Nat, i = Int.negSucc n ∧ (toString i).toList = '-' :: (toString (n + 1)).toList := by
  cases i with
  | ofNat n => exact .inl ⟨n, rfl, rfl⟩
  | negSucc n =>
    refine .inr ⟨n, rfl, ?_⟩
    show ("-" ++ (n + 1).repr).toList = _
    rw [String.toList_append]
    rfl

theorem mem_int (h : c ∈ (toString i).toList) : c = '-' ∨ c.isDigit = true := by
  rcases toList_int i with ⟨n, -, htext⟩ | ⟨n, -, htext⟩
  · exact .inr (isDigit_of_mem_nat (htext ▸ h))
  · rw [htext] at h
    exact (List.mem_cons.mp h).imp_right isDigit_of_mem_nat

theorem int_injective : Function.Injective (toString : Int → String) := by
  intro i j h
  have hlist := congrArg String.toList h
  -- a sign is no digit
  have hsign {m n : Nat} : (toString m).toList ≠ '-' :: (toString n).toList := by
    intro heq
    have hminus : '-' ∈ (toString m).toList := heq ▸ List.mem_cons_self
    exact absurd (isDigit_of_mem_nat hminus) (by decide)
  rcases toList_int i with ⟨m, rfl, hm⟩ | ⟨m, rfl, hm⟩ <;> rcases toList_int j with ⟨n, rfl, hn⟩ | ⟨n, rfl, hn⟩
  · rw [hm, hn] at hlist
    rw [nat_injective (String.toList_inj.mp hlist)]
  · rw [hm, hn] at hlist
    exact absurd hlist hsign
  · rw [hm, hn] at hlist
    exact absurd hlist.symm hsign
  · rw [hm, hn] at hlist
    have heq : m + 1 = n + 1 := nat_injective (String.toList_inj.mp (List.cons.inj hlist).2)
    rw [Nat.succ.inj heq]

/-! ### Reading -/

/-- What `read` makes of the text behind its sign, if it has one. -/
def signed {α : Type} [Neg α] (read : List Char → α) : List Char → α
  | '-' :: text => -read text
  | '+' :: text => read text
  | text => read text

/-- The number that the digits at the beginning of the text denote; zero if there are none. -/
def natural (text : List Char) : Nat := Nat.ofDigitChars 10 (text.takeWhile Char.isDigit) 0

/-- The digits at the beginning of the text, the digits behind a point that follows, and the rest. -/
def places (text : List Char) : List Char × List Char × List Char :=
  match text.dropWhile Char.isDigit with
  | '.' :: rest => (text.takeWhile Char.isDigit, rest.takeWhile Char.isDigit, rest.dropWhile Char.isDigit)
  | rest => (text.takeWhile Char.isDigit, [], rest)

/-- The exponent at the beginning of the text. -/
def exponent : List Char → Int
  | c :: text => if c = 'e' ∨ c = 'E' then signed (fun ds => (natural ds : Int)) text else 0
  | [] => 0

/-- A number that may have a point and an exponent. -/
def real (text : List Char) : Rat :=
  let (whole, part, rest) := places text
  Nat.ofDigitChars 10 (whole ++ part) 0 / 10 ^ part.length * 10 ^ exponent rest

theorem takeWhile_isDigit (n : Nat) (rest : List Char) :
    ((toString n).toList ++ rest).takeWhile Char.isDigit = (toString n).toList ++ rest.takeWhile Char.isDigit :=
  List.takeWhile_append_of_pos fun _ => isDigit_of_mem_nat

theorem dropWhile_isDigit (n : Nat) (rest : List Char) :
    ((toString n).toList ++ rest).dropWhile Char.isDigit = rest.dropWhile Char.isDigit :=
  List.dropWhile_append_of_pos fun _ => isDigit_of_mem_nat

theorem ofDigitChars_toString (n : Nat) : Nat.ofDigitChars 10 (toString n).toList 0 = n := by
  rw [toList_nat, Nat.ofDigitChars_ten_toDigits]

theorem natural_toString (n : Nat) : natural (toString n).toList = n := by
  have htake := takeWhile_isDigit n []
  rw [List.append_nil, List.takeWhile_nil, List.append_nil] at htake
  rw [natural, htake, ofDigitChars_toString]

/-- A natural number has no sign. -/
theorem signed_toString {α : Type} [Neg α] (read : List Char → α) (n : Nat) (rest : List Char) :
    signed read ((toString n).toList ++ rest) = read ((toString n).toList ++ rest) := by
  obtain ⟨d, ds, htext, hd, -⟩ := exists_digits n
  rw [htext, List.cons_append]
  unfold signed
  split
  · rename_i heq
    obtain ⟨rfl, -⟩ := List.cons.inj heq
    cases hd
  · rename_i heq
    obtain ⟨rfl, -⟩ := List.cons.inj heq
    cases hd
  · rfl

theorem signed_natural_toString (i : Int) : signed (fun ds => (natural ds : Int)) (toString i).toList = i := by
  rcases toList_int i with ⟨n, rfl, htext⟩ | ⟨n, rfl, htext⟩
  · have hsigned := signed_toString (fun ds => (natural ds : Int)) n []
    rw [List.append_nil] at hsigned
    rw [htext, hsigned, natural_toString]
  · rw [htext]
    show -((natural (toString (n + 1)).toList : Nat) : Int) = _
    rw [natural_toString]
    rfl

theorem isDigit_of_mem_leftpad {k : Nat} (h : c ∈ (toString n).toList.leftpad k '0') : c.isDigit = true := by
  rw [List.leftpad] at h
  rcases List.mem_append.mp h with h | h
  · rw [List.eq_of_mem_replicate h]
    rfl
  · exact isDigit_of_mem_nat h

theorem ofDigitChars_leftpad (m n k : Nat) (hk : 0 < k) (hn : n < 10 ^ k) :
    Nat.ofDigitChars 10 ((toString m).toList ++ (toString n).toList.leftpad k '0') 0 = m * 10 ^ k + n := by
  have hlength : (toString n).toList.length ≤ k := by
    rw [toList_nat]
    exact (Nat.length_toDigits_le_iff (by decide) hk).mpr hn
  rw [List.leftpad, Nat.ofDigitChars_append, Nat.ofDigitChars_append, ofDigitChars_toString,
    Nat.ofDigitChars_replicate_zero, Nat.ofDigitChars_eq_ofDigitChars_zero, ofDigitChars_toString, ← mul_assoc,
    ← pow_add, Nat.add_sub_cancel' hlength, mul_comm]

/-- Digits, a point, and as many digits as there are places. -/
theorem real_places (m : Nat) {n k : Nat} (hk : 0 < k) (hn : n < 10 ^ k) :
    real ((toString m).toList ++ '.' :: (toString n).toList.leftpad k '0') =
      ((m * 10 ^ k + n : Nat) : Rat) / (10 ^ k : Nat) := by
  have hdigits : ∀ c ∈ (toString n).toList.leftpad k '0', c.isDigit = true := fun _ => isDigit_of_mem_leftpad
  have hlength : ((toString n).toList.leftpad k '0').length = k := by
    rw [List.length_leftpad, toList_nat]
    exact max_eq_left ((Nat.length_toDigits_le_iff (by decide) hk).mpr hn)
  have hplaces : places ((toString m).toList ++ '.' :: (toString n).toList.leftpad k '0') =
      ((toString m).toList, (toString n).toList.leftpad k '0', []) := by
    have hdrop := dropWhile_isDigit m ('.' :: (toString n).toList.leftpad k '0')
    have htake := takeWhile_isDigit m ('.' :: (toString n).toList.leftpad k '0')
    have hpoint : ('.' :: (toString n).toList.leftpad k '0').dropWhile Char.isDigit =
        '.' :: (toString n).toList.leftpad k '0' := rfl
    have hnone : ('.' :: (toString n).toList.leftpad k '0').takeWhile Char.isDigit = [] := rfl
    rw [places, hdrop, htake, hpoint, hnone, List.append_nil]
    show (_, List.takeWhile _ _, List.dropWhile _ _) = _
    rw [List.takeWhile_eq_self_iff.mpr hdigits, List.dropWhile_eq_nil_iff.mpr hdigits]
  rw [real, hplaces]
  dsimp only
  rw [ofDigitChars_leftpad m n k hk hn, hlength]
  simp [exponent]

theorem real_toString (n : Nat) : real (toString n).toList = n := by
  have hplaces : places (toString n).toList = ((toString n).toList, [], []) := by
    have hdrop := dropWhile_isDigit n []
    have htake := takeWhile_isDigit n []
    rw [List.append_nil] at hdrop htake
    rw [places, hdrop, htake]
    simp
  rw [real, hplaces]
  dsimp only
  rw [List.append_nil, ofDigitChars_toString]
  simp [exponent]

end Decimal
