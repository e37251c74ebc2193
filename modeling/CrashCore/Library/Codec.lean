import CrashCore.Library.Decimal
import Mathlib.Data.List.TakeDrop
import Mathlib.Data.Nat.Bits
import Mathlib.Tactic.Ring

/-! Bytes of a stream: records written one after the other and cut off after any number of symbols, numbers as bytes, and
readers that take a value off the front of a stream, as the exact inverse of a writer. -/

namespace Framing

variable {α β : Type} (encode : α → List β)

/-- The leading records that lie wholly within the first `k` symbols. -/
def whole : List α → Nat → List α
  | [], _ => []
  | a :: as, k => if (encode a).length ≤ k then a :: whole as (k - (encode a).length) else []

variable {encode} {a : α} {as : List α} {k : Nat}

@[simp] theorem whole_nil : whole encode [] k = [] := rfl

theorem whole_cons_of_le (h : (encode a).length ≤ k) :
    whole encode (a :: as) k = a :: whole encode as (k - (encode a).length) := by
  rw [whole, if_pos h]

theorem whole_cons_of_lt (h : k < (encode a).length) : whole encode (a :: as) k = [] := by
  rw [whole, if_neg (Nat.not_le.mpr h)]

theorem isPrefix_whole : ∀ (as : List α) (k : Nat), whole encode as k <+: as
  | [], _ => List.prefix_rfl
  | a :: as, k => by
    by_cases h : (encode a).length ≤ k
    · rw [whole_cons_of_le h]
      exact (List.prefix_cons_inj a).mpr (isPrefix_whole as _)
    · rw [whole_cons_of_lt (Nat.not_le.mp h)]
      exact List.nil_prefix

/-- They are as many as fit. -/
theorem le_length_whole_iff {n : Nat} (h : n ≤ as.length) :
    n ≤ (whole encode as k).length ↔ ((as.take n).flatMap encode).length ≤ k := by
  induction as generalizing n k with
  | nil =>
    obtain rfl := Nat.le_zero.mp h
    simp
  | cons a as ih =>
    obtain _ | n := n
    · simp
    rw [List.take_succ_cons, List.flatMap_cons, List.length_append]
    by_cases hk : (encode a).length ≤ k
    · rw [whole_cons_of_le hk, List.length_cons, Nat.add_le_add_iff_right, ih (Nat.le_of_succ_le_succ h)]
      omega
    · rw [whole_cons_of_lt (Nat.not_le.mp hk), List.length_nil]
      omega

/-- Without a cut all records are there. -/
theorem whole_length (as : List α) : whole encode as (as.flatMap encode).length = as := by
  refine (isPrefix_whole as _).eq_of_length_le ?_
  have hall : ((as.take as.length).flatMap encode).length = (as.flatMap encode).length := by rw [List.take_length]
  exact (le_length_whole_iff (Nat.le_refl _)).mpr (Nat.le_of_eq hall)

/-- A cut takes the first record away from the front, or falls into it. -/
theorem take_of_le (h : (encode a).length ≤ k) :
    ((a :: as).flatMap encode).take k = encode a ++ (as.flatMap encode).take (k - (encode a).length) := by
  rw [List.flatMap_cons, List.take_append, List.take_of_length_le h]

theorem take_of_lt (h : k < (encode a).length) : ((a :: as).flatMap encode).take k = (encode a).take k := by
  rw [List.flatMap_cons, List.take_append_of_le_length (Nat.le_of_lt h)]

end Framing

/-! ### Numbers as bytes

Numbers as bytes, the most significant one first. -/

namespace BigEndian

/-- The last `k` bytes of `n`: `(n >> (8 * i)) & 0xff` for `i` from `k - 1` down to 0. -/
def bytes : Nat → Nat → List UInt8
  | 0, _ => []
  | k + 1, n => UInt8.ofNat ((n >>> (8 * k)) &&& 0xff) :: bytes k n

/-- `value = (value << 8) | b` for each byte. -/
def valueFrom (value : Nat) (bs : List UInt8) : Nat := bs.foldl (fun value b => (value <<< 8) ||| b.toNat) value

def value (bs : List UInt8) : Nat := valueFrom 0 bs

@[simp] theorem length_bytes (n : Nat) : ∀ k, (bytes k n).length = k
  | 0 => rfl
  | k + 1 => congrArg (· + 1) (length_bytes n k)

theorem shift_or_byte (v : Nat) (b : UInt8) : (v <<< 8) ||| b.toNat = v * 256 + b.toNat := by
  rw [← Nat.shiftLeft_add_eq_or_of_lt b.toNat_lt, Nat.shiftLeft_eq]

theorem valueFrom_cons (v : Nat) (b : UInt8) (bs : List UInt8) :
    valueFrom v (b :: bs) = valueFrom (v * 256 + b.toNat) bs := by
  rw [valueFrom, List.foldl_cons, shift_or_byte]
  rfl

theorem valueFrom_lt (bs : List UInt8) : ∀ v, valueFrom v bs < (v + 1) * 256 ^ bs.length := by
  induction bs with
  | nil => exact fun v => by simp [valueFrom]
  | cons b bs ih =>
    intro v
    have hb : v * 256 + b.toNat + 1 ≤ (v + 1) * 256 := by
      have := b.toNat_lt
      omega
    rw [valueFrom_cons, List.length_cons, pow_succ', ← Nat.mul_assoc]
    exact (ih _).trans_le (Nat.mul_le_mul_right _ hb)

theorem value_lt (bs : List UInt8) : value bs < 256 ^ bs.length := by
  simpa [value] using valueFrom_lt bs 0

theorem toNat_byte (n k : Nat) : (UInt8.ofNat ((n >>> (8 * k)) &&& 0xff)).toNat = n / 256 ^ k % 256 := by
  have hand : (n >>> (8 * k)) &&& 0xff = (n >>> (8 * k)) % 256 := Nat.and_two_pow_sub_one_eq_mod _ 8
  rw [UInt8.toNat_ofNat', hand, Nat.shiftRight_eq_div_pow, Nat.pow_mul, Nat.mod_mod]

/-- The bytes of a number behind a value. -/
theorem valueFrom_bytes (n : Nat) : ∀ k v, valueFrom v (bytes k n) = v * 256 ^ k + n % 256 ^ k := by
  intro k
  induction k with
  | zero => exact fun v => by simp [bytes, valueFrom, Nat.mod_one]
  | succ k ih =>
    intro v
    rw [bytes, valueFrom_cons, ih, toNat_byte, pow_succ, Nat.mod_mul]
    ring

theorem value_bytes {n k : Nat} (h : n < 256 ^ k) : value (bytes k n) = n := by
  rw [value, valueFrom_bytes, Nat.zero_mul, Nat.zero_add, Nat.mod_eq_of_lt h]

theorem valueFrom_eq (v : Nat) (bs : List UInt8) : valueFrom v bs = v * 256 ^ bs.length + value bs := by
  induction bs generalizing v with
  | nil => simp [valueFrom, value]
  | cons b bs ih =>
    have hvalue : value (b :: bs) = valueFrom (0 * 256 + b.toNat) bs := valueFrom_cons 0 b bs
    rw [valueFrom_cons, ih, hvalue, ih (0 * 256 + b.toNat), List.length_cons]
    ring

theorem bytes_congr {n m : Nat} : ∀ {k : Nat}, n % 256 ^ k = m % 256 ^ k → bytes k n = bytes k m
  | 0, _ => rfl
  | k + 1, h => by
    have hhead : n / 256 ^ k % 256 = m / 256 ^ k % 256 := by
      rw [pow_succ] at h
      rw [← Nat.mod_mul_right_div_self, ← Nat.mod_mul_right_div_self, h]
    have htail : n % 256 ^ k = m % 256 ^ k := by
      have hdvd : 256 ^ k ∣ 256 ^ (k + 1) := Nat.pow_dvd_pow 256 k.le_succ
      rw [← Nat.mod_mod_of_dvd n hdvd, h, Nat.mod_mod_of_dvd m hdvd]
    rw [bytes, bytes, bytes_congr htail]
    exact congrArg (· :: bytes k m) (UInt8.toNat_inj.mp (by rw [toNat_byte, toNat_byte, hhead]))

theorem bytes_value : ∀ bs : List UInt8, bytes bs.length (value bs) = bs
  | [] => rfl
  | b :: bs => by
    have hvalue : value (b :: bs) = b.toNat * 256 ^ bs.length + value bs := by
      rw [value, valueFrom_cons, valueFrom_eq, Nat.zero_mul, Nat.zero_add]
    have hlt := value_lt bs
    have hpos : 0 < 256 ^ bs.length := Nat.pow_pos (by decide)
    have hhead : (b.toNat * 256 ^ bs.length + value bs) / 256 ^ bs.length % 256 = b.toNat := by
      rw [Nat.mul_comm, Nat.mul_add_div hpos, Nat.div_eq_of_lt hlt, Nat.add_zero, Nat.mod_eq_of_lt b.toNat_lt]
    rw [List.length_cons, bytes, hvalue, bytes_congr (m := value bs) (by simp), bytes_value bs]
    exact congrArg (· :: bs) (UInt8.toNat_inj.mp (by rw [toNat_byte, hhead]))

end BigEndian

/-! The same with the least significant byte first. -/

namespace LittleEndian

def bytes (k n : Nat) : List UInt8 := (BigEndian.bytes k n).reverse

def value (bs : List UInt8) : Nat := BigEndian.value bs.reverse

@[simp] theorem length_bytes (k n : Nat) : (bytes k n).length = k := by
  rw [bytes, List.length_reverse, BigEndian.length_bytes]

theorem value_bytes {n k : Nat} (h : n < 256 ^ k) : value (bytes k n) = n := by
  rw [value, bytes, List.reverse_reverse, BigEndian.value_bytes h]

theorem value_lt (bs : List UInt8) : value bs < 256 ^ bs.length := by
  have hlt := BigEndian.value_lt bs.reverse
  rwa [List.length_reverse] at hlt

theorem bytes_value (bs : List UInt8) : bytes bs.length (value bs) = bs := by
  have hvalue := BigEndian.bytes_value bs.reverse
  rw [List.length_reverse] at hvalue
  rw [bytes, value, hvalue, List.reverse_reverse]

end LittleEndian

/-! ### Separators

Texts of several parts with a separator between them, where only the first part may have the separator in it. They
are read from the right. -/

namespace Separator
variable {c : Char} {a b x y : List Char}

/-- The last separator splits a text. -/
theorem split_last (hx : c ∉ x) (hy : c ∉ y) (h : a ++ c :: x = b ++ c :: y) : a = b ∧ x = y := by
  rcases List.append_eq_append_iff.mp h with ⟨d, rfl, hd⟩ | ⟨d, rfl, hd⟩
  · rcases d with _ | ⟨e, d⟩
    · simpa using hd
    · obtain ⟨rfl, rfl⟩ := List.cons.inj hd
      simp at hx
  · rcases d with _ | ⟨e, d⟩
    · simpa using hd.symm
    · obtain ⟨rfl, rfl⟩ := List.cons.inj hd
      simp at hy

theorem append_inj {separator s t u v : String} (hsep : separator.toList = [c]) (hu : c ∉ u.toList) (hv : c ∉ v.toList)
    (h : s ++ separator ++ u = t ++ separator ++ v) : s = t ∧ u = v := by
  have hlist := congrArg String.toList h
  simp only [String.toList_append, hsep, List.append_assoc, List.singleton_append] at hlist
  obtain ⟨hst, huv⟩ := split_last hu hv hlist
  exact ⟨String.toList_inj.mp hst, String.toList_inj.mp huv⟩

/-! ### Numbers have no separator -/

theorem notMem_nat (hc : c.isDigit = false) (n : Nat) : c ∉ (toString n).toList := fun h => by
  rw [Decimal.isDigit_of_mem_nat h] at hc
  cases hc

theorem notMem_int (hc : c.isDigit = false) (hminus : c ≠ '-') (i : Int) : c ∉ (toString i).toList := fun h => by
  rcases Decimal.mem_int h with rfl | hdigit
  · exact hminus rfl
  · rw [hdigit] at hc
    cases hc

/-- A text and a natural number behind it. -/
theorem append_nat_inj {separator s t : String} {m n : Nat} (hsep : separator.toList = [c]) (hc : c.isDigit = false)
    (h : s ++ separator ++ toString m = t ++ separator ++ toString n) : s = t ∧ m = n := by
  obtain ⟨hst, hmn⟩ := append_inj hsep (notMem_nat hc m) (notMem_nat hc n) h
  exact ⟨hst, Decimal.nat_injective hmn⟩

/-- A text and an integer behind it. -/
theorem append_int_inj {separator s t : String} {i j : Int} (hsep : separator.toList = [c]) (hc : c.isDigit = false)
    (hminus : c ≠ '-') (h : s ++ separator ++ toString i = t ++ separator ++ toString j) : s = t ∧ i = j := by
  obtain ⟨hst, hij⟩ := append_inj hsep (notMem_int hc hminus i) (notMem_int hc hminus j) h
  exact ⟨hst, Decimal.int_injective hij⟩

end Separator

/-! ### Readers

A value is read where it has been written, and nowhere else. -/

namespace Codec
variable {α β : Type} {read : List β → Option (α × List β)} {write : α → List β} {valid : α → Prop}

/-- What is read is what has been written of a valid value. -/
def Exact (read : List β → Option (α × List β)) (write : α → List β) (valid : α → Prop) : Prop :=
  ∀ stream a rest, read stream = some (a, rest) ↔ valid a ∧ stream = write a ++ rest

/-- Reads `n` values. -/
def many (read : List β → Option (α × List β)) : Nat → List β → Option (List α × List β)
  | 0, stream => some ([], stream)
  | n + 1, stream => do
    let (a, stream) ← read stream
    let (as, stream) ← many read n stream
    some (a :: as, stream)

theorem Exact.many (h : Exact read write valid) (n : Nat) :
    Exact (many read n) (·.flatMap write) fun as => as.length = n ∧ ∀ a ∈ as, valid a := by
  induction n with
  | zero =>
    rintro stream as rest
    simp only [Codec.many, Option.some.injEq, Prod.mk.injEq, List.length_eq_zero_iff]
    constructor
    · rintro ⟨rfl, rfl⟩
      simp
    · rintro ⟨⟨rfl, -⟩, rfl⟩
      simp
  | succ n ih =>
    rintro stream as rest
    simp only [Codec.many, Option.bind_eq_bind, Option.bind_eq_some_iff, Prod.exists, h stream, Option.some.injEq,
      Prod.mk.injEq]
    constructor
    · rintro ⟨a, stream', ⟨hvalid, rfl⟩, as', rest', hread, rfl, rfl⟩
      obtain ⟨⟨rfl, hvalids⟩, rfl⟩ := (ih stream' as' rest').mp hread
      refine ⟨⟨rfl, ?_⟩, by simp⟩
      simpa using ⟨hvalid, hvalids⟩
    · rintro ⟨⟨hlength, hvalid⟩, rfl⟩
      obtain ⟨a, as', rfl⟩ := List.exists_cons_of_length_eq_add_one hlength
      refine ⟨a, as'.flatMap write ++ rest, ⟨hvalid a List.mem_cons_self, by simp⟩, as', rest, ?_, rfl, rfl⟩
      exact (ih _ _ _).mpr ⟨⟨Nat.succ.inj hlength, fun b hb => hvalid b (List.mem_cons_of_mem a hb)⟩, rfl⟩

/-- Reads values until there is none, at most `fuel` ones. -/
def toEnd (read : List β → Option (α × List β)) : Nat → List β → List α × List β
  | 0, stream => ([], stream)
  | fuel + 1, stream =>
    match read stream with
    | none => ([], stream)
    | some (a, stream) =>
      let (as, stream) := toEnd read fuel stream
      (a :: as, stream)

/-- What is read to the end is what has been written, up to where no value follows. -/
theorem Exact.toEnd_iff (h : Exact read write valid) (hwrite : ∀ a, write a ≠ []) {fuel : Nat} {stream rest : List β}
    {as : List α} (hfuel : stream.length ≤ fuel) :
    toEnd read fuel stream = (as, rest) ↔ (∀ a ∈ as, valid a) ∧ stream = as.flatMap write ++ rest ∧ read rest = none := by
  induction fuel generalizing stream as with
  | zero =>
    obtain rfl : stream = [] := List.length_eq_zero_iff.mp (Nat.le_zero.mp hfuel)
    have hend : read [] = none := by
      rcases hread : read [] with _ | ⟨a, rest⟩
      · rfl
      · exact absurd (List.append_eq_nil_iff.mp ((h _ _ _).mp hread).2.symm).1 (hwrite a)
    simp only [toEnd, Prod.mk.injEq]
    constructor
    · rintro ⟨rfl, rfl⟩
      exact ⟨by simp, rfl, hend⟩
    · rintro ⟨-, happend, -⟩
      obtain ⟨has, rfl⟩ := List.append_eq_nil_iff.mp happend.symm
      obtain _ | ⟨a, as⟩ := as
      · exact ⟨rfl, rfl⟩
      · exact absurd (List.append_eq_nil_iff.mp (List.flatMap_cons ▸ has)).1 (hwrite a)
  | succ fuel ih =>
    rcases hread : read stream with _ | ⟨a, tail⟩
    · simp only [toEnd, hread, Prod.mk.injEq]
      constructor
      · rintro ⟨rfl, rfl⟩
        exact ⟨by simp, rfl, hread⟩
      · rintro ⟨hvalid, rfl, -⟩
        obtain _ | ⟨a, as⟩ := as
        · exact ⟨rfl, rfl⟩
        · have hfirst : read ((a :: as).flatMap write ++ rest) = some (a, as.flatMap write ++ rest) :=
            (h _ _ _).mpr ⟨hvalid a List.mem_cons_self, by simp⟩
          rw [hread] at hfirst
          cases hfirst
    · obtain ⟨hvalid, rfl⟩ := (h _ _ _).mp hread
      have hpos : 0 < (write a).length := List.length_pos_iff.mpr (hwrite a)
      have htail : tail.length ≤ fuel := by
        rw [List.length_append] at hfuel
        omega
      simp only [toEnd, hread, Prod.mk.injEq]
      constructor
      · rintro ⟨rfl, rfl⟩
        obtain ⟨hvalids, hstream, hend⟩ := (ih htail).mp rfl
        refine ⟨List.forall_mem_cons.mpr ⟨hvalid, hvalids⟩, ?_, hend⟩
        rw [List.flatMap_cons, List.append_assoc, ← hstream]
      · rintro ⟨hvalids, hstream, hend⟩
        obtain _ | ⟨b, as⟩ := as
        · rw [List.flatMap_nil, List.nil_append] at hstream
          rw [hstream, hend] at hread
          cases hread
        · obtain ⟨hvalidb, hrest⟩ := List.forall_mem_cons.mp hvalids
          have hfirst := (h _ _ _).mpr (⟨hvalidb, by simpa using hstream⟩ : valid b ∧ _ = write b ++ (as.flatMap write ++ rest))
          rw [hread] at hfirst
          obtain ⟨rfl, rfl⟩ := Prod.mk.inj (Option.some.inj hfirst)
          have htoEnd : toEnd read fuel (as.flatMap write ++ rest) = (as, rest) := (ih htail).mpr ⟨hrest, rfl, hend⟩
          exact ⟨by rw [htoEnd], by rw [htoEnd]⟩

/-! ### Numbers of a fixed number of bytes -/

/-- The next `k` bytes, the least significant one first. -/
def number (k : Nat) (stream : List UInt8) : Option (Nat × List UInt8) :=
  if k ≤ stream.length then some (LittleEndian.value (stream.take k), stream.drop k) else none

theorem exact_number (k : Nat) : Exact (number k) (LittleEndian.bytes k) (· < 256 ^ k) := by
  rintro stream n rest
  unfold number
  constructor
  · intro h
    split at h
    · rename_i hlen
      obtain ⟨rfl, rfl⟩ := Prod.mk.inj (Option.some.inj h)
      have htake : (stream.take k).length = k := List.length_take_of_le hlen
      have hbytes := LittleEndian.bytes_value (stream.take k)
      have hlt := LittleEndian.value_lt (stream.take k)
      rw [htake] at hbytes hlt
      exact ⟨hlt, by rw [hbytes, List.take_append_drop]⟩
    · cases h
  · rintro ⟨hlt, rfl⟩
    have hlen : (LittleEndian.bytes k n).length = k := LittleEndian.length_bytes k n
    rw [if_pos (by simp), List.take_left' hlen, List.drop_left' hlen, LittleEndian.value_bytes hlt]

end Codec
