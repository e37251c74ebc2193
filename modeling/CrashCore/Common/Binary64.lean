import CrashCore.Common.Rounding

/-! Doubles with the values that are no numbers, as the prediction engine reads them from files. The two zeros are one,
and nothing is lost below the normal numbers: a division by zero is that by the positive one. -/

namespace CrashCore

inductive Binary64
  | nan
  | inf (negative : Bool)
  | finite (q : Double)
deriving DecidableEq

namespace Binary64

/-- The result of an operation, which may be too large. -/
def ofRat (q : Rat) : Binary64 :=
  let d := Double.nearest q
  if |d| < 2 ^ 1024 then finite d else inf (q < 0)

/-- Sign, exponent and fraction. -/
def ofBits (bits : UInt64) : Binary64 :=
  let negative : Bool := bits >>> 63 ≠ 0
  let exponent := ((bits >>> 52) &&& 0x7ff).toNat
  let fraction := (bits &&& 0xfffffffffffff).toNat
  let sign : Rat := if negative then -1 else 1
  if exponent = 0x7ff then if fraction = 0 then inf negative else nan
  else if exponent = 0 then finite (sign * (fraction * 2 ^ (-1074 : Int)))
  else finite (sign * ((2 ^ 52 + fraction) * 2 ^ ((exponent : Int) - 1075)))

/-- `std::isfinite`. -/
def isFinite : Binary64 → Bool
  | finite _ => true
  | _ => false

def neg : Binary64 → Binary64
  | nan => nan
  | inf negative => inf !negative
  | finite q => finite (-q)

def abs : Binary64 → Binary64
  | nan => nan
  | inf _ => inf false
  | finite q => finite |q|

def add : Binary64 → Binary64 → Binary64
  | nan, _ | _, nan => nan
  | inf a, inf b => if a = b then inf a else nan
  | inf a, finite _ => inf a
  | finite _, inf b => inf b
  | finite p, finite q => ofRat (p + q)

def sub (x y : Binary64) : Binary64 := x.add y.neg

def mul : Binary64 → Binary64 → Binary64
  | nan, _ | _, nan => nan
  | inf a, inf b => inf (a != b)
  | inf a, finite q | finite q, inf a => if q = 0 then nan else inf (a != decide (q < 0))
  | finite p, finite q => ofRat (p * q)

def div : Binary64 → Binary64 → Binary64
  | nan, _ | _, nan => nan
  | inf _, inf _ => nan
  | inf a, finite q => inf (a != decide (q < 0))
  | finite _, inf _ => finite 0
  | finite p, finite q => if q = 0 then if p = 0 then nan else inf (p < 0) else ofRat (p / q)

/-- `x <= y`, which is false when one of them is no number. -/
def le : Binary64 → Binary64 → Bool
  | nan, _ | _, nan => false
  | inf true, _ | _, inf false => true
  | inf false, _ | _, inf true => false
  | finite p, finite q => p ≤ q

def lt (x y : Binary64) : Bool := x.le y && !y.le x

/-- `std::max`. -/
def max (x y : Binary64) : Binary64 := if x.lt y then y else x

/-- `std::min`. -/
def min (x y : Binary64) : Binary64 := if y.lt x then y else x

/-- `std::to_string`: six places, rounded to even. -/
def toText : Binary64 → String
  | nan => "nan"
  | inf negative => if negative then "-inf" else "inf"
  | finite q =>
    let scaled := (Double.roundTiesToEven (|q| * 10 ^ 6)).toNat
    let places := (scaled % 10 ^ 6).repr
    (if q < 0 then "-" else "") ++ (scaled / 10 ^ 6).repr ++ "." ++ String.ofList (List.replicate (6 - places.length) '0') ++
      places

/-- What the code asks of the C library. -/
structure Libm where
  exp : Binary64 → Binary64
  log : Binary64 → Binary64
  sqrt : Binary64 → Binary64

/-- What the C library documents: an exponential below 1 for what is not positive, and finite logarithms of finite
    positive numbers. -/
structure Libm.Lawful (libm : Libm) : Prop where
  exp_nan : libm.exp nan = nan
  exp_nonpos : ∀ x, x.le (finite 0) → ∃ q, libm.exp x = finite q ∧ 0 ≤ q ∧ q ≤ 1
  log_pos : ∀ q, 0 < q → ∃ r, libm.log (finite q) = finite r

/-! ### Numbers and what is none -/

theorem add_ne_nan_iff {x : Binary64} {q : Double} : x.add (finite q) ≠ nan ↔ x ≠ nan := by
  have hof (q : Rat) : ofRat q ≠ nan := by
    unfold ofRat
    dsimp only
    split <;> exact fun h => by cases h
  cases x with
  | nan => simp [add]
  | inf a => simp [add]
  | finite p => simpa [add] using hof _

theorem add_nan (x : Binary64) : x.add nan = nan := by
  cases x <;> rfl

theorem ofRat_zero : ofRat 0 = finite 0 := by
  rw [ofRat]
  simp [Double.nearest_zero]

/-- Only numbers times zero are zero. -/
theorem mul_zero_eq (x : Binary64) : x.mul (finite 0) = if x.isFinite then finite 0 else nan := by
  cases x with
  | nan => rfl
  | inf a => simp [mul, isFinite]
  | finite q => simp [mul, isFinite, ofRat_zero]

theorem ofRat_of_le_two {q : Rat} (hlow : 0 ≤ q) (hhigh : q ≤ 2) :
    ofRat q = finite (Double.nearest q) ∧ 0 ≤ Double.nearest q ∧ Double.nearest q ≤ 2 := by
  have htwo : Double.nearest 2 = 2 := by simpa using Double.nearest_zpow 1
  have hnonneg := Double.nearest_nonneg hlow
  have hle : Double.nearest q ≤ 2 := htwo ▸ Double.nearest_mono hhigh
  have habs : |Double.nearest q| < 2 ^ 1024 := by
    rw [abs_of_nonneg hnonneg]
    calc Double.nearest q ≤ 2 := hle
      _ < 2 ^ 2 := by norm_num
      _ ≤ 2 ^ 1024 := pow_le_pow_right₀ (by norm_num) (by norm_num)
  exact ⟨if_pos habs, hnonneg, hle⟩

theorem max_finite (p q : Double) : (finite p).max (finite q) = finite (Max.max p q) := by
  rcases lt_or_ge p q with h | h
  · simp [max, lt, le, h, h.le]
  · simp [max, lt, le, h]

theorem min_finite (p q : Double) : (finite p).min (finite q) = finite (Min.min p q) := by
  rcases lt_or_ge q p with h | h
  · simp [min, lt, le, h, h.le]
  · simp [min, lt, le, h]

/-- What is cut off at both ends is a number between them. -/
theorem min_max_eq {low high : Double} (hle : low ≤ high) (x : Binary64) :
    ∃ q, (finite high).min ((finite low).max x) = finite q ∧ low ≤ q ∧ q ≤ high := by
  have hlow : (finite high).min (finite low) = finite low := by rw [min_finite, min_eq_right hle]
  rcases x with _ | a | q
  · exact ⟨low, hlow, le_rfl, hle⟩
  · cases a
    · exact ⟨high, rfl, hle, le_rfl⟩
    · exact ⟨low, hlow, le_rfl, hle⟩
  · rw [max_finite, min_finite]
    exact ⟨_, rfl, le_min hle (le_max_left _ _), min_le_left _ _⟩

theorem lt_irrefl (x : Binary64) : x.lt x = false := by
  rw [lt, Bool.and_not_self]

theorem le_trans {x y z : Binary64} (h : x.le y = true) (h' : y.le z = true) : x.le z = true := by
  rcases x with _ | a | p
  · cases h
  · rcases y with _ | b | q <;> rcases z with _ | c | r <;> revert h h' <;> (try cases a) <;> (try cases b) <;>
      (try cases c) <;> simp [le]
  · rcases y with _ | b | q <;> rcases z with _ | c | r <;> revert h h' <;> (try cases b) <;> (try cases c) <;>
      simp [le]
    exact fun h h' => h.trans h'

theorem lt_trans (x y z : Binary64) (h : x.lt y = true) (h' : y.lt z = true) : x.lt z = true := by
  simp only [lt, Bool.and_eq_true, Bool.not_eq_true'] at h h' ⊢
  refine ⟨le_trans h.1 h'.1, ?_⟩
  rw [Bool.eq_false_iff]
  intro hzx
  have hyx := le_trans h'.1 hzx
  rw [h.2] at hyx
  cases hyx

end Binary64
end CrashCore
