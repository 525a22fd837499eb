import BlockScript.Number.Power

/-!
Numbers of the script language: IEEE double precision. Every finite double is a whole multiple of
the least positive one, `2 ^ -1074`, called a quantum here, so a finite number is a sign and a count
of quanta with at most 53 significant bits. Exact arithmetic on counts followed by `roundQuotient`
gives the correctly rounded operations.
-/
namespace BlockScript

def quantaPerOne : Nat := twoPow 1074

/-- The first count of quanta that is too large for a finite number. -/
def overflowThreshold : Nat := twoPow 2098

/-- Representable counts near `m` are the multiples of `2 ^ gridExponent m`. -/
def gridExponent (m : Nat) : Nat := m.log2 - 52

/-- A count of quanta with at most 53 significant bits, below the overflow threshold. -/
def Fits (m : Nat) : Prop := m < overflowThreshold ∧ twoPow (gridExponent m) ∣ m

instance (m : Nat) : Decidable (Fits m) := inferInstanceAs (Decidable (_ ∧ _))

/-- The whole number nearest to `num / den`, a tie going to the even neighbour. -/
def divRoundEven (num den : Nat) : Nat :=
  let q := num / den
  let r := num % den
  if 2 * r < den ∨ (2 * r = den ∧ q % 2 = 0) then q else q + 1

/-- The count with at most 53 significant bits nearest to `num / den`, a tie going to the even one. -/
def roundQuotient (num den : Nat) : Nat :=
  let step := twoPow (gridExponent (num / den))
  divRoundEven num (den * step) * step

theorem divRoundEven_le (num den : Nat) : divRoundEven num den ≤ num / den + 1 := by
  unfold divRoundEven
  dsimp only
  split <;> omega

/-- A count of at most 53 significant bits times a power of two keeps to its grid. -/
theorem gridExponent_dvd_mul {q k : Nat} (hq : q ≤ twoPow 53) :
    twoPow (gridExponent (q * twoPow k)) ∣ q * twoPow k := by
  change 2 ^ gridExponent (q * 2 ^ k) ∣ q * 2 ^ k
  replace hq : q ≤ 2 ^ 53 := hq
  by_cases h0 : q = 0
  · simp [h0]
  · have hpos : q * 2 ^ k ≠ 0 := Nat.mul_ne_zero h0 (Nat.ne_of_gt (Nat.two_pow_pos k))
    by_cases hlt : q = 2 ^ 53
    · subst hlt
      have : gridExponent (2 ^ 53 * 2 ^ k) = k + 1 := by
        unfold gridExponent
        rw [← Nat.pow_add, Nat.log2_two_pow]
        omega
      rw [this, ← Nat.pow_add]
      exact Nat.pow_dvd_pow 2 (by omega)
    · have hbound : q * 2 ^ k < 2 ^ (53 + k) := by
        rw [Nat.pow_add]
        exact Nat.mul_lt_mul_of_pos_right (by omega) (Nat.two_pow_pos k)
      have hlog : (q * 2 ^ k).log2 < 53 + k := (Nat.log2_lt hpos).2 hbound
      have hle : gridExponent (q * 2 ^ k) ≤ k := by unfold gridExponent; omega
      exact Nat.dvd_trans (Nat.pow_dvd_pow 2 hle) (Nat.dvd_mul_left _ _)

theorem div_gridExponent_lt (n : Nat) : n / twoPow (gridExponent n) < twoPow 53 := by
  change n / 2 ^ gridExponent n < 2 ^ 53
  rw [Nat.div_lt_iff_lt_mul (Nat.two_pow_pos _), ← Nat.pow_add]
  by_cases h0 : n = 0
  · subst h0; exact Nat.two_pow_pos _
  · rw [← Nat.log2_lt h0]
    unfold gridExponent
    omega

theorem roundQuotient_dvd (num den : Nat) :
    twoPow (gridExponent (roundQuotient num den)) ∣ roundQuotient num den := by
  unfold roundQuotient
  refine gridExponent_dvd_mul ?_
  have h1 := divRoundEven_le num (den * twoPow (gridExponent (num / den)))
  have h2 := div_gridExponent_lt (num / den)
  rw [Nat.div_div_eq_div_mul] at h2
  omega

theorem fits_zero : Fits 0 := ⟨by decide +kernel, Nat.dvd_zero _⟩

/-- A double: not a number, a signed infinity, or a signed count of quanta. -/
inductive Number where
  | nan
  | infinity (negative : Bool)
  | finite (negative : Bool) (quanta : Nat) (fits : Fits quanta)
  deriving DecidableEq

namespace Number

/-- The double nearest to `± num / den` quanta. -/
def ofQuotient (negative : Bool) (num den : Nat) : Number :=
  if h : roundQuotient num den < overflowThreshold then
    .finite negative (roundQuotient num den) ⟨h, roundQuotient_dvd num den⟩
  else .infinity negative

def zero (negative : Bool) : Number := .finite negative 0 fits_zero

/-- The double nearest to a count of quanta, `zeroNegative` telling the sign of a zero. -/
def ofQuanta (zeroNegative : Bool) (v : Int) : Number :=
  if v = 0 then zero zeroNegative else ofQuotient (decide (v < 0)) v.natAbs 1

def ofNat (n : Nat) : Number := ofQuotient false (n * quantaPerOne) 1

/-- The double nearest to a whole number; zero is positive. -/
def ofInt (n : Int) : Number := ofQuotient (decide (n < 0)) (n.natAbs * quantaPerOne) 1

instance (n : Nat) : OfNat Number n := ⟨ofNat n⟩

instance : Inhabited Number := ⟨0⟩

/-- The double nearest to `digits * 10 ^ exponent`. -/
def ofDecimal (negative : Bool) (digits : Nat) (exponent : Int) : Number :=
  if digits = 0 then zero negative
  else if 400 < exponent then .infinity negative
  else if exponent + digits.log2 < -400 then zero negative
  else if 0 ≤ exponent then ofQuotient negative (digits * tenPow exponent.toNat * quantaPerOne) 1
  else ofQuotient negative (digits * quantaPerOne) (tenPow (-exponent).toNat)

/-- Neither infinite nor `nan`. -/
def isFinite : Number → Bool
  | .finite .. => true
  | _ => false

def isNaN : Number → Bool
  | .nan => true
  | _ => false

def signed (negative : Bool) (quanta : Nat) : Int := if negative then -(quanta : Int) else quanta

/-- A finite number without a fractional part. -/
def isWhole : Number → Bool
  | .finite _ m _ => m % quantaPerOne == 0
  | _ => false

/-! ### Order -/

/-- The order of two numbers; `nan` has none, and both zeros are equal. -/
def order? : Number → Number → Option Ordering
  | .nan, _ => none
  | _, .nan => none
  | .infinity s, .infinity t => some (compare t.toNat s.toNat)
  | .infinity s, .finite .. => some (if s then .lt else .gt)
  | .finite .., .infinity t => some (if t then .gt else .lt)
  | .finite s m _, .finite t n _ => some (compare (signed s m) (signed t n))

/-- Numeric equality: both zeros are equal and `nan` equals nothing. -/
def eqv (x y : Number) : Bool := x.order? y == some .eq

instance : LT Number := ⟨fun x y => x.order? y = some .lt⟩
instance : LE Number := ⟨fun x y => x.order? y = some .lt ∨ x.order? y = some .eq⟩
instance (x y : Number) : Decidable (x < y) := inferInstanceAs (Decidable (_ = _))
instance (x y : Number) : Decidable (x ≤ y) := inferInstanceAs (Decidable (_ ∨ _))

/-- The number itself inside the bounds, else the bound it passed; `nan` stays. -/
def clamp (x low high : Number) : Number := if x < low then low else if high < x then high else x

end Number
end BlockScript
