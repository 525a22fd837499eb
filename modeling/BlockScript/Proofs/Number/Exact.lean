import BlockScript.Proofs.Number.Whole
import Mathlib.Data.Rat.Floor
import Mathlib.Tactic.FieldSimp
import Mathlib.Tactic.Positivity

/-!
The rationals that doubles are. The order of finite doubles is that of their rationals. A sum, a product and a quotient
are the exact ones, rounded, and rounding passes no double: a rational that is a double stays what it is, and one that
lies between two doubles ends between them. Whole numbers and their binary fractions are doubles as far as 53 bits
suffice for them, and far from zero doubles have no other fractions.
-/
namespace BlockScript

/-- What division of counts leaves is a count that fits. -/
theorem Fits.mod {m n : Nat} (hm : Fits m) (hn : Fits n) (h0 : n ≠ 0) : Fits (m % n) := by
  have hlt := Nat.mod_lt m (Nat.pos_of_ne_zero h0)
  rcases Nat.lt_or_ge (gridExponent m) (gridExponent n) with hgt | hle
  · have hsmall : m < n :=
      calc m < 2 ^ (53 + gridExponent m) := lt_two_pow_gridExponent m
        _ ≤ 2 ^ (52 + gridExponent n) := two_pow_le (by omega)
        _ ≤ n := two_pow_le_of_gridExponent (by omega)
    rwa [Nat.mod_eq_of_lt hsmall]
  · -- Both lie on the finer grid, and what is left is below a count with its bits.
    have hdvd : 2 ^ gridExponent n ∣ m % n := (Nat.dvd_mod_iff hn.2).mpr ((Nat.pow_dvd_pow 2 hle).trans hm.2)
    obtain ⟨c, hc⟩ := hdvd
    have hbits : c < 2 ^ 53 := by
      have htop := hlt.trans (lt_two_pow_gridExponent n)
      rw [hc, Nat.add_comm, Nat.pow_add] at htop
      exact Nat.lt_of_mul_lt_mul_left htop
    rw [Nat.mul_comm] at hc
    exact ⟨hlt.trans hn.1, hc ▸ gridExponent_dvd_mul hbits.le⟩

namespace Number

/-- The rational that a finite double is, and zero for the others. -/
def toRat : Number → ℚ
  | .finite s m _ => signed s m / quantaPerOne
  | _ => 0

/-- A rational that is a double. -/
def Exact (q : ℚ) : Prop := ∃ x : Number, x.isFinite = true ∧ x.toRat = q

variable {x y z : Number} {p q : ℚ}

theorem exact_toRat (hx : x.isFinite = true) : Exact x.toRat := ⟨x, hx, rfl⟩

theorem quantaPerOne_cast_pos : (0 : ℚ) < quantaPerOne := Nat.cast_pos.mpr quantaPerOne_pos

theorem exists_finite (hx : x.isFinite = true) : ∃ s m fits, x = .finite s m fits := by
  cases x with
  | finite s m fits => exact ⟨s, m, fits, rfl⟩
  | _ => cases hx

theorem abs_toRat (s : Bool) (m : Nat) (fits : Fits m) : |(finite s m fits).toRat| = m / quantaPerOne := by
  rw [toRat, abs_div, ← Int.cast_abs, Int.abs_eq_natAbs, natAbs_signed, abs_of_pos quantaPerOne_cast_pos,
    Int.cast_natCast]

theorem toRat_zero (s : Bool) (fits : Fits 0) : (finite s 0 fits).toRat = 0 := by
  rw [← abs_eq_zero, abs_toRat, Nat.cast_zero, zero_div]

/-! ### Order -/

theorem le_iff_toRat (hx : x.isFinite = true) (hy : y.isFinite = true) : x ≤ y ↔ x.toRat ≤ y.toRat := by
  obtain ⟨s, m, hm, rfl⟩ := exists_finite hx
  obtain ⟨t, n, hn, rfl⟩ := exists_finite hy
  rw [finite_le_iff, toRat, toRat, div_le_div_iff_of_pos_right quantaPerOne_cast_pos, Int.cast_le]

theorem lt_iff_toRat (hx : x.isFinite = true) (hy : y.isFinite = true) : x < y ↔ x.toRat < y.toRat := by
  obtain ⟨s, m, hm, rfl⟩ := exists_finite hx
  obtain ⟨t, n, hn, rfl⟩ := exists_finite hy
  rw [finite_lt_iff, toRat, toRat, div_lt_div_iff_of_pos_right quantaPerOne_cast_pos, Int.cast_lt]

theorem eqv_iff_toRat (hx : x.isFinite = true) (hy : y.isFinite = true) : x.eqv y = true ↔ x.toRat = y.toRat := by
  obtain ⟨s, m, hm, rfl⟩ := exists_finite hx
  obtain ⟨t, n, hn, rfl⟩ := exists_finite hy
  rw [eqv_iff, toRat, toRat, div_left_inj' quantaPerOne_cast_pos.ne', Int.cast_inj, order?, Option.some.injEq,
    compare_eq_iff_eq]

/-! ### Negation -/

theorem signed_not (s : Bool) (m : Nat) : signed (!s) m = -signed s m := by
  cases s <;> simp [signed]

theorem order?_neg (x y : Number) : (-x).order? (-y) = y.order? x := by
  cases x with
  | nan => cases y <;> rfl
  | infinity s =>
    cases y with
    | nan => rfl
    | infinity t => cases s <;> cases t <;> rfl
    | finite t n hn => cases s <;> rfl
  | finite s m hm =>
    cases y with
    | nan => rfl
    | infinity t => cases t <;> rfl
    | finite t n hn =>
      change some (compare (signed (!s) m) (signed (!t) n)) = some (compare (signed t n) (signed s m))
      rw [signed_not, signed_not]
      simp only [compare, compareOfLessAndEq, neg_lt_neg_iff, neg_inj, eq_comm]

theorem neg_le_neg_iff' : -x ≤ -y ↔ y ≤ x := by
  change ((-x).order? (-y) = _ ∨ (-x).order? (-y) = _) ↔ _
  rw [order?_neg]
  rfl

theorem neg_neg (x : Number) : -(-x) = x := by
  cases x with
  | nan => rfl
  | infinity s => exact congrArg Number.infinity (Bool.not_not s)
  | finite s m hm =>
    change Number.finite (!!s) m hm = _
    rw [Bool.not_not]

theorem toRat_neg (x : Number) : (-x).toRat = -x.toRat := by
  cases x with
  | finite s m hm =>
    change ((signed (!s) m : ℤ) : ℚ) / quantaPerOne = -((signed s m : ℤ) / quantaPerOne)
    rw [signed_not, Int.cast_neg, neg_div]
  | _ => exact neg_zero.symm

theorem isFinite_neg (x : Number) : (-x).isFinite = x.isFinite := by
  cases x <;> rfl

/-! ### Rounding -/

/-- What a rational is rounded to, with no double between them. -/
structure Rounds (x : Number) (q : ℚ) : Prop where
  le : ∀ {z : Number}, z.isFinite = true → z.toRat ≤ q → z ≤ x
  ge : ∀ {z : Number}, z.isFinite = true → q ≤ z.toRat → x ≤ z

theorem Rounds.neg (h : x.Rounds q) : (-x).Rounds (-q) where
  le {z} hz hzq := by
    rw [← neg_neg z, neg_le_neg_iff']
    refine h.ge (isFinite_neg z ▸ hz) ?_
    rw [toRat_neg]
    exact le_neg_of_le_neg hzq
  ge {z} hz hzq := by
    rw [← neg_neg z, neg_le_neg_iff']
    refine h.le (isFinite_neg z ▸ hz) ?_
    rw [toRat_neg]
    exact neg_le_of_neg_le hzq

/-- A rational between two doubles is rounded to a number between them. -/
theorem Rounds.mem {a b : ℚ} (h : x.Rounds q) (ha : Exact a) (hb : Exact b) (low : a ≤ q) (high : q ≤ b) :
    x.isFinite = true ∧ a ≤ x.toRat ∧ x.toRat ≤ b := by
  obtain ⟨y, hy, rfl⟩ := ha
  obtain ⟨z, hz, rfl⟩ := hb
  have hlow := h.le hy low
  have hhigh := h.ge hz high
  have hx := isFinite_of_le hy hz hlow hhigh
  exact ⟨hx, (le_iff_toRat hy hx).mp hlow, (le_iff_toRat hx hz).mp hhigh⟩

/-- A double is not rounded. -/
theorem Rounds.eq (h : x.Rounds q) (hq : Exact q) : x.isFinite = true ∧ x.toRat = q := by
  obtain ⟨hx, hlow, hhigh⟩ := h.mem hq hq le_rfl le_rfl
  exact ⟨hx, hhigh.antisymm hlow⟩

theorem Rounds.le_toRat (h : x.Rounds q) (hx : x.isFinite = true) (hp : Exact p) (hpq : p ≤ q) : p ≤ x.toRat := by
  obtain ⟨z, hz, rfl⟩ := hp
  exact (le_iff_toRat hz hx).mp (h.le hz hpq)

theorem Rounds.toRat_le (h : x.Rounds q) (hx : x.isFinite = true) (hp : Exact p) (hqp : q ≤ p) : x.toRat ≤ p := by
  obtain ⟨z, hz, rfl⟩ := hp
  exact (le_iff_toRat hx hz).mp (h.ge hz hqp)

/-- A quotient is rounded to a count that fits, or is too large for one. -/
theorem ofQuotient_cases (s : Bool) (num den : Nat) :
    (∃ fits, ofQuotient s num den = .finite s (roundQuotient num den) fits) ∨
      overflowThreshold ≤ roundQuotient num den ∧ ofQuotient s num den = .infinity s := by
  unfold ofQuotient
  split
  · rename_i hlt
    exact .inl ⟨⟨hlt, roundQuotient_dvd num den⟩, rfl⟩
  · rename_i hle
    exact .inr ⟨Nat.le_of_not_lt hle, rfl⟩

theorem signed_le_iff {t : Bool} {n num den : Nat} (hden : 0 < den) :
    ((signed t n : ℤ) : ℚ) / quantaPerOne ≤ num / den / quantaPerOne ↔ signed t n * den ≤ num := by
  rw [div_le_div_iff_of_pos_right quantaPerOne_cast_pos, le_div_iff₀ (Nat.cast_pos.mpr hden)]
  norm_cast

theorem le_signed_iff {t : Bool} {n num den : Nat} (hden : 0 < den) :
    (num : ℚ) / den / quantaPerOne ≤ ((signed t n : ℤ) : ℚ) / quantaPerOne ↔ num ≤ signed t n * den := by
  rw [div_le_div_iff_of_pos_right quantaPerOne_cast_pos, div_le_iff₀ (Nat.cast_pos.mpr hden)]
  norm_cast

theorem signed_le_roundQuotient {t : Bool} {n num den : Nat} (hden : 0 < den) (fits : Fits n)
    (h : signed t n * den ≤ num) : signed t n ≤ roundQuotient num den := by
  cases t with
  | false => exact Int.ofNat_le.mpr (le_roundQuotient_of_dvd hden fits.2 (Int.ofNat_le.mp h))
  | true => exact (Int.neg_nonpos_of_nonneg (Int.natCast_nonneg n)).trans (Int.natCast_nonneg _)

theorem roundQuotient_le_signed {t : Bool} {n num den : Nat} (hden : 0 < den) (fits : Fits n)
    (h : num ≤ signed t n * den) : roundQuotient num den ≤ signed t n := by
  cases t with
  | false => exact Int.ofNat_le.mpr (roundQuotient_le_of_dvd hden fits.2 (Int.ofNat_le.mp h))
  | true =>
    -- A magnitude that is at most a negative number is zero, and so is that number.
    have hzero : (num : ℤ) + n * den ≤ 0 := by
      simp only [signed, if_true] at h
      linarith
    have hn : n = 0 := by
      by_contra hn
      have := Nat.mul_pos (Nat.pos_of_ne_zero hn) hden
      exact absurd hzero (by omega)
    subst hn
    exact Int.ofNat_le.mpr (roundQuotient_le_of_dvd hden fits.2 (by omega))

theorem rounds_magnitude (num : Nat) {den : Nat} (hden : 0 < den) :
    (ofQuotient false num den).Rounds (num / den / quantaPerOne) where
  le {z} hz hle := by
    obtain ⟨t, n, fits, rfl⟩ := exists_finite hz
    rw [toRat, signed_le_iff hden] at hle
    rcases ofQuotient_cases false num den with ⟨hround, h⟩ | ⟨-, h⟩
    · rw [h, finite_le_iff]
      exact signed_le_roundQuotient hden fits hle
    · rw [h]
      exact .inl rfl
  ge {z} hz hle := by
    obtain ⟨t, n, fits, rfl⟩ := exists_finite hz
    rw [toRat, le_signed_iff hden] at hle
    have hround := roundQuotient_le_signed hden fits hle
    rcases ofQuotient_cases false num den with ⟨hfits, h⟩ | ⟨hlarge, -⟩
    · rw [h, finite_le_iff]
      exact hround
    · have hn : signed t n ≤ n := by cases t <;> simp [signed]
      have := fits.1
      omega

theorem ofQuotient_true (num den : Nat) : ofQuotient true num den = -ofQuotient false num den := by
  unfold ofQuotient
  split <;> rfl

/-- A quotient of quanta is rounded to the double that it gives. -/
theorem rounds_ofQuotient (s : Bool) (num : Nat) {den : Nat} (hden : 0 < den) :
    (ofQuotient s num den).Rounds ((signed s num : ℤ) / den / quantaPerOne) := by
  cases s with
  | false => exact rounds_magnitude num hden
  | true =>
    rw [ofQuotient_true]
    have h := (rounds_magnitude num hden).neg
    simpa only [signed, if_true, Int.cast_neg, Int.cast_natCast, neg_div] using h

theorem Rounds.of_eq (hx : x.isFinite = true) (h : x.toRat = q) : x.Rounds q where
  le hz hle := (le_iff_toRat hz hx).mpr (hle.trans_eq h.symm)
  ge hz hle := (le_iff_toRat hx hz).mpr (h.trans_le hle)

theorem signed_natAbs (v : ℤ) : signed (decide (v < 0)) v.natAbs = v := by
  by_cases hv : v < 0 <;> simp only [signed, hv, decide_true, decide_false] <;> grind

theorem rounds_ofQuanta (zeroNegative : Bool) (v : ℤ) : (ofQuanta zeroNegative v).Rounds (v / quantaPerOne) := by
  unfold ofQuanta
  split
  · rename_i hv
    refine .of_eq rfl ?_
    rw [hv, Int.cast_zero, zero_div]
    exact toRat_zero zeroNegative _
  · have h := rounds_ofQuotient (decide (v < 0)) v.natAbs Nat.one_pos
    rwa [signed_natAbs, Nat.cast_one, div_one] at h

/-! ### Sums, products, quotients, remainders -/

theorem rounds_add (hx : x.isFinite = true) (hy : y.isFinite = true) : (x + y).Rounds (x.toRat + y.toRat) := by
  obtain ⟨s, m, hm, rfl⟩ := exists_finite hx
  obtain ⟨t, n, hn, rfl⟩ := exists_finite hy
  have h := rounds_ofQuanta (s && t) (signed s m + signed t n)
  rwa [Int.cast_add, add_div] at h

theorem rounds_sub (hx : x.isFinite = true) (hy : y.isFinite = true) : (x - y).Rounds (x.toRat - y.toRat) := by
  have h := rounds_add hx ((isFinite_neg y).trans hy)
  rwa [toRat_neg, ← sub_eq_add_neg] at h

theorem signed_xor (s t : Bool) (m n : Nat) : signed (s ^^ t) (m * n) = signed s m * signed t n := by
  cases s <;> cases t <;> simp [signed]

theorem rounds_mul (hx : x.isFinite = true) (hy : y.isFinite = true) : (x * y).Rounds (x.toRat * y.toRat) := by
  obtain ⟨s, m, hm, rfl⟩ := exists_finite hx
  obtain ⟨t, n, hn, rfl⟩ := exists_finite hy
  have hmul : finite s m hm * finite t n hn = ofQuotient (s ^^ t) (m * n) quantaPerOne := by
    change Number.mul _ _ = _
    rw [Number.mul]
  have hvalue : (finite s m hm).toRat * (finite t n hn).toRat =
      ((signed (s ^^ t) (m * n) : ℤ) : ℚ) / quantaPerOne / quantaPerOne := by
    rw [signed_xor, Int.cast_mul, toRat, toRat]
    ring
  rw [hmul, hvalue]
  exact rounds_ofQuotient _ _ quantaPerOne_pos

theorem rounds_div (hx : x.isFinite = true) (hy : y.isFinite = true) (h0 : y.toRat ≠ 0) :
    (x / y).Rounds (x.toRat / y.toRat) := by
  obtain ⟨s, m, hm, rfl⟩ := exists_finite hx
  obtain ⟨t, n, hn, rfl⟩ := exists_finite hy
  have hn0 : n ≠ 0 := by
    rintro rfl
    exact h0 (toRat_zero t hn)
  have hdiv : finite s m hm / finite t n hn = ofQuotient (s ^^ t) (m * quantaPerOne) n := if_neg hn0
  have hvalue : (finite s m hm).toRat / (finite t n hn).toRat =
      ((signed (s ^^ t) (m * quantaPerOne) : ℤ) : ℚ) / n / quantaPerOne := by
    have hone := quantaPerOne_cast_pos.ne'
    have hn : (n : ℚ) ≠ 0 := Nat.cast_ne_zero.mpr hn0
    rw [toRat, toRat]
    generalize quantaPerOne = one at hone ⊢
    cases s <;> cases t <;> simp only [signed] <;> push_cast <;> field_simp <;> simp
  rw [hdiv, hvalue]
  exact rounds_ofQuotient _ _ (Nat.pos_of_ne_zero hn0)

theorem signed_mod (s t : Bool) (m n : Nat) :
    signed s (m % n) = signed s m - signed (s ^^ t) (m / n) * signed t n := by
  have hsplit : (n : ℤ) * (m / n : Nat) + (m % n : Nat) = m := by exact_mod_cast Nat.div_add_mod m n
  cases s <;> cases t <;> simp only [signed] <;> grind

/-- The remainder is exact: whole divisors are taken off until less than one is left, on the side of the dividend. -/
theorem rem_spec (hx : x.isFinite = true) (hy : y.isFinite = true) (h0 : y.toRat ≠ 0) :
    (x % y).isFinite = true ∧ |(x % y).toRat| < |y.toRat| ∧ 0 ≤ x.toRat * (x % y).toRat ∧
      ∃ k : ℤ, (x % y).toRat = x.toRat - k * y.toRat := by
  obtain ⟨s, m, hm, rfl⟩ := exists_finite hx
  obtain ⟨t, n, hn, rfl⟩ := exists_finite hy
  have hn0 : n ≠ 0 := by
    rintro rfl
    exact h0 (toRat_zero t hn)
  have hrem : finite s m hm % finite t n hn = finite s (m % n) (hm.mod hn hn0) := by
    rw [← ofQuotient_self (hm.mod hn hn0)]
    exact if_neg hn0
  have hlt : ((m % n : Nat) : ℚ) < n := Nat.cast_lt.mpr (Nat.mod_lt m (Nat.pos_of_ne_zero hn0))
  rw [hrem]
  refine ⟨rfl, ?_, ?_, signed (s ^^ t) (m / n), ?_⟩
  · rw [abs_toRat, abs_toRat]
    exact div_lt_div_of_pos_right hlt quantaPerOne_cast_pos
  · have hsign : (0 : ℤ) ≤ signed s m * signed s (m % n) := by
      cases s <;> simp only [signed] <;> grind
    have hcast : (0 : ℚ) ≤ (signed s m : ℤ) * (signed s (m % n) : ℤ) := by exact_mod_cast hsign
    simp only [toRat]
    rw [div_mul_div_comm]
    exact div_nonneg hcast (mul_self_nonneg _)
  · simp only [toRat]
    rw [signed_mod s t, Int.cast_sub, Int.cast_mul]
    ring

/-! ### Binary fractions -/

theorem quantaPerOne_cast_eq {k : Nat} (hk : k ≤ 1074) : (quantaPerOne : ℚ) = 2 ^ k * 2 ^ (1074 - k) := by
  rw [← pow_add, Nat.add_sub_cancel' hk, quantaPerOne, twoPow_eq, Nat.cast_pow, Nat.cast_ofNat]

/-- A count of a power of two of quanta has so many binary places less. -/
theorem toRat_places {s : Bool} {m c j k : Nat} {fits : Fits m} (hm : m = c * twoPow j) (hk : k + j = 1074) :
    (finite s m fits).toRat = signed s c / 2 ^ k := by
  have hshift : (0 : ℚ) < 2 ^ j := by positivity
  obtain rfl : 1074 - k = j := by omega
  rw [toRat, hm, twoPow_eq, signed_mul, quantaPerOne_cast_eq (k := k) (by omega)]
  push_cast
  exact mul_div_mul_right _ _ hshift.ne'

/-- A whole number of at most 53 bits, shifted by up to 1074 places, is a double. -/
theorem exact_dyadic {c : ℤ} {k : Nat} (hc : |c| ≤ 2 ^ 53) (hk : k ≤ 1074) : Exact (c / 2 ^ k) := by
  have hbits : c.natAbs ≤ 2 ^ 53 := by
    rw [Int.abs_eq_natAbs] at hc
    exact_mod_cast hc
  have fits : Fits (c.natAbs * twoPow (1074 - k)) := by
    refine ⟨?_, gridExponent_dvd_mul hbits⟩
    rw [overflowThreshold_eq]
    exact Nat.lt_of_le_of_lt (Nat.mul_le_mul_right _ hbits) (Nat.pow_add 2 53 _ ▸ two_pow_lt (by omega))
  refine ⟨.finite (decide (c < 0)) _ fits, rfl, ?_⟩
  rw [toRat_places rfl (Nat.add_sub_of_le hk), signed_natAbs]

theorem exact_intCast {n : ℤ} (hn : |n| ≤ 2 ^ 53) : Exact n := by
  simpa using exact_dyadic (k := 0) hn (Nat.zero_le _)

/-- A double that takes up 53 bits before a place has no bits after it. -/
theorem exists_dyadic (hx : x.isFinite = true) {k : Nat} (hk : k ≤ 1074) (h : 2 ^ 52 ≤ |x.toRat| * 2 ^ k) :
    ∃ c : ℤ, x.toRat = c / 2 ^ k := by
  obtain ⟨s, m, hm, rfl⟩ := exists_finite hx
  have hplace : (0 : ℚ) < 2 ^ k := by positivity
  have hshift : (0 : ℚ) < 2 ^ (1074 - k) := by positivity
  have hm0 : 2 ^ (52 + (1074 - k)) ≤ m := by
    rw [abs_toRat, quantaPerOne_cast_eq hk, div_mul_eq_mul_div, mul_comm (2 ^ k), mul_div_mul_right _ _ hplace.ne',
      le_div_iff₀ hshift, ← pow_add] at h
    exact_mod_cast h
  obtain ⟨c, hc⟩ := (Nat.pow_dvd_pow 2 (le_gridExponent hm0 le_rfl)).trans hm.2
  rw [Nat.mul_comm] at hc
  exact ⟨signed s c, toRat_places hc (Nat.add_sub_of_le hk)⟩

/-! ### Whole numbers -/

theorem toRat_ones {s : Bool} {m k : Nat} {fits : Fits m} (h : m = k * quantaPerOne) :
    (finite s m fits).toRat = signed s k := by
  rw [toRat, h, signed_mul]
  push_cast
  exact mul_div_cancel_right₀ _ quantaPerOne_cast_pos.ne'

/-- A finite number without a fraction is a count of ones. -/
theorem exists_ones (hx : x.isFinite = true) {n : ℤ} (h : x.toRat = n) :
    ∃ s k fits, x = finite s (k * quantaPerOne) fits ∧ signed s k = n := by
  obtain ⟨s, m, hm, rfl⟩ := exists_finite hx
  rw [toRat, div_eq_iff quantaPerOne_cast_pos.ne'] at h
  have hsigned : signed s m = n * quantaPerOne := by exact_mod_cast h
  have hquanta : n.natAbs * quantaPerOne = m := by
    rw [← natAbs_signed s m, hsigned, Int.natAbs_mul, Int.natAbs_natCast]
  subst hquanta
  refine ⟨s, _, hm, rfl, ?_⟩
  rw [signed_mul] at hsigned
  exact Int.eq_of_mul_eq_mul_right (Int.natCast_ne_zero.mpr quantaPerOne_pos.ne') hsigned

theorem toRat_ofNat {n : Nat} (hn : n ≤ 2 ^ 53) : (ofNat n).isFinite = true ∧ (ofNat n).toRat = n := by
  rw [ofNat_eq hn]
  exact ⟨rfl, toRat_ones rfl⟩

theorem toRat_one : (1 : Number).isFinite = true ∧ (1 : Number).toRat = 1 := by
  exact_mod_cast toRat_ofNat (n := 1) (by decide)

theorem toRat_nought : (0 : Number).isFinite = true ∧ (0 : Number).toRat = 0 := by
  exact_mod_cast toRat_ofNat (n := 0) (by decide)

theorem floor?_eq_floor (hx : x.isFinite = true) : x.floor? = some ⌊x.toRat⌋ := by
  obtain ⟨s, m, fits, rfl⟩ := exists_finite hx
  rw [floor?, toRat, Rat.floor_intCast_div_natCast]

theorem toRat_floor (hx : x.isFinite = true) : x.floor.isFinite = true ∧ x.floor.toRat = ⌊x.toRat⌋ := by
  obtain ⟨s, m, hm, rfl⟩ := exists_finite hx
  rw [floor_finite]
  refine ⟨rfl, ?_⟩
  rw [toRat_ones rfl, toRat, Rat.floor_intCast_div_natCast, signed_floorMagnitude]

theorem isWhole_iff (hx : x.isFinite = true) : x.isWhole = true ↔ ∃ n : ℤ, x.toRat = n := by
  constructor
  · intro h
    obtain ⟨s, m, hm, rfl⟩ := exists_finite hx
    rw [isWhole, beq_iff_eq] at h
    exact ⟨_, toRat_ones (Nat.div_mul_cancel (Nat.dvd_of_mod_eq_zero h)).symm⟩
  · rintro ⟨n, hn⟩
    obtain ⟨s, k, fits, rfl, -⟩ := exists_ones hx hn
    rw [isWhole, beq_iff_eq, Nat.mul_mod_left]

/-- Rounding does not change the floor of what a double separates from the next whole number. -/
theorem Rounds.floor_eq {n : ℤ} (h : x.Rounds q) (hn : Exact n) (hp : Exact p) (low : n ≤ q) (high : q ≤ p)
    (hlt : p < n + 1) : ⌊x.toRat⌋ = ⌊q⌋ := by
  obtain ⟨-, hlow, hhigh⟩ := h.mem hn hp low high
  rw [Int.floor_eq_iff.mpr ⟨hlow, hhigh.trans_lt hlt⟩, Int.floor_eq_iff.mpr ⟨low, high.trans_lt hlt⟩]

end Number
end BlockScript
