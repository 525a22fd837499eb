import BlockScript.Build.Catalog
import BlockScript.Proofs.Number.Truncate

/-!
Remainders. The remainder of truncated division has the sign of the dividend. It is corrected by one divisor if dividing
it once more gives a negative number, which for whole numbers is so exactly if it is not zero and its sign is not that of
the divisor. So the block reports the remainder of floored division.
-/
namespace BlockScript
namespace Number

variable {x y : Number} {r m n : ℤ}

theorem not_lt_zero_iff (hx : x.isFinite = true) : ¬x < 0 ↔ 0 ≤ x.toRat := by
  obtain ⟨hzero, hvalue⟩ := toRat_nought
  rw [lt_iff_toRat hx hzero, hvalue, not_lt]

theorem toRat_ofInt (hn : |n| ≤ 2 ^ 53) : (ofInt n).isFinite = true ∧ (ofInt n).toRat = n :=
  (rounds_ofInt n).eq (exact_intCast hn)

/-- A quotient of magnitude one at most, of whole numbers of 53 bits, is negative if it is rounded to a negative
number. -/
theorem div_lt_zero_iff (hx : x.isFinite = true) (hy : y.isFinite = true) (hr : x.toRat = r) (hn : y.toRat = n)
    (h0 : n ≠ 0) (hle : |r| ≤ |n|) (hbits : |n| ≤ 2 ^ 53) : x / y < 0 ↔ (r : ℚ) / n < 0 := by
  have hn0 : (n : ℚ) ≠ 0 := Int.cast_ne_zero.mpr h0
  have hround := rounds_div hx hy (by rwa [hn])
  rw [hr, hn] at hround
  have hone : Exact (1 : ℤ) := exact_intCast (by decide)
  have hminus : Exact (-1 : ℤ) := exact_intCast (by decide)
  have hzero : Exact (0 : ℤ) := exact_intCast (by decide)
  push_cast at hone hminus hzero
  have hmagnitude : |(r : ℚ) / n| ≤ 1 := by
    rw [abs_div, div_le_one (abs_pos.mpr hn0)]
    exact_mod_cast hle
  obtain ⟨hlow, hhigh⟩ := abs_le.mp hmagnitude
  obtain ⟨hfinite, -⟩ := hround.mem hminus hone hlow hhigh
  rw [← not_iff_not, not_lt_zero_iff hfinite, not_lt]
  constructor
  · -- A negative quotient is far enough from zero to stay negative.
    intro hquotient
    by_contra! hneg
    have hstep : Exact ((-1 : ℤ) / 2 ^ 53) := exact_dyadic (by decide) (by decide)
    have hfar : (r : ℚ) / n ≤ (-1 : ℤ) / 2 ^ 53 := by
      have hr0 : r ≠ 0 := by
        rintro rfl
        simp at hneg
      have hleast : (1 : ℚ) / 2 ^ 53 ≤ |(r : ℚ) / n| := by
        rw [abs_div]
        refine div_le_div₀ (abs_nonneg _) ?_ (abs_pos.mpr hn0) ?_
        · exact_mod_cast Int.one_le_abs hr0
        · exact_mod_cast hbits
      rw [abs_of_neg hneg] at hleast
      push_cast
      linarith
    have := hround.toRat_le hfinite hstep hfar
    norm_num at this
    linarith
  · exact fun hquotient => hround.le_toRat hfinite hzero hquotient

/-- What is left after taking off whole divisors, on the side of the divisor and less than it, is the remainder of
floored division. -/
theorem sub_mul_floor_eq {k : ℤ} (h0 : n ≠ 0) (hr : r = m - k * n) (hside : 0 ≤ (r : ℚ) / n) (hlt : |r| < |n|) :
    (r : ℚ) = m - n * ⌊(m : ℚ) / n⌋ := by
  have hn0 : (n : ℚ) ≠ 0 := Int.cast_ne_zero.mpr h0
  have hsplit : (m : ℚ) / n = k + (r : ℚ) / n := by
    rw [hr]
    push_cast
    field_simp
    ring
  have hone : (r : ℚ) / n < 1 := by
    rw [← abs_of_nonneg hside, abs_div, div_lt_one (abs_pos.mpr hn0)]
    exact_mod_cast hlt
  have hfloor : ⌊(m : ℚ) / n⌋ = k := Int.floor_eq_iff.mpr ⟨by linarith, by linarith⟩
  rw [hfloor, hr]
  push_cast
  ring

/-- A number on the side of the divisor and less than it is its own remainder. -/
theorem modulo_of_lt (hx : x.isFinite = true) (hy : y.isFinite = true) (hr : x.toRat = r) (hn : y.toRat = n) (h0 : n ≠ 0)
    (hside : 0 ≤ (r : ℚ) / n) (hlt : |r| < |n|) (hbits : |n| ≤ 2 ^ 53) : x.modulo y = x := by
  have hrem : x % y = x := by
    obtain ⟨s, i, hi, rfl⟩ := exists_finite hx
    obtain ⟨t, j, hj, rfl⟩ := exists_finite hy
    have hmagnitude : i < j := by
      have habs : |(finite s i hi).toRat| < |(finite t j hj).toRat| := by
        rw [hr, hn]
        exact_mod_cast hlt
      rw [abs_toRat, abs_toRat, div_lt_div_iff_of_pos_right quantaPerOne_cast_pos] at habs
      exact_mod_cast habs
    have hj0 : j ≠ 0 := Nat.ne_zero_of_lt hmagnitude
    change (if j = 0 then nan else ofQuotient s (i % j) 1) = _
    rw [if_neg hj0, Nat.mod_eq_of_lt hmagnitude, ofQuotient_self hi]
  have hkept : ¬x / y < 0 := by
    rw [div_lt_zero_iff hx hy hr hn h0 hlt.le hbits]
    exact hside.not_gt
  unfold modulo
  rw [hrem]
  exact if_neg hkept

/-- The remainder of whole numbers is on the side of the divisor and less than it. -/
theorem modulo_spec (hx : x.isFinite = true) (hy : y.isFinite = true) (hm : x.toRat = m) (hn : y.toRat = n) (h0 : n ≠ 0)
    (hbits : |n| ≤ 2 ^ 53) :
    ∃ r k : ℤ, (x.modulo y).isFinite = true ∧ (x.modulo y).toRat = r ∧ r = m - k * n ∧ 0 ≤ (r : ℚ) / n ∧ |r| < |n| := by
  have hn0 : (n : ℚ) ≠ 0 := Int.cast_ne_zero.mpr h0
  obtain ⟨hrest, hlt, -, k, hk⟩ := rem_spec hx hy (by rwa [hn])
  rw [hm, hn] at hk
  have hr : (x % y).toRat = ((m - k * n : ℤ) : ℚ) := by exact_mod_cast hk
  rw [hr, hn] at hlt
  have hlt : |m - k * n| < |n| := by exact_mod_cast hlt
  have hsign := div_lt_zero_iff hrest hy hr hn h0 hlt.le hbits
  unfold modulo
  dsimp only
  split
  · -- The signs differ, so one divisor brings the remainder closer to zero, where whole numbers are doubles.
    rename_i hneg
    have hquotient : ((m - k * n : ℤ) : ℚ) / n < 0 := hsign.mp hneg
    have hside : 0 ≤ ((m - (k - 1) * n : ℤ) : ℚ) / n ∧ ((m - (k - 1) * n : ℤ) : ℚ) / n < 1 := by
      have hshift : ((m - (k - 1) * n : ℤ) : ℚ) / n = ((m - k * n : ℤ) : ℚ) / n + 1 := by
        push_cast
        field_simp
        ring
      have hmagnitude : |((m - k * n : ℤ) : ℚ) / n| < 1 := by
        rw [abs_div, div_lt_one (abs_pos.mpr hn0)]
        exact_mod_cast hlt
      rw [abs_of_neg hquotient] at hmagnitude
      rw [hshift]
      constructor <;> linarith
    have hless : |m - (k - 1) * n| < |n| := by
      have habs := (abs_of_nonneg hside.1).trans_lt hside.2
      rw [abs_div, div_lt_one (abs_pos.mpr hn0)] at habs
      exact_mod_cast habs
    have hsum := rounds_add hrest hy
    rw [hr, hn, ← Int.cast_add, show m - k * n + n = m - (k - 1) * n by ring] at hsum
    obtain ⟨hfinite, hvalue⟩ := hsum.eq (exact_intCast (hless.le.trans hbits))
    exact ⟨_, k - 1, hfinite, hvalue, rfl, hside.1, hless⟩
  · rename_i hkept
    exact ⟨_, k, hrest, hr, rfl, not_lt.mp (mt hsign.mpr hkept), hlt⟩

end Number

open Number

/-- What the remainder block reports for the values of its operands. -/
def remainder (a b : Value) : Value :=
  (Binary.arithmetic (ReporterKind.arithmeticOp "operator_mod") "operator_mod").apply a b

theorem remainder_eq (a b : Value) : remainder a b = .number (a.toNumber.modulo b.toNumber) := rfl

/-- The remainder block divides whole numbers with a floor: for a divisor of at most 53 bits, its report is the
dividend less the divisor times the floor of the quotient. It is zero or on the side of the divisor, less than the
divisor, congruent to the dividend, and its own remainder. -/
theorem remainder_is_floored {a b : Value} {m n : ℤ} (ha : a.toNumber.isFinite = true) (hb : b.toNumber.isFinite = true)
    (hm : a.toNumber.toRat = m) (hn : b.toNumber.toRat = n) (h0 : n ≠ 0) (hbits : |n| ≤ 2 ^ 53) :
    ∃ (x : Number) (r : ℤ), remainder a b = .number x ∧ x.isFinite = true ∧ x.toRat = r ∧
      (r : ℚ) = m - n * ⌊(m : ℚ) / n⌋ ∧ (r = 0 ∨ r.sign = n.sign) ∧ |r| < |n| ∧ n ∣ m - r ∧
      remainder (remainder a b) b = remainder a b := by
  obtain ⟨r, k, hfinite, hvalue, hr, hside, hlt⟩ := modulo_spec ha hb hm hn h0 hbits
  refine ⟨_, r, remainder_eq a b, hfinite, hvalue, sub_mul_floor_eq h0 hr hside hlt, ?_, hlt, ?_, ?_⟩
  · rcases eq_or_ne r 0 with hzero | hr0
    · exact .inl hzero
    · right
      rcases div_nonneg_iff.mp hside with ⟨hpos, hpos'⟩ | ⟨hneg, hneg'⟩
      · rw [Int.sign_eq_one_of_pos (lt_of_le_of_ne (by exact_mod_cast hpos) hr0.symm),
          Int.sign_eq_one_of_pos (lt_of_le_of_ne (by exact_mod_cast hpos') h0.symm)]
      · rw [Int.sign_eq_neg_one_of_neg (lt_of_le_of_ne (by exact_mod_cast hneg) hr0),
          Int.sign_eq_neg_one_of_neg (lt_of_le_of_ne (by exact_mod_cast hneg') h0)]
  · exact ⟨k, by rw [hr]; ring⟩
  · have hself := modulo_of_lt hfinite hb hvalue hn h0 hside hlt hbits
    rw [remainder_eq a b, remainder_eq, Value.toNumber_number (ne_nan_of_isFinite hfinite), hself]

/-- The least whole number of 53 bits leaves one when it is divided by three. -/
theorem least_whole_leaves_one : ∃ (x : Number) (r : ℤ),
    remainder (.number (ofInt (-2 ^ 53))) (.number (ofInt 3)) = .number x ∧ x.isFinite = true ∧ x.toRat = r ∧ r = 1 ∧
      remainder (.number x) (.number (ofInt 3)) = .number x := by
  obtain ⟨hleast, hleastValue⟩ := toRat_ofInt (n := -2 ^ 53) (by decide)
  obtain ⟨hthree, hthreeValue⟩ := toRat_ofInt (n := 3) (by decide)
  have hnumber {z : Number} (hz : z.isFinite = true) : (Value.number z).toNumber = z :=
    Value.toNumber_number (ne_nan_of_isFinite hz)
  obtain ⟨x, r, hx, hfinite, hr, hfloored, -, -, -, hself⟩ :=
    remainder_is_floored (a := .number (ofInt (-2 ^ 53))) (b := .number (ofInt 3)) (m := -2 ^ 53) (n := 3)
      ((hnumber hleast).symm ▸ hleast) ((hnumber hthree).symm ▸ hthree)
      ((congrArg toRat (hnumber hleast)).trans hleastValue) ((congrArg toRat (hnumber hthree)).trans hthreeValue)
      (by decide) (by decide)
  have hfloor : ⌊((-2 ^ 53 : ℤ) : ℚ) / (3 : ℤ)⌋ = -3002399751580331 := by
    rw [Int.floor_eq_iff]
    norm_num
  rw [hfloor] at hfloored
  norm_num at hfloored
  rw [hx] at hself
  exact ⟨x, r, hx, hfinite, hr, by exact_mod_cast hfloored, hself⟩

end BlockScript
