import BlockScript.Proofs.Number.Exact
import Mathlib.Algebra.Order.Field.Power
import Mathlib.Order.WithBot

/-!
Rounding to the nearest double. A quotient of quanta lies in a cell of its grid, between two neighbouring multiples of
the step, and no count of 53 bits lies inside the cell. So the nearer end of the cell is the nearest count of all, and
of two ends that are equally near the even one is taken. From half a step behind the last finite number on, everything
is infinite. There is only one such double, and whole and decimal numbers are read as it.
-/
namespace BlockScript

/-! ### The cell of a quotient -/

section
variable {num den n : Nat}

/-- A count of 53 bits that is not above a quotient is not above the lower end of its cell. -/
theorem le_cell (hden : 0 < den) (hn : twoPow (gridExponent n) ∣ n) (h : n * den ≤ num) :
    n ≤ num / (den * 2 ^ gridExponent (num / den)) * 2 ^ gridExponent (num / den) := by
  have hcell : 0 < den * 2 ^ gridExponent (num / den) := Nat.mul_pos hden (Nat.two_pow_pos _)
  by_cases hgrid : gridExponent (num / den) ≤ gridExponent n
  · obtain ⟨k, hk⟩ := (Nat.pow_dvd_pow 2 hgrid).trans hn
    rw [Nat.mul_comm] at hk
    generalize gridExponent (num / den) = g at *
    subst hk
    refine Nat.mul_le_mul_right _ ((Nat.le_div_iff_mul_le hcell).mpr ?_)
    linarith
  · -- The count is below the power of two where the steps of the quotient begin.
    have hstart := two_pow_le_of_gridExponent (n := num / den) (by omega)
    generalize gridExponent (num / den) = g at *
    have hbits : 2 ^ 52 ≤ num / (den * 2 ^ g) := by
      rw [Nat.le_div_iff_mul_le hden, Nat.pow_add] at hstart
      rw [Nat.le_div_iff_mul_le hcell]
      linarith
    calc n ≤ 2 ^ (52 + g) := (lt_two_pow_gridExponent n).le.trans (two_pow_le (by omega))
      _ = 2 ^ 52 * 2 ^ g := Nat.pow_add ..
      _ ≤ num / (den * 2 ^ g) * 2 ^ g := Nat.mul_le_mul_right _ hbits

/-- A count of 53 bits that is above a quotient is not below the upper end of its cell. -/
theorem cell_le (hden : 0 < den) (hn : twoPow (gridExponent n) ∣ n) (h : num < n * den) :
    (num / (den * 2 ^ gridExponent (num / den)) + 1) * 2 ^ gridExponent (num / den) ≤ n := by
  have hcell : 0 < den * 2 ^ gridExponent (num / den) := Nat.mul_pos hden (Nat.two_pow_pos _)
  have hgrid : gridExponent (num / den) ≤ gridExponent n :=
    gridExponent_mono (Nat.le_of_lt ((Nat.div_lt_iff_lt_mul hden).mpr h))
  obtain ⟨k, hk⟩ := (Nat.pow_dvd_pow 2 hgrid).trans hn
  rw [Nat.mul_comm] at hk
  generalize gridExponent (num / den) = g at *
  subst hk
  refine Nat.mul_le_mul_right _ (Nat.succ_le_of_lt ((Nat.div_lt_iff_lt_mul hcell).mpr ?_))
  linarith

/-- The nearer end is taken, and of two equally near ones the even one. -/
theorem divRoundEven_cases (num : Nat) {den : Nat} (hden : 0 < den) :
    (divRoundEven num den = num / den ∧ 2 * (num % den) ≤ den ∧ (2 * (num % den) = den → num / den % 2 = 0)) ∨
      (divRoundEven num den = num / den + 1 ∧ den ≤ 2 * (num % den) ∧
        (2 * (num % den) = den → (num / den + 1) % 2 = 0)) := by
  have := Nat.mod_lt num hden
  unfold divRoundEven
  dsimp only
  split
  · exact .inl ⟨rfl, by omega, by omega⟩
  · exact .inr ⟨rfl, by omega, by omega⟩

/-- An even multiple of a step with 53 bits ends with a zero bit. -/
theorem even_dvd_of_even {c g : Nat} (hc : c ≤ 2 ^ 53) (heven : c % 2 = 0) :
    2 * twoPow (gridExponent (c * 2 ^ g)) ∣ c * 2 ^ g := by
  rw [twoPow_eq, ← Nat.pow_succ']
  obtain ⟨d, rfl⟩ := Nat.dvd_of_mod_eq_zero heven
  rcases Nat.lt_or_ge (2 * d) (2 ^ 53) with hlt | hge
  · have hgrid : gridExponent (2 * d * 2 ^ g) ≤ g := by
      refine gridExponent_le ?_
      rw [Nat.pow_add]
      exact Nat.mul_lt_mul_of_pos_right hlt (Nat.two_pow_pos g)
    refine (Nat.pow_dvd_pow 2 (Nat.succ_le_succ hgrid)).trans ⟨d, ?_⟩
    rw [Nat.pow_succ]
    ring
  · obtain rfl : d = 2 ^ 52 := by omega
    have hpower : 2 * 2 ^ 52 * 2 ^ g = 2 ^ (53 + g) := (Nat.pow_add 2 53 g).symm
    rw [hpower]
    have hgrid : gridExponent (2 ^ (53 + g)) ≤ g + 1 := gridExponent_le (two_pow_lt (by omega))
    exact Nat.pow_dvd_pow 2 (by omega)

/-- Of the ends of a cell one is as near to a place in it as anything outside, and nothing else is if it is nearer. -/
theorem end_of_cell_nearest {start rest step other : ℤ} (hrest : 0 ≤ rest) (hstep : rest < step)
    (houtside : other ≤ start ∨ start + step ≤ other) :
    (2 * rest ≤ step → |start + rest - start| ≤ |start + rest - other| ∧
      (other ≠ start → |start + rest - start| = |start + rest - other| → 2 * rest = step)) ∧
    (step ≤ 2 * rest → |start + rest - (start + step)| ≤ |start + rest - other| ∧
      (other ≠ start + step → |start + rest - (start + step)| = |start + rest - other| → 2 * rest = step)) := by
  rw [show start + rest - start = rest by ring, show start + rest - (start + step) = rest - step by ring,
    abs_of_nonneg hrest, abs_of_neg (sub_neg.mpr hstep)]
  rcases abs_cases (start + rest - other) with ⟨h, hsign⟩ | ⟨h, hsign⟩ <;> rw [h] <;> omega

/-- No count of 53 bits is nearer to a quotient than the one that it is rounded to, and if another one is as near, the
last bit is zero. -/
theorem roundQuotient_nearest (hden : 0 < den) (hn : twoPow (gridExponent n) ∣ n) :
    |(num : ℤ) - roundQuotient num den * den| ≤ |(num : ℤ) - n * den| ∧
      (n ≠ roundQuotient num den → |(num : ℤ) - roundQuotient num den * den| = |(num : ℤ) - n * den| →
        2 * twoPow (gridExponent (roundQuotient num den)) ∣ roundQuotient num den) := by
  have hcell : 0 < den * 2 ^ gridExponent (num / den) := Nat.mul_pos hden (Nat.two_pow_pos _)
  have hbelow := @le_cell num den n hden hn
  have habove := @cell_le num den n hden hn
  have hbits := div_gridExponent_lt (num / den)
  rw [twoPow_eq, Nat.div_div_eq_div_mul] at hbits
  have hround : roundQuotient num den =
      divRoundEven num (den * 2 ^ gridExponent (num / den)) * 2 ^ gridExponent (num / den) := rfl
  rw [hround]
  generalize gridExponent (num / den) = g at *
  have hsplit : (num : ℤ) = (num / (den * 2 ^ g) * 2 ^ g * den : Nat) + (num % (den * 2 ^ g) : Nat) := by
    rw [← Nat.cast_add, Nat.cast_inj, Nat.mul_assoc, Nat.mul_comm (2 ^ g), Nat.mul_comm (num / _)]
    exact (Nat.div_add_mod num (den * 2 ^ g)).symm
  have houtside : (n * den : ℤ) ≤ (num / (den * 2 ^ g) * 2 ^ g * den : Nat) ∨
      ((num / (den * 2 ^ g) * 2 ^ g * den : Nat) : ℤ) + (den * 2 ^ g : Nat) ≤ n * den := by
    rcases Nat.lt_or_ge num (n * den) with hlt | hge
    · have := Nat.mul_le_mul_right den (habove hlt)
      right
      norm_cast
      linarith
    · have := Nat.mul_le_mul_right den (hbelow hge)
      left
      exact_mod_cast this
  have hrest : ((num % (den * 2 ^ g) : Nat) : ℤ) < (den * 2 ^ g : Nat) := by exact_mod_cast Nat.mod_lt num hcell
  obtain ⟨hlow, hhigh⟩ := end_of_cell_nearest (Int.natCast_nonneg _) hrest houtside
  rw [← hsplit] at hlow hhigh
  have hne {c : Nat} (h : n ≠ c * 2 ^ g) : (n : ℤ) * den ≠ (c * 2 ^ g * den : Nat) := by
    norm_cast
    exact fun heq => h (Nat.eq_of_mul_eq_mul_right hden heq)
  rcases divRoundEven_cases num hcell with ⟨hc, hhalf, heven⟩ | ⟨hc, hhalf, heven⟩
  · obtain ⟨hle, htie⟩ := hlow (by exact_mod_cast hhalf)
    rw [hc]
    refine ⟨by exact_mod_cast hle, fun h heq => even_dvd_of_even hbits.le (heven ?_)⟩
    exact_mod_cast htie (hne h) (by exact_mod_cast heq)
  · have hend : ((num / (den * 2 ^ g) * 2 ^ g * den : Nat) : ℤ) + (den * 2 ^ g : Nat) =
        ((num / (den * 2 ^ g) + 1) * 2 ^ g * den : Nat) := by
      norm_cast
      ring
    rw [hend] at hhigh
    obtain ⟨hle, htie⟩ := hhigh (by exact_mod_cast hhalf)
    rw [hc]
    refine ⟨by exact_mod_cast hle, fun h heq => even_dvd_of_even hbits (heven ?_)⟩
    exact_mod_cast htie (hne h) (by exact_mod_cast heq)

/-- From half a step above the largest count on a grid, nothing is rounded below the power of two behind it. -/
theorem le_roundQuotient_of_half {g : Nat} (hden : 0 < den)
    (h : 2 ^ 54 * (2 ^ g * den) ≤ 2 * num + 2 ^ g * den) : 2 ^ (53 + g) ≤ roundQuotient num den := by
  rcases Nat.lt_or_ge num (2 ^ 53 * 2 ^ g * den) with hlt | hge
  · rw [roundQuotient_below_power hden (by linarith) hlt, Nat.pow_add]
  · refine le_roundQuotient hden ?_
    rwa [Nat.pow_add]

end
namespace Number

/-! ### The nearest double -/

/-- Half a step behind the last finite number. -/
def overflowBound : ℚ := 2 ^ 1024 - 2 ^ 970

/-- The double that a magnitude with a sign is rounded to: no finite number is nearer, and if another one is as near,
the last of its own 53 bits is zero. Beyond the finite numbers it is infinite. -/
inductive IsNearest (negative : Bool) : WithTop ℚ → Number → Prop
  | finite {q : ℚ} {m : Nat} {fits : Fits m} (range : q < overflowBound)
    (nearest : ∀ n, Fits n → |q - m / quantaPerOne| ≤ |q - n / quantaPerOne|)
    (even : ∀ n, Fits n → n ≠ m → |q - m / quantaPerOne| = |q - n / quantaPerOne| →
      2 * twoPow (gridExponent m) ∣ m) : IsNearest negative q (.finite negative m fits)
  | infinity {q : WithTop ℚ} (range : overflowBound ≤ q) : IsNearest negative q (.infinity negative)

variable {negative : Bool} {x y : Number} {q : WithTop ℚ}

theorem overflowBound_eq : overflowBound = (2 ^ 2098 - 2 ^ 2044) / quantaPerOne := by
  rw [overflowBound, eq_div_iff quantaPerOne_cast_pos.ne', quantaPerOne, twoPow_eq, Nat.cast_pow, Nat.cast_ofNat,
    sub_mul, ← pow_add, ← pow_add]

/-- A distance from a quotient of quanta, counted in shares of a quantum. -/
theorem abs_quotient_sub (num n : Nat) {den : Nat} (hden : 0 < den) :
    |(num : ℚ) / den / quantaPerOne - n / quantaPerOne| = ((|(num : ℤ) - n * den| : ℤ) : ℚ) / (den * quantaPerOne) := by
  have hden : (0 : ℚ) < den := Nat.cast_pos.mpr hden
  have hone := quantaPerOne_cast_pos
  rw [Int.cast_abs, ← abs_of_pos (mul_pos hden hone), ← abs_div]
  generalize quantaPerOne = one at *
  congr 1
  push_cast
  field_simp

theorem quotient_lt_overflowBound_iff (num : Nat) {den : Nat} (hden : 0 < den) :
    (num : ℚ) / den / quantaPerOne < overflowBound ↔ 2 * num + 2 ^ 2045 * den < 2 ^ 54 * (2 ^ 2045 * den) := by
  rw [overflowBound_eq, div_lt_div_iff_of_pos_right quantaPerOne_cast_pos, div_lt_iff₀ (Nat.cast_pos.mpr hden),
    ← Nat.cast_lt (α := ℚ)]
  have hthreshold : (2 : ℚ) ^ 2098 = 2 ^ 53 * 2 ^ 2045 := (pow_add 2 53 2045)
  have hhalf : (2 : ℚ) ^ 2045 = 2 * 2 ^ 2044 := pow_succ' 2 2044
  rw [hthreshold, Nat.cast_add, Nat.cast_mul, Nat.cast_mul, Nat.cast_mul, Nat.cast_mul, Nat.cast_pow, Nat.cast_pow,
    Nat.cast_ofNat, hhalf]
  generalize (2 : ℚ) ^ 2044 = step
  constructor <;> intro h <;> linarith

theorem isNearest_ofQuotient (negative : Bool) (num : Nat) {den : Nat} (hden : 0 < den) :
    IsNearest negative ((num / den / quantaPerOne : ℚ) : WithTop ℚ) (ofQuotient negative num den) := by
  have hshare : (0 : ℚ) < den * quantaPerOne := mul_pos (Nat.cast_pos.mpr hden) quantaPerOne_cast_pos
  have hrange := quotient_lt_overflowBound_iff num hden
  rcases ofQuotient_cases negative num den with ⟨fits, h⟩ | ⟨hlarge, h⟩
  · rw [h]
    refine .finite (hrange.mpr ?_) (fun n hn => ?_) fun n hn hne heq => ?_
    · by_contra! hge
      exact absurd fits.1 (Nat.not_lt.mpr (overflowThreshold_eq ▸ le_roundQuotient_of_half hden hge))
    · rw [abs_quotient_sub _ _ hden, abs_quotient_sub _ _ hden, div_le_div_iff_of_pos_right hshare, Int.cast_le]
      exact (roundQuotient_nearest hden hn.2).1
    · rw [abs_quotient_sub _ _ hden, abs_quotient_sub _ _ hden, div_left_inj' hshare.ne', Int.cast_inj] at heq
      exact (roundQuotient_nearest hden hn.2).2 hne heq
  · rw [h]
    refine .infinity (WithTop.coe_le_coe.mpr ?_)
    by_contra! hlt
    exact absurd (roundQuotient_lt hden (hrange.mp hlt)) (by rw [← overflowThreshold_eq]; omega)

theorem IsNearest.neg (h : IsNearest negative q x) : IsNearest (!negative) q (-x) := by
  cases h with
  | finite range nearest even => exact .finite range nearest even
  | infinity range => exact .infinity range

theorem one_lt_overflowBound : 1 < overflowBound := by
  have hstep : (1 : ℚ) < 2 ^ 970 := one_lt_pow₀ one_lt_two (by decide)
  rw [overflowBound, show (2 : ℚ) ^ 1024 = 2 ^ 54 * 2 ^ 970 from pow_add 2 54 970]
  generalize (2 : ℚ) ^ 970 = step at hstep
  linarith

theorem isNearest_ofInt (n : ℤ) : IsNearest (decide (n < 0)) ((n.natAbs : ℚ) : WithTop ℚ) (ofInt n) := by
  have h := isNearest_ofQuotient (decide (n < 0)) (n.natAbs * quantaPerOne) Nat.one_pos
  rwa [Nat.cast_mul, Nat.cast_one, div_one, mul_div_cancel_right₀ _ quantaPerOne_cast_pos.ne'] at h

/-- What is below half a quantum is rounded to zero. -/
theorem isNearest_zero (negative : Bool) {p : ℚ} (h0 : 0 ≤ p) (h : 2 * p * quantaPerOne < 1) :
    IsNearest negative p (zero negative) := by
  have hone := quantaPerOne_cast_pos
  have hone' : (1 : ℚ) ≤ quantaPerOne := Nat.one_le_cast.mpr quantaPerOne_pos
  refine .finite ?_ (fun n _ => ?_) fun n _ _ _ => dvd_zero _
  · have := le_mul_of_one_le_right h0 hone'
    exact one_lt_overflowBound.trans' (by linarith)
  · rw [Nat.cast_zero, zero_div, sub_zero, abs_of_nonneg h0]
    rcases Nat.eq_zero_or_pos n with rfl | hn
    · rw [Nat.cast_zero, zero_div, sub_zero, abs_of_nonneg h0]
    · have hquantum : (1 : ℚ) / quantaPerOne ≤ n / quantaPerOne :=
        div_le_div_of_nonneg_right (Nat.one_le_cast.mpr hn) hone.le
      have hhalf : 2 * p < 1 / quantaPerOne := (lt_div_iff₀ hone).mpr h
      rw [abs_sub_comm]
      exact le_abs_self _ |>.trans' (by linarith)

/-! ### Decimal numbers -/

theorem two_pow_le_ten_pow (k : Nat) : (2 : ℚ) ^ (3 * k) ≤ 10 ^ k := by
  rw [pow_mul]
  exact pow_le_pow_left₀ (by norm_num) (by norm_num) k

theorem overflowBound_le_of_place {digits : Nat} {exponent : ℤ} (hdigits : digits ≠ 0) (h : 400 < exponent) :
    overflowBound ≤ digits * 10 ^ exponent :=
  calc overflowBound ≤ 2 ^ 1024 := sub_le_self _ (by positivity)
    _ ≤ 2 ^ (3 * 400) := pow_le_pow_right₀ one_le_two (by decide)
    _ ≤ 10 ^ 400 := two_pow_le_ten_pow 400
    _ = 10 ^ (400 : ℤ) := (zpow_natCast 10 400).symm
    _ ≤ 10 ^ exponent := zpow_le_zpow_right₀ (by norm_num) h.le
    _ ≤ digits * 10 ^ exponent :=
      le_mul_of_one_le_left (by positivity) (Nat.one_le_cast.mpr (Nat.pos_of_ne_zero hdigits))

theorem lt_half_quantum_of_place {digits : Nat} {exponent : ℤ} (h : exponent + digits.log2 < -400) :
    2 * (digits * 10 ^ exponent : ℚ) * quantaPerOne < 1 := by
  have hdigits : (digits : ℚ) < 10 ^ ((digits.log2 : ℤ) + 1) := by
    have hlog : (digits : ℚ) < 2 ^ (digits.log2 + 1) := by exact_mod_cast Nat.lt_log2_self
    refine hlog.trans_le ?_
    exact_mod_cast pow_le_pow_left₀ (by norm_num) (by norm_num : (2 : ℚ) ≤ 10) (digits.log2 + 1)
  have hplace : (digits * 10 ^ exponent : ℚ) < 10 ^ (-400 : ℤ) :=
    calc (digits * 10 ^ exponent : ℚ) < 10 ^ ((digits.log2 : ℤ) + 1) * 10 ^ exponent :=
          mul_lt_mul_of_pos_right hdigits (by positivity)
      _ = 10 ^ ((digits.log2 : ℤ) + 1 + exponent) := (zpow_add₀ (by norm_num) _ _).symm
      _ ≤ 10 ^ (-400 : ℤ) := zpow_le_zpow_right₀ (by norm_num) (by omega)
  have hquanta : (2 * quantaPerOne : ℚ) ≤ 10 ^ 400 :=
    calc (2 * quantaPerOne : ℚ) = 2 ^ 1075 := by
          rw [quantaPerOne, twoPow_eq, Nat.cast_pow, Nat.cast_ofNat, ← pow_succ']
      _ ≤ 2 ^ (3 * 400) := pow_le_pow_right₀ one_le_two (by decide)
      _ ≤ 10 ^ 400 := two_pow_le_ten_pow 400
  calc 2 * (digits * 10 ^ exponent : ℚ) * quantaPerOne = digits * 10 ^ exponent * (2 * quantaPerOne) := by ring
    _ < 10 ^ (-400 : ℤ) * (2 * quantaPerOne) :=
      mul_lt_mul_of_pos_right hplace (mul_pos two_pos quantaPerOne_cast_pos)
    _ ≤ 10 ^ (-400 : ℤ) * 10 ^ 400 := mul_le_mul_of_nonneg_left hquanta (by positivity)
    _ = 1 := by rw [← zpow_natCast, ← zpow_add₀ (by norm_num)]; rfl

/-- A number is read from its digits and the place of the last one as the nearest double. -/
theorem isNearest_ofDecimal (negative : Bool) (digits : Nat) (exponent : ℤ) :
    IsNearest negative ((digits * 10 ^ exponent : ℚ) : WithTop ℚ) (ofDecimal negative digits exponent) := by
  unfold ofDecimal
  split
  · rename_i hdigits
    rw [hdigits, Nat.cast_zero, zero_mul]
    exact isNearest_zero negative le_rfl (by rw [mul_zero, zero_mul]; exact one_pos)
  · rename_i hdigits
    split
    · rename_i hlarge
      exact .infinity (WithTop.coe_le_coe.mpr (overflowBound_le_of_place hdigits hlarge))
    · split
      · rename_i hsmall
        exact isNearest_zero negative (by positivity) (lt_half_quantum_of_place hsmall)
      · split
        · rename_i hplace
          obtain ⟨k, rfl⟩ := Int.eq_ofNat_of_zero_le hplace
          have h := isNearest_ofQuotient negative (digits * tenPow k * quantaPerOne) Nat.one_pos
          rw [Nat.cast_mul, Nat.cast_one, div_one, mul_div_cancel_right₀ _ quantaPerOne_cast_pos.ne', Nat.cast_mul,
            tenPow_eq, Nat.cast_pow, Nat.cast_ofNat] at h
          rwa [Int.toNat_natCast, zpow_natCast]
        · rename_i hplace
          obtain ⟨k, rfl⟩ : ∃ k : Nat, exponent = -(k : ℤ) := ⟨(-exponent).toNat, by omega⟩
          have h := isNearest_ofQuotient negative (digits * quantaPerOne) (show 0 < tenPow k from Nat.pow_pos (by decide))
          rw [Nat.cast_mul, div_right_comm, mul_div_cancel_right₀ _ quantaPerOne_cast_pos.ne', tenPow_eq, Nat.cast_pow,
            Nat.cast_ofNat, div_eq_mul_inv] at h
          rwa [Int.neg_neg, Int.toNat_natCast, zpow_neg, zpow_natCast]

/-! ### There is only one -/

/-- Between two counts that end with a zero bit lies another one. -/
theorem exists_fits_between {m n : Nat} (hm : Fits m) (hn : Fits n) (hlt : m < n)
    (heven : 2 * twoPow (gridExponent m) ∣ m) (heven' : 2 * twoPow (gridExponent n) ∣ n) :
    ∃ k, Fits k ∧ m < k ∧ k < n := by
  obtain ⟨c, hc, hbits, -⟩ := hm.exists_multiple
  have hgrid : 2 * 2 ^ gridExponent m ∣ n := (Nat.mul_dvd_mul_left 2 (Nat.pow_dvd_pow 2 (gridExponent_mono hlt.le))).trans heven'
  rw [twoPow_eq] at heven
  have hpos := Nat.two_pow_pos (gridExponent m)
  generalize gridExponent m = g at *
  obtain ⟨a, ha⟩ := heven
  obtain ⟨b, hb⟩ := hgrid
  obtain rfl : c = 2 * a := by
    refine Nat.eq_of_mul_eq_mul_right hpos ?_
    linarith
  have hab : a < b := by
    rw [ha, hb] at hlt
    exact Nat.lt_of_mul_lt_mul_left hlt
  have hnext : (2 * a + 2) * 2 ^ g ≤ n := by
    have := Nat.mul_le_mul_left (2 * 2 ^ g) hab
    rw [hb]
    linarith
  refine ⟨(2 * a + 1) * 2 ^ g, ⟨?_, gridExponent_dvd_mul hbits⟩, ?_, ?_⟩
  · have := hn.1
    linarith
  · linarith
  · linarith

theorem abs_sub_lt_of_between {a b c p : ℚ} (hac : a < c) (hcb : c < b) (h : |p - a| = |p - b|) : |p - c| < |p - a| := by
  rcases abs_cases (p - a) with ⟨ha, ha'⟩ | ⟨ha, ha'⟩ <;> rcases abs_cases (p - b) with ⟨hb, hb'⟩ | ⟨hb, hb'⟩ <;>
    rcases abs_cases (p - c) with ⟨hc, hc'⟩ | ⟨hc, hc'⟩ <;> linarith

/-- Of two counts whose last bits are zero neither is nearest to what lies midway, where there is another one. -/
theorem not_nearest_of_even {m n : Nat} {p : ℚ} (fits : Fits m) (fits' : Fits n) (hlt : m < n)
    (heven : 2 * twoPow (gridExponent m) ∣ m) (heven' : 2 * twoPow (gridExponent n) ∣ n)
    (nearest : ∀ k, Fits k → |p - m / quantaPerOne| ≤ |p - k / quantaPerOne|) :
    |p - m / quantaPerOne| ≠ |p - n / quantaPerOne| := by
  intro h
  obtain ⟨k, hk, hmk, hkn⟩ := exists_fits_between fits fits' hlt heven heven'
  have hscale {i j : Nat} (hij : i < j) : (i : ℚ) / quantaPerOne < j / quantaPerOne :=
    div_lt_div_of_pos_right (Nat.cast_lt.mpr hij) quantaPerOne_cast_pos
  exact absurd (nearest k hk) (abs_sub_lt_of_between (hscale hmk) (hscale hkn) h).not_ge

/-- A magnitude is rounded to one double only. -/
theorem IsNearest.unique (hx : IsNearest negative q x) (hy : IsNearest negative q y) : x = y := by
  cases hx with
  | @finite p m fits range nearest even =>
    generalize hq : (p : WithTop ℚ) = q at hy
    cases hy with
    | @finite p' n fits' range' nearest' even' =>
      obtain rfl := WithTop.coe_injective hq
      have hdistance := (nearest n fits').antisymm (nearest' m fits)
      obtain rfl : m = n := by
        by_contra hne
        have heven := even n fits' (Ne.symm hne) hdistance
        have heven' := even' m fits hne hdistance.symm
        rcases Nat.lt_or_gt_of_ne hne with hlt | hgt
        · exact not_nearest_of_even fits fits' hlt heven heven' nearest hdistance
        · exact not_nearest_of_even fits' fits hgt heven' heven nearest' hdistance.symm
      rfl
    | infinity range' =>
      rw [← hq, WithTop.coe_le_coe] at range'
      exact absurd range range'.not_gt
  | infinity range =>
    cases hy with
    | finite range' => exact absurd (WithTop.coe_le_coe.mp range) range'.not_ge
    | infinity => rfl

end Number
end BlockScript
