import BlockScript.Proofs.Number.Exact

/-!
Rounding to whole numbers with halves going up.
-/
namespace BlockScript
namespace Number

variable {x : Number}

/-! ### One half more -/

theorem quantaPerOne_eq : quantaPerOne = 2 * twoPow 1073 := by decide +kernel

theorem half_eq : ∃ fits, half = .finite false (twoPow 1073) fits := ⟨by decide +kernel, by decide +kernel⟩

theorem toRat_half : half.toRat = 1 / 2 := by
  obtain ⟨fits, h⟩ := half_eq
  rw [h, toRat_places (c := 1) (k := 1) (Nat.one_mul _).symm rfl]
  norm_num [signed]

theorem isFinite_half : half.isFinite = true := by decide +kernel

theorem isFinite_add_half (hx : x.isFinite = true) : (x + half).isFinite = true := by
  obtain ⟨fits, h⟩ := half_eq
  have hwithin : half.Within 1073 := h ▸ ⟨Nat.le_refl _⟩
  exact isFinite_add hx hwithin (by decide)

theorem rounds_add_half (hx : x.isFinite = true) : (x + half).Rounds (x.toRat + 1 / 2) :=
  toRat_half ▸ rounds_add hx isFinite_half

theorem gridExponent_le_of_lt_mul {m i j k : Nat} (h : m < 2 ^ i * twoPow j) (hk : i + j = 53 + k) :
    gridExponent m ≤ k := by
  refine gridExponent_le ?_
  rw [← hk, Nat.pow_add]
  exact h

/-- A double between one half and `2 ^ 52` takes up all its bits, the last of them behind the point. -/
theorem exists_bits (hx : x.isFinite = true) (hlow : 1 / 2 ≤ |x.toRat|) (hhigh : |x.toRat| < 2 ^ 52) :
    ∃ (c : ℤ) (k : Nat), 1 ≤ k ∧ k ≤ 53 ∧ 2 ^ 52 ≤ |c| ∧ |c| < 2 ^ 53 ∧ x.toRat = c / 2 ^ k := by
  obtain ⟨s, m, fits, rfl⟩ := exists_finite hx
  rw [abs_toRat] at hlow hhigh
  rw [le_div_iff₀ quantaPerOne_cast_pos, div_mul_eq_mul_div, one_mul, div_le_iff₀ two_pos] at hlow
  rw [div_lt_iff₀ quantaPerOne_cast_pos] at hhigh
  have hm : twoPow 1073 ≤ m := by
    have hle : quantaPerOne ≤ m * 2 := by exact_mod_cast hlow
    rw [quantaPerOne_eq] at hle
    omega
  have hgrid : gridExponent m ≤ 1073 := by
    have htop : m < 2 ^ 52 * quantaPerOne := by exact_mod_cast hhigh
    rw [quantaPerOne] at htop
    exact gridExponent_le_of_lt_mul htop rfl
  have hfine : 1021 ≤ gridExponent m := le_gridExponent hm le_rfl
  obtain ⟨c, hc, hbits, hfull⟩ := fits.exists_multiple
  have hvalue : (finite s m fits).toRat = _ := toRat_places hc (Nat.sub_add_cancel (by omega))
  refine ⟨signed s c, 1074 - gridExponent m, by omega, by omega, ?_, ?_, hvalue⟩
  · rw [Int.abs_eq_natAbs, natAbs_signed]
    exact_mod_cast hfull (by omega)
  · rw [Int.abs_eq_natAbs, natAbs_signed]
    exact_mod_cast hbits

/-- One half more is a double again, unless a power of two lies between. -/
theorem exact_add_half (hx : x.isFinite = true) (hlow : 1 / 2 ≤ |x.toRat|) (hhigh : |x.toRat| < 2 ^ 52) :
    Exact (x.toRat + 1 / 2) ∨ ∃ n : Nat, n ≤ 51 ∧ x.toRat < 2 ^ n ∧ 2 ^ n < x.toRat + 1 / 2 := by
  obtain ⟨c, k, hk, hk', hfull, hbits, hvalue⟩ := exists_bits hx hlow hhigh
  obtain ⟨j, rfl⟩ : ∃ j, k = j + 1 := ⟨k - 1, by omega⟩
  have hplace : (0 : ℚ) < 2 ^ (j + 1) := by positivity
  have hsum : x.toRat + 1 / 2 = ((c + 2 ^ j : ℤ) : ℚ) / 2 ^ (j + 1) := by
    rw [hvalue]
    push_cast
    field_simp
    ring
  by_cases hfits : |c + 2 ^ j| ≤ 2 ^ 53
  · exact .inl (hsum ▸ exact_dyadic hfits (by omega))
  · have hj : 0 < (2 : ℤ) ^ j := by positivity
    have hover : 2 ^ 53 < c + 2 ^ j := by
      rw [abs_lt] at hbits
      rw [not_le, lt_abs] at hfits
      omega
    have hj0 : j ≠ 0 := by
      rintro rfl
      rw [abs_lt] at hbits
      omega
    have hpower : (2 : ℚ) ^ (53 - (j + 1)) * 2 ^ (j + 1) = 2 ^ 53 := by
      rw [← pow_add]
      congr 1
      omega
    refine .inr ⟨53 - (j + 1), by omega, ?_, ?_⟩
    · rw [hvalue, div_lt_iff₀ hplace, hpower]
      exact_mod_cast (abs_lt.mp hbits).2
    · rw [hsum, lt_div_iff₀ hplace, hpower]
      exact_mod_cast hover

/-- The greatest double below one half, and the odd whole numbers beyond `2 ^ 52`. One half more than one of these is no
double, and it is rounded up over a whole number. -/
def Tips (x : Number) : Prop := x.toRat = 1 / 2 - 1 / 2 ^ 54 ∨ ∃ n : ℤ, x.toRat = n ∧ Odd n ∧ 2 ^ 52 < |n|

theorem floor_add_half_of_small (hx : x.isFinite = true) (hsmall : |x.toRat| < 1 / 2)
    (hbelow : x.toRat ≠ 1 / 2 - 1 / 2 ^ 54) : ⌊(x + half).toRat⌋ = ⌊x.toRat + 1 / 2⌋ := by
  have hq := abs_lt.mp hsmall
  have hgap : x.toRat ≤ 1 / 2 - 1 / 2 ^ 53 := by
    by_contra! hgap
    obtain ⟨c, hc⟩ := exists_dyadic hx (k := 54) (by decide) (by rw [abs_of_pos (by linarith)]; linarith)
    have hlast : c = 2 ^ 53 - 1 := by
      rw [hc] at hq hgap
      rw [lt_div_iff₀ (by positivity)] at hgap
      rw [div_lt_iff₀ (by positivity)] at hq
      norm_num at hgap hq
      have h1 : (2 ^ 53 - 2 : ℤ) < c := by exact_mod_cast hgap
      have h2 : c < (2 ^ 53 : ℤ) := by exact_mod_cast hq.2
      omega
    apply hbelow
    rw [hc, hlast]
    norm_num
  have hzero : Exact (0 : ℤ) := exact_intCast (by decide)
  have hlast := exact_dyadic (c := 2 ^ 53 - 1) (k := 53) (by norm_num) (by decide)
  refine (rounds_add_half hx).floor_eq hzero hlast (by push_cast; linarith) ?_ (by norm_num)
  norm_num at hgap ⊢
  linarith

theorem floor_add_half_of_lt (hx : x.isFinite = true) (hlt : |x.toRat| < 2 ^ 52)
    (hbelow : x.toRat ≠ 1 / 2 - 1 / 2 ^ 54) : ⌊(x + half).toRat⌋ = ⌊x.toRat + 1 / 2⌋ := by
  rcases lt_or_ge |x.toRat| (1 / 2) with hsmall | hlow
  · exact floor_add_half_of_small hx hsmall hbelow
  · rcases exact_add_half hx hlow hlt with hexact | ⟨n, hn, hpower, hover⟩
    · rw [((rounds_add_half hx).eq hexact).2]
    · have hbits : (2 : ℤ) ^ n ≤ 2 ^ 51 := pow_le_pow_right₀ (by decide) hn
      have hpos : (0 : ℤ) < 2 ^ n := by positivity
      have hwhole : Exact ((2 ^ n : ℤ) : ℚ) := exact_intCast (by rw [abs_of_pos hpos]; omega)
      have hhalf := exact_dyadic (c := 2 * 2 ^ n + 1) (k := 1) (by rw [abs_of_pos (by omega)]; omega) (by decide)
      refine (rounds_add_half hx).floor_eq hwhole hhalf (by push_cast; linarith) ?_ ?_
      · push_cast
        linarith
      · push_cast
        linarith

/-! ### Beyond `2 ^ 52` -/

theorem exists_step {e : Nat} (hlow : 2 ^ 52 ≤ e) :
    ∃ g, 2 ^ gridExponent (e * quantaPerOne) = quantaPerOne * 2 ^ g := by
  have hgrid : 1074 ≤ gridExponent (e * quantaPerOne) := by
    refine le_gridExponent (j := 52 + 1074) ?_ le_rfl
    rw [twoPow_add]
    exact Nat.mul_le_mul_right _ hlow
  obtain ⟨g, hg⟩ := Nat.exists_eq_add_of_le hgrid
  exact ⟨g, hg ▸ twoPow_add 1074 g⟩

/-- One half above an even number beyond `2 ^ 52` everything is rounded to it, and one half below it unless it is the
first one. -/
theorem roundQuotient_near_even (num : Nat) {e : Nat} (heven : e % 2 = 0) (hlow : 2 ^ 52 ≤ e) (fits : Fits (e * quantaPerOne))
    (h : num = e * quantaPerOne + twoPow 1073 ∨ 2 ^ 52 < e ∧ num + twoPow 1073 = e * quantaPerOne) :
    roundQuotient num 1 = e * quantaPerOne := by
  obtain ⟨g, hstep⟩ := exists_step hlow
  have hpos := quantaPerOne_pos
  have hone := quantaPerOne_eq
  refine roundQuotient_of_covers fits Nat.one_pos ?_
  rw [Interval.around_eq, Interval.below, hstep]
  generalize quantaPerOne = one at *
  generalize twoPow 1073 = t at *
  rcases Nat.eq_zero_or_pos g with rfl | hg
  · -- The grid of the whole numbers: the ends belong to the interval of an even one.
    have hpower : e * one = 2 ^ 52 * (one * 2 ^ 0) ↔ e = 2 ^ 52 := by
      rw [Nat.pow_zero, Nat.mul_one, Nat.mul_left_inj (Nat.ne_of_gt hpos)]
    have hclosed : (e * one / (one * 2 ^ 0) % 2 == 0) = true := by
      rw [Nat.pow_zero, Nat.mul_one, Nat.mul_div_cancel e hpos, heven]
      rfl
    simp only [hpower, hclosed]
    refine ⟨?_, ?_, fun h => by cases h⟩
    · dsimp only
      split <;> omega
    · dsimp only
      omega
  · -- A coarser grid: one half is at most a quarter of its step.
    have hcoarse : 2 * one ≤ one * 2 ^ g := by
      rw [Nat.mul_comm]
      exact Nat.mul_le_mul_left _ (Nat.le_self_pow (Nat.ne_of_gt hg) 2)
    have hle : one ≤ e * one := Nat.le_mul_of_pos_left one (by omega)
    generalize one * 2 ^ g = step at *
    refine ⟨?_, ?_, ?_⟩
    · dsimp only
      split <;> omega
    · dsimp only
      omega
    · dsimp only
      intro hopen
      split
      · rename_i hpower
        rw [hpower.1, Nat.mul_div_cancel _ (by omega)] at hopen
        cases hopen
      · omega

theorem toRat_add_half {s : Bool} {k e num : Nat} {hk : Fits (k * quantaPerOne)} (he : Fits (e * quantaPerOne))
    (h0 : 0 < num) (hsum : signed s (k * quantaPerOne) + twoPow 1073 = signed s num)
    (hround : roundQuotient num 1 = e * quantaPerOne) :
    (finite s (k * quantaPerOne) hk + half).toRat = signed s e := by
  obtain ⟨fits, hhalf⟩ := half_eq
  have hnonzero : signed s num ≠ 0 := by cases s <;> simp only [signed] <;> grind
  have hsign : decide (signed s num < 0) = s := by cases s <;> simp only [signed] <;> grind
  have hadd : finite s (k * quantaPerOne) hk + half = ofQuotient s num 1 := by
    rw [hhalf]
    change ofQuanta (s && false) (signed s (k * quantaPerOne) + twoPow 1073) = _
    rw [hsum, ofQuanta, if_neg hnonzero, hsign, natAbs_signed]
  rw [hadd]
  rcases ofQuotient_cases s num 1 with ⟨hfits, h⟩ | ⟨hlarge, -⟩
  · rw [h, toRat_ones hround]
  · rw [hround] at hlarge
    exact absurd he.1 (Nat.not_lt.mpr hlarge)

/-- A whole number of more than 53 bits is a double only if it is even. -/
theorem even_of_fits {k : Nat} (fits : Fits (k * quantaPerOne)) (h : 2 ^ 53 ≤ k) : k % 2 = 0 := by
  have hgrid : 1 + 1074 ≤ gridExponent (k * quantaPerOne) := by
    refine le_gridExponent (j := 53 + 1074) ?_ le_rfl
    rw [twoPow_add]
    exact Nat.mul_le_mul_right _ h
  have hdvd := (twoPow_dvd hgrid).trans fits.2
  rw [twoPow_add, ← quantaPerOne] at hdvd
  have heven := Nat.dvd_of_mul_dvd_mul_right quantaPerOne_pos hdvd
  exact Nat.mod_eq_zero_of_dvd heven

section
variable {s : Bool} {k : Nat} (fits : Fits (k * quantaPerOne))
include fits

/-- Beyond `2 ^ 52` an even number is left by one half more. -/
theorem toRat_even_add_half (hlow : 2 ^ 52 ≤ k) (heven : k % 2 = 0) (hend : s = true → 2 ^ 52 < k) :
    (finite s (k * quantaPerOne) fits + half).toRat = signed s k := by
  have hone := quantaPerOne_eq
  have hhalf := twoPow_pos 1073
  have hle : quantaPerOne ≤ k * quantaPerOne := Nat.le_mul_of_pos_left _ (by omega)
  cases s with
  | false =>
    have hround := roundQuotient_near_even _ heven hlow fits (.inl rfl)
    exact toRat_add_half fits (by omega) (Nat.cast_add ..).symm hround
  | true =>
    obtain ⟨num, hnum⟩ : ∃ num, num + twoPow 1073 = k * quantaPerOne := ⟨_, Nat.sub_add_cancel (by omega)⟩
    have hround := roundQuotient_near_even _ heven hlow fits (.inr ⟨hend rfl, hnum⟩)
    refine toRat_add_half fits (by omega) ?_ hround
    rw [← hnum]
    simp only [signed, if_true]
    omega

/-- Beyond `2 ^ 52` an odd number is brought to the next whole number by one half more. -/
theorem toRat_odd_add_half (hlow : 2 ^ 52 ≤ k) (hodd : k % 2 = 1) :
    (finite s (k * quantaPerOne) fits + half).toRat = (signed s k + 1 : ℤ) := by
  have hone := quantaPerOne_eq
  have hhalf := twoPow_pos 1073
  have hhigh : k < 2 ^ 53 := by
    by_contra! h
    have := even_of_fits fits h
    omega
  cases s with
  | false =>
    have hround := roundQuotient_near_even (k * quantaPerOne + twoPow 1073) (e := k + 1) (by omega) (by omega)
      (fits_whole hhigh) (.inr ⟨by omega, by rw [Nat.add_mul]; omega⟩)
    exact toRat_add_half (fits_whole hhigh) (by omega) (Nat.cast_add ..).symm hround
  | true =>
    obtain ⟨j, rfl⟩ : ∃ j, k = j + 1 := ⟨k - 1, by omega⟩
    have he : Fits (j * quantaPerOne) := fits_whole (by omega)
    have hround := roundQuotient_near_even (j * quantaPerOne + twoPow 1073) (by omega) (by omega) he (.inl rfl)
    have hsum : signed true ((j + 1) * quantaPerOne) + twoPow 1073 =
        signed true (j * quantaPerOne + twoPow 1073) := by
      simp only [signed, if_true]
      rw [Nat.add_mul]
      omega
    rw [toRat_add_half he (by omega) hsum hround]
    simp [signed]

end

theorem floor_add_half_of_large (hx : x.isFinite = true) (hlarge : 2 ^ 52 ≤ |x.toRat|) :
    ∃ n : ℤ, x.toRat = n ∧ (Even n → ⌊(x + half).toRat⌋ = n) ∧ (Odd n → 2 ^ 52 < |n| ∧ ⌊(x + half).toRat⌋ = n + 1) := by
  obtain ⟨n, hn⟩ := exists_dyadic hx (k := 0) (Nat.zero_le _) (by simpa using hlarge)
  rw [pow_zero, div_one] at hn
  obtain ⟨s, k, fits, rfl, rfl⟩ := exists_ones hx hn
  have habs : |signed s k| = k := by rw [Int.abs_eq_natAbs, natAbs_signed]
  have hk : 2 ^ 52 ≤ k := by
    rw [hn, ← Int.cast_abs, habs] at hlarge
    exact_mod_cast hlarge
  refine ⟨signed s k, hn, fun heven => ?_, fun hodd => ?_⟩
  · have hmod : k % 2 = 0 := by
      rw [← Int.natAbs_even, natAbs_signed] at heven
      exact Nat.even_iff.mp heven
    by_cases hend : s = true ∧ k = 2 ^ 52
    · obtain ⟨rfl, rfl⟩ := hend
      have hexact := exact_dyadic (c := -2 ^ 53 + 1) (k := 1) (by decide) (by decide)
      have hsum := rounds_add_half hx
      rw [toRat_ones rfl] at hsum
      have hvalue : ((signed true (2 ^ 52) : ℤ) : ℚ) + 1 / 2 = ((-2 ^ 53 + 1 : ℤ) : ℚ) / 2 ^ 1 := by
        norm_num [signed]
      rw [hvalue] at hsum
      rw [(hsum.eq hexact).2]
      norm_num [signed, Int.floor_eq_iff]
    · rw [toRat_even_add_half fits hk hmod (by grind), Int.floor_intCast]
  · have hmod : k % 2 = 1 := by
      rw [← Int.natAbs_odd, natAbs_signed] at hodd
      exact Nat.odd_iff.mp hodd
    rw [habs, toRat_odd_add_half fits hk hmod, Int.floor_intCast]
    exact ⟨by omega, rfl⟩

/-! ### The floor -/

theorem eq_of_toRat_eq {y : Number} (hx : x.isFinite = true) (hy : y.isFinite = true) (h : x.toRat = y.toRat)
    (h0 : x.toRat ≠ 0) : x = y := by
  obtain ⟨s, m, hm, rfl⟩ := exists_finite hx
  obtain ⟨t, n, hn, rfl⟩ := exists_finite hy
  rw [toRat, toRat, div_left_inj' quantaPerOne_cast_pos.ne', Int.cast_inj] at h
  have hm0 : m ≠ 0 := by
    rintro rfl
    exact h0 (toRat_zero s hm)
  obtain ⟨rfl, rfl⟩ : s = t ∧ m = n := by
    cases s <;> cases t <;> simp only [signed] at h <;> grind
  rfl

/-- The greatest double below one half. -/
def belowHalf : Number := ofQuotient false ((twoPow 53 - 1) * twoPow 1020) 1

theorem toRat_belowHalf : belowHalf.isFinite = true ∧ belowHalf.toRat = 1 / 2 - 1 / 2 ^ 54 := by
  have hfits : Fits ((twoPow 53 - 1) * twoPow 1020) := ⟨by decide +kernel, by decide +kernel⟩
  rw [belowHalf, ofQuotient_self hfits, toRat_places (k := 54) rfl rfl]
  refine ⟨rfl, ?_⟩
  norm_num [signed, twoPow_eq]

theorem belowHalf_add_half : belowHalf + half = 1 := by decide +kernel

theorem Tips.eq_of_lt (h : x.Tips) (hlt : |x.toRat| < 2 ^ 52) : x.toRat = 1 / 2 - 1 / 2 ^ 54 := by
  rcases h with hbelow | ⟨n, hn, -, hbeyond⟩
  · exact hbelow
  · rw [hn] at hlt
    exact absurd (by exact_mod_cast hlt) hbeyond.not_gt

theorem floor_intCast_add_half (n : ℤ) : ⌊(n : ℚ) + 1 / 2⌋ = n := by
  rw [Int.floor_intCast_add]
  norm_num

/-- One half more passes the next whole number exactly for the numbers that tip over. -/
theorem floor_add_half (hx : x.isFinite = true) :
    (¬x.Tips → ⌊(x + half).toRat⌋ = ⌊x.toRat + 1 / 2⌋) ∧ (x.Tips → ⌊(x + half).toRat⌋ = ⌊x.toRat + 1 / 2⌋ + 1) := by
  rcases lt_or_ge |x.toRat| (2 ^ 52) with hlt | hlarge
  · refine ⟨fun htips => floor_add_half_of_lt hx hlt fun hbelow => htips (.inl hbelow), fun htips => ?_⟩
    have hbelow := htips.eq_of_lt hlt
    have hnonzero : x.toRat ≠ 0 := by
      rw [hbelow]
      norm_num
    have hnumber := eq_of_toRat_eq hx toRat_belowHalf.1 (hbelow.trans toRat_belowHalf.2.symm) hnonzero
    have hone : (1 : Number).toRat = (1 : ℤ) := by exact_mod_cast (toRat_ofNat (n := 1) (by decide)).2
    rw [hbelow, hnumber, belowHalf_add_half, hone, Int.floor_intCast]
    norm_num [Int.floor_eq_iff]
  · obtain ⟨n, hn, heven, hodd⟩ := floor_add_half_of_large hx hlarge
    rw [hn, floor_intCast_add_half]
    refine ⟨fun htips => heven ?_, ?_⟩
    · by_contra h
      rw [Int.not_even_iff_odd] at h
      exact htips (.inr ⟨n, hn, h, (hodd h).1⟩)
    · rintro (hbelow | ⟨n', hn', hodd', -⟩)
      · rw [hbelow] at hlarge
        norm_num [abs_of_pos] at hlarge
      · obtain rfl : n' = n := by exact_mod_cast hn'.symm.trans hn
        exact (hodd hodd').2

theorem abs_floor_add_half_le (hx : x.isFinite = true) (hlt : |x.toRat| < 2 ^ 52) : |⌊(x + half).toRat⌋| ≤ 2 ^ 52 := by
  obtain ⟨hlow, hhigh⟩ := abs_lt.mp hlt
  by_cases htips : x.Tips
  · rw [(floor_add_half hx).2 htips, htips.eq_of_lt hlt, abs_le]
    norm_num [Int.floor_eq_iff]
  · rw [(floor_add_half hx).1 htips, abs_le, Int.le_floor, ← Int.lt_add_one_iff, Int.floor_lt]
    push_cast
    constructor <;> linarith

/-! ### The rounded number -/

theorem toRat_roundHalfUp (hx : x.isFinite = true) :
    x.roundHalfUp.isFinite = true ∧ x.roundHalfUp.toRat = ⌊(x + half).toRat⌋ :=
  toRat_floor (isFinite_add_half hx)

theorem roundHalfUp_of_not_tips (hx : x.isFinite = true) (h : ¬x.Tips) : x.roundHalfUp.toRat = ⌊x.toRat + 1 / 2⌋ := by
  rw [(toRat_roundHalfUp hx).2, (floor_add_half hx).1 h]

theorem roundHalfUp_of_tips (hx : x.isFinite = true) (h : x.Tips) : x.roundHalfUp.toRat = ⌊x.toRat + 1 / 2⌋ + 1 := by
  rw [(toRat_roundHalfUp hx).2, (floor_add_half hx).2 h]
  push_cast
  rfl

/-- The rounded number is at most one half above the number and less than one half below it, unless it tips over. -/
theorem roundHalfUp_near_iff (hx : x.isFinite = true) :
    (x.toRat - 1 / 2 < x.roundHalfUp.toRat ∧ x.roundHalfUp.toRat ≤ x.toRat + 1 / 2) ↔ ¬x.Tips := by
  have hlow := Int.lt_floor_add_one (x.toRat + 1 / 2)
  refine ⟨fun hnear htips => ?_, fun htips => ?_⟩
  · rw [roundHalfUp_of_tips hx htips] at hnear
    linarith [hnear.2]
  · rw [roundHalfUp_of_not_tips hx htips]
    exact ⟨by linarith, Int.floor_le _⟩

theorem roundHalfUp_eq_self_iff (hx : x.isFinite = true) :
    x.roundHalfUp.toRat = x.toRat ↔ x.isWhole = true ∧ ¬x.Tips := by
  rw [isWhole_iff hx]
  constructor
  · intro hself
    refine ⟨⟨_, hself ▸ (toRat_roundHalfUp hx).2⟩, (roundHalfUp_near_iff hx).mp ?_⟩
    rw [hself]
    constructor <;> linarith
  · rintro ⟨⟨n, hn⟩, htips⟩
    rw [roundHalfUp_of_not_tips hx htips, hn, floor_intCast_add_half]

/-- What is rounded does not tip over again. -/
theorem not_tips_roundHalfUp (hx : x.isFinite = true) : ¬x.roundHalfUp.Tips := by
  obtain ⟨-, hround⟩ := toRat_roundHalfUp hx
  rintro (hbelow | ⟨n, hn, hodd, hbeyond⟩)
  · -- A whole number is no fraction.
    have hlow : (0 : ℚ) < ⌊(x + half).toRat⌋ := by
      rw [← hround, hbelow]
      norm_num
    have hhigh : (⌊(x + half).toRat⌋ : ℚ) < 1 := by
      rw [← hround, hbelow]
      norm_num
    have : (0 : ℤ) < ⌊(x + half).toRat⌋ := by exact_mod_cast hlow
    have : ⌊(x + half).toRat⌋ < 1 := by exact_mod_cast hhigh
    omega
  · have hvalue : ⌊(x + half).toRat⌋ = n := by exact_mod_cast hround.symm.trans hn
    rcases lt_or_ge |x.toRat| (2 ^ 52) with hlt | hlarge
    · have hsmall : |n| ≤ 2 ^ 52 := by
        rw [← hvalue]
        exact abs_floor_add_half_le hx hlt
      omega
    · obtain ⟨k, -, heven, hodd'⟩ := floor_add_half_of_large hx hlarge
      rcases Int.even_or_odd k with hk | hk
      · rw [← hvalue, heven hk] at hodd
        exact absurd hk (Int.not_even_iff_odd.mpr hodd)
      · rw [← hvalue, (hodd' hk).2] at hodd
        exact absurd hk.add_one (Int.not_even_iff_odd.mpr hodd)

theorem roundHalfUp_roundHalfUp (hx : x.isFinite = true) : x.roundHalfUp.roundHalfUp.toRat = x.roundHalfUp.toRat := by
  obtain ⟨hfinite, hround⟩ := toRat_roundHalfUp hx
  exact (roundHalfUp_eq_self_iff hfinite).mpr ⟨(isWhole_iff hfinite).mpr ⟨_, hround⟩, not_tips_roundHalfUp hx⟩

end Number
end BlockScript
