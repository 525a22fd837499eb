import BlockScript.Proofs.Number.Finite

/-!
Whole numbers among the doubles. The whole numbers up to `2 ^ 53` are doubles, and so is the floor of every double:
rounding down is exact, and a double without a fraction that a machine word can hold is that word.
-/
namespace BlockScript
namespace Number

/-! ### Whole numbers are doubles -/

theorem roundQuotient_self {m : Nat} (h : twoPow (gridExponent m) ∣ m) : roundQuotient m 1 = m := by
  simp only [roundQuotient, divRoundEven, Nat.div_one, Nat.one_mul, Nat.mod_eq_zero_of_dvd h, Nat.mul_zero]
  rw [if_pos (.inl (twoPow_pos _)), Nat.div_mul_cancel h]

/-- A count of quanta that is a double is not rounded. -/
theorem ofQuotient_self {s : Bool} {m : Nat} (fits : Fits m) : ofQuotient s m 1 = .finite s m fits := by
  simp only [ofQuotient, roundQuotient_self fits.2, fits.1, dif_pos]

theorem fits_whole {k : Nat} (hk : k ≤ 2 ^ 53) : Fits (k * quantaPerOne) := by
  refine ⟨Nat.lt_of_le_of_lt (mul_quantaPerOne_le (j := 53) hk) ?_, gridExponent_dvd_mul hk⟩
  rw [overflowThreshold_eq, twoPow_eq]
  exact two_pow_lt (by decide)

/-- Small whole numbers are doubles. -/
theorem ofNat_eq {k : Nat} (hk : k ≤ 2 ^ 53) : ofNat k = .finite false (k * quantaPerOne) (fits_whole hk) :=
  ofQuotient_self (fits_whole hk)

theorem finite_add {s t : Bool} {m n : Nat} {hm : Fits m} {hn : Fits n} :
    finite s m hm + finite t n hn = ofQuanta (s && t) (signed s m + signed t n) := rfl

theorem ofNat_add {k j : Nat} (h : k + j ≤ 2 ^ 53) : ofNat k + ofNat j = ofNat (k + j) := by
  have hsum : signed false (k * quantaPerOne) + signed false (j * quantaPerOne) = ((k + j) * quantaPerOne : Nat) := by
    simp only [signed, Bool.false_eq_true, if_false, Nat.add_mul, Int.natCast_add]
  rw [ofNat_eq (k := k) (by omega), ofNat_eq (k := j) (by omega), ofNat_eq h, finite_add, hsum, ofQuanta]
  generalize fits_whole h = fits
  generalize (k + j) * quantaPerOne = m at fits ⊢
  split
  · rename_i hzero
    obtain rfl : m = 0 := by omega
    rfl
  · rw [decide_eq_false (by omega), Int.natAbs_natCast]
    exact ofQuotient_self fits

/-! ### Order of finite numbers -/

section
variable {s t : Bool} {m n : Nat} {hm : Fits m} {hn : Fits n}

theorem finite_lt_iff : finite s m hm < finite t n hn ↔ signed s m < signed t n := by
  change some (compare (signed s m) (signed t n)) = some .lt ↔ _
  rw [Option.some.injEq, compare_lt_iff_lt]

theorem finite_le_iff : finite s m hm ≤ finite t n hn ↔ signed s m ≤ signed t n := by
  change some (compare (signed s m) (signed t n)) = some .lt ∨ some (compare (signed s m) (signed t n)) = some .eq ↔ _
  rw [Option.some.injEq, Option.some.injEq, compare_lt_iff_lt, compare_eq_iff_eq, le_iff_lt_or_eq]

theorem signed_mul (s : Bool) (m k : Nat) : signed s (m * k) = signed s m * k := by
  cases s <;> simp [signed]

/-- Numbers without a fraction are ordered as the whole numbers that they are. -/
theorem whole_lt_iff {hm : Fits (m * quantaPerOne)} {hn : Fits (n * quantaPerOne)} :
    finite s (m * quantaPerOne) hm < finite t (n * quantaPerOne) hn ↔ signed s m < signed t n := by
  rw [finite_lt_iff, signed_mul, signed_mul]
  exact Int.mul_lt_mul_right (Int.natCast_pos.mpr quantaPerOne_pos)

end

theorem ofNat_lt_iff {k j : Nat} (hk : k ≤ 2 ^ 53) (hj : j ≤ 2 ^ 53) : ofNat k < ofNat j ↔ k < j := by
  rw [ofNat_eq hk, ofNat_eq hj, whole_lt_iff]
  exact Int.ofNat_lt

theorem twoPow_le_rounded {j n : Nat} (h : twoPow j ≤ n) : twoPow (j + 1074) ≤ roundQuotient (n * quantaPerOne) 1 := by
  refine le_roundQuotient Nat.one_pos ?_
  rw [Nat.mul_one, ← twoPow_eq, twoPow_add]
  exact Nat.mul_le_mul_right quantaPerOne h

/-- Rounding a whole number does not bring it below a smaller one that is exact. -/
theorem not_ofNat_lt {k j : Nat} (hk : k ≤ 2 ^ 53) (h : k ≤ j) : ¬ofNat j < ofNat k := by
  by_cases hj : j ≤ 2 ^ 53
  · rw [ofNat_lt_iff hj hk]
    exact Nat.not_lt.mpr h
  · have hround := twoPow_le_rounded (j := 53) (Nat.le_of_not_le hj)
    have hsmall : k * quantaPerOne ≤ twoPow (53 + 1074) := mul_quantaPerOne_le (j := 53) hk
    rw [ofNat_eq hk, ofNat, ofQuotient]
    split
    · intro hlt
      exact absurd (Int.ofNat_lt.mp (finite_lt_iff.mp hlt)) (Nat.not_lt.mpr (hsmall.trans hround))
    · exact fun h => by cases h

theorem ofNat_eq_zero_iff {k : Nat} : ofNat k = 0 ↔ k = 0 := by
  constructor
  · intro hzero
    by_contra hk
    have hlt : ofNat 0 < ofNat 1 := (ofNat_lt_iff (by decide) (by decide)).mpr Nat.one_pos
    refine not_ofNat_lt (k := 1) (by decide) (Nat.pos_of_ne_zero hk) ?_
    rwa [hzero]
  · rintro rfl
    rfl

/-! ### The floor -/

/-- The greatest whole number that is not above a finite number. -/
def floor? : Number → Option Int
  | .finite s m _ => some (signed s m / quantaPerOne)
  | _ => none

theorem twoPow_dvd {k j : Nat} (h : k ≤ j) : twoPow k ∣ twoPow j := by
  rw [twoPow_eq, twoPow_eq]
  exact Nat.pow_dvd_pow 2 h

theorem floor?_ofNat {k : Nat} (hk : k ≤ 2 ^ 53) : (ofNat k).floor? = some (k : Int) := by
  have hpos : (quantaPerOne : Int) ≠ 0 := Int.natCast_ne_zero.mpr (Nat.ne_of_gt quantaPerOne_pos)
  rw [ofNat_eq hk, floor?, signed, if_neg (by decide), Nat.cast_mul, Int.mul_ediv_cancel _ hpos]

/-- A double that is no small number has no fraction: its step covers the ones. -/
theorem quantaPerOne_dvd_of_le {m j : Nat} (fits : Fits m) (hj : 52 ≤ j) (hwhole : twoPow j ≤ m / quantaPerOne) :
    quantaPerOne ∣ m := by
  have h : twoPow (j + 1074) ≤ m := by
    rw [twoPow_add]
    exact (Nat.le_div_iff_mul_le quantaPerOne_pos).mp hwhole
  have hgrid : 1074 ≤ gridExponent m := le_gridExponent h (by omega)
  exact (twoPow_dvd hgrid).trans fits.2

/-- The magnitude of the floor of a finite number. -/
def floorMagnitude (s : Bool) (m : Nat) : Nat := if s then onesAbove m else m / quantaPerOne

/-- A number without a fraction is its own floor. -/
theorem floorMagnitude_mul (s : Bool) (c : Nat) : floorMagnitude s (quantaPerOne * c) = c := by
  have hpos := quantaPerOne_pos
  unfold floorMagnitude onesAbove
  generalize quantaPerOne = q at hpos ⊢
  split
  · rw [Nat.mul_add_div hpos, Nat.div_eq_of_lt (Nat.sub_lt hpos Nat.one_pos), Nat.add_zero]
  · exact Nat.mul_div_cancel_left c hpos

theorem ceilDiv_eq {m q : Nat} (hq : 0 < q) : -(((m + (q - 1)) / q : Nat) : Int) = -(m : Int) / q := by
  have hsplit := Nat.div_add_mod (m + (q - 1)) q
  have hmod := Nat.mod_lt (m + (q - 1)) hq
  generalize (m + (q - 1)) / q = k at *
  have hunique := (Int.ediv_emod_unique (a := -m) (b := q) (q := -k) (r := q * k - m) (by omega)).mpr
  refine (hunique ⟨by rw [Int.mul_neg]; omega, ?_, ?_⟩).1.symm
  · have : (q * k : Nat) = (q : Int) * k := Nat.cast_mul q k
    omega
  · have : (q * k : Nat) = (q : Int) * k := Nat.cast_mul q k
    omega

theorem signed_floorMagnitude (s : Bool) (m : Nat) : signed s (floorMagnitude s m) = signed s m / quantaPerOne := by
  cases s with
  | false =>
    simp only [signed, floorMagnitude, Bool.false_eq_true, if_false]
    exact Int.natCast_ediv m quantaPerOne
  | true =>
    simp only [signed, floorMagnitude, onesAbove, if_true]
    exact ceilDiv_eq quantaPerOne_pos

theorem floorMagnitude_le (s : Bool) (m : Nat) : floorMagnitude s m ≤ m / quantaPerOne + 1 := by
  have hpos := quantaPerOne_pos
  unfold floorMagnitude onesAbove
  generalize quantaPerOne = q at hpos ⊢
  split
  · rw [← Nat.add_div_right m hpos]
    exact Nat.div_le_div_right (by omega)
  · exact Nat.le_succ (m / q)

theorem fits_floorMagnitude {s : Bool} {m : Nat} (fits : Fits m) : Fits (floorMagnitude s m * quantaPerOne) := by
  by_cases hsmall : m / quantaPerOne < 2 ^ 53
  · exact fits_whole ((floorMagnitude_le s m).trans hsmall)
  · obtain ⟨c, hc⟩ := quantaPerOne_dvd_of_le (j := 53) fits (by decide) (Nat.le_of_not_lt hsmall)
    rwa [hc, floorMagnitude_mul, Nat.mul_comm, ← hc]

/-- Rounding down is exact. -/
theorem floor_finite {s : Bool} {m : Nat} (fits : Fits m) :
    (finite s m fits).floor = .finite s (floorMagnitude s m * quantaPerOne) (fits_floorMagnitude fits) := by
  rw [← ofQuotient_self (s := s) (fits_floorMagnitude fits)]
  rfl

/-- A word without a sign, read from the double that it is. -/
theorem toNat64_whole {k : Nat} (hk : k < 2 ^ 64) (fits : Fits (k * quantaPerOne)) :
    (finite false (k * quantaPerOne) fits).toNat64 = k := by
  have htop : ((twoPow 64 : Nat) : Int) = 2 ^ 64 := rfl
  simp only [toNat64, truncateWithin, signed, Nat.mul_div_cancel k quantaPerOne_pos, htop, Bool.false_eq_true, if_false]
  rw [if_neg (by omega), if_neg (by omega)]
  rfl

theorem toNat64_ofNat {n : Nat} (hn : n ≤ 2 ^ 53) : (ofNat n).toNat64 = n := by
  rw [ofNat_eq hn, toNat64_whole (by omega)]

theorem floor_eq_ofNat {x : Number} {n : Nat} (h : x.floor? = some (n : Int)) (hpos : 1 ≤ n) (hn : n ≤ 2 ^ 53) :
    x.floor = ofNat n := by
  cases x with
  | finite s m hm =>
    rw [floor?, ← signed_floorMagnitude, Option.some.injEq] at h
    rw [floor_finite, ofNat_eq hn]
    cases s with
    | true =>
      rw [signed, if_pos rfl] at h
      omega
    | false =>
      obtain rfl : floorMagnitude false m = n := Int.ofNat_inj.mp h
      rfl
  | _ => cases h

end Number
end BlockScript
