import BlockScript.Proofs.Number.Exact

/-!
Between doubles and whole numbers. A conversion to a word drops the fraction and stops at the bounds, so it keeps the
order. A whole number is rounded to a double without a fraction.
-/
namespace BlockScript
namespace Number

variable {p q : ℚ} {x y : Number} {low high n : ℤ}

/-! ### Dropping the fraction -/

/-- A rational without its fraction. -/
def trunc (q : ℚ) : ℤ := if 0 ≤ q then ⌊q⌋ else ⌈q⌉

theorem trunc_intCast (n : ℤ) : trunc n = n := by
  simp [trunc]

theorem trunc_neg (q : ℚ) : trunc (-q) = -trunc q := by
  rcases lt_trichotomy q 0 with hneg | rfl | hpos
  · rw [trunc, trunc, if_pos (by linarith), if_neg (by linarith), Int.floor_neg]
  · simp [trunc]
  · rw [trunc, trunc, if_neg (by linarith), if_pos hpos.le, Int.ceil_neg]

theorem trunc_le (h : 0 ≤ q) : (trunc q : ℚ) ≤ q := by
  rw [trunc, if_pos h]
  exact Int.floor_le q

theorem le_trunc (h : q ≤ 0) : q ≤ trunc q := by
  have hneg := trunc_le (neg_nonneg.mpr h)
  rw [trunc_neg] at hneg
  push_cast at hneg
  linarith

/-- Only a positive number with a fraction has more than is left without it. -/
theorem le_trunc_iff : q ≤ trunc q ↔ q ≤ 0 ∨ ∃ n : ℤ, q = n := by
  constructor
  · intro h
    rcases le_or_gt q 0 with hneg | hpos
    · exact .inl hneg
    · exact .inr ⟨_, h.antisymm (trunc_le hpos.le)⟩
  · rintro (hneg | ⟨n, rfl⟩)
    · exact le_trunc hneg
    · rw [trunc_intCast]

/-- Only a negative number with a fraction has less than is left without it. -/
theorem trunc_le_iff : trunc q ≤ q ↔ 0 ≤ q ∨ ∃ n : ℤ, q = n := by
  constructor
  · intro h
    rcases le_or_gt 0 q with hpos | hneg
    · exact .inl hpos
    · exact .inr ⟨_, (le_trunc hneg.le).antisymm h⟩
  · rintro (hpos | ⟨n, rfl⟩)
    · exact trunc_le hpos
    · rw [trunc_intCast]

theorem trunc_lt (h : q < n) (hn : 0 < n) : trunc q < n := by
  unfold trunc
  split
  · exact Int.floor_lt.mpr h
  · rename_i hneg
    exact (Int.ceil_le.mpr (by push_cast; linarith)).trans_lt hn

theorem trunc_mono (h : p ≤ q) : trunc p ≤ trunc q := by
  unfold trunc
  split <;> split
  · exact Int.floor_le_floor h
  · linarith
  · rename_i hp hq
    exact (Int.ceil_le.mpr (by push_cast; linarith)).trans (Int.floor_nonneg.mpr hq)
  · exact Int.ceil_le_ceil h

theorem truncateWithin_eq (hx : x.isFinite = true) :
    x.truncateWithin low high =
      if trunc x.toRat < low then low else if high < trunc x.toRat then high else trunc x.toRat := by
  obtain ⟨s, m, fits, rfl⟩ := exists_finite hx
  have hmagnitude : trunc ((m : ℚ) / quantaPerOne) = (m / quantaPerOne : Nat) := by
    have hnonneg : (0 : ℚ) ≤ m / quantaPerOne := div_nonneg (Nat.cast_nonneg m) quantaPerOne_cast_pos.le
    rw [trunc, if_pos hnonneg]
    exact Rat.floor_natCast_div_natCast m quantaPerOne
  have hwhole : signed s (m / quantaPerOne) = trunc (finite s m fits).toRat := by
    rw [toRat]
    cases s with
    | false => exact hmagnitude.symm
    | true =>
      simp only [signed, if_true]
      push_cast
      rw [neg_div, trunc_neg, hmagnitude]
      rfl
  rw [truncateWithin, hwhole]

theorem truncateWithin_of_toRat (hx : x.isFinite = true) (h : x.toRat = n) :
    x.truncateWithin low high = if n < low then low else if high < n then high else n := by
  rw [truncateWithin_eq hx, h, trunc_intCast]

theorem toInt64_eq (hx : x.isFinite = true) :
    x.toInt64 = if trunc x.toRat < -2 ^ 63 then -2 ^ 63
      else if 2 ^ 63 - 1 < trunc x.toRat then 2 ^ 63 - 1 else trunc x.toRat := by
  have hword : ((twoPow 63 : Nat) : ℤ) = 2 ^ 63 := rfl
  rw [toInt64, hword, truncateWithin_eq hx]

theorem toNat64_eq (hx : x.isFinite = true) (h0 : 0 ≤ x.toRat) : x.toNat64 = min ⌊x.toRat⌋.toNat (2 ^ 64 - 1) := by
  have hword : ((twoPow 64 : Nat) : ℤ) = 2 ^ 64 := rfl
  have hfloor : 0 ≤ ⌊x.toRat⌋ := Int.floor_nonneg.mpr h0
  rw [toNat64, hword, truncateWithin_eq hx, trunc, if_pos h0]
  split_ifs <;> omega

theorem toInt64_mem (hx : x.isFinite = true) : -2 ^ 63 ≤ x.toInt64 ∧ x.toInt64 < 2 ^ 63 := by
  rw [toInt64_eq hx]
  split_ifs <;> omega

theorem toInt64_of_lt (hx : x.isFinite = true) (low : -2 ^ 63 ≤ x.toRat) (high : x.toRat < 2 ^ 63) :
    x.toInt64 = trunc x.toRat := by
  have hge := trunc_mono (p := (-2 ^ 63 : ℤ)) (by push_cast; exact low)
  have hlt := trunc_lt (n := 2 ^ 63) (by push_cast; exact high) (by decide)
  rw [trunc_intCast] at hge
  rw [toInt64_eq hx, if_neg (by omega), if_neg (by omega)]

theorem toInt64_le (hx : x.isFinite = true) (low : -2 ^ 63 ≤ x.toRat) : x.toInt64 ≤ trunc x.toRat := by
  have hge := trunc_mono (p := (-2 ^ 63 : ℤ)) (by push_cast; exact low)
  rw [trunc_intCast] at hge
  rw [toInt64_eq hx]
  split_ifs <;> omega

/-- What is left without the fraction is a double. -/
theorem exact_trunc (hx : x.isFinite = true) : Exact (trunc x.toRat) := by
  rcases le_or_gt 0 x.toRat with hpos | hneg
  · obtain ⟨hfinite, hfloor⟩ := toRat_floor hx
    rw [trunc, if_pos hpos]
    exact ⟨x.floor, hfinite, hfloor⟩
  · obtain ⟨hfinite, hfloor⟩ := toRat_floor ((isFinite_neg x).trans hx)
    refine ⟨-(-x).floor, (isFinite_neg _).trans hfinite, ?_⟩
    rw [toRat_neg, hfloor, toRat_neg, trunc, if_neg hneg.not_ge, Int.floor_neg]
    push_cast
    ring

theorem truncateWithin_mono (hx : x.isFinite = true) (hy : y.isFinite = true) (hle : low ≤ high)
    (h : x.toRat ≤ y.toRat) : x.truncateWithin low high ≤ y.truncateWithin low high := by
  have := trunc_mono h
  rw [truncateWithin_eq hx, truncateWithin_eq hy]
  split_ifs <;> omega

theorem toInt64_mono (hx : x.isFinite = true) (hy : y.isFinite = true) (h : x.toRat ≤ y.toRat) :
    x.toInt64 ≤ y.toInt64 :=
  truncateWithin_mono hx hy (by decide) h

/-! ### Whole numbers as doubles -/

theorem rounds_ofInt (n : ℤ) : (ofInt n).Rounds n := by
  have h := rounds_ofQuotient (decide (n < 0)) (n.natAbs * quantaPerOne) Nat.one_pos
  rw [signed_mul, signed_natAbs] at h
  push_cast at h
  rwa [div_one, mul_div_cancel_right₀ _ quantaPerOne_cast_pos.ne'] at h

theorem isWhole_ofInt (h : (ofInt n).isFinite = true) : (ofInt n).isWhole = true := by
  have hround := rounds_ofInt n
  rw [isWhole_iff h]
  rcases le_or_gt |n| (2 ^ 53) with hsmall | hlarge
  · exact ⟨n, (hround.eq (exact_intCast hsmall)).2⟩
  · have hend : Exact ((2 ^ 53 : ℤ) : ℚ) := exact_intCast (by decide)
    have hend' : Exact ((-2 ^ 53 : ℤ) : ℚ) := exact_intCast (by decide)
    have hbits : 2 ^ 52 ≤ |(ofInt n).toRat| * 2 ^ 0 := by
      rw [pow_zero, mul_one, le_abs]
      rcases lt_abs.mp hlarge with hpos | hneg
      · have hle : ((2 ^ 53 : ℤ) : ℚ) ≤ n := Int.cast_le.mpr hpos.le
        have := hround.le_toRat h hend hle
        push_cast at this
        exact .inl (by linarith)
      · have hle : (n : ℚ) ≤ (-2 ^ 53 : ℤ) := Int.cast_le.mpr (by omega)
        have := hround.toRat_le h hend' hle
        push_cast at this
        exact .inr (by linarith)
    obtain ⟨c, hc⟩ := exists_dyadic h (Nat.zero_le _) hbits
    exact ⟨c, by simpa using hc⟩

end Number
end BlockScript
