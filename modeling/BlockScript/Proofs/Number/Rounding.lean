import BlockScript.Number.Decimal
import Mathlib.Tactic.Linarith

/-!
Rounding a quotient to a count of quanta. The representable counts around `num / den` are the multiples of a
power of two, the step of the grid there. What lies in the rounding interval of a count is rounded to that
count: half a step around it the grid has that step, except just below a power of two, where it is finer and
the interval narrower.
-/
namespace BlockScript

theorem twoPow_eq (k : Nat) : twoPow k = 2 ^ k := rfl

theorem twoPow_pos (k : Nat) : 0 < twoPow k := Nat.two_pow_pos k

theorem tenPow_eq (k : Nat) : tenPow k = 10 ^ k := rfl

/-! ### The nearest whole number -/

/-- A quotient is rounded to a whole number at most one half away, and from one half away only to an even one. -/
theorem divRoundEven_eq {num den c : Nat} (hden : 0 < den) (low : 2 * c * den ≤ 2 * num + den)
    (high : 2 * num ≤ 2 * c * den + den)
    (tie : 2 * c * den = 2 * num + den ∨ 2 * num = 2 * c * den + den → c % 2 = 0) : divRoundEven num den = c := by
  have hsplit : den * (num / den) + num % den = num := Nat.div_add_mod num den
  have hrest : num % den < den := Nat.mod_lt num hden
  unfold divRoundEven
  dsimp only
  generalize num / den = q at *
  generalize num % den = r at *
  have hle : q ≤ c := by
    by_contra! h
    have := Nat.mul_le_mul_left den h
    linarith
  have hge : c ≤ q + 1 := by
    by_contra! h
    have := Nat.mul_le_mul_left den h
    linarith
  obtain rfl | rfl : c = q ∨ c = q + 1 := by omega
  · have hhalf : 2 * r ≤ den := by linarith
    rw [if_pos]
    rcases Nat.lt_or_eq_of_le hhalf with hlt | heq
    · exact Or.inl hlt
    · exact Or.inr ⟨heq, tie (Or.inr (by linarith))⟩
  · have hhalf : den ≤ 2 * r := by linarith
    rw [if_neg]
    rintro (hlt | ⟨heq, heven⟩)
    · omega
    · have := tie (Or.inl (by linarith))
      omega

/-! ### The grid -/

theorem gridExponent_eq_zero {n : Nat} (h : n < 2 ^ 53) : gridExponent n = 0 := by
  by_cases h0 : n = 0
  · subst h0
    rfl
  · have := (Nat.log2_lt h0).mpr h
    unfold gridExponent
    omega

theorem gridExponent_eq {n g : Nat} (low : 2 ^ 52 * 2 ^ g ≤ n) (high : n < 2 ^ 53 * 2 ^ g) : gridExponent n = g := by
  have h0 : n ≠ 0 := by
    have := Nat.two_pow_pos g
    omega
  rw [← Nat.pow_add] at low high
  have hlow := (Nat.le_log2 h0).mpr low
  have hhigh := (Nat.log2_lt h0).mpr high
  unfold gridExponent
  omega

/-- A count that fits is a multiple of the step of its grid, with 53 bits and no fewer above the finest grid. -/
theorem Fits.exists_multiple {m : Nat} (fits : Fits m) :
    ∃ c, m = c * 2 ^ gridExponent m ∧ c < 2 ^ 53 ∧ (gridExponent m ≠ 0 → 2 ^ 52 ≤ c) := by
  have hpos := Nat.two_pow_pos (gridExponent m)
  obtain ⟨c, hc⟩ := fits.2
  rw [twoPow_eq, Nat.mul_comm] at hc
  refine ⟨c, hc, ?_, fun hgrid => ?_⟩
  · have := div_gridExponent_lt m
    rwa [twoPow_eq, twoPow_eq, Nat.div_eq_of_eq_mul_left hpos hc] at this
  · have h0 : m ≠ 0 := by
      rintro rfl
      exact hgrid rfl
    have hlog : m.log2 = 52 + gridExponent m := by
      unfold gridExponent at hgrid ⊢
      omega
    have hle := Nat.log2_self_le h0
    rw [hlog, Nat.pow_add] at hle
    exact Nat.le_of_mul_le_mul_right (hle.trans_eq hc) hpos

/-- A quotient goes to a multiple of the step of its grid that is at most half a step away. -/
theorem roundQuotient_eq {num den g c : Nat} (hden : 0 < den) (hgrid : gridExponent (num / den) = g)
    (low : 2 * c * (den * 2 ^ g) ≤ 2 * num + den * 2 ^ g) (high : 2 * num ≤ 2 * c * (den * 2 ^ g) + den * 2 ^ g)
    (tie : 2 * c * (den * 2 ^ g) = 2 * num + den * 2 ^ g ∨ 2 * num = 2 * c * (den * 2 ^ g) + den * 2 ^ g → c % 2 = 0) :
    roundQuotient num den = c * 2 ^ g := by
  have hround := divRoundEven_eq (Nat.mul_pos hden (Nat.two_pow_pos g)) low high tie
  subst hgrid hround
  rfl

/-! ### Rounding intervals -/

namespace Number

/-- So many quanta, a quotient, lie in the interval. -/
structure Interval.Covers (i : Interval) (num den : Nat) : Prop where
  low : i.low * den ≤ 4 * num
  high : 4 * num ≤ i.high * den
  inside : i.closed = false → i.low * den ≠ 4 * num ∧ 4 * num ≠ i.high * den

/-- How far the interval of a count reaches below it, in quarters of a quantum. -/
def Interval.below (m : Nat) : Nat :=
  if m = 2 ^ 52 * 2 ^ gridExponent m ∧ 1 < 2 ^ gridExponent m then 2 ^ gridExponent m else 2 * 2 ^ gridExponent m

theorem Interval.around_eq (m : Nat) :
    Interval.around m =
      ⟨4 * m - Interval.below m, 4 * m + 2 * 2 ^ gridExponent m, m / 2 ^ gridExponent m % 2 == 0⟩ := rfl

end Number

/-- Half a step around a count the grid has the count's own step, but not below a power of two. -/
theorem gridExponent_near {num den g c : Nat} (hden : 0 < den) (hc : c < 2 ^ 53)
    (high : 2 * num ≤ 2 * c * (den * 2 ^ g) + den * 2 ^ g) (low : g ≠ 0 → 2 ^ 52 * (den * 2 ^ g) ≤ num) :
    gridExponent (num / den) = g := by
  have hcell : 0 < den * 2 ^ g := Nat.mul_pos hden (Nat.two_pow_pos g)
  have htop : num < 2 ^ 53 * 2 ^ g * den := by
    have := Nat.mul_le_mul_right (den * 2 ^ g) (Nat.succ_le_of_lt hc)
    linarith
  by_cases hg : g = 0
  · subst hg
    exact gridExponent_eq_zero ((Nat.div_lt_iff_lt_mul hden).mpr (by simpa using htop))
  · refine gridExponent_eq ?_ ((Nat.div_lt_iff_lt_mul hden).mpr htop)
    rw [Nat.le_div_iff_mul_le hden]
    linarith [low hg]

/-- Half a step around a count that is no power of two, or is on the finest grid, everything goes to it. -/
theorem roundQuotient_multiple {num den g c : Nat} (hden : 0 < den) (hc : c < 2 ^ 53) (hnormal : g ≠ 0 → 2 ^ 52 < c)
    (low : 2 * c * (den * 2 ^ g) ≤ 2 * num + den * 2 ^ g) (high : 2 * num ≤ 2 * c * (den * 2 ^ g) + den * 2 ^ g)
    (tie : 2 * c * (den * 2 ^ g) = 2 * num + den * 2 ^ g ∨ 2 * num = 2 * c * (den * 2 ^ g) + den * 2 ^ g → c % 2 = 0) :
    roundQuotient num den = c * 2 ^ g := by
  refine roundQuotient_eq hden (gridExponent_near hden hc high fun hg => ?_) low high tie
  have := Nat.mul_le_mul_right (den * 2 ^ g) (Nat.succ_le_of_lt (hnormal hg))
  linarith

/-- Just below a power of two the steps are half as long, and it is an even multiple of them. -/
theorem roundQuotient_below_power {num den k : Nat} (hden : 0 < den)
    (low : 2 * 2 ^ 53 * (den * 2 ^ k) ≤ 2 * num + den * 2 ^ k) (high : num < 2 ^ 53 * 2 ^ k * den) :
    roundQuotient num den = 2 ^ 53 * 2 ^ k := by
  have hgrid : gridExponent (num / den) = k := by
    refine gridExponent_eq ?_ ((Nat.div_lt_iff_lt_mul hden).mpr high)
    rw [Nat.le_div_iff_mul_le hden]
    linarith
  refine roundQuotient_eq hden hgrid low (by linarith) fun _ => ?_
  decide

/-- A quarter of a step below a power of two and half a step above, everything goes to it. -/
theorem roundQuotient_power {num den g : Nat} (hden : 0 < den) (hg : g ≠ 0)
    (low : 4 * 2 ^ 52 * (den * 2 ^ g) ≤ 4 * num + den * 2 ^ g)
    (high : 2 * num ≤ 2 * 2 ^ 52 * (den * 2 ^ g) + den * 2 ^ g) : roundQuotient num den = 2 ^ 52 * 2 ^ g := by
  by_cases hbelow : num < 2 ^ 52 * (den * 2 ^ g)
  · obtain ⟨k, rfl⟩ := Nat.exists_eq_succ_of_ne_zero hg
    have hk : 2 ^ (k + 1) = 2 * 2 ^ k := Nat.pow_succ'
    rw [Nat.succ_eq_add_one, hk] at low hbelow ⊢
    have hround : roundQuotient num den = 2 ^ 53 * 2 ^ k := roundQuotient_below_power hden (by linarith) (by linarith)
    linarith
  · have hgrid := gridExponent_near hden (by decide) high fun _ => Nat.le_of_not_lt hbelow
    refine roundQuotient_eq hden hgrid (by linarith) high fun _ => ?_
    decide

/-- What lies in the rounding interval of a count is rounded to it. -/
theorem roundQuotient_of_covers {m num den : Nat} (fits : Fits m) (hden : 0 < den)
    (h : (Number.Interval.around m).Covers num den) : roundQuotient num den = m := by
  obtain ⟨c, hm, hc, hnormal⟩ := fits.exists_multiple
  obtain ⟨hlow, hhigh, hinside⟩ := h
  simp only [Number.Interval.around_eq, Number.Interval.below] at hlow hhigh hinside
  generalize gridExponent m = g at *
  rw [Nat.div_eq_of_eq_mul_left (Nat.two_pow_pos g) hm] at hinside
  subst hm
  have high : 2 * num ≤ 2 * c * (den * 2 ^ g) + den * 2 ^ g := by linarith
  by_cases hpower : c * 2 ^ g = 2 ^ 52 * 2 ^ g ∧ 1 < 2 ^ g
  · obtain rfl : c = 2 ^ 52 := Nat.eq_of_mul_eq_mul_right (Nat.two_pow_pos g) hpower.1
    have hg : g ≠ 0 := by
      rintro rfl
      exact absurd hpower.2 (by decide)
    rw [if_pos hpower, Nat.sub_mul, Nat.sub_le_iff_le_add] at hlow
    exact roundQuotient_power hden hg (by linarith) high
  · rw [if_neg hpower] at hlow hinside
    rw [Nat.sub_mul, Nat.sub_le_iff_le_add] at hlow
    refine roundQuotient_multiple hden hc (fun hg => ?_) (by linarith) high fun htie => ?_
    · refine Nat.lt_of_le_of_ne (hnormal hg) ?_
      rintro rfl
      exact hpower ⟨rfl, Nat.one_lt_two_pow hg⟩
    · -- A tie is an end of the interval, and the ends belong to it for even multiples only.
      by_contra hodd
      obtain ⟨hleft, hright⟩ := hinside (by simpa using hodd)
      rcases htie with heq | heq
      · apply hleft
        rw [Nat.sub_mul]
        apply Nat.sub_eq_of_eq_add
        linarith
      · apply hright
        linarith

end BlockScript
