import BlockScript.Proofs.Number.Exact

/-!
Spans of time as numbers. Rounding keeps the order, so a longer span is never the smaller number, though both parts of a
span are rounded before their sum is. The share that a span is of another therefore never falls as the span grows, and
is one or more as soon as the span is as long as the other.
-/
namespace BlockScript
namespace Number

/-! ### Rounding keeps the order -/

theorem divRoundEven_mono {num num' : Nat} (den : Nat) (h : num ≤ num') : divRoundEven num den ≤ divRoundEven num' den := by
  have hquotient : num / den ≤ num' / den := Nat.div_le_div_right h
  have hle := divRoundEven_le num den
  have hsplit : den * (num / den) + num % den = num := Nat.div_add_mod num den
  have hsplit' : den * (num' / den) + num' % den = num' := Nat.div_add_mod num' den
  unfold divRoundEven at hle ⊢
  dsimp only at hle ⊢
  rcases Nat.lt_or_eq_of_le hquotient with hlt | heq
  · split <;> split <;> omega
  · rw [heq] at hsplit hle ⊢
    split <;> split <;> omega

/-- On one grid the nearest counts are ordered, and between two grids there is a power of two. -/
theorem roundQuotient_mono {num num' den : Nat} (hden : 0 < den) (h : num ≤ num') :
    roundQuotient num den ≤ roundQuotient num' den := by
  have hquotient : num / den ≤ num' / den := Nat.div_le_div_right h
  rcases Nat.lt_or_eq_of_le (gridExponent_mono hquotient) with hlt | heq
  · have hbelow : num ≤ 2 ^ (53 + gridExponent (num / den)) * den :=
      (Nat.lt_mul_of_div_lt (lt_two_pow_gridExponent _) hden).le
    have habove : 2 ^ (53 + gridExponent (num / den)) * den ≤ num' := by
      refine (Nat.le_div_iff_mul_le hden).mp ((two_pow_le ?_).trans (two_pow_le_of_gridExponent (Nat.ne_zero_of_lt hlt)))
      omega
    exact (roundQuotient_le hden hbelow).trans (le_roundQuotient hden habove)
  · unfold roundQuotient
    dsimp only
    rw [heq]
    exact Nat.mul_le_mul_right _ (divRoundEven_mono _ h)

/-- Less than half a step is rounded away. -/
theorem roundQuotient_add_le {m k : Nat} (hm : twoPow (gridExponent m) ∣ m) (hk : 2 * k < 2 ^ gridExponent m) :
    roundQuotient (m + k) 1 ≤ m := by
  have hgrid : gridExponent ((m + k) / 1) = gridExponent m := by
    obtain ⟨c, hc⟩ := hm
    have htop := lt_two_pow_gridExponent m
    rw [Nat.div_one]
    refine le_antisymm (gridExponent_le ?_) (gridExponent_mono (Nat.le_add_right m k))
    -- The step behind the count is still on its grid.
    have hnext : c + 1 ≤ 2 ^ 53 := by
      refine Nat.lt_of_mul_lt_mul_left (a := 2 ^ gridExponent m) ?_
      rw [← Nat.pow_add, Nat.add_comm (gridExponent m)]
      exact hc ▸ htop
    calc m + k < m + 2 ^ gridExponent m := by omega
      _ = (c + 1) * 2 ^ gridExponent m := by
        rw [Nat.add_mul, Nat.one_mul, Nat.mul_comm c]
        exact congrArg (· + _) hc
      _ ≤ 2 ^ 53 * 2 ^ gridExponent m := Nat.mul_le_mul_right _ hnext
      _ = 2 ^ (53 + gridExponent m) := (Nat.pow_add ..).symm
  obtain ⟨c, hc⟩ := hm
  unfold roundQuotient
  dsimp only
  rw [hgrid, Nat.one_mul]
  generalize gridExponent m = g at hc hk ⊢
  rw [twoPow_eq] at hc ⊢
  rw [hc, Nat.mul_comm (2 ^ g) c]
  refine Nat.mul_le_mul_right _ (divRoundEven_le_of_lt (Nat.two_pow_pos g) ?_)
  linarith

/-! ### Numbers without a sign -/

/-- A number that is not negative, and no negative zero. -/
inductive Unsigned : Number → Prop
  | finite (m : Nat) (fits : Fits m) : Unsigned (.finite false m fits)
  | infinity : Unsigned (.infinity false)

variable {x y : Number}

theorem unsigned_ofQuotient (num den : Nat) : (ofQuotient false num den).Unsigned := by
  unfold ofQuotient
  split
  · exact .finite _ _
  · exact .infinity

theorem unsigned_ofNat (n : Nat) : (ofNat n).Unsigned := by
  unfold ofNat
  exact unsigned_ofQuotient _ _

theorem Unsigned.ne_nan (h : x.Unsigned) : x ≠ .nan := by
  cases h <;> nofun

theorem Unsigned.le_infinity (h : x.Unsigned) : x ≤ .infinity false := by
  cases h with
  | finite m fits => exact .inl rfl
  | infinity => exact .inr rfl

theorem ofQuotient_le {num num' den den' : Nat} (h : roundQuotient num den ≤ roundQuotient num' den') :
    ofQuotient false num den ≤ ofQuotient false num' den' := by
  rcases ofQuotient_cases false num' den' with ⟨fits', hvalue'⟩ | ⟨-, hvalue'⟩
  · rcases ofQuotient_cases false num den with ⟨fits, hvalue⟩ | ⟨hlarge, -⟩
    · rw [hvalue, hvalue']
      exact finite_le_iff.mpr (Int.ofNat_le.mpr h)
    · exact absurd fits'.1 (Nat.not_lt.mpr (hlarge.trans h))
  · rw [hvalue']
    exact (unsigned_ofQuotient num den).le_infinity

theorem finite_add_finite {m n : Nat} (hm : Fits m) (hn : Fits n) :
    finite false m hm + finite false n hn = ofQuotient false (m + n) 1 := by
  have hsum : signed false m + signed false n = (m + n : Nat) := rfl
  rw [finite_add, hsum]
  unfold ofQuanta
  split
  · rename_i hzero
    rw [Int.natCast_eq_zero.mp hzero]
    exact (ofQuotient_self fits_zero).symm
  · rw [decide_eq_false (by omega), Int.natAbs_natCast]

/-- A quotient of numbers without a sign. -/
theorem finite_div_finite {m n : Nat} {hm : Fits m} {hn : Fits n} (h0 : n ≠ 0) :
    finite false m hm / finite false n hn = ofQuotient false (m * quantaPerOne) n := if_neg h0

theorem unsigned_div (h : x.Unsigned) {n : Nat} (fits : Fits n) (h0 : n ≠ 0) : (x / finite false n fits).Unsigned := by
  cases h with
  | finite m hm =>
    rw [finite_div_finite h0]
    exact unsigned_ofQuotient _ _
  | infinity => exact .infinity

theorem div_mono (hx : x.Unsigned) (hy : y.Unsigned) (h : x ≤ y) {n : Nat} (fits : Fits n) (h0 : n ≠ 0) :
    x / finite false n fits ≤ y / finite false n fits := by
  cases hy with
  | infinity =>
    exact (unsigned_div hx fits h0).le_infinity
  | finite m' hm' =>
    cases hx with
    | infinity => exact absurd h (by rintro (h | h) <;> cases h)
    | finite m hm =>
      rw [finite_div_finite h0, finite_div_finite h0]
      refine ofQuotient_le (roundQuotient_mono (Nat.pos_of_ne_zero h0) (Nat.mul_le_mul_right _ ?_))
      exact Int.ofNat_le.mp (finite_le_iff.mp h)

/-! ### Spans -/

/-- The quanta of a part of a second. -/
def fractionQuanta (r : Nat) : Nat := roundQuotient (r * quantaPerOne * quantaPerOne) (nanosPerSecond * quantaPerOne)

theorem twoPow_le_mul {a j k : Nat} (h : a ≤ j + k) : twoPow a ≤ twoPow j * twoPow k := by
  rw [← twoPow_add, twoPow_eq, twoPow_eq]
  exact two_pow_le h

theorem overflowThreshold_le : overflowThreshold ≤ twoPow 1064 * quantaPerOne := by
  unfold overflowThreshold quantaPerOne
  exact twoPow_le_mul (by decide)

theorem quantaPerOne_lt_overflowThreshold : quantaPerOne < overflowThreshold := by
  unfold quantaPerOne overflowThreshold
  rw [twoPow_eq, twoPow_eq]
  exact two_pow_lt (by decide)

/-- A part of a second is less than one. -/
theorem fractionQuanta_lt {r : Nat} (hr : r < nanosPerSecond) : fractionQuanta r < quantaPerOne := by
  have hone : quantaPerOne = 2 ^ 30 * twoPow 1044 := by
    unfold quantaPerOne
    rw [← twoPow_eq, ← twoPow_add]
  have hgrid := gridExponent_dvd_mul (q := 2 ^ 30 - 1) (k := 1044) (by decide)
  have hpos := twoPow_pos 1044
  have hquanta := quantaPerOne_pos
  unfold fractionQuanta
  generalize twoPow 1044 = step at hone hgrid hpos
  generalize quantaPerOne = one at hone hquanta ⊢
  have hle : roundQuotient (r * one * one) (nanosPerSecond * one) ≤ (2 ^ 30 - 1) * step := by
    refine roundQuotient_le_of_dvd (Nat.mul_pos (by decide) hquanta) hgrid ?_
    have hr : r * 2 ^ 30 ≤ (2 ^ 30 - 1) * nanosPerSecond := by
      unfold nanosPerSecond at hr ⊢
      omega
    calc r * one * one = r * 2 ^ 30 * (step * one) := by
          rw [hone]
          ring
      _ ≤ (2 ^ 30 - 1) * nanosPerSecond * (step * one) := Nat.mul_le_mul_right _ hr
      _ = (2 ^ 30 - 1) * step * (nanosPerSecond * one) := by ring
  omega

theorem ofNat_div_nanosPerSecond {r : Nat} (hr : r < nanosPerSecond) :
    ∃ fits, ofNat r / ofNat nanosPerSecond = .finite false (fractionQuanta r) fits := by
  have hlt : fractionQuanta r < overflowThreshold :=
    (fractionQuanta_lt hr).trans quantaPerOne_lt_overflowThreshold
  have h0 : nanosPerSecond * quantaPerOne ≠ 0 := (Nat.mul_pos (by decide) quantaPerOne_pos).ne'
  refine ⟨⟨hlt, roundQuotient_dvd _ _⟩, ?_⟩
  rw [ofNat_eq (k := r) (by unfold nanosPerSecond at hr; omega), ofNat_eq (k := nanosPerSecond) (by decide),
    finite_div_finite h0]
  exact dif_pos hlt

theorem fractionQuanta_mono {r r' : Nat} (h : r ≤ r') : fractionQuanta r ≤ fractionQuanta r' :=
  roundQuotient_mono (Nat.mul_pos (by decide) quantaPerOne_pos) (Nat.mul_le_mul_right _ (Nat.mul_le_mul_right _ h))

/-- The quanta of a span before its sum is rounded: those of its seconds and of the part of a second behind them. -/
def spanQuanta (ns : Nat) : Nat :=
  roundQuotient (ns / nanosPerSecond * quantaPerOne) 1 + fractionQuanta (ns % nanosPerSecond)

theorem ofNanoseconds_eq (ns : Nat) : ofNanoseconds ns = ofQuotient false (spanQuanta ns) 1 := by
  obtain ⟨hfits, hfraction⟩ := ofNat_div_nanosPerSecond (Nat.mod_lt ns (by decide : 0 < nanosPerSecond))
  have hseconds := roundQuotient_dvd (ns / nanosPerSecond * quantaPerOne) 1
  unfold ofNanoseconds spanQuanta
  rw [hfraction]
  unfold ofNat
  generalize fractionQuanta (ns % nanosPerSecond) = n at hfits ⊢
  generalize ns / nanosPerSecond * quantaPerOne = num at hseconds ⊢
  rcases ofQuotient_cases false num 1 with ⟨fits, hvalue⟩ | ⟨hlarge, hvalue⟩
  · rw [hvalue]
    exact finite_add_finite fits hfits
  · have hsum : roundQuotient num 1 ≤ roundQuotient (roundQuotient num 1 + n) 1 :=
      le_roundQuotient_of_dvd Nat.one_pos hseconds (by omega)
    have hvalue' : ofQuotient false (roundQuotient num 1 + n) 1 = .infinity false :=
      dif_neg (Nat.not_lt.mpr (hlarge.trans hsum))
    rw [hvalue, hvalue']
    rfl

theorem unsigned_ofNanoseconds (ns : Nat) : (ofNanoseconds ns).Unsigned := by
  rw [ofNanoseconds_eq]
  exact unsigned_ofQuotient _ _

/-- A second more makes up for any part of a second: seconds that are counted exactly differ by one, and next to others
a part of a second is rounded away. -/
theorem second_makes_up {s s' r : Nat} (hs : s < s') (hr : r < nanosPerSecond) :
    roundQuotient (roundQuotient (s * quantaPerOne) 1 + fractionQuanta r) 1 ≤ roundQuotient (s' * quantaPerOne) 1 := by
  have hfraction := fractionQuanta_lt hr
  rcases Nat.lt_or_ge s (2 ^ 53) with hsmall | hlarge
  · have hexact : roundQuotient (s * quantaPerOne) 1 = s * quantaPerOne := roundQuotient_self (fits_whole hsmall.le).2
    have hnext : s * quantaPerOne + fractionQuanta r ≤ (s + 1) * quantaPerOne := by
      rw [Nat.add_mul, Nat.one_mul]
      omega
    rw [hexact]
    exact roundQuotient_mono Nat.one_pos (hnext.trans (Nat.mul_le_mul_right _ hs))
  · have hgrid : 1074 + 1 ≤ gridExponent (roundQuotient (s * quantaPerOne) 1) :=
      le_gridExponent (twoPow_le_rounded (j := 53) hlarge) (by decide)
    have hstep : 2 * quantaPerOne ≤ 2 ^ gridExponent (roundQuotient (s * quantaPerOne) 1) := by
      generalize roundQuotient (s * quantaPerOne) 1 = m at hgrid ⊢
      unfold quantaPerOne
      generalize 1074 = k at hgrid ⊢
      rw [twoPow_eq, ← Nat.pow_succ']
      exact two_pow_le hgrid
    refine (roundQuotient_add_le (roundQuotient_dvd _ _) ?_).trans
      (roundQuotient_mono Nat.one_pos (Nat.mul_le_mul_right _ hs.le))
    omega

/-- A longer span is never a smaller number. -/
theorem ofNanoseconds_mono {a b : Nat} (h : a ≤ b) : ofNanoseconds a ≤ ofNanoseconds b := by
  rw [ofNanoseconds_eq, ofNanoseconds_eq]
  refine ofQuotient_le ?_
  unfold spanQuanta
  rcases Nat.lt_or_eq_of_le (Nat.div_le_div_right (c := nanosPerSecond) h) with hlt | heq
  · refine (second_makes_up hlt (Nat.mod_lt a (by decide))).trans ?_
    exact le_roundQuotient_of_dvd Nat.one_pos (roundQuotient_dvd _ _) (by omega)
  · have hmod : a % nanosPerSecond ≤ b % nanosPerSecond := by
      unfold nanosPerSecond at heq ⊢
      omega
    rw [heq]
    exact roundQuotient_mono Nat.one_pos (Nat.add_le_add_left (fractionQuanta_mono hmod) _)

/-- A span that is long enough has so many quanta. -/
theorem twoPow_le_spanQuanta {ns j k : Nat} (hk : k + j = 1074) (h : nanosPerSecond ≤ twoPow k * ns) :
    twoPow j ≤ spanQuanta ns := by
  have hone : quantaPerOne = twoPow k * twoPow j := (congrArg twoPow hk.symm).trans (twoPow_add k j)
  unfold spanQuanta
  rcases Nat.eq_zero_or_pos (ns / nanosPerSecond) with hzero | hpos
  · -- A span of less than a second is a part of one.
    have hmod : ns % nanosPerSecond = ns := by
      unfold nanosPerSecond at hzero ⊢
      omega
    refine Nat.le_add_left_of_le (le_roundQuotient (Nat.mul_pos (by decide) quantaPerOne_pos) ?_)
    rw [hmod]
    calc twoPow j * (nanosPerSecond * quantaPerOne) ≤ twoPow j * (twoPow k * ns * quantaPerOne) :=
          Nat.mul_le_mul_left _ (Nat.mul_le_mul_right _ h)
      _ = ns * (twoPow k * twoPow j) * quantaPerOne := by ring
      _ = ns * quantaPerOne * quantaPerOne := by rw [← hone]
  · refine Nat.le_add_right_of_le (twoPow_le_roundQuotient ?_)
    have hstep : twoPow j ≤ quantaPerOne := by
      rw [hone]
      exact Nat.le_mul_of_pos_left _ (twoPow_pos k)
    exact hstep.trans (Nat.le_mul_of_pos_left _ hpos)

theorem spanQuanta_le {ns : Nat} (hle : ns ≤ twoPow 64 * nanosPerSecond) : spanQuanta ns ≤ twoPow (1 + (64 + 1074)) := by
  have hseconds : ns / nanosPerSecond ≤ twoPow 64 := Nat.div_le_of_le_mul (Nat.mul_comm .. ▸ hle)
  have hrounded : roundQuotient (ns / nanosPerSecond * quantaPerOne) 1 ≤ twoPow (64 + 1074) :=
    roundQuotient_le_twoPow (mul_quantaPerOne_le hseconds)
  have hfraction : fractionQuanta (ns % nanosPerSecond) ≤ twoPow (64 + 1074) := by
    refine (fractionQuanta_lt (Nat.mod_lt ns (by decide : 0 < nanosPerSecond))).le.trans ?_
    have hone : 1 * quantaPerOne ≤ twoPow (64 + 1074) := mul_quantaPerOne_le (twoPow_pos 64)
    rwa [Nat.one_mul] at hone
  unfold spanQuanta
  rw [twoPow_add 1, twoPow_eq 1]
  omega

/-- A span that is no longer than spans get is finite, and it is not zero unless there is none. -/
theorem exists_span {ns : Nat} (hpos : 0 < ns) (hle : ns ≤ twoPow 64 * nanosPerSecond) :
    ∃ m fits, ofNanoseconds ns = .finite false m fits ∧ m ≠ 0 := by
  have hsome : twoPow 1044 ≤ roundQuotient (spanQuanta ns) 1 := by
    refine twoPow_le_roundQuotient (twoPow_le_spanQuanta (k := 30) rfl ?_)
    rw [twoPow_eq]
    unfold nanosPerSecond
    omega
  have hfew := spanQuanta_le hle
  rw [← Nat.mul_one (twoPow _)] at hfew
  have hfinite : (ofQuotient false (spanQuanta ns) 1).isFinite = true :=
    (within_ofQuotient Nat.one_pos (by decide) hfew).isFinite
  rw [ofNanoseconds_eq]
  rcases ofQuotient_cases false (spanQuanta ns) 1 with ⟨fits, hvalue⟩ | ⟨-, hvalue⟩
  · exact ⟨_, fits, hvalue, (Nat.lt_of_lt_of_le (twoPow_pos 1044) hsome).ne'⟩
  · rw [hvalue] at hfinite
    cases hfinite

/-! ### Shares of a span -/

section
variable {elapsed total : Nat} (hpos : 0 < total) (hle : total ≤ twoPow 64 * nanosPerSecond)
include hpos hle

theorem unsigned_share (elapsed : Nat) : (ofNanoseconds elapsed / ofNanoseconds total).Unsigned := by
  obtain ⟨n, fits, hspan, h0⟩ := exists_span hpos hle
  rw [hspan]
  exact unsigned_div (unsigned_ofNanoseconds elapsed) fits h0

theorem share_mono {elapsed' : Nat} (h : elapsed ≤ elapsed') :
    ofNanoseconds elapsed / ofNanoseconds total ≤ ofNanoseconds elapsed' / ofNanoseconds total := by
  obtain ⟨n, fits, hspan, h0⟩ := exists_span hpos hle
  rw [hspan]
  exact div_mono (unsigned_ofNanoseconds _) (unsigned_ofNanoseconds _) (ofNanoseconds_mono h) fits h0

/-- As soon as the whole span has passed the share is one, or more. -/
theorem one_le_share (h : total ≤ elapsed) : 1 ≤ ofNanoseconds elapsed / ofNanoseconds total := by
  obtain ⟨n, fits, hspan, h0⟩ := exists_span hpos hle
  have hmono := ofNanoseconds_mono h
  have hunsigned := unsigned_ofNanoseconds elapsed
  rw [hspan] at hmono ⊢
  generalize ofNanoseconds elapsed = x at hmono hunsigned ⊢
  have hone : (1 : Number) = ofNat 1 := rfl
  rw [hone]
  cases hunsigned with
  | infinity => exact (unsigned_ofNat 1).le_infinity
  | finite m hm =>
    have hmn : n ≤ m := Int.ofNat_le.mp (finite_le_iff.mp hmono)
    have hexact : Fits (1 * quantaPerOne) := fits_whole (by decide)
    rw [finite_div_finite h0]
    unfold ofNat
    refine ofQuotient_le ?_
    rw [roundQuotient_self hexact.2]
    refine le_roundQuotient_of_dvd (Nat.pos_of_ne_zero h0) hexact.2 ?_
    rw [Nat.one_mul, Nat.mul_comm]
    exact Nat.mul_le_mul_right _ hmn

/-- After a millisecond there is a share. -/
theorem share_pos (h : 1000000 ≤ elapsed) : 0 < ofNanoseconds elapsed / ofNanoseconds total := by
  obtain ⟨n, fits, hspan, h0⟩ := exists_span hpos hle
  have hsome : twoPow 1064 ≤ roundQuotient (spanQuanta elapsed) 1 := by
    refine twoPow_le_roundQuotient (twoPow_le_spanQuanta (k := 10) rfl ?_)
    rw [twoPow_eq]
    unfold nanosPerSecond
    omega
  have hzero : (0 : Number) = .finite false 0 fits_zero := by
    have hnat : (0 : Number) = ofNat 0 := rfl
    rw [hnat]
    unfold ofNat
    rw [Nat.zero_mul]
    exact ofQuotient_self fits_zero
  rw [hspan, ofNanoseconds_eq, hzero]
  rcases ofQuotient_cases false (spanQuanta elapsed) 1 with ⟨hm, hvalue⟩ | ⟨-, hvalue⟩
  · -- Even the largest number has fewer quanta than what is divided by it.
    have hscaled := Nat.mul_le_mul_right quantaPerOne hsome
    have hlarge : n ≤ roundQuotient (spanQuanta elapsed) 1 * quantaPerOne :=
      (fits.1.le.trans overflowThreshold_le).trans hscaled
    rw [hvalue, finite_div_finite h0]
    generalize roundQuotient (spanQuanta elapsed) 1 * quantaPerOne = num at hlarge
    have hround : 2 ^ 0 ≤ roundQuotient num n := le_roundQuotient (Nat.pos_of_ne_zero h0) ((Nat.one_mul n).le.trans hlarge)
    rcases ofQuotient_cases false num n with ⟨hq, hvalue⟩ | ⟨-, hvalue⟩
    · rw [hvalue]
      exact finite_lt_iff.mpr (Int.ofNat_lt.mpr hround)
    · rw [hvalue]
      rfl
  · rw [hvalue]
    rfl

/-- A share that is not one or more is less. -/
theorem share_lt_one (elapsed : Nat) (h : ¬1 ≤ ofNanoseconds elapsed / ofNanoseconds total) :
    ofNanoseconds elapsed / ofNanoseconds total < 1 := by
  by_contra hlt
  exact h (le_of_not_lt (unsigned_share hpos hle elapsed).ne_nan (ofNat_ne_nan 1) hlt)

end

end Number
end BlockScript
