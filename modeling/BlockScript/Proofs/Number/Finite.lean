import BlockScript.Number.Elementary
import BlockScript.Proofs.Number.Order
import BlockScript.Proofs.Number.Shortest

/-!
Numbers that stay finite. Rounding does not carry a quotient over a power of two, nor over the largest finite number
from less than half a step above it. So sums of small numbers are finite, adding a small number to any finite one is,
and a direction that is finite is so after whole turns were taken off. Clamping brings every number but `nan` between
the bounds.
-/
namespace BlockScript

/-! ### Rounding below a bound -/

theorem two_pow_le {k j : Nat} (h : k ≤ j) : 2 ^ k ≤ 2 ^ j := Nat.pow_le_pow_right (by decide) h

theorem two_pow_lt {k j : Nat} (h : k < j) : 2 ^ k < 2 ^ j := Nat.pow_lt_pow_right (by decide) h

theorem divRoundEven_le_of_lt {num den c : Nat} (hden : 0 < den) (h : 2 * num < (2 * c + 1) * den) :
    divRoundEven num den ≤ c := by
  have hsplit : den * (num / den) + num % den = num := Nat.div_add_mod num den
  unfold divRoundEven
  dsimp only
  generalize num / den = q at *
  generalize num % den = r at *
  rcases Nat.lt_trichotomy q c with hlt | rfl | hgt
  · split <;> omega
  · have hhalf : 2 * r < den := by linarith
    rw [if_pos (.inl hhalf)]
  · have := Nat.mul_le_mul_left den hgt
    linarith

theorem le_divRoundEven {num den c : Nat} (hden : 0 < den) (h : c * den ≤ num) : c ≤ divRoundEven num den := by
  have hle : c ≤ num / den := (Nat.le_div_iff_mul_le hden).mpr h
  unfold divRoundEven
  dsimp only
  split <;> omega

theorem gridExponent_le {n k : Nat} (h : n < 2 ^ (53 + k)) : gridExponent n ≤ k := by
  by_cases h0 : n = 0
  · subst h0
    exact Nat.zero_le k
  · have := (Nat.log2_lt h0).mpr h
    unfold gridExponent
    omega

theorem le_gridExponent {n j k : Nat} (h : twoPow j ≤ n) (hk : 52 + k ≤ j) : k ≤ gridExponent n := by
  have h0 : n ≠ 0 := Nat.ne_of_gt (Nat.lt_of_lt_of_le (Nat.two_pow_pos _) h)
  have := (Nat.le_log2 h0).mpr h
  unfold gridExponent
  omega

theorem lt_two_pow_gridExponent (n : Nat) : n < 2 ^ (53 + gridExponent n) := by
  refine Nat.lt_of_lt_of_le Nat.lt_log2_self (two_pow_le ?_)
  unfold gridExponent
  omega

theorem two_pow_le_of_gridExponent {n : Nat} (h : gridExponent n ≠ 0) : 2 ^ (52 + gridExponent n) ≤ n := by
  have h0 : n ≠ 0 := by
    rintro rfl
    exact h rfl
  have hlog : n.log2 = 52 + gridExponent n := by
    unfold gridExponent at h ⊢
    omega
  rw [← hlog]
  exact Nat.log2_self_le h0

theorem gridExponent_mono {n m : Nat} (h : n ≤ m) : gridExponent n ≤ gridExponent m :=
  gridExponent_le (Nat.lt_of_le_of_lt h (lt_two_pow_gridExponent m))

/-- A quotient is not rounded over a count that needs no rounding itself. -/
theorem roundQuotient_le_of_dvd {num den n : Nat} (hden : 0 < den) (hn : twoPow (gridExponent n) ∣ n)
    (h : num ≤ n * den) : roundQuotient num den ≤ n := by
  have hgrid : gridExponent (num / den) ≤ gridExponent n :=
    gridExponent_mono (Nat.div_le_of_le_mul (Nat.mul_comm .. ▸ h))
  obtain ⟨c, hc⟩ := (Nat.pow_dvd_pow 2 hgrid).trans hn
  unfold roundQuotient
  dsimp only
  rw [twoPow_eq]
  generalize gridExponent (num / den) = g at *
  have hcell := Nat.mul_pos hden (Nat.two_pow_pos g)
  rw [hc, Nat.mul_comm (2 ^ g)] at h ⊢
  refine Nat.mul_le_mul_right _ (divRoundEven_le_of_lt hcell ?_)
  linarith

theorem le_roundQuotient_of_dvd {num den n : Nat} (hden : 0 < den) (hn : twoPow (gridExponent n) ∣ n)
    (h : n * den ≤ num) : n ≤ roundQuotient num den := by
  have hq : n ≤ num / den := (Nat.le_div_iff_mul_le hden).mpr h
  have hgrid := gridExponent_mono hq
  have htop := lt_two_pow_gridExponent n
  have hlarge : gridExponent (num / den) ≠ 0 → 2 ^ (52 + gridExponent (num / den)) * den ≤ num := fun h0 =>
    (Nat.le_div_iff_mul_le hden).mp (two_pow_le_of_gridExponent h0)
  unfold roundQuotient
  dsimp only
  rw [twoPow_eq] at hn ⊢
  generalize gridExponent (num / den) = g at *
  have hcell := Nat.mul_pos hden (Nat.two_pow_pos g)
  rcases Nat.lt_or_eq_of_le hgrid with hlt | heq
  · -- The quotient lies on a coarser grid than the count, and so does the power of two between them.
    have hstart := hlarge (by omega)
    rw [Nat.pow_add] at hstart
    have hround : 2 ^ 52 ≤ divRoundEven num (den * 2 ^ g) := le_divRoundEven hcell (by linarith)
    calc n ≤ 2 ^ (52 + g) := htop.le.trans (two_pow_le (by omega))
      _ = 2 ^ 52 * 2 ^ g := Nat.pow_add ..
      _ ≤ divRoundEven num (den * 2 ^ g) * 2 ^ g := Nat.mul_le_mul_right _ hround
  · obtain ⟨c, hc⟩ := hn
    rw [heq] at hc
    rw [hc, Nat.mul_comm (2 ^ g)] at h ⊢
    refine Nat.mul_le_mul_right _ (le_divRoundEven hcell ?_)
    linarith

theorem gridExponent_dvd_two_pow (k : Nat) : twoPow (gridExponent (2 ^ k)) ∣ 2 ^ k := by
  have h := gridExponent_dvd_mul (q := 1) (k := k) (by decide)
  rwa [Nat.one_mul] at h

theorem roundQuotient_le {num den k : Nat} (hden : 0 < den) (h : num ≤ 2 ^ k * den) : roundQuotient num den ≤ 2 ^ k :=
  roundQuotient_le_of_dvd hden (gridExponent_dvd_two_pow k) h

theorem le_roundQuotient {num den k : Nat} (hden : 0 < den) (h : 2 ^ k * den ≤ num) : 2 ^ k ≤ roundQuotient num den :=
  le_roundQuotient_of_dvd hden (gridExponent_dvd_two_pow k) h

theorem roundQuotient_le_twoPow {num k : Nat} (h : num ≤ twoPow k) : roundQuotient num 1 ≤ twoPow k :=
  roundQuotient_le Nat.one_pos (by rwa [Nat.mul_one])

theorem twoPow_le_roundQuotient {num k : Nat} (h : twoPow k ≤ num) : twoPow k ≤ roundQuotient num 1 :=
  le_roundQuotient Nat.one_pos (by rwa [Nat.mul_one])

/-- Less than half a step above the largest count on a grid, nothing is rounded to the power of two behind it. -/
theorem roundQuotient_lt {num den g : Nat} (hden : 0 < den) (h : 2 * num + 2 ^ g * den < 2 ^ 54 * (2 ^ g * den)) :
    roundQuotient num den < 2 ^ (53 + g) := by
  have hcell := Nat.mul_pos (Nat.two_pow_pos g) hden
  have hgrid : gridExponent (num / den) ≤ g := by
    refine gridExponent_le ((Nat.div_lt_iff_lt_mul hden).mpr ?_)
    rw [Nat.pow_add]
    linarith
  rcases Nat.lt_or_eq_of_le hgrid with hlt | rfl
  · have hpower : 53 + gridExponent (num / den) ≤ 52 + g := by omega
    have hnum : num ≤ 2 ^ (52 + g) * den := by
      refine Nat.le_of_lt ((Nat.div_lt_iff_lt_mul hden).mp ?_)
      exact Nat.lt_of_lt_of_le (lt_two_pow_gridExponent _) (two_pow_le hpower)
    exact Nat.lt_of_le_of_lt (roundQuotient_le hden hnum) (two_pow_lt (by omega))
  · unfold roundQuotient
    dsimp only
    rw [twoPow_eq]
    generalize gridExponent (num / den) = g at *
    have hround : divRoundEven num (den * 2 ^ g) ≤ 2 ^ 53 - 1 := by
      refine divRoundEven_le_of_lt (Nat.mul_pos hden (Nat.two_pow_pos g)) ?_
      rw [Nat.mul_comm den]
      norm_num
      linarith
    have hlast : divRoundEven num (den * 2 ^ g) < 2 ^ 53 := by
      norm_num at hround ⊢
      omega
    rw [Nat.pow_add]
    exact Nat.mul_lt_mul_of_pos_right hlast (Nat.two_pow_pos g)

theorem overflowThreshold_eq : overflowThreshold = 2 ^ (53 + 2045) := twoPow_eq (53 + 2045)

/-- A count that fits is at most the largest multiple of the coarsest step. -/
theorem Fits.le {m : Nat} (fits : Fits m) : m + 2 ^ 2045 ≤ 2 ^ 53 * 2 ^ 2045 := by
  obtain ⟨c, hm, hc, -⟩ := fits.exists_multiple
  have hgrid : gridExponent m ≤ 2045 := gridExponent_le (overflowThreshold_eq ▸ fits.1)
  have hstep : c * 2 ^ gridExponent m ≤ c * 2 ^ 2045 := Nat.mul_le_mul_left c (two_pow_le hgrid)
  have hlast : (c + 1) * 2 ^ 2045 ≤ 2 ^ 53 * 2 ^ 2045 := Nat.mul_le_mul_right _ hc
  rw [Nat.add_mul, Nat.one_mul] at hlast
  rw [← hm] at hstep
  exact Nat.le_trans (Nat.add_le_add_right hstep _) hlast

namespace Number

/-! ### Small numbers -/

/-- Finite, with at most so many powers of two of quanta. -/
inductive Within (k : Nat) : Number → Prop
  | finite {negative : Bool} {quanta : Nat} {fits : Fits quanta} : quanta ≤ twoPow k → Within k (.finite negative quanta fits)

variable {x y : Number} {k j : Nat}

theorem Within.isFinite (h : x.Within k) : x.isFinite = true := by
  obtain ⟨-⟩ := h
  rfl

theorem Within.mono (h : x.Within k) (hkj : k ≤ j) : x.Within j := by
  obtain ⟨hle⟩ := h
  exact ⟨hle.trans (two_pow_le hkj)⟩

theorem isFinite_ofQuotient {negative : Bool} {num den : Nat} (hden : 0 < den)
    (h : 2 * num + 2 ^ 2045 * den < 2 ^ 54 * (2 ^ 2045 * den)) : (ofQuotient negative num den).isFinite = true := by
  have hlt := roundQuotient_lt hden h
  rw [← overflowThreshold_eq] at hlt
  unfold ofQuotient
  rw [dif_pos hlt]
  rfl

theorem within_ofQuotient {negative : Bool} {num den : Nat} (hden : 0 < den) (hk : k ≤ 2097) (h : num ≤ twoPow k * den) :
    (ofQuotient negative num den).Within k := by
  have hle := roundQuotient_le hden h
  have hlt : roundQuotient num den < overflowThreshold := by
    rw [overflowThreshold_eq]
    exact Nat.lt_of_le_of_lt hle (two_pow_lt (by omega))
  unfold ofQuotient
  rw [dif_pos hlt]
  exact ⟨hle⟩

theorem within_zero (negative : Bool) : (zero negative).Within k := ⟨Nat.zero_le _⟩

theorem within_ofQuanta {zeroNegative : Bool} {v : Int} (hk : k ≤ 2097) (h : v.natAbs ≤ twoPow k) :
    (ofQuanta zeroNegative v).Within k := by
  unfold ofQuanta
  split
  · exact within_zero _
  · exact within_ofQuotient Nat.one_pos hk (by rwa [Nat.mul_one])

theorem mul_quantaPerOne_le {n : Nat} (h : n ≤ twoPow j) : n * quantaPerOne ≤ twoPow (j + 1074) := by
  rw [twoPow_add]
  exact Nat.mul_le_mul_right quantaPerOne h

theorem within_ofInt {n : Int} (h : n.natAbs ≤ twoPow j) (hj : j + 1074 ≤ 2097) : (ofInt n).Within (j + 1074) := by
  unfold ofInt
  refine within_ofQuotient Nat.one_pos hj ?_
  rw [Nat.mul_one]
  exact mul_quantaPerOne_le h

theorem within_ofNat {n : Nat} (h : n ≤ twoPow j) (hj : j + 1074 ≤ 2097) : (ofNat n).Within (j + 1074) := by
  unfold ofNat
  refine within_ofQuotient Nat.one_pos hj ?_
  rw [Nat.mul_one]
  exact mul_quantaPerOne_le h

theorem Within.neg (h : x.Within k) : (-x).Within k := by
  obtain ⟨hle⟩ := h
  exact ⟨hle⟩

theorem Within.abs (h : x.Within k) : x.abs.Within k := by
  obtain ⟨hle⟩ := h
  exact ⟨hle⟩

theorem natAbs_signed (s : Bool) (m : Nat) : (signed s m).natAbs = m := by
  cases s <;> simp [signed]

theorem natAbs_signed_add_le (s t : Bool) (m n : Nat) : (signed s m + signed t n).natAbs ≤ m + n := by
  have := Int.natAbs_add_le (signed s m) (signed t n)
  rwa [natAbs_signed, natAbs_signed] at this

theorem Within.add (hx : x.Within k) (hy : y.Within k) (hk : k + 1 ≤ 2097) : (x + y).Within (k + 1) := by
  obtain ⟨hx⟩ := hx
  obtain ⟨hy⟩ := hy
  refine within_ofQuanta hk ((natAbs_signed_add_le _ _ _ _).trans ?_)
  rw [twoPow_add, twoPow_eq 1, Nat.pow_one, Nat.mul_two]
  exact Nat.add_le_add hx hy

theorem Within.sub (hx : x.Within k) (hy : y.Within k) (hk : k + 1 ≤ 2097) : (x - y).Within (k + 1) :=
  hx.add hy.neg hk

/-! ### Sums -/

/-- A small number added to a finite one is less than half of the coarsest step. -/
theorem isFinite_add (hx : x.isFinite = true) (hy : y.Within k) (hk : k + 1 + 1 ≤ 2045) : (x + y).isFinite = true := by
  obtain ⟨hn⟩ := hy
  rename_i t n fits
  cases x with
  | finite s m hm =>
    show (ofQuanta (s && t) (signed s m + signed t n)).isFinite = true
    unfold ofQuanta
    split
    · rfl
    · refine isFinite_ofQuotient Nat.one_pos ?_
      have hsum := natAbs_signed_add_le s t m n
      have hm := hm.le
      have hstep := two_pow_le hk
      have hpositive := Nat.two_pow_pos k
      rw [Nat.pow_succ, Nat.pow_succ] at hstep
      rw [twoPow_eq] at hn
      rw [Nat.mul_one]
      generalize 2 ^ k = a at *
      generalize 2 ^ 2045 = c at *
      generalize (signed s m + signed t n).natAbs = b at *
      omega
  | _ => cases hx

theorem isFinite_sub_ofNat {n : Nat} (hx : x.isFinite = true) (hn : n ≤ 2 ^ 53) : (x - ofNat n).isFinite = true :=
  isFinite_add hx (within_ofNat (j := 53) hn (by decide)).neg (by decide)

theorem add_ne_nan (hx : x.isFinite = true) (hy : y ≠ .nan) : x + y ≠ .nan := by
  cases x with
  | finite s m hm =>
    cases y with
    | nan => exact absurd rfl hy
    | infinity t => exact fun h => by cases h
    | finite t n hn =>
      show ofQuanta _ _ ≠ _
      unfold ofQuanta
      split
      · exact fun h => by cases h
      · exact ofQuotient_ne_nan _ _ _
  | _ => cases hx

/-! ### Directions -/

theorem within_rem (hx : x.isFinite = true) {negative : Bool} {n : Nat} {fits : Fits n} (hn : n ≠ 0) (hk : k ≤ 2097)
    (h : n ≤ twoPow k) : (x % (.finite negative n fits)).Within k := by
  cases x with
  | finite s m hm =>
    show (if n = 0 then Number.nan else ofQuotient s (m % n) 1).Within k
    rw [if_neg hn]
    refine within_ofQuotient Nat.one_pos hk ?_
    rw [Nat.mul_one]
    exact (Nat.le_of_lt (Nat.mod_lt m (Nat.pos_of_ne_zero hn))).trans h
  | _ => cases hx

theorem fullTurn_eq : ∃ fits, (360 : Number) = .finite false (360 * quantaPerOne) fits :=
  ⟨by decide +kernel, by decide +kernel⟩

theorem within_rem_fullTurn (h : x.isFinite = true) : (x % 360).Within (9 + 1074) := by
  obtain ⟨fits, hturn⟩ := fullTurn_eq
  rw [hturn]
  have hsteps : 360 * quantaPerOne ≠ 0 := Nat.mul_ne_zero (by decide) (Nat.ne_of_gt (twoPow_pos 1074))
  exact within_rem h hsteps (by decide) (mul_quantaPerOne_le (by decide))

/-- A finite direction is finite after whole turns were taken off. -/
theorem isFinite_wrapDirection (h : x.isFinite = true) : x.wrapDirection.isFinite = true := by
  have hoffset : (179 : Number).Within (9 + 1074) := within_ofNat (by decide) (by decide)
  have hturn : (360 : Number).Within (9 + 1074) := within_ofNat (by decide) (by decide)
  have hrest := within_rem_fullTurn (isFinite_add h hoffset (by decide))
  have hpositive : (remPositive (x + 179) 360).Within (9 + 1074 + 1) := by
    unfold remPositive
    dsimp only
    split
    · exact hrest.add hturn.abs (by decide)
    · exact hrest.mono (by decide)
  exact (hpositive.sub (hoffset.mono (by decide)) (by decide)).isFinite

/-! ### Clamping -/

theorem ofNat_ne_nan (n : Nat) : ofNat n ≠ .nan := by
  unfold ofNat
  exact ofQuotient_ne_nan _ _ _

theorem ne_nan_of_isFinite (h : x.isFinite = true) : x ≠ .nan := by
  rintro rfl
  cases h

theorem le_refl_of_ne_nan (h : x ≠ .nan) : x ≤ x := .inr (eqv_iff.mp (eqv_refl h))

theorem le_of_not_lt (hx : x ≠ .nan) (hy : y ≠ .nan) (h : ¬x < y) : y ≤ x := by
  obtain ⟨o, ho⟩ := exists_order? hx hy
  show y.order? x = some .lt ∨ y.order? x = some .eq
  rw [order?_swap x y, ho]
  cases o with
  | lt => exact absurd ho h
  | eq => exact .inr rfl
  | gt => exact .inl rfl

/-- Clamping ends between the bounds. -/
theorem clamp_mem {low high : Number} (hx : x ≠ .nan) (hlow : low ≠ .nan) (hhigh : high ≠ .nan) (h : low ≤ high) :
    low ≤ x.clamp low high ∧ x.clamp low high ≤ high := by
  unfold clamp
  split
  · exact ⟨le_refl_of_ne_nan hlow, h⟩
  · rename_i hbelow
    split
    · exact ⟨h, le_refl_of_ne_nan hhigh⟩
    · rename_i habove
      exact ⟨le_of_not_lt hx hlow hbelow, le_of_not_lt hhigh hx habove⟩

/-- A number between finite bounds is finite. -/
theorem isFinite_of_le {low high : Number} (hlow : low.isFinite = true) (hhigh : high.isFinite = true) (h : low ≤ x)
    (h' : x ≤ high) : x.isFinite = true := by
  cases x with
  | finite s m hm => rfl
  | nan =>
    rcases h with h | h <;> cases low <;> cases h
  | infinity s =>
    cases low with
    | finite t n hn =>
      cases high with
      | finite u k hk => cases s <;> rcases h with h | h <;> rcases h' with h' | h' <;> simp_all [order?]
      | _ => cases hhigh
    | _ => cases hlow

/-! ### Infinity -/

theorem infinity_sub (s : Bool) (hy : y.isFinite = true) : infinity s - y = infinity s := by
  cases y with
  | finite t n hn => rfl
  | _ => cases hy

theorem infinity_lt_iff (s : Bool) (hy : y.isFinite = true) : infinity s < y ↔ s = true := by
  cases y with
  | finite t n hn =>
    cases s with
    | false => exact iff_of_false nofun (by decide)
    | true => exact iff_of_true rfl rfl
  | _ => cases hy

theorem sub_ne_nan (hx : x ≠ .nan) (hy : y.isFinite = true) : x - y ≠ .nan := by
  cases x with
  | nan => exact absurd rfl hx
  | infinity s => rwa [infinity_sub s hy]
  | finite s m hm => exact add_ne_nan rfl (neg_ne_nan (ne_nan_of_isFinite hy))

end Number

theorem Value.toNumber_ne_nan (v : Value) : v.toNumber ≠ .nan := by
  have zero_ne : (0 : Number) ≠ .nan := Number.ofNat_ne_nan 0
  cases v with
  | number x =>
    cases x with
    | nan => exact zero_ne
    | infinity s => simp [toNumber]
    | finite s m hm => simp [toNumber]
  | text s =>
    simp only [toNumber]
    cases hread : readNumber? s with
    | none => exact zero_ne
    | some x =>
      rintro rfl
      exact readNumber?_ne_nan s hread
  | boolean b =>
    simp only [toNumber]
    split
    · exact Number.ofNat_ne_nan 1
    · exact zero_ne
  | empty => exact zero_ne

end BlockScript
