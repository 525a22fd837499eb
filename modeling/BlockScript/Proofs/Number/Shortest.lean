import BlockScript.Proofs.Number.Rounding
import Mathlib.Tactic.Ring

/-!
The shortest digits of a number. Whatever the search for them gives lies in the rounding interval of the
count, and the search gives something: at the latest the place where a quantum itself ends. So the digits,
read as a decimal number, are rounded back to the count.
-/
namespace BlockScript
namespace Number

/-! ### The search -/

theorem nearestDigits?_holds {m digits : Nat} {place : Int} (h : nearestDigits? m place = some digits) :
    (Interval.around m).holds place digits = true := by
  unfold nearestDigits? at h
  dsimp only at h
  split at h
  · rename_i hdown hup
    obtain rfl := Option.some.inj h
    split
    · exact hdown
    · exact hup
  · rename_i hdown _
    obtain rfl := Option.some.inj h
    exact hdown
  · rename_i _ hup
    obtain rfl := Option.some.inj h
    exact hup
  · cases h

/-- The digits lie in the interval if there are any for one of the places tried. -/
theorem shortestFrom_holds {m steps k : Nat} {place : Int} (hk : k < steps)
    (found : (nearestDigits? m (place - k)).isSome = true) :
    (Interval.around m).holds (shortestFrom m steps place).2 (shortestFrom m steps place).1 = true := by
  induction steps generalizing place k with
  | zero => omega
  | succ steps ih =>
    rw [shortestFrom]
    cases hplace : nearestDigits? m place with
    | some digits => exact nearestDigits?_holds hplace
    | none =>
      cases k with
      | zero => simp [hplace] at found
      | succ k =>
        refine ih (Nat.lt_of_succ_lt_succ hk) ?_
        rwa [show place - 1 - (k : Int) = place - ((k + 1 : Nat) : Int) by omega]

/-! ### The interval of a count -/

theorem twoPow_dvd_tenPow (k : Nat) : twoPow k ∣ tenPow k := ⟨5 ^ k, Nat.mul_pow 2 5 k⟩

/-- A quantum ends at the `1074`th place after the point. -/
theorem quantum_ends (m : Nat) : scaleDenominator (-(1074 : Nat)) ∣ scaleNumerator (-(1074 : Nat)) (4 * m) := by
  obtain ⟨rest, hten⟩ : quantaPerOne ∣ tenPow 1074 := twoPow_dvd_tenPow 1074
  refine ⟨m * rest, ?_⟩
  simp only [scaleNumerator, scaleDenominator, quartersPerOne, Int.neg_neg, Int.toNat_natCast, Int.toNat_neg_natCast,
    hten, tenPow_eq, Nat.pow_zero]
  ring

section
variable {m : Nat} (fits : Fits m) (pos : 0 < m)
include fits pos

theorem step_le_count : 2 ^ gridExponent m ≤ m := by
  obtain ⟨c, hm, -, -⟩ := fits.exists_multiple
  have hc : c ≠ 0 := by
    rintro rfl
    omega
  calc 2 ^ gridExponent m ≤ c * 2 ^ gridExponent m := Nat.le_mul_of_pos_left _ (Nat.pos_of_ne_zero hc)
    _ = m := hm.symm

theorem around_low : 2 ≤ (Interval.around m).low ∧ (Interval.around m).low < 4 * m := by
  have hstep := step_le_count fits pos
  have hpos := Nat.two_pow_pos (gridExponent m)
  have hbelow : 0 < Interval.below m ∧ Interval.below m ≤ 2 * 2 ^ gridExponent m := by
    unfold Interval.below
    split <;> omega
  rw [Interval.around_eq]
  dsimp only
  omega

/-- A count that is a whole multiple of a power of ten has digits at that place. -/
theorem nearestDigits?_isSome {place : Int} (h : scaleDenominator place ∣ scaleNumerator place (4 * m)) :
    (nearestDigits? m place).isSome = true := by
  obtain ⟨hlow, hlt⟩ := around_low fits pos
  have hhigh : 4 * m < (Interval.around m).high := by
    have := Nat.two_pow_pos (gridExponent m)
    rw [Interval.around_eq]
    dsimp only
    omega
  have hten : 0 < tenPow (-place).toNat := Nat.pow_pos (by decide)
  have hdown : (Interval.around m).holds place (scaleNumerator place (4 * m) / scaleDenominator place) = true := by
    unfold Interval.holds
    rw [Nat.div_mul_cancel h]
    have hleft := Nat.mul_lt_mul_of_pos_right hlt hten
    have hright := Nat.mul_lt_mul_of_pos_right hhigh hten
    simp only [scaleNumerator]
    split
    · simp [hleft.le, hright.le]
    · simp [hleft, hright]
  unfold nearestDigits?
  simp only [hdown]
  split <;> simp_all

/-- The digits of a count lie in its rounding interval. -/
theorem shortest_holds : (Interval.around m).holds (shortest m).2 (shortest m).1 = true := by
  unfold shortest
  dsimp only
  generalize digitCount ((Interval.around m).high / quartersPerOne) = start
  refine shortestFrom_holds (k := start + 1074) (by omega) ?_
  rw [show (start : Int) - ((start + 1074 : Nat) : Int) = -(1074 : Nat) by omega]
  exact nearestDigits?_isSome fits pos (quantum_ends m)

end

/-! ### Reading the digits -/

theorem covers_of_holds {i : Interval} {place : Int} {digits : Nat} (h : i.holds place digits = true) :
    i.Covers (digits * tenPow place.toNat * quantaPerOne) (tenPow (-place).toNat) := by
  have hpoint : digits * scaleDenominator place = 4 * (digits * tenPow place.toNat * quantaPerOne) := by
    simp only [scaleDenominator, quartersPerOne]
    ring
  simp only [Interval.holds, hpoint, scaleNumerator] at h
  split at h
  · rename_i hclosed
    simp only [Bool.and_eq_true, decide_eq_true_eq] at h
    exact ⟨h.1, h.2, fun hopen => by simp [hclosed] at hopen⟩
  · simp only [Bool.and_eq_true, decide_eq_true_eq] at h
    exact ⟨h.1.le, h.2.le, fun _ => ⟨h.1.ne, h.2.ne⟩⟩

theorem quantaPerOne_pos : 0 < quantaPerOne := twoPow_pos 1074

theorem twoPow_add (a b : Nat) : twoPow (a + b) = twoPow a * twoPow b := Nat.pow_add 2 a b

theorem twoPow_le_tenPow (k : Nat) : twoPow (3 * k) ≤ tenPow k := by
  rw [twoPow_eq, Nat.pow_mul, tenPow_eq]
  exact Nat.pow_le_pow_left (by decide) k

/-- Digits in the interval of a count are not so small that reading takes them for zero. -/
theorem log2_of_covers {m digits places : Nat} (fits : Fits m) (pos : 0 < m)
    (h : (Interval.around m).Covers (digits * quantaPerOne) (tenPow places)) :
    digits ≠ 0 ∧ places ≤ 400 + digits.log2 := by
  have hlow : 2 * tenPow places ≤ 4 * (digits * quantaPerOne) :=
    (Nat.mul_le_mul_right _ (around_low fits pos).1).trans h.low
  have hten : 0 < tenPow places := Nat.pow_pos (by decide)
  have hdigits : digits ≠ 0 := by
    rintro rfl
    omega
  refine ⟨hdigits, ?_⟩
  by_contra! hplaces
  have hbound : twoPow (3 * places) < twoPow (digits.log2 + 1 + (1 + 1074)) :=
    calc twoPow (3 * places) ≤ tenPow places := twoPow_le_tenPow places
      _ ≤ digits * (2 * quantaPerOne) := by linarith
      _ < twoPow (digits.log2 + 1) * (2 * quantaPerOne) :=
        Nat.mul_lt_mul_of_pos_right Nat.lt_log2_self (Nat.mul_pos (by decide) quantaPerOne_pos)
      _ = twoPow (digits.log2 + 1 + (1 + 1074)) := by
        rw [twoPow_add _ (1 + 1074), twoPow_add 1 1074, quantaPerOne, twoPow_eq 1, Nat.pow_one]
  have := (Nat.pow_lt_pow_iff_right (by decide)).mp hbound
  omega

/-- Digits in the interval of a count are read as that count. -/
theorem ofDecimal_of_covers {m digits places : Nat} (fits : Fits m) (pos : 0 < m) (negative : Bool)
    (h : (Interval.around m).Covers (digits * quantaPerOne) (tenPow places)) :
    ofDecimal negative digits (-(places : Int)) = .finite negative m fits := by
  obtain ⟨hdigits, hlog⟩ := log2_of_covers fits pos h
  have hround : roundQuotient (digits * quantaPerOne) (tenPow places) = m :=
    roundQuotient_of_covers fits (Nat.pow_pos (by decide)) h
  have hquotient : ofQuotient negative (digits * quantaPerOne) (tenPow places) = .finite negative m fits := by
    simp only [ofQuotient, hround, fits.1, dite_true]
  unfold ofDecimal
  rw [if_neg hdigits, if_neg (by omega), if_neg (by omega)]
  split
  · rename_i hplaces
    obtain rfl : places = 0 := by omega
    simpa [tenPow] using hquotient
  · simpa using hquotient

end Number
end BlockScript
