import BlockScript.Proofs.Number.HalfUp
import BlockScript.Proofs.Number.Truncate
import BlockScript.Script.Thread

/-!
Rounding to whole numbers, and the counts of loops. A number is rounded to the nearest whole number, a half to the one
above it, but for the numbers that tip over: they end one higher. The block that rounds and the loops that count use
the same rounding, and a loop tells of a count that it changes.
-/
namespace BlockScript
open Number

variable {x : Number}

theorem iterationCount_of_nonneg (hx : x.isFinite = true) (h0 : 0 ≤ x.toRat) :
    iterationCount x = (x.roundHalfUp.toNat64, if x.roundHalfUp.eqv x then []
      else [.warn s!"repeat count {x.logText} rounded to {x.roundHalfUp.logText}"]) := by
  have hzero := toRat_ofNat (n := 0) (by decide)
  have hnonneg : ¬x < 0 := by
    change ¬x < ofNat 0
    rw [lt_iff_toRat hx hzero.1, hzero.2]
    push_cast
    exact not_lt.mpr h0
  rw [iterationCount, if_neg hnonneg]

/-- A count that a word with a sign can hold is rounded to one that a word without a sign can hold. -/
theorem toNat64_roundHalfUp (hx : x.isFinite = true) (h0 : 0 ≤ x.toRat) (h : x.toRat < 2 ^ 63) :
    (x.roundHalfUp.toNat64 : ℚ) = x.roundHalfUp.toRat := by
  obtain ⟨hfinite, hround⟩ := toRat_roundHalfUp hx
  have hlow : 0 ≤ ⌊x.toRat + 1 / 2⌋ := Int.floor_nonneg.mpr (by linarith)
  have hhigh : ⌊x.toRat + 1 / 2⌋ < 2 ^ 63 + 1 := by
    rw [Int.floor_lt]
    push_cast
    linarith
  have hnear : ⌊(x + half).toRat⌋ = ⌊x.toRat + 1 / 2⌋ ∨ ⌊(x + half).toRat⌋ = ⌊x.toRat + 1 / 2⌋ + 1 := by
    by_cases htips : x.Tips
    · exact .inr ((floor_add_half hx).2 htips)
    · exact .inl ((floor_add_half hx).1 htips)
  have htop : ((twoPow 64 : Nat) : ℤ) = 2 ^ 64 := rfl
  rw [toNat64, truncateWithin_of_toRat hfinite hround, hround, htop, if_neg (by omega), if_neg (by omega)]
  exact_mod_cast Int.toNat_of_nonneg (by omega)

theorem iterationCount_records (hx : x.isFinite = true) (h0 : 0 ≤ x.toRat) :
    (iterationCount x).2 =
      if x.roundHalfUp.toRat = x.toRat then []
      else [.warn s!"repeat count {x.logText} rounded to {x.roundHalfUp.logText}"] := by
  rw [iterationCount_of_nonneg hx h0]
  simp only [eqv_iff_toRat (toRat_roundHalfUp hx).1 hx]

/-- Rounding is to the nearest whole number, with halves going up, exactly for the numbers that do not tip over. Those
end one higher. A rounded number is not changed again. The block that rounds reports the same number, and a loop counts
it and tells of it if it is not the one that was given. -/
theorem roundHalfUp_spec (hx : x.isFinite = true) :
    (∃ n : ℤ, x.roundHalfUp.isFinite = true ∧ x.roundHalfUp.toRat = n) ∧
    ((x.toRat - 1 / 2 < x.roundHalfUp.toRat ∧ x.roundHalfUp.toRat ≤ x.toRat + 1 / 2) ↔ ¬x.Tips) ∧
    (x.Tips → x.roundHalfUp.toRat = ⌊x.toRat + 1 / 2⌋ + 1) ∧
    (x.roundHalfUp.toRat = x.toRat ↔ x.isWhole = true ∧ ¬x.Tips) ∧
    x.roundHalfUp.roundHalfUp.toRat = x.roundHalfUp.toRat ∧
    (∀ (v : View) (o : Operand Nat) (t : Traces), (o.number v t).1 = x →
      ((Operand.unary .round o).eval v t).1 = .number x.roundHalfUp) ∧
    (0 ≤ x.toRat → x.toRat < 2 ^ 63 → ((iterationCount x).1 : ℚ) = x.roundHalfUp.toRat ∧
      ((x.isWhole = true ∧ ¬x.Tips) ∧ (iterationCount x).2 = [] ∨
        ¬(x.isWhole = true ∧ ¬x.Tips) ∧
          (iterationCount x).2 = [.warn s!"repeat count {x.logText} rounded to {x.roundHalfUp.logText}"])) := by
  obtain ⟨hfinite, hround⟩ := toRat_roundHalfUp hx
  refine ⟨⟨_, hfinite, hround⟩, roundHalfUp_near_iff hx, roundHalfUp_of_tips hx, roundHalfUp_eq_self_iff hx,
    roundHalfUp_roundHalfUp hx, ?_, fun h0 h => ⟨?_, ?_⟩⟩
  · rintro v o t rfl
    rfl
  · rw [iterationCount_of_nonneg hx h0]
    exact toNat64_roundHalfUp hx h0 h
  · rw [iterationCount_records hx h0, ← roundHalfUp_eq_self_iff hx]
    by_cases hself : x.roundHalfUp.toRat = x.toRat
    · exact .inl ⟨hself, if_pos hself⟩
    · exact .inr ⟨hself, if_neg hself⟩

/-- One half does not tip over: it is rounded up, and a loop tells of it. -/
theorem half_rounds_up : half.isFinite = true ∧ half.toRat - 1 / 2 < half.roundHalfUp.toRat ∧
    half.roundHalfUp.toRat ≤ half.toRat + 1 / 2 ∧ (iterationCount half).2 ≠ [] := by
  have htips : ¬half.Tips := by
    rintro (hbelow | ⟨n, hn, -⟩)
    · rw [toRat_half] at hbelow
      norm_num at hbelow
    · rw [toRat_half, div_eq_iff two_ne_zero] at hn
      have : 1 = n * 2 := by exact_mod_cast hn
      omega
  have hfraction : ¬half.isWhole = true := by decide +kernel
  obtain ⟨-, hnear, -, -, -, -, hcount⟩ := roundHalfUp_spec isFinite_half
  obtain ⟨hlow, hhigh⟩ := hnear.mpr htips
  obtain ⟨-, ⟨⟨hwhole, -⟩, -⟩ | ⟨-, htold⟩⟩ := hcount (by rw [toRat_half]; norm_num) (by rw [toRat_half]; norm_num)
  · exact absurd hwhole hfraction
  · refine ⟨isFinite_half, hlow, hhigh, ?_⟩
    rw [htold]
    exact List.cons_ne_nil _ _

/-- The number below one half is rounded to one, and an odd number beyond `2 ^ 52` to the next one. -/
theorem belowHalf_rounds_to_one :
    belowHalf.isFinite = true ∧ ¬(belowHalf.toRat - 1 / 2 < belowHalf.roundHalfUp.toRat ∧
      belowHalf.roundHalfUp.toRat ≤ belowHalf.toRat + 1 / 2) ∧
    Unary.round.apply (.text "0.49999999999999994") = .number 1 ∧
    (ofNat 4503599627370497).roundHalfUp = ofNat 4503599627370498 := by
  refine ⟨toRat_belowHalf.1, fun hnear => ?_, by decide +kernel, by decide +kernel⟩
  exact (roundHalfUp_near_iff toRat_belowHalf.1).mp hnear (.inl toRat_belowHalf.2)

end BlockScript
