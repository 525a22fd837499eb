import BlockScript.Block.Operator
import BlockScript.Proofs.Number.Truncate

/-!
Random numbers between two bounds. Bounds that are spelled as whole numbers give whole numbers between the bounds
without their fractions, so that a positive lower bound and a negative upper one are passed if they have a fraction.
All other picks are between the bounds.
-/
namespace BlockScript
open Number

variable {a b : Value} {draw : Nat}

/-- The smaller one of two bounds. -/
def lowerBound (a b : Value) : Number := if a.toNumber ≤ b.toNumber then a.toNumber else b.toNumber

/-- The greater one of two bounds. -/
def upperBound (a b : Value) : Number := if a.toNumber ≤ b.toNumber then b.toNumber else a.toNumber

/-- A whole number between two bounds without their fractions. -/
def pickWhole (low high : Number) (draw : Nat) : Number :=
  Number.ofInt (low.toInt64 + (draw % (high.toInt64 - low.toInt64 + 1).toNat : Nat))

/-- A mixture of two bounds. -/
def pickBetween (low high : Number) (draw : Nat) : Number :=
  let t := Number.ofNat (draw % twoPow 64 / twoPow 11) / Number.ofNat (twoPow 53)
  (low * (1 - t) + high * t).clamp low high

/-- Both bounds are spelled as whole numbers and within the words. -/
def PicksWhole (a b : Value) : Prop :=
  a.isInt = true ∧ b.isInt = true ∧ -2 ^ 63 ≤ (lowerBound a b).toRat ∧ (upperBound a b).toRat ≤ 2 ^ 63

instance (a b : Value) : Decidable (PicksWhole a b) := inferInstanceAs (Decidable (_ ∧ _ ∧ _ ∧ _))

theorem pickRandom_bounds (a b : Value) (draw : Nat) : pickRandom a b draw =
    if (lowerBound a b).eqv (upperBound a b) || !((lowerBound a b).isFinite && (upperBound a b).isFinite) then
      lowerBound a b
    else if a.isInt && b.isInt && Number.ofInt (-(twoPow 63 : Int)) ≤ lowerBound a b &&
        upperBound a b ≤ Number.ofInt ((twoPow 63 : Int) - 1) then
      pickWhole (lowerBound a b) (upperBound a b) draw
    else pickBetween (lowerBound a b) (upperBound a b) draw := by
  by_cases h : a.toNumber ≤ b.toNumber
  · simp only [pickRandom, lowerBound, upperBound, if_pos h, pickWhole, pickBetween]
  · simp only [pickRandom, lowerBound, upperBound, if_neg h, pickWhole, pickBetween]

/-- The ends of the words, the upper one rounded. -/
theorem toRat_firstWord : (Number.ofInt (-(twoPow 63 : Int))).isFinite = true ∧
    (Number.ofInt (-(twoPow 63 : Int))).toRat = -2 ^ 63 := by
  obtain ⟨fits, hword⟩ : ∃ fits, Number.ofInt (-(twoPow 63 : Int)) = .finite true (twoPow 63 * quantaPerOne) fits :=
    ⟨by decide +kernel, by decide +kernel⟩
  rw [hword, toRat_ones rfl]
  exact ⟨rfl, by norm_num [signed, twoPow_eq]⟩

theorem toRat_lastWord : (Number.ofInt ((twoPow 63 : Int) - 1)).isFinite = true ∧
    (Number.ofInt ((twoPow 63 : Int) - 1)).toRat = 2 ^ 63 := by
  obtain ⟨fits, hword⟩ : ∃ fits, Number.ofInt ((twoPow 63 : Int) - 1) = .finite false (twoPow 63 * quantaPerOne) fits :=
    ⟨by decide +kernel, by decide +kernel⟩
  rw [hword, toRat_ones rfl]
  exact ⟨rfl, by norm_num [signed, twoPow_eq]⟩

section
variable (ha : a.toNumber.isFinite = true) (hb : b.toNumber.isFinite = true)
include ha hb

theorem isFinite_bounds : (lowerBound a b).isFinite = true ∧ (upperBound a b).isFinite = true := by
  unfold lowerBound upperBound
  split
  · exact ⟨ha, hb⟩
  · exact ⟨hb, ha⟩

theorem toRat_lowerBound : (lowerBound a b).toRat = min a.toNumber.toRat b.toNumber.toRat := by
  unfold lowerBound
  split
  · rename_i h
    exact (min_eq_left ((le_iff_toRat ha hb).mp h)).symm
  · rename_i h
    rw [le_iff_toRat ha hb, not_le] at h
    exact (min_eq_right h.le).symm

theorem toRat_upperBound : (upperBound a b).toRat = max a.toNumber.toRat b.toNumber.toRat := by
  unfold upperBound
  split
  · rename_i h
    exact (max_eq_right ((le_iff_toRat ha hb).mp h)).symm
  · rename_i h
    rw [le_iff_toRat ha hb, not_le] at h
    exact (max_eq_left h.le).symm

theorem lowerBound_le : (lowerBound a b).toRat ≤ (upperBound a b).toRat := by
  rw [toRat_lowerBound ha hb, toRat_upperBound ha hb]
  exact min_le_max

/-- The three ways to pick a number. -/
theorem pickRandom_eq (draw : Nat) : pickRandom a b draw =
    if (lowerBound a b).toRat = (upperBound a b).toRat then lowerBound a b
    else if PicksWhole a b then pickWhole (lowerBound a b) (upperBound a b) draw
    else pickBetween (lowerBound a b) (upperBound a b) draw := by
  obtain ⟨hlow, hhigh⟩ := isFinite_bounds ha hb
  obtain ⟨hfirst, hfirstValue⟩ := toRat_firstWord
  obtain ⟨hlast, hlastValue⟩ := toRat_lastWord
  have hwhole : (a.isInt && b.isInt && decide (Number.ofInt (-(twoPow 63 : Int)) ≤ lowerBound a b) &&
      decide (upperBound a b ≤ Number.ofInt ((twoPow 63 : Int) - 1))) = true ↔ PicksWhole a b := by
    simp only [Bool.and_eq_true, decide_eq_true_eq, le_iff_toRat hfirst hlow, le_iff_toRat hhigh hlast, hfirstValue,
      hlastValue, PicksWhole, and_assoc]
  rw [pickRandom_bounds, hlow, hhigh, Bool.and_true, Bool.not_true, Bool.or_false]
  simp only [eqv_iff_toRat hlow hhigh, hwhole]

end

/-! ### Mixtures -/

section
variable {low high x t : Number} (hlow : low.isFinite = true) (hhigh : high.isFinite = true)

/-- A share of a number is finite. -/
theorem isFinite_share (hx : x.isFinite = true) (ht : t.isFinite = true) (h0 : 0 ≤ t.toRat) (h1 : t.toRat ≤ 1) :
    (x * t).isFinite = true := by
  have hzero : Exact (0 : ℤ) := exact_intCast (by decide)
  have hround := rounds_mul hx ht
  rcases le_total 0 x.toRat with hpos | hneg
  · refine (hround.mem hzero (exact_toRat hx) ?_ ?_).1
    · push_cast
      exact mul_nonneg hpos h0
    · exact mul_le_of_le_one_right hpos h1
  · refine (hround.mem (exact_toRat hx) hzero ?_ ?_).1
    · nlinarith
    · push_cast
      exact mul_nonpos_of_nonpos_of_nonneg hneg h0

/-- The share that a draw stands for. -/
theorem share_mem (draw : Nat) :
    let t := Number.ofNat (draw % twoPow 64 / twoPow 11) / Number.ofNat (twoPow 53)
    t.isFinite = true ∧ 0 ≤ t.toRat ∧ t.toRat ≤ 1 := by
  have hlt : draw % twoPow 64 / twoPow 11 < 2 ^ 53 := by
    have := Nat.mod_lt draw (twoPow_pos 64)
    rw [Nat.div_lt_iff_lt_mul (twoPow_pos 11)]
    exact this
  generalize draw % twoPow 64 / twoPow 11 = k at hlt
  obtain ⟨hk, hkValue⟩ := toRat_ofNat hlt.le
  obtain ⟨hone, honeValue⟩ := toRat_ofNat (n := twoPow 53) (by decide)
  have hpos : (0 : ℚ) < twoPow 53 := Nat.cast_pos.mpr (twoPow_pos 53)
  have hround := rounds_div hk hone (by rw [honeValue]; exact hpos.ne')
  rw [hkValue, honeValue] at hround
  have hle : (k : ℚ) ≤ twoPow 53 := Nat.cast_le.mpr hlt.le
  have hmem := hround.mem (a := (0 : ℤ)) (b := (1 : ℤ)) (exact_intCast (by decide)) (exact_intCast (by decide)) ?_ ?_
  · exact_mod_cast hmem
  · push_cast
    exact div_nonneg (Nat.cast_nonneg k) hpos.le
  · push_cast
    exact div_le_one_of_le₀ hle hpos.le

include hlow hhigh in
theorem pickBetween_mem (h : low.toRat ≤ high.toRat) (draw : Nat) : (pickBetween low high draw).isFinite = true ∧
    low.toRat ≤ (pickBetween low high draw).toRat ∧ (pickBetween low high draw).toRat ≤ high.toRat := by
  obtain ⟨ht, h0, h1⟩ := share_mem draw
  unfold pickBetween
  dsimp only
  generalize Number.ofNat (draw % twoPow 64 / twoPow 11) / Number.ofNat (twoPow 53) = t at *
  obtain ⟨hone, honeValue⟩ := toRat_ofNat (n := 1) (by decide)
  have hrest := (rounds_sub hone ht).mem (a := (0 : ℤ)) (b := (1 : ℤ)) (exact_intCast (by decide))
    (exact_intCast (by decide)) (by rw [honeValue]; push_cast; linarith) (by rw [honeValue]; push_cast; linarith)
  push_cast at hrest
  have hfirst := isFinite_share hlow hrest.1 hrest.2.1 hrest.2.2
  have hsecond := isFinite_share hhigh ht h0 h1
  have hsum : low * (1 - t) + high * t ≠ .nan := add_ne_nan hfirst (ne_nan_of_isFinite hsecond)
  have hbounds := (le_iff_toRat hlow hhigh).mpr h
  obtain ⟨hge, hle⟩ := clamp_mem hsum (ne_nan_of_isFinite hlow) (ne_nan_of_isFinite hhigh) hbounds
  have hfinite := isFinite_of_le hlow hhigh hge hle
  exact ⟨hfinite, (le_iff_toRat hlow hfinite).mp hge, (le_iff_toRat hfinite hhigh).mp hle⟩

end

/-! ### Whole numbers -/

section
variable {low high : Number} {n : ℤ}

theorem exists_pickWhole_eq (h : low.toInt64 ≤ high.toInt64) (draw : Nat) :
    ∃ n, low.toInt64 ≤ n ∧ n ≤ high.toInt64 ∧ pickWhole low high draw = Number.ofInt n := by
  have hlt := Nat.mod_lt draw (y := (high.toInt64 - low.toInt64 + 1).toNat) (by omega)
  exact ⟨_, by omega, by omega, rfl⟩

/-- Every whole number in the range is picked for some draw. -/
theorem exists_draw (h : low.toInt64 ≤ n) (h' : n ≤ high.toInt64) :
    ∃ draw, pickWhole low high draw = Number.ofInt n := by
  refine ⟨(n - low.toInt64).toNat, congrArg Number.ofInt ?_⟩
  rw [Nat.mod_eq_of_lt (by omega)]
  omega

theorem isFinite_ofInt (h : -2 ^ 63 ≤ n) (h' : n ≤ 2 ^ 63) : (Number.ofInt n).isFinite = true := by
  have hbits : n.natAbs ≤ twoPow 63 := by
    rw [twoPow_eq]
    omega
  exact (within_ofInt hbits (by decide)).isFinite

variable (hlow : low.isFinite = true) (hhigh : high.isFinite = true)
include hlow hhigh

theorem isFinite_pickWhole (h : low.toRat ≤ high.toRat) (draw : Nat) : (pickWhole low high draw).isFinite = true := by
  obtain ⟨n, hn, hn', hpick⟩ := exists_pickWhole_eq (toInt64_mono hlow hhigh h) draw
  have hfirst := (toInt64_mem hlow).1
  have hlast := (toInt64_mem hhigh).2
  rw [hpick]
  exact isFinite_ofInt (by omega) (by omega)

/-- Whole numbers between two bounds without their fractions are between the bounds for every draw exactly if the bounds
without their fractions are. -/
theorem pickWhole_mem_iff (hlt : low.toRat < high.toRat) (hfirst : -2 ^ 63 ≤ low.toRat) (hlast : high.toRat ≤ 2 ^ 63) :
    (∀ draw, low.toRat ≤ (pickWhole low high draw).toRat ∧ (pickWhole low high draw).toRat ≤ high.toRat) ↔
      low.toRat ≤ trunc low.toRat ∧ trunc high.toRat ≤ high.toRat := by
  have hrange := toInt64_mono hlow hhigh hlt.le
  have hstart := toInt64_of_lt hlow hfirst (hlt.trans_le hlast)
  have exact_end {x : Number} (hx : x.isFinite = true) : (Number.ofInt (trunc x.toRat)).toRat = trunc x.toRat :=
    ((rounds_ofInt _).eq (exact_trunc hx)).2
  constructor
  · intro h
    constructor
    · obtain ⟨draw, hdraw⟩ := exists_draw le_rfl hrange
      have hpick := (h draw).1
      rwa [hdraw, hstart, exact_end hlow] at hpick
    · rcases le_or_gt 0 high.toRat with hpos | hneg
      · exact trunc_le hpos
      · obtain ⟨draw, hdraw⟩ := exists_draw hrange le_rfl
        have hpick := (h draw).2
        rwa [hdraw, toInt64_of_lt hhigh (hfirst.trans hlt.le) (by linarith), exact_end hhigh] at hpick
  · rintro ⟨hge, hle⟩ draw
    have hfinite := isFinite_pickWhole hlow hhigh hlt.le draw
    obtain ⟨n, hn, hn', hpick⟩ := exists_pickWhole_eq hrange draw
    have hbelow : low.toRat ≤ n := hge.trans (Int.cast_le.mpr (hstart ▸ hn))
    have habove : (n : ℚ) ≤ high.toRat :=
      (Int.cast_le.mpr (hn'.trans (toInt64_le hhigh (hfirst.trans hlt.le)))).trans hle
    rw [hpick] at hfinite ⊢
    exact ⟨(rounds_ofInt n).le_toRat hfinite (exact_toRat hlow) hbelow,
      (rounds_ofInt n).toRat_le hfinite (exact_toRat hhigh) habove⟩

end

/-! ### Picks -/

/-- Bounds of which one is passed by some pick: they are spelled as whole numbers, but a positive lower one or a
negative upper one has a fraction. -/
def Slips (a b : Value) : Prop :=
  (lowerBound a b).toRat ≠ (upperBound a b).toRat ∧ PicksWhole a b ∧
    (0 < (lowerBound a b).toRat ∧ ¬(lowerBound a b).isWhole = true ∨
      (upperBound a b).toRat < 0 ∧ ¬(upperBound a b).isWhole = true)

section
variable (ha : a.toNumber.isFinite = true) (hb : b.toNumber.isFinite = true)
include ha hb

theorem isFinite_pickRandom (draw : Nat) : (pickRandom a b draw).isFinite = true := by
  obtain ⟨hlow, hhigh⟩ := isFinite_bounds ha hb
  have hle := lowerBound_le ha hb
  rw [pickRandom_eq ha hb]
  split
  · exact hlow
  · split
    · exact isFinite_pickWhole hlow hhigh hle draw
    · exact (pickBetween_mem hlow hhigh hle draw).1

theorem pickRandom_mem_iff :
    (∀ draw, (lowerBound a b).toRat ≤ (pickRandom a b draw).toRat ∧
      (pickRandom a b draw).toRat ≤ (upperBound a b).toRat) ↔ ¬Slips a b := by
  obtain ⟨hlow, hhigh⟩ := isFinite_bounds ha hb
  have hle := lowerBound_le ha hb
  simp only [pickRandom_eq ha hb]
  by_cases heq : (lowerBound a b).toRat = (upperBound a b).toRat
  · simp only [if_pos heq]
    exact ⟨fun _ hslips => hslips.1 heq, fun _ _ => ⟨le_rfl, hle⟩⟩
  · simp only [if_neg heq]
    by_cases hpick : PicksWhole a b
    · simp only [if_pos hpick]
      rw [pickWhole_mem_iff hlow hhigh (lt_of_le_of_ne hle heq) hpick.2.2.1 hpick.2.2.2, le_trunc_iff, trunc_le_iff,
        ← isWhole_iff hlow, ← isWhole_iff hhigh]
      constructor
      · rintro ⟨hlower, hupper⟩ ⟨-, -, ⟨hpos, hfraction⟩ | ⟨hneg, hfraction⟩⟩
        · exact hlower.elim hpos.not_ge hfraction
        · exact hupper.elim hneg.not_ge hfraction
      · intro hslips
        constructor
        · by_contra! h
          exact hslips ⟨heq, hpick, .inl h⟩
        · by_contra! h
          exact hslips ⟨heq, hpick, .inr h⟩
    · simp only [if_neg hpick]
      exact ⟨fun _ hslips => hpick hslips.2.1, fun _ draw => (pickBetween_mem hlow hhigh hle draw).2⟩

/-- Numbers without fractions, as far as there are words for them, give a number without a fraction. -/
theorem isWhole_pickRandom {x y : Number} (hx : a = .number x) (hy : b = .number y) (hwhole : x.isWhole = true)
    (hwhole' : y.isWhole = true) (hfirst : -2 ^ 63 ≤ min x.toRat y.toRat) (hlast : max x.toRat y.toRat ≤ 2 ^ 63)
    (draw : Nat) : (pickRandom a b draw).isWhole = true := by
  have toNumber_number {z : Number} (hz : z.isWhole = true) : (Value.number z).toNumber = z := by
    cases z with
    | nan => cases hz
    | _ => rfl
  have hvalue := toNumber_number hwhole
  have hvalue' := toNumber_number hwhole'
  have hfinite := isFinite_pickRandom ha hb draw
  subst hx hy
  rw [pickRandom_eq ha hb] at hfinite ⊢
  split
  · rw [lowerBound, hvalue, hvalue']
    split
    · exact hwhole
    · exact hwhole'
  · rename_i heq
    have hpick : PicksWhole (.number x) (.number y) := by
      refine ⟨hwhole, hwhole', ?_, ?_⟩
      · rwa [toRat_lowerBound ha hb, hvalue, hvalue']
      · rwa [toRat_upperBound ha hb, hvalue, hvalue']
    rw [if_neg heq, if_pos hpick] at hfinite
    rw [if_pos hpick]
    exact isWhole_ofInt hfinite

/-- The range of whole numbers is never empty, every pick is finite, and every pick is between the bounds exactly if the
bounds do not slip. Numbers without fractions that words can hold give a number without a fraction. -/
theorem pickRandom_spec :
    (lowerBound a b).toInt64 ≤ (upperBound a b).toInt64 ∧
    (∀ draw, (pickRandom a b draw).isFinite = true) ∧
    ((∀ draw, min a.toNumber.toRat b.toNumber.toRat ≤ (pickRandom a b draw).toRat ∧
      (pickRandom a b draw).toRat ≤ max a.toNumber.toRat b.toNumber.toRat) ↔ ¬Slips a b) ∧
    (∀ x y, a = .number x → b = .number y → x.isWhole = true → y.isWhole = true →
      -2 ^ 63 ≤ min x.toRat y.toRat → max x.toRat y.toRat ≤ 2 ^ 63 → ∀ draw, (pickRandom a b draw).isWhole = true) := by
  obtain ⟨hlow, hhigh⟩ := isFinite_bounds ha hb
  refine ⟨toInt64_mono hlow hhigh (lowerBound_le ha hb), isFinite_pickRandom ha hb, ?_, ?_⟩
  · rw [← toRat_lowerBound ha hb, ← toRat_upperBound ha hb]
    exact pickRandom_mem_iff ha hb
  · intro x y hx hy hwhole hwhole' hfirst hlast draw
    exact isWhole_pickRandom ha hb hx hy hwhole hwhole' hfirst hlast draw

end

/-- A pick from one to three. -/
theorem pick_from_one_to_three : (pickRandom (.number 3) (.number 1) 8).isWhole = true ∧
    1 ≤ (pickRandom (.number 3) (.number 1) 8).toRat ∧ (pickRandom (.number 3) (.number 1) 8).toRat ≤ 3 := by
  have hthree : Value.toNumber (.number 3) = ofNat 3 := by decide +kernel
  have hone : Value.toNumber (.number 1) = ofNat 1 := by decide +kernel
  have hlower : (lowerBound (.number 3) (.number 1)).isWhole = true := by decide +kernel
  have hupper : (upperBound (.number 3) (.number 1)).isWhole = true := by decide +kernel
  obtain ⟨-, -, hbetween, hwhole⟩ :=
    pickRandom_spec (a := .number 3) (b := .number 1) (by decide +kernel) (by decide +kernel)
  have hslips : ¬Slips (.number 3) (.number 1) := by
    rintro ⟨-, -, ⟨-, hfraction⟩ | ⟨-, hfraction⟩⟩
    · exact hfraction hlower
    · exact hfraction hupper
  have hthreeValue := (toRat_ofNat (n := 3) (by decide)).2
  have honeValue := (toRat_ofNat (n := 1) (by decide)).2
  have hmem := hbetween.mpr hslips 8
  rw [hthree, hone, hthreeValue, honeValue] at hmem
  refine ⟨hwhole 3 1 rfl rfl (by decide +kernel) (by decide +kernel) ?_ ?_ 8, ?_⟩
  · change -2 ^ 63 ≤ min (ofNat 3).toRat (ofNat 1).toRat
    rw [hthreeValue, honeValue]
    norm_num
  · change max (ofNat 3).toRat (ofNat 1).toRat ≤ 2 ^ 63
    rw [hthreeValue, honeValue]
    norm_num
  · norm_num at hmem
    exact hmem

/-- The number 0.5 is spelled as a whole number in `5e-1`, and zero is picked between it and 0.9. -/
theorem pick_below_half : (Value.text "5e-1").toNumber = half ∧ half < (Value.text "9e-1").toNumber ∧
    (Value.text "9e-1").toNumber < 1 ∧ pickRandom (.text "5e-1") (.text "9e-1") 0 = 0 ∧ (0 : Number) < half := by
  decide +kernel

end BlockScript
