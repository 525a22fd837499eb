import BlockScript.Proofs.Number.HalfUp
import BlockScript.Proofs.Number.Truncate
import BlockScript.Script.Evaluation

/-!
Letters of texts. A position is a number, counted from one, and stands for the letter at its floor. What is counted off
from a position is exact as long as it leaves something and the position has no more than 53 bits before the point, so
the positions of a joined text are those of its parts, the second ones counted behind the first. Beyond these positions
no text that fits into any memory has a letter.
-/
namespace BlockScript
open Number

/-! ### Positions -/

namespace Number
variable {x : Number} {n : Nat}

/-- Less than one is less by a quantum at least. -/
theorem sub_one_neg (hx : x.isFinite = true) (h : x.toRat < 1) : x - 1 < 0 := by
  obtain ⟨hone, hvalue⟩ := toRat_one
  obtain ⟨hzero, hnought⟩ := toRat_nought
  have hsub : (x - 1).isFinite = true := isFinite_sub_ofNat (n := 1) hx (by decide)
  have hfits : Fits 1 := by decide +kernel
  have hquantum : (finite true 1 hfits).toRat = (-1 : ℤ) / quantaPerOne := rfl
  have hle : x.toRat - 1 ≤ (-1 : ℤ) / quantaPerOne := by
    obtain ⟨s, m, fits, rfl⟩ := exists_finite hx
    have hone := quantaPerOne_cast_pos
    rw [toRat, div_lt_one hone] at h
    rw [toRat, sub_le_iff_le_add, ← div_self hone.ne', ← add_div, div_le_div_iff_of_pos_right hone]
    generalize quantaPerOne = one at h ⊢
    have hlt : signed s m < one := by exact_mod_cast h
    have hle : signed s m ≤ -1 + one := by omega
    exact_mod_cast hle
  have hrounds := rounds_sub hx hone
  rw [hvalue] at hrounds
  have hrounded := hrounds.toRat_le hsub ⟨_, rfl, hquantum⟩ hle
  rw [lt_iff_toRat hsub hzero, hnought]
  exact hrounded.trans_lt (div_neg_of_neg_of_pos (by norm_num) quantaPerOne_cast_pos)

/-- What a number counts off from a greater one is exact. -/
theorem exact_sub_natCast (hx : x.isFinite = true) (hn : (n : ℚ) ≤ x.toRat) (hbits : x.toRat ≤ 2 ^ 53) :
    Exact (x.toRat - n) := by
  rcases Nat.eq_zero_or_pos n with rfl | hpos
  · rw [Nat.cast_zero, sub_zero]
    exact exact_toRat hx
  have hone : (1 : ℚ) ≤ n := by exact_mod_cast hpos
  have habs : |x.toRat| = x.toRat := abs_of_nonneg (by linarith)
  -- Below `2 ^ 52` a number has its bits before the point and behind it, and from there on it has no others than ones.
  obtain ⟨c, k, hk, hvalue⟩ : ∃ (c : ℤ) (k : Nat), k ≤ 1074 ∧ x.toRat = c / 2 ^ k ∧ c ≤ 2 ^ 53 := by
    rcases lt_or_ge x.toRat (2 ^ 52) with hlt | hge
    · obtain ⟨c, k, -, hk, -, hc, hvalue⟩ := exists_bits hx (by rw [habs]; linarith) (by rwa [habs])
      exact ⟨c, k, by omega, hvalue, (le_abs_self c).trans hc.le⟩
    · obtain ⟨c, hc⟩ := exists_dyadic (k := 0) hx (Nat.zero_le _) (by rw [habs, pow_zero, mul_one]; exact hge)
      refine ⟨c, 0, Nat.zero_le _, hc, ?_⟩
      rw [hc, pow_zero, div_one] at hbits
      exact_mod_cast hbits
  have hplace : (0 : ℚ) < 2 ^ k := by positivity
  obtain ⟨hvalue, hc⟩ := hvalue
  have hrest : x.toRat - n = ((c - n * 2 ^ k : ℤ) : ℚ) / 2 ^ k := by
    rw [hvalue]
    push_cast
    rw [sub_div, mul_div_cancel_right₀ _ hplace.ne']
  have hnonneg : 0 ≤ c - n * 2 ^ k := by
    have hle : (0 : ℚ) ≤ ((c - n * 2 ^ k : ℤ) : ℚ) / 2 ^ k := hrest ▸ sub_nonneg.mpr hn
    rw [le_div_iff₀ hplace, zero_mul] at hle
    exact_mod_cast hle
  have hless : (0 : ℤ) ≤ n * 2 ^ k := by positivity
  rw [hrest]
  exact exact_dyadic (by rw [abs_of_nonneg hnonneg]; omega) hk

/-- What is counted off from a number is counted off from its floor, unless both are beyond all places of letters. -/
theorem floor_sub_ofNat (hx : x.isFinite = true) (hn : (n : ℚ) ≤ x.toRat) (hbits : n ≤ 2 ^ 53) :
    ⌊(x - ofNat n).toRat⌋ = ⌊x.toRat⌋ - n ∨
      (2 ^ 53 - n : ℤ) ≤ ⌊(x - ofNat n).toRat⌋ ∧ (2 ^ 53 : ℤ) ≤ ⌊x.toRat⌋ := by
  obtain ⟨hcount, hvalue⟩ := toRat_ofNat hbits
  have hrounds := rounds_sub hx hcount
  rw [hvalue] at hrounds
  rcases lt_or_ge (2 ^ 53) x.toRat with hlarge | hsmall
  · have hexact : Exact ((2 ^ 53 - n : ℤ) : ℚ) := exact_intCast (abs_le.mpr ⟨by omega, by omega⟩)
    have hlow := hrounds.le_toRat (isFinite_sub_ofNat hx hbits) hexact (by push_cast; linarith)
    exact .inr ⟨Int.le_floor.mpr hlow, Int.le_floor.mpr (by push_cast; exact hlarge.le)⟩
  · rw [(hrounds.eq (exact_sub_natCast hx hn hsmall)).2, Int.floor_sub_natCast]
    exact .inl rfl

end Number

/-! ### Letters -/

/-- The letter of a text at a whole position, or no text. -/
def letterAt (position : ℤ) (s : String) : String :=
  if 1 ≤ position then String.ofList (s.toList[(position - 1).toNat]?).toList else ""

theorem letterAt_eq_empty {position : ℤ} {s : String} (h : position < 1 ∨ s.length < position) : letterAt position s = "" := by
  unfold letterAt
  split
  · rw [List.getElem?_eq_none (by rw [String.length_toList]; omega)]
    rfl
  · rfl

theorem letterAt_of_mem {i : Nat} {s : String} (hi : i < s.toList.length) :
    letterAt (i + 1) s = String.ofList [s.toList[i]] := by
  rw [letterAt, if_pos (by omega), show ((i : ℤ) + 1 - 1).toNat = i by omega, List.getElem?_eq_getElem hi]
  rfl

theorem letterOf_eq {x : Number} {s : String} (hx : x.isFinite = true) (hs : s.length < 2 ^ 53) :
    letterOf x s = letterAt ⌊x.toRat⌋ s := by
  have hsub : (x - 1).isFinite = true := isFinite_sub_ofNat (n := 1) hx (by decide)
  unfold letterOf
  dsimp only
  rcases lt_or_ge x.toRat 1 with hless | hge
  · rw [if_pos (sub_one_neg hx hless), letterAt_eq_empty (Or.inl (Int.floor_lt.mpr (by exact_mod_cast hless)))]
  · have hfloor : 1 ≤ ⌊x.toRat⌋ := Int.le_floor.mpr (by exact_mod_cast hge)
    have hcount : ⌊(x - 1).toRat⌋ = ⌊x.toRat⌋ - 1 ∨ (2 ^ 53 - 1 : ℤ) ≤ ⌊(x - 1).toRat⌋ ∧ (2 ^ 53 : ℤ) ≤ ⌊x.toRat⌋ :=
      floor_sub_ofNat (n := 1) hx (by exact_mod_cast hge) (by decide)
    have hindex : 0 ≤ (x - 1).toRat := Int.floor_nonneg.mp (by omega)
    have hsame : s.toList[(x - 1).toNat64]? = s.toList[(⌊x.toRat⌋ - 1).toNat]? := by
      rw [toNat64_eq hsub hindex]
      rcases Nat.lt_or_ge (⌊x.toRat⌋ - 1).toNat s.length with hinside | houtside
      · congr 1
        omega
      · rw [List.getElem?_eq_none (by rw [String.length_toList]; omega),
          List.getElem?_eq_none (by rw [String.length_toList]; omega)]
    rw [if_neg (by rw [lt_iff_toRat hsub toRat_nought.1, toRat_nought.2]; exact hindex.not_gt), hsame, letterAt,
      if_pos hfloor]
    cases s.toList[(⌊x.toRat⌋ - 1).toNat]? <;> rfl

theorem letterOf_infinity (negative : Bool) {s : String} (hs : s.length < 2 ^ 53) :
    letterOf (.infinity negative) s = "" := by
  have hword : (Number.infinity false).toNat64 = 2 ^ 64 - 1 := by decide +kernel
  unfold letterOf
  dsimp only
  rw [infinity_sub negative toRat_one.1]
  cases negative with
  | true => rw [if_pos ((infinity_lt_iff true toRat_nought.1).mpr rfl)]
  | false =>
    rw [if_neg (by rw [infinity_lt_iff false toRat_nought.1]; decide), hword,
      List.getElem?_eq_none (by rw [String.length_toList]; omega)]

theorem letterAt_append_left {position : ℤ} {a b : String} (h : position ≤ a.length) :
    letterAt position (a ++ b) = letterAt position a := by
  unfold letterAt
  split
  · rw [String.toList_append, List.getElem?_append_left (by rw [String.length_toList]; omega)]
  · rfl

theorem letterAt_append_right {position : ℤ} {a b : String} (h : a.length < position) :
    letterAt position (a ++ b) = letterAt (position - a.length) b := by
  rw [letterAt, letterAt, if_pos (by omega), if_pos (by omega), String.toList_append,
    List.getElem?_append_right (by rw [String.length_toList]; omega), String.length_toList]
  congr 4
  omega

/-- A number is a position of a text exactly if its floor is one. -/
theorem lt_ofNat_succ_iff {x : Number} {n : Nat} (hx : x.isFinite = true) (hn : n < 2 ^ 53) :
    x < ofNat (n + 1) ↔ ⌊x.toRat⌋ ≤ n := by
  obtain ⟨hfinite, hvalue⟩ := toRat_ofNat (n := n + 1) hn
  rw [lt_iff_toRat hx hfinite, hvalue, ← Int.lt_add_one_iff, Int.floor_lt]
  push_cast
  rfl

theorem one_le_iff {x : Number} (hx : x.isFinite = true) : 1 ≤ x ↔ 1 ≤ ⌊x.toRat⌋ := by
  rw [le_iff_toRat toRat_one.1 hx, toRat_one.2, Int.le_floor, Int.cast_one]

theorem letterOf_inside {x : Number} {s : String} (hs : s.length < 2 ^ 53) (hfirst : 1 ≤ x) (hlast : x < ofNat (s.length + 1)) :
    ∃ (i : Nat) (hi : i < s.toList.length),
      x.floor? = some ((i : ℤ) + 1) ∧ letterOf x s = String.ofList [s.toList[i]] := by
  have hx : x.isFinite = true := isFinite_of_le toRat_one.1 (toRat_ofNat hs).1 hfirst (Or.inl hlast)
  rw [one_le_iff hx] at hfirst
  rw [lt_ofNat_succ_iff hx hs] at hlast
  obtain ⟨i, hi⟩ : ∃ i : Nat, ⌊x.toRat⌋ = (i : ℤ) + 1 := ⟨(⌊x.toRat⌋ - 1).toNat, by omega⟩
  have hmem : i < s.toList.length := by
    rw [String.length_toList]
    omega
  refine ⟨i, hmem, by rw [floor?_eq_floor hx, hi], ?_⟩
  rw [letterOf_eq hx hs, hi, letterAt_of_mem hmem]

theorem letterOf_ofNat {i : Nat} {s : String} (hs : s.length < 2 ^ 53) (hi : i < s.toList.length) :
    letterOf (ofNat (i + 1)) s = String.ofList [s.toList[i]] := by
  rw [String.length_toList] at hi
  obtain ⟨hfinite, hvalue⟩ := toRat_ofNat (n := i + 1) (by omega)
  rw [letterOf_eq hfinite hs, hvalue, Int.floor_natCast, Nat.cast_add, Nat.cast_one, letterAt_of_mem]

theorem letterOf_outside {x : Number} {s : String} (hx : x ≠ .nan) (hs : s.length < 2 ^ 53)
    (h : ¬(1 ≤ x ∧ x < ofNat (s.length + 1))) : letterOf x s = "" := by
  cases x with
  | nan => exact absurd rfl hx
  | infinity negative => exact letterOf_infinity negative hs
  | finite negative m fits =>
    rw [one_le_iff rfl, lt_ofNat_succ_iff rfl hs] at h
    rw [letterOf_eq rfl hs]
    exact letterAt_eq_empty (by omega)

/-- Behind the letters of the first text those of the second one are counted from one again. -/
theorem letterOf_append {x : Number} {a b : String} (hx : x ≠ .nan) (h : a.length + b.length < 2 ^ 53) :
    letterOf x (a ++ b) = if x < ofNat (a.length + 1) then letterOf x a else letterOf (x - ofNat a.length) b := by
  have ha : a.length < 2 ^ 53 := by omega
  have hb : b.length < 2 ^ 53 := by omega
  have hab : (a ++ b).length < 2 ^ 53 := by rwa [String.length_append]
  cases x with
  | nan => exact absurd rfl hx
  | infinity negative =>
    rw [infinity_sub negative (toRat_ofNat ha.le).1, letterOf_infinity negative hab, letterOf_infinity negative ha,
      letterOf_infinity negative hb, ite_self]
  | finite negative m fits =>
    generalize hx : Number.finite negative m fits = x
    have hx : x.isFinite = true := hx ▸ rfl
    have hsub := isFinite_sub_ofNat hx ha.le
    rw [letterOf_eq hx hab, letterOf_eq hx ha, letterOf_eq hsub hb]
    split
    · rename_i hless
      exact letterAt_append_left ((lt_ofNat_succ_iff hx ha).mp hless)
    · rename_i hbehind
      rw [lt_ofNat_succ_iff hx ha, not_le] at hbehind
      have hle : (a.length : ℚ) ≤ x.toRat := by exact_mod_cast Int.le_floor.mp hbehind.le
      rw [letterAt_append_right hbehind]
      rcases floor_sub_ofNat hx hle ha.le with hcount | hbeyond
      · rw [hcount]
      · rw [letterAt_eq_empty (by omega), letterAt_eq_empty (by omega)]

/-! ### Blocks -/

/-- What a block reports. -/
def reported (v : View) (t : Traces) (o : Operand Nat) : Value := (o.eval v t).1

/-- The block that reports the length of a text. -/
def lengthOf (a : Operand Nat) : Operand Nat := .unary .length a

/-- The block that joins two texts. -/
def joined (a b : Operand Nat) : Operand Nat := .binary .join a b

/-- The block that reports the letter at a position of a text. -/
def letter (position a : Operand Nat) : Operand Nat := .binary .letterOf position a

/-- The block that adds. -/
def sumOf (a b : Operand Nat) : Operand Nat := .binary (.arithmetic .add "operator_add") a b

/-- The block that subtracts. -/
def differenceOf (a b : Operand Nat) : Operand Nat := .binary (.arithmetic .subtract "operator_subtract") a b

/-- Letters of a text from the first one on, joined one after another. -/
def firstLetters (a : Operand Nat) : (count : Nat) → Operand Nat
  | 0 => .constant (.text "")
  | count + 1 => joined (firstLetters a count) (letter (.constant (.number (.ofNat (count + 1)))) a)

section
variable {v : View} {t : Traces} {a b k : Value}

theorem reported_letter : reported v t (letter (.constant k) (.constant a)) = .text (letterOf k.toNumber a.toText) := rfl

theorem reported_length_joined (h : a.textLength + b.textLength < 2 ^ 53) :
    reported v t (lengthOf (joined (.constant a) (.constant b))) =
      reported v t (sumOf (lengthOf (.constant a)) (lengthOf (.constant b))) := by
  have hjoined : (Value.text (a.toText ++ b.toText)).textLength = a.textLength + b.textLength :=
    String.length_append ..
  change Value.number (ofNat (Value.text (a.toText ++ b.toText)).textLength) =
    .number ((Value.number (ofNat a.textLength)).toNumber + (Value.number (ofNat b.textLength)).toNumber)
  rw [Value.toNumber_number (ofNat_ne_nan _), Value.toNumber_number (ofNat_ne_nan _), hjoined, ofNat_add h.le]

theorem reported_letter_joined (h : a.textLength + b.textLength < 2 ^ 53) :
    reported v t (letter (.constant k) (joined (.constant a) (.constant b))) =
      if k.toNumber < ofNat (a.textLength + 1) then reported v t (letter (.constant k) (.constant a))
      else reported v t (letter (differenceOf (.constant k) (lengthOf (.constant a))) (.constant b)) := by
  have hk := k.toNumber_ne_nan
  change Value.text (letterOf k.toNumber (a.toText ++ b.toText)) =
    if _ then .text (letterOf k.toNumber a.toText)
    else .text (letterOf (Value.number (k.toNumber - (Value.number (ofNat a.textLength)).toNumber)).toNumber b.toText)
  have hlength : (ofNat a.textLength).isFinite = true := (toRat_ofNat (by omega)).1
  rw [Value.toNumber_number (ofNat_ne_nan _), Value.toNumber_number (sub_ne_nan hk hlength), letterOf_append hk h]
  exact apply_ite Value.text ..

theorem reported_firstLetters {count : Nat} (ha : a.textLength < 2 ^ 53) (h : count ≤ a.textLength) :
    reported v t (firstLetters (.constant a) count) = .text (String.ofList (a.toText.toList.take count)) := by
  induction count with
  | zero => rfl
  | succ count ih =>
    have hlast : count < a.toText.toList.length := by rwa [String.length_toList]
    change Value.text ((reported v t (firstLetters (.constant a) count)).toText ++
      letterOf (Value.number (ofNat (count + 1))).toNumber a.toText) = _
    rw [ih (by omega), Value.toNumber_number (ofNat_ne_nan _), letterOf_ofNat ha hlast, Value.toText, ← String.ofList_append,
      List.take_succ_eq_append_getElem hlast]

end

/-- Letters of texts that fit into a memory, so that the numbers of their characters are doubles. A joined text has the
letters of the first text and then those of the second one, counted from one again. A number from one up to the length
stands for the letter at its floor and any other number for no text. The letters joined one after another are the text. -/
theorem letters_index_text (v : View) (t : Traces) (a b : Value) (h : a.textLength + b.textLength < 2 ^ 53) :
    reported v t (lengthOf (joined (.constant a) (.constant b))) =
      reported v t (sumOf (lengthOf (.constant a)) (lengthOf (.constant b))) ∧
    (∀ k : Value, reported v t (letter (.constant k) (joined (.constant a) (.constant b))) =
      if k.toNumber < ofNat (a.textLength + 1) then reported v t (letter (.constant k) (.constant a))
      else reported v t (letter (differenceOf (.constant k) (lengthOf (.constant a))) (.constant b))) ∧
    (∀ k : Value, 1 ≤ k.toNumber → k.toNumber < ofNat (a.textLength + 1) →
      ∃ (i : Nat) (hi : i < a.toText.toList.length), k.toNumber.floor? = some ((i : ℤ) + 1) ∧
        reported v t (letter (.constant k) (.constant a)) = .text (String.ofList [a.toText.toList[i]])) ∧
    (∀ k : Value, ¬(1 ≤ k.toNumber ∧ k.toNumber < ofNat (a.textLength + 1)) →
      reported v t (letter (.constant k) (.constant a)) = .text "") ∧
    reported v t (firstLetters (.constant a) a.textLength) = .text a.toText := by
  have ha : a.textLength < 2 ^ 53 := by omega
  refine ⟨reported_length_joined h, fun k => reported_letter_joined h, fun k hfirst hlast => ?_, fun k houtside => ?_, ?_⟩
  · obtain ⟨i, hi, hfloor, hletter⟩ := letterOf_inside ha hfirst hlast
    exact ⟨i, hi, hfloor, by rw [reported_letter, hletter]⟩
  · rw [reported_letter, letterOf_outside k.toNumber_ne_nan ha houtside]
  · rw [reported_firstLetters ha le_rfl, Value.textLength, ← String.length_toList, List.take_length, String.ofList_toList]

/-- A position with a fraction, behind the two letters of the first text. -/
theorem letter_behind_seam :
    let v : View := ⟨⟨[], .fixed 0 0, .default⟩, 0⟩
    let t : Traces := ⟨Hub.empty, [], ⟨0⟩⟩
    let a : Value := .text "añ"
    let b : Value := .number 12
    a.textLength + b.textLength < 2 ^ 53 ∧
    reported v t (letter (.constant (.text "3.5")) (joined (.constant a) (.constant b))) = .text "1" ∧
    (1 ≤ Value.toNumber (.text "2.5") ∧ Value.toNumber (.text "2.5") < ofNat (a.textLength + 1)) ∧
    (∃ (i : Nat) (hi : i < a.toText.toList.length), (Value.toNumber (.text "2.5")).floor? = some ((i : ℤ) + 1) ∧
      reported v t (letter (.constant (.text "2.5")) (.constant a)) = .text (String.ofList [a.toText.toList[i]])) ∧
    ¬(1 ≤ Value.toNumber .empty ∧ Value.toNumber .empty < ofNat (a.textLength + 1)) ∧
    reported v t (letter (.constant .empty) (.constant a)) = .text "" := by
  intro v t a b
  have hlength : a.textLength + b.textLength < 2 ^ 53 := by decide +kernel
  have hinside : 1 ≤ Value.toNumber (.text "2.5") ∧ Value.toNumber (.text "2.5") < ofNat (a.textLength + 1) := by
    decide +kernel
  have houtside : ¬(1 ≤ Value.toNumber .empty ∧ Value.toNumber .empty < ofNat (a.textLength + 1)) := by decide +kernel
  obtain ⟨-, hseam, hletter, hnone, -⟩ := letters_index_text v t a b hlength
  refine ⟨hlength, ?_, hinside, hletter _ hinside.1 hinside.2, houtside, hnone _ houtside⟩
  rw [hseam, if_neg (by decide +kernel)]
  decide +kernel

end BlockScript
