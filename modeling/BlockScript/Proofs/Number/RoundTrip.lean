import BlockScript.Proofs.Number.Order
import BlockScript.Proofs.Number.Shortest
import Mathlib.Data.List.TakeWhile

/-!
Numbers through text and back. The text of a finite number is a numeral: digits with at most one point
among them, after an optional minus. No earlier rule of reading takes a numeral for something else, so it
is read as a decimal number, and the shortest digits are read as the number that they were written for.
Only the sign of a zero is lost.
-/
namespace BlockScript

/-! ### Digits -/

namespace Number

theorem toNat_of_isDigit {c : Char} (h : c.isDigit = true) : 48 ≤ c.toNat ∧ c.toNat ≤ 57 := Char.isDigit_iff_toNat.mp h

theorem digitValue?_of_isDigit {c : Char} (h : c.isDigit = true) : digitValue? 10 c = some (c.toNat - '0'.toNat) := by
  have hrange := toNat_of_isDigit h
  have hlt : c.toNat - '0'.toNat < 10 := show c.toNat - 48 < 10 by omega
  simp only [digitValue?, h, if_true, if_pos hlt]

theorem readDigits?_of_isDigit {cs : List Char} (hne : cs ≠ []) (h : ∀ c ∈ cs, c.isDigit = true) :
    readDigits? 10 cs = some (Nat.ofDigitChars 10 cs 0) := by
  have hvalues : cs.mapM (digitValue? 10) = some (cs.map fun c => c.toNat - '0'.toNat) := by
    clear hne
    induction cs with
    | nil => rfl
    | cons c cs ih =>
      rw [List.forall_mem_cons] at h
      simp [List.mapM_cons, digitValue?_of_isDigit h.1, ih h.2]
  simp [readDigits?, hne, hvalues, ofDigits, Nat.ofDigitChars_eq_foldl, List.foldl_map, Nat.mul_comm]

/-- The power of ten behind the digits of a number: none, or an exponent after its mark. -/
def powerOfTen? : List Char → Option Int
  | [] => some 0
  | c :: rest => if c = 'e' ∨ c = 'E' then readExponent? rest else none

section
variable {digits whole fraction rest : List Char}

theorem takeWhile_digits (h : ∀ c ∈ digits, c.isDigit = true) (hrest : ∀ c ∈ rest.head?, c.isDigit = false) :
    (digits ++ rest).takeWhile Char.isDigit = digits ∧ (digits ++ rest).dropWhile Char.isDigit = rest := by
  rw [List.takeWhile_append_of_pos h, List.dropWhile_append_of_pos h]
  cases rest with
  | nil => exact ⟨List.append_nil _, rfl⟩
  | cons c rest => simp [hrest c rfl]

/-- Digits without a point. -/
theorem readUnsigned?_whole (negative : Bool) (h : ∀ c ∈ digits, c.isDigit = true)
    (hrest : ∀ c ∈ rest.head?, c.isDigit = false ∧ c ≠ '.') :
    readUnsigned? negative (digits ++ rest) =
      (readDigits? 10 digits).bind fun n => (powerOfTen? rest).map fun e => ofDecimal negative n e := by
  obtain ⟨htake, hdrop⟩ := takeWhile_digits h fun c hc => (hrest c hc).1
  simp only [readUnsigned?, htake, hdrop]
  cases rest with
  | nil => cases h : readDigits? 10 digits <;> simp [h, powerOfTen?]
  | cons c rest =>
    have hpoint : ∀ tail, c :: rest = '.' :: tail → False := fun tail heq => (hrest c rfl).2 (List.cons.inj heq).1
    cases h : readDigits? 10 digits with
    | none => simp [h]
    | some n =>
      simp only [List.append_nil, h, Option.bind_some, powerOfTen?]
      split <;> simp

/-- Digits around a point are so many of the last place. -/
theorem readUnsigned?_point (negative : Bool) (hwhole : ∀ c ∈ whole, c.isDigit = true)
    (hfraction : ∀ c ∈ fraction, c.isDigit = true) (hrest : ∀ c ∈ rest.head?, c.isDigit = false) :
    readUnsigned? negative (whole ++ '.' :: (fraction ++ rest)) =
      (readDigits? 10 (whole ++ fraction)).bind fun n =>
        (powerOfTen? rest).map fun e => ofDecimal negative n (e - fraction.length) := by
  have hpoint : ∀ c ∈ ('.' :: (fraction ++ rest)).head?, c.isDigit = false := by simp
  obtain ⟨htake, hdrop⟩ := takeWhile_digits hwhole hpoint
  obtain ⟨hfractionTake, hfractionDrop⟩ := takeWhile_digits hfraction hrest
  simp only [readUnsigned?, htake, hdrop, hfractionTake, hfractionDrop]
  cases rest with
  | nil => cases readDigits? 10 (whole ++ fraction) <;> simp [powerOfTen?]
  | cons c rest =>
    cases readDigits? 10 (whole ++ fraction) with
    | none => rfl
    | some n =>
      simp only [Option.bind_some, powerOfTen?]
      split <;> simp

end

/-! ### Positional text -/

theorem isDigit_digitsOf (n : Nat) : ∀ c ∈ digitsOf n, c.isDigit = true := fun _ hc =>
  Nat.isDigit_of_mem_toDigits (by decide) (by decide) hc

theorem isDigit_zeros (k : Nat) : ∀ c ∈ List.replicate k '0', c.isDigit = true := by
  intro c hc
  rw [List.eq_of_mem_replicate hc]
  rfl

theorem ofDigitChars_zeros_digitsOf (k n : Nat) : Nat.ofDigitChars 10 (List.replicate k '0' ++ digitsOf n) 0 = n := by
  rw [Nat.ofDigitChars_append, Nat.ofDigitChars_replicate_zero, Nat.mul_zero, digitsOf, Nat.ofDigitChars_ten_toDigits]

theorem ofDigitChars_digitsOf_zeros (n k : Nat) :
    Nat.ofDigitChars 10 (digitsOf n ++ List.replicate k '0') 0 = n * tenPow k := by
  rw [Nat.ofDigitChars_append, digitsOf, Nat.ofDigitChars_ten_toDigits, Nat.ofDigitChars_replicate_zero, tenPow_eq,
    Nat.mul_comm]

/-- A positional text is digits, with a point before as many of them as there are places after it. -/
inductive Numeral : List Char → (digits places : Nat) → Prop where
  | whole {cs : List Char} (hne : cs ≠ []) (hcs : ∀ c ∈ cs, c.isDigit = true) :
    Numeral cs (Nat.ofDigitChars 10 cs 0) 0
  | point {whole fraction : List Char} (hne : whole ≠ []) (hwhole : ∀ c ∈ whole, c.isDigit = true)
    (hfraction : ∀ c ∈ fraction, c.isDigit = true) :
    Numeral (whole ++ '.' :: fraction) (Nat.ofDigitChars 10 (whole ++ fraction) 0) fraction.length

/-- A point may stand before the last of some digits. -/
theorem numeral_split {cs : List Char} {places : Nat} (hcs : ∀ c ∈ cs, c.isDigit = true) (hplaces : places < cs.length) :
    Numeral (cs.take (cs.length - places) ++ '.' :: cs.drop (cs.length - places)) (Nat.ofDigitChars 10 cs 0) places := by
  have hne : cs.take (cs.length - places) ≠ [] := by
    rw [← List.length_pos_iff, List.length_take]
    omega
  have hfraction : ∀ c ∈ cs.drop (cs.length - places), c.isDigit = true := fun c hc => hcs c (List.mem_of_mem_drop hc)
  have hpoint := Numeral.point hne (fun c hc => hcs c (List.mem_of_mem_take hc)) hfraction
  rwa [List.take_append_drop, List.length_drop, Nat.sub_sub_self (by omega)] at hpoint

theorem numeral_positional (digits : Nat) (place : Int) :
    Numeral (positional digits place) (digits * tenPow place.toNat) (-place).toNat := by
  unfold positional
  by_cases hplace : 0 ≤ place
  · rw [if_pos hplace, ← ofDigitChars_digitsOf_zeros, show (-place).toNat = 0 by omega]
    refine .whole (by simp [digitsOf]) fun c hc => ?_
    exact (List.mem_append.mp hc).elim (isDigit_digitsOf digits c) (isDigit_zeros _ c)
  · rw [if_neg hplace, show place.toNat = 0 by omega, tenPow_eq, Nat.pow_zero, Nat.mul_one]
    dsimp only
    -- Zeros before the digits keep their value and leave one before the point.
    generalize hzeros : (-place).toNat + 1 - (digitsOf digits).length = zeros
    have hdigits : ∀ c ∈ List.replicate zeros '0' ++ digitsOf digits, c.isDigit = true := fun c hc =>
      (List.mem_append.mp hc).elim (isDigit_zeros _ c) (isDigit_digitsOf digits c)
    have hlength : (-place).toNat < (List.replicate zeros '0' ++ digitsOf digits).length := by
      rw [List.length_append, List.length_replicate]
      omega
    have hnumeral := numeral_split hdigits hlength
    rwa [ofDigitChars_zeros_digitsOf] at hnumeral

namespace Numeral

variable {cs : List Char} {digits places : Nat}

/-- A numeral is read as the decimal number that it spells. -/
theorem readUnsigned? (h : Numeral cs digits places) (negative : Bool) :
    readUnsigned? negative cs = some (ofDecimal negative digits (-(places : Int))) := by
  cases h with
  | whole hne hcs =>
    have hnone : ∀ c ∈ ([] : List Char).head?, c.isDigit = false ∧ c ≠ '.' := nofun
    have hread := readUnsigned?_whole negative hcs hnone
    rw [List.append_nil, readDigits?_of_isDigit hne hcs] at hread
    exact hread
  | @point whole fraction hne hwhole hfraction =>
    have hnone : ∀ c ∈ ([] : List Char).head?, c.isDigit = false := nofun
    have hread := readUnsigned?_point negative hwhole hfraction hnone
    have hdigits : ∀ c ∈ whole ++ fraction, c.isDigit = true := fun c hc =>
      (List.mem_append.mp hc).elim (hwhole c) (hfraction c)
    rw [List.append_nil, readDigits?_of_isDigit (by simp [hne]) hdigits, Option.bind_some, powerOfTen?,
      Option.map_some, Int.zero_sub] at hread
    exact hread

/-- A numeral starts with a digit and has digits and points only. -/
theorem eq_cons (h : Numeral cs digits places) :
    ∃ c rest, cs = c :: rest ∧ c.isDigit = true ∧ ∀ x ∈ rest, x.isDigit = true ∨ x = '.' := by
  cases h with
  | whole hne hcs =>
    obtain ⟨c, rest, rfl⟩ := List.exists_cons_of_ne_nil hne
    rw [List.forall_mem_cons] at hcs
    exact ⟨c, rest, rfl, hcs.1, fun x hx => Or.inl (hcs.2 x hx)⟩
  | @point whole fraction hne hwhole hfraction =>
    obtain ⟨c, rest, rfl⟩ := List.exists_cons_of_ne_nil hne
    rw [List.forall_mem_cons] at hwhole
    refine ⟨c, rest ++ '.' :: fraction, rfl, hwhole.1, fun x hx => ?_⟩
    rcases List.mem_append.mp hx with hx | hx
    · exact Or.inl (hwhole.2 x hx)
    · rcases List.mem_cons.mp hx with rfl | hx
      · exact Or.inr rfl
      · exact Or.inl (hfraction x hx)

end Numeral
end Number

/-! ### Reading a numeral -/

open Number

/-- Digits, points and minus signs: what the texts of finite numbers consist of. -/
def isNumeralChar (c : Char) : Bool := c.isDigit || c == '.' || c == '-'

section
variable {c : Char}

theorem isNumeralChar_cases (h : isNumeralChar c = true) : c.isDigit = true ∨ c = '.' ∨ c = '-' := by
  simpa [isNumeralChar, or_assoc] using h

theorem isBlank_of_isNumeralChar (h : isNumeralChar c = true) : Text.isBlank c = false := by
  rcases isNumeralChar_cases h with h | rfl | rfl
  · have hrange := toNat_of_isDigit h
    simp [Text.isBlank]
    omega
  · rfl
  · rfl

theorem isForeignLetter_of_isNumeralChar (h : isNumeralChar c = true) : isForeignLetter c = false := by
  rcases isNumeralChar_cases h with h | rfl | rfl
  · have halpha : c.isAlpha = false := by
      have hrange := toNat_of_isDigit h
      delta Char.isAlpha Char.isUpper Char.isLower
      simp [UInt32.le_iff_toNat_le]
      omega
    simp [isForeignLetter, halpha]
  · rfl
  · rfl

end

theorem Text.trim_eq_self {cs : List Char} (h : ∀ c ∈ cs, isBlank c = false) : trim cs = cs := by
  have hdrop : ∀ l : List Char, (∀ c ∈ l, isBlank c = false) → l.dropWhile isBlank = l := by
    intro l hl
    cases l with
    | nil => rfl
    | cons c l => exact List.dropWhile_cons_of_neg (by simp [hl c])
  rw [trim, hdrop cs h, hdrop cs.reverse (by simpa using h), List.reverse_reverse]

theorem splitRadix?_eq_none {c : Char} {rest : List Char} (h : ∀ x ∈ rest, x.isDigit = true ∨ x = '.') :
    splitRadix? (c :: rest) = none := by
  unfold splitRadix?
  split <;> simp_all

theorem splitSign_of_isDigit {c : Char} (h : c.isDigit = true) (rest : List Char) :
    splitSign (c :: rest) = (false, c :: rest) := by
  unfold splitSign
  split <;> simp_all

/-- A numeral with an optional minus. -/
theorem Number.Numeral.isNumeralChar {cs : List Char} {digits places : Nat} (h : Numeral cs digits places)
    (negative : Bool) : ∀ x ∈ (if negative then ['-'] else []) ++ cs, isNumeralChar x = true := by
  obtain ⟨c, rest, rfl, hc, hrest⟩ := h.eq_cons
  intro x hx
  rcases List.mem_append.mp hx with hx | hx
  · cases negative <;> simp_all [BlockScript.isNumeralChar]
  · rcases List.mem_cons.mp hx with rfl | hx
    · simp [BlockScript.isNumeralChar, hc]
    · simpa [BlockScript.isNumeralChar] using Or.inl (hrest x hx)

/-- None of the other rules of reading applies to a numeral with an optional minus. -/
theorem readTrimmed?_numeral {cs : List Char} {digits places : Nat} (h : Numeral cs digits places) (negative : Bool) :
    readTrimmed? ((if negative then ['-'] else []) ++ cs) = some (ofDecimal negative digits (-(places : Int))) := by
  have hread := h.readUnsigned? negative
  have hchars := h.isNumeralChar negative
  obtain ⟨c, rest, rfl, hc, hrest⟩ := h.eq_cons
  have hsign : splitSign ((if negative then ['-'] else []) ++ c :: rest) = (negative, c :: rest) := by
    cases negative with
    | true => rfl
    | false => exact splitSign_of_isDigit hc rest
  have hletters : ((if negative then ['-'] else []) ++ c :: rest).any isForeignLetter = false := by
    rw [List.any_eq_false]
    intro x hx
    rw [isForeignLetter_of_isNumeralChar (hchars x hx)]
    decide
  have hname : c :: rest ≠ "Infinity".toList := by
    rintro heq
    simp at heq
    simp [heq.1] at hc
  simp only [readTrimmed?, hsign, if_neg hname, splitRadix?_eq_none hrest, hletters, readDecimal?]
  simpa using hread

/-! ### The text of a number -/

theorem readNumber?_numeral {cs : List Char} {digits places : Nat} (h : Numeral cs digits places) (negative : Bool) :
    readNumber? (String.ofList ((if negative then ['-'] else []) ++ cs)) =
      some (ofDecimal negative digits (-(places : Int))) := by
  rw [readNumber?, String.toList_ofList, Text.trim_eq_self fun c hc => isBlank_of_isNumeralChar (h.isNumeralChar negative c hc)]
  exact readTrimmed?_numeral h negative

/-- The text of a number is read as that number, but for the sign of a zero. -/
theorem readNumber?_text {x : Number} (hx : x ≠ .nan) :
    readNumber? x.text = some x ∨ x = .zero true ∧ readNumber? x.text = some (.zero false) := by
  cases x with
  | nan => exact absurd rfl hx
  | infinity negative => cases negative <;> exact Or.inl rfl
  | finite negative m fits =>
    by_cases hm : m = 0
    · subst hm
      have htext : (Number.finite negative 0 fits).text = "0" := by simp [text, spell, valueSpelling]
      have hread : readNumber? "0" = some (.zero false) := by decide +kernel
      rw [htext, hread]
      cases negative with
      | false => exact Or.inl rfl
      | true => exact Or.inr ⟨rfl, rfl⟩
    · left
      have htext : (Number.finite negative m fits).text =
          String.ofList ((if negative then ['-'] else []) ++ positional (shortest m).1 (shortest m).2) := by
        simp [text, spell, hm]
      have pos := Nat.pos_of_ne_zero hm
      rw [htext, readNumber?_numeral (numeral_positional _ _) negative,
        ofDecimal_of_covers fits pos negative (covers_of_holds (shortest_holds fits pos))]

theorem Number.exists_eqv_read {x : Number} (hx : x ≠ .nan) :
    ∃ y, readNumber? x.text = some y ∧ y.eqv x = true ∧ (y = x ∨ x = .zero true ∧ y = .zero false) := by
  rcases readNumber?_text hx with hread | ⟨rfl, hread⟩
  · exact ⟨x, hread, eqv_refl hx, Or.inl rfl⟩
  · exact ⟨.zero false, hread, rfl, Or.inr ⟨rfl, rfl⟩⟩

/-- A value that reads as a number reads as an equal one when it is taken as text. -/
theorem Value.exists_eqv_read {v : Value} {n : Number} (h : v.number? = some n) :
    ∃ y, readNumber? v.toText = some y ∧ y.eqv n = true := by
  cases v with
  | number x =>
    have hx : x ≠ .nan := by
      rintro rfl
      cases h
    obtain rfl : x = n := by cases x <;> simp_all [number?]
    obtain ⟨y, hread, heqv, -⟩ := Number.exists_eqv_read hx
    exact ⟨y, hread, heqv⟩
  | text s => exact ⟨n, h, eqv_refl fun hn => Value.number?_ne_nan (.text s) (hn ▸ h)⟩
  | boolean b => cases h
  | empty => cases h

/-- Numbers survive the trip through text. The text of a number other than `nan` is read as an equal number, which is
the same one but for a negative zero, read as the positive one; and a value that reads as a number reads as an equal
one when it is taken as text. -/
theorem numbers_survive_text :
    (∀ x : Number, x ≠ .nan →
      ∃ y, readNumber? x.text = some y ∧ y.eqv x = true ∧ (y = x ∨ x = .zero true ∧ y = .zero false)) ∧
    ∀ (v : Value) (n : Number), v.number? = some n →
      ∃ y, (Value.text v.toText).number? = some y ∧ y.eqv n = true :=
  ⟨fun _ => Number.exists_eqv_read, fun _ _ => Value.exists_eqv_read⟩

/-- The least negative number, and a number in base 16 between blanks. -/
theorem least_and_radix_survive_text :
    (∃ y, readNumber? (Number.ofQuotient true 1 1).text = some y ∧ y.eqv (Number.ofQuotient true 1 1) = true ∧
      (y = Number.ofQuotient true 1 1 ∨ Number.ofQuotient true 1 1 = .zero true ∧ y = .zero false)) ∧
    (Value.text " -0x1F ").number? = some (-31) ∧
    ∃ y, (Value.text (Value.text " -0x1F ").toText).number? = some y ∧ y.eqv (-31) = true := by
  have hradix : (Value.text " -0x1F ").number? = some (-31) := by decide +kernel
  exact ⟨numbers_survive_text.1 _ (ofQuotient_ne_nan true 1 1), hradix, numbers_survive_text.2 _ _ hradix⟩

end BlockScript
