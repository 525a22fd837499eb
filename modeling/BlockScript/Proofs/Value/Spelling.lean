import BlockScript.Proofs.Number.Nearest
import BlockScript.Proofs.Number.RoundTrip

/-!
Which texts spell numbers. Apart from blanks at the ends these are `Infinity`, digits after the mark of a base and decimal
numbers, each with an optional sign. Every one of them is read as the double nearest to what it denotes. Beside them
digits after a mark are read with a sign of their own, behind the one before the mark, and nothing else is read.
-/
namespace BlockScript
open Number

/-! ### Digits -/

/-- A decimal digit, or a letter in either case that stands for a greater one. -/
def IsDigit (base : Nat) (c : Char) (d : Nat) : Prop :=
  d < base ∧ (d < 10 ∧ c.toNat = '0'.toNat + d ∨
    10 ≤ d ∧ (c.toNat + 10 = 'a'.toNat + d ∨ c.toNat + 10 = 'A'.toNat + d))

/-- One or more digits and the number that they stand for. -/
inductive Digits (base : Nat) : List Char → Nat → Prop
  | single {c : Char} {d : Nat} : IsDigit base c d → Digits base [c] d
  | concat {cs : List Char} {c : Char} {n d : Nat} : Digits base cs n → IsDigit base c d →
    Digits base (cs ++ [c]) (n * base + d)

section
variable {base n : Nat} {cs : List Char} {c : Char}

theorem char_le_iff {a b : Char} : a ≤ b ↔ a.toNat ≤ b.toNat := Iff.rfl

theorem digitValue?_eq_some_iff (hbase : base ≤ 36) {d : Nat} : digitValue? base c = some d ↔ IsDigit base c d := by
  unfold digitValue? IsDigit
  simp only [Char.isDigit_iff_toNat, Bool.and_eq_true, decide_eq_true_eq, char_le_iff, Char.reduceToNat]
  generalize c.toNat = code
  split_ifs <;> simp only [Option.some.injEq, false_iff] <;> omega

theorem readDigits?_single : readDigits? base [c] = digitValue? base c := by
  cases h : digitValue? base c <;> simp [readDigits?, h, ofDigits]

theorem readDigits?_concat (hne : cs ≠ []) :
    readDigits? base (cs ++ [c]) =
      (readDigits? base cs).bind fun n => (digitValue? base c).map fun d => n * base + d := by
  unfold readDigits?
  rw [List.isEmpty_eq_false_iff.mpr hne, List.isEmpty_eq_false_iff.mpr (by simp)]
  cases h : cs.mapM (digitValue? base) <;> cases h' : digitValue? base c <;> simp [h, h', ofDigits]

theorem readDigits?_eq_some_iff (hbase : base ≤ 36) : readDigits? base cs = some n ↔ Digits base cs n := by
  constructor
  · intro h
    induction cs using List.reverseRecOn generalizing n with
    | nil => cases h
    | append_singleton cs c ih =>
      by_cases hne : cs = []
      · subst hne
        rw [List.nil_append, readDigits?_single, digitValue?_eq_some_iff hbase] at h
        exact .single h
      · rw [readDigits?_concat hne, Option.bind_eq_some_iff] at h
        obtain ⟨m, hm, h⟩ := h
        obtain ⟨d, hd, rfl⟩ := Option.map_eq_some_iff.mp h
        exact .concat (ih hm) ((digitValue?_eq_some_iff hbase).mp hd)
  · intro h
    induction h with
    | single hd => rw [readDigits?_single, (digitValue?_eq_some_iff hbase).mpr hd]
    | concat hn hd ih =>
      rw [readDigits?_concat (by cases hn <;> simp), ih, Option.bind_some, (digitValue?_eq_some_iff hbase).mpr hd,
        Option.map_some]

theorem Digits.mem (h : Digits base cs n) (hc : c ∈ cs) : ∃ d, IsDigit base c d := by
  induction h with
  | single hd =>
    obtain rfl := List.mem_singleton.mp hc
    exact ⟨_, hd⟩
  | concat _ hd ih =>
    rcases List.mem_append.mp hc with hc | hc
    · exact ih hc
    · obtain rfl := List.mem_singleton.mp hc
      exact ⟨_, hd⟩

theorem Digits.ne_nil (h : Digits base cs n) : cs ≠ [] := by
  cases h <;> simp

theorem isDigit_ten_iff : (∃ d, IsDigit 10 c d) ↔ c.isDigit = true := by
  simp only [IsDigit, Char.isDigit_iff_toNat, Char.reduceToNat]
  constructor
  · rintro ⟨d, hd⟩
    omega
  · intro h
    exact ⟨c.toNat - 48, by omega⟩

theorem Digits.isDigit (h : Digits 10 cs n) : ∀ c ∈ cs, c.isDigit = true := fun _ hc => isDigit_ten_iff.mp (h.mem hc)

end

/-! ### Signs -/

/-- An optional sign; `true` for a minus. -/
inductive Sign : Bool → List Char → Prop
  | absent : Sign false []
  | plus : Sign false ['+']
  | minus : Sign true ['-']

/-- A sign of a number, as the reader tests for it. -/
def isSign (c : Char) : Bool := c == '+' || c == '-'

section
variable {negative : Bool} {sign rest cs : List Char}

theorem sign_splitSign (cs : List Char) : ∃ sign, Sign (splitSign cs).1 sign ∧ cs = sign ++ (splitSign cs).2 := by
  unfold splitSign
  split
  · exact ⟨_, .minus, rfl⟩
  · exact ⟨_, .plus, rfl⟩
  · exact ⟨_, .absent, rfl⟩

theorem splitSign_append (h : Sign negative sign) (hrest : ∀ c ∈ rest.head?, isSign c = false) :
    splitSign (sign ++ rest) = (negative, rest) := by
  cases h with
  | absent =>
    cases rest with
    | nil => rfl
    | cons c rest =>
      have hc := hrest c rfl
      rw [List.nil_append]
      unfold splitSign
      split
      · rename_i heq
        obtain rfl := (List.cons.inj heq).1
        cases hc
      · rename_i heq
        obtain rfl := (List.cons.inj heq).1
        cases hc
      · rfl
  | plus => rfl
  | minus => rfl

end

/-! ### The grammar -/

/-- The marks of the bases other than ten. -/
def radixMarks : List (List Char × Nat) :=
  [(['0', 'x'], 16), (['0', 'X'], 16), (['0', 'b'], 2), (['0', 'B'], 2), (['0', 'o'], 8), (['0', 'O'], 8)]

/-- Decimal digits with an optional point, the number of all digits and how many stand behind the point. -/
inductive Mantissa : List Char → (digits places : Nat) → Prop
  | whole {cs : List Char} {digits : Nat} : Digits 10 cs digits → Mantissa cs digits 0
  | point {whole fraction : List Char} {digits : Nat} : Digits 10 (whole ++ fraction) digits →
    Mantissa (whole ++ '.' :: fraction) digits fraction.length

/-- An optional power of ten. -/
inductive Exponent : List Char → ℤ → Prop
  | absent : Exponent [] 0
  | present {c : Char} {negative : Bool} {sign ds : List Char} {n : Nat} : c = 'e' ∨ c = 'E' → Sign negative sign →
    Digits 10 ds n → Exponent (c :: (sign ++ ds)) (signed negative n)

/-- A text that spells a number, with the sign and the magnitude that it denotes. -/
inductive SpellsNumber : List Char → (negative : Bool) → WithTop ℚ → Prop
  | infinity {negative : Bool} {sign : List Char} : Sign negative sign → SpellsNumber (sign ++ "Infinity".toList) negative ⊤
  | radix {negative : Bool} {sign mark ds : List Char} {base n : Nat} : Sign negative sign →
    (mark, base) ∈ radixMarks → Digits base ds n → n < 2 ^ 63 → SpellsNumber (sign ++ (mark ++ ds)) negative (n : ℚ)
  | decimal {negative : Bool} {sign ms es : List Char} {digits places : Nat} {exponent : ℤ} : Sign negative sign →
    Mantissa ms digits places → Exponent es exponent →
    SpellsNumber (sign ++ (ms ++ es)) negative (digits * 10 ^ (exponent - places) : ℚ)

/-- Digits after a mark that have a sign of their own. Both signs count, but the second one does not make zero negative. -/
inductive SpellsTwiceSigned : List Char → (negative : Bool) → WithTop ℚ → Prop
  | radix {negative second : Bool} {sign mark sign' ds : List Char} {base n : Nat} : Sign negative sign →
    (mark, base) ∈ radixMarks → Sign second sign' → sign' ≠ [] → Digits base ds n →
    (if second then n ≤ 2 ^ 63 else n < 2 ^ 63) →
    SpellsTwiceSigned (sign ++ (mark ++ (sign' ++ ds))) (negative ^^ (second && n != 0)) (n : ℚ)

/-! ### Signs before digits -/

section
variable {base n : Nat} {negative : Bool} {cs ds : List Char}

theorem IsDigit.isSign {c : Char} {d : Nat} (h : IsDigit base c d) : isSign c = false := by
  simp only [IsDigit, Char.reduceToNat] at h
  rw [BlockScript.isSign, Bool.or_eq_false_iff, beq_eq_false_iff_ne, beq_eq_false_iff_ne]
  constructor <;> rintro rfl <;> simp only [Char.reduceToNat] at h <;> omega

theorem Digits.head_isSign (h : Digits base ds n) : ∀ c ∈ ds.head?, isSign c = false := by
  intro c hc
  obtain ⟨d, hd⟩ := h.mem (List.mem_of_mem_head? hc)
  exact hd.isSign

/-- Digits behind an optional sign. -/
theorem splitSign_digits_iff (hbase : base ≤ 36) :
    (splitSign cs).1 = negative ∧ readDigits? base (splitSign cs).2 = some n ↔
      ∃ sign ds, Sign negative sign ∧ cs = sign ++ ds ∧ Digits base ds n := by
  rw [readDigits?_eq_some_iff hbase]
  constructor
  · rintro ⟨rfl, hn⟩
    obtain ⟨sign, hsign, hcs⟩ := sign_splitSign cs
    exact ⟨sign, _, hsign, hcs, hn⟩
  · rintro ⟨sign, ds, hsign, rfl, hn⟩
    rw [splitSign_append hsign hn.head_isSign]
    exact ⟨rfl, hn⟩

theorem readExponent?_eq_some_iff {e : ℤ} :
    readExponent? cs = some e ↔
      ∃ negative sign ds n, Sign negative sign ∧ cs = sign ++ ds ∧ Digits 10 ds n ∧ signed negative n = e := by
  have hread : readExponent? cs = (readDigits? 10 (splitSign cs).2).map fun n => signed (splitSign cs).1 n := by
    simp only [readExponent?]
    cases readDigits? 10 (splitSign cs).2 <;> rfl
  rw [hread, Option.map_eq_some_iff]
  constructor
  · rintro ⟨n, hn, rfl⟩
    obtain ⟨sign, ds, hsign, hcs, hn⟩ := (splitSign_digits_iff (by decide)).mp ⟨rfl, hn⟩
    exact ⟨_, sign, ds, n, hsign, hcs, hn, rfl⟩
  · rintro ⟨negative, sign, ds, n, hsign, hcs, hn, rfl⟩
    obtain ⟨rfl, hn⟩ := (splitSign_digits_iff (by decide)).mpr ⟨sign, ds, hsign, hcs, hn⟩
    exact ⟨n, hn, rfl⟩

theorem signed_within_iff {bound : Nat} (hbound : 0 < bound) :
    -(bound : ℤ) ≤ signed negative n ∧ signed negative n < bound ↔ if negative then n ≤ bound else n < bound := by
  cases negative <;> simp only [signed, Bool.false_eq_true, if_true, if_false] <;> omega

theorem readInt64?_eq_some_iff (hbase : base ≤ 36) {v : ℤ} :
    readInt64? base cs = some v ↔ ∃ negative sign ds n, Sign negative sign ∧ cs = sign ++ ds ∧ Digits base ds n ∧
      (if negative then n ≤ 2 ^ 63 else n < 2 ^ 63) ∧ signed negative n = v := by
  have hread : readInt64? base cs = (readDigits? base (splitSign cs).2).bind fun n =>
      if -(twoPow 63 : ℤ) ≤ signed (splitSign cs).1 n ∧ signed (splitSign cs).1 n < twoPow 63
      then some (signed (splitSign cs).1 n) else none := by
    simp only [readInt64?]
    cases readDigits? base (splitSign cs).2 <;> rfl
  have hbound : 0 < 2 ^ 63 := Nat.two_pow_pos 63
  rw [hread, Option.bind_eq_some_iff, twoPow_eq]
  constructor
  · rintro ⟨n, hn, h⟩
    obtain ⟨hrange, h⟩ := Option.ite_none_right_eq_some.mp h
    obtain ⟨sign, ds, hsign, hcs, hn⟩ := (splitSign_digits_iff hbase).mp ⟨rfl, hn⟩
    exact ⟨_, sign, ds, n, hsign, hcs, hn, (signed_within_iff hbound).mp hrange, Option.some.inj h⟩
  · rintro ⟨negative, sign, ds, n, hsign, hcs, hn, hrange, rfl⟩
    obtain ⟨rfl, hn⟩ := (splitSign_digits_iff hbase).mpr ⟨sign, ds, hsign, hcs, hn⟩
    exact ⟨n, hn, if_pos ((signed_within_iff hbound).mpr hrange)⟩

end

/-! ### Decimal numbers -/

section
variable {negative : Bool} {cs ms es : List Char} {digits places : Nat} {exponent : ℤ}

theorem powerOfTen?_eq_some_iff : powerOfTen? es = some exponent ↔ Exponent es exponent := by
  constructor
  · intro h
    cases es with
    | nil =>
      obtain rfl := Option.some.inj h
      exact .absent
    | cons c es =>
      rw [powerOfTen?] at h
      split at h
      · rename_i hmark
        obtain ⟨negative, sign, ds, n, hsign, rfl, hn, rfl⟩ := readExponent?_eq_some_iff.mp h
        exact .present hmark hsign hn
      · cases h
  · intro h
    cases h with
    | absent => rfl
    | present hmark hsign hn =>
      rw [powerOfTen?, if_pos hmark, readExponent?_eq_some_iff]
      exact ⟨_, _, _, _, hsign, rfl, hn, rfl⟩

theorem Exponent.head (h : Exponent es exponent) : ∀ c ∈ es.head?, c.isDigit = false ∧ c ≠ '.' := by
  cases h with
  | absent => nofun
  | present hmark =>
    intro c hc
    obtain rfl := Option.some.inj hc
    rcases hmark with rfl | rfl <;> decide

theorem exists_leading_digits (cs : List Char) :
    ∃ ds rest, cs = ds ++ rest ∧ (∀ c ∈ ds, c.isDigit = true) ∧ ∀ c ∈ rest.head?, c.isDigit = false := by
  refine ⟨cs.takeWhile Char.isDigit, cs.dropWhile Char.isDigit, List.takeWhile_append_dropWhile.symm,
    fun c hc => List.mem_takeWhile_imp hc, fun c hc => ?_⟩
  have hhead := List.head?_dropWhile_not Char.isDigit cs
  rwa [Option.mem_def.mp hc] at hhead

theorem readUnsigned?_eq_some_iff {x : Number} :
    readUnsigned? negative cs = some x ↔ ∃ ms es digits places exponent, cs = ms ++ es ∧ Mantissa ms digits places ∧
      Exponent es exponent ∧ ofDecimal negative digits (exponent - places) = x := by
  constructor
  · intro h
    obtain ⟨ds, rest, rfl, hds, hrest⟩ := exists_leading_digits cs
    by_cases hpoint : '.' ∈ rest.head?
    · obtain ⟨tail, rfl⟩ := List.head?_eq_some_iff.mp hpoint
      obtain ⟨fraction, rest, rfl, hfraction, hrest⟩ := exists_leading_digits tail
      rw [readUnsigned?_point negative hds hfraction hrest] at h
      obtain ⟨n, hn, h⟩ := Option.bind_eq_some_iff.mp h
      obtain ⟨e, he, rfl⟩ := Option.map_eq_some_iff.mp h
      exact ⟨_, rest, n, _, e, by simp, .point ((readDigits?_eq_some_iff (by decide)).mp hn),
        powerOfTen?_eq_some_iff.mp he, rfl⟩
    · have hrest : ∀ c ∈ rest.head?, c.isDigit = false ∧ c ≠ '.' := fun c hc =>
        ⟨hrest c hc, fun heq => hpoint (heq ▸ hc)⟩
      rw [readUnsigned?_whole negative hds hrest] at h
      obtain ⟨n, hn, h⟩ := Option.bind_eq_some_iff.mp h
      obtain ⟨e, he, rfl⟩ := Option.map_eq_some_iff.mp h
      exact ⟨ds, rest, n, 0, e, rfl, .whole ((readDigits?_eq_some_iff (by decide)).mp hn),
        powerOfTen?_eq_some_iff.mp he, by simp⟩
  · rintro ⟨ms, es, digits, places, exponent, rfl, hms, hes, rfl⟩
    have hpower := powerOfTen?_eq_some_iff.mpr hes
    cases hms with
    | whole hdigits =>
      rw [readUnsigned?_whole negative hdigits.isDigit hes.head, (readDigits?_eq_some_iff (by decide)).mpr hdigits, hpower]
      simp
    | @point whole fraction _ hdigits =>
      have hwhole : ∀ c ∈ whole, c.isDigit = true := fun c hc => hdigits.isDigit c (List.mem_append_left _ hc)
      have hfraction : ∀ c ∈ fraction, c.isDigit = true := fun c hc => hdigits.isDigit c (List.mem_append_right _ hc)
      rw [List.append_assoc, List.cons_append, readUnsigned?_point negative hwhole hfraction fun c hc => (hes.head c hc).1,
        (readDigits?_eq_some_iff (by decide)).mpr hdigits, hpower]
      rfl

end

/-! ### Foreign letters -/

theorem isForeignLetter_of_isSign {c : Char} (h : isSign c = true) : isForeignLetter c = false := by
  rw [isSign, Bool.or_eq_true, beq_iff_eq, beq_iff_eq] at h
  rcases h with rfl | rfl <;> rfl

theorem isNumeralChar_of_isDigit {c : Char} (h : c.isDigit = true) : isNumeralChar c = true := by
  rw [isNumeralChar, h, Bool.true_or, Bool.true_or]

section
variable {n digits places : Nat} {negative : Bool} {exponent : ℤ} {ms es sign : List Char}

theorem Sign.isSign (h : Sign negative sign) : ∀ c ∈ sign, isSign c = true := by
  cases h <;> simp [BlockScript.isSign]

theorem Sign.any_isForeignLetter (h : Sign negative sign) : sign.any isForeignLetter = false := by
  cases h <;> rfl

/-- A mantissa has digits, at least one, and points. -/
theorem Mantissa.chars (h : Mantissa ms digits places) :
    (∀ c ∈ ms, c.isDigit = true ∨ c = '.') ∧ ∃ c ∈ ms, c.isDigit = true := by
  cases h with
  | whole hds =>
    obtain ⟨c, hc⟩ := List.exists_mem_of_ne_nil _ hds.ne_nil
    exact ⟨fun c hc => Or.inl (hds.isDigit c hc), c, hc, hds.isDigit c hc⟩
  | @point whole fraction _ hds =>
    obtain ⟨c, hc⟩ := List.exists_mem_of_ne_nil _ hds.ne_nil
    have hmem {x : Char} : x ∈ whole ++ '.' :: fraction ↔ x ∈ whole ++ fraction ∨ x = '.' := by
      simp only [List.mem_append, List.mem_cons]
      tauto
    exact ⟨fun x hx => (hmem.mp hx).imp_left (hds.isDigit x), c, hmem.mpr (Or.inl hc), hds.isDigit c hc⟩

theorem Exponent.isForeignLetter (h : Exponent es exponent) : ∀ c ∈ es, isForeignLetter c = false := by
  cases h with
  | absent => nofun
  | present hmark hsign hds =>
    intro c hc
    rcases List.mem_cons.mp hc with rfl | hc
    · rcases hmark with rfl | rfl <;> rfl
    · rcases List.mem_append.mp hc with hc | hc
      · exact isForeignLetter_of_isSign (hsign.isSign c hc)
      · exact isForeignLetter_of_isNumeralChar (isNumeralChar_of_isDigit (hds.isDigit c hc))

theorem Mantissa.isForeignLetter (h : Mantissa ms digits places) : ∀ c ∈ ms, isForeignLetter c = false := by
  intro c hc
  rcases h.chars.1 c hc with hc | rfl
  · exact isForeignLetter_of_isNumeralChar (isNumeralChar_of_isDigit hc)
  · rfl

theorem any_isForeignLetter_decimal (hms : Mantissa ms digits places) (hes : Exponent es exponent) :
    (ms ++ es).any isForeignLetter = false := by
  rw [List.any_eq_false]
  intro c hc
  rw [(List.mem_append.mp hc).elim (hms.isForeignLetter c) (hes.isForeignLetter c)]
  exact Bool.false_ne_true

/-- A decimal number does not start with a second sign. -/
theorem Mantissa.head_isSign (h : Mantissa ms digits places) (es : List Char) : ∀ c ∈ (ms ++ es).head?, isSign c = false := by
  intro c hc
  obtain ⟨hchars, d, hd, -⟩ := h.chars
  rw [List.head?_append_of_ne_nil _ (List.ne_nil_of_mem hd)] at hc
  rcases hchars c (List.mem_of_mem_head? hc) with hc | rfl
  · obtain ⟨d, hd⟩ := isDigit_ten_iff.mpr hc
    exact hd.isSign
  · rfl

end

/-! ### Trimmed texts -/

section
variable {base n : Nat} {negative second : Bool} {cs mark ds rest : List Char} {q : WithTop ℚ}

theorem splitRadix?_eq_some_iff :
    splitRadix? cs = some (base, ds) ↔ ∃ mark, (mark, base) ∈ radixMarks ∧ cs = mark ++ ds := by
  constructor
  · intro h
    unfold splitRadix? at h
    split at h <;> cases h
    all_goals
      refine ⟨[_, _], ?_, rfl⟩
      simp [radixMarks]
  · rintro ⟨mark, hmark, rfl⟩
    simp only [radixMarks, List.mem_cons, Prod.mk.injEq, List.not_mem_nil, or_false] at hmark
    rcases hmark with ⟨rfl, rfl⟩ | ⟨rfl, rfl⟩ | ⟨rfl, rfl⟩ | ⟨rfl, rfl⟩ | ⟨rfl, rfl⟩ | ⟨rfl, rfl⟩ <;> rfl

/-- A mark starts with a zero and ends with a letter that no decimal number has. -/
theorem mark_of_mem (h : (mark, base) ∈ radixMarks) :
    base ≤ 36 ∧ mark.head? = some '0' ∧ mark.any isForeignLetter = true := by
  have hall : ∀ entry ∈ radixMarks,
      entry.2 ≤ 36 ∧ entry.1.head? = some '0' ∧ entry.1.any isForeignLetter = true := by decide
  exact hall _ h

theorem any_isForeignLetter_mark (h : (mark, base) ∈ radixMarks) (rest : List Char) :
    (mark ++ rest).any isForeignLetter = true := by
  rw [List.any_append, (mark_of_mem h).2.2, Bool.true_or]

theorem head?_mark_append (h : (mark, base) ∈ radixMarks) (rest : List Char) : (mark ++ rest).head? = some '0' := by
  rw [List.head?_append, (mark_of_mem h).2.1, Option.some_or]

theorem head_isSign_mark (h : (mark, base) ∈ radixMarks) (rest : List Char) : ∀ c ∈ (mark ++ rest).head?, isSign c = false := by
  intro c hc
  rw [head?_mark_append h] at hc
  obtain rfl := Option.some.inj hc
  rfl

theorem head_isSign_infinity : ∀ c ∈ "Infinity".toList.head?, isSign c = false := by
  intro c hc
  obtain rfl := Option.some.inj hc
  rfl

theorem mark_append_ne_infinity (h : (mark, base) ∈ radixMarks) : mark ++ rest ≠ "Infinity".toList := by
  intro heq
  have hhead := head?_mark_append h rest
  rw [heq] at hhead
  cases hhead

/-- Both signs of digits after a mark count, but the second one does not make zero negative. -/
theorem isNearest_radix (negative second : Bool) (n : Nat) :
    IsNearest (negative ^^ (second && n != 0)) (n : ℚ)
      (if negative then -ofInt (signed second n) else ofInt (signed second n)) := by
  have hnearest := isNearest_ofInt (signed second n)
  have hmagnitude : (signed second n).natAbs = n := by cases second <;> simp [signed]
  have hsign : decide (signed second n < 0) = (second && n != 0) := by
    rw [Bool.eq_iff_iff]
    cases second <;> simp [signed, Nat.pos_iff_ne_zero]
  rw [hmagnitude, hsign] at hnearest
  cases negative with
  | true => simpa using hnearest.neg
  | false => simpa using hnearest

/-- Digits after a mark, behind an optional sign of their own. -/
theorem exists_read_radix {sign sign' : List Char} {n : Nat} (hsign : Sign negative sign)
    (hmark : (mark, base) ∈ radixMarks) (hsign' : Sign second sign') (hds : Digits base ds n)
    (hn : if second then n ≤ 2 ^ 63 else n < 2 ^ 63) :
    ∃ x, readTrimmed? (sign ++ (mark ++ (sign' ++ ds))) = some x ∧
      IsNearest (negative ^^ (second && n != 0)) (n : ℚ) x := by
  have hradix : splitRadix? (mark ++ (sign' ++ ds)) = some (base, sign' ++ ds) :=
    splitRadix?_eq_some_iff.mpr ⟨mark, hmark, rfl⟩
  have hv : readInt64? base (sign' ++ ds) = some (signed second n) :=
    (readInt64?_eq_some_iff (mark_of_mem hmark).1).mpr ⟨second, sign', ds, n, hsign', rfl, hds, hn, rfl⟩
  rw [readTrimmed?, splitSign_append hsign (head_isSign_mark hmark _)]
  simp only [if_neg (mark_append_ne_infinity hmark), hradix, hv, Option.map_some]
  exact ⟨_, rfl, isNearest_radix negative second n⟩

theorem SpellsNumber.exists_read (h : SpellsNumber cs negative q) : ∃ x, readTrimmed? cs = some x ∧ IsNearest negative q x := by
  cases h with
  | infinity hsign =>
    rw [readTrimmed?, splitSign_append hsign head_isSign_infinity]
    exact ⟨_, if_pos rfl, .infinity le_top⟩
  | radix hsign hmark hds hn =>
    have hread := exists_read_radix hsign hmark .absent hds hn
    rwa [Bool.false_and, Bool.xor_false] at hread
  | @decimal _ sign ms es digits places exponent hsign hms hes =>
    have hsplit := splitSign_append hsign (hms.head_isSign es)
    have hletters := any_isForeignLetter_decimal hms hes
    have hany : (sign ++ (ms ++ es)).any isForeignLetter = false := by
      rw [List.any_append, hsign.any_isForeignLetter, hletters, Bool.false_or]
    have hname : ms ++ es ≠ "Infinity".toList := by
      intro heq
      rw [heq] at hletters
      cases hletters
    have hradix : splitRadix? (ms ++ es) = none := by
      rw [Option.eq_none_iff_forall_ne_some]
      rintro ⟨base, ds⟩ h
      obtain ⟨mark, hmark, heq⟩ := splitRadix?_eq_some_iff.mp h
      rw [heq, any_isForeignLetter_mark hmark] at hletters
      cases hletters
    have hdecimal : readUnsigned? negative (ms ++ es) = some (ofDecimal negative digits (exponent - places)) :=
      readUnsigned?_eq_some_iff.mpr ⟨ms, es, digits, places, exponent, rfl, hms, hes, rfl⟩
    refine ⟨_, ?_, isNearest_ofDecimal negative digits (exponent - places)⟩
    rw [readTrimmed?, hsplit]
    simp only [if_neg hname, hradix, hany, readDecimal?, hsplit]
    exact hdecimal

theorem SpellsTwiceSigned.exists_read (h : SpellsTwiceSigned cs negative q) :
    ∃ x, readTrimmed? cs = some x ∧ IsNearest negative q x := by
  cases h with
  | radix hsign hmark hsign' _ hds hn => exact exists_read_radix hsign hmark hsign' hds hn

/-- What is read is spelled. -/
theorem exists_spells {x : Number} (h : readTrimmed? cs = some x) :
    ∃ negative q, (SpellsNumber cs negative q ∨ SpellsTwiceSigned cs negative q) ∧ IsNearest negative q x := by
  obtain ⟨sign, hsign, hcs⟩ := sign_splitSign cs
  generalize hnegative : (splitSign cs).1 = negative at hsign
  generalize hunsigned : (splitSign cs).2 = unsigned at hcs
  simp only [readTrimmed?, hnegative, hunsigned] at h
  split at h
  · rename_i hname
    obtain rfl := Option.some.inj h
    exact ⟨negative, ⊤, Or.inl (hcs ▸ hname ▸ .infinity hsign), .infinity le_top⟩
  split at h
  · rename_i base rest hradix
    obtain ⟨mark, hmark, rfl⟩ := splitRadix?_eq_some_iff.mp hradix
    obtain ⟨v, hv, rfl⟩ := Option.map_eq_some_iff.mp h
    obtain ⟨second, sign', ds, n, hsign', rfl, hds, hn, rfl⟩ := (readInt64?_eq_some_iff (mark_of_mem hmark).1).mp hv
    refine ⟨_, _, ?_, isNearest_radix negative second n⟩
    by_cases hne : sign' = []
    · subst hne
      cases hsign'
      rw [Bool.false_and, Bool.xor_false, hcs]
      exact Or.inl (.radix hsign hmark hds hn)
    · rw [hcs]
      exact Or.inr (.radix hsign hmark hsign' hne hds hn)
  · split at h
    · cases h
    · simp only [readDecimal?, hnegative, hunsigned] at h
      obtain ⟨ms, es, digits, places, exponent, rfl, hms, hes, rfl⟩ := readUnsigned?_eq_some_iff.mp h
      rw [hcs]
      exact ⟨negative, _, Or.inl (.decimal hsign hms hes), isNearest_ofDecimal negative digits (exponent - places)⟩

theorem readTrimmed?_eq_some_iff {x : Number} :
    readTrimmed? cs = some x ↔
      ∃ negative q, (SpellsNumber cs negative q ∨ SpellsTwiceSigned cs negative q) ∧ IsNearest negative q x := by
  refine ⟨exists_spells, ?_⟩
  rintro ⟨negative, q, h, hx⟩
  obtain ⟨y, hy, hnearest⟩ := h.elim SpellsNumber.exists_read SpellsTwiceSigned.exists_read
  rw [hy, hnearest.unique hx]

/-- No text is spelled in both ways. -/
theorem SpellsTwiceSigned.not_spells (h : SpellsTwiceSigned cs negative q) {negative' : Bool} {q' : WithTop ℚ} :
    ¬SpellsNumber cs negative' q' := by
  intro hspells
  cases h with
  | @radix _ _ sign mark sign' ds base _ hsign hmark hsign' hne hds _ =>
    have hsplit := splitSign_append hsign (head_isSign_mark hmark (sign' ++ ds))
    have hforeign := any_isForeignLetter_mark hmark (sign' ++ ds)
    generalize hcs : sign ++ (mark ++ (sign' ++ ds)) = cs at hsplit hspells
    cases hspells with
    | infinity hsign₂ =>
      rw [splitSign_append hsign₂ head_isSign_infinity] at hsplit
      exact mark_append_ne_infinity hmark (Prod.mk.inj hsplit).2.symm
    | @radix _ _ mark₂ ds₂ base₂ _ hsign₂ hmark₂ hds₂ =>
      rw [splitSign_append hsign₂ (head_isSign_mark hmark₂ _)] at hsplit
      have hradix : splitRadix? (mark₂ ++ ds₂) = some (base₂, ds₂) := splitRadix?_eq_some_iff.mpr ⟨mark₂, hmark₂, rfl⟩
      rw [(Prod.mk.inj hsplit).2, splitRadix?_eq_some_iff.mpr ⟨mark, hmark, rfl⟩] at hradix
      obtain rfl : sign' ++ ds = ds₂ := (Prod.mk.inj (Option.some.inj hradix)).2
      -- The second sign would be a digit.
      obtain ⟨c, hc⟩ := List.exists_mem_of_ne_nil _ hne
      obtain ⟨d, hd⟩ := hds₂.mem (List.mem_append_left ds hc)
      exact absurd hd.isSign (Bool.eq_false_iff.not.mpr (by simpa using hsign'.isSign c hc))
    | @decimal _ _ ms es _ _ _ hsign₂ hms hes =>
      rw [splitSign_append hsign₂ (hms.head_isSign es)] at hsplit
      rw [← (Prod.mk.inj hsplit).2, any_isForeignLetter_decimal hms hes] at hforeign
      cases hforeign

end

/-! ### Blanks at the ends -/

/-- A text that is spelled in some way, blanks at the ends apart. -/
def Padded (p : List Char → Prop) (s : String) : Prop :=
  ∃ before cs after, s.toList = before ++ (cs ++ after) ∧ (∀ c ∈ before, Text.isBlank c = true) ∧
    (∀ c ∈ after, Text.isBlank c = true) ∧ p cs

theorem Text.exists_blanks (cs : List Char) :
    ∃ before after, cs = before ++ (trim cs ++ after) ∧ (∀ c ∈ before, isBlank c = true) ∧
      ∀ c ∈ after, isBlank c = true := by
  refine ⟨cs.takeWhile isBlank, ((cs.dropWhile isBlank).reverse.takeWhile isBlank).reverse, ?_,
    fun c hc => List.mem_takeWhile_imp hc, fun c hc => List.mem_takeWhile_imp (List.mem_reverse.mp hc)⟩
  rw [trim, ← List.reverse_append, List.takeWhile_append_dropWhile, List.reverse_reverse, List.takeWhile_append_dropWhile]

theorem Text.trim_append {before cs after : List Char} (hbefore : ∀ c ∈ before, isBlank c = true)
    (hafter : ∀ c ∈ after, isBlank c = true) (hcs : ∀ c ∈ cs, isBlank c = false) :
    trim (before ++ (cs ++ after)) = cs := by
  rw [trim, List.dropWhile_append_of_pos hbefore]
  cases cs with
  | nil =>
    have hnil : after.dropWhile isBlank = [] := List.dropWhile_eq_nil_iff.mpr hafter
    rw [List.nil_append, hnil]
    rfl
  | cons c cs =>
    have hlast := trim_eq_self hcs
    rw [List.cons_append, List.dropWhile_cons_of_neg (by simp [hcs c]), ← List.cons_append, List.reverse_append,
      List.dropWhile_append_of_pos fun x hx => hafter x (List.mem_reverse.mp hx)]
    rwa [trim, List.dropWhile_cons_of_neg (by simp [hcs c])] at hlast

theorem padded_iff {p : List Char → Prop} (hp : ∀ cs, p cs → ∀ c ∈ cs, Text.isBlank c = false) (s : String) :
    Padded p s ↔ p (Text.trim s.toList) := by
  constructor
  · rintro ⟨before, cs, after, hs, hbefore, hafter, hcs⟩
    rwa [hs, Text.trim_append hbefore hafter (hp cs hcs)]
  · intro h
    obtain ⟨before, after, hs, hbefore, hafter⟩ := Text.exists_blanks s.toList
    exact ⟨before, _, after, hs, hbefore, hafter, h⟩

/-! ### Which texts are numbers -/

/-- A visible character of the first 128. -/
def isGraphic (c : Char) : Bool := 0x21 ≤ c.toNat && c.toNat ≤ 0x7e

theorem isGraphic_iff {c : Char} : isGraphic c = true ↔ 0x21 ≤ c.toNat ∧ c.toNat ≤ 0x7e := by
  rw [isGraphic, Bool.and_eq_true, decide_eq_true_eq, decide_eq_true_eq]

theorem isBlank_of_isGraphic {c : Char} (h : isGraphic c = true) : Text.isBlank c = false := by
  rw [isGraphic_iff] at h
  simp [Text.isBlank]
  omega

section
variable {base n digits places : Nat} {negative : Bool} {exponent : ℤ} {q : WithTop ℚ} {cs ds ms es sign mark : List Char}

theorem Sign.isGraphic (h : Sign negative sign) : ∀ c ∈ sign, isGraphic c = true := by
  cases h <;> simp [BlockScript.isGraphic]

theorem Digits.isGraphic (h : Digits base ds n) (hbase : base ≤ 36) : ∀ c ∈ ds, isGraphic c = true := by
  intro c hc
  obtain ⟨d, hd⟩ := h.mem hc
  simp only [IsDigit, Char.reduceToNat] at hd
  rw [isGraphic_iff]
  omega

theorem isGraphic_mark (h : (mark, base) ∈ radixMarks) : ∀ c ∈ mark, isGraphic c = true := by
  have hall : ∀ entry ∈ radixMarks, entry.1.all isGraphic = true := by decide
  exact List.all_eq_true.mp (hall _ h)

theorem Mantissa.isGraphic (h : Mantissa ms digits places) : ∀ c ∈ ms, isGraphic c = true := by
  intro c hc
  rcases h.chars.1 c hc with hc | rfl
  · have hrange := toNat_of_isDigit hc
    exact isGraphic_iff.mpr (by omega)
  · rfl

theorem Exponent.isGraphic (h : Exponent es exponent) : ∀ c ∈ es, isGraphic c = true := by
  cases h with
  | absent => nofun
  | present hmark hsign hds =>
    rw [List.forall_mem_cons, List.forall_mem_append]
    exact ⟨by rcases hmark with rfl | rfl <;> rfl, hsign.isGraphic, hds.isGraphic (by decide)⟩

theorem SpellsNumber.isGraphic (h : SpellsNumber cs negative q) : ∀ c ∈ cs, isGraphic c = true := by
  cases h with
  | infinity hsign => exact List.forall_mem_append.mpr ⟨hsign.isGraphic, List.all_eq_true.mp (by decide)⟩
  | radix hsign hmark hds =>
    simp only [List.forall_mem_append]
    exact ⟨hsign.isGraphic, isGraphic_mark hmark, hds.isGraphic (mark_of_mem hmark).1⟩
  | decimal hsign hms hes =>
    simp only [List.forall_mem_append]
    exact ⟨hsign.isGraphic, hms.isGraphic, hes.isGraphic⟩

theorem SpellsTwiceSigned.isGraphic (h : SpellsTwiceSigned cs negative q) : ∀ c ∈ cs, isGraphic c = true := by
  cases h with
  | radix hsign hmark hsign' _ hds =>
    simp only [List.forall_mem_append]
    exact ⟨hsign.isGraphic, isGraphic_mark hmark, hsign'.isGraphic, hds.isGraphic (mark_of_mem hmark).1⟩

theorem padded_spells_iff {s : String} : Padded (SpellsNumber · negative q) s ↔ SpellsNumber (Text.trim s.toList) negative q :=
  padded_iff (fun _ h c hc => isBlank_of_isGraphic (h.isGraphic c hc)) s

theorem padded_spellsTwiceSigned_iff {s : String} :
    Padded (SpellsTwiceSigned · negative q) s ↔ SpellsTwiceSigned (Text.trim s.toList) negative q :=
  padded_iff (fun _ h c hc => isBlank_of_isGraphic (h.isGraphic c hc)) s

end

/-- A text is read as a number exactly if it is spelled by the grammar or has a second sign behind the mark of its
base, never both, and the number is the double nearest to what it denotes. -/
theorem numbers_read_as_spelled (s : String) :
    (∀ x, readNumber? s = some x ↔
      ∃ negative q, (Padded (SpellsNumber · negative q) s ∨ Padded (SpellsTwiceSigned · negative q) s) ∧
        IsNearest negative q x) ∧
    ((readNumber? s).isSome = true ↔
      (∃ negative q, Padded (SpellsNumber · negative q) s) ∨ ∃ negative q, Padded (SpellsTwiceSigned · negative q) s) ∧
    ¬((∃ negative q, Padded (SpellsNumber · negative q) s) ∧ ∃ negative q, Padded (SpellsTwiceSigned · negative q) s) := by
  simp only [padded_spells_iff, padded_spellsTwiceSigned_iff]
  refine ⟨fun x => readTrimmed?_eq_some_iff, ?_, ?_⟩
  · rw [Option.isSome_iff_exists]
    constructor
    · rintro ⟨x, hx⟩
      obtain ⟨negative, q, h, -⟩ := readTrimmed?_eq_some_iff.mp hx
      exact h.imp (fun h => ⟨negative, q, h⟩) fun h => ⟨negative, q, h⟩
    · rintro (⟨negative, q, h⟩ | ⟨negative, q, h⟩)
      · obtain ⟨x, hx, -⟩ := h.exists_read
        exact ⟨x, hx⟩
      · obtain ⟨x, hx, -⟩ := h.exists_read
        exact ⟨x, hx⟩
  · rintro ⟨⟨_, _, hspells⟩, ⟨_, _, htwice⟩⟩
    exact htwice.not_spells hspells

/-- A minus behind the mark of base 16 is read, but the grammar has no sign there. -/
theorem second_sign_read :
    readNumber? "0x-5" = some (-5) ∧ ¬∃ negative q, Padded (SpellsNumber · negative q) "0x-5" := by
  have hmark : (['0', 'x'], 16) ∈ radixMarks := by decide
  have htwice : SpellsTwiceSigned (Text.trim "0x-5".toList) (false ^^ (true && 5 != 0)) ((5 : Nat) : ℚ) :=
    .radix .absent hmark .minus (by decide) (.single (c := '5') (by simp [IsDigit])) (by decide)
  refine ⟨by decide +kernel, ?_⟩
  rintro ⟨negative, q, h⟩
  exact htwice.not_spells (padded_spells_iff.mp h)

end BlockScript
