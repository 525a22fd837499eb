import BlockScript.Proofs.Text.LowerCase
import BlockScript.Proofs.Value.Comparison
import BlockScript.Proofs.Value.Spelling

/-!
Numeric literals. A text that spells a number is kept as that number, which may change its text but neither its numeric
reading nor what it is equal to. Truth values are told apart by their texts alone: whatever spells a number has a digit
in it, or the last letter of `Infinity`, which lower case keeps and which the texts of truth values do not have.
-/
namespace BlockScript
open Number Text

/-! ### Characters that numbers have -/

/-- A digit or the last letter of `Infinity`. -/
def isNumberMark (c : Char) : Bool := c.isDigit || c == 'y'

section
variable {negative : Bool} {q : WithTop ℚ} {cs rest mark sign : List Char} {base : Nat} {c : Char} {s : String} {x : Number}

theorem exists_numberMark_of_mark (h : (mark, base) ∈ radixMarks) : ∃ c ∈ mark, isNumberMark c = true := by
  have hall : ∀ entry ∈ radixMarks, entry.1.any isNumberMark = true := by decide
  exact List.any_eq_true.mp (hall _ h)

theorem SpellsNumber.exists_numberMark (h : SpellsNumber cs negative q) : ∃ c ∈ cs, isNumberMark c = true := by
  cases h with
  | infinity => exact ⟨'y', by simp, rfl⟩
  | radix _ hmark =>
    obtain ⟨c, hc, h⟩ := exists_numberMark_of_mark hmark
    exact ⟨c, by simp [hc], h⟩
  | decimal _ hms =>
    obtain ⟨-, c, hc, h⟩ := hms.chars
    exact ⟨c, by simp [hc], by simp [isNumberMark, h]⟩

theorem SpellsTwiceSigned.exists_numberMark (h : SpellsTwiceSigned cs negative q) : ∃ c ∈ cs, isNumberMark c = true := by
  cases h with
  | radix _ hmark =>
    obtain ⟨c, hc, h⟩ := exists_numberMark_of_mark hmark
    exact ⟨c, by simp [hc], h⟩

theorem exists_numberMark (h : readNumber? s = some x) : ∃ c ∈ s.toList, isNumberMark c = true := by
  obtain ⟨negative, q, hspells, -⟩ := readTrimmed?_eq_some_iff.mp h
  obtain ⟨c, hc, hmark⟩ := hspells.elim SpellsNumber.exists_numberMark SpellsTwiceSigned.exists_numberMark
  obtain ⟨before, after, hs, -, -⟩ := Text.exists_blanks s.toList
  exact ⟨c, by rw [hs]; simp [hc], hmark⟩

/-- Lower case keeps these characters, wherever they stand. -/
theorem lowerChar_of_numberMark (h : isNumberMark c = true) : c.toNat ≠ 0x3a3 ∧ lowerChar c = [c] := by
  rw [isNumberMark, Bool.or_eq_true, beq_iff_eq] at h
  rcases h with h | rfl
  · have hrange := toNat_of_isDigit h
    have hruns : ∀ r ∈ lowerRuns, 0x3a ≤ r.first := by decide +kernel
    have hfind : lowerRuns.find? (CaseRun.covers · c.toNat) = none := by
      rw [List.find?_eq_none]
      intro r hr
      have hfirst := hruns r hr
      simp only [CaseRun.covers, Bool.and_eq_true, decide_eq_true_eq, beq_iff_eq]
      omega
    rw [lowerChar, if_neg (by omega), hfind]
    exact ⟨by omega, rfl⟩
  · decide +kernel

theorem exists_numberMark_lower (h : readNumber? s = some x) : ∃ c ∈ (lower s).toList, isNumberMark c = true := by
  obtain ⟨c, hc, hmark⟩ := exists_numberMark h
  obtain ⟨hsigma, hlower⟩ := lowerChar_of_numberMark hmark
  exact ⟨c, by rw [toList_lower]; exact mem_lowerWithin hc hsigma hlower, hmark⟩

end

namespace Value

/-- No truth value equals what spells a number. -/
theorem equals_boolean_of_read {v : Value} {x : Number} (h : readNumber? v.toText = some x) (b : Bool) :
    v.equals (.boolean b) = false := by
  rw [equals, isBoolean, Bool.or_true, if_pos rfl, beq_eq_false_iff_ne]
  intro heq
  obtain ⟨c, hc, hmark⟩ := exists_numberMark_lower h
  have hnone : (lower (Value.boolean b).toText).toList.any isNumberMark = false := by cases b <;> decide +kernel
  rw [heq] at hc
  exact List.any_eq_false.mp hnone c hc hmark

/-! ### Literals -/

theorem numericLiteral_cases (v : Value) :
    v.numericLiteral = v ∨ ∃ s x, v = .text s ∧ readNumber? s = some x ∧ v.numericLiteral = .number x := by
  cases v with
  | number x => exact Or.inl rfl
  | boolean b => exact Or.inl rfl
  | empty => exact Or.inl rfl
  | text s =>
    cases h : readNumber? s with
    | none => exact Or.inl (by simp only [numericLiteral, h])
    | some x => exact Or.inr ⟨s, x, rfl, h, by simp only [numericLiteral, h]⟩

section
variable {s : String} {x : Number}

/-- A text that spells a number equals the same values as the number. -/
theorem equals_number_of_read (h : readNumber? s = some x) (w : Value) :
    w.equals (.number x) = w.equals (.text s) := by
  have hx : x ≠ .nan := fun hnan => readNumber?_ne_nan s (hnan ▸ h)
  cases hw : w.isBoolean with
  | false =>
    have hsame : (Value.number x).equals (.text s) = true :=
      (equals_iff rfl rfl).mpr (Or.inr ⟨x, x, number?_number hx, h, eqv_refl hx⟩)
    exact equals_congr rfl rfl hsame hw
  | true =>
    cases w with
    | boolean b =>
      obtain ⟨y, hread, -⟩ := Number.exists_eqv_read hx
      have hnumber : (Value.number x).equals (.boolean b) = false := equals_boolean_of_read (v := .number x) hread b
      have htext : (Value.text s).equals (.boolean b) = false := equals_boolean_of_read (v := .text s) h b
      rw [equals_comm, hnumber, equals_comm, htext]
    | number y => cases hw
    | text t => cases hw
    | empty => cases hw

end

/-- A literal of a numeric slot reads as the same number as the value it is made from, is a literal already, and equals
the same values. -/
theorem numericLiteral_transparent (v w : Value) :
    v.numericLiteral.toNumber = v.toNumber ∧ v.numericLiteral.number? = v.number? ∧
      v.numericLiteral.numericLiteral = v.numericLiteral ∧ v.numericLiteral.equals w = v.equals w ∧
      w.equals v.numericLiteral = w.equals v := by
  rcases numericLiteral_cases v with hkept | ⟨s, x, rfl, hread, hliteral⟩
  · simp only [hkept, and_self]
  · have hx : x ≠ .nan := fun hnan => readNumber?_ne_nan s (hnan ▸ hread)
    have hequals := equals_number_of_read hread w
    rw [hliteral]
    refine ⟨?_, (number?_number hx).trans hread.symm, rfl, ?_, hequals⟩
    · rw [toNumber_number hx, toNumber, hread, Option.getD_some]
    · rw [equals_comm, hequals, equals_comm]

/-- Blanks and a needless point are in the text of the value only. -/
example : (Value.text " 1.0 ").numericLiteral = .number 1 ∧ (Value.text " 1.0 ").equals (.text "1") = true := by
  decide +kernel

end Value
end BlockScript
