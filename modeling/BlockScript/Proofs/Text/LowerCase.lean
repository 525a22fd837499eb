import BlockScript.Text.LowerCase
import Mathlib.Data.List.Basic
import Mathlib.Data.List.TakeWhile

/-!
Lower case of parts of a text. Only a capital sigma depends on what stands around it, so the lower case of a text is that
of its parts, each among its neighbours. A part is the same by itself unless one of its sigmas ends a word on one side
of the cut only.
-/
namespace BlockScript.Text

/-- Lower case of some characters of a text, with those before them, nearest first, and those after them. -/
def lowerWithin (before : List Char) : List Char → (after : List Char) → List Char
  | [], _ => []
  | c :: rest, after =>
    (if c.toNat = 0x3a3 then [lowerSigma before (rest ++ after)] else lowerChar c) ++ lowerWithin (c :: before) rest after

variable {before before' after after' a b c : List Char}

theorem lowerFrom_eq_lowerWithin (before cs : List Char) : lowerFrom before cs = lowerWithin before cs [] := by
  induction cs generalizing before with
  | nil => rfl
  | cons c cs ih => rw [lowerFrom, lowerWithin, ih, List.append_nil]

theorem toList_lower (s : String) : (lower s).toList = lowerWithin [] s.toList [] := by
  rw [lower, String.toList_ofList, lowerFrom_eq_lowerWithin]

theorem lowerWithin_append (before xs ys after : List Char) :
    lowerWithin before (xs ++ ys) after =
      lowerWithin before xs (ys ++ after) ++ lowerWithin (xs.reverse ++ before) ys after := by
  induction xs generalizing before with
  | nil => rfl
  | cons x xs ih =>
    rw [List.cons_append, lowerWithin, lowerWithin, ih, List.append_assoc, List.append_assoc, List.reverse_cons,
      List.append_assoc, List.singleton_append]

theorem length_lowerWithin (cs : List Char) : (lowerWithin before cs after).length = (lowerWithin before' cs after').length := by
  induction cs generalizing before before' with
  | nil => rfl
  | cons c cs ih =>
    rw [lowerWithin, lowerWithin, List.length_append, List.length_append, ih]
    split <;> rfl

/-- What is its own lower case stays. -/
theorem mem_lowerWithin {x : Char} {cs : List Char} (hx : x ∈ cs) (hsigma : x.toNat ≠ 0x3a3) (hlower : lowerChar x = [x]) :
    x ∈ lowerWithin before cs after := by
  induction cs generalizing before with
  | nil => cases hx
  | cons c cs ih =>
    rw [lowerWithin, List.mem_append]
    rcases List.mem_cons.mp hx with rfl | hx
    · rw [if_neg hsigma, hlower]
      exact Or.inl (List.mem_singleton_self x)
    · exact Or.inr (ih hx)

/-! ### Sigmas at the cuts -/

theorem toNat_eq_sigma_iff {c : Char} : c.toNat = 0x3a3 ↔ c = 'Σ' := Char.toNat_inj (d := 'Σ')

/-- Lower case is the same among different neighbours exactly if every capital sigma is. -/
theorem lowerWithin_eq_iff (cs : List Char) :
    lowerWithin before cs after = lowerWithin before' cs after' ↔
      ∀ p q, cs = p ++ 'Σ' :: q →
        lowerSigma (p.reverse ++ before) (q ++ after) = lowerSigma (p.reverse ++ before') (q ++ after') := by
  induction cs generalizing before before' with
  | nil => simp [lowerWithin]
  | cons c cs ih =>
    have hparts : lowerWithin before (c :: cs) after = lowerWithin before' (c :: cs) after' ↔
        (c = 'Σ' → lowerSigma before (cs ++ after) = lowerSigma before' (cs ++ after')) ∧
          lowerWithin (c :: before) cs after = lowerWithin (c :: before') cs after' := by
      rw [lowerWithin, lowerWithin, ← toNat_eq_sigma_iff]
      constructor
      · intro h
        obtain ⟨hhead, htail⟩ := List.append_inj' h (length_lowerWithin cs)
        refine ⟨fun hc => ?_, htail⟩
        rw [if_pos hc, if_pos hc] at hhead
        exact (List.cons.inj hhead).1
      · rintro ⟨hhead, htail⟩
        rw [htail]
        by_cases hc : c.toNat = 0x3a3
        · rw [if_pos hc, if_pos hc, hhead hc]
        · rw [if_neg hc, if_neg hc]
    rw [hparts, ih]
    constructor
    · rintro ⟨hhead, htail⟩ p q heq
      cases p with
      | nil =>
        obtain ⟨rfl, rfl⟩ := List.cons.inj heq
        exact hhead rfl
      | cons x p =>
        obtain ⟨rfl, rfl⟩ := List.cons.inj heq
        simpa using htail p q rfl
    · intro h
      refine ⟨?_, fun p q heq => ?_⟩
      · rintro rfl
        exact h [] cs rfl
      · simpa using h (c :: p) q (heq ▸ rfl)

theorem startsCased_append (xs ys : List Char) :
    startsCased (xs ++ ys) = if xs.all isCaseIgnorable then startsCased ys else startsCased xs := by
  unfold startsCased
  split
  · rename_i hall
    rw [List.dropWhile_append_of_pos (List.all_eq_true.mp hall)]
  · rename_i hall
    obtain ⟨c, hc, hcased⟩ := List.all_eq_false.mp (Bool.eq_false_iff.mpr hall)
    have hne : xs.dropWhile isCaseIgnorable ≠ [] := fun h => hcased (List.dropWhile_eq_nil_iff.mp h c hc)
    rw [List.dropWhile_append, if_neg (by simpa using hne), List.head?_append_of_ne_nil _ hne]

theorem startsCased_of_ignorable {cs : List Char} (h : cs.all isCaseIgnorable = true) : startsCased cs = false := by
  rw [startsCased, List.dropWhile_eq_nil_iff.mpr (List.all_eq_true.mp h)]
  rfl

theorem lowerSigma_eq_iff :
    lowerSigma before after = lowerSigma before' after' ↔
      (startsCased before && !startsCased after) = (startsCased before' && !startsCased after') := by
  unfold lowerSigma
  cases startsCased before && !startsCased after <;> cases startsCased before' && !startsCased after' <;> decide

/-- A capital sigma ends a word in `a ++ b ++ c` but not in `b`, where the word starts in `a`, or in `b` but not in
`a ++ b ++ c`, where the word goes on in `c`. -/
def SigmaShifts (a b c : List Char) : Prop :=
  ∃ p q, b = p ++ 'Σ' :: q ∧
    (p.all isCaseIgnorable = true ∧ startsCased a.reverse = true ∧ startsCased (q ++ c) = false ∨
      q.all isCaseIgnorable = true ∧ startsCased p.reverse = true ∧ startsCased c = true)

theorem lowerSigma_ne_iff (p q : List Char) :
    lowerSigma (p.reverse ++ a.reverse) (q ++ c) ≠ lowerSigma p.reverse q ↔
      p.all isCaseIgnorable = true ∧ startsCased a.reverse = true ∧ startsCased (q ++ c) = false ∨
        q.all isCaseIgnorable = true ∧ startsCased p.reverse = true ∧ startsCased c = true := by
  have hp (h : p.all isCaseIgnorable = true) : startsCased p.reverse = false :=
    startsCased_of_ignorable (List.all_reverse.trans h)
  have hq : q.all isCaseIgnorable = true → startsCased q = false := startsCased_of_ignorable
  rw [Ne, lowerSigma_eq_iff, startsCased_append p.reverse, startsCased_append q, List.all_reverse]
  generalize startsCased p.reverse = cased at *
  generalize startsCased q = cased' at *
  cases hall : p.all isCaseIgnorable with
  | true => simp [hp hall]
  | false =>
    cases hall' : q.all isCaseIgnorable with
    | true => cases cased <;> simp [hq hall']
    | false => simp

/-- A part of a text has the lower case that it has by itself unless a sigma of it shifts. -/
theorem lowerWithin_own_iff : lowerWithin a.reverse b c = lowerWithin [] b [] ↔ ¬SigmaShifts a b c := by
  simp only [lowerWithin_eq_iff, List.append_nil, SigmaShifts, ← lowerSigma_ne_iff, not_exists, not_and, not_not]

end BlockScript.Text
