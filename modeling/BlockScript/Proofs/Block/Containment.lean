import BlockScript.Proofs.Text.LowerCase
import BlockScript.Script.Evaluation

/-!
Containment of texts. The block finds the lower case of one text anywhere in that of another. A text is found at its own
place in a text joined from several unless a capital sigma of it ends a word there but not by itself, or the other way
round; then it takes another form, and only an occurrence at another place can be found.
-/
namespace BlockScript
open Text

/-! ### Search -/

/-- Some characters stand in others, behind so many of them. -/
def StandsAt (place : Nat) (needle hay : List Char) : Prop :=
  ∃ before after, hay = before ++ (needle ++ after) ∧ before.length = place

theorem hasInfix_iff {needle hay : List Char} : hasInfix needle hay = true ↔ ∃ place, StandsAt place needle hay := by
  have hlist : hasInfix needle hay = true ↔ needle <:+: hay := by
    induction hay with
    | nil => rw [hasInfix, List.isEmpty_iff, List.infix_nil]
    | cons c hay ih => rw [hasInfix, Bool.or_eq_true, List.isPrefixOf_iff_prefix, ih, List.infix_cons_iff]
  rw [hlist]
  constructor
  · rintro ⟨before, after, rfl⟩
    exact ⟨before.length, before, after, List.append_assoc .., rfl⟩
  · rintro ⟨_, before, after, rfl, -⟩
    exact ⟨before, after, List.append_assoc ..⟩

/-- What stands between a beginning and an end of the same lengths is the same. -/
theorem standsAt_between_iff {needle xs ys zs : List Char} (h : needle.length = ys.length) :
    StandsAt xs.length needle (xs ++ (ys ++ zs)) ↔ ys = needle := by
  constructor
  · rintro ⟨before, after, heq, hlength⟩
    obtain ⟨-, heq⟩ := List.append_inj heq hlength.symm
    exact (List.append_inj heq h.symm).1
  · rintro rfl
    exact ⟨xs, zs, rfl, rfl⟩

/-! ### Texts in joined texts -/

theorem Value.containsText_iff {a b : Value} :
    a.containsText b = true ↔ ∃ place, StandsAt place (lower b.toText).toList (lower a.toText).toList := hasInfix_iff

/-- The lower case of a joined text is that of its parts among their neighbours. -/
theorem toList_lower_append (a b c : String) :
    (lower (a ++ b ++ c)).toList =
      lowerWithin [] a.toList (b ++ c).toList ++ (lowerWithin a.toList.reverse b.toList c.toList ++
        lowerWithin (b.toList.reverse ++ a.toList.reverse) c.toList []) := by
  rw [String.append_assoc, toList_lower, String.toList_append, lowerWithin_append, List.append_nil, String.toList_append,
    lowerWithin_append, List.append_nil, List.append_nil]

theorem standsAt_own_iff (a b c : String) :
    StandsAt (lower a).toList.length (lower b).toList (lower (a ++ b ++ c)).toList ↔
      ¬SigmaShifts a.toList b.toList c.toList := by
  have hplace : (lower a).toList.length = (lowerWithin [] a.toList (b ++ c).toList).length := by
    rw [toList_lower]
    exact length_lowerWithin _
  have hlength : (lower b).toList.length = (lowerWithin a.toList.reverse b.toList c.toList).length := by
    rw [toList_lower]
    exact length_lowerWithin _
  rw [toList_lower_append, hplace, standsAt_between_iff hlength, toList_lower, lowerWithin_own_iff]

/-- What the block that searches a text reports of a text in the texts that join blocks put around it. -/
def foundJoined (v : View) (t : Traces) (a b c : Value) : Bool :=
  ((Predicate.compare .contains (.binary .join (.binary .join (.constant a) (.constant b)) (.constant c))
    (.constant b)).test v t).1

theorem foundJoined_eq (v : View) (t : Traces) (a b c : Value) :
    foundJoined v t a b c = (Value.text (a.toText ++ b.toText ++ c.toText)).containsText b := rfl

/-- A text is found in a joined text of which it is a part exactly if its lower case stands somewhere in that of the
whole. At its own place it stands exactly if no capital sigma of it shifts there, so that it is always found if it has
no capital sigma. -/
theorem joined_contains_iff (v : View) (t : Traces) (a b c : Value) :
    (foundJoined v t a b c = true ↔
      ∃ place, StandsAt place (lower b.toText).toList (lower (a.toText ++ b.toText ++ c.toText)).toList) ∧
    (StandsAt (lower a.toText).toList.length (lower b.toText).toList (lower (a.toText ++ b.toText ++ c.toText)).toList ↔
      ¬SigmaShifts a.toText.toList b.toText.toList c.toText.toList) ∧
    ('Σ' ∉ b.toText.toList → foundJoined v t a b c = true) := by
  have hfound : foundJoined v t a b c = true ↔
      ∃ place, StandsAt place (lower b.toText).toList (lower (a.toText ++ b.toText ++ c.toText)).toList :=
    foundJoined_eq v t a b c ▸ Value.containsText_iff
  refine ⟨hfound, standsAt_own_iff .., fun hsigma => hfound.mpr ⟨_, (standsAt_own_iff ..).mpr ?_⟩⟩
  rintro ⟨p, q, hb, -⟩
  exact hsigma (by simp [hb])

/-- A capital sigma is not found at the end of the word that starts before it. -/
theorem sigma_not_found : ∃ a b c : Value, a.toText = "Α" ∧ b.toText = "Σ" ∧ c.toText = "" ∧
    ∀ (v : View) (t : Traces), foundJoined v t a b c = false :=
  ⟨.text "Α", .text "Σ", .empty, rfl, rfl, rfl, fun v t => by
    rw [foundJoined_eq]
    decide +kernel⟩

end BlockScript
