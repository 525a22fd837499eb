import BlockScript.Build.Catalog
import BlockScript.Proofs.Number.RoundTrip
import BlockScript.Script.Evaluation

/-!
Comparison of values. Two values compare as truth values, as numbers or as texts, as both of them allow; in
each of these ways order and equality agree, and where one of the values is nothing only the text without
characters makes a difference. Equality tells a value that is no truth value by its text: the numeric reading
is that of the text, and no number has the text of what reads as no number. So equality is transitive there,
although its way may change from pair to pair.
-/
namespace BlockScript
namespace Value

/-! ### Texts -/

theorem orderTexts_swap (a b : String) : orderTexts b a = (orderTexts a b).swap := by
  unfold orderTexts
  by_cases hab : a < b
  · simp [hab, String.lt_asymm hab]
  · by_cases hba : b < a <;> simp [hab, hba]

theorem orderTexts_eq_iff {a b : String} : orderTexts a b = .eq ↔ a = b := by
  unfold orderTexts
  constructor
  · intro h
    by_cases hab : a < b
    · simp [hab] at h
    · by_cases hba : b < a
      · simp [hab, hba] at h
      · exact String.le_antisymm (String.not_lt.mp hba) (String.not_lt.mp hab)
  · rintro rfl
    simp

theorem readNumber?_empty : readNumber? "" = none := by decide +kernel

theorem text_ne_empty (x : Number) : x.text ≠ "" := by
  by_cases hx : x = .nan
  · subst hx
    decide
  · obtain ⟨y, hread, -⟩ := Number.exists_eqv_read hx
    intro h
    rw [h, readNumber?_empty] at hread
    cases hread

/-! ### Order against equality -/

/-- Numeric readings always have an order. -/
theorem exists_order? {a b : Value} {x y : Number} (ha : a.number? = some x) (hb : b.number? = some y) :
    ∃ o, x.order? y = some o :=
  Number.exists_order? (fun hx => a.number?_ne_nan (hx ▸ ha)) fun hy => b.number?_ne_nan (hy ▸ hb)

theorem order_swap (a b : Value) : b.order a = (a.order b).swap := by
  unfold order
  cases a.isEmpty with
  | true => cases b.isEmpty <;> rfl
  | false =>
    cases b.isEmpty with
    | true => rfl
    | false =>
      rw [Bool.or_comm]
      dsimp only
      split
      · exact orderTexts_swap _ _
      · cases ha : a.number? with
        | none => cases b.number? <;> exact orderTexts_swap _ _
        | some x =>
          cases hb : b.number? with
          | none => exact orderTexts_swap _ _
          | some y =>
            obtain ⟨o, ho⟩ := exists_order? ha hb
            simp [Number.order?_swap x y, ho]

/-- Whichever way two values compare, they are equal where neither comes before the other. -/
theorem equals_iff_order {a b : Value} (ha : a.isEmpty = false) (hb : b.isEmpty = false) :
    a.equals b = true ↔ a.order b = .eq := by
  unfold equals order
  rw [ha, hb]
  dsimp only
  split
  · rw [beq_iff_eq, orderTexts_eq_iff]
  · cases hx : a.number? with
    | none => simp [orderTexts_eq_iff]
    | some x =>
      cases hy : b.number? with
      | none => simp [orderTexts_eq_iff]
      | some y =>
        obtain ⟨o, ho⟩ := exists_order? hx hy
        simp [Number.eqv_iff, ho]

theorem equals_comm (a b : Value) : a.equals b = b.equals a := by
  unfold equals
  rw [Bool.or_comm]
  split
  · exact Bool.beq_comm
  · cases a.number? with
    | none => cases b.number? <;> exact Bool.beq_comm
    | some x =>
      cases b.number? with
      | none => exact Bool.beq_comm
      | some y => exact Number.eqv_comm x y

/-- Nothing equals itself and the text without characters only. -/
theorem empty_equals_iff {b : Value} : Value.empty.equals b = true ↔ b = .empty ∨ b = .text "" := by
  cases b with
  | number x => simp [equals, isBoolean, number?, toText, (text_ne_empty x).symm]
  | text s => simp [equals, isBoolean, number?, toText]
  | boolean c =>
    have hlower : Text.lower Value.empty.toText ≠ Text.lower (Value.boolean c).toText := by cases c <;> decide +kernel
    simpa [equals, isBoolean] using hlower
  | empty => simp [equals, isBoolean, number?, toText]

theorem eq_empty_of_isEmpty {a : Value} (h : a.isEmpty = true) : a = .empty := by
  cases a <;> first | rfl | cases h

theorem order_empty_eq_iff {b : Value} : Value.empty.order b = .eq ↔ b = .empty := by
  cases b <;> simp [order, isEmpty]

/-- Order and equality agree unless nothing meets the text without characters. -/
theorem equals_iff_order_of_ne {a b : Value} (hleft : ¬(a = .empty ∧ b = .text "")) (hright : ¬(a = .text "" ∧ b = .empty)) :
    a.equals b = true ↔ a.order b = .eq := by
  cases ha : a.isEmpty with
  | true =>
    obtain rfl := eq_empty_of_isEmpty ha
    rw [empty_equals_iff, order_empty_eq_iff]
    exact or_iff_left fun hb => hleft ⟨rfl, hb⟩
  | false =>
    cases hb : b.isEmpty with
    | true =>
      obtain rfl := eq_empty_of_isEmpty hb
      rw [equals_comm, empty_equals_iff, order_swap, Ordering.swap_eq_eq, order_empty_eq_iff]
      exact or_iff_left fun ha => hright ⟨ha, rfl⟩
    | false => exact equals_iff_order ha hb

/-! ### Classes of equal values -/

theorem equals_refl (a : Value) : a.equals a = true := by
  unfold equals
  split
  · exact beq_self_eq_true _
  · cases ha : a.number? with
    | none => exact beq_self_eq_true _
    | some x => exact Number.eqv_refl fun hx => a.number?_ne_nan (hx ▸ ha)

section
variable {a b c : Value}

/-- What is no truth value and reads as no number has a text that spells none. -/
theorem readNumber?_toText_of_none (plain : a.isBoolean = false) (h : a.number? = none) : readNumber? a.toText = none := by
  cases a with
  | number x =>
    cases x with
    | nan => decide +kernel
    | infinity negative => cases h
    | finite negative m fits => cases h
  | text s => exact h
  | boolean c => cases plain
  | empty => exact readNumber?_empty

/-- Values with the same text read as equal numbers, or not as numbers. -/
theorem number?_of_toText_eq (plain : b.isBoolean = false) (htext : a.toText = b.toText) {x : Number}
    (hx : a.number? = some x) : ∃ y, b.number? = some y ∧ x.eqv y = true := by
  obtain ⟨z, hread, hzx⟩ := exists_eqv_read hx
  rw [htext] at hread
  cases hy : b.number? with
  | none =>
    rw [readNumber?_toText_of_none plain hy] at hread
    cases hread
  | some y =>
    obtain ⟨z', hread', hzy⟩ := exists_eqv_read hy
    obtain rfl : z = z' := Option.some.inj (hread.symm.trans hread')
    exact ⟨y, rfl, Number.eqv_trans (Number.eqv_comm z x ▸ hzx) hzy⟩

/-- Values that are no truth values are equal by their texts or by their numbers. -/
theorem equals_iff (ha : a.isBoolean = false) (hb : b.isBoolean = false) :
    a.equals b = true ↔
      a.toText = b.toText ∨ ∃ x y, a.number? = some x ∧ b.number? = some y ∧ x.eqv y = true := by
  unfold equals
  rw [ha, hb, if_neg (by decide)]
  cases hx : a.number? with
  | none => simp
  | some x =>
    cases hy : b.number? with
    | none => simp
    | some y =>
      constructor
      · exact fun h => Or.inr ⟨x, y, rfl, rfl, h⟩
      · rintro (htext | ⟨x', y', hx', hy', h⟩)
        · obtain ⟨y', hy', h⟩ := number?_of_toText_eq hb htext hx
          obtain rfl : y = y' := Option.some.inj (hy.symm.trans hy')
          exact h
        · cases hx'
          cases hy'
          exact h

theorem equals_trans (ha : a.isBoolean = false) (hb : b.isBoolean = false) (hc : c.isBoolean = false)
    (hab : a.equals b = true) (hbc : b.equals c = true) : a.equals c = true := by
  rw [equals_iff ha hb] at hab
  rw [equals_iff hb hc] at hbc
  rw [equals_iff ha hc]
  -- Where one pair has the same text and the other equal numbers, the shared text spells both numbers.
  rcases hab with htext | ⟨x, y, hx, hy, hxy⟩
  · rcases hbc with htext' | ⟨y, z, hy, hz, hyz⟩
    · exact Or.inl (htext.trans htext')
    · obtain ⟨x, hx, hyx⟩ := number?_of_toText_eq ha htext.symm hy
      exact Or.inr ⟨x, z, hx, hz, Number.eqv_trans (Number.eqv_comm y x ▸ hyx) hyz⟩
  · rcases hbc with htext' | ⟨y', z, hy', hz, hyz⟩
    · obtain ⟨z, hz, hyz⟩ := number?_of_toText_eq hc htext' hy
      exact Or.inr ⟨x, z, hx, hz, Number.eqv_trans hxy hyz⟩
    · obtain rfl : y = y' := Option.some.inj (hy.symm.trans hy')
      exact Or.inr ⟨x, z, hx, hz, Number.eqv_trans hxy hyz⟩

/-- Equal values are equal to the same values. -/
theorem equals_congr (ha : a.isBoolean = false) (hb : b.isBoolean = false) (hab : a.equals b = true)
    (hc : c.isBoolean = false) : c.equals a = c.equals b := by
  rw [Bool.eq_iff_iff]
  constructor
  · exact fun h => equals_trans hc ha hb h hab
  · exact fun h => equals_trans hc hb ha h (equals_comm a b ▸ hab)

end

/-! ### Blocks that compare -/

/-- What the comparison block of an operation code tells of two fixed values. -/
def compared (v : View) (t : Traces) (opcode : String) (a b : Value) : Bool :=
  ((Predicate.compare (.relation (ReporterKind.relation opcode) opcode) (.constant a) (.constant b)).test v t).1

section
variable {v : View} {t : Traces} {a b : Value}

theorem compared_less : compared v t "operator_lt" a b = (a.order b == .lt) := rfl

theorem compared_greater : compared v t "operator_gt" a b = (a.order b == .gt) := rfl

theorem compared_equal : compared v t "operator_equals" a b = a.equals b := rfl

/-- One comparison block holds where order and equality agree. -/
theorem countP_compared (h : a.equals b = true ↔ a.order b = .eq) :
    ["operator_lt", "operator_equals", "operator_gt"].countP (compared v t · a b) = 1 := by
  have heq : a.equals b = (a.order b == .eq) := by
    rw [Bool.eq_iff_iff, h, beq_iff_eq]
  cases horder : a.order b <;> simp [compared_less, compared_equal, compared_greater, heq, horder]

end

/-- The comparison blocks are coherent. The order of two values turns around with them, so the block for greater tells of
them what the block for less tells the other way round; and exactly one of the three blocks holds, except between
nothing and the text without characters, which are equal while nothing comes first. -/
theorem comparisons_coherent (v : View) (t : Traces) (a b : Value) :
    b.order a = (a.order b).swap ∧
    compared v t "operator_gt" a b = compared v t "operator_lt" b a ∧
    if a = .empty ∧ b = .text "" then
      compared v t "operator_equals" a b = true ∧ compared v t "operator_lt" a b = true ∧
        compared v t "operator_gt" a b = false
    else if a = .text "" ∧ b = .empty then
      compared v t "operator_equals" a b = true ∧ compared v t "operator_gt" a b = true ∧
        compared v t "operator_lt" a b = false
    else ["operator_lt", "operator_equals", "operator_gt"].countP (compared v t · a b) = 1 := by
  refine ⟨order_swap a b, ?_, ?_⟩
  · rw [compared_greater, compared_less, order_swap a b]
    cases a.order b <;> rfl
  · split
    · rename_i h
      obtain ⟨rfl, rfl⟩ := h
      exact ⟨empty_equals_iff.mpr (Or.inr rfl), rfl, rfl⟩
    · rename_i hleft
      split
      · rename_i h
        obtain ⟨rfl, rfl⟩ := h
        refine ⟨?_, rfl, rfl⟩
        rw [compared_equal, equals_comm]
        exact empty_equals_iff.mpr (Or.inr rfl)
      · rename_i hright
        exact countP_compared (equals_iff_order_of_ne hleft hright)

/-! ### Blocks that look for values -/

section
variable {a b : Value} (ha : a.isBoolean = false) (hb : b.isBoolean = false) (hab : a.equals b = true)
include ha hb hab

theorem findIdx?_equals_congr {items : List Value} (plain : ∀ c ∈ items, c.isBoolean = false) :
    items.findIdx? (·.equals a) = items.findIdx? (·.equals b) := by
  induction items with
  | nil => rfl
  | cons c items ih =>
    rw [List.forall_mem_cons] at plain
    rw [List.findIdx?_cons, List.findIdx?_cons, equals_congr ha hb hab plain.1, ih plain.2]

theorem any_equals_congr {items : List Value} (plain : ∀ c ∈ items, c.isBoolean = false) :
    items.any (·.equals a) = items.any (·.equals b) := by
  induction items with
  | nil => rfl
  | cons c items ih =>
    rw [List.forall_mem_cons] at plain
    rw [List.any_cons, List.any_cons, equals_congr ha hb hab plain.1, ih plain.2]

/-- A block that looks for a value in a list without truth values finds an equal value in its place. -/
theorem search_congr {v : View} {list : Ref}
    (plain : ∀ address, v.scene.findList? v.figure list = some address →
      ∀ item ∈ v.scene.itemsAt address, item.isBoolean = false) (relay : Nat) :
    (Operand.search .position list relay (.constant a)).eval v =
        (Operand.search .position list relay (.constant b)).eval v ∧
      (Predicate.listHas list relay (.constant a)).test v = (Predicate.listHas list relay (.constant b)).test v := by
  simp only [Operand.eval, Predicate.test, View.findList]
  cases hlist : v.scene.findList? v.figure list with
  | none => simp
  | some address =>
    have hposition := findIdx?_equals_congr ha hb hab (plain address hlist)
    have hany := any_equals_congr ha hb hab (plain address hlist)
    simp [ListQuery.answer, positionOf, hposition, hany]

end

/-- Equality partitions the values that are no truth values: it is reflexive and symmetric throughout and transitive
among them, whichever way each pair compares. So neither the comparison block nor those that look for a value in a list
tell equal values apart. -/
theorem equals_partitions :
    (∀ a : Value, a.equals a = true) ∧
    (∀ a b : Value, a.equals b = b.equals a) ∧
    (∀ a b c : Value, a.isBoolean = false → b.isBoolean = false → c.isBoolean = false →
      a.equals b = true → b.equals c = true → a.equals c = true) ∧
    ∀ a b : Value, a.isBoolean = false → b.isBoolean = false → a.equals b = true →
      (∀ (v : View) (t : Traces) (c : Value), c.isBoolean = false →
        compared v t "operator_equals" c a = compared v t "operator_equals" c b) ∧
      ∀ (v : View) (list : Ref) (relay : Nat),
        (∀ address, v.scene.findList? v.figure list = some address →
          ∀ item ∈ v.scene.itemsAt address, item.isBoolean = false) →
        (Operand.search .position list relay (.constant a)).eval v =
          (Operand.search .position list relay (.constant b)).eval v ∧
        (Predicate.listHas list relay (.constant a)).test v = (Predicate.listHas list relay (.constant b)).test v := by
  refine ⟨equals_refl, equals_comm, fun a b c => equals_trans, fun a b ha hb hab => ⟨fun v t c hc => ?_, ?_⟩⟩
  · exact equals_congr ha hb hab hc
  · exact fun v list relay plain => search_congr ha hb hab plain relay

/-- A stage with a list of a text and a number. -/
def shelf : Scene :=
  { figures := [⟨"Stage", true, [], [⟨"l", "things", [.text "x", .number 1]⟩], [], ⟨0, 0, 90⟩, ⟨100, 0, 0⟩⟩],
    pointer := .fixed 0 0, config := .default }

/-- The number one in three spellings: two that are texts, and the number that stands in the list. -/
theorem one_in_three_spellings :
    (Value.text " 1 ").equals (.text "0x1") = true ∧
    (Operand.search .position ⟨"things", "l"⟩ 0 (.constant (.text " 1 "))).eval ⟨shelf, 0⟩ =
      (Operand.search .position ⟨"things", "l"⟩ 0 (.constant (.number 1))).eval ⟨shelf, 0⟩ := by
  have hleft : (Value.text " 1 ").equals (.number 1) = true := by decide +kernel
  have hright : (Value.number 1).equals (.text "0x1") = true := by decide +kernel
  refine ⟨equals_partitions.2.2.1 _ _ _ rfl rfl rfl hleft hright, ?_⟩
  refine ((equals_partitions.2.2.2 _ _ rfl rfl hleft).2 ⟨shelf, 0⟩ ⟨"things", "l"⟩ 0 fun address hlist item hitem => ?_).1
  obtain rfl : ⟨0, "l"⟩ = address := Option.some.inj hlist
  have hmem : item ∈ [Value.text "x", .number 1] := hitem
  obtain rfl | rfl : item = .text "x" ∨ item = .number 1 := by simpa using hmem
  · rfl
  · rfl

end Value
end BlockScript
