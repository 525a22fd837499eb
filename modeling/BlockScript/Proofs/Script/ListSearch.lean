import BlockScript.Proofs.Scene.ListIndex
import BlockScript.Proofs.Value.Comparison

/-!
Reporters that search lists. Each looks for its list anew, and a list that is missing reads as an empty one. So the
position that is reported, the answer whether there is one, the length and the items agree with each other.
-/
namespace BlockScript

/-! ### The first of equal items -/

/-- The reported position is that of the first equal item, and zero if no item is equal. -/
theorem positionOf_spec (items : List Value) (x : Value) :
    positionOf items x ≤ items.length ∧
    items.any (·.equals x) = decide (positionOf items x ≠ 0) ∧
    ∀ (i : Nat) (hi : i < items.length),
      (i + 1 = positionOf items x → items[i].equals x = true) ∧
      (positionOf items x = 0 ∨ i + 1 < positionOf items x → items[i].equals x = false) := by
  cases h : items.findIdx? (·.equals x) with
  | none =>
    have hnone : positionOf items x = 0 := by simp only [positionOf, h]
    have hall := List.findIdx?_eq_none_iff.mp h
    rw [hnone]
    refine ⟨Nat.zero_le _, by simpa using hall, ?_⟩
    intro i hi
    exact ⟨fun hzero => absurd hzero (Nat.succ_ne_zero i), fun _ => hall _ (List.getElem_mem hi)⟩
  | some k =>
    have hsome : positionOf items x = k + 1 := by simp only [positionOf, h]
    obtain ⟨hk, hequal, hbefore⟩ := List.findIdx?_eq_some_iff_getElem.mp h
    have hany : items.any (·.equals x) = true := List.any_eq_true.mpr ⟨_, List.getElem_mem hk, hequal⟩
    rw [hsome]
    refine ⟨hk, by simp [hany], ?_⟩
    intro i hi
    refine ⟨?_, ?_⟩
    · intro hik
      obtain rfl : i = k := by omega
      exact hequal
    · intro hik
      simpa using hbefore i (by omega)

/-! ### What reporters find -/

theorem Eval.apply_bind {α β : Type} (m : Eval α) (k : α → Eval β) (t : Traces) : (m >>= k) t = k (m t).1 (m t).2 := rfl

theorem ListQuery.answer_item {items : List Value} {index : Value} {i : Nat} (hi : i < items.length)
    (hexact : i + 1 ≤ 2 ^ 53) (hindex : index.toNumber = .ofNat (i + 1)) (t : Traces) :
    (answer items index .item t).1 = items[i] := by
  have hfloor : index.toNumber.floor? = some ((i + 1 : Nat) : Int) := by
    rw [hindex, Number.floor?_ofNat hexact]
  obtain ⟨draw, random, hresolve⟩ := resolveIndex_eq index items.length false t
  rw [listIndex_of_floor hfloor (Nat.le_add_left 1 i) hexact hi] at hresolve
  simp only [answer, Eval.apply_bind, hresolve]
  show (itemAt? items (i + 1)).getD .empty = items[i]
  simp [itemAt?, hi]

namespace View

/-- The items of the list that a reference stands for. -/
def itemsOf (v : View) (list : Ref) : List Value := ((v.scene.findList? v.figure list).map v.scene.itemsAt).getD []

/-- The value of an operand for a reporter that looks for its list first. -/
def argument (v : View) (list : Ref) (relay : Nat) (o : Operand Nat) (t : Traces) : Value :=
  (o.eval v (v.findList list relay t).2).1

variable (v : View) (list : Ref) (relay : Nat) (o : Operand Nat) (t : Traces)

theorem argument_constant (x : Value) : v.argument list relay (.constant x) t = x := by
  simp only [argument, Operand.eval]
  rfl

theorem findList_fst : (v.findList list relay t).1 = (v.scene.findList? v.figure list).map v.scene.itemsAt := by
  unfold findList
  cases v.scene.findList? v.figure list <;> rfl

theorem eval_length :
    ((Operand.source (.listLength list) relay).eval v t).1 = .number (.ofNat (v.itemsOf list).length) := by
  have hfind := v.findList_fst list relay t
  simp only [Operand.eval, read, Eval.apply_bind, hfind, itemsOf]
  cases v.scene.findList? v.figure list <;> rfl

theorem eval_position : ((Operand.search .position list relay o).eval v t).1 =
    .number (.ofNat (positionOf (v.itemsOf list) (v.argument list relay o t))) := by
  have hfind := v.findList_fst list relay t
  simp only [Operand.eval, Eval.apply_bind, hfind, itemsOf]
  cases v.scene.findList? v.figure list <;> rfl

theorem test_listHas : ((Predicate.listHas list relay o).test v t).1 =
    (v.itemsOf list).any (·.equals (v.argument list relay o t)) := by
  have hfind := v.findList_fst list relay t
  simp only [Predicate.test, Eval.apply_bind, hfind, itemsOf]
  cases v.scene.findList? v.figure list <;> rfl

/-- An index whose number is a position of the list reports the item there. -/
theorem eval_item {i : Nat} (hi : i < (v.itemsOf list).length) (hexact : i + 1 ≤ 2 ^ 53)
    (hindex : (v.argument list relay o t).toNumber = .ofNat (i + 1)) :
    ((Operand.search .item list relay o).eval v t).1 = (v.itemsOf list)[i] := by
  have hfind := v.findList_fst list relay t
  cases h : (v.scene.findList? v.figure list).map v.scene.itemsAt with
  | none => simp [itemsOf, h] at hi
  | some items =>
    obtain rfl : v.itemsOf list = items := by simp only [itemsOf, h, Option.getD_some]
    simp only [Operand.eval, Eval.apply_bind, hfind, h]
    exact ListQuery.answer_item hi hexact hindex _

end View

/-- The reporters that look for a value in a list agree. One reports a position, and another that there is an equal item
exactly if this number is not zero. Then the position is one of the list, the item that is reported there is equal to
the value and none before it is; and if the position is zero, no item is. Numbers count positions exactly up to
`2 ^ 53`, which is more than any memory has room for. -/
theorem list_searches_agree (v : View) (list : Ref) (x : Value) :
    let k := positionOf (v.itemsOf list) x
    let n := (v.itemsOf list).length
    k ≤ n ∧
    (∀ relay t, ((Operand.source (.listLength list) relay).eval v t).1 = .number (.ofNat n)) ∧
    (∀ relay o t, v.argument list relay o t = x →
      ((Operand.search .position list relay o).eval v t).1 = .number (.ofNat k) ∧
      (((Predicate.listHas list relay o).test v t).1 = true ↔ Number.ofNat k ≠ 0)) ∧
    (Number.ofNat k = 0 ↔ k = 0) ∧
    (∀ i j : Nat, i ≤ 2 ^ 53 → j ≤ 2 ^ 53 → (Number.ofNat i < Number.ofNat j ↔ i < j)) ∧
    ∀ i : Nat, 1 ≤ i → i ≤ n → i ≤ 2 ^ 53 → ∃ y,
      (∀ relay o t, (v.argument list relay o t).toNumber = .ofNat i →
        ((Operand.search .item list relay o).eval v t).1 = y) ∧
      (i = k → y.equals x = true) ∧ (k = 0 ∨ i < k → y.equals x = false) := by
  intro k n
  obtain ⟨hk, hany, hitems⟩ := positionOf_spec (v.itemsOf list) x
  refine ⟨hk, v.eval_length list, ?_, Number.ofNat_eq_zero_iff, ?_, ?_⟩
  · rintro relay o t rfl
    refine ⟨v.eval_position list relay o t, ?_⟩
    rw [v.test_listHas, hany, decide_eq_true_eq, Ne, Ne, Number.ofNat_eq_zero_iff]
  · intro i j hi hj
    exact Number.ofNat_lt_iff hi hj
  · intro i hfirst hlast hexact
    obtain ⟨j, rfl⟩ : ∃ j, i = j + 1 := ⟨i - 1, by omega⟩
    obtain ⟨hequal, hother⟩ := hitems j hlast
    exact ⟨(v.itemsOf list)[j], fun relay o t => v.eval_item list relay o t hlast hexact, hequal, hother⟩

/-- The number one is found by another spelling, as the second of two items. -/
theorem shelf_found_by_spelling :
    let v : View := ⟨Value.shelf, 0⟩
    let list : Ref := ⟨"things", "l"⟩
    let x : Value := .text "0x1"
    (∀ t, ((Operand.search .position list 0 (.constant x)).eval v t).1 = .number 2 ∧
      ((Predicate.listHas list 0 (.constant x)).test v t).1 = true) ∧
    ∃ y, (∀ t, ((Operand.search .item list 0 (.constant (.text "2.0"))).eval v t).1 = y) ∧ y.equals x = true := by
  intro v list x
  obtain ⟨-, -, hfound, hzero, -, hitem⟩ := list_searches_agree v list x
  have hk : positionOf (v.itemsOf list) x = 2 := by decide +kernel
  rw [hk] at hfound hzero hitem
  refine ⟨?_, ?_⟩
  · intro t
    obtain ⟨hposition, hhas⟩ := hfound 0 (.constant x) t (v.argument_constant list 0 t x)
    exact ⟨hposition, hhas.mpr (mt hzero.mp (by decide))⟩
  · obtain ⟨y, hy, hequal, -⟩ := hitem 2 (by decide) (by decide) (by decide)
    refine ⟨y, fun t => hy 0 _ t ?_, hequal rfl⟩
    rw [v.argument_constant]
    decide +kernel

end BlockScript
