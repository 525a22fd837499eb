import BlockScript.Proofs.Script.Realm
import BlockScript.Scene.ListBench

/-!
Lists under edits. The limit and the length of a list tell which edits suit it. What suits is done at its position,
counted from one, is answered so and announced once; all else is refused, changes nothing and is not announced. The
list of a scene holds what a list on its own holds after the same edits, and no list grows beyond its limit, though it
may start there.
-/
namespace BlockScript
namespace ListEdit

/-- Whether a list of a length takes an edit. -/
def Suits (limit length : Nat) : ListEdit → Prop
  | .push _ => length < limit
  | .insert index _ => length < limit ∧ 1 ≤ index ∧ index ≤ length + 1
  | .replace index _ => 1 ≤ index ∧ index ≤ length
  | .remove index => 1 ≤ index ∧ index ≤ length
  | .clear => True

instance (limit length : Nat) : (e : ListEdit) → Decidable (e.Suits limit length)
  | .push _ => inferInstanceAs (Decidable (_ < _))
  | .insert .. => inferInstanceAs (Decidable (_ ∧ _))
  | .replace .. => inferInstanceAs (Decidable (_ ∧ _))
  | .remove _ => inferInstanceAs (Decidable (_ ∧ _))
  | .clear => inferInstanceAs (Decidable True)

/-- What an edit makes of a list, and what it answers then. The items before its position tell the position. -/
inductive Makes : ListEdit → List Value → List Value → ListAnswer → Prop
  | push (items : List Value) (v : Value) : Makes (.push v) items (items ++ [v]) (.accepted true)
  | insert (before rest : List Value) (v : Value) :
      Makes (.insert (before.length + 1) v) (before ++ rest) (before ++ v :: rest) (.accepted true)
  | replace (before rest : List Value) (old v : Value) :
      Makes (.replace (before.length + 1) v) (before ++ old :: rest) (before ++ v :: rest) (.accepted true)
  | remove (before rest : List Value) (old : Value) :
      Makes (.remove (before.length + 1)) (before ++ old :: rest) (before ++ rest) (.item (some old))
  | clear (items : List Value) : Makes .clear items [] .nothing

/-- What an edit answers that is refused. -/
def refusal : ListEdit → ListAnswer
  | .remove _ => .item none
  | .clear => .nothing
  | _ => .accepted false

variable {e : ListEdit} {limit index : Nat} {items after : List Value}

/-- A position of a list splits it. -/
theorem exists_split (h : 1 ≤ index ∧ index ≤ items.length) :
    ∃ before old rest, items = before ++ old :: rest ∧ index = before.length + 1 := by
  obtain ⟨i, rfl⟩ : ∃ i, index = i + 1 := ⟨index - 1, by omega⟩
  refine ⟨items.take i, items[i], items.drop (i + 1), ?_, ?_⟩
  · rw [List.getElem_cons_drop, List.take_append_drop]
  · rw [List.length_take_of_le (by omega)]

theorem apply_of_suits (h : e.Suits limit items.length) :
    ∃ outcome, e.apply limit items = some outcome ∧
      e.Makes items outcome.1 (ListBench.editAnswer e (some outcome)) := by
  cases e with
  | push v => exact ⟨_, if_pos h, .push items v⟩
  | insert index v =>
    refine ⟨_, if_pos h, ?_⟩
    have hlength : (items.take (index - 1)).length + 1 = index := by
      rw [List.length_take_of_le (by have := h.2.2; omega)]
      exact Nat.sub_add_cancel h.2.1
    have hmakes := Makes.insert (items.take (index - 1)) (items.drop (index - 1)) v
    rwa [hlength, List.take_append_drop] at hmakes
  | replace index v =>
    refine ⟨_, if_pos h, ?_⟩
    obtain ⟨before, old, rest, rfl, rfl⟩ := exists_split h
    simpa [ListBench.editAnswer] using Makes.replace before rest old v
  | remove index =>
    refine ⟨_, if_pos h, ?_⟩
    obtain ⟨before, old, rest, rfl, rfl⟩ := exists_split h
    simpa [itemAt?, ListBench.editAnswer, List.eraseIdx_append_of_length_le] using Makes.remove before rest old
  | clear => exact ⟨_, rfl, .clear items⟩

theorem apply_of_not_suits (h : ¬e.Suits limit items.length) : e.apply limit items = none := by
  cases e with
  | clear => exact absurd trivial h
  | _ => exact if_neg h

/-- Only a list below its limit grows, and by one item. -/
theorem Makes.length_le {answer : ListAnswer} (h : e.Makes items after answer) (suits : e.Suits limit items.length) :
    after.length ≤ max items.length limit := by
  cases h with
  | push v =>
    have hlimit : items.length < limit := suits
    simp only [List.length_append, List.length_cons, List.length_nil]
    omega
  | insert before rest v =>
    have hlimit := suits.1
    simp only [List.length_append, List.length_cons] at hlimit ⊢
    omega
  | replace before rest old v =>
    simp only [List.length_append, List.length_cons]
    omega
  | remove before rest old =>
    simp only [List.length_append, List.length_cons]
    omega
  | clear => exact Nat.zero_le _

end ListEdit

/-! ### A list on its own -/

namespace ListBench

variable {b : ListBench} {e : ListEdit}

/-- The list after edits in order. -/
def after (b : ListBench) (edits : List ListEdit) : ListBench := edits.foldl (fun b e => (b.perform (.edit e)).1) b

theorem perform_of_apply {outcome : List Value × Option Value} (h : e.apply b.limit b.items = some outcome) :
    b.perform (.edit e) = ({ b with items := outcome.1, changes := b.changes + 1 }, editAnswer e (some outcome)) := by
  simp only [perform, h]

theorem perform_refused (h : ¬e.Suits b.limit b.items.length) : b.perform (.edit e) = (b, e.refusal) := by
  have happly := ListEdit.apply_of_not_suits h
  cases e with
  | clear => exact absurd trivial h
  | _ => simp only [perform, happly, editAnswer, ListEdit.refusal, Option.bind_none, Option.isSome_none]

/-- An edit keeps the limit, and the length below the larger of the limit and what it was. -/
theorem perform_bounded (b : ListBench) (e : ListEdit) :
    (b.perform (.edit e)).1.limit = b.limit ∧
      (b.perform (.edit e)).1.items.length ≤ max b.items.length b.limit := by
  by_cases suits : e.Suits b.limit b.items.length
  · obtain ⟨outcome, happly, hmakes⟩ := ListEdit.apply_of_suits suits
    rw [perform_of_apply happly]
    exact ⟨rfl, hmakes.length_le suits⟩
  · rw [perform_refused suits]
    exact ⟨rfl, Nat.le_max_left _ _⟩

theorem after_bounded (b : ListBench) (edits : List ListEdit) :
    (b.after edits).limit = b.limit ∧ (b.after edits).items.length ≤ max b.items.length b.limit := by
  induction edits generalizing b with
  | nil => exact ⟨rfl, Nat.le_max_left _ _⟩
  | cons e edits ih =>
    obtain ⟨hlimit, hlength⟩ := perform_bounded b e
    obtain ⟨hlimit', hlength'⟩ := ih (b.perform (.edit e)).1
    refine ⟨hlimit'.trans hlimit, Nat.le_trans hlength' ?_⟩
    rw [hlimit]
    exact Nat.max_le.mpr ⟨hlength, Nat.le_max_right _ _⟩

end ListBench

/-! ### A list of a scene -/

theorem Scene.listAt?_setItems (s : Scene) (a : Address) (items : List Value) :
    ((s.setItems a items).listAt? a).map (·.items) = (s.listAt? a).map fun _ => items := by
  simp only [listAt?, setItems, figure?_modifyFigure, if_pos]
  cases s.figure? a.figure with
  | none => rfl
  | some f =>
    refine Change.find?_map_update (fun _ => items) (fun x => ?_) (fun x hx => ?_) f.lists
    · split <;> rfl
    · simp [hx]

namespace World

variable {w : World} {a : Address} {b : ListBench} {e : ListEdit}

/-- The world after edits of one of its lists in order. -/
def afterEdits (w : World) (a : Address) (edits : List ListEdit) : World := edits.foldl (fun w e => (w.edit a e).1) w

/-- A list of the scene has the items and the limit of a list on its own. -/
structure Carries (w : World) (a : Address) (b : ListBench) : Prop where
  items : (w.scene.listAt? a).map (·.items) = some b.items
  limit : w.scene.config.listItemLimit = b.limit

namespace Carries

theorem apply_eq (h : w.Carries a b) (e : ListEdit) :
    e.apply w.scene.config.listItemLimit (w.scene.itemsAt a) = e.apply b.limit b.items := by
  rw [Scene.itemsAt, h.items, h.limit, Option.getD_some]

theorem edit_of_apply (h : w.Carries a b) {outcome : List Value × Option Value}
    (happly : e.apply b.limit b.items = some outcome) :
    w.edit a e = ({ w with scene := w.scene.setItems a outcome.1 }.raise (.list a), true) := by
  simp only [World.edit, h.apply_eq, happly]
  rfl

theorem edit_refused (h : w.Carries a b) (refused : e.apply b.limit b.items = none) : w.edit a e = (w, false) := by
  simp only [World.edit, h.apply_eq, refused]

theorem edit (h : w.Carries a b) (e : ListEdit) : (w.edit a e).1.Carries a (b.perform (.edit e)).1 := by
  by_cases suits : e.Suits b.limit b.items.length
  · obtain ⟨outcome, happly, -⟩ := ListEdit.apply_of_suits suits
    rw [h.edit_of_apply happly, ListBench.perform_of_apply happly]
    refine ⟨?_, h.limit⟩
    obtain ⟨l, hlist, -⟩ := Option.map_eq_some_iff.mp h.items
    exact (Scene.listAt?_setItems _ _ _).trans (congrArg (Option.map _) hlist)
  · rw [h.edit_refused (ListEdit.apply_of_not_suits suits), ListBench.perform_refused suits]
    exact h

theorem after (h : w.Carries a b) (edits : List ListEdit) : (w.afterEdits a edits).Carries a (b.after edits) := by
  induction edits generalizing w b with
  | nil => exact h
  | cons e edits ih => exact ih (h.edit e)

end Carries
end World

/-- Edits of a list after any others. The length stays below the larger of the limit and the first length. An edit that
suits is done at its position, is answered so and announced once, in a scene as for a list on its own; any other is
refused, and then nothing changes and nothing is announced. -/
theorem ListBench.edits_announced_once (start : ListBench) (edits : List ListEdit) :
    let b := start.after edits
    b.items.length ≤ max start.items.length start.limit ∧
    (∀ (w : World) (a : Address), w.Carries a start → (w.afterEdits a edits).Carries a b) ∧
    ∀ e : ListEdit,
      if e.Suits start.limit b.items.length then
        ∃ items answer, e.Makes b.items items answer ∧
          b.perform (.edit e) = ({ b with items, changes := b.changes + 1 }, answer) ∧
          ∀ (w : World) (a : Address), w.Carries a start →
            let w' := w.afterEdits a edits
            w'.edit a e = ({ w' with scene := w'.scene.setItems a items }.raise (.list a), true)
      else
        b.perform (.edit e) = (b, e.refusal) ∧
          ∀ (w : World) (a : Address), w.Carries a start →
            (w.afterEdits a edits).edit a e = (w.afterEdits a edits, false) := by
  intro b
  obtain ⟨hlimit, hlength⟩ := after_bounded start edits
  refine ⟨hlength, fun w a h => h.after edits, fun e => ?_⟩
  rw [← hlimit]
  split
  · rename_i suits
    obtain ⟨outcome, happly, hmakes⟩ := ListEdit.apply_of_suits suits
    exact ⟨_, _, hmakes, perform_of_apply happly, fun w a h => (h.after edits).edit_of_apply happly⟩
  · rename_i suits
    have refused := ListEdit.apply_of_not_suits suits
    exact ⟨perform_refused suits, fun w a h => (h.after edits).edit_refused refused⟩

/-- A world whose only list has one item and room for another. -/
def narrow : World :=
  .ofScene
    { figures := [⟨"Stage", true, [], [⟨"l", "things", [.text "x"]⟩], [], ⟨0, 0, 90⟩, ⟨100, 0, 0⟩⟩],
      pointer := .fixed 0 0, config := { Config.default with listItemLimit := 2 } }

/-- The second of two items fills the list: a third is refused, and so is a position at the end of the word range,
while the last item can still be taken out. -/
theorem narrow_fills_up :
    let a : Address := ⟨0, "l"⟩
    let start : ListBench := ⟨[.text "x"], 2, 0⟩
    let w := narrow.afterEdits a [.push (.boolean true)]
    narrow.Carries a start ∧
    w.edit a (.push .empty) = (w, false) ∧
    w.edit a (.replace 18446744073709551615 .empty) = (w, false) ∧
    ∃ items, (ListEdit.remove 2).Makes [.text "x", .boolean true] items (.item (some (.boolean true))) ∧
      w.edit a (.remove 2) = ({ w with scene := w.scene.setItems a items }.raise (.list a), true) := by
  intro a start w
  have carries : narrow.Carries a start := ⟨rfl, rfl⟩
  have step := (ListBench.edits_announced_once start [.push (.boolean true)]).2.2
  have push := step (.push .empty)
  rw [if_neg (by decide)] at push
  have replace := step (.replace 18446744073709551615 .empty)
  rw [if_neg (by decide)] at replace
  have remove := step (.remove 2)
  rw [if_pos (by decide)] at remove
  obtain ⟨items, answer, makes, hperform, hedit⟩ := remove
  obtain rfl : ListAnswer.item (some (.boolean true)) = answer := congrArg Prod.snd hperform
  exact ⟨carries, push.2 narrow a carries, replace.2 narrow a carries, items, makes, hedit narrow a carries⟩

end BlockScript
