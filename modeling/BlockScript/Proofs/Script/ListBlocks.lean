import BlockScript.Proofs.Scene.ListIndex
import BlockScript.Proofs.Script.ListStore
import BlockScript.Proofs.Script.Settings
import BlockScript.Proofs.Script.Tandem

/-!
Blocks that edit lists at a position. A block reads its position from an operand and resolves it in the list as it is
then. What it resolves to is edited there and nowhere else, an insertion into a full list is told in the log, and a
position that is not there leaves the list alone.
-/
namespace BlockScript

/-! ### Finding a list -/

theorem Scene.listAt?_of_figure {s : Scene} {n : Nat} {f : Figure} {l : ListVariable} (hf : s.figure? n = some f)
    (hl : l ∈ f.lists) : ∃ l', s.listAt? ⟨n, l.id⟩ = some l' := by
  have : (f.listWithId? l.id).isSome := List.find?_isSome.mpr ⟨l, hl, by simp⟩
  obtain ⟨l', hl'⟩ := Option.isSome_iff_exists.mp this
  exact ⟨l', by simp only [listAt?, hf, Option.bind_some, hl']⟩

/-- What a reference finds is a list of the scene. -/
theorem Scene.listAt?_of_findList? {s : Scene} {figure : Nat} {ref : Ref} {a : Address}
    (h : s.findList? figure ref = some a) : ∃ l, s.listAt? a = some l := by
  have look {pick : Figure → Option ListVariable} {n : Nat} (hpick : ∀ f l, pick f = some l → l ∈ f.lists)
      (h : (((s.figure? n).bind fun f => (pick f).map (·.id)).map fun id => (⟨n, id⟩ : Address)) = some a) :
      ∃ l, s.listAt? a = some l := by
    simp only [Option.map_eq_some_iff, Option.bind_eq_some_iff] at h
    obtain ⟨id, ⟨f, hf, l, hl, rfl⟩, rfl⟩ := h
    exact listAt?_of_figure hf (hpick f l hl)
  have byId (f : Figure) (l : ListVariable) (h : f.listWithId? ref.id = some l) : l ∈ f.lists := List.mem_of_find?_eq_some h
  have byName (f : Figure) (l : ListVariable) (h : f.listNamed? ref.name = some l) : l ∈ f.lists :=
    List.mem_of_find?_eq_some h
  simp only [findList?, resolve?, Option.or_eq_some_iff, Option.bind_eq_some_iff] at h
  rcases h with h | ⟨-, ⟨n, -, h⟩ | ⟨-, h | ⟨-, n, -, h⟩⟩⟩
  · exact look byId h
  · exact look byId h
  · exact look byName h
  · exact look byName h

/-! ### Positions -/

namespace World

/-- An operand is read as a position. Apart from what the operand leaves, a draw may be used up. -/
structure Locates (w : World) (c : Caller) (index : Operand Nat) (length : Nat) (acceptAll : Bool) (i : ListIndex)
    (w' : World) : Prop where
  resolves : (w.evaluate c.figure index.eval).1.Resolves length acceptAll i
  world : ∃ random, w' = { w with traces := { (w.evaluate c.figure index.eval).2.traces with random } }

/-- A list is edited, which is announced once and not logged. -/
def Edits (w : World) (a : Address) (e : ListEdit) (w' : World) : Prop :=
  ∃ items answer, e.Makes (w.scene.itemsAt a) items answer ∧ w' = w.change (.items a items) ∧
    w'.scene.itemsAt a = items ∧ w'.traces.logs = w.traces.logs

/-- An item is taken out where the position resolves to, or all of them are. -/
def DeletesAt (w : World) (c : Caller) (a : Address) (index : Operand Nat) (w' : World) : Prop :=
  ∃ i w₁, w.Locates c index (w.scene.itemsAt a).length true i w₁ ∧
    match i with
    | .item n => w₁.Edits a (.remove n) w'
    | .all => w₁.Edits a .clear w'
    | .invalid => w' = w₁

/-- An item is replaced where the position resolves to; the new one is only evaluated then. -/
def ReplacesAt (w : World) (c : Caller) (a : Address) (index item : Operand Nat) (w' : World) : Prop :=
  ∃ i w₁, w.Locates c index (w.scene.itemsAt a).length false i w₁ ∧
    match i with
    | .item n =>
      let (v, w₂) := w₁.evaluate c.figure item.eval
      w₂.Edits a (.replace n v) w'
    | _ => w' = w₁

/-- An item is inserted where the position resolves to, one past the end included. If the list is full, this is told
instead. -/
def InsertsAt (w : World) (c : Caller) (list : Ref) (a : Address) (item index : Operand Nat) (w' : World) : Prop :=
  let items := w.scene.itemsAt a
  let (v, w₀) := w.evaluate c.figure item.eval
  ∃ i w₁, w₀.Locates c index (items.length + 1) false i w₁ ∧
    match i with
    | .item n =>
      if items.length < w.scene.config.listItemLimit then
        w₁.Edits a (.insert n v) w' ∧ (n = items.length + 1 → w'.scene.itemsAt a = items ++ [v])
      else w' =
        let figure := w.scene.figureName c.figure
        let name := list.text
        w₁.log (.warn s!"[{figure}] cannot insert into list {name} at {n}")
    | _ => w' = w₁

variable {w w' : World} {a : Address}

theorem Locates.scene {c : Caller} {index : Operand Nat} {length : Nat} {acceptAll : Bool} {i : ListIndex}
    (h : w.Locates c index length acceptAll i w') : w'.scene = w.scene := by
  obtain ⟨random, rfl⟩ := h.world
  rfl

theorem Edits.insert_end {n : Nat} {v : Value} (h : w.Edits a (.insert n v) w')
    (hn : n = (w.scene.itemsAt a).length + 1) : w'.scene.itemsAt a = w.scene.itemsAt a ++ [v] := by
  obtain ⟨items, answer, hmakes, -, hitems, -⟩ := h
  rw [hitems]
  generalize w.scene.itemsAt a = old at hmakes hn
  cases hmakes with
  | insert before rest =>
    obtain rfl : rest = [] := by
      rw [List.length_append] at hn
      exact List.length_eq_zero_iff.mp (by omega)
    rw [List.append_nil]

theorem edit_of_suits {e : ListEdit} {l : ListVariable} (h : w.scene.listAt? a = some l)
    (suits : e.Suits w.scene.config.listItemLimit (w.scene.itemsAt a).length) :
    w.Edits a e (w.edit a e).1 ∧ (w.edit a e).2 = true := by
  obtain ⟨outcome, happly, hmakes⟩ := ListEdit.apply_of_suits suits
  have hedit : w.edit a e = (w.change (.items a outcome.1), true) := by
    simp only [World.edit, happly]
  rw [hedit]
  have hitems : (w.change (.items a outcome.1)).scene.itemsAt a = outcome.1 := by
    have hset := w.scene.listAt?_setItems a outcome.1
    rw [h, Option.map_some] at hset
    exact congrArg (·.getD []) hset
  exact ⟨⟨_, _, hmakes, rfl, hitems, rfl⟩, rfl⟩

theorem edit_of_not_suits {e : ListEdit} (h : ¬e.Suits w.scene.config.listItemLimit (w.scene.itemsAt a).length) :
    w.edit a e = (w, false) := by
  simp only [World.edit, ListEdit.apply_of_not_suits h]

end World

/-! ### Runs -/

namespace Run

theorem apply_evaluate {α : Type} (c : Caller) (m : View → Eval α) (w : World) :
    Run.evaluate c m w = (.ok (w.evaluate c.figure m).1, (w.evaluate c.figure m).2) := rfl

theorem apply_ask {α : Type} (f : Scene → α) (w : World) : Run.ask f w = (.ok (f w.scene), w) := rfl

theorem apply_edit (a : Address) (e : ListEdit) (w : World) :
    Run.edit a e w = (.ok (w.edit a e).2, (w.edit a e).1) := rfl

end Run

namespace World

theorem exists_locates (w : World) (c : Caller) (index : Operand Nat) {length : Nat} (hlength : length ≤ 2 ^ 53)
    (acceptAll : Bool) :
    ∃ i w', w.Locates c index length acceptAll i w' ∧
      (w.evaluate c.figure index.eval).2.evaluate c.figure
        (fun _ => resolveIndex (w.evaluate c.figure index.eval).1 length acceptAll) = (i, w') := by
  generalize hv : (w.evaluate c.figure index.eval).1 = v
  generalize hw : (w.evaluate c.figure index.eval).2 = w₀
  obtain ⟨draw, random, h⟩ := resolveIndex_eq v length acceptAll w₀.traces
  refine ⟨listIndex v length acceptAll draw, { w₀ with traces := { w₀.traces with random } }, ⟨?_, random, ?_⟩, ?_⟩
  · rw [hv]
    exact listIndex_resolves v hlength acceptAll draw
  · rw [← hw]
    rfl
  · simp only [World.evaluate, h]

variable {w : World} {c : Caller} {list : Ref} {a : Address}

theorem command_deleteOfList (found : w.scene.findList? c.figure list = some a)
    (hlength : (w.scene.itemsAt a).length ≤ 2 ^ 53) (index : Operand Nat) :
    w.DeletesAt c a index (w.command c (.deleteOfList list index)) := by
  obtain ⟨i, w₁, located, hresolve⟩ := w.exists_locates c index hlength true
  obtain ⟨l, hl⟩ := Scene.listAt?_of_findList? found
  have hscene := located.scene
  rw [← hscene] at hl
  refine ⟨i, w₁, located, ?_⟩
  simp only [command, Command.run, Run.deleteOfList, Run.apply_bind, Run.apply_findList, found, Option.elim_some,
    Run.apply_evaluate, Run.apply_ask, evaluate_scene, hresolve]
  cases i with
  | item n =>
    have suits : (ListEdit.remove n).Suits w₁.scene.config.listItemLimit (w₁.scene.itemsAt a).length := by
      rw [hscene]
      exact located.resolves.range n rfl
    exact (edit_of_suits hl suits).1
  | all =>
    have suits : ListEdit.clear.Suits w₁.scene.config.listItemLimit (w₁.scene.itemsAt a).length := trivial
    exact (edit_of_suits hl suits).1
  | invalid => rfl

theorem command_replaceItemOfList (found : w.scene.findList? c.figure list = some a)
    (hlength : (w.scene.itemsAt a).length ≤ 2 ^ 53) (index item : Operand Nat) :
    w.ReplacesAt c a index item (w.command c (.replaceItemOfList list index item)) := by
  obtain ⟨i, w₁, located, hresolve⟩ := w.exists_locates c index hlength false
  obtain ⟨l, hl⟩ := Scene.listAt?_of_findList? found
  have hscene := located.scene
  rw [← hscene] at hl
  refine ⟨i, w₁, located, ?_⟩
  simp only [command, Command.run, Run.replaceItemOfList, Run.apply_bind, Run.apply_findList, found, Option.elim_some,
    Run.apply_evaluate, Run.apply_ask, evaluate_scene, hresolve]
  cases i with
  | item n =>
    simp only [Run.apply_bind, Run.apply_evaluate]
    have suits : (ListEdit.replace n (w₁.evaluate c.figure item.eval).1).Suits w₁.scene.config.listItemLimit
        (w₁.scene.itemsAt a).length := by
      rw [hscene]
      exact located.resolves.range n rfl
    rw [← evaluate_scene w₁ c.figure item.eval] at hl suits
    exact (edit_of_suits hl suits).1
  | all => rfl
  | invalid => rfl

theorem command_insertAtList (found : w.scene.findList? c.figure list = some a)
    (hlength : (w.scene.itemsAt a).length < 2 ^ 53) (item index : Operand Nat) :
    w.InsertsAt c list a item index (w.command c (.insertAtList list item index)) := by
  obtain ⟨i, w₁, located, hresolve⟩ := (w.evaluate c.figure item.eval).2.exists_locates c index hlength false
  obtain ⟨l, hl⟩ := Scene.listAt?_of_findList? found
  have hscene := located.scene
  rw [evaluate_scene] at hscene
  rw [← hscene] at hl
  refine ⟨i, w₁, located, ?_⟩
  simp only [command, Command.run, Run.insertAtList, Run.apply_bind, Run.apply_findList, found, Option.elim_some,
    Run.apply_evaluate, Run.apply_ask, evaluate_scene, hresolve]
  cases i with
  | item n =>
    obtain ⟨hfirst, hlast⟩ := located.resolves.range n rfl
    simp only [Run.apply_bind, Run.apply_edit]
    split
    · rename_i room
      have suits : (ListEdit.insert n (w.evaluate c.figure item.eval).1).Suits w₁.scene.config.listItemLimit
          (w₁.scene.itemsAt a).length := by
        rw [hscene]
        exact ⟨room, hfirst, hlast⟩
      obtain ⟨hedits, haccepted⟩ := edit_of_suits hl suits
      rw [haccepted, ← hscene]
      exact ⟨hedits, hedits.insert_end⟩
    · rename_i full
      have refused : ¬(ListEdit.insert n (w.evaluate c.figure item.eval).1).Suits w₁.scene.config.listItemLimit
          (w₁.scene.itemsAt a).length := by
        rw [hscene]
        exact fun suits => full suits.1
      rw [edit_of_not_suits refused, ← hscene]
      rfl
  | all => rfl
  | invalid => rfl

/-- Positions resolve within the list, the word for all items only where it is accepted, and the blocks do what they
resolve to: a list of a reference is edited there and announced once, and told to be full exactly if there is no room at
such a position. A position that resolves to nothing leaves all as evaluating the operands left it, but for a draw. -/
theorem list_blocks_edit_exactly (found : w.scene.findList? c.figure list = some a)
    (hlength : (w.scene.itemsAt a).length < 2 ^ 53) (item index : Operand Nat) :
    (∀ (v : Value) (length : Nat) (acceptAll : Bool) (draw : Nat), length < 2 ^ 53 →
      v.Resolves length acceptAll (listIndex v length acceptAll draw)) ∧
    w.DeletesAt c a index (w.command c (.deleteOfList list index)) ∧
    w.ReplacesAt c a index item (w.command c (.replaceItemOfList list index item)) ∧
    w.InsertsAt c list a item index (w.command c (.insertAtList list item index)) := by
  refine ⟨?_, ?_, ?_, ?_⟩
  · intro v length acceptAll draw h
    exact listIndex_resolves v (Nat.le_of_lt h) acceptAll draw
  · exact command_deleteOfList found (Nat.le_of_lt hlength) index
  · exact command_replaceItemOfList found (Nat.le_of_lt hlength) index item
  · exact command_insertAtList found hlength item index

end World

/-- A fraction past the end of the only item appends another, and one position further nothing is inserted. -/
theorem narrow_insertions :
    let list : Ref := ⟨"things", "l"⟩
    let a : Address := ⟨0, "l"⟩
    let insert (index : Value) := narrow.command ⟨0, 0⟩ (.insertAtList list (.constant (.boolean true)) (.constant index))
    narrow.scene.findList? 0 list = some a ∧ (narrow.scene.itemsAt a).length < 2 ^ 53 ∧
    (insert (.text "2.9")).scene.itemsAt a = [.text "x", .boolean true] ∧
    (insert (.text "3")).scene.itemsAt a = [.text "x"] := by
  intro list a insert
  have found : narrow.scene.findList? 0 list = some a := by decide
  have hlength : (narrow.scene.itemsAt a).length < 2 ^ 53 := by decide
  have room : (narrow.scene.itemsAt a).length < narrow.scene.config.listItemLimit := by decide
  refine ⟨found, hlength, ?_, ?_⟩
  · obtain ⟨-, -, -, i, w₁, located, h⟩ := World.list_blocks_edit_exactly (c := ⟨0, 0⟩) found hlength
      (.constant (.boolean true)) (.constant (.text "2.9"))
    have resolves : Value.Resolves (.text "2.9") 2 false i := located.resolves
    obtain rfl : i = .item 2 := (resolves.floor_iff (by decide) 2).mpr (by decide +kernel)
    simp only [room, if_true] at h
    exact h.2 rfl
  · obtain ⟨-, -, -, i, w₁, located, h⟩ := World.list_blocks_edit_exactly (c := ⟨0, 0⟩) found hlength
      (.constant (.boolean true)) (.constant (.text "3"))
    have resolves : Value.Resolves (.text "3") 2 false i := located.resolves
    have hfloor : (Value.toNumber (.text "3")).floor? = some 3 := by decide +kernel
    have hscene : w₁.scene = narrow.scene := located.scene
    cases i with
    | item n =>
      obtain ⟨hn, -, hlast⟩ := (resolves.floor_iff (by decide) n).mp rfl
      rw [hfloor, Option.some.injEq] at hn
      omega
    | all =>
      show (narrow.command _ _).scene.itemsAt a = _
      rw [h, hscene]
      rfl
    | invalid =>
      show (narrow.command _ _).scene.itemsAt a = _
      rw [h, hscene]
      rfl

end BlockScript
