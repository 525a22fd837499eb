import BlockScript.Scene.Change
import Mathlib.Data.List.Basic

/-!
Changes of a scene are local. A change keeps the shape of the scene, so every reference stands for the
same variable or list as before, and it keeps all data but what is announced on its channel.
-/
namespace BlockScript

/-- What references are resolved by: whether the figure is a stage, and the ids and names of its
variables and lists. -/
structure Outline where
  isStage : Bool
  vars : List (String × String)
  lists : List (String × String)

/-- The outline of a figure. -/
def Figure.outline (f : Figure) : Outline :=
  ⟨f.isStage, f.vars.map fun x => (x.id, x.name), f.lists.map fun x => (x.id, x.name)⟩

namespace Scene

/-- Two scenes differ in data only. A pointer that does not move stays where it is. -/
structure SameShape (s t : Scene) : Prop where
  figures : t.figures.map Figure.outline = s.figures.map Figure.outline
  config : t.config = s.config
  pointer : t.pointer = s.pointer ∨ ∃ x y x' y', s.pointer = .tracked x y ∧ t.pointer = .tracked x' y'

/-- Two scenes have the same data on a channel. -/
def SameAt (s t : Scene) : Channel → Prop
  | .variable a => t.valueAt a = s.valueAt a
  | .list a => t.itemsAt a = s.itemsAt a
  | .moved figure => t.poseOf figure = s.poseOf figure
  | .audio figure => t.audioOf figure = s.audioOf figure
  | .pointer => t.pointer = s.pointer
  | .relay _ => True

variable {s t u : Scene}

theorem SameAt.refl (s : Scene) (c : Channel) : s.SameAt s c := by
  cases c <;> simp [SameAt]

theorem SameAt.trans {c : Channel} (h : s.SameAt t c) (h' : t.SameAt u c) : s.SameAt u c := by
  cases c <;> simp_all [SameAt]

namespace SameShape

theorem refl (s : Scene) : s.SameShape s := ⟨rfl, rfl, Or.inl rfl⟩

theorem trans (h : s.SameShape t) (h' : t.SameShape u) : s.SameShape u where
  figures := h'.figures.trans h.figures
  config := h'.config.trans h.config
  pointer := by
    rcases h.pointer with hp | ⟨x, y, x', y', hs, ht⟩ <;> rcases h'.pointer with hq | ⟨a, b, a', b', hs', ht'⟩
    · exact Or.inl (hq.trans hp)
    · exact Or.inr ⟨a, b, a', b', hp ▸ hs', ht'⟩
    · exact Or.inr ⟨x, y, x', y', hs, hq ▸ ht⟩
    · exact Or.inr ⟨x, y, a', b', hs, ht'⟩

/-! ### References -/

theorem figure?_bind {α : Type} (h : s.SameShape t) {pick : Figure → Option α} {look : Outline → Option α}
    (hpick : ∀ f, pick f = look f.outline) (n : Nat) : (t.figure? n).bind pick = (s.figure? n).bind pick := by
  have read : ∀ r : Scene, (r.figure? n).bind pick = ((r.figures.map Figure.outline)[n]?).bind look := by
    intro r
    rw [List.getElem?_map, Option.bind_map]
    exact congrArg _ (funext hpick)
  rw [read, read, h.figures]

theorem isSome_figure? (h : s.SameShape t) (n : Nat) : (t.figure? n).isSome = (s.figure? n).isSome := by
  have houtline := congrArg (fun outlines : List Outline => outlines[n]?.isSome) h.figures
  simpa [Scene.figure?] using houtline

theorem stage? (h : s.SameShape t) : t.stage? = s.stage? := by
  have read : ∀ r : Scene, r.stage? = (r.figures.map Figure.outline).findIdx? (·.isStage) := by
    intro r
    rw [List.findIdx?_map]
    rfl
  rw [read, read, h.figures]

theorem resolve? (h : s.SameShape t) {byId byName : Figure → Option String} (lookId lookName : Outline → Option String)
    (hid : ∀ f, byId f = lookId f.outline) (hname : ∀ f, byName f = lookName f.outline) (figure : Nat) :
    t.resolve? figure byId byName = s.resolve? figure byId byName := by
  unfold Scene.resolve?
  simp only [h.figure?_bind hid, h.figure?_bind hname, h.stage?]

theorem findVariable? (h : s.SameShape t) (figure : Nat) (ref : Ref) :
    t.findVariable? figure ref = s.findVariable? figure ref := by
  refine h.resolve? (fun o => (o.vars.find? (·.1 == ref.id)).map (·.1))
    (fun o => (o.vars.find? (·.2 == ref.name)).map (·.1)) (fun f => ?_) (fun f => ?_) figure
  · simp [Figure.outline, Figure.variableWithId?, List.find?_map, Function.comp_def]
  · simp [Figure.outline, Figure.variableNamed?, List.find?_map, Function.comp_def]

theorem findList? (h : s.SameShape t) (figure : Nat) (ref : Ref) :
    t.findList? figure ref = s.findList? figure ref := by
  refine h.resolve? (fun o => (o.lists.find? (·.1 == ref.id)).map (·.1))
    (fun o => (o.lists.find? (·.2 == ref.name)).map (·.1)) (fun f => ?_) (fun f => ?_) figure
  · simp [Figure.outline, Figure.listWithId?, List.find?_map, Function.comp_def]
  · simp [Figure.outline, Figure.listNamed?, List.find?_map, Function.comp_def]

theorem channels (h : s.SameShape t) : t.channels = s.channels := by
  have read : ∀ r : Scene, r.channels = .pointer :: ((r.figures.map Figure.outline).mapIdx fun n o =>
      o.vars.map (fun x => Channel.variable ⟨n, x.1⟩) ++ o.lists.map (fun x => Channel.list ⟨n, x.1⟩) ++
        [.moved n, .audio n]).flatten := by
    intro r
    refine congrArg (Channel.pointer :: ·.flatten) (List.ext_getElem? fun n => ?_)
    simp [Figure.channels, Figure.outline, Function.comp_def]
  rw [read, read, h.figures]

end SameShape

/-! ### Changes -/

theorem figure?_modifyFigure (n m : Nat) (f : Figure → Figure) :
    (s.modifyFigure n f).figure? m = if n = m then (s.figure? m).map f else s.figure? m := by
  simp only [figure?, modifyFigure, List.getElem?_modify]
  split <;> simp

theorem poseOf_setPose_self {n : Nat} (h : (s.figure? n).isSome = true) (p : Pose) : (s.setPose n p).poseOf n = p := by
  obtain ⟨f, hf⟩ := Option.isSome_iff_exists.mp h
  rw [poseOf, setPose, figure?_modifyFigure, if_pos rfl, hf]
  rfl

/-- Whatever is read off a figure is kept by an update of that figure that keeps it, and by any update
of another figure. -/
theorem figure?_modifyFigure_bind {α : Type} {n m : Nat} {f : Figure → Figure} (pick : Figure → Option α)
    (hpick : n = m → ∀ g, pick (f g) = pick g) :
    ((s.modifyFigure n f).figure? m).bind pick = (s.figure? m).bind pick := by
  rw [figure?_modifyFigure]
  split
  · rename_i hn
    rw [Option.bind_map]
    exact congrArg _ (funext (hpick hn))
  · rfl

theorem sameShape_modifyFigure (n : Nat) {f : Figure → Figure} (hf : ∀ g, (f g).outline = g.outline) :
    s.SameShape (s.modifyFigure n f) where
  figures := by
    refine List.ext_getElem? fun m => ?_
    simp only [modifyFigure, List.getElem?_map, List.getElem?_modify]
    split
    · cases s.figures[m]? with
      | none => rfl
      | some g => exact congrArg some (hf g)
    · simp
  config := rfl
  pointer := Or.inl rfl

end Scene

namespace Change

/-- A change keeps the shape of the scene. -/
theorem sameShape (c : Change) (s : Scene) : s.SameShape (c.apply s) := by
  cases c with
  | «variable» a v =>
    refine Scene.sameShape_modifyFigure _ fun g => ?_
    simp only [Figure.outline, List.map_map, Outline.mk.injEq, true_and, and_true]
    refine List.map_congr_left fun x _ => ?_
    simp only [Function.comp_apply]
    split <;> rfl
  | items a vs =>
    refine Scene.sameShape_modifyFigure _ fun g => ?_
    simp only [Figure.outline, List.map_map, Outline.mk.injEq, true_and]
    refine List.map_congr_left fun x _ => ?_
    simp only [Function.comp_apply]
    split <;> rfl
  | pose figure p => exact Scene.sameShape_modifyFigure _ fun _ => rfl
  | audio figure a => exact Scene.sameShape_modifyFigure _ fun _ => rfl
  | pointer x y =>
    simp only [apply, Scene.setPointer]
    split
    · rename_i a b hp
      exact ⟨rfl, rfl, Or.inr ⟨a, b, x, y, hp, rfl⟩⟩
    · exact Scene.SameShape.refl s

/-- A change of one figure that keeps what is read there keeps the data on a channel. -/
theorem sameAt_modifyFigure {s : Scene} {n : Nat} {f : Figure → Figure} {k : Channel}
    (vars : ∀ a, k = .variable a → n = a.figure → ∀ g : Figure,
      ((f g).variableWithId? a.id).map (·.value) = (g.variableWithId? a.id).map (·.value))
    (lists : ∀ a, k = .list a → n = a.figure → ∀ g : Figure,
      ((f g).listWithId? a.id).map (·.items) = (g.listWithId? a.id).map (·.items))
    (pose : k = .moved n → ∀ g : Figure, (f g).pose = g.pose)
    (audio : k = .audio n → ∀ g : Figure, (f g).audio = g.audio) : s.SameAt (s.modifyFigure n f) k := by
  cases k with
  | «variable» a =>
    have h := s.figure?_modifyFigure_bind (fun g => (g.variableWithId? a.id).map (·.value)) (vars a rfl)
    simpa only [Scene.SameAt, Scene.valueAt, Scene.variableAt?, Option.map_bind, Function.comp_def] using
      congrArg (·.getD .empty) h
  | list a =>
    have h := s.figure?_modifyFigure_bind (fun g => (g.listWithId? a.id).map (·.items)) (lists a rfl)
    simpa only [Scene.SameAt, Scene.itemsAt, Scene.listAt?, Option.map_bind, Function.comp_def] using
      congrArg (·.getD []) h
  | moved m =>
    have h := s.figure?_modifyFigure_bind (m := m) (some ∘ Figure.pose) fun hn g =>
      congrArg some (pose (hn ▸ rfl) g)
    simpa only [Scene.SameAt, Scene.poseOf, Option.map_eq_bind] using congrArg (·.getD ⟨0, 0, 90⟩) h
  | audio m =>
    have h := s.figure?_modifyFigure_bind (m := m) (some ∘ Figure.audio) fun hn g =>
      congrArg some (audio (hn ▸ rfl) g)
    simpa only [Scene.SameAt, Scene.audioOf, Option.map_eq_bind] using congrArg (·.getD ⟨100, 0, 0⟩) h
  | pointer => rfl
  | relay r => trivial

/-- What is found under a key after an update that keeps keys, told by what was found there before. -/
theorem find?_map_update {α β : Type} {key : α → String} {update : α → α} {get : α → β} {k : String} (before : α → β)
    (hkey : ∀ x, key (update x) = key x) (hget : ∀ x, key x = k → get (update x) = before x) (l : List α) :
    ((l.map update).find? (key · == k)).map get = (l.find? (key · == k)).map before := by
  have hfind : (key · == k) ∘ update = (key · == k) := funext fun x => by simp [hkey]
  rw [List.find?_map, hfind, Option.map_map]
  cases hx : l.find? (key · == k) with
  | none => rfl
  | some x => exact congrArg some (hget x (by simpa using List.find?_some hx))

/-- A change keeps all data but what is announced on its channel. -/
theorem sameAt_of_ne (c : Change) (s : Scene) {k : Channel} (hk : k ≠ c.channel) : s.SameAt (c.apply s) k := by
  cases c with
  | «variable» a v =>
    refine sameAt_modifyFigure (fun b hb hn g => ?_) (fun _ _ _ _ => rfl) (fun _ _ => rfl) (fun _ _ => rfl)
    have hid : b.id ≠ a.id := fun hid => hk (by rw [hb]; exact congrArg _ (by cases a; cases b; simp_all))
    refine find?_map_update _ (fun x => ?_) (fun x hx => ?_) g.vars
    · split <;> rfl
    · simp [hx, hid]
  | items a vs =>
    refine sameAt_modifyFigure (fun _ _ _ _ => rfl) (fun b hb hn g => ?_) (fun _ _ => rfl) (fun _ _ => rfl)
    have hid : b.id ≠ a.id := fun hid => hk (by rw [hb]; exact congrArg _ (by cases a; cases b; simp_all))
    refine find?_map_update _ (fun x => ?_) (fun x hx => ?_) g.lists
    · split <;> rfl
    · simp [hx, hid]
  | pose figure p =>
    exact sameAt_modifyFigure (fun _ _ _ _ => rfl) (fun _ _ _ _ => rfl) (fun h => absurd h hk) (fun _ _ => rfl)
  | audio figure a =>
    exact sameAt_modifyFigure (fun _ _ _ _ => rfl) (fun _ _ _ _ => rfl) (fun _ _ => rfl) (fun h => absurd h hk)
  | pointer x y =>
    simp only [apply, Scene.setPointer]
    split
    · cases k with
      | pointer => exact absurd rfl hk
      | relay r => trivial
      | _ => rfl
    · exact Scene.SameAt.refl s k

end Change

/-! ### Channels -/

namespace Scene

theorem relay_not_mem_channels (s : Scene) (r : Nat) : Channel.relay r ∉ s.channels := by
  simp [channels, Figure.channels, List.mem_flatten, List.mem_mapIdx]

theorem mem_channels {s : Scene} {n : Nat} {f : Figure} (hf : s.figure? n = some f) {c : Channel}
    (hc : c ∈ f.channels n) : c ∈ s.channels := by
  obtain ⟨hn, rfl⟩ := List.getElem?_eq_some_iff.mp hf
  exact List.mem_cons_of_mem _ (List.mem_flatten.mpr ⟨_, List.mem_mapIdx.mpr ⟨n, hn, rfl⟩, hc⟩)

/-- What is not announced anywhere is not there. -/
theorem variableAt?_eq_none {s : Scene} {a : Address} (h : .variable a ∉ s.channels) : s.variableAt? a = none := by
  refine Option.eq_none_iff_forall_ne_some.mpr fun x hx => h ?_
  obtain ⟨f, hf, hx⟩ := Option.bind_eq_some_iff.mp hx
  have hid : x.id = a.id := by simpa using List.find?_some hx
  refine mem_channels hf (List.mem_append_left _ (List.mem_append_left _ (List.mem_map.mpr ⟨x, ?_, ?_⟩)))
  · exact List.mem_of_find?_eq_some hx
  · rw [hid]

theorem listAt?_eq_none {s : Scene} {a : Address} (h : .list a ∉ s.channels) : s.listAt? a = none := by
  refine Option.eq_none_iff_forall_ne_some.mpr fun x hx => h ?_
  obtain ⟨f, hf, hx⟩ := Option.bind_eq_some_iff.mp hx
  have hid : x.id = a.id := by simpa using List.find?_some hx
  refine mem_channels hf (List.mem_append_left _ (List.mem_append_right _ (List.mem_map.mpr ⟨x, ?_, ?_⟩)))
  · exact List.mem_of_find?_eq_some hx
  · rw [hid]

theorem figure?_eq_none {s : Scene} {n : Nat} (h : .moved n ∉ s.channels ∨ .audio n ∉ s.channels) :
    s.figure? n = none := by
  refine Option.eq_none_iff_forall_ne_some.mpr fun f hf => ?_
  rcases h with h | h
  · exact h (mem_channels hf (List.mem_append_right _ List.mem_cons_self))
  · exact h (mem_channels hf (List.mem_append_right _ (List.mem_cons_of_mem _ List.mem_cons_self)))

end Scene

/-- A change that is announced on no channel of the scene changes no data. -/
theorem Change.sameAt_of_not_mem {c : Change} {s : Scene} (h : c.channel ∉ s.channels) (k : Channel) :
    s.SameAt (c.apply s) k := by
  by_cases hk : k = c.channel
  · have h' : c.channel ∉ (c.apply s).channels := (c.sameShape s).channels ▸ h
    subst hk
    cases c with
    | «variable» a v =>
      show ((Scene.variableAt? _ a).map (·.value)).getD .empty = ((s.variableAt? a).map (·.value)).getD .empty
      rw [Scene.variableAt?_eq_none h, Scene.variableAt?_eq_none h']
    | items a vs =>
      show ((Scene.listAt? _ a).map (·.items)).getD [] = ((s.listAt? a).map (·.items)).getD []
      rw [Scene.listAt?_eq_none h, Scene.listAt?_eq_none h']
    | pose n p =>
      show ((Scene.figure? _ n).map (·.pose)).getD _ = ((s.figure? n).map (·.pose)).getD _
      rw [Scene.figure?_eq_none (Or.inl h), Scene.figure?_eq_none (Or.inl h')]
    | audio n a =>
      show ((Scene.figure? _ n).map (·.audio)).getD _ = ((s.figure? n).map (·.audio)).getD _
      rw [Scene.figure?_eq_none (Or.inr h), Scene.figure?_eq_none (Or.inr h')]
    | pointer x y => exact absurd List.mem_cons_self h
  · exact c.sameAt_of_ne s hk

end BlockScript
