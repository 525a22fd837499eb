import BlockScript.Proofs.Script.Bare

/-!
Realms. A realm is the part of a scene that belongs to a script: variables and lists, and the pose and the audio
settings of its figure. The pointer belongs to nobody and everybody may read it. What keeps to a realm does the same
in two worlds that are alike there, and leaves all outside as it was.
-/
namespace BlockScript

/-! ### Scenes that differ in data -/

theorem Scene.SameAt.symm {s t : Scene} {k : Channel} (h : s.SameAt t k) : t.SameAt s k := by
  cases k with
  | relay n => trivial
  | _ => exact Eq.symm h

theorem Scene.SameShape.symm {s t : Scene} (h : s.SameShape t) : t.SameShape s where
  figures := h.figures.symm
  config := h.config.symm
  pointer := by
    rcases h.pointer with hp | ⟨x, y, x', y', hs, ht⟩
    · exact Or.inl hp.symm
    · exact Or.inr ⟨x', y', x, y, ht, hs⟩

/-- The name of a figure and the names of its sounds, which no change touches. -/
def Figure.label (f : Figure) : String × List String := (f.name, f.sounds)

/-- Two scenes with the same figures, which may differ in data. -/
structure Scene.Varies (s t : Scene) : Prop where
  shape : s.SameShape t
  labels : t.figures.map Figure.label = s.figures.map Figure.label

namespace Scene.Varies

variable {s t u : Scene}

theorem refl (s : Scene) : s.Varies s := ⟨.refl s, rfl⟩

theorem symm (h : s.Varies t) : t.Varies s := ⟨h.shape.symm, h.labels.symm⟩

theorem trans (h : s.Varies t) (h' : t.Varies u) : s.Varies u := ⟨h.shape.trans h'.shape, h'.labels.trans h.labels⟩

theorem figure?_map {α : Type} (h : s.Varies t) (look : String × List String → α) (n : Nat) :
    (t.figure? n).map (look ∘ Figure.label) = (s.figure? n).map (look ∘ Figure.label) := by
  have read : ∀ r : Scene, (r.figure? n).map (look ∘ Figure.label) = ((r.figures.map Figure.label)[n]?).map look := by
    intro r
    rw [List.getElem?_map, Option.map_map]
    rfl
  rw [read, read, h.labels]

theorem figureName (h : s.Varies t) (n : Nat) : t.figureName n = s.figureName n :=
  congrArg (·.getD "") (h.figure?_map (·.1) n)

theorem soundsOf (h : s.Varies t) (n : Nat) : t.soundsOf n = s.soundsOf n :=
  congrArg (·.getD []) (h.figure?_map (·.2) n)

end Scene.Varies

namespace Change

variable {s t : Scene}

theorem labels_modifyFigure (s : Scene) (n : Nat) {f : Figure → Figure} (hf : ∀ g, (f g).label = g.label) :
    (s.modifyFigure n f).figures.map Figure.label = s.figures.map Figure.label := by
  refine List.ext_getElem? fun m => ?_
  simp only [Scene.modifyFigure, List.getElem?_map, List.getElem?_modify]
  split
  · cases s.figures[m]? with
    | none => rfl
    | some g => exact congrArg some (hf g)
  · simp

theorem varies (c : Change) (s : Scene) : s.Varies (c.apply s) := by
  refine ⟨c.sameShape s, ?_⟩
  cases c with
  | «variable» a v => exact labels_modifyFigure s _ fun _ => rfl
  | items a vs => exact labels_modifyFigure s _ fun _ => rfl
  | pose n p => exact labels_modifyFigure s _ fun _ => rfl
  | audio n a => exact labels_modifyFigure s _ fun _ => rfl
  | pointer x y =>
    simp only [apply, Scene.setPointer]
    split <;> rfl

/-- What an update writes by the outline of a figure is read in two scenes of one shape alike. -/
theorem written {α : Type} (h : s.SameShape t) (n : Nat) {f : Figure → Figure} {pick : Figure → Option α}
    (look : Outline → Option α) (hpick : ∀ g, pick (f g) = look g.outline) :
    ((t.modifyFigure n f).figure? n).bind pick = ((s.modifyFigure n f).figure? n).bind pick := by
  have read : ∀ r : Scene, ((r.modifyFigure n f).figure? n).bind pick = (r.figure? n).bind (pick ∘ f) := by
    intro r
    rw [Scene.figure?_modifyFigure, if_pos rfl, Option.bind_map]
  rw [read, read]
  exact h.figure?_bind hpick n

/-- Once the same is written to two scenes of one shape, both read it there. -/
theorem sameAt_self (c : Change) (h : s.SameShape t) (hc : c.channel ≠ .pointer) :
    (c.apply s).SameAt (c.apply t) c.channel := by
  cases c with
  | «variable» a v =>
    show (t.setVariable a v).valueAt a = (s.setVariable a v).valueAt a
    simp only [Scene.valueAt, Scene.variableAt?, Option.map_bind]
    refine congrArg (·.getD .empty) (written h a.figure (fun o => (o.vars.find? (·.1 == a.id)).map fun _ => v) ?_)
    intro g
    refine (find?_map_update (fun _ => v) (fun x => ?_) (fun x hx => ?_) g.vars).trans ?_
    · split <;> rfl
    · simp [hx]
    · simp [Figure.outline, List.find?_map, Function.comp_def]
  | items a vs =>
    show (t.setItems a vs).itemsAt a = (s.setItems a vs).itemsAt a
    simp only [Scene.itemsAt, Scene.listAt?, Option.map_bind]
    refine congrArg (·.getD []) (written h a.figure (fun o => (o.lists.find? (·.1 == a.id)).map fun _ => vs) ?_)
    intro g
    refine (find?_map_update (fun _ => vs) (fun x => ?_) (fun x hx => ?_) g.lists).trans ?_
    · split <;> rfl
    · simp [hx]
    · simp [Figure.outline, List.find?_map, Function.comp_def]
  | pose n p =>
    show (t.setPose n p).poseOf n = (s.setPose n p).poseOf n
    simp only [Scene.poseOf, Option.map_eq_bind]
    refine congrArg (·.getD ⟨0, 0, 90⟩) (written h n (fun _ => some p) ?_)
    exact fun _ => rfl
  | audio n a =>
    show (t.setAudio n a).audioOf n = (s.setAudio n a).audioOf n
    simp only [Scene.audioOf, Option.map_eq_bind]
    refine congrArg (·.getD ⟨100, 0, 0⟩) (written h n (fun _ => some a) ?_)
    exact fun _ => rfl
  | pointer x y => exact absurd rfl hc

end Change

/-! ### Realms -/

/-- The part of a scene that belongs to a script: some variables and lists, and one figure. -/
structure Realm where
  /-- A scene of the shape that references are resolved in. -/
  scene : Scene
  figure : Nat
  ownsVariable : Address → Prop
  ownsList : Address → Prop

namespace Realm

/-- The data on the channel belongs to the script. -/
def Owns (r : Realm) : Channel → Prop
  | .variable a => r.ownsVariable a
  | .list a => r.ownsList a
  | .moved n => n = r.figure
  | .audio n => n = r.figure
  | .pointer => False
  | .relay _ => False

/-- The script may read the data on the channel. The pointer is there for everybody. -/
def Sees (r : Realm) (k : Channel) : Prop := r.Owns k ∨ k = .pointer

/-- All that is read from these sources can be seen. -/
def Covers (r : Realm) (sources : List Source) : Prop :=
  ∀ s ∈ sources, ∀ k, s.channel? ⟨r.scene, r.figure⟩ = some k → r.Sees k

/-- Two scenes differ only in data that cannot be seen. -/
structure Alike (r : Realm) (s t : Scene) : Prop where
  base : r.scene.Varies s
  varies : s.Varies t
  same : ∀ k, r.Sees k → s.SameAt t k

/-- The second scene differs from the first only in data that is owned. -/
structure Keeps (r : Realm) (s t : Scene) : Prop where
  varies : s.Varies t
  apart : ∀ k, ¬ r.Owns k → s.SameAt t k

variable {r : Realm} {s t u : Scene}

theorem covers_append {a b : List Source} : r.Covers (a ++ b) ↔ r.Covers a ∧ r.Covers b := List.forall_mem_append

theorem Keeps.refl (r : Realm) (s : Scene) : r.Keeps s s := ⟨.refl s, fun _ _ => .refl s _⟩

theorem Keeps.trans (h : r.Keeps s t) (h' : r.Keeps t u) : r.Keeps s u :=
  ⟨h.varies.trans h'.varies, fun k hk => (h.apart k hk).trans (h'.apart k hk)⟩

theorem Keeps.change {c : Change} (s : Scene) (own : r.Owns c.channel) : r.Keeps s (c.apply s) :=
  ⟨c.varies s, fun _ hk => c.sameAt_of_ne s fun he => hk (he ▸ own)⟩

theorem Alike.refl (base : r.scene.Varies s) : r.Alike s s := ⟨base, .refl s, fun _ _ => .refl s _⟩

/-- Owners of other data may change the first scene. -/
theorem Alike.kept (h : r.Alike s t) (varies : s.Varies u) (same : ∀ k, r.Sees k → s.SameAt u k) : r.Alike u t :=
  ⟨h.base.trans varies, varies.symm.trans h.varies, fun k hk => (same k hk).symm.trans (h.same k hk)⟩

theorem Alike.change {c : Change} (h : r.Alike s t) (own : r.Owns c.channel) : r.Alike (c.apply s) (c.apply t) where
  base := h.base.trans (c.varies s)
  varies := (c.varies s).symm.trans (h.varies.trans (c.varies t))
  same := fun k hk => by
    by_cases he : k = c.channel
    · have unpointed : c.channel ≠ .pointer := fun hp => by
        rw [hp] at own
        exact own
      exact he ▸ c.sameAt_self h.varies.shape unpointed
    · exact (c.sameAt_of_ne s he).symm.trans ((h.same k hk).trans (c.sameAt_of_ne t he))

theorem Alike.poseOf (h : r.Alike s t) : t.poseOf r.figure = s.poseOf r.figure := h.same (.moved r.figure) (Or.inl rfl)

theorem Alike.audioOf (h : r.Alike s t) : t.audioOf r.figure = s.audioOf r.figure := h.same (.audio r.figure) (Or.inl rfl)

/-! ### Evaluation -/

/-- In scenes that are alike both computations report the same. -/
def Reads {α : Type} (r : Realm) (m m' : View → Eval α) : Prop :=
  ∀ s t, r.Alike s t → (m ⟨s, r.figure⟩).Concur (m' ⟨t, r.figure⟩)

theorem Alike.agrees (h : r.Alike s t) {reads : List (Nat × Channel)} (seen : ∀ x ∈ reads, r.Sees x.2) :
    View.Agrees ⟨s, r.figure⟩ ⟨t, r.figure⟩ reads := ⟨rfl, h.varies.shape, fun x hx => h.same _ (seen x hx)⟩

/-- What is read within covered taps is seen. -/
theorem Covers.seen {taps : List (Nat × Source)} (h : r.Covers (taps.map (·.2))) (base : r.scene.Varies s)
    {reads : List (Nat × Channel)}
    (tapped : ∀ x ∈ reads, ∃ src, (x.1, src) ∈ taps ∧ src.channel? ⟨s, r.figure⟩ = some x.2) :
    ∀ x ∈ reads, r.Sees x.2 := by
  intro x hx
  obtain ⟨src, hmem, hc⟩ := tapped x hx
  refine h src (List.mem_map_of_mem (f := (·.2)) hmem) x.2 ?_
  have same : src.channel? ⟨s, r.figure⟩ = src.channel? ⟨r.scene, r.figure⟩ := by
    apply Source.channel?_congr
    · rfl
    · exact base.shape
  exact same ▸ hc

theorem Reads.of_isReading {α : Type} {taps : List (Nat × Source)} {m m' : View → Eval α} (h : IsReading taps m)
    (covers : r.Covers (taps.map (·.2))) (concur : ∀ v, (m v).Concur (m' v)) : r.Reads m m' := by
  intro s t alike x x' hx
  obtain ⟨a, reads, after, outcome, tapped⟩ := h ⟨s, r.figure⟩ x.random
  have seen := covers.seen alike.base tapped
  have here := outcome _ (.refl _ _) x rfl
  have there := outcome _ (alike.agrees seen) x rfl
  obtain ⟨hresult, hrandom, hle⟩ := concur ⟨t, r.figure⟩ x x' hx
  refine ⟨hresult.trans (there.1.trans here.1.symm), hrandom.trans (there.2.2.trans here.2.2.symm), ?_⟩
  rw [here.2.2, ← there.2.2]
  exact hle

theorem Reads.bind {α β : Type} {m m' : View → Eval α} {k k' : View → α → Eval β} (hm : r.Reads m m')
    (hk : ∀ a, r.Reads (fun v => k v a) (fun v => k' v a)) : r.Reads (fun v => m v >>= k v) (fun v => m' v >>= k' v) :=
  fun s t alike => (hm s t alike).bind fun a => hk a s t alike

theorem Reads.of_alike {α : Type} {f : View → α} (h : ∀ s t, r.Alike s t → f ⟨t, r.figure⟩ = f ⟨s, r.figure⟩) :
    r.Reads (fun v => pure (f v)) (fun v => pure (f v)) := fun s t alike => by
  show Eval.Concur (pure (f ⟨s, r.figure⟩)) (pure (f ⟨t, r.figure⟩))
  rw [h s t alike]
  exact .pure _

end Realm

section
variable {r : Realm}

theorem Operand.reads_eval {o : Operand Nat} (h : r.Covers o.sources) :
    r.Reads (fun v => o.eval v) (fun v => o.bare.eval v) :=
  .of_isReading o.isReading_eval h fun v => o.concur_bare v

theorem Operand.reads_number {o : Operand Nat} (h : r.Covers o.sources) :
    r.Reads (fun v => o.number v) (fun v => o.bare.number v) :=
  (Operand.reads_eval h).bind fun x => .of_alike (f := fun _ => x.toNumber) fun _ _ _ => rfl

theorem Predicate.reads_test {p : Predicate Nat} (h : r.Covers p.sources) :
    r.Reads (fun v => p.test v) (fun v => p.bare.test v) :=
  .of_isReading p.isReading_test h fun v => p.concur_bare v

theorem reads_resolveIndex (index : Value) (length : Nat) (acceptAll : Bool) :
    r.Reads (fun _ => resolveIndex index length acceptAll) (fun _ => resolveIndex index length acceptAll) :=
  fun _ _ _ => .resolveIndex index length acceptAll

theorem Step.reads_destination {step : Step Nat} (h : r.Covers step.sources) :
    r.Reads (fun v => step.destination v) (fun v => step.bare.destination v) := by
  cases step with
  | goTo x y =>
    simp only [Step.sources, Step.taps, List.map_append] at h
    obtain ⟨hx, hy⟩ := Realm.covers_append.mp h
    exact (Operand.reads_number hx).bind fun a => (Operand.reads_number hy).bind fun b =>
      .of_alike (f := fun _ => (a, b)) fun _ _ _ => rfl
  | setX x =>
    refine (Operand.reads_number h).bind fun a => .of_alike (f := fun v => (a, (v.scene.poseOf v.figure).y)) ?_
    intro s t alike
    simp only [alike.poseOf]
  | setY y =>
    refine (Operand.reads_number h).bind fun a => .of_alike (f := fun v => ((v.scene.poseOf v.figure).x, a)) ?_
    intro s t alike
    simp only [alike.poseOf]
  | changeX dx =>
    refine (Operand.reads_number h).bind fun a =>
      .of_alike (f := fun v => ((v.scene.poseOf v.figure).x + a, (v.scene.poseOf v.figure).y)) ?_
    intro s t alike
    simp only [alike.poseOf]
  | changeY dy =>
    refine (Operand.reads_number h).bind fun a =>
      .of_alike (f := fun v => ((v.scene.poseOf v.figure).x, (v.scene.poseOf v.figure).y + a)) ?_
    intro s t alike
    simp only [alike.poseOf]
  | forward steps =>
    refine (Operand.reads_number h).bind fun a => .of_alike (f := fun v => (v.scene.poseOf v.figure).forward a) ?_
    intro s t alike
    simp only [alike.poseOf]

end

end BlockScript
