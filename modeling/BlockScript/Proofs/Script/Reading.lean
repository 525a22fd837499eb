import BlockScript.Proofs.Scene.Locality
import BlockScript.Script.Evaluation

/-!
What evaluation reads. Each reporter that reads changing data taps one channel of the scene with its
relay. Evaluating a tree connects the relays of the taps it came by, and its outcome is fixed by the
shape of the scene, by the data on the channels of these taps, and by the random source.
-/
namespace BlockScript

/-- The channel whose data a source reads, if it reads data that can change. -/
def Source.channel? (v : View) : Source → Option Channel
  | .variable ref => (v.scene.findVariable? v.figure ref).map .variable
  | .listContents ref => (v.scene.findList? v.figure ref).map .list
  | .listLength ref => (v.scene.findList? v.figure ref).map .list
  | .pose .. => some (.moved v.figure)
  | .volume => some (.audio v.figure)
  | .pointer .. =>
    match v.scene.pointer with
    | .tracked .. => some .pointer
    | .fixed .. => none

/-! ### Taps -/

section
variable {ρ : Type}

mutual
/-- The relays of an operand with what they are tapped to, in the order of subscription. A search taps
its list like a reporter of the contents. -/
def Operand.taps : Operand ρ → List (ρ × Source)
  | .constant _ => []
  | .soundMenu _ => []
  | .source s relay => [(relay, s)]
  | .search _ list relay argument => (relay, .listContents list) :: argument.taps
  | .unary _ a => a.taps
  | .binary _ a b => a.taps ++ b.taps
  | .random a b => a.taps ++ b.taps
  | .truth p => p.taps
/-- The relays of a predicate with what they are tapped to, in the order of subscription. -/
def Predicate.taps : Predicate ρ → List (ρ × Source)
  | .absent => []
  | .compare _ a b => a.taps ++ b.taps
  | .logic _ _ a b => a.taps ++ b.taps
  | .not p => p.taps
  | .listHas list relay item => (relay, .listContents list) :: item.taps
end

mutual
theorem Operand.map_taps : (o : Operand ρ) → o.taps.map (·.1) = o.relays
  | .constant _ => rfl
  | .soundMenu _ => rfl
  | .source _ _ => rfl
  | .search _ _ _ argument => by simp [Operand.taps, Operand.relays, argument.map_taps]
  | .unary _ a => by simp [Operand.taps, Operand.relays, a.map_taps]
  | .binary _ a b => by simp [Operand.taps, Operand.relays, a.map_taps, b.map_taps]
  | .random a b => by simp [Operand.taps, Operand.relays, a.map_taps, b.map_taps]
  | .truth p => by simp [Operand.taps, Operand.relays, p.map_taps]
theorem Predicate.map_taps : (p : Predicate ρ) → p.taps.map (·.1) = p.relays
  | .absent => rfl
  | .compare _ a b => by simp [Predicate.taps, Predicate.relays, a.map_taps, b.map_taps]
  | .logic _ _ a b => by simp [Predicate.taps, Predicate.relays, a.map_taps, b.map_taps]
  | .not p => by simp [Predicate.taps, Predicate.relays, p.map_taps]
  | .listHas _ _ item => by simp [Predicate.taps, Predicate.relays, item.map_taps]
end

/-- The taps of a reporter. -/
def Reporter.taps : Reporter ρ → List (ρ × Source)
  | .value o => o.taps
  | .predicate p => p.taps

theorem Reporter.map_taps (r : Reporter ρ) : r.taps.map (·.1) = r.relays := by
  cases r with
  | value o => exact o.map_taps
  | predicate p => exact p.map_taps

theorem Reporter.taps_toOperand (r : Reporter ρ) : r.toOperand.taps = r.taps := by
  cases r <;> rfl

end

/-! ### Computations that read -/

/-- Connects relays to channels, one after the other. -/
def Hub.connectAll (hub : Hub Channel) (reads : List (Nat × Channel)) : Hub Channel :=
  reads.foldl (fun hub x => hub.connect (.relay x.1) x.2) hub

theorem Hub.connectAll_append (hub : Hub Channel) (a b : List (Nat × Channel)) :
    hub.connectAll (a ++ b) = (hub.connectAll a).connectAll b := List.foldl_append

/-- Two views of one figure on scenes of one shape with the same data on the channels read. -/
structure View.Agrees (v v' : View) (reads : List (Nat × Channel)) : Prop where
  figure : v'.figure = v.figure
  shape : v.scene.SameShape v'.scene
  data : ∀ x ∈ reads, v.scene.SameAt v'.scene x.2

theorem View.Agrees.refl (v : View) (reads : List (Nat × Channel)) : v.Agrees v reads :=
  ⟨rfl, .refl _, fun _ _ => .refl _ _⟩

theorem View.Agrees.trans {u v w : View} {reads : List (Nat × Channel)} (h : u.Agrees v reads)
    (h' : v.Agrees w reads) : u.Agrees w reads :=
  ⟨h'.figure.trans h.figure, h.shape.trans h'.shape, fun x hx => (h.data x hx).trans (h'.data x hx)⟩

theorem Source.channel?_congr {v v' : View} (hfigure : v'.figure = v.figure) (hshape : v.scene.SameShape v'.scene)
    (s : Source) : s.channel? v' = s.channel? v := by
  cases s with
  | «variable» ref => simp only [channel?, hfigure, hshape.findVariable?]
  | listContents ref => simp only [channel?, hfigure, hshape.findList?]
  | listLength ref => simp only [channel?, hfigure, hshape.findList?]
  | pose c opcode => simp only [channel?, hfigure]
  | volume => simp only [channel?, hfigure]
  | pointer c opcode =>
    unfold channel?
    rcases hshape.pointer with hp | ⟨x, y, x', y', hs, ht⟩
    · rw [hp]
    · rw [hs, ht]

theorem Source.channel?_ne_relay (x : Source) (v : View) (r : Nat) : x.channel? v ≠ some (.relay r) := by
  cases x with
  | «variable» ref => simp [Source.channel?]
  | listContents ref => simp [Source.channel?]
  | listLength ref => simp [Source.channel?]
  | pose c opcode => simp [Source.channel?]
  | volume => simp [Source.channel?]
  | pointer c opcode =>
    cases hp : v.scene.pointer <;> simp [Source.channel?, hp]

/-- From a random source, a computation in a view has the outcome `a`, connects the relays `reads` and
leaves the random source `after`, and it does just the same in every view that agrees on what was read. -/
def Outcome {α : Type} (m : View → Eval α) (v : View) (random : Random) (a : α) (reads : List (Nat × Channel))
    (after : Random) : Prop :=
  ∀ v', v.Agrees v' reads → ∀ t : Traces, t.random = random →
    (m v' t).1 = a ∧ (m v' t).2.hub = t.hub.connectAll reads ∧ (m v' t).2.random = after

/-- In every view and from every random source the computation has an outcome, and it connects relays
to the channels of these taps only. -/
def IsReading {α : Type} (taps : List (Nat × Source)) (m : View → Eval α) : Prop :=
  ∀ v random, ∃ a reads after, Outcome m v random a reads after ∧
    ∀ x ∈ reads, ∃ s, (x.1, s) ∈ taps ∧ s.channel? v = some x.2

namespace IsReading

variable {α β : Type} {taps more : List (Nat × Source)}

theorem mono {m : View → Eval α} (h : IsReading taps m) (hsub : taps ⊆ more) : IsReading more m := fun v random => by
  obtain ⟨a, reads, after, ho, hr⟩ := h v random
  refine ⟨a, reads, after, ho, fun x hx => ?_⟩
  obtain ⟨s, hs, hc⟩ := hr x hx
  exact ⟨s, hsub hs, hc⟩

theorem pure (a : α) : IsReading taps (fun _ => (Pure.pure a : Eval α)) := fun _ random =>
  ⟨a, [], random, fun _ _ _ ht => ⟨rfl, rfl, ht⟩, fun _ hx => by cases hx⟩

theorem bind {m : View → Eval α} {k : View → α → Eval β} (hm : IsReading taps m)
    (hk : ∀ a, IsReading taps (fun v => k v a)) : IsReading taps (fun v => m v >>= k v) := fun v random => by
  obtain ⟨a, reads₁, middle, ho₁, hr₁⟩ := hm v random
  obtain ⟨b, reads₂, after, ho₂, hr₂⟩ := hk a v middle
  refine ⟨b, reads₁ ++ reads₂, after, fun v' agrees t ht => ?_, fun x hx => ?_⟩
  · have first := ho₁ v' ⟨agrees.figure, agrees.shape, fun x hx => agrees.data x (List.mem_append_left _ hx)⟩ t ht
    have second := ho₂ v' ⟨agrees.figure, agrees.shape, fun x hx => agrees.data x (List.mem_append_right _ hx)⟩
      (m v' t).2 first.2.2
    have hbind : (m v' >>= k v') t = k v' (m v' t).1 (m v' t).2 := rfl
    dsimp only
    rw [hbind, first.1, Hub.connectAll_append, ← first.2.1]
    exact second
  · rcases List.mem_append.mp hx with hx | hx
    · exact hr₁ x hx
    · exact hr₂ x hx

theorem map {m : View → Eval α} (f : α → β) (hm : IsReading taps m) :
    IsReading taps (fun v => m v >>= fun a => Pure.pure (f a)) := hm.bind fun a => pure (f a)

theorem takeDraw : IsReading taps (fun _ => BlockScript.takeDraw) := fun _ random => by
  refine ⟨random.draw.1, [], random.draw.2, fun _ _ t ht => ?_, fun _ hx => by cases hx⟩
  have hrun : BlockScript.takeDraw t = (t.random.draw.1, { t with random := t.random.draw.2 }) := rfl
  subst ht
  exact ⟨congrArg (·.1) hrun, congrArg (·.2.hub) hrun, congrArg (·.2.random) hrun⟩

/-- A connected read of one channel: what it reports is fixed by the data there. -/
theorem connect {relay : Nat} {s : Source} (htap : (relay, s) ∈ taps) {v : View} {c : Channel}
    (hc : s.channel? v = some c) {m : View → Eval α} (report : View → α)
    (hm : ∀ v' : View, v'.figure = v.figure → v.scene.SameShape v'.scene →
      m v' = (do connectRelay relay c; return report v'))
    (hreport : ∀ v', v.Agrees v' [(relay, c)] → report v' = report v) (random : Random) :
    ∃ a reads after, Outcome m v random a reads after ∧
      ∀ x ∈ reads, ∃ s, (x.1, s) ∈ taps ∧ s.channel? v = some x.2 := by
  refine ⟨report v, [(relay, c)], random, fun v' agrees t ht => ?_, fun x hx => ?_⟩
  · rw [hm v' agrees.figure agrees.shape, ← hreport v' agrees]
    exact ⟨rfl, rfl, ht⟩
  · obtain rfl := List.mem_singleton.mp hx
    exact ⟨s, htap, hc⟩

/-- A read that finds nothing to tap reports the same in every scene of the shape. -/
theorem unconnected {v : View} {m : View → Eval α} {a : α}
    (hm : ∀ v' : View, v'.figure = v.figure → v.scene.SameShape v'.scene → ∀ t : Traces,
      (m v' t).1 = a ∧ (m v' t).2.hub = t.hub ∧ (m v' t).2.random = t.random) (random : Random) :
    ∃ a reads after, Outcome m v random a reads after ∧
      ∀ x ∈ reads, ∃ s, (x.1, s) ∈ taps ∧ s.channel? v = some x.2 := by
  refine ⟨a, [], random, fun v' agrees t ht => ?_, fun _ hx => by cases hx⟩
  subst ht
  exact hm v' agrees.figure agrees.shape t

end IsReading

/-! ### Sources -/

namespace View

variable {taps : List (Nat × Source)} {relay : Nat}

/-- Finding a list reads the channel of any source that is about this list. -/
theorem isReading_findList {s : Source} {ref : Ref} (htap : (relay, s) ∈ taps)
    (hs : ∀ v, s.channel? v = (v.scene.findList? v.figure ref).map .list) :
    IsReading taps (fun v => v.findList ref relay) := fun v => by
  cases hfind : v.scene.findList? v.figure ref with
  | some a =>
    refine IsReading.connect htap (c := .list a) (by rw [hs, hfind]; rfl)
      (fun v' => some (v'.scene.itemsAt a)) (fun v' hf hs => ?_) fun v' agrees => ?_
    · unfold findList
      rw [hf, hs.findList?, hfind]
    · exact congrArg some (agrees.data _ List.mem_cons_self)
  | none =>
    refine IsReading.unconnected (a := none) fun v' hf hs t => ?_
    unfold findList
    rw [hf, hs.findList?, hfind]
    exact ⟨rfl, rfl, rfl⟩

theorem pointerCoordinate_congr {v v' : View} (hconfig : v'.scene.config = v.scene.config)
    (hpointer : v'.scene.pointer = v.scene.pointer) (c : PointerCoordinate) :
    v'.pointerCoordinate c = v.pointerCoordinate c := by
  unfold pointerCoordinate
  rw [hconfig, hpointer]

theorem poseCoordinate_congr {v v' : View} (h : v'.scene.poseOf v'.figure = v.scene.poseOf v.figure)
    (c : PoseCoordinate) : v'.poseCoordinate c = v.poseCoordinate c := by
  unfold poseCoordinate
  rw [h]

/-- Reading a source reads the channel that its relay taps. -/
theorem isReading_read {s : Source} (htap : (relay, s) ∈ taps) : IsReading taps (fun v => v.read relay s) := by
  cases s with
  | «variable» ref =>
    intro v
    cases hfind : v.scene.findVariable? v.figure ref with
    | some a =>
      refine IsReading.connect htap (c := .variable a) (by simp [Source.channel?, hfind])
        (fun v' => v'.scene.valueAt a) (fun v' hf hs => ?_) fun v' agrees => ?_
      · simp only [read, findVariable]
        rw [hf, hs.findVariable?, hfind]
        rfl
      · exact agrees.data _ List.mem_cons_self
    | none =>
      refine IsReading.unconnected (a := .empty) fun v' hf hs t => ?_
      simp only [read, findVariable]
      rw [hf, hs.findVariable?, hfind]
      exact ⟨rfl, rfl, rfl⟩
  | listContents ref =>
    refine (isReading_findList htap fun _ => rfl).bind fun found => ?_
    cases found <;> exact .pure _
  | listLength ref =>
    refine (isReading_findList htap fun _ => rfl).bind fun found => ?_
    cases found <;> exact .pure _
  | pose c opcode =>
    intro v
    refine IsReading.connect htap (c := .moved v.figure) rfl (fun v' => .number (v'.poseCoordinate c))
      (fun v' hf _ => ?_) fun v' agrees => ?_
    · rw [← hf]
      rfl
    · have hpose : v'.scene.poseOf v.figure = v.scene.poseOf v.figure := agrees.data _ List.mem_cons_self
      have hpose' : v'.scene.poseOf v'.figure = v.scene.poseOf v.figure := agrees.figure ▸ hpose
      rw [poseCoordinate_congr hpose']
  | volume =>
    intro v
    refine IsReading.connect htap (c := .audio v.figure) rfl
      (fun v' => .number (v'.scene.audioOf v'.figure).volume) (fun v' hf _ => ?_) fun v' agrees => ?_
    · rw [← hf]
      rfl
    · have haudio : v'.scene.audioOf v.figure = v.scene.audioOf v.figure := agrees.data _ List.mem_cons_self
      rw [agrees.figure, haudio]
  | pointer c opcode =>
    intro v
    cases hp : v.scene.pointer with
    | tracked x y =>
      refine IsReading.connect htap (c := .pointer) (by simp [Source.channel?, hp])
        (fun v' => .number (v'.pointerCoordinate c)) (fun v' _ hs => ?_) fun v' agrees => ?_
      · rcases hs.pointer with hq | ⟨_, _, x', y', _, hq⟩
        · simp only [read, hq, hp]
        · simp only [read, hq]
      · rw [pointerCoordinate_congr agrees.shape.config (agrees.data _ List.mem_cons_self)]
    | fixed x y =>
      refine IsReading.unconnected (a := .number (v.pointerCoordinate c)) fun v' _ hs t => ?_
      have hq : v'.scene.pointer = v.scene.pointer := by
        rcases hs.pointer with hq | ⟨a, b, _, _, ha, -⟩
        · exact hq
        · rw [hp] at ha
          cases ha
      rw [← pointerCoordinate_congr hs.config hq]
      simp only [read, hq, hp]
      exact ⟨rfl, rfl, rfl⟩

end View

/-! ### Trees -/

section
variable {taps : List (Nat × Source)}

theorem isReading_resolveIndex (index : Value) (length : Nat) (acceptAll : Bool) :
    IsReading taps (fun _ => resolveIndex index length acceptAll) := by
  unfold resolveIndex
  split
  · exact IsReading.takeDraw.bind fun _ => .pure _
  · exact .pure _

theorem isReading_answer (items : List Value) (argument : Value) (q : ListQuery) :
    IsReading taps (fun _ => q.answer items argument) := by
  cases q with
  | item =>
    refine (isReading_resolveIndex argument items.length false).bind fun i => ?_
    cases i <;> exact .pure _
  | position => exact .pure _

end

mutual
/-- Evaluating an operand reads its taps only. -/
theorem Operand.isReading_eval : (o : Operand Nat) → IsReading o.taps (fun v => o.eval v)
  | .constant x => .pure x
  | .soundMenu sound => .pure _
  | .source s relay => View.isReading_read List.mem_cons_self
  | .search q list relay argument => by
    simp only [Operand.eval, Operand.taps]
    refine (View.isReading_findList List.mem_cons_self fun _ => rfl).bind fun found => ?_
    cases found with
    | none => exact .pure _
    | some items =>
      exact (argument.isReading_eval.mono (List.subset_cons_self _ _)).bind fun x => isReading_answer items x q
  | .unary op a => by
    simp only [Operand.eval, Operand.taps]
    exact a.isReading_eval.map _
  | .binary op a b => by
    simp only [Operand.eval, Operand.taps]
    exact (a.isReading_eval.mono (List.subset_append_left _ _)).bind fun x =>
      (b.isReading_eval.mono (List.subset_append_right _ _)).map _
  | .random a b => by
    simp only [Operand.eval, Operand.taps]
    exact (a.isReading_eval.mono (List.subset_append_left _ _)).bind fun x =>
      (b.isReading_eval.mono (List.subset_append_right _ _)).bind fun y => IsReading.takeDraw.map _
  | .truth p => by
    simp only [Operand.eval, Operand.taps]
    exact p.isReading_test.map _
/-- Testing a predicate reads its taps only. -/
theorem Predicate.isReading_test : (p : Predicate Nat) → IsReading p.taps (fun v => p.test v)
  | .absent => .pure _
  | .compare c a b => by
    simp only [Predicate.test, Predicate.taps]
    exact (a.isReading_eval.mono (List.subset_append_left _ _)).bind fun x =>
      (b.isReading_eval.mono (List.subset_append_right _ _)).map _
  | .logic c opcode a b => by
    simp only [Predicate.test, Predicate.taps]
    refine (a.isReading_test.mono (List.subset_append_left _ _)).bind fun x => ?_
    -- The second part is read only where the first does not decide.
    have second := b.isReading_test.mono (List.subset_append_right a.taps b.taps)
    cases c <;> cases x
    · exact .pure false
    · exact second
    · exact second
    · exact .pure true
  | .not p => by
    simp only [Predicate.test, Predicate.taps]
    exact p.isReading_test.map _
  | .listHas list relay item => by
    simp only [Predicate.test, Predicate.taps]
    refine (View.isReading_findList List.mem_cons_self fun _ => rfl).bind fun found => ?_
    cases found with
    | none => exact .pure _
    | some items => exact (item.isReading_eval.mono (List.subset_cons_self _ _)).map _
end

theorem Operand.isReading_number (o : Operand Nat) : IsReading o.taps (fun v => o.number v) := o.isReading_eval.map _

/-! ### Connections -/

/-- The computation leaves the hub as it is but for relays that it connects to the channels of these
taps. What it reports may depend on anything. -/
def IsConnecting {α : Type} (taps : List (Nat × Source)) (m : View → Eval α) : Prop :=
  ∀ v t, ∃ reads, (m v t).2.hub = t.hub.connectAll reads ∧ ∀ x ∈ reads, ∃ s, (x.1, s) ∈ taps ∧ s.channel? v = some x.2

namespace IsConnecting

variable {α β : Type} {taps more : List (Nat × Source)}

theorem of_isReading {m : View → Eval α} (h : IsReading taps m) : IsConnecting taps m := fun v t => by
  obtain ⟨a, reads, after, ho, hr⟩ := h v t.random
  exact ⟨reads, (ho v (.refl v reads) t rfl).2.1, hr⟩

theorem mono {m : View → Eval α} (h : IsConnecting taps m) (hsub : taps ⊆ more) : IsConnecting more m := fun v t => by
  obtain ⟨reads, hhub, hr⟩ := h v t
  refine ⟨reads, hhub, fun x hx => ?_⟩
  obtain ⟨s, hs, hc⟩ := hr x hx
  exact ⟨s, hsub hs, hc⟩

theorem bind {m : View → Eval α} {k : View → α → Eval β} (hm : IsConnecting taps m)
    (hk : ∀ a, IsConnecting taps (fun v => k v a)) : IsConnecting taps (fun v => m v >>= k v) := fun v t => by
  obtain ⟨reads₁, hhub₁, hr₁⟩ := hm v t
  obtain ⟨reads₂, hhub₂, hr₂⟩ := hk (m v t).1 v (m v t).2
  refine ⟨reads₁ ++ reads₂, ?_, fun x hx => ?_⟩
  · rw [Hub.connectAll_append, ← hhub₁]
    exact hhub₂
  · rcases List.mem_append.mp hx with hx | hx
    · exact hr₁ x hx
    · exact hr₂ x hx

theorem map {m : View → Eval α} (hm : IsConnecting taps m) (f : View → α → β) :
    IsConnecting taps (fun v => m v >>= fun a => Pure.pure (f v a)) :=
  hm.bind fun _ _ _ => ⟨[], rfl, fun _ hx => by cases hx⟩

end IsConnecting

end BlockScript
