import BlockScript.Proofs.Script.Realm

/-!
Commands in two worlds. A script that keeps to a realm has number `i` in one world and number `j` in the other, and
what it finds there is alike. A command then gives the same result in both, leaves them alike, and does nothing
outside the realm.
-/
namespace BlockScript

/-- A script under a number, on the figure of its realm. -/
abbrev Realm.caller (r : Realm) (script : Nat) : Caller := ⟨script, r.figure⟩

namespace World

/-- Whether a script is on the roster. -/
def isListed (w : World) (script : Nat) : Bool := w.roster.any (·.script == script)

/-- A script finds the same in both worlds. -/
structure Mirrors (r : Realm) (i j : Nat) (w w' : World) : Prop where
  scene : r.Alike w.scene w'.scene
  random : w'.traces.random = w.traces.random
  clock : w'.clock = w.clock
  cancelled : w'.isCancelled j = w.isCancelled i
  listed : w'.isListed j = w.isListed i

/-- A script changed what it owns and nothing else. -/
structure Confined (r : Realm) (i : Nat) (w w₁ : World) : Prop where
  scene : r.Keeps w.scene w₁.scene
  taken : w.traces.random.taken ≤ w₁.traces.random.taken
  clock : w₁.clock = w.clock
  others : ∀ k, k ≠ i → w₁.isCancelled k = w.isCancelled k ∧ w₁.isListed k = w.isListed k

/-- From the world `w` a script came to `w₁`, and did the same in another world, which is now `w₁'`. -/
structure InStep (r : Realm) (i j : Nat) (w w₁ w₁' : World) : Prop where
  mirrors : w₁.Mirrors r i j w₁'
  confined : w.Confined r i w₁

variable {r : Realm} {i j : Nat} {w w' w₁ w₁' w₂ w₂' : World}

theorem Confined.refl (r : Realm) (i : Nat) (w : World) : w.Confined r i w :=
  ⟨.refl r _, Nat.le_refl _, rfl, fun _ _ => ⟨rfl, rfl⟩⟩

theorem Confined.trans (h : w.Confined r i w₁) (h' : w₁.Confined r i w₂) : w.Confined r i w₂ where
  scene := h.scene.trans h'.scene
  taken := Nat.le_trans h.taken h'.taken
  clock := h'.clock.trans h.clock
  others := fun k hk =>
    ⟨(h'.others k hk).1.trans (h.others k hk).1, (h'.others k hk).2.trans (h.others k hk).2⟩

namespace InStep

theorem refl (h : w.Mirrors r i j w') : InStep r i j w w w' := ⟨h, .refl r i w⟩

theorem trans (h : w.Confined r i w₁) (h' : InStep r i j w₁ w₂ w₂') : InStep r i j w w₂ w₂' :=
  ⟨h'.mirrors, h.trans h'.confined⟩

theorem log (h : w.Mirrors r i j w') (x x' : LogRecord) : InStep r i j w (w.log x) (w'.log x') where
  mirrors := ⟨h.scene, h.random, h.clock, h.cancelled, h.listed⟩
  confined := ⟨.refl r _, Nat.le_refl _, rfl, fun _ _ => ⟨rfl, rfl⟩⟩

theorem logAll (h : w.Mirrors r i j w') (records : List LogRecord) :
    InStep r i j w (records.foldl World.log w) (records.foldl World.log w') := by
  induction records generalizing w w' with
  | nil => exact refl h
  | cons x records ih => exact .trans (log h x x).confined (ih (log h x x).mirrors)

theorem withHub (h : w.Mirrors r i j w') (hub hub' : Hub Channel) : InStep r i j w (w.withHub hub) (w'.withHub hub') where
  mirrors := ⟨h.scene, h.random, h.clock, h.cancelled, h.listed⟩
  confined := ⟨.refl r _, Nat.le_refl _, rfl, fun _ _ => ⟨rfl, rfl⟩⟩

theorem evaluate {α : Type} {m m' : View → Eval α} (h : w.Mirrors r i j w') (hm : r.Reads m m') :
    (w'.evaluate r.figure m').1 = (w.evaluate r.figure m).1 ∧
      InStep r i j w (w.evaluate r.figure m).2 (w'.evaluate r.figure m').2 := by
  obtain ⟨hresult, hrandom, hle⟩ := hm _ _ h.scene w.traces w'.traces h.random
  exact ⟨hresult, ⟨h.scene, hrandom, h.clock, h.cancelled, h.listed⟩, .refl r _, hle, rfl, fun _ _ => ⟨rfl, rfl⟩⟩

theorem change {c : Change} (h : w.Mirrors r i j w') (own : r.Owns c.channel) :
    InStep r i j w (w.change c) (w'.change c) where
  mirrors := ⟨h.scene.change own, h.random, h.clock, h.cancelled, h.listed⟩
  confined := ⟨.change _ own, Nat.le_refl _, rfl, fun _ _ => ⟨rfl, rfl⟩⟩

theorem edit {a : Address} (h : w.Mirrors r i j w') (own : r.ownsList a) (e : ListEdit) :
    (w'.edit a e).2 = (w.edit a e).2 ∧ InStep r i j w (w.edit a e).1 (w'.edit a e).1 := by
  have hitems : w'.scene.itemsAt a = w.scene.itemsAt a := h.scene.same (.list a) (Or.inl own)
  unfold World.edit
  rw [h.scene.varies.shape.config, hitems]
  split
  · exact ⟨rfl, change h own⟩
  · exact ⟨rfl, refl h⟩

theorem moveTo (h : w.Mirrors r i j w') (place : Number × Number) :
    InStep r i j w (w.moveTo r.figure place) (w'.moveTo r.figure place) := by
  unfold World.moveTo
  rw [h.scene.poseOf]
  split
  · exact change h rfl
  · exact refl h

theorem pointTo (h : w.Mirrors r i j w') (direction : Number) :
    InStep r i j w (w.pointTo r.figure direction) (w'.pointTo r.figure direction) := by
  unfold World.pointTo
  rw [h.scene.poseOf]
  split
  · exact change h rfl
  · exact refl h

end InStep

/-! ### Stopping this script -/

theorem isListed_cancelWhere (w : World) (picks : RosterEntry → Bool) (k : Nat) :
    (w.cancelWhere picks).isListed k = w.isListed k := by
  simp only [isListed, cancelWhere, List.any_map]
  congr 1
  funext e
  simp only [Function.comp_apply]
  split <;> rfl

theorem isCancelled_stop_self (w : World) (c : Caller) :
    (w.cancelWhere (StopOption.thisScript.reaches c)).isCancelled c.script = w.isListed c.script := by
  simp only [isCancelled, isListed, cancelWhere, List.any_map, StopOption.reaches]
  congr 1
  funext e
  by_cases he : e.script = c.script <;> simp [he]

theorem isCancelled_stop_of_ne (w : World) (c : Caller) {k : Nat} (hk : k ≠ c.script) :
    (w.cancelWhere (StopOption.thisScript.reaches c)).isCancelled k = w.isCancelled k := by
  simp only [isCancelled, cancelWhere, List.any_map, StopOption.reaches]
  congr 1
  funext e
  by_cases he : e.script = c.script
  · simp [he, hk.symm]
  · simp [he]

theorem InStep.stop (h : w.Mirrors r i j w') :
    InStep r i j w (w.cancelWhere (StopOption.thisScript.reaches (r.caller i)))
      (w'.cancelWhere (StopOption.thisScript.reaches (r.caller j))) where
  mirrors := by
    refine ⟨h.scene, h.random, h.clock, ?_, ?_⟩
    · have here := w.isCancelled_stop_self (r.caller i)
      have there := w'.isCancelled_stop_self (r.caller j)
      exact there.trans (h.listed.trans here.symm)
    · rw [isListed_cancelWhere, isListed_cancelWhere]
      exact h.listed
  confined := by
    refine ⟨.refl r _, Nat.le_refl _, rfl, fun k hk => ⟨?_, ?_⟩⟩
    · exact w.isCancelled_stop_of_ne (r.caller i) hk
    · exact w.isListed_cancelWhere _ k

end World

/-! ### Commands -/

theorem Run.apply_get (w : World) : (get : Run World) w = (.ok w, w) := rfl

theorem Run.apply_findVariable (c : Caller) (ref : Ref) (w : World) : Run.findVariable c ref w =
    ((w.scene.findVariable? c.figure ref).elim (.error (.missingVariable ref.name ref.id)) .ok, w) := by
  unfold Run.findVariable
  rw [Run.apply_bind, Run.apply_get]
  dsimp only
  cases w.scene.findVariable? c.figure ref <;> rfl

theorem Run.apply_findList (c : Caller) (ref : Ref) (w : World) : Run.findList c ref w =
    ((w.scene.findList? c.figure ref).elim (.error (.missingList ref.name ref.id)) .ok, w) := by
  unfold Run.findList
  rw [Run.apply_bind, Run.apply_get]
  dsimp only
  cases w.scene.findList? c.figure ref <;> rfl

/-- Two runs give the same result wherever what they find is alike. -/
def Run.Tandem {α : Type} (r : Realm) (i j : Nat) (m m' : Run α) : Prop :=
  ∀ w w', w.Mirrors r i j w' → (m' w').1 = (m w).1 ∧ World.InStep r i j w (m w).2 (m' w').2

namespace Run.Tandem

variable {α β : Type} {r : Realm} {i j : Nat}

theorem pure (a : α) : Tandem r i j (Pure.pure a) (Pure.pure a) := fun _ _ h => ⟨rfl, .refl h⟩

theorem bind {m m' : Run α} {k k' : α → Run β} (hm : Tandem r i j m m') (hk : ∀ a, Tandem r i j (k a) (k' a)) :
    Tandem r i j (m >>= k) (m' >>= k') := by
  intro w w' h
  obtain ⟨hresult, first⟩ := hm w w' h
  rw [Run.apply_bind, Run.apply_bind]
  cases hr : m w with
  | mk outcome w₁ =>
    cases hr' : m' w' with
    | mk outcome' w₁' =>
      rw [hr, hr'] at first hresult
      obtain rfl : outcome' = outcome := hresult
      cases outcome' with
      | error e => exact ⟨rfl, first⟩
      | ok a =>
        have second := hk a w₁ w₁' first.mirrors
        exact ⟨second.1, .trans first.confined second.2⟩

theorem evaluate {m m' : View → Eval α} (h : r.Reads m m') :
    Tandem r i j (Run.evaluate (r.caller i) m) (Run.evaluate (r.caller j) m') := fun w w' hw => by
  obtain ⟨hresult, step⟩ := World.InStep.evaluate hw h
  exact ⟨congrArg Except.ok hresult, step⟩

theorem of_modify {f f' : World → World} (h : ∀ w w', w.Mirrors r i j w' → World.InStep r i j w (f w) (f' w')) :
    Tandem r i j (modify f : Run Unit) (modify f') := fun w w' hw => ⟨rfl, h w w' hw⟩

theorem change {c : Change} (own : r.Owns c.channel) : Tandem r i j (Run.change c) (Run.change c) :=
  of_modify fun _ _ h => .change h own

theorem log (x : LogRecord) : Tandem r i j (Run.log x) (Run.log x) := of_modify fun _ _ h => .log h x x

theorem ask {f : Scene → α} (h : ∀ s t, r.Alike s t → f t = f s) : Tandem r i j (Run.ask f) (Run.ask f) :=
  fun _ _ hw => ⟨congrArg Except.ok (h _ _ hw.scene), .refl hw⟩

theorem askName : Tandem r i j (Run.ask (·.figureName r.figure)) (Run.ask (·.figureName r.figure)) :=
  ask fun _ _ h => h.varies.figureName _

theorem askAudio : Tandem r i j (Run.ask (·.audioOf r.figure)) (Run.ask (·.audioOf r.figure)) := ask fun _ _ h => h.audioOf

theorem askLength {a : Address} (own : r.ownsList a) :
    Tandem r i j (Run.ask (·.itemsAt a |>.length)) (Run.ask (·.itemsAt a |>.length)) :=
  ask fun _ _ h => congrArg List.length (h.same (.list a) (Or.inl own))

theorem edit {a : Address} (own : r.ownsList a) (e : ListEdit) : Tandem r i j (Run.edit a e) (Run.edit a e) :=
  fun w w' h => by
    obtain ⟨hresult, step⟩ := World.InStep.edit h own e
    exact ⟨congrArg Except.ok hresult, step⟩

/-- What is looked up in the shape of the scene is found in both worlds, or in none. -/
theorem lookup {m m' : Run Address} {look : Scene → Option Address} {e : RunError}
    (run : ∀ w, m w = ((look w.scene).elim (.error e) .ok, w)) (run' : ∀ w, m' w = ((look w.scene).elim (.error e) .ok, w))
    (shape : ∀ s t, s.SameShape t → look t = look s) {k k' : Address → Run α}
    (hk : ∀ a, look r.scene = some a → Tandem r i j (k a) (k' a)) : Tandem r i j (m >>= k) (m' >>= k') := by
  intro w w' h
  have here := shape _ _ h.scene.base.shape
  have there := shape _ _ h.scene.varies.shape
  rw [Run.apply_bind, Run.apply_bind, run, run', there, here]
  cases hfind : look r.scene with
  | none => exact ⟨rfl, .refl h⟩
  | some a => exact hk a hfind w w' h

/-- A variable of the realm is found, or none. -/
theorem findVariable {ref : Ref} (covers : r.Covers [.variable ref]) {k k' : Address → Run α}
    (hk : ∀ a, r.ownsVariable a → Tandem r i j (k a) (k' a)) :
    Tandem r i j (Run.findVariable (r.caller i) ref >>= k) (Run.findVariable (r.caller j) ref >>= k') := by
  refine lookup (Run.apply_findVariable (r.caller i) ref) (Run.apply_findVariable (r.caller j) ref)
    (fun _ _ h => h.findVariable? _ _) fun a hfind => hk a ?_
  have seen := covers _ List.mem_cons_self (.variable a) (congrArg (Option.map Channel.variable) hfind)
  exact seen.resolve_right nofun

/-- A list of the realm is found, or none. -/
theorem findList {ref : Ref} (covers : r.Covers [.listContents ref]) {k k' : Address → Run α}
    (hk : ∀ a, r.ownsList a → Tandem r i j (k a) (k' a)) :
    Tandem r i j (Run.findList (r.caller i) ref >>= k) (Run.findList (r.caller j) ref >>= k') := by
  refine lookup (Run.apply_findList (r.caller i) ref) (Run.apply_findList (r.caller j) ref)
    (fun _ _ h => h.findList? _ _) fun a hfind => hk a ?_
  have seen := covers _ List.mem_cons_self (.list a) (congrArg (Option.map Channel.list) hfind)
  exact seen.resolve_right nofun

end Run.Tandem

section
variable {r : Realm} {i j : Nat}
open Run.Tandem Realm

theorem tandem_playSound {sound : Operand Nat} (h : r.Covers sound.sources) :
    (playSound (r.caller i) sound).Tandem r i j (playSound (r.caller j) sound.bare) := by
  refine (evaluate (Operand.reads_eval h)).bind fun v => askName.bind fun figure =>
    (ask fun _ _ h => h.varies.soundsOf _).bind fun sounds => ?_
  cases findSound? sounds v with
  | some name => exact askAudio.bind fun audio => (log _).bind fun _ => .pure _
  | none => exact (log _).bind fun _ => .pure _

theorem tandem_setVariable {relative : Bool} {ref : Ref} {value : Operand Nat} (href : r.Covers [.variable ref])
    (hvalue : r.Covers value.sources) : (Run.setVariable (r.caller i) relative ref value).Tandem r i j
      (Run.setVariable (r.caller j) relative ref value.bare) := by
  refine findVariable href fun a own => (evaluate (Operand.reads_eval hvalue)).bind fun v => ?_
  cases relative with
  | true => exact (ask fun _ _ h => h.same (.variable a) (Or.inl own)).bind fun current => change own
  | false => exact change own

theorem tandem_addToList {list : Ref} {item : Operand Nat} (hlist : r.Covers [.listContents list])
    (hitem : r.Covers item.sources) :
    (Run.addToList (r.caller i) list item).Tandem r i j (Run.addToList (r.caller j) list item.bare) := by
  refine findList hlist fun a own => (evaluate (Operand.reads_eval hitem)).bind fun v =>
    (edit own _).bind fun accepted => ?_
  cases accepted with
  | true => exact .pure _
  | false => exact askName.bind fun figure => log _

theorem tandem_insertAtList {list : Ref} {item index : Operand Nat} (hlist : r.Covers [.listContents list])
    (hitem : r.Covers item.sources) (hindex : r.Covers index.sources) :
    (Run.insertAtList (r.caller i) list item index).Tandem r i j
      (Run.insertAtList (r.caller j) list item.bare index.bare) := by
  refine findList hlist fun a own => (evaluate (Operand.reads_eval hitem)).bind fun v =>
    (evaluate (Operand.reads_eval hindex)).bind fun x => (askLength own).bind fun length =>
    (evaluate (reads_resolveIndex _ _ _)).bind fun position => ?_
  cases position with
  | item n =>
    refine (edit own _).bind fun accepted => ?_
    cases accepted with
    | true => exact .pure _
    | false => exact askName.bind fun figure => log _
  | all => exact .pure _
  | invalid => exact .pure _

theorem tandem_replaceItemOfList {list : Ref} {index item : Operand Nat} (hlist : r.Covers [.listContents list])
    (hindex : r.Covers index.sources) (hitem : r.Covers item.sources) :
    (Run.replaceItemOfList (r.caller i) list index item).Tandem r i j
      (Run.replaceItemOfList (r.caller j) list index.bare item.bare) := by
  refine findList hlist fun a own => (evaluate (Operand.reads_eval hindex)).bind fun x =>
    (askLength own).bind fun length => (evaluate (reads_resolveIndex _ _ _)).bind fun position => ?_
  cases position with
  | item n =>
    exact (evaluate (Operand.reads_eval hitem)).bind fun v => (edit own _).bind fun _ => .pure _
  | all => exact .pure _
  | invalid => exact .pure _

theorem tandem_deleteOfList {list : Ref} {index : Operand Nat} (hlist : r.Covers [.listContents list])
    (hindex : r.Covers index.sources) :
    (Run.deleteOfList (r.caller i) list index).Tandem r i j (Run.deleteOfList (r.caller j) list index.bare) := by
  refine findList hlist fun a own => (evaluate (Operand.reads_eval hindex)).bind fun x =>
    (askLength own).bind fun length => (evaluate (reads_resolveIndex _ _ _)).bind fun position => ?_
  cases position with
  | item n => exact (edit own _).bind fun _ => .pure _
  | all => exact (edit own _).bind fun _ => .pure _
  | invalid => exact .pure _

/-- A command whose sources are covered, and that stops no other script, does the same in both worlds. -/
theorem Command.tandem_run {cmd : Command Nat} (covers : r.Covers cmd.sources)
    (stops : ∀ option, cmd = .stop option → option = .thisScript) :
    (cmd.run (r.caller i)).Tandem r i j (cmd.bare.run (r.caller j)) := by
  obtain ⟨target, inner⟩ := covers_append.mp covers
  cases cmd with
  | setVariable relative opcode ref value => exact tandem_setVariable target inner
  | addToList list item => exact tandem_addToList target inner
  | deleteOfList list index => exact tandem_deleteOfList target inner
  | deleteAllOfList list => exact findList target fun a own => (edit own _).bind fun _ => .pure _
  | insertAtList list item index =>
    rw [Command.taps, List.map_append] at inner
    obtain ⟨hitem, hindex⟩ := covers_append.mp inner
    exact tandem_insertAtList target hitem hindex
  | replaceItemOfList list index item =>
    rw [Command.taps, List.map_append] at inner
    obtain ⟨hindex, hitem⟩ := covers_append.mp inner
    exact tandem_replaceItemOfList target hindex hitem
  | move step opcode =>
    exact (evaluate (Step.reads_destination inner)).bind fun place => of_modify fun _ _ h => .moveTo h place
  | turn kind opcode degrees =>
    exact (evaluate (Operand.reads_number inner)).bind fun degrees => (ask fun _ _ h => h.poseOf).bind fun pose =>
      of_modify fun _ _ h => .pointTo h _
  | adjust setting relative opcode amount =>
    exact (evaluate (Operand.reads_number inner)).bind fun amount => askAudio.bind fun audio => change rfl
  | clearEffects => exact askAudio.bind fun audio => change rfl
  | play sound => exact (tandem_playSound inner).bind fun _ => .pure _
  | stop option =>
    obtain rfl := stops option rfl
    exact of_modify fun _ _ h => .stop h

theorem World.InStep.command {w w' : World} (h : w.Mirrors r i j w') {cmd : Command Nat} (covers : r.Covers cmd.sources)
    (stops : ∀ option, cmd = .stop option → option = .thisScript) :
    InStep r i j w (w.command (r.caller i) cmd) (w'.command (r.caller j) cmd.bare) := by
  obtain ⟨hresult, step⟩ := Command.tandem_run covers stops w w' h
  unfold World.command
  cases hr : cmd.run (r.caller i) w with
  | mk outcome w₁ =>
    cases hr' : cmd.bare.run (r.caller j) w' with
    | mk outcome' w₁' =>
      rw [hr, hr'] at step hresult
      obtain rfl : outcome' = outcome := hresult
      cases outcome' with
      | ok u => exact step
      | error e => exact .trans step.confined (.log step.mirrors _ _)

end

end BlockScript
