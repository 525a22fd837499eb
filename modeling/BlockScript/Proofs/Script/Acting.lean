import BlockScript.Proofs.Script.Reading
import BlockScript.Script.Thread
import Mathlib.Logic.Relation

/-!
What blocks do to the world. Apart from stopping scripts and watching conditions, all that a block does
is a chain of acts: it logs, evaluates something within its taps, or changes the scene. An act leaves
the clock, the roster and the numbers for new scripts and relays alone.
-/
namespace BlockScript

/-! ### Taps of statements -/

section
variable {ρ : Type}

/-- The taps of the operands of a step. -/
def Step.taps : Step ρ → List (ρ × Source)
  | .goTo x y => x.taps ++ y.taps
  | .setX x => x.taps
  | .setY y => y.taps
  | .changeX dx => dx.taps
  | .changeY dy => dy.taps
  | .forward steps => steps.taps

/-- The taps of the operands of a command. -/
def Command.taps : Command ρ → List (ρ × Source)
  | .setVariable _ _ _ value => value.taps
  | .addToList _ item => item.taps
  | .deleteOfList _ index => index.taps
  | .deleteAllOfList _ => []
  | .insertAtList _ item index => item.taps ++ index.taps
  | .replaceItemOfList _ index item => index.taps ++ item.taps
  | .move step _ => step.taps
  | .turn _ _ degrees => degrees.taps
  | .adjust _ _ _ amount => amount.taps
  | .clearEffects => []
  | .play sound => sound.taps
  | .stop _ => []

mutual
/-- The taps of a block and of the bodies in it. -/
def Action.taps : Action ρ → List (ρ × Source)
  | .command c => c.taps
  | .playUntilDone sound => sound.taps
  | .wait seconds => seconds.taps
  | .waitUntil condition => condition.taps
  | .glide seconds x y => seconds.taps ++ (x.taps ++ y.taps)
  | .branch _ condition thenBody elseBody => condition.taps ++ (Action.bodyTaps thenBody ++ Action.bodyTaps elseBody)
  | .repeatTimes times body => times.taps ++ Action.bodyTaps body
  | .forever body => Action.bodyTaps body
  | .repeatUntil condition body => condition.taps ++ Action.bodyTaps body
/-- The taps of all statements of a body. -/
def Action.bodyTaps : List (Action ρ) → List (ρ × Source)
  | [] => []
  | a :: rest => a.taps ++ Action.bodyTaps rest
end

end

/-- The taps of a loop, its condition included. -/
def Loop.taps : Loop → List (Nat × Source)
  | .times _ body => Action.bodyTaps body
  | .forever body => Action.bodyTaps body
  | .repeatUntil condition body => condition.taps ++ Action.bodyTaps body

/-- The taps of what is left in a frame. -/
def Frame.taps : Frame → List (Nat × Source)
  | .blocks rest => Action.bodyTaps rest
  | .check loop => loop.taps
  | .rounded loop => loop.taps

/-- The taps of all that is left to do. -/
def Frame.stackTaps (frames : List Frame) : List (Nat × Source) := frames.flatMap Frame.taps

/-- The condition that a script waits for, with the links that tell it of changes. -/
def Pause.watched? : Pause → Option (Predicate Nat × Subscription Channel)
  | .watching condition links => some (condition, links)
  | _ => none

/-- The taps of the condition that a script waits for, if it does. -/
def Pause.taps : Pause → List (Nat × Source)
  | .watching p _ => p.taps
  | _ => []

theorem Pause.taps_eq_nil {pause : Pause} (h : pause.watched? = none) : pause.taps = [] := by
  cases pause with
  | watching p links => cases h
  | _ => rfl

theorem Loop.bodyTaps_subset (loop : Loop) : Action.bodyTaps loop.body ⊆ loop.taps := by
  cases loop with
  | times left body => exact List.Subset.refl _
  | forever body => exact List.Subset.refl _
  | repeatUntil condition body => exact List.subset_append_right _ _

/-! ### Acts -/

namespace World

/-- One thing that a block of a figure does to the world. -/
inductive Act (figure : Nat) (taps : List (Nat × Source)) : World → World → Prop
  | log (w : World) (r : LogRecord) : Act figure taps w (w.log r)
  | evaluate {α : Type} (w : World) {m : View → Eval α} (h : IsConnecting taps m) :
      Act figure taps w (w.evaluate figure m).2
  | change (w : World) (c : Change) : Act figure taps w (w.change c)

/-- Some acts, one after the other. -/
abbrev Acts (figure : Nat) (taps : List (Nat × Source)) : World → World → Prop :=
  Relation.ReflTransGen (Act figure taps)

variable {figure : Nat} {taps more : List (Nat × Source)} {w w' : World}

theorem Acts.log (w : World) (r : LogRecord) : Acts figure taps w (w.log r) := .single (.log w r)

theorem Acts.logAll (records : List LogRecord) (w : World) : Acts figure taps w (records.foldl World.log w) := by
  induction records generalizing w with
  | nil => exact .refl
  | cons r records ih => exact .head (.log w r) (ih (w.log r))

theorem Acts.evaluate {α : Type} (w : World) {m : View → Eval α} (h : IsConnecting taps m) :
    Acts figure taps w (w.evaluate figure m).2 := .single (.evaluate w h)

theorem Acts.change (w : World) (c : Change) : Acts figure taps w (w.change c) := .single (.change w c)

theorem Acts.mono (h : Acts figure taps w w') (hsub : taps ⊆ more) : Acts figure more w w' := by
  refine Relation.ReflTransGen.mono (fun u u' hu => ?_) _ _ h
  cases hu with
  | log _ r => exact .log u r
  | evaluate _ hm => exact .evaluate u (hm.mono hsub)
  | change _ c => exact .change u c

theorem change_eq (w : World) (c : Change) :
    w.change c = { w with
      scene := c.apply w.scene,
      traces := { w.traces with hub := (w.traces.hub.raise c.channel).1 },
      signals := (w.traces.hub.raise c.channel).2.reverse ++ w.signals } := rfl

/-- What does not look at the scene, the traces or the signals stays as it is. -/
theorem Acts.kept {α : Type} {f : World → α} (h : Acts figure taps w w')
    (hf : ∀ w scene traces signals, f { w with scene, traces, signals } = f w) : f w' = f w := by
  induction h with
  | refl => rfl
  | tail _ hu ih =>
    rw [← ih]
    cases hu with
    | log _ r => exact hf _ _ _ _
    | evaluate _ hm => exact hf _ _ _ _
    | change _ c => rw [change_eq]; exact hf _ _ _ _

/-- An edit or a move is one change of the scene, or nothing. -/
def Changes (w w' : World) : Prop := w' = w ∨ ∃ c, w' = w.change c

theorem changes_edit (w : World) (a : Address) (e : ListEdit) : w.Changes (w.edit a e).1 := by
  unfold World.edit
  split
  · exact Or.inr ⟨_, rfl⟩
  · exact Or.inl rfl

theorem changes_moveTo (w : World) (n : Nat) (place : Number × Number) : w.Changes (w.moveTo n place) := by
  unfold World.moveTo
  split
  · exact Or.inr ⟨_, rfl⟩
  · exact Or.inl rfl

theorem changes_pointTo (w : World) (n : Nat) (direction : Number) : w.Changes (w.pointTo n direction) := by
  unfold World.pointTo
  split
  · exact Or.inr ⟨_, rfl⟩
  · exact Or.inl rfl

theorem Changes.acts (h : w.Changes w') : Acts figure taps w w' := by
  rcases h with rfl | ⟨c, rfl⟩
  · exact .refl
  · exact .change w c

end World

/-! ### What commands are put together from -/

/-- Blocks that set a pose or an audio setting. -/
def Command.sets {ρ : Type} : Command ρ → Bool
  | .move .. => true
  | .turn .. => true
  | .adjust .. => true
  | .clearEffects => true
  | _ => false

/-- What a command with such taps evaluates: operands, the position that one of them stands for, and where a step leads. -/
inductive Evaluated (taps : List (Nat × Source)) : {α : Type} → (View → Eval α) → Prop
  | value {o : Operand Nat} (h : o.taps ⊆ taps) : Evaluated taps fun v => o.eval v
  | number {o : Operand Nat} (h : o.taps ⊆ taps) : Evaluated taps fun v => o.number v
  | position (index : Value) (length : Nat) (acceptAll : Bool) : Evaluated taps fun _ => resolveIndex index length acceptAll
  | destination {step : Step Nat} (h : step.taps ⊆ taps) : Evaluated taps fun v => step.destination v

/-- A part of a command that knows the variable or the list that the command is about. -/
inductive Command.Part (c : Caller) (cmd : Command Nat) : {α : Type} → Run α → Prop
  | pure {α : Type} (a : α) : Part c cmd (Pure.pure a : Run α)
  | bind {α β : Type} {m : Run α} {k : α → Run β} (first : Part c cmd m) (rest : ∀ a, Part c cmd (k a)) :
      Part c cmd (m >>= k)
  | evaluate {α : Type} {m : View → Eval α} (h : Evaluated cmd.taps m) : Part c cmd (Run.evaluate c m)
  | ask {α : Type} (f : Scene → α) : Part c cmd (Run.ask f)
  | log (r : LogRecord) : Part c cmd (Run.log r)
  | edit (a : Address) (e : ListEdit) : Part c cmd (Run.edit a e)
  | setVariable (a : Address) (v : Value) : Part c cmd (Run.change (.variable a v))
  | setAudio (sets : cmd.sets = true) (audio : AudioSettings) : Part c cmd (Run.change (.audio c.figure audio))
  | moveTo (sets : cmd.sets = true) (place : Number × Number) : Part c cmd (modify (·.moveTo c.figure place))
  | pointTo (sets : cmd.sets = true) (direction : Number) : Part c cmd (modify (·.pointTo c.figure direction))
  | stop {option : StopOption} (h : cmd = .stop option) : Part c cmd (modify (·.cancelWhere (option.reaches c)))

/-- A command is such a part, or it first finds what it is about, and fails if there is nothing. -/
inductive Command.Parts (c : Caller) (cmd : Command Nat) : Run Unit → Prop
  | part {m : Run Unit} (h : cmd.Part c m) : Parts c cmd m
  | aboutVariable (ref : Ref) {k : Address → Run Unit} (h : ∀ a, cmd.Part c (k a)) :
      Parts c cmd (Run.findVariable c ref >>= k)
  | aboutList (ref : Ref) {k : Address → Run Unit} (h : ∀ a, cmd.Part c (k a)) : Parts c cmd (Run.findList c ref >>= k)

section
variable (c : Caller)
open Command.Part

theorem part_playSound (sound : Operand Nat) : (Command.play sound).Part c (playSound c sound) := by
  refine (evaluate (.value (List.Subset.refl _))).bind fun v => (ask _).bind fun figure => (ask _).bind fun sounds => ?_
  cases findSound? sounds v with
  | some name => exact (ask _).bind fun audio => (log _).bind fun _ => .pure _
  | none => exact (log _).bind fun _ => .pure _

theorem parts_setVariable (relative : Bool) (opcode : String) (ref : Ref) (value : Operand Nat) :
    (Command.setVariable relative opcode ref value).Parts c (Run.setVariable c relative ref value) := by
  refine .aboutVariable ref fun a => (evaluate (.value (List.Subset.refl _))).bind fun v => ?_
  cases relative with
  | true => exact (ask _).bind fun current => .setVariable a _
  | false => exact .setVariable a _

theorem parts_addToList (list : Ref) (item : Operand Nat) :
    (Command.addToList list item).Parts c (Run.addToList c list item) := by
  refine .aboutList list fun a => (evaluate (.value (List.Subset.refl _))).bind fun v => (edit a _).bind fun accepted => ?_
  cases accepted with
  | true => exact .pure _
  | false => exact (ask _).bind fun figure => .log _

theorem parts_insertAtList (list : Ref) (item index : Operand Nat) :
    (Command.insertAtList list item index).Parts c (Run.insertAtList c list item index) := by
  refine .aboutList list fun a => (evaluate (.value (List.subset_append_left _ _))).bind fun v =>
    (evaluate (.value (List.subset_append_right _ _))).bind fun i => (ask _).bind fun length =>
    (evaluate (.position _ _ _)).bind fun position => ?_
  cases position with
  | item n =>
    refine (edit a _).bind fun accepted => ?_
    cases accepted with
    | true => exact .pure _
    | false => exact (ask _).bind fun figure => .log _
  | all => exact .pure _
  | invalid => exact .pure _

theorem parts_replaceItemOfList (list : Ref) (index item : Operand Nat) :
    (Command.replaceItemOfList list index item).Parts c (Run.replaceItemOfList c list index item) := by
  refine .aboutList list fun a => (evaluate (.value (List.subset_append_left _ _))).bind fun i =>
    (ask _).bind fun length => (evaluate (.position _ _ _)).bind fun position => ?_
  cases position with
  | item n =>
    exact (evaluate (.value (List.subset_append_right _ _))).bind fun v => (edit a _).bind fun _ => .pure _
  | all => exact .pure _
  | invalid => exact .pure _

theorem parts_deleteOfList (list : Ref) (index : Operand Nat) :
    (Command.deleteOfList list index).Parts c (Run.deleteOfList c list index) := by
  refine .aboutList list fun a => (evaluate (.value (List.Subset.refl _))).bind fun i => (ask _).bind fun length =>
    (evaluate (.position _ _ _)).bind fun position => ?_
  cases position with
  | item n => exact (edit a _).bind fun _ => .pure _
  | all => exact (edit a _).bind fun _ => .pure _
  | invalid => exact .pure _

theorem Command.parts_run (cmd : Command Nat) : cmd.Parts c (cmd.run c) := by
  cases cmd with
  | setVariable relative opcode ref value => exact parts_setVariable c relative opcode ref value
  | addToList list item => exact parts_addToList c list item
  | deleteOfList list index => exact parts_deleteOfList c list index
  | deleteAllOfList list => exact .aboutList list fun a => (edit a _).bind fun _ => .pure _
  | insertAtList list item index => exact parts_insertAtList c list item index
  | replaceItemOfList list index item => exact parts_replaceItemOfList c list index item
  | move step opcode =>
    exact .part ((evaluate (.destination (List.Subset.refl _))).bind fun place => .moveTo rfl place)
  | turn kind opcode degrees =>
    exact .part ((evaluate (.number (List.Subset.refl _))).bind fun degrees => (ask _).bind fun pose => .pointTo rfl _)
  | adjust setting relative opcode amount =>
    exact .part ((evaluate (.number (List.Subset.refl _))).bind fun amount => (ask _).bind fun audio => .setAudio rfl _)
  | clearEffects => exact .part ((ask _).bind fun audio => .setAudio rfl _)
  | play sound => exact .part ((part_playSound c sound).bind fun _ => .pure _)
  | stop option => exact .part (.stop rfl)

end

/-! ### Commands -/

theorem Run.apply_bind {α β : Type} (m : Run α) (k : α → Run β) (w : World) :
    (m >>= k) w = match m w with
      | (.ok a, w) => k a w
      | (.error e, w) => (.error e, w) := by
  show (ExceptT.bind m k) w = _
  simp only [ExceptT.bind, ExceptT.mk, bind, StateT.bind, ExceptT.bindCont]
  cases m w with
  | mk outcome w => cases outcome <;> rfl

/-- A relation holds between the world before a run and the world after it, whether the run fails or not. -/
def Run.Keeps {α : Type} (R : World → World → Prop) (m : Run α) : Prop := ∀ w, R w (m w).2

/-- A relation between worlds that holds across each single thing that a command of a script does. A command that does
not set poses and audio settings changes variables and lists only. -/
structure Command.Spans (c : Caller) (cmd : Command Nat) (R : World → World → Prop) : Prop where
  refl : ∀ w, R w w
  trans : ∀ {u v w}, R u v → R v w → R u w
  evaluate : ∀ {α : Type} {m : View → Eval α}, Evaluated cmd.taps m → ∀ w, R w (w.evaluate c.figure m).2
  log : ∀ r w, R w (w.log r)
  change : ∀ x : Change, (cmd.sets = false → ∀ n, x.channel ≠ .moved n ∧ x.channel ≠ .audio n) → ∀ w, R w (w.change x)
  stop : ∀ {option}, cmd = .stop option → ∀ w, R w (w.cancelWhere (option.reaches c))

namespace Command.Spans

variable {c : Caller} {cmd : Command Nat} {R : World → World → Prop} (spans : cmd.Spans c R)
include spans

theorem bind {α β : Type} {m : Run α} {k : α → Run β} (hm : m.Keeps R) (hk : ∀ a, (k a).Keeps R) : (m >>= k).Keeps R := by
  intro w
  have first := hm w
  rw [Run.apply_bind]
  cases hr : m w with
  | mk outcome w' =>
    rw [hr] at first
    cases outcome with
    | error e => exact first
    | ok a => exact spans.trans first (hk a w')

theorem findVariable (ref : Ref) : (Run.findVariable c ref).Keeps R := by
  refine spans.bind (m := MonadState.get) spans.refl fun w => ?_
  cases w.scene.findVariable? c.figure ref with
  | some a => exact spans.refl
  | none => exact spans.refl

theorem findList (ref : Ref) : (Run.findList c ref).Keeps R := by
  refine spans.bind (m := MonadState.get) spans.refl fun w => ?_
  cases w.scene.findList? c.figure ref with
  | some a => exact spans.refl
  | none => exact spans.refl

/-- A change by a command that sets poses and audio settings. -/
theorem changeSetting (sets : cmd.sets = true) (x : Change) (w : World) : R w (w.change x) :=
  spans.change x (fun still => absurd sets (Bool.eq_false_iff.mp still)) w

theorem changes (sets : cmd.sets = true) {w w' : World} (h : w.Changes w') : R w w' := by
  rcases h with rfl | ⟨x, rfl⟩
  · exact spans.refl w'
  · exact spans.changeSetting sets x w

theorem edit (a : Address) (e : ListEdit) (w : World) : R w (w.edit a e).1 := by
  unfold World.edit
  split
  · exact spans.change (.items a _) (fun _ _ => ⟨nofun, nofun⟩) w
  · exact spans.refl w

theorem part {α : Type} {m : Run α} (h : cmd.Part c m) : m.Keeps R := by
  induction h with
  | pure a => exact spans.refl
  | bind _ _ first rest => exact spans.bind first rest
  | evaluate h => exact spans.evaluate h
  | ask f => exact spans.refl
  | log r => exact spans.log r
  | edit a e => exact spans.edit a e
  | setVariable a v => exact spans.change (.variable a v) fun _ _ => ⟨nofun, nofun⟩
  | setAudio sets audio => exact spans.changeSetting sets _
  | moveTo sets place => exact fun w => spans.changes sets (w.changes_moveTo _ place)
  | pointTo sets direction => exact fun w => spans.changes sets (w.changes_pointTo _ direction)
  | stop h => exact spans.stop h

theorem parts {m : Run Unit} (h : cmd.Parts c m) : m.Keeps R := by
  cases h with
  | part h => exact spans.part h
  | aboutVariable ref h => exact spans.bind (spans.findVariable ref) fun a => spans.part (h a)
  | aboutList ref h => exact spans.bind (spans.findList ref) fun a => spans.part (h a)

/-- What a command does, the record of its failure included. -/
theorem command (w : World) : R w (w.command c cmd) := by
  have hrun := spans.parts (cmd.parts_run c) w
  unfold World.command
  split
  · rename_i w' hw
    rw [hw] at hrun
    exact hrun
  · rename_i e w' hw
    rw [hw] at hrun
    exact spans.trans hrun (spans.log _ w')

end Command.Spans

theorem Operand.isConnecting_eval (o : Operand Nat) : IsConnecting o.taps (fun v => o.eval v) :=
  .of_isReading o.isReading_eval

theorem Operand.isConnecting_number (o : Operand Nat) : IsConnecting o.taps (fun v => o.number v) :=
  .of_isReading o.isReading_number

theorem Predicate.isConnecting_test (p : Predicate Nat) : IsConnecting p.taps (fun v => p.test v) :=
  .of_isReading p.isReading_test

theorem isConnecting_resolveIndex {taps : List (Nat × Source)} (index : Value) (length : Nat) (acceptAll : Bool) :
    IsConnecting taps (fun _ => resolveIndex index length acceptAll) :=
  .of_isReading (isReading_resolveIndex index length acceptAll)

theorem Step.isConnecting_destination (step : Step Nat) : IsConnecting step.taps (fun v => step.destination v) := by
  cases step with
  | goTo x y =>
    exact (x.isConnecting_number.mono (List.subset_append_left _ _)).bind fun a =>
      (y.isConnecting_number.mono (List.subset_append_right _ _)).map fun _ b => (a, b)
  | setX x => exact x.isConnecting_number.map fun v a => (a, (v.scene.poseOf v.figure).y)
  | setY y => exact y.isConnecting_number.map fun v a => ((v.scene.poseOf v.figure).x, a)
  | changeX dx =>
    exact dx.isConnecting_number.map fun v a => ((v.scene.poseOf v.figure).x + a, (v.scene.poseOf v.figure).y)
  | changeY dy =>
    exact dy.isConnecting_number.map fun v a => ((v.scene.poseOf v.figure).x, (v.scene.poseOf v.figure).y + a)
  | forward steps => exact steps.isConnecting_number.map fun v a => (v.scene.poseOf v.figure).forward a

theorem Evaluated.isConnecting {α : Type} {taps : List (Nat × Source)} {m : View → Eval α} (h : Evaluated taps m) :
    IsConnecting taps m := by
  cases h with
  | value h => exact (Operand.isConnecting_eval _).mono h
  | number h => exact (Operand.isConnecting_number _).mono h
  | position index length acceptAll => exact isConnecting_resolveIndex index length acceptAll
  | destination h => exact (Step.isConnecting_destination _).mono h

namespace World

variable {c : Caller} {cmd : Command Nat}

theorem Acts.spans (goes : ∀ option, cmd ≠ .stop option) : cmd.Spans c (Acts c.figure cmd.taps) where
  refl _ := .refl
  trans first second := first.trans second
  evaluate h w := .evaluate w h.isConnecting
  log r w := .log w r
  change x _ w := .change w x
  stop h := absurd h (goes _)

theorem playSound_acts (c : Caller) (sound : Operand Nat) (w : World) :
    Acts c.figure sound.taps w (playSound c sound w).2 := by
  have spans : (Command.play sound).Spans c (Acts c.figure sound.taps) := Acts.spans nofun
  exact spans.part (part_playSound c sound) w

/-- All commands but stop blocks act within their taps. -/
theorem command_acts (w : World) (c : Caller) (goes : ∀ option, cmd ≠ .stop option) :
    Acts c.figure cmd.taps w (w.command c cmd) :=
  (Acts.spans goes).command w

end World

end BlockScript
