import BlockScript.Proofs.Number.Finite
import BlockScript.Proofs.Scene.Locality
import BlockScript.Proofs.Script.Pieces

/-!
What scripts do to the poses and the audio settings of figures. A piece that heads for a place or a direction does so
through one guarded write, a sound block adjusts one setting or clears the effects, and everything else a script does
leaves poses and settings as they are.
-/
namespace BlockScript

/-! ### Aims -/

/-- What a motion block computes before it moves or turns its figure. -/
inductive Aim where
  | place (x y : Number)
  | direction (d : Number)

/-- Both coordinates or the direction are finite. -/
def Aim.isFinite : Aim → Bool
  | .place x y => x.isFinite && y.isFinite
  | .direction d => d.isFinite

/-- The pose of a figure that reached its aim. -/
def Pose.reach (p : Pose) : Aim → Pose
  | .place x y => { p with x, y }
  | .direction d => { p with direction := d.wrapDirection }

namespace World

/-- Moves or turns a figure. -/
def head (w : World) (figure : Nat) : Aim → World
  | .place x y => w.moveTo figure (x, y)
  | .direction d => w.pointTo figure d

/-- A figure takes the pose that it heads for if the aim is finite, and else nothing happens. -/
theorem head_eq (w : World) (figure : Nat) (aim : Aim) :
    w.head figure aim =
      if aim.isFinite then w.change (.pose figure ((w.scene.poseOf figure).reach aim)) else w := by
  cases aim with
  | place x y =>
    simp only [head, moveTo, Pose.moveTo?, Aim.isFinite, Pose.reach]
    by_cases h : (x.isFinite && y.isFinite) = true <;> simp only [h, if_true, if_false, Bool.false_eq_true]
  | direction d =>
    simp only [head, pointTo, Pose.pointTo?, Aim.isFinite, Pose.reach]
    by_cases h : d.isFinite = true <;> simp only [h, if_true, if_false, Bool.false_eq_true]

theorem isSome_figure?_head (w : World) (n : Nat) (aim : Aim) (m : Nat) :
    ((w.head n aim).scene.figure? m).isSome = (w.scene.figure? m).isSome := by
  rw [head_eq]
  split
  · change ((w.scene.setPose n _).figure? m).isSome = _
    rw [Scene.setPose, Scene.figure?_modifyFigure]
    split
    · exact Option.isSome_map
    · rfl
  · rfl

end World

/-- Where a glide leads at a time: to its end, or to the share of its way that is done. -/
def Glide.aim (g : Glide) (now : Nat) : Aim :=
  let share := g.progress now
  if 1 ≤ share then .place g.x g.y else .place (g.place share).1 (g.place share).2

namespace World

/-- Where the next block of a script heads, with the world in which its operands are evaluated: a block that moves or
turns, or a glide that takes no time. -/
def blockAim? (w : World) (figure : Nat) : List Frame → Option (World × Aim)
  | .blocks (.command (.move step _) :: _) :: _ =>
    let (place, u) := w.evaluate figure step.destination
    some (u, .place place.1 place.2)
  | .blocks (.command (.turn kind _ degrees) :: _) :: _ =>
    let (degrees, u) := w.evaluate figure degrees.number
    some (u, .direction (kind.apply (w.scene.poseOf figure).direction degrees))
  | .blocks (.glide seconds x y :: _) :: _ =>
    let (seconds, u) := w.evaluate figure seconds.number
    let (x, u) := u.evaluate figure x.number
    let (y, u) := u.evaluate figure y.number
    if glideLength seconds = 0 then some (u, .place x y) else none
  | _ => none

/-- Where the next piece of a script heads, if anywhere. A cancelled script heads nowhere, even on its way. -/
def aim? (w : World) (t : Thread) : Option (World × Aim) :=
  if w.isCancelled t.caller.script then none
  else match t.pause with
  | .ready => w.blockAim? t.caller.figure t.frames
  | .gliding g _ => some (w, g.aim w.clock)
  | _ => none

end World

/-! ### Blocks that leave poses and settings alone -/

/-- Every figure has the same pose and the same audio settings. -/
def Scene.SameSettings (s t : Scene) : Prop := ∀ n, s.SameAt t (.moved n) ∧ s.SameAt t (.audio n)

namespace Scene.SameSettings

variable {s t u : Scene}

theorem refl (s : Scene) : s.SameSettings s := fun _ => ⟨.refl s _, .refl s _⟩

theorem trans (h : s.SameSettings t) (h' : t.SameSettings u) : s.SameSettings u :=
  fun n => ⟨(h n).1.trans (h' n).1, (h n).2.trans (h' n).2⟩

theorem apply {c : Change} (hpose : ∀ n, c.channel ≠ .moved n) (haudio : ∀ n, c.channel ≠ .audio n) (s : Scene) :
    s.SameSettings (c.apply s) :=
  fun n => ⟨c.sameAt_of_ne s (hpose n).symm, c.sameAt_of_ne s (haudio n).symm⟩

end Scene.SameSettings

namespace World

theorem spans_sameSettings {c : Caller} {cmd : Command Nat} (still : cmd.sets = false) :
    cmd.Spans c fun w w' => w.scene.SameSettings w'.scene where
  refl w := .refl w.scene
  trans first second := first.trans second
  evaluate _ w := .refl w.scene
  log _ w := .refl w.scene
  change _ elsewhere w := .apply (fun n => (elsewhere still n).1) (fun n => (elsewhere still n).2) w.scene
  stop _ w := .refl w.scene

theorem command_still (w : World) (c : Caller) {cmd : Command Nat} (h : cmd.sets = false) :
    w.scene.SameSettings (w.command c cmd).scene :=
  (spans_sameSettings h).command w

theorem waitUntil_scene (w : World) (c : Caller) (next : List Frame) (p : Predicate Nat) :
    (w.waitUntil c next p).1.scene = w.scene := by
  unfold waitUntil
  dsimp only
  split
  · rfl
  · split <;> rfl

theorem retest_scene (w : World) (c : Caller) (next : List Frame) (p : Predicate Nat) (links : Subscription Channel)
    (tries : Nat) : (w.retest c next p links tries).1.scene = w.scene := by
  induction tries generalizing w with
  | zero => rfl
  | succ tries ih =>
    unfold retest
    dsimp only
    split
    · rfl
    · exact ih _

theorem wait_scene (w : World) (c : Caller) (next : List Frame) (seconds : Number) :
    (w.wait c next seconds).1.scene = w.scene := by
  unfold wait
  split
  · rfl
  · split <;> rfl

theorem logAll_scene (w : World) (records : List LogRecord) : (records.foldl log w).scene = w.scene := by
  induction records generalizing w with
  | nil => rfl
  | cons r records ih => exact ih (w.log r)

theorem playUntilDone_still (w : World) (c : Caller) (next : List Frame) (sound : Operand Nat) :
    w.scene.SameSettings (w.playUntilDone c next sound).1.scene := by
  have spans : (Command.play sound).Spans c fun w w' => w.scene.SameSettings w'.scene := spans_sameSettings rfl
  have hplay := spans.part (part_playSound c sound) w
  unfold playUntilDone
  split
  · rename_i w' hw
    rw [hw] at hplay
    exact hplay
  · rename_i outcome w' _ hw
    rw [hw] at hplay
    exact hplay

theorem checkLoop_scene (w : World) (c : Caller) (next : List Frame) (loop : Loop) :
    (w.checkLoop c next loop).1.scene = w.scene := by
  unfold checkLoop
  split
  · rfl
  · rfl
  · rfl
  · split <;> rfl

/-! ### Pieces -/

/-- What a piece of a script does to poses and audio settings. -/
inductive Sets (w : World) (t : Thread) : World → Prop
  | nothing {w' : World} (still : w.aim? t = none) (same : w.scene.SameSettings w'.scene) : Sets w t w'
  | heads {u : World} {aim : Aim} (aims : w.aim? t = some (u, aim)) (scene : u.scene = w.scene)
      (signals : u.signals = w.signals) : Sets w t (u.head t.caller.figure aim)
  | adjusts {u : World} (still : w.aim? t = none) (scene : u.scene = w.scene) (setting : AudioSetting)
      {amount : Number} (number : amount ≠ .nan) (relative : Bool) :
      Sets w t (u.change (.audio t.caller.figure
        (setting.adjust (w.scene.audioOf t.caller.figure) amount relative)))
  | clears (still : w.aim? t = none) :
      Sets w t (w.change (.audio t.caller.figure (w.scene.audioOf t.caller.figure).clearEffects))

variable {w : World} {t : Thread}

theorem Sets.of_scene_eq {w' : World} (still : w.aim? t = none) (same : w'.scene = w.scene) : w.Sets t w' :=
  .nothing still (same ▸ .refl _)

theorem aim?_of_cancelled (h : w.isCancelled t.caller.script = true) : w.aim? t = none := if_pos h

theorem aim?_of_ready (hpause : t.pause = .ready) (hrun : w.isCancelled t.caller.script = false) :
    w.aim? t = w.blockAim? t.caller.figure t.frames := by
  unfold aim?
  rw [hrun, hpause]
  rfl

theorem aim?_of_pause (hready : t.pause ≠ .ready) (hgliding : ∀ g wakeAt, t.pause ≠ .gliding g wakeAt) :
    w.aim? t = none := by
  unfold aim?
  split
  · rfl
  · split
    · exact absurd ‹_› hready
    · exact absurd ‹_› (hgliding _ _)
    · rfl

theorem evaluate_scene {α : Type} (w : World) (figure : Nat) (m : View → Eval α) :
    (w.evaluate figure m).2.scene = w.scene := rfl

theorem number_ne_nan (w : World) (figure : Nat) (o : Operand Nat) : (w.evaluate figure o.number).1 ≠ .nan :=
  Value.toNumber_ne_nan (o.eval (w.view figure) w.traces).1

theorem command_move (w : World) (c : Caller) (step : Step Nat) (opcode : String) :
    w.command c (.move step opcode) = (w.evaluate c.figure step.destination).2.head c.figure
      (.place (w.evaluate c.figure step.destination).1.1 (w.evaluate c.figure step.destination).1.2) := rfl

theorem command_turn (w : World) (c : Caller) (kind : Turn) (opcode : String) (degrees : Operand Nat) :
    w.command c (.turn kind opcode degrees) = (w.evaluate c.figure degrees.number).2.head c.figure
      (.direction (kind.apply (w.scene.poseOf c.figure).direction (w.evaluate c.figure degrees.number).1)) := rfl

theorem command_adjust (w : World) (c : Caller) (setting : AudioSetting) (relative : Bool) (opcode : String)
    (amount : Operand Nat) :
    w.command c (.adjust setting relative opcode amount) = (w.evaluate c.figure amount.number).2.change (.audio c.figure
      (setting.adjust (w.scene.audioOf c.figure) (w.evaluate c.figure amount.number).1 relative)) := rfl

/-- What a block does to poses and settings, told by where it heads. -/
theorem command_sets {cmd : Command Nat} {rest : List (Action Nat)} {next : List Frame}
    (haim : w.aim? t = w.blockAim? t.caller.figure (.blocks (.command cmd :: rest) :: next)) :
    w.Sets t (w.command t.caller cmd) := by
  cases cmd with
  | move step opcode =>
    rw [command_move]
    exact .heads haim rfl rfl
  | turn kind opcode degrees =>
    rw [command_turn]
    exact .heads haim rfl rfl
  | adjust setting relative opcode amount =>
    rw [command_adjust]
    exact .adjusts haim (evaluate_scene ..) setting (w.number_ne_nan _ amount) relative
  | clearEffects => exact .clears haim
  | _ => exact .nothing haim (w.command_still _ rfl)

theorem begin_sets {a : Action Nat} {rest : List (Action Nat)} {next : List Frame}
    (haim : w.aim? t = w.blockAim? t.caller.figure (.blocks (a :: rest) :: next)) :
    w.Sets t (w.begin t.caller (.blocks rest :: next) a).1 := by
  cases a with
  | command cmd => exact command_sets haim
  | playUntilDone sound => exact .nothing haim (w.playUntilDone_still _ _ sound)
  | wait seconds => exact .of_scene_eq haim (wait_scene _ _ _ _)
  | waitUntil p => exact .of_scene_eq haim (w.waitUntil_scene _ _ p)
  | glide seconds x y =>
    simp only [blockAim?] at haim
    simp only [begin, glide]
    split
    · rename_i hlength
      rw [if_pos hlength] at haim
      exact .heads haim rfl rfl
    · rename_i hlength
      rw [if_neg hlength] at haim
      exact .of_scene_eq haim rfl
  | branch opcode condition thenBody elseBody => exact .of_scene_eq haim rfl
  | repeatTimes times body => exact .of_scene_eq haim (logAll_scene _ _)
  | forever body => exact .of_scene_eq haim rfl
  | repeatUntil condition body => exact .of_scene_eq haim rfl

theorem step_sets (hpause : t.pause = .ready) : w.Sets t (w.step t.caller t.frames).1 := by
  cases hcancelled : w.isCancelled t.caller.script with
  | true =>
    refine .of_scene_eq (aim?_of_cancelled hcancelled) ?_
    unfold step
    split
    · rfl
    · rfl
    · rw [if_pos hcancelled]
    · exact w.checkLoop_scene _ _ _
    · rfl
  | false =>
    have haim := aim?_of_ready hpause hcancelled
    unfold step
    split
    · rename_i hframes
      rw [hframes] at haim
      exact .of_scene_eq haim rfl
    · rename_i hframes
      rw [hframes] at haim
      exact .of_scene_eq haim rfl
    · rename_i hframes
      rw [hframes] at haim
      rw [hcancelled]
      exact begin_sets haim
    · rename_i hframes
      rw [hframes] at haim
      exact .of_scene_eq haim (w.checkLoop_scene _ _ _)
    · rename_i hframes
      rw [hframes] at haim
      exact .of_scene_eq haim rfl

theorem continueGlide_eq (w : World) (c : Caller) (next : List Frame) (g : Glide) :
    (w.continueGlide c next g).1 = w.head c.figure (g.aim w.clock) := by
  unfold continueGlide Glide.aim
  by_cases hend : 1 ≤ g.progress w.clock
  · simp only [if_pos hend]
    rfl
  · simp only [if_neg hend]
    rfl

/-- A piece heads for one aim, adjusts one audio setting, clears the effects, or leaves poses and settings alone. -/
theorem piece_sets (w : World) (t : Thread) : w.Sets t (w.piece t).1 := by
  unfold piece
  split
  · rename_i hpause
    exact step_sets hpause
  · rename_i hready
    cases hpause : t.pause with
    | ready => exact absurd hpause hready
    | sleeping wakeAt => exact .of_scene_eq (aim?_of_pause hready (by simp [hpause])) rfl
    | stalled => exact .of_scene_eq (aim?_of_pause hready (by simp [hpause])) rfl
    | gliding g wakeAt =>
      unfold resume
      dsimp only
      split
      · rename_i hcancelled
        exact .of_scene_eq (aim?_of_cancelled hcancelled) rfl
      · rename_i hrun
        have haim : w.aim? t = some (w, g.aim w.clock) := by
          unfold aim?
          rw [if_neg hrun, hpause]
        rw [continueGlide_eq]
        exact .heads haim rfl rfl
    | watching p links =>
      refine .of_scene_eq (aim?_of_pause hready (by simp [hpause])) ?_
      unfold resume
      dsimp only
      split
      · rfl
      · exact retest_scene _ _ _ _ _ _

/-- Evaluating operands neither touches the scene nor tells anybody, and a finite aim is reached at once. -/
theorem piece_of_aim {u : World} {aim : Aim} (h : w.aim? t = some (u, aim)) :
    u.scene = w.scene ∧ u.signals = w.signals ∧
      (w.piece t).1 =
        if aim.isFinite then u.change (.pose t.caller.figure ((w.scene.poseOf t.caller.figure).reach aim)) else u := by
  have hsets := w.piece_sets t
  generalize (w.piece t).1 = w' at hsets ⊢
  cases hsets with
  | heads aims hscene hsignals =>
    rw [h] at aims
    cases aims
    exact ⟨hscene, hsignals, hscene ▸ head_eq u _ aim⟩
  | nothing still => rw [h] at still; cases still
  | adjusts still => rw [h] at still; cases still
  | clears still => rw [h] at still; cases still

/-- A piece that heads nowhere leaves all poses. -/
theorem poseOf_piece (h : w.aim? t = none) (n : Nat) : (w.piece t).1.scene.poseOf n = w.scene.poseOf n := by
  have hsets := w.piece_sets t
  generalize (w.piece t).1 = w' at hsets ⊢
  cases hsets with
  | nothing still same => exact (same n).1
  | heads aims => rw [h] at aims; cases aims
  | adjusts still hscene setting number relative =>
    rw [← hscene]
    exact Change.sameAt_of_ne (.audio _ _) _ (k := .moved n) nofun
  | clears still => exact Change.sameAt_of_ne (.audio _ _) _ (k := .moved n) nofun

end World
end BlockScript
