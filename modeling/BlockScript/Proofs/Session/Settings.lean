import BlockScript.Proofs.Project.Numbers
import BlockScript.Proofs.Script.Settings
import BlockScript.Proofs.Session.Roster

/-!
Poses and audio settings in sessions. In a project that was loaded from a text every figure keeps a finite pose,
whatever its scripts compute. Pitch and pan stay within their ranges, and so does a volume from the first block on
that sets it.
-/
namespace BlockScript

/-! ### Scenes -/

theorem Machine.leave_scene (m : Machine) (t : Thread) (x : World × Progress) :
    (m.leave t x).world.scene = x.1.scene := by
  obtain ⟨w, progress⟩ := x
  cases progress <;> rfl

namespace Session

/-- Only pieces of scripts and changes from outside touch the scene. -/
theorem scene_make (s : Session) (move : Move) :
    (s.make move).scene = s.scene ∨ (∃ c, move = .change c ∧ (s.make move).scene = c.apply s.scene) ∨
      ∃ t, (s.make move).scene = (s.world.piece t).1.scene := by
  cases move with
  | tick x =>
    cases x with
    | clock time => exact .inl rfl
    | piece script =>
      rcases s.machine.piece_cases script with ⟨hm, -⟩ | ⟨t, -, -, hm⟩
      · exact .inl (congrArg (·.world.scene) hm)
      · exact .inr (.inr ⟨t, (congrArg (·.world.scene) hm).trans (s.machine.leave_scene t _)⟩)
  | greenFlag =>
    obtain ⟨roster, nextScript, hworld⟩ := Machine.startAll_world s.bodies s.machine
    refine .inl ?_
    show (s.bodies.foldl (fun m b => m.start b.1 b.2 []) s.machine).world.scene = s.scene
    rw [hworld]
    rfl
  | start figure block => exact .inl (World.logAll_scene s.world _)
  | stopAll => exact .inl rfl
  | stop figure => exact .inl rfl
  | change c => exact .inr (.inl ⟨c, rfl, rfl⟩)
  | log records => exact .inl (World.logAll_scene s.world records)
  | hold name figure r =>
    refine .inl ?_
    simp only [make, holdReporter, dropReporter]
    split <;> rfl
  | drop name =>
    refine .inl ?_
    simp only [make, dropReporter]
    split <;> rfl
  | report name =>
    refine .inl ?_
    simp only [make]
    split <;> rfl
  | subscribe name label =>
    refine .inl ?_
    simp only [make]
    split <;> rfl
  | unsubscribe label => exact .inl rfl
  | clearReport => exact .inl rfl

/-- What holds of the scene at first, and is kept by pieces of scripts and by changes from outside, holds of it after
all moves. -/
theorem scene_induct {P : Scene → Prop} {s : Session} (first : P s.scene)
    (pieces : ∀ (w : World) (t : Thread), P w.scene → P (w.piece t).1.scene) {moves : List Move}
    (changes : ∀ c, .change c ∈ moves → ∀ scene, P scene → P (c.apply scene)) : P (s.after moves).scene := by
  induction moves generalizing s with
  | nil => exact first
  | cons move moves ih =>
    refine ih ?_ fun c hc => changes c (List.mem_cons_of_mem _ hc)
    rcases s.scene_make move with h | ⟨c, rfl, h⟩ | ⟨t, h⟩
    · rw [h]
      exact first
    · rw [h]
      exact changes c List.mem_cons_self _ first
    · rw [h]
      exact pieces s.world t first

theorem scene_ofProject (project : Project) : (ofProject project).scene = project.scene := by
  obtain ⟨hub, nextRelay, hworld⟩ := installAll_world project.scripts (.ofScene project.scene)
  exact congrArg World.scene hworld

end Session

/-! ### Poses -/

theorem Pose.isFinite_iff {p : Pose} :
    p.isFinite = true ↔ p.x.isFinite = true ∧ p.y.isFinite = true ∧ p.direction.isFinite = true := by
  simp only [Pose.isFinite, Bool.and_eq_true, and_assoc]

/-- A finite pose and a finite aim give a finite pose. -/
theorem Pose.isFinite_reach {p : Pose} {aim : Aim} (hp : p.isFinite = true) (haim : aim.isFinite = true) :
    (p.reach aim).isFinite = true := by
  obtain ⟨hx, hy, hdirection⟩ := Pose.isFinite_iff.mp hp
  cases aim with
  | place x y =>
    obtain ⟨hx, hy⟩ := Bool.and_eq_true_iff.mp haim
    exact Pose.isFinite_iff.mpr ⟨hx, hy, hdirection⟩
  | direction d => exact Pose.isFinite_iff.mpr ⟨hx, hy, Number.isFinite_wrapDirection haim⟩

theorem Scene.poseOf_setPose (s : Scene) (figure n : Nat) (p : Pose) :
    (s.setPose figure p).poseOf n = s.poseOf n ∨ (s.setPose figure p).poseOf n = p := by
  unfold poseOf setPose
  rw [figure?_modifyFigure]
  split
  · cases s.figure? n with
    | none => exact .inl rfl
    | some f => exact .inr rfl
  · exact .inl rfl

/-- All poses are finite. -/
def Scene.HasFinitePoses (s : Scene) : Prop := ∀ n, (s.poseOf n).isFinite = true

namespace Scene.HasFinitePoses

variable {s t : Scene}

theorem figure (h : s.HasFinitePoses) {f : Figure} (hf : f ∈ s.figures) : f.pose.isFinite = true := by
  obtain ⟨n, hn⟩ := List.getElem?_of_mem hf
  have hpose := h n
  rwa [poseOf, figure?, hn] at hpose

theorem of_sameAt (h : s.HasFinitePoses) (same : ∀ n, s.SameAt t (.moved n)) : t.HasFinitePoses := by
  intro n
  have hsame : t.poseOf n = s.poseOf n := same n
  rw [hsame]
  exact h n

theorem setPose (h : s.HasFinitePoses) {p : Pose} (hp : p.isFinite = true) (figure : Nat) :
    (s.setPose figure p).HasFinitePoses := by
  intro n
  rcases s.poseOf_setPose figure n p with hn | hn
  · rw [hn]
    exact h n
  · rw [hn]
    exact hp

theorem setAudio (h : s.HasFinitePoses) (figure : Nat) (a : AudioSettings) : (s.setAudio figure a).HasFinitePoses :=
  h.of_sameAt fun _ => Change.sameAt_of_ne (.audio figure a) s nofun

theorem apply (h : s.HasFinitePoses) {c : Change} (hc : ∀ n p, c = .pose n p → p.isFinite = true) :
    (c.apply s).HasFinitePoses := by
  cases c with
  | pose figure p => exact h.setPose (hc figure p rfl) figure
  | _ => exact h.of_sameAt fun n => Change.sameAt_of_ne _ s nofun

theorem piece {w : World} (h : w.scene.HasFinitePoses) (t : Thread) : (w.piece t).1.scene.HasFinitePoses := by
  have hsets := w.piece_sets t
  generalize (w.piece t).1 = w' at hsets ⊢
  cases hsets with
  | nothing still same => exact h.of_sameAt fun n => (same n).1
  | heads aims hscene hsignals =>
    rw [← hscene] at h
    rw [World.head_eq]
    split
    · rename_i haim
      exact h.setPose (Pose.isFinite_reach (h _) haim) _
    · exact h
  | adjusts still hscene setting number relative =>
    rw [← hscene] at h
    exact h.setAudio _ _
  | clears still => exact h.setAudio _ _

end Scene.HasFinitePoses

namespace Session

theorem hasFinitePoses_ofText {config : Config} {pointer : Pointer} {text : String} {project : Project}
    {logs : List LogRecord} (loaded : Project.ofText config pointer text = (.ok project, logs)) :
    project.scene.HasFinitePoses := by
  intro n
  unfold Scene.poseOf
  cases hf : project.scene.figure? n with
  | none => decide +kernel
  | some f => exact (Project.finite_ofText loaded hf).1

/-- In a project loaded from a text every figure has a finite pose at every moment, provided that poses set from outside
are finite. The next piece of a script, wherever it heads, has first evaluated its operands; a finite aim gives the
figure its new pose, and one that is not finite changes nothing and tells nobody. Pieces without an aim, those of a
cancelled glide among them, leave all poses. -/
theorem poses_stay_finite {config : Config} {pointer : Pointer} {text : String} {project : Project}
    {logs : List LogRecord} (loaded : Project.ofText config pointer text = (.ok project, logs)) (moves : List Move)
    (outside : ∀ n p, .change (.pose n p) ∈ moves → p.isFinite = true) :
    let w := ((ofProject project).after moves).world
    (∀ f ∈ w.scene.figures, f.pose.isFinite = true) ∧
      (∀ t u aim, w.aim? t = some (u, aim) → u.scene = w.scene ∧ u.signals = w.signals ∧
        (w.piece t).1 =
          if aim.isFinite then u.change (.pose t.caller.figure ((w.scene.poseOf t.caller.figure).reach aim)) else u) ∧
      ∀ t, w.aim? t = none → ∀ n, (w.piece t).1.scene.poseOf n = w.scene.poseOf n := by
  have first : (ofProject project).scene.HasFinitePoses := by
    rw [scene_ofProject]
    exact hasFinitePoses_ofText loaded
  have finite : ((ofProject project).after moves).scene.HasFinitePoses := by
    refine scene_induct first (fun w t h => h.piece t) fun c hc scene h => h.apply ?_
    rintro n p rfl
    exact outside n p hc
  exact ⟨fun f => finite.figure, fun t u aim => World.piece_of_aim, fun t => World.poseOf_piece⟩

theorem exists_loaded {config : Config} {pointer : Pointer} {text : String} {check : Project → Bool}
    (h : (Project.ofText config pointer text).1.toOption.any check = true) :
    ∃ project logs, Project.ofText config pointer text = (.ok project, logs) ∧ check project = true := by
  generalize Project.ofText config pointer text = r at h ⊢
  obtain ⟨_ | project, logs⟩ := r
  · cases h
  · exact ⟨project, logs, rfl, h⟩

/-- A stage that goes to an infinite height when the flag is pressed. -/
def soaring : String :=
  "\x7b\"targets\":[\x7b\"isStage\":true,\"name\":\"Stage\",\"blocks\":\x7b" ++
    "\"h\":\x7b\"opcode\":\"event_whenflagclicked\",\"topLevel\":true,\"next\":\"g\"\x7d," ++
    "\"g\":\x7b\"opcode\":\"motion_gotoxy\",\"inputs\":\x7b\"X\":[1,[4,\"5\"]],\"Y\":[1,[4,\"Infinity\"]]\x7d\x7d\x7d\x7d]\x7d"

/-- Some script under the green flag heads for an aim that is not finite. -/
def strays (project : Project) : Bool :=
  let s := (ofProject project).after [.greenFlag]
  s.machine.threads.any fun t => (s.world.aim? t).any fun x => !x.2.isFinite

set_option maxRecDepth 100000 in
theorem soaring_stays_put : ∃ project logs, Project.ofText .default (.fixed 0 0) soaring = (.ok project, logs) ∧
    let s := (ofProject project).after [.greenFlag]
    (∀ f ∈ s.scene.figures, f.pose.isFinite = true) ∧
      ∃ t ∈ s.machine.threads, ∃ u aim, s.world.aim? t = some (u, aim) ∧ aim.isFinite = false ∧
        (s.world.piece t).1 = u ∧ u.scene = s.scene ∧ u.signals = s.world.signals := by
  have hstrays : (Project.ofText .default (.fixed 0 0) soaring).1.toOption.any strays = true := by decide +kernel
  obtain ⟨project, logs, loaded, hstrays⟩ := exists_loaded hstrays
  unfold strays at hstrays
  obtain ⟨t, ht, haim⟩ := List.any_eq_true.mp hstrays
  obtain ⟨⟨u, aim⟩, haim, hinfinite⟩ := (Option.any_eq_true ..).mp haim
  have hinfinite : aim.isFinite = false := by simpa using hinfinite
  obtain ⟨finite, headed, -⟩ := poses_stay_finite loaded [.greenFlag] fun _ _ h => by cases List.mem_singleton.mp h
  obtain ⟨hscene, hsignals, hpiece⟩ := headed t u aim haim
  rw [hinfinite] at hpiece
  exact ⟨project, logs, loaded, finite, t, ht, u, aim, haim, hinfinite, hpiece, hscene, hsignals⟩

end Session

/-! ### Audio settings -/

namespace AudioSetting

theorem range_spec (setting : AudioSetting) :
    setting.range.1.isFinite = true ∧ setting.range.2.isFinite = true ∧ setting.range.1 ≤ setting.range.2 := by
  cases setting <;> decide +kernel

/-- A value is within the range of a setting. -/
def Allows (setting : AudioSetting) (x : Number) : Prop := setting.range.1 ≤ x ∧ x ≤ setting.range.2

instance (setting : AudioSetting) (x : Number) : Decidable (setting.Allows x) :=
  inferInstanceAs (Decidable (_ ∧ _))

variable {setting : AudioSetting} {x : Number}

theorem Allows.isFinite (h : setting.Allows x) : x.isFinite = true := by
  obtain ⟨hlow, hhigh, -⟩ := setting.range_spec
  exact Number.isFinite_of_le hlow hhigh h.1 h.2

theorem allows_clamp (hx : x ≠ .nan) : setting.Allows (x.clamp setting.range.1 setting.range.2) := by
  obtain ⟨hlow, hhigh, hle⟩ := setting.range_spec
  exact Number.clamp_mem hx (Number.ne_nan_of_isFinite hlow) (Number.ne_nan_of_isFinite hhigh) hle

theorem allows_zero (setting : AudioSetting) : setting.Allows 0 := by
  cases setting <;> decide +kernel

end AudioSetting

/-- Pitch and pan are within their ranges, and so is the volume if it is not still as loud as at first. -/
structure AudioSettings.Tuned (first : Number) (a : AudioSettings) : Prop where
  volume : AudioSetting.volume.Allows a.volume ∨ a.volume = first
  pitch : AudioSetting.pitch.Allows a.pitch
  pan : AudioSetting.pan.Allows a.pan

namespace AudioSettings.Tuned

variable {first : Number} {a : AudioSettings}

theorem isFinite_get (h : a.Tuned first) (hfirst : first.isFinite = true) (setting : AudioSetting) :
    (setting.get a).isFinite = true := by
  cases setting with
  | volume =>
    rcases h.volume with hv | hv
    · exact hv.isFinite
    · exact (congrArg Number.isFinite hv).trans hfirst
  | pitch => exact h.pitch.isFinite
  | pan => exact h.pan.isFinite

theorem set (h : a.Tuned first) {setting : AudioSetting} {x : Number} (hx : setting.Allows x) :
    (setting.set a x).Tuned first := by
  cases setting with
  | volume => exact ⟨.inl hx, h.pitch, h.pan⟩
  | pitch => exact ⟨h.volume, hx, h.pan⟩
  | pan => exact ⟨h.volume, h.pitch, hx⟩

/-- An infinite amount is stopped at an end of the range, and no finite setting plus any amount is `nan`. -/
theorem adjust (h : a.Tuned first) (hfirst : first.isFinite = true) (setting : AudioSetting) {amount : Number}
    (number : amount ≠ .nan) (relative : Bool) : (setting.adjust a amount relative).Tuned first := by
  refine h.set (AudioSetting.allows_clamp ?_)
  split
  · exact Number.add_ne_nan (h.isFinite_get hfirst setting) number
  · exact number

theorem clearEffects (h : a.Tuned first) : a.clearEffects.Tuned first := by
  unfold AudioSettings.clearEffects
  exact ⟨h.volume, AudioSetting.allows_zero .pitch, AudioSetting.allows_zero .pan⟩

theorem allows (h : a.Tuned first) (hfirst : AudioSetting.volume.Allows first) (setting : AudioSetting) :
    setting.Allows (setting.get a) := by
  cases setting with
  | volume =>
    rcases h.volume with hv | hv
    · exact hv
    · rw [← hv] at hfirst
      exact hfirst
  | pitch => exact h.pitch
  | pan => exact h.pan

end AudioSettings.Tuned

theorem Scene.audioOf_setAudio (s : Scene) (figure n : Nat) (a : AudioSettings) :
    (s.setAudio figure a).audioOf n = s.audioOf n ∨ n = figure ∧ (s.setAudio figure a).audioOf n = a := by
  unfold audioOf setAudio
  rw [figure?_modifyFigure]
  split
  · rename_i hn
    cases s.figure? n with
    | none => exact .inl rfl
    | some f => exact .inr ⟨hn.symm, rfl⟩
  · exact .inl rfl

/-- Every figure is tuned, given how loud each was at first. -/
def Scene.IsTuned (first : Nat → Number) (s : Scene) : Prop := ∀ n, (s.audioOf n).Tuned (first n)

namespace Scene.IsTuned

variable {first : Nat → Number} {s t : Scene}

theorem of_sameAt (h : s.IsTuned first) (same : ∀ n, s.SameAt t (.audio n)) : t.IsTuned first := by
  intro n
  have hsame : t.audioOf n = s.audioOf n := same n
  rw [hsame]
  exact h n

theorem setAudio (h : s.IsTuned first) {figure : Nat} {a : AudioSettings} (ha : a.Tuned (first figure)) :
    (s.setAudio figure a).IsTuned first := by
  intro n
  rcases s.audioOf_setAudio figure n a with hn | ⟨rfl, hn⟩
  · rw [hn]
    exact h n
  · rw [hn]
    exact ha

theorem apply (h : s.IsTuned first) {c : Change} (hc : ∀ n, c.channel ≠ .audio n) : (c.apply s).IsTuned first :=
  h.of_sameAt fun n => c.sameAt_of_ne s (hc n).symm

theorem piece {w : World} (h : w.scene.IsTuned first) (hfirst : ∀ n, (first n).isFinite = true) (t : Thread) :
    (w.piece t).1.scene.IsTuned first := by
  have hsets := w.piece_sets t
  generalize (w.piece t).1 = w' at hsets ⊢
  cases hsets with
  | nothing still same => exact h.of_sameAt fun n => (same n).2
  | heads aims hscene hsignals =>
    rw [← hscene] at h
    rw [World.head_eq]
    split
    · exact h.apply (c := .pose _ _) fun _ => nofun
    · exact h
  | adjusts still hscene setting number relative =>
    have tuned := (h t.caller.figure).adjust (hfirst _) setting number relative
    rw [← hscene] at h
    exact h.setAudio tuned
  | clears still => exact h.setAudio (h t.caller.figure).clearEffects

end Scene.IsTuned

namespace Session

/-- Nobody sets the audio settings of a figure but its scripts. -/
def LeavesAudio (moves : List Move) : Prop := ∀ n a, .change (.audio n a) ∉ moves

theorem loaded_audio {config : Config} {pointer : Pointer} {text : String} {project : Project} {logs : List LogRecord}
    (loaded : Project.ofText config pointer text = (.ok project, logs)) (n : Nat) :
    ∃ volume, volume.isFinite = true ∧ project.scene.audioOf n = ⟨volume, 0, 0⟩ := by
  unfold Scene.audioOf
  cases hf : project.scene.figure? n with
  | none => exact ⟨100, by decide +kernel, rfl⟩
  | some f => exact (Project.finite_ofText loaded hf).2

theorem isTuned_after {config : Config} {pointer : Pointer} {text : String} {project : Project} {logs : List LogRecord}
    (loaded : Project.ofText config pointer text = (.ok project, logs)) {moves : List Move} (quiet : LeavesAudio moves) :
    ((ofProject project).after moves).scene.IsTuned fun n => (project.scene.audioOf n).volume := by
  have hfirst : ∀ n, (project.scene.audioOf n).volume.isFinite = true := by
    intro n
    obtain ⟨volume, hvolume, hn⟩ := loaded_audio loaded n
    rw [hn]
    exact hvolume
  have first : (ofProject project).scene.IsTuned fun n => (project.scene.audioOf n).volume := by
    rw [scene_ofProject]
    intro n
    obtain ⟨volume, -, hn⟩ := loaded_audio loaded n
    dsimp only
    rw [hn]
    exact ⟨.inr rfl, AudioSetting.allows_zero .pitch, AudioSetting.allows_zero .pan⟩
  refine scene_induct first (fun w t h => h.piece hfirst t) fun c hc scene h => ?_
  cases c with
  | audio n a => exact absurd hc (quiet n a)
  | _ => exact h.apply fun _ => nofun

/-- Pitch and pan stay within their ranges, and a volume is within its range or the one that was loaded. So all settings
of all figures are always within their ranges exactly when the loaded volumes are, since loading takes them as they
are. -/
theorem audio_in_range_iff {config : Config} {pointer : Pointer} {text : String} {project : Project}
    {logs : List LogRecord} (loaded : Project.ofText config pointer text = (.ok project, logs)) :
    (∀ moves, LeavesAudio moves → ∀ n,
      (((ofProject project).after moves).scene.audioOf n).Tuned (project.scene.audioOf n).volume) ∧
    ((∀ moves, LeavesAudio moves → ∀ f ∈ ((ofProject project).after moves).scene.figures, ∀ setting : AudioSetting,
      setting.Allows (setting.get f.audio)) ↔
        ∀ f ∈ project.scene.figures, AudioSetting.volume.Allows f.audio.volume) := by
  refine ⟨fun moves => isTuned_after loaded, fun all f hf => ?_, fun allowed moves quiet f hf setting => ?_⟩
  · rw [← scene_ofProject project] at hf
    exact all [] (fun _ _ => List.not_mem_nil) f hf .volume
  · obtain ⟨n, hn⟩ := List.getElem?_of_mem hf
    have tuned := isTuned_after loaded quiet n
    have hvolume : AudioSetting.volume.Allows (project.scene.audioOf n).volume := by
      unfold Scene.audioOf
      cases hloaded : project.scene.figure? n with
      | none => decide +kernel
      | some g => exact allowed g (List.mem_of_getElem? hloaded)
    rw [Scene.audioOf, Scene.figure?, hn] at tuned
    exact tuned.allows hvolume setting

/-- A stage that is stored with one and a half times the full volume. -/
def blaring : String := "\x7b\"targets\":[\x7b\"isStage\":true,\"name\":\"Stage\",\"volume\":150\x7d]\x7d"

set_option maxRecDepth 100000 in
theorem exists_loud_figure : ∃ project logs, Project.ofText .default (.fixed 0 0) blaring = (.ok project, logs) ∧
    ∃ f ∈ project.scene.figures, ¬ AudioSetting.volume.Allows f.audio.volume := by
  have hloud : (Project.ofText .default (.fixed 0 0) blaring).1.toOption.any (fun project =>
      project.scene.figures.any fun f => ¬ AudioSetting.volume.Allows f.audio.volume) = true := by decide +kernel
  obtain ⟨project, logs, loaded, hloud⟩ := exists_loaded hloud
  obtain ⟨f, hf, hloud⟩ := List.any_eq_true.mp hloud
  exact ⟨project, logs, loaded, f, hf, of_decide_eq_true hloud⟩

/-- A volume beyond the range is kept from loading to the first moment. -/
theorem blaring_out_of_range : ∃ project logs, Project.ofText .default (.fixed 0 0) blaring = (.ok project, logs) ∧
    ∃ f ∈ ((ofProject project).after []).scene.figures, ¬ AudioSetting.volume.Allows f.audio.volume := by
  obtain ⟨project, logs, loaded, f, hf, hloud⟩ := exists_loud_figure
  rw [← scene_ofProject project] at hf
  exact ⟨project, logs, loaded, f, hf, hloud⟩

theorem blaring_tuned : ∃ project logs, Project.ofText .default (.fixed 0 0) blaring = (.ok project, logs) ∧
    (∀ moves, LeavesAudio moves → ∀ n,
      (((ofProject project).after moves).scene.audioOf n).Tuned (project.scene.audioOf n).volume) ∧
    ¬ ∀ moves, LeavesAudio moves → ∀ f ∈ ((ofProject project).after moves).scene.figures, ∀ setting : AudioSetting,
      setting.Allows (setting.get f.audio) := by
  obtain ⟨project, logs, loaded, f, hf, hloud⟩ := exists_loud_figure
  obtain ⟨tuned, iff⟩ := audio_in_range_iff loaded
  exact ⟨project, logs, loaded, tuned, fun all => hloud (iff.mp all f hf)⟩

end Session

end BlockScript
