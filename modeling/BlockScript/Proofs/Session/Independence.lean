import BlockScript.Proofs.Session.Course
import BlockScript.Session.Run

/-!
Independent scripts. Scripts under the green flag that are on different figures, have no variable and no list in
common, and stop nobody but themselves, do not affect each other: what such a script leaves behind is the same
whether the others run beside it or not.
-/
namespace BlockScript

namespace FlagScript

/-- The channels of all data that statements of the script read or write, as references resolve in a scene. -/
def touched (s : FlagScript) (scene : Scene) : List Channel :=
  (Action.bodyStatements s.body).flatMap fun a => a.sources.filterMap (·.channel? ⟨scene, s.figure⟩)

/-- Every stop block of the script stops the script itself. -/
def StopsItself (s : FlagScript) : Prop :=
  ∀ option, .command (.stop option) ∈ Action.bodyStatements s.body → option = .thisScript

/-- Two scripts are on different figures and have no variable and no list in common. -/
structure Separate (scene : Scene) (a b : FlagScript) : Prop where
  figures : a.figure ≠ b.figure
  noVariable : ∀ x, .variable x ∈ a.touched scene → .variable x ∉ b.touched scene
  noList : ∀ x, .list x ∈ a.touched scene → .list x ∉ b.touched scene

/-- What a script touches in a scene of this shape, as a realm. -/
def realm (s : FlagScript) (scene : Scene) : Realm where
  scene
  figure := s.figure
  ownsVariable a := .variable a ∈ s.touched scene
  ownsList a := .list a ∈ s.touched scene

/-- The script under a number, with the realm it keeps to. -/
def guest (s : FlagScript) (scene : Scene) (script : Nat) : Guest := ⟨s.realm scene, script, s.body⟩

/-- The script at its start, with relays from a number on. -/
def thread (s : FlagScript) (script relay : Nat) : Thread :=
  ⟨⟨script, s.figure⟩, [.blocks (Action.installAll s.body relay).1], .ready, []⟩

variable {s a b : FlagScript} {scene : Scene}

theorem Separate.symm (h : Separate scene a b) : Separate scene b a :=
  ⟨h.figures.symm, fun x hb ha => h.noVariable x ha hb, fun x hb ha => h.noList x ha hb⟩

theorem Separate.owns (h : Separate scene a b) (k : Channel) (hb : (b.realm scene).Owns k) : ¬ (a.realm scene).Owns k := by
  intro ha
  cases k with
  | «variable» x => exact h.noVariable x ha hb
  | list x => exact h.noList x ha hb
  | moved n => exact h.figures (ha.symm.trans hb)
  | audio n => exact h.figures (ha.symm.trans hb)
  | pointer => exact ha
  | relay n => exact ha

theorem mem_touched {k : Channel} : k ∈ s.touched scene ↔
    ∃ a ∈ Action.bodyStatements s.body, ∃ source ∈ a.sources, source.channel? ⟨scene, s.figure⟩ = some k := by
  simp only [touched, List.mem_flatMap, List.mem_filterMap]

theorem sees_of_touched {k : Channel} (h : k ∈ s.touched scene) : (s.realm scene).Sees k := by
  obtain ⟨a, -, source, -, hc⟩ := mem_touched.mp h
  cases k with
  | «variable» x => exact Or.inl h
  | list x => exact Or.inl h
  | pointer => exact Or.inr rfl
  | relay n => exact absurd hc (source.channel?_ne_relay _ n)
  | moved n =>
    cases source with
    | pose c opcode => cases hc; exact Or.inl rfl
    | pointer c opcode => cases hp : scene.pointer <;> simp [Source.channel?, hp] at hc
    | _ => simp [Source.channel?] at hc
  | audio n =>
    cases source with
    | volume => cases hc; exact Or.inl rfl
    | pointer c opcode => cases hp : scene.pointer <;> simp [Source.channel?, hp] at hc
    | _ => simp [Source.channel?] at hc

theorem admitsAll (s : FlagScript) (scene : Scene) (stops : s.StopsItself) :
    (s.realm scene).AdmitsAll (Action.bodyStatements s.body) := by
  intro a ha
  refine ⟨fun source hsource k hc => sees_of_touched (mem_touched.mpr ⟨a, ha, source, hsource, hc⟩), fun option he => ?_⟩
  exact stops option (he ▸ ha)

end FlagScript

/-! ### The start -/

/-- What is numbered by its place is found under its number. -/
theorem find?_mapIdx {α β : Type} (key : β → Nat) {f : Nat → α → β} (h : ∀ n a, key (f n a) = n) {l : List α} {n : Nat}
    {a : α} (ha : l[n]? = some a) : (l.mapIdx f).find? (key · == n) = some (f n a) := by
  rw [List.find?_eq_some_iff_getElem]
  obtain ⟨hn, rfl⟩ := List.getElem?_eq_some_iff.mp ha
  refine ⟨by simp [h], n, by simpa using hn, by simp, fun j hj => ?_⟩
  simp [h, Nat.ne_of_lt hj]

namespace Session

/-- Each body is installed with relays from some number on. -/
theorem installAll_bodies (scripts : List FlagScript) (w : World) :
    ∃ relay : Nat → Nat, (installAll w scripts).2 =
      scripts.mapIdx fun n s => (s.figure, (Action.installAll s.body (relay n)).1) := by
  induction scripts generalizing w with
  | nil => exact ⟨id, rfl⟩
  | cons s scripts ih =>
    obtain ⟨others, hbodies⟩ := ih (w.install (Action.installAll s.body)).1
    refine ⟨fun n => n.casesOn w.nextRelay others, ?_⟩
    rw [List.mapIdx_cons, ← hbodies]
    rfl

end Session

namespace Project

/-- The scripts under the green flag, numbered in the order of starting. -/
def cast (p : Project) : List Guest := p.scripts.mapIdx fun n s => s.guest p.scene n

variable {p : Project}

theorem mem_cast {g : Guest} : g ∈ p.cast ↔ ∃ (n : Nat) (s : FlagScript), p.scripts[n]? = some s ∧ g = s.guest p.scene n := by
  unfold cast
  rw [List.mem_mapIdx]
  constructor
  · rintro ⟨n, hn, rfl⟩
    exact ⟨n, p.scripts[n], List.getElem?_eq_getElem hn, rfl⟩
  · rintro ⟨n, s, hs, rfl⟩
    obtain ⟨hn, rfl⟩ := List.getElem?_eq_some_iff.mp hs
    exact ⟨n, hn, rfl⟩

theorem cast_apart (separate : p.scripts.Pairwise (FlagScript.Separate p.scene)) :
    ∀ g ∈ p.cast, ∀ h ∈ p.cast, g = h ∨ g.Apart h := by
  intro g hg h hh
  obtain ⟨n, a, ha, rfl⟩ := mem_cast.mp hg
  obtain ⟨m, b, hb, rfl⟩ := mem_cast.mp hh
  obtain ⟨hn, rfl⟩ := List.getElem?_eq_some_iff.mp ha
  obtain ⟨hm, rfl⟩ := List.getElem?_eq_some_iff.mp hb
  rcases Nat.lt_trichotomy n m with hlt | rfl | hlt
  · have away := List.pairwise_iff_getElem.mp separate n m hn hm hlt
    exact Or.inr ⟨Nat.ne_of_lt hlt, away.owns⟩
  · exact Or.inl rfl
  · have away := List.pairwise_iff_getElem.mp separate m n hm hn hlt
    exact Or.inr ⟨Nat.ne_of_gt hlt, away.symm.owns⟩

end Project

namespace Session

/-- The session after the green flag was pressed and its scripts were waited for. -/
def played (s : Session) (fuel limit : Nat) : Session := s.greenFlag.onMachine (Machine.finish fuel · limit)

/-- A new entry is not cancelled. -/
theorem isCancelled_newcomers {w : World} (figures : List Nat) (h : w.roster = (World.ofScene w.scene).newcomers figures)
    (k : Nat) : w.isCancelled k = false := by
  unfold World.isCancelled
  rw [h]
  refine List.any_eq_false.mpr fun e he => ?_
  obtain ⟨n, hn, rfl⟩ := List.mem_mapIdx.mp he
  simp

theorem isListed_newcomers {w : World} (figures : List Nat) (h : w.roster = (World.ofScene w.scene).newcomers figures)
    {k : Nat} (hk : k < figures.length) : w.isListed k = true := by
  unfold World.isListed
  rw [h]
  refine List.any_eq_true.mpr ⟨_, List.mem_mapIdx.mpr ⟨k, hk, rfl⟩, ?_⟩
  simp [World.ofScene]

theorem greenFlag_world (p : Project) : ∃ hub nextRelay nextScript figures, figures.length = p.scripts.length ∧
    (ofProject p).greenFlag.machine.world = { (World.ofScene p.scene).withHub hub with
      nextRelay, nextScript, roster := (World.ofScene p.scene).newcomers figures } := by
  let first : Machine := ⟨(installAll (.ofScene p.scene) p.scripts).1, []⟩
  obtain ⟨hub, nextRelay, hfirst⟩ := installAll_world p.scripts (.ofScene p.scene)
  obtain ⟨relay, hbodies⟩ := installAll_bodies p.scripts (.ofScene p.scene)
  obtain ⟨roster, nextScript, hworld⟩ := Machine.startAll_world (installAll (.ofScene p.scene) p.scripts).2 first
  have hroster := Machine.startAll_roster (installAll (.ofScene p.scene) p.scripts).2 first
  have hfirst : first.world = { (World.ofScene p.scene).withHub hub with nextRelay } := hfirst
  rw [hworld, hfirst] at hroster
  rw [hfirst] at hworld
  refine ⟨hub, nextRelay, nextScript, (installAll (.ofScene p.scene) p.scripts).2.map (·.1), ?_, ?_⟩
  · rw [List.length_map, hbodies, List.length_mapIdx]
  · have hroster : roster = (World.ofScene p.scene).newcomers _ := hroster
    rw [← hroster]
    exact hworld

theorem greenFlag_threads (p : Project) : ∃ relay : Nat → Nat,
    (ofProject p).greenFlag.machine.threads = p.scripts.mapIdx fun n s => s.thread n (relay n) := by
  let first : Machine := ⟨(installAll (.ofScene p.scene) p.scripts).1, []⟩
  obtain ⟨hub, nextRelay, hfirst⟩ := installAll_world p.scripts (.ofScene p.scene)
  obtain ⟨relay, hbodies⟩ := installAll_bodies p.scripts (.ofScene p.scene)
  have hnext : first.world.nextScript = 0 := congrArg World.nextScript hfirst
  have hthreads := Machine.startAll_threads (installAll (.ofScene p.scene) p.scripts).2 first
  refine ⟨relay, hthreads.trans ?_⟩
  rw [hnext, hbodies, List.mapIdx_mapIdx]
  simp [first, FlagScript.thread, Function.comp_def]

/-- When the green flag was pressed every script is at the first stage of its course. -/
theorem greenFlag_plays (p : Project) (stops : ∀ s ∈ p.scripts, s.StopsItself) :
    (ofProject p).greenFlag.machine.Plays p.cast := by
  obtain ⟨hub, nextRelay, nextScript, figures, hlength, hworld⟩ := greenFlag_world p
  obtain ⟨relay, hthreads⟩ := greenFlag_threads p
  generalize (ofProject p).greenFlag.machine = m at hworld hthreads
  obtain ⟨world, threads⟩ := m
  obtain rfl : world = _ := hworld
  obtain rfl : threads = _ := hthreads
  have fits : ∀ s ∈ p.scripts, ∀ k, (s.realm p.scene).Fits [.blocks (Action.installAll s.body k).1] := fun s hs k =>
    Realm.fits_cons.mpr ⟨Realm.admitsAll_installAll (s.admitsAll p.scene (stops s hs)) k, Realm.fits_nil⟩
  refine ⟨fun g hg => ?_, fun t ht => ?_, fun _ g hg => ?_, fun _ => rfl⟩
  · obtain ⟨n, s, -, rfl⟩ := Project.mem_cast.mp hg
    exact .refl p.scene
  · obtain ⟨n, hn, rfl⟩ := List.mem_mapIdx.mp ht
    exact ⟨_, Project.mem_cast.mpr ⟨n, _, List.getElem?_eq_getElem hn, rfl⟩, rfl, fits _ (List.getElem_mem hn) _, nofun⟩
  · obtain ⟨n, s, hs, rfl⟩ := Project.mem_cast.mp hg
    have hn : n < p.scripts.length := (List.getElem?_eq_some_iff.mp hs).1
    refine ⟨0, ⟨s.thread n (relay n), ?_, rfl, ⟨.refl (.refl p.scene), rfl, rfl, ?_, ?_⟩, fun _ => rfl, ?_⟩, fun j hj => ?_⟩
    · exact find?_mapIdx (fun t : Thread => t.caller.script) (fun _ _ => rfl) hs
    · exact (isCancelled_newcomers figures rfl n).symm
    · exact (isListed_newcomers figures rfl (hlength ▸ hn)).symm
    · refine ⟨?_, .same rfl, fits s (List.mem_of_getElem? hs) (relay n), nofun, .ready _ _ _⟩
      exact congrArg (fun body => [Frame.blocks body]) (Action.bareAll_install s.body (relay n)).symm
    · obtain rfl := Nat.le_zero.mp hj
      rfl

/-- Scripts that are separate from each other do not affect each other. Let the scripts of a project run until all
have ended, with no random choice made, and let one of them also run alone until it has ended. Then all data that
the script touches, and the pose and the audio settings of its figure, are the same after both runs. -/
theorem sameAt_played_alone (project : Project) (separate : project.scripts.Pairwise (FlagScript.Separate project.scene))
    (stops : ∀ s ∈ project.scripts, s.StopsItself) {fuel limit : Nat}
    (finished : ((ofProject project).played fuel limit).machine.isFinished = true)
    (drawless : ((ofProject project).played fuel limit).world.traces.random.taken = 0)
    {s : FlagScript} (hs : s ∈ project.scripts) {fuel' limit' : Nat}
    (finished' : ((ofProject { project with scripts := [s] }).played fuel' limit').machine.isFinished = true)
    (k : Channel) (hk : k ∈ s.touched project.scene ∨ k = .moved s.figure ∨ k = .audio s.figure) :
    ((ofProject project).played fuel limit).scene.SameAt
      ((ofProject { project with scripts := [s] }).played fuel' limit').scene k := by
  let alone : Project := { project with scripts := [s] }
  obtain ⟨n, hn⟩ := List.mem_iff_getElem?.mp hs
  have mine : s.guest project.scene n ∈ project.cast := Project.mem_cast.mpr ⟨n, s, hn, rfl⟩
  have mine' : s.guest project.scene 0 ∈ alone.cast := List.mem_singleton_self _
  have joint : ((ofProject project).played fuel limit).machine.Plays project.cast :=
    Machine.Plays.runTo (Project.cast_apart separate) _ _ _ (greenFlag_plays project stops)
  have solo : ((ofProject alone).played fuel' limit').machine.Plays alone.cast := by
    refine Machine.Plays.runTo (Project.cast_apart (List.pairwise_singleton _ s)) _ _ _ (greenFlag_plays alone fun x hx => ?_)
    obtain rfl := List.mem_singleton.mp hx
    exact stops x hs
  obtain ⟨m, w, hover, alike, steady⟩ := joint.ended finished drawless mine
  -- The course is the same in both runs, so the script draws nothing when it is alone either.
  have drawless' : ((ofProject alone).played fuel' limit').world.traces.random.taken = 0 :=
    solo.drawless fun g hg k => by
      obtain rfl := List.mem_singleton.mp hg
      exact steady k
  obtain ⟨m', w', hover', alike', -⟩ := solo.ended finished' drawless' mine'
  obtain rfl : w = w' := Realm.course_over_unique hover hover'
  have seen : (s.realm project.scene).Sees k := by
    rcases hk with touched | rfl | rfl
    · exact FlagScript.sees_of_touched touched
    · exact Or.inl rfl
    · exact Or.inl rfl
  exact (alike.same k seen).trans (alike'.same k seen).symm

/-- Counts in steps of a second, and stops itself at two. -/
def counting : FlagScript :=
  ⟨0, "hat", [.forever [
    .command (.setVariable true "data_changevariableby" ⟨"a", "a"⟩ (.constant (.number 1))),
    .wait (.constant (.number 1)),
    .branch "control_if" (.compare (.relation .equal "operator_equals") (.source (.variable ⟨"a", "a"⟩) ())
      (.constant (.number 2))) [.command (.stop .thisScript)] []]]⟩

/-- Fills a list, waits until it has an item, and glides to where the pointer is. -/
def gliding : FlagScript :=
  ⟨1, "hat", [
    .repeatTimes (.constant (.number 2)) [.command (.addToList ⟨"l", "l"⟩ (.constant (.number 7)))],
    .waitUntil (.listHas ⟨"l", "l"⟩ () (.constant (.number 7))),
    .glide (.constant (.number 1)) (.constant (.number 3)) (.source (.pointer .x "sensing_mousex") ())]⟩

/-- One script that counts and one that glides, on figures of their own. -/
def sideBySide : Project where
  scene :=
    { figures := [⟨"cat", false, [⟨"a", "a", .number 0⟩], [], [], ⟨0, 0, 90⟩, ⟨100, 0, 0⟩⟩,
        ⟨"dog", false, [], [⟨"l", "l", []⟩], [], ⟨0, 0, 90⟩, ⟨100, 0, 0⟩⟩],
      pointer := .tracked 4 0, config := { Config.default with frameRate := 2 } }
  graphs := []
  scripts := [counting, gliding]

theorem sideBySide_alone :
    ((ofProject sideBySide).played 99 5000).machine.isFinished = true ∧
      ((ofProject sideBySide).played 99 5000).world.traces.random.taken = 0 ∧
      ((ofProject { sideBySide with scripts := [gliding] }).played 99 5000).machine.isFinished = true ∧
      .list ⟨1, "l"⟩ ∈ gliding.touched sideBySide.scene ∧
      ((ofProject { sideBySide with scripts := [gliding] }).played 99 5000).scene.itemsAt ⟨1, "l"⟩ =
        ((ofProject sideBySide).played 99 5000).scene.itemsAt ⟨1, "l"⟩ ∧
      ((ofProject { sideBySide with scripts := [gliding] }).played 99 5000).scene.poseOf 1 =
        ((ofProject sideBySide).played 99 5000).scene.poseOf 1 := by
  have separate : sideBySide.scripts.Pairwise (FlagScript.Separate sideBySide.scene) := by
    have counted : counting.touched sideBySide.scene = [.variable ⟨0, "a"⟩, .variable ⟨0, "a"⟩] := by decide +kernel
    have glided : gliding.touched sideBySide.scene = [.list ⟨1, "l"⟩, .list ⟨1, "l"⟩, .pointer] := by decide +kernel
    refine List.pairwise_pair.mpr ⟨by decide, fun x _ => ?_, fun x hx => ?_⟩
    · simp [glided]
    · simp [counted] at hx
  have stops : ∀ s ∈ sideBySide.scripts, s.StopsItself := by
    intro s hs option hstop
    rcases List.mem_pair.mp hs with rfl | rfl
    · simpa [counting, Action.bodyStatements, Action.statements] using hstop
    · simp [gliding, Action.bodyStatements, Action.statements] at hstop
  have finished : ((ofProject sideBySide).played 99 5000).machine.isFinished = true := by decide +kernel
  have drawless : ((ofProject sideBySide).played 99 5000).world.traces.random.taken = 0 := by decide +kernel
  have finished' : ((ofProject { sideBySide with scripts := [gliding] }).played 99 5000).machine.isFinished = true := by
    decide +kernel
  have touched : .list ⟨1, "l"⟩ ∈ gliding.touched sideBySide.scene := by decide +kernel
  have mine : gliding ∈ sideBySide.scripts := List.mem_cons_of_mem _ List.mem_cons_self
  have same := sameAt_played_alone sideBySide separate stops finished drawless mine finished'
  exact ⟨finished, drawless, finished', touched, same _ (Or.inl touched), same _ (Or.inr (Or.inl rfl))⟩

end Session

end BlockScript
