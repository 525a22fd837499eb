import BlockScript.Proofs.Script.Acting
import BlockScript.Script.Machine

/-!
Turns in pieces. A piece begins one block, decides on one round of a loop, or goes on after a pause;
between two pieces of a script anything may happen. A turn is a number of pieces of one script, and
what one piece can do is said once, by `World.Piece`.
-/
namespace BlockScript

namespace Progress

/-- What is left to do. -/
def frames : Progress → List Frame
  | .go frames => frames
  | .rest frames _ => frames
  | .done => []

/-- What is waited for before the next piece. -/
def pause : Progress → Pause
  | .go _ => .ready
  | .rest _ pause => pause
  | .done => .ready

end Progress

namespace World

/-- The next piece of a script. -/
def piece (w : World) (t : Thread) : World × Progress :=
  match t.pause with
  | .ready => w.step t.caller t.frames
  | pause => w.resume t.caller t.frames pause

/-- A stack that is not at its end and does not begin a stop block. -/
def IsPlain (w : World) (c : Caller) (frames : List Frame) : Prop :=
  frames ≠ [] ∧ ∀ option rest next, frames = .blocks (.command (.stop option) :: rest) :: next →
    w.isCancelled c.script = true

/-- What a piece can do. -/
inductive Piece (w : World) (c : Caller) : List Frame → Pause → World → Progress → Prop
  | ends : Piece w c [] .ready w .done
  | stops (option : StopOption) (rest : List (Action Nat)) (next : List Frame) (running : w.isCancelled c.script = false) :
      Piece w c (.blocks (.command (.stop option) :: rest) :: next) .ready (w.cancelWhere (option.reaches c))
        (.go (.blocks rest :: next))
  | waits (p : Predicate Nat) (rest : List (Action Nat)) (next : List Frame) (running : w.isCancelled c.script = false) :
      Piece w c (.blocks (.waitUntil p :: rest) :: next) .ready (w.waitUntil c (.blocks rest :: next) p).1
        (w.waitUntil c (.blocks rest :: next) p).2
  | wakes (p : Predicate Nat) (links : Subscription Channel) (frames : List Frame) :
      Piece w c frames (.watching p links) (w.resume c frames (.watching p links)).1
        (w.resume c frames (.watching p links)).2
  | acts {frames : List Frame} {pause : Pause} {w' : World} {progress : Progress} (unwatched : pause.watched? = none)
      (plain : pause = .ready → w.IsPlain c frames) (acts : Acts c.figure (Frame.stackTaps frames) w w')
      (goes : progress ≠ .done)
      (quiet : progress.pause.watched? = none)
      (within : Frame.stackTaps progress.frames ⊆ Frame.stackTaps frames) :
      Piece w c frames pause w' progress

/-! ### Blocks -/

section
variable {w : World} {c : Caller} {next : List Frame}

/-- A block acts within its taps and leaves what follows it, perhaps with a body or a loop before. -/
structure Goes (c : Caller) (taps : List (Nat × Source)) (next : List Frame) (w : World)
    (r : World × Progress) : Prop where
  acts : Acts c.figure taps w r.1
  goes : r.2 ≠ .done
  quiet : r.2.pause.watched? = none
  within : Frame.stackTaps r.2.frames ⊆ taps ++ Frame.stackTaps next
  suffix : next <:+ r.2.frames

theorem Goes.on {taps : List (Nat × Source)} {w' : World} (acts : Acts c.figure taps w w') :
    Goes c taps next w (w', .go next) :=
  ⟨acts, nofun, rfl, List.subset_append_right _ _, List.suffix_rfl⟩

theorem Goes.rest {taps : List (Nat × Source)} {w' : World} {pause : Pause} (acts : Acts c.figure taps w w')
    (quiet : pause.watched? = none) : Goes c taps next w (w', .rest next pause) :=
  ⟨acts, nofun, quiet, List.subset_append_right _ _, List.suffix_rfl⟩

theorem Goes.sleep {taps : List (Nat × Source)} {w' : World} (acts : Acts c.figure taps w w') (v : World) (span : Nat) :
    Goes c taps next w (w', v.sleep next span) := by
  unfold World.sleep
  split
  · exact .on acts
  · exact .rest acts rfl

theorem Goes.after {taps : List (Nat × Source)} {w' : World} {r : World × Progress} (acts : Acts c.figure taps w w')
    (h : Goes c taps next w' r) : Goes c taps next w r :=
  ⟨acts.trans h.acts, h.goes, h.quiet, h.within, h.suffix⟩

theorem goes_wait {taps : List (Nat × Source)} (w : World) (seconds : Number) :
    Goes c taps next w (w.wait c next seconds) := by
  unfold wait
  split
  · exact .on (.log _ _)
  · split
    · exact .sleep .refl _ _
    · exact .rest .refl rfl

theorem goes_glide {taps : List (Nat × Source)} (w : World) (seconds x y : Number) :
    Goes c taps next w (w.glide c next seconds x y) := by
  unfold glide
  dsimp only
  split
  · exact .on (World.changes_moveTo _ _ _).acts
  · exact .rest .refl rfl

theorem goes_continueGlide {taps : List (Nat × Source)} (w : World) (g : Glide) :
    Goes c taps next w (w.continueGlide c next g) := by
  unfold continueGlide
  dsimp only
  split
  · exact .on (World.changes_moveTo _ _ _).acts
  · exact .rest (World.changes_moveTo _ _ _).acts rfl

theorem goes_playUntilDone (w : World) (sound : Operand Nat) :
    Goes c sound.taps next w (w.playUntilDone c next sound) := by
  have acts := World.playSound_acts c sound w
  unfold playUntilDone
  split
  · rename_i w' hw
    rw [hw] at acts
    exact .sleep acts _ _
  · rename_i outcome w' _ hw
    rw [hw] at acts
    exact .on acts

/-- A block that puts a frame before what follows it. -/
theorem Goes.push {taps : List (Nat × Source)} {w' : World} {frame : Frame} (acts : Acts c.figure taps w w')
    (within : frame.taps ⊆ taps) : Goes c taps next w (w', .go (frame :: next)) := by
  refine ⟨acts, nofun, rfl, ?_, List.suffix_cons _ _⟩
  intro x hx
  rcases List.mem_append.mp hx with hx | hx
  · exact List.mem_append_left _ (within hx)
  · exact List.mem_append_right _ hx

theorem goes_begin (w : World) {a : Action Nat} (hstop : ∀ option, a ≠ .command (.stop option))
    (hwait : ∀ p, a ≠ .waitUntil p) : Goes c a.taps next w (w.begin c next a) := by
  cases a with
  | command cmd => exact .on (w.command_acts c fun option h => hstop option (h ▸ rfl))
  | playUntilDone sound => exact goes_playUntilDone w sound
  | wait seconds => exact .after (.evaluate w seconds.isConnecting_number) (goes_wait _ _)
  | waitUntil p => exact absurd rfl (hwait p)
  | glide seconds x y =>
    have hseconds := seconds.isConnecting_number.mono (List.subset_append_left seconds.taps (x.taps ++ y.taps))
    have hx := x.isConnecting_number.mono (List.Subset.trans (List.subset_append_left x.taps y.taps)
      (List.subset_append_right seconds.taps _))
    have hy := y.isConnecting_number.mono (List.Subset.trans (List.subset_append_right x.taps y.taps)
      (List.subset_append_right seconds.taps _))
    exact .after (.evaluate w hseconds) (.after (.evaluate _ hx) (.after (.evaluate _ hy) (goes_glide _ _ _ _)))
  | branch opcode condition thenBody elseBody =>
    refine .push (.evaluate w (condition.isConnecting_test.mono (List.subset_append_left _ _))) ?_
    show Action.bodyTaps _ ⊆ condition.taps ++ (Action.bodyTaps thenBody ++ Action.bodyTaps elseBody)
    split
    · exact List.Subset.trans (List.subset_append_left _ _) (List.subset_append_right _ _)
    · exact List.Subset.trans (List.subset_append_right _ _) (List.subset_append_right _ _)
  | repeatTimes times body =>
    refine .push ?_ (List.subset_append_right _ _)
    exact (Acts.evaluate w (times.isConnecting_number.mono (List.subset_append_left _ _))).trans (Acts.logAll _ _)
  | forever body => exact .push .refl (List.Subset.refl _)
  | repeatUntil condition body => exact .push .refl (List.Subset.refl _)

/-- A loop acts within its taps, and leaves itself with its body, or what follows it. -/
theorem checkLoop_goes (w : World) (c : Caller) (next : List Frame) (loop : Loop) :
    Acts c.figure loop.taps w (w.checkLoop c next loop).1 ∧ ((w.checkLoop c next loop).2 = .go next ∨
      ∃ again : Loop, again.taps = loop.taps ∧
        (w.checkLoop c next loop).2 = .go (.blocks again.body :: .rounded again :: next)) := by
  unfold checkLoop
  split
  · exact ⟨.refl, Or.inl rfl⟩
  · rename_i left body
    refine ⟨.refl, ?_⟩
    split
    · exact Or.inl rfl
    · exact Or.inr ⟨.times left body, rfl, rfl⟩
  · rename_i body
    refine ⟨.refl, ?_⟩
    split
    · exact Or.inl rfl
    · exact Or.inr ⟨.forever body, rfl, rfl⟩
  · rename_i condition body
    split
    · exact ⟨.refl, Or.inl rfl⟩
    · refine ⟨.evaluate w (condition.isConnecting_test.mono (List.subset_append_left _ _)), ?_⟩
      dsimp only
      split
      · exact Or.inl rfl
      · exact Or.inr ⟨.repeatUntil condition body, rfl, rfl⟩

end

/-! ### Pieces -/

theorem Piece.of_goes {w : World} {c : Caller} {taps : List (Nat × Source)} {next frames : List Frame} {pause : Pause}
    {r : World × Progress} (h : Goes c taps next w r) (unwatched : pause.watched? = none)
    (plain : pause = .ready → w.IsPlain c frames)
    (within : taps ++ Frame.stackTaps next ⊆ Frame.stackTaps frames) : Piece w c frames pause r.1 r.2 :=
  .acts unwatched plain (h.acts.mono (List.Subset.trans (List.subset_append_left _ _) within)) h.goes h.quiet
    (List.Subset.trans h.within within)

theorem stackTaps_cons (frame : Frame) (next : List Frame) :
    Frame.stackTaps (frame :: next) = frame.taps ++ Frame.stackTaps next := List.flatMap_cons

theorem step_piece (w : World) (c : Caller) (frames : List Frame) :
    Piece w c frames .ready (w.step c frames).1 (w.step c frames).2 := by
  unfold step
  split
  · exact .ends
  · exact .acts rfl (fun _ => ⟨nofun, nofun⟩) .refl nofun rfl (List.subset_append_right _ _)
  · rename_i a rest next
    split
    · rename_i cancelled
      exact .acts rfl (fun _ => ⟨nofun, fun _ _ _ _ => cancelled⟩) .refl nofun rfl (List.subset_append_right _ _)
    · rename_i running
      have running : w.isCancelled c.script = false := Bool.not_eq_true _ ▸ running
      by_cases hstop : ∃ option, a = .command (.stop option)
      · obtain ⟨option, rfl⟩ := hstop
        exact .stops option rest next running
      by_cases hwait : ∃ p, a = .waitUntil p
      · obtain ⟨p, rfl⟩ := hwait
        exact .waits p rest next running
      refine .of_goes (goes_begin w (not_exists.mp hstop) (not_exists.mp hwait)) rfl (fun _ => ⟨nofun, ?_⟩) ?_
      · rintro option _ _ ⟨⟩
        exact absurd ⟨option, rfl⟩ hstop
      · rw [stackTaps_cons, stackTaps_cons, ← List.append_assoc]
        exact List.Subset.refl _
  · rename_i loop next
    have plain : w.IsPlain c (.check loop :: next) := ⟨nofun, nofun⟩
    obtain ⟨acts, hgo | ⟨again, htaps, hgo⟩⟩ := w.checkLoop_goes c next loop
    · refine .acts rfl (fun _ => plain) (acts.mono (List.subset_append_left _ _)) ?_ ?_ ?_ <;> rw [hgo]
      · nofun
      · rfl
      · exact List.subset_append_right _ _
    · refine .acts rfl (fun _ => plain) (acts.mono (List.subset_append_left _ _)) ?_ ?_ ?_ <;> rw [hgo]
      · nofun
      · rfl
      · show Frame.stackTaps (.blocks again.body :: .rounded again :: next) ⊆ Frame.stackTaps (.check loop :: next)
        simp only [stackTaps_cons]
        refine List.append_subset.mpr ⟨?_, List.append_subset.mpr ⟨?_, List.subset_append_right _ _⟩⟩
        · exact List.Subset.trans again.bodyTaps_subset (htaps ▸ List.subset_append_left _ _)
        · show again.taps ⊆ loop.taps ++ Frame.stackTaps next
          exact htaps ▸ List.subset_append_left _ _
  · exact .acts rfl (fun _ => ⟨nofun, nofun⟩) .refl nofun rfl (List.Subset.refl _)

theorem resume_piece (w : World) (c : Caller) (frames : List Frame) {pause : Pause} (hp : pause ≠ .ready) :
    Piece w c frames pause (w.resume c frames pause).1 (w.resume c frames pause).2 := by
  cases pause with
  | ready => exact absurd rfl hp
  | sleeping wakeAt => exact .acts rfl nofun .refl nofun rfl (List.Subset.refl _)
  | stalled => exact .acts rfl nofun .refl nofun rfl (List.Subset.refl _)
  | gliding g wakeAt =>
    simp only [resume]
    split
    · exact .acts rfl nofun .refl nofun rfl (List.Subset.refl _)
    · have goes : Goes c [] frames w (w.continueGlide c frames g) := goes_continueGlide w g
      exact .of_goes goes rfl nofun (List.Subset.refl _)
  | watching p links => exact .wakes p links frames

/-- A wait tells, evaluates and links, and nothing else. -/
theorem waitUntil_kept {α : Type} {f : World → α} (hf : ∀ w scene traces signals, f { w with scene, traces, signals } = f w)
    (w : World) (c : Caller) (next : List Frame) (p : Predicate Nat) : f (w.waitUntil c next p).1 = f w := by
  unfold waitUntil
  dsimp only
  split
  · exact hf w _ _ _
  · split
    · exact hf w _ _ _
    · exact hf w _ _ _

theorem retest_kept {α : Type} {f : World → α} (hf : ∀ w scene traces signals, f { w with scene, traces, signals } = f w)
    (w : World) (c : Caller) (next : List Frame) (p : Predicate Nat) (links : Subscription Channel) (tries : Nat) :
    f (w.retest c next p links tries).1 = f w := by
  induction tries generalizing w with
  | zero => rfl
  | succ tries ih =>
    unfold retest
    dsimp only
    split
    · exact hf w _ _ _
    · exact (ih _).trans (hf w _ _ _)

theorem waitUntil_ne_done (w : World) (c : Caller) (next : List Frame) (p : Predicate Nat) :
    (w.waitUntil c next p).2 ≠ .done := by
  unfold waitUntil
  dsimp only
  split
  · nofun
  · split <;> nofun

theorem retest_ne_done (w : World) (c : Caller) (next : List Frame) (p : Predicate Nat) (links : Subscription Channel)
    (tries : Nat) : (w.retest c next p links tries).2 ≠ .done := by
  induction tries generalizing w with
  | zero => nofun
  | succ tries ih =>
    unfold retest
    dsimp only
    split
    · nofun
    · exact ih _

/-- A script ends when nothing is left to do. -/
theorem Piece.of_done {w w' : World} {c : Caller} {frames : List Frame} {pause : Pause} {progress : Progress}
    (h : Piece w c frames pause w' progress) (hdone : progress = .done) : frames = [] ∧ pause = .ready ∧ w' = w := by
  cases h with
  | ends => exact ⟨rfl, rfl, rfl⟩
  | stops option rest next running => cases hdone
  | waits p rest next running => exact absurd hdone (waitUntil_ne_done w c _ p)
  | wakes p links frames =>
    refine absurd hdone ?_
    simp only [resume]
    split
    · nofun
    · exact retest_ne_done _ _ _ _ _ _
  | acts unwatched plain acts goes quiet within => exact absurd hdone goes

theorem waitUntil_taps (w : World) (c : Caller) (next : List Frame) (p : Predicate Nat) :
    (w.waitUntil c next p).2.frames = next ∧ (w.waitUntil c next p).2.pause.taps ⊆ p.taps := by
  unfold waitUntil
  dsimp only
  split
  · exact ⟨rfl, List.nil_subset _⟩
  · split
    · exact ⟨rfl, List.nil_subset _⟩
    · exact ⟨rfl, List.Subset.refl _⟩

theorem retest_taps (w : World) (c : Caller) (next : List Frame) (p : Predicate Nat) (links : Subscription Channel)
    (tries : Nat) : (w.retest c next p links tries).2.frames = next ∧
      (w.retest c next p links tries).2.pause.taps ⊆ p.taps := by
  induction tries generalizing w with
  | zero => exact ⟨rfl, List.Subset.refl _⟩
  | succ tries ih =>
    unfold retest
    dsimp only
    split
    · exact ⟨rfl, List.nil_subset _⟩
    · exact ih _

/-- A piece brings no taps into a script. -/
theorem Piece.taps {w w' : World} {c : Caller} {frames : List Frame} {pause : Pause} {progress : Progress}
    (h : Piece w c frames pause w' progress) :
    Frame.stackTaps progress.frames ++ progress.pause.taps ⊆ Frame.stackTaps frames ++ pause.taps := by
  cases h with
  | ends => exact List.Subset.refl _
  | stops option rest next running => exact List.Subset.refl _
  | waits p rest next running =>
    obtain ⟨hframes, hpause⟩ := w.waitUntil_taps c (.blocks rest :: next) p
    rw [hframes]
    refine List.append_subset.mpr ⟨?_, List.Subset.trans hpause ?_⟩
    · show Action.bodyTaps rest ++ Frame.stackTaps next ⊆ ((p.taps ++ Action.bodyTaps rest) ++ Frame.stackTaps next) ++ []
      rw [List.append_nil, List.append_assoc]
      exact List.subset_append_right _ _
    · exact List.Subset.trans (List.subset_append_left _ _)
        (List.Subset.trans (List.subset_append_left _ _) (List.subset_append_left _ _))
  | wakes p links frames =>
    simp only [resume]
    split
    · exact List.append_subset.mpr ⟨List.subset_append_left _ _, List.nil_subset _⟩
    · obtain ⟨hframes, hpause⟩ := (w.clearWakes c.script).retest_taps c frames p links (min (w.wakesOf c.script) 2)
      rw [hframes]
      exact List.append_subset.mpr
        ⟨List.subset_append_left _ _, List.Subset.trans hpause (List.subset_append_right _ _)⟩
  | acts unwatched plain acts goes quiet within =>
    rw [Pause.taps_eq_nil quiet, List.append_nil]
    exact List.Subset.trans within (List.subset_append_left _ _)

/-- Only a stop block changes more than the scene, the traces and the signals. -/
theorem Piece.kept {α : Type} {f : World → α} (hf : ∀ w scene traces signals, f { w with scene, traces, signals } = f w)
    {w w' : World} {c : Caller} {frames : List Frame} {pause : Pause} {progress : Progress}
    (h : Piece w c frames pause w' progress) :
    f w' = f w ∨ ∃ option rest next, frames = .blocks (.command (.stop option) :: rest) :: next ∧ pause = .ready ∧
      w.isCancelled c.script = false ∧ w' = w.cancelWhere (option.reaches c) := by
  cases h with
  | ends => exact Or.inl rfl
  | stops option rest next running => exact Or.inr ⟨option, rest, next, rfl, rfl, running, rfl⟩
  | waits p rest next running => exact Or.inl (waitUntil_kept hf w c _ p)
  | wakes p links frames =>
    left
    simp only [resume]
    split
    · exact hf w _ _ _
    · exact (retest_kept hf _ _ _ _ _ _).trans (hf w _ _ _)
  | acts unwatched plain acts goes quiet within => exact Or.inl (acts.kept hf)

theorem piece_spec (w : World) (t : Thread) : Piece w t.caller t.frames t.pause (w.piece t).1 (w.piece t).2 := by
  unfold piece
  split
  · rename_i hp
    rw [hp]
    exact w.step_piece _ _
  · rename_i hp
    exact w.resume_piece _ _ hp

theorem piece_nextScript (w : World) (t : Thread) : (w.piece t).1.nextScript = w.nextScript := by
  rcases (w.piece_spec t).kept (f := World.nextScript) fun _ _ _ _ => rfl with hn | ⟨_, _, _, -, -, -, hw⟩
  · exact hn
  · rw [hw]
    rfl

theorem runFrames_eq (w : World) (c : Caller) (frames : List Frame) :
    w.runFrames c frames = match w.step c frames with
      | (w, .go after) => w.runFrames c after
      | (w, .rest after pause) => (w, some (after, pause))
      | (w, .done) => (w, none) := by
  rw [runFrames]
  cases w.step c frames with
  | mk w progress => cases progress <;> rfl

end World

/-! ### Turns -/

namespace Machine

/-- The machine after a piece that left its script this. -/
def leave (m : Machine) (t : Thread) : World × Progress → Machine
  | (world, .done) => { m with world }.finishThread t
  | (world, progress) => { m with world }.putThread t.caller.script progress.frames progress.pause

/-- Gives a script one piece of a turn, if it can go on. -/
def piece (m : Machine) (script : Nat) : Machine :=
  match m.thread? script with
  | none => m
  | some t => if m.canRun t then m.leave t (m.world.piece t) else m

variable {m : Machine} {script : Nat} {t : Thread}

theorem script_of_thread? (h : m.thread? script = some t) : t.caller.script = script := by
  simpa using List.find?_some h

theorem mem_of_thread? (h : m.thread? script = some t) : t ∈ m.threads := List.mem_of_find?_eq_some h

theorem thread?_putThread (h : m.thread? script = some t) (frames : List Frame) (pause : Pause) :
    (m.putThread script frames pause).thread? script = some { t with frames, pause } := by
  have hscript := script_of_thread? h
  have hsame : (fun u : Thread => u.caller.script == script) ∘
      (fun u : Thread => if u.caller.script = script then { u with frames, pause } else u) =
      fun u => u.caller.script == script := by
    funext u
    simp only [Function.comp_apply]
    split <;> rfl
  unfold thread? putThread at *
  rw [List.find?_map, hsame, h]
  simp [hscript]

theorem putThread_putThread (world : World) (frames frames' : List Frame) (pause pause' : Pause) :
    { m.putThread script frames pause with world }.putThread script frames' pause' =
      { m with world }.putThread script frames' pause' := by
  unfold putThread
  simp only [List.map_map, Machine.mk.injEq, true_and]
  refine List.map_congr_left fun u _ => ?_
  by_cases hu : u.caller.script = script <;> simp [hu]

theorem putThread_finishThread (world : World) (frames : List Frame) (pause : Pause) (h : t.caller.script = script) :
    { m.putThread script frames pause with world }.finishThread { t with frames, pause } =
      { m with world }.finishThread t := by
  unfold putThread finishThread
  simp only [Machine.mk.injEq, true_and, List.filter_map, h]
  have hsame : (fun u : Thread => u.caller.script != script) ∘
      (fun u : Thread => if u.caller.script = script then { u with frames, pause } else u) =
      fun u => u.caller.script != script := by
    funext u
    simp only [Function.comp_apply]
    split <;> rfl
  rw [hsame]
  refine (List.map_congr_left fun u hu => ?_).trans (List.map_id _)
  have hne : u.caller.script ≠ script := by simpa using (List.mem_filter.mp hu).2
  simp [hne]

/-- The machine after a turn that left its script this. -/
def settle (m : Machine) (t : Thread) : World × Option (List Frame × Pause) → Machine
  | (world, some (frames, pause)) => { m with world }.putThread t.caller.script frames pause
  | (world, none) => { m with world }.finishThread t

theorem settle_putThread (frames : List Frame) (pause : Pause) (r : World × Option (List Frame × Pause)) (world : World) :
    { m.putThread t.caller.script frames pause with world }.settle { t with frames, pause } r = m.settle t r := by
  obtain ⟨w, left | ⟨frames', pause'⟩⟩ := r
  · exact putThread_finishThread w frames pause rfl
  · exact putThread_putThread w frames frames' pause pause'

theorem piece_of_canRun (h : m.thread? script = some t) (hrun : m.canRun t = true) :
    m.piece script = m.leave t (m.world.piece t) := by
  simp [piece, h, hrun]

/-- A script that cannot go on is left alone. -/
theorem piece_cases (m : Machine) (script : Nat) :
    (m.piece script = m ∧ ∀ t, m.thread? script = some t → m.canRun t = false) ∨
      ∃ t, m.thread? script = some t ∧ m.canRun t = true ∧ m.piece script = m.leave t (m.world.piece t) := by
  cases ht : m.thread? script with
  | none => exact Or.inl ⟨by simp [piece, ht], fun _ h => by cases h⟩
  | some t =>
    by_cases hrun : m.canRun t = true
    · exact Or.inr ⟨t, rfl, hrun, piece_of_canRun ht hrun⟩
    · refine Or.inl ⟨by simp [piece, ht, hrun], fun u hu => ?_⟩
      obtain rfl := Option.some.inj hu
      simpa using hrun

/-! ### Ticks -/

/-- What happens while scripts run: a piece of a script, or the clock moves on. -/
inductive Tick where
  | piece (script : Nat)
  | clock (time : Nat)

/-- The machine after a tick. -/
def tick (m : Machine) : Tick → Machine
  | .piece script => m.piece script
  | .clock time => m.setClock time

/-- The machine after ticks in order. -/
def ticks (m : Machine) (l : List Tick) : Machine := l.foldl tick m

theorem ticks_append (m : Machine) (a b : List Tick) : m.ticks (a ++ b) = (m.ticks a).ticks b := List.foldl_append

/-- Running a stack of frames takes pieces of its script. -/
theorem runFrames_ticks (w : World) (c : Caller) (frames : List Frame) :
    ∀ (m : Machine) (t : Thread), m.world = w → t.caller = c → t.frames = frames → t.pause = .ready →
      m.thread? c.script = some t →
      ∃ n, m.settle t (w.runFrames c frames) = m.ticks (.replicate n (.piece c.script)) := by
  -- The recursion of `runFrames`: each piece leaves less to do in the turn.
  induction hn : Frame.weights frames using Nat.strongRecOn generalizing w frames with
  | ind weight ih =>
  intro m t hw hc hf hp ht
  have hpiece : m.piece c.script = m.leave t (w.step c frames) := by
    rw [piece_of_canRun ht (by rw [canRun, hp]; rfl), World.piece, hp, hw, hc, hf]
  rw [World.runFrames_eq]
  cases hstep : w.step c frames with
  | mk w' progress =>
    rw [hstep] at hpiece
    cases progress with
    | go after =>
      have hless : Frame.weights after < weight := hn ▸ World.step_go_weights (congrArg Prod.snd hstep)
      obtain ⟨n, hn⟩ := ih _ hless w' after rfl (m.piece c.script)
        { t with frames := after, pause := .ready } (by rw [hpiece]; rfl) hc rfl rfl
        (by rw [hpiece, ← hc]; exact thread?_putThread (hc ▸ ht) after .ready)
      refine ⟨n + 1, ?_⟩
      show _ = (m.piece c.script).ticks (.replicate n (.piece c.script))
      rw [← hn, hpiece]
      exact (settle_putThread after .ready _ w').symm
    | rest after pause => exact ⟨1, hpiece.symm⟩
    | done => exact ⟨1, hpiece.symm⟩

theorem turn_of_canRun {m : Machine} {t : Thread} (ht : m.thread? t.caller.script = some t) (hrun : m.canRun t = true) :
    m.turn t.caller.script = m.settle t (m.world.turn t) := by
  simp only [turn, ht, hrun, if_true]
  cases m.world.turn t with
  | mk w left => cases left <;> rfl

/-- A turn is a number of pieces of its script. -/
theorem turn_ticks (m : Machine) (script : Nat) : ∃ n, m.turn script = m.ticks (.replicate n (.piece script)) := by
  cases ht : m.thread? script with
  | none => exact ⟨0, by simp [turn, ht, ticks]⟩
  | some t =>
    obtain rfl := script_of_thread? ht
    by_cases hrun : m.canRun t = true
    · rw [turn_of_canRun ht hrun, World.turn]
      by_cases hp : t.pause = .ready
      · rw [hp]
        exact runFrames_ticks m.world t.caller t.frames m t rfl rfl rfl hp ht
      have hpiece := piece_of_canRun ht hrun
      have hresume : m.world.piece t = m.world.resume t.caller t.frames t.pause := by
        unfold World.piece
        split
        · rename_i h
          exact absurd h hp
        · rfl
      rw [hresume] at hpiece
      cases hr : m.world.resume t.caller t.frames t.pause with
      | mk w progress =>
        rw [hr] at hpiece
        cases progress with
        | go frames =>
          obtain ⟨n, hn⟩ := runFrames_ticks w t.caller frames (m.piece t.caller.script)
            { t with frames, pause := .ready } (by rw [hpiece]; rfl) rfl rfl rfl
            (by rw [hpiece]; exact thread?_putThread ht frames .ready)
          refine ⟨n + 1, ?_⟩
          show _ = (m.piece t.caller.script).ticks (.replicate n (.piece t.caller.script))
          rw [← hn, hpiece]
          exact (settle_putThread frames .ready _ w).symm
        | rest frames pause => exact ⟨1, hpiece.symm⟩
        | done => exact ⟨1, hpiece.symm⟩
    · exact ⟨0, by simp [turn, ht, hrun, ticks]⟩

/-- All that happens when time passes is ticks. -/
def Ticks (m m' : Machine) : Prop := ∃ l, m' = m.ticks l

theorem Ticks.refl (m : Machine) : m.Ticks m := ⟨[], rfl⟩

theorem Ticks.trans {a b c : Machine} (h : a.Ticks b) (h' : b.Ticks c) : a.Ticks c := by
  obtain ⟨l, rfl⟩ := h
  obtain ⟨l', rfl⟩ := h'
  exact ⟨l ++ l', (ticks_append a l l').symm⟩

theorem turn_isTicks (m : Machine) (script : Nat) : m.Ticks (m.turn script) := by
  obtain ⟨n, hn⟩ := m.turn_ticks script
  exact ⟨_, hn⟩

theorem round_isTicks (m : Machine) : m.Ticks m.round := by
  unfold round
  generalize m.threads.map (·.caller.script) = scripts
  induction scripts generalizing m with
  | nil => exact .refl m
  | cons script scripts ih => exact (m.turn_isTicks script).trans (ih (m.turn script))

theorem rounds_isTicks (m : Machine) (n : Nat) : m.Ticks (m.rounds n) := by
  induction n generalizing m with
  | zero => exact .refl m
  | succ n ih => exact m.round_isTicks.trans (ih m.round)

theorem runTo_isTicks (enough : Machine → Bool) (deadline fuel : Nat) (m : Machine) :
    m.Ticks (runTo enough deadline fuel m) := by
  induction fuel generalizing m with
  | zero => exact .refl m
  | succ fuel ih =>
    unfold runTo
    split
    · exact .refl m
    · split
      · exact .trans ⟨[.clock _], rfl⟩ (ih _)
      · exact m.round_isTicks.trans (ih m.round)

end Machine
end BlockScript
