import BlockScript.Proofs.Script.Sources

/-!
What a script does not notice. It finds the scene, the random source, the roster and the clock, and where these are the
same in two worlds its pieces go the same way. What was logged, which relays are connected and who was told of changes
makes no difference to a script that does not watch a condition.
-/
namespace BlockScript

namespace World

/-- A script finds the same in two worlds. -/
structure Alike (w v : World) : Prop where
  scene : v.scene = w.scene
  random : v.traces.random = w.traces.random
  roster : v.roster = w.roster
  clock : v.clock = w.clock

end World

/-- The outcome of a piece is the same, but for the links of a script that watches. -/
inductive Progress.Like : Progress → Progress → Prop
  | same (progress : Progress) : Like progress progress
  | watching (frames : List Frame) (p : Predicate Nat) (links links' : Subscription Channel) :
      Like (.rest frames (.watching p links)) (.rest frames (.watching p links'))

theorem Progress.Like.of_eq {progress progress' : Progress} (h : progress' = progress) : Like progress progress' :=
  h ▸ .same progress

namespace World

open Progress (Like)

variable {w v u x : World} {c : Caller} {next frames : List Frame} {pause : Pause}

namespace Alike

theorem refl (w : World) : w.Alike w := ⟨rfl, rfl, rfl, rfl⟩

theorem symm (h : w.Alike v) : v.Alike w := ⟨h.scene.symm, h.random.symm, h.roster.symm, h.clock.symm⟩

theorem trans (h : w.Alike v) (h' : v.Alike u) : w.Alike u :=
  ⟨h'.scene.trans h.scene, h'.random.trans h.random, h'.roster.trans h.roster, h'.clock.trans h.clock⟩

theorem of_retraces {start start' : Hub Channel} (h : w.Retraces start u) (h' : v.Retraces start' u) : w.Alike v :=
  ⟨h'.scene.symm.trans h.scene, h'.random.symm.trans h.random, h'.roster.symm.trans h.roster, h'.clock.symm.trans h.clock⟩

/-- Both worlds go the way of one in which no relay was fed. -/
theorem exists_retraces (h : w.Alike v) : ∃ u, w.Retraces w.hub u ∧ v.Retraces v.hub u := by
  have unfed (hub : Hub Channel) (r : Nat) :
      hub.source? r = (hub.source? r).or (({ w.hub with feeds := [] } : Hub Channel).source? r) := Option.or_none.symm
  exact ⟨w.withHub { w.hub with feeds := [] }, ⟨rfl, rfl, rfl, rfl, unfed w.hub⟩,
    ⟨h.scene.symm, h.random.symm, h.roster.symm, h.clock.symm, unfed v.hub⟩⟩

theorem isCancelled (h : w.Alike v) (script : Nat) : v.isCancelled script = w.isCancelled script := by
  rw [World.isCancelled, World.isCancelled, h.roster]

theorem withHub (h : w.Alike v) (hub hub' : Hub Channel) : (w.withHub hub).Alike (v.withHub hub') :=
  ⟨h.scene, h.random, h.roster, h.clock⟩

theorem setClock (h : w.Alike v) (time : Nat) : Alike { w with clock := time } { v with clock := time } :=
  ⟨h.scene, h.random, h.roster, rfl⟩

/-- What leads both the way of a third keeps them alike. -/
theorem led {f : World → World} (hf : ∀ {start w u}, World.Retraces start w u → (f w).Retraces start (f u))
    (h : w.Alike v) : (f w).Alike (f v) := by
  obtain ⟨u, hw, hv⟩ := h.exists_retraces
  exact of_retraces (hf hw) (hf hv)

theorem evaluate {α : Type} {m : View → Eval α} (h : w.Alike v) (figure : Nat) (hm : ∀ v, (m v).IsRepeatable) :
    (v.evaluate figure m).1 = (w.evaluate figure m).1 ∧ (w.evaluate figure m).2.Alike (v.evaluate figure m).2 := by
  obtain ⟨u, hw, hv⟩ := h.exists_retraces
  obtain ⟨hw₁, hw⟩ := hw.evaluate figure hm
  obtain ⟨hv₁, hv⟩ := hv.evaluate figure hm
  exact ⟨hv₁.symm.trans hw₁, of_retraces hw hv⟩

/-! ### Pieces -/

theorem sleep (h : w.Alike v) (next : List Frame) (span : Nat) : v.sleep next span = w.sleep next span := by
  rw [World.sleep, World.sleep, h.clock]

theorem wait (h : w.Alike v) (next : List Frame) (seconds : Number) :
    (v.wait c next seconds).2 = (w.wait c next seconds).2 := by
  unfold World.wait
  split
  · rfl
  · split
    · exact h.sleep next _
    · rfl

theorem waitUntil (h : w.Alike v) (next : List Frame) (p : Predicate Nat) :
    Like (w.waitUntil c next p).2 (v.waitUntil c next p).2 := by
  obtain ⟨holds, h₁⟩ := h.evaluate c.figure p.isRepeatable_test
  unfold World.waitUntil
  dsimp only
  rw [holds]
  split
  · exact .same _
  · -- The second test is made with other listeners in the two worlds.
    have h₂ := h₁.withHub ((w.evaluate c.figure p.test).2.hub.subscribeAll (p.relays.map .relay) (.wake c.script)).1
      ((v.evaluate c.figure p.test).2.hub.subscribeAll (p.relays.map .relay) (.wake c.script)).1
    rw [(h₂.evaluate c.figure p.isRepeatable_test).1]
    split
    · exact .same _
    · exact .watching _ _ _ _

theorem nextStep (h : w.Alike v) (next : List Frame) (g : Glide) : v.nextStep next g = w.nextStep next g := by
  rw [World.nextStep, World.nextStep, h.clock, h.scene]

theorem glide (h : w.Alike v) (next : List Frame) (seconds x y : Number) :
    (v.glide c next seconds x y).2 = (w.glide c next seconds x y).2 := by
  unfold World.glide
  dsimp only
  split
  · rfl
  · rw [h.scene, h.clock]
    exact h.nextStep next _

theorem continueGlide (h : w.Alike v) (next : List Frame) (g : Glide) :
    (v.continueGlide c next g).2 = (w.continueGlide c next g).2 := by
  by_cases hover : 1 ≤ g.progress w.clock
  · simp only [World.continueGlide, h.clock, if_pos hover]
  · simp only [World.continueGlide, h.clock, if_neg hover]
    exact (h.led fun h => h.moveTo _ _).nextStep next g

theorem playUntilDone (h : w.Alike v) (next : List Frame) (sound : Operand Nat) :
    (v.playUntilDone c next sound).2 = (w.playUntilDone c next sound).2 := by
  obtain ⟨u, hw, hv⟩ := h.exists_retraces
  obtain ⟨hw₁, hw⟩ := retraces_playSound c sound _ _ _ hw
  obtain ⟨hv₁, hv⟩ := retraces_playSound c sound _ _ _ hv
  have hplayed := of_retraces hw hv
  have told (w : World) : (w.playUntilDone c next sound).2 =
      if (playSound c sound w).1.toOption = some true then
        (playSound c sound w).2.sleep next ((playSound c sound w).2.scene.config.soundLength.getD 0 * 1000000)
      else .go next := by
    unfold World.playUntilDone
    rcases playSound c sound w with ⟨_ | _ | _, _⟩ <;> simp [Except.toOption]
  rw [told, told, hv₁.symm.trans hw₁]
  split
  · rw [hplayed.scene]
    exact hplayed.sleep next _
  · rfl

theorem begin (h : w.Alike v) (next : List Frame) (a : Action Nat) : Like (w.begin c next a).2 (v.begin c next a).2 := by
  cases a with
  | command cmd => exact .same _
  | playUntilDone sound => exact .of_eq (h.playUntilDone next sound)
  | wait seconds =>
    obtain ⟨hseconds, h₁⟩ := h.evaluate c.figure seconds.isRepeatable_number
    unfold World.begin
    dsimp only
    rw [hseconds, h₁.wait]
    exact .same _
  | waitUntil p => exact h.waitUntil next p
  | glide seconds x y =>
    obtain ⟨hseconds, h₁⟩ := h.evaluate c.figure seconds.isRepeatable_number
    obtain ⟨hx, h₂⟩ := h₁.evaluate c.figure x.isRepeatable_number
    obtain ⟨hy, h₃⟩ := h₂.evaluate c.figure y.isRepeatable_number
    unfold World.begin
    dsimp only
    rw [hseconds, hx, hy, h₃.glide]
    exact .same _
  | branch opcode condition thenBody elseBody =>
    unfold World.begin
    dsimp only
    rw [(h.evaluate c.figure condition.isRepeatable_test).1]
    exact .same _
  | repeatTimes times body =>
    unfold World.begin
    dsimp only
    rw [(h.evaluate c.figure times.isRepeatable_number).1]
    exact .same _
  | forever body => exact .same _
  | repeatUntil condition body => exact .same _

theorem checkLoop (h : w.Alike v) (next : List Frame) (loop : Loop) :
    (v.checkLoop c next loop).2 = (w.checkLoop c next loop).2 := by
  unfold World.checkLoop
  split
  · rfl
  · rw [h.isCancelled]
  · rw [h.isCancelled]
  · rw [h.isCancelled]
    split
    · rfl
    · dsimp only
      rw [(h.evaluate c.figure (Predicate.isRepeatable_test _)).1]

theorem step (h : w.Alike v) (frames : List Frame) : Like (w.step c frames).2 (v.step c frames).2 := by
  unfold World.step
  split
  · exact .same _
  · exact .same _
  · rw [h.isCancelled]
    split
    · exact .same _
    · exact h.begin _ _
  · exact .of_eq (h.checkLoop _ _)
  · exact .same _

/-- A piece of a script that watches nothing goes the same way in two worlds that are alike. -/
theorem piece (h : w.Alike v) {t : Thread} (unwatched : t.pause.watched? = none) :
    (w.piece t).1.Alike (v.piece t).1 ∧ Like (w.piece t).2 (v.piece t).2 := by
  unfold World.piece
  cases hpause : t.pause with
  | ready => exact ⟨h.led fun h => h.step _, h.step _⟩
  | sleeping wakeAt => exact ⟨h, .same _⟩
  | stalled => exact ⟨h, .same _⟩
  | gliding g wakeAt =>
    simp only [World.resume, h.isCancelled]
    split
    · exact ⟨h, .same _⟩
    · exact ⟨h.led (f := fun w => (w.continueGlide t.caller t.frames g).1) fun h => h.continueGlide _ _,
        .of_eq (h.continueGlide _ _)⟩
  | watching p links =>
    rw [hpause] at unwatched
    cases unwatched

theorem canResume (h : w.Alike v) (script : Nat) (unwatched : pause.watched? = none) :
    v.canResume script pause = w.canResume script pause := by
  cases pause with
  | ready => rfl
  | stalled => exact h.isCancelled script
  | watching p links => cases unwatched
  | sleeping wakeAt => rw [World.canResume, World.canResume, h.clock, h.isCancelled]
  | gliding g wakeAt => rw [World.canResume, World.canResume, h.clock, h.isCancelled]

end Alike
end World
end BlockScript
