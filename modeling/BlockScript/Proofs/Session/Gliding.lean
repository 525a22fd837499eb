import BlockScript.Proofs.Script.Gliding
import BlockScript.Proofs.Session.Loops
import BlockScript.Proofs.Session.Settings

/-!
Glides in machines and sessions. A machine whose only script is a glide comes to rest on the clock after as many frames as
the glide holds, with the figure at the end of its way. In a session a script that no move interrupts goes on among others
that spare it, so what becomes of its glide there is what becomes of it in any such course.
-/
namespace BlockScript

open Moment Number

/-! ### Alone -/

namespace World

variable {w : World} {c : Caller} {relays : List Nat} {g : Glide} {wakeAt : Nat} {seconds x y : Operand Nat}

theorem runFrames_rest (w : World) (c : Caller) : w.runFrames c [.blocks []] = (w, none) := by
  have hend : w.runFrames c [] = (w, none) := by rw [runFrames_eq, step]
  rw [runFrames_eq, step]
  exact hend

theorem turn_gliding_of_done (running : w.isCancelled c.script = false) (done : 1 ≤ g.progress w.clock) :
    w.turn ⟨c, [.blocks []], .gliding g wakeAt, relays⟩ = (w.head c.figure (g.aim w.clock), none) := by
  rw [turn, resume, running, if_neg Bool.false_ne_true, continueGlide_of_done done, Glide.aim_of_done done]
  exact runFrames_rest _ c

theorem turn_gliding_of_early (running : w.isCancelled c.script = false) (early : ¬1 ≤ g.progress w.clock) :
    w.turn ⟨c, [.blocks []], .gliding g wakeAt, relays⟩ =
      (w.head c.figure (g.aim w.clock), some ([.blocks []], .gliding g (w.clock + w.frame))) := by
  rw [turn, resume, running, if_neg Bool.false_ne_true, continueGlide_of_early early, Glide.aim_of_early early]

theorem turn_glide (running : w.isCancelled c.script = false) :
    w.turn ⟨c, [.blocks [.glide seconds x y]], .ready, relays⟩ =
      let (g, u) := w.glideOf c seconds x y
      if g.total = 0 then (u.head c.figure (.place g.x g.y), none)
      else (u, some ([.blocks []], .gliding g (w.clock + w.frame))) := by
  have hstep : w.step c [.blocks [.glide seconds x y]] = w.begin c [.blocks []] (.glide seconds x y) := by
    rw [step, running, if_neg Bool.false_ne_true]
  rw [turn, resume]
  dsimp only
  rw [runFrames_eq, hstep, begin_glide]
  generalize w.glideOf c seconds x y = r
  obtain ⟨g, u⟩ := r
  dsimp only
  by_cases h : g.total = 0
  · rw [if_pos h, if_pos h]
    exact runFrames_rest _ c
  · rw [if_neg h, if_neg h]

end World

namespace Machine

variable {m : Machine} {c : Caller} {relays : List Nat} {g : Glide} {frame deadline fuel passed : Nat} {times : List Nat}
  {t : Thread} {enough : Machine → Bool}

theorem runTo_of_enough (h : enough m = true) : runTo enough deadline fuel m = m := by
  cases fuel with
  | zero => rfl
  | succ fuel =>
    unfold runTo
    rw [h, Bool.true_or, if_pos rfl]

theorem runTo_of_idle (h : enough m = false) (early : m.world.clock < deadline) (idle : m.isIdle = true) :
    runTo enough deadline (fuel + 1) m = runTo enough deadline fuel (m.setClock (m.nextTime deadline)) := by
  rw [runTo, h, Bool.false_or, decide_eq_false (Nat.not_le.mpr early), if_neg Bool.false_ne_true, if_pos idle]

theorem runTo_of_busy (h : enough m = false) (early : m.world.clock < deadline) (busy : m.isIdle = false) :
    runTo enough deadline (fuel + 1) m = runTo enough deadline fuel m.round := by
  rw [runTo, h, Bool.false_or, decide_eq_false (Nat.not_le.mpr early), if_neg Bool.false_ne_true, busy,
    if_neg Bool.false_ne_true]

theorem isFinished_singleton (hthreads : m.threads = [t]) : m.isFinished = false := by
  rw [isFinished, hthreads, List.isEmpty_cons]

theorem isIdle_singleton (hthreads : m.threads = [t]) : m.isIdle = !m.canRun t := by
  rw [isIdle, hthreads, List.any_cons, List.any_nil, Bool.or_false]

/-- What a script leaves in the world is there after its turn, even if it has ended. -/
theorem settle_kept {α : Type} {f : World → α} (hf : ∀ w roster traces, f { w with roster, traces } = f w) (m : Machine)
    (t : Thread) (x : World × Option (List Frame × Pause)) : f (m.settle t x).world = f x.1 := by
  obtain ⟨w, left | ⟨frames, pause⟩⟩ := x
  · exact hf w _ _
  · rfl

theorem settle_world (m : Machine) (t : Thread) (w : World) (left : List Frame × Pause) :
    (m.settle t (w, some left)).world = w := rfl

theorem round_singleton (hthreads : m.threads = [t]) (runs : m.canRun t = true) :
    m.round = m.settle t (m.world.turn t) := by
  have present : m.thread? t.caller.script = some t := by simp [thread?, hthreads]
  rw [round, hthreads]
  exact turn_of_canRun present runs

/-- The only script of a machine is on a glide, and so many milliseconds have passed since its last move. All moves were made
as soon as they could be. -/
structure Aloft (m : Machine) (c : Caller) (relays : List Nat) (g : Glide) (frame : Nat) (times : List Nat)
    (passed : Nat) : Prop where
  threads : m.threads = [⟨c, [.blocks []], .gliding g (g.latest times + frame), relays⟩]
  way : Underway c g frame times ⟨m.world, [], .gliding g (g.latest times + frame)⟩
  clock : m.world.clock = g.latest times + passed
  punctual : g.latest times = g.began + times.length * frame

/-- The glide is over and no script is left. -/
structure Settled (m : Machine) (c : Caller) (g : Glide) (frame : Nat) : Prop where
  threads : m.threads = []
  landed : ∃ times now, 1 ≤ g.progress now ∧ m.world.scene.poseOf c.figure = g.poseAfter (times ++ [now])
  clock : m.world.clock ≤ g.began + g.frames frame * frame

namespace Aloft

/-- The script can go on once a frame has passed. -/
theorem canRun_iff (h : m.Aloft c relays g frame times passed) :
    m.canRun ⟨c, [.blocks []], .gliding g (g.latest times + frame), relays⟩ = true ↔ frame ≤ passed :=
  h.way.canResume_iff.trans (by simp only [h.clock, Nat.add_le_add_iff_left])

/-- The clock goes on to the time of the next move. -/
theorem wait (h : m.Aloft c relays g frame times 0) : (m.setClock (g.latest times + frame)).Aloft c relays g frame times frame where
  threads := h.threads
  way := h.way.respected ⟨fun running => running, .refl _, rfl, h.clock.le.trans (Nat.add_le_add_left (Nat.zero_le _) _)⟩
  clock := rfl
  punctual := h.punctual

/-- The next move is made within the time that all frames take. -/
theorem clock_le (h : m.Aloft c relays g frame times frame) (lasts : g.Lasts) (hframe : 0 < frame) :
    m.world.clock ≤ g.began + g.frames frame * frame := by
  have hlt := h.way.length_lt lasts hframe
  have hframes := Nat.mul_le_mul_right frame (Nat.succ_le_of_lt hlt)
  rw [Nat.succ_mul] at hframes
  rw [h.clock, h.punctual]
  omega

/-- The script makes its next move, or the last. -/
theorem round (h : m.Aloft c relays g frame times frame) (lasts : g.Lasts) (hframe : 0 < frame) :
    m.round.Aloft c relays g frame (times ++ [m.world.clock]) 0 ∨ m.round.Settled c g frame := by
  have able := h.way.canResume_iff.mpr h.clock.ge
  rw [round_singleton h.threads (h.canRun_iff.mpr (Nat.le_refl _))]
  by_cases done : 1 ≤ g.progress m.world.clock
  · have landed := (h.way.land able done).pose
    rw [h.way.piece_world] at landed
    rw [World.turn_gliding_of_done h.way.running done]
    refine .inr { threads := ?_, landed := ⟨times, m.world.clock, done, ?_⟩, clock := ?_ }
    · simp [settle, finishThread, h.threads]
    · rw [settle_kept (f := World.scene) fun _ _ _ => rfl]
      exact landed
    · rw [settle_kept (f := World.clock) fun _ _ _ => rfl, World.clock_head]
      exact h.clock_le lasts hframe
  · have moved := h.way.move able done
    have hpiece : Moment.piece c ⟨m.world, [], .gliding g (g.latest times + frame)⟩ =
        ⟨m.world.head c.figure (g.aim m.world.clock), [], .gliding g (g.latest (times ++ [m.world.clock]) + frame)⟩ := by
      rw [h.way.piece_eq, World.continueGlide_of_early done, Glide.aim_of_early done, Glide.latest_append, ← h.way.rate]
      rfl
    rw [hpiece] at moved
    rw [World.turn_gliding_of_early h.way.running done, show m.world.frame = frame from h.way.rate]
    refine .inl { threads := ?_, way := ?_, clock := ?_, punctual := ?_ }
    · simp [settle, putThread, h.threads, Glide.latest_append]
    · rw [settle_world]
      exact moved
    · rw [settle_world, World.clock_head, Glide.latest_append, Nat.add_zero]
    · rw [Glide.latest_append, h.clock, h.punctual, List.length_append, List.length_singleton, Nat.add_mul, Nat.one_mul,
        Nat.add_assoc]

theorem signals_round (h : m.Aloft c relays g frame times frame) (nowhere : ¬(g.x.isFinite = true ∧ g.y.isFinite = true)) :
    m.round.world.signals = m.world.signals := by
  have hhead : m.world.head c.figure (g.aim m.world.clock) = m.world :=
    World.head_nowhere fun haim => nowhere (Glide.isFinite_aim haim)
  rw [round_singleton h.threads (h.canRun_iff.mpr (Nat.le_refl _))]
  rw [settle_kept (f := World.signals) fun _ _ _ => rfl]
  by_cases done : 1 ≤ g.progress m.world.clock
  · rw [World.turn_gliding_of_done h.way.running done, hhead]
  · rw [World.turn_gliding_of_early h.way.running done, hhead]

/-- A jump of the clock and a round, until the glide is over. -/
theorem finish (h : m.Aloft c relays g frame times 0) (lasts : g.Lasts) (hframe : 0 < frame)
    (hdeadline : g.began + g.frames frame * frame < deadline) (hfuel : 2 * (g.frames frame - times.length) ≤ fuel) :
    (runTo isFinished deadline fuel m).Settled c g frame ∧
      (¬(g.x.isFinite = true ∧ g.y.isFinite = true) →
        (runTo isFinished deadline fuel m).world.signals = m.world.signals) := by
  -- The recursion of `runTo`, two steps at a time: each round uses up one of the frames.
  induction hleft : g.frames frame - times.length generalizing m times fuel with
  | zero =>
    have hlt := h.way.length_lt lasts hframe
    omega
  | succ left ih =>
    obtain ⟨fuel, rfl⟩ : ∃ k, fuel = k + 2 := ⟨fuel - 2, by omega⟩
    have waits := h.wait
    have hclock := waits.clock_le lasts hframe
    have htime : m.nextTime deadline = g.latest times + frame := by
      have hdue : g.latest times + frame ≤ deadline := waits.clock ▸ (hclock.trans_lt hdeadline).le
      simp [nextTime, nextTimer?, h.threads, timer?, hdue]
    have hidle : m.isIdle = true := by
      have hrest : m.canRun _ = false := Bool.eq_false_iff.mpr fun able => absurd (h.canRun_iff.mp able) (by omega)
      rw [isIdle_singleton h.threads, hrest, Bool.not_false]
    have hbusy : (m.setClock (g.latest times + frame)).isIdle = false := by
      rw [isIdle_singleton waits.threads, waits.canRun_iff.mpr (Nat.le_refl _), Bool.not_true]
    have hearly : m.world.clock < deadline := by
      have hwaited := waits.clock
      rw [hwaited] at hclock
      rw [h.clock]
      omega
    rw [runTo_of_idle (isFinished_singleton h.threads) hearly hidle, htime,
      runTo_of_busy (isFinished_singleton waits.threads) (hclock.trans_lt hdeadline) hbusy]
    have hsignals := waits.signals_round
    rcases waits.round lasts hframe with aloft | settled
    · have hlength : g.frames frame - (times ++ [(m.setClock (g.latest times + frame)).world.clock]).length = left := by
        rw [List.length_append, List.length_singleton]
        omega
      have hless : 2 * (g.frames frame - (times ++ [(m.setClock (g.latest times + frame)).world.clock]).length) ≤ fuel := by
        omega
      obtain ⟨settled, quiet⟩ := ih aloft hless hlength
      exact ⟨settled, fun nowhere => (quiet nowhere).trans (hsignals nowhere)⟩
    · rw [runTo_of_enough (by rw [isFinished, settled.threads, List.isEmpty_nil])]
      exact ⟨settled, hsignals⟩

end Aloft

/-- All scripts have ended within the time that the frames of a glide take, and the figure is at the end of its way. Without
such a place it has stayed where it was, and nobody was told of a move. -/
structure Rests (m : Machine) (figure : Nat) (g : Glide) (w : World) : Prop where
  finished : m.isFinished = true
  clock : m.world.clock ≤ g.began + g.frames w.frame * w.frame
  arrived : g.x.isFinite = true → g.y.isFinite = true →
    m.world.scene.poseOf figure = { g.start with x := g.x, y := g.y }
  stayed : ¬(g.x.isFinite = true ∧ g.y.isFinite = true) →
    m.world.scene.poseOf figure = g.start ∧ m.world.signals = w.signals

theorem Settled.rests {w : World} (h : m.Settled c g w.frame)
    (quiet : ¬(g.x.isFinite = true ∧ g.y.isFinite = true) → m.world.signals = w.signals) : m.Rests c.figure g w := by
  obtain ⟨times, now, done, hpose⟩ := h.landed
  refine ⟨?_, h.clock, fun hx hy => ?_, fun nowhere => ⟨?_, quiet nowhere⟩⟩
  · rw [isFinished, h.threads, List.isEmpty_nil]
  · rw [hpose, Glide.poseAfter_arrived hx hy done]
  · rw [hpose, Glide.poseAfter_nowhere nowhere]

/-- A glide that takes no time. -/
theorem rests_of_eq_zero {w u : World} (departs : w.Departs c g u) (present : (w.scene.figure? c.figure).isSome = true)
    (hthreads : m.threads = [t]) : (m.settle t (u.head c.figure (.place g.x g.y), none)).Rests c.figure g w := by
  refine ⟨?_, ?_, fun hx hy => ?_, fun nowhere => ⟨?_, ?_⟩⟩
  · simp [isFinished, settle, finishThread, hthreads]
  · rw [settle_kept (f := World.clock) fun _ _ _ => rfl, World.clock_head, departs.clock, departs.began]
    exact Nat.le_add_right _ _
  · rw [settle_kept (f := World.scene) fun _ _ _ => rfl]
    exact departs.arrived present hx hy
  · rw [settle_kept (f := World.scene) fun _ _ _ => rfl, World.head_place_nowhere nowhere]
    exact departs.pose
  · rw [settle_kept (f := World.signals) fun _ _ _ => rfl, World.head_place_nowhere nowhere]
    exact departs.signals

/-- A glide that takes some time. -/
theorem aloft_of_ne_zero {w u : World} (departs : w.Departs c g u) (hthreads : m.threads = [t]) (hcaller : t.caller = c)
    (way : Underway c g w.frame [] ⟨u, [], .gliding g (w.clock + w.frame)⟩) :
    (m.settle t (u, some ([.blocks []], .gliding g (w.clock + w.frame)))).Aloft c t.relays g w.frame [] 0 := by
  have hlatest : g.latest [] = w.clock := departs.began
  refine ⟨?_, ?_, ?_, ?_⟩
  · simp [settle, putThread, hthreads, hcaller, hlatest]
  · rw [settle_world, hlatest]
    exact way
  · rw [settle_world, hlatest]
    exact departs.clock
  · rw [List.length_nil, Nat.zero_mul]
    rfl

/-- A glide that is the only script comes to its end. -/
theorem finish_glide {seconds x y : Operand Nat} {limit : Nat}
    (hthreads : m.threads = [⟨c, [.blocks [.glide seconds x y]], .ready, relays⟩])
    (rate : m.world.scene.config.frameRate ≤ nanosPerSecond) (running : m.world.isCancelled c.script = false)
    (present : (m.world.scene.figure? c.figure).isSome = true)
    (hfuel : 2 * (m.world.glideOf c seconds x y).1.frames m.world.frame + 1 ≤ fuel)
    (hlimit : (m.world.glideOf c seconds x y).1.frames m.world.frame * m.world.frame < limit) :
    (m.finish fuel limit).Rests c.figure (m.world.glideOf c seconds x y).1 m.world := by
  obtain ⟨fuel, rfl⟩ : ∃ k, fuel = k + 1 := ⟨fuel - 1, by omega⟩
  have hbusy : m.isIdle = false := by
    rw [isIdle_singleton hthreads]
    rfl
  have departs := m.world.departs_glideOf c seconds x y
  rw [finish, runTo_of_busy (isFinished_singleton hthreads) (by omega) hbusy, round_singleton hthreads rfl,
    World.turn_glide running]
  dsimp only
  by_cases h : (m.world.glideOf c seconds x y).1.total = 0
  · have rests := rests_of_eq_zero departs present hthreads
    rw [if_pos h, runTo_of_enough rests.finished]
    exact rests
  · have way := underway_begun running present h
    rw [begun_glide_of_ne_zero h] at way
    have aloft := aloft_of_ne_zero departs hthreads rfl way
    rw [if_neg h]
    have hdeadline : (m.world.glideOf c seconds x y).1.began +
        (m.world.glideOf c seconds x y).1.frames m.world.frame * m.world.frame < m.world.clock + limit := by
      rw [departs.began]
      omega
    have hless : 2 * ((m.world.glideOf c seconds x y).1.frames m.world.frame - ([] : List Nat).length) ≤ fuel := by
      rw [List.length_nil]
      omega
    obtain ⟨settled, quiet⟩ := aloft.finish (glideOf_lasts h) (World.frame_pos rate) hdeadline hless
    refine settled.rests fun nowhere => (quiet nowhere).trans ?_
    rw [settle_world]
    exact departs.signals

end Machine

/-! ### Among others -/

theorem World.Acts.sameShape {figure : Nat} {taps : List (Nat × Source)} {w w' : World} (h : Acts figure taps w w') :
    w.scene.SameShape w'.scene := by
  induction h with
  | refl => exact .refl _
  | tail _ act ih =>
    refine ih.trans ?_
    cases act with
    | log | evaluate => exact .refl _
    | change _ x => exact x.sameShape _

theorem World.Piece.sameShape {w w' : World} {c : Caller} {frames : List Frame} {pause : Pause} {progress : Progress}
    (h : Piece w c frames pause w' progress) : w.scene.SameShape w'.scene := by
  cases h with
  | ends | stops => exact .refl _
  | waits p rest next running =>
    rw [waitUntil_scene]
    exact .refl _
  | wakes p links frames =>
    simp only [resume]
    split
    · exact .refl _
    · rw [retest_scene]
      exact .refl _
  | acts _ _ acts => exact acts.sameShape

namespace Session

variable {s : Session} {c : Caller}

theorem sameShape_make (s : Session) (move : Move) : s.scene.SameShape (s.make move).scene := by
  rcases s.scene_make move with h | ⟨x, -, h⟩ | ⟨t, h⟩
  · rw [h]
    exact .refl _
  · rw [h]
    exact x.sameShape s.scene
  · rw [h]
    exact (s.world.piece_spec t).sameShape

/-- No move interrupts a script or moves its figure, unless it is a piece of that script, and none turns the clock back. -/
def LeavesAlone (s : Session) (c : Caller) (moves : List Move) : Prop :=
  ∀ before move later, moves = before ++ move :: later → move ≠ .tick (.piece c.script) →
    let w := (s.after before).world
    let w' := ((s.after before).make move).world
    (w.isCancelled c.script = false → w'.isCancelled c.script = false) ∧
      w'.scene.poseOf c.figure = w.scene.poseOf c.figure ∧ w.clock ≤ w'.clock

theorem continues_respecting {t : Thread} {moves : List Move} (present : s.machine.thread? c.script = some t)
    (leaves : s.LeavesAlone c moves) : s.ContinuesAmong (Respecting c) c.script t moves := by
  refine continuesAmong present fun before move later hmoves hmove u _ _ => ?_
  obtain ⟨running, pose, clock⟩ := leaves before move later hmoves hmove
  exact ⟨running, (s.after before).sameShape_make move, pose, clock⟩

end Session

/-! ### Arrival -/

/-- Uninterrupted glides arrive. Where others do anything but interrupt the script or move its figure, a glide moves the figure
by shares that never fall, makes no more moves than its time holds frames, and leaves the figure at its end, or where it
was. A machine whose only script is a glide comes to rest so on the clock; and in a session a script that is left alone
comes to its glide, through it and behind it among such others. -/
theorem uninterrupted_glides_arrive (c : Caller) (seconds x y : Operand Nat) :
    (∀ w : World, w.scene.config.frameRate ≤ nanosPerSecond → w.isCancelled c.script = false →
      (w.scene.figure? c.figure).isSome = true →
      let (g, u) := w.glideOf c seconds x y
      w.Departs c g u ∧ g.Undisturbed c u (begun c (.glide seconds x y) w)) ∧
    (∀ (m : Machine) relays fuel limit, m.threads = [⟨c, [.blocks [.glide seconds x y]], .ready, relays⟩] →
      m.world.scene.config.frameRate ≤ nanosPerSecond → m.world.isCancelled c.script = false →
      (m.world.scene.figure? c.figure).isSome = true →
      2 * (m.world.glideOf c seconds x y).1.frames m.world.frame + 1 ≤ fuel →
      (m.world.glideOf c seconds x y).1.frames m.world.frame * m.world.frame < limit →
      (m.finish fuel limit).Rests c.figure (m.world.glideOf c seconds x y).1 m.world) ∧
    ∀ (s : Session) t later rest below, s.machine.thread? c.script = some t → t.caller = c →
      t.frames = .blocks (.glide seconds x y :: rest) :: below → t.pause = .ready →
      s.world.isCancelled c.script = false → s.LeavesAlone c later →
      (∃ t', (s.after later).machine.thread? c.script = some t' ∧ t'.caller = c ∧
        GlideStage c seconds x y rest below s.world (t'.moment (s.after later).world)) ∨
      ∃ k ≤ later.length, GlideStage c seconds x y rest below s.world ⟨(s.after (later.take k)).world, [], .ready⟩ := by
  refine ⟨fun w rate running present => ⟨w.departs_glideOf c seconds x y, undisturbed rate running present⟩,
    fun m relays fuel limit hthreads rate running present => Machine.finish_glide hthreads rate running present, ?_⟩
  intro s t later rest below present hcaller hframes hpause running leaves
  have hmoment : t.moment s.world = ⟨s.world, .blocks (.glide seconds x y :: rest) :: below, .ready⟩ := by
    rw [Thread.moment, hframes, hpause]
  rcases Session.continues_respecting present leaves with ⟨t', n, present', hcaller', course⟩ | ⟨k, hk, n, course⟩
  · rw [hmoment, hcaller] at course
    exact .inl ⟨t', present', hcaller'.trans hcaller, course.glideStage running⟩
  · rw [hmoment, hcaller] at course
    exact .inr ⟨k, hk, course.glideStage running⟩

/-- A figure that glides for a twentieth of a second, with 120 frames in a second. -/
def Session.shortGlide : Project where
  scene := {
    figures := [⟨"Sprite1", false, [], [], [], ⟨0, 0, 90⟩, ⟨100, 0, 0⟩⟩]
    pointer := .fixed 0 0
    config := { Config.default with frameRate := 120 } }
  graphs := []
  scripts := [⟨0, "hat", [.glide (.constant (.text "0.05")) (.constant (.number 30)) (.constant (.number (-40)))]⟩]

/-- The glide begins, and a frame passes. -/
def Session.shortGlideMoves : List Session.Move := [.tick (.piece 0), .tick (.clock 9)]

theorem short_glide_arrives :
    let seconds : Operand Nat := .constant (.text "0.05")
    let x : Operand Nat := .constant (.number 30)
    let y : Operand Nat := .constant (.number (-40))
    let s := (Session.ofProject Session.shortGlide).after [.greenFlag]
    let later := Session.shortGlideMoves
    let g := (s.world.glideOf ⟨0, 0⟩ seconds x y).1
    let u := (s.world.glideOf ⟨0, 0⟩ seconds x y).2
    g.frames s.world.frame = 6 ∧ s.world.Departs ⟨0, 0⟩ g u ∧
      g.Undisturbed ⟨0, 0⟩ u (begun ⟨0, 0⟩ (.glide seconds x y) s.world) ∧
      (s.machine.finish 13 55).isFinished = true ∧ (s.machine.finish 13 55).world.scene.poseOf 0 = ⟨30, -40, 90⟩ ∧
      ((∃ t', (s.after later).machine.thread? 0 = some t' ∧ t'.caller = ⟨0, 0⟩ ∧
          GlideStage ⟨0, 0⟩ seconds x y [] [] s.world (t'.moment (s.after later).world)) ∨
        ∃ k ≤ later.length, GlideStage ⟨0, 0⟩ seconds x y [] [] s.world ⟨(s.after (later.take k)).world, [], .ready⟩) := by
  intro seconds x y s later g u
  have hframes : g.frames s.world.frame = 6 := by decide +kernel
  have hframe : s.world.frame = 9 := by decide +kernel
  have hfuel : 2 * g.frames s.world.frame + 1 ≤ 13 := by rw [hframes]
  have hlimit : g.frames s.world.frame * s.world.frame < 55 := by
    rw [hframes, hframe]
    decide
  have leaves : s.LeavesAlone ⟨0, 0⟩ later := by
    intro before move rest hmoves hmove
    rcases before with _ | ⟨first, _ | ⟨second, before⟩⟩
    · obtain rfl : move = .tick (.piece 0) := (List.cons.inj hmoves).1.symm
      exact absurd rfl hmove
    · obtain ⟨rfl, htail⟩ := List.cons.inj hmoves
      obtain rfl : move = .tick (.clock 9) := (List.cons.inj htail).1.symm
      have hclock : (s.after [.tick (.piece 0)]).world.clock ≤ 9 := by decide +kernel
      generalize s.after [.tick (.piece 0)] = s' at hclock ⊢
      exact ⟨fun running => running, rfl, hclock⟩
    · have hlength := congrArg List.length hmoves
      simp [later, Session.shortGlideMoves] at hlength
  obtain ⟨among, alone, sessions⟩ := uninterrupted_glides_arrive ⟨0, 0⟩ seconds x y
  have rests := alone s.machine [] 13 55 rfl (by decide) rfl rfl hfuel hlimit
  obtain ⟨departs, undisturbed⟩ := among s.world (by decide) rfl rfl
  refine ⟨hframes, departs, undisturbed, rests.finished, ?_, ?_⟩
  · exact (rests.arrived (by decide +kernel) (by decide +kernel)).trans (by decide +kernel)
  · exact sessions s _ later [] [] rfl rfl rfl rfl rfl leaves

end BlockScript
