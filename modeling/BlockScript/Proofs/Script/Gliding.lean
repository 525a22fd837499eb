import BlockScript.Proofs.Number.Spans
import BlockScript.Proofs.Script.Loops
import BlockScript.Proofs.Script.Settings

/-!
Glides. A figure on a glide moves once a frame, to the share of its way that the time has done, until that is all of it;
then it moves to the end. A frame takes a millisecond at least, so a glide that nobody interrupts makes no more moves than
its time holds frames. Its shares rise, and the last move leaves the figure at the end whatever the ones before it did,
unless there is no such place: then none of them does anything.
-/
namespace BlockScript

open Moment Number

/-! ### Time -/

theorem Number.nanoseconds?_le {x : Number} {span : Nat} (h : x.nanoseconds? = some span) :
    span ≤ twoPow 64 * nanosPerSecond := by
  unfold nanoseconds? at h
  split at h
  · rename_i m fits
    split at h
    · cases h
    · rename_i hshort
      simp only [Bool.or_eq_true, decide_eq_true_eq, not_or, Nat.not_le] at hshort
      obtain ⟨-, hlt⟩ := hshort
      obtain rfl := Option.some.inj h
      have hpos := quantaPerOne_pos
      generalize quantaPerOne = one at hlt hpos ⊢
      generalize twoPow 64 = longest at hlt ⊢
      refine divRoundEven_le_of_lt hpos ?_
      have hnanos : m * nanosPerSecond ≤ longest * one * nanosPerSecond := Nat.mul_le_mul_right _ hlt.le
      linarith
  · cases h

theorem glideLength_le (seconds : Number) : glideLength seconds ≤ twoPow 64 * nanosPerSecond := by
  unfold glideLength
  split
  · exact Nat.zero_le _
  · cases hspan : seconds.nanoseconds? with
    | none =>
      unfold longestSpan
      exact Nat.sub_le _ _
    | some span => exact nanoseconds?_le hspan

/-- Milliseconds on the clock that a frame takes. -/
def World.frame (w : World) : Nat := millisecondsAbove (frameLength w.scene.config.frameRate)

theorem World.frame_of_sameShape {w w' : World} (h : w.scene.SameShape w'.scene) : w'.frame = w.frame := by
  unfold frame
  rw [h.config]

/-- A frame takes a millisecond at least. -/
theorem World.frame_pos {w : World} (rate : w.scene.config.frameRate ≤ nanosPerSecond) : 0 < w.frame := by
  have hlength : 0 < frameLength w.scene.config.frameRate := by
    unfold frameLength
    exact Nat.div_pos (max_le rate (by decide)) (lt_max_of_lt_right Nat.one_pos)
  unfold frame millisecondsAbove
  omega

/-! ### Places that are not finite -/

namespace Number

variable {x y : Number}

theorem isFinite_of_add (h : (x + y).isFinite = true) : y.isFinite = true := by
  cases x <;> cases y
  case infinity.infinity s t =>
    have hsum : infinity s + infinity t = if s = t then .infinity s else .nan := rfl
    rw [hsum] at h
    split at h <;> cases h
  all_goals first | rfl | cases h

theorem isFinite_of_mul (h : (x * y).isFinite = true) : x.isFinite = true := by
  cases x <;> cases y
  case infinity.finite s t n fits =>
    have hproduct : infinity s * finite t n fits = if n = 0 then .nan else .infinity (s ^^ t) := rfl
    rw [hproduct] at h
    split at h <;> cases h
  all_goals first | rfl | cases h

theorem isFinite_of_sub (h : (x - y).isFinite = true) : x.isFinite = true := by
  cases x <;> cases y
  case infinity.infinity s t =>
    have hdifference : infinity s - infinity t = if s = !t then .infinity s else .nan := rfl
    rw [hdifference] at h
    split at h <;> cases h
  all_goals first | rfl | cases h

end Number

namespace Glide

variable {g : Glide} {now : Nat}

theorem aim_of_done (done : 1 ≤ g.progress now) : g.aim now = .place g.x g.y := by
  unfold aim
  exact if_pos done

theorem aim_of_early (early : ¬1 ≤ g.progress now) :
    g.aim now = .place (g.place (g.progress now)).1 (g.place (g.progress now)).2 := by
  unfold aim
  exact if_neg early

theorem isFinite_between {first last share : Number} (h : (between first last share).isFinite = true) :
    last.isFinite = true := isFinite_of_sub (isFinite_of_mul (isFinite_of_add h))

/-- A glide to nowhere leads nowhere. -/
theorem isFinite_aim (h : (g.aim now).isFinite = true) : g.x.isFinite = true ∧ g.y.isFinite = true := by
  by_cases done : 1 ≤ g.progress now
  · rw [aim_of_done done] at h
    exact Bool.and_eq_true_iff.mp h
  · rw [aim_of_early done] at h
    obtain ⟨hx, hy⟩ := Bool.and_eq_true_iff.mp h
    exact ⟨isFinite_between hx, isFinite_between hy⟩

end Glide

/-! ### Moves -/

/-- The pose of a figure that headed somewhere. -/
def Pose.toward (p : Pose) (aim : Aim) : Pose := if aim.isFinite then p.reach aim else p

namespace World

variable {w : World} {n : Nat}

theorem clock_head (w : World) (n : Nat) (aim : Aim) : (w.head n aim).clock = w.clock := by
  rw [head_eq]
  split <;> rfl

theorem isCancelled_head (w : World) (n : Nat) (aim : Aim) (script : Nat) :
    (w.head n aim).isCancelled script = w.isCancelled script := by
  rw [head_eq]
  split <;> rfl

theorem sameShape_head (w : World) (n : Nat) (aim : Aim) : w.scene.SameShape (w.head n aim).scene := by
  rw [head_eq]
  split
  · exact (Change.pose n ((w.scene.poseOf n).reach aim)).sameShape w.scene
  · exact .refl _

theorem head_nowhere {aim : Aim} (h : ¬aim.isFinite = true) : w.head n aim = w := by
  rw [head_eq, if_neg h]

theorem head_place_nowhere {x y : Number} (h : ¬(x.isFinite = true ∧ y.isFinite = true)) : w.head n (.place x y) = w :=
  head_nowhere fun haim => h (Bool.and_eq_true_iff.mp haim)

theorem poseOf_head (present : (w.scene.figure? n).isSome = true) (aim : Aim) :
    (w.head n aim).scene.poseOf n = (w.scene.poseOf n).toward aim := by
  rw [head_eq, Pose.toward]
  split
  · exact Scene.poseOf_setPose_self present _
  · rfl

end World

namespace Glide

variable {g : Glide} {times : List Nat} {now : Nat}

/-- The pose of a figure after the moves of a glide at some times. -/
def poseAfter (g : Glide) (times : List Nat) : Pose := times.foldl (fun p now => p.toward (g.aim now)) g.start

theorem poseAfter_append (g : Glide) (times : List Nat) (now : Nat) :
    g.poseAfter (times ++ [now]) = (g.poseAfter times).toward (g.aim now) := by
  unfold poseAfter
  rw [List.foldl_append, List.foldl_cons, List.foldl_nil]

/-- Moves leave the direction. -/
theorem direction_poseAfter (g : Glide) (times : List Nat) : (g.poseAfter times).direction = g.start.direction := by
  induction times using List.reverseRecOn with
  | nil => rfl
  | append_singleton times now ih =>
    rw [poseAfter_append, Pose.toward]
    split
    · by_cases done : 1 ≤ g.progress now
      · rw [aim_of_done done]
        exact ih
      · rw [aim_of_early done]
        exact ih
    · exact ih

theorem poseAfter_arrived (hx : g.x.isFinite = true) (hy : g.y.isFinite = true) (done : 1 ≤ g.progress now) :
    g.poseAfter (times ++ [now]) = { g.start with x := g.x, y := g.y } := by
  rw [poseAfter_append, aim_of_done done, Pose.toward, Aim.isFinite, hx, hy]
  exact congrArg (Pose.mk g.x g.y) (g.direction_poseAfter times)

theorem poseAfter_nowhere (h : ¬(g.x.isFinite = true ∧ g.y.isFinite = true)) (times : List Nat) :
    g.poseAfter times = g.start := by
  induction times using List.reverseRecOn with
  | nil => rfl
  | append_singleton times now ih => rw [poseAfter_append, Pose.toward, if_neg fun haim => h (isFinite_aim haim), ih]

end Glide

/-! ### Shares -/

namespace Glide

/-- A glide takes some time, though no longer than blocks ask for. -/
structure Lasts (g : Glide) : Prop where
  pos : 0 < g.total
  le : g.total ≤ twoPow 64 * nanosPerSecond

variable {g : Glide} {now now' : Nat}

namespace Lasts

theorem progress_mono (h : g.Lasts) (hle : now ≤ now') : g.progress now ≤ g.progress now' :=
  share_mono h.pos h.le (Nat.mul_le_mul_right _ (Nat.sub_le_sub_right hle _))

/-- After a millisecond the figure is on its way. -/
theorem progress_pos (h : g.Lasts) (later : g.began < now) : 0 < g.progress now :=
  share_pos h.pos h.le (by omega)

theorem progress_lt_one (h : g.Lasts) (early : ¬1 ≤ g.progress now) : g.progress now < 1 :=
  share_lt_one h.pos h.le _ early

/-- There is time left until all of the way is done. -/
theorem lt_total (h : g.Lasts) (early : ¬1 ≤ g.progress now) : (now - g.began) * 1000000 < g.total := by
  by_contra hge
  exact early (one_le_share h.pos h.le (Nat.not_lt.mp hge))

end Lasts

/-- The time of the last of some moves, or of the beginning. -/
def latest (g : Glide) (times : List Nat) : Nat := times.getLastD g.began

/-- Moves that are a frame apart at least, from the beginning on. -/
def Apart (g : Glide) (frame : Nat) (times : List Nat) : Prop := (g.began :: times).IsChain fun a b => a + frame ≤ b

variable {frame : Nat} {times : List Nat}

theorem latest_append (g : Glide) (times : List Nat) (now : Nat) : g.latest (times ++ [now]) = now := List.getLastD_concat

theorem apart_append_iff : g.Apart frame (times ++ [now]) ↔ g.Apart frame times ∧ g.latest times + frame ≤ now := by
  unfold Apart latest
  rw [← List.cons_append, List.isChain_append, List.getLast?_cons, List.getLastD_eq_getLast?]
  simp

namespace Apart

/-- So many frames have passed at least. -/
theorem length_le (h : g.Apart frame times) : g.began + times.length * frame ≤ g.latest times := by
  induction times using List.reverseRecOn with
  | nil =>
    rw [List.length_nil, Nat.zero_mul]
    exact Nat.le_refl _
  | append_singleton times now ih =>
    obtain ⟨before, hnow⟩ := apart_append_iff.mp h
    have hbefore := ih before
    rw [latest_append, List.length_append, List.length_singleton, Nat.add_mul, Nat.one_mul]
    omega

theorem le_latest (h : g.Apart frame times) : ∀ now ∈ times, now ≤ g.latest times := by
  induction times using List.reverseRecOn with
  | nil => nofun
  | append_singleton times last ih =>
    obtain ⟨before, hlast⟩ := apart_append_iff.mp h
    intro now hnow
    rw [latest_append]
    rcases List.mem_append.mp hnow with hnow | hnow
    · exact (ih before now hnow).trans ((Nat.le_add_right _ _).trans hlast)
    · exact (List.mem_singleton.mp hnow).le

/-- Early moves leave time for another frame. -/
theorem length_lt (h : g.Apart frame times) (lasts : g.Lasts) (early : ∀ now ∈ times, ¬1 ≤ g.progress now) :
    times.length * (frame * 1000000) < g.total := by
  rcases List.eq_nil_or_concat times with rfl | ⟨before, last, rfl⟩
  · rw [List.length_nil, Nat.zero_mul]
    exact lasts.pos
  · have hlast := lasts.lt_total (early last (by simp))
    have hlength := h.length_le
    rw [List.concat_eq_append, latest_append] at hlength
    calc (before.concat last).length * (frame * 1000000) = (before.concat last).length * frame * 1000000 := by ring
      _ ≤ (last - g.began) * 1000000 := Nat.mul_le_mul_right _ (by rw [List.concat_eq_append]; omega)
      _ < g.total := hlast

end Apart

/-- How many frames cover the time of a glide. -/
def frames (g : Glide) (frame : Nat) : Nat := (g.total + (frame * 1000000 - 1)) / (frame * 1000000)

theorem lt_frames {k : Nat} (hframe : 0 < frame) (h : k * (frame * 1000000) < g.total) : k < g.frames frame := by
  unfold frames
  rw [Nat.lt_iff_add_one_le, Nat.le_div_iff_mul_le (by omega), Nat.add_mul, Nat.one_mul]
  omega

end Glide

/-! ### Nobody interrupts -/

/-- What becomes of the world leaves a script and its figure alone, and time does not go back. -/
structure World.Respects (c : Caller) (w w' : World) : Prop where
  running : w.isCancelled c.script = false → w'.isCancelled c.script = false
  shape : w.scene.SameShape w'.scene
  pose : w'.scene.poseOf c.figure = w.scene.poseOf c.figure
  clock : w.clock ≤ w'.clock

/-- Others may do anything but interrupt the script or move its figure. -/
def Respecting (c : Caller) : Interference := fun _ w w' => World.Respects c w w'

/-- Moreover the clock does not pass the time of a move before it is made. -/
def Prompting (c : Caller) : Interference :=
  fun pause w w' => World.Respects c w w' ∧ ∀ g wakeAt, pause = .gliding g wakeAt → w'.clock ≤ wakeAt

namespace Moment

/-- A course with the times of the script's own pieces. -/
inductive Timed (others : Interference) (c : Caller) (start : Moment) : List Nat → Moment → Prop
  | refl : Timed others c start [] start
  | own {times : List Nat} {m : Moment} (course : Timed others c start times m) (left : ¬m.IsOver)
      (able : m.world.canResume c.script m.pause = true) : Timed others c start (times ++ [m.world.clock]) (m.piece c)
  | other {times : List Nat} {m : Moment} {w : World} (course : Timed others c start times m) (left : ¬m.IsOver)
      (acts : others m.pause m.world w) : Timed others c start times { m with world := w }

variable {others others' : Interference} {c : Caller} {start m m₁ m₂ : Moment} {times times' : List Nat}

namespace Timed

theorem mono (h : Timed others c start times m) (le : ∀ pause w w', others pause w w' → others' pause w w') :
    Timed others' c start times m := by
  induction h with
  | refl => exact .refl
  | own _ left able ih => exact .own ih left able
  | other _ left acts ih => exact .other ih left (le _ _ _ acts)

theorem trans (h : Timed others c m times m₁) (h' : Timed others c m₁ times' m₂) :
    Timed others c m (times ++ times') m₂ := by
  induction h' with
  | refl =>
    rw [List.append_nil]
    exact h
  | own _ left able ih =>
    rw [← List.append_assoc]
    exact .own ih left able
  | other _ left acts ih => exact .other ih left acts

theorem course (h : Timed others c start times m) : ∃ n, Course others c n start m := by
  induction h with
  | refl => exact ⟨0, .refl _⟩
  | own _ left able ih =>
    obtain ⟨n, hn⟩ := ih
    exact ⟨n + 1, hn.trans (.head (.own left able) (.refl _))⟩
  | other _ left acts ih =>
    obtain ⟨n, hn⟩ := ih
    exact ⟨n + 1, hn.trans (.head (.other left acts) (.refl _))⟩

end Timed

theorem Course.timed {n : Nat} (h : Course others c n start m) : ∃ times, Timed others c start times m := by
  induction h with
  | refl => exact ⟨[], .refl⟩
  | head next _ ih =>
    obtain ⟨times, rest⟩ := ih
    cases next with
    | own left able => exact ⟨_, (Timed.own .refl left able).trans rest⟩
    | other left acts => exact ⟨_, (Timed.other .refl left acts).trans rest⟩

end Moment

/-! ### On the way -/

theorem World.nextStep_head (w : World) (n : Nat) (aim : Aim) (next : List Frame) (g : Glide) :
    (w.head n aim).nextStep next g = .rest next (.gliding g (w.clock + w.frame)) := by
  unfold nextStep frame
  rw [clock_head, (w.sameShape_head n aim).config]

theorem World.continueGlide_of_done {w : World} {c : Caller} {next : List Frame} {g : Glide}
    (done : 1 ≤ g.progress w.clock) :
    w.continueGlide c next g = (w.head c.figure (.place g.x g.y), .go next) := by
  unfold continueGlide
  dsimp only
  rw [if_pos done]
  rfl

theorem World.continueGlide_of_early {w : World} {c : Caller} {next : List Frame} {g : Glide}
    (early : ¬1 ≤ g.progress w.clock) :
    w.continueGlide c next g =
      (w.head c.figure (.place (g.place (g.progress w.clock)).1 (g.place (g.progress w.clock)).2),
        .rest next (.gliding g (w.clock + w.frame))) := by
  unfold continueGlide
  dsimp only
  rw [if_neg early]
  generalize g.place (g.progress w.clock) = place
  exact congrArg (Prod.mk _) (w.nextStep_head c.figure (.place place.1 place.2) next g)

theorem piece_gliding {w : World} {c : Caller} {frames : List Frame} {g : Glide} {wakeAt : Nat}
    (running : w.isCancelled c.script = false) :
    piece c ⟨w, frames, .gliding g wakeAt⟩ = after (w.continueGlide c frames g) := by
  simp only [piece, World.piece, World.resume, running, Bool.false_eq_true, if_false]

/-- A script is on a glide, after its moves at some times. -/
structure Underway (c : Caller) (g : Glide) (frame : Nat) (times : List Nat) (m : Moment) : Prop where
  frames : m.frames = []
  pause : m.pause = .gliding g (g.latest times + frame)
  running : m.world.isCancelled c.script = false
  present : (m.world.scene.figure? c.figure).isSome = true
  rate : m.world.frame = frame
  pose : m.world.scene.poseOf c.figure = g.poseAfter times
  clock : g.latest times ≤ m.world.clock
  apart : g.Apart frame times
  early : ∀ now ∈ times, ¬1 ≤ g.progress now

/-- The last move is made, and the script goes on. -/
structure Landed (c : Caller) (g : Glide) (frame : Nat) (times : List Nat) (now : Nat) (m : Moment) : Prop where
  ended : m.IsOver
  pose : m.world.scene.poseOf c.figure = g.poseAfter (times ++ [now])
  apart : g.Apart frame (times ++ [now])
  early : ∀ now ∈ times, ¬1 ≤ g.progress now
  done : 1 ≤ g.progress now

namespace Underway

variable {c : Caller} {g : Glide} {frame : Nat} {times : List Nat} {m : Moment}

theorem left (h : Underway c g frame times m) : ¬m.IsOver := by
  rintro ⟨-, hpause⟩
  rw [h.pause] at hpause
  cases hpause

theorem canResume_iff (h : Underway c g frame times m) :
    m.world.canResume c.script m.pause = true ↔ g.latest times + frame ≤ m.world.clock := by
  rw [h.pause, World.canResume, h.running, Bool.or_false, decide_eq_true_iff]

theorem respected (h : Underway c g frame times m) {w : World} (respects : m.world.Respects c w) :
    Underway c g frame times { m with world := w } where
  frames := h.frames
  pause := h.pause
  running := respects.running h.running
  present := (respects.shape.isSome_figure? c.figure).trans h.present
  rate := (World.frame_of_sameShape respects.shape).trans h.rate
  pose := respects.pose.trans h.pose
  clock := h.clock.trans respects.clock
  apart := h.apart
  early := h.early

/-- What becomes of a glide at a move. -/
theorem piece_eq (h : Underway c g frame times m) : m.piece c = after (m.world.continueGlide c [] g) := by
  obtain ⟨w, frames, pause⟩ := m
  obtain rfl : frames = [] := h.frames
  obtain rfl : pause = _ := h.pause
  exact piece_gliding h.running

theorem piece_world (h : Underway c g frame times m) :
    (m.piece c).world = m.world.head c.figure (g.aim m.world.clock) := by
  rw [h.piece_eq, after, World.continueGlide_eq]

theorem land (h : Underway c g frame times m) (able : m.world.canResume c.script m.pause = true)
    (done : 1 ≤ g.progress m.world.clock) : Landed c g frame times m.world.clock (m.piece c) where
  ended := by
    rw [h.piece_eq, World.continueGlide_of_done done]
    exact ⟨rfl, rfl⟩
  pose := by
    rw [h.piece_world, Glide.poseAfter_append, ← h.pose]
    exact World.poseOf_head h.present _
  apart := Glide.apart_append_iff.mpr ⟨h.apart, h.canResume_iff.mp able⟩
  early := h.early
  done := done

theorem move (h : Underway c g frame times m) (able : m.world.canResume c.script m.pause = true)
    (early : ¬1 ≤ g.progress m.world.clock) : Underway c g frame (times ++ [m.world.clock]) (m.piece c) where
  frames := by
    rw [h.piece_eq, World.continueGlide_of_early early]
    rfl
  pause := by
    rw [h.piece_eq, World.continueGlide_of_early early, Glide.latest_append, ← h.rate]
    rfl
  running := by
    rw [h.piece_world, World.isCancelled_head]
    exact h.running
  present := by
    rw [h.piece_world, (m.world.sameShape_head _ _).isSome_figure?]
    exact h.present
  rate := by
    rw [h.piece_world, World.frame_of_sameShape (m.world.sameShape_head _ _)]
    exact h.rate
  pose := by
    rw [h.piece_world, Glide.poseAfter_append, ← h.pose]
    exact World.poseOf_head h.present _
  clock := by
    rw [h.piece_world, World.clock_head, Glide.latest_append]
  apart := Glide.apart_append_iff.mpr ⟨h.apart, h.canResume_iff.mp able⟩
  early := by
    intro now hnow
    rcases List.mem_append.mp hnow with hnow | hnow
    · exact h.early now hnow
    · rwa [List.mem_singleton.mp hnow]

theorem length_lt (h : Underway c g frame times m) (lasts : g.Lasts) (hframe : 0 < frame) :
    times.length < g.frames frame := Glide.lt_frames hframe (h.apart.length_lt lasts h.early)

/-- The next move takes the figure some of the way but not all of it, or to the end. -/
theorem piece_cases (h : Underway c g frame times m) (lasts : g.Lasts) (hframe : 0 < frame)
    (able : m.world.canResume c.script m.pause = true) :
    0 < g.progress m.world.clock ∧ g.progress m.world.clock < 1 ∧
        m.piece c = ⟨m.world.moveTo c.figure (g.place (g.progress m.world.clock)), [],
          .gliding g (m.world.clock + frame)⟩ ∨
      1 ≤ g.progress m.world.clock ∧ m.piece c = ⟨m.world.moveTo c.figure (g.x, g.y), [], .ready⟩ := by
  rw [h.piece_eq]
  by_cases done : 1 ≤ g.progress m.world.clock
  · refine .inr ⟨done, ?_⟩
    rw [World.continueGlide_of_done done]
    rfl
  · have hlater : g.began < m.world.clock := by
      have hlatest := h.canResume_iff.mp able
      have hlength := h.apart.length_le
      omega
    refine .inl ⟨lasts.progress_pos hlater, lasts.progress_lt_one done, ?_⟩
    rw [World.continueGlide_of_early done, ← h.rate]
    rfl

end Underway

theorem Landed.length_lt {c : Caller} {g : Glide} {frame now : Nat} {times : List Nat} {m : Moment}
    (h : Landed c g frame times now m) (lasts : g.Lasts) (hframe : 0 < frame) : times.length < g.frames frame :=
  Glide.lt_frames hframe ((Glide.apart_append_iff.mp h.apart).1.length_lt lasts h.early)

/-- A script that nobody interrupts is on its glide until the last move. -/
theorem Moment.Timed.underway_or {c : Caller} {g : Glide} {frame : Nat} {start m : Moment} {times : List Nat}
    (h : Timed (Respecting c) c start times m) (begun : Underway c g frame [] start) :
    Underway c g frame times m ∨ ∃ before now, times = before ++ [now] ∧ Landed c g frame before now m := by
  induction h with
  | refl => exact .inl begun
  | own _ left able ih =>
    rcases ih with way | ⟨before, now, -, landed⟩
    · rename_i m' _
      by_cases done : 1 ≤ g.progress m'.world.clock
      · exact .inr ⟨_, _, rfl, way.land able done⟩
      · exact .inl (way.move able done)
    · exact absurd landed.ended left
  | other _ left acts ih =>
    rcases ih with way | ⟨before, now, -, landed⟩
    · exact .inl (way.respected acts)
    · exact absurd landed.ended left

theorem Moment.Timed.underway {c : Caller} {g : Glide} {frame : Nat} {start m : Moment} {times : List Nat}
    (h : Timed (Respecting c) c start times m) (begun : Underway c g frame [] start) (left : ¬m.IsOver) :
    Underway c g frame times m := by
  rcases h.underway_or begun with way | ⟨_, _, -, landed⟩
  · exact way
  · exact absurd landed.ended left

/-- A script that is on a glide has moved in each frame, and its next frame has not passed. -/
theorem Moment.Timed.prompt {c : Caller} {g : Glide} {frame : Nat} {start m : Moment} {times : List Nat}
    (h : Timed (Prompting c) c start times m) (begun : Underway c g frame [] start)
    (first : start.world.clock ≤ g.began + frame) (left : ¬m.IsOver) :
    g.latest times = g.began + times.length * frame ∧ m.world.clock ≤ g.latest times + frame := by
  induction h with
  | refl =>
    rw [List.length_nil, Nat.zero_mul]
    exact ⟨rfl, first⟩
  | @own times m' course left' able ih =>
    obtain ⟨hlatest, hclock⟩ := ih left'
    have way : Underway c g frame times m' := (course.mono fun _ _ _ => And.left).underway begun left'
    have hable := way.canResume_iff.mp able
    rw [Glide.latest_append, way.piece_world, World.clock_head, List.length_append, List.length_singleton, Nat.add_mul,
      Nat.one_mul]
    omega
  | @other times m' w course left' acts ih =>
    obtain ⟨hlatest, -⟩ := ih left'
    have way : Underway c g frame times m' := (course.mono fun _ _ _ => And.left).underway begun left'
    exact ⟨hlatest, acts.2 g _ way.pause⟩

/-! ### The glide of a block -/

/-- The glide that a block asks for, and the world in which its operands are evaluated. -/
def World.glideOf (w : World) (c : Caller) (seconds x y : Operand Nat) : Glide × World :=
  let (seconds, u) := w.evaluate c.figure seconds.number
  let (x, u) := u.evaluate c.figure x.number
  let (y, u) := u.evaluate c.figure y.number
  ({ start := w.scene.poseOf c.figure, x, y, total := glideLength seconds, began := w.clock }, u)

section
variable {c : Caller} {w : World} {seconds x y : Operand Nat} {times : List Nat} {m : Moment}

theorem glideOf_lasts (h : (w.glideOf c seconds x y).1.total ≠ 0) : (w.glideOf c seconds x y).1.Lasts where
  pos := Nat.pos_of_ne_zero h
  le := glideLength_le _

/-- A script has come to a glide and evaluated its operands. -/
structure World.Departs (w : World) (c : Caller) (g : Glide) (u : World) : Prop where
  scene : u.scene = w.scene
  clock : u.clock = w.clock
  signals : u.signals = w.signals
  start : w.scene.poseOf c.figure = g.start
  began : g.began = w.clock

theorem World.departs_glideOf (w : World) (c : Caller) (seconds x y : Operand Nat) :
    w.Departs c (w.glideOf c seconds x y).1 (w.glideOf c seconds x y).2 := ⟨rfl, rfl, rfl, rfl, rfl⟩

namespace World.Departs

variable {g : Glide} {u : World}

theorem pose (h : w.Departs c g u) : u.scene.poseOf c.figure = g.start := by
  rw [h.scene]
  exact h.start

/-- A move to the end of the way, without any before it. -/
theorem arrived (h : w.Departs c g u) (present : (w.scene.figure? c.figure).isSome = true) (hx : g.x.isFinite = true)
    (hy : g.y.isFinite = true) :
    (u.head c.figure (.place g.x g.y)).scene.poseOf c.figure = { g.start with x := g.x, y := g.y } := by
  rw [poseOf_head (by rwa [h.scene]), h.pose, Pose.toward, Aim.isFinite, hx, hy]
  rfl

end World.Departs

theorem World.begin_glide (next : List Frame) : w.begin c next (.glide seconds x y) =
    let (g, u) := w.glideOf c seconds x y
    if g.total = 0 then (u.head c.figure (.place g.x g.y), .go next)
    else (u, .rest next (.gliding g (w.clock + w.frame))) := by
  unfold begin glide glideOf
  rfl

/-- A glide that takes no time is over at once. -/
theorem begun_glide_of_eq_zero (h : (w.glideOf c seconds x y).1.total = 0) : begun c (.glide seconds x y) w =
    ⟨(w.glideOf c seconds x y).2.head c.figure (.place (w.glideOf c seconds x y).1.x (w.glideOf c seconds x y).1.y),
      [], .ready⟩ := by
  rw [begun, World.begin_glide]
  dsimp only
  rw [if_pos h]
  rfl

theorem begun_glide_of_ne_zero (h : (w.glideOf c seconds x y).1.total ≠ 0) : begun c (.glide seconds x y) w =
    ⟨(w.glideOf c seconds x y).2, [], .gliding (w.glideOf c seconds x y).1 (w.clock + w.frame)⟩ := by
  rw [begun, World.begin_glide]
  dsimp only
  rw [if_neg h]
  rfl

theorem underway_begun (running : w.isCancelled c.script = false) (present : (w.scene.figure? c.figure).isSome = true)
    (h : (w.glideOf c seconds x y).1.total ≠ 0) :
    Underway c (w.glideOf c seconds x y).1 w.frame [] (begun c (.glide seconds x y) w) := by
  rw [begun_glide_of_ne_zero h]
  exact {
    frames := rfl
    pause := rfl
    running := running
    present := present
    rate := rfl
    pose := rfl
    clock := Nat.le_refl _
    apart := List.isChain_singleton _
    early := nofun }

end

/-! ### Nobody interrupts a glide -/

/-- What becomes of a glide of a script that nobody interrupts, from where its block left the script. Its operands were
evaluated when the world was `u`. -/
structure Glide.Undisturbed (g : Glide) (c : Caller) (u : World) (start : Moment) : Prop where
  timed : ∀ m, (∃ n, Course (Respecting c) c n start m) ↔ ∃ times, Timed (Respecting c) c start times m
  /-- The script goes on as soon as a frame has passed. -/
  goes : ∀ times m, Timed (Respecting c) c start times m → ¬m.IsOver →
    (m.world.canResume c.script m.pause = true ↔ g.latest times + u.frame ≤ m.world.clock)
  /-- Each time it moves its figure by a share of the way, which is never less than before: by some of it but not all,
  and at last to the end. -/
  moves : ∀ times m, Timed (Respecting c) c start times m → ¬m.IsOver → m.world.canResume c.script m.pause = true →
    (∀ now ∈ times, g.progress now ≤ g.progress m.world.clock) ∧
      (0 < g.progress m.world.clock ∧ g.progress m.world.clock < 1 ∧
          m.piece c = ⟨m.world.moveTo c.figure (g.place (g.progress m.world.clock)), [],
            .gliding g (m.world.clock + u.frame)⟩ ∨
        1 ≤ g.progress m.world.clock ∧ m.piece c = ⟨m.world.moveTo c.figure (g.x, g.y), [], .ready⟩)
  /-- There are no more moves than the time holds frames. -/
  ends : ∀ times m, Timed (Respecting c) c start times m →
    times.length ≤ g.frames u.frame ∧ (times.length = g.frames u.frame → m.IsOver)
  /-- If the clock does not pass the time of a move before it is made, it does not pass all frames before the glide is over. -/
  inTime : ∀ times m, Timed (Prompting c) c start times m → ¬m.IsOver →
    m.world.clock ≤ g.began + g.frames u.frame * u.frame
  arrives : g.x.isFinite = true → g.y.isFinite = true → ∀ times m, Timed (Respecting c) c start times m → m.IsOver →
    m.world.scene.poseOf c.figure = { g.start with x := g.x, y := g.y }
  /-- Without a place to go to nothing happens, and nobody is told of a move. -/
  stays : ¬(g.x.isFinite = true ∧ g.y.isFinite = true) → start.world = u ∧
    ∀ times m, Timed (Respecting c) c start times m →
      m.world.scene.poseOf c.figure = g.start ∧ (¬m.IsOver → (m.piece c).world = m.world)

section
variable {c : Caller} {w : World} {seconds x y : Operand Nat}

/-- A glide that takes no time. -/
theorem World.Departs.undisturbed {g : Glide} {u : World} (departs : w.Departs c g u)
    (present : (w.scene.figure? c.figure).isSome = true) :
    g.Undisturbed c u ⟨u.head c.figure (.place g.x g.y), [], .ready⟩ := by
  have still {others : Interference} {times : List Nat} {m : Moment}
      (course : Timed others c ⟨u.head c.figure (.place g.x g.y), [], .ready⟩ times m) :
      times = [] ∧ m = ⟨u.head c.figure (.place g.x g.y), [], .ready⟩ := by
    induction course with
    | refl => exact ⟨rfl, rfl⟩
    | own _ left _ ih => exact absurd (ih.2 ▸ ⟨rfl, rfl⟩) left
    | other _ left _ ih => exact absurd (ih.2 ▸ ⟨rfl, rfl⟩) left
  have ended {others : Interference} {times : List Nat} {m : Moment}
      (course : Timed others c ⟨u.head c.figure (.place g.x g.y), [], .ready⟩ times m) : m.IsOver :=
    (still course).2 ▸ ⟨rfl, rfl⟩
  refine ⟨fun m => ⟨fun ⟨n, hn⟩ => hn.timed, fun ⟨times, htimes⟩ => htimes.course⟩, ?_, ?_, ?_, ?_, ?_, ?_⟩
  · exact fun times m course left => absurd (ended course) left
  · exact fun times m course left => absurd (ended course) left
  · intro times m course
    rw [(still course).1]
    exact ⟨Nat.zero_le _, fun _ => ended course⟩
  · exact fun times m course left => absurd (ended course) left
  · intro hx hy times m course _
    rw [(still course).2]
    exact departs.arrived present hx hy
  · intro nowhere
    have hstayed : u.head c.figure (.place g.x g.y) = u := World.head_place_nowhere nowhere
    refine ⟨hstayed, fun times m course => ⟨?_, fun left => ?_⟩⟩
    · rw [(still course).2, hstayed]
      exact departs.pose
    · exact absurd (ended course) left

theorem undisturbed_of_ne_zero (rate : w.scene.config.frameRate ≤ nanosPerSecond)
    (running : w.isCancelled c.script = false) (present : (w.scene.figure? c.figure).isSome = true)
    (h : (w.glideOf c seconds x y).1.total ≠ 0) :
    (w.glideOf c seconds x y).1.Undisturbed c (w.glideOf c seconds x y).2 (begun c (.glide seconds x y) w) := by
  have begins := underway_begun running present h
  have lasts := glideOf_lasts h
  have hframe := World.frame_pos rate
  have hworld : (begun c (.glide seconds x y) w).world = (w.glideOf c seconds x y).2 := by rw [begun_glide_of_ne_zero h]
  have hrate : (w.glideOf c seconds x y).2.frame = w.frame := rfl
  have hclock : (w.glideOf c seconds x y).2.clock = (w.glideOf c seconds x y).1.began := rfl
  rw [← hrate] at begins hframe
  generalize begun c (.glide seconds x y) w = start at begins hworld ⊢
  generalize (w.glideOf c seconds x y).1 = g, (w.glideOf c seconds x y).2 = u at begins lasts hframe hworld hclock ⊢
  refine ⟨fun m => ⟨fun ⟨n, hn⟩ => hn.timed, fun ⟨times, htimes⟩ => htimes.course⟩, ?_, ?_, ?_, ?_, ?_, ?_⟩
  · exact fun times m course left => (course.underway begins left).canResume_iff
  · intro times m course left able
    have way := course.underway begins left
    exact ⟨fun now hnow => lasts.progress_mono ((way.apart.le_latest now hnow).trans way.clock),
      way.piece_cases lasts hframe able⟩
  · intro times m course
    rcases course.underway_or begins with way | ⟨before, now, rfl, landed⟩
    · have hlt := way.length_lt lasts hframe
      exact ⟨hlt.le, fun heq => absurd heq hlt.ne⟩
    · rw [List.length_append]
      exact ⟨landed.length_lt lasts hframe, fun _ => landed.ended⟩
  · intro times m course left
    have hfirst : start.world.clock ≤ g.began + u.frame := by
      rw [hworld, hclock]
      exact Nat.le_add_right _ _
    obtain ⟨hlatest, hnext⟩ := course.prompt begins hfirst left
    have hlt := ((course.mono fun _ _ _ => And.left).underway begins left).length_lt lasts hframe
    have hframes := Nat.mul_le_mul_right u.frame (Nat.succ_le_of_lt hlt)
    rw [Nat.succ_mul] at hframes
    omega
  · intro hx hy times m course ended
    rcases course.underway_or begins with way | ⟨before, now, rfl, landed⟩
    · exact absurd ended way.left
    · rw [landed.pose, Glide.poseAfter_arrived hx hy landed.done]
  · intro nowhere
    refine ⟨hworld, fun times m course => ⟨?_, fun left => ?_⟩⟩
    · rcases course.underway_or begins with way | ⟨before, now, rfl, landed⟩
      · rw [way.pose, Glide.poseAfter_nowhere nowhere]
      · rw [landed.pose, Glide.poseAfter_nowhere nowhere]
    · rw [(course.underway begins left).piece_world]
      exact World.head_nowhere fun haim => nowhere (Glide.isFinite_aim haim)

theorem undisturbed (rate : w.scene.config.frameRate ≤ nanosPerSecond) (running : w.isCancelled c.script = false)
    (present : (w.scene.figure? c.figure).isSome = true) :
    (w.glideOf c seconds x y).1.Undisturbed c (w.glideOf c seconds x y).2 (begun c (.glide seconds x y) w) := by
  by_cases h : (w.glideOf c seconds x y).1.total = 0
  · rw [begun_glide_of_eq_zero h]
    exact (w.departs_glideOf c seconds x y).undisturbed present
  · exact undisturbed_of_ne_zero rate running present h

end

/-! ### Glides in bodies -/

namespace World.Respects

variable {c : Caller} {w w' w'' : World}

theorem refl (w : World) : w.Respects c w := ⟨fun running => running, .refl _, rfl, Nat.le_refl _⟩

theorem trans (h : w.Respects c w') (h' : w'.Respects c w'') : w.Respects c w'' where
  running running := h'.running (h.running running)
  shape := h.shape.trans h'.shape
  pose := h'.pose.trans h.pose
  clock := h.clock.trans h'.clock

theorem of_meanwhile (h : Meanwhile (Respecting c) w w') : w.Respects c w' := by
  induction h with
  | refl => exact .refl w
  | tail _ acts ih => exact ih.trans acts

end World.Respects

/-- Where a script can be that has come to a glide: it is about to begin it, on it, or behind it. -/
inductive GlideStage (c : Caller) (seconds x y : Operand Nat) (rest : List (Action Nat)) (below : List Frame) (w : World) :
    Moment → Prop
  | before {v : World} (respects : w.Respects c v) :
      GlideStage c seconds x y rest below w ⟨v, .blocks (.glide seconds x y :: rest) :: below, .ready⟩
  | during {v : World} {n : Nat} {m : Moment} (respects : w.Respects c v)
      (glides : Course (Respecting c) c n (begun c (.glide seconds x y) v) m) :
      GlideStage c seconds x y rest below w (m.above (.blocks rest :: below))
  | behind {v u : World} {n k : Nat} {m : Moment} (respects : w.Respects c v)
      (glides : Course (Respecting c) c n (begun c (.glide seconds x y) v) ⟨u, [], .ready⟩)
      (goesOn : Course (Respecting c) c k ⟨u, .blocks rest :: below, .ready⟩ m) : GlideStage c seconds x y rest below w m

/-- A block begins above the rest of its body and what lies below. -/
theorem piece_block_above {c : Caller} {w : World} {a : Action Nat} {rest : List (Action Nat)} {below : List Frame}
    (running : w.isCancelled c.script = false) :
    piece c ⟨w, .blocks (a :: rest) :: below, .ready⟩ = (begun c a w).above (.blocks rest :: below) := by
  have left : ¬(⟨w, [.blocks (a :: rest)], .ready⟩ : Moment).IsOver := fun hover => List.cons_ne_nil _ _ hover.1
  have habove : piece c ⟨w, .blocks (a :: rest) :: below, .ready⟩ =
      (piece c ⟨w, [.blocks (a :: rest)], .ready⟩).above below := piece_above left
  rw [habove, piece_block running]
  simp only [Moment.above, List.append_assoc, List.singleton_append]

/-- A script that nobody interrupts comes to its glide, goes through it, and then goes on behind it. -/
theorem Moment.Course.glideStage {c : Caller} {seconds x y : Operand Nat} {rest : List (Action Nat)} {below : List Frame}
    {w : World} {n : Nat} {m : Moment} (running : w.isCancelled c.script = false)
    (h : Course (Respecting c) c n ⟨w, .blocks (.glide seconds x y :: rest) :: below, .ready⟩ m) :
    GlideStage c seconds x y rest below w m := by
  obtain ⟨v, hv, rfl | ⟨k, -, -, course⟩⟩ := h.of_ready
  · exact .before (.of_meanwhile hv)
  · have respects : w.Respects c v := .of_meanwhile hv
    rw [piece_block_above (respects.running running)] at course
    rcases course.split with ⟨m', rfl, glides⟩ | ⟨_, _, u, -, glides, goesOn⟩
    · exact .during respects glides
    · exact .behind respects glides goesOn

end BlockScript
