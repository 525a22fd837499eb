import BlockScript.Proofs.Script.Pieces

/-!
Executing blocks and bodies. A script works on the top of its stack and does not look at what lies below, so what it is
to execute a block, a body or a loop can be told by a stack that holds nothing else. The pieces of the script are told
one by one; between any two of them, and as long as it pauses, the other scripts and the clock may do to the world what
they can.
-/
namespace BlockScript

/-! ### Stacks -/

/-- The same progress with more to do below. -/
def Progress.above (below : List Frame) : Progress → Progress
  | .go frames => .go (frames ++ below)
  | .rest frames pause => .rest (frames ++ below) pause
  | .done => .done

/-- The same outcome with more to do below. -/
def Progress.onto (below : List Frame) (r : World × Progress) : World × Progress := (r.1, r.2.above below)

open Progress (onto)

namespace World

variable (w : World) (c : Caller) (next below : List Frame)

theorem sleep_append (span : Nat) : w.sleep (next ++ below) span = (w.sleep next span).above below := by
  unfold sleep
  split <;> rfl

theorem wait_append (seconds : Number) : w.wait c (next ++ below) seconds = onto below (w.wait c next seconds) := by
  unfold wait
  split
  · rfl
  · split
    · rw [sleep_append]
      rfl
    · rfl

theorem waitUntil_append (p : Predicate Nat) : w.waitUntil c (next ++ below) p = onto below (w.waitUntil c next p) := by
  unfold waitUntil
  dsimp only
  split
  · rfl
  · split <;> rfl

theorem glide_append (seconds x y : Number) :
    w.glide c (next ++ below) seconds x y = onto below (w.glide c next seconds x y) := by
  unfold glide
  dsimp only
  split <;> rfl

theorem continueGlide_append (g : Glide) : w.continueGlide c (next ++ below) g = onto below (w.continueGlide c next g) := by
  unfold continueGlide
  dsimp only
  split <;> rfl

theorem playUntilDone_append (sound : Operand Nat) :
    w.playUntilDone c (next ++ below) sound = onto below (w.playUntilDone c next sound) := by
  unfold playUntilDone
  split
  · rw [sleep_append]
    rfl
  · rfl

theorem begin_append (a : Action Nat) : w.begin c (next ++ below) a = onto below (w.begin c next a) := by
  cases a with
  | playUntilDone sound => exact w.playUntilDone_append c next below sound
  | wait seconds => exact wait_append _ c next below _
  | waitUntil p => exact w.waitUntil_append c next below p
  | glide seconds x y => exact glide_append _ c next below _ _ _
  | _ => rfl

theorem checkLoop_append (loop : Loop) : w.checkLoop c (next ++ below) loop = onto below (w.checkLoop c next loop) := by
  unfold checkLoop
  cases loop with
  | times left body =>
    cases left with
    | zero => rfl
    | succ left =>
      dsimp only
      split <;> rfl
  | forever body =>
    dsimp only
    split <;> rfl
  | repeatUntil condition body =>
    dsimp only
    split
    · rfl
    · split <;> rfl

/-- A step works on the top of the stack. -/
theorem step_append {top : List Frame} (h : top ≠ []) : w.step c (top ++ below) = onto below (w.step c top) := by
  cases top with
  | nil => exact absurd rfl h
  | cons frame next =>
    rw [List.cons_append]
    cases frame with
    | blocks rest =>
      cases rest with
      | nil => rfl
      | cons a rest =>
        simp only [step]
        split
        · rfl
        · exact w.begin_append c (.blocks rest :: next) below a
    | check loop => exact w.checkLoop_append c next below loop
    | rounded loop => rfl

theorem retest_append (p : Predicate Nat) (links : Subscription Channel) (tries : Nat) :
    w.retest c (next ++ below) p links tries = onto below (w.retest c next p links tries) := by
  induction tries generalizing w with
  | zero => rfl
  | succ tries ih =>
    simp only [retest]
    split
    · rfl
    · exact ih _

theorem resume_append (pause : Pause) : w.resume c (next ++ below) pause = onto below (w.resume c next pause) := by
  cases pause with
  | gliding g wakeAt =>
    simp only [resume]
    split
    · rfl
    · exact w.continueGlide_append c next below g
  | watching p links =>
    simp only [resume]
    split
    · rfl
    · exact retest_append _ c next below p links _
  | _ => rfl

end World

/-! ### Courses -/

/-- The world, and where a script stands in it. -/
structure Moment where
  world : World
  frames : List Frame
  pause : Pause

/-- What others and the clock may do to the world while a script pauses. -/
abbrev Interference := Pause → World → World → Prop

namespace Moment

/-- Nothing is left to do. -/
def IsOver (m : Moment) : Prop := m.frames = [] ∧ m.pause = .ready

/-- Where an outcome leaves the script. -/
def after (r : World × Progress) : Moment := ⟨r.1, r.2.frames, r.2.pause⟩

/-- The next piece of the script. -/
def piece (c : Caller) (m : Moment) : Moment := after (m.world.piece ⟨c, m.frames, m.pause, []⟩)

/-- The same moment with more to do below. -/
def above (below : List Frame) (m : Moment) : Moment := { m with frames := m.frames ++ below }

/-- What happens next to a script that is not over: a piece of its own, or something else. -/
inductive Next (others : Interference) (c : Caller) (m : Moment) : Moment → Prop
  | own (left : ¬m.IsOver) (able : m.world.canResume c.script m.pause = true) : Next others c m (m.piece c)
  | other {w : World} (left : ¬m.IsOver) (acts : others m.pause m.world w) : Next others c m { m with world := w }

/-- What happens in so many steps. -/
inductive Course (others : Interference) (c : Caller) : Nat → Moment → Moment → Prop
  | refl (m : Moment) : Course others c 0 m m
  | head {n : Nat} {m m₁ m₂ : Moment} (next : m.Next others c m₁) (rest : Course others c n m₁ m₂) :
      Course others c (n + 1) m m₂

variable {others : Interference} {c : Caller} {m m₁ m₂ : Moment} {below : List Frame} {n k : Nat}

theorem isOver_iff : m.IsOver ↔ m = ⟨m.world, [], .ready⟩ := by
  obtain ⟨w, frames, pause⟩ := m
  simp [IsOver]

theorem after_onto {r : World × Progress} (goes : r.2 ≠ .done) : after (onto below r) = (after r).above below := by
  obtain ⟨w, progress⟩ := r
  cases progress with
  | done => exact absurd rfl goes
  | _ => rfl

theorem not_isOver_above (h : ¬m.IsOver) : ¬(m.above below).IsOver := by
  rintro ⟨hframes, hpause⟩
  exact h ⟨(List.append_eq_nil_iff.mp hframes).1, hpause⟩

/-- A piece of a script that is not over works above what lies below. -/
theorem piece_above (h : ¬m.IsOver) : (m.above below).piece c = (m.piece c).above below := by
  have hpiece : (m.above below).world.piece ⟨c, (m.above below).frames, (m.above below).pause, []⟩ =
      onto below (m.world.piece ⟨c, m.frames, m.pause, []⟩) := by
    by_cases hpause : m.pause = .ready
    · have hframes : m.frames ≠ [] := fun hframes => h ⟨hframes, hpause⟩
      simp only [above, World.piece, hpause]
      exact m.world.step_append c below hframes
    · simp only [above, World.piece]
      exact m.world.resume_append c m.frames below m.pause
  have hgoes : (m.world.piece ⟨c, m.frames, m.pause, []⟩).2 ≠ .done := by
    intro hdone
    obtain ⟨hframes, hpause, -⟩ := (m.world.piece_spec ⟨c, m.frames, m.pause, []⟩).of_done hdone
    exact h ⟨hframes, hpause⟩
  rw [piece, hpiece]
  exact after_onto hgoes

theorem Next.above (h : m.Next others c m₁) (below : List Frame) : (m.above below).Next others c (m₁.above below) := by
  cases h with
  | own left able =>
    rw [← piece_above left]
    exact .own (not_isOver_above left) able
  | other left acts => exact .other (not_isOver_above left) acts

theorem Next.of_above (h : (m.above below).Next others c m₂) (left : ¬m.IsOver) :
    ∃ m₁, m₂ = m₁.above below ∧ m.Next others c m₁ := by
  cases h with
  | own _ able => exact ⟨m.piece c, piece_above left, .own left able⟩
  | @other w _ acts => exact ⟨{ m with world := w }, rfl, .other left acts⟩

theorem Next.not_isOver (h : m.Next others c m₁) : ¬m.IsOver := by
  cases h <;> assumption

namespace Course

theorem trans (h : Course others c n m m₁) (h' : Course others c k m₁ m₂) : Course others c (n + k) m m₂ := by
  induction h with
  | refl m => rwa [Nat.zero_add]
  | head next _ ih =>
    rw [Nat.add_right_comm]
    exact .head next (ih h')

theorem above (h : Course others c n m m₁) (below : List Frame) : Course others c n (m.above below) (m₁.above below) := by
  induction h with
  | refl m => exact .refl _
  | head next _ ih => exact .head (next.above below) ih

/-- What is over stays as it is. -/
theorem of_isOver (h : Course others c n m m₁) (hover : m.IsOver) : m₁ = m := by
  cases h with
  | refl m => rfl
  | head next => exact absurd hover next.not_isOver

/-- A course above some frames is a course of its own, or it comes to an end and goes on with those frames. -/
theorem split (h : Course others c n (m.above below) m₂) :
    (∃ m₁, m₂ = m₁.above below ∧ Course others c n m m₁) ∨
      ∃ k l v, k + l = n ∧ Course others c k m ⟨v, [], .ready⟩ ∧ Course others c l ⟨v, below, .ready⟩ m₂ := by
  induction n generalizing m with
  | zero =>
    cases h
    exact .inl ⟨m, rfl, .refl m⟩
  | succ n ih =>
    by_cases hover : m.IsOver
    · rw [isOver_iff.mp hover] at h ⊢
      exact .inr ⟨0, n + 1, m.world, Nat.zero_add _, .refl _, h⟩
    · cases h with
      | head next rest =>
        obtain ⟨m₁, rfl, hnext⟩ := next.of_above hover
        rcases ih rest with ⟨m₃, rfl, hm⟩ | ⟨k, l, v, rfl, hm, hv⟩
        · exact .inl ⟨m₃, rfl, .head hnext hm⟩
        · exact .inr ⟨k + 1, l, v, Nat.add_right_comm _ _ _, .head hnext hm, hv⟩

/-- A script that lets others run stays where it is for a while, and then does a piece. -/
theorem of_ready {w : World} {frames : List Frame} (h : Course others c n ⟨w, frames, .ready⟩ m₂) :
    ∃ v, Relation.ReflTransGen (others .ready) w v ∧ (m₂ = ⟨v, frames, .ready⟩ ∨
      ∃ k < n, frames ≠ [] ∧ Course others c k (piece c ⟨v, frames, .ready⟩) m₂) := by
  induction n generalizing w with
  | zero =>
    cases h
    exact ⟨w, .refl, .inl rfl⟩
  | succ n ih =>
    cases h with
    | head next rest =>
      cases next with
      | own left _ => exact ⟨w, .refl, .inr ⟨n, Nat.lt_succ_self n, fun hnil => left ⟨hnil, rfl⟩, rest⟩⟩
      | other left acts =>
        obtain ⟨v, hv, hm | ⟨k, hk, hframes, hrest⟩⟩ := ih rest
        · exact ⟨v, .head acts hv, .inl hm⟩
        · exact ⟨v, .head acts hv, .inr ⟨k, Nat.lt_succ_of_lt hk, hframes, hrest⟩⟩

theorem exists_ready {w v : World} {frames : List Frame} (h : Relation.ReflTransGen (others .ready) w v)
    (hframes : frames ≠ []) : ∃ n, Course others c n ⟨w, frames, .ready⟩ ⟨v, frames, .ready⟩ := by
  induction h using Relation.ReflTransGen.head_induction_on with
  | refl => exact ⟨0, .refl _⟩
  | head acts _ ih =>
    obtain ⟨n, hn⟩ := ih
    exact ⟨n + 1, .head (.other (fun hover => hframes hover.1) acts) hn⟩

theorem head_ready {w : World} {frames : List Frame} (hframes : frames ≠ [])
    (h : Course others c n (piece c ⟨w, frames, .ready⟩) m₂) : Course others c (n + 1) ⟨w, frames, .ready⟩ m₂ :=
  .head (.own (fun hover => hframes hover.1) rfl) h

end Course

/-! ### Executing -/

/-- The script does what is left to do and comes to its end in a world. -/
def Ends (others : Interference) (c : Caller) (m : Moment) (w : World) : Prop :=
  ∃ n, Course others c n m ⟨w, [], .ready⟩

end Moment

open Moment

section
variable (others : Interference) (c : Caller)

/-- Doing what is on a stack leads from one world to another. -/
def Executes (frames : List Frame) (w w' : World) : Prop := Ends others c ⟨w, frames, .ready⟩ w'

/-- Where a block leaves the script when it begins, if there is nothing else to do. -/
def begun (a : Action Nat) (w : World) : Moment := after (w.begin c [] a)

/-- A block that begins in one world ends in another. -/
def Performs (a : Action Nat) (w w' : World) : Prop := Ends others c (begun c a w) w'

/-- What becomes of the world while a script lets others run. -/
def Meanwhile : World → World → Prop := Relation.ReflTransGen (others .ready)

end

section
variable {others : Interference} {c : Caller} {m : Moment} {w w' : World} {top below frames : List Frame}

theorem Moment.ends_above_iff : Ends others c (m.above below) w' ↔ ∃ v, Ends others c m v ∧ Executes others c below v w' := by
  constructor
  · rintro ⟨n, h⟩
    rcases h.split with ⟨m₁, hm₁, hm⟩ | ⟨k, l, v, -, hm, hv⟩
    · obtain ⟨hframes, hbelow⟩ := List.append_eq_nil_iff.mp (congrArg Moment.frames hm₁).symm
      have hm₁ : m₁ = ⟨w', [], .ready⟩ := by
        obtain ⟨u, frames, pause⟩ := m₁
        cases hframes
        cases hm₁
        rfl
      exact ⟨w', ⟨n, hm₁ ▸ hm⟩, 0, hbelow ▸ .refl _⟩
    · exact ⟨v, ⟨k, hm⟩, l, hv⟩
  · rintro ⟨v, ⟨k, hm⟩, l, hv⟩
    exact ⟨k + l, (hm.above below).trans hv⟩

theorem executes_nil : Executes others c [] w w' ↔ w' = w := by
  constructor
  · rintro ⟨n, h⟩
    exact congrArg Moment.world (h.of_isOver ⟨rfl, rfl⟩)
  · rintro rfl
    exact ⟨0, .refl _⟩

/-- A stack is done from the top. -/
theorem executes_append : Executes others c (top ++ below) w w' ↔
    ∃ v, Executes others c top w v ∧ Executes others c below v w' := ends_above_iff (m := ⟨w, top, .ready⟩)

/-- What is on a stack is done piece by piece. -/
theorem executes_iff (hframes : frames ≠ []) : Executes others c frames w w' ↔
    ∃ v, Meanwhile others w v ∧ Ends others c (piece c ⟨v, frames, .ready⟩) w' := by
  constructor
  · rintro ⟨n, h⟩
    obtain ⟨v, hv, hover | ⟨k, -, -, hrest⟩⟩ := h.of_ready
    · exact absurd (congrArg Moment.frames hover).symm hframes
    · exact ⟨v, hv, k, hrest⟩
  · rintro ⟨v, hv, k, hrest⟩
    obtain ⟨n, hn⟩ := Course.exists_ready (c := c) hv hframes
    exact ⟨_, hn.trans (.head_ready hframes hrest)⟩

theorem executes_blocks_nil : Executes others c [.blocks []] w w' ↔ Meanwhile others w w' := by
  have hpiece (v : World) : piece c ⟨v, [.blocks []], .ready⟩ = ⟨v, [], .ready⟩ := rfl
  rw [executes_iff (List.cons_ne_nil _ _)]
  constructor
  · rintro ⟨v, hv, hend⟩
    rw [executes_nil.mp hend]
    exact hv
  · exact fun h => ⟨w', h, executes_nil.mpr rfl⟩

/-- A block begins with the rest of its body below it. -/
theorem piece_block {a : Action Nat} {rest : List (Action Nat)} (running : w.isCancelled c.script = false) :
    piece c ⟨w, [.blocks (a :: rest)], .ready⟩ = (begun c a w).above [.blocks rest] := by
  have hstep : w.step c [.blocks (a :: rest)] = onto [.blocks rest] (w.begin c [] a) := by
    simp only [World.step, running, Bool.false_eq_true, if_false]
    exact w.begin_append c [] [.blocks rest] a
  have hgoes : (w.begin c [] a).2 ≠ .done := by
    intro hdone
    have hspec := w.step_piece c [.blocks (a :: rest)]
    rw [hstep] at hspec
    obtain ⟨hframes, -⟩ := hspec.of_done (congrArg (Progress.above [.blocks rest]) hdone)
    cases hframes
  exact (congrArg after hstep).trans (after_onto hgoes)

/-- A body is executed block by block. A block does not begin once the script is cancelled, and then none of those
behind it does. -/
theorem executes_blocks_cons {a : Action Nat} {rest : List (Action Nat)} : Executes others c [.blocks (a :: rest)] w w' ↔
    ∃ v, Meanwhile others w v ∧ (v.isCancelled c.script = true ∧ w' = v ∨
      v.isCancelled c.script = false ∧ ∃ u, Performs others c a v u ∧ Executes others c [.blocks rest] u w') := by
  rw [executes_iff (List.cons_ne_nil _ _)]
  refine exists_congr fun v => and_congr_right fun _ => ?_
  cases hcancelled : v.isCancelled c.script with
  | true =>
    have hpiece : piece c ⟨v, [.blocks (a :: rest)], .ready⟩ = ⟨v, [], .ready⟩ := by
      simp [piece, after, World.piece, World.step, hcancelled, Progress.frames, Progress.pause]
    have hend : Ends others c ⟨v, [], .ready⟩ w' ↔ w' = v := executes_nil
    simp [hpiece, hend]
  | false =>
    rw [piece_block hcancelled, ends_above_iff]
    simp [Performs]

end
end BlockScript
