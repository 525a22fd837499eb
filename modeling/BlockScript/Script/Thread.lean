import BlockScript.Script.Command

/-!
Running scripts. What a script has left to do is a stack of frames. A script runs until it waits, and
each round of a loop ends its turn; a turn is therefore bounded by the blocks on its stack. Blocks of
a cancelled script do not start, and a wait of a cancelled script is over.
-/
namespace BlockScript

/-- A loop that is under way. -/
inductive Loop where
  | times (left : Nat) (body : List (Action Nat))
  | forever (body : List (Action Nat))
  | repeatUntil (condition : Predicate Nat) (body : List (Action Nat))

/-- A piece of what is left to do. -/
inductive Frame where
  /-- The rest of a body. -/
  | blocks (rest : List (Action Nat))
  /-- A loop that decides on its next round. -/
  | check (loop : Loop)
  /-- A loop whose round has just ended; the script lets others run before it goes on. -/
  | rounded (loop : Loop)

/-- Why a script does not run. -/
inductive Pause where
  /-- It lets others run. -/
  | ready
  /-- Until a time on the clock. -/
  | sleeping (wakeAt : Nat)
  /-- Until it is cancelled. -/
  | stalled
  /-- On its way until a time on the clock. -/
  | gliding (g : Glide) (wakeAt : Nat)
  /-- Until a condition holds; the links tell it of changes. -/
  | watching (condition : Predicate Nat) (links : Subscription Channel)

/-- How a piece of a turn ends. -/
inductive Progress where
  | go (frames : List Frame)
  | rest (frames : List Frame) (pause : Pause)
  | done

/-! ### Weights -/

section
variable {ρ : Type}

mutual
/-- How many pieces of a turn a block takes at most. -/
def Action.weight : Action ρ → Nat
  | .command _ => 1
  | .playUntilDone _ => 1
  | .wait _ => 1
  | .waitUntil _ => 1
  | .glide .. => 1
  | .branch _ _ thenBody elseBody => 2 + Action.weights thenBody + Action.weights elseBody
  | .repeatTimes _ body => 4 + Action.weights body
  | .forever body => 4 + Action.weights body
  | .repeatUntil _ body => 4 + Action.weights body
def Action.weights : List (Action ρ) → Nat
  | [] => 0
  | a :: rest => a.weight + Action.weights rest
end

end

def Loop.body : Loop → List (Action Nat)
  | .times _ body => body
  | .forever body => body
  | .repeatUntil _ body => body

def Frame.weight : Frame → Nat
  | .blocks rest => 1 + Action.weights rest
  | .check loop => 3 + Action.weights loop.body
  | .rounded _ => 1

/-- How many pieces a turn on a stack takes at most. -/
def Frame.weights : List Frame → Nat
  | [] => 0
  | f :: rest => f.weight + Frame.weights rest

/-! ### Beginning a block -/

/-- How often a loop runs for a count, with the records about the count: negative counts run nothing
and others are rounded. -/
def iterationCount (count : Number) : Nat × List LogRecord :=
  let text := count.logText
  if count < 0 then (0, [.warn s!"repeat count {text} is negative, skipping the loop"])
  else
    let rounded := count.roundHalfUp
    let roundedText := rounded.logText
    (rounded.toNat64,
      if rounded.eqv count then [] else [.warn s!"repeat count {text} rounded to {roundedText}"])

namespace World

/-- Lets the caller sleep for a span in nanoseconds, but no longer than the longest sleep; nothing to
wait for ends at once. -/
def sleep (w : World) (next : List Frame) (span : Nat) : Progress :=
  if span = 0 then .go next
  else .rest next (.sleeping (w.clock + millisecondsAbove (min span longestSleep)))

def wait (w : World) (c : Caller) (next : List Frame) (seconds : Number) : World × Progress :=
  if seconds < 0 then
    let figure := w.scene.figureName c.figure
    let text := seconds.logText
    (w.log (.warn s!"[{figure}] cannot wait {text} seconds"), .go next)
  else match seconds.nanoseconds? with
    | some span => (w, w.sleep next span)
    | none => (w, .rest next .stalled)

/-- Waits for a condition. It is tested again once the changes of what it reads are watched. -/
def waitUntil (w : World) (c : Caller) (next : List Frame) (condition : Predicate Nat) : World × Progress :=
  let (holds, w) := w.evaluate c.figure condition.test
  if holds then (w, .go next)
  else
    let (hub, links) := w.traces.hub.subscribeAll (condition.relays.map .relay) (.wake c.script)
    let (holds, w) := (w.withHub hub).evaluate c.figure condition.test
    if holds then (w.withHub (w.traces.hub.release links), .go next)
    else (w, .rest next (.watching condition links))

/-- Waits for the next step of a glide. -/
def nextStep (w : World) (next : List Frame) (g : Glide) : Progress :=
  .rest next (.gliding g (w.clock + millisecondsAbove (frameLength w.scene.config.frameRate)))

/-- Begins a glide; one that takes no time is over at once. -/
def glide (w : World) (c : Caller) (next : List Frame) (seconds x y : Number) : World × Progress :=
  let total := glideLength seconds
  if total = 0 then (w.moveTo c.figure (x, y), .go next)
  else (w, w.nextStep next { start := w.scene.poseOf c.figure, x, y, total, began := w.clock })

def continueGlide (w : World) (c : Caller) (next : List Frame) (g : Glide) : World × Progress :=
  let share := g.progress w.clock
  if 1 ≤ share then (w.moveTo c.figure (g.x, g.y), .go next)
  else
    let w := w.moveTo c.figure (g.place share)
    (w, w.nextStep next g)

/-- Plays a sound and waits for its end. -/
def playUntilDone (w : World) (c : Caller) (next : List Frame) (sound : Operand Nat) : World × Progress :=
  match playSound c sound w with
  | (.ok true, w) => (w, w.sleep next (w.scene.config.soundLength.getD 0 * 1000000))
  | (_, w) => (w, .go next)

/-- Begins a block, before the frames that follow it. -/
def begin (w : World) (c : Caller) (next : List Frame) : Action Nat → World × Progress
  | .command cmd => (w.command c cmd, .go next)
  | .playUntilDone sound => w.playUntilDone c next sound
  | .wait seconds =>
    let (seconds, w) := w.evaluate c.figure seconds.number
    w.wait c next seconds
  | .waitUntil condition => w.waitUntil c next condition
  | .glide seconds x y =>
    let (seconds, w) := w.evaluate c.figure seconds.number
    let (x, w) := w.evaluate c.figure x.number
    let (y, w) := w.evaluate c.figure y.number
    w.glide c next seconds x y
  | .branch _ condition thenBody elseBody =>
    let (holds, w) := w.evaluate c.figure condition.test
    (w, .go (.blocks (if holds then thenBody else elseBody) :: next))
  | .repeatTimes times body =>
    let (count, w) := w.evaluate c.figure times.number
    let (n, records) := iterationCount count
    (records.foldl log w, .go (.check (.times n body) :: next))
  | .forever body => (w, .go (.check (.forever body) :: next))
  | .repeatUntil condition body => (w, .go (.check (.repeatUntil condition body) :: next))

/-- The next round of a loop, or its end. -/
def checkLoop (w : World) (c : Caller) (next : List Frame) (loop : Loop) : World × Progress :=
  let again (l : Loop) : Progress := .go (.blocks l.body :: .rounded l :: next)
  match loop with
  | .times 0 _ => (w, .go next)
  | .times (left + 1) body => (w, if w.isCancelled c.script then .go next else again (.times left body))
  | .forever body => (w, if w.isCancelled c.script then .go next else again (.forever body))
  | .repeatUntil condition body =>
    if w.isCancelled c.script then (w, .go next)
    else
      let (holds, w) := w.evaluate c.figure condition.test
      (w, if holds then .go next else again (.repeatUntil condition body))

def step (w : World) (c : Caller) : List Frame → World × Progress
  | [] => (w, .done)
  | .blocks [] :: next => (w, .go next)
  | .blocks (a :: rest) :: next =>
    if w.isCancelled c.script then (w, .go next) else w.begin c (.blocks rest :: next) a
  | .check loop :: next => w.checkLoop c next loop
  | .rounded loop :: next => (w, .rest (.check loop :: next) .ready)

/-! ### Turns -/

theorem sleep_go {w : World} {next frames : List Frame} {span : Nat} (h : w.sleep next span = .go frames) :
    frames = next := by
  unfold sleep at h
  split at h <;> simp_all

theorem wait_go {w : World} {c : Caller} {next frames : List Frame} {x : Number}
    (h : (w.wait c next x).2 = .go frames) : frames = next := by
  unfold wait at h
  split at h
  · simp_all
  · split at h
    · exact sleep_go h
    · simp_all

theorem waitUntil_go {w : World} {c : Caller} {next frames : List Frame} {p : Predicate Nat}
    (h : (w.waitUntil c next p).2 = .go frames) : frames = next := by
  unfold waitUntil at h
  simp only at h
  split at h
  · simp_all
  · split at h <;> simp_all

theorem glide_go {w : World} {c : Caller} {next frames : List Frame} {s x y : Number}
    (h : (w.glide c next s x y).2 = .go frames) : frames = next := by
  unfold glide at h
  simp only at h
  split at h <;> simp_all [nextStep]

theorem playUntilDone_go {w : World} {c : Caller} {next frames : List Frame} {o : Operand Nat}
    (h : (w.playUntilDone c next o).2 = .go frames) : frames = next := by
  unfold playUntilDone at h
  split at h
  · exact sleep_go h
  · simp_all

/-- A block leaves less to do than there was. -/
theorem begin_go_weights {w : World} {c : Caller} {next frames : List Frame} {a : Action Nat}
    (h : (w.begin c next a).2 = .go frames) :
    Frame.weights frames < a.weight + Frame.weights next := by
  cases a with
  | command cmd => simp only [begin, Progress.go.injEq] at h; subst h; simp [Action.weight]
  | playUntilDone sound => rw [playUntilDone_go h]; simp [Action.weight]
  | wait seconds => rw [wait_go h]; simp [Action.weight]
  | waitUntil condition => rw [waitUntil_go h]; simp [Action.weight]
  | glide seconds x y => rw [glide_go h]; simp [Action.weight]
  | branch opcode condition thenBody elseBody =>
    simp only [begin, Progress.go.injEq] at h
    subst h
    simp only [Frame.weights, Frame.weight, Action.weight]
    split <;> omega
  | repeatTimes times body =>
    simp only [begin, Progress.go.injEq] at h
    subst h
    simp only [Frame.weights, Frame.weight, Loop.body, Action.weight]
    omega
  | forever body =>
    simp only [begin, Progress.go.injEq] at h
    subst h
    simp only [Frame.weights, Frame.weight, Loop.body, Action.weight]
    omega
  | repeatUntil condition body =>
    simp only [begin, Progress.go.injEq] at h
    subst h
    simp only [Frame.weights, Frame.weight, Loop.body, Action.weight]
    omega

theorem checkLoop_go {w : World} {c : Caller} {next frames : List Frame} {l : Loop}
    (h : (w.checkLoop c next l).2 = .go frames) :
    frames = next ∨ ∃ again : Loop, again.body = l.body ∧ frames = .blocks again.body :: .rounded again :: next := by
  unfold checkLoop at h
  split at h
  · simp_all
  · rename_i left body
    simp only at h
    split at h
    · simp_all
    · exact .inr ⟨.times left body, rfl, (Progress.go.inj h).symm⟩
  · simp only at h
    split at h
    · simp_all
    · exact .inr ⟨_, rfl, (Progress.go.inj h).symm⟩
  · split at h
    · simp_all
    · simp only at h
      split at h
      · simp_all
      · exact .inr ⟨_, rfl, (Progress.go.inj h).symm⟩

/-- Each piece of a turn leaves less to do in it. -/
theorem step_go_weights {w : World} {c : Caller} {frames after : List Frame}
    (h : (w.step c frames).2 = .go after) : Frame.weights after < Frame.weights frames := by
  unfold step at h
  split at h
  · cases h
  · cases h
    simp only [Frame.weights, Frame.weight]
    omega
  · split at h
    · cases h
      simp only [Frame.weights, Frame.weight]
      omega
    · have := begin_go_weights h
      simp only [Frame.weights, Frame.weight, Action.weights] at this ⊢
      omega
  · rcases checkLoop_go h with rfl | ⟨again, hb, rfl⟩
    · simp only [Frame.weights, Frame.weight]
      omega
    · simp only [Frame.weights, Frame.weight, hb]
      omega
  · cases h

/-- Runs a stack until the script waits, with what is left then, or ends. -/
def runFrames (w : World) (c : Caller) (frames : List Frame) : World × Option (List Frame × Pause) :=
  let stepped := w.step c frames
  match _ : stepped.2 with
  | .go after => stepped.1.runFrames c after
  | .rest after pause => (stepped.1, some (after, pause))
  | .done => (stepped.1, none)
termination_by Frame.weights frames
decreasing_by exact step_go_weights (by assumption)

/-! ### Going on after a pause -/

/-- Whether a script that pauses can go on. -/
def canResume (w : World) (script : Nat) : Pause → Bool
  | .ready => true
  | .sleeping wakeAt => wakeAt ≤ w.clock || w.isCancelled script
  | .stalled => w.isCancelled script
  | .gliding _ wakeAt => wakeAt ≤ w.clock || w.isCancelled script
  | .watching .. => 0 < w.wakesOf script || w.isCancelled script

/-- Tests a watched condition so many times, until it holds. -/
def retest (w : World) (c : Caller) (next : List Frame) (condition : Predicate Nat)
    (links : Subscription Channel) : (tries : Nat) → World × Progress
  | 0 => (w, .rest next (.watching condition links))
  | tries + 1 =>
    let (holds, w) := w.evaluate c.figure condition.test
    if holds then (w.withHub (w.traces.hub.release links), .go next)
    else w.retest c next condition links tries

/-- Goes on after a pause. A script that was woken several times tests its condition twice at most. -/
def resume (w : World) (c : Caller) (frames : List Frame) : Pause → World × Progress
  | .ready => (w, .go frames)
  | .sleeping _ => (w, .go frames)
  | .stalled => (w, .go frames)
  | .gliding g _ => if w.isCancelled c.script then (w, .go frames) else w.continueGlide c frames g
  | .watching condition links =>
    let wakes := w.wakesOf c.script
    let w := w.clearWakes c.script
    if w.isCancelled c.script then (w.withHub (w.traces.hub.release links), .go frames)
    else w.retest c frames condition links (min wakes 2)

end World

/-- A script with what it has left to do. -/
structure Thread where
  caller : Caller
  frames : List Frame
  pause : Pause
  /-- Relays that go with the script. -/
  relays : List Nat

/-- One turn of a script, with what is left after it, if anything. -/
def World.turn (w : World) (t : Thread) : World × Option (List Frame × Pause) :=
  match w.resume t.caller t.frames t.pause with
  | (w, .go frames) => w.runFrames t.caller frames
  | (w, .rest frames pause) => (w, some (frames, pause))
  | (w, .done) => (w, none)

end BlockScript
