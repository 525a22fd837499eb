import BlockScript.Proofs.Script.Pieces
import BlockScript.Session.Run

/-!
Sessions move by move. A move is the least that happens at one moment: a piece of a script, a change of
the clock or of the scene, the green flag, a stop, or something done to reporters. Every step of a
session is a run of moves, so what holds after all moves holds at every moment of every session.
-/
namespace BlockScript.Session

/-- What can happen at one moment: a tick of the machine, a start or a stop, a change of the scene, new records, and what
is done to reporters, to their subscribers and to the report. -/
inductive Move where
  | tick (x : Machine.Tick)
  | greenFlag
  | start (figure : Nat) (block : Option String)
  | stopAll
  | stop (figure : Nat)
  | change (c : Change)
  | log (records : List LogRecord)
  | hold (name : String) (figure : Nat) (r : Reporter Unit)
  | drop (name : String)
  | report (name : String)
  | subscribe (name label : String)
  | unsubscribe (label : String)
  | clearReport

/-- The session after a move. -/
def make (s : Session) : Move → Session
  | .tick x => s.onMachine (·.tick x)
  | .greenFlag => s.greenFlag
  | .start figure block => (s.start figure block).1
  | .stopAll => s.onWorld (·.cancelWhere fun _ => true)
  | .stop figure => s.onWorld (·.cancelWhere (·.figure == figure))
  | .change c => s.onWorld (·.change c)
  | .log records => s.log records
  | .hold name figure r => s.holdReporter name figure r
  | .drop name => s.dropReporter name
  | .report name =>
    match s.reporter? name with
    | none => s
    | some r => (s.evaluate r.figure r.reporter.eval).1
  | .subscribe name label =>
    match s.reporter? name with
    | none => s
    | some r => (s.subscribe r label).1
  | .unsubscribe label => s.onWorld fun w => w.withHub (w.traces.hub.dropNamed label)
  | .clearReport => s.clearReport

/-- The session after moves in order. -/
def after (s : Session) (moves : List Move) : Session := moves.foldl make s

theorem after_append (s : Session) (a b : List Move) : s.after (a ++ b) = (s.after a).after b := List.foldl_append

/-- What holds at first and is kept by each move holds after all moves. -/
theorem after_induct {P : Session → Prop} {s : Session} (first : P s) (kept : ∀ s move, P s → P (s.make move))
    (moves : List Move) : P (s.after moves) := by
  induction moves generalizing s with
  | nil => exact first
  | cons move moves ih => exact ih (kept s move first)

/-! ### Steps -/

/-- What is done in one session leads to another. -/
def Leads (s s' : Session) : Prop := ∃ moves, s' = s.after moves

namespace Leads

variable {s : Session}

theorem refl (s : Session) : s.Leads s := ⟨[], rfl⟩

theorem trans {a b c : Session} (h : a.Leads b) (h' : b.Leads c) : a.Leads c := by
  obtain ⟨l, rfl⟩ := h
  obtain ⟨l', rfl⟩ := h'
  exact ⟨l ++ l', (after_append a l l').symm⟩

theorem make (s : Session) (move : Move) : s.Leads (s.make move) := ⟨[move], rfl⟩

theorem ticks {f : Machine → Machine} (h : s.machine.Ticks (f s.machine)) : s.Leads (s.onMachine f) := by
  obtain ⟨l, hl⟩ := h
  refine ⟨l.map .tick, ?_⟩
  unfold onMachine
  rw [hl]
  clear hl
  induction l generalizing s with
  | nil => rfl
  | cons x l ih => exact ih (s := s.make (.tick x))

theorem changes {f : World → World} (h : s.world.Changes (f s.world)) : s.Leads (s.onWorld f) := by
  unfold onWorld Machine.onWorld
  rcases h with h | ⟨c, h⟩
  · exact ⟨[], by erw [h]; rfl⟩
  · exact ⟨[.change c], by erw [h]; rfl⟩

/-- A step that names something which is there. -/
theorem of_named {α : Type} {named : Option α} {f : α → Session × SessionAnswer} {r : Session × SessionAnswer}
    (h : (do let a ← named; return f a) = some r) (hf : ∀ a, named = some a → s.Leads (f a).1) : s.Leads r.1 := by
  obtain ⟨a, ha, h⟩ := Option.bind_eq_some_iff.mp h
  cases h
  exact hf a ha

theorem report {name : String} {r : HeldReporter} (h : s.reporter? name = some r) :
    s.Leads (s.evaluate r.figure r.reporter.eval).1 := by
  have hmake : s.make (.report name) = (s.evaluate r.figure r.reporter.eval).1 := by simp only [Session.make, h]
  exact hmake ▸ make s (.report name)

theorem subscribe {name : String} {r : HeldReporter} (h : s.reporter? name = some r) (label : String) :
    s.Leads (s.subscribe r label).1 := by
  have hmake : s.make (.subscribe name label) = (s.subscribe r label).1 := by simp only [Session.make, h]
  exact hmake ▸ make s (.subscribe name label)

theorem buildReporter (s : Session) (name : String) (figure : Nat) (block : String) :
    s.Leads (s.buildReporter name figure block).1 := by
  unfold Session.buildReporter
  dsimp only
  split
  · rename_i r hr
    exact (make s (.log _)).trans (make _ (.hold name figure r))
  · exact make s (.log _)

end Leads

theorem attempt_leads (fuel : Nat) (s : Session) (step : SessionStep) {r : Session × SessionAnswer}
    (h : s.attempt fuel step = some r) : s.Leads r.1 := by
  cases step with
  | greenFlag => cases h; exact .make s .greenFlag
  | start figure block => exact .of_named h fun n _ => .make s (.start n block)
  | advance ms => cases h; exact .ticks (Machine.runTo_isTicks _ _ _ _)
  | yield => cases h; exact .ticks (f := (·.rounds yieldRounds)) (s.machine.rounds_isTicks yieldRounds)
  | finish limit => cases h; exact .ticks (Machine.runTo_isTicks _ _ _ _)
  | state => cases h; exact .refl s
  | stopAll => cases h; exact .make s .stopAll
  | stop figure => exact .of_named h fun n _ => .make s (.stop n)
  | scopes figure => exact .of_named h fun _ _ => .refl s
  | setVariable figure id v => exact .of_named h fun a _ => .make s (.change (.variable a v))
  | push figure id v => exact .of_named h fun a _ => .changes (s.world.changes_edit a (.push v))
  | clear figure id => exact .of_named h fun a _ => .changes (s.world.changes_edit a .clear)
  | setPose figure pose => exact .of_named h fun n _ => .make s (.change (.pose n pose))
  | move figure x y => exact .of_named h fun n _ => .changes (s.world.changes_moveTo n (x, y))
  | point figure direction => exact .of_named h fun n _ => .changes (s.world.changes_pointTo n direction)
  | setVolume figure volume => exact .of_named h fun n _ => .make s (.change (.audio n _))
  | setPointer x y => cases h; exact .make s (.change (.pointer x y))
  | variableOf figure ref => exact .of_named h fun _ _ => .refl s
  | listOf figure ref => exact .of_named h fun _ _ => .refl s
  | ownVariable figure ref => exact .of_named h fun _ _ => .refl s
  | ownList figure ref => exact .of_named h fun _ _ => .refl s
  | reporter name figure block => exact .of_named h fun n _ => .buildReporter s name n block
  | report name => exact .of_named h fun r hr => .report hr
  | test name =>
    obtain ⟨held, hr, h⟩ := Option.bind_eq_some_iff.mp h
    have leads := Leads.report hr
    cases hp : held.reporter with
    | value o => rw [hp] at h; cases h
    | predicate p =>
      rw [hp] at h leads
      cases h
      exact leads
  | subscribe name label => exact .of_named h fun r hr => .subscribe hr label
  | unsubscribe label => cases h; exact .make s (.unsubscribe label)
  | drop name => cases h; exact .make s (.drop name)
  | observers figure what => exact .of_named h fun _ _ => .refl s

/-- Every step of a session is a run of moves. -/
theorem perform_leads (fuel : Nat) (s : Session) (step : SessionStep) : s.Leads (s.perform fuel step).1 := by
  cases h : s.attempt fuel step with
  | none => exact ⟨[.clearReport], by simp [perform, h, after, make]⟩
  | some r =>
    refine (s.attempt_leads fuel step h).trans ⟨[.clearReport], ?_⟩
    simp [perform, h, after, make]

end BlockScript.Session
