import BlockScript.Session.Step

/-!
A whole run: the green flag is pressed once and the scripts run until they have all ended or time is
up.
-/
namespace BlockScript

/-- What a run of a project comes to. -/
structure RunReport where
  finished : Bool
  /-- The time on the clock at the end, in milliseconds. -/
  ms : Nat
  logs : List LogRecord
  figures : List FigureState

/-- Presses the green flag and waits for the scripts, but no longer than a limit. -/
def Session.run (fuel : Nat) (s : Session) (limit : Nat) : RunReport :=
  let s := s.greenFlag.onMachine (Machine.finish fuel · limit)
  { finished := s.machine.isFinished, ms := s.world.clock, logs := s.logs, figures := s.world.figureStates }

end BlockScript
