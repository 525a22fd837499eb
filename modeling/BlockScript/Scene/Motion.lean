import BlockScript.Scene.Basic
import BlockScript.Block.Tree

/-!
Motion. A move to a place that is not finite and a turn to a direction that is not finite do nothing.
A glide moves a figure in steps of a frame; how far it has come is the share of its time that has
passed.
-/
namespace BlockScript

namespace Pose

/-- The pose after a move, if the place is finite. -/
def moveTo? (p : Pose) (x y : Number) : Option Pose :=
  if x.isFinite && y.isFinite then some { p with x, y } else none

/-- The pose after turning to a direction, if it is finite. -/
def pointTo? (p : Pose) (direction : Number) : Option Pose :=
  if direction.isFinite then some { p with direction := direction.wrapDirection } else none

/-- Where so many steps forward lead; direction 90 points along the x axis and 0 along the y axis. -/
def forward (p : Pose) (steps : Number) : Number × Number :=
  let angle := (90 - p.direction).toRadians
  (p.x + steps * angle.cos, p.y + steps * angle.sin)

end Pose

def Turn.apply : Turn → (current degrees : Number) → Number
  | .right, current, degrees => current + degrees
  | .left, current, degrees => current - degrees
  | .absolute, _, degrees => degrees

/-! ### Time -/

/-- Whole milliseconds that cover a span in nanoseconds. -/
def millisecondsAbove (ns : Nat) : Nat := (ns + 999999) / 1000000

/-- The longest span, in nanoseconds. -/
def longestSpan : Nat := twoPow 64 * Number.nanosPerSecond - 1

/-- The longest sleep in nanoseconds: thirty years of 365 days. -/
def longestSleep : Nat := 30 * 365 * 24 * 60 * 60 * Number.nanosPerSecond

/-- The length of a frame in nanoseconds. -/
def frameLength (frameRate : Nat) : Nat := Number.nanosPerSecond / max frameRate 1

/-- The length of a glide in nanoseconds: negative times count as none, and endless ones as the
longest span. -/
def glideLength (seconds : Number) : Nat :=
  if seconds < 0 then 0 else seconds.nanoseconds?.getD longestSpan

/-- A figure on its way. -/
structure Glide where
  start : Pose
  x : Number
  y : Number
  /-- Nanoseconds the whole way takes. -/
  total : Nat
  /-- Milliseconds on the clock at the start. -/
  began : Nat

namespace Glide

/-- The share of the way that is done at a time. -/
def progress (g : Glide) (now : Nat) : Number :=
  Number.ofNanoseconds ((now - g.began) * 1000000) / Number.ofNanoseconds g.total

/-- A coordinate after a share of the way. -/
def between (first last share : Number) : Number := first + (last - first) * share

/-- Where the figure should be after a share of the way. -/
def place (g : Glide) (share : Number) : Number × Number :=
  (between g.start.x g.x share, between g.start.y g.y share)

end Glide
end BlockScript
