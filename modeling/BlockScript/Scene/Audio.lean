import BlockScript.Scene.Basic
import BlockScript.Block.Tree
import BlockScript.Log

/-!
Audio. Settings are kept within their ranges by the blocks that change them. A sound is found by its
name, or by its position, which wraps around at both ends.
-/
namespace BlockScript

namespace AudioSetting

def range : AudioSetting → Number × Number
  | .volume => (0, 100)
  | .pitch => (-360, 360)
  | .pan => (-100, 100)

def get : AudioSetting → AudioSettings → Number
  | .volume, a => a.volume
  | .pitch, a => a.pitch
  | .pan, a => a.pan

def set : AudioSetting → AudioSettings → Number → AudioSettings
  | .volume, a, x => { a with volume := x }
  | .pitch, a, x => { a with pitch := x }
  | .pan, a, x => { a with pan := x }

/-- Sets a setting, or changes it by an amount, and stops at the ends of its range. -/
def adjust (s : AudioSetting) (a : AudioSettings) (amount : Number) (relative : Bool) : AudioSettings :=
  let target := if relative then s.get a + amount else amount
  s.set a (target.clamp s.range.1 s.range.2)

end AudioSetting

def AudioSettings.clearEffects (a : AudioSettings) : AudioSettings := { a with pitch := 0, pan := 0 }

/-- A signed 64-bit whole number, reduced modulo `2 ^ 64`. -/
def wrapInt64 (n : Int) : Int := (n + twoPow 63) % twoPow 64 - twoPow 63

/-- The sound of a name, else the one at a position. -/
def findSound? (sounds : List String) (sound : Value) : Option String :=
  match sounds.find? (· == sound.toText) with
  | some found => some found
  | none =>
    if sounds.isEmpty then none
    else match sound.number?.filter Number.isFinite with
      | none => none
      | some x => sounds[(wrapInt64 (x.roundHalfUp.toInt64 - 1) % sounds.length).toNat]?

/-- The record of a sound that starts on a figure. -/
def playRecord (figure sound : String) (a : AudioSettings) : LogRecord :=
  let volume := a.volume.logText
  let pitch := a.pitch.logText
  let pan := a.pan.logText
  .info s!"[{figure}] play `{sound}` at volume {volume} (pitch {pitch}, pan {pan})"

end BlockScript
