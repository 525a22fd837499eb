import BlockScript.Value

/-!
Lists of scripts. Positions count from one. An edit either happens and is announced once, or is
refused and leaves the list alone; growing stops at a limit.
-/
namespace BlockScript

/-- What can be done to the items of a list. -/
inductive ListEdit where
  | push (v : Value)
  | insert (index : Nat) (v : Value)
  | replace (index : Nat) (v : Value)
  | remove (index : Nat)
  | clear
  deriving DecidableEq

/-- The most items a list takes unless told otherwise. -/
def defaultListLimit : Nat := 200000

def itemAt? (items : List Value) (index : Nat) : Option Value :=
  if index = 0 then none else items[index - 1]?

/-- The items after an edit, with the item it took out; nothing if the edit is refused. -/
def ListEdit.apply (limit : Nat) (items : List Value) : ListEdit → Option (List Value × Option Value)
  | .push v => if items.length < limit then some (items ++ [v], none) else none
  | .insert index v =>
    if items.length < limit ∧ 1 ≤ index ∧ index ≤ items.length + 1 then
      some (items.take (index - 1) ++ v :: items.drop (index - 1), none)
    else none
  | .replace index v =>
    if 1 ≤ index ∧ index ≤ items.length then some (items.set (index - 1) v, none) else none
  | .remove index =>
    if 1 ≤ index ∧ index ≤ items.length then some (items.eraseIdx (index - 1), itemAt? items index)
    else none
  | .clear => some ([], none)

/-- A text of one character. -/
def Value.isLetter : Value → Bool
  | .text s => s.length == 1
  | _ => false

/-- All items in one text, with spaces between them unless all are single letters. -/
def listContents (items : List Value) : String :=
  (if items.all Value.isLetter then "" else " ").intercalate (items.map Value.toText)

/-! ### Positions given by values -/

/-- What a position given by a value stands for. -/
inductive ListIndex where
  | item (index : Nat)
  | all
  | invalid
  deriving DecidableEq

/-- Resolves a position in a list of a length; `draw` decides where any item will do. Numbers are
rounded down. -/
def listIndex (index : Value) (length : Nat) (acceptAll : Bool) (draw : Nat) : ListIndex :=
  let number :=
    let n := index.toNumber.floor
    if n < 1 ∨ Number.ofNat length < n then .invalid else .item n.toNat64
  match index with
  | .text "all" => if acceptAll then .all else number
  | .text "last" => if length = 0 then .invalid else .item length
  | .text "random" => if length = 0 then .invalid else .item (1 + draw % length)
  | .text "any" => if length = 0 then .invalid else .item (1 + draw % length)
  | _ => number

/-- Whether resolving a position takes a draw. -/
def listIndexDraws (index : Value) (length : Nat) : Bool :=
  length != 0 && (index == .text "random" || index == .text "any")

/-- The position of the first item equal to a value, zero if there is none. -/
def positionOf (items : List Value) (v : Value) : Nat :=
  match items.findIdx? (·.equals v) with
  | some i => i + 1
  | none => 0

end BlockScript
