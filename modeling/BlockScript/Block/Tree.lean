import BlockScript.Block.Input
import BlockScript.Block.Operator

/-!
Executable blocks. Reporters are values or truth values, statements are actions; both are trees. A
reporter that reads changing data carries a relay, which passes changes of that data on to whoever
waits for the reporter. Trees are built without relays (`Unit`) and get numbered ones when they are
installed.
-/
namespace BlockScript

/-! ### Reporters -/

/-- What of its pose a figure can report. -/
inductive PoseCoordinate where
  | x | y | direction
  deriving DecidableEq

/-- What of the pointer can be reported. -/
inductive PointerCoordinate where
  | x | y
  deriving DecidableEq

/-- Data that a reporter reads. -/
inductive Source where
  | variable (ref : Ref)
  | listContents (ref : Ref)
  | listLength (ref : Ref)
  | pose (c : PoseCoordinate) (opcode : String)
  | volume
  | pointer (c : PointerCoordinate) (opcode : String)
  deriving DecidableEq

def Source.opcode : Source → String
  | .variable _ => "data_variable"
  | .listContents _ => "data_listcontents"
  | .listLength _ => "data_lengthoflist"
  | .pose _ opcode => opcode
  | .volume => "sound_volume"
  | .pointer _ opcode => opcode

/-- What is looked for in a list. -/
inductive ListQuery where
  /-- The item at a position. -/
  | item
  /-- The position of an item. -/
  | position
  deriving DecidableEq

def ListQuery.opcode : ListQuery → String
  | .item => "data_itemoflist"
  | .position => "data_itemnumoflist"

mutual
/-- A block that reports a value, or a value fixed in the slot. -/
inductive Operand (ρ : Type) where
  | constant (v : Value)
  | soundMenu (sound : String)
  | source (s : Source) (relay : ρ)
  | search (q : ListQuery) (list : Ref) (relay : ρ) (argument : Operand ρ)
  | unary (op : Unary) (a : Operand ρ)
  | binary (op : Binary) (a b : Operand ρ)
  | random (a b : Operand ρ)
  | truth (p : Predicate ρ)
/-- A block that reports a truth value, or an empty slot, which is false. -/
inductive Predicate (ρ : Type) where
  | absent
  | compare (c : Comparison) (a b : Operand ρ)
  | logic (c : Connective) (opcode : String) (a b : Predicate ρ)
  | not (p : Predicate ρ)
  | listHas (list : Ref) (relay : ρ) (item : Operand ρ)
end

/-- A reporter block of either kind. -/
inductive Reporter (ρ : Type) where
  | value (o : Operand ρ)
  | predicate (p : Predicate ρ)

variable {ρ : Type}

/-- The operation code of a predicate; an empty slot has none. -/
def Predicate.opcode : Predicate ρ → String
  | .absent => ""
  | .compare c _ _ => c.opcode
  | .logic _ opcode _ _ => opcode
  | .not _ => "operator_not"
  | .listHas .. => "data_listcontainsitem"

/-- The operation code of an operand; a constant has none. -/
def Operand.opcode : Operand ρ → String
  | .constant _ => ""
  | .soundMenu _ => "sound_sounds_menu"
  | .source s _ => s.opcode
  | .search q .. => q.opcode
  | .unary op _ => op.opcode
  | .binary op _ _ => op.opcode
  | .random _ _ => "operator_random"
  | .truth p => p.opcode

def Reporter.opcode : Reporter ρ → String
  | .value o => o.opcode
  | .predicate p => p.opcode

/-- A reporter in a value slot; a predicate there reports its truth value. -/
def Reporter.toOperand : Reporter ρ → Operand ρ
  | .value o => o
  | .predicate p => .truth p

/-! ### Statements -/

/-- Which scripts a stop block ends. -/
inductive StopOption where
  | all | thisScript | otherScripts
  deriving DecidableEq

/-- Where a move block takes the figure. -/
inductive Step (ρ : Type) where
  | goTo (x y : Operand ρ)
  | setX (x : Operand ρ)
  | setY (y : Operand ρ)
  | changeX (dx : Operand ρ)
  | changeY (dy : Operand ρ)
  | forward (steps : Operand ρ)

/-- How a block turns its figure. -/
inductive Turn where
  | right | left | absolute
  deriving DecidableEq

/-- What of its sound a figure can adjust. -/
inductive AudioSetting where
  | volume | pitch | pan
  deriving DecidableEq

/-- A statement that is done at once. -/
inductive Command (ρ : Type) where
  | setVariable (relative : Bool) (opcode : String) (ref : Ref) (value : Operand ρ)
  | addToList (list : Ref) (item : Operand ρ)
  | deleteOfList (list : Ref) (index : Operand ρ)
  | deleteAllOfList (list : Ref)
  | insertAtList (list : Ref) (item index : Operand ρ)
  | replaceItemOfList (list : Ref) (index item : Operand ρ)
  | move (step : Step ρ) (opcode : String)
  | turn (kind : Turn) (opcode : String) (degrees : Operand ρ)
  | adjust (setting : AudioSetting) (relative : Bool) (opcode : String) (amount : Operand ρ)
  | clearEffects
  | play (sound : Operand ρ)
  | stop (option : StopOption)

/-- A statement block. -/
inductive Action (ρ : Type) where
  | command (c : Command ρ)
  | playUntilDone (sound : Operand ρ)
  | wait (seconds : Operand ρ)
  | waitUntil (condition : Predicate ρ)
  | glide (seconds x y : Operand ρ)
  | branch (opcode : String) (condition : Predicate ρ) (thenBody elseBody : List (Action ρ))
  | repeatTimes (times : Operand ρ) (body : List (Action ρ))
  | forever (body : List (Action ρ))
  | repeatUntil (condition : Predicate ρ) (body : List (Action ρ))

def Command.opcode : Command ρ → String
  | .setVariable _ opcode _ _ => opcode
  | .addToList .. => "data_addtolist"
  | .deleteOfList .. => "data_deleteoflist"
  | .deleteAllOfList .. => "data_deletealloflist"
  | .insertAtList .. => "data_insertatlist"
  | .replaceItemOfList .. => "data_replaceitemoflist"
  | .move _ opcode => opcode
  | .turn _ opcode _ => opcode
  | .adjust _ _ opcode _ => opcode
  | .clearEffects => "sound_cleareffects"
  | .play _ => "sound_play"
  | .stop _ => "control_stop"

def Action.opcode : Action ρ → String
  | .command c => c.opcode
  | .playUntilDone _ => "sound_playuntildone"
  | .wait _ => "control_wait"
  | .waitUntil _ => "control_wait_until"
  | .glide .. => "motion_glidesecstoxy"
  | .branch opcode .. => opcode
  | .repeatTimes .. => "control_repeat"
  | .forever _ => "control_forever"
  | .repeatUntil .. => "control_repeat_until"

end BlockScript
