import BlockScript.Build.Basic
import BlockScript.Registry

/-!
The catalogue of blocks. A kind of block is registered under one or more operation codes, and where
it comes in variants the code it is built under tells which; under a code of no variant it is the
variant without a test.
-/
namespace BlockScript

/-! ### Kinds of reporters -/

/-- The kinds of built-in reporters. -/
inductive ReporterKind where
  | arithmetic | round | mathop | comparison | logic | not | random | join | length | contains | letterOf
  | variable | listContents | itemOfList | itemNumOfList | lengthOfList | listContainsItem
  | pose | volume | soundsMenu | pointer
  deriving DecidableEq

namespace ReporterKind

def arithmeticOp : String → ArithmeticOp
  | "operator_add" => .add
  | "operator_subtract" => .subtract
  | "operator_multiply" => .multiply
  | "operator_divide" => .divide
  | _ => .modulo

def relation : String → Relation
  | "operator_gt" => .greater
  | "operator_lt" => .less
  | _ => .equal

def connective : String → Connective
  | "operator_and" => .and
  | _ => .or

def poseCoordinate : String → PoseCoordinate
  | "motion_xposition" => .x
  | "motion_yposition" => .y
  | _ => .direction

def pointerCoordinate : String → PointerCoordinate
  | "sensing_mousex" => .x
  | _ => .y

/-- Builds a reporter from its parts, operands in the order they are listed. -/
def build {m : Type → Type} [MonadBuild m] (kind : ReporterKind) (reporter : String → m (Reporter Unit))
    (spec : BlockSpec) : m (Reporter Unit) :=
  let operand := spec.operand reporter
  let condition := spec.condition reporter
  match kind with
  | .arithmetic => do
    let a ← operand "NUM1"
    let b ← operand "NUM2"
    return .value (.binary (.arithmetic (arithmeticOp spec.opcode) spec.opcode) a b)
  | .round => return .value (.unary .round (← operand "NUM"))
  | .mathop => do
    let f ← spec.field "OPERATOR"
    match MathFunction.ofName? f.value with
    | some g => return .value (.unary (.math g) (← operand "NUM"))
    | none => MonadBuild.fail (.unsupportedField spec.id "OPERATOR" f.value)
  | .comparison => do
    let a ← operand "OPERAND1"
    let b ← operand "OPERAND2"
    return .predicate (.compare (.relation (relation spec.opcode) spec.opcode) a b)
  | .logic => do
    let a ← condition "OPERAND1"
    let b ← condition "OPERAND2"
    return .predicate (.logic (connective spec.opcode) spec.opcode a b)
  | .not => return .predicate (.not (← condition "OPERAND"))
  | .random => do
    let a ← operand "FROM"
    let b ← operand "TO"
    return .value (.random a b)
  | .join => do
    let a ← operand "STRING1"
    let b ← operand "STRING2"
    return .value (.binary .join a b)
  | .length => return .value (.unary .length (← operand "STRING"))
  | .contains => do
    let a ← operand "STRING1"
    let b ← operand "STRING2"
    return .predicate (.compare .contains a b)
  | .letterOf => do
    let a ← operand "LETTER"
    let b ← operand "STRING"
    return .value (.binary .letterOf a b)
  | .variable => return .value (.source (.variable (← spec.reference "VARIABLE")) ())
  | .listContents => return .value (.source (.listContents (← spec.reference "LIST")) ())
  | .itemOfList => do
    let list ← spec.reference "LIST"
    return .value (.search .item list () (← operand "INDEX"))
  | .itemNumOfList => do
    let list ← spec.reference "LIST"
    return .value (.search .position list () (← operand "ITEM"))
  | .lengthOfList => return .value (.source (.listLength (← spec.reference "LIST")) ())
  | .listContainsItem => do
    let list ← spec.reference "LIST"
    return .predicate (.listHas list () (← operand "ITEM"))
  | .pose => return .value (.source (.pose (poseCoordinate spec.opcode) spec.opcode) ())
  | .volume => return .value (.source .volume ())
  | .soundsMenu => do
    let f ← spec.field "SOUND_MENU"
    return .value (.soundMenu f.value)
  | .pointer => return .value (.source (.pointer (pointerCoordinate spec.opcode) spec.opcode) ())

end ReporterKind

/-! ### Kinds of statements -/

/-- The kinds of built-in statements. -/
inductive ActionKind where
  | branch | repeatTimes | forever | repeatUntil | wait | waitUntil | stop
  | setVariable | addToList | deleteOfList | deleteAllOfList | insertAtList | replaceItemOfList
  | move | turn | glide
  | play | adjust | clearEffects
  deriving DecidableEq

namespace ActionKind

variable {m : Type → Type} [MonadBuild m]

def stopOption? : String → Option StopOption
  | "all" => some .all
  | "this script" => some .thisScript
  | "other scripts in sprite" => some .otherScripts
  | "other scripts in stage" => some .otherScripts
  | _ => none

def turnOf : String → Turn
  | "motion_turnright" => .right
  | "motion_turnleft" => .left
  | _ => .absolute

/-- The audio setting that an effect field names, letter case apart. -/
def effect? (name : String) : Option AudioSetting :=
  if Text.spellsWord "PITCH" name then some .pitch
  else if Text.spellsWord "PAN" name then some .pan
  else none

/-- Where a move block under an operation code takes the figure. -/
def step (operand : String → m (Operand Unit)) : String → m (Step Unit)
  | "motion_gotoxy" => do
    let x ← operand "X"
    let y ← operand "Y"
    return .goTo x y
  | "motion_setx" => return .setX (← operand "X")
  | "motion_sety" => return .setY (← operand "Y")
  | "motion_changexby" => return .changeX (← operand "DX")
  | "motion_changeyby" => return .changeY (← operand "DY")
  | _ => return .forward (← operand "STEPS")

/-- The setting and the amount of a block that adjusts audio. -/
def setting (spec : BlockSpec) : m (AudioSetting × String) :=
  if spec.opcode == "sound_setvolumeto" || spec.opcode == "sound_changevolumeby" then
    pure (.volume, "VOLUME")
  else do
    let f ← spec.field "EFFECT"
    match effect? f.value with
    | some s => return (s, "VALUE")
    | none => MonadBuild.fail (.unsupportedField spec.id "EFFECT" f.value)

/-- Builds a statement from its parts, in the order they are listed. -/
def build (kind : ActionKind) (parts : PartsIn m) (spec : BlockSpec) : m (Action Unit) :=
  let operand := spec.operand parts.reporter
  let condition := spec.condition parts.reporter
  let body := spec.body parts.body
  match kind with
  | .branch => do
    let elseBody ← if spec.opcode == "control_if_else" then body "SUBSTACK2" else pure []
    let test ← condition "CONDITION"
    let thenBody ← body "SUBSTACK"
    return .branch spec.opcode test thenBody elseBody
  | .repeatTimes => do
    let times ← operand "TIMES"
    return .repeatTimes times (← body "SUBSTACK")
  | .forever => return .forever (← body "SUBSTACK")
  | .repeatUntil => do
    let test ← condition "CONDITION"
    return .repeatUntil test (← body "SUBSTACK")
  | .wait => return .wait (← operand "DURATION")
  | .waitUntil => return .waitUntil (← condition "CONDITION")
  | .stop => do
    let f ← spec.field "STOP_OPTION"
    match stopOption? f.value with
    | some option => return .command (.stop option)
    | none => MonadBuild.fail (.unsupportedField spec.id "STOP_OPTION" f.value)
  | .setVariable => do
    let ref ← spec.reference "VARIABLE"
    let value ← operand "VALUE"
    return .command (.setVariable (spec.opcode == "data_changevariableby") spec.opcode ref value)
  | .addToList => do
    let list ← spec.reference "LIST"
    return .command (.addToList list (← operand "ITEM"))
  | .deleteOfList => do
    let list ← spec.reference "LIST"
    return .command (.deleteOfList list (← operand "INDEX"))
  | .deleteAllOfList => return .command (.deleteAllOfList (← spec.reference "LIST"))
  | .insertAtList => do
    let list ← spec.reference "LIST"
    let item ← operand "ITEM"
    return .command (.insertAtList list item (← operand "INDEX"))
  | .replaceItemOfList => do
    let list ← spec.reference "LIST"
    let index ← operand "INDEX"
    return .command (.replaceItemOfList list index (← operand "ITEM"))
  | .move => return .command (.move (← step operand spec.opcode) spec.opcode)
  | .turn => do
    let input := if spec.opcode == "motion_pointindirection" then "DIRECTION" else "DEGREES"
    return .command (.turn (turnOf spec.opcode) spec.opcode (← operand input))
  | .glide => do
    let seconds ← operand "SECS"
    let x ← operand "X"
    let y ← operand "Y"
    return .glide seconds x y
  | .play => do
    let sound ← operand "SOUND_MENU"
    return if spec.opcode == "sound_playuntildone" then .playUntilDone sound else .command (.play sound)
  | .adjust => do
    let (setting, input) ← setting spec
    let amount ← operand input
    return .command (.adjust setting ("sound_change".isPrefixOf spec.opcode) spec.opcode amount)
  | .clearEffects => pure (.command .clearEffects)

end ActionKind

/-! ### The two tables -/

/-- The tables of statements and of reporters. -/
structure Registries where
  actions : Registry ActionKind
  reporters : Registry ReporterKind

/-- Operation codes of one kind of block. -/
inductive CatalogEntry where
  | action (opcodes : List String) (kind : ActionKind)
  | reporter (opcodes : List String) (kind : ReporterKind)

namespace Registries

def empty : Registries := ⟨.empty "action", .empty "reporter"⟩

def registerAction (r : Registries) (opcodes : List String) (kind : ActionKind) :
    Registries × Except RegistryError Unit :=
  let (actions, outcome) := r.actions.register opcodes kind
  ({ r with actions }, outcome)

def registerReporter (r : Registries) (opcodes : List String) (kind : ReporterKind) :
    Registries × Except RegistryError Unit :=
  let (reporters, outcome) := r.reporters.register opcodes kind
  ({ r with reporters }, outcome)

/-- Registers entries in order until one fails. -/
def registerAll (r : Registries) : List CatalogEntry → Registries × Except RegistryError Unit
  | [] => (r, .ok ())
  | .action opcodes kind :: rest =>
    match r.registerAction opcodes kind with
    | (r, .ok ()) => r.registerAll rest
    | failed => failed
  | .reporter opcodes kind :: rest =>
    match r.registerReporter opcodes kind with
    | (r, .ok ()) => r.registerAll rest
    | failed => failed

/-- All blocks, in the order they are registered. -/
def catalog : List CatalogEntry := [
  .action ["control_if", "control_if_else"] .branch,
  .action ["control_repeat"] .repeatTimes,
  .action ["control_forever"] .forever,
  .action ["control_repeat_until"] .repeatUntil,
  .action ["control_wait"] .wait,
  .action ["control_wait_until"] .waitUntil,
  .action ["control_stop"] .stop,
  .action ["data_setvariableto", "data_changevariableby"] .setVariable,
  .action ["data_addtolist"] .addToList,
  .action ["data_deleteoflist"] .deleteOfList,
  .action ["data_deletealloflist"] .deleteAllOfList,
  .action ["data_insertatlist"] .insertAtList,
  .action ["data_replaceitemoflist"] .replaceItemOfList,
  .reporter ["data_variable"] .variable,
  .reporter ["data_listcontents"] .listContents,
  .reporter ["data_itemoflist"] .itemOfList,
  .reporter ["data_itemnumoflist"] .itemNumOfList,
  .reporter ["data_lengthoflist"] .lengthOfList,
  .reporter ["data_listcontainsitem"] .listContainsItem,
  .reporter ["operator_add", "operator_subtract", "operator_multiply", "operator_divide", "operator_mod"]
    .arithmetic,
  .reporter ["operator_round"] .round,
  .reporter ["operator_mathop"] .mathop,
  .reporter ["operator_gt", "operator_lt", "operator_equals"] .comparison,
  .reporter ["operator_and", "operator_or"] .logic,
  .reporter ["operator_not"] .not,
  .reporter ["operator_random"] .random,
  .reporter ["operator_join"] .join,
  .reporter ["operator_length"] .length,
  .reporter ["operator_contains"] .contains,
  .reporter ["operator_letter_of"] .letterOf,
  .action ["motion_gotoxy", "motion_setx", "motion_sety", "motion_changexby", "motion_changeyby",
    "motion_movesteps"] .move,
  .action ["motion_turnright", "motion_turnleft", "motion_pointindirection"] .turn,
  .action ["motion_glidesecstoxy"] .glide,
  .reporter ["motion_xposition", "motion_yposition", "motion_direction"] .pose,
  .action ["sound_play", "sound_playuntildone"] .play,
  .action ["sound_setvolumeto", "sound_changevolumeby", "sound_seteffectto", "sound_changeeffectby"] .adjust,
  .action ["sound_cleareffects"] .clearEffects,
  .reporter ["sound_volume"] .volume,
  .reporter ["sound_sounds_menu"] .soundsMenu,
  .reporter ["sensing_mousex", "sensing_mousey"] .pointer]

def builtin : Registries := (empty.registerAll catalog).1

end Registries
end BlockScript
