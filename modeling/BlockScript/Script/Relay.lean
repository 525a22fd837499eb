import BlockScript.Block.Tree

/-!
Relays for built blocks. Installing a tree gives each of its reporters that reads changing data a
relay number of its own, counted upwards from a start.
-/
namespace BlockScript

/-- A computation that hands out relay numbers. -/
abbrev Numbering (α : Type) := StateM Nat α

def takeRelay : Numbering Nat := modifyGet fun n => (n, n + 1)

mutual
def Operand.install : Operand Unit → Numbering (Operand Nat)
  | .constant v => return .constant v
  | .soundMenu sound => return .soundMenu sound
  | .source s _ => return .source s (← takeRelay)
  | .search q list _ argument => do
    let relay ← takeRelay
    return .search q list relay (← argument.install)
  | .unary op a => return .unary op (← a.install)
  | .binary op a b => do
    let a ← a.install
    return .binary op a (← b.install)
  | .random a b => do
    let a ← a.install
    return .random a (← b.install)
  | .truth p => return .truth (← p.install)
def Predicate.install : Predicate Unit → Numbering (Predicate Nat)
  | .absent => return .absent
  | .compare c a b => do
    let a ← a.install
    return .compare c a (← b.install)
  | .logic c opcode a b => do
    let a ← a.install
    return .logic c opcode a (← b.install)
  | .not p => return .not (← p.install)
  | .listHas list _ item => do
    let relay ← takeRelay
    return .listHas list relay (← item.install)
end

def Reporter.install : Reporter Unit → Numbering (Reporter Nat)
  | .value o => return .value (← o.install)
  | .predicate p => return .predicate (← p.install)

def Step.install : Step Unit → Numbering (Step Nat)
  | .goTo x y => do
    let x ← x.install
    return .goTo x (← y.install)
  | .setX x => return .setX (← x.install)
  | .setY y => return .setY (← y.install)
  | .changeX dx => return .changeX (← dx.install)
  | .changeY dy => return .changeY (← dy.install)
  | .forward steps => return .forward (← steps.install)

def Command.install : Command Unit → Numbering (Command Nat)
  | .setVariable relative opcode ref value => return .setVariable relative opcode ref (← value.install)
  | .addToList list item => return .addToList list (← item.install)
  | .deleteOfList list index => return .deleteOfList list (← index.install)
  | .deleteAllOfList list => return .deleteAllOfList list
  | .insertAtList list item index => do
    let item ← item.install
    return .insertAtList list item (← index.install)
  | .replaceItemOfList list index item => do
    let index ← index.install
    return .replaceItemOfList list index (← item.install)
  | .move step opcode => return .move (← step.install) opcode
  | .turn kind opcode degrees => return .turn kind opcode (← degrees.install)
  | .adjust setting relative opcode amount => return .adjust setting relative opcode (← amount.install)
  | .clearEffects => return .clearEffects
  | .play sound => return .play (← sound.install)
  | .stop option => return .stop option

mutual
def Action.install : Action Unit → Numbering (Action Nat)
  | .command c => return .command (← c.install)
  | .playUntilDone sound => return .playUntilDone (← sound.install)
  | .wait seconds => return .wait (← seconds.install)
  | .waitUntil condition => return .waitUntil (← condition.install)
  | .glide seconds x y => do
    let seconds ← seconds.install
    let x ← x.install
    return .glide seconds x (← y.install)
  | .branch opcode condition thenBody elseBody => do
    let condition ← condition.install
    let thenBody ← Action.installAll thenBody
    return .branch opcode condition thenBody (← Action.installAll elseBody)
  | .repeatTimes times body => do
    let times ← times.install
    return .repeatTimes times (← Action.installAll body)
  | .forever body => return .forever (← Action.installAll body)
  | .repeatUntil condition body => do
    let condition ← condition.install
    return .repeatUntil condition (← Action.installAll body)
def Action.installAll : List (Action Unit) → Numbering (List (Action Nat))
  | [] => return []
  | a :: rest => do
    let a ← a.install
    return a :: (← Action.installAll rest)
end

end BlockScript
