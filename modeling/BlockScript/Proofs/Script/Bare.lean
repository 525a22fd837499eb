import BlockScript.Proofs.Script.Acting
import BlockScript.Proofs.Build.Signature

/-!
Blocks without their relays. A bare tree has the relay `0` throughout, so it tells what is read and done but
not who hears of changes. Installing a tree leaves its bare form as it is, and evaluation reports the same for
a tree and its bare form: relays only matter to those who wait.
-/
namespace BlockScript

section
variable {ρ : Type}

mutual
/-- The operand without its relays. -/
def Operand.bare : Operand ρ → Operand Nat
  | .constant v => .constant v
  | .soundMenu sound => .soundMenu sound
  | .source s _ => .source s 0
  | .search q list _ argument => .search q list 0 argument.bare
  | .unary op a => .unary op a.bare
  | .binary op a b => .binary op a.bare b.bare
  | .random a b => .random a.bare b.bare
  | .truth p => .truth p.bare
/-- The condition without its relays. -/
def Predicate.bare : Predicate ρ → Predicate Nat
  | .absent => .absent
  | .compare c a b => .compare c a.bare b.bare
  | .logic c opcode a b => .logic c opcode a.bare b.bare
  | .not p => .not p.bare
  | .listHas list _ item => .listHas list 0 item.bare
end

/-- The step without the relays of its operands. -/
def Step.bare : Step ρ → Step Nat
  | .goTo x y => .goTo x.bare y.bare
  | .setX x => .setX x.bare
  | .setY y => .setY y.bare
  | .changeX dx => .changeX dx.bare
  | .changeY dy => .changeY dy.bare
  | .forward steps => .forward steps.bare

/-- The command without the relays of its operands. -/
def Command.bare : Command ρ → Command Nat
  | .setVariable relative opcode ref value => .setVariable relative opcode ref value.bare
  | .addToList list item => .addToList list item.bare
  | .deleteOfList list index => .deleteOfList list index.bare
  | .deleteAllOfList list => .deleteAllOfList list
  | .insertAtList list item index => .insertAtList list item.bare index.bare
  | .replaceItemOfList list index item => .replaceItemOfList list index.bare item.bare
  | .move step opcode => .move step.bare opcode
  | .turn kind opcode degrees => .turn kind opcode degrees.bare
  | .adjust setting relative opcode amount => .adjust setting relative opcode amount.bare
  | .clearEffects => .clearEffects
  | .play sound => .play sound.bare
  | .stop option => .stop option

mutual
/-- The statement without relays, and so all statements in its bodies. -/
def Action.bare : Action ρ → Action Nat
  | .command c => .command c.bare
  | .playUntilDone sound => .playUntilDone sound.bare
  | .wait seconds => .wait seconds.bare
  | .waitUntil condition => .waitUntil condition.bare
  | .glide seconds x y => .glide seconds.bare x.bare y.bare
  | .branch opcode condition thenBody elseBody =>
    .branch opcode condition.bare (Action.bareAll thenBody) (Action.bareAll elseBody)
  | .repeatTimes times body => .repeatTimes times.bare (Action.bareAll body)
  | .forever body => .forever (Action.bareAll body)
  | .repeatUntil condition body => .repeatUntil condition.bare (Action.bareAll body)
/-- The statements of a body without relays. -/
def Action.bareAll : List (Action ρ) → List (Action Nat)
  | [] => []
  | a :: rest => a.bare :: Action.bareAll rest
end

end

/-! ### Installing -/

mutual
theorem Operand.bare_install : (o : Operand Unit) → (n : Nat) → (o.install n).1.bare = o.bare
  | .constant _, _ => rfl
  | .soundMenu _, _ => rfl
  | .source _ _, _ => rfl
  | .search q list _ argument, n => congrArg (Operand.search q list 0) (argument.bare_install (n + 1))
  | .unary op a, n => congrArg (Operand.unary op) (a.bare_install n)
  | .binary op a b, n => congrArg₂ (Operand.binary op) (a.bare_install n) (b.bare_install _)
  | .random a b, n => congrArg₂ Operand.random (a.bare_install n) (b.bare_install _)
  | .truth p, n => congrArg Operand.truth (p.bare_install n)
theorem Predicate.bare_install : (p : Predicate Unit) → (n : Nat) → (p.install n).1.bare = p.bare
  | .absent, _ => rfl
  | .compare c a b, n => congrArg₂ (Predicate.compare c) (a.bare_install n) (b.bare_install _)
  | .logic c opcode a b, n => congrArg₂ (Predicate.logic c opcode) (a.bare_install n) (b.bare_install _)
  | .not p, n => congrArg Predicate.not (p.bare_install n)
  | .listHas list _ item, n => congrArg (Predicate.listHas list 0) (item.bare_install (n + 1))
end

theorem Step.bare_install (step : Step Unit) (n : Nat) : (step.install n).1.bare = step.bare := by
  cases step with
  | goTo x y => exact congrArg₂ Step.goTo (x.bare_install n) (y.bare_install _)
  | setX x => exact congrArg Step.setX (x.bare_install n)
  | setY y => exact congrArg Step.setY (y.bare_install n)
  | changeX dx => exact congrArg Step.changeX (dx.bare_install n)
  | changeY dy => exact congrArg Step.changeY (dy.bare_install n)
  | forward steps => exact congrArg Step.forward (steps.bare_install n)

theorem Command.bare_install (c : Command Unit) (n : Nat) : (c.install n).1.bare = c.bare := by
  cases c with
  | setVariable relative opcode ref value => exact congrArg (Command.setVariable relative opcode ref) (value.bare_install n)
  | addToList list item => exact congrArg (Command.addToList list) (item.bare_install n)
  | deleteOfList list index => exact congrArg (Command.deleteOfList list) (index.bare_install n)
  | deleteAllOfList list => rfl
  | insertAtList list item index =>
    exact congrArg₂ (Command.insertAtList list) (item.bare_install n) (index.bare_install _)
  | replaceItemOfList list index item =>
    exact congrArg₂ (Command.replaceItemOfList list) (index.bare_install n) (item.bare_install _)
  | move step opcode => exact congrArg (Command.move · opcode) (step.bare_install n)
  | turn kind opcode degrees => exact congrArg (Command.turn kind opcode) (degrees.bare_install n)
  | adjust setting relative opcode amount => exact congrArg (Command.adjust setting relative opcode) (amount.bare_install n)
  | clearEffects => rfl
  | play sound => exact congrArg Command.play (sound.bare_install n)
  | stop option => rfl

mutual
theorem Action.bare_install : (a : Action Unit) → (n : Nat) → (a.install n).1.bare = a.bare
  | .command c, n => congrArg Action.command (c.bare_install n)
  | .playUntilDone sound, n => congrArg Action.playUntilDone (sound.bare_install n)
  | .wait seconds, n => congrArg Action.wait (seconds.bare_install n)
  | .waitUntil condition, n => congrArg Action.waitUntil (condition.bare_install n)
  | .glide seconds x y, n =>
    congr (congr (congrArg Action.glide (seconds.bare_install n)) (x.bare_install _)) (y.bare_install _)
  | .branch opcode condition thenBody elseBody, n =>
    congr (congr (congrArg (Action.branch opcode) (condition.bare_install n)) (Action.bareAll_install thenBody _))
      (Action.bareAll_install elseBody _)
  | .repeatTimes times body, n => congrArg₂ Action.repeatTimes (times.bare_install n) (Action.bareAll_install body _)
  | .forever body, n => congrArg Action.forever (Action.bareAll_install body n)
  | .repeatUntil condition body, n =>
    congrArg₂ Action.repeatUntil (condition.bare_install n) (Action.bareAll_install body _)
theorem Action.bareAll_install : (body : List (Action Unit)) → (n : Nat) →
    Action.bareAll (Action.installAll body n).1 = Action.bareAll body
  | [], _ => rfl
  | a :: rest, n => congrArg₂ List.cons (a.bare_install n) (Action.bareAll_install rest _)
end

/-! ### What is read and written -/

section
variable {ρ : Type}

/-- What an operand may read. -/
def Operand.sources (o : Operand ρ) : List Source := o.taps.map (·.2)

/-- What a condition may read. -/
def Predicate.sources (p : Predicate ρ) : List Source := p.taps.map (·.2)

/-- What a step may read to find where it leads. -/
def Step.sources (step : Step ρ) : List Source := step.taps.map (·.2)

/-- The variable or list that a command writes to, as a reporter would read it. -/
def Command.target? : Command ρ → Option Source
  | .setVariable _ _ ref _ => some (.variable ref)
  | .addToList list _ => some (.listContents list)
  | .deleteOfList list _ => some (.listContents list)
  | .deleteAllOfList list => some (.listContents list)
  | .insertAtList list _ _ => some (.listContents list)
  | .replaceItemOfList list _ _ => some (.listContents list)
  | _ => none

/-- What a command writes to, and what it may read. -/
def Command.sources (c : Command ρ) : List Source := c.target?.toList ++ c.taps.map (·.2)

/-- What a statement itself reads or writes, bodies apart. -/
def Action.sources : Action ρ → List Source
  | .command c => c.sources
  | .playUntilDone sound => sound.sources
  | .wait seconds => seconds.sources
  | .waitUntil condition => condition.sources
  | .glide seconds x y => seconds.sources ++ (x.sources ++ y.sources)
  | .branch _ condition _ _ => condition.sources
  | .repeatTimes times _ => times.sources
  | .forever _ => []
  | .repeatUntil condition _ => condition.sources

mutual
theorem Operand.map_taps_bare : (o : Operand ρ) → o.bare.taps.map (·.2) = o.taps.map (·.2)
  | .constant _ => rfl
  | .soundMenu _ => rfl
  | .source _ _ => rfl
  | .search _ list _ argument => congrArg (Source.listContents list :: ·) argument.map_taps_bare
  | .unary _ a => a.map_taps_bare
  | .binary _ a b => by simp [Operand.bare, Operand.taps, a.map_taps_bare, b.map_taps_bare]
  | .random a b => by simp [Operand.bare, Operand.taps, a.map_taps_bare, b.map_taps_bare]
  | .truth p => p.map_taps_bare
theorem Predicate.map_taps_bare : (p : Predicate ρ) → p.bare.taps.map (·.2) = p.taps.map (·.2)
  | .absent => rfl
  | .compare _ a b => by simp [Predicate.bare, Predicate.taps, a.map_taps_bare, b.map_taps_bare]
  | .logic _ _ a b => by simp [Predicate.bare, Predicate.taps, a.map_taps_bare, b.map_taps_bare]
  | .not p => p.map_taps_bare
  | .listHas list _ item => congrArg (Source.listContents list :: ·) item.map_taps_bare
end

@[simp] theorem Operand.sources_bare (o : Operand ρ) : o.bare.sources = o.sources := o.map_taps_bare

@[simp] theorem Predicate.sources_bare (p : Predicate ρ) : p.bare.sources = p.sources := p.map_taps_bare

theorem Step.map_taps_bare (step : Step ρ) : step.bare.taps.map (·.2) = step.taps.map (·.2) := by
  cases step <;> simp [Step.bare, Step.taps, Operand.map_taps_bare]

theorem Command.sources_bare (c : Command ρ) : c.bare.sources = c.sources := by
  cases c <;> simp [Command.bare, Command.sources, Command.target?, Command.taps, Operand.map_taps_bare, Step.map_taps_bare]

theorem Action.sources_bare (a : Action ρ) : a.bare.sources = a.sources := by
  cases a <;> simp [Action.bare, Action.sources, Command.sources_bare]

mutual
theorem Action.statements_bare : (a : Action ρ) → a.bare.statements = a.statements.map Action.bare
  | .command _ => rfl
  | .playUntilDone _ => rfl
  | .wait _ => rfl
  | .waitUntil _ => rfl
  | .glide .. => rfl
  | .branch opcode condition thenBody elseBody => by
    simp [Action.bare, Action.statements, Action.bodyStatements_bareAll thenBody, Action.bodyStatements_bareAll elseBody]
  | .repeatTimes times body => by simp [Action.bare, Action.statements, Action.bodyStatements_bareAll body]
  | .forever body => by simp [Action.bare, Action.statements, Action.bodyStatements_bareAll body]
  | .repeatUntil condition body => by simp [Action.bare, Action.statements, Action.bodyStatements_bareAll body]
theorem Action.bodyStatements_bareAll : (body : List (Action ρ)) →
    Action.bodyStatements (Action.bareAll body) = (Action.bodyStatements body).map Action.bare
  | [] => rfl
  | a :: rest => by
    simp [Action.bareAll, Action.bodyStatements, a.statements_bare, Action.bodyStatements_bareAll rest]
end

end

/-! ### Evaluation -/

/-- From equal random sources the computations report the same and leave equal random sources. -/
def Eval.Concur {α : Type} (m m' : Eval α) : Prop :=
  ∀ t t' : Traces, t'.random = t.random →
    (m' t').1 = (m t).1 ∧ (m' t').2.random = (m t).2.random ∧ t.random.taken ≤ (m t).2.random.taken

namespace Eval.Concur

variable {α β : Type}

theorem pure (a : α) : Concur (Pure.pure a) (Pure.pure a) := fun _ _ h => ⟨rfl, h, Nat.le_refl _⟩

theorem bind {m m' : Eval α} {k k' : α → Eval β} (hm : Concur m m') (hk : ∀ a, Concur (k a) (k' a)) :
    Concur (m >>= k) (m' >>= k') := fun t t' h => by
  obtain ⟨hresult, hrandom, hle⟩ := hm t t' h
  have second := hk (m t).1 (m t).2 (m' t').2 hrandom
  have run : (m >>= k) t = k (m t).1 (m t).2 := rfl
  have run' : (m' >>= k') t' = k' (m t).1 (m' t').2 := congrArg (fun a => k' a (m' t').2) hresult
  rw [run, run']
  exact ⟨second.1, second.2.1, Nat.le_trans hle second.2.2⟩

theorem takeDraw : Concur BlockScript.takeDraw BlockScript.takeDraw := fun t t' h => by
  have run : ∀ u : Traces, BlockScript.takeDraw u = (u.random.draw.1, { u with random := u.random.draw.2 }) := fun _ => rfl
  rw [run, run, h]
  exact ⟨rfl, rfl, Nat.le_succ _⟩

/-- What only tells a relay or the log. -/
theorem of_quiet {m m' : Eval α} (a : α) (h : ∀ t, (m t).1 = a ∧ (m t).2.random = t.random)
    (h' : ∀ t, (m' t).1 = a ∧ (m' t).2.random = t.random) : Concur m m' := fun t t' ht =>
  ⟨(h' t').1.trans (h t).1.symm, (h' t').2.trans (ht.trans (h t).2.symm), (h t).2.symm ▸ Nat.le_refl _⟩

variable (v : View) (relay relay' : Nat)

theorem findVariable (ref : Ref) : Concur (v.findVariable ref relay) (v.findVariable ref relay') := by
  unfold View.findVariable
  cases v.scene.findVariable? v.figure ref with
  | some a => exact of_quiet (some a) (fun _ => ⟨rfl, rfl⟩) fun _ => ⟨rfl, rfl⟩
  | none => exact of_quiet none (fun _ => ⟨rfl, rfl⟩) fun _ => ⟨rfl, rfl⟩

theorem findList (ref : Ref) : Concur (v.findList ref relay) (v.findList ref relay') := by
  unfold View.findList
  cases v.scene.findList? v.figure ref with
  | some a => exact of_quiet (some _) (fun _ => ⟨rfl, rfl⟩) fun _ => ⟨rfl, rfl⟩
  | none => exact of_quiet none (fun _ => ⟨rfl, rfl⟩) fun _ => ⟨rfl, rfl⟩

theorem read (s : Source) : Concur (v.read relay s) (v.read relay' s) := by
  cases s with
  | «variable» ref =>
    refine (findVariable v relay relay' ref).bind fun found => ?_
    cases found <;> exact .pure _
  | listContents ref =>
    refine (findList v relay relay' ref).bind fun found => ?_
    cases found <;> exact .pure _
  | listLength ref =>
    refine (findList v relay relay' ref).bind fun found => ?_
    cases found <;> exact .pure _
  | pose c opcode => exact of_quiet _ (fun _ => ⟨rfl, rfl⟩) fun _ => ⟨rfl, rfl⟩
  | volume => exact of_quiet _ (fun _ => ⟨rfl, rfl⟩) fun _ => ⟨rfl, rfl⟩
  | pointer c opcode =>
    simp only [View.read]
    cases v.scene.pointer with
    | tracked x y => exact of_quiet _ (fun _ => ⟨rfl, rfl⟩) fun _ => ⟨rfl, rfl⟩
    | fixed x y => exact of_quiet _ (fun _ => ⟨rfl, rfl⟩) fun _ => ⟨rfl, rfl⟩

theorem resolveIndex (index : Value) (length : Nat) (acceptAll : Bool) :
    Concur (BlockScript.resolveIndex index length acceptAll) (BlockScript.resolveIndex index length acceptAll) := by
  unfold BlockScript.resolveIndex
  split
  · exact takeDraw.bind fun _ => .pure _
  · exact .pure _

theorem answer (items : List Value) (argument : Value) (q : ListQuery) :
    Concur (q.answer items argument) (q.answer items argument) := by
  cases q with
  | item =>
    refine (resolveIndex argument items.length false).bind fun i => ?_
    cases i <;> exact .pure _
  | position => exact .pure _

end Eval.Concur

mutual
theorem Operand.concur_bare (v : View) : (o : Operand Nat) → (o.eval v).Concur (o.bare.eval v)
  | .constant x => .pure x
  | .soundMenu sound => .pure _
  | .source s relay => .read v relay 0 s
  | .search q list relay argument => by
    simp only [Operand.eval, Operand.bare]
    refine (Eval.Concur.findList v relay 0 list).bind fun found => ?_
    cases found with
    | none => exact .pure _
    | some items => exact (argument.concur_bare v).bind fun x => .answer items x q
  | .unary op a => by
    simp only [Operand.eval, Operand.bare]
    exact (a.concur_bare v).bind fun _ => .pure _
  | .binary op a b => by
    simp only [Operand.eval, Operand.bare]
    exact (a.concur_bare v).bind fun _ => (b.concur_bare v).bind fun _ => .pure _
  | .random a b => by
    simp only [Operand.eval, Operand.bare]
    exact (a.concur_bare v).bind fun _ => (b.concur_bare v).bind fun _ => Eval.Concur.takeDraw.bind fun _ => .pure _
  | .truth p => by
    simp only [Operand.eval, Operand.bare]
    exact (p.concur_bare v).bind fun _ => .pure _
theorem Predicate.concur_bare (v : View) : (p : Predicate Nat) → (p.test v).Concur (p.bare.test v)
  | .absent => .pure _
  | .compare c a b => by
    simp only [Predicate.test, Predicate.bare]
    exact (a.concur_bare v).bind fun _ => (b.concur_bare v).bind fun _ => .pure _
  | .logic c opcode a b => by
    simp only [Predicate.test, Predicate.bare]
    refine (a.concur_bare v).bind fun x => ?_
    cases c <;> cases x
    · exact .pure false
    · exact b.concur_bare v
    · exact b.concur_bare v
    · exact .pure true
  | .not p => by
    simp only [Predicate.test, Predicate.bare]
    exact (p.concur_bare v).bind fun _ => .pure _
  | .listHas list relay item => by
    simp only [Predicate.test, Predicate.bare]
    refine (Eval.Concur.findList v relay 0 list).bind fun found => ?_
    cases found with
    | none => exact .pure _
    | some items => exact (item.concur_bare v).bind fun _ => .pure _
end

end BlockScript
