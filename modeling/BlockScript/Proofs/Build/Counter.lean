import BlockScript.Proofs.Build.Reachable

/-!
Construction on a builder that counts its depth. The counter belongs to the builder and is shared by all that
is built on it: a block or a body raises it while it is being built and puts it back afterwards. On every
dictionary construction ends, the counter stays within its bound and comes back to where it was, whether
construction succeeds or fails, and what is built is what a builder without a counter gives with the room that
is left. So builders can be shared, by any scripts and in any order.
-/
namespace BlockScript

/-! ### Constructions that count -/

/-- What a construction leaves on a builder with a counter. -/
structure Ran (α : Type) where
  outcome : Except BuildError α
  logs : List LogRecord
  /-- The counter afterwards. -/
  depth : Nat
  /-- The highest value that the counter had. -/
  peak : Nat

/-- A construction on a builder with a counter; nothing where it is cut off. -/
def Counted (α : Type) := (depth : Nat) → Option (Ran α)

namespace Counted

variable {α β : Type}

/-- Succeeds, with the counter as it is. -/
def done (a : α) : Counted α := fun depth => some ⟨.ok a, [], depth, depth⟩

/-- Fails, with the counter as it is. -/
def fail (e : BuildError) : Counted α := fun depth => some ⟨.error e, [], depth, depth⟩

/-- Leaves a record. -/
def note (r : LogRecord) : Counted Unit := fun depth => some ⟨.ok (), [r], depth, depth⟩

/-- Goes on with the result and with the counter that was left. -/
def andThen (c : Counted α) (f : α → Counted β) : Counted β := fun depth =>
  match c depth with
  | none => none
  | some ⟨.error e, logs, depth, peak⟩ => some ⟨.error e, logs, depth, peak⟩
  | some ⟨.ok a, logs, depth, peak⟩ =>
    (f a depth).map fun r => ⟨r.outcome, logs ++ r.logs, r.depth, max peak r.peak⟩

instance : MonadBuild Counted where
  pure := done
  bind := andThen
  fail := fail
  note := note

/-- Goes on after a failure too. -/
def attempt (c : Counted α) : Counted (Except BuildError α) := fun depth =>
  (c depth).map fun r => ⟨.ok r.outcome, r.logs, r.depth, r.peak⟩

/-- A construction that is cut off. -/
def cutOff : Counted α := fun _ => none

/-- Builds on the next level, if there is one, and puts the counter back. -/
def nested (id : String) (c : Counted α) : Counted α := fun depth =>
  if maxBuildDepth ≤ depth then fail (.tooDeep id) depth
  else (c (depth + 1)).map fun r => ⟨r.outcome, r.logs, depth, max (depth + 1) r.peak⟩

end Counted

namespace Builder

/-- The reporter of an id, through at most `fuel` reporters inside each other. -/
def reporterOn (b : Builder) : (fuel : Nat) → String → Counted (Reporter Unit)
  | 0, _ => .cutOff
  | fuel + 1, id =>
    match b.graph.get? id with
    | none => .fail (.missingBlock id)
    | some node =>
      match b.registries.reporters.resolve? node.opcode with
      | none => .fail (.unknownOpcode id node.opcode .reporter)
      | some (opcode, kind) => .nested id (kind.build (b.reporterOn fuel) ⟨id, opcode, node⟩)

/-- The statement of a node, where `body` gives its bodies. -/
def actionOn (b : Builder) (fuel : Nat) (body : String → Counted (List (Action Unit))) (id : String) (node : BlockNode) :
    Counted (Action Unit) :=
  match b.registries.actions.resolve? node.opcode with
  | none => .fail (.unknownOpcode id node.opcode .statement)
  | some (opcode, kind) =>
    .nested id (kind.build ⟨b.reporterOn fuel, fun start => .nested id (body start)⟩ ⟨id, opcode, node⟩)

/-- What a chain takes over of a block: the statement, or a record of what went wrong. -/
def taken {m : Type → Type} [MonadBuild m] (id : String) : Except BuildError (Action Unit) → m (List (Action Unit))
  | .ok a => pure [a]
  | .error e => do
    let problem := e.message
    MonadBuild.note (.error s!"skipping block `{id}`: {problem}")
    return []

/-- The chain from a start behind blocks that were seen, through at most `fuel` blocks behind and inside each
other. -/
def substackOn (b : Builder) : (fuel : Nat) → (seen : List String) → Option String → Counted (List (Action Unit))
  | _, _, none => .done []
  | 0, _, some _ => .cutOff
  | fuel + 1, seen, some id =>
    if seen.contains id then do
      MonadBuild.note (.error s!"`next` chain loops back to block `{id}`")
      return []
    else
      match b.graph.get? id with
      | none => do
        MonadBuild.note (.warn (BuildError.message (.missingBlock id)))
        return []
      | some node => do
        let built ← (b.actionOn fuel (fun start => b.substackOn fuel [] (some start)) id node).attempt
        let block ← taken id built
        let rest ← b.substackOn fuel (id :: seen) node.follower
        return block ++ rest

/-- The body of the script under a hat, on a builder that counts. -/
def scriptOn (b : Builder) (fuel : Nat) (hat : String) : Counted (List (Action Unit)) :=
  match b.graph.get? hat with
  | some node => b.substackOn fuel [] node.next
  | none => do
    MonadBuild.note (.warn s!"script hat `{hat}` does not exist")
    return []

/-- Several scripts, one after the other. -/
def scriptsOn (b : Builder) (fuel : Nat) : List String → Counted (List (List (Action Unit)))
  | [] => .done []
  | hat :: hats => do
    let first ← b.scriptOn fuel hat
    let others ← b.scriptsOn fuel hats
    return first :: others

end Builder

/-! ### Blocks are built alike in all ways of construction -/

/-- A relation between two ways of construction that their steps keep. -/
structure BuildRelation (m n : Type → Type) [MonadBuild m] [MonadBuild n] where
  Rel : {α : Type} → m α → n α → Prop
  pure : ∀ {α : Type} (a : α), Rel (pure a) (pure a)
  bind : ∀ {α β : Type} {x : m α} {y : n α} {f : α → m β} {g : α → n β}, Rel x y → (∀ a, Rel (f a) (g a)) →
    Rel (x >>= f) (y >>= g)
  fail : ∀ {α : Type} (e : BuildError), Rel (MonadBuild.fail e : m α) (MonadBuild.fail e)
  note : ∀ r, Rel (MonadBuild.note r) (MonadBuild.note r)

namespace BuildRelation

variable {m n : Type → Type} [MonadBuild m] [MonadBuild n] (R : BuildRelation m n)
  {f : String → m (Reporter Unit)} {g : String → n (Reporter Unit)}

theorem operand (h : ∀ id, R.Rel (f id) (g id)) (spec : BlockSpec) (name : String) :
    R.Rel (spec.operand f name) (spec.operand g name) := by
  unfold BlockSpec.operand
  split
  case h_7 id _ => exact R.bind (h id) fun _ => R.pure _
  all_goals exact R.pure _

theorem condition (h : ∀ id, R.Rel (f id) (g id)) (spec : BlockSpec) (name : String) :
    R.Rel (spec.condition f name) (spec.condition g name) := by
  unfold BlockSpec.condition
  split
  case h_3 id _ =>
    refine R.bind (h id) fun r => ?_
    cases r with
    | predicate p => exact R.pure p
    | value o => exact R.fail _
  case h_4 => exact R.fail _
  all_goals exact R.pure _

theorem body {k : String → m (List (Action Unit))} {l : String → n (List (Action Unit))} (h : ∀ id, R.Rel (k id) (l id))
    (spec : BlockSpec) (name : String) : R.Rel (spec.body k name) (spec.body l name) := by
  unfold BlockSpec.body
  split
  case h_1 id _ => exact h id
  case h_4 => exact R.bind (R.note _) fun _ => R.pure _
  all_goals exact R.pure _

theorem field (spec : BlockSpec) (name : String) : R.Rel (spec.field name) (spec.field name) := by
  unfold BlockSpec.field
  split
  · exact R.pure _
  · exact R.fail _

theorem reference (spec : BlockSpec) (name : String) : R.Rel (spec.reference name) (spec.reference name) :=
  R.bind (R.field spec name) fun _ => R.pure _

theorem reporter (h : ∀ id, R.Rel (f id) (g id)) (kind : ReporterKind) (spec : BlockSpec) :
    R.Rel (kind.build f spec) (kind.build g spec) := by
  have operand := R.operand h spec
  have condition := R.condition h spec
  cases kind
  case arithmetic | comparison | random | join | contains | letterOf =>
    exact R.bind (operand _) fun _ => R.bind (operand _) fun _ => R.pure _
  case logic => exact R.bind (condition _) fun _ => R.bind (condition _) fun _ => R.pure _
  case not => exact R.bind (condition _) fun _ => R.pure _
  case round | length => exact R.bind (operand _) fun _ => R.pure _
  case mathop =>
    refine R.bind (R.field spec _) fun f => ?_
    split
    · exact R.bind (operand _) fun _ => R.pure _
    · exact R.fail _
  case «variable» | listContents | lengthOfList => exact R.bind (R.reference spec _) fun _ => R.pure _
  case itemOfList | itemNumOfList | listContainsItem =>
    exact R.bind (R.reference spec _) fun _ => R.bind (operand _) fun _ => R.pure _
  case soundsMenu => exact R.bind (R.field spec _) fun _ => R.pure _
  case pose | volume | pointer => exact R.pure _

theorem step {k : String → m (Operand Unit)} {l : String → n (Operand Unit)} (h : ∀ name, R.Rel (k name) (l name))
    (opcode : String) : R.Rel (ActionKind.step k opcode) (ActionKind.step l opcode) := by
  unfold ActionKind.step
  split
  case h_1 => exact R.bind (h _) fun _ => R.bind (h _) fun _ => R.pure _
  all_goals exact R.bind (h _) fun _ => R.pure _

theorem setting (spec : BlockSpec) : R.Rel (ActionKind.setting spec) (ActionKind.setting spec) := by
  unfold ActionKind.setting
  split
  · exact R.pure _
  · refine R.bind (R.field spec _) fun f => ?_
    split
    · exact R.pure _
    · exact R.fail _

theorem action {k : String → m (List (Action Unit))} {l : String → n (List (Action Unit))} (h : ∀ id, R.Rel (f id) (g id))
    (hbody : ∀ id, R.Rel (k id) (l id)) (kind : ActionKind) (spec : BlockSpec) :
    R.Rel (kind.build ⟨f, k⟩ spec) (kind.build ⟨g, l⟩ spec) := by
  have operand := R.operand h spec
  have condition := R.condition h spec
  have body := R.body hbody spec
  cases kind
  case branch =>
    simp only [ActionKind.build]
    split
    · exact R.bind (body _) fun _ => R.bind (condition _) fun _ => R.bind (body _) fun _ => R.pure _
    · exact R.bind (R.pure _) fun _ => R.bind (condition _) fun _ => R.bind (body _) fun _ => R.pure _
  case repeatTimes => exact R.bind (operand _) fun _ => R.bind (body _) fun _ => R.pure _
  case forever => exact R.bind (body _) fun _ => R.pure _
  case repeatUntil => exact R.bind (condition _) fun _ => R.bind (body _) fun _ => R.pure _
  case wait | turn | play => exact R.bind (operand _) fun _ => R.pure _
  case waitUntil => exact R.bind (condition _) fun _ => R.pure _
  case stop =>
    refine R.bind (R.field spec _) fun f => ?_
    split
    · exact R.pure _
    · exact R.fail _
  case setVariable | addToList | deleteOfList =>
    exact R.bind (R.reference spec _) fun _ => R.bind (operand _) fun _ => R.pure _
  case insertAtList | replaceItemOfList =>
    exact R.bind (R.reference spec _) fun _ => R.bind (operand _) fun _ => R.bind (operand _) fun _ => R.pure _
  case deleteAllOfList => exact R.bind (R.reference spec _) fun _ => R.pure _
  case move => exact R.bind (R.step operand _) fun _ => R.pure _
  case glide => exact R.bind (operand _) fun _ => R.bind (operand _) fun _ => R.bind (operand _) fun _ => R.pure _
  case adjust => exact R.bind (R.setting spec) fun _ => R.bind (operand _) fun _ => R.pure _
  case clearEffects => exact R.pure _

end BuildRelation

/-! ### The counter comes back -/

/-- A construction that succeeded with what it logged. -/
def Build.logged {α : Type} (x : α × List LogRecord) : Build α := ⟨.ok x.1, x.2⟩

/-- A counted construction ends, with the counter where it was and within its bound all the time, and gives what
a construction without a counter gives. -/
def Returns {α : Type} (depth : Nat) (c : Counted α) (b : Build α) : Prop :=
  ∃ peak ≤ maxBuildDepth, c depth = some ⟨b.outcome, b.logs, depth, peak⟩

namespace Returns

variable {α β : Type} {depth : Nat}

theorem done (h : depth ≤ maxBuildDepth) (a : α) : Returns depth (.done a) (.done a) := ⟨depth, h, rfl⟩

theorem fail (h : depth ≤ maxBuildDepth) (e : BuildError) : Returns depth (.fail e : Counted α) (.fail e) := ⟨depth, h, rfl⟩

theorem note (h : depth ≤ maxBuildDepth) (r : LogRecord) : Returns depth (.note r) (.note r) := ⟨depth, h, rfl⟩

theorem bind {c : Counted α} {b : Build α} {f : α → Counted β} {g : α → Build β} (hc : Returns depth c b)
    (hf : ∀ a, Returns depth (f a) (g a)) : Returns depth (c >>= f) (b >>= g) := by
  obtain ⟨outcome, logs⟩ := b
  obtain ⟨peak, hpeak, hrun⟩ := hc
  show ∃ peak ≤ maxBuildDepth, c.andThen f depth = some ⟨(Build.andThen _ g).outcome, (Build.andThen _ g).logs, depth, peak⟩
  cases outcome with
  | error e => exact ⟨peak, hpeak, by simp only [Counted.andThen, hrun, Build.andThen]⟩
  | ok a =>
    obtain ⟨peak', hpeak', hrun'⟩ := hf a
    exact ⟨max peak peak', Nat.max_le.mpr ⟨hpeak, hpeak'⟩, by simp only [Counted.andThen, hrun, hrun', Build.andThen, Option.map_some]⟩

theorem attempt {c : Counted α} {b : Build α} (h : Returns depth c b) : Returns depth c.attempt ⟨.ok b.outcome, b.logs⟩ := by
  obtain ⟨peak, hpeak, hrun⟩ := h
  exact ⟨peak, hpeak, by simp only [Counted.attempt, hrun, Option.map_some]⟩

/-- A level deeper the counter is one higher, and it is put back whatever the outcome. -/
theorem nested {c : Counted α} {b : Build α} (id : String) (hd : depth < maxBuildDepth) (h : Returns (depth + 1) c b) :
    Returns depth (.nested id c) b := by
  obtain ⟨peak, hpeak, hrun⟩ := h
  refine ⟨max (depth + 1) peak, Nat.max_le.mpr ⟨hd, hpeak⟩, ?_⟩
  simp only [Counted.nested, if_neg (Nat.not_le.mpr hd), hrun, Option.map_some]

theorem nested_full {c : Counted α} (id : String) (hd : depth = maxBuildDepth) :
    Returns depth (.nested id c) (.fail (.tooDeep id)) := by
  refine ⟨depth, Nat.le_of_eq hd, ?_⟩
  simp only [Counted.nested, if_pos (Nat.le_of_eq hd.symm)]
  rfl

end Returns

/-- Blocks are built alike with a counter and without. -/
def returning {depth : Nat} (h : depth ≤ maxBuildDepth) : BuildRelation Counted Build where
  Rel := Returns depth
  pure a := .done h a
  bind hx hf := hx.bind hf
  fail e := .fail h e
  note r := .note h r

namespace Builder

variable {b : Builder}

theorem reporterOn_returns {room depth fuel : Nat} (hroom : depth + room = maxBuildDepth) (hfuel : room < fuel) (id : String) :
    Returns depth (b.reporterOn fuel id) (b.reporterAt room id) := by
  induction fuel generalizing room depth id with
  | zero => cases hfuel
  | succ fuel ih =>
    have hdepth : depth ≤ maxBuildDepth := by omega
    rw [reporterOn, reporterAt]
    cases b.graph.get? id with
    | none => exact .fail hdepth _
    | some node =>
      dsimp only
      cases b.registries.reporters.resolve? node.opcode with
      | none => exact .fail hdepth _
      | some entry =>
        cases room with
        | zero => exact .nested_full id hroom
        | succ room =>
          have hnext : depth + 1 ≤ maxBuildDepth := by omega
          refine .nested id hnext ?_
          exact (returning hnext).reporter (fun id => ih (by omega) (by omega) id) entry.2 _

/-- What is built of a node in the room that is left, where it is known for its bodies. -/
theorem actionOn_returns {room depth fuel : Nat} (hroom : depth + room = maxBuildDepth) (hfuel : room ≤ fuel)
    {body : String → Counted (List (Action Unit))}
    (hbody : ∀ below, depth + 2 + below = maxBuildDepth → ∀ start,
      Returns (depth + 2) (body start) (.logged (b.substackAt below (some start))))
    (id : String) (node : BlockNode) : Returns depth (b.actionOn fuel body id node) (b.blockAt room id node) := by
  have hdepth : depth ≤ maxBuildDepth := by omega
  rw [actionOn, blockAt, actionAt]
  cases b.registries.actions.resolve? node.opcode with
  | none => exact .fail hdepth _
  | some entry =>
    cases room with
    | zero => exact .nested_full id hroom
    | succ room =>
      have hnext : depth + 1 ≤ maxBuildDepth := by omega
      refine .nested id hnext ?_
      have reporter : ∀ id, Returns (depth + 1) (b.reporterOn fuel id) (b.reporterAt room id) :=
        reporterOn_returns (by omega) (by omega)
      refine (returning hnext).action reporter (fun start => ?_) entry.2 _
      -- The statement has taken one level, and its body takes another.
      cases room with
      | zero => exact .nested_full id hroom
      | succ room => exact .nested id (by omega) (hbody room (by omega) start)

/-! ### Chains -/

/-- The blocks of a chain and the records of building them, behind blocks that were seen. -/
def walkFrom (b : Builder) (action : String → BlockNode → Build (Action Unit)) (links : Nat) (seen : List String)
    (start : Option String) : List (Action Unit) × List LogRecord :=
  let (ids, ending) := b.graph.chainFrom links seen start
  let built := ids.map (link action b)
  (built.flatMap (·.1), built.flatMap (·.2) ++ endRecord ending)

section
variable {action : String → BlockNode → Build (Action Unit)} {links : Nat} {seen : List String} {id : String}

theorem walkFrom_none : b.walkFrom action links seen none = ([], []) := by
  simp [walkFrom, BlockGraph.chainFrom, endRecord]

theorem walkFrom_seen (hseen : id ∈ seen) : b.walkFrom action links seen (some id) = ([], endRecord (.loops id)) := by
  simp [walkFrom, BlockGraph.chainFrom_seen hseen]

theorem walkFrom_missing (hseen : id ∉ seen) (hnode : b.graph.get? id = none) :
    b.walkFrom action links seen (some id) = ([], endRecord (.missing id)) := by
  simp [walkFrom, BlockGraph.chainFrom_missing hseen hnode]

theorem walkFrom_cons {node : BlockNode} (hseen : id ∉ seen) (hnode : b.graph.get? id = some node) :
    b.walkFrom action (links + 1) seen (some id) =
      ((b.link action id).1 ++ (b.walkFrom action links (id :: seen) node.follower).1,
        (b.link action id).2 ++ (b.walkFrom action links (id :: seen) node.follower).2) := by
  simp [walkFrom, BlockGraph.chainFrom, hseen, hnode]

end

/-- A chain takes over what is built of a block and goes on. -/
theorem link_then {action : String → BlockNode → Build (Action Unit)} {id : String} {node : BlockNode}
    (hnode : b.graph.get? id = some node) (rest : List (Action Unit) × List LogRecord) :
    (do
      let built ← (⟨.ok (action id node).outcome, (action id node).logs⟩ : Build _)
      let block ← taken id built
      let others ← Build.logged rest
      return block ++ others) =
      Build.logged ((b.link action id).1 ++ rest.1, (b.link action id).2 ++ rest.2) := by
  simp only [link, Build.logged, hnode, Build.bind_eq, Build.andThen, Build.pure_eq]
  cases (action id node).outcome with
  | ok a => simp [taken, Build.pure_eq, Build.done]
  | error e => simp [taken, Build.bind_eq, Build.andThen, Build.pure_eq, Build.done, Build.note, MonadBuild.note]

/-- The fuel that chains take in so many levels of room. -/
def chainFuel (b : Builder) (room : Nat) : Nat := (room + 1) * (b.graph.size + 1) + 1

theorem chainFuel_below (b : Builder) (room : Nat) : b.graph.size + b.chainFuel room + 1 ≤ b.chainFuel (room + 2) := by
  have hmul : (room + 2 + 1) * (b.graph.size + 1) = (room + 1) * (b.graph.size + 1) + 2 * (b.graph.size + 1) := by
    rw [← Nat.add_mul]
  unfold chainFuel
  omega

theorem room_lt_chainFuel (b : Builder) (room : Nat) : room + 1 < b.chainFuel room :=
  Nat.lt_succ_of_le (Nat.le_mul_of_pos_right _ (Nat.succ_pos _))

/-- A chain takes one link for each block that it has not met before. -/
theorem substackOn_walks {room depth fuel links : Nat} (hroom : depth + room = maxBuildDepth) {seen : List String}
    (hlinks : b.graph.Suffices links seen) (hfuel : links + b.chainFuel room ≤ fuel)
    (hbody : ∀ below, depth + 2 + below = maxBuildDepth → ∀ fuel, b.graph.size + b.chainFuel below ≤ fuel → ∀ start,
      Returns (depth + 2) (b.substackOn fuel [] (some start)) (.logged (b.substackAt below (some start))))
    (start : Option String) :
    Returns depth (b.substackOn fuel seen start) (.logged (b.walkFrom (b.blockAt room) links seen start)) := by
  have hdepth : depth ≤ maxBuildDepth := by omega
  have hpositive := b.room_lt_chainFuel room
  induction fuel generalizing links seen start with
  | zero => omega
  | succ fuel ih =>
    cases start with
    | none =>
      rw [substackOn, walkFrom_none]
      exact .done hdepth []
    | some id =>
      rw [substackOn]
      by_cases hseen : id ∈ seen
      · rw [walkFrom_seen hseen]
        simp only [List.contains_eq_mem, hseen, decide_true, if_true]
        exact .bind (.note hdepth _) fun _ => .done hdepth []
      · simp only [List.contains_eq_mem, hseen, decide_false, Bool.false_eq_true, if_false]
        cases hnode : b.graph.get? id with
        | none =>
          rw [walkFrom_missing hseen hnode]
          exact .bind (.note hdepth _) fun _ => .done hdepth []
        | some node =>
          obtain ⟨links, rfl, hlinks'⟩ := hlinks.link hseen hnode
          have action : Returns depth (b.actionOn fuel (fun start => b.substackOn fuel [] (some start)) id node)
              (b.blockAt room id node) := by
            refine actionOn_returns hroom (by omega) (fun below hbelow start => hbody below hbelow fuel ?_ start) id node
            obtain rfl : room = below + 2 := by omega
            have := b.chainFuel_below below
            omega
          have rest := ih hlinks' (by omega) node.follower
          rw [walkFrom_cons hseen hnode, ← link_then hnode]
          refine action.attempt.bind fun built => ?_
          refine .bind ?_ fun block => .bind rest fun others => .done hdepth _
          cases built with
          | ok a => exact .done hdepth _
          | error e => exact .bind (.note hdepth _) fun _ => .done hdepth _

theorem substackOn_returns {room depth fuel : Nat} (hroom : depth + room = maxBuildDepth)
    (hfuel : b.graph.size + b.chainFuel room ≤ fuel) (start : Option String) :
    Returns depth (b.substackOn fuel [] start) (.logged (b.substackAt room start)) := by
  induction room using Nat.strongRecOn generalizing depth fuel start with
  | ind room ih =>
    rw [substackAt_eq]
    refine substackOn_walks hroom b.graph.suffices_size hfuel (fun below hbelow fuel hfuel start => ?_) start
    exact ih below (by omega) hbelow hfuel (some start)

/-! ### Scripts -/

/-- The body of the script under a hat, with room for so many levels. -/
def scriptAt (b : Builder) (room : Nat) (hat : String) : List (Action Unit) × List LogRecord :=
  match b.graph.get? hat with
  | some node => b.substackAt room node.next
  | none => ([], [.warn s!"script hat `{hat}` does not exist"])

theorem scriptOn_returns {room depth fuel : Nat} (hroom : depth + room = maxBuildDepth)
    (hfuel : b.graph.size + b.chainFuel room ≤ fuel) (hat : String) :
    Returns depth (b.scriptOn fuel hat) (.logged (b.scriptAt room hat)) := by
  have hdepth : depth ≤ maxBuildDepth := by omega
  unfold scriptOn scriptAt
  cases b.graph.get? hat with
  | none => exact .bind (.note hdepth _) fun _ => .done hdepth []
  | some node => exact substackOn_returns hroom hfuel node.next

/-- Scripts that are built one after the other are what they are alone, for each finds the counter as the first
found it. -/
theorem scriptsOn_returns {room depth fuel : Nat} (hroom : depth + room = maxBuildDepth)
    (hfuel : b.graph.size + b.chainFuel room ≤ fuel) (hats : List String) :
    Returns depth (b.scriptsOn fuel hats)
      (.logged (hats.map fun hat => (b.scriptAt room hat).1, hats.flatMap fun hat => (b.scriptAt room hat).2)) := by
  have hdepth : depth ≤ maxBuildDepth := by omega
  induction hats with
  | nil => exact .done hdepth []
  | cons hat hats ih =>
    have hlogged : Build.logged ((hat :: hats).map fun hat => (b.scriptAt room hat).1,
          (hat :: hats).flatMap fun hat => (b.scriptAt room hat).2) =
        (do
          let first ← Build.logged (b.scriptAt room hat)
          let others ← Build.logged (hats.map fun hat => (b.scriptAt room hat).1,
            hats.flatMap fun hat => (b.scriptAt room hat).2)
          return first :: others) := by
      simp [Build.bind_eq, Build.andThen, Build.logged, Build.pure_eq, Build.done]
    rw [hlogged]
    exact .bind (scriptOn_returns hroom hfuel hat) fun first => .bind ih fun others => .done hdepth _

theorem chainFuel_mono (b : Builder) {room room' : Nat} (h : room ≤ room') : b.chainFuel room ≤ b.chainFuel room' :=
  Nat.succ_le_succ (Nat.mul_le_mul_right _ (Nat.succ_le_succ h))

/-- Construction ends on every dictionary and leaves the builder as it was. From every value of the counter within
its bound, reporters, chains and scripts come to an end whatever the links between blocks; the counter stays within
its bound on the way and is what it was afterwards, also where construction fails; and what is built is what the
room that is left allows. So any scripts in any order are on one builder what each of them is on a new one. -/
theorem building_restores_depth (b : Builder) {depth : Nat} (h : depth ≤ maxBuildDepth) :
    ∃ enough, ∀ fuel, enough ≤ fuel →
      (∀ id, Returns depth (b.reporterOn fuel id) (b.reporterAt (maxBuildDepth - depth) id)) ∧
      (∀ start, Returns depth (b.substackOn fuel [] start) (.logged (b.substackAt (maxBuildDepth - depth) start))) ∧
      (∀ hat, Returns depth (b.scriptOn fuel hat) (.logged (b.scriptAt (maxBuildDepth - depth) hat))) ∧
      (∀ hat, Returns 0 (b.scriptOn fuel hat) (.logged (b.script hat))) ∧
      ∀ hats, Returns 0 (b.scriptsOn fuel hats)
        (.logged (hats.map fun hat => (b.script hat).1, hats.flatMap fun hat => (b.script hat).2)) := by
  refine ⟨b.graph.size + b.chainFuel maxBuildDepth, fun fuel hfuel => ?_⟩
  have hroom : depth + (maxBuildDepth - depth) = maxBuildDepth := by omega
  have hfuel' : b.graph.size + b.chainFuel (maxBuildDepth - depth) ≤ fuel :=
    Nat.le_trans (Nat.add_le_add_left (b.chainFuel_mono (Nat.sub_le _ _)) _) hfuel
  have hreporter := b.room_lt_chainFuel (maxBuildDepth - depth)
  have hfull : 0 + maxBuildDepth = maxBuildDepth := Nat.zero_add _
  exact ⟨reporterOn_returns hroom (by omega), substackOn_returns hroom hfuel', scriptOn_returns hroom hfuel',
    scriptOn_returns hfull hfuel, scriptsOn_returns hfull hfuel⟩

/-- A loop that is its own body and whose count is its own operand, and a chain that comes back to it through a
block of no kind. -/
def knot : BlockGraph where
  nodes := [
    ("a", { opcode := "control_repeat", next := some "b", parent := none, fields := [], shadow := false, topLevel := true,
            inputs := [("TIMES", .block "r"), ("SUBSTACK", .block "a")] }),
    ("b", { opcode := "looks_nonexistent", next := some "a", parent := none, fields := [], shadow := false,
            topLevel := false, inputs := [] }),
    ("r", { opcode := "operator_round", next := none, parent := some "a", fields := [], shadow := false,
            topLevel := false, inputs := [("NUM", .block "r")] })]

theorem knot_restores_depth : 255 ≤ maxBuildDepth ∧ ∃ enough, ∀ fuel, enough ≤ fuel →
    Returns 255 ((ofGraph knot).substackOn fuel [] (some "a")) (.logged ((ofGraph knot).substackAt 1 (some "a"))) ∧
    Returns 0 ((ofGraph knot).scriptsOn fuel ["b", "a", "b"])
      (.logged ([((ofGraph knot).script "b").1, ((ofGraph knot).script "a").1, ((ofGraph knot).script "b").1],
        ((ofGraph knot).script "b").2 ++ (((ofGraph knot).script "a").2 ++ (((ofGraph knot).script "b").2 ++ [])))) := by
  have bound : 255 ≤ maxBuildDepth := by decide
  obtain ⟨enough, h⟩ := building_restores_depth (ofGraph knot) bound
  exact ⟨bound, enough, fun fuel hfuel => ⟨(h fuel hfuel).2.1 _, (h fuel hfuel).2.2.2.2 _⟩⟩

end Builder
end BlockScript
