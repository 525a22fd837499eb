import BlockScript.Build.Catalog

/-!
What kinds of blocks read. A signature lists the inputs that a kind reads, with the use it makes of each,
and the fields it needs. A kind reads no other input, and where its fields are supported and its
inputs are there it is built, with its own operation code and with the bodies that its inputs name.
-/
namespace BlockScript

/-- The use that a block makes of an input. -/
inductive SlotKind where
  | value | truth | body
  deriving DecidableEq

/-- What a kind of block reads: inputs, with the use made of each, and fields. -/
structure Signature where
  slots : List (SlotKind × String)
  /-- The fields that are needed, with the values that are supported. -/
  fields : List (String × (String → Bool))

namespace Signature

/-- Inputs that are read as values. -/
def values (names : List String) : List (SlotKind × String) := names.map (.value, ·)

/-- Inputs that are read as conditions. -/
def truths (names : List String) : List (SlotKind × String) := names.map (.truth, ·)

/-- A field of which every value is supported. -/
def anyField (name : String) : String × (String → Bool) := (name, fun _ => true)

end Signature

namespace ReporterKind

open Signature

/-- The signature of a kind. -/
def signature : ReporterKind → Signature
  | .arithmetic => ⟨values ["NUM1", "NUM2"], []⟩
  | .round => ⟨values ["NUM"], []⟩
  | .mathop => ⟨values ["NUM"], [("OPERATOR", fun s => (MathFunction.ofName? s).isSome)]⟩
  | .comparison => ⟨values ["OPERAND1", "OPERAND2"], []⟩
  | .logic => ⟨truths ["OPERAND1", "OPERAND2"], []⟩
  | .not => ⟨truths ["OPERAND"], []⟩
  | .random => ⟨values ["FROM", "TO"], []⟩
  | .join => ⟨values ["STRING1", "STRING2"], []⟩
  | .length => ⟨values ["STRING"], []⟩
  | .contains => ⟨values ["STRING1", "STRING2"], []⟩
  | .letterOf => ⟨values ["LETTER", "STRING"], []⟩
  | .variable => ⟨[], [anyField "VARIABLE"]⟩
  | .listContents => ⟨[], [anyField "LIST"]⟩
  | .itemOfList => ⟨values ["INDEX"], [anyField "LIST"]⟩
  | .itemNumOfList => ⟨values ["ITEM"], [anyField "LIST"]⟩
  | .lengthOfList => ⟨[], [anyField "LIST"]⟩
  | .listContainsItem => ⟨values ["ITEM"], [anyField "LIST"]⟩
  | .pose => ⟨[], []⟩
  | .volume => ⟨[], []⟩
  | .soundsMenu => ⟨[], [anyField "SOUND_MENU"]⟩
  | .pointer => ⟨[], []⟩

/-- Whether blocks of the kind are conditions. -/
def isPredicate : ReporterKind → Bool
  | .comparison | .logic | .not | .contains | .listContainsItem => true
  | _ => false

end ReporterKind

namespace ActionKind

open Signature

/-- The inputs of a motion block, by its operation code. -/
def stepInputs : String → List String
  | "motion_gotoxy" => ["X", "Y"]
  | "motion_setx" => ["X"]
  | "motion_sety" => ["Y"]
  | "motion_changexby" => ["DX"]
  | "motion_changeyby" => ["DY"]
  | _ => ["STEPS"]

/-- Whether a block that adjusts audio is about the volume. -/
def isVolume (opcode : String) : Bool := opcode == "sound_setvolumeto" || opcode == "sound_changevolumeby"

/-- The input that a block which adjusts audio takes its amount from. -/
def amountInput (opcode : String) : String := if isVolume opcode then "VOLUME" else "VALUE"

/-- The signature of a kind. -/
def signature (opcode : String) : ActionKind → Signature
  | .branch =>
    ⟨(.truth, "CONDITION") :: (.body, "SUBSTACK") ::
      if opcode == "control_if_else" then [(.body, "SUBSTACK2")] else [], []⟩
  | .repeatTimes => ⟨[(.value, "TIMES"), (.body, "SUBSTACK")], []⟩
  | .forever => ⟨[(.body, "SUBSTACK")], []⟩
  | .repeatUntil => ⟨[(.truth, "CONDITION"), (.body, "SUBSTACK")], []⟩
  | .wait => ⟨values ["DURATION"], []⟩
  | .waitUntil => ⟨truths ["CONDITION"], []⟩
  | .stop => ⟨[], [("STOP_OPTION", fun s => (stopOption? s).isSome)]⟩
  | .setVariable => ⟨values ["VALUE"], [anyField "VARIABLE"]⟩
  | .addToList => ⟨values ["ITEM"], [anyField "LIST"]⟩
  | .deleteOfList => ⟨values ["INDEX"], [anyField "LIST"]⟩
  | .deleteAllOfList => ⟨[], [anyField "LIST"]⟩
  | .insertAtList => ⟨values ["ITEM", "INDEX"], [anyField "LIST"]⟩
  | .replaceItemOfList => ⟨values ["INDEX", "ITEM"], [anyField "LIST"]⟩
  | .move => ⟨values (stepInputs opcode), []⟩
  | .turn => ⟨values [if opcode == "motion_pointindirection" then "DIRECTION" else "DEGREES"], []⟩
  | .glide => ⟨values ["SECS", "X", "Y"], []⟩
  | .play => ⟨values ["SOUND_MENU"], []⟩
  | .adjust =>
    ⟨values [amountInput opcode], if isVolume opcode then [] else [("EFFECT", fun s => (effect? s).isSome)]⟩
  | .clearEffects => ⟨[], []⟩

end ActionKind

/-! ### Constructions that succeed -/

namespace Build

variable {α β : Type}

theorem pure_eq (a : α) : (pure a : Build α) = .done a := rfl

theorem bind_eq (b : Build α) (f : α → Build β) : (b >>= f) = b.andThen f := rfl

theorem done_bind (a : α) (f : α → Build β) : (Build.done a >>= f) = f a := rfl

theorem bind_congr {b : Build α} {f g : α → Build β} (h : ∀ a, b.outcome = .ok a → f a = g a) : (b >>= f) = (b >>= g) := by
  show b.andThen f = b.andThen g
  unfold andThen
  split
  · rename_i a ha
    rw [h a ha]
  · rfl

end Build

/-- Two ways to build parts give the same for an input. -/
def BlockSpec.Agree (spec : BlockSpec) (p q : Parts) : SlotKind × String → Prop
  | (.value, name) => spec.operand p.reporter name = spec.operand q.reporter name
  | (.truth, name) => spec.condition p.reporter name = spec.condition q.reporter name
  | (.body, name) => spec.body p.body name = spec.body q.body name

/-- What an input names is built, and nothing is logged. -/
def BlockSpec.Yields (spec : BlockSpec) (p : Parts) : SlotKind × String → Prop
  | (.value, name) => ∃ o, spec.operand p.reporter name = .done o
  | (.truth, name) => ∃ c, spec.condition p.reporter name = .done c
  | (.body, name) => ∃ l, spec.body p.body name = .done l

/-- The needed fields are there with values that are supported. -/
def BlockNode.supports (n : BlockNode) (fields : List (String × (String → Bool))) : Bool :=
  fields.all fun f => (n.field? f.1).any fun x => f.2 x.value

/-- A kind reads the inputs of its signature only. -/
theorem ReporterKind.build_congr (kind : ReporterKind) {p q : Parts} {spec : BlockSpec}
    (h : ∀ x ∈ kind.signature.slots, spec.Agree p q x) : kind.build p.reporter spec = kind.build q.reporter spec := by
  cases kind <;>
    simp only [signature, Signature.values, Signature.truths, List.map_cons, List.map_nil, List.forall_mem_cons,
      BlockSpec.Agree] at h <;>
    simp only [build, h]

theorem ActionKind.step_congr {f g : String → Build (Operand Unit)} {opcode : String}
    (h : ∀ name ∈ stepInputs opcode, f name = g name) : step f opcode = step g opcode := by
  unfold stepInputs at h
  unfold step
  split <;> simp_all

theorem ActionKind.setting_input {spec : BlockSpec} {x : AudioSetting × String} (h : (setting spec : Build _).outcome = .ok x) :
    x.2 = amountInput spec.opcode := by
  unfold setting at h
  unfold amountInput isVolume
  split at h
  · rename_i volume
    cases h
    rw [if_pos volume]
  · rename_i effect
    rw [if_neg effect]
    unfold BlockSpec.field at h
    cases hf : spec.node.field? "EFFECT" with
    | none =>
      rw [hf] at h
      cases h
    | some f =>
      simp only [hf, Build.pure_eq, Build.done_bind] at h
      split at h
      · cases h
        rfl
      · cases h

theorem ActionKind.build_congr (kind : ActionKind) {p q : Parts} {spec : BlockSpec}
    (h : ∀ x ∈ (kind.signature spec.opcode).slots, spec.Agree p q x) : kind.build p spec = kind.build q spec := by
  cases kind <;>
    simp only [signature, Signature.values, Signature.truths, List.map_cons, List.map_nil, List.forall_mem_cons,
      BlockSpec.Agree] at h <;>
    try simp only [build, h]
  case branch => split at h <;> simp_all
  case move =>
    have hstep : step (spec.operand p.reporter) spec.opcode = step (spec.operand q.reporter) spec.opcode :=
      step_congr fun name hname => h _ (List.mem_map_of_mem hname)
    rw [hstep]
  case adjust =>
    refine Build.bind_congr fun x hx => ?_
    simp only [setting_input hx, h]

/-! ### Fields -/

section
variable {spec : BlockSpec} {name : String} {accepts : String → Bool} {fields : List (String × (String → Bool))}

theorem BlockNode.supports_cons {n : BlockNode} (h : n.supports ((name, accepts) :: fields) = true) :
    (∃ f, n.field? name = some f ∧ accepts f.value = true) ∧ n.supports fields = true := by
  simp only [supports, List.all_cons, Bool.and_eq_true] at h
  obtain ⟨f, hf, haccepts⟩ := (Option.any_eq_true _ _).mp h.1
  exact ⟨⟨f, hf, haccepts⟩, h.2⟩

theorem BlockSpec.field_of_some {f : Field} (h : spec.node.field? name = some f) : spec.field name = Build.done f := by
  simp only [field, h]
  rfl

theorem BlockSpec.reference_of_some {f : Field} (h : spec.node.field? name = some f) :
    spec.reference name = Build.done ⟨f.value, f.id.getD ""⟩ := by
  rw [reference, field_of_some h]
  rfl

end

/-! ### Reporters -/

/-- A reporter whose fields are supported and whose inputs are there is built. -/
theorem ReporterKind.build_done (kind : ReporterKind) {p : Parts} {spec : BlockSpec}
    (fields : spec.node.supports kind.signature.fields = true) (h : ∀ x ∈ kind.signature.slots, spec.Yields p x) :
    ∃ r, kind.build p.reporter spec = .done r ∧ (kind.isPredicate = true → ∃ c, r = .predicate c) := by
  have unasked {P : Prop} (hfalse : false = true) : P := absurd hfalse Bool.false_ne_true
  cases kind <;>
    simp only [signature, Signature.values, Signature.truths, List.map_cons, List.map_nil, List.forall_mem_cons,
      BlockSpec.Yields] at h fields
  case arithmetic | random | join | letterOf =>
    obtain ⟨⟨a, ha⟩, ⟨b, hb⟩, -⟩ := h
    exact ⟨_, by simp only [build, ha, hb, Build.done_bind]; rfl, unasked⟩
  case comparison | contains | logic =>
    obtain ⟨⟨a, ha⟩, ⟨b, hb⟩, -⟩ := h
    exact ⟨_, by simp only [build, ha, hb, Build.done_bind]; rfl, fun _ => ⟨_, rfl⟩⟩
  case round | length =>
    obtain ⟨⟨a, ha⟩, -⟩ := h
    exact ⟨_, by simp only [build, ha, Build.done_bind]; rfl, unasked⟩
  case not =>
    obtain ⟨⟨a, ha⟩, -⟩ := h
    exact ⟨_, by simp only [build, ha, Build.done_bind]; rfl, fun _ => ⟨_, rfl⟩⟩
  case mathop =>
    obtain ⟨⟨a, ha⟩, -⟩ := h
    obtain ⟨⟨f, hf, hsupported⟩, -⟩ := BlockNode.supports_cons fields
    obtain ⟨g, hg⟩ := Option.isSome_iff_exists.mp hsupported
    exact ⟨_, by simp only [build, BlockSpec.field_of_some hf, ha, hg, Build.done_bind]; rfl, unasked⟩
  case «variable» | listContents | lengthOfList =>
    obtain ⟨⟨f, hf, -⟩, -⟩ := BlockNode.supports_cons fields
    exact ⟨_, by simp only [build, BlockSpec.reference_of_some hf, Build.done_bind]; rfl, unasked⟩
  case itemOfList | itemNumOfList =>
    obtain ⟨⟨a, ha⟩, -⟩ := h
    obtain ⟨⟨f, hf, -⟩, -⟩ := BlockNode.supports_cons fields
    exact ⟨_, by simp only [build, BlockSpec.reference_of_some hf, ha, Build.done_bind]; rfl, unasked⟩
  case listContainsItem =>
    obtain ⟨⟨a, ha⟩, -⟩ := h
    obtain ⟨⟨f, hf, -⟩, -⟩ := BlockNode.supports_cons fields
    exact ⟨_, by simp only [build, BlockSpec.reference_of_some hf, ha, Build.done_bind]; rfl, fun _ => ⟨_, rfl⟩⟩
  case soundsMenu =>
    obtain ⟨⟨f, hf, -⟩, -⟩ := BlockNode.supports_cons fields
    exact ⟨_, by simp only [build, BlockSpec.field_of_some hf, Build.done_bind]; rfl, unasked⟩
  case pose | volume | pointer => exact ⟨_, rfl, unasked⟩

/-! ### Statements -/

section
variable {ρ : Type}

/-- The body of a statement under the name of an input. -/
def Action.bodyUnder (name : String) : Action ρ → List (Action ρ)
  | .branch _ _ thenBody elseBody => if name = "SUBSTACK2" then elseBody else thenBody
  | .repeatTimes _ body => body
  | .forever body => body
  | .repeatUntil _ body => body
  | _ => []

mutual
/-- A statement and all statements inside it, outer ones first. -/
def Action.statements : Action ρ → List (Action ρ)
  | .branch opcode condition thenBody elseBody =>
    .branch opcode condition thenBody elseBody :: (Action.bodyStatements thenBody ++ Action.bodyStatements elseBody)
  | .repeatTimes times body => .repeatTimes times body :: Action.bodyStatements body
  | .forever body => .forever body :: Action.bodyStatements body
  | .repeatUntil condition body => .repeatUntil condition body :: Action.bodyStatements body
  | a => [a]
/-- All statements of a body, in order. -/
def Action.bodyStatements : List (Action ρ) → List (Action ρ)
  | [] => []
  | a :: rest => a.statements ++ Action.bodyStatements rest
end

end

/-- The names of the inputs that hold bodies. -/
def Signature.bodies (sig : Signature) : List String :=
  (sig.slots.filter (·.1 = .body)).map (·.2)

theorem Signature.mem_bodies {sig : Signature} {name : String} : name ∈ sig.bodies ↔ (.body, name) ∈ sig.slots := by
  simp only [bodies, List.mem_map, List.mem_filter, decide_eq_true_eq]
  constructor
  · rintro ⟨⟨kind, _⟩, ⟨hmem, rfl⟩, rfl⟩
    exact hmem
  · exact fun hmem => ⟨_, ⟨hmem, rfl⟩, rfl⟩

namespace ActionKind

/-- The operation codes that a kind is registered under. -/
def opcodes : ActionKind → List String
  | .branch => ["control_if", "control_if_else"]
  | .repeatTimes => ["control_repeat"]
  | .forever => ["control_forever"]
  | .repeatUntil => ["control_repeat_until"]
  | .wait => ["control_wait"]
  | .waitUntil => ["control_wait_until"]
  | .stop => ["control_stop"]
  | .setVariable => ["data_setvariableto", "data_changevariableby"]
  | .addToList => ["data_addtolist"]
  | .deleteOfList => ["data_deleteoflist"]
  | .deleteAllOfList => ["data_deletealloflist"]
  | .insertAtList => ["data_insertatlist"]
  | .replaceItemOfList => ["data_replaceitemoflist"]
  | .move =>
    ["motion_gotoxy", "motion_setx", "motion_sety", "motion_changexby", "motion_changeyby", "motion_movesteps"]
  | .turn => ["motion_turnright", "motion_turnleft", "motion_pointindirection"]
  | .glide => ["motion_glidesecstoxy"]
  | .play => ["sound_play", "sound_playuntildone"]
  | .adjust => ["sound_setvolumeto", "sound_changevolumeby", "sound_seteffectto", "sound_changeeffectby"]
  | .clearEffects => ["sound_cleareffects"]

theorem mem_opcodes : ∀ x ∈ Registries.builtin.actions.entries, x.1 ∈ x.2.opcodes := by decide +kernel

/-- What a kind makes of its node: a statement with its own operation code, whose bodies are those that
its inputs name. -/
structure Makes (kind : ActionKind) (p : Parts) (spec : BlockSpec) (a : Action Unit) : Prop where
  build : kind.build p spec = .done a
  opcode : spec.opcode ∈ kind.opcodes → a.opcode = spec.opcode
  body : ∀ name ∈ (kind.signature spec.opcode).bodies, spec.body p.body name = .done (a.bodyUnder name)
  statements : a.statements =
    a :: (kind.signature spec.opcode).bodies.flatMap fun name => Action.bodyStatements (a.bodyUnder name)

theorem Makes.leaf {kind : ActionKind} {p : Parts} {spec : BlockSpec} {a : Action Unit} (build : kind.build p spec = .done a)
    (opcode : spec.opcode ∈ kind.opcodes → a.opcode = spec.opcode) (bodies : (kind.signature spec.opcode).bodies = [])
    (statements : a.statements = [a]) : kind.Makes p spec a := by
  refine ⟨build, opcode, fun name hname => ?_, ?_⟩
  · rw [bodies] at hname
    cases hname
  · rw [bodies, statements]
    rfl

theorem Makes.loop {kind : ActionKind} {p : Parts} {spec : BlockSpec} {a : Action Unit} (build : kind.build p spec = .done a)
    (opcode : spec.opcode ∈ kind.opcodes → a.opcode = spec.opcode)
    (bodies : (kind.signature spec.opcode).bodies = ["SUBSTACK"])
    (body : spec.body p.body "SUBSTACK" = .done (a.bodyUnder "SUBSTACK"))
    (statements : a.statements = a :: Action.bodyStatements (a.bodyUnder "SUBSTACK")) : kind.Makes p spec a := by
  refine ⟨build, opcode, fun name hname => ?_, ?_⟩
  · rw [bodies] at hname
    obtain rfl := List.mem_singleton.mp hname
    exact body
  · rw [bodies, statements, List.flatMap_singleton]

theorem opcode_of_single {kind : ActionKind} {opcode : String} {a : Action Unit} (h : kind.opcodes = [a.opcode])
    (hcode : opcode ∈ kind.opcodes) : a.opcode = opcode := by
  rw [h] at hcode
  exact (List.mem_singleton.mp hcode).symm

theorem bodies_values (names : List String) (fields : List (String × (String → Bool))) :
    (⟨Signature.values names, fields⟩ : Signature).bodies = [] := by
  simp [Signature.bodies, Signature.values]

theorem step_done {f : String → Build (Operand Unit)} {opcode : String} (h : ∀ name ∈ stepInputs opcode, ∃ o, f name = .done o) :
    ∃ x, step f opcode = .done x := by
  unfold stepInputs at h
  unfold step
  split <;> simp only [List.forall_mem_cons] at h
  case h_1 =>
    obtain ⟨⟨x, hx⟩, ⟨y, hy⟩, -⟩ := h
    exact ⟨_, by simp only [hx, hy, Build.done_bind]; rfl⟩
  all_goals
    obtain ⟨⟨x, hx⟩, -⟩ := h
    exact ⟨_, by simp only [hx, Build.done_bind]; rfl⟩

theorem setting_done {spec : BlockSpec} (fields : spec.node.supports (signature spec.opcode .adjust).fields = true) :
    ∃ x, setting spec = Build.done (x, amountInput spec.opcode) := by
  unfold setting amountInput
  cases volume : isVolume spec.opcode with
  | true => exact ⟨.volume, if_pos volume⟩
  | false =>
    simp only [signature, volume, Bool.false_eq_true, if_false] at fields
    obtain ⟨⟨f, hf, hsupported⟩, -⟩ := BlockNode.supports_cons fields
    obtain ⟨x, hx⟩ := Option.isSome_iff_exists.mp hsupported
    refine ⟨x, ?_⟩
    refine (if_neg (Bool.eq_false_iff.mp volume)).trans ?_
    simp only [BlockSpec.field_of_some hf, hx, Build.done_bind]
    rfl

theorem branch_done {p : Parts} {spec : BlockSpec} {c : Predicate Unit} {b : List (Action Unit)}
    (hc : spec.condition p.reporter "CONDITION" = .done c) (hb : spec.body p.body "SUBSTACK" = .done b)
    (second : (spec.opcode == "control_if_else") = true → ∃ e, spec.body p.body "SUBSTACK2" = .done e) :
    ∃ a, branch.Makes p spec a := by
  by_cases hcode : (spec.opcode == "control_if_else") = true
  · obtain ⟨e, he⟩ := second hcode
    have bodies : (signature spec.opcode .branch).bodies = ["SUBSTACK", "SUBSTACK2"] := by
      simp [Signature.bodies, signature, hcode]
    refine ⟨.branch spec.opcode c b e, ?_, fun _ => rfl, fun name hname => ?_, ?_⟩
    · simp only [build, hcode, if_true, hc, hb, he, Build.done_bind]
      rfl
    · rw [bodies] at hname
      rcases List.mem_cons.mp hname with rfl | hname
      · exact hb
      · obtain rfl := List.mem_singleton.mp hname
        exact he
    · rw [bodies, List.flatMap_cons, List.flatMap_singleton]
      rfl
  · -- Without a second input the second body is empty.
    have bodies : (signature spec.opcode .branch).bodies = ["SUBSTACK"] := by
      simp [Signature.bodies, signature, hcode]
    refine ⟨.branch spec.opcode c b [], .loop ?_ (fun _ => rfl) bodies hb ?_⟩
    · simp only [build, hcode, hc, hb, Build.done_bind]
      rfl
    · exact congrArg _ (List.append_nil _)

/-- A statement whose fields are supported and whose inputs are there is built. -/
theorem build_done (kind : ActionKind) {p : Parts} {spec : BlockSpec}
    (fields : spec.node.supports (kind.signature spec.opcode).fields = true)
    (h : ∀ x ∈ (kind.signature spec.opcode).slots, spec.Yields p x) : ∃ a, kind.Makes p spec a := by
  cases kind <;>
    simp only [signature, Signature.values, Signature.truths, List.map_cons, List.map_nil, List.forall_mem_cons,
      BlockSpec.Yields] at h
  case wait | waitUntil =>
    obtain ⟨⟨a, ha⟩, -⟩ := h
    exact ⟨_, .leaf (by simp only [build, ha, Build.done_bind]; rfl) (opcode_of_single rfl) rfl rfl⟩
  case glide =>
    obtain ⟨⟨a, ha⟩, ⟨b, hb⟩, ⟨c, hc⟩, -⟩ := h
    exact ⟨_, .leaf (by simp only [build, ha, hb, hc, Build.done_bind]; rfl) (opcode_of_single rfl) rfl rfl⟩
  case stop =>
    obtain ⟨⟨f, hf, hsupported⟩, -⟩ := BlockNode.supports_cons fields
    obtain ⟨option, hoption⟩ := Option.isSome_iff_exists.mp hsupported
    exact ⟨_, .leaf (by simp only [build, BlockSpec.field_of_some hf, hoption, Build.done_bind]; rfl) (opcode_of_single rfl) rfl rfl⟩
  case setVariable =>
    obtain ⟨⟨a, ha⟩, -⟩ := h
    obtain ⟨⟨f, hf, -⟩, -⟩ := BlockNode.supports_cons fields
    exact ⟨_, .leaf (by simp only [build, BlockSpec.reference_of_some hf, ha, Build.done_bind]; rfl) (fun _ => rfl) rfl rfl⟩
  case addToList | deleteOfList =>
    obtain ⟨⟨a, ha⟩, -⟩ := h
    obtain ⟨⟨f, hf, -⟩, -⟩ := BlockNode.supports_cons fields
    exact ⟨_, .leaf (by simp only [build, BlockSpec.reference_of_some hf, ha, Build.done_bind]; rfl) (opcode_of_single rfl) rfl rfl⟩
  case insertAtList | replaceItemOfList =>
    obtain ⟨⟨a, ha⟩, ⟨b, hb⟩, -⟩ := h
    obtain ⟨⟨f, hf, -⟩, -⟩ := BlockNode.supports_cons fields
    exact ⟨_, .leaf (by simp only [build, BlockSpec.reference_of_some hf, ha, hb, Build.done_bind]; rfl) (opcode_of_single rfl) rfl rfl⟩
  case deleteAllOfList =>
    obtain ⟨⟨f, hf, -⟩, -⟩ := BlockNode.supports_cons fields
    exact ⟨_, .leaf (by simp only [build, BlockSpec.reference_of_some hf, Build.done_bind]; rfl) (opcode_of_single rfl) rfl rfl⟩
  case clearEffects => exact ⟨_, .leaf rfl (opcode_of_single rfl) rfl rfl⟩
  case move =>
    have inputs : ∀ name ∈ stepInputs spec.opcode, ∃ o, spec.operand p.reporter name = .done o :=
      fun name hname => h _ (List.mem_map_of_mem hname)
    obtain ⟨x, hx⟩ := step_done inputs
    exact ⟨_, .leaf (by simp only [build, hx, Build.done_bind]; rfl) (fun _ => rfl) (bodies_values _ _) rfl⟩
  case turn =>
    obtain ⟨⟨a, ha⟩, -⟩ := h
    exact ⟨_, .leaf (by simp only [build, ha, Build.done_bind]; rfl) (fun _ => rfl) rfl rfl⟩
  case adjust =>
    obtain ⟨⟨a, ha⟩, -⟩ := h
    obtain ⟨x, hx⟩ := setting_done fields
    exact ⟨_, .leaf (by simp only [build, hx, ha, Build.done_bind]; rfl) (fun _ => rfl) rfl rfl⟩
  case play =>
    obtain ⟨⟨a, ha⟩, -⟩ := h
    refine ⟨_, .leaf (by simp only [build, ha, Build.done_bind]; rfl) (fun hcode => ?_) rfl ?_⟩
    · rcases List.mem_cons.mp hcode with hcode | hcode
      · rw [hcode]
        rfl
      · rw [List.mem_singleton.mp hcode]
        rfl
    · split <;> rfl
  case forever =>
    obtain ⟨⟨b, hb⟩, -⟩ := h
    exact ⟨.forever b, .loop (by simp only [build, hb, Build.done_bind]; rfl) (opcode_of_single rfl) rfl hb rfl⟩
  case repeatTimes =>
    obtain ⟨⟨a, ha⟩, ⟨b, hb⟩, -⟩ := h
    exact ⟨.repeatTimes a b, .loop (by simp only [build, ha, hb, Build.done_bind]; rfl) (opcode_of_single rfl) rfl hb rfl⟩
  case repeatUntil =>
    obtain ⟨⟨c, hc⟩, ⟨b, hb⟩, -⟩ := h
    exact ⟨.repeatUntil c b, .loop (by simp only [build, hc, hb, Build.done_bind]; rfl) (opcode_of_single rfl) rfl hb rfl⟩
  case branch =>
    obtain ⟨⟨c, hc⟩, ⟨b, hb⟩, h⟩ := h
    refine branch_done hc hb fun hcode => ?_
    rw [if_pos hcode] at h
    exact (List.forall_mem_cons.mp h).1

end ActionKind
end BlockScript
