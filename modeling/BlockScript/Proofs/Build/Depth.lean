import BlockScript.Proofs.Build.Chain
import Mathlib.Logic.Relation

/-!
How deep blocks may nest. A block can be built just if it passes the checks of construction and its operands can be
built one level down. So what decides, depth apart, is the tree that following operands and conditions gives: it has
to be finite and to fit into the levels that are left. Bodies do not decide about the statement that holds them; what
is too deep in a body is left out of the body.
-/
namespace BlockScript

/-! ### When a block can be built -/

namespace Build

variable {α β : Type}

/-- The construction gives a result. -/
def Succeeds (c : Build α) : Prop := ∃ a, c.outcome = .ok a

@[simp] theorem outcome_pure (a : α) : (pure a : Build α).outcome = .ok a := rfl

@[simp] theorem outcome_fail (e : BuildError) : (MonadBuild.fail e : Build α).outcome = .error e := rfl

@[simp] theorem outcome_bind_eq_ok {c : Build α} {f : α → Build β} {r : β} :
    (c >>= f).outcome = .ok r ↔ ∃ a, c.outcome = .ok a ∧ (f a).outcome = .ok r := by
  rw [bind_eq]
  unfold andThen
  split
  · rename_i a ha
    simp [ha]
  · rename_i e he
    simp [he]

end Build

namespace BlockSpec

variable {spec : BlockSpec} {p : Parts}

/-- What an input names can be built. -/
def Gets (spec : BlockSpec) (p : Parts) : SlotKind × String → Prop
  | (.value, name) => (spec.operand p.reporter name).Succeeds
  | (.truth, name) => (spec.condition p.reporter name).Succeeds
  | (.body, name) => (spec.body p.body name).Succeeds

@[simp] theorem field_eq_ok {name : String} {f : Field} :
    (spec.field name : Build Field).outcome = .ok f ↔ spec.node.field? name = some f := by
  unfold field
  split
  · rename_i hf
    simp [hf]
  · rename_i hf
    simp [hf]

@[simp] theorem reference_eq_ok {name : String} {r : Ref} :
    (spec.reference name : Build Ref).outcome = .ok r ↔
      ∃ f, spec.node.field? name = some f ∧ ⟨f.value, f.id.getD ""⟩ = r := by
  simp [reference]

end BlockSpec

@[simp] theorem BlockNode.supports_nil (n : BlockNode) : n.supports [] = true := rfl

@[simp] theorem BlockNode.supports_cons_iff {n : BlockNode} {name : String} {accepts : String → Bool}
    {fields : List (String × (String → Bool))} :
    n.supports ((name, accepts) :: fields) = true ↔
      (∃ f, n.field? name = some f ∧ accepts f.value = true) ∧ n.supports fields = true := by
  simp [supports, Option.any_eq_true]

section
variable {spec : BlockSpec} {p : Parts}

/-- A reporter can be built just if its fields are supported and what its inputs name can be built. -/
theorem ReporterKind.build_succeeds_iff (kind : ReporterKind) :
    (kind.build p.reporter spec).Succeeds ↔
      spec.node.supports kind.signature.fields = true ∧ ∀ x ∈ kind.signature.slots, spec.Gets p x := by
  cases kind
  case mathop =>
    simp only [signature, Signature.values, List.map_cons, List.map_nil, List.forall_mem_singleton, BlockSpec.Gets,
      BlockNode.supports_cons_iff, BlockNode.supports_nil, and_true, build, Build.Succeeds, Build.outcome_bind_eq_ok,
      BlockSpec.field_eq_ok]
    constructor
    · rintro ⟨r, f, hf, hr⟩
      split at hr
      · rename_i g hg
        obtain ⟨o, ho, -⟩ := Build.outcome_bind_eq_ok.mp hr
        exact ⟨⟨f, hf, by rw [hg]; rfl⟩, o, ho⟩
      · cases hr
    · rintro ⟨⟨f, hf, hg⟩, o, ho⟩
      obtain ⟨g, hg⟩ := Option.isSome_iff_exists.mp hg
      exact ⟨.value (.unary (.math g) o), f, hf, by simp [hg, ho]⟩
  all_goals
    simp [signature, Signature.values, Signature.truths, Signature.anyField, BlockSpec.Gets, Build.Succeeds, build]

theorem ReporterKind.build_isPredicate (kind : ReporterKind) {f : String → Build (Reporter Unit)} {r : Reporter Unit}
    (h : (kind.build f spec).outcome = .ok r) : kind.isPredicate = true ↔ ∃ c, r = .predicate c := by
  cases kind <;> simp only [build, Build.outcome_bind_eq_ok, Build.outcome_pure, Except.ok.injEq] at h
  case mathop =>
    obtain ⟨g, -, h⟩ := h
    split at h
    · simp only [Build.outcome_bind_eq_ok, Build.outcome_pure, Except.ok.injEq] at h
      obtain ⟨o, -, rfl⟩ := h
      simp [isPredicate]
    · cases h
  all_goals grind [isPredicate]

theorem ActionKind.step_succeeds_iff {f : String → Build (Operand Unit)} (opcode : String) :
    (step f opcode).Succeeds ↔ ∀ name ∈ stepInputs opcode, (f name).Succeeds := by
  unfold step stepInputs
  split <;> simp [Build.Succeeds]

theorem ActionKind.supports_of_setting {x : AudioSetting × String} (h : (setting spec : Build _).outcome = .ok x) :
    spec.node.supports (signature spec.opcode .adjust).fields = true := by
  simp only [signature]
  split
  · rfl
  · rename_i hvolume
    unfold setting at h
    rw [if_neg (by exact hvolume)] at h
    obtain ⟨f, hf, h⟩ := Build.outcome_bind_eq_ok.mp h
    split at h
    · rename_i s hs
      exact BlockNode.supports_cons_iff.mpr ⟨⟨f, BlockSpec.field_eq_ok.mp hf, by rw [hs]; rfl⟩, rfl⟩
    · cases h

/-- A statement can be built just if its fields are supported and what its inputs name can be built. -/
theorem ActionKind.build_succeeds_iff (kind : ActionKind) :
    (kind.build p spec).Succeeds ↔ spec.node.supports (kind.signature spec.opcode).fields = true ∧
      ∀ x ∈ (kind.signature spec.opcode).slots, spec.Gets p x := by
  cases kind
  case branch =>
    simp only [Build.Succeeds, build, signature, List.forall_mem_cons, BlockSpec.Gets, BlockNode.supports_nil, true_and]
    by_cases hcode : (spec.opcode == "control_if_else") = true
    · simp only [hcode, if_true, List.forall_mem_singleton, Build.outcome_bind_eq_ok]
      constructor
      · rintro ⟨a, e, he, c, hc, b, hb, -⟩
        exact ⟨⟨c, hc⟩, ⟨b, hb⟩, ⟨e, he⟩⟩
      · rintro ⟨⟨c, hc⟩, ⟨b, hb⟩, ⟨e, he⟩⟩
        exact ⟨_, e, he, c, hc, b, hb, rfl⟩
    · simp only [hcode, if_false, Bool.false_eq_true, Build.outcome_bind_eq_ok]
      constructor
      · rintro ⟨a, -, -, c, hc, b, hb, -⟩
        exact ⟨⟨c, hc⟩, ⟨b, hb⟩, fun _ h => absurd h List.not_mem_nil⟩
      · rintro ⟨⟨c, hc⟩, ⟨b, hb⟩, -⟩
        exact ⟨_, _, rfl, c, hc, b, hb, rfl⟩
  case stop =>
    simp only [Build.Succeeds, build, signature, and_true, BlockNode.supports_cons_iff, BlockNode.supports_nil,
      Build.outcome_bind_eq_ok, BlockSpec.field_eq_ok]
    constructor
    · rintro ⟨a, f, hf, ha⟩
      split at ha
      · rename_i option hoption
        exact ⟨⟨f, hf, by rw [hoption]; rfl⟩, fun _ h => absurd h List.not_mem_nil⟩
      · cases ha
    · rintro ⟨⟨f, hf, hoption⟩, -⟩
      obtain ⟨option, hoption⟩ := Option.isSome_iff_exists.mp hoption
      exact ⟨.command (.stop option), f, hf, by simp [hoption]⟩
  case move =>
    have hstep := step_succeeds_iff (f := spec.operand p.reporter) spec.opcode
    simp only [Build.Succeeds] at hstep
    simp [signature, Signature.values, BlockSpec.Gets, Build.Succeeds, build, hstep]
  case adjust =>
    simp only [Build.Succeeds, build, Build.outcome_bind_eq_ok]
    constructor
    · rintro ⟨a, x, hx, o, ho, -⟩
      rw [setting_input hx] at ho
      exact ⟨supports_of_setting hx, List.forall_mem_singleton.mpr ⟨o, ho⟩⟩
    · rintro ⟨hfields, hslots⟩
      obtain ⟨x, hx⟩ := setting_done hfields
      obtain ⟨o, ho⟩ := List.forall_mem_singleton.mp hslots
      exact ⟨_, _, by rw [hx]; rfl, o, ho, rfl⟩
  all_goals
    simp [signature, Signature.values, Signature.truths, Signature.anyField, BlockSpec.Gets, Build.Succeeds, build]

/-- The bodies of a statement are those that its inputs name. -/
theorem ActionKind.build_bodyUnder (kind : ActionKind) {a : Action Unit} (h : (kind.build p spec).outcome = .ok a) :
    ∀ name ∈ (kind.signature spec.opcode).bodies, (spec.body p.body name).outcome = .ok (a.bodyUnder name) := by
  cases kind
  case branch =>
    simp only [build] at h
    by_cases hcode : (spec.opcode == "control_if_else") = true
    · simp only [hcode, if_true, Build.outcome_bind_eq_ok, Build.outcome_pure, Except.ok.injEq] at h
      obtain ⟨e, he, c, hc, b, hb, rfl⟩ := h
      simp [Signature.bodies, signature, hcode, Action.bodyUnder, hb, he]
    · simp only [hcode, if_false, Bool.false_eq_true, Build.outcome_bind_eq_ok, Build.outcome_pure, Except.ok.injEq] at h
      obtain ⟨e, he, c, hc, b, hb, rfl⟩ := h
      simp [Signature.bodies, signature, hcode, Action.bodyUnder, hb]
  case move =>
    intro name hname
    rw [signature, bodies_values] at hname
    cases hname
  case forever | repeatTimes | repeatUntil =>
    simp only [build, Build.outcome_bind_eq_ok, Build.outcome_pure, Except.ok.injEq] at h
    intro name hname
    obtain rfl := List.mem_singleton.mp hname
    grind [Action.bodyUnder]
  all_goals
    intro name hname
    cases hname

end

namespace Builder

variable {b : Builder} {s t : Site}

/-- The reporters that a site takes its operands and conditions from. -/
def operands (b : Builder) (s : Site) : List Site := (b.children s).filter (·.position = .reporter)

/-- Whether a site passes all checks of construction but those of depth: its block is there and known in its position,
the fields it needs are supported, and its operands and conditions suit. -/
def passes (b : Builder) (s : Site) : Bool :=
  (b.read? s).any fun x =>
    x.1.supports x.2.fields && x.2.slots.all fun slot => slot.1 = .body || b.admits slot.1 (x.1.input? slot.2)

theorem position_eq_reporter {kind : SlotKind} : kind.position = .reporter ↔ kind ≠ .body := by
  cases kind <;> simp [SlotKind.position]

theorem mem_operands {node : BlockNode} {sig : Signature} (hread : b.read? s = some (node, sig)) :
    t ∈ b.operands s ↔
      t.position = .reporter ∧ ∃ x ∈ sig.slots, x.1 ≠ .body ∧ node.blockUnder? x.2 = some t.id := by
  simp only [operands, children, hops, hread, List.mem_filter, List.mem_map, List.mem_append, decide_eq_true_eq]
  constructor
  · rintro ⟨⟨⟨hop, u⟩, hmem, rfl⟩, hposition⟩
    refine ⟨hposition, ?_⟩
    rcases hmem with hmem | hmem
    · obtain ⟨x, hx, -, hkind, hid⟩ := BlockNode.mem_slotHops.mp hmem
      exact ⟨x, hx, position_eq_reporter.mp (hkind.symm.trans hposition), hid⟩
    · obtain ⟨-, -, hstatement, -⟩ := BlockNode.mem_nextHops.mp hmem
      rw [hposition] at hstatement
      cases hstatement
  · rintro ⟨hposition, x, hx, hkind, hid⟩
    refine ⟨⟨(.slot x.1 x.2, t), .inl (BlockNode.mem_slotHops.mpr ⟨x, hx, rfl, ?_, hid⟩), rfl⟩, hposition⟩
    rw [hposition, position_eq_reporter.mpr hkind]

theorem eq_of_mem_operands (h : t ∈ b.operands s) : t = ⟨.reporter, t.id⟩ := by
  obtain ⟨position, id⟩ := t
  have hposition := of_decide_eq_true (List.mem_filter.mp h).2
  cases hposition
  rfl

theorem reporterAt_isPredicate {room : Nat} {id : String} {r : Reporter Unit} (h : (b.reporterAt room id).outcome = .ok r) :
    b.isPredicate id = true ↔ ∃ c, r = .predicate c := by
  rw [reporterAt] at h
  split at h
  · cases h
  · rename_i node hnode
    split at h
    · cases h
    · rename_i opcode kind hresolve
      simp only [isPredicate, hnode, Option.bind_some, hresolve, Option.any_some]
      split at h
      · cases h
      · exact kind.build_isPredicate h

theorem condition_block_succeeds_iff {spec : BlockSpec} {room : Nat} {name id : String}
    (hinput : spec.node.input? name = some (.block id)) :
    (spec.condition (b.reporterAt room) name).Succeeds ↔ b.isPredicate id = true ∧ (b.reporterAt room id).Succeeds := by
  simp only [Build.Succeeds, BlockSpec.condition, hinput, Build.outcome_bind_eq_ok]
  constructor
  · rintro ⟨c, r, hr, hc⟩
    cases r with
    | predicate p => exact ⟨(reporterAt_isPredicate hr).mpr ⟨p, rfl⟩, _, hr⟩
    | value o => cases hc
  · rintro ⟨hpredicate, r, hr⟩
    obtain ⟨c, rfl⟩ := (reporterAt_isPredicate hr).mp hpredicate
    exact ⟨c, _, hr, rfl⟩

/-- What an operand or a condition names can be built just if it suits and its block can be built. -/
theorem gets_iff {spec : BlockSpec} {p : Parts} {room : Nat} (hp : p.reporter = b.reporterAt room) {x : SlotKind × String}
    (hx : x.1 ≠ .body) :
    spec.Gets p x ↔ b.admits x.1 (spec.node.input? x.2) = true ∧
      ∀ id, spec.node.blockUnder? x.2 = some id → (b.reporterAt room id).Succeeds := by
  obtain ⟨kind, name⟩ := x
  cases hinput : spec.node.input? name with
  | none =>
    cases kind <;>
      simp_all [BlockSpec.Gets, BlockSpec.operand, BlockSpec.condition, admits, BlockNode.blockUnder?, Build.Succeeds]
  | some input =>
    cases input with
    | block id =>
      cases kind with
      | value => simp [BlockSpec.Gets, BlockSpec.operand, hp, hinput, admits, BlockNode.blockUnder?, Build.Succeeds]
      | truth => simp [BlockSpec.Gets, hp, condition_block_succeeds_iff hinput, hinput, admits, BlockNode.blockUnder?]
      | body => exact absurd rfl hx
    | _ =>
      cases kind <;>
        simp_all [BlockSpec.Gets, BlockSpec.operand, BlockSpec.condition, admits, BlockNode.blockUnder?, Build.Succeeds]

/-- Where bodies can be built, the inputs of a site can just if it passes and its operands can be built. -/
theorem slots_get_iff {node : BlockNode} {sig : Signature} (hread : b.read? s = some (node, sig)) {spec : BlockSpec}
    (hspec : spec.node = node) {p : Parts} {room : Nat} (hp : p.reporter = b.reporterAt room)
    (hbody : ∀ x ∈ sig.slots, x.1 = .body → spec.Gets p x) :
    (spec.node.supports sig.fields = true ∧ ∀ x ∈ sig.slots, spec.Gets p x) ↔
      b.passes s = true ∧ ∀ t ∈ b.operands s, (b.reporterAt room t.id).Succeeds := by
  obtain rfl := hspec
  simp only [passes, hread, Option.any_some, Bool.and_eq_true, List.all_eq_true, Bool.or_eq_true, decide_eq_true_eq,
    and_assoc]
  refine and_congr_right fun hfields => ?_
  constructor
  · intro h
    refine ⟨fun x hx => ?_, fun t ht => ?_⟩
    · by_cases hkind : x.1 = .body
      · exact .inl hkind
      · exact .inr ((gets_iff hp hkind).mp (h x hx)).1
    · obtain ⟨-, x, hx, hkind, hid⟩ := (mem_operands hread).mp ht
      exact ((gets_iff hp hkind).mp (h x hx)).2 t.id hid
  · rintro ⟨hadmits, hoperands⟩ x hx
    by_cases hkind : x.1 = .body
    · exact hbody x hx hkind
    · refine (gets_iff hp hkind).mpr ⟨(hadmits x hx).resolve_left hkind, fun id hid => ?_⟩
      exact hoperands ⟨.reporter, id⟩ ((mem_operands hread).mpr ⟨rfl, x, hx, hkind, hid⟩)

/-- Only a site whose block is there and known can be built or pass, so nothing else needs to be looked at. -/
theorem iff_of_read {P Q : Prop} (known : P → ∃ node sig, b.read? s = some (node, sig))
    (h : ∀ node sig, b.read? s = some (node, sig) → (P ↔ b.passes s = true ∧ Q)) : P ↔ b.passes s = true ∧ Q := by
  constructor
  · intro hP
    obtain ⟨node, sig, hread⟩ := known hP
    exact (h node sig hread).mp hP
  · intro hpass
    obtain ⟨x, hread, -⟩ := (Option.any_eq_true _ _).mp hpass.1
    exact (h x.1 x.2 hread).mpr hpass

theorem exists_read_of_reporterAt {room : Nat} {id : String} (h : (b.reporterAt room id).Succeeds) :
    ∃ node sig, b.read? ⟨.reporter, id⟩ = some (node, sig) := by
  obtain ⟨r, hr⟩ := h
  rw [reporterAt] at hr
  split at hr
  · cases hr
  · rename_i node hnode
    split at hr
    · cases hr
    · rename_i opcode kind hresolve
      exact ⟨node, kind.signature, read?_eq_some.mpr ⟨hnode, by simp only [Registries.signature?, hresolve, Option.map_some]⟩⟩

theorem not_reporterAt_zero (id : String) : ¬(b.reporterAt 0 id).Succeeds := by
  rintro ⟨r, hr⟩
  rw [reporterAt] at hr
  split at hr
  · cases hr
  · split at hr <;> cases hr

/-- A reporter takes one level, and its operands are built on the next. -/
theorem reporterAt_succeeds_iff {room : Nat} {id : String} :
    (b.reporterAt (room + 1) id).Succeeds ↔ b.passes ⟨.reporter, id⟩ = true ∧
      ∀ t ∈ b.operands ⟨.reporter, id⟩, (b.reporterAt room t.id).Succeeds := by
  refine iff_of_read exists_read_of_reporterAt ?_
  intro node sig hread
  obtain ⟨hnode, hsig⟩ := read?_eq_some.mp hread
  obtain ⟨⟨opcode, kind⟩, hresolve, rfl⟩ := Option.map_eq_some_iff.mp hsig
  rw [reporterAt, hnode]
  simp only [hresolve]
  let parts : Parts := ⟨b.reporterAt room, fun _ => .done []⟩
  refine (kind.build_succeeds_iff (p := parts)).trans (slots_get_iff hread rfl rfl fun x hx hkind => ?_)
  exact absurd hkind (kind.slots_ne_body x hx)

/-! ### Statements and their bodies -/

theorem keptAt_isSome {room : Nat} {id : String} : (b.keptAt room id).isSome ↔ (b.statementAt room id).Succeeds := by
  unfold keptAt Build.Succeeds
  cases (b.statementAt room id).outcome <;> simp [Except.toOption]

theorem keptAt_eq_some {room : Nat} {id : String} {a : Action Unit} :
    b.keptAt room id = some a ↔ (b.statementAt room id).outcome = .ok a := by
  unfold keptAt
  cases (b.statementAt room id).outcome <;> simp [Except.toOption]

theorem exists_read_of_statementAt {room : Nat} {id : String} (h : (b.statementAt room id).Succeeds) :
    ∃ node sig, b.read? ⟨.statement, id⟩ = some (node, sig) := by
  obtain ⟨a, ha⟩ := h
  unfold statementAt blockAt actionAt at ha
  split at ha
  · rename_i node hnode
    split at ha
    · cases ha
    · rename_i opcode kind hresolve
      refine ⟨node, kind.signature opcode, read?_eq_some.mpr ⟨hnode, ?_⟩⟩
      simp only [Registries.signature?, hresolve, Option.map_some]
  · cases ha

theorem not_statementAt_zero (id : String) : ¬(b.statementAt 0 id).Succeeds := by
  rintro ⟨a, ha⟩
  unfold statementAt blockAt actionAt at ha
  split at ha
  · split at ha <;> cases ha
  · cases ha

/-- With room for the statement and its body, a body can be built whatever is in it. -/
theorem body_outcome (b : Builder) (room : Nat) (spec : BlockSpec) (name : String) :
    (spec.body (b.bodyAt (room + 2) spec) name).outcome =
      .ok ((b.graph.chain (spec.node.blockUnder? name)).1.filterMap (b.keptAt room)) := by
  have empty : ((b.graph.chain none).1.filterMap (b.keptAt room)) = [] := by simp [BlockGraph.chain, BlockGraph.chainFrom]
  cases hinput : spec.node.input? name with
  | none => simp only [BlockSpec.body, BlockNode.blockUnder?, hinput, empty, Build.outcome_pure]
  | some input =>
    cases input with
    | block first => simp only [BlockSpec.body, BlockNode.blockUnder?, hinput, bodyAt, substackAt_eq_kept]
    | empty => simp only [BlockSpec.body, BlockNode.blockUnder?, hinput, empty, Build.outcome_pure]
    | _ =>
      simp only [BlockSpec.body, BlockNode.blockUnder?, hinput, empty, Build.outcome_bind_eq_ok]
      exact ⟨(), rfl, rfl⟩

/-- A statement takes one level, and its operands are built on the next. Its bodies do not matter. -/
theorem statementAt_succeeds_iff {room : Nat} {id : String} :
    (b.statementAt (room + 2) id).Succeeds ↔ b.passes ⟨.statement, id⟩ = true ∧
      ∀ t ∈ b.operands ⟨.statement, id⟩, (b.reporterAt (room + 1) t.id).Succeeds := by
  refine iff_of_read exists_read_of_statementAt ?_
  intro node sig hread
  obtain ⟨hnode, hsig⟩ := read?_eq_some.mp hread
  obtain ⟨⟨opcode, kind⟩, hresolve, rfl⟩ := Option.map_eq_some_iff.mp hsig
  have hnode : b.graph.get? id = some node := hnode
  simp only [statementAt, hnode, blockAt, actionAt, hresolve]
  refine kind.build_succeeds_iff.trans (slots_get_iff hread rfl rfl ?_)
  rintro ⟨_, name⟩ hx rfl
  exact ⟨_, b.body_outcome room _ name⟩

/-- The bodies of a statement are the chains that its inputs name, built with two levels less. -/
theorem bodyUnder_of_keptAt {room : Nat} {id : String} {node : BlockNode} {a : Action Unit}
    (hnode : b.graph.get? id = some node) (h : b.keptAt (room + 2) id = some a) :
    ∀ name ∈ b.bodyNames node,
      a.bodyUnder name = (b.graph.chain (node.blockUnder? name)).1.filterMap (b.keptAt room) := by
  intro name hname
  have ha := keptAt_eq_some.mp h
  simp only [statementAt, hnode, blockAt, actionAt] at ha
  simp only [bodyNames, Registries.signature?] at hname
  cases hresolve : b.registries.actions.resolve? node.opcode with
  | none =>
    rw [hresolve] at hname
    cases hname
  | some entry =>
    rw [hresolve] at ha hname
    have hbody := entry.2.build_bodyUnder ha name hname
    rw [b.body_outcome room _ name] at hbody
    exact (Except.ok.inj hbody).symm

/-! ### Trees of operands -/

/-- One site takes an operand or a condition from another. -/
def Feeds (b : Builder) (s t : Site) : Prop := t ∈ b.operands s

/-- A site and all that feeds it pass the checks of construction, depth apart. -/
def Sound (b : Builder) (s : Site) : Prop := ∀ t, Relation.ReflTransGen b.Feeds s t → b.passes t = true

/-- The greatest height in a list, zero if there is none. -/
def tallest (height : Site → Nat) (sites : List Site) : Nat := sites.foldr (fun t h => Nat.max (height t) h) 0

theorem tallest_le_iff {height : Site → Nat} {sites : List Site} {n : Nat} :
    tallest height sites ≤ n ↔ ∀ t ∈ sites, height t ≤ n := by
  induction sites with
  | nil => exact iff_of_true (Nat.zero_le n) nofun
  | cons t sites ih =>
    rw [List.forall_mem_cons, ← ih]
    exact Nat.max_le

/-- Following operands and conditions from a site gives a finite tree of a height, the site included. -/
inductive Unfolds (b : Builder) : Site → Nat → Prop
  | node {s : Site} {height : Site → Nat} : (∀ t ∈ b.operands s, Unfolds b t (height t)) →
      Unfolds b s (tallest height (b.operands s) + 1)

theorem sound_iff : b.Sound s ↔ b.passes s = true ∧ ∀ t ∈ b.operands s, b.Sound t := by
  constructor
  · intro h
    exact ⟨h s .refl, fun t ht u hu => h u (.head ht hu)⟩
  · rintro ⟨hs, hoperands⟩ t ht
    rcases Relation.ReflTransGen.cases_head ht with rfl | ⟨u, hu, hut⟩
    · exact hs
    · exact hoperands u hu t hut

theorem Unfolds.unique {h h' : Nat} (hs : b.Unfolds s h) (hs' : b.Unfolds s h') : h' = h := by
  induction hs generalizing h' with
  | node _ ih =>
    obtain ⟨hs'⟩ := hs'
    refine congrArg Nat.succ (List.foldr_ext _ _ _ fun t ht h => ?_)
    exact congrArg (Nat.max · h) (ih t ht (hs' t ht))

/-- A finite tree has no way back. -/
theorem Unfolds.acyclic {h : Nat} (hs : b.Unfolds s h) (hst : Relation.ReflTransGen b.Feeds s t) :
    ¬Relation.TransGen b.Feeds t t := by
  induction hs generalizing t with
  | @node s _ _ ih =>
    intro hcycle
    rcases Relation.ReflTransGen.cases_head hst with rfl | ⟨u, hu, hut⟩
    · -- The first operand on the way round comes back to itself as well.
      obtain ⟨u, hu, hus⟩ := Relation.TransGen.head'_iff.mp hcycle
      exact ih u hu .refl (Relation.TransGen.tail' hus hu)
    · exact ih u hu hut hcycle

/-- Sites whose trees are at most so high feed one whose tree is at most one higher. -/
theorem unfolds_le_iff {room : Nat} :
    (∃ h ≤ room + 1, b.Unfolds s h) ↔ ∀ t ∈ b.operands s, ∃ h ≤ room, b.Unfolds t h := by
  constructor
  · rintro ⟨_, hle, ⟨hoperands⟩⟩ t ht
    exact ⟨_, tallest_le_iff.mp (Nat.le_of_succ_le_succ hle) t ht, hoperands t ht⟩
  · intro h
    choose! height hheight using h
    refine ⟨_, Nat.succ_le_succ ?_, .node fun t ht => (hheight t ht).2⟩
    exact tallest_le_iff.mpr fun t ht => (hheight t ht).1

theorem not_unfolds_zero : ¬∃ h ≤ 0, b.Unfolds s h := by
  rintro ⟨_, hle, ⟨-⟩⟩
  cases hle

/-- What holds of the operands of a site gives what holds of the site, one level up. -/
theorem passes_and_operands_iff {room : Nat}
    (operand : ∀ id, (b.reporterAt room id).Succeeds ↔ b.Sound ⟨.reporter, id⟩ ∧ ∃ h ≤ room, b.Unfolds ⟨.reporter, id⟩ h) :
    (b.passes s = true ∧ ∀ t ∈ b.operands s, (b.reporterAt room t.id).Succeeds) ↔
      b.Sound s ∧ ∃ h ≤ room + 1, b.Unfolds s h := by
  rw [sound_iff, unfolds_le_iff, and_assoc, ← forall₂_and]
  refine and_congr_right fun _ => forall₂_congr fun t ht => ?_
  rw [eq_of_mem_operands ht]
  exact operand t.id

/-- A reporter can be built just if all that feeds it passes and its tree fits into the room. -/
theorem reporterAt_succeeds_iff_unfolds {room : Nat} {id : String} :
    (b.reporterAt room id).Succeeds ↔ b.Sound ⟨.reporter, id⟩ ∧ ∃ h ≤ room, b.Unfolds ⟨.reporter, id⟩ h := by
  induction room generalizing id with
  | zero => exact iff_of_false (not_reporterAt_zero id) fun h => not_unfolds_zero h.2
  | succ room ih => exact reporterAt_succeeds_iff.trans (passes_and_operands_iff fun _ => ih)

/-- A statement inside so many bodies is kept just if all that feeds it passes and its trees fit. Each body around it
takes two levels, one for the statement that holds it and one for itself. -/
theorem keptAt_iff_unfolds {n : Nat} {id : String} :
    (b.keptAt (maxBuildDepth - 2 * n) id).isSome ↔ b.Sound ⟨.statement, id⟩ ∧
      ∃ h, b.Unfolds ⟨.statement, id⟩ (h + 1) ∧ 2 * n + 1 + h ≤ maxBuildDepth := by
  rw [keptAt_isSome]
  by_cases hn : 2 * n < maxBuildDepth
  · obtain ⟨room, hroom⟩ : ∃ room, maxBuildDepth - 2 * n = room + 2 := ⟨maxBuildDepth - 2 * n - 2, by
      simp only [maxBuildDepth] at hn ⊢
      omega⟩
    rw [hroom, statementAt_succeeds_iff, passes_and_operands_iff fun _ => reporterAt_succeeds_iff_unfolds]
    refine and_congr_right fun _ => ?_
    constructor
    · rintro ⟨_, hle, ⟨hoperands⟩⟩
      exact ⟨_, .node hoperands, by omega⟩
    · rintro ⟨h, hunfolds, hle⟩
      exact ⟨h + 1, by omega, hunfolds⟩
  · have hroom : maxBuildDepth - 2 * n = 0 := by omega
    rw [hroom]
    refine iff_of_false (not_statementAt_zero id) ?_
    rintro ⟨-, h, -, hle⟩
    omega

/-- Nesting is limited exactly, by room alone. A reporter at a depth can be built just if all that it is fed by passes
the other checks and following operands from it gives a finite tree that fits into the levels that are left, so none
that comes to a circle of operands can; a tree has one height. A script consists of the statements of its chain that
are kept, and so does each body of a statement that is kept; inside so many bodies just those are kept that pass the
other checks and whose highest tree of operands or conditions fits behind two levels for each body and one for
the statement itself. A body can always be built where its statement can, so no statement is left out for the sake of
what is in its bodies. -/
theorem nesting_limit_exact (b : Builder) :
    (∀ id depth, (b.reporterAt (maxBuildDepth - depth) id).Succeeds ↔ b.Sound ⟨.reporter, id⟩ ∧
      ∃ h, b.Unfolds ⟨.reporter, id⟩ h ∧ depth + h ≤ maxBuildDepth) ∧
    (∀ id depth, depth ≤ maxBuildDepth → ∃ enough, ∀ fuel, enough ≤ fuel →
      Returns depth (b.reporterOn fuel id) (b.reporterAt (maxBuildDepth - depth) id)) ∧
    (∀ id depth s, Relation.ReflTransGen b.Feeds ⟨.reporter, id⟩ s → Relation.TransGen b.Feeds s s →
      ¬(b.reporterAt (maxBuildDepth - depth) id).Succeeds) ∧
    (∀ s h h', b.Unfolds s h → b.Unfolds s h' → h' = h) ∧
    (∀ start, (b.substack start).1 = (b.graph.chain start).1.filterMap (b.keptAt maxBuildDepth)) ∧
    (∀ n id node a, b.graph.get? id = some node → b.keptAt (maxBuildDepth - 2 * n) id = some a →
      ∀ name ∈ b.bodyNames node, a.bodyUnder name =
        (b.graph.chain (node.blockUnder? name)).1.filterMap (b.keptAt (maxBuildDepth - 2 * (n + 1)))) ∧
    (∀ n id, (b.keptAt (maxBuildDepth - 2 * n) id).isSome ↔ b.Sound ⟨.statement, id⟩ ∧
      ∃ h, b.Unfolds ⟨.statement, id⟩ (h + 1) ∧ 2 * n + 1 + h ≤ maxBuildDepth) ∧
    ∀ n spec name, 2 * n < maxBuildDepth → (BlockSpec.body spec (b.bodyAt (maxBuildDepth - 2 * n) spec) name).outcome =
      .ok ((b.graph.chain (spec.node.blockUnder? name)).1.filterMap (b.keptAt (maxBuildDepth - 2 * (n + 1)))) := by
  have reporter : ∀ id depth, (b.reporterAt (maxBuildDepth - depth) id).Succeeds ↔ b.Sound ⟨.reporter, id⟩ ∧
      ∃ h, b.Unfolds ⟨.reporter, id⟩ h ∧ depth + h ≤ maxBuildDepth := by
    intro id depth
    rw [reporterAt_succeeds_iff_unfolds]
    refine and_congr_right fun _ => exists_congr fun h => ?_
    constructor
    · rintro ⟨hle, hunfolds⟩
      -- A tree has a root, so there is room for it.
      have hpositive : 0 < h := by
        obtain ⟨-⟩ := hunfolds
        exact Nat.succ_pos _
      exact ⟨hunfolds, by omega⟩
    · rintro ⟨hunfolds, hle⟩
      exact ⟨by omega, hunfolds⟩
  have even : ∀ n, 2 * n < maxBuildDepth → maxBuildDepth - 2 * n = maxBuildDepth - 2 * (n + 1) + 2 := by
    intro n hn
    simp only [maxBuildDepth] at hn ⊢
    omega
  refine ⟨reporter, fun id depth hdepth => ?_, fun id depth s hs hcycle hbuilt => ?_, fun s h h' hs hs' => hs.unique hs',
    fun start => ?_, fun n id node a hnode ha => ?_, fun n id => keptAt_iff_unfolds, fun n spec name hn => ?_⟩
  · exact ⟨maxBuildDepth - depth + 1, fun fuel hfuel => reporterOn_returns (by omega) (by omega) id⟩
  · obtain ⟨-, h, hunfolds, -⟩ := (reporter id depth).mp hbuilt
    exact hunfolds.acyclic hs hcycle
  · rw [substack, substackAt_eq_kept]
  · have hkept : (b.keptAt (maxBuildDepth - 2 * n) id).isSome := by rw [ha]; rfl
    obtain ⟨-, h, -, hle⟩ := keptAt_iff_unfolds.mp hkept
    rw [even n (by omega)] at ha
    exact bodyUnder_of_keptAt hnode ha
  · rw [even n hn]
    exact b.body_outcome _ spec name

/-- A loop that is its own body, and a wait whose duration is an operand of itself. -/
def snag : BlockGraph where
  nodes := [
    ("f", { opcode := "control_forever", next := some "w", parent := none, fields := [], shadow := false, topLevel := true,
            inputs := [("SUBSTACK", .block "f")] }),
    ("w", { opcode := "control_wait", next := none, parent := some "f", fields := [], shadow := false, topLevel := false,
            inputs := [("DURATION", .block "r")] }),
    ("r", { opcode := "operator_round", next := none, parent := some "w", fields := [], shadow := false,
            topLevel := false, inputs := [("NUM", .block "r")] })]

theorem snag_cut_off :
    Relation.TransGen (ofGraph snag).Feeds ⟨.reporter, "r"⟩ ⟨.reporter, "r"⟩ ∧
    ¬((ofGraph snag).reporterAt (maxBuildDepth - 0) "r").Succeeds ∧
    (∀ n, ((ofGraph snag).keptAt (maxBuildDepth - 2 * n) "f").isSome ↔ n ≤ 127) ∧
    ∀ a, (ofGraph snag).keptAt (maxBuildDepth - 2 * 127) "f" = some a → a.bodyUnder "SUBSTACK" = [] := by
  obtain ⟨-, -, hcycle, -, -, hbody, hkept, -⟩ := nesting_limit_exact (ofGraph snag)
  have hloop : Relation.TransGen (ofGraph snag).Feeds ⟨.reporter, "r"⟩ ⟨.reporter, "r"⟩ :=
    .single (show _ ∈ (ofGraph snag).operands _ by decide +kernel)
  have hoperands : (ofGraph snag).operands ⟨.statement, "f"⟩ = [] := by decide +kernel
  have hsound : (ofGraph snag).Sound ⟨.statement, "f"⟩ := sound_iff.mpr ⟨by decide +kernel, by rw [hoperands]; nofun⟩
  have hunfolds : (ofGraph snag).Unfolds ⟨.statement, "f"⟩ (0 + 1) := by
    have h := @Unfolds.node (ofGraph snag) ⟨.statement, "f"⟩ (fun _ => 0) (by rw [hoperands]; nofun)
    rwa [hoperands] at h
  have kept : ∀ n, ((ofGraph snag).keptAt (maxBuildDepth - 2 * n) "f").isSome ↔ n ≤ 127 := by
    intro n
    rw [hkept]
    constructor
    · rintro ⟨-, h, -, hle⟩
      simp only [maxBuildDepth] at hle
      omega
    · intro hn
      exact ⟨hsound, 0, hunfolds, by simp only [maxBuildDepth]; omega⟩
  refine ⟨hloop, hcycle "r" 0 _ .refl hloop, kept, fun a ha => ?_⟩
  rw [hbody 127 "f" _ a rfl ha "SUBSTACK" (by decide +kernel)]
  refine List.filterMap_eq_nil_iff.mpr fun id _ => Option.not_isSome_iff_eq_none.mp fun hid => ?_
  obtain ⟨-, h, -, hle⟩ := (hkept 128 id).mp hid
  simp only [maxBuildDepth] at hle
  omega

end Builder
end BlockScript
