import BlockScript.Proofs.Build.Sites
import Mathlib.Tactic.Choose

/-!
Scripts are rebuilt from their dictionary without loss. Where construction meets a tree of blocks that
fit, it gives one statement for each block in statement position, siblings in the order of `next` and
bodies as the inputs name them, and it logs nothing. With room enough the outcome does not depend on
how much room there is, so a block is built inside others just as it is built alone.
-/
namespace BlockScript

/-! ### Inputs -/

namespace BlockSpec

variable {spec : BlockSpec} {p q : Parts} {x : SlotKind × String}

theorem Agree.of_named (reporter : ∀ id, spec.node.blockUnder? x.2 = some id → x.1 ≠ .body → p.reporter id = q.reporter id)
    (body : ∀ id, spec.node.blockUnder? x.2 = some id → x.1 = .body → p.body id = q.body id) : spec.Agree p q x := by
  obtain ⟨kind, name⟩ := x
  cases hinput : spec.node.input? name with
  | none => cases kind <;> simp only [Agree, operand, condition, BlockSpec.body, hinput]
  | some input =>
    cases input with
    | block id =>
      have hid : spec.node.blockUnder? name = some id := by simp only [BlockNode.blockUnder?, hinput]
      cases kind with
      | value => simp only [Agree, operand, hinput, reporter id hid (by simp)]
      | truth => simp only [Agree, condition, hinput, reporter id hid (by simp)]
      | body => simp only [Agree, BlockSpec.body, hinput, body id hid rfl]
    | _ => cases kind <;> simp only [Agree, operand, condition, BlockSpec.body, hinput]

theorem Yields.of_named {b : Builder} (admits : b.admits x.1 (spec.node.input? x.2) = true)
    (reporter : ∀ id, spec.node.blockUnder? x.2 = some id → x.1 ≠ .body →
      ∃ r, p.reporter id = .done r ∧ (b.isPredicate id = true → ∃ c, r = .predicate c))
    (body : ∀ id, spec.node.blockUnder? x.2 = some id → x.1 = .body → ∃ l, p.body id = .done l) : spec.Yields p x := by
  obtain ⟨kind, name⟩ := x
  cases hinput : spec.node.input? name with
  | none => cases kind <;> exact ⟨_, by simp only [operand, condition, BlockSpec.body, hinput]; rfl⟩
  | some input =>
    cases input with
    | block id =>
      have hid : spec.node.blockUnder? name = some id := by simp only [BlockNode.blockUnder?, hinput]
      cases kind with
      | value =>
        obtain ⟨r, hr, -⟩ := reporter id hid (by simp)
        exact ⟨r.toOperand, by simp only [operand, hinput, hr]; rfl⟩
      | truth =>
        obtain ⟨r, hr, hpredicate⟩ := reporter id hid (by simp)
        rw [hinput] at admits
        obtain ⟨c, rfl⟩ := hpredicate admits
        exact ⟨c, by simp only [condition, hinput, hr]; rfl⟩
      | body =>
        obtain ⟨l, hl⟩ := body id hid rfl
        exact ⟨l, by simp only [BlockSpec.body, hinput, hl]⟩
    | empty => cases kind <;> exact ⟨_, by simp only [operand, condition, BlockSpec.body, hinput]; rfl⟩
    | _ =>
      rw [hinput] at admits
      cases kind
      · exact ⟨_, by simp only [operand, hinput]; rfl⟩
      · cases admits
      · cases admits

theorem body_of_admits {b : Builder} {name : String} (admits : b.admits .body (spec.node.input? name) = true)
    (f : String → List (Action Unit)) :
    spec.body (fun id => Build.done (f id)) name = .done ((spec.node.blockUnder? name).elim [] f) := by
  cases hinput : spec.node.input? name with
  | none => simp only [body, BlockNode.blockUnder?, hinput, Option.elim, Build.pure_eq]
  | some input =>
    rw [hinput] at admits
    cases input with
    | block id => simp only [body, BlockNode.blockUnder?, hinput, Option.elim]
    | empty => simp only [body, BlockNode.blockUnder?, hinput, Option.elim, Build.pure_eq]
    | _ => cases admits

end BlockSpec

namespace Builder

variable {b : Builder} {start : String}

/-- The block that an input names is so many levels further down. -/
theorem Reaches.slot {s : Site} {level : Nat} {node : BlockNode} {sig : Signature} (h : b.Reaches start s level)
    (hread : b.read? s = some (node, sig)) {x : SlotKind × String} (hx : x ∈ sig.slots) {id : String}
    (hid : node.blockUnder? x.2 = some id) :
    b.Reaches start ⟨x.1.position, id⟩ (level + (Hop.slot x.1 x.2).levels) := by
  refine h.hop ?_
  simp only [hops, hread]
  exact List.mem_append_left _ (BlockNode.mem_slotHops.mpr ⟨x, hx, rfl, rfl, hid⟩)

theorem Reaches.reporter_slot {s : Site} {level : Nat} {node : BlockNode} {sig : Signature} (h : b.Reaches start s level)
    (hread : b.read? s = some (node, sig)) {x : SlotKind × String} (hx : x ∈ sig.slots) {id : String}
    (hid : node.blockUnder? x.2 = some id) (hkind : x.1 ≠ .body) : b.Reaches start ⟨.reporter, id⟩ (level + 1) := by
  obtain ⟨kind, name⟩ := x
  cases kind with
  | value => exact h.slot hread hx hid
  | truth => exact h.slot hread hx hid
  | body => exact absurd rfl hkind

theorem Reaches.body_slot {s : Site} {level : Nat} {node : BlockNode} {sig : Signature} (h : b.Reaches start s level)
    (hread : b.read? s = some (node, sig)) {x : SlotKind × String} (hx : x ∈ sig.slots) {id : String}
    (hid : node.blockUnder? x.2 = some id) (hkind : x.1 = .body) : b.Reaches start ⟨.statement, id⟩ (level + 2) := by
  obtain ⟨kind, name⟩ := x
  cases hkind
  exact h.slot hread hx hid

/-- Two ways to reach blocks build what the inputs name, both the same. -/
structure Settled (b : Builder) (node : BlockNode) (slots : List (SlotKind × String)) (p q : Parts) : Prop where
  reporter : ∀ x ∈ slots, ∀ id, node.blockUnder? x.2 = some id → x.1 ≠ .body →
    ∃ r, p.reporter id = .done r ∧ q.reporter id = .done r ∧ (b.isPredicate id = true → ∃ c, r = .predicate c)
  body : ∀ x ∈ slots, ∀ id, node.blockUnder? x.2 = some id → x.1 = .body →
    ∃ l, p.body id = .done l ∧ q.body id = .done l

namespace Settled

variable {spec : BlockSpec} {slots : List (SlotKind × String)} {p q : Parts}

theorem agree (h : b.Settled spec.node slots p q) : ∀ x ∈ slots, spec.Agree p q x := by
  refine fun x hx => .of_named (fun id hid hkind => ?_) fun id hid hkind => ?_
  · obtain ⟨r, hp, hq, -⟩ := h.reporter x hx id hid hkind
    rw [hp, hq]
  · obtain ⟨l, hp, hq⟩ := h.body x hx id hid hkind
    rw [hp, hq]

theorem yields (h : b.Settled spec.node slots p q) (admits : ∀ x ∈ slots, b.admits x.1 (spec.node.input? x.2) = true) :
    ∀ x ∈ slots, spec.Yields q x := by
  refine fun x hx => .of_named (admits x hx) (fun id hid hkind => ?_) fun id hid hkind => ?_
  · obtain ⟨r, -, hq, hpredicate⟩ := h.reporter x hx id hid hkind
    exact ⟨r, hq, hpredicate⟩
  · obtain ⟨l, -, hq⟩ := h.body x hx id hid hkind
    exact ⟨l, hq⟩

end Settled

/-! ### Reporters -/

/-- With room enough the reporter of an id is built, always the same. -/
theorem FormsTree.reporterAt_settles (h : b.FormsTree start) (room : Nat) {level : Nat} {id : String}
    (hs : b.Reaches start ⟨.reporter, id⟩ level) (hroom : maxBuildDepth ≤ level + room) :
    ∃ r, (∀ m, room ≤ m → b.reporterAt m id = .done r) ∧ (b.isPredicate id = true → ∃ c, r = .predicate c) := by
  induction room generalizing id level with
  | zero =>
    have := h.shallow _ _ hs
    omega
  | succ room ih =>
    obtain ⟨node, sig, hread, fields, admits⟩ := h.read hs
    obtain ⟨hnode, hsig⟩ := read?_eq_some.mp hread
    obtain ⟨⟨opcode, kind⟩, hresolve, rfl⟩ := Option.map_eq_some_iff.mp hsig
    let spec : BlockSpec := ⟨id, opcode, node⟩
    let parts (m : Nat) : Parts := ⟨b.reporterAt m, fun _ => .done []⟩
    have settled : ∀ m, room ≤ m → b.Settled spec.node kind.signature.slots (parts m) (parts room) := by
      refine fun m hm => ⟨fun x hx id' hid' hkind => ?_, fun _ _ _ _ _ => ⟨[], rfl, rfl⟩⟩
      obtain ⟨r, hr, hpredicate⟩ := ih (hs.reporter_slot hread hx hid' hkind) (by omega)
      exact ⟨r, hr m hm, hr room (Nat.le_refl _), hpredicate⟩
    obtain ⟨r, hr, hpredicate⟩ := kind.build_done fields ((settled room (Nat.le_refl _)).yields admits)
    have hkind : b.isPredicate id = kind.isPredicate := by
      simp only [isPredicate, hnode, Option.bind_some, hresolve, Option.any_some]
    refine ⟨r, fun m hm => ?_, fun hid => hpredicate (hkind ▸ hid)⟩
    obtain ⟨m, rfl⟩ : ∃ k, m = k + 1 := ⟨m - 1, by omega⟩
    rw [reporterAt, hnode]
    simp only [hresolve]
    exact (kind.build_congr (settled m (by omega)).agree).trans hr

/-! ### Statements -/

/-- The bodies of a statement with room for so many levels. -/
def bodyAt (b : Builder) : (room : Nat) → BlockSpec → String → Build (List (Action Unit))
  | room + 2, _, id => ⟨.ok (b.substackAt room (some id)).1, (b.substackAt room (some id)).2⟩
  | _, spec, _ => .fail (.tooDeep spec.id)

theorem bodyAt_of_done {room : Nat} (spec : BlockSpec) {id : String} {l : List (Action Unit)}
    (h : b.substackAt room (some id) = (l, [])) : b.bodyAt (room + 2) spec id = .done l := by
  simp only [bodyAt, h]
  rfl

/-- The statement of an id with room for so many levels. -/
def blockAt (b : Builder) (room : Nat) : String → BlockNode → Build (Action Unit) := b.actionAt room (b.bodyAt room)

theorem substackAt_eq (b : Builder) (room : Nat) (start : Option String) :
    b.substackAt room start = b.walk (b.blockAt room) start := by
  match room with
  | 0 => rfl
  | 1 => rfl
  | _ + 2 => rfl

theorem link_of_done {action : String → BlockNode → Build (Action Unit)} {id : String} {node : BlockNode}
    (hnode : b.graph.get? id = some node) {a : Action Unit} (h : action id node = .done a) : b.link action id = ([a], []) := by
  simp only [link, hnode, h, Build.done]

theorem walk_of_links {action : String → BlockNode → Build (Action Unit)} {first : Option String} {ids : List String}
    (hchain : b.graph.chain first = (ids, .done)) {f : String → Action Unit}
    (hlinks : ∀ id ∈ ids, b.link action id = ([f id], [])) : b.walk action first = (ids.map f, []) := by
  have hmap : ids.map (link action b) = ids.map fun id => ([f id], []) := List.map_congr_left hlinks
  simp only [walk, hchain, hmap, List.flatMap_map, endRecord, List.append_nil]
  exact Prod.ext List.map_eq_flatMap.symm (List.flatMap_eq_nil_iff.mpr fun _ _ => rfl)

/-- If the blocks of a chain settle, so does the chain. -/
theorem FormsTree.substackAt_settles (h : b.FormsTree start) {room level : Nat} {id : String}
    (hs : b.Reaches start ⟨.statement, id⟩ level)
    (links : ∀ id, b.Reaches start ⟨.statement, id⟩ level → ∃ a, ∀ m, room ≤ m → b.link (b.blockAt m) id = ([a], [])) :
    ∃ l, ∀ m, room ≤ m → b.substackAt m (some id) = (l, []) := by
  obtain ⟨ids, hchain, follows⟩ := h.chain_follows hs
  have hids := h.reaches_of_follows follows hs
  have : Nonempty (Action Unit) := ⟨.command .clearEffects⟩
  choose! f hf using links
  refine ⟨ids.map f, fun m hm => ?_⟩
  rw [substackAt_eq]
  exact walk_of_links hchain fun id hid => hf id (hids id hid) m hm

/-- With room enough the statement of an id is built, always the same. -/
theorem FormsTree.link_settles (h : b.FormsTree start) {room level : Nat} {id : String}
    (hs : b.Reaches start ⟨.statement, id⟩ level) (hroom : maxBuildDepth ≤ level + room) :
    ∃ a, ∀ m, room ≤ m → b.link (b.blockAt m) id = ([a], []) := by
  -- Bodies are two levels down.
  induction room using Nat.strongRecOn generalizing id level with
  | ind room ih =>
  have hlevel := h.shallow _ _ hs
  obtain ⟨room, rfl⟩ : ∃ k, room = k + 1 := ⟨room - 1, by omega⟩
  obtain ⟨node, sig, hread, fields, admits⟩ := h.read hs
  obtain ⟨hnode, hsig⟩ := read?_eq_some.mp hread
  obtain ⟨⟨opcode, kind⟩, hresolve, rfl⟩ := Option.map_eq_some_iff.mp hsig
  let spec : BlockSpec := ⟨id, opcode, node⟩
  let parts (m : Nat) : Parts := ⟨b.reporterAt m, b.bodyAt (m + 1) spec⟩
  have settled : ∀ m, room ≤ m → b.Settled spec.node (kind.signature opcode).slots (parts m) (parts room) := by
    refine fun m hm => ⟨fun x hx id' hid' hkind => ?_, fun x hx id' hid' hkind => ?_⟩
    · obtain ⟨r, hr, hpredicate⟩ := h.reporterAt_settles room (hs.reporter_slot hread hx hid' hkind) (by omega)
      exact ⟨r, hr m hm, hr room (Nat.le_refl _), hpredicate⟩
    · have hbody := hs.body_slot hread hx hid' hkind
      have hshallow := h.shallow _ _ hbody
      obtain ⟨room, rfl⟩ : ∃ k, room = k + 1 := ⟨room - 1, by omega⟩
      obtain ⟨m, rfl⟩ : ∃ k, m = k + 1 := ⟨m - 1, by omega⟩
      obtain ⟨l, hl⟩ := h.substackAt_settles hbody fun id'' hid'' => ih room (by omega) hid'' (by omega)
      exact ⟨l, bodyAt_of_done spec (hl m (by omega)), bodyAt_of_done spec (hl room (Nat.le_refl _))⟩
  have built : ∃ a, kind.Makes (parts room) spec a := kind.build_done fields ((settled room (Nat.le_refl _)).yields admits)
  obtain ⟨a, makes⟩ := built
  refine ⟨a, fun m hm => link_of_done hnode ?_⟩
  obtain ⟨m, rfl⟩ : ∃ k, m = k + 1 := ⟨m - 1, by omega⟩
  simp only [blockAt, actionAt, hresolve]
  exact (kind.build_congr (settled m (by omega)).agree).trans makes.build

/-- A choice of statements for ids: with room enough construction gives just these. -/
def Gives (b : Builder) (start : String) (action : String → Action Unit) : Prop :=
  ∀ id level m, b.Reaches start ⟨.statement, id⟩ level → maxBuildDepth ≤ level + m →
    b.link (b.blockAt m) id = ([action id], [])

theorem FormsTree.exists_gives (h : b.FormsTree start) : ∃ action, b.Gives start action := by
  have settled : ∀ id, ∃ a, ∀ level m, b.Reaches start ⟨.statement, id⟩ level → maxBuildDepth ≤ level + m →
      b.link (b.blockAt m) id = ([a], []) := by
    intro id
    by_cases hid : ∃ level, b.Reaches start ⟨.statement, id⟩ level
    · obtain ⟨level, hlevel⟩ := hid
      have enough : ∀ level : Nat, maxBuildDepth ≤ level + (maxBuildDepth - level) := fun level => by omega
      obtain ⟨a, ha⟩ := h.link_settles hlevel (enough level)
      refine ⟨a, fun level' m hlevel' hm => ?_⟩
      obtain ⟨a', ha'⟩ := h.link_settles hlevel' (enough level')
      -- With all the room there is, both are the same.
      have hsame := (ha maxBuildDepth (Nat.sub_le _ _)).symm.trans (ha' maxBuildDepth (Nat.sub_le _ _))
      rw [ha' m (by omega)]
      exact hsame.symm
    · exact ⟨.command .clearEffects, fun level m hlevel _ => absurd ⟨level, hlevel⟩ hid⟩
  choose action haction using settled
  exact ⟨action, fun id level m => haction id level m⟩

namespace Gives

variable {action : String → Action Unit}

theorem substackAt (gives : b.Gives start action) (h : b.FormsTree start) {id : String} {level m : Nat}
    (hs : b.Reaches start ⟨.statement, id⟩ level) (hm : maxBuildDepth ≤ level + m) :
    b.substackAt m (some id) = ((b.graph.chain (some id)).1.map action, []) := by
  obtain ⟨ids, hchain, follows⟩ := h.chain_follows hs
  rw [substackAt_eq, hchain]
  exact walk_of_links hchain fun x hx => gives x level m (h.reaches_of_follows follows hs x hx) hm

/-- How blocks reach the blocks they refer to, each built alone. -/
def parts (b : Builder) (action : String → Action Unit) : Parts :=
  ⟨b.reporter, fun id => .done ((b.graph.chain (some id)).1.map action)⟩

/-- Each statement is what its kind makes of its node and of what its inputs name. -/
theorem makes (gives : b.Gives start action) (h : b.FormsTree start) {id : String} {level : Nat}
    (hs : b.Reaches start ⟨.statement, id⟩ level) :
    ∃ node opcode kind, b.read? ⟨.statement, id⟩ = some (node, kind.signature opcode) ∧
      b.registries.actions.resolve? node.opcode = some (opcode, kind) ∧
      kind.Makes (parts b action) ⟨id, opcode, node⟩ (action id) := by
  obtain ⟨node, sig, hread, fields, admits⟩ := h.read hs
  obtain ⟨hnode, hsig⟩ := read?_eq_some.mp hread
  obtain ⟨⟨opcode, kind⟩, hresolve, rfl⟩ := Option.map_eq_some_iff.mp hsig
  refine ⟨node, opcode, kind, hread, hresolve, ?_⟩
  let spec : BlockSpec := ⟨id, opcode, node⟩
  obtain ⟨room, hroom⟩ : ∃ room, maxBuildDepth = room + 2 := ⟨254, rfl⟩
  have settled : b.Settled spec.node (kind.signature opcode).slots
      ⟨b.reporterAt (room + 1), b.bodyAt (room + 2) spec⟩ (parts b action) := by
    refine ⟨fun x hx id' hid' hkind => ?_, fun x hx id' hid' hkind => ⟨_, bodyAt_of_done spec ?_, rfl⟩⟩
    · have hbelow := hs.reporter_slot hread hx hid' hkind
      obtain ⟨r, hr, hpredicate⟩ := h.reporterAt_settles (room + 1) hbelow (by omega)
      exact ⟨r, hr _ (Nat.le_refl _), hr _ (by omega), hpredicate⟩
    · exact gives.substackAt h (hs.body_slot hread hx hid' hkind) (by omega)
  have built : ∃ a, kind.Makes (parts b action) spec a := kind.build_done fields (settled.yields admits)
  obtain ⟨a, makes⟩ := built
  have hblock : b.blockAt maxBuildDepth id node = .done a := by
    rw [hroom]
    simp only [blockAt, actionAt, hresolve]
    exact (kind.build_congr settled.agree).trans makes.build
  have hlink := (link_of_done hnode hblock).symm.trans (gives id level maxBuildDepth hs (Nat.le_add_left _ _))
  obtain rfl : a = action id := List.head_eq_of_cons_eq (Prod.mk.inj hlink).1
  exact makes

/-- Each body is the chain that its input names. -/
theorem bodyUnder (h : b.FormsTree start) {id opcode : String} {level : Nat} (hs : b.Reaches start ⟨.statement, id⟩ level)
    {node : BlockNode} {kind : ActionKind} (hread : b.read? ⟨.statement, id⟩ = some (node, kind.signature opcode))
    (makes : kind.Makes (parts b action) ⟨id, opcode, node⟩ (action id)) {name : String}
    (hname : name ∈ (kind.signature opcode).bodies) :
    (action id).bodyUnder name = (b.graph.chain (node.blockUnder? name)).1.map action := by
  obtain ⟨node', sig, hread', -, admits⟩ := h.read hs
  obtain ⟨rfl, rfl⟩ := Prod.mk.inj (Option.some.inj (hread.symm.trans hread'))
  have hbody := makes.body name hname
  rw [parts, BlockSpec.body_of_admits (admits _ (Signature.mem_bodies.mp hname))] at hbody
  have heq : (node.blockUnder? name).elim [] (fun id => (b.graph.chain (some id)).1.map action) = (action id).bodyUnder name :=
    Except.ok.inj (congrArg Build.outcome hbody)
  rw [← heq]
  cases node.blockUnder? name with
  | none => simp [BlockGraph.chain, BlockGraph.chainFrom]
  | some id' => rfl

end Gives

/-! ### Listings -/

theorem hops_reporter {id : String} {hop : Hop} {t : Site} (h : (hop, t) ∈ b.hops ⟨.reporter, id⟩) :
    t.position = .reporter ∧ 1 ≤ hop.levels := by
  unfold hops at h
  split at h
  · rename_i node sig hread
    obtain ⟨x, -, rfl⟩ := Option.map_eq_some_iff.mp (read?_eq_some.mp hread).2
    rcases List.mem_append.mp h with h | h
    · obtain ⟨slot, hslot, rfl, hposition, -⟩ := BlockNode.mem_slotHops.mp h
      have hkind := x.2.slots_ne_body slot hslot
      obtain ⟨kind, name⟩ := slot
      cases kind with
      | value => exact ⟨hposition, Nat.le_refl _⟩
      | truth => exact ⟨hposition, Nat.le_refl _⟩
      | body => exact absurd rfl hkind
    · cases h
  · cases h

/-- What is below a reporter are reporters. -/
theorem position_of_steps {s t : Site} {n : Nat} (h : Steps b.children n s t) (hs : s.position = .reporter) :
    t.position = .reporter := by
  induction n generalizing t with
  | zero => exact h ▸ hs
  | succ n ih =>
    obtain ⟨⟨position, id⟩, hy, ht⟩ := h
    obtain rfl : position = .reporter := ih hy
    obtain ⟨⟨hop, t⟩, hhop, rfl⟩ := List.mem_map.mp ht
    exact (hops_reporter hhop).1

theorem FormsTree.reporter_listing (h : b.FormsTree start) {room level : Nat} {id : String}
    (hs : b.Reaches start ⟨.reporter, id⟩ level) (hroom : maxBuildDepth ≤ level + room) :
    ∃ l, Listing b.children [⟨.reporter, id⟩] l := by
  induction room generalizing id level with
  | zero =>
    have := h.shallow _ _ hs
    omega
  | succ room ih =>
    have below : ∃ l, Listing b.children (b.children ⟨.reporter, id⟩) l := by
      refine Listing.exists_of_roots fun t ht => ?_
      obtain ⟨⟨hop, position, id'⟩, hhop, rfl⟩ := List.mem_map.mp ht
      obtain ⟨rfl, hlevels⟩ := hops_reporter hhop
      exact ih (hs.hop hhop) (by omega)
    obtain ⟨l, hl⟩ := below
    exact ⟨_, hl.cons .nil⟩

/-- The ids of the sites in statement position. -/
def statementIds (l : List Site) : List String := (l.filter (·.position = .statement)).map (·.id)

theorem statementIds_append (l m : List Site) : statementIds (l ++ m) = statementIds l ++ statementIds m := by
  simp [statementIds]

theorem statementIds_cons (id : String) (l : List Site) : statementIds (⟨.statement, id⟩ :: l) = id :: statementIds l := by
  simp [statementIds]

theorem mem_statementIds {id : String} {l : List Site} : id ∈ statementIds l ↔ ⟨.statement, id⟩ ∈ l := by
  simp only [statementIds, List.mem_map, List.mem_filter, decide_eq_true_eq]
  constructor
  · rintro ⟨⟨position, _⟩, ⟨hmem, rfl⟩, rfl⟩
    exact hmem
  · exact fun hmem => ⟨_, ⟨hmem, rfl⟩, rfl⟩

theorem statementIds_nodup {l : List Site} (h : l.Nodup) : (statementIds l).Nodup := by
  refine (h.filter _).map_on fun s hs t ht heq => ?_
  have hs := of_decide_eq_true (List.mem_filter.mp hs).2
  have ht := of_decide_eq_true (List.mem_filter.mp ht).2
  obtain ⟨position, id⟩ := s
  obtain ⟨position', id'⟩ := t
  cases hs
  cases ht
  cases heq
  rfl

theorem statementIds_of_reporter {id : String} {l : List Site} (h : Listing b.children [⟨.reporter, id⟩] l) :
    statementIds l = [] := by
  refine List.map_eq_nil_iff.mpr (List.filter_eq_nil_iff.mpr fun t ht hstatement => ?_)
  obtain ⟨r, hr, n, hn⟩ := h.mem_iff.mp ht
  obtain rfl := List.mem_singleton.mp hr
  have hposition := position_of_steps hn rfl
  rw [of_decide_eq_true hstatement] at hposition
  cases hposition

namespace Gives

variable {action : String → Action Unit}

/-- The statements of a listing are those of the chain that a start names. -/
def Shows (b : Builder) (action : String → Action Unit) (first : Option String) (l : List Site) : Prop :=
  (statementIds l).map action = Action.bodyStatements ((b.graph.chain first).1.map action)

/-- What is below inputs of a statement: the statements there are those of its bodies. -/
def ShowsBodies (b : Builder) (action : String → Action Unit) (node : BlockNode) (slots : List (SlotKind × String))
    (l : List Site) : Prop :=
  (statementIds l).map action = ((slots.filter (·.1 = .body)).map (·.2)).flatMap fun name =>
    Action.bodyStatements ((b.graph.chain (node.blockUnder? name)).1.map action)

variable {s : Site} {level room : Nat} {node : BlockNode} {sig : Signature}

theorem slot_listing (h : b.FormsTree start) (hs : b.Reaches start s level) (hroom : maxBuildDepth ≤ level + 1 + room)
    (hread : b.read? s = some (node, sig))
    (bodies : ∀ id, b.Reaches start ⟨.statement, id⟩ (level + 2) →
      ∃ l, Listing b.children [⟨.statement, id⟩] l ∧ Shows b action (some id) l)
    {x : SlotKind × String} (hx : x ∈ sig.slots) :
    ∃ l, Listing b.children ((node.slotHops [x]).map (·.2)) l ∧ ShowsBodies b action node [x] l := by
  obtain ⟨kind, name⟩ := x
  by_cases hkind : kind = .body
  · subst hkind
    have hshows : ∀ {l}, Shows b action (node.blockUnder? name) l → ShowsBodies b action node [(.body, name)] l :=
      fun hl => hl.trans (List.append_nil _).symm
    cases hid : node.blockUnder? name with
    | none =>
      have hhops : node.slotHops [(.body, name)] = [] := by simp [BlockNode.slotHops, hid]
      exact ⟨[], hhops ▸ .nil, hshows (by simp [Shows, statementIds, hid, BlockGraph.chain, BlockGraph.chainFrom, Action.bodyStatements])⟩
    | some id =>
      obtain ⟨l, hl, shows⟩ := bodies id (hs.body_slot hread hx hid rfl)
      have hhops : node.slotHops [(.body, name)] = [(.slot .body name, ⟨.statement, id⟩)] := by
        simp [BlockNode.slotHops, hid, SlotKind.position]
      exact ⟨l, hhops ▸ hl, hshows (hid ▸ shows)⟩
  · have hbodies : ∀ {l}, statementIds l = [] → ShowsBodies b action node [(kind, name)] l := by
      intro l hl
      simp [ShowsBodies, hl, hkind]
    cases hid : node.blockUnder? name with
    | none =>
      have hhops : node.slotHops [(kind, name)] = [] := by simp [BlockNode.slotHops, hid]
      exact ⟨[], hhops ▸ .nil, hbodies rfl⟩
    | some id =>
      obtain ⟨l, hl⟩ := h.reporter_listing (hs.reporter_slot hread hx hid hkind) hroom
      have hposition : kind.position = .reporter := by cases kind <;> first | rfl | exact absurd rfl hkind
      have hhops : node.slotHops [(kind, name)] = [(.slot kind name, ⟨.reporter, id⟩)] := by
        simp [BlockNode.slotHops, hid, hposition]
      exact ⟨l, hhops ▸ hl, hbodies (statementIds_of_reporter hl)⟩

theorem slots_listing (h : b.FormsTree start) (hs : b.Reaches start s level) (hroom : maxBuildDepth ≤ level + 1 + room)
    (hread : b.read? s = some (node, sig))
    (bodies : ∀ id, b.Reaches start ⟨.statement, id⟩ (level + 2) →
      ∃ l, Listing b.children [⟨.statement, id⟩] l ∧ Shows b action (some id) l)
    {slots : List (SlotKind × String)} (hslots : slots ⊆ sig.slots) :
    ∃ l, Listing b.children ((node.slotHops slots).map (·.2)) l ∧ ShowsBodies b action node slots l := by
  induction slots with
  | nil => exact ⟨[], .nil, rfl⟩
  | cons x slots ih =>
    obtain ⟨hx, hslots⟩ := List.cons_subset.mp hslots
    obtain ⟨first, hfirst, showsFirst⟩ := slot_listing h hs hroom hread bodies hx
    obtain ⟨others, hothers, showsOthers⟩ := ih hslots
    have hhops : node.slotHops (x :: slots) = node.slotHops [x] ++ node.slotHops slots :=
      List.filterMap_append (l := [x])
    refine ⟨first ++ others, by rw [hhops, List.map_append]; exact hfirst.append hothers, ?_⟩
    have hfilter : (x :: slots).filter (·.1 = .body) = [x].filter (·.1 = .body) ++ slots.filter (·.1 = .body) :=
      List.filter_append [x] slots
    rw [ShowsBodies, statementIds_append, List.map_append, showsFirst, showsOthers, hfilter, List.map_append, List.flatMap_append]

/-- What is below the blocks of a chain. -/
theorem chain_listing (h : b.FormsTree start) (gives : b.Gives start action) (hroom : maxBuildDepth ≤ level + 1 + room)
    (bodies : ∀ id, b.Reaches start ⟨.statement, id⟩ (level + 2) →
      ∃ l, Listing b.children [⟨.statement, id⟩] l ∧ Shows b action (some id) l)
    {first : Option String} {ids : List String} (follows : b.graph.Follows first ids)
    (hids : ∀ id ∈ ids, b.Reaches start ⟨.statement, id⟩ level) :
    ∃ l, Listing b.children (first.toList.map (⟨.statement, ·⟩)) l ∧
      (statementIds l).map action = Action.bodyStatements (ids.map action) := by
  induction follows with
  | nil => exact ⟨[], .nil, rfl⟩
  | @cons id node ids hnode follows ih =>
    obtain ⟨hid, hids⟩ := List.forall_mem_cons.mp hids
    obtain ⟨others, hothers, hstatements⟩ := ih hids
    obtain ⟨node', opcode, kind, hread, hresolve, makes⟩ := gives.makes h hid
    obtain rfl := Option.some.inj (hnode.symm.trans (read?_eq_some.mp hread).1)
    obtain ⟨below, hbelow, shows⟩ := slots_listing h hid hroom hread bodies (List.Subset.refl _)
    have hchildren : b.children ⟨.statement, id⟩ =
        (node.slotHops (kind.signature opcode).slots).map (·.2) ++ node.follower.toList.map (⟨.statement, ·⟩) := by
      simp only [children, hops, hread, List.map_append, BlockNode.nextHops]
      cases node.follower <;> rfl
    have hlisting : Listing b.children (b.children ⟨.statement, id⟩) (below ++ others) :=
      hchildren ▸ hbelow.append hothers
    have hbodies : (statementIds below).map action =
        (kind.signature opcode).bodies.flatMap fun name => Action.bodyStatements ((action id).bodyUnder name) := by
      refine Eq.trans shows (List.flatMap_congr fun name hname => ?_)
      rw [bodyUnder h hid hread makes hname]
    refine ⟨⟨.statement, id⟩ :: (below ++ others) ++ [], hlisting.cons .nil, ?_⟩
    calc (statementIds (⟨.statement, id⟩ :: (below ++ others) ++ [])).map action
        = action id :: ((statementIds below).map action ++ (statementIds others).map action) := by
          rw [List.append_nil, statementIds_cons, statementIds_append, List.map_cons, List.map_append]
      _ = (action id).statements ++ Action.bodyStatements (ids.map action) := by
          rw [hbodies, hstatements, makes.statements, List.cons_append]
      _ = Action.bodyStatements ((id :: ids).map action) := rfl

theorem statement_listing (h : b.FormsTree start) (gives : b.Gives start action) {id : String}
    (hs : b.Reaches start ⟨.statement, id⟩ level) (hroom : maxBuildDepth ≤ level + room) :
    ∃ l, Listing b.children [⟨.statement, id⟩] l ∧ Shows b action (some id) l := by
  induction room using Nat.strongRecOn generalizing id level with
  | ind room ih =>
  have hlevel := h.shallow _ _ hs
  obtain ⟨room, rfl⟩ : ∃ k, room = k + 1 := ⟨room - 1, by omega⟩
  have bodies : ∀ id, b.Reaches start ⟨.statement, id⟩ (level + 2) →
      ∃ l, Listing b.children [⟨.statement, id⟩] l ∧ Shows b action (some id) l := by
    intro id' hid'
    have hshallow := h.shallow _ _ hid'
    exact ih (room - 1) (by omega) hid' (by omega)
  obtain ⟨ids, hchain, follows⟩ := h.chain_follows hs
  have hroom : maxBuildDepth ≤ level + 1 + room := by omega
  obtain ⟨l, hl, hstatements⟩ := chain_listing h gives hroom bodies follows (h.reaches_of_follows follows hs)
  refine ⟨l, hl, ?_⟩
  rw [Shows, hchain]
  exact hstatements

end Gives

/-! ### Scripts -/

theorem FormsTree.body_done (h : b.FormsTree start) {s : Site} {level : Nat} (hs : b.Reaches start s level)
    {node : BlockNode} {sig : Signature} (hread : b.read? s = some (node, sig)) {name : String} (hname : name ∈ sig.bodies) :
    (b.graph.chain (node.blockUnder? name)).2 = .done := by
  cases hid : node.blockUnder? name with
  | none => simp [BlockGraph.chain, BlockGraph.chainFrom]
  | some id =>
    obtain ⟨ids, hchain, -⟩ := h.chain_follows (hs.body_slot hread (Signature.mem_bodies.mp hname) hid rfl)
    exact congrArg Prod.snd hchain

/-- A script is rebuilt without loss or duplication. Where construction meets a tree of blocks that fit,
the statements of what is built are in order one for each block in statement position; each is what its
kind makes of its node, of the reporters its inputs name and of the chains they name as bodies; siblings
follow `next`, and nothing is logged. -/
theorem substack_rebuilds (g : BlockGraph) (start : String) (h : (ofGraph g).FormsTree start) :
    ∃ (action : String → Action Unit) (ids : List String),
      (ofGraph g).substack (some start) = ((g.chain (some start)).1.map action, []) ∧
      (g.chain (some start)).2 = .done ∧
      Action.bodyStatements ((ofGraph g).substack (some start)).1 = ids.map action ∧ ids.Nodup ∧
      (∀ id, id ∈ ids ↔ ∃ level, (ofGraph g).Reaches start ⟨.statement, id⟩ level) ∧
      ∀ id ∈ ids, ∃ node kind, g.get? id = some node ∧
        Registries.builtin.actions.resolve? node.opcode = some (node.opcode, kind) ∧
        (action id).opcode = node.opcode ∧
        kind.build ⟨(ofGraph g).reporter, fun id => .done ((g.chain (some id)).1.map action)⟩ ⟨id, node.opcode, node⟩ =
          .done (action id) ∧
        ∀ name ∈ (kind.signature node.opcode).bodies,
          (action id).bodyUnder name = (g.chain (node.blockUnder? name)).1.map action ∧
          (g.chain (node.blockUnder? name)).2 = .done := by
  obtain ⟨action, gives⟩ := h.exists_gives
  have hstart : (ofGraph g).Reaches start ⟨.statement, start⟩ 0 := .start
  have hsubstack : (ofGraph g).substack (some start) = ((g.chain (some start)).1.map action, []) :=
    gives.substackAt h hstart (Nat.le_add_left _ _)
  obtain ⟨ids, hchain, -⟩ := h.chain_follows hstart
  obtain ⟨l, hl, shows⟩ := Gives.statement_listing h gives hstart (Nat.le_add_left _ _)
  refine ⟨action, statementIds l, hsubstack, congrArg Prod.snd hchain, ?_, ?_, fun id => ?_, fun id hid => ?_⟩
  · rw [hsubstack]
    exact shows.symm
  · refine statementIds_nodup (hl.nodup h.isTree (List.nodup_singleton _) (d := 0) fun r hr => ?_)
    exact (List.mem_singleton.mp hr).symm
  · rw [mem_statementIds, hl.mem_iff]
    constructor
    · rintro ⟨r, hr, n, hn⟩
      obtain rfl := List.mem_singleton.mp hr
      exact reaches_of_steps hn
    · rintro ⟨level, hlevel⟩
      exact ⟨_, List.mem_singleton_self _, hlevel.steps⟩
  · obtain ⟨r, hr, n, hn⟩ := hl.mem_iff.mp (mem_statementIds.mp hid)
    obtain rfl := List.mem_singleton.mp hr
    obtain ⟨level, hlevel⟩ := reaches_of_steps hn
    obtain ⟨node, opcode, kind, hread, hresolve, makes⟩ := gives.makes h hlevel
    obtain rfl : opcode = node.opcode := by simpa using List.find?_some hresolve
    have hcode : node.opcode ∈ kind.opcodes := ActionKind.mem_opcodes _ (List.mem_of_find?_eq_some hresolve)
    refine ⟨node, kind, (read?_eq_some.mp hread).1, hresolve, makes.opcode hcode, makes.build, fun name hname => ?_⟩
    exact ⟨Gives.bodyUnder h hlevel hread makes hname, h.body_done hlevel hread hname⟩

/-- A list of sites with their levels that holds all that construction meets, and of which all is well. -/
structure Charts (b : Builder) (start : String) (sites : List (Site × Nat)) : Prop where
  first : (⟨.statement, start⟩, 0) ∈ sites
  closed : ∀ x ∈ sites, ∀ y ∈ b.hops x.1, (y.2, x.2 + y.1.levels) ∈ sites
  fits : ∀ x ∈ sites, b.fits x.1 = true
  root : ∀ x ∈ sites, ∀ y ∈ b.hops x.1, y.2.id ≠ start
  single : ∀ x ∈ sites, ∀ x' ∈ sites, ∀ y ∈ b.hops x.1, ∀ y' ∈ b.hops x'.1, y.2.id = y'.2.id → x.1 = x'.1 ∧ y.1 = y'.1
  shallow : ∀ x ∈ sites, x.2 < maxBuildDepth

theorem Charts.formsTree {sites : List (Site × Nat)} (charts : b.Charts start sites) : b.FormsTree start := by
  have mem : ∀ {s level}, b.Reaches start s level → (s, level) ∈ sites := by
    intro s level h
    induction h with
    | start => exact charts.first
    | hop _ hhop ih => exact charts.closed _ ih _ hhop
  exact ⟨fun s level h => charts.fits _ (mem h), fun s level hop t h hhop => charts.root _ (mem h) _ hhop,
    fun s level hop t s' level' hop' t' h h' hhop hhop' => charts.single _ (mem h) _ (mem h') _ hhop _ hhop',
    fun s level h => charts.shallow _ (mem h)⟩

/-- A branch with a condition and two bodies, and a block behind it. -/
def branchGraph : BlockGraph where
  nodes := [
    ("a", { opcode := "control_if_else", next := some "d", parent := none, fields := [], shadow := false, topLevel := true,
            inputs := [("CONDITION", .block "p"), ("SUBSTACK", .block "b"), ("SUBSTACK2", .block "c")] }),
    ("p", { opcode := "operator_not", next := none, parent := some "a", fields := [], shadow := false, topLevel := false,
            inputs := [] }),
    ("b", { opcode := "control_stop", next := none, parent := some "a", fields := [("STOP_OPTION", ⟨"all", none⟩)],
            shadow := false, topLevel := false, inputs := [] }),
    ("c", { opcode := "control_forever", next := none, parent := some "a", fields := [], shadow := false,
            topLevel := false, inputs := [("SUBSTACK", .empty)] }),
    ("d", { opcode := "sound_cleareffects", next := none, parent := some "a", fields := [], shadow := false,
            topLevel := false, inputs := [] })]

/-- The sites of the dictionary, each with the level that construction gets there on. -/
def branchSites : List (Site × Nat) :=
  [(⟨.statement, "a"⟩, 0), (⟨.reporter, "p"⟩, 1), (⟨.statement, "b"⟩, 2), (⟨.statement, "c"⟩, 2), (⟨.statement, "d"⟩, 0)]

theorem branchSites_charts : (ofGraph branchGraph).Charts "a" branchSites :=
  ⟨by decide, by decide +kernel, by decide +kernel, by decide +kernel, by decide +kernel, by decide⟩

theorem branchGraph_rebuilt :
    (ofGraph branchGraph).FormsTree "a" ∧ ((ofGraph branchGraph).substack (some "a")).2 = [] := by
  refine ⟨branchSites_charts.formsTree, ?_⟩
  obtain ⟨action, ids, hsubstack, -⟩ := substack_rebuilds branchGraph "a" branchSites_charts.formsTree
  rw [hsubstack]

end Builder
end BlockScript
