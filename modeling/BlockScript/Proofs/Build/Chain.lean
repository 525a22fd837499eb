import BlockScript.Proofs.Build.Counter
import BlockScript.Proofs.Build.Reachable

/-!
What a chain is and what is built of it. Following `next` from a start meets ids until there is no next block, an
id has no block or an id comes again; nothing else ends it. Each block on the way is built as it would be alone. The
chain takes over those that can be built, in order, and logs one record for each of the others and one for an end
that it should not have; all other records are those of nested bodies.
-/
namespace BlockScript

/-! ### The ids that `next` meets -/

namespace BlockGraph

/-- The id so many links behind a start. -/
def linked (g : BlockGraph) : (start : Option String) → (links : Nat) → Option String
  | start, 0 => start
  | start, links + 1 => linked g (start.bind fun id => (g.get? id).bind BlockNode.follower) links

/-- Why following `next` behind ids that were seen comes to an end, so many links behind a start. -/
def Ends (g : BlockGraph) (seen : List String) (at? : Option String) : ChainEnd → Prop
  | .done => at? = none
  | .missing id => at? = some id ∧ id ∉ seen ∧ g.get? id = none
  | .loops id => at? = some id ∧ id ∈ seen

/-- Ids met one after the other from a start, all with a block and none seen before, and why there are no more. -/
structure Meets (g : BlockGraph) (seen : List String) (start : Option String) (ids : List String) (ending : ChainEnd) :
    Prop where
  order : ∀ n < ids.length, ids[n]? = g.linked start n
  present : ∀ id ∈ ids, (g.get? id).isSome
  fresh : ∀ id ∈ ids, id ∉ seen
  nodup : ids.Nodup
  ends : g.Ends (ids ++ seen) (g.linked start ids.length) ending

variable {g : BlockGraph}

theorem linked_some {id : String} {node : BlockNode} (hnode : g.get? id = some node) (n : Nat) :
    g.linked (some id) (n + 1) = g.linked node.follower n := by
  simp only [linked, Option.bind_some, hnode]

theorem Ends.of_mem {seen seen' : List String} {at? : Option String} {ending : ChainEnd} (h : ∀ id, id ∈ seen ↔ id ∈ seen')
    (ends : g.Ends seen at? ending) : g.Ends seen' at? ending := by
  cases ending with
  | done => exact ends
  | missing id => exact ⟨ends.1, mt (h id).mpr ends.2.1, ends.2.2⟩
  | loops id => exact ⟨ends.1, (h id).mp ends.2⟩

theorem Ends.unique {seen : List String} {at? : Option String} {ending ending' : ChainEnd} (ends : g.Ends seen at? ending)
    (ends' : g.Ends seen at? ending') : ending' = ending := by
  cases ending <;> cases ending' <;> simp only [Ends] at ends ends' <;> grind

namespace Meets

variable {seen ids ids' : List String} {start : Option String} {ending ending' : ChainEnd}

theorem nil (h : g.Ends seen start ending) : g.Meets seen start [] ending :=
  ⟨nofun, nofun, nofun, List.nodup_nil, h⟩

theorem cons {id : String} {node : BlockNode} (hseen : id ∉ seen) (hnode : g.get? id = some node)
    (rest : g.Meets (id :: seen) node.follower ids ending) : g.Meets seen (some id) (id :: ids) ending where
  order := by
    intro n hn
    cases n with
    | zero => rfl
    | succ n =>
      rw [linked_some hnode, List.getElem?_cons_succ]
      exact rest.order n (Nat.lt_of_succ_lt_succ hn)
  present := List.forall_mem_cons.mpr ⟨hnode ▸ rfl, rest.present⟩
  fresh := List.forall_mem_cons.mpr ⟨hseen, fun x hx => fun hx' => rest.fresh x hx (List.mem_cons_of_mem _ hx')⟩
  nodup := List.nodup_cons.mpr ⟨fun hid => rest.fresh id hid List.mem_cons_self, rest.nodup⟩
  ends := by
    rw [List.length_cons, linked_some hnode]
    refine rest.ends.of_mem fun x => ?_
    simp only [List.mem_append, List.mem_cons]
    tauto

theorem head {id : String} (h : g.Meets seen start (id :: ids) ending) : start = some id :=
  (h.order 0 (Nat.zero_lt_succ _)).symm

/-- Where following `next` ends it meets no further id. -/
theorem nil_of_ends (h : g.Meets seen start ids ending) (ends : g.Ends seen start ending') : ids = [] := by
  cases ids with
  | nil => rfl
  | cons id ids =>
    have hseen := h.fresh id List.mem_cons_self
    have hnode := h.present id List.mem_cons_self
    obtain rfl := h.head
    cases ending' with
    | done => cases ends
    | missing id' =>
      obtain ⟨heq, -, hmissing⟩ := ends
      cases heq
      rw [hmissing] at hnode
      cases hnode
    | loops id' =>
      obtain ⟨heq, hmem⟩ := ends
      cases heq
      exact absurd hmem hseen

theorem tail {id : String} {node : BlockNode} (h : g.Meets seen (some id) (id :: ids) ending)
    (hnode : g.get? id = some node) : g.Meets (id :: seen) node.follower ids ending where
  order := by
    intro n hn
    rw [← linked_some hnode, ← List.getElem?_cons_succ (a := id)]
    exact h.order (n + 1) (Nat.succ_lt_succ hn)
  present := fun x hx => h.present x (List.mem_cons_of_mem _ hx)
  fresh := by
    intro x hx hmem
    rcases List.mem_cons.mp hmem with rfl | hmem
    · exact (List.nodup_cons.mp h.nodup).1 hx
    · exact h.fresh x (List.mem_cons_of_mem _ hx) hmem
  nodup := (List.nodup_cons.mp h.nodup).2
  ends := by
    rw [← linked_some hnode]
    refine h.ends.of_mem fun x => ?_
    simp only [List.mem_append, List.mem_cons]
    tauto

/-- What following `next` meets is determined, and so is why it ends. -/
theorem unique (h : g.Meets seen start ids ending) (h' : g.Meets seen start ids' ending') : ids' = ids ∧ ending' = ending := by
  induction ids generalizing seen start ids' with
  | nil =>
    obtain rfl := h'.nil_of_ends h.ends
    exact ⟨rfl, h.ends.unique h'.ends⟩
  | cons id ids ih =>
    cases ids' with
    | nil => cases h.nil_of_ends h'.ends
    | cons id' ids' =>
      obtain ⟨node, hnode⟩ := Option.isSome_iff_exists.mp (h.present id List.mem_cons_self)
      obtain rfl := h.head
      cases h'.head
      obtain ⟨rfl, rfl⟩ := ih (h.tail hnode) (h'.tail hnode)
      exact ⟨rfl, rfl⟩

end Meets

/-- Walking a chain meets what there is to meet, if it has links enough. -/
theorem chainFrom_meets {links : Nat} {seen : List String} {start : Option String} (h : g.Suffices links seen) :
    g.Meets seen start (g.chainFrom links seen start).1 (g.chainFrom links seen start).2 := by
  fun_induction BlockGraph.chainFrom g links seen start with
  | case1 => exact .nil rfl
  | case2 links seen id hseen => exact .nil ⟨rfl, List.contains_iff_mem.mp hseen⟩
  | case3 seen id hseen links node hnode ids ending hrest ih =>
    have hseen : id ∉ seen := by simpa using hseen
    obtain ⟨_, hlinks, hleft⟩ := h.link hseen hnode
    obtain rfl := Nat.succ.inj hlinks
    have rest := ih hleft
    rw [hrest] at rest
    exact rest.cons hseen hnode
  | case4 links seen id hseen hend =>
    have hseen : id ∉ seen := by simpa using hseen
    refine .nil ⟨rfl, hseen, ?_⟩
    cases hnode : g.get? id with
    | none => rfl
    | some node =>
      -- There is a link left for a block that has not been seen.
      obtain ⟨n, hlinks, -⟩ := h.link hseen hnode
      exact (hend n node hlinks hnode).elim

theorem chain_meets (g : BlockGraph) (start : Option String) : g.Meets [] start (g.chain start).1 (g.chain start).2 :=
  chainFrom_meets g.suffices_size

end BlockGraph

/-! ### The blocks of a chain -/

namespace Builder

variable {b : Builder}

/-- The statement of an id alone, with room for so many levels. -/
def statementAt (b : Builder) (room : Nat) (id : String) : Build (Action Unit) :=
  match b.graph.get? id with
  | some node => b.blockAt room id node
  | none => .fail (.missingBlock id)

/-- The record of a block that a chain leaves out. -/
def skipRecord (id : String) : Except BuildError (Action Unit) → List LogRecord
  | .ok _ => []
  | .error e =>
    let problem := e.message
    [.error s!"skipping block `{id}`: {problem}"]

/-- The statement of an id with room for so many levels, if it can be built. -/
def keptAt (b : Builder) (room : Nat) (id : String) : Option (Action Unit) := (b.statementAt room id).outcome.toOption

/-- What building a block of a chain logs. -/
def recordsAt (b : Builder) (room : Nat) (id : String) : List LogRecord :=
  (b.statementAt room id).logs ++ skipRecord id (b.statementAt room id).outcome

theorem link_eq {room : Nat} {id : String} (h : (b.graph.get? id).isSome) :
    b.link (b.blockAt room) id = ((b.keptAt room id).toList, b.recordsAt room id) := by
  obtain ⟨node, hnode⟩ := Option.isSome_iff_exists.mp h
  simp only [link, keptAt, recordsAt, statementAt, hnode]
  cases (b.blockAt room id node).outcome with
  | ok a => simp [skipRecord, Except.toOption]
  | error e => simp [skipRecord, Except.toOption]

theorem walk_eq {room : Nat} {start : Option String} {ids : List String} {ending : BlockGraph.ChainEnd}
    (hchain : b.graph.chain start = (ids, ending)) (present : ∀ id ∈ ids, (b.graph.get? id).isSome) :
    b.walk (b.blockAt room) start = (ids.filterMap (b.keptAt room), ids.flatMap (b.recordsAt room) ++ endRecord ending) := by
  have hlinks : ids.map (b.link (b.blockAt room)) = ids.map fun id => ((b.keptAt room id).toList, b.recordsAt room id) :=
    List.map_congr_left fun id hid => link_eq (present id hid)
  simp only [walk, hchain, hlinks, List.flatMap_map, List.filterMap_eq_flatMap_toList]

/-- A chain is built block by block, each alone. -/
theorem substackAt_eq_kept (b : Builder) (room : Nat) (start : Option String) :
    b.substackAt room start = ((b.graph.chain start).1.filterMap (b.keptAt room),
      (b.graph.chain start).1.flatMap (b.recordsAt room) ++ endRecord (b.graph.chain start).2) := by
  rw [substackAt_eq]
  exact walk_eq rfl (b.graph.chain_meets start).present

end Builder

/-! ### The records of nested bodies -/

namespace Build

variable {α β : Type} {records : String → List LogRecord} {names names' : List String}

/-- All that a construction logs are the records under some of the names, in order. -/
def Logs (records : String → List LogRecord) (names : List String) (c : Build α) : Prop :=
  ∃ used : List String, used.Sublist names ∧ c.logs = used.flatMap records

theorem logs_done (a : α) : (Build.done a).Logs records [] := ⟨[], .slnil, rfl⟩

theorem logs_fail (e : BuildError) : (Build.fail e : Build α).Logs records [] := ⟨[], .slnil, rfl⟩

theorem Logs.bind {c : Build α} {f : α → Build β} (hc : c.Logs records names) (hf : ∀ a, (f a).Logs records names') :
    (c >>= f).Logs records (names ++ names') := by
  obtain ⟨used, hused, hlogs⟩ := hc
  rw [bind_eq]
  unfold andThen
  split
  · rename_i a ha
    obtain ⟨used', hused', hlogs'⟩ := hf a
    exact ⟨used ++ used', hused.append hused', by simp only [hlogs, hlogs', List.flatMap_append]⟩
  · exact ⟨used, hused.trans (List.sublist_append_left _ _), hlogs⟩

theorem logs_nil_iff {c : Build α} : c.Logs records [] ↔ c.logs = [] := by
  constructor
  · rintro ⟨used, hused, hlogs⟩
    rw [List.sublist_nil.mp hused] at hlogs
    exact hlogs
  · intro h
    exact ⟨[], .slnil, h⟩

end Build

section
variable {records : String → List LogRecord} {p : Parts} {spec : BlockSpec}

namespace BlockSpec

theorem operand_logs (spec : BlockSpec) (h : ∀ id, (p.reporter id).Logs records []) (name : String) :
    (spec.operand p.reporter name).Logs records [] := by
  unfold operand
  split
  case h_7 id _ => exact (h id).bind fun _ => Build.logs_done _
  all_goals exact Build.logs_done _

theorem condition_logs (spec : BlockSpec) (h : ∀ id, (p.reporter id).Logs records []) (name : String) :
    (spec.condition p.reporter name).Logs records [] := by
  unfold condition
  split
  case h_3 id _ =>
    refine (h id).bind fun r => ?_
    cases r with
    | predicate c => exact Build.logs_done c
    | value o => exact Build.logs_fail _
  case h_4 => exact Build.logs_fail _
  all_goals exact Build.logs_done _

theorem body_logs (h : ∀ name, (spec.body p.body name).logs = records name) (name : String) :
    (spec.body p.body name).Logs records [name] :=
  ⟨[name], .refl _, by rw [h, List.flatMap_singleton]⟩

theorem field_logs (name : String) : (spec.field name : Build Field).Logs records [] := by
  unfold field
  split
  · exact Build.logs_done _
  · exact Build.logs_fail _

theorem reference_logs (name : String) : (spec.reference name : Build Ref).Logs records [] :=
  (field_logs name).bind fun _ => Build.logs_done _

end BlockSpec

open BlockSpec

/-- A reporter logs nothing of its own. -/
theorem ReporterKind.build_logs (kind : ReporterKind) (h : ∀ id, (p.reporter id).Logs records []) :
    (kind.build p.reporter spec).Logs records [] := by
  have operand := operand_logs spec h
  have condition := condition_logs spec h
  cases kind
  case arithmetic | comparison | random | join | contains | letterOf =>
    exact (operand _).bind fun _ => (operand _).bind fun _ => Build.logs_done _
  case logic => exact (condition _).bind fun _ => (condition _).bind fun _ => Build.logs_done _
  case not => exact (condition _).bind fun _ => Build.logs_done _
  case round | length => exact (operand _).bind fun _ => Build.logs_done _
  case mathop =>
    refine (field_logs _).bind fun f => ?_
    split
    · exact (operand _).bind fun _ => Build.logs_done _
    · exact Build.logs_fail _
  case «variable» | listContents | lengthOfList => exact (reference_logs _).bind fun _ => Build.logs_done _
  case itemOfList | itemNumOfList | listContainsItem =>
    exact (reference_logs _).bind fun _ => (operand _).bind fun _ => Build.logs_done _
  case soundsMenu => exact (field_logs _).bind fun _ => Build.logs_done _
  case pose | volume | pointer => exact Build.logs_done _

theorem ActionKind.step_logs {f : String → Build (Operand Unit)} (h : ∀ name, (f name).Logs records []) (opcode : String) :
    (step f opcode).Logs records [] := by
  unfold step
  split
  case h_1 => exact (h _).bind fun _ => (h _).bind fun _ => Build.logs_done _
  all_goals exact (h _).bind fun _ => Build.logs_done _

theorem ActionKind.setting_logs : (setting spec : Build _).Logs records [] := by
  unfold setting
  split
  · exact Build.logs_done _
  · refine (field_logs _).bind fun f => ?_
    split
    · exact Build.logs_done _
    · exact Build.logs_fail _

/-- A statement logs what its bodies log, the last of them first, and nothing of its own. -/
theorem ActionKind.build_logs (kind : ActionKind) (spec : BlockSpec) (h : ∀ id, (p.reporter id).Logs records [])
    (hbody : ∀ name, (spec.body p.body name).logs = records name) :
    (kind.build p spec).Logs records (kind.signature spec.opcode).bodies.reverse := by
  have operand := operand_logs spec h
  have condition := condition_logs spec h
  have body := body_logs hbody
  cases kind
  case branch =>
    simp only [build, signature, Signature.bodies]
    split
    · exact (body _).bind fun _ => (condition _).bind fun _ => (body _).bind fun _ => Build.logs_done _
    · exact (Build.logs_done _).bind fun _ => (condition _).bind fun _ => (body _).bind fun _ => Build.logs_done _
  case repeatTimes => exact (operand _).bind fun _ => (body _).bind fun _ => Build.logs_done _
  case forever => exact (body _).bind fun _ => Build.logs_done _
  case repeatUntil => exact (condition _).bind fun _ => (body _).bind fun _ => Build.logs_done _
  case wait | turn | play => exact (operand _).bind fun _ => Build.logs_done _
  case waitUntil => exact (condition _).bind fun _ => Build.logs_done _
  case stop =>
    refine (field_logs _).bind fun f => ?_
    split
    · exact Build.logs_done _
    · exact Build.logs_fail _
  case setVariable | addToList | deleteOfList =>
    exact (reference_logs _).bind fun _ => (operand _).bind fun _ => Build.logs_done _
  case insertAtList | replaceItemOfList =>
    exact (reference_logs _).bind fun _ => (operand _).bind fun _ => (operand _).bind fun _ => Build.logs_done _
  case deleteAllOfList => exact (reference_logs _).bind fun _ => Build.logs_done _
  case move =>
    rw [signature, bodies_values]
    exact (step_logs operand _).bind fun _ => Build.logs_done _
  case glide => exact (operand _).bind fun _ => (operand _).bind fun _ => (operand _).bind fun _ => Build.logs_done _
  case adjust => exact setting_logs.bind fun _ => (operand _).bind fun _ => Build.logs_done _
  case clearEffects => exact Build.logs_done _

end

namespace Builder

variable {b : Builder}

theorem reporterAt_logs (room : Nat) (id : String) : (b.reporterAt room id).logs = [] := by
  induction room generalizing id with
  | zero =>
    rw [reporterAt]
    split
    · rfl
    · split <;> rfl
  | succ room ih =>
    rw [reporterAt]
    split
    · rfl
    · split
      · rfl
      · rename_i opcode kind _
        let parts : Parts := ⟨b.reporterAt room, fun _ => .done []⟩
        have silent : ∀ id, (parts.reporter id).Logs (fun _ => []) [] := fun id => Build.logs_nil_iff.mpr (ih id)
        exact Build.logs_nil_iff.mp (kind.build_logs silent)

/-- What building the body under an input logs, with room for so many levels around it. -/
def bodyRecords (b : Builder) (room : Nat) (id : String) (node : BlockNode) (name : String) : List LogRecord :=
  let spec : BlockSpec := ⟨id, node.opcode, node⟩
  (spec.body (b.bodyAt room spec) name).logs

/-- The inputs that hold the bodies of a statement. -/
def bodyNames (b : Builder) (node : BlockNode) : List String :=
  ((b.registries.signature? node.opcode .statement).map (·.bodies)).getD []

/-- What building a block logs are the records of its bodies. -/
theorem statementAt_logs {id : String} {node : BlockNode} (room : Nat) (hnode : b.graph.get? id = some node) :
    (b.statementAt room id).Logs (b.bodyRecords room id node) (b.bodyNames node).reverse := by
  simp only [statementAt, hnode, blockAt, actionAt, bodyNames, Registries.signature?]
  cases b.registries.actions.resolve? node.opcode with
  | none => exact Build.logs_fail _
  | some entry =>
    cases room with
    | zero => exact ⟨[], List.nil_sublist _, rfl⟩
    | succ room =>
      let spec : BlockSpec := ⟨id, entry.1, node⟩
      let parts : Parts := ⟨b.reporterAt room, b.bodyAt (room + 1) spec⟩
      have reporter : ∀ target, (parts.reporter target).Logs (b.bodyRecords (room + 1) id node) [] :=
        fun target => Build.logs_nil_iff.mpr (reporterAt_logs room target)
      refine entry.2.build_logs spec reporter fun name => ?_
      cases room <;> rfl

/-- What a chain is and what is built of it. From every start and at every depth, following `next` meets ids that all
have blocks, none twice, and it ends for one reason, without a next block, at an id without a block or at an id it has
met. Building the chain gives the statements of those ids that can be built at that depth, in order, each as it is
built alone whatever becomes of the others; it logs what building each block logs, which is what its bodies log and
nothing else, then one record for the block if it is left out, and after all blocks one for an end that it should not
have. Building with a counter of the depth comes to an end and gives just that. -/
theorem chain_built_blockwise (b : Builder) {depth : Nat} (h : depth ≤ maxBuildDepth) (start : Option String) :
    ∃ ids ending, b.graph.Meets [] start ids ending ∧
      (∀ ids' ending', b.graph.Meets [] start ids' ending' → ids' = ids ∧ ending' = ending) ∧
      b.substackAt (maxBuildDepth - depth) start = (ids.filterMap (b.keptAt (maxBuildDepth - depth)),
        ids.flatMap (b.recordsAt (maxBuildDepth - depth)) ++ endRecord ending) ∧
      (∀ id ∈ ids, ∃ node, b.graph.get? id = some node ∧
        (b.statementAt (maxBuildDepth - depth) id).Logs (b.bodyRecords (maxBuildDepth - depth) id node)
          (b.bodyNames node).reverse) ∧
      ∃ enough, ∀ fuel, enough ≤ fuel →
        Returns depth (b.substackOn fuel [] start) (.logged (b.substackAt (maxBuildDepth - depth) start)) ∧
        ∀ id node, b.graph.get? id = some node →
          Returns depth (b.actionOn fuel (fun first => b.substackOn fuel [] (some first)) id node)
            (b.statementAt (maxBuildDepth - depth) id) := by
  have hroom : depth + (maxBuildDepth - depth) = maxBuildDepth := by omega
  have meets := b.graph.chain_meets start
  refine ⟨_, _, meets, fun ids' ending' meets' => meets.unique meets', b.substackAt_eq_kept _ start, ?_, ?_⟩
  · intro id hid
    obtain ⟨node, hnode⟩ := Option.isSome_iff_exists.mp (meets.present id hid)
    exact ⟨node, hnode, statementAt_logs _ hnode⟩
  · refine ⟨b.graph.size + b.chainFuel (maxBuildDepth - depth), fun fuel hfuel => ⟨substackOn_returns hroom hfuel start, ?_⟩⟩
    intro id node hnode
    have hreporter := b.room_lt_chainFuel (maxBuildDepth - depth)
    simp only [statementAt, hnode]
    refine actionOn_returns hroom (by omega) (fun below hbelow first => ?_) id node
    have hfuel' := b.chainFuel_mono (show below ≤ maxBuildDepth - depth by omega)
    exact substackOn_returns hbelow (by omega) (some first)

/-- A chain with a block of no kind in it, whose last block and whose body lead to a block that is not there. -/
def frayed : BlockGraph where
  nodes := [
    ("a", { opcode := "sound_cleareffects", next := some "b", parent := none, fields := [], shadow := false,
            topLevel := true, inputs := [] }),
    ("b", { opcode := "looks_nonexistent", next := some "c", parent := some "a", fields := [], shadow := false,
            topLevel := false, inputs := [] }),
    ("c", { opcode := "control_forever", next := some "gone", parent := some "b", fields := [], shadow := false,
            topLevel := false, inputs := [("SUBSTACK", .block "gone")] })]

theorem frayed_built_blockwise : 254 ≤ maxBuildDepth ∧ frayed.Meets [] (some "a") ["a", "b", "c"] (.missing "gone") ∧
    (ofGraph frayed).substackAt 2 (some "a") = (["a", "b", "c"].filterMap ((ofGraph frayed).keptAt 2),
      ["a", "b", "c"].flatMap ((ofGraph frayed).recordsAt 2) ++ endRecord (.missing "gone")) := by
  have bound : 254 ≤ maxBuildDepth := by decide
  have meets : frayed.Meets [] (some "a") ["a", "b", "c"] (.missing "gone") :=
    ⟨by decide, by decide, by decide, by decide, by decide, by decide, by decide⟩
  obtain ⟨ids, ending, -, unique, hbuilt, -⟩ := chain_built_blockwise (ofGraph frayed) bound (some "a")
  obtain ⟨rfl, rfl⟩ := unique _ _ meets
  exact ⟨bound, meets, hbuilt⟩

example : ["a", "b", "c"].flatMap ((ofGraph frayed).recordsAt 2) =
    [.error "skipping block `b`: op-code `looks_nonexistent` of block `b` is not a known statement",
      .warn "block `gone` does not exist"] := by decide +kernel

end Builder
end BlockScript
