import BlockScript.Proofs.Build.Reconstruction

/-!
Construction depends on what is reachable only. From a start it comes to the blocks that `next` links and
inputs lead to, and to no other. So where two dictionaries hold the same there, absent blocks included, scripts,
chains and reporters come out the same, with the same records, although the dictionaries differ in size and the
guards against loops and depth act on both: blocks that are not reachable can be added, removed or damaged.
-/
namespace BlockScript

namespace BlockGraph

/-- The ids that `next` links and inputs lead to from a start. -/
inductive Reachable (g : BlockGraph) (start : String) : String → Prop
  | start : Reachable g start start
  | next {id target : String} {node : BlockNode} : Reachable g start id → g.get? id = some node →
      node.next = some target → Reachable g start target
  | input {id target name : String} {node : BlockNode} : Reachable g start id → g.get? id = some node →
      node.input? name = some (.block target) → Reachable g start target

/-- Two dictionaries hold the same under every id that is reachable from a start, or both nothing. -/
def SameFrom (g g' : BlockGraph) (start : String) : Prop := ∀ id, g.Reachable start id → g'.get? id = g.get? id

section
variable {g g' : BlockGraph} {start id : String}

theorem Reachable.trans {target : String} (h : g.Reachable start id) (h' : g.Reachable id target) : g.Reachable start target := by
  induction h' with
  | start => exact h
  | next _ hnode hnext ih => exact ih.next hnode hnext
  | input _ hnode hinput ih => exact ih.input hnode hinput

namespace SameFrom

theorem get? (same : g.SameFrom g' id) : g'.get? id = g.get? id := same id .start

theorem of_reachable (same : g.SameFrom g' start) (h : g.Reachable start id) : g.SameFrom g' id :=
  fun target htarget => same target (h.trans htarget)

theorem next (same : g.SameFrom g' id) {node : BlockNode} (hnode : g.get? id = some node) {target : String}
    (hnext : node.next = some target) : g.SameFrom g' target :=
  same.of_reachable (.next .start hnode hnext)

theorem follower (same : g.SameFrom g' id) {node : BlockNode} (hnode : g.get? id = some node) :
    ∀ target ∈ node.follower, g.SameFrom g' target :=
  fun _ htarget => same.next hnode (Option.filter_eq_some_iff.mp htarget).1

theorem blockUnder (same : g.SameFrom g' id) {node : BlockNode} (hnode : g.get? id = some node) {name target : String}
    (htarget : node.blockUnder? name = some target) : g.SameFrom g' target := by
  refine same.of_reachable (.input .start hnode (?_ : node.input? name = _))
  unfold BlockNode.blockUnder? at htarget
  split at htarget
  · rename_i hinput
    cases htarget
    exact hinput
  · cases htarget

end SameFrom
end

/-! ### Chains -/

/-- Behind blocks that were seen, so many more links lead through every block that is left. -/
structure Suffices (g : BlockGraph) (links : Nat) (seen : List String) : Prop where
  nodup : seen.Nodup
  present : ∀ id ∈ seen, id ∈ g.nodes.map (·.1)
  size : g.size ≤ links + seen.length

theorem suffices_size (g : BlockGraph) : g.Suffices g.size [] := ⟨List.nodup_nil, nofun, Nat.le_refl _⟩

/-- There is a link for each block that has not been seen. -/
theorem Suffices.link {g : BlockGraph} {links : Nat} {seen : List String} (h : g.Suffices links seen) {id : String}
    (hseen : id ∉ seen) {node : BlockNode} (hnode : g.get? id = some node) :
    ∃ n, links = n + 1 ∧ g.Suffices n (id :: seen) := by
  have nodup : (id :: seen).Nodup := List.nodup_cons.mpr ⟨hseen, h.nodup⟩
  have present : ∀ x ∈ id :: seen, x ∈ g.nodes.map (·.1) := List.forall_mem_cons.mpr ⟨mem_of_get? hnode, h.present⟩
  have hle : seen.length + 1 ≤ g.size := by
    simpa [BlockGraph.size] using (List.subperm_of_subset nodup present).length_le
  have hsize := h.size
  refine ⟨links - 1, by omega, nodup, present, ?_⟩
  rw [List.length_cons]
  omega

section
variable {g g' : BlockGraph} {seen : List String} {first : Option String}

theorem chainFrom_seen {links : Nat} {id : String} (hseen : id ∈ seen) :
    g.chainFrom links seen (some id) = ([], .loops id) := by
  rw [chainFrom.eq_def]
  simp [hseen]

theorem chainFrom_missing {links : Nat} {id : String} (hseen : id ∉ seen) (hnode : g.get? id = none) :
    g.chainFrom links seen (some id) = ([], .missing id) := by
  rw [chainFrom.eq_def]
  simp [hseen, hnode]

/-- A chain does not depend on how many links it may have, if they suffice. -/
theorem SameFrom.chainFrom {links links' : Nat} (same : ∀ id ∈ first, g.SameFrom g' id) (h : g.Suffices links seen)
    (h' : g'.Suffices links' seen) : g'.chainFrom links' seen first = g.chainFrom links seen first := by
  fun_induction BlockGraph.chainFrom g links seen first generalizing links' with
  | case1 => simp [BlockGraph.chainFrom]
  | case2 links seen id hseen => exact chainFrom_seen (List.contains_iff_mem.mp hseen)
  | case3 seen id hseen links node hnode ids ending hrest ih =>
    have hseen : id ∉ seen := by simpa using hseen
    have hnode' : g'.get? id = some node := (same id rfl).get?.trans hnode
    obtain ⟨_, hlinks, hleft⟩ := h.link hseen hnode
    obtain rfl := Nat.succ.inj hlinks
    obtain ⟨links', rfl, hleft'⟩ := h'.link hseen hnode'
    have hchain := (ih ((same id rfl).follower hnode) hleft hleft').trans hrest
    simp [BlockGraph.chainFrom, hseen, hnode', hchain]
  | case4 links seen id hseen hend =>
    have hseen : id ∉ seen := by simpa using hseen
    -- The chain has links left, so it is the block that is missing.
    have hnode : g.get? id = none := by
      cases hnode : g.get? id with
      | none => rfl
      | some node =>
        obtain ⟨n, hlinks, -⟩ := h.link hseen hnode
        exact (hend n node hlinks hnode).elim
    exact chainFrom_missing hseen ((same id rfl).get?.trans hnode)

theorem SameFrom.chain (same : ∀ id ∈ first, g.SameFrom g' id) : g'.chain first = g.chain first :=
  SameFrom.chainFrom same g.suffices_size g'.suffices_size

theorem SameFrom.of_mem_chainFrom {links : Nat} (same : ∀ id ∈ first, g.SameFrom g' id) :
    ∀ id ∈ (g.chainFrom links seen first).1, g.SameFrom g' id := by
  fun_induction BlockGraph.chainFrom g links seen first with
  | case1 => nofun
  | case2 => nofun
  | case3 seen id hseen links node hnode ids ending hrest ih =>
    rw [hrest] at ih
    exact List.forall_mem_cons.mpr ⟨same id rfl, ih ((same id rfl).follower hnode)⟩
  | case4 => nofun

end
end BlockGraph

/-! ### Construction -/

namespace Builder

open BlockGraph

variable {g g' : BlockGraph} (registries : Registries)

/-- A chain is built alike on both dictionaries, if its blocks are. -/
theorem walk_congr {action action' : String → BlockNode → Build (Action Unit)} {first : Option String}
    (same : ∀ id ∈ first, g.SameFrom g' id)
    (h : ∀ id node, g.SameFrom g' id → g.get? id = some node → action' id node = action id node) :
    (Builder.mk g' registries).walk action' first = (Builder.mk g registries).walk action first := by
  have hlink : ∀ id ∈ (g.chain first).1, link action' ⟨g', registries⟩ id = link action ⟨g, registries⟩ id := by
    intro id hid
    have hsame := SameFrom.of_mem_chainFrom same id hid
    simp only [link, hsame.get?]
    cases hnode : g.get? id with
    | none => rfl
    | some node => simp only [h id node hsame hnode]
  simp only [walk, SameFrom.chain same, List.map_congr_left hlink]

theorem reporterAt_congr {id : String} (same : g.SameFrom g' id) (room : Nat) :
    (Builder.mk g' registries).reporterAt room id = (Builder.mk g registries).reporterAt room id := by
  induction room generalizing id with
  | zero => rw [reporterAt, reporterAt, same.get?]
  | succ room ih =>
    rw [reporterAt, reporterAt, same.get?]
    cases hnode : g.get? id with
    | none => rfl
    | some node =>
      dsimp only
      cases registries.reporters.resolve? node.opcode with
      | none => rfl
      | some entry =>
        let parts (g : BlockGraph) : Parts := ⟨(Builder.mk g registries).reporterAt room, fun _ => .done []⟩
        refine entry.2.build_congr (p := parts g') (q := parts g) fun x hx => ?_
        refine .of_named (fun target htarget _ => ih (same.blockUnder hnode htarget)) fun _ _ _ => rfl

/-- A block is built alike, if its bodies are. -/
theorem blockAt_congr {room : Nat} {id : String} {node : BlockNode} (same : g.SameFrom g' id) (hnode : g.get? id = some node)
    (h : ∀ below, below + 2 = room → ∀ target, g.SameFrom g' target →
      (Builder.mk g' registries).substackAt below (some target) = (Builder.mk g registries).substackAt below (some target)) :
    (Builder.mk g' registries).blockAt room id node = (Builder.mk g registries).blockAt room id node := by
  simp only [blockAt, actionAt]
  cases registries.actions.resolve? node.opcode with
  | none => rfl
  | some entry =>
    cases room with
    | zero => rfl
    | succ room =>
      refine entry.2.build_congr fun x hx => .of_named (fun target htarget _ => ?_) fun target htarget _ => ?_
      · exact reporterAt_congr registries (same.blockUnder hnode htarget) room
      · cases room with
        | zero => rfl
        | succ room => simp only [bodyAt, h room rfl target (same.blockUnder hnode htarget)]

theorem substackAt_congr {first : Option String} (same : ∀ id ∈ first, g.SameFrom g' id) (room : Nat) :
    (Builder.mk g' registries).substackAt room first = (Builder.mk g registries).substackAt room first := by
  induction room using Nat.strongRecOn generalizing first with
  | ind room ih =>
    rw [substackAt_eq, substackAt_eq]
    refine walk_congr registries same fun id node hsame hnode => ?_
    refine blockAt_congr registries hsame hnode fun below hbelow target htarget => ?_
    exact ih below (by omega) fun id hid => Option.some.inj hid ▸ htarget

/-- What is built from a start depends on what is reachable from it only. Where two dictionaries hold the same there,
or both nothing, whatever the tables of operation codes, they give the same chain from it, the same script under it and
the same reporter of it, or the same error, and log the same records. -/
theorem built_from_reachable (registries : Registries) {g g' : BlockGraph} {start : String} (same : g.SameFrom g' start) :
    (Builder.mk g' registries).substack (some start) = (Builder.mk g registries).substack (some start) ∧
    (Builder.mk g' registries).script start = (Builder.mk g registries).script start ∧
    (Builder.mk g' registries).reporter start = (Builder.mk g registries).reporter start := by
  refine ⟨substackAt_congr registries (fun id hid => Option.some.inj hid ▸ same) _, ?_, reporterAt_congr registries same _⟩
  unfold script
  rw [same.get?]
  cases hnode : g.get? start with
  | none => rfl
  | some node => exact substackAt_congr registries (fun id hid => same.next hnode hid) _

/-- The ids that a node names. -/
def namedBy (n : BlockNode) : List String :=
  n.next.toList ++ n.inputs.filterMap fun x => match x.2 with
    | .block id => some id
    | _ => none

/-- Ids that lead to no others hold all that is reachable from one of them. -/
theorem sameFrom_of_closed (ids : List String) {start : String} (hstart : start ∈ ids)
    (h : ∀ id ∈ ids, g'.get? id = g.get? id ∧ ∀ node ∈ g.get? id, ∀ target ∈ namedBy node, target ∈ ids) :
    g.SameFrom g' start := by
  have closed : ∀ id, g.Reachable start id → id ∈ ids := by
    intro id hid
    induction hid with
    | start => exact hstart
    | next _ hnode hnext ih => exact (h _ ih).2 _ hnode _ (by simp [namedBy, hnext])
    | input _ hnode hinput ih =>
      obtain ⟨l₁, l₂, hinputs, -⟩ := List.lookup_eq_some_iff.mp hinput
      exact (h _ ih).2 _ hnode _ (by simp [namedBy, hinputs])
  exact fun id hid => (h id (closed id hid)).1

/-- A loop in its own body and in its own chain, whose count is a block that is not there. -/
def tangle : BlockGraph where
  nodes := [
    ("a", { opcode := "control_repeat", next := some "b", parent := none, fields := [], shadow := false, topLevel := true,
            inputs := [("TIMES", .block "gone"), ("SUBSTACK", .block "a")] }),
    ("b", { opcode := "control_forever", next := some "a", parent := some "a", fields := [], shadow := false,
            topLevel := false, inputs := [("SUBSTACK", .block "b")] })]

/-- The same with blocks around it that nothing leads to, one of them of no kind. -/
def tangleAmong : BlockGraph where
  nodes := ("stray", { opcode := "", next := some "a", parent := none, fields := [], shadow := false, topLevel := false,
                       inputs := [("SUBSTACK", .block "b")] }) ::
    tangle.nodes ++ [("hat", { opcode := "event_whenflagclicked", next := some "stray", parent := none, fields := [],
                               shadow := false, topLevel := true, inputs := [] })]

theorem tangle_among : tangle ≠ tangleAmong ∧ tangle.SameFrom tangleAmong "a" ∧
    (ofGraph tangleAmong).substack (some "a") = (ofGraph tangle).substack (some "a") ∧
    (ofGraph tangleAmong).script "a" = (ofGraph tangle).script "a" := by
  have same : tangle.SameFrom tangleAmong "a" := sameFrom_of_closed ["a", "b", "gone"] (by decide) (by decide)
  have built := built_from_reachable .builtin same
  exact ⟨by decide, same, built.1, built.2.1⟩

end Builder
end BlockScript
