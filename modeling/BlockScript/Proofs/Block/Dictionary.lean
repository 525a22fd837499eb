import BlockScript.Block.Graph
import BlockScript.Proofs.Block.Input
import BlockScript.Proofs.Json.Members
import Mathlib.Data.List.Sort

/-!
Block dictionaries, entry by entry. What stands under an id is told by the last entry with this id alone: the node that
the entry denotes, nothing for an array, and a warning for anything else. So the entries with other ids, and where they
stand, do not matter.
-/
namespace BlockScript

/-! ### What an entry denotes -/

namespace Json

/-- Null or a text, for a text that may be absent. -/
inductive OptionalText : Json → Option String → Prop
  | null : OptionalText .null none
  | text (s : String) : OptionalText (.text s) (some s)

/-- An object whose last members all denote something. -/
inductive IsMap {α : Type} (denotes : Json → α → Prop) : Json → List (String × α) → Prop
  | object {members : List (String × Json)} {entries : List (String × α)}
      (each : List.Forall₂ (fun m e => e.1 = m.1 ∧ denotes m.2 e.2) (lastMembers members) entries) :
      IsMap denotes (.object members) entries

theorem optionalText_iff (j : Json) (s : Option String) : optional? string? j = some s ↔ OptionalText j s := by
  constructor
  · intro h
    cases j with
    | null =>
      cases h
      exact .null
    | text t =>
      cases h
      exact .text t
    | _ => cases h
  · rintro (_ | _) <;> rfl

theorem bool?_eq_some_iff (j : Json) (b : Bool) : j.bool? = some b ↔ j = .bool b := by
  cases j <;> simp [bool?]

theorem string?_eq_some_iff {j : Json} {s : String} : j.string? = some s ↔ j = .text s := by
  cases j <;> simp [string?]

theorem isMap_iff {α : Type} {decode : Json → Option α} {denotes : Json → α → Prop}
    (hdecode : ∀ j a, decode j = some a ↔ denotes j a) (j : Json) (entries : List (String × α)) :
    BlockNode.lastOf? decode j = some entries ↔ IsMap denotes j entries := by
  have hentry (m : String × Json) (e : String × α) :
      (decode m.2).map (fun a => (m.1, a)) = some e ↔ e.1 = m.1 ∧ denotes m.2 e.2 := by
    simp only [Option.map_eq_some_iff, hdecode]
    constructor
    · rintro ⟨a, ha, rfl⟩
      exact ⟨rfl, ha⟩
    · rintro ⟨hkey, ha⟩
      exact ⟨e.2, ha, Prod.ext hkey.symm rfl⟩
  constructor
  · intro h
    obtain ⟨members, hobject, hmembers⟩ := Option.bind_eq_some_iff.mp h
    obtain rfl : j = .object members := by
      cases j <;> simp [object?] at hobject
      rw [hobject]
    refine .object ?_
    simpa only [mapM_eq_some_iff, hentry] using hmembers
  · rintro ⟨each⟩
    simpa only [BlockNode.lastOf?, object?, Option.bind_some, mapM_eq_some_iff, hentry] using each

end Json

open Json

/-- The field that a JSON value stands for: a scalar, then an optional id, then anything. -/
inductive Field.Denotes : Json → Field → Prop
  | nil : Denotes (.array []) ⟨"", none⟩
  | value {j : Json} {v : Value} (reads : j.Reads v) : Denotes (.array [j]) ⟨v.toText, none⟩
  | named {j id : Json} {rest : List Json} {v : Value} {name : Option String} (reads : j.Reads v)
      (named : id.OptionalText name) : Denotes (.array (j :: id :: rest)) ⟨v.toText, name⟩

theorem Field.ofJson?_iff_denotes (j : Json) (f : Field) : Field.ofJson? j = some f ↔ Field.Denotes j f := by
  constructor
  · intro h
    unfold Field.ofJson? at h
    split at h
    · cases h
      exact .nil
    · obtain ⟨v, hv, rfl⟩ := Option.map_eq_some_iff.mp h
      exact .value (value?_eq_some_iff.mp hv)
    · obtain ⟨v, hv, h⟩ := Option.bind_eq_some_iff.mp h
      obtain ⟨name, hname, h⟩ := Option.bind_eq_some_iff.mp h
      cases h
      exact .named (value?_eq_some_iff.mp hv) ((optionalText_iff _ _).mp hname)
    · cases h
  · rintro (_ | reads | ⟨reads, named⟩)
    · rfl
    · simp only [Field.ofJson?, value?_eq_some_iff.mpr reads, Option.map_some]
    · simp only [Field.ofJson?, value?_eq_some_iff.mpr reads, (optionalText_iff _ _).mpr named]
      rfl

namespace BlockNode

/-- The node that an object stands for. Only the operation code has to be there. -/
structure Describes (members : List (String × Json)) (n : BlockNode) : Prop where
  opcode : Last members "opcode" (.text n.opcode)
  next : Member members "next" none OptionalText n.next
  parent : Member members "parent" none OptionalText n.parent
  inputs : Member members "inputs" [] (IsMap Input.Denotes) n.inputs
  fields : Member members "fields" [] (IsMap Field.Denotes) n.fields
  shadow : Member members "shadow" false (fun j b => j = .bool b) n.shadow
  topLevel : Member members "topLevel" false (fun j b => j = .bool b) n.topLevel

/-- The node that an entry stands for. -/
def Denotes (j : Json) (n : BlockNode) : Prop := ∃ members, j = .object members ∧ Describes members n

theorem ofJson?_iff_denotes {j : Json} {n : BlockNode} : ofJson? j = some n ↔ Denotes j n := by
  cases j with
  | object members =>
    simp only [ofJson?, Option.bind_eq_bind, Option.bind_eq_some_iff, required?_eq_some_iff, string?_eq_some_iff,
      defaulted?_eq_some_iff optionalText_iff, defaulted?_eq_some_iff (isMap_iff fun _ _ => Input.ofJson?_iff_denotes),
      defaulted?_eq_some_iff (isMap_iff Field.ofJson?_iff_denotes), defaulted?_eq_some_iff bool?_eq_some_iff,
      Option.pure_def, Option.some.injEq]
    constructor
    · rintro ⟨opcode, ⟨_, hopcode, rfl⟩, next, hnext, parent, hparent, inputs, hinputs, fields, hfields, shadow, hshadow,
        topLevel, htopLevel, rfl⟩
      exact ⟨members, rfl, hopcode, hnext, hparent, hinputs, hfields, hshadow, htopLevel⟩
    · rintro ⟨_, heq, h⟩
      cases heq
      exact ⟨_, ⟨_, h.opcode, rfl⟩, _, h.next, _, h.parent, _, h.inputs, _, h.fields, _, h.shadow, _, h.topLevel, rfl⟩
  | _ => exact iff_of_false nofun (by rintro ⟨_, h, -⟩; cases h)

end BlockNode

/-! ### Entries of a dictionary -/

namespace BlockGraph

/-- An array, which stands for a loose reporter. -/
def IsLoose (j : Json) : Prop := ∃ items, j = .array items

/-- An entry that is neither a block nor a loose reporter. -/
def IsMalformed (j : Json) : Prop := ¬IsLoose j ∧ ∀ n, ¬BlockNode.Denotes j n

/-- What is read from a dictionary: the nodes of the entries that count, and a warning for each that is malformed. -/
structure Reads (members : List (String × Json)) (g : BlockGraph) (warnings : List LogRecord) : Prop where
  nodup : (g.nodes.map (·.1)).Nodup
  get?_iff : ∀ id n, g.get? id = some n ↔ ∃ j, Last members id j ∧ ¬IsLoose j ∧ BlockNode.Denotes j n
  warned : ∃ ids : List String, ids.Nodup ∧ warnings = ids.map malformedWarning ∧
    ∀ id, id ∈ ids ↔ ∃ j, Last members id j ∧ IsMalformed j

theorem nodeOf?_eq_some_iff {entry : String × Json} {node : String × BlockNode} :
    nodeOf? entry = some node ↔ node.1 = entry.1 ∧ ¬IsLoose entry.2 ∧ BlockNode.Denotes entry.2 node.2 := by
  unfold nodeOf?
  split
  · rename_i items h
    exact iff_of_false nofun fun hnode => hnode.2.1 ⟨items, h⟩
  · rename_i hloose
    simp only [Option.map_eq_some_iff, BlockNode.ofJson?_iff_denotes]
    constructor
    · rintro ⟨n, hn, rfl⟩
      exact ⟨rfl, fun ⟨items, h⟩ => hloose items h, hn⟩
    · rintro ⟨hid, -, hn⟩
      exact ⟨node.2, hn, Prod.ext hid.symm rfl⟩

theorem warningOf?_eq_some_iff {entry : String × Json} {r : LogRecord} :
    warningOf? entry = some r ↔ r = malformedWarning entry.1 ∧ IsMalformed entry.2 := by
  unfold warningOf?
  split
  · rename_i items h
    exact iff_of_false nofun fun hwarning => hwarning.2.1 ⟨items, h⟩
  · rename_i hloose
    have hnode : (BlockNode.ofJson? entry.2).isNone = true ↔ ∀ n, ¬BlockNode.Denotes entry.2 n := by
      simp only [← BlockNode.ofJson?_iff_denotes, Option.isNone_iff_eq_none, Option.eq_none_iff_forall_ne_some, ne_eq]
    rw [Option.ite_none_right_eq_some, Option.some.injEq, hnode, and_comm, eq_comm]
    exact and_congr_right fun _ => ⟨fun h => ⟨fun ⟨items, hitems⟩ => hloose items hitems, h⟩, And.right⟩

theorem ids_sublist (entries : List (String × Json)) :
    ((entries.filterMap nodeOf?).map (·.1)).Sublist (entries.map (·.1)) := by
  induction entries with
  | nil => exact .slnil
  | cons entry entries ih =>
    cases h : nodeOf? entry with
    | none =>
      rw [List.filterMap_cons_none h]
      exact ih.cons _
    | some node =>
      rw [List.filterMap_cons_some h, List.map_cons, List.map_cons, (nodeOf?_eq_some_iff.mp h).1]
      exact ih.cons_cons _

theorem warnings_eq (entries : List (String × Json)) : entries.filterMap warningOf? =
    ((entries.filter fun entry => (warningOf? entry).isSome).map (·.1)).map malformedWarning := by
  induction entries with
  | nil => rfl
  | cons entry entries ih =>
    cases h : warningOf? entry with
    | none => rw [List.filterMap_cons_none h, List.filter_cons_of_neg (by simp [h]), ih]
    | some r =>
      rw [List.filterMap_cons_some h, List.filter_cons_of_pos (by simp [h]), List.map_cons, List.map_cons, ih,
        (warningOf?_eq_some_iff.mp h).1]

theorem reads_ofMembers (members : List (String × Json)) : Reads members (ofMembers members).1 (ofMembers members).2 := by
  have nodup : ((ofMembers members).1.nodes.map (·.1)).Nodup := (nodup_lastMembers members).sublist (ids_sublist _)
  refine ⟨nodup, fun id n => ?_, _, ?_, warnings_eq _, fun id => ?_⟩
  · rw [get?, lookup_eq_some_iff_mem nodup]
    simp only [ofMembers, List.mem_filterMap, nodeOf?_eq_some_iff]
    constructor
    · rintro ⟨⟨_, j⟩, hmem, rfl, hloose, hn⟩
      exact ⟨j, mem_lastMembers_iff.mp hmem, hloose, hn⟩
    · rintro ⟨j, hlast, hloose, hn⟩
      exact ⟨(id, j), mem_lastMembers_iff.mpr hlast, rfl, hloose, hn⟩
  · exact (nodup_lastMembers members).sublist (List.filter_sublist.map _)
  · simp only [List.mem_map, List.mem_filter, Option.isSome_iff_exists, warningOf?_eq_some_iff]
    constructor
    · rintro ⟨⟨_, j⟩, ⟨hmem, _, -, hmalformed⟩, rfl⟩
      exact ⟨j, mem_lastMembers_iff.mp hmem, hmalformed⟩
    · rintro ⟨j, hlast, hmalformed⟩
      exact ⟨(id, j), ⟨mem_lastMembers_iff.mpr hlast, _, rfl, hmalformed⟩, rfl⟩

/-! ### Entries apart -/

theorem malformedWarning_inj {id id' : String} (h : malformedWarning id = malformedWarning id') : id = id' := by
  simp only [malformedWarning, LogRecord.warn, LogRecord.mk.injEq, true_and, String.append_left_inj,
    String.append_right_inj] at h
  exact h

section
variable {members members' : List (String × Json)} {g g' : BlockGraph} {warnings warnings' : List LogRecord}

theorem Reads.warned_iff (h : Reads members g warnings) {id : String} :
    malformedWarning id ∈ warnings ↔ ∃ j, Last members id j ∧ IsMalformed j := by
  obtain ⟨ids, -, rfl, hids⟩ := h.warned
  rw [← hids, List.mem_map]
  constructor
  · rintro ⟨id', hmem, heq⟩
    exact malformedWarning_inj heq ▸ hmem
  · intro hmem
    exact ⟨id, hmem, rfl⟩

/-- What stands under an id depends on the last entry with this id alone. -/
theorem Reads.congr (h : Reads members g warnings) (h' : Reads members' g' warnings') {id : String}
    (hlast : ∀ j, Last members' id j ↔ Last members id j) :
    g'.get? id = g.get? id ∧ (malformedWarning id ∈ warnings' ↔ malformedWarning id ∈ warnings) := by
  refine ⟨Option.ext fun n => ?_, ?_⟩
  · rw [h'.get?_iff, h.get?_iff]
    simp only [hlast]
  · rw [h'.warned_iff, h.warned_iff]
    simp only [hlast]

theorem Reads.mem_nodes_iff (h : Reads members g warnings) {id : String} {n : BlockNode} :
    (id, n) ∈ g.nodes ↔ g.get? id = some n := (lookup_eq_some_iff_mem h.nodup).symm

/-- Entries with different ids may change places. -/
theorem Reads.perm (h : Reads members g warnings) (h' : Reads members' g' warnings')
    (hids : ∀ id, members'.filter (·.1 == id) = members.filter (·.1 == id)) :
    g'.nodes.Perm g.nodes ∧ warnings'.Perm warnings := by
  refine ⟨?_, ?_⟩
  · refine (List.perm_ext_iff_of_nodup (List.Nodup.of_map _ h'.nodup) (List.Nodup.of_map _ h.nodup)).mpr ?_
    rintro ⟨id, n⟩
    rw [h'.mem_nodes_iff, h.mem_nodes_iff, (h.congr h' fun _ => last_congr (hids id)).1]
  · obtain ⟨ids, nodup, rfl, hmem⟩ := h.warned
    obtain ⟨ids', nodup', rfl, hmem'⟩ := h'.warned
    refine List.Perm.map _ ((List.perm_ext_iff_of_nodup nodup' nodup).mpr fun id => ?_)
    rw [hmem, hmem']
    simp only [last_congr (hids id)]

end

/-- The order of top-level blocks does not depend on that of the entries. -/
theorem topLevel_perm {g g' : BlockGraph} (h : g'.nodes.Perm g.nodes) (opcode : String) :
    g'.topLevel opcode = g.topLevel opcode := by
  have hperm := (h.filter fun n => n.2.topLevel && n.2.opcode == opcode).map (·.1)
  exact List.Perm.eq_of_pairwise (fun a b _ _ hab hba => String.le_antisymm hab hba) (pairwise_sortTexts _)
    (pairwise_sortTexts _) ((sortTexts_perm _).trans (hperm.trans (sortTexts_perm _).symm))

/-- Two dictionaries have the same under an id: the same node or none, and a warning or none. -/
def SameUnder (id : String) (r r' : BlockGraph × List LogRecord) : Prop :=
  r.1.get? id = r'.1.get? id ∧ (malformedWarning id ∈ r.2 ↔ malformedWarning id ∈ r'.2)

/-- A dictionary is read entry by entry. What stands under an id is told by the last entry with this id, which is the
node that it denotes, also on its own, and each other one but an array gives one warning. Whatever stands under one key,
the other ids are not touched, and entries with different ids may change places. -/
theorem dictionaries_read_entrywise (members : List (String × Json)) :
    ofJson? (.object members) = some (ofMembers members) ∧
    (∀ s, Json.read? s = some (.object members) → ofText? s = some (ofMembers members)) ∧
    Reads members (ofMembers members).1 (ofMembers members).2 ∧
    (∀ id j, Last members id j → SameUnder id (ofMembers [(id, j)]) (ofMembers members)) ∧
    (∀ key before old new after, members = before ++ old ++ after → (∀ m ∈ old ++ new, m.1 = key) →
      ∀ id, id ≠ key → SameUnder id (ofMembers (before ++ new ++ after)) (ofMembers members)) ∧
    ∀ members', (∀ id, members'.filter (·.1 == id) = members.filter (·.1 == id)) →
      (ofMembers members').1.nodes.Perm (ofMembers members).1.nodes ∧
      (ofMembers members').2.Perm (ofMembers members).2 ∧
      ∀ opcode, (ofMembers members').1.topLevel opcode = (ofMembers members).1.topLevel opcode := by
  have reads := reads_ofMembers members
  refine ⟨rfl, ?_, reads, ?_, ?_, ?_⟩
  · intro s hs
    simp only [ofText?, hs, Option.bind_some]
    rfl
  · intro id j hlast
    refine reads.congr (reads_ofMembers _) fun j' => ?_
    rw [last_singleton_iff]
    exact ⟨fun h => h ▸ hlast, hlast.unique⟩
  · rintro key before old new after rfl hkey id hid
    refine reads.congr (reads_ofMembers _) fun j => last_congr ?_
    have hnone (ms : List (String × Json)) (hms : ∀ m ∈ ms, m.1 = key) : ms.filter (·.1 == id) = [] := by
      refine List.filter_eq_nil_iff.mpr fun m hm => ?_
      simpa using (hms m hm).trans_ne hid.symm
    simp only [List.filter_append]
    rw [hnone old fun m hm => hkey m (List.mem_append_left _ hm), hnone new fun m hm => hkey m (List.mem_append_right _ hm)]
  · intro members' hids
    obtain ⟨hnodes, hwarnings⟩ := reads.perm (reads_ofMembers members') hids
    exact ⟨hnodes, hwarnings, topLevel_perm hnodes⟩

/-- A loose reporter and an entry without an operation code: the first is passed over and the second warned of, and
neither matters to the block beside them, wherever they stand. -/
theorem junk_leaves_blocks_alone :
    let block : String × Json := ("a", .object [("opcode", .text "control_stop"), ("topLevel", .bool true)])
    let loose : String × Json := ("c", .array [.number (.whole 12), .text "score", .text "v1"])
    let junk : String × Json := ("d", .object [("inputs", .object [])])
    (ofMembers [block, loose, junk]).2 = [malformedWarning "d"] ∧
    (ofMembers [block, loose, junk]).1.get? "a" = some ⟨"control_stop", none, none, [], [], false, true⟩ ∧
    SameUnder "a" (ofMembers [block]) (ofMembers [block, loose, junk]) ∧
    SameUnder "a" (ofMembers [block, loose]) (ofMembers [block, loose, junk]) ∧
    (ofMembers [junk, loose, block]).2.Perm (ofMembers [block, loose, junk]).2 := by
  intro block loose junk
  obtain ⟨-, -, -, halone, hother, horder⟩ := dictionaries_read_entrywise [block, loose, junk]
  refine ⟨rfl, rfl, ?_, ?_, ?_⟩
  · exact halone "a" block.2 ⟨[], [loose, junk], rfl, by simp [loose, junk]⟩
  · exact hother "d" [block, loose] [junk] [] [] rfl (by simp [junk]) "a" (by decide)
  · refine (horder [junk, loose, block] fun id => ?_).2.1
    by_cases hid : id = "a" ∨ id = "c" ∨ id = "d"
    · rcases hid with rfl | rfl | rfl <;> rfl
    · simp only [not_or, ← ne_eq] at hid
      obtain ⟨ha, hc, hd⟩ := hid
      simp [block, loose, junk, ha.symm, hc.symm, hd.symm]

end BlockGraph
end BlockScript
