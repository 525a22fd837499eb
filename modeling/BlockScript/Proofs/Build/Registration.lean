import Mathlib.Data.List.Induction
import Mathlib.Data.List.Nodup
import BlockScript.Build.Catalog

/-!
Registration of operation codes. A table after any registrations, refused ones among them, is told by what its codes
resolve to: a registration is refused at the first code that is taken or repeated, and then this code and those before
it have been registered all the same. Everything else that a table tells of itself follows from what resolves.
-/
namespace BlockScript
namespace Registry

variable {α : Type} {r : Registry α} {o p : String} {a : α}

/-! ### Tables -/

/-- No code has two entries. -/
def Distinct (r : Registry α) : Prop := (r.entries.map (·.1)).Nodup

/-- A code resolves to something. -/
def Resolves (r : Registry α) (o : String) : Prop := (r.resolve? o).isSome = true

theorem distinct_empty (table : String) : (empty table : Registry α).Distinct := List.nodup_nil

theorem resolves_iff : r.Resolves o ↔ o ∈ r.entries.map (·.1) := by
  unfold Resolves resolve?
  rw [List.find?_isSome, List.mem_map]
  simp only [beq_iff_eq]

theorem not_resolves_iff : ¬r.Resolves o ↔ r.resolve? o = none := by
  unfold Resolves
  rw [Option.not_isSome_iff_eq_none]

theorem contains_iff : r.contains o = true ↔ r.Resolves o := by
  rw [resolves_iff]
  unfold contains
  rw [List.any_eq_true, List.mem_map]
  simp only [beq_iff_eq]

/-- The entries of all codes but one resolve the others as before. -/
theorem find?_others (entries : List (String × α)) (o p : String) :
    (entries.filter (·.1 != o)).find? (·.1 == p) = if p = o then none else entries.find? (·.1 == p) := by
  rw [List.find?_filter]
  split
  · rename_i h
    subst h
    refine List.find?_eq_none.mpr fun e _ => ?_
    simp
  · rename_i h
    refine congrArg (List.find? · entries) (funext fun e => ?_)
    by_cases he : e.1 = p
    · simp [he, h]
    · simp [he]

theorem resolve?_insert : (r.insert o a).resolve? p = if p = o then some (o, a) else r.resolve? p := by
  unfold resolve? insert
  rw [List.find?_append, find?_others]
  by_cases h : p = o
  · subst h
    simp
  · simp [h, Ne.symm h]

theorem Distinct.insert (h : r.Distinct) (o : String) (a : α) : (r.insert o a).Distinct := by
  unfold Distinct Registry.insert
  rw [List.map_append, List.nodup_append]
  refine ⟨h.sublist (List.filter_sublist.map _), List.nodup_singleton _, ?_⟩
  rintro p hp q hq rfl
  obtain ⟨e, he, rfl⟩ := List.mem_map.mp hp
  have hne := (List.mem_filter.mp he).2
  simp only [List.map_cons, List.map_nil, List.mem_singleton] at hq
  simp [hq] at hne

/-! ### One registration -/

/-- What a registration of several codes does to what codes resolve to. -/
inductive Registered (r : Registry α) (opcodes : List String) (a : α) : Registry α × Except RegistryError Unit → Prop
  /-- No code is repeated or taken. -/
  | all (distinct : opcodes.Nodup) (fresh : ∀ o ∈ opcodes, r.resolve? o = none) {r' : Registry α}
      (table : r'.table = r.table) (resolve : ∀ o, r'.resolve? o = if o ∈ opcodes then some (o, a) else r.resolve? o) :
      Registered r opcodes a (r', .ok ())
  /-- The code `o` is the first one that is repeated or taken. -/
  | stopped {before later : List String} {o : String} (split : opcodes = before ++ o :: later) (distinct : before.Nodup)
      (fresh : ∀ p ∈ before, r.resolve? p = none) (used : o ∈ before ∨ r.Resolves o) {r' : Registry α}
      (table : r'.table = r.table)
      (resolve : ∀ p, r'.resolve? p = if p ∈ before ∨ p = o then some (p, a) else r.resolve? p) :
      Registered r opcodes a (r', .error (.duplicateOpcode o r.table))

theorem registered_nil (r : Registry α) (a : α) : r.Registered [] a (r, .ok ()) :=
  .all List.nodup_nil nofun rfl fun _ => rfl

/-- A code that is taken ends a registration at once. -/
theorem registered_of_resolves (h : r.Resolves o) (later : List String) (a : α) :
    r.Registered (o :: later) a (r.insert o a, .error (.duplicateOpcode o r.table)) := by
  have split : o :: later = [] ++ o :: later := rfl
  refine .stopped split List.nodup_nil nofun (.inr h) rfl fun p => ?_
  rw [resolve?_insert]
  by_cases hp : p = o
  · subst hp
    simp
  · simp [hp]

/-- What is registered after a fresh code tells what is registered with it. -/
theorem Registered.cons (h : ¬r.Resolves o) {opcodes : List String} {x : Registry α × Except RegistryError Unit}
    (rest : (r.insert o a).Registered opcodes a x) : r.Registered (o :: opcodes) a x := by
  have hnone := not_resolves_iff.mp h
  have unseen {p : String} (hp : (r.insert o a).resolve? p = none) : p ≠ o ∧ r.resolve? p = none := by
    rw [resolve?_insert] at hp
    split at hp
    · cases hp
    · exact ⟨‹_›, hp⟩
  cases rest with
  | all distinct fresh table resolve =>
    refine .all ?_ ?_ table fun p => ?_
    · exact List.nodup_cons.mpr ⟨fun ho => (unseen (fresh o ho)).1 rfl, distinct⟩
    · intro p hp
      rcases List.mem_cons.mp hp with rfl | hp
      · exact hnone
      · exact (unseen (fresh p hp)).2
    · rw [resolve, resolve?_insert]
      by_cases hp : p = o
      · subst hp
        simp
      · simp [hp]
  | @stopped before later q split distinct fresh used _ table resolve =>
    have split' : o :: opcodes = (o :: before) ++ q :: later := congrArg (o :: ·) split
    refine .stopped split' ?_ ?_ ?_ table fun p => ?_
    · exact List.nodup_cons.mpr ⟨fun ho => (unseen (fresh o ho)).1 rfl, distinct⟩
    · intro p hp
      rcases List.mem_cons.mp hp with rfl | hp
      · exact hnone
      · exact (unseen (fresh p hp)).2
    · rcases used with hq | hq
      · exact .inl (List.mem_cons_of_mem _ hq)
      · unfold Resolves at hq
        rw [resolve?_insert] at hq
        split at hq
        · rename_i heq
          exact .inl (heq ▸ List.mem_cons_self)
        · exact .inr hq
    · rw [resolve, resolve?_insert]
      by_cases hp : p = o
      · subst hp
        simp
      · simp [hp]

theorem registered (r : Registry α) (opcodes : List String) (a : α) : r.Registered opcodes a (r.register opcodes a) := by
  induction opcodes generalizing r with
  | nil => exact registered_nil r a
  | cons o opcodes ih =>
    unfold register
    by_cases h : r.Resolves o
    · rw [if_pos (contains_iff.mpr h)]
      exact registered_of_resolves h opcodes a
    · rw [if_neg fun hc => h (contains_iff.mp hc)]
      exact .cons h (ih _)

theorem register_ok_iff (r : Registry α) (opcodes : List String) (a : α) :
    (r.register opcodes a).2 = .ok () ↔ opcodes.Nodup ∧ ∀ o ∈ opcodes, r.resolve? o = none := by
  have h := r.registered opcodes a
  generalize r.register opcodes a = x at h
  cases h with
  | all distinct fresh table resolve => exact iff_of_true rfl ⟨distinct, fresh⟩
  | @stopped before later o split distinct fresh used _ table resolve =>
    refine iff_of_false nofun ?_
    rintro ⟨nodup, unused⟩
    rw [split] at nodup unused
    rcases used with ho | ho
    · exact (List.nodup_append.mp nodup).2.2 o ho o List.mem_cons_self rfl
    · exact not_resolves_iff.mpr (unused o (List.mem_append_right _ List.mem_cons_self)) ho

theorem Distinct.register (h : r.Distinct) (opcodes : List String) (a : α) : (r.register opcodes a).1.Distinct := by
  induction opcodes generalizing r with
  | nil => exact h
  | cons o opcodes ih =>
    unfold Registry.register
    split
    · exact h.insert o a
    · exact ih (h.insert o a)

theorem table_register (r : Registry α) (opcodes : List String) (a : α) : (r.register opcodes a).1.table = r.table := by
  have h := r.registered opcodes a
  generalize r.register opcodes a = x at h
  cases h with
  | all distinct fresh table resolve => exact table
  | stopped split distinct fresh used table resolve => exact table

/-! ### Runs of registrations -/

/-- A table after registrations, each of them tried, whether those before it failed or not. -/
def after (r : Registry α) (calls : List (List String × α)) : Registry α :=
  calls.foldl (fun r call => (r.register call.1 call.2).1) r

theorem Distinct.after (h : r.Distinct) (calls : List (List String × α)) : (r.after calls).Distinct := by
  induction calls generalizing r with
  | nil => exact h
  | cons call calls ih => exact ih (h.register call.1 call.2)

theorem table_after (r : Registry α) (calls : List (List String × α)) : (r.after calls).table = r.table := by
  induction calls generalizing r with
  | nil => rfl
  | cons call calls ih => exact (ih _).trans (r.table_register call.1 call.2)

/-- One code is registered whether it is taken or not. -/
theorem register_singleton (r : Registry α) (o : String) (a : α) : (r.register [o] a).1 = r.insert o a := by
  unfold register
  split <;> rfl

/-- Every table without repeated codes comes from a run, one code at a time. -/
theorem Distinct.exists_after (h : r.Distinct) : ∃ calls, (empty r.table).after calls = r := by
  obtain ⟨table, entries⟩ := r
  refine ⟨entries.map fun e => ([e.1], e.2), ?_⟩
  induction entries using List.reverseRecOn with
  | nil => rfl
  | append_singleton entries e ih =>
    unfold Distinct at h
    rw [List.map_append, List.nodup_append] at h
    obtain ⟨hentries, -, hnew⟩ := h
    have hothers : entries.filter (·.1 != e.1) = entries := by
      refine List.filter_eq_self.mpr fun d hd => ?_
      simpa using hnew d.1 (List.mem_map_of_mem hd) e.1 (by simp)
    have hbefore := ih hentries
    unfold Registry.after at hbefore ⊢
    rw [List.map_append, List.foldl_append, hbefore]
    show (Registry.register ⟨table, entries⟩ [e.1] e.2).1 = _
    rw [register_singleton, Registry.insert, hothers]

/-! ### What tables tell of themselves -/

/-- The codes that resolve, in order. -/
structure Lists (r : Registry α) (codes : List String) : Prop where
  sorted : codes.Pairwise (· < ·)
  mem_iff : ∀ o, o ∈ codes ↔ r.Resolves o

/-- A table tells that its codes are these. -/
structure Tells (r : Registry α) (codes : List String) : Prop where
  contains : ∀ o, r.contains o = true ↔ o ∈ codes
  size : r.size = codes.length
  isEmpty : r.isEmpty = true ↔ codes = []
  opcodes : r.opcodes = codes
  listing : r.listing = "Registry \x7b table: " ++ Text.quote r.table ++ ", opcodes: [" ++
    ", ".intercalate (codes.map Text.quote) ++ "] \x7d"

theorem Distinct.lists_opcodes (h : r.Distinct) : r.Lists r.opcodes where
  sorted := by
    have nodup : r.opcodes.Nodup := (sortTexts_perm _).nodup_iff.mpr h
    refine ((pairwise_sortTexts _).and nodup).imp fun {o p} hop => ?_
    rw [← String.not_le]
    exact fun hpo => hop.2 (String.le_antisymm hop.1 hpo)
  mem_iff o := (sortTexts_perm _).mem_iff.trans resolves_iff.symm

theorem Lists.unique {codes codes' : List String} (h : r.Lists codes) (h' : r.Lists codes') : codes = codes' := by
  have asymm {o p : String} (hop : o < p) (hpo : p < o) : o = p := absurd hpo (String.lt_asymm hop)
  have nodup {codes : List String} (hcodes : r.Lists codes) : codes.Nodup := by
    refine hcodes.sorted.imp fun {o p} hop heq => ?_
    rw [heq] at hop
    exact String.lt_irrefl _ hop
  refine List.Perm.eq_of_pairwise (fun o p _ _ => asymm) h.sorted h'.sorted ?_
  refine (List.perm_ext_iff_of_nodup (nodup h) (nodup h')).mpr fun o => ?_
  rw [h.mem_iff, h'.mem_iff]

theorem Lists.tells {codes : List String} (h : r.Lists codes) (distinct : r.Distinct) : r.Tells codes := by
  obtain rfl := distinct.lists_opcodes.unique h
  have hlength : r.opcodes.length = r.size := (sortTexts_perm _).length_eq.trans (List.length_map _)
  refine ⟨fun o => contains_iff.trans (h.mem_iff o).symm, hlength.symm, ?_, rfl, rfl⟩
  unfold isEmpty
  rw [List.isEmpty_iff_length_eq_zero, ← List.length_eq_zero_iff, hlength]
  rfl

end Registry

/-! ### The two tables -/

namespace CatalogEntry

/-- What the entry registers as statements. -/
def action? : CatalogEntry → Option (List String × ActionKind)
  | .action opcodes kind => some (opcodes, kind)
  | .reporter .. => none

/-- What the entry registers as reporters. -/
def reporter? : CatalogEntry → Option (List String × ReporterKind)
  | .action .. => none
  | .reporter opcodes kind => some (opcodes, kind)

end CatalogEntry

namespace Registries

/-- The tables after one entry is tried. -/
def register (r : Registries) : CatalogEntry → Registries × Except RegistryError Unit
  | .action opcodes kind => r.registerAction opcodes kind
  | .reporter opcodes kind => r.registerReporter opcodes kind

/-- The tables after entries, each of them tried, whether those before it failed or not. -/
def after (r : Registries) (entries : List CatalogEntry) : Registries :=
  entries.foldl (fun r entry => (r.register entry).1) r

/-- Each table is made by the entries of its own. -/
theorem after_eq (r : Registries) (entries : List CatalogEntry) :
    r.after entries =
      ⟨r.actions.after (entries.filterMap (·.action?)), r.reporters.after (entries.filterMap (·.reporter?))⟩ := by
  induction entries generalizing r with
  | nil => rfl
  | cons entry entries ih =>
    refine (ih _).trans ?_
    cases entry with
    | action opcodes kind => rfl
    | reporter opcodes kind => rfl

theorem registerAll_of_ok {r r' : Registries} {entry : CatalogEntry} (entries : List CatalogEntry)
    (h : r.register entry = (r', .ok ())) : r.registerAll (entry :: entries) = r'.registerAll entries := by
  cases entry <;> simp only [register] at h <;> rw [registerAll, h]

theorem registerAll_of_error {r r' : Registries} {entry : CatalogEntry} {e : RegistryError} (entries : List CatalogEntry)
    (h : r.register entry = (r', .error e)) : r.registerAll (entry :: entries) = (r', .error e) := by
  cases entry <;> simp only [register] at h <;> rw [registerAll, h]

/-- A catalogue is registered as far as entries are accepted, with the one that is refused. -/
theorem exists_registerAll (r : Registries) (entries : List CatalogEntry) :
    ∃ tried rest, entries = tried ++ rest ∧ (r.registerAll entries).1 = r.after tried ∧
      ((r.registerAll entries).2 = .ok () → rest = []) := by
  induction entries generalizing r with
  | nil => exact ⟨[], [], rfl, rfl, fun _ => rfl⟩
  | cons entry entries ih =>
    cases hentry : r.register entry with
    | mk r' outcome =>
      cases outcome with
      | error e =>
        rw [registerAll_of_error entries hentry]
        exact ⟨[entry], entries, rfl, (congrArg Prod.fst hentry).symm, nofun⟩
      | ok u =>
        rw [registerAll_of_ok entries hentry]
        obtain ⟨tried, rest, rfl, hafter, hrest⟩ := ih r'
        refine ⟨entry :: tried, rest, rfl, hafter.trans ?_, hrest⟩
        show r'.after tried = ((r.register entry).1).after tried
        rw [hentry]

end Registries

/-- Tables after any registrations, refused ones among them, are told by what resolves. A registration succeeds exactly
if its codes are distinct and none of them is taken, and then these codes resolve to what was registered. Otherwise it
is refused at the first code that is taken or repeated, and this code and those before it resolve to what was registered
all the same. The codes that resolve are those that a table contains, counts and lists in order, and each of the two
tables is made by its own registrations alone. No table without repeated codes is left out. -/
theorem registrations_resolve_exactly :
    (∀ (α : Type) (table : String) (calls : List (List String × α)),
      let r := (Registry.empty table).after calls
      r.table = table ∧
      (∀ opcodes a, r.Registered opcodes a (r.register opcodes a) ∧
        ((r.register opcodes a).2 = .ok () ↔ opcodes.Nodup ∧ ∀ o ∈ opcodes, r.resolve? o = none)) ∧
      ∃ codes, r.Lists codes ∧ r.Tells codes) ∧
    (∀ (α : Type) (r : Registry α), r.Distinct → ∃ calls, (Registry.empty r.table).after calls = r) ∧
    ∀ (r : Registries) (entries : List CatalogEntry),
      (r.after entries).actions = r.actions.after (entries.filterMap (·.action?)) ∧
      (r.after entries).reporters = r.reporters.after (entries.filterMap (·.reporter?)) ∧
      (∀ opcodes kind, ((r.after entries).registerAction opcodes kind).2 =
        ((r.actions.after (entries.filterMap (·.action?))).register opcodes kind).2) ∧
      (∀ opcodes kind, ((r.after entries).registerReporter opcodes kind).2 =
        ((r.reporters.after (entries.filterMap (·.reporter?))).register opcodes kind).2) ∧
      ∃ tried rest, entries = tried ++ rest ∧ (r.registerAll entries).1 = r.after tried ∧
        ((r.registerAll entries).2 = .ok () → rest = []) := by
  refine ⟨fun α table calls => ?_, fun α r h => h.exists_after, fun r entries => ?_⟩
  · have distinct := (Registry.distinct_empty (α := α) table).after calls
    have lists := distinct.lists_opcodes
    exact ⟨Registry.table_after _ calls, fun opcodes a => ⟨Registry.registered _ opcodes a,
      Registry.register_ok_iff _ opcodes a⟩, _, lists, lists.tells distinct⟩
  · have halves := r.after_eq entries
    refine ⟨congrArg (·.actions) halves, congrArg (·.reporters) halves, ?_, ?_, r.exists_registerAll entries⟩
    · rw [halves]
      exact fun opcodes kind => rfl
    · rw [halves]
      exact fun opcodes kind => rfl

/-- A second registration stops at its second code, which is taken: this one and the first are registered, and the third
is not. -/
theorem taken_code_registered : ∃ codes,
    let r := (Registry.empty "action").after [(["b", "a"], 1), (["c", "a", "d"], 2)]
    r.Lists codes ∧ r.Tells codes ∧ codes = ["a", "b", "c"] ∧ r.resolve? "a" = some ("a", 2) ∧ r.resolve? "d" = none ∧
      r.Registered ["d", "e", "d"] 3 (r.register ["d", "e", "d"] 3) ∧
      (r.register ["d", "e", "d"] 3).2 = .error (.duplicateOpcode "d" "action") := by
  obtain ⟨runs, -, -⟩ := registrations_resolve_exactly
  obtain ⟨-, registers, codes, lists, tells⟩ := runs Nat "action" [(["b", "a"], 1), (["c", "a", "d"], 2)]
  refine ⟨codes, lists, tells, lists.unique ⟨by decide, fun o => ?_⟩, by decide, by decide, (registers _ _).1, by decide⟩
  have hentries : ((Registry.empty "action").after [(["b", "a"], 1), (["c", "a", "d"], 2)]).entries =
      [("b", 1), ("c", 2), ("a", 2)] := by decide
  rw [Registry.resolves_iff, hentries]
  simp only [List.map_cons, List.map_nil, List.mem_cons, List.not_mem_nil, or_false]
  exact ⟨Or.rotate, fun h => h.rotate.rotate⟩

end BlockScript
