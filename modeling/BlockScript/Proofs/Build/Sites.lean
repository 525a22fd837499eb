import BlockScript.Build.Builder
import BlockScript.Proofs.Build.Signature
import Mathlib.Data.List.Nodup
import Mathlib.Data.List.Perm.Subperm

/-!
Dictionaries that form a tree. A site is a block in its position; from a site construction hops to the
next statement and to what the inputs name that the block reads. Where no block is the target of
two hops, every site is met once: chains do not loop, and a listing of all sites below a start has no
site twice.
-/
namespace BlockScript

/-! ### Listings -/

section
variable {σ : Type}

/-- So many steps to children lead from one to another. -/
def Steps (children : σ → List σ) : Nat → σ → σ → Prop
  | 0, s, x => s = x
  | n + 1, s, x => ∃ y, Steps children n s y ∧ x ∈ children y

/-- All that is below some roots, in order, each with what is below it right behind it. -/
inductive Listing (children : σ → List σ) : List σ → List σ → Prop
  | nil : Listing children [] []
  | cons {s : σ} {rest below others : List σ} : Listing children (children s) below → Listing children rest others →
      Listing children (s :: rest) (s :: below ++ others)

/-- Nobody has two parents, the start has none, and nobody has a child twice. -/
structure IsTree (children : σ → List σ) (start : σ) : Prop where
  root : ∀ n s, Steps children n start s → start ∉ children s
  single : ∀ n m s t x, Steps children n start s → Steps children m start t → x ∈ children s → x ∈ children t → s = t
  nodup : ∀ n s, Steps children n start s → (children s).Nodup

variable {children : σ → List σ} {start s x : σ}

theorem Steps.add {n m : Nat} (h : Steps children n start s) (h' : Steps children m s x) : Steps children (n + m) start x := by
  induction m generalizing x with
  | zero => exact h' ▸ h
  | succ m ih =>
    obtain ⟨y, hy, hx⟩ := h'
    exact ⟨y, ih hy, hx⟩

theorem Steps.head_iff {n : Nat} : Steps children (n + 1) s x ↔ ∃ c ∈ children s, Steps children n c x := by
  induction n generalizing x with
  | zero => exact ⟨fun ⟨y, hy, hx⟩ => ⟨x, hy ▸ hx, rfl⟩, fun ⟨c, hc, hx⟩ => ⟨s, rfl, hx ▸ hc⟩⟩
  | succ n ih =>
    constructor
    · rintro ⟨y, hy, hx⟩
      obtain ⟨c, hc, hcy⟩ := ih.mp hy
      exact ⟨c, hc, y, hcy, hx⟩
    · rintro ⟨c, hc, y, hcy, hx⟩
      exact ⟨y, ih.mpr ⟨c, hc, hcy⟩, hx⟩

namespace IsTree

/-- All ways to a site are equally long. -/
theorem steps_eq (tree : IsTree children start) {n m : Nat} (h : Steps children n start x) (h' : Steps children m start x) :
    n = m := by
  induction n generalizing m x with
  | zero =>
    cases m with
    | zero => rfl
    | succ m =>
      obtain ⟨y, hy, hx⟩ := h'
      obtain rfl : start = x := h
      exact absurd hx (tree.root m y hy)
  | succ n ih =>
    obtain ⟨y, hy, hx⟩ := h
    cases m with
    | zero =>
      obtain rfl : start = x := h'
      exact absurd hx (tree.root n y hy)
    | succ m =>
      obtain ⟨y', hy', hx'⟩ := h'
      obtain rfl := tree.single n m y y' x hy hy' hx hx'
      exact congrArg (· + 1) (ih hy hy')

/-- A site is below one site of each generation. -/
theorem ancestor_eq (tree : IsTree children start) {n m k : Nat} {t : σ} (hs : Steps children n start s)
    (ht : Steps children m start t) (h : Steps children k s x) (h' : Steps children k t x) : s = t := by
  induction k generalizing x with
  | zero => exact h.trans h'.symm
  | succ k ih =>
    obtain ⟨y, hy, hx⟩ := h
    obtain ⟨y', hy', hx'⟩ := h'
    obtain rfl := tree.single _ _ y y' x (hs.add hy) (ht.add hy') hx hx'
    exact ih hy hy'

end IsTree

namespace Listing

theorem append {roots more l m : List σ} (h : Listing children roots l) (h' : Listing children more m) :
    Listing children (roots ++ more) (l ++ m) := by
  induction h with
  | nil => exact h'
  | cons below others ihBelow ihOthers =>
    have joined := Listing.cons below ihOthers
    rwa [List.cons_append, List.append_assoc]

/-- Where each root has a listing, all have one together. -/
theorem exists_of_roots {roots : List σ} (h : ∀ r ∈ roots, ∃ l, Listing children [r] l) : ∃ l, Listing children roots l := by
  induction roots with
  | nil => exact ⟨[], .nil⟩
  | cons r roots ih =>
    obtain ⟨first, hfirst⟩ := h r List.mem_cons_self
    obtain ⟨others, hothers⟩ := ih fun r' hr' => h r' (List.mem_cons_of_mem _ hr')
    exact ⟨first ++ others, hfirst.append hothers⟩

theorem mem_iff {roots l : List σ} (h : Listing children roots l) : x ∈ l ↔ ∃ r ∈ roots, ∃ n, Steps children n r x := by
  induction h with
  | nil => simp
  | @cons s rest below others hbelow hothers ihBelow ihOthers =>
    rw [List.mem_append, List.mem_cons, ihBelow, ihOthers, List.exists_mem_cons_iff, or_congr_left]
    constructor
    · rintro (rfl | ⟨c, hc, n, hx⟩)
      · exact ⟨0, rfl⟩
      · exact ⟨n + 1, Steps.head_iff.mpr ⟨c, hc, hx⟩⟩
    · rintro ⟨n, hx⟩
      cases n with
      | zero => exact Or.inl hx.symm
      | succ n =>
        obtain ⟨c, hc, hx⟩ := Steps.head_iff.mp hx
        exact Or.inr ⟨c, hc, n, hx⟩

/-- A listing of sites of one generation has no site twice. -/
theorem nodup (tree : IsTree children start) {roots l : List σ} (h : Listing children roots l) (hroots : roots.Nodup)
    {d : Nat} (depth : ∀ r ∈ roots, Steps children d start r) : l.Nodup := by
  induction h generalizing d with
  | nil => exact List.nodup_nil
  | @cons s rest below others hbelow hothers ihBelow ihOthers =>
    have hs := depth s List.mem_cons_self
    have hrest := fun r hr => depth r (List.mem_cons_of_mem _ hr)
    obtain ⟨fresh, hroots⟩ := List.nodup_cons.mp hroots
    have hchildren : ∀ c ∈ children s, Steps children (d + 1) start c := fun c hc => ⟨s, hs, hc⟩
    have own : (s :: below).Nodup := by
      refine List.nodup_cons.mpr ⟨fun hmem => ?_, ihBelow (tree.nodup d s hs) hchildren⟩
      obtain ⟨c, hc, n, hn⟩ := hbelow.mem_iff.mp hmem
      have := tree.steps_eq hs (hs.add (Steps.head_iff.mpr ⟨c, hc, hn⟩))
      omega
    refine List.nodup_append.mpr ⟨own, ihOthers hroots hrest, fun x hx y hy hxy => ?_⟩
    subst hxy
    -- A site below two roots would be equally far from both.
    have single : Listing children [s] (s :: below ++ []) := hbelow.cons .nil
    obtain ⟨r, hr, n, hn⟩ := single.mem_iff.mp (List.mem_append_left _ hx)
    obtain rfl := List.mem_singleton.mp hr
    obtain ⟨r', hr', m, hm⟩ := hothers.mem_iff.mp hy
    have hdistance := tree.steps_eq (hs.add hn) ((hrest r' hr').add hm)
    obtain rfl : n = m := by omega
    exact fresh (tree.ancestor_eq hs (hrest r' hr') hn hm ▸ hr')

end Listing
end

/-! ### Sites -/

/-- A block in its position. -/
structure Site where
  position : BlockPosition
  id : String
  deriving DecidableEq

/-- How construction gets from one block to another. -/
inductive Hop where
  | next
  | slot (kind : SlotKind) (name : String)
  deriving DecidableEq

/-- The position in which the block under an input is built. -/
def SlotKind.position : SlotKind → BlockPosition
  | .body => .statement
  | _ => .reporter

/-- How many levels a hop goes down. -/
def Hop.levels : Hop → Nat
  | .next => 0
  | .slot .body _ => 2
  | .slot _ _ => 1

namespace BlockNode

/-- The block under an input, if there is one. -/
def blockUnder? (n : BlockNode) (name : String) : Option String :=
  match n.input? name with
  | some (.block id) => some id
  | _ => none

/-- The hops to the blocks under these inputs. -/
def slotHops (n : BlockNode) (slots : List (SlotKind × String)) : List (Hop × Site) :=
  slots.filterMap fun x => (n.blockUnder? x.2).map fun id => (.slot x.1 x.2, ⟨x.1.position, id⟩)

theorem mem_slotHops {n : BlockNode} {slots : List (SlotKind × String)} {hop : Hop} {t : Site} :
    (hop, t) ∈ n.slotHops slots ↔
      ∃ x ∈ slots, hop = .slot x.1 x.2 ∧ t.position = x.1.position ∧ n.blockUnder? x.2 = some t.id := by
  simp only [slotHops, List.mem_filterMap, Option.map_eq_some_iff]
  constructor
  · rintro ⟨x, hx, id, hid, heq⟩
    cases heq
    exact ⟨x, hx, rfl, rfl, hid⟩
  · rintro ⟨x, hx, rfl, hposition, hid⟩
    exact ⟨x, hx, t.id, hid, by rw [← hposition]⟩

/-- Only statements have a next block. -/
def nextHops (n : BlockNode) : BlockPosition → List (Hop × Site)
  | .statement => (n.follower.map fun id => (.next, ⟨.statement, id⟩)).toList
  | .reporter => []

theorem mem_nextHops {n : BlockNode} {position : BlockPosition} {hop : Hop} {t : Site} :
    (hop, t) ∈ n.nextHops position ↔
      position = .statement ∧ hop = .next ∧ t.position = .statement ∧ n.follower = some t.id := by
  cases position with
  | reporter => simp [nextHops]
  | statement =>
    simp only [nextHops, Option.mem_toList, Option.map_eq_some_iff, true_and]
    constructor
    · rintro ⟨id, hid, heq⟩
      cases heq
      exact ⟨rfl, rfl, hid⟩
    · rintro ⟨rfl, hposition, hid⟩
      exact ⟨t.id, hid, by rw [← hposition]⟩

end BlockNode

theorem ReporterKind.slots_nodup (kind : ReporterKind) : kind.signature.slots.Nodup := by
  cases kind <;> decide

theorem ReporterKind.slots_ne_body (kind : ReporterKind) : ∀ x ∈ kind.signature.slots, x.1 ≠ .body := by
  cases kind <;> decide

theorem ActionKind.slots_nodup (opcode : String) (kind : ActionKind) : (kind.signature opcode).slots.Nodup := by
  cases kind
  case branch =>
    simp only [signature]
    split <;> decide
  case move =>
    simp only [signature, stepInputs]
    split <;> decide
  case turn | adjust => exact List.nodup_singleton _
  all_goals simp [signature, Signature.values, Signature.truths]

/-- The signature of an operation code in a position, if it is registered for that. -/
def Registries.signature? (r : Registries) (opcode : String) : BlockPosition → Option Signature
  | .statement => (r.actions.resolve? opcode).map fun x => x.2.signature x.1
  | .reporter => (r.reporters.resolve? opcode).map fun x => x.2.signature

namespace Builder

/-- The node of a site with the signature that its operation code has in its position. -/
def read? (b : Builder) (s : Site) : Option (BlockNode × Signature) := do
  let node ← b.graph.get? s.id
  let sig ← b.registries.signature? node.opcode s.position
  return (node, sig)

/-- Where construction gets from a site. -/
def hops (b : Builder) (s : Site) : List (Hop × Site) :=
  match b.read? s with
  | some (node, sig) => node.slotHops sig.slots ++ node.nextHops s.position
  | none => []

/-- The block is there and its operation code is that of a condition. -/
def isPredicate (b : Builder) (id : String) : Bool :=
  ((b.graph.get? id).bind fun node => b.registries.reporters.resolve? node.opcode).any (·.2.isPredicate)

/-- Whether an input suits the use that is made of it. -/
def admits (b : Builder) : SlotKind → Option Input → Bool
  | .value, _ => true
  | .truth, some (.block id) => b.isPredicate id
  | .body, some (.block _) => true
  | _, none => true
  | _, some .empty => true
  | _, _ => false

/-- Whether a site passes the checks of construction: its block is there and known in its position, the
fields it needs are supported, and its inputs suit. -/
def fits (b : Builder) (s : Site) : Bool :=
  (b.read? s).any fun x =>
    x.1.supports x.2.fields && x.2.slots.all fun slot => b.admits slot.1 (x.1.input? slot.2)

/-- What construction meets from a start, so many levels down. -/
inductive Reaches (b : Builder) (start : String) : Site → Nat → Prop
  | start : Reaches b start ⟨.statement, start⟩ 0
  | hop {s t : Site} {level : Nat} {hop : Hop} : Reaches b start s level → (hop, t) ∈ b.hops s →
      Reaches b start t (level + hop.levels)

/-- What construction meets from a start forms a tree: every block is there and fits, the start is the
target of no hop and any other block of one, and nothing is too deep. -/
structure FormsTree (b : Builder) (start : String) : Prop where
  fits : ∀ s level, b.Reaches start s level → b.fits s = true
  root : ∀ s level hop t, b.Reaches start s level → (hop, t) ∈ b.hops s → t.id ≠ start
  single : ∀ s level hop t s' level' hop' t', b.Reaches start s level → b.Reaches start s' level' →
    (hop, t) ∈ b.hops s → (hop', t') ∈ b.hops s' → t.id = t'.id → s = s' ∧ hop = hop'
  shallow : ∀ s level, b.Reaches start s level → level < maxBuildDepth

/-- The sites that construction gets to from a site. -/
def children (b : Builder) (s : Site) : List Site := (b.hops s).map (·.2)

variable {b : Builder} {start : String}

theorem Reaches.steps {s : Site} {level : Nat} (h : b.Reaches start s level) :
    ∃ n, Steps b.children n ⟨.statement, start⟩ s := by
  induction h with
  | start => exact ⟨0, rfl⟩
  | hop _ hmem ih =>
    obtain ⟨n, hn⟩ := ih
    exact ⟨n + 1, _, hn, List.mem_map_of_mem hmem⟩

theorem reaches_of_steps {s : Site} {n : Nat} (h : Steps b.children n ⟨.statement, start⟩ s) :
    ∃ level, b.Reaches start s level := by
  induction n generalizing s with
  | zero => exact ⟨0, h ▸ .start⟩
  | succ n ih =>
    obtain ⟨y, hy, hmem⟩ := h
    obtain ⟨level, hlevel⟩ := ih hy
    obtain ⟨⟨hop, t⟩, hhop, rfl⟩ := List.mem_map.mp hmem
    exact ⟨_, hlevel.hop hhop⟩

theorem read?_eq_some {s : Site} {node : BlockNode} {sig : Signature} :
    b.read? s = some (node, sig) ↔
      b.graph.get? s.id = some node ∧ b.registries.signature? node.opcode s.position = some sig := by
  simp only [read?, Option.bind_eq_bind, Option.bind_eq_some_iff, Option.pure_def, Option.some.injEq, Prod.mk.injEq]
  constructor
  · rintro ⟨n, hn, g, hg, rfl, rfl⟩
    exact ⟨hn, hg⟩
  · rintro ⟨hn, hg⟩
    exact ⟨node, hn, sig, hg, rfl, rfl⟩

theorem slots_nodup {s : Site} {node : BlockNode} {sig : Signature} (h : b.read? s = some (node, sig)) : sig.slots.Nodup := by
  have hsig := (read?_eq_some.mp h).2
  unfold Registries.signature? at hsig
  split at hsig
  · obtain ⟨x, -, rfl⟩ := Option.map_eq_some_iff.mp hsig
    exact x.2.slots_nodup x.1
  · obtain ⟨x, -, rfl⟩ := Option.map_eq_some_iff.mp hsig
    exact x.2.slots_nodup

theorem hops_nodup (b : Builder) (s : Site) : (b.hops s).Nodup := by
  unfold hops
  split
  · rename_i node sig h
    refine List.nodup_append.mpr ⟨?_, ?_, ?_⟩
    · refine (slots_nodup h).filterMap fun x y z hx hy => ?_
      obtain ⟨_, -, rfl⟩ := Option.map_eq_some_iff.mp hx
      obtain ⟨_, -, heq⟩ := Option.map_eq_some_iff.mp hy
      have := (Prod.mk.inj heq).1
      exact Prod.ext (Hop.slot.inj this).1.symm (Hop.slot.inj this).2.symm
    · unfold BlockNode.nextHops
      split
      · cases node.follower with
        | none => exact List.nodup_nil
        | some id => exact List.nodup_singleton _
      · exact List.nodup_nil
    · rintro ⟨hop, t⟩ hx y hy rfl
      obtain ⟨z, -, rfl, -⟩ := BlockNode.mem_slotHops.mp hx
      cases (BlockNode.mem_nextHops.mp hy).2.1
  · exact List.nodup_nil

namespace FormsTree

theorem isTree (h : b.FormsTree start) : IsTree b.children ⟨.statement, start⟩ where
  root := fun n s hs hmem => by
    obtain ⟨level, hlevel⟩ := reaches_of_steps hs
    obtain ⟨⟨hop, t⟩, hhop, heq⟩ := List.mem_map.mp hmem
    exact h.root s level hop t hlevel hhop (congrArg Site.id heq)
  single := fun n m s t x hs ht hx hx' => by
    obtain ⟨level, hlevel⟩ := reaches_of_steps hs
    obtain ⟨level', hlevel'⟩ := reaches_of_steps ht
    obtain ⟨⟨hop, y⟩, hhop, rfl⟩ := List.mem_map.mp hx
    obtain ⟨⟨hop', y'⟩, hhop', heq⟩ := List.mem_map.mp hx'
    exact (h.single s level hop y t level' hop' y' hlevel hlevel' hhop hhop' (congrArg Site.id heq).symm).1
  nodup := fun n s hs => by
    obtain ⟨level, hlevel⟩ := reaches_of_steps hs
    refine (b.hops_nodup s).map_on fun x hx y hy heq => Prod.ext ?_ heq
    exact (h.single s level x.1 x.2 s level y.1 y.2 hlevel hlevel hx hy (congrArg Site.id heq)).2

end FormsTree
end Builder

/-! ### Chains -/

/-- The ids that following `next` meets on a chain that ends. -/
inductive BlockGraph.Follows (g : BlockGraph) : Option String → List String → Prop
  | nil : Follows g none []
  | cons {id : String} {node : BlockNode} {ids : List String} : g.get? id = some node → Follows g node.follower ids →
      Follows g (some id) (id :: ids)

theorem BlockGraph.mem_of_get? {g : BlockGraph} {id : String} {node : BlockNode} (h : g.get? id = some node) :
    id ∈ g.nodes.map (·.1) := by
  obtain ⟨l₁, l₂, hl, -⟩ := List.lookup_eq_some_iff.mp h
  rw [hl]
  simp

namespace Builder

variable {b : Builder} {start : String}

theorem FormsTree.read (h : b.FormsTree start) {s : Site} {level : Nat} (hs : b.Reaches start s level) :
    ∃ node sig, b.read? s = some (node, sig) ∧ node.supports sig.fields = true ∧
      ∀ slot ∈ sig.slots, b.admits slot.1 (node.input? slot.2) = true := by
  obtain ⟨⟨node, sig⟩, hread, hfits⟩ := (Option.any_eq_true _ _).mp (h.fits s level hs)
  obtain ⟨hfields, hslots⟩ := Bool.and_eq_true_iff.mp hfits
  exact ⟨node, sig, hread, hfields, List.all_eq_true.mp hslots⟩

theorem FormsTree.present (h : b.FormsTree start) {s : Site} {level : Nat} (hs : b.Reaches start s level) :
    ∃ node, b.graph.get? s.id = some node := by
  obtain ⟨node, sig, hread, -⟩ := h.read hs
  exact ⟨node, (read?_eq_some.mp hread).1⟩

theorem FormsTree.next (h : b.FormsTree start) {id id' : String} {level : Nat} {node : BlockNode}
    (hs : b.Reaches start ⟨.statement, id⟩ level) (hnode : b.graph.get? id = some node) (hid : node.follower = some id') :
    (.next, ⟨.statement, id'⟩) ∈ b.hops ⟨.statement, id⟩ := by
  obtain ⟨node', sig, hread, -⟩ := h.read hs
  obtain rfl := Option.some.inj (hnode.symm.trans (read?_eq_some.mp hread).1)
  simp only [hops, hread]
  exact List.mem_append_right _ (BlockNode.mem_nextHops.mpr ⟨rfl, rfl, rfl, hid⟩)

/-- A block of a chain, with the blocks of the chain before it, which are all nearer to the start. -/
structure Trail (b : Builder) (start : String) (n : Nat) (seen : List String) (id : String) : Prop where
  steps : Steps b.children n ⟨.statement, start⟩ ⟨.statement, id⟩
  nearer : ∀ x ∈ seen, ∃ m < n, Steps b.children m ⟨.statement, start⟩ ⟨.statement, x⟩
  present : ∀ x ∈ seen, x ∈ b.graph.nodes.map (·.1)
  nodup : seen.Nodup

namespace Trail

variable {n : Nat} {seen : List String} {id : String}

theorem fresh (trail : b.Trail start n seen id) (h : b.FormsTree start) : id ∉ seen := by
  intro hmem
  obtain ⟨m, hlt, hm⟩ := trail.nearer id hmem
  exact absurd (h.isTree.steps_eq hm trail.steps) (Nat.ne_of_lt hlt)

theorem nodup_cons (trail : b.Trail start n seen id) (h : b.FormsTree start) : (id :: seen).Nodup :=
  List.nodup_cons.mpr ⟨trail.fresh h, trail.nodup⟩

theorem present_cons (trail : b.Trail start n seen id) {node : BlockNode} (hnode : b.graph.get? id = some node) :
    ∀ x ∈ id :: seen, x ∈ b.graph.nodes.map (·.1) :=
  List.forall_mem_cons.mpr ⟨BlockGraph.mem_of_get? hnode, trail.present⟩

/-- A dictionary has a block for each block of a chain. -/
theorem length_lt (trail : b.Trail start n seen id) (h : b.FormsTree start) {node : BlockNode}
    (hnode : b.graph.get? id = some node) : seen.length < b.graph.size := by
  have hle := ((trail.nodup_cons h).subperm (trail.present_cons hnode)).length_le
  rwa [List.length_map] at hle

theorem next (trail : b.Trail start n seen id) (h : b.FormsTree start) {node : BlockNode} {id' : String}
    (hnode : b.graph.get? id = some node) (hid : node.follower = some id') : b.Trail start (n + 1) (id :: seen) id' where
  steps := by
    obtain ⟨level, hlevel⟩ := reaches_of_steps trail.steps
    exact ⟨_, trail.steps, List.mem_map_of_mem (h.next hlevel hnode hid)⟩
  nearer := by
    refine List.forall_mem_cons.mpr ⟨⟨n, Nat.lt_succ_self n, trail.steps⟩, fun x hx => ?_⟩
    obtain ⟨m, hlt, hm⟩ := trail.nearer x hx
    exact ⟨m, Nat.lt_succ_of_lt hlt, hm⟩
  present := trail.present_cons hnode
  nodup := trail.nodup_cons h

/-- A chain neither loops nor runs out of room. -/
theorem chainFrom_follows (trail : b.Trail start n seen id) (h : b.FormsTree start) {room : Nat}
    (hroom : b.graph.size ≤ room + seen.length) :
    ∃ ids, b.graph.chainFrom room seen (some id) = (ids, .done) ∧ b.graph.Follows (some id) ids := by
  induction room generalizing n seen id with
  | zero =>
    obtain ⟨level, hlevel⟩ := reaches_of_steps trail.steps
    obtain ⟨node, hnode⟩ := h.present hlevel
    have := trail.length_lt h hnode
    omega
  | succ room ih =>
    obtain ⟨level, hlevel⟩ := reaches_of_steps trail.steps
    obtain ⟨node, hnode⟩ := h.present hlevel
    have hnode : b.graph.get? id = some node := hnode
    have hstep : b.graph.chainFrom (room + 1) seen (some id) =
        (id :: (b.graph.chainFrom room (id :: seen) node.follower).1, (b.graph.chainFrom room (id :: seen) node.follower).2) := by
      simp [BlockGraph.chainFrom, trail.fresh h, hnode]
    rw [hstep]
    cases hf : node.follower with
    | none => exact ⟨[id], by simp [BlockGraph.chainFrom], .cons hnode (hf ▸ .nil)⟩
    | some id' =>
      have hroom' : b.graph.size ≤ room + (id :: seen).length := by
        rw [List.length_cons]
        omega
      obtain ⟨ids, hids, follows⟩ := ih (trail.next h hnode hf) hroom'
      exact ⟨id :: ids, by rw [hids], .cons hnode (hf ▸ follows)⟩

end Trail

theorem FormsTree.chain_follows (h : b.FormsTree start) {id : String} {level : Nat}
    (hid : b.Reaches start ⟨.statement, id⟩ level) :
    ∃ ids, b.graph.chain (some id) = (ids, .done) ∧ b.graph.Follows (some id) ids := by
  obtain ⟨n, hn⟩ := hid.steps
  have trail : b.Trail start n [] id := ⟨hn, nofun, nofun, List.nodup_nil⟩
  exact trail.chainFrom_follows h (Nat.le_add_right _ _)

/-- The blocks of a chain are all on the level of the first. -/
theorem FormsTree.reaches_of_follows (h : b.FormsTree start) {id : String} {level : Nat} {ids : List String}
    (follows : b.graph.Follows (some id) ids) (hid : b.Reaches start ⟨.statement, id⟩ level) :
    ∀ x ∈ ids, b.Reaches start ⟨.statement, x⟩ level := by
  generalize hfirst : some id = first at follows
  induction follows generalizing id with
  | nil => cases hfirst
  | @cons id' node ids hnode follows ih =>
    obtain rfl := Option.some.inj hfirst
    refine List.forall_mem_cons.mpr ⟨hid, ?_⟩
    cases hf : node.follower with
    | none =>
      rw [hf] at follows
      cases follows
      exact nofun
    | some next => exact ih (hid.hop (h.next hid hnode hf)) hf.symm

end Builder
end BlockScript
