import BlockScript.Proofs.Build.Depth
import Mathlib.Data.List.Chain

/-!
What becomes of links that lead back. Only a chain looks for the blocks it has met, and it looks for its own: where
`next` leads back to a block of the same chain the chain ends, but where `next` or the input of a body leads back to a
block around the chain the block is built once more inside itself. So a body holds an instance of a block just if the
dictionary leads there and the instance fits under the nesting limit; the blocks around it make no difference.
-/
namespace BlockScript

/-! ### Ways into bodies -/

/-- Statements, the first in a body and each other in a body of the one before. -/
inductive Action.Way {ρ : Type} : List (Action ρ) → List (Action ρ) → Prop
  | nil {body : List (Action ρ)} : Way body []
  | cons {body way : List (Action ρ)} {a : Action ρ} {name : String} : a ∈ body → Way (a.bodyUnder name) way →
      Way body (a :: way)

/-- A statement has no bodies but those under its inputs. -/
theorem ActionKind.build_bodyUnder_or (kind : ActionKind) {p : Parts} {spec : BlockSpec} {a : Action Unit}
    (h : (kind.build p spec).outcome = .ok a) (name : String) :
    a.bodyUnder name = [] ∨ ∃ used ∈ (kind.signature spec.opcode).bodies, a.bodyUnder name = a.bodyUnder used := by
  cases kind
  case branch =>
    simp only [build] at h
    by_cases hcode : (spec.opcode == "control_if_else") = true
    · simp only [hcode, if_true, Build.outcome_bind_eq_ok, Build.outcome_pure, Except.ok.injEq] at h
      obtain ⟨e, -, c, -, t, -, rfl⟩ := h
      refine .inr ?_
      by_cases hname : name = "SUBSTACK2"
      · exact ⟨"SUBSTACK2", by simp [Signature.bodies, signature, hcode], by rw [hname]⟩
      · exact ⟨"SUBSTACK", by simp [Signature.bodies, signature, hcode], by simp [Action.bodyUnder, hname]⟩
    · simp only [hcode, if_false, Bool.false_eq_true, Build.outcome_bind_eq_ok, Build.outcome_pure, Except.ok.injEq] at h
      obtain ⟨e, rfl, c, -, t, -, rfl⟩ := h
      by_cases hname : name = "SUBSTACK2"
      · exact .inl (by simp [Action.bodyUnder, hname])
      · exact .inr ⟨"SUBSTACK", by simp [Signature.bodies, signature, hcode], by simp [Action.bodyUnder, hname]⟩
  case forever | repeatTimes | repeatUntil =>
    simp only [build, Build.outcome_bind_eq_ok, Build.outcome_pure, Except.ok.injEq] at h
    exact .inr ⟨"SUBSTACK", by simp [Signature.bodies, signature], by
      grind [Action.bodyUnder]⟩
  case stop =>
    simp only [build, Build.outcome_bind_eq_ok] at h
    obtain ⟨f, -, h⟩ := h
    split at h
    · cases h
      exact .inl rfl
    · cases h
  all_goals
    simp only [build, Build.outcome_bind_eq_ok, Build.outcome_pure, Except.ok.injEq] at h
    grind [Action.bodyUnder]

/-! ### Instances of blocks -/

namespace Builder

variable {b : Builder} {start : Option String} {id : String} {a : Action Unit} {node : BlockNode} {level : Nat}

/-- Where the body of a node under an input starts, if it has one there. -/
def bodyStart? (b : Builder) (node : BlockNode) (name : String) : Option String :=
  if name ∈ b.bodyNames node then node.blockUnder? name else none

/-- One block is in the chain of a body of another. -/
def Encloses (b : Builder) (outer inner : String) : Prop :=
  ∃ node name, b.graph.get? outer = some node ∧ inner ∈ (b.graph.chain (b.bodyStart? node name)).1

/-- Blocks, the first in the chain from a start and each other in the chain of a body of the one before. -/
def Leads (b : Builder) (start : Option String) (ids : List String) : Prop :=
  (∀ id ∈ ids.head?, id ∈ (b.graph.chain start).1) ∧ ids.IsChain b.Encloses

/-- A block inside so many bodies passes the checks of construction, and it fits under the nesting limit with the
operands and conditions that feed it. -/
def Fits (b : Builder) (level : Nat) (id : String) : Prop :=
  b.Sound ⟨.statement, id⟩ ∧ ∃ h, b.Unfolds ⟨.statement, id⟩ (h + 1) ∧ 2 * level + 1 + h ≤ maxBuildDepth

/-- Instances of blocks in the tree that is built from a start inside so many bodies, each but the first in a body of
the one before. -/
inductive Instances (b : Builder) : (level : Nat) → (start : Option String) → List (String × Action Unit) → Prop
  | nil {level : Nat} {start : Option String} : Instances b level start []
  | cons {level : Nat} {start : Option String} {id name : String} {node : BlockNode} {a : Action Unit}
      {path : List (String × Action Unit)} : id ∈ (b.graph.chain start).1 → b.graph.get? id = some node →
      b.keptAt (maxBuildDepth - 2 * level) id = some a → Instances b (level + 1) (b.bodyStart? node name) path →
      Instances b level start ((id, a) :: path)

/-- Each of these blocks passes the checks and fits where it stands, the first inside so many bodies. -/
def FitAll (b : Builder) (level : Nat) (ids : List String) : Prop :=
  ∀ inside id, ids[inside]? = some id → b.Fits (level + inside) id

/-- In what is built from a start these blocks have instances one inside the other, each but the first in a body of the
one before. -/
def Nests (b : Builder) (start : Option String) (ids : List String) : Prop :=
  ∃ path, b.Instances 0 start path ∧ path.map Prod.fst = ids

theorem chain_none (g : BlockGraph) : g.chain none = ([], .done) := by simp [BlockGraph.chain, BlockGraph.chainFrom]

theorem exists_node_of_mem_chain (h : id ∈ (b.graph.chain start).1) : ∃ node, b.graph.get? id = some node :=
  Option.isSome_iff_exists.mp ((b.graph.chain_meets start).present id h)

/-- A statement that is kept leaves room for its bodies, one level further in. -/
theorem room_of_keptAt (h : b.keptAt (maxBuildDepth - 2 * level) id = some a) :
    maxBuildDepth - 2 * level = maxBuildDepth - 2 * (level + 1) + 2 := by
  have kept : (b.keptAt (maxBuildDepth - 2 * level) id).isSome := h ▸ rfl
  obtain ⟨-, _, -, hle⟩ := keptAt_iff_unfolds.mp kept
  simp only [maxBuildDepth] at hle ⊢
  omega

/-- What is built of a body is built of the chain that starts there, one level further in. -/
theorem bodyUnder_of_mem (hnode : b.graph.get? id = some node) (h : b.keptAt (maxBuildDepth - 2 * level) id = some a)
    {name : String} (hname : name ∈ b.bodyNames node) :
    a.bodyUnder name =
      (b.graph.chain (b.bodyStart? node name)).1.filterMap (b.keptAt (maxBuildDepth - 2 * (level + 1))) := by
  rw [room_of_keptAt h] at h
  rw [bodyUnder_of_keptAt hnode h name hname, bodyStart?, if_pos hname]

theorem bodyUnder_or (hnode : b.graph.get? id = some node) {room : Nat} (h : b.keptAt room id = some a) (name : String) :
    a.bodyUnder name = [] ∨ ∃ used ∈ b.bodyNames node, a.bodyUnder name = a.bodyUnder used := by
  have ha := keptAt_eq_some.mp h
  simp only [statementAt, hnode, blockAt, actionAt] at ha
  simp only [bodyNames, Registries.signature?]
  cases hresolve : b.registries.actions.resolve? node.opcode with
  | none =>
    rw [hresolve] at ha
    cases ha
  | some entry =>
    rw [hresolve] at ha
    cases room with
    | zero => cases ha
    | succ room => exact entry.2.build_bodyUnder_or ha name

/-- The ways into the bodies of what is built are those that instances of blocks make. -/
theorem way_iff_instances {way : List (Action Unit)} :
    Action.Way ((b.graph.chain start).1.filterMap (b.keptAt (maxBuildDepth - 2 * level))) way ↔
      ∃ path, b.Instances level start path ∧ path.map Prod.snd = way := by
  constructor
  · intro h
    generalize hbody : (b.graph.chain start).1.filterMap (b.keptAt (maxBuildDepth - 2 * level)) = body at h
    induction h generalizing level start with
    | nil => exact ⟨[], .nil, rfl⟩
    | @cons body way a name ha hway ih =>
      obtain ⟨id, hid, hkept⟩ := List.mem_filterMap.mp (hbody ▸ ha)
      obtain ⟨node, hnode⟩ := exists_node_of_mem_chain hid
      rcases bodyUnder_or hnode hkept name with hnone | ⟨used, hused, hsame⟩
      · rw [hnone] at hway
        cases hway with
        | nil =>
          have hnil : b.Instances (level + 1) (b.bodyStart? node name) [] := .nil
          exact ⟨[(id, a)], .cons hid hnode hkept hnil, rfl⟩
        | cons hmem => cases hmem
      · obtain ⟨path, hpath, rfl⟩ := ih ((bodyUnder_of_mem hnode hkept hused).symm.trans hsame.symm)
        exact ⟨(id, a) :: path, .cons hid hnode hkept hpath, rfl⟩
  · rintro ⟨path, hpath, rfl⟩
    induction hpath with
    | nil => exact .nil
    | @cons level start id name node a path hid hnode hkept hpath ih =>
      have hway : Action.Way (a.bodyUnder name) (path.map Prod.snd) := by
        by_cases hname : name ∈ b.bodyNames node
        · rwa [bodyUnder_of_mem hnode hkept hname]
        · -- There is nothing under an input that holds no body.
          rw [bodyStart?, if_neg hname] at hpath
          cases hpath with
          | nil => exact .nil
          | cons hmem =>
            rw [chain_none] at hmem
            cases hmem
      exact .cons (List.mem_filterMap.mpr ⟨id, hid, hkept⟩) hway

/-- There are instances of blocks one inside the other just if the dictionary leads that way and each fits. -/
theorem exists_instances_iff {ids : List String} :
    (∃ path, b.Instances level start path ∧ path.map Prod.fst = ids) ↔ b.Leads start ids ∧ b.FitAll level ids := by
  constructor
  · rintro ⟨path, hpath, rfl⟩
    induction hpath with
    | nil => exact ⟨⟨nofun, .nil⟩, nofun⟩
    | @cons level start id name node a path hid hnode hkept hpath ih =>
      obtain ⟨⟨hhead, hchain⟩, hfits⟩ := ih
      refine ⟨⟨fun _ h => ?_, List.isChain_cons.mpr ⟨fun _ h => ⟨node, name, hnode, hhead _ h⟩, hchain⟩⟩, ?_⟩
      · cases h
        exact hid
      · intro inside id' h
        cases inside with
        | zero =>
          cases h
          exact keptAt_iff_unfolds.mp (hkept ▸ rfl)
        | succ inside =>
          rw [← Nat.add_assoc, Nat.add_right_comm]
          exact hfits inside id' h
  · rintro ⟨⟨hhead, hchain⟩, hfits⟩
    induction ids generalizing level start with
    | nil => exact ⟨[], .nil, rfl⟩
    | cons id ids ih =>
      have hid : id ∈ (b.graph.chain start).1 := hhead id rfl
      obtain ⟨hnext, hchain⟩ := List.isChain_cons.mp hchain
      obtain ⟨node, hnode⟩ := exists_node_of_mem_chain hid
      obtain ⟨a, hkept⟩ := Option.isSome_iff_exists.mp (keptAt_iff_unfolds.mpr (hfits 0 id rfl))
      have hname : ∃ name, ∀ inner ∈ ids.head?, inner ∈ (b.graph.chain (b.bodyStart? node name)).1 := by
        cases ids with
        | nil => exact ⟨"", nofun⟩
        | cons inner ids =>
          obtain ⟨node', name, hnode', hinner⟩ := hnext inner rfl
          cases hnode.symm.trans hnode'
          refine ⟨name, fun _ h => ?_⟩
          cases h
          exact hinner
      obtain ⟨name, hname⟩ := hname
      have hinner : b.FitAll (level + 1) ids := by
        intro inside id' h
        rw [Nat.add_right_comm]
        exact hfits (inside + 1) id' h
      obtain ⟨path, hpath, hids⟩ := ih hinner hname hchain
      exact ⟨(id, a) :: path, .cons hid hnode hkept hpath, congrArg (id :: ·) hids⟩

/-- Two levels for each instance: there is no room for more than half as many as the limit. -/
theorem Instances.length_le {path : List (String × Action Unit)} (h : b.Instances 0 start path) :
    2 * path.length ≤ maxBuildDepth := by
  obtain ⟨-, hfits⟩ := exists_instances_iff.mp ⟨path, h, rfl⟩
  rcases List.eq_nil_or_concat path with rfl | ⟨init, last, rfl⟩
  · exact Nat.zero_le _
  · obtain ⟨-, h, -, hle⟩ := hfits init.length last.1 (by simp)
    simp only [maxBuildDepth, List.concat_eq_append, List.length_append, List.length_singleton] at hle ⊢
    omega

/-! ### Ways back -/

/-- Blocks that do not enclose themselves stand once on the way to a block. -/
theorem Leads.nodup {ids : List String} (h : b.Leads start ids) (acyclic : ∀ id ∈ ids, ¬Relation.TransGen b.Encloses id id) :
    ids.Nodup := by
  have around : ids.Pairwise (Relation.TransGen b.Encloses) :=
    List.isChain_iff_pairwise.mp (h.2.imp fun _ _ => Relation.TransGen.single)
  refine around.imp_of_mem fun hid _ hencloses heq => ?_
  subst heq
  exact acyclic _ hid hencloses

/-- Where a way leads on from a block does not depend on how it came there. -/
theorem Leads.onward {outer inner inner' : List String} (h : b.Leads start (outer ++ id :: inner))
    (hinner : (id :: inner').IsChain b.Encloses) : b.Leads start (outer ++ id :: inner') := by
  obtain ⟨hhead, hchain⟩ := h
  obtain ⟨houter, -⟩ := List.isChain_split.mp hchain
  refine ⟨fun first hfirst => hhead first ?_, List.isChain_split.mpr ⟨houter, hinner⟩⟩
  cases outer <;> exact hfirst

/-- A block that is inside itself is so any number of times. -/
theorem Leads.rounds {outer inner : List String} (h : b.Leads start (outer ++ id :: (inner ++ [id]))) (rounds : Nat) :
    b.Leads start (outer ++ id :: (List.replicate rounds (inner ++ [id])).flatten) := by
  obtain ⟨-, hloop⟩ := List.isChain_split.mp h.2
  refine h.onward ?_
  induction rounds with
  | zero => exact .singleton id
  | succ rounds ih =>
    rw [List.replicate_succ, List.flatten_cons, List.append_assoc, List.singleton_append]
    exact List.isChain_cons_split.mpr ⟨hloop, ih⟩

/-- A block that encloses itself stands twice on a way that leads to it. -/
theorem Leads.around {ids : List String} (h : b.Leads start ids) (hid : id ∈ ids)
    (hcycle : Relation.TransGen b.Encloses id id) : ∃ outer inner, b.Leads start (outer ++ id :: (inner ++ [id])) := by
  obtain ⟨outer, rest, rfl⟩ := List.mem_iff_append.mp hid
  obtain ⟨last, hlast, hback⟩ := Relation.TransGen.tail'_iff.mp hcycle
  obtain ⟨inner, hinner, rfl⟩ := List.exists_isChain_cons_of_relationReflTransGen hlast
  refine ⟨outer, inner, h.onward ?_⟩
  rw [← List.cons_append]
  refine List.isChain_append.mpr ⟨hinner, .singleton id, fun x hx y hy => ?_⟩
  rw [List.getLast?_eq_some_getLast (List.cons_ne_nil id inner)] at hx
  cases hx
  cases hy
  exact hback

/-! ### Blocks inside themselves -/

theorem nests_iff {ids : List String} : b.Nests start ids ↔ b.Leads start ids ∧ b.FitAll 0 ids := exists_instances_iff

theorem Leads.init {init rest : List String} (h : b.Leads start (init ++ rest)) : b.Leads start init := by
  refine ⟨fun first hfirst => h.1 first ?_, h.2.left_of_append⟩
  rw [List.head?_append, hfirst]
  rfl

theorem FitAll.init {init rest : List String} (h : b.FitAll level (init ++ rest)) : b.FitAll level init := by
  intro inside id hid
  obtain ⟨hlt, -⟩ := List.getElem?_eq_some_iff.mp hid
  exact h inside id ((List.getElem?_append_left hlt).trans hid)

theorem Nests.init {init rest : List String} (h : b.Nests start (init ++ rest)) : b.Nests start init := by
  obtain ⟨leads, fits⟩ := nests_iff.mp h
  exact nests_iff.mpr ⟨leads.init, fits.init⟩

/-- Where no block has an instance inside itself, blocks that have instances one inside the other differ. -/
theorem Nests.nodup {ids : List String} (h : b.Nests start ids)
    (apart : ∀ outer id inner, ¬b.Nests start (outer ++ id :: (inner ++ [id]))) : ids.Nodup := by
  induction ids using List.reverseRecOn with
  | nil => exact .nil
  | append_singleton init last ih =>
    have once : last ∉ init := by
      intro hlast
      obtain ⟨outer, inner, rfl⟩ := List.mem_iff_append.mp hlast
      rw [List.append_assoc, List.cons_append] at h
      exact apart outer last inner h
    exact List.nodup_append.mpr ⟨ih h.init, List.nodup_singleton last, fun x hx y hy => by
      rintro rfl
      exact once (List.mem_singleton.mp hy ▸ hx)⟩

theorem not_nodup_of_twice (outer : List String) (id : String) (inner : List String) :
    ¬(outer ++ id :: (inner ++ [id])).Nodup := fun nodup =>
  (List.nodup_cons.mp (List.nodup_append.mp nodup).2.1).1 (List.mem_append_right _ (List.mem_singleton_self id))

/-- Links that lead back end a chain just if they lead back to the chain itself. Following `next` meets no id twice in
a chain, whatever it is the chain of. The blocks around a chain do not end it: the ways into the bodies of what is built
are made of the instances of blocks, and there are instances one inside the other just if the dictionary leads that way
and each block passes its checks and fits under the nesting limit. So where blocks pass, the limit is what ends such a
way; it leaves room for half as many instances as there are levels. The ways of the dictionary have no id twice exactly
if no block on them encloses itself. What is built has no block inside itself exactly if on each way that comes back to
a block some block does not pass or does not fit; where they do, it goes round as often as they do. -/
theorem back_edges_unrolled (b : Builder) (start : Option String) :
    (∀ first, b.graph.Meets [] first (b.graph.chain first).1 (b.graph.chain first).2) ∧
    (∀ way, Action.Way (b.substack start).1 way ↔ ∃ path, b.Instances 0 start path ∧ path.map Prod.snd = way) ∧
    (∀ ids, b.Nests start ids ↔ b.Leads start ids ∧ b.FitAll 0 ids) ∧
    (∀ path, b.Instances 0 start path → 2 * path.length ≤ maxBuildDepth) ∧
    ((∀ ids, b.Leads start ids → ids.Nodup) ↔
      ∀ ids, b.Leads start ids → ∀ id ∈ ids, ¬Relation.TransGen b.Encloses id id) ∧
    ((∀ ids, b.Nests start ids → ids.Nodup) ↔
      ∀ outer id inner, b.Leads start (outer ++ id :: (inner ++ [id])) → ¬b.FitAll 0 (outer ++ id :: (inner ++ [id]))) ∧
    ∀ outer id inner, b.Leads start (outer ++ id :: (inner ++ [id])) → ∀ rounds,
      b.Leads start (outer ++ id :: (List.replicate rounds (inner ++ [id])).flatten) ∧
      (b.Nests start (outer ++ id :: (List.replicate rounds (inner ++ [id])).flatten) ↔
        b.FitAll 0 (outer ++ id :: (List.replicate rounds (inner ++ [id])).flatten)) := by
  refine ⟨b.graph.chain_meets, fun way => ?_, fun ids => nests_iff, fun path h => h.length_le, ?_, ?_, ?_⟩
  · rw [substack, substackAt_eq_kept]
    exact @way_iff_instances b start 0 way
  · constructor
    · intro nodup ids h id hid hcycle
      obtain ⟨outer, inner, htwice⟩ := h.around hid hcycle
      exact not_nodup_of_twice outer id inner (nodup _ htwice)
    · exact fun acyclic ids h => h.nodup (acyclic ids h)
  · constructor
    · intro nodup outer id inner leads fits
      exact not_nodup_of_twice outer id inner (nodup _ (nests_iff.mpr ⟨leads, fits⟩))
    · intro unfit ids h
      refine h.nodup fun outer id inner htwice => ?_
      obtain ⟨leads, fits⟩ := nests_iff.mp htwice
      exact unfit outer id inner leads fits
  · intro outer id inner h rounds
    have leads := h.rounds rounds
    exact ⟨leads, fun nests => (nests_iff.mp nests).2, fun fits => nests_iff.mpr ⟨leads, fits⟩⟩

/-- A loop whose body leads back to the loop. -/
def rewound : BlockGraph where
  nodes := [
    ("r", { opcode := "control_repeat", next := none, parent := none, fields := [], shadow := false, topLevel := true,
            inputs := [("SUBSTACK", .block "c")] }),
    ("c", { opcode := "sound_cleareffects", next := some "r", parent := some "r", fields := [], shadow := false,
            topLevel := false, inputs := [] })]

theorem rewound_leads : (ofGraph rewound).Leads (some "r") ["r", "r"] := by
  refine ⟨fun id hid => ?_, List.isChain_pair.mpr ⟨_, "SUBSTACK", rfl, by decide +kernel⟩⟩
  cases hid
  decide +kernel

theorem rewound_fits {level : Nat} : (ofGraph rewound).Fits level "r" ↔ level ≤ 127 := by
  have hoperands : (ofGraph rewound).operands ⟨.statement, "r"⟩ = [] := by decide +kernel
  have hsound : (ofGraph rewound).Sound ⟨.statement, "r"⟩ := sound_iff.mpr ⟨by decide +kernel, by rw [hoperands]; nofun⟩
  have hunfolds : (ofGraph rewound).Unfolds ⟨.statement, "r"⟩ (0 + 1) := by
    have h := @Unfolds.node (ofGraph rewound) ⟨.statement, "r"⟩ (fun _ => 0) (by rw [hoperands]; nofun)
    rwa [hoperands] at h
  simp only [Fits, maxBuildDepth]
  constructor
  · rintro ⟨-, h, -, hle⟩
    omega
  · intro hlevel
    exact ⟨hsound, 0, hunfolds, by omega⟩

/-- The loop is built inside itself. -/
theorem rewound_inside_itself : ∃ path, (ofGraph rewound).Instances 0 (some "r") path ∧
    Action.Way ((ofGraph rewound).substack (some "r")).1 (path.map Prod.snd) ∧ ¬(path.map Prod.fst).Nodup := by
  have hfits : (ofGraph rewound).FitAll 0 ["r", "r"] := by
    intro inside id h
    obtain ⟨hlt, rfl⟩ := List.getElem?_eq_some_iff.mp h
    have hid : ∀ (n : Nat) (hn : n < ["r", "r"].length), ["r", "r"][n] = "r" := by decide
    rw [hid]
    simp only [List.length_cons, List.length_nil] at hlt
    exact rewound_fits.mpr (by omega)
  obtain ⟨path, hpath, hids⟩ := exists_instances_iff.mpr ⟨rewound_leads, hfits⟩
  refine ⟨path, hpath, ?_, by rw [hids]; decide⟩
  rw [substack, substackAt_eq_kept]
  exact (@way_iff_instances _ _ 0 _).mpr ⟨path, hpath, rfl⟩

/-- The loop stands inside itself 127 times and no more. -/
theorem rewound_unrolled : (ofGraph rewound).Leads (some "r") ([] ++ "r" :: ([] ++ ["r"])) ∧
    ∀ rounds, (ofGraph rewound).Nests (some "r") (List.replicate (rounds + 1) "r") ↔ rounds ≤ 127 := by
  obtain ⟨-, -, -, -, -, -, goesRound⟩ := back_edges_unrolled (ofGraph rewound) (some "r")
  refine ⟨rewound_leads, fun rounds => ?_⟩
  obtain ⟨-, nests⟩ := goesRound [] "r" [] rewound_leads rounds
  rw [List.nil_append, List.nil_append, List.flatten_replicate_singleton, ← List.replicate_succ] at nests
  rw [nests]
  constructor
  · intro fits
    have last := fits rounds "r" (List.getElem?_replicate.trans (if_pos (Nat.lt_succ_self rounds)))
    have hle := rewound_fits.mp last
    omega
  · intro hle level id hid
    rw [List.getElem?_replicate] at hid
    split at hid
    · cases hid
      exact rewound_fits.mpr (by omega)
    · cases hid

end Builder
end BlockScript
