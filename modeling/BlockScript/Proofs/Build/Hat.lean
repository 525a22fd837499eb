import BlockScript.Proofs.Build.Chain

/-!
Where a script starts. The body of a script is the chain behind its hat, and a hat is no statement, so the chain that
starts at the hat itself leaves it out and should hold the same blocks. It does unless the hat has an empty next id:
everywhere else that ends the chain, but the script goes to the block that is stored under the empty id.
-/
namespace BlockScript

/-! ### Going round by the start -/

namespace BlockGraph

variable {g : BlockGraph} {hat : String} {node : BlockNode} {ids : List String} {ending : ChainEnd}

theorem linked_succ (start : Option String) (n : Nat) :
    g.linked start (n + 1) = (g.linked start n).bind fun id => (g.get? id).bind BlockNode.follower := by
  induction n generalizing start with
  | zero => rfl
  | succ n ih => exact ih _

/-- A walk that does not come back to its start meets the same behind it, whether or not the start was seen. -/
theorem Meets.of_seen (h : g.Meets [hat] node.follower ids ending) (hend : ending ≠ .loops hat) :
    g.Meets [] node.follower ids ending where
  order := h.order
  present := h.present
  fresh := nofun
  nodup := h.nodup
  ends := by
    have ends := h.ends
    cases ending with
    | done => exact ends
    | missing id => exact ⟨ends.1, fun hid => ends.2.1 (List.mem_append_left _ (by simpa using hid)), ends.2.2⟩
    | loops id =>
      refine ⟨ends.1, ?_⟩
      rcases List.mem_append.mp ends.2 with hid | hid
      · exact List.mem_append_left _ hid
      · exact absurd (congrArg ChainEnd.loops (List.mem_singleton.mp hid)) hend

/-- A walk that comes back to its start meets the start last, if it sets out behind it. -/
theorem Meets.of_loop (hnode : g.get? hat = some node) {first : String} (hfirst : node.follower = some first)
    (h : g.Meets [hat] node.follower ids (.loops hat)) : g.Meets [] (some first) (ids ++ [hat]) (.loops first) := by
  have back : g.linked (some first) ids.length = some hat := hfirst ▸ h.ends.1
  have order : ∀ n < (ids ++ [hat]).length, (ids ++ [hat])[n]? = g.linked (some first) n := by
    intro n hn
    rw [List.length_append, List.length_singleton] at hn
    rcases Nat.lt_succ_iff_lt_or_eq.mp hn with hlt | rfl
    · rw [List.getElem?_append_left hlt, ← hfirst]
      exact h.order n hlt
    · rw [List.getElem?_concat_length, back]
  refine ⟨order, ?_, nofun, ?_, ?_⟩
  · intro id hid
    rcases List.mem_append.mp hid with hid | hid
    · exact h.present id hid
    · rw [List.mem_singleton.mp hid, hnode]
      rfl
  · refine List.nodup_append.mpr ⟨h.nodup, List.nodup_singleton hat, fun id hid id' hid' heq => ?_⟩
    exact h.fresh id hid (heq ▸ hid')
  · rw [List.length_append, List.length_singleton, List.append_nil]
    refine ⟨?_, List.mem_of_getElem? (order 0 (by simp))⟩
    rw [linked_succ, back, Option.bind_some, hnode, Option.bind_some, hfirst]

/-- What following `next` meets behind a start, told by what it meets from the start. A walk that comes back to the start
meets the start last, and it ends where it set out. -/
theorem chain_behind (hnode : g.get? hat = some node) : ∃ ids ending, g.chain (some hat) = (hat :: ids, ending) ∧
    (ending ≠ .loops hat → g.chain node.follower = (ids, ending)) ∧
    (ending = .loops hat → ∃ first, node.follower = some first ∧ g.chain node.follower = (ids ++ [hat], .loops first)) := by
  have eq_chain {start : Option String} {ids : List String} {ending : ChainEnd} (h : g.Meets [] start ids ending) :
      g.chain start = (ids, ending) := by
    obtain ⟨hids, hending⟩ := h.unique (g.chain_meets start)
    exact Prod.ext hids hending
  obtain ⟨links, -, hlinks⟩ := g.suffices_size.link (List.not_mem_nil (a := hat)) hnode
  have rest : g.Meets [hat] node.follower _ _ := chainFrom_meets hlinks
  refine ⟨_, _, eq_chain (rest.cons List.not_mem_nil hnode), fun hend => eq_chain (rest.of_seen hend), fun hend => ?_⟩
  rw [hend] at rest
  cases hfirst : node.follower with
  | none =>
    have ends : g.Ends [hat] node.follower .done := hfirst
    rw [rest.nil_of_ends ends, hfirst] at rest
    cases rest.ends.1
  | some first =>
    refine ⟨first, rfl, ?_⟩
    have round := rest.of_loop hnode hfirst
    rw [hfirst] at round
    exact eq_chain round

end BlockGraph

/-! ### The hat -/

namespace Builder

open BlockGraph

variable {b : Builder} {hat : String} {node : BlockNode}

/-- A block of no kind is never kept. -/
theorem keptAt_of_unknown (hnode : b.graph.get? hat = some node)
    (hunknown : b.registries.actions.resolve? node.opcode = none) (room : Nat) : b.keptAt room hat = none := by
  simp only [keptAt, statementAt, hnode, blockAt, actionAt, hunknown]
  rfl

theorem follower_eq_next (hnext : node.next ≠ some "") : node.follower = node.next := by
  unfold BlockNode.follower
  cases hid : node.next with
  | none => rfl
  | some id => simp_all

/-- Behind a hat that does not have an empty next id the script and the chain from the hat hold the same blocks. -/
theorem script_eq_of_next_ne (hnode : b.graph.get? hat = some node)
    (hunknown : b.registries.actions.resolve? node.opcode = none) (hnext : node.next ≠ some "") :
    (b.script hat).1 = (b.substack (some hat)).1 := by
  have skipped := keptAt_of_unknown hnode hunknown maxBuildDepth
  obtain ⟨ids, ending, hchain, hstraight, hround⟩ := chain_behind hnode
  simp only [script, hnode, substack, substackAt_eq_kept, hchain, ← follower_eq_next hnext, List.filterMap_cons, skipped]
  by_cases hend : ending = .loops hat
  · obtain ⟨first, -, hbehind⟩ := hround hend
    simp [hbehind, skipped]
  · rw [hstraight hend]

/-- The chain from a hat that has an empty next id is the hat alone. -/
theorem substack_hat_of_blank (hnode : b.graph.get? hat = some node)
    (hunknown : b.registries.actions.resolve? node.opcode = none) (hnext : node.next = some "") :
    (b.substack (some hat)).1 = [] := by
  have meets : b.graph.Meets [] (some hat) [hat] .done :=
    .cons List.not_mem_nil hnode (.nil (by simp [Ends, BlockNode.follower, hnext]))
  obtain ⟨hids, -⟩ := meets.unique (b.graph.chain_meets (some hat))
  rw [substack, substackAt_eq_kept, hids]
  simp [keptAt_of_unknown hnode hunknown]

/-- When the script of a hat holds the blocks of the chain that starts at the hat. The hat itself is no block, so what is
left are the blocks behind it. If its next id is not empty the two agree whatever it is: they meet the same ids behind
the hat and end for the same reason, except that a chain which leads back to the hat is followed once round and left
where it set out. An empty next id ends the chain from the hat, but the script is the chain from the empty id; so they
agree just if nothing is built from there. -/
theorem script_eq_substack_iff (hnode : b.graph.get? hat = some node)
    (hunknown : b.registries.actions.resolve? node.opcode = none) :
    ((b.script hat).1 = (b.substack (some hat)).1 ↔ (node.next = some "" → (b.substack (some "")).1 = [])) ∧
    (node.next = some "" → b.script hat = b.substack (some "") ∧ (b.substack (some hat)).1 = []) ∧
    (node.next ≠ some "" → ∃ ids ending, b.graph.chain (some hat) = (hat :: ids, ending) ∧
      (ending ≠ .loops hat ∧ b.graph.chain node.next = (ids, ending) ∨
        ending = .loops hat ∧ ∃ first, node.next = some first ∧ b.graph.chain node.next = (ids ++ [hat], .loops first))) := by
  have blank (hnext : node.next = some "") : b.script hat = b.substack (some "") := by simp only [script, hnode, hnext]
  refine ⟨?_, fun hnext => ⟨blank hnext, substack_hat_of_blank hnode hunknown hnext⟩, fun hnext => ?_⟩
  · by_cases hnext : node.next = some ""
    · rw [blank hnext, substack_hat_of_blank hnode hunknown hnext]
      exact ⟨fun h _ => h, fun h => h hnext⟩
    · exact iff_of_true (script_eq_of_next_ne hnode hunknown hnext) fun h => absurd h hnext
  · obtain ⟨ids, ending, hchain, hstraight, hround⟩ := chain_behind hnode
    rw [follower_eq_next hnext] at hstraight hround
    refine ⟨ids, ending, hchain, ?_⟩
    by_cases hend : ending = .loops hat
    · exact .inr ⟨hend, hround hend⟩
    · exact .inl ⟨hend, hstraight hend⟩

/-- A hat with a block behind it that leads back to the hat. -/
def roundabout : BlockGraph where
  nodes := [
    ("hat", { opcode := "event_whenflagclicked", next := some "a", parent := none, fields := [], shadow := false,
              topLevel := true, inputs := [] }),
    ("a", { opcode := "sound_cleareffects", next := some "hat", parent := some "hat", fields := [], shadow := false,
            topLevel := false, inputs := [] })]

theorem roundabout_script : (ofGraph roundabout).registries.actions.resolve? "event_whenflagclicked" = none ∧
    roundabout.chain (some "hat") = (["hat", "a"], .loops "hat") ∧
    roundabout.chain (some "a") = (["a", "hat"], .loops "a") ∧
    ((ofGraph roundabout).script "hat").1 = ((ofGraph roundabout).substack (some "hat")).1 := by
  have unknown : (ofGraph roundabout).registries.actions.resolve? "event_whenflagclicked" = none := by decide +kernel
  obtain ⟨agree, -, -⟩ := @script_eq_substack_iff (ofGraph roundabout) "hat" _ rfl unknown
  exact ⟨unknown, by decide +kernel, by decide +kernel, agree.mpr fun hnext => absurd hnext (by decide)⟩

/-- A hat with an empty next id, and a block under that id. -/
def anonymous : BlockGraph where
  nodes := [
    ("hat", { opcode := "event_whenflagclicked", next := some "", parent := none, fields := [], shadow := false,
              topLevel := true, inputs := [] }),
    ("", { opcode := "sound_cleareffects", next := none, parent := some "hat", fields := [], shadow := false,
           topLevel := false, inputs := [] })]

theorem anonymous_script_differs : ((ofGraph anonymous).script "hat").1.map Action.opcode = ["sound_cleareffects"] ∧
    ((ofGraph anonymous).substack (some "hat")).1.map Action.opcode = [] := by decide +kernel

end Builder
end BlockScript
