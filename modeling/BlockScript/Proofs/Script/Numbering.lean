import BlockScript.Proofs.Script.Acting

/-!
Relay numbers. Installing a tree numbers its taps in order, without gaps, from the number given, so no
two reporters of a tree share a relay.
-/
namespace BlockScript

/-- The taps carry the numbers from `n` up to `m`, in order. -/
def Numbered (taps : List (Nat × Source)) (n m : Nat) : Prop := n ≤ m ∧ taps.map (·.1) = List.range' n (m - n)

namespace Numbered

variable {a b : List (Nat × Source)} {n m k : Nat}

theorem nil (n : Nat) : Numbered [] n n := ⟨Nat.le_refl n, by simp⟩

theorem append (h : Numbered a n m) (h' : Numbered b m k) : Numbered (a ++ b) n k := by
  obtain ⟨hle, hmap⟩ := h
  obtain ⟨hle', hmap'⟩ := h'
  refine ⟨Nat.le_trans hle hle', ?_⟩
  have hsum : k - n = (m - n) + (k - m) := by omega
  have hm : m = n + (m - n) := by omega
  rw [List.map_append, hmap, hmap', hsum, ← List.range'_append_1, ← hm]

theorem cons (s : Source) (h : Numbered a (n + 1) m) : Numbered ((n, s) :: a) n m :=
  append (a := [(n, s)]) ⟨Nat.le_succ n, by simp⟩ h

theorem mem_iff (h : Numbered a n m) {r : Nat} : r ∈ a.map (·.1) ↔ n ≤ r ∧ r < m := by
  obtain ⟨hle, hmap⟩ := h
  rw [hmap, List.mem_range'_1]
  omega

theorem nodup (h : Numbered a n m) : (a.map (·.1)).Nodup := by
  rw [h.2]
  exact List.nodup_range'

/-- Each number is looked up to its own source. -/
theorem lookup_eq (h : Numbered a n m) {x : Nat × Source} (hx : x ∈ a) : a.lookup x.1 = some x.2 := by
  have hnodup := h.nodup
  clear h
  induction a with
  | nil => cases hx
  | cons y a ih =>
    obtain ⟨hy, hnodup⟩ := List.nodup_cons.mp hnodup
    rcases List.mem_cons.mp hx with rfl | hx
    · exact List.lookup_cons_self
    · have hne : (x.1 == y.1) = false := beq_false_of_ne fun he => hy (List.mem_map.mpr ⟨x, hx, he⟩)
      rw [List.lookup_cons, hne]
      exact ih hx hnodup

end Numbered

/-! ### Reporters -/

mutual
theorem Operand.numbered : (o : Operand Unit) → (n : Nat) → Numbered (o.install n).1.taps n (o.install n).2
  | .constant _, n => .nil n
  | .soundMenu _, n => .nil n
  | .source s _, n => .cons s (.nil (n + 1))
  | .search _ list _ argument, n => .cons (.listContents list) (argument.numbered (n + 1))
  | .unary _ a, n => a.numbered n
  | .binary _ a b, n => (a.numbered n).append (b.numbered _)
  | .random a b, n => (a.numbered n).append (b.numbered _)
  | .truth p, n => p.numbered n
theorem Predicate.numbered : (p : Predicate Unit) → (n : Nat) → Numbered (p.install n).1.taps n (p.install n).2
  | .absent, n => .nil n
  | .compare _ a b, n => (a.numbered n).append (b.numbered _)
  | .logic _ _ a b, n => (a.numbered n).append (b.numbered _)
  | .not p, n => p.numbered n
  | .listHas list _ item, n => .cons (.listContents list) (item.numbered (n + 1))
end

theorem Reporter.numbered (r : Reporter Unit) (n : Nat) : Numbered (r.install n).1.taps n (r.install n).2 := by
  cases r with
  | value o => exact o.numbered n
  | predicate p => exact p.numbered n

/-! ### Statements -/

theorem Step.numbered (step : Step Unit) (n : Nat) : Numbered (step.install n).1.taps n (step.install n).2 := by
  cases step with
  | goTo x y => exact (x.numbered n).append (y.numbered _)
  | setX x => exact x.numbered n
  | setY y => exact y.numbered n
  | changeX dx => exact dx.numbered n
  | changeY dy => exact dy.numbered n
  | forward steps => exact steps.numbered n

theorem Command.numbered (c : Command Unit) (n : Nat) : Numbered (c.install n).1.taps n (c.install n).2 := by
  cases c with
  | setVariable relative opcode ref value => exact value.numbered n
  | addToList list item => exact item.numbered n
  | deleteOfList list index => exact index.numbered n
  | deleteAllOfList list => exact .nil n
  | insertAtList list item index => exact (item.numbered n).append (index.numbered _)
  | replaceItemOfList list index item => exact (index.numbered n).append (item.numbered _)
  | move step opcode => exact step.numbered n
  | turn kind opcode degrees => exact degrees.numbered n
  | adjust setting relative opcode amount => exact amount.numbered n
  | clearEffects => exact .nil n
  | play sound => exact sound.numbered n
  | stop option => exact .nil n

mutual
theorem Action.numbered : (a : Action Unit) → (n : Nat) → Numbered (a.install n).1.taps n (a.install n).2
  | .command c, n => c.numbered n
  | .playUntilDone sound, n => sound.numbered n
  | .wait seconds, n => seconds.numbered n
  | .waitUntil condition, n => condition.numbered n
  | .glide seconds x y, n => (seconds.numbered n).append ((x.numbered _).append (y.numbered _))
  | .branch _ condition thenBody elseBody, n =>
    (condition.numbered n).append ((Action.numberedAll thenBody _).append (Action.numberedAll elseBody _))
  | .repeatTimes times body, n => (times.numbered n).append (Action.numberedAll body _)
  | .forever body, n => Action.numberedAll body n
  | .repeatUntil condition body, n => (condition.numbered n).append (Action.numberedAll body _)
theorem Action.numberedAll : (body : List (Action Unit)) → (n : Nat) →
    Numbered (Action.bodyTaps (Action.installAll body n).1) n (Action.installAll body n).2
  | [], n => .nil n
  | a :: rest, n => (a.numbered n).append (Action.numberedAll rest _)
end

end BlockScript
