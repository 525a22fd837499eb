import BlockScript.Json.Decode
import Mathlib.Data.List.Nodup

/-!
Members of JSON objects. Of the members with one key the last counts. Which one that is depends only on the members with
this key and their order, not on where others stand between them.
-/
namespace BlockScript
namespace Json

section
variable {α : Type} {members : List (String × α)} {key : String} {a : α}

/-- A member counts for its key: no later one has the key. -/
def Last (members : List (String × α)) (key : String) (a : α) : Prop :=
  ∃ before after, members = before ++ (key, a) :: after ∧ ∀ m ∈ after, m.1 ≠ key

theorem last_nil : ¬Last [] key a := by
  rintro ⟨before, after, h, -⟩
  simp at h

theorem last_cons_iff {m : String × α} : Last (m :: members) key a ↔
    Last members key a ∨ m = (key, a) ∧ ∀ x ∈ members, x.1 ≠ key := by
  constructor
  · rintro ⟨before, after, h, hafter⟩
    cases before with
    | nil =>
      cases h
      exact .inr ⟨rfl, hafter⟩
    | cons first before =>
      cases h
      exact .inl ⟨before, after, rfl, hafter⟩
  · rintro (⟨before, after, rfl, hafter⟩ | ⟨rfl, hafter⟩)
    · exact ⟨m :: before, after, rfl, hafter⟩
    · exact ⟨[], members, rfl, hafter⟩

theorem last_singleton_iff {b : α} : Last [(key, b)] key a ↔ a = b := by
  simp [last_cons_iff, last_nil, eq_comm]

theorem Last.mem (h : Last members key a) : (key, a) ∈ members := by
  obtain ⟨before, after, rfl, -⟩ := h
  simp

theorem last_iff_filter : Last members key a ↔ Last (members.filter (·.1 == key)) key a := by
  induction members with
  | nil => rfl
  | cons m rest ih =>
    have hother : (∀ x ∈ rest.filter (·.1 == key), x.1 ≠ key) ↔ ∀ x ∈ rest, x.1 ≠ key := by
      simp only [List.mem_filter, beq_iff_eq, and_imp]
      exact forall₂_congr fun x _ => ⟨fun h hx => h hx hx, fun h hx => absurd hx h⟩
    by_cases hm : m.1 = key
    · rw [List.filter_cons_of_pos (by simpa using hm), last_cons_iff, last_cons_iff, ih, hother]
    · have hne : m ≠ (key, a) := by
        rintro rfl
        exact hm rfl
      rw [List.filter_cons_of_neg (by simpa using hm), last_cons_iff, ih]
      simp [hne]

theorem last_congr {members' : List (String × α)} (h : members'.filter (·.1 == key) = members.filter (·.1 == key)) :
    Last members' key a ↔ Last members key a := by
  rw [last_iff_filter, h, ← last_iff_filter]

theorem Last.unique {b : α} (h : Last members key a) (h' : Last members key b) : b = a := by
  induction members with
  | nil => exact absurd h last_nil
  | cons m rest ih =>
    rcases last_cons_iff.mp h with hrest | ⟨rfl, hnone⟩
    · rcases last_cons_iff.mp h' with hrest' | ⟨rfl, hnone⟩
      · exact ih hrest hrest'
      · exact absurd rfl (hnone _ hrest.mem)
    · rcases last_cons_iff.mp h' with hrest' | ⟨heq, -⟩
      · exact absurd rfl (hnone _ hrest'.mem)
      · exact (congrArg Prod.snd heq).symm

/-! ### Members that are kept -/

theorem mem_lastMembers_iff : (key, a) ∈ lastMembers members ↔ Last members key a := by
  induction members with
  | nil => exact iff_of_false (by simp [lastMembers]) last_nil
  | cons m rest ih =>
    rw [last_cons_iff]
    unfold lastMembers
    split
    · rename_i hany
      rw [ih]
      simp only [List.any_eq_true, beq_iff_eq] at hany
      obtain ⟨x, hx, hkey⟩ := hany
      refine ⟨.inl, ?_⟩
      rintro (h | ⟨rfl, hnone⟩)
      · exact h
      · exact absurd hkey (hnone x hx)
    · rename_i hany
      simp only [List.any_eq_true, beq_iff_eq, not_exists, not_and] at hany
      rw [List.mem_cons, ih]
      constructor
      · rintro (rfl | h)
        · exact .inr ⟨rfl, hany⟩
        · exact .inl h
      · rintro (h | ⟨rfl, -⟩)
        · exact .inr h
        · exact .inl rfl

theorem nodup_lastMembers (members : List (String × α)) : ((lastMembers members).map (·.1)).Nodup := by
  induction members with
  | nil => exact List.nodup_nil
  | cons m rest ih =>
    unfold lastMembers
    split
    · exact ih
    · rename_i hany
      simp only [List.any_eq_true, beq_iff_eq, not_exists, not_and] at hany
      rw [List.map_cons, List.nodup_cons]
      refine ⟨?_, ih⟩
      intro hm
      obtain ⟨x, hx, hkey⟩ := List.mem_map.mp hm
      exact hany x (mem_lastMembers_iff.mp hx).mem hkey

/-- Looking up a key in a table without repeated keys. -/
theorem lookup_eq_some_iff_mem (nodup : (members.map (·.1)).Nodup) : members.lookup key = some a ↔ (key, a) ∈ members := by
  rw [List.lookup_eq_some_iff]
  constructor
  · rintro ⟨before, after, rfl, -⟩
    simp
  · intro hmem
    obtain ⟨before, after, rfl⟩ := List.append_of_mem hmem
    refine ⟨before, after, rfl, fun m hm => ?_⟩
    rw [List.map_append, List.map_cons, List.nodup_append] at nodup
    exact bne_iff_ne.mpr (nodup.2.2 _ (List.mem_map_of_mem hm) _ List.mem_cons_self).symm

end

/-! ### Members of records -/

section
variable {α : Type} {members : List (String × Json)} {key : String}

theorem lookup?_eq_some_iff {j : Json} : lookup? key members = some j ↔ Last members key j := by
  unfold lookup?
  simp only [Option.map_eq_some_iff, List.find?_eq_some_iff_append, beq_iff_eq, Bool.not_eq_true']
  constructor
  · rintro ⟨⟨_, _⟩, ⟨rfl, after, before, hreverse, hafter⟩, rfl⟩
    refine ⟨before.reverse, after.reverse, ?_, fun m hm => by simpa using hafter m (List.mem_reverse.mp hm)⟩
    rw [← List.reverse_reverse members, hreverse]
    simp
  · rintro ⟨before, after, rfl, hafter⟩
    refine ⟨(key, j), ⟨rfl, after.reverse, before.reverse, by simp, fun m hm => ?_⟩, rfl⟩
    simpa using hafter m (List.mem_reverse.mp hm)

theorem lookup?_eq_none_iff : lookup? key members = none ↔ ∀ m ∈ members, m.1 ≠ key := by
  unfold lookup?
  simp

/-- What a member stands for that may be left out. -/
def Member (members : List (String × Json)) (key : String) (fallback : α) (denotes : Json → α → Prop) (a : α) : Prop :=
  (∃ j, Last members key j ∧ denotes j a) ∨ (∀ m ∈ members, m.1 ≠ key) ∧ a = fallback

theorem required?_eq_some_iff {decode : Json → Option α} {a : α} :
    required? (lookup? · members) key decode = some a ↔ ∃ j, Last members key j ∧ decode j = some a := by
  unfold required?
  simp only [Option.bind_eq_some_iff, lookup?_eq_some_iff]

theorem defaulted?_eq_some_iff {decode : Json → Option α} {denotes : Json → α → Prop} {fallback a : α}
    (hdecode : ∀ j a, decode j = some a ↔ denotes j a) :
    defaulted? (lookup? · members) key fallback decode = some a ↔ Member members key fallback denotes a := by
  unfold defaulted? Member
  dsimp only
  cases h : lookup? key members with
  | some j =>
    have hlast := lookup?_eq_some_iff.mp h
    simp only [hdecode]
    constructor
    · intro hj
      exact .inl ⟨j, hlast, hj⟩
    · rintro (⟨j', hlast', hj⟩ | ⟨hnone, -⟩)
      · exact hlast.unique hlast' ▸ hj
      · exact absurd rfl (hnone _ hlast.mem)
  | none =>
    have hnone := lookup?_eq_none_iff.mp h
    rw [Option.some.injEq]
    constructor
    · rintro rfl
      exact .inr ⟨hnone, rfl⟩
    · rintro (⟨j, hlast, -⟩ | ⟨-, rfl⟩)
      · exact absurd rfl (hnone _ hlast.mem)
      · rfl

end
end Json
end BlockScript
