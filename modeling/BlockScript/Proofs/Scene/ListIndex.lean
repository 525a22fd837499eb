import BlockScript.Proofs.Number.Whole
import BlockScript.Script.Evaluation

/-!
Positions given by values. A value stands for the floor of its number, counted from one, unless it is one of the words
for the last item, for any item or for all of them. Whatever it is, a position that it stands for is one of the list.
-/
namespace BlockScript
namespace Number

/-- The comparisons that check a position let through exactly the floors from one to the length. They would let a `nan`
through. -/
theorem floor_position {x : Number} {length : Nat} (hx : x ≠ .nan) (hlength : length ≤ 2 ^ 53) (n : Nat) :
    (¬(x.floor < 1 ∨ ofNat length < x.floor) ∧ x.floor.toNat64 = n) ↔
      x.floor? = some (n : Int) ∧ 1 ≤ n ∧ n ≤ length := by
  have hone : (1 : Number) = ofNat 1 := rfl
  rw [hone, ofNat_eq (k := 1) (by decide), ofNat_eq hlength]
  cases x with
  | nan => exact absurd rfl hx
  | infinity s =>
    refine iff_of_false ?_ (by simp [floor?])
    rintro ⟨hin, -⟩
    cases s with
    | false => exact hin (.inr rfl)
    | true => exact hin (.inl rfl)
  | finite s m hm =>
    rw [floor_finite, whole_lt_iff, whole_lt_iff, floor?, ← signed_floorMagnitude, Option.some.injEq]
    generalize fits_floorMagnitude hm = fits
    generalize floorMagnitude s m = k at fits
    cases s with
    | true =>
      simp only [signed, Bool.false_eq_true, if_true, if_false]
      exact iff_of_false (by omega) (by omega)
    | false =>
      simp only [signed, Bool.false_eq_true, if_false]
      constructor
      · rintro ⟨hin, rfl⟩
        rw [toNat64_whole (by omega)]
        omega
      · rintro ⟨hk, hfirst, hlast⟩
        obtain rfl : k = n := by omega
        exact ⟨by omega, toNat64_whole (by omega) fits⟩

end Number

namespace Value

/-- The words for places in a list. -/
def IsPlaceWord (v : Value) : Prop := v = .text "last" ∨ v = .text "random" ∨ v = .text "any"

instance (v : Value) : Decidable v.IsPlaceWord := inferInstanceAs (Decidable (_ ∨ _ ∨ _))

/-- What a value stands for in a list of a length. -/
structure Resolves (v : Value) (length : Nat) (acceptAll : Bool) (i : ListIndex) : Prop where
  range : ∀ n, i = .item n → 1 ≤ n ∧ n ≤ length
  all_iff : i = .all ↔ v = .text "all" ∧ acceptAll = true
  /-- A number stands for its floor, exactly if this is a position of the list. -/
  floor_iff : ¬v.IsPlaceWord → ∀ n : Nat, i = .item n ↔ v.toNumber.floor? = some (n : Int) ∧ 1 ≤ n ∧ n ≤ length
  last : v = .text "last" → i = if length = 0 then .invalid else .item length
  any : v = .text "random" ∨ v = .text "any" → (i = .invalid ↔ length = 0)

theorem IsPlaceWord.floor? {v : Value} (h : v.IsPlaceWord) : v.toNumber.floor? = some 0 := by
  rcases h with rfl | rfl | rfl <;> decide +kernel

theorem floor?_all : (toNumber (.text "all")).floor? = some 0 := by
  decide +kernel

end Value

/-- The position of the floor of a number. -/
theorem item_floor_iff (v : Value) {length : Nat} (hlength : length ≤ 2 ^ 53) (n : Nat) :
    (if v.toNumber.floor < 1 ∨ .ofNat length < v.toNumber.floor then ListIndex.invalid
      else .item v.toNumber.floor.toNat64) = .item n ↔
      v.toNumber.floor? = some (n : Int) ∧ 1 ≤ n ∧ n ≤ length := by
  rw [← Number.floor_position v.toNumber_ne_nan hlength n]
  split <;> simp_all

/-- Apart from the words, numbers decide. -/
theorem listIndex_eq_floor {v : Value} {acceptAll : Bool} (hplace : ¬v.IsPlaceWord)
    (hall : ¬(v = .text "all" ∧ acceptAll = true)) (length draw : Nat) :
    listIndex v length acceptAll draw =
      if v.toNumber.floor < 1 ∨ .ofNat length < v.toNumber.floor then .invalid else .item v.toNumber.floor.toNat64 := by
  unfold listIndex
  split
  · rw [if_neg fun accepted => hall ⟨rfl, accepted⟩]
  · exact absurd (.inl rfl) hplace
  · exact absurd (.inr (.inl rfl)) hplace
  · exact absurd (.inr (.inr rfl)) hplace
  · rfl

theorem Value.IsPlaceWord.resolves {v : Value} (hplace : v.IsPlaceWord) {length n : Nat} (acceptAll : Bool)
    (hn : length ≠ 0 → 1 ≤ n ∧ n ≤ length) (hlast : v = .text "last" → n = length) :
    v.Resolves length acceptAll (if length = 0 then .invalid else .item n) where
  range := by
    intro k hk
    split at hk
    · cases hk
    · rename_i h
      cases hk
      exact hn h
  all_iff := by
    refine iff_of_false (by split <;> nofun) ?_
    rintro ⟨rfl, -⟩
    exact absurd hplace (by decide)
  floor_iff := fun hother => absurd hplace hother
  last := fun h => by rw [hlast h]
  any := fun _ => by simp

theorem listIndex_resolves (v : Value) {length : Nat} (hlength : length ≤ 2 ^ 53) (acceptAll : Bool) (draw : Nat) :
    v.Resolves length acceptAll (listIndex v length acceptAll draw) := by
  by_cases hplace : v.IsPlaceWord
  · have hdraw (h : length ≠ 0) : 1 ≤ 1 + draw % length ∧ 1 + draw % length ≤ length := by
      have := Nat.mod_lt draw (Nat.pos_of_ne_zero h)
      omega
    rcases id hplace with rfl | rfl | rfl
    · exact hplace.resolves acceptAll (fun h => ⟨Nat.pos_of_ne_zero h, Nat.le_refl _⟩) fun _ => rfl
    · exact hplace.resolves acceptAll hdraw nofun
    · exact hplace.resolves acceptAll hdraw nofun
  · by_cases hall : v = .text "all" ∧ acceptAll = true
    · obtain ⟨rfl, rfl⟩ := hall
      refine ⟨nofun, iff_of_true rfl ⟨rfl, rfl⟩, fun _ n => iff_of_false nofun ?_, nofun, nofun⟩
      rintro ⟨hzero, hfirst, -⟩
      rw [Value.floor?_all, Option.some.injEq] at hzero
      omega
    · have hfloor := item_floor_iff v hlength
      have hne : listIndex v length acceptAll draw ≠ .all := by
        rw [listIndex_eq_floor hplace hall]
        split <;> nofun
      rw [← listIndex_eq_floor hplace hall length draw] at hfloor
      refine ⟨fun n hn => ((hfloor n).mp hn).2, iff_of_false hne hall, fun _ => hfloor, ?_, ?_⟩
      · exact fun h => absurd (.inl h) hplace
      · exact fun h => absurd (.inr h) hplace

/-- A position that numbers count exactly is found in a list of any length. -/
theorem listIndex_of_floor {v : Value} {n length : Nat} (hfloor : v.toNumber.floor? = some (n : Int)) (hfirst : 1 ≤ n)
    (hexact : n ≤ 2 ^ 53) (hlast : n ≤ length) (draw : Nat) : listIndex v length false draw = .item n := by
  have hplace : ¬v.IsPlaceWord := by
    intro hplace
    rw [hplace.floor?, Option.some.injEq] at hfloor
    omega
  rw [listIndex_eq_floor hplace (by simp), Number.floor_eq_ofNat hfloor hfirst hexact, Number.toNat64_ofNat hexact]
  refine if_neg ?_
  rintro (h | h)
  · exact Number.not_ofNat_lt (by decide) hfirst h
  · exact Number.not_ofNat_lt hexact hlast h

/-- Resolving leaves the traces as they were, but for a draw. -/
theorem resolveIndex_eq (v : Value) (length : Nat) (acceptAll : Bool) (t : Traces) :
    ∃ draw random, resolveIndex v length acceptAll t = (listIndex v length acceptAll draw, { t with random }) := by
  unfold resolveIndex
  split
  · exact ⟨_, _, rfl⟩
  · exact ⟨_, t.random, rfl⟩

end BlockScript
