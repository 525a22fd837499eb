import BlockScript.Proofs.Number.HalfUp
import BlockScript.Proofs.Number.Truncate
import BlockScript.Scene.Audio

/-!
Finding sounds. A sound is found by its name. Any other value with a finite numeric reading finds one by its position,
which is rounded and wraps around at both ends of the list as long as the rounded position is within 64 bits; beyond
them the position stops at the last word that there is, and before them it leaves the words and comes back at the other
end.
-/
namespace BlockScript
open Number

variable {sounds : List String} {v : Value} {x : Number} {r : ℤ}

theorem find?_toText (h : v.toText ∉ sounds) : sounds.find? (· == v.toText) = none := by
  rw [List.find?_eq_none]
  intro sound hsound heq
  exact h (beq_iff_eq.mp heq ▸ hsound)

/-- The position of a finite reading, as a word that has come out of the rounding. -/
theorem findSound?_of_number (hsounds : sounds ≠ []) (hname : v.toText ∉ sounds) (hv : v.number? = some x)
    (hx : x.isFinite = true) :
    findSound? sounds v = sounds[(wrapInt64 (x.roundHalfUp.toInt64 - 1) % sounds.length).toNat]? := by
  have hnonempty : ¬sounds.isEmpty = true := by rwa [List.isEmpty_iff]
  simp only [findSound?, find?_toText hname, if_neg hnonempty, hv, Option.filter_some, hx, if_true]

theorem findSound?_of_no_number (hname : v.toText ∉ sounds) (hv : ∀ x, v.number? = some x → x.isFinite = false) :
    findSound? sounds v = none := by
  have hfilter : v.number?.filter Number.isFinite = none := by
    rw [Option.filter_eq_none_iff]
    intro x hx
    rw [hv x hx]
    exact Bool.false_ne_true
  rw [findSound?, find?_toText hname]
  simp only [hfilter, ite_self]

/-- The place in a list that a position stands for when it wraps around. -/
def wrappedPlace (position : ℤ) (length : Nat) : Nat := ((position - 1) % length).toNat

theorem wrappedPlace_lt (position : ℤ) {length : Nat} (h : 0 < length) : wrappedPlace position length < length := by
  have hpos : (0 : ℤ) < length := Int.natCast_pos.mpr h
  have := Int.emod_lt_of_pos (position - 1) hpos
  have := Int.emod_nonneg (position - 1) hpos.ne'
  unfold wrappedPlace
  omega

/-- The position that is left of a rounded one in a word: the last word for a greater one, and beyond the last word for
one that has no word before it. -/
def keptPosition (r : ℤ) : ℤ := if 2 ^ 63 ≤ r then 2 ^ 63 - 1 else if r ≤ -2 ^ 63 then 2 ^ 63 else r

theorem wrapInt64_toInt64 (hx : x.isFinite = true) (h : x.toRat = r) :
    wrapInt64 (x.toInt64 - 1) = keptPosition r - 1 := by
  have h63 : ((twoPow 63 : Nat) : ℤ) = 2 ^ 63 := rfl
  have h64 : ((twoPow 64 : Nat) : ℤ) = 2 ^ 64 := rfl
  rw [toInt64_eq hx, h, trunc_intCast, keptPosition, wrapInt64, h63, h64]
  split_ifs <;> omega

/-- A value that names no sound stands for the position that it reads as, rounded and wrapped around, exactly as long as
the rounded position is a word after the first one. No reading leads past the list, and no value without a finite one
finds a sound. -/
theorem findSound?_spec (hsounds : sounds ≠ []) (hname : v.toText ∉ sounds) :
    (∀ x, v.number? = some x → x.isFinite = true → ∃ r : ℤ, x.roundHalfUp.isFinite = true ∧ x.roundHalfUp.toRat = r ∧
      (-2 ^ 63 ≤ x.roundHalfUp.toInt64 - 1 ∧ x.roundHalfUp.toInt64 - 1 < 2 ^ 63 ↔ -2 ^ 63 < r) ∧
      (-2 ^ 63 < r → r < 2 ^ 63 → findSound? sounds v = sounds[wrappedPlace r sounds.length]?) ∧
      (2 ^ 63 ≤ r → findSound? sounds v = sounds[wrappedPlace (2 ^ 63 - 1) sounds.length]?) ∧
      (r ≤ -2 ^ 63 → findSound? sounds v = sounds[wrappedPlace (2 ^ 63) sounds.length]?) ∧
      ∃ name ∈ sounds, findSound? sounds v = some name) ∧
    ((∀ x, v.number? = some x → x.isFinite = false) → findSound? sounds v = none) := by
  refine ⟨fun x hv hx => ?_, findSound?_of_no_number hname⟩
  obtain ⟨hfinite, hround⟩ := toRat_roundHalfUp hx
  have hfound := findSound?_of_number hsounds hname hv hx
  rw [wrapInt64_toInt64 hfinite hround] at hfound
  change _ = sounds[wrappedPlace (keptPosition _) sounds.length]? at hfound
  have hword := toInt64_eq hfinite
  rw [hround, trunc_intCast] at hword
  generalize ⌊(x + half).toRat⌋ = r at *
  refine ⟨r, hfinite, hround, ?_, fun hlow hhigh => ?_, fun hhigh => ?_, fun hlow => ?_, ?_⟩
  · rw [hword]
    split_ifs <;> omega
  · rw [hfound, keptPosition, if_neg (by omega), if_neg (by omega)]
  · rw [hfound, keptPosition, if_pos hhigh]
  · rw [hfound, keptPosition, if_neg (by omega), if_pos hlow]
  · have hplace := wrappedPlace_lt (keptPosition r) (List.length_pos_iff.mpr hsounds)
    exact ⟨_, List.getElem_mem hplace, hfound.trans (List.getElem?_eq_getElem hplace)⟩

/-- The third of two sounds is the first one again. -/
theorem third_of_two : findSound? ["a", "b"] (.number 3) = some "a" := by
  have hname : Value.toText (.number 3) ∉ ["a", "b"] := by decide +kernel
  obtain ⟨hnumber, -⟩ := findSound?_spec (List.cons_ne_nil _ _) hname
  obtain ⟨r, -, hr, -, hwithin, -⟩ := hnumber 3 (by decide +kernel) (by decide +kernel)
  have hround : (3 : Number).roundHalfUp = ofNat 3 := by decide +kernel
  rw [hround, (toRat_ofNat (n := 3) (by decide)).2] at hr
  obtain rfl : r = 3 := by exact_mod_cast hr.symm
  exact hwithin (by decide) (by decide)

/-- The position `2 ^ 63` of two sounds leads to the first one, though it is even. -/
theorem last_word_of_two :
    findSound? ["a", "b"] (.number (ofNat 9223372036854775808)) = some "a" ∧
      (ofNat 9223372036854775808).roundHalfUp = ofNat 9223372036854775808 ∧
      ["a", "b"][wrappedPlace 9223372036854775808 2]? = some "b" := by
  refine ⟨by decide +kernel, by decide +kernel, by decide⟩

end BlockScript
