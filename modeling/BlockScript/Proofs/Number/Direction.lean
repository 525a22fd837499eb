import BlockScript.Proofs.Number.Exact
import Mathlib.Algebra.Order.ToIntervalMod

/-!
Directions without whole turns. Taking whole turns off brings a direction into the interval from -179 to 181, its upper
end left out, so that directions between 180 and 181 stay there. In doubles the three sums are rounded: where they are
exact, as they are for directions of a few digits, a direction is brought to the one that it is in exact arithmetic, and
where they are not, to one of the same interval or to its upper end.
-/
namespace BlockScript
namespace Number

/-! ### Whole turns -/

/-- A direction without its whole turns: offset, whole turns off, offset back. -/
def wrapped (q : ℚ) : ℚ := q - 360 * ⌊(q + 179) / 360⌋

variable {p q a : ℚ}

theorem wrapped_eq_toIcoMod (hturn : (0 : ℚ) < 360) (q : ℚ) : wrapped q = toIcoMod hturn (-179) q := by
  have hdiv := toIcoDiv_eq_floor hturn (-179) q
  have hmod := toIcoMod_add_toIcoDiv_zsmul hturn (-179) q
  rw [hdiv, sub_neg_eq_add, zsmul_eq_mul] at hmod
  rw [wrapped]
  linarith

theorem wrapped_eq_iff : wrapped q = p ↔ (-179 ≤ p ∧ p < 181) ∧ ∃ k : ℤ, q = p + 360 * k := by
  have hturn : (0 : ℚ) < 360 := by norm_num
  rw [wrapped_eq_toIcoMod hturn, toIcoMod_eq_iff, Set.mem_Ico]
  norm_num [mul_comm]

theorem wrapped_mem (q : ℚ) : (-179 ≤ wrapped q ∧ wrapped q < 181) ∧ ∃ k : ℤ, q = wrapped q + 360 * k :=
  wrapped_eq_iff.mp rfl

theorem wrapped_of_mem (low : -179 ≤ q) (high : q < 181) : wrapped q = q :=
  wrapped_eq_iff.mpr ⟨⟨low, high⟩, 0, by simp⟩

theorem wrapped_wrapped (q : ℚ) : wrapped (wrapped q) = wrapped q :=
  wrapped_of_mem (wrapped_mem q).1.1 (wrapped_mem q).1.2

/-- Turning by an angle and back by the same one leads to the direction that it began with. -/
theorem wrapped_back (q a : ℚ) : wrapped (wrapped (q + a) - a) = wrapped q := by
  obtain ⟨-, j, hj⟩ := wrapped_mem (q + a)
  obtain ⟨hmem, k, hk⟩ := wrapped_mem q
  refine wrapped_eq_iff.mpr ⟨hmem, k - j, ?_⟩
  push_cast
  linarith

/-- A direction ends between -180 and 180, its lower end left out, unless it is between 180 and 181 without whole
turns. -/
theorem wrapped_le_iff (q : ℚ) :
    (-180 < wrapped q ∧ wrapped q ≤ 180) ↔ ¬∃ k : ℤ, 180 < q + 360 * k ∧ q + 360 * k < 181 := by
  obtain ⟨⟨hlow, hhigh⟩, k, hk⟩ := wrapped_mem q
  constructor
  · rintro ⟨-, hle⟩ ⟨j, habove, hbelow⟩
    have hstays : wrapped q = q + 360 * j := wrapped_eq_iff.mpr ⟨⟨by linarith, hbelow⟩, -j, by push_cast; ring⟩
    linarith
  · intro hnone
    refine ⟨by linarith, ?_⟩
    by_contra! habove
    refine hnone ⟨-k, ?_, ?_⟩ <;> push_cast <;> linarith

/-! ### Doubles -/

variable {d x : Number}

theorem toRat_fullTurn : (360 : Number).isFinite = true ∧ (360 : Number).toRat = 360 := by
  exact_mod_cast toRat_ofNat (n := 360) (by decide)

theorem toRat_offset : (179 : Number).isFinite = true ∧ (179 : Number).toRat = 179 := by
  exact_mod_cast toRat_ofNat (n := 179) (by decide)

/-- What is left of an offset direction is rounded at most once. -/
theorem rounds_remPositive (hx : x.isFinite = true) :
    (remPositive x 360).Rounds (wrapped (x.toRat - 179) + 179) := by
  obtain ⟨hturn, hvalue⟩ := toRat_fullTurn
  obtain ⟨hrest, hlt, -, k, hk⟩ := rem_spec hx hturn (by rw [hvalue]; norm_num)
  rw [hvalue] at hlt hk
  rw [abs_of_pos (a := 360) (by norm_num), abs_lt] at hlt
  have hzero := toRat_ofNat (n := 0) (by decide)
  unfold remPositive
  dsimp only
  split
  · rename_i hneg
    have hneg : (x % 360).toRat < 0 := by
      have h := (lt_iff_toRat hrest hzero.1).mp hneg
      rwa [hzero.2, Nat.cast_zero] at h
    have hleft : wrapped (x.toRat - 179) = (x % 360).toRat + 360 - 179 :=
      wrapped_eq_iff.mpr ⟨⟨by linarith, by linarith⟩, k - 1, by push_cast; linarith⟩
    have habs : (360 : Number).abs = 360 := by decide +kernel
    have hsum := rounds_add hrest hturn
    rw [habs, hleft]
    rwa [hvalue, ← sub_add_cancel ((x % 360).toRat + 360) 179] at hsum
  · rename_i hneg
    have hnonneg : 0 ≤ (x % 360).toRat := by
      by_contra! h
      refine hneg ((lt_iff_toRat hrest hzero.1).mpr ?_)
      rwa [hzero.2, Nat.cast_zero]
    have hleft : wrapped (x.toRat - 179) = (x % 360).toRat - 179 :=
      wrapped_eq_iff.mpr ⟨⟨by linarith, by linarith⟩, k, by linarith⟩
    rw [hleft, sub_add_cancel]
    exact .of_eq hrest rfl

theorem remPositive_mem (hx : x.isFinite = true) :
    (remPositive x 360).isFinite = true ∧ 0 ≤ (remPositive x 360).toRat ∧ (remPositive x 360).toRat ≤ 360 := by
  obtain ⟨⟨hlow, hhigh⟩, -⟩ := wrapped_mem (x.toRat - 179)
  have hzero : Exact (0 : ℤ) := exact_intCast (by decide)
  have hturn : Exact (360 : ℤ) := exact_intCast (by decide)
  have hmem := (rounds_remPositive hx).mem hzero hturn (by push_cast; linarith) (by push_cast; linarith)
  exact_mod_cast hmem

theorem isFinite_offset (hd : d.isFinite = true) : (d + 179).isFinite = true := by
  have hoffset : (179 : Number).Within (9 + 1074) := within_ofNat (by decide) (by decide)
  exact isFinite_add hd hoffset (by decide)

/-- The sums that bring a direction to where it is without whole turns are doubles. -/
structure WrapsExactly (q : ℚ) : Prop where
  offset : Exact (q + 179)
  rest : Exact (wrapped q + 179)
  back : Exact (wrapped q)

theorem toRat_wrapDirection (hd : d.isFinite = true) (h : WrapsExactly d.toRat) :
    d.wrapDirection.toRat = wrapped d.toRat := by
  obtain ⟨hoffset, hvalue⟩ := toRat_offset
  have hstart := rounds_add hd hoffset
  rw [hvalue] at hstart
  obtain ⟨hsum, hstart⟩ := hstart.eq h.offset
  have hrest := rounds_remPositive hsum
  rw [hstart, add_sub_cancel_right] at hrest
  obtain ⟨hleft, hrest⟩ := hrest.eq h.rest
  have hback := rounds_sub hleft hoffset
  rw [hrest, hvalue, add_sub_cancel_right] at hback
  exact (hback.eq h.back).2

/-- Every direction is brought between -179 and 181. -/
theorem wrapDirection_mem (hd : d.isFinite = true) :
    d.wrapDirection.isFinite = true ∧ -179 ≤ d.wrapDirection.toRat ∧ d.wrapDirection.toRat ≤ 181 := by
  obtain ⟨hoffset, hvalue⟩ := toRat_offset
  obtain ⟨hleft, hlow, hhigh⟩ := remPositive_mem (isFinite_offset hd)
  have hback := rounds_sub hleft hoffset
  rw [hvalue] at hback
  have hmem := hback.mem (a := (-179 : ℤ)) (b := (181 : ℤ)) (exact_intCast (by decide)) (exact_intCast (by decide))
    (by push_cast; linarith) (by push_cast; linarith)
  exact_mod_cast hmem

/-! ### Where the sums are exact -/

/-- A number of a few binary places stays a double when a whole number is added, as far as 53 bits suffice. -/
theorem exact_of_places {k b : Nat} {c n : ℤ} (hq : q = c / 2 ^ k) (hp : p = q + n) (hb : |p| ≤ b) (hk : k ≤ 1074)
    (hbits : b * 2 ^ k ≤ 2 ^ 53) : Exact p := by
  have hplace : (0 : ℚ) < 2 ^ k := by positivity
  have hvalue : p = ((c + n * 2 ^ k : ℤ) : ℚ) / 2 ^ k := by
    rw [hp, hq]
    push_cast
    field_simp
  have hc : |c + n * 2 ^ k| ≤ 2 ^ 53 := by
    rw [hvalue, abs_div, abs_of_pos hplace, div_le_iff₀ hplace] at hb
    have hle := hb.trans (by exact_mod_cast hbits : (b : ℚ) * 2 ^ k ≤ 2 ^ 53)
    exact_mod_cast hle
  exact hvalue ▸ exact_dyadic hc hk

/-- Taking whole turns off adds no binary places. -/
theorem wrapped_places (c : ℤ) (k : Nat) : ∃ e : ℤ, wrapped (c / 2 ^ k) = e / 2 ^ k ∧ |e| ≤ 181 * 2 ^ k := by
  have hplace : (0 : ℚ) < 2 ^ k := by positivity
  obtain ⟨⟨hlow, hhigh⟩, j, hj⟩ := wrapped_mem (c / 2 ^ k)
  have hleft : wrapped (c / 2 ^ k) = ((c - 360 * j * 2 ^ k : ℤ) : ℚ) / 2 ^ k := by
    push_cast
    rw [sub_div, mul_div_cancel_right₀ _ hplace.ne']
    linarith
  refine ⟨_, hleft, ?_⟩
  rw [hleft, le_div_iff₀ hplace] at hlow
  rw [hleft, div_lt_iff₀ hplace] at hhigh
  have hlow : -179 * 2 ^ k ≤ c - 360 * j * 2 ^ k := by exact_mod_cast hlow
  have hhigh : c - 360 * j * 2 ^ k < 181 * 2 ^ k := by exact_mod_cast hhigh
  have hpos : (0 : ℤ) < 2 ^ k := by positivity
  rw [abs_le]
  constructor <;> linarith

/-- Directions of up to 44 binary places, as far as 53 bits suffice for them. -/
theorem wrapsExactly_of_places {k : Nat} {c : ℤ} (hk : k ≤ 44) (hc : |c| + 179 * 2 ^ k ≤ 2 ^ 53) :
    WrapsExactly (c / 2 ^ k) := by
  have hbits : (2 : ℤ) ^ k ≤ 2 ^ 44 := pow_le_pow_right₀ (by decide) hk
  have hoffset (e : ℤ) (he : |e| ≤ 2 ^ 53 - 179 * 2 ^ k) : Exact ((e : ℚ) / 2 ^ k + 179) := by
    have hsum : (e : ℚ) / 2 ^ k + 179 = ((e + 179 * 2 ^ k : ℤ) : ℚ) / 2 ^ k := by
      push_cast
      field_simp
    rw [hsum]
    refine exact_dyadic ((abs_add_le _ _).trans ?_) (by omega)
    rw [abs_of_nonneg (a := 179 * 2 ^ k) (by positivity)]
    omega
  obtain ⟨e, he, hsmall⟩ := wrapped_places c k
  refine ⟨hoffset c (by omega), ?_, ?_⟩ <;> rw [he]
  · exact hoffset e (by omega)
  · exact exact_dyadic (by omega) (by omega)

/-- What is left of the turns is far from zero, or its offset is: not many places are left after the point. -/
theorem exact_wrapDirection_offset (hd : d.isFinite = true) : Exact (d.wrapDirection.toRat + 179) := by
  obtain ⟨hoffset, hvalue⟩ := toRat_offset
  obtain ⟨hleft, hlow, hhigh⟩ := remPositive_mem (isFinite_offset hd)
  have hback := rounds_sub hleft hoffset
  rw [hvalue] at hback
  have hwrapped : d.wrapDirection = remPositive (d + 179) 360 - 179 := rfl
  rw [hwrapped]
  generalize remPositive (d + 179) 360 = y at *
  rcases lt_or_ge y.toRat 64 with hsmall | hlarge
  · obtain ⟨hfinite, hleast, hmost⟩ := hback.mem (a := (-179 : ℤ)) (b := (-115 : ℤ)) (exact_intCast (by decide))
      (exact_intCast (by decide)) (by push_cast; linarith) (by push_cast; linarith)
    push_cast at hleast hmost
    obtain ⟨c, hc⟩ := exists_dyadic hfinite (k := 46) (by decide) (by rw [abs_of_neg (by linarith)]; linarith)
    refine exact_of_places (n := 179) (b := 64) hc (by push_cast; rfl) ?_ (by decide) (by decide)
    rw [abs_le]
    push_cast
    constructor <;> linarith
  · have hexact : Exact (y.toRat - 179) := by
      rcases lt_or_ge y.toRat 128 with hmiddle | hlarge'
      · obtain ⟨c, hc⟩ := exists_dyadic hleft (k := 46) (by decide) (by rw [abs_of_pos (by linarith)]; linarith)
        refine exact_of_places (n := -179) (b := 115) hc (by push_cast; ring) ?_ (by decide) (by decide)
        rw [abs_le]
        push_cast
        constructor <;> linarith
      · obtain ⟨c, hc⟩ := exists_dyadic hleft (k := 45) (by decide) (by rw [abs_of_pos (by linarith)]; linarith)
        refine exact_of_places (n := -179) (b := 181) hc (by push_cast; ring) ?_ (by decide) (by decide)
        rw [abs_le]
        push_cast
        constructor <;> linarith
    rw [(hback.eq hexact).2, sub_add_cancel]
    exact exact_toRat hleft

/-- A direction without whole turns stays, but for the upper end of the interval. -/
theorem wrapDirection_wrapDirection_iff (hd : d.isFinite = true) :
    d.wrapDirection.wrapDirection.toRat = d.wrapDirection.toRat ↔ d.wrapDirection.toRat ≠ 181 := by
  obtain ⟨hfinite, hlow, hhigh⟩ := wrapDirection_mem hd
  have hoffset := exact_wrapDirection_offset hd
  constructor
  · intro hsame hend
    have hstart : wrapped 181 = -179 := wrapped_eq_iff.mpr ⟨by norm_num, 1, by norm_num⟩
    have hexact : WrapsExactly d.wrapDirection.toRat := by
      refine ⟨hoffset, ?_, ?_⟩ <;> rw [hend, hstart]
      · exact_mod_cast exact_intCast (n := 0) (by decide)
      · exact_mod_cast exact_intCast (n := -179) (by decide)
    rw [toRat_wrapDirection hfinite hexact, hend, hstart] at hsame
    norm_num at hsame
  · intro hend
    have hstays : wrapped d.wrapDirection.toRat = d.wrapDirection.toRat :=
      wrapped_of_mem hlow (lt_of_le_of_ne hhigh hend)
    have hexact : WrapsExactly d.wrapDirection.toRat := by
      refine ⟨hoffset, ?_, ?_⟩ <;> rw [hstays]
      · exact hoffset
      · exact exact_toRat hfinite
    rw [toRat_wrapDirection hfinite hexact, hstays]

end Number
end BlockScript
