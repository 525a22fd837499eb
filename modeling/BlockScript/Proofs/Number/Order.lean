import BlockScript.Value

/-!
The order of numbers. All numbers but `nan` have an order, in which both zeros are equal, and no text is read
as `nan`. So numeric readings of values always compare.
-/
namespace BlockScript
namespace Number

/-! ### Order and equality -/

theorem order?_swap (x y : Number) : y.order? x = (x.order? y).map Ordering.swap := by
  cases x with
  | nan => cases y <;> rfl
  | infinity s =>
    cases y with
    | nan => rfl
    | infinity t => simp only [order?, Option.map_some, Nat.compare_swap]
    | finite t n hn => cases s <;> rfl
  | finite s m hm =>
    cases y with
    | nan => rfl
    | infinity t => cases t <;> rfl
    | finite t n hn => simp only [order?, Option.map_some, Int.compare_swap]

theorem exists_order? {x y : Number} (hx : x ≠ .nan) (hy : y ≠ .nan) : ∃ o, x.order? y = some o := by
  cases x with
  | nan => exact absurd rfl hx
  | infinity s =>
    cases y with
    | nan => exact absurd rfl hy
    | infinity t => exact ⟨_, rfl⟩
    | finite t n hn => exact ⟨_, rfl⟩
  | finite s m hm =>
    cases y with
    | nan => exact absurd rfl hy
    | infinity t => exact ⟨_, rfl⟩
    | finite t n hn => exact ⟨_, rfl⟩

theorem eqv_iff {x y : Number} : x.eqv y = true ↔ x.order? y = some .eq := by
  simp [eqv]

theorem eqv_comm (x y : Number) : x.eqv y = y.eqv x := by
  rw [Bool.eq_iff_iff, eqv_iff, eqv_iff, order?_swap x y]
  cases x.order? y with
  | none => simp
  | some o => cases o <;> simp

theorem eqv_refl {x : Number} (h : x ≠ .nan) : x.eqv x = true := by
  rw [eqv_iff]
  cases x with
  | nan => exact absurd rfl h
  | infinity s => simp [order?]
  | finite s m hm => simp [order?]

/-- Equal numbers are the same, or finite and the same signed count of quanta. -/
theorem eqv_cases {x y : Number} (h : x.eqv y = true) :
    x = y ∨ ∃ s m hm t n hn, x = .finite s m hm ∧ y = .finite t n hn ∧ signed s m = signed t n := by
  rw [eqv_iff] at h
  cases x with
  | nan => cases h
  | infinity s =>
    cases y with
    | nan => cases h
    | infinity t => cases s <;> cases t <;> simp_all [order?]
    | finite t n hn => cases s <;> cases h
  | finite s m hm =>
    cases y with
    | nan => cases h
    | infinity t => cases t <;> cases h
    | finite t n hn => exact Or.inr ⟨s, m, hm, t, n, hn, rfl, rfl, by simpa [order?] using h⟩

/-- Equal numbers stand in the same order to any other. -/
theorem order?_congr {x y : Number} (h : x.eqv y = true) (z : Number) : x.order? z = y.order? z := by
  rcases eqv_cases h with rfl | ⟨s, m, hm, t, n, hn, rfl, rfl, hsigned⟩
  · rfl
  · cases z with
    | nan => rfl
    | infinity u => rfl
    | finite u k hk => simp only [order?, hsigned]

theorem eqv_trans {x y z : Number} (hxy : x.eqv y = true) (hyz : y.eqv z = true) : x.eqv z = true := by
  rw [eqv_iff] at hyz ⊢
  rw [order?_congr hxy, hyz]

/-! ### Never `nan` -/

theorem ofQuotient_ne_nan (negative : Bool) (num den : Nat) : ofQuotient negative num den ≠ .nan := by
  unfold ofQuotient
  split <;> simp

theorem ofDecimal_ne_nan (negative : Bool) (digits : Nat) (exponent : Int) :
    ofDecimal negative digits exponent ≠ .nan := by
  unfold ofDecimal
  split
  · simp [zero]
  · split
    · simp
    · split
      · simp [zero]
      · split <;> exact ofQuotient_ne_nan _ _ _

theorem neg_ne_nan {x : Number} (h : x ≠ .nan) : -x ≠ .nan := by
  cases x with
  | nan => exact absurd rfl h
  | infinity s => exact fun h => by cases h
  | finite s m hm => exact fun h => by cases h

theorem readUnsigned?_ne_nan (negative : Bool) (cs : List Char) : readUnsigned? negative cs ≠ some .nan := by
  intro h
  simp only [readUnsigned?] at h
  split at h
  · cases h
  · split at h
    · exact ofDecimal_ne_nan _ _ _ (Option.some.inj h)
    · split at h
      · obtain ⟨e, -, he⟩ := Option.map_eq_some_iff.mp h
        exact ofDecimal_ne_nan _ _ _ he
      · cases h

end Number

open Number

theorem readNumber?_ne_nan (s : String) : readNumber? s ≠ some .nan := by
  intro h
  simp only [readNumber?, readTrimmed?] at h
  split at h
  · cases h
  · split at h
    · obtain ⟨v, -, hv⟩ := Option.map_eq_some_iff.mp h
      split at hv
      · exact neg_ne_nan (ofQuotient_ne_nan _ _ _) hv
      · exact ofQuotient_ne_nan _ _ _ hv
    · split at h
      · cases h
      · exact readUnsigned?_ne_nan _ _ h

theorem Value.number?_ne_nan (v : Value) : v.number? ≠ some .nan := by
  cases v with
  | number x => cases x <;> simp [number?]
  | text s => exact readNumber?_ne_nan s
  | boolean b => simp [number?]
  | empty => simp [number?]

theorem Value.toNumber_number {x : Number} (hx : x ≠ .nan) : (Value.number x).toNumber = x := by
  cases x with
  | nan => exact absurd rfl hx
  | infinity negative => rfl
  | finite negative m fits => rfl

theorem Value.number?_number {x : Number} (hx : x ≠ .nan) : (Value.number x).number? = some x := by
  cases x with
  | nan => exact absurd rfl hx
  | infinity negative => rfl
  | finite negative m fits => rfl

end BlockScript
