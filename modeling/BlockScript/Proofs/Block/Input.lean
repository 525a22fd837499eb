import BlockScript.Block.Input
import BlockScript.Proofs.Number.Whole
import Mathlib.Data.List.Forall2

/-!
What the inputs of blocks stand for. The decoder goes through all slots, and each has to be well formed, but the first
that is not null decides alone. Here its answer is told without going through them: which arrays are read, what the
deciding slot holds by its kind, and that what stands behind it changes nothing.
-/
namespace BlockScript

/-! ### Kinds -/

namespace Number

/-- A number between one small whole number and the next is the first one without its fraction. -/
theorem toInt32_eq_iff {x : Number} {k : Nat} (hpos : 0 < k) (hk : k + 1 < 2 ^ 31) :
    x.toInt32 = k ↔ ofNat k ≤ x ∧ x < ofNat (k + 1) := by
  have htop : ((twoPow 31 : Nat) : Int) = 2147483648 := rfl
  rw [ofNat_eq (k := k) (by omega), ofNat_eq (k := k + 1) (by omega)]
  cases x with
  | nan => exact iff_of_false (by simp only [toInt32, truncateWithin]; omega) fun h => by rcases h.1 with h | h <;> cases h
  | infinity s =>
    refine iff_of_false ?_ fun h => ?_
    · simp only [toInt32, truncateWithin]
      split <;> omega
    · cases s with
      | false => cases h.2
      | true => rcases h.1 with h | h <;> cases h
  | finite s m hm =>
    rw [finite_le_iff, finite_lt_iff]
    simp only [toInt32, truncateWithin, htop]
    cases s with
    | true =>
      have : 0 < k * quantaPerOne := Nat.mul_pos hpos quantaPerOne_pos
      simp only [signed, Bool.false_eq_true, if_true, if_false]
      generalize k * quantaPerOne = low at *
      generalize m / quantaPerOne = whole at *
      omega
    | false =>
      have hlow : k * quantaPerOne ≤ m ↔ k ≤ m / quantaPerOne := (Nat.le_div_iff_mul_le quantaPerOne_pos).symm
      have hhigh : m < (k + 1) * quantaPerOne ↔ m / quantaPerOne < k + 1 := (Nat.div_lt_iff_lt_mul quantaPerOne_pos).symm
      simp only [signed, Bool.false_eq_true, if_false, Int.ofNat_le, Int.ofNat_lt, hlow, hhigh]
      generalize m / quantaPerOne = whole at *
      omega

end Number

/-- The numeric reading of a value is a whole number, its fraction apart. -/
def Value.HasKind (kind : Value) (k : Nat) : Prop := Number.ofNat k ≤ kind.toNumber ∧ kind.toNumber < Number.ofNat (k + 1)

theorem Value.hasKind_iff {kind : Value} {k : Nat} (hpos : 0 < k) (hk : k ≤ 13) :
    kind.HasKind k ↔ kind.toNumber.toInt32 = k := (Number.toInt32_eq_iff hpos (by omega)).symm

/-! ### Slots -/

namespace Json

/-- A scalar and its value. -/
inductive Reads : Json → Value → Prop
  | null : Reads .null .empty
  | bool (b : Bool) : Reads (.bool b) (.boolean b)
  | number (n : JsonNumber) : Reads (.number n) (.number n.toNumber)
  | text (s : String) : Reads (.text s) (.text s)

/-- A whole-number token within 32 bits with a sign. -/
def IsMark (j : Json) : Prop := ∃ n : Int, j = .number (.whole n) ∧ -2 ^ 31 ≤ n ∧ n < 2 ^ 31

/-- Null, a text or an array of scalars. -/
inductive IsSlot : Json → Prop
  | null : IsSlot .null
  | text (id : String) : IsSlot (.text id)
  | array {items : List Json} (scalars : ∀ item ∈ items, ∃ v, item.Reads v) : IsSlot (.array items)

theorem value?_eq_some_iff {j : Json} {v : Value} : j.value? = some v ↔ j.Reads v := by
  constructor
  · intro h
    cases j <;> simp only [value?, Option.some.injEq, reduceCtorEq] at h <;> subst h <;> constructor
  · rintro (_ | _ | _ | _) <;> rfl

theorem mapM_eq_some_iff {ι α : Type} {decode : ι → Option α} {items : List ι} {as : List α} :
    items.mapM decode = some as ↔ List.Forall₂ (fun j a => decode j = some a) items as := by
  induction items generalizing as with
  | nil => simp [eq_comm]
  | cons j items ih =>
    simp only [List.mapM_cons, Option.bind_eq_bind, Option.bind_eq_some_iff, Option.pure_def, Option.some.injEq, ih,
      List.forall₂_cons_left_iff]
    constructor
    · rintro ⟨a, ha, as, has, rfl⟩
      exact ⟨a, as, ha, has, rfl⟩
    · rintro ⟨a, as, ha, has, rfl⟩
      exact ⟨a, ha, as, has, rfl⟩

theorem exists_mapM_cons {α : Type} {decode : Json → Option α} {j : Json} {items : List Json} {P : List α → Prop} :
    (∃ as, (j :: items).mapM decode = some as ∧ P as) ↔
      ∃ a, decode j = some a ∧ ∃ as, items.mapM decode = some as ∧ P (a :: as) := by
  simp only [mapM_eq_some_iff, List.forall₂_cons_left_iff]
  constructor
  · rintro ⟨_, ⟨a, as, ha, has, rfl⟩, hP⟩
    exact ⟨a, ha, as, has, hP⟩
  · rintro ⟨a, ha, as, has, hP⟩
    exact ⟨_, ⟨a, as, ha, has, rfl⟩, hP⟩

theorem exists_mapM_iff {α : Type} {decode : Json → Option α} {items : List Json} :
    (∃ as, items.mapM decode = some as) ↔ ∀ item ∈ items, ∃ a, decode item = some a := by
  induction items with
  | nil => simp
  | cons j items ih =>
    have hcons : (∃ as, (j :: items).mapM decode = some as ∧ True) ↔
        ∃ a, decode j = some a ∧ ∃ as, items.mapM decode = some as ∧ True := exists_mapM_cons (P := fun _ => True)
    simp only [and_true] at hcons
    rw [hcons, ih, List.forall_mem_cons, exists_and_right]

theorem int32?_isSome_iff {j : Json} : (∃ n, j.int32? = some n) ↔ j.IsMark := by
  have htop : ((twoPow 31 : Nat) : Int) = 2 ^ 31 := rfl
  constructor
  · rintro ⟨n, h⟩
    unfold int32? at h
    split at h
    · split at h
      · rename_i m hm
        exact ⟨m, rfl, by omega⟩
      · cases h
    · cases h
  · rintro ⟨n, rfl, hn⟩
    exact ⟨n, if_pos (by omega)⟩

end Json

/-- A literal of a numeric kind: a text that spells a number is the number, and anything else stays. -/
inductive Value.Spells : Value → Value → Prop
  | number {s : String} {x : Number} (spelled : readNumber? s = some x) : Spells (.text s) (.number x)
  | other {v : Value} (unspelled : ∀ s x, v = .text s → readNumber? s ≠ some x) : Spells v v

theorem Value.spells_iff {v w : Value} : v.Spells w ↔ v.numericLiteral = w := by
  constructor
  · rintro (spelled | unspelled)
    · simp only [numericLiteral, spelled]
    · unfold numericLiteral
      split
      · split
        · rename_i s _ x hx
          exact absurd hx (unspelled s x rfl)
        · rfl
      · rfl
  · rintro rfl
    unfold numericLiteral
    split
    · split
      · rename_i x hx
        exact .number hx
      · rename_i s hs
        refine .other fun s' x heq => ?_
        cases heq
        simp [hs]
    · rename_i hother
      exact .other fun s x heq => absurd heq (hother s)

namespace Slot

open Json

/-- The input that a slot which is not null stands for. -/
inductive Denotes : Json → Input → Prop
  | block (id : String) : Denotes (.text id) (.block id)
  | numeric {items : List Json} {kind v : Value} {rest : List Value} {k : Nat} (reads : List.Forall₂ Reads items (kind :: rest))
      (low : 4 ≤ k) (high : k ≤ 8) (known : kind.HasKind k) (spells : (rest.head?.getD .empty).Spells v) :
      Denotes (.array items) (.literal v)
  | plain {items : List Json} {kind : Value} {rest : List Value} {k : Nat} (reads : List.Forall₂ Reads items (kind :: rest))
      (low : 9 ≤ k) (high : k ≤ 10) (known : kind.HasKind k) :
      Denotes (.array items) (.literal (rest.head?.getD .empty))
  | broadcast {items : List Json} {kind name id : Value} {rest : List Value}
      (reads : List.Forall₂ Reads items (kind :: name :: id :: rest)) (known : kind.HasKind 11) :
      Denotes (.array items) (.broadcast ⟨name.toText, id.toText⟩)
  | variable {items : List Json} {kind name id : Value} {rest : List Value}
      (reads : List.Forall₂ Reads items (kind :: name :: id :: rest)) (known : kind.HasKind 12) :
      Denotes (.array items) (.variable ⟨name.toText, id.toText⟩)
  | list {items : List Json} {kind name id : Value} {rest : List Value}
      (reads : List.Forall₂ Reads items (kind :: name :: id :: rest)) (known : kind.HasKind 13) :
      Denotes (.array items) (.list ⟨name.toText, id.toText⟩)

theorem ofJson?_array {items : List Json} {slot : Slot} :
    ofJson? (.array items) = some slot ↔ ∃ values, List.Forall₂ Reads items values ∧ slot = .primitive values := by
  simp only [ofJson?, Option.map_eq_some_iff, mapM_eq_some_iff, value?_eq_some_iff, eq_comm (a := slot)]

theorem reference?_eq_some_iff {values : List Value} {ref : Ref} :
    reference? values = some ref ↔ ∃ name id rest, values = name :: id :: rest ∧ ref = ⟨name.toText, id.toText⟩ := by
  constructor
  · intro h
    unfold reference? at h
    split at h
    · rename_i name id rest
      cases h
      exact ⟨name, id, rest, rfl, rfl⟩
    · cases h
  · rintro ⟨name, id, rest, rfl, rfl⟩
    rfl

/-- A slot is read as what it stands for, and not if it stands for nothing. -/
theorem input?_iff_denotes {j : Json} {i : Input} : (∃ slot, ofJson? j = some slot ∧ slot.input? = some i) ↔ Denotes j i := by
  constructor
  · rintro ⟨slot, hslot, hinput⟩
    cases j with
    | text id =>
      cases hslot
      cases hinput
      exact .block id
    | array items =>
      obtain ⟨values, reads, rfl⟩ := ofJson?_array.mp hslot
      cases values with
      | nil => cases hinput
      | cons kind rest =>
        have known {k : Nat} (hk : kind.toNumber.toInt32 = k) (hpos : 0 < k) (hle : k ≤ 13) : kind.HasKind k :=
          (Value.hasKind_iff hpos hle).mpr hk
        have reference {ref : Ref} (href : reference? rest = some ref) := reference?_eq_some_iff.mp href
        simp only [input?] at hinput
        split_ifs at hinput with hnumeric hplain hbroadcast hvariable hlist
        · cases hinput
          have hnat : kind.toNumber.toInt32 = kind.toNumber.toInt32.toNat := by omega
          exact .numeric reads (by omega) (by omega) (known hnat (by omega) (by omega)) (Value.spells_iff.mpr rfl)
        · cases hinput
          have hnat : kind.toNumber.toInt32 = kind.toNumber.toInt32.toNat := by omega
          exact .plain reads (by omega) (by omega) (known hnat (by omega) (by omega))
        · obtain ⟨ref, href, rfl⟩ := Option.map_eq_some_iff.mp hinput
          obtain ⟨name, id, rest, rfl, rfl⟩ := reference href
          exact .broadcast reads (known hbroadcast (by omega) (by omega))
        · obtain ⟨ref, href, rfl⟩ := Option.map_eq_some_iff.mp hinput
          obtain ⟨name, id, rest, rfl, rfl⟩ := reference href
          exact .variable reads (known hvariable (by omega) (by omega))
        · obtain ⟨ref, href, rfl⟩ := Option.map_eq_some_iff.mp hinput
          obtain ⟨name, id, rest, rfl, rfl⟩ := reference href
          exact .list reads (known hlist (by omega) (by omega))
    | _ => cases hslot
  · intro h
    cases h with
    | block id => exact ⟨_, rfl, rfl⟩
    | numeric reads low high known spells =>
      refine ⟨_, ofJson?_array.mpr ⟨_, reads, rfl⟩, ?_⟩
      rw [Value.hasKind_iff (by omega) (by omega)] at known
      simp only [input?, known, Value.spells_iff.mp spells]
      exact if_pos (by omega)
    | plain reads low high known =>
      refine ⟨_, ofJson?_array.mpr ⟨_, reads, rfl⟩, ?_⟩
      rw [Value.hasKind_iff (by omega) (by omega)] at known
      simp only [input?, known]
      rw [if_neg (by omega), if_pos (by omega)]
    | broadcast reads known | «variable» reads known | list reads known =>
      refine ⟨_, ofJson?_array.mpr ⟨_, reads, rfl⟩, ?_⟩
      rw [Value.hasKind_iff (by omega) (by omega)] at known
      simp [input?, known, reference?]

theorem Denotes.unique {j : Json} {i i' : Input} (h : Denotes j i) (h' : Denotes j i') : i' = i := by
  obtain ⟨slot, hslot, hinput⟩ := input?_iff_denotes.mpr h
  obtain ⟨slot', hslot', hinput'⟩ := input?_iff_denotes.mpr h'
  cases hslot.symm.trans hslot'
  exact Option.some.inj (hinput'.symm.trans hinput)

/-- A text, or an array of scalars of a kind that is known, with a name and an id if it is one of a reference. -/
def Suits (j : Json) : Prop :=
  (∃ id, j = .text id) ∨ ∃ items kind rest k, j = .array items ∧ List.Forall₂ Reads items (kind :: rest) ∧
    kind.HasKind k ∧ (4 ≤ k ∧ k ≤ 10 ∨ 11 ≤ k ∧ k ≤ 13 ∧ 2 ≤ rest.length)

theorem suits_iff {j : Json} : Suits j ↔ ∃ i, Denotes j i := by
  constructor
  · rintro (⟨id, rfl⟩ | ⟨items, kind, rest, k, rfl, reads, known, ⟨low, high⟩ | ⟨low, high, hlength⟩⟩)
    · exact ⟨_, .block id⟩
    · by_cases hk : k ≤ 8
      · exact ⟨_, .numeric reads low hk known (Value.spells_iff.mpr rfl)⟩
      · exact ⟨_, .plain reads (by omega) high known⟩
    · obtain ⟨name, id, others, rfl⟩ : ∃ name id others, rest = name :: id :: others := by
        match rest, hlength with
        | name :: id :: others, _ => exact ⟨name, id, others, rfl⟩
      obtain rfl | rfl | rfl : k = 11 ∨ k = 12 ∨ k = 13 := by omega
      · exact ⟨_, .broadcast reads known⟩
      · exact ⟨_, .variable reads known⟩
      · exact ⟨_, .list reads known⟩
  · rintro ⟨i, h⟩
    cases h with
    | block id => exact .inl ⟨id, rfl⟩
    | numeric reads low high known => exact .inr ⟨_, _, _, _, rfl, reads, known, .inl ⟨low, by omega⟩⟩
    | plain reads low high known => exact .inr ⟨_, _, _, _, rfl, reads, known, .inl ⟨by omega, high⟩⟩
    | broadcast reads known | «variable» reads known | list reads known =>
      exact .inr ⟨_, _, _, _, rfl, reads, known, .inr ⟨by decide, by decide, by simp⟩⟩

theorem Denotes.isSlot {j : Json} {i : Input} (h : Denotes j i) : j.IsSlot := by
  have scalars {items : List Json} {values : List Value} (reads : List.Forall₂ Reads items values) :
      ∀ item ∈ items, ∃ v, item.Reads v := by
    have hread := exists_mapM_iff.mp ⟨values, mapM_eq_some_iff.mpr (reads.imp fun _ _ => value?_eq_some_iff.mpr)⟩
    simpa only [value?_eq_some_iff] using hread
  cases h with
  | block id => exact .text id
  | numeric reads | plain reads | broadcast reads | «variable» reads | list reads => exact .array (scalars reads)

theorem isSlot_iff {j : Json} : (∃ slot, optional? ofJson? j = some slot) ↔ j.IsSlot := by
  cases j with
  | null => exact iff_of_true ⟨none, rfl⟩ .null
  | text id => exact iff_of_true ⟨_, rfl⟩ (.text id)
  | array items =>
    have hread : (∃ slot, optional? ofJson? (.array items) = some slot) ↔ ∃ values, items.mapM value? = some values := by
      simp [optional?, ofJson?, Option.map_eq_some_iff]
    rw [hread, exists_mapM_iff]
    simp only [value?_eq_some_iff]
    constructor
    · exact .array
    · rintro (_ | _ | scalars)
      exact scalars
  | _ => exact iff_of_false (by rintro ⟨_, h⟩; cases h) nofun

end Slot

/-! ### Inputs -/

namespace Input

open Json

/-- The input that slots stand for: the first that is not null decides, and those behind it only have to be slots. -/
inductive Decides : List Json → Input → Prop
  | none {slots : List Json} (null : ∀ slot ∈ slots, slot = .null) : Decides slots .empty
  | first {before later : List Json} {slot : Json} {i : Input} (null : ∀ slot ∈ before, slot = .null)
      (decides : Slot.Denotes slot i) (slots : ∀ slot ∈ later, slot.IsSlot) : Decides (before ++ slot :: later) i

/-- The input that a JSON value stands for. -/
inductive Denotes : Json → Input → Prop
  | nil : Denotes (.array []) .empty
  | marked {mark : Json} {slots : List Json} {i : Input} (marked : mark.IsMark) (decides : Decides slots i) :
      Denotes (.array (mark :: slots)) i

theorem decides_nil_iff {i : Input} : Decides [] i ↔ i = .empty := by
  constructor
  · intro h
    generalize hnil : [] = slots at h
    cases h with
    | none => rfl
    | first => simp at hnil
  · rintro rfl
    exact .none nofun

theorem decides_null_iff {slots : List Json} {i : Input} : Decides (.null :: slots) i ↔ Decides slots i := by
  constructor
  · intro h
    generalize hall : Json.null :: slots = all at h
    cases h with
    | none null =>
      subst hall
      exact .none fun slot hslot => null slot (List.mem_cons_of_mem _ hslot)
    | @first before later slot i null decides hslots =>
      cases before with
      | nil =>
        cases hall
        cases decides
      | cons first before =>
        cases hall
        exact .first (fun slot hslot => null slot (List.mem_cons_of_mem _ hslot)) decides hslots
  · intro h
    cases h with
    | none null => exact .none (List.forall_mem_cons.mpr ⟨rfl, null⟩)
    | first null decides hslots => exact @Decides.first (.null :: _) _ _ _ (List.forall_mem_cons.mpr ⟨rfl, null⟩) decides hslots

theorem decides_cons_iff {slot : Json} {later : List Json} {i : Input} (hslot : slot ≠ .null) :
    Decides (slot :: later) i ↔ Slot.Denotes slot i ∧ ∀ slot ∈ later, slot.IsSlot := by
  constructor
  · intro h
    generalize hall : slot :: later = all at h
    cases h with
    | none null =>
      subst hall
      exact absurd (null slot List.mem_cons_self) hslot
    | @first before later slot i null decides hslots =>
      cases before with
      | nil =>
        cases hall
        exact ⟨decides, hslots⟩
      | cons first before =>
        cases hall
        exact absurd (null _ List.mem_cons_self) hslot
  · rintro ⟨decides, hslots⟩
    exact @Decides.first [] _ _ _ nofun decides hslots

theorem decides_append_iff {before later : List Json} {slot : Json} {i : Input} (null : ∀ slot ∈ before, slot = .null)
    (hslot : slot ≠ .null) : Decides (before ++ slot :: later) i ↔ Slot.Denotes slot i ∧ ∀ slot ∈ later, slot.IsSlot := by
  induction before with
  | nil => exact decides_cons_iff hslot
  | cons first before ih =>
    obtain ⟨rfl, hbefore⟩ := List.forall_mem_cons.mp null
    exact decides_null_iff.trans (ih hbefore)

/-- Slots are read as the input that they stand for. -/
theorem ofSlots?_iff_decides {slots : List Json} {i : Input} :
    (∃ read, slots.mapM (optional? Slot.ofJson?) = some read ∧ ofSlots? read = some i) ↔ Decides slots i := by
  induction slots with
  | nil => simp [ofSlots?, decides_nil_iff, eq_comm]
  | cons slot slots ih =>
    rw [exists_mapM_cons]
    by_cases hnull : slot = .null
    · subst hnull
      rw [decides_null_iff, ← ih]
      simp [optional?, ofSlots?]
    · rw [decides_cons_iff hnull, ← Slot.input?_iff_denotes]
      simp only [← Slot.isSlot_iff, ← exists_mapM_iff]
      have hread : optional? Slot.ofJson? slot = (Slot.ofJson? slot).map some := by
        unfold optional?
        split
        · exact absurd rfl hnull
        · rfl
      simp only [hread, Option.map_eq_some_iff]
      constructor
      · rintro ⟨_, ⟨read, hslot, rfl⟩, as, has, hinput⟩
        exact ⟨⟨read, hslot, hinput⟩, as, has⟩
      · rintro ⟨⟨read, hslot, hinput⟩, as, has⟩
        exact ⟨_, ⟨read, hslot, rfl⟩, as, has, hinput⟩

/-- A JSON value is read as the input that it stands for, and not if it stands for none. -/
theorem ofJson?_iff_denotes {j : Json} {i : Input} : ofJson? j = some i ↔ Denotes j i := by
  constructor
  · intro h
    unfold ofJson? at h
    split at h
    · cases h
      exact .nil
    · rename_i mark slots
      obtain ⟨n, hmark, h⟩ := Option.bind_eq_some_iff.mp h
      obtain ⟨read, hread, h⟩ := Option.bind_eq_some_iff.mp h
      exact .marked (int32?_isSome_iff.mp ⟨n, hmark⟩) (ofSlots?_iff_decides.mp ⟨read, hread, h⟩)
    · cases h
  · rintro (_ | ⟨marked, decides⟩)
    · rfl
    · obtain ⟨n, hmark⟩ := int32?_isSome_iff.mpr marked
      obtain ⟨read, hread, h⟩ := ofSlots?_iff_decides.mpr decides
      simp only [ofJson?, hmark, hread, Option.bind_eq_bind, Option.bind_some, h]

/-! ### What is read, and what decides -/

theorem Decides.isSlot {slots : List Json} {i : Input} (h : Decides slots i) : ∀ slot ∈ slots, slot.IsSlot := by
  cases h with
  | none null => exact fun slot hslot => null slot hslot ▸ .null
  | first null decides hslots =>
    intro slot hslot
    rcases List.mem_append.mp hslot with hslot | hslot
    · exact null slot hslot ▸ .null
    · rcases List.mem_cons.mp hslot with rfl | hslot
      · exact decides.isSlot
      · exact hslots slot hslot

/-- Slots are all null, or there is a first that is not. -/
theorem exists_first (slots : List Json) : (∀ slot ∈ slots, slot = .null) ∨
    ∃ before slot later, slots = before ++ slot :: later ∧ (∀ slot ∈ before, slot = .null) ∧ slot ≠ .null := by
  induction slots with
  | nil => exact .inl nofun
  | cons slot slots ih =>
    by_cases hnull : slot = .null
    · rcases ih with hall | ⟨before, first, later, rfl, hbefore, hfirst⟩
      · exact .inl (List.forall_mem_cons.mpr ⟨hnull, hall⟩)
      · exact .inr ⟨slot :: before, first, later, rfl, List.forall_mem_cons.mpr ⟨hnull, hbefore⟩, hfirst⟩
    · exact .inr ⟨[], slot, slots, rfl, nofun, hnull⟩

theorem exists_decides_iff {slots : List Json} : (∃ i, Decides slots i) ↔ (∀ slot ∈ slots, slot.IsSlot) ∧
    ∀ before slot later, slots = before ++ slot :: later → (∀ slot ∈ before, slot = .null) → slot ≠ .null → Slot.Suits slot := by
  constructor
  · rintro ⟨i, h⟩
    refine ⟨h.isSlot, ?_⟩
    rintro before slot later rfl hbefore hslot
    exact Slot.suits_iff.mpr ⟨i, ((decides_append_iff hbefore hslot).mp h).1⟩
  · rintro ⟨hslots, hfirst⟩
    rcases exists_first slots with hall | ⟨before, slot, later, rfl, hbefore, hslot⟩
    · exact ⟨.empty, .none hall⟩
    · obtain ⟨i, h⟩ := Slot.suits_iff.mp (hfirst before slot later rfl hbefore hslot)
      exact ⟨i, .first hbefore h fun s hs => hslots s (List.mem_append_right _ (List.mem_cons_of_mem _ hs))⟩

/-- With slots behind it that are slots, the first slot that is not null is all that counts. -/
theorem ofJson?_first {mark slot : Json} {before later : List Json} (marked : mark.IsMark)
    (hbefore : ∀ slot ∈ before, slot = .null) (hslot : slot ≠ .null) (hlater : ∀ slot ∈ later, slot.IsSlot) (i : Input) :
    ofJson? (.array (mark :: (before ++ slot :: later))) = some i ↔ Slot.Denotes slot i := by
  rw [ofJson?_iff_denotes]
  constructor
  · rintro (_ | ⟨-, decides⟩)
    exact ((decides_append_iff hbefore hslot).mp decides).1
  · exact fun h => .marked marked (.first hbefore h hlater)

/-- How inputs are read. Of all JSON values just those are read that are arrays, with a whole number of 32 bits in front
if there is anything, then nothing but slots, the first of which that is not null suits. Such an array stands for no
input if all its slots are null and otherwise for what that slot stands for, which is one input. So neither the number
in front nor the slots behind the first one that is not null make any difference. -/
theorem inputs_read_exactly :
    (∀ j, (∃ i, ofJson? j = some i) ↔ ∃ items, j = .array items ∧ (∀ mark ∈ items.head?, mark.IsMark) ∧
      (∀ slot ∈ items.tail, slot.IsSlot) ∧ ∀ before slot later, items.tail = before ++ slot :: later →
        (∀ slot ∈ before, slot = .null) → slot ≠ .null → Slot.Suits slot) ∧
    (∀ j i, ofJson? j = some i ↔ Denotes j i) ∧
    (∀ slot i i', Slot.Denotes slot i → Slot.Denotes slot i' → i' = i) ∧
    ∀ mark mark' slot before before' later later', mark.IsMark → mark'.IsMark → slot ≠ .null →
      (∀ slot ∈ before ++ before', slot = .null) → (∀ slot ∈ later ++ later', slot.IsSlot) →
      ofJson? (.array (mark :: (before ++ slot :: later))) = ofJson? (.array (mark' :: (before' ++ slot :: later'))) := by
  refine ⟨fun j => ?_, fun j i => ofJson?_iff_denotes, fun slot i i' => Slot.Denotes.unique, ?_⟩
  · simp only [ofJson?_iff_denotes]
    constructor
    · rintro ⟨i, _ | ⟨marked, decides⟩⟩
      · exact ⟨[], rfl, nofun, nofun, fun before slot later h => by simp at h⟩
      · refine ⟨_, rfl, fun mark hmark => ?_, exists_decides_iff.mp ⟨i, decides⟩⟩
        cases hmark
        exact marked
    · rintro ⟨items, rfl, hmark, hslots⟩
      cases items with
      | nil => exact ⟨.empty, .nil⟩
      | cons mark slots =>
        obtain ⟨i, decides⟩ := exists_decides_iff.mpr hslots
        exact ⟨i, .marked (hmark mark rfl) decides⟩
  · intro mark mark' slot before before' later later' marked marked' hslot null slots
    obtain ⟨hbefore, hbefore'⟩ := List.forall_mem_append.mp null
    obtain ⟨hlater, hlater'⟩ := List.forall_mem_append.mp slots
    refine Option.ext fun i => ?_
    rw [ofJson?_first marked hbefore hslot hlater, ofJson?_first marked' hbefore' hslot hlater']

/-- An obscured shadow, and the same literal where it stands alone. -/
theorem obscured_shadow_read :
    ofJson? (.array [.number (.whole 3), .null, .array [.number (.whole 4), .text "0x1f"], .text "shadow"]) =
      ofJson? (.array [.number (.whole 1), .array [.number (.whole 4), .text "0x1f"]]) ∧
    ofJson? (.array [.number (.whole 1), .array [.number (.whole 4), .text "0x1f"]]) = some (.literal (.number 31)) := by
  obtain ⟨-, -, -, first⟩ := inputs_read_exactly
  refine ⟨first _ _ _ [.null] [] [.text "shadow"] [] ⟨3, rfl, by decide⟩ ⟨1, rfl, by decide⟩ nofun ?_ ?_, by decide +kernel⟩
  · exact List.forall_mem_singleton.mpr rfl
  · exact List.forall_mem_singleton.mpr (.text "shadow")

end Input
end BlockScript
