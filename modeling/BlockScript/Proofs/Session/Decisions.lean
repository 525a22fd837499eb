import BlockScript.Proofs.Block.Random
import BlockScript.Proofs.Number.HalfUp
import BlockScript.Proofs.Scene.ListIndex
import BlockScript.Proofs.Session.Settings
import BlockScript.Proofs.Value.Comparison
import BlockScript.Proofs.Value.Spelling

/-!
Decisions on numbers. The general reader of decimal numbers knows names for infinity and `nan`, but every such name has
a letter that texts of numbers may not have, so no text, no value and no operand reads as `nan`. Blocks that decide by
comparing numbers therefore always find one of them below the other or both equal, and take no branch for want of an
order.
-/
namespace BlockScript

/-! ### Names that readers know -/

theorem isForeignLetter_of_toLower {c : Char} (h : c.toLower = 'n') : isForeignLetter c = true := by
  have hc : c = 'n' ∨ c = 'N' := by
    unfold Char.toLower at h
    split at h
    · rename_i hupper
      have hval := congrArg (·.val.toNat) h
      refine .inr (Char.ext (UInt32.toNat_inj.mp ?_))
      simp [UInt32.le_iff_toNat_le] at hval hupper ⊢
      omega
    · exact .inl h
  rcases hc with rfl | rfl <;> decide

namespace Number

variable {s : String} {negative : Bool} {cs : List Char}

/-- The general reader gives `nan` for its name in any case, with an optional sign, and for nothing else. -/
theorem read?_eq_nan_iff (s : String) : read? s = some .nan ↔ (splitSign s.toList).2.map Char.toLower = "nan".toList := by
  unfold read?
  generalize splitSign s.toList = parts
  obtain ⟨negative, rest⟩ := parts
  dsimp only
  split
  · rename_i hname
    refine iff_of_false nofun fun hnan => ?_
    rw [hnan] at hname
    exact absurd hname (by decide)
  · split
    · rename_i hnan
      exact iff_of_true rfl hnan
    · rename_i hnan
      exact iff_of_false (readUnsigned?_ne_nan negative rest) hnan

/-- Every name that the general reader knows has an `n`. -/
theorem any_isForeignLetter_of_name (h : cs.map Char.toLower = "inf".toList ∨ cs.map Char.toLower = "infinity".toList ∨
    cs.map Char.toLower = "nan".toList) : cs.any isForeignLetter = true := by
  have hmem : 'n' ∈ cs.map Char.toLower := by
    rcases h with h | h | h
    · rw [h]
      decide
    · rw [h]
      decide
    · rw [h]
      decide
  obtain ⟨c, hc, hlower⟩ := List.mem_map.mp hmem
  exact List.any_eq_true.mpr ⟨c, hc, isForeignLetter_of_toLower hlower⟩

theorem any_isForeignLetter_of_rest (h : (splitSign cs).2.any isForeignLetter = true) : cs.any isForeignLetter = true := by
  obtain ⟨sign, -, hcs⟩ := sign_splitSign cs
  rw [hcs, List.any_append, h, Bool.or_true]

/-- Behind the filter for letters the general reader knows no names. -/
theorem readDecimal?_eq_read? (h : s.toList.any isForeignLetter = false) : readDecimal? s.toList = read? s := by
  have hname (hrest : (splitSign s.toList).2.map Char.toLower = "inf".toList ∨
      (splitSign s.toList).2.map Char.toLower = "infinity".toList ∨
      (splitSign s.toList).2.map Char.toLower = "nan".toList) : False := by
    rw [any_isForeignLetter_of_rest (any_isForeignLetter_of_name hrest)] at h
    cases h
  unfold readDecimal? read?
  dsimp only
  rw [if_neg fun hinf => hname (hinf.imp_right .inl), if_neg fun hnan => hname (.inr (.inr hnan))]

/-! ### Comparisons -/

variable {x y : Number}

theorem lt_or_le (hx : x ≠ .nan) (hy : y ≠ .nan) : x < y ∨ y ≤ x :=
  (Decidable.em (x < y)).imp_right (le_of_not_lt hx hy)

theorem lt_or_lt_of_not_eqv (hx : x ≠ .nan) (hy : y ≠ .nan) (h : ¬x.eqv y = true) : x < y ∨ y < x := by
  refine (lt_or_le hx hy).imp_right fun hle => ?_
  rcases hle with hlt | heq
  · exact hlt
  · rw [eqv_comm] at h
    exact absurd (eqv_iff.mpr heq) h

theorem floor_ne_nan (h : x ≠ .nan) : x.floor ≠ .nan := by
  cases x with
  | nan => exact absurd rfl h
  | infinity s =>
    show infinity s ≠ nan
    simp
  | finite s m fits => exact ne_nan_of_isFinite (toRat_floor rfl).1

theorem roundHalfUp_ne_nan (h : x ≠ .nan) : x.roundHalfUp ≠ .nan := by
  refine floor_ne_nan ?_
  cases x with
  | nan => exact absurd rfl h
  | infinity s =>
    obtain ⟨fits, hhalf⟩ := half_eq
    rw [hhalf]
    show infinity s ≠ nan
    simp
  | finite s m fits => exact ne_nan_of_isFinite (isFinite_add_half rfl)

/-- What stopping at the bounds of a range decides. -/
inductive Clamps (low high x : Number) : Number → Prop
  | low (below : x < low) : Clamps low high x low
  | high (above : high < x) : Clamps low high x high
  | inside (low_le : low ≤ x) (le_high : x ≤ high) : Clamps low high x x

theorem clamps {low high : Number} (hx : x ≠ .nan) (hlow : low ≠ .nan) (hhigh : high ≠ .nan) :
    Clamps low high x (x.clamp low high) := by
  unfold clamp
  split
  · rename_i hbelow
    exact .low hbelow
  · rename_i hbelow
    split
    · rename_i habove
      exact .high habove
    · rename_i habove
      exact .inside (le_of_not_lt hx hlow hbelow) (le_of_not_lt hhigh hx habove)

end Number

open Number

/-! ### Blocks that compare -/

/-- How a loop counts a number: negative ones as none, others rounded, with a record where that is another number. -/
inductive Counts (x : Number) : Nat → List LogRecord → Prop
  | negative (below : x < 0) (r : LogRecord) : Counts x 0 [r]
  | whole (above : 0 ≤ x) (same : x.roundHalfUp.eqv x = true) : Counts x x.roundHalfUp.toNat64 []
  | rounded (above : 0 ≤ x) (other : x.roundHalfUp < x ∨ x < x.roundHalfUp) (r : LogRecord) :
      Counts x x.roundHalfUp.toNat64 [r]

theorem counts {x : Number} (hx : x ≠ .nan) : Counts x (iterationCount x).1 (iterationCount x).2 := by
  unfold iterationCount
  dsimp only
  split
  · rename_i hbelow
    exact .negative hbelow _
  · rename_i hbelow
    have habove := le_of_not_lt hx (ofNat_ne_nan 0) hbelow
    dsimp only
    split
    · rename_i hsame
      exact .whole habove hsame
    · rename_i hother
      exact .rounded habove (lt_or_lt_of_not_eqv (roundHalfUp_ne_nan hx) hx hother) _

/-- How a script waits for a number of seconds. -/
inductive World.Waits (w : World) (next : List Frame) (x : Number) : World × Progress → Prop
  | negative (below : x < 0) (r : LogRecord) : Waits w next x (w.log r, .go next)
  | span (above : 0 ≤ x) {ns : Nat} (fits : x.nanoseconds? = some ns) : Waits w next x (w, w.sleep next ns)
  | endless (above : 0 ≤ x) (excess : x.nanoseconds? = none) : Waits w next x (w, .rest next .stalled)

theorem World.waits (w : World) (c : Caller) (next : List Frame) {x : Number} (hx : x ≠ .nan) :
    w.Waits next x (w.wait c next x) := by
  unfold wait
  split
  · rename_i hbelow
    exact .negative hbelow _
  · rename_i hbelow
    have habove := le_of_not_lt hx (ofNat_ne_nan 0) hbelow
    split
    · rename_i ns hspan
      exact .span habove hspan
    · rename_i hspan
      exact .endless habove hspan

/-- What the floor of a number stands for in a list of a length. -/
inductive Positions (x : Number) (length : Nat) : ListIndex → Prop
  | before (h : x.floor < 1) : Positions x length .invalid
  | behind (h : ofNat length < x.floor) : Positions x length .invalid
  | inside (first : 1 ≤ x.floor) (last : x.floor ≤ ofNat length) : Positions x length (.item x.floor.toNat64)

theorem positions {v : Value} {acceptAll : Bool} (hplace : ¬v.IsPlaceWord) (hall : ¬(v = .text "all" ∧ acceptAll = true))
    (length draw : Nat) : Positions v.toNumber length (listIndex v length acceptAll draw) := by
  have hfloor := floor_ne_nan v.toNumber_ne_nan
  rw [listIndex_eq_floor hplace hall]
  split
  · rename_i hout
    exact hout.elim .before .behind
  · rename_i hin
    obtain ⟨hfirst, hlast⟩ := not_or.mp hin
    exact .inside (le_of_not_lt hfloor (ofNat_ne_nan 1) hfirst) (le_of_not_lt (ofNat_ne_nan length) hfloor hlast)

/-- How a random number is picked between two bounds, the smaller one first. -/
inductive Picks (a b : Value) (draw : Nat) : Number → Prop
  | single (ordered : lowerBound a b ≤ upperBound a b)
      (one : (lowerBound a b).eqv (upperBound a b) = true ∨
        ¬((lowerBound a b).isFinite = true ∧ (upperBound a b).isFinite = true)) : Picks a b draw (lowerBound a b)
  | whole (ordered : lowerBound a b < upperBound a b)
      (finite : (lowerBound a b).isFinite = true ∧ (upperBound a b).isFinite = true)
      (whole : a.isInt = true ∧ b.isInt = true) (first : ofInt (-(twoPow 63 : Int)) ≤ lowerBound a b)
      (last : upperBound a b ≤ ofInt ((twoPow 63 : Int) - 1)) :
      Picks a b draw (pickWhole (lowerBound a b) (upperBound a b) draw)
  | between (ordered : lowerBound a b < upperBound a b)
      (finite : (lowerBound a b).isFinite = true ∧ (upperBound a b).isFinite = true)
      (other : ¬(a.isInt = true ∧ b.isInt = true) ∨ lowerBound a b < ofInt (-(twoPow 63 : Int)) ∨
        ofInt ((twoPow 63 : Int) - 1) < upperBound a b) :
      Picks a b draw (pickBetween (lowerBound a b) (upperBound a b) draw)

theorem bounds_spec (a b : Value) :
    lowerBound a b ≠ .nan ∧ upperBound a b ≠ .nan ∧ lowerBound a b ≤ upperBound a b := by
  unfold lowerBound upperBound
  split
  · rename_i hle
    exact ⟨a.toNumber_ne_nan, b.toNumber_ne_nan, hle⟩
  · rename_i hle
    refine ⟨b.toNumber_ne_nan, a.toNumber_ne_nan, ?_⟩
    rcases lt_or_le b.toNumber_ne_nan a.toNumber_ne_nan with hlt | hge
    · exact .inl hlt
    · exact absurd hge hle

theorem picks (a b : Value) (draw : Nat) : Picks a b draw (pickRandom a b draw) := by
  obtain ⟨hlow, hhigh, hle⟩ := bounds_spec a b
  rw [pickRandom_bounds]
  split
  · rename_i hone
    refine .single hle ?_
    simpa only [Bool.or_eq_true, Bool.not_eq_true', Bool.and_eq_true, ← Bool.not_eq_true] using hone
  · rename_i hone
    rw [Bool.or_eq_true, not_or] at hone
    have hlt : lowerBound a b < upperBound a b :=
      hle.resolve_right fun heq => hone.1 (eqv_iff.mpr heq)
    have hfinite : (lowerBound a b).isFinite = true ∧ (upperBound a b).isFinite = true := by
      simpa only [Bool.not_eq_true', Bool.not_eq_false, Bool.and_eq_true] using hone.2
    split
    · rename_i hwhole
      simp only [Bool.and_eq_true, decide_eq_true_eq] at hwhole
      obtain ⟨⟨hints, hfirst⟩, hlast⟩ := hwhole
      exact .whole hlt hfinite hints hfirst hlast
    · rename_i hwhole
      simp only [Bool.and_eq_true, decide_eq_true_eq, not_and_or] at hwhole
      refine .between hlt hfinite ?_
      rcases hwhole with (hints | hfirst) | hlast
      · exact .inl (not_and_or.mpr hints)
      · exact .inr (.inl ((lt_or_le hlow (ofQuotient_ne_nan _ _ _)).resolve_right hfirst))
      · exact .inr (.inr ((lt_or_le (ofQuotient_ne_nan _ _ _) hhigh).resolve_right hlast))

theorem Picks.ne_nan {a b : Value} {draw : Nat} {x : Number} (h : Picks a b draw x) : x ≠ .nan := by
  cases h with
  | single ordered one => exact (bounds_spec a b).1
  | whole ordered finite whole first last =>
    unfold pickWhole ofInt
    exact ofQuotient_ne_nan _ _ _
  | between ordered finite other =>
    have hle := (lt_iff_toRat finite.1 finite.2).mp ordered
    exact ne_nan_of_isFinite (pickBetween_mem finite.1 finite.2 hle.le draw).1

/-- What a setting becomes when it is set, or changed by an amount. -/
def AudioSetting.target (setting : AudioSetting) (a : AudioSettings) (amount : Number) (relative : Bool) : Number :=
  if relative then setting.get a + amount else amount

theorem AudioSetting.adjusts (setting : AudioSetting) {a : AudioSettings} {amount : Number} {relative : Bool}
    (number : amount ≠ .nan) (finite : relative = true → (setting.get a).isFinite = true) :
    ∃ x, setting.adjust a amount relative = setting.set a x ∧
      Clamps setting.range.1 setting.range.2 (setting.target a amount relative) x := by
  obtain ⟨hlow, hhigh, -⟩ := setting.range_spec
  refine ⟨_, rfl, clamps ?_ (ne_nan_of_isFinite hlow) (ne_nan_of_isFinite hhigh)⟩
  unfold target
  split
  · rename_i hrelative
    exact add_ne_nan (finite hrelative) number
  · exact number

namespace Value

/-- How two values compare that both have a numeric reading. -/
inductive Compares (x y : Number) : Ordering → Prop
  | lt (h : x < y) : Compares x y .lt
  | eq (h : x.eqv y = true) : Compares x y .eq
  | gt (h : y < x) : Compares x y .gt

theorem order_of_number? {a b : Value} {x y : Number} (ha : a.number? = some x) (hb : b.number? = some y) :
    a.order b = (x.order? y).getD .eq := by
  have hplain (v : Value) {z : Number} (hv : v.number? = some z) : v.isEmpty = false ∧ v.isBoolean = false := by
    cases v with
    | boolean p => cases hv
    | empty => cases hv
    | _ => exact ⟨rfl, rfl⟩
  unfold order
  rw [(hplain a ha).1, (hplain b hb).1, (hplain a ha).2, (hplain b hb).2, ha, hb]
  rfl

theorem compares {a b : Value} {x y : Number} (ha : a.number? = some x) (hb : b.number? = some y) :
    Compares x y (a.order b) := by
  obtain ⟨o, ho⟩ := exists_order? ha hb
  rw [order_of_number? ha hb, ho, Option.getD_some]
  cases o with
  | lt => exact .lt ho
  | eq => exact .eq (eqv_iff.mpr ho)
  | gt =>
    refine .gt ?_
    show y.order? x = some .lt
    rw [order?_swap x y, ho]
    rfl

/-- Every decision that blocks take on the number of a value is taken by an order that the number has. -/
structure Decides (v : Value) : Prop where
  toNumber : v.toNumber ≠ .nan
  number? : v.number? ≠ some .nan
  counts : Counts v.toNumber (iterationCount v.toNumber).1 (iterationCount v.toNumber).2
  waits (w : World) (c : Caller) (next : List Frame) : w.Waits next v.toNumber (w.wait c next v.toNumber)
  positions {acceptAll : Bool} (place : ¬v.IsPlaceWord) (all : ¬(v = .text "all" ∧ acceptAll = true))
    (length draw : Nat) : Positions v.toNumber length (listIndex v length acceptAll draw)
  adjusts (setting : AudioSetting) {a : AudioSettings} {relative : Bool}
    (finite : relative = true → (setting.get a).isFinite = true) :
    ∃ x, setting.adjust a v.toNumber relative = setting.set a x ∧
      Clamps setting.range.1 setting.range.2 (setting.target a v.toNumber relative) x

theorem decides (v : Value) : v.Decides where
  toNumber := v.toNumber_ne_nan
  number? := v.number?_ne_nan
  counts := BlockScript.counts v.toNumber_ne_nan
  waits w c next := w.waits c next v.toNumber_ne_nan
  positions place all := BlockScript.positions place all
  adjusts setting _ _ finite := setting.adjusts v.toNumber_ne_nan finite

end Value

namespace Session

theorem isFinite_setting {config : Config} {pointer : Pointer} {text : String} {project : Project}
    {logs : List LogRecord} (loaded : Project.ofText config pointer text = (.ok project, logs)) {moves : List Move}
    (quiet : LeavesAudio moves) (n : Nat) (setting : AudioSetting) :
    (setting.get (((ofProject project).after moves).scene.audioOf n)).isFinite = true := by
  refine (isTuned_after loaded quiet n).isFinite_get ?_ setting
  obtain ⟨volume, hvolume, hn⟩ := loaded_audio loaded n
  show (project.scene.audioOf n).volume.isFinite = true
  rw [hn]
  exact hvolume

end Session

/-- No reading gives `nan`. Texts are filtered for letters before they reach the general reader, whose `nan` has two such
letters; values and operands have no reading but those of texts, or a number that is not `nan`. So a loop counts, a
script waits, a position is looked up, a random number is picked, a setting is adjusted and two values compare by orders
that the numbers have, and of the settings that a change starts from, those of a loaded project are finite as long as
only scripts change them. -/
theorem coercions_never_nan :
    (∀ s : String, (read? s = some .nan ↔ (splitSign s.toList).2.map Char.toLower = "nan".toList) ∧
      (read? s = some .nan → s.toList.any isForeignLetter = true) ∧
      (s.toList.any isForeignLetter = false → readDecimal? s.toList = read? s) ∧ readNumber? s ≠ some .nan) ∧
    (∀ v : Value, v.Decides) ∧
    (∀ (w : World) (figure : Nat) (o : Operand Nat),
      (w.evaluate figure o.number).1 = (w.evaluate figure o.eval).1.toNumber) ∧
    (∀ (a b : Value) (draw : Nat), Picks a b draw (pickRandom a b draw) ∧ pickRandom a b draw ≠ .nan) ∧
    (∀ (a b : Value) (x y : Number), a.number? = some x → b.number? = some y → Value.Compares x y (a.order b)) ∧
    ∀ (config : Config) (pointer : Pointer) (text : String) (project : Project) (logs : List LogRecord),
      Project.ofText config pointer text = (.ok project, logs) → ∀ moves, Session.LeavesAudio moves →
        ∀ (n : Nat) (setting : AudioSetting),
          (setting.get (((Session.ofProject project).after moves).scene.audioOf n)).isFinite = true := by
  refine ⟨fun s => ⟨read?_eq_nan_iff s, fun hnan => ?_, readDecimal?_eq_read?, readNumber?_ne_nan s⟩, Value.decides,
    fun w figure o => rfl, fun a b draw => ⟨picks a b draw, (picks a b draw).ne_nan⟩, fun a b x y => Value.compares,
    fun config pointer text project logs loaded moves => Session.isFinite_setting loaded⟩
  exact any_isForeignLetter_of_rest (any_isForeignLetter_of_name (.inr (.inr ((read?_eq_nan_iff s).mp hnan))))

/-- The general reader knows `nan` with a sign and in mixed case, but a value with this text reads as zero. The texts of
an infinity and of a number in base two compare as numbers. -/
theorem spelled_nan_reads_as_zero : read? "-NaN" = some .nan ∧ "-NaN".toList.any isForeignLetter = true ∧
    readNumber? "-NaN" = none ∧ (Value.text "-NaN").toNumber = 0 ∧ (Value.text "-NaN").Decides ∧
    Value.Compares (.infinity true) 2 ((Value.text " -Infinity").order (.text "0b10")) := by
  obtain ⟨texts, values, -, -, orders, -⟩ := coercions_never_nan
  have hnan : read? "-NaN" = some .nan := (texts "-NaN").1.mpr (by decide)
  exact ⟨hnan, (texts "-NaN").2.1 hnan, by decide +kernel, by decide +kernel, values _,
    orders _ _ _ _ (by decide +kernel) (by decide +kernel)⟩

end BlockScript
