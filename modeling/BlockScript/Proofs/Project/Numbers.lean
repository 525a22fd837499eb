import BlockScript.Project.Load
import BlockScript.Proofs.Number.Finite

/-!
The numbers of stored projects. A token beyond the doubles denotes nothing, so every number of a text that can be read
is finite, and a loaded project has figures with finite poses and volumes.
-/
namespace BlockScript

/-! ### Number tokens -/

namespace Json

/-- A power of ten is at least one. -/
theorem powerOfTen_cases (e : Nat) :
    powerOfTen e = .infinity false ∨ ∃ n fits, powerOfTen e = .finite false n fits ∧ quantaPerOne ≤ n := by
  unfold powerOfTen Number.ofDecimal
  rw [if_neg Nat.one_ne_zero]
  split
  · exact .inl rfl
  · rw [if_neg (by omega), if_pos (Int.natCast_nonneg e), Nat.one_mul]
    have hone : quantaPerOne ≤ tenPow (e : Int).toNat * quantaPerOne :=
      Nat.le_mul_of_pos_left _ (tenPow_eq _ ▸ Nat.pow_pos (by decide))
    unfold Number.ofQuotient
    split
    · rename_i hlt
      exact .inr ⟨_, ⟨hlt, roundQuotient_dvd _ _⟩, rfl, twoPow_le_roundQuotient hone⟩
    · exact .inl rfl

variable {x y : Number} {k : Nat}

theorem within_div_powerOfTen (hx : x.Within k) (hk : k ≤ 2097) (e : Nat) : (x / powerOfTen e).Within k := by
  obtain ⟨hle⟩ := hx
  rename_i s m hm
  rcases powerOfTen_cases e with hten | ⟨n, fits, hten, hone⟩
  · rw [hten]
    exact Number.within_zero _
  · have hn : n ≠ 0 := Nat.ne_of_gt (Nat.lt_of_lt_of_le (twoPow_pos 1074) hone)
    rw [hten]
    show (if n = 0 then _ else Number.ofQuotient (s ^^ false) (m * quantaPerOne) n).Within k
    rw [if_neg hn]
    exact Number.within_ofQuotient (Nat.pos_of_ne_zero hn) hk (Nat.mul_le_mul hle hone)

theorem isFinite_scale? {exponent : Int} (hx : x.Within k) (hk : k ≤ 2097) (h : scale? x exponent = some y) :
    y.isFinite = true := by
  fun_induction scale? x exponent with
  | case1 x exponent hshort hpositive z hz =>
    rw [← Option.some.inj h]
    exact hz
  | case2 => cases h
  | case3 x exponent hshort hnegative =>
    cases h
    exact (within_div_powerOfTen hx hk _).isFinite
  | case4 x exponent hlong hzero =>
    cases h
    exact hx.isFinite
  | case5 => cases h
  | case6 x exponent hlong hzero hnegative ih => exact ih (within_div_powerOfTen hx hk 308) h

theorem absorb_le {significand : Nat} {digits : List Nat} (h : significand ≤ maxSignificand) :
    (absorb significand digits).1 ≤ maxSignificand := by
  fun_induction absorb significand digits with
  | case1 => exact h
  | case2 => exact h
  | case3 significand d rest hroom ih => exact ih (Nat.le_of_not_lt hroom)

theorem within_ofSignificand {n : Nat} (h : n ≤ maxSignificand) : (Number.ofNat n).Within (64 + 1074) :=
  Number.within_ofNat (h.trans (Nat.sub_le _ _)) (by decide)

theorem NumberToken.isFinite_real? {t : NumberToken} (h : t.real? = some x) : x.isFinite = true := by
  obtain ⟨magnitude, hmagnitude, rfl⟩ := Option.map_eq_some_iff.mp h
  have hzero : (0 : Number).Within (0 + 1074) := Number.within_ofNat (Nat.zero_le _) (by decide)
  have hfinite : magnitude.isFinite = true := by
    split at hmagnitude
    · split at hmagnitude
      · cases hmagnitude
      · rw [← Option.some.inj hmagnitude]
        exact hzero.isFinite
    · exact isFinite_scale? (within_ofSignificand (absorb_le (absorb_le (Nat.zero_le _)))) (by decide) hmagnitude
  split
  · cases magnitude with
    | finite s m hm => rfl
    | _ => cases hfinite
  · exact hfinite

/-- A number token that denotes a number denotes a finite one. -/
theorem NumberToken.isFinite_value? {t : NumberToken} {n : JsonNumber} (h : t.value? = some n) :
    n.toNumber.isFinite = true := by
  unfold NumberToken.value? at h
  dsimp only at h
  split at h
  · rename_i hwhole
    simp only [Bool.and_eq_true, decide_eq_true_eq] at hwhole
    have hle := hwhole.2
    generalize Number.ofDigits 10 t.whole = m at *
    have hword : m ≤ twoPow 64 := hle.trans (Nat.sub_le _ _)
    split at h
    · cases h
      exact (Number.within_ofInt (n := m) hword (by decide)).isFinite
    · split at h
      · cases h
        refine (Number.within_ofInt (n := -m) (j := 64) ?_ (by decide)).isFinite
        rwa [Int.natAbs_neg]
      · cases h
        exact (within_ofSignificand hle).neg.isFinite
  · obtain ⟨x, hx, rfl⟩ := Option.map_eq_some_iff.mp h
    exact isFinite_real? hx

/-! ### Texts -/

/-- All numbers in a value are finite. -/
inductive Finite : Json → Prop
  | null : Finite .null
  | bool (b : Bool) : Finite (.bool b)
  | number {n : JsonNumber} : n.toNumber.isFinite = true → Finite (.number n)
  | text (s : String) : Finite (.text s)
  | array {items : List Json} : (∀ j ∈ items, Finite j) → Finite (.array items)
  | object {members : List (String × Json)} : (∀ m ∈ members, Finite m.2) → Finite (.object members)
  | unreadable : Finite .unreadable
  | cut {beginning : Json} : Finite beginning → Finite (.cut beginning)

theorem finite_number_iff {n : JsonNumber} : (number n).Finite ↔ n.toNumber.isFinite = true := by
  refine ⟨fun h => ?_, .number⟩
  cases h with
  | number h => exact h

theorem finite_array_iff {items : List Json} : (array items).Finite ↔ ∀ j ∈ items, j.Finite := by
  refine ⟨fun h => ?_, .array⟩
  cases h with
  | array h => exact h

theorem finite_object_iff {members : List (String × Json)} : (object members).Finite ↔ ∀ m ∈ members, m.2.Finite := by
  refine ⟨fun h => ?_, .object⟩
  cases h with
  | object h => exact h

/-- A number in a token is finite. -/
def Token.Finite (t : Token) : Prop := ∀ n, t = .number (some n) → n.toNumber.isFinite = true

theorem finite_mark? {c : Char} {t : Token} (h : mark? c = some t) : t.Finite := by
  rintro n rfl
  unfold mark? at h
  split at h <;> cases h

theorem finite_word? {cs : List Char} {t : Token} (h : word? cs = some t) : t.Finite := by
  rintro n rfl
  unfold word? at h
  split at h
  · cases h
  · split at h
    · cases h
    · split at h <;> cases h

theorem finite_scan {done : List Token} {cs : List Char} (h : ∀ t ∈ done, t.Finite) :
    ∀ t ∈ (scan done cs).1, t.Finite := by
  have grown {done : List Token} {t : Token} (h : ∀ t ∈ done, t.Finite) (ht : t.Finite) :
      ∀ u ∈ t :: done, u.Finite := by
    intro u hu
    rcases List.mem_cons.mp hu with rfl | hu
    · exact ht
    · exact h u hu
  fun_induction scan done cs with
  | case1 done => exact h
  | case2 done c rest hgap ih => exact ih h
  | case3 done c rest hgap hquote units after htext ih => exact ih (grown h fun _ => nofun)
  | case4 done => exact h
  | case5 done c rest hgap hquote hnumber t ht ih =>
    refine ih (grown h fun n hn => ?_)
    exact NumberToken.isFinite_value? (Token.number.inj hn)
  | case6 done => exact h
  | case7 done c rest hgap hquote hnumber t ht ih => exact ih (grown h (finite_mark? ht))
  | case8 done c rest hgap hquote hnumber hmark t ht ih => exact ih (grown h (finite_word? ht))
  | case9 done => exact h

theorem finite_tokens {s : String} : ∀ t ∈ (tokens s).1, t.Finite := by
  intro t ht
  unfold tokens at ht
  exact finite_scan (fun _ h => absurd h List.not_mem_nil) t (List.mem_reverse.mp ht)

/-- What an open container holds so far has finite numbers. -/
def Opened.Finite : Opened → Prop
  | .array items => ∀ j ∈ items, j.Finite
  | .object members => ∀ m ∈ members, m.2.Finite
  | .member members _ => ∀ m ∈ members, m.2.Finite

namespace Reading

/-- All that has been read so far, open containers and the result, has finite numbers. -/
structure Finite (r : Reading) : Prop where
  stack : ∀ o ∈ r.stack, o.Finite
  result : r.result.Finite

variable {r r' : Reading} {t : Token}

theorem finite_closeMembers {members : List (Option String × Json)} (h : ∀ m ∈ members, m.2.Finite) :
    (closeMembers members).Finite := by
  have hobject : (Json.object (readableMembers members.reverse)).Finite := by
    refine .object fun m hm => ?_
    obtain ⟨m', hm', hkey⟩ := List.mem_filterMap.mp hm
    obtain ⟨k, -, rfl⟩ := Option.map_eq_some_iff.mp hkey
    exact h m' (List.mem_reverse.mp ((List.takeWhile_sublist _).subset hm'))
  unfold closeMembers
  dsimp only
  split
  · exact hobject
  · exact .cut hobject

theorem Finite.place {j : Json} (h : r.Finite) (hj : j.Finite) (hplace : r.place j = some r') : r'.Finite := by
  obtain ⟨stack, expected, result⟩ := r
  unfold Reading.place at hplace
  dsimp only at hplace
  split at hplace
  · cases hplace
    exact ⟨h.stack, hj⟩
  · cases hplace
    obtain ⟨hitems, hbelow⟩ := List.forall_mem_cons.mp h.stack
    exact ⟨List.forall_mem_cons.mpr ⟨List.forall_mem_cons.mpr ⟨hj, hitems⟩, hbelow⟩, h.result⟩
  · cases hplace
    obtain ⟨hmembers, hbelow⟩ := List.forall_mem_cons.mp h.stack
    exact ⟨List.forall_mem_cons.mpr ⟨List.forall_mem_cons.mpr ⟨hj, hmembers⟩, hbelow⟩, h.result⟩
  · cases hplace

theorem Finite.startValue (h : r.Finite) (ht : t.Finite) (hstart : r.startValue t = some r') : r'.Finite := by
  unfold Reading.startValue at hstart
  split at hstart
  · cases hstart
    exact ⟨List.forall_mem_cons.mpr ⟨List.forall_mem_nil _, h.stack⟩, h.result⟩
  · cases hstart
    exact ⟨List.forall_mem_cons.mpr ⟨List.forall_mem_nil _, h.stack⟩, h.result⟩
  · exact h.place .null hstart
  · exact h.place (.bool _) hstart
  · exact h.place (.number (ht _ rfl)) hstart
  · exact h.place .unreadable hstart
  · exact h.place (.text _) hstart
  · exact h.place .unreadable hstart
  · cases hstart

theorem Finite.close (h : r.Finite) (hclose : r.close t = some r') : r'.Finite := by
  obtain ⟨stack, expected, result⟩ := r
  obtain ⟨hstack, hresult⟩ := h
  unfold Reading.close at hclose
  dsimp only at hclose
  split at hclose
  · obtain ⟨hitems, hbelow⟩ := List.forall_mem_cons.mp hstack
    refine Finite.place (r := ⟨_, expected, result⟩) ⟨hbelow, hresult⟩ (.array fun j hj => ?_) hclose
    exact hitems j (List.mem_reverse.mp hj)
  · obtain ⟨hmembers, hbelow⟩ := List.forall_mem_cons.mp hstack
    exact Finite.place (r := ⟨_, expected, result⟩) ⟨hbelow, hresult⟩ (finite_closeMembers hmembers) hclose
  · cases hclose

theorem Finite.startMember (h : r.Finite) (hstart : r.startMember t = some r') : r'.Finite := by
  obtain ⟨stack, expected, result⟩ := r
  unfold Reading.startMember at hstart
  dsimp only at hstart
  split at hstart
  · cases hstart
    obtain ⟨hmembers, hbelow⟩ := List.forall_mem_cons.mp h.stack
    exact ⟨List.forall_mem_cons.mpr ⟨hmembers, hbelow⟩, h.result⟩
  · cases hstart

theorem Finite.step (h : r.Finite) (ht : t.Finite) (hstep : r.step t = some r') : r'.Finite := by
  have orElse {next : Reading → Token → Option Reading} (hnext : next r t = some r' → r'.Finite)
      (hboth : ((r.close t).orElse fun _ => next r t) = some r') : r'.Finite := by
    cases hclose : r.close t with
    | some u =>
      rw [hclose] at hboth
      exact h.close (hclose.trans hboth)
    | none =>
      rw [hclose] at hboth
      exact hnext hboth
  unfold Reading.step at hstep
  split at hstep
  · exact h.startValue ht hstep
  · exact orElse (h.startValue ht) hstep
  · exact h.startMember hstep
  · exact orElse h.startMember hstep
  · split at hstep
    · cases hstep
      exact ⟨h.stack, h.result⟩
    · cases hstep
  · split at hstep
    · split at hstep <;> cases hstep <;> exact ⟨h.stack, h.result⟩
    · exact h.close hstep
  · cases hstep

theorem Finite.steps {ts : List Token} (h : r.Finite) (hts : ∀ t ∈ ts, t.Finite) : (r.steps ts).1.Finite := by
  induction ts generalizing r with
  | nil => exact h
  | cons t rest ih =>
    obtain ⟨ht, hrest⟩ := List.forall_mem_cons.mp hts
    unfold Reading.steps
    split
    · rename_i hstep
      exact ih (h.step ht hstep) hrest
    · exact h

end Reading

/-- Every number of a JSON text is finite. -/
theorem finite_parse? {s : String} {j : Json} (h : parse? s = some j) : j.Finite := by
  have hread : (Reading.start.steps (tokens s).1).1.Finite := Reading.Finite.steps ⟨nofun, .null⟩ finite_tokens
  unfold parse? at h
  split at h
  · rename_i value hfar
    cases h
    unfold parseFar at hfar
    simp only [Prod.mk.injEq, Bool.and_eq_true, decide_eq_true_eq] at hfar
    obtain ⟨rfl, -, hdone⟩ := hfar
    unfold Reading.soFar
    rw [if_pos hdone]
    exact hread.result
  · cases h

/-! ### Records -/

theorem Finite.prune {names : List String} {change : String → Json → Json} {j : Json} (h : j.Finite)
    (hchange : ∀ name j, j.Finite → (change name j).Finite) : (j.prune names change).Finite := by
  cases j with
  | object members =>
    refine .object fun m hm => ?_
    obtain ⟨m', hm', rfl⟩ := List.mem_map.mp hm
    exact hchange _ _ (finite_object_iff.mp h m' (List.mem_filter.mp hm').1)
  | array items =>
    have hitems := finite_array_iff.mp h
    refine .array fun j hj => ?_
    rcases List.mem_append.mp hj with hj | hj
    · obtain ⟨⟨name, j'⟩, hj', rfl⟩ := List.mem_map.mp hj
      exact hchange _ _ (hitems j' (List.of_mem_zip hj').2)
    · exact hitems j (List.mem_of_mem_drop hj)
  | _ => exact h

theorem Finite.mapItems {change : Json → Json} {j : Json} (h : j.Finite) (hchange : ∀ j, j.Finite → (change j).Finite) :
    (j.mapItems change).Finite := by
  cases j with
  | array items =>
    refine .array fun j hj => ?_
    obtain ⟨j', hj', rfl⟩ := List.mem_map.mp hj
    exact hchange _ (finite_array_iff.mp h j' hj')
  | _ => exact h

theorem Finite.field {names : List String} {j : Json} {fields : String → Option Json} (h : j.Finite)
    (hfields : j.fields? names = some fields) {name : String} {value : Json} (hvalue : fields name = some value) :
    value.Finite := by
  unfold fields? at hfields
  split at hfields
  · split at hfields
    · cases hfields
    · cases hfields
      obtain ⟨m, hm, rfl⟩ := Option.map_eq_some_iff.mp hvalue
      exact finite_object_iff.mp h m (List.mem_reverse.mp (List.mem_of_find?_eq_some hm))
  · split at hfields
    · cases hfields
    · cases hfields
      obtain ⟨p, hp, rfl⟩ := Option.map_eq_some_iff.mp hvalue
      exact finite_array_iff.mp h p.2 (List.of_mem_zip (List.mem_of_find?_eq_some hp)).2
  · cases hfields

theorem exists_mem_of_mapM {α : Type} {decode : Json → Option α} {items : List Json} {as : List α}
    (h : items.mapM decode = some as) {a : α} (ha : a ∈ as) : ∃ j ∈ items, decode j = some a := by
  induction items generalizing as with
  | nil =>
    rw [List.mapM_nil] at h
    cases h
    cases ha
  | cons j rest ih =>
    simp only [List.mapM_cons, Option.bind_eq_bind, Option.bind_eq_some_iff, Option.pure_def, Option.some.injEq] at h
    obtain ⟨b, hb, bs, hbs, rfl⟩ := h
    rcases List.mem_cons.mp ha with rfl | ha
    · exact ⟨j, List.mem_cons_self, hb⟩
    · obtain ⟨j', hj', ha⟩ := ih hbs ha
      exact ⟨j', List.mem_cons_of_mem j hj', ha⟩

theorem isFinite_number? {j : Json} {x : Number} (h : j.Finite) (hx : j.number? = some x) : x.isFinite = true := by
  unfold number? at hx
  split at hx
  · cases hx
    exact finite_number_iff.mp h
  · cases hx

/-- A number of a record is finite if the one that stands for its absence is. -/
theorem isFinite_defaulted? {fields : String → Option Json} (h : ∀ name value, fields name = some value → value.Finite)
    {name : String} {fallback x : Number} (hfallback : fallback.isFinite = true)
    (hx : defaulted? fields name fallback number? = some x) : x.isFinite = true := by
  unfold defaulted? at hx
  split at hx
  · rename_i value hvalue
    exact isFinite_number? (h name value hvalue) hx
  · rw [← Option.some.inj hx]
    exact hfallback

end Json

/-! ### Projects -/

/-- Place and direction are finite. -/
def Pose.isFinite (p : Pose) : Bool := p.x.isFinite && p.y.isFinite && p.direction.isFinite

/-- Pose and volume of a stored target are finite. -/
structure TargetDecl.Finite (t : TargetDecl) : Prop where
  pose : (⟨t.x, t.y, t.direction⟩ : Pose).isFinite = true
  volume : t.volume.isFinite = true

theorem TargetDecl.finite_ofJson? {j : Json} {t : TargetDecl} (hj : j.Finite) (h : ofJson? j = some t) : t.Finite := by
  obtain ⟨fields, hfields, h⟩ := Option.bind_eq_some_iff.mp h
  -- The name, the variables, the blocks and the sounds do not matter here.
  iterate 6 obtain ⟨_, -, h⟩ := Option.bind_eq_some_iff.mp h
  obtain ⟨volume, hvolume, h⟩ := Option.bind_eq_some_iff.mp h
  obtain ⟨x, hx, h⟩ := Option.bind_eq_some_iff.mp h
  obtain ⟨y, hy, h⟩ := Option.bind_eq_some_iff.mp h
  obtain ⟨direction, hdirection, h⟩ := Option.bind_eq_some_iff.mp h
  obtain rfl := Option.some.inj h
  have hfield : ∀ name value, fields name = some value → value.Finite := fun _ _ => hj.field hfields
  have hword {n : Nat} (h : n ≤ Json.maxSignificand) : (Number.ofNat n).isFinite = true :=
    (Json.within_ofSignificand h).isFinite
  have hx := Json.isFinite_defaulted? hfield (hword (n := 0) (by decide)) hx
  have hy := Json.isFinite_defaulted? hfield (hword (n := 0) (by decide)) hy
  have hdirection := Json.isFinite_defaulted? hfield (hword (n := 90) (by decide)) hdirection
  refine ⟨?_, Json.isFinite_defaulted? hfield (hword (n := 100) (by decide)) hvolume⟩
  simp only [Pose.isFinite, hx, hy, hdirection, Bool.and_self]

theorem ProjectDecl.finite_ofText? {s : String} {d : ProjectDecl} (h : ofText? s = some d) : ∀ t ∈ d.targets, t.Finite := by
  intro t ht
  obtain ⟨j, hj, hd⟩ := Option.bind_eq_some_iff.mp h
  obtain ⟨hj, -⟩ := Option.filter_eq_some_iff.mp hj
  obtain ⟨j, hread, rfl⟩ := Option.map_eq_some_iff.mp hj
  have htarget : ∀ j : Json, j.Finite → (TargetDecl.prune j).Finite := by
    intro j hj
    refine hj.prune fun name j hj => ?_
    unfold TargetDecl.pruneField
    split
    · exact hj.mapItems fun _ hj => hj.prune fun _ _ hj => hj
    · exact hj
  have hpruned : (ProjectDecl.prune j).Finite := (Json.finite_parse? hread).prune fun _ _ hj => hj.mapItems htarget
  simp only [ofJson?, Option.bind_eq_bind, Option.bind_eq_some_iff, Option.pure_def, Option.some.injEq] at hd
  obtain ⟨fields, hfields, targets, htargets, rfl⟩ := hd
  obtain ⟨list, hlist, htargets⟩ := Option.bind_eq_some_iff.mp htargets
  have hlist := hpruned.field hfields hlist
  obtain ⟨items, hitems, htargets⟩ := Option.bind_eq_some_iff.mp htargets
  unfold Json.array? at hitems
  split at hitems
  · cases hitems
    obtain ⟨item, hitem, hdecode⟩ := Json.exists_mem_of_mapM htargets ht
    exact TargetDecl.finite_ofJson? (Json.finite_array_iff.mp hlist item hitem) hdecode
  · cases hitems

/-- The figures of a loaded project start at finite places, with finite directions and volumes and without effects. -/
theorem Project.finite_ofText {config : Config} {pointer : Pointer} {text : String} {project : Project}
    {logs : List LogRecord} (h : ofText config pointer text = (.ok project, logs)) {n : Nat} {f : Figure}
    (hf : project.scene.figure? n = some f) :
    f.pose.isFinite = true ∧ ∃ volume, volume.isFinite = true ∧ f.audio = ⟨volume, 0, 0⟩ := by
  unfold ofText at h
  split at h
  · rename_i d hd
    unfold ofDecl at h
    dsimp only at h
    split at h
    · obtain ⟨hproject, -⟩ := Prod.mk.inj h
      obtain rfl := Except.ok.inj hproject
      obtain ⟨t, ht, rfl⟩ := List.mem_map.mp (List.mem_of_getElem? hf)
      have hfinite := ProjectDecl.finite_ofText? hd t ht
      exact ⟨hfinite.pose, t.volume, hfinite.volume, rfl⟩
    · cases h
  · cases h

end BlockScript
