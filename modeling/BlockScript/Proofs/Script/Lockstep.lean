import BlockScript.Proofs.Script.Pieces
import BlockScript.Proofs.Script.Tandem

/-!
Turns in two worlds. A script whose statements keep to a realm runs in one world with its relays and in another one
bare. As long as the two worlds are alike in the realm, a turn takes both equally far, and a script that comes to rest
waits for the same in both.
-/
namespace BlockScript

/-! ### Stacks without relays -/

/-- The loop without relays. -/
def Loop.bare : Loop → Loop
  | .times left body => .times left (Action.bareAll body)
  | .forever body => .forever (Action.bareAll body)
  | .repeatUntil condition body => .repeatUntil condition.bare (Action.bareAll body)

/-- The frame without relays. -/
def Frame.bare : Frame → Frame
  | .blocks rest => .blocks (Action.bareAll rest)
  | .check loop => .check loop.bare
  | .rounded loop => .rounded loop.bare

/-- A script waits for the same in both worlds, though others may tell it. -/
inductive Pause.Mirrors : Pause → Pause → Prop
  | same {pause : Pause} (unwatched : pause.watched? = none) : Mirrors pause pause
  | watching (p : Predicate Nat) (links links' : Subscription Channel) :
      Mirrors (.watching p links) (.watching p.bare links')

/-- The time on the clock at which a script goes on, if it waits for a time. -/
def Pause.due? (now : Nat) : Pause → Option Nat
  | .ready => some now
  | .sleeping wakeAt => some wakeAt
  | .gliding _ wakeAt => some wakeAt
  | .stalled => none
  | .watching .. => none

/-! ### Statements of stacks -/

/-- The statements of a loop, at any depth. A loop with a condition stands for itself too, since it tests again. -/
def Loop.statements : Loop → List (Action Nat)
  | .times _ body => Action.bodyStatements body
  | .forever body => Action.bodyStatements body
  | .repeatUntil condition body => .repeatUntil condition body :: Action.bodyStatements body

/-- The statements that are left in a frame, at any depth. -/
def Frame.statements : Frame → List (Action Nat)
  | .blocks rest => Action.bodyStatements rest
  | .check loop => loop.statements
  | .rounded loop => loop.statements

namespace Realm

/-- The statement keeps to the realm and stops no other script. -/
def Admits {ρ : Type} (r : Realm) (a : Action ρ) : Prop :=
  r.Covers a.sources ∧ ∀ option, a = .command (.stop option) → option = .thisScript

/-- Each statement keeps to the realm and stops no other script. -/
def AdmitsAll {ρ : Type} (r : Realm) (l : List (Action ρ)) : Prop := ∀ a ∈ l, r.Admits a

/-- All that is left to do keeps to the realm. -/
def Fits (r : Realm) (frames : List Frame) : Prop := ∀ frame ∈ frames, r.AdmitsAll frame.statements

variable {r : Realm}

theorem admitsAll_append {ρ : Type} {a b : List (Action ρ)} : r.AdmitsAll (a ++ b) ↔ r.AdmitsAll a ∧ r.AdmitsAll b :=
  List.forall_mem_append

theorem admitsAll_cons {ρ : Type} {a : Action ρ} {l : List (Action ρ)} : r.AdmitsAll (a :: l) ↔ r.Admits a ∧ r.AdmitsAll l :=
  List.forall_mem_cons

theorem fits_nil : r.Fits [] := nofun

theorem fits_cons {frame : Frame} {next : List Frame} : r.Fits (frame :: next) ↔ r.AdmitsAll frame.statements ∧ r.Fits next :=
  List.forall_mem_cons

theorem admits_of_statements {ρ : Type} {a : Action ρ} (h : r.AdmitsAll a.statements) : r.Admits a := by
  refine h a ?_
  cases a <;> simp [Action.statements]

theorem admitsAll_body {loop : Loop} (h : r.AdmitsAll loop.statements) : r.AdmitsAll (Action.bodyStatements loop.body) := by
  cases loop with
  | times left body => exact h
  | forever body => exact h
  | repeatUntil condition body => exact (admitsAll_cons.mp h).2

/-- What a statement reads or writes does not depend on its relays. -/
theorem admits_congr {ρ σ : Type} {a : Action ρ} {b : Action σ} (h : a.bare = b.bare) (hb : r.Admits b) : r.Admits a := by
  have stop_bare : ∀ {τ : Type} {x : Action τ} {option : StopOption},
      x.bare = .command (.stop option) ↔ x = .command (.stop option) := by
    intro τ x option
    cases x with
    | command c => cases c <;> simp [Action.bare, Command.bare]
    | _ => simp [Action.bare]
  refine ⟨?_, fun option ha => hb.2 option ?_⟩
  · rw [← a.sources_bare, h, b.sources_bare]
    exact hb.1
  · exact stop_bare.mp (h ▸ stop_bare.mpr ha)

theorem admitsAll_installAll {body : List (Action Unit)} (h : r.AdmitsAll (Action.bodyStatements body)) (n : Nat) :
    r.AdmitsAll (Action.bodyStatements (Action.installAll body n).1) := by
  intro a ha
  have hmem : a.bare ∈ (Action.bodyStatements body).map Action.bare := by
    rw [← Action.bodyStatements_bareAll, ← Action.bareAll_install body n, Action.bodyStatements_bareAll]
    exact List.mem_map_of_mem ha
  obtain ⟨b, hb, hbare⟩ := List.mem_map.mp hmem
  exact admits_congr hbare.symm (h b hb)

/-- A test fails there, unless something has been drawn, and draws nothing. -/
def Fails (r : Realm) (p : Predicate Nat) (s : Scene) : Prop :=
  ∀ t : Traces, t.random.taken = 0 → (p.test ⟨s, r.figure⟩ t).1 = false ∧ (p.test ⟨s, r.figure⟩ t).2.random.taken = 0

/-- A condition that fails goes on to fail while its sources are left alone. -/
theorem Fails.kept {p : Predicate Nat} {s u : Scene} (h : r.Fails p s) (covers : r.Covers p.sources) (base : r.scene.Varies s)
    (varies : s.Varies u) (same : ∀ k, r.Sees k → s.SameAt u k) : r.Fails p u := by
  intro t ht
  obtain ⟨a, reads, after, outcome, tapped⟩ := p.isReading_test ⟨s, r.figure⟩ t.random
  have agrees : View.Agrees ⟨s, r.figure⟩ ⟨u, r.figure⟩ reads :=
    ⟨rfl, varies.shape, fun x hx => same _ (covers.seen base tapped x hx)⟩
  have here := outcome _ (.refl _ _) t rfl
  have there := outcome _ agrees t rfl
  rw [there.1, there.2.2, ← here.1, ← here.2.2]
  exact h t ht

end Realm

/-! ### Rest -/

namespace World

/-- The script waits for nothing that has come already. -/
structure Awaits (r : Realm) (i : Nat) (w : World) (pause : Pause) : Prop where
  running : pause = .ready ∨ w.isCancelled i = false
  due : ∀ time, pause.due? w.clock = some time → w.clock ≤ time
  fails : ∀ p links, pause = .watching p links → w.traces.random.taken = 0 → r.Fails p w.scene

/-- A script came to rest, here with its relays and there bare. -/
structure AtRest (r : Realm) (i : Nat) (w : World) (left left' : List Frame × Pause) : Prop where
  frames : left'.1 = left.1.map Frame.bare
  pause : left.2.Mirrors left'.2
  fits : r.Fits left.1
  covers : r.Covers (left.2.taps.map (·.2))
  awaits : w.Awaits r i left.2

end World

/-- A piece of a turn ended in the same way, here with relays and there bare. -/
inductive Progress.Mirrors (r : Realm) (i : Nat) (w : World) : Progress → Progress → Prop
  | go {frames : List Frame} (fits : r.Fits frames) : Mirrors r i w (.go frames) (.go (frames.map Frame.bare))
  | rest {frames frames' : List Frame} {pause pause' : Pause} (h : w.AtRest r i (frames, pause) (frames', pause')) :
      Mirrors r i w (.rest frames pause) (.rest frames' pause')
  | done : Mirrors r i w .done .done

namespace World

/-- From the world `w` the script did the same piece of a turn in both worlds. -/
structure Strides (r : Realm) (i j : Nat) (w : World) (x x' : World × Progress) : Prop where
  step : InStep r i j w x.1 x'.1
  progress : x.2.Mirrors r i x.1 x'.2

variable {r : Realm} {i j : Nat} {w w' w₁ w₁' : World} {next : List Frame}

theorem Awaits.ready (r : Realm) (i : Nat) (w : World) : w.Awaits r i .ready :=
  ⟨Or.inl rfl, fun time h => by cases h; exact Nat.le_refl _, nofun⟩

/-- A pause that is bare already. -/
theorem AtRest.plain {pause : Pause} (fits : r.Fits next) (unwatched : pause.watched? = none)
    (awaits : w.Awaits r i pause) : w.AtRest r i (next, pause) (next.map Frame.bare, pause) where
  frames := rfl
  pause := .same unwatched
  fits := fits
  covers := by
    rw [Pause.taps_eq_nil unwatched]
    nofun
  awaits := awaits

/-- The script goes on to rest in another world, if it still waits there. -/
theorem AtRest.on {left left' : List Frame × Pause} (h : w.AtRest r i left left') (awaits : w₁.Awaits r i left.2) :
    w₁.AtRest r i left left' := ⟨h.frames, h.pause, h.fits, h.covers, awaits⟩

namespace Strides

theorem go {frames : List Frame} (step : InStep r i j w w₁ w₁') (fits : r.Fits frames) :
    Strides r i j w (w₁, .go frames) (w₁', .go (frames.map Frame.bare)) := ⟨step, .go fits⟩

theorem after {x x' : World × Progress} (h : w.Confined r i w₁) (h' : Strides r i j w₁ x x') : Strides r i j w x x' :=
  ⟨.trans h h'.step, h'.progress⟩

/-- Both wait for the same time, which has not come. -/
theorem rest {pause : Pause} {time : Nat} (step : InStep r i j w w₁ w₁') (fits : r.Fits next)
    (running : w₁.isCancelled i = false) (hdue : ∀ now, pause.due? now = some time) (hle : w₁.clock ≤ time) :
    Strides r i j w (w₁, .rest next pause) (w₁', .rest (next.map Frame.bare) pause) := by
  have unwatched : pause.watched? = none := by
    cases pause with
    | watching p links => cases hdue 0
    | _ => rfl
  refine ⟨step, .rest (.plain fits unwatched ⟨Or.inr running, fun t ht => ?_, ?_⟩)⟩
  · rw [hdue] at ht
    cases ht
    exact hle
  · rintro p links rfl
    cases unwatched

end Strides

/-! ### Blocks -/

theorem strides_sleep (h : w.Mirrors r i j w') (running : w.isCancelled i = false) (fits : r.Fits next) (span : Nat) :
    Strides r i j w (w, w.sleep next span) (w', w'.sleep (next.map Frame.bare) span) := by
  unfold sleep
  rw [h.clock]
  split
  · exact .go (.refl h) fits
  · exact .rest (.refl h) fits running (fun _ => rfl) (Nat.le_add_right _ _)

theorem strides_wait (h : w.Mirrors r i j w') (running : w.isCancelled i = false) (fits : r.Fits next) (seconds : Number) :
    Strides r i j w (w.wait (r.caller i) next seconds) (w'.wait (r.caller j) (next.map Frame.bare) seconds) := by
  unfold wait
  split
  · exact .go (.log h _ _) fits
  · split
    · exact strides_sleep h running fits _
    · exact ⟨.refl h, .rest (.plain fits rfl ⟨Or.inr running, nofun, nofun⟩)⟩

/-- After a test that failed the condition fails from any traces without draws. -/
theorem fails_of_evaluate (w : World) {p : Predicate Nat} (hfalse : (w.evaluate r.figure p.test).1 = false)
    (none : (w.evaluate r.figure p.test).2.traces.random.taken = 0) : r.Fails p w.scene := by
  obtain ⟨a, reads, after, outcome, -⟩ := p.isReading_test (w.view r.figure) w.traces.random
  have here := outcome _ (.refl _ _) w.traces rfl
  have grows : w.traces.random.taken ≤ _ := (p.concur_bare (w.view r.figure) w.traces w.traces rfl).2.2
  have zero : w.traces.random.taken = 0 := Nat.eq_zero_of_le_zero (none ▸ grows)
  intro t ht
  have hrandom : t.random = w.traces.random := congrArg Random.mk (ht.trans zero.symm)
  have there := outcome _ (.refl _ _) t hrandom
  have after_zero : after.taken = 0 := here.2.2 ▸ none
  exact ⟨there.1.trans (here.1.symm.trans hfalse), (congrArg Random.taken there.2.2).trans after_zero⟩

theorem strides_waitUntil (h : w.Mirrors r i j w') (running : w.isCancelled i = false) (fits : r.Fits next)
    {p : Predicate Nat} (covers : r.Covers p.sources) :
    Strides r i j w (w.waitUntil (r.caller i) next p) (w'.waitUntil (r.caller j) (next.map Frame.bare) p.bare) := by
  obtain ⟨hfirst, first⟩ := InStep.evaluate h (Predicate.reads_test covers)
  unfold waitUntil
  dsimp only
  rw [hfirst]
  split
  · exact .go first fits
  · generalize (w.evaluate r.figure p.test).2.traces.hub.subscribeAll (p.relays.map .relay) (.wake i) = listening
    generalize (w'.evaluate r.figure p.bare.test).2.traces.hub.subscribeAll (p.bare.relays.map .relay) (.wake j) =
      listening'
    have linked := InStep.withHub first.mirrors listening.1 listening'.1
    obtain ⟨hsecond, second⟩ := InStep.evaluate linked.mirrors (Predicate.reads_test covers)
    refine .after first.confined (.after linked.confined ?_)
    rw [hsecond]
    split
    · exact .after second.confined (.go (.withHub second.mirrors _ _) fits)
    · rename_i hfalse
      refine ⟨second, .rest ⟨rfl, .watching p _ _, fits, covers, Or.inr running, nofun, ?_⟩⟩
      rintro _ _ ⟨⟩ none
      exact fails_of_evaluate ((w.evaluate r.figure p.test).2.withHub listening.1) (Bool.not_eq_true _ ▸ hfalse) none

theorem strides_nextStep (h : w.Mirrors r i j w') (running : w.isCancelled i = false) (fits : r.Fits next) (g : Glide) :
    Strides r i j w (w, w.nextStep next g) (w', w'.nextStep (next.map Frame.bare) g) := by
  unfold nextStep
  rw [h.clock, h.scene.varies.shape.config]
  exact .rest (.refl h) fits running (fun _ => rfl) (Nat.le_add_right _ _)

theorem strides_glide (h : w.Mirrors r i j w') (running : w.isCancelled i = false) (fits : r.Fits next)
    (seconds x y : Number) :
    Strides r i j w (w.glide (r.caller i) next seconds x y) (w'.glide (r.caller j) (next.map Frame.bare) seconds x y) := by
  unfold glide
  dsimp only
  rw [h.scene.poseOf, h.clock]
  split
  · exact .go (.moveTo h _) fits
  · exact strides_nextStep h running fits _

theorem isCancelled_moveTo (w : World) (n : Nat) (place : Number × Number) (k : Nat) :
    (w.moveTo n place).isCancelled k = w.isCancelled k := by
  have acts : Acts n [] w (w.moveTo n place) := (w.changes_moveTo n place).acts
  exact acts.kept (f := (·.isCancelled k)) fun _ _ _ _ => rfl

theorem strides_continueGlide (h : w.Mirrors r i j w') (running : w.isCancelled i = false) (fits : r.Fits next) (g : Glide) :
    Strides r i j w (w.continueGlide (r.caller i) next g) (w'.continueGlide (r.caller j) (next.map Frame.bare) g) := by
  unfold continueGlide
  dsimp only
  rw [h.clock]
  split
  · exact .go (.moveTo h _) fits
  · have moved := InStep.moveTo h (g.place (g.progress w.clock))
    refine .after moved.confined (strides_nextStep moved.mirrors ?_ fits g)
    exact (w.isCancelled_moveTo _ _ i).trans running

theorem strides_playUntilDone (h : w.Mirrors r i j w') (running : w.isCancelled i = false) (fits : r.Fits next)
    {sound : Operand Nat} (covers : r.Covers sound.sources) :
    Strides r i j w (w.playUntilDone (r.caller i) next sound)
      (w'.playUntilDone (r.caller j) (next.map Frame.bare) sound.bare) := by
  obtain ⟨hresult, step⟩ := tandem_playSound (i := i) (j := j) covers w w' h
  have still : (playSound (r.caller i) sound w).2.isCancelled i = false :=
    ((World.playSound_acts (r.caller i) sound w).kept (f := (·.isCancelled i)) fun _ _ _ _ => rfl).trans running
  unfold playUntilDone
  cases hr : playSound (r.caller i) sound w with
  | mk outcome w₁ =>
    cases hr' : playSound (r.caller j) sound.bare w' with
    | mk outcome' w₁' =>
      rw [hr, hr'] at step hresult
      rw [hr] at still
      obtain rfl : outcome' = outcome := hresult
      rcases outcome' with e | - | -
      · exact .go step fits
      · exact .go step fits
      · dsimp only
        rw [step.mirrors.scene.varies.shape.config]
        exact .after step.confined (strides_sleep step.mirrors still fits _)

/-- A block does the same in both worlds. -/
theorem strides_begin (h : w.Mirrors r i j w') (running : w.isCancelled i = false) (fits : r.Fits next) {a : Action Nat}
    (admits : r.AdmitsAll a.statements) :
    Strides r i j w (w.begin (r.caller i) next a) (w'.begin (r.caller j) (next.map Frame.bare) a.bare) := by
  obtain ⟨covers, stops⟩ := Realm.admits_of_statements admits
  cases a with
  | command cmd => exact .go (.command h covers fun option hc => stops option (hc ▸ rfl)) fits
  | playUntilDone sound => exact strides_playUntilDone h running fits covers
  | wait seconds =>
    obtain ⟨hresult, step⟩ := InStep.evaluate h (Operand.reads_number covers)
    simp only [begin, Action.bare]
    rw [hresult]
    exact .after step.confined (strides_wait step.mirrors running fits _)
  | waitUntil p => exact strides_waitUntil h running fits covers
  | glide seconds x y =>
    obtain ⟨hseconds, hplace⟩ := Realm.covers_append.mp covers
    obtain ⟨hx, hy⟩ := Realm.covers_append.mp hplace
    obtain ⟨hresult, first⟩ := InStep.evaluate h (Operand.reads_number hseconds)
    obtain ⟨hresult', second⟩ := InStep.evaluate first.mirrors (Operand.reads_number hx)
    obtain ⟨hresult'', third⟩ := InStep.evaluate second.mirrors (Operand.reads_number hy)
    simp only [begin, Action.bare]
    rw [hresult, hresult', hresult'']
    exact .after first.confined (.after second.confined (.after third.confined (strides_glide third.mirrors running fits _ _ _)))
  | branch opcode condition thenBody elseBody =>
    obtain ⟨hthen, helse⟩ := Realm.admitsAll_append.mp (Realm.admitsAll_cons.mp admits).2
    obtain ⟨hresult, step⟩ := InStep.evaluate h (Predicate.reads_test covers)
    simp only [begin, Action.bare]
    rw [hresult]
    split
    · exact .go step (Realm.fits_cons.mpr ⟨hthen, fits⟩)
    · exact .go step (Realm.fits_cons.mpr ⟨helse, fits⟩)
  | repeatTimes times body =>
    obtain ⟨hresult, step⟩ := InStep.evaluate h (Operand.reads_number covers)
    simp only [begin, Action.bare]
    rw [hresult]
    exact .go (.trans step.confined (.logAll step.mirrors _))
      (Realm.fits_cons.mpr ⟨(Realm.admitsAll_cons.mp admits).2, fits⟩)
  | forever body => exact .go (.refl h) (Realm.fits_cons.mpr ⟨(Realm.admitsAll_cons.mp admits).2, fits⟩)
  | repeatUntil condition body => exact .go (.refl h) (Realm.fits_cons.mpr ⟨admits, fits⟩)

theorem strides_checkLoop (h : w.Mirrors r i j w') (fits : r.Fits next) {loop : Loop} (admits : r.AdmitsAll loop.statements) :
    Strides r i j w (w.checkLoop (r.caller i) next loop) (w'.checkLoop (r.caller j) (next.map Frame.bare) loop.bare) := by
  have again : ∀ l : Loop, r.AdmitsAll l.statements → r.Fits (.blocks l.body :: .rounded l :: next) := fun l hl =>
    Realm.fits_cons.mpr ⟨Realm.admitsAll_body hl, Realm.fits_cons.mpr ⟨hl, fits⟩⟩
  cases loop with
  | times left body =>
    cases left with
    | zero => exact .go (.refl h) fits
    | succ left =>
      simp only [checkLoop, Loop.bare]
      rw [h.cancelled]
      split
      · exact .go (.refl h) fits
      · exact .go (.refl h) (again (.times left body) admits)
  | forever body =>
    simp only [checkLoop, Loop.bare]
    rw [h.cancelled]
    split
    · exact .go (.refl h) fits
    · exact .go (.refl h) (again (.forever body) admits)
  | repeatUntil condition body =>
    have covers : r.Covers condition.sources := (Realm.admitsAll_cons.mp admits).1.1
    obtain ⟨hresult, step⟩ := InStep.evaluate h (Predicate.reads_test covers)
    simp only [checkLoop, Loop.bare]
    rw [h.cancelled, hresult]
    split
    · exact .go (.refl h) fits
    · split
      · exact .go step fits
      · exact .go step (again (.repeatUntil condition body) admits)

theorem strides_step (h : w.Mirrors r i j w') {frames : List Frame} (fits : r.Fits frames) :
    Strides r i j w (w.step (r.caller i) frames) (w'.step (r.caller j) (frames.map Frame.bare)) := by
  cases frames with
  | nil => exact ⟨.refl h, .done⟩
  | cons frame next =>
    obtain ⟨admits, rest⟩ := Realm.fits_cons.mp fits
    cases frame with
    | blocks body =>
      cases body with
      | nil => exact .go (.refl h) rest
      | cons a body =>
        obtain ⟨hfirst, hbody⟩ := Realm.admitsAll_append.mp admits
        simp only [step, List.map_cons, Frame.bare, Action.bareAll]
        rw [h.cancelled]
        split
        · exact .go (.refl h) rest
        · rename_i running
          have fits : r.Fits (.blocks body :: next) := Realm.fits_cons.mpr ⟨hbody, rest⟩
          exact strides_begin h (Bool.not_eq_true _ ▸ running) fits hfirst
    | check loop => exact strides_checkLoop h rest admits
    | rounded loop =>
      exact ⟨.refl h, .rest (.plain (Realm.fits_cons.mpr ⟨admits, rest⟩) rfl (.ready r i w))⟩

/-! ### Turns -/

/-- From the world `w` the script took the same turn in both worlds. -/
structure Turns (r : Realm) (i j : Nat) (w : World) (x x' : World × Option (List Frame × Pause)) : Prop where
  step : InStep r i j w x.1 x'.1
  left : Option.Rel (x.1.AtRest r i) x.2 x'.2

theorem Turns.after {x x' : World × Option (List Frame × Pause)} (h : w.Confined r i w₁) (h' : Turns r i j w₁ x x') :
    Turns r i j w x x' := ⟨.trans h h'.step, h'.left⟩

theorem turns_runFrames (h : w.Mirrors r i j w') {frames : List Frame} (fits : r.Fits frames) :
    Turns r i j w (w.runFrames (r.caller i) frames) (w'.runFrames (r.caller j) (frames.map Frame.bare)) := by
  -- The recursion of `runFrames`: each piece leaves less to do in the turn.
  induction hn : Frame.weights frames using Nat.strongRecOn generalizing w w' frames with
  | ind weight ih =>
  have strides := strides_step h fits
  rw [runFrames_eq, runFrames_eq]
  have hless : ∀ after, (w.step (r.caller i) frames).2 = .go after → Frame.weights after < weight :=
    fun after ha => hn ▸ step_go_weights ha
  cases hs : w.step (r.caller i) frames with
  | mk w₁ progress =>
    cases hs' : w'.step (r.caller j) (frames.map Frame.bare) with
    | mk w₁' progress' =>
      rw [hs, hs'] at strides
      rw [hs] at hless
      obtain ⟨step, mirrors⟩ := strides
      cases mirrors with
      | go fits => exact .after step.confined (ih _ (hless _ rfl) step.mirrors fits rfl)
      | rest rests => exact ⟨step, .some rests⟩
      | done => exact ⟨step, .none⟩

theorem Strides.turns {t t' : Thread} (hc : t.caller = r.caller i) (hc' : t'.caller = r.caller j)
    (h : Strides r i j w (w.resume t.caller t.frames t.pause) (w'.resume t'.caller t'.frames t'.pause)) :
    Turns r i j w (w.turn t) (w'.turn t') := by
  unfold turn
  rw [hc, hc'] at h ⊢
  cases hs : w.resume (r.caller i) t.frames t.pause with
  | mk w₁ progress =>
    cases hs' : w'.resume (r.caller j) t'.frames t'.pause with
    | mk w₁' progress' =>
      rw [hs, hs'] at h
      obtain ⟨step, mirrors⟩ := h
      cases mirrors with
      | go fits => exact .after step.confined (turns_runFrames step.mirrors fits)
      | rest rests => exact ⟨step, .some rests⟩
      | done => exact ⟨step, .none⟩

theorem strides_resume (h : w.Mirrors r i j w') {frames : List Frame} (fits : r.Fits frames) {pause : Pause}
    (unwatched : pause.watched? = none) :
    Strides r i j w (w.resume (r.caller i) frames pause) (w'.resume (r.caller j) (frames.map Frame.bare) pause) := by
  cases pause with
  | watching p links => cases unwatched
  | gliding g time =>
    simp only [resume]
    rw [h.cancelled]
    split
    · exact .go (.refl h) fits
    · rename_i running
      exact strides_continueGlide h (Bool.not_eq_true _ ▸ running) fits g
  | _ => exact .go (.refl h) fits

/-- A script that watches nothing takes the same turn in both worlds. -/
theorem turns_of_unwatched (h : w.Mirrors r i j w') {frames : List Frame} (fits : r.Fits frames) {pause : Pause}
    (unwatched : pause.watched? = none) (relays relays' : List Nat) :
    Turns r i j w (w.turn ⟨r.caller i, frames, pause, relays⟩)
      (w'.turn ⟨r.caller j, frames.map Frame.bare, pause, relays'⟩) :=
  (strides_resume h fits unwatched).turns rfl rfl

/-! ### Watching -/

theorem strides_retest (h : w.Mirrors r i j w') (running : w.isCancelled i = false) (fits : r.Fits next)
    {p : Predicate Nat} (covers : r.Covers p.sources) (links links' : Subscription Channel) (tries : Nat)
    (failed : tries = 0 → w.traces.random.taken = 0 → r.Fails p w.scene) :
    Strides r i j w (w.retest (r.caller i) next p links tries)
      (w'.retest (r.caller j) (next.map Frame.bare) p.bare links' tries) := by
  induction tries generalizing w w' with
  | zero =>
    refine ⟨.refl h, .rest ⟨rfl, .watching p _ _, fits, covers, Or.inr running, nofun, ?_⟩⟩
    rintro _ _ ⟨⟩
    exact failed rfl
  | succ tries ih =>
    obtain ⟨hresult, step⟩ := InStep.evaluate h (Predicate.reads_test covers)
    unfold retest
    dsimp only
    rw [hresult]
    refine .after step.confined ?_
    split
    · exact .go (.withHub step.mirrors _ _) fits
    · rename_i hfalse
      exact ih step.mirrors running fun _ none => fails_of_evaluate w (Bool.not_eq_true _ ▸ hfalse) none

theorem Mirrors.self (base : r.scene.Varies w.scene) : w.Mirrors r i i w := ⟨.refl base, rfl, rfl, rfl, rfl⟩

theorem InStep.clearWakes (h : w.Mirrors r i j w') (k k' : Nat) :
    InStep r i j w (w.clearWakes k) (w'.clearWakes k') where
  mirrors := ⟨h.scene, h.random, h.clock, h.cancelled, h.listed⟩
  confined := ⟨.refl r _, Nat.le_refl _, rfl, fun _ _ => ⟨rfl, rfl⟩⟩

/-- Whatever a script waits for, its next turn keeps to the realm. -/
theorem turns_self (base : r.scene.Varies w.scene) {frames : List Frame} (fits : r.Fits frames) {pause : Pause}
    (covers : r.Covers (pause.taps.map (·.2))) (hcan : w.canResume i pause = true) (relays : List Nat) :
    ∃ x', Turns r i i w (w.turn ⟨r.caller i, frames, pause, relays⟩) x' := by
  have self : w.Mirrors r i i w := .self base
  cases pause with
  | watching p links =>
    refine ⟨w.turn ⟨r.caller i, frames.map Frame.bare, .watching p.bare links, relays⟩, Strides.turns rfl rfl ?_⟩
    have cleared := InStep.clearWakes self i i
    simp only [resume]
    refine .after cleared.confined ?_
    split
    · exact .go (.withHub cleared.mirrors _ _) fits
    · rename_i running
      have running : w.isCancelled i = false := Bool.not_eq_true _ ▸ running
      have hwoken : 0 < w.wakesOf i := by simpa [canResume, running] using hcan
      exact strides_retest cleared.mirrors running fits covers links links _ fun htries => by omega
  | _ => exact ⟨_, turns_of_unwatched self fits rfl relays relays⟩

/-- A script that is woken while its condition fails rests again, and has only evaluated. -/
theorem turn_of_fails {p : Predicate Nat} (links : Subscription Channel) (frames : List Frame) (relays : List Nat)
    (running : w.isCancelled i = false) (none : w.traces.random.taken = 0) (fails : r.Fails p w.scene) :
    ∃ traces signals, traces.random.taken = 0 ∧
      w.turn ⟨r.caller i, frames, .watching p links, relays⟩ =
        ({ w with traces, signals }, some (frames, .watching p links)) := by
  have tests : ∀ tries (u : World), u.traces.random.taken = 0 → u.scene = w.scene →
      ∃ traces, traces.random.taken = 0 ∧
        u.retest (r.caller i) frames p links tries = ({ u with traces }, .rest frames (.watching p links)) := by
    intro tries
    induction tries with
    | zero => exact fun u hu _ => ⟨u.traces, hu, rfl⟩
    | succ tries ih =>
      intro u hu hscene
      obtain ⟨hfalse, hzero⟩ := fails u.traces hu
      rw [← hscene] at hfalse hzero
      obtain ⟨traces, htraces, hretest⟩ := ih (u.evaluate r.figure p.test).2 hzero hscene
      refine ⟨traces, htraces, ?_⟩
      unfold retest
      dsimp only
      have hresult : (u.evaluate r.figure p.test).1 = false := hfalse
      rw [hresult]
      exact hretest
  have hcancelled : (w.clearWakes i).isCancelled i = false := running
  obtain ⟨traces, htraces, hretest⟩ := tests (min (w.wakesOf i) 2) (w.clearWakes i) none rfl
  refine ⟨traces, (w.clearWakes i).signals, htraces, ?_⟩
  simp only [turn, resume, hcancelled, Bool.false_eq_true, if_false]
  rw [hretest]
  rfl

end World

end BlockScript
