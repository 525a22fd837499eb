import BlockScript.Proofs.Script.Watching

/-!
What a script's own pieces do to its waiting. At every moment a script attends: its taps are in place,
it listens while it watches and only then, and only a script that watches has been woken. If it watches
it is told. Each of its pieces keeps this, and takes nothing from others but its own handlers.
-/
namespace BlockScript

theorem Pause.not_watching {pause : Pause} (h : pause.watched? = none) {p : Predicate Nat} {links : Subscription Channel} :
    pause ≠ .watching p links := by
  rintro rfl
  cases h

namespace World

/-- The taps of all that is left to do are in place. A script that watches a condition listens to all its relays; one
that does not watch is woken by no handler and has not been woken. -/
structure Attends (plan : Plan) (w : World) (c : Caller) (frames : List Frame) (pause : Pause) : Prop where
  taps : w.Conforms plan c.figure (Frame.stackTaps frames)
  watched : ∀ p links, pause = .watching p links → w.Conforms plan c.figure p.taps ∧ w.Listens c p links
  heard : ∀ key n, w.hub.Has key n (.wake c.script) → ∃ p links, pause = .watching p links ∧ ⟨key, n⟩ ∈ links
  woken : 0 < w.wakesOf c.script → ∃ p links, pause = .watching p links

/-- A script that watches is told. -/
def IsTold (w : World) (c : Caller) (pause : Pause) : Prop := ∀ p links, pause = .watching p links → w.Told c p

/-- Nothing of anybody else's is lost. -/
abbrev Spares (script : Nat) : World → World → Prop := Kept (fun _ => False) (· = .wake script)

variable {plan : Plan} {w w' : World} {c : Caller} {frames : List Frame} {pause : Pause}

theorem Conforms.mono {figure : Nat} {taps more : List (Nat × Source)} (h : w.Conforms plan figure more)
    (hsub : taps ⊆ more) : w.Conforms plan figure taps := fun x hx => h x (hsub hx)

/-! ### Other scripts -/

theorem Attends.kept {gone : Nat → Prop} {lost : Handler Channel → Prop} (h : w.Attends plan c frames pause)
    (kept : Kept gone lost w w') (hlost : ¬ lost (.wake c.script)) (hframes : ∀ x ∈ Frame.stackTaps frames, ¬ gone x.1)
    (hpause : ∀ p links, pause = .watching p links → ∀ r ∈ p.relays, ¬ gone r) : w'.Attends plan c frames pause where
  taps := kept.conforms h.taps hframes
  watched := fun p links hp => by
    obtain ⟨hconforms, hlistens⟩ := h.watched p links hp
    refine ⟨kept.conforms hconforms fun x hx => hpause p links hp x.1 ?_, kept.listens hlistens hlost (hpause p links hp)⟩
    rw [← p.map_taps]
    exact List.mem_map_of_mem hx
  heard := fun key n hh => h.heard key n (kept.heard key n _ hh hlost)
  woken := fun hk => by
    rcases kept.woken _ hk hlost with hk | ⟨key, n, hh⟩
    · exact h.woken hk
    · obtain ⟨p, links, hp, -⟩ := h.heard key n hh
      exact ⟨p, links, hp⟩

theorem IsTold.kept {gone : Nat → Prop} {lost : Handler Channel → Prop} (ht : w.IsTold c pause)
    (h : w.Attends plan c frames pause) (kept : Kept gone lost w w') (hlost : ¬ lost (.wake c.script))
    (hpause : ∀ p links, pause = .watching p links → ∀ r ∈ p.relays, ¬ gone r) : w'.IsTold c pause :=
  fun p links hp => kept.told c p links (h.watched p links hp).2 (ht p links hp) hlost (hpause p links hp)

/-! ### Pieces that do not watch -/

theorem IsTold.of_unwatched (h : pause.watched? = none) : w.IsTold c pause :=
  fun _ _ hp => absurd hp (Pause.not_watching h)

theorem Attends.wakesOf_eq_zero (h : w.Attends plan c frames pause) (unwatched : pause.watched? = none) :
    w.wakesOf c.script = 0 := by
  by_contra hne
  obtain ⟨p, links, hp⟩ := h.woken (Nat.pos_of_ne_zero hne)
  exact Pause.not_watching unwatched hp

theorem Attends.on {frames' : List Frame} {pause' : Pause} (h : w.Attends plan c frames pause)
    (unwatched : pause.watched? = none) (kept : Kept (fun _ => False) (fun _ => False) w w')
    (within : Frame.stackTaps frames' ⊆ Frame.stackTaps frames) (quiet : pause'.watched? = none) :
    w'.Attends plan c frames' pause' where
  taps := kept.conforms (h.taps.mono within) fun _ _ => id
  watched := fun p links hp => absurd hp (Pause.not_watching quiet)
  heard := fun key n hh => by
    obtain ⟨p, links, hp, -⟩ := h.heard key n (kept.heard key n _ hh id)
    exact absurd hp (Pause.not_watching unwatched)
  woken := fun hk => by
    rcases kept.woken _ hk id with hk | ⟨key, n, hh⟩
    · obtain ⟨p, links, hp⟩ := h.woken hk
      exact absurd hp (Pause.not_watching unwatched)
    · obtain ⟨p, links, hp, -⟩ := h.heard key n hh
      exact absurd hp (Pause.not_watching unwatched)

/-! ### Testing and listening -/

/-- A condition that tests false rests. -/
theorem Wired.rests (h : w.Wired plan) {figure : Nat} {p : Predicate Nat} (hc : w.Conforms plan figure p.taps)
    (hfalse : (w.evaluate figure p.test).1 = false) : (w.evaluate figure p.test).2.Rests figure p := by
  obtain ⟨a, reads, after, outcome, hreads⟩ := p.isReading_test (w.view figure) w.traces.random
  obtain ⟨ha, hhub, -⟩ := outcome (w.view figure) (.refl _ _) w.traces rfl
  have hhub : (w.evaluate figure p.test).2.hub = w.hub.connectAll reads := hhub
  have hfalse : a = false := ha.symm.trans hfalse
  refine ⟨w.traces.random, reads, fun v hv t ht => (outcome v hv t ht).1.trans hfalse, fun x hx => ?_⟩
  obtain ⟨s, hs, hchannel⟩ := hreads x hx
  refine ⟨p.map_taps ▸ List.mem_map_of_mem hs, ?_⟩
  obtain ⟨l, hl⟩ : ∃ l, (w.hub.connectAll reads).feeds.lookup (.relay x.1) = some l := Hub.fed_connectAll hx
  have hl' : (w.evaluate figure p.test).2.hub.feeds.lookup (.relay x.1) = some l := by rwa [hhub]
  refine ⟨l, hl', ?_⟩
  have hplan := ((h.evaluate hc p.isConnecting_test).fed x.1 l hl').2.1
  exact Option.some.inj (hplan.symm.trans ((hc _ hs).1.trans hchannel))

/-- What a piece leaves. -/
structure Served (plan : Plan) (w : World) (c : Caller) (w' : World) (frames : List Frame) (pause : Pause) : Prop where
  wired : w'.Wired plan
  spares : Spares c.script w w'
  attends : w'.Attends plan c frames pause
  told : w'.IsTold c pause

theorem Spares.of_kept {script : Nat} (h : Kept (fun _ => False) (fun _ => False) w w') : Spares script w w' :=
  h.mono fun _ => False.elim

theorem Served.trans {w₁ w₂ : World} (h : Spares c.script w w₁) (h' : Served plan w₁ c w₂ frames pause) :
    Served plan w c w₂ frames pause :=
  ⟨h'.wired, h.trans h'.spares, h'.attends, h'.told⟩

/-- A script that did not watch begins to listen. -/
theorem Attends.listen (h : w.Attends plan c frames pause) (hw : w.Wired plan) (unwatched : pause.watched? = none)
    {next : List Frame} (within : Frame.stackTaps next ⊆ Frame.stackTaps frames) {p : Predicate Nat}
    (hc : w.Conforms plan c.figure p.taps) (hrests : w.Rests c.figure p) {links : Subscription Channel} {hub : Hub Channel}
    (hsub : w.hub.subscribeAll (p.relays.map .relay) (.wake c.script) = (hub, links)) :
    Served plan w c (w.withHub hub) next (.watching p links) := by
  have plain : (Handler.wake c.script : Handler Channel).IsPlain := trivial
  have hhub : hub = (w.hub.subscribeAll (p.relays.map .relay) (.wake c.script)).1 := by rw [hsub]
  have hlinks : links = (w.hub.subscribeAll (p.relays.map .relay) (.wake c.script)).2 := by rw [hsub]
  have spares : Spares c.script w (w.withHub hub) :=
    hhub ▸ kept_subscribeAll hw _ plain fun k hk => rfl
  have hevents : links.map (·.event) = p.relays.map .relay := hlinks ▸ Hub.subscribeAll_events _ _
  refine ⟨hhub ▸ hw.subscribeAll _ plain, spares, ⟨?_, ?_, ?_, ?_⟩, ?_⟩
  · exact spares.conforms (h.taps.mono within) fun _ _ => id
  · rintro _ _ ⟨⟩
    refine ⟨spares.conforms hc fun _ _ => id, hevents, fun l hl => ?_⟩
    show hub.Has l.event l.handler (.wake c.script)
    rw [hhub]
    refine (hw.tidy.has_subscribeAll plain).mpr (Or.inr ⟨?_, rfl, hlinks ▸ hl⟩)
    have hmem : l.event ∈ p.relays.map .relay := hevents ▸ List.mem_map_of_mem hl
    obtain ⟨r, hr, hevent⟩ := List.mem_map.mp hmem
    rw [← p.map_taps] at hr
    obtain ⟨x, hx, rfl⟩ := List.mem_map.mp hr
    exact hevent ▸ (hc x hx).2
  · intro key n hh
    have hh : hub.Has key n (.wake c.script) := hh
    rw [hhub] at hh
    rcases (hw.tidy.has_subscribeAll plain).mp hh with hh | ⟨-, -, hl⟩
    · obtain ⟨q, links', hp, -⟩ := h.heard key n hh
      exact absurd hp (Pause.not_watching unwatched)
    · exact ⟨p, links, rfl, hlinks ▸ hl⟩
  · exact fun _ => ⟨p, links, rfl⟩
  · rintro _ _ ⟨⟩
    obtain ⟨random, reads, htest, hfed⟩ := hrests
    refine Or.inr ⟨random, reads, htest, fun x hx => ?_⟩
    obtain ⟨hr, l, hl, hevent⟩ := hfed x hx
    refine ⟨hr, l, ?_, hevent⟩
    have hfeeds : hub.feeds = w.hub.feeds := hhub ▸ Hub.subscribeAll_feeds _ _
    exact (congrArg (fun feeds => List.lookup _ feeds) hfeeds).trans hl

/-- A script that watched lets go of its links, and of its wakes if it had any. -/
theorem Attends.letGo {p : Predicate Nat} {links : Subscription Channel} (h : w.Attends plan c frames (.watching p links))
    (hw : w.Wired plan) {signals : List Signal} (zero : signals.count (.wake c.script) = 0)
    (wakes : ∀ k, k ≠ c.script → signals.count (.wake k) = w.wakesOf k) :
    Served plan w c { w.withHub (w.hub.release links) with signals } frames .ready := by
  obtain ⟨-, hlistens⟩ := h.watched p links rfl
  have own : ∀ l ∈ links, ∀ handler, w.hub.Has l.event l.handler handler → handler = .wake c.script :=
    fun l hl handler hh => hw.tidy.has_unique hh (hlistens.has l hl)
  have spares : Spares c.script w (w.withHub (w.hub.release links)) := kept_release hw own
  have hwired : (w.withHub (w.hub.release links)).Wired plan := hw.release fun l hl target hh => by
    cases own l hl _ hh
  have spares' : Spares c.script w { w.withHub (w.hub.release links) with signals } :=
    spares.trans (kept_signals fun k hk => wakes k fun he => hk (he ▸ rfl))
  refine ⟨hwired.of_eq rfl (.refl _) rfl, spares', ⟨spares'.conforms h.taps fun _ _ => id, nofun, ?_, ?_⟩, nofun⟩
  · intro key n hh
    obtain ⟨hh, hnot⟩ := hw.tidy.has_release.mp hh
    obtain ⟨_, _, hp, hl⟩ := h.heard key n hh
    cases hp
    exact absurd hl hnot
  · intro hk
    have hk : 0 < signals.count (.wake c.script) := hk
    omega

/-! ### Pieces -/

theorem waitUntil_served (h : w.Attends plan c frames .ready) (hw : w.Wired plan) {next : List Frame} {p : Predicate Nat}
    (hcondition : p.taps ⊆ Frame.stackTaps frames) (hnext : Frame.stackTaps next ⊆ Frame.stackTaps frames) :
    Served plan w c (w.waitUntil c next p).1 (w.waitUntil c next p).2.frames (w.waitUntil c next p).2.pause := by
  have hc := h.taps.mono hcondition
  have hw₁ := hw.evaluate hc p.isConnecting_test
  have kept₁ : Kept (fun _ => False) (fun _ => False) w (w.evaluate c.figure p.test).2 :=
    kept_evaluate hw hc p.isConnecting_test
  have attends₁ : (w.evaluate c.figure p.test).2.Attends plan c frames .ready := h.on rfl kept₁ (List.Subset.refl _) rfl
  unfold waitUntil
  dsimp only
  split
  · exact ⟨hw₁, .of_kept kept₁, h.on rfl kept₁ hnext rfl, .of_unwatched rfl⟩
  · rename_i hfalse
    have hrests := hw.rests hc (Bool.not_eq_true _ ▸ hfalse)
    have hc₁ := kept₁.conforms hc fun _ _ => id
    have listening := attends₁.listen hw₁ rfl hnext hc₁ hrests rfl
    have hc₂ := (listening.attends.watched _ _ rfl).1
    have kept₂ : Kept (fun _ => False) (fun _ => False) _ _ := kept_evaluate listening.wired hc₂ p.isConnecting_test
    have hw₂ := listening.wired.evaluate hc₂ p.isConnecting_test
    have attends₂ := listening.attends.kept kept₂ id (fun _ _ => id) fun _ _ _ _ _ => id
    refine Served.trans (.of_kept kept₁) (Served.trans listening.spares (Served.trans (.of_kept kept₂) ?_))
    split
    · exact attends₂.letGo hw₂ (h.wakesOf_eq_zero rfl) fun _ _ => rfl
    · refine ⟨hw₂, .of_eq rfl rfl rfl rfl, attends₂, ?_⟩
      exact listening.told.kept listening.attends kept₂ id fun _ _ _ _ _ => id

theorem retest_served {p : Predicate Nat} {links : Subscription Channel} (tries : Nat) {w : World}
    (h : w.Attends plan c frames (.watching p links)) (hw : w.Wired plan) (zero : w.wakesOf c.script = 0)
    (told : tries = 0 → w.Told c p) :
    Served plan w c (w.retest c frames p links tries).1 (w.retest c frames p links tries).2.frames
      (w.retest c frames p links tries).2.pause := by
  -- Each test that fails makes the condition rest again; the first one may find it otherwise.
  induction tries generalizing w with
  | zero =>
    refine ⟨hw, .of_eq rfl rfl rfl rfl, h, ?_⟩
    rintro _ _ ⟨⟩
    exact told rfl
  | succ tries ih =>
    have hc := (h.watched p links rfl).1
    have kept : Kept (fun _ => False) (fun _ => False) w (w.evaluate c.figure p.test).2 :=
      kept_evaluate hw hc p.isConnecting_test
    have hw₁ := hw.evaluate hc p.isConnecting_test
    have attends₁ := h.kept kept id (fun _ _ => id) fun _ _ _ _ _ => id
    refine Served.trans (.of_kept kept) ?_
    unfold retest
    dsimp only
    split
    · exact attends₁.letGo hw₁ zero fun _ _ => rfl
    · rename_i hfalse
      exact ih attends₁ hw₁ zero fun _ => Or.inr (hw.rests hc (Bool.not_eq_true _ ▸ hfalse))

theorem wakesOf_clearWakes_self (w : World) (script : Nat) : (w.clearWakes script).wakesOf script = 0 := by
  refine List.count_eq_zero.mpr fun hmem => ?_
  simpa using (List.mem_filter.mp hmem).2

theorem wakesOf_clearWakes_of_ne (w : World) {k script : Nat} (hk : k ≠ script) :
    (w.clearWakes script).wakesOf k = w.wakesOf k :=
  List.count_filter (by simpa using hk)

/-- Only a script that was woken or cancelled goes on with its watch. -/
theorem resume_served {p : Predicate Nat} {links : Subscription Channel} (h : w.Attends plan c frames (.watching p links))
    (hw : w.Wired plan) (hcan : w.canResume c.script (.watching p links) = true) :
    Served plan w c (w.resume c frames (.watching p links)).1 (w.resume c frames (.watching p links)).2.frames
      (w.resume c frames (.watching p links)).2.pause := by
  have zero := w.wakesOf_clearWakes_self c.script
  have wakes : ∀ k, k ≠ c.script → (w.clearWakes c.script).wakesOf k = w.wakesOf k :=
    fun k hk => w.wakesOf_clearWakes_of_ne hk
  simp only [resume]
  split
  · exact h.letGo hw zero wakes
  · rename_i running
    have running : w.isCancelled c.script = false := Bool.not_eq_true _ ▸ running
    have hwoken : 0 < w.wakesOf c.script := by simpa [canResume, running] using hcan
    have attends : (w.clearWakes c.script).Attends plan c frames (.watching p links) :=
      ⟨h.taps, fun q l hq => ⟨(h.watched q l hq).1, (h.watched q l hq).2.events, (h.watched q l hq).2.has⟩, h.heard,
        fun _ => ⟨p, links, rfl⟩⟩
    have spares : Spares c.script w (w.clearWakes c.script) := kept_signals fun k hk => wakes k fun he => hk (he ▸ rfl)
    refine Served.trans spares (retest_served _ attends (hw.of_eq rfl (.refl _) rfl) zero fun htries => ?_)
    omega

/-- Every piece of a script keeps its waiting in order. -/
theorem Piece.served {w' : World} {progress : Progress} (spec : Piece w c frames pause w' progress) (hw : w.Wired plan)
    (h : w.Attends plan c frames pause) (hcan : w.canResume c.script pause = true) :
    Served plan w c w' progress.frames progress.pause := by
  cases spec with
  | ends => exact ⟨hw, .of_eq rfl rfl rfl rfl, h, .of_unwatched rfl⟩
  | stops option rest next running =>
    have kept : Kept (fun _ => False) (fun _ => False) w (w.cancelWhere (option.reaches c)) := .of_eq rfl rfl rfl rfl
    exact ⟨hw.of_eq rfl (.refl _) rfl, .of_kept kept, h.on rfl kept (List.Subset.refl _) rfl, .of_unwatched rfl⟩
  | waits p rest next running =>
    refine waitUntil_served h hw ?_ ?_
    · exact List.Subset.trans (List.subset_append_left _ _) (List.subset_append_left _ _)
    · show Action.bodyTaps rest ++ Frame.stackTaps next ⊆ (p.taps ++ Action.bodyTaps rest) ++ Frame.stackTaps next
      rw [List.append_assoc]
      exact List.subset_append_right _ _
  | wakes p links frames => exact resume_served h hw hcan
  | acts unwatched plain acts goes quiet within =>
    obtain ⟨hw', kept⟩ := acts.wired_kept hw h.taps
    exact ⟨hw', .of_kept kept, h.on unwatched kept within quiet, .of_unwatched quiet⟩

end World
end BlockScript
