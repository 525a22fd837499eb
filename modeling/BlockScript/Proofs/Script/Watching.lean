import BlockScript.Proofs.Script.Wiring
import BlockScript.Proofs.Script.Pieces

/-!
Watching a condition. A script that watches listens to every relay of its condition. Either it has been
woken since the condition last tested false, or the condition rests: all that the last test read is
connected and as it was, so the condition is still false. `Kept` says what one happening leaves of this
to the scripts that have no part in it.
-/
namespace BlockScript

namespace World

/-- The taps stand for the channels of the plan, and their relays are open. -/
def Conforms (plan : Plan) (w : World) (figure : Nat) (taps : List (Nat × Source)) : Prop :=
  ∀ x ∈ taps, plan x.1 = x.2.channel? (w.view figure) ∧ w.hub.IsOpen (.relay x.1)

/-- With some state of the random source the condition tests false as long as nothing changes that it
read, and what it read is connected. -/
def Rests (w : World) (figure : Nat) (p : Predicate Nat) : Prop :=
  ∃ random reads, (∀ v, (w.view figure).Agrees v reads → ∀ t : Traces, t.random = random → (p.test v t).1 = false) ∧
    ∀ x ∈ reads, x.1 ∈ p.relays ∧ ∃ l, w.hub.feeds.lookup (.relay x.1) = some l ∧ l.event = x.2

/-- The script was woken, or its condition rests. -/
def Told (w : World) (c : Caller) (p : Predicate Nat) : Prop := 0 < w.wakesOf c.script ∨ w.Rests c.figure p

/-- The links tell the script of every relay of the condition. -/
structure Listens (w : World) (c : Caller) (p : Predicate Nat) (links : Subscription Channel) : Prop where
  events : links.map (·.event) = p.relays.map .relay
  has : ∀ l ∈ links, w.hub.Has l.event l.handler (.wake c.script)

/-- What is left to others: relays that are not gone stay open, handlers that are not lost stay in
place, and who watches is still told. Nobody else begins to listen, and only listeners are woken. -/
structure Kept (gone : Nat → Prop) (lost : Handler Channel → Prop) (w w' : World) : Prop where
  shape : w.scene.SameShape w'.scene
  relays : w.nextRelay ≤ w'.nextRelay
  opened : ∀ c, w.hub.IsOpen c → (∀ r, c = .relay r → ¬ gone r) → w'.hub.IsOpen c
  back : ∀ r < w.nextRelay, w'.hub.IsOpen (.relay r) → w.hub.IsOpen (.relay r)
  has : ∀ c n h, w.hub.Has c n h → ¬ lost h → (∀ r, c = .relay r → ¬ gone r) → w'.hub.Has c n h
  told : ∀ c p links, w.Listens c p links → w.Told c p → ¬ lost (.wake c.script) → (∀ r ∈ p.relays, ¬ gone r) →
    w'.Told c p
  heard : ∀ c n k, w'.hub.Has c n (.wake k) → ¬ lost (.wake k) → w.hub.Has c n (.wake k)
  woken : ∀ k, 0 < w'.wakesOf k → ¬ lost (.wake k) → 0 < w.wakesOf k ∨ ∃ c n, w.hub.Has c n (.wake k)
  held : w'.hub.subscriptions ⊆ w.hub.subscriptions

/-! ### Nothing lost -/

section
variable {plan : Plan} {w w' : World} {gone : Nat → Prop} {lost : Handler Channel → Prop}

theorem Listens.mem_links {c : Caller} {p : Predicate Nat} {links : Subscription Channel} (h : w.Listens c p links) {r : Nat}
    (hr : r ∈ p.relays) : ∃ l ∈ links, l.event = .relay r := by
  have hmem : Channel.relay r ∈ links.map (·.event) := h.events ▸ List.mem_map_of_mem hr
  obtain ⟨l, hl, hevent⟩ := List.mem_map.mp hmem
  exact ⟨l, hl, hevent⟩

theorem Listens.event_of_mem {c : Caller} {p : Predicate Nat} {links : Subscription Channel} (h : w.Listens c p links)
    {l : Link Channel} (hl : l ∈ links) : ∃ r ∈ p.relays, l.event = .relay r := by
  have hmem : l.event ∈ p.relays.map .relay := h.events ▸ List.mem_map_of_mem hl
  obtain ⟨r, hr, hevent⟩ := List.mem_map.mp hmem
  exact ⟨r, hr, hevent.symm⟩

theorem Kept.listens (h : Kept gone lost w w') {c : Caller} {p : Predicate Nat} {links : Subscription Channel}
    (hw : w.Listens c p links) (hlost : ¬ lost (.wake c.script)) (hgone : ∀ r ∈ p.relays, ¬ gone r) :
    w'.Listens c p links where
  events := hw.events
  has := fun l hl => by
    refine h.has _ _ _ (hw.has l hl) hlost fun k hk => ?_
    obtain ⟨r, hr, hevent⟩ := hw.event_of_mem hl
    obtain rfl := Channel.relay.inj (hk.symm.trans hevent)
    exact hgone k hr

theorem Kept.conforms (h : Kept gone lost w w') {figure : Nat} {taps : List (Nat × Source)}
    (hc : w.Conforms plan figure taps) (hgone : ∀ x ∈ taps, ¬ gone x.1) : w'.Conforms plan figure taps := by
  intro x hx
  obtain ⟨hplan, hopen⟩ := hc x hx
  have hfigure : (w'.view figure).figure = (w.view figure).figure := rfl
  have hchannel := Source.channel?_congr hfigure h.shape x.2
  refine ⟨hplan.trans hchannel.symm, h.opened _ hopen fun r hr => ?_⟩
  exact Channel.relay.inj hr ▸ hgone x hx

theorem Kept.trans {w'' : World} (h : Kept gone lost w w') (h' : Kept gone lost w' w'') : Kept gone lost w w'' where
  shape := h.shape.trans h'.shape
  relays := Nat.le_trans h.relays h'.relays
  opened := fun c hc hg => h'.opened c (h.opened c hc hg) hg
  back := fun r hr hopen => h.back r hr (h'.back r (Nat.lt_of_lt_of_le hr h.relays) hopen)
  has := fun c n handler hh hl hg => h'.has c n handler (h.has c n handler hh hl hg) hl hg
  told := fun c p links hw ht hl hg => h'.told c p links (h.listens hw hl hg) (h.told c p links hw ht hl hg) hl hg
  heard := fun c n k hh hl => h.heard c n k (h'.heard c n k hh hl) hl
  woken := fun k hk hl => by
    rcases h'.woken k hk hl with hk | ⟨c, n, hh⟩
    · exact h.woken k hk hl
    · exact Or.inr ⟨c, n, h.heard c n k hh hl⟩
  held := List.Subset.trans h'.held h.held

/-- The scene stays; of the hub and the signals all is kept that others have a part in. -/
theorem Kept.of_scene (scene : w'.scene = w.scene) (relays : w.nextRelay ≤ w'.nextRelay)
    (opened : ∀ c, w.hub.IsOpen c → (∀ r, c = .relay r → ¬ gone r) → w'.hub.IsOpen c)
    (back : ∀ r < w.nextRelay, w'.hub.IsOpen (.relay r) → w.hub.IsOpen (.relay r))
    (has : ∀ c n h, w.hub.Has c n h → ¬ lost h → (∀ r, c = .relay r → ¬ gone r) → w'.hub.Has c n h)
    (fed : ∀ r l, w.hub.feeds.lookup (.relay r) = some l → ¬ gone r → w'.hub.feeds.lookup (.relay r) = some l)
    (heard : ∀ c n k, w'.hub.Has c n (.wake k) → ¬ lost (.wake k) → w.hub.Has c n (.wake k))
    (wakes : ∀ k, ¬ lost (.wake k) → w'.wakesOf k = w.wakesOf k) (held : w'.hub.subscriptions ⊆ w.hub.subscriptions) :
    Kept gone lost w w' where
  shape := scene ▸ .refl _
  relays := relays
  opened := opened
  back := back
  has := has
  told := fun c p links hw ht hl hg => by
    rcases ht with hk | ⟨random, reads, htest, hfed⟩
    · exact Or.inl (wakes c.script hl ▸ hk)
    · refine Or.inr ⟨random, reads, ?_, fun x hx => ?_⟩
      · simpa only [view, scene] using htest
      · obtain ⟨hr, l, hlook, hevent⟩ := hfed x hx
        exact ⟨hr, l, fed _ _ hlook (hg _ hr), hevent⟩
  heard := heard
  woken := fun k hk hl => Or.inl (wakes k hl ▸ hk)
  held := held

/-- The hub and the signals stay as they are. -/
theorem Kept.of_eq (scene : w'.scene = w.scene) (hub : w'.hub = w.hub) (relays : w'.nextRelay = w.nextRelay)
    (signals : w'.signals = w.signals) : Kept gone lost w w' :=
  .of_scene scene (Nat.le_of_eq relays.symm) (fun _ hc _ => hub ▸ hc) (fun _ _ hr => hub ▸ hr) (fun _ _ _ hh _ _ => hub ▸ hh)
    (fun _ _ hl _ => hub ▸ hl) (fun _ _ _ hh _ => hub ▸ hh) (fun k _ => by rw [wakesOf, signals]; rfl)
    (hub ▸ List.Subset.refl _)

end

/-! ### Happenings -/

section
variable {plan : Plan} {w : World} {gone : Nat → Prop} {lost : Handler Channel → Prop}

/-- The relays that a computation connects are those of its taps, and to the channels of the plan. -/
theorem Conforms.reads {α : Type} {figure : Nat} {taps : List (Nat × Source)} (h : w.Wired plan) (hc : w.Conforms plan figure taps)
    {m : View → Eval α} (hm : IsConnecting taps m) :
    ∃ reads, (w.evaluate figure m).2.hub = w.hub.connectAll reads ∧
      ∀ x ∈ reads, plan x.1 = some x.2 ∧ x.1 < w.nextRelay := by
  obtain ⟨reads, hhub, hreads⟩ := hm (w.view figure) w.traces
  refine ⟨reads, hhub, fun x hx => ?_⟩
  obtain ⟨s, hs, hchannel⟩ := hreads x hx
  obtain ⟨hplan, hopen⟩ := hc _ hs
  exact ⟨hplan.trans hchannel, h.opened _ hopen⟩

theorem Wired.evaluate {α : Type} {figure : Nat} {taps : List (Nat × Source)} (h : w.Wired plan)
    (hc : w.Conforms plan figure taps) {m : View → Eval α} (hm : IsConnecting taps m) :
    (w.evaluate figure m).2.Wired plan := by
  obtain ⟨reads, hhub, hreads⟩ := hc.reads h hm
  exact (h.connectAll hreads).of_eq hhub (.refl _) rfl

theorem kept_evaluate {α : Type} {figure : Nat} {taps : List (Nat × Source)} (h : w.Wired plan)
    (hc : w.Conforms plan figure taps) {m : View → Eval α} (hm : IsConnecting taps m) :
    Kept gone lost w (w.evaluate figure m).2 := by
  obtain ⟨reads, hhub, -⟩ := hc.reads h hm
  refine .of_scene rfl (Nat.le_refl _) ?_ ?_ ?_ ?_ ?_ (fun _ _ => rfl) ?_ <;> rw [hhub]
  · exact fun _ ho _ => h.tidy.isOpen_connectAll.mpr ho
  · exact fun _ _ ho => h.tidy.isOpen_connectAll.mp ho
  · exact fun _ _ _ hh _ _ => h.tidy.has_connectAll hh
  · exact fun _ _ hl _ => Hub.lookup_connectAll hl
  · exact fun _ _ _ hh _ => h.tidy.wake_of_connectAll hh
  · exact fun _ hx => Hub.connectAll_subscriptions reads ▸ hx

theorem Wired.change (h : w.Wired plan) (c : Change) : (w.change c).Wired plan :=
  h.of_eq (h.tidy.raise_hub c.channel) (c.sameShape w.scene) rfl

theorem wakesOf_change (w : World) (c : Change) (k : Nat) :
    (w.change c).wakesOf k = (w.hub.raise c.channel).2.count (.wake k) + w.wakesOf k := by
  rw [wakesOf, change_eq, List.count_append, List.count_reverse]
  rfl

/-- A change wakes whoever watches a condition that read the changed data. -/
theorem Told.change {c : Caller} {p : Predicate Nat} {links : Subscription Channel} (ht : w.Told c p) (h : w.Wired plan)
    (hw : w.Listens c p links) (x : Change) : (w.change x).Told c p := by
  rcases ht with hk | ⟨random, reads, htest, hfed⟩
  · exact Or.inl (by rw [wakesOf_change]; omega)
  by_cases hread : ∃ r, (r, x.channel) ∈ reads ∧ w.hub.IsOpen x.channel
  · obtain ⟨r, hr, hopen⟩ := hread
    obtain ⟨hrelay, l, hlook, hevent⟩ := hfed _ hr
    have hevent : l.event = x.channel := hevent
    obtain ⟨l', hl', hevent'⟩ := hw.mem_links hrelay
    have feed := (h.fed r l hlook).2.2 (hevent ▸ hopen)
    have listens := hw.has l' hl'
    rw [hevent] at feed
    rw [hevent'] at listens
    have hwake := List.count_pos_iff.mpr (h.tidy.wake_of_raise feed listens)
    exact Or.inl (by rw [wakesOf_change]; omega)
  · -- What was read is as it was: the change is on another channel, or on one that is not there.
    have agrees : (w.view c.figure).Agrees ((w.change x).view c.figure) reads := by
      refine ⟨rfl, x.sameShape w.scene, fun y hy => ?_⟩
      by_cases hy' : y.2 = x.channel
      · refine Change.sameAt_of_not_mem (fun hmem => hread ⟨y.1, ?_, h.channels _ hmem⟩) y.2
        exact hy' ▸ hy
      · exact x.sameAt_of_ne w.scene hy'
    refine Or.inr ⟨random, reads, fun v hv t ht => htest v (agrees.trans hv) t ht, fun y hy => ?_⟩
    obtain ⟨hr, l, hlook, hevent⟩ := hfed y hy
    refine ⟨hr, l, ?_, hevent⟩
    rw [← hlook]
    exact congrArg (fun hub : Hub Channel => hub.feeds.lookup (.relay y.1)) (h.tidy.raise_hub x.channel)

theorem kept_change (h : w.Wired plan) (x : Change) : Kept gone lost w (w.change x) := by
  have hhub : (w.change x).hub = w.hub := h.tidy.raise_hub x.channel
  refine ⟨x.sameShape w.scene, Nat.le_refl _, fun _ ho _ => hhub ▸ ho, fun _ _ ho => hhub ▸ ho,
    fun _ _ _ hh _ _ => hhub ▸ hh, fun c p links hw ht _ _ => ht.change h hw x, fun _ _ _ hh _ => hhub ▸ hh, ?_,
    hhub ▸ List.Subset.refl _⟩
  · intro k hk _
    rw [wakesOf_change] at hk
    by_cases hold : 0 < w.wakesOf k
    · exact Or.inl hold
    · have hcount : 0 < (w.hub.raise x.channel).2.count (.wake k) := by omega
      exact Or.inr (h.tidy.has_of_wake (List.count_pos_iff.mp hcount))

theorem kept_subscribeAll (h : w.Wired plan) (keys : List Channel) {handler : Handler Channel} (plain : handler.IsPlain)
    (hlost : ∀ k, handler = .wake k → lost handler) :
    Kept gone lost w (w.withHub (w.hub.subscribeAll keys handler).1) := by
  refine .of_scene rfl (Nat.le_refl _) (fun _ ho _ => (h.tidy.isOpen_subscribeAll plain).mpr ho)
    (fun _ _ ho => (h.tidy.isOpen_subscribeAll plain).mp ho)
    (fun _ _ _ hh _ _ => (h.tidy.has_subscribeAll plain).mpr (Or.inl hh)) (fun _ _ hl _ => ?_) (fun c n k hh hk => ?_)
    (fun _ _ => rfl) ?_
  · exact (congrArg (fun feeds => List.lookup _ feeds) (Hub.subscribeAll_feeds keys handler)).trans hl
  · rcases (h.tidy.has_subscribeAll plain).mp hh with hh | ⟨-, hh, -⟩
    · exact hh
    · exact absurd (hh ▸ hlost k hh.symm) hk
  · exact fun _ hx => Hub.subscribeAll_subscriptions keys handler ▸ hx

/-- Releasing links takes what is lost, and no more. -/
theorem kept_release (h : w.Wired plan) {links : Subscription Channel}
    (hlinks : ∀ l ∈ links, ∀ handler, w.hub.Has l.event l.handler handler → lost handler) :
    Kept gone lost w (w.withHub (w.hub.release links)) := by
  refine .of_scene rfl (Nat.le_refl _) (fun _ ho _ => h.tidy.isOpen_release.mpr ho)
    (fun _ _ ho => h.tidy.isOpen_release.mp ho) (fun c n handler hh hl _ => ?_) (fun _ _ hl _ => ?_)
    (fun _ _ _ hh _ => (h.tidy.has_release.mp hh).1) (fun _ _ => rfl) fun _ hx => Hub.release_subscriptions links ▸ hx
  · exact h.tidy.has_release.mpr ⟨hh, fun hmem => hl (hlinks _ hmem _ hh)⟩
  · exact (congrArg (fun feeds => List.lookup _ feeds) (Hub.release_feeds links)).trans hl

theorem kept_closeRelays (h : w.Wired plan) {relays : List Nat} (hgone : ∀ r ∈ relays, gone r)
    (hlost : ∀ r ∈ relays, lost (.forward (.relay r))) : Kept gone lost w (w.closeRelays relays) := by
  have hclosed : ∀ c : Channel, (∀ r, c = .relay r → ¬ gone r) → ∀ r ∈ relays, c ≠ .relay r :=
    fun c hc r hr hcr => hc r hcr (hgone r hr)
  refine .of_scene rfl (Nat.le_refl _) (fun c ho hc => h.tidy.isOpen_closeRelays.mpr ⟨hclosed c hc, ho⟩)
    (fun _ _ ho => (h.tidy.isOpen_closeRelays.mp ho).2) (fun c n handler hh hl hc => ?_) (fun k l hl hk => ?_)
    (fun _ _ _ hh _ => (h.tidy.has_closeRelays.mp hh).2) (fun _ _ => rfl)
    fun _ hx => Hub.closeRelays_subscriptions relays ▸ hx
  · refine h.tidy.has_closeRelays.mpr ⟨fun r hr => ⟨hclosed c hc r hr, fun hfed => ?_⟩, hh⟩
    have hforward := h.tidy.has_unique ((h.fed r _ hfed).2.2 hh.isOpen) hh
    exact hl (hforward ▸ hlost r hr)
  · have hlook := w.hub.lookup_closeRelays relays k
    rw [if_neg fun hmem => hk (hgone k hmem), hl] at hlook
    exact hlook

theorem kept_install {α : Type} (h : w.Wired plan) {m : Numbering α} (hnext : w.nextRelay ≤ (m w.nextRelay).2) :
    Kept gone lost w (w.install m).1 := by
  have hnew : ∀ r < w.nextRelay, r ∉ (w.install m).2.2 := fun r hr hmem =>
    absurd ((w.mem_install m).mp hmem).1 (Nat.not_le.mpr hr)
  refine .of_scene rfl hnext (fun _ ho _ => Hub.isOpen_openRelays.mpr (Or.inr ho)) (fun r hr ho => ?_)
    (fun c n handler hh _ _ => Hub.has_openRelays.mpr ⟨fun r hr hc => ?_, hh⟩) (fun _ _ hl _ => ?_)
    (fun _ _ _ hh _ => (Hub.has_openRelays.mp hh).2) (fun _ _ => rfl)
    fun _ hx => Hub.openRelays_subscriptions (w.install m).2.2 ▸ hx
  · rcases Hub.isOpen_openRelays.mp ho with ⟨k, hk, hrk⟩ | ho
    · obtain rfl := Channel.relay.inj hrk
      exact absurd hk (hnew r hr)
    · exact ho
  · subst hc
    exact hnew r (h.opened r hh.isOpen) hr
  · exact (congrArg (fun feeds => List.lookup _ feeds) (Hub.openRelays_feeds (w.install m).2.2)).trans hl

/-- Only signals differ, and of those only what is lost. -/
theorem kept_signals {signals : List Signal}
    (hwakes : ∀ k, ¬ lost (.wake k) → signals.count (.wake k) = w.wakesOf k) : Kept gone lost w { w with signals } :=
  .of_scene rfl (Nat.le_refl _) (fun _ ho _ => ho) (fun _ _ ho => ho) (fun _ _ _ hh _ _ => hh) (fun _ _ hl _ => hl)
    (fun _ _ _ hh _ => hh) hwakes (List.Subset.refl _)

theorem Kept.mono {w' : World} {more : Handler Channel → Prop} (h : Kept gone lost w w') (hsub : ∀ x, lost x → more x) :
    Kept gone more w w' where
  shape := h.shape
  relays := h.relays
  opened := h.opened
  back := h.back
  has := fun c n handler hh hl => h.has c n handler hh fun hx => hl (hsub _ hx)
  told := fun c p links hw ht hl => h.told c p links hw ht fun hx => hl (hsub _ hx)
  heard := fun c n k hh hl => h.heard c n k hh fun hx => hl (hsub _ hx)
  woken := fun k hk hl => h.woken k hk fun hx => hl (hsub _ hx)
  held := h.held

/-- Acts within conforming taps take nothing from anyone. -/
theorem Acts.wired_kept {w' : World} {figure : Nat} {taps : List (Nat × Source)} (acts : Acts figure taps w w')
    (h : w.Wired plan) (hc : w.Conforms plan figure taps) : w'.Wired plan ∧ Kept (fun _ => False) (fun _ => False) w w' := by
  induction acts with
  | refl => exact ⟨h, .of_eq rfl rfl rfl rfl⟩
  | tail _ act ih =>
    obtain ⟨h', kept⟩ := ih
    have hc' := kept.conforms hc fun _ _ => id
    cases act with
    | log _ r => exact ⟨h'.of_eq rfl (.refl _) rfl, kept.trans (.of_eq rfl rfl rfl rfl)⟩
    | evaluate _ hm => exact ⟨h'.evaluate hc' hm, kept.trans (kept_evaluate h' hc' hm)⟩
    | change _ c => exact ⟨h'.change c, kept.trans (kept_change h' c)⟩

end
end World
end BlockScript
