import BlockScript.Proofs.Event.Forwarding
import BlockScript.Proofs.Script.Waiting

/-!
What handlers are there for. A handler that forwards is the one that feeds its relay, notes are on relays, and a
handler that wakes is there for a script that has not ended. Pieces of scripts add handlers for these purposes only,
and whatever else happens takes handlers away, never the one without the other: a relay whose handler stays is still
fed by it.
-/
namespace BlockScript

/-! ### Hubs -/

namespace Hub

/-- Every handler feeds a relay, is a note on a relay, or wakes a script that is present. -/
structure Justified (noted : Prop) (present : Nat → Prop) (hub : Hub Channel) : Prop where
  tidy : hub.Tidy
  forwards : ∀ key n target, hub.Has key n (.forward target) →
    ∃ r, target = .relay r ∧ hub.feeds.lookup (.relay r) = some ⟨key, n⟩
  notes : ∀ key n label, hub.Has key n (.note label) → noted ∧ ∃ r, key = .relay r
  wakes : ∀ key n k, hub.Has key n (.wake k) → present k

/-- Handlers and feeds go, but a relay whose handler stays is still fed by it. -/
structure Dwindles (hub hub' : Hub Channel) : Prop where
  has : ∀ key n h, hub'.Has key n h → hub.Has key n h
  fed : ∀ r l, hub'.feeds.lookup (.relay r) = some l → hub.feeds.lookup (.relay r) = some l
  kept : ∀ r l, hub.feeds.lookup (.relay r) = some l → hub'.Has l.event l.handler (.forward (.relay r)) →
    hub'.feeds.lookup (.relay r) = some l

namespace Dwindles

variable {hub hub' hub'' : Hub Channel}

theorem of_feeds (has : ∀ key n h, hub'.Has key n h → hub.Has key n h) (feeds : hub'.feeds = hub.feeds) :
    hub.Dwindles hub' :=
  ⟨has, fun _ _ hl => feeds ▸ hl, fun _ _ hl _ => feeds ▸ hl⟩

theorem refl (hub : Hub Channel) : hub.Dwindles hub := of_feeds (fun _ _ _ => id) rfl

theorem trans (h : hub.Dwindles hub') (h' : hub'.Dwindles hub'') : hub.Dwindles hub'' where
  has key n x hx := h.has key n x (h'.has key n x hx)
  fed r l hl := h.fed r l (h'.fed r l hl)
  kept r l hl hx := h'.kept r l (h.kept r l hl (h'.has _ _ _ hx)) hx

theorem release (tidy : hub.Tidy) (links : Subscription Channel) : hub.Dwindles (hub.release links) :=
  of_feeds (fun _ _ _ hx => (tidy.has_release.mp hx).1) (Hub.release_feeds links)

theorem closeRelays (tidy : hub.Tidy) (relays : List Nat) : hub.Dwindles (hub.closeRelays relays) where
  has _ _ _ hx := (tidy.has_closeRelays.mp hx).2
  fed r l hl := by
    rw [lookup_closeRelays] at hl
    split at hl
    · cases hl
    · exact hl
  kept r l hl hx := by
    rw [lookup_closeRelays, if_neg fun hr => ((tidy.has_closeRelays.mp hx).1 r hr).2 hl]
    exact hl

theorem dropNamed (tidy : hub.Tidy) (label : String) : hub.Dwindles (hub.dropNamed label) :=
  of_feeds (fun _ _ _ hx => (tidy.has_dropNamed.mp hx).1) (Hub.dropNamed_feeds label)

end Dwindles

namespace Justified

variable {noted : Prop} {present : Nat → Prop} {hub hub' : Hub Channel}

theorem dwindles (h : hub.Justified noted present) (tidy : hub'.Tidy) (d : hub.Dwindles hub') : hub'.Justified noted present where
  tidy := tidy
  forwards key n target hx := by
    obtain ⟨r, rfl, hl⟩ := h.forwards key n target (d.has _ _ _ hx)
    exact ⟨r, rfl, d.kept r _ hl hx⟩
  notes key n label hx := h.notes key n label (d.has _ _ _ hx)
  wakes key n k hx := h.wakes key n k (d.has _ _ _ hx)

/-- Which scripts are present matters for those with handlers only. -/
theorem recast (h : hub.Justified noted present) {present' : Nat → Prop}
    (hpresent : ∀ key n k, hub.Has key n (.wake k) → present k → present' k) : hub.Justified noted present' :=
  ⟨h.tidy, h.forwards, h.notes, fun key n k hx => hpresent key n k hx (h.wakes key n k hx)⟩

theorem connect (h : hub.Justified noted present) (r : Nat) (c : Channel) :
    (hub.connect (.relay r) c).Justified noted present where
  tidy := h.tidy.connect _ _
  forwards key n target hx := by
    -- A relay that was fed keeps its handler; one that was not is fed by the handler that is new.
    rcases h.tidy.has_connect.mp hx with hx | ⟨hnone, -, hforward, hlink⟩
    · obtain ⟨k, rfl, hl⟩ := h.forwards key n target hx
      exact ⟨k, rfl, (lookup_connectAll hl : (hub.connectAll [(r, c)]).feeds.lookup (.relay k) = _)⟩
    · obtain rfl := Handler.forward.inj hforward
      refine ⟨r, rfl, ?_⟩
      rw [lookup_connect, if_pos rfl, hnone, hlink]
      rfl
  notes key n label hx := by
    rcases h.tidy.has_connect.mp hx with hx | ⟨-, -, hforward, -⟩
    · exact h.notes key n label hx
    · cases hforward
  wakes key n k hx := by
    rcases h.tidy.has_connect.mp hx with hx | ⟨-, -, hforward, -⟩
    · exact h.wakes key n k hx
    · cases hforward

theorem connectAll (h : hub.Justified noted present) (reads : List (Nat × Channel)) :
    (hub.connectAll reads).Justified noted present := by
  induction reads generalizing hub with
  | nil => exact h
  | cons x reads ih => exact ih (h.connect x.1 x.2)

theorem subscribeAll (h : hub.Justified noted present) (keys : List Channel) (handler : Handler Channel) (plain : handler.IsPlain)
    (forwards : ∀ target, handler ≠ .forward target)
    (notes : ∀ label, handler = .note label → noted ∧ ∀ key ∈ keys, ∃ r, key = .relay r)
    (wakes : ∀ k, handler = .wake k → present k) : (hub.subscribeAll keys handler).1.Justified noted present := by
  refine ⟨h.tidy.subscribeAll keys plain, fun key n target hx => ?_, fun key n label hx => ?_, fun key n k hx => ?_⟩
  · rw [Hub.subscribeAll_feeds]
    rcases (h.tidy.has_subscribeAll plain).mp hx with hx | ⟨-, hx, -⟩
    · exact h.forwards key n target hx
    · exact absurd hx.symm (forwards target)
  · rcases (h.tidy.has_subscribeAll plain).mp hx with hx | ⟨-, hx, hl⟩
    · exact h.notes key n label hx
    · have hkey : key ∈ keys := by
        rw [← hub.subscribeAll_events keys handler]
        exact List.mem_map_of_mem hl
      exact ⟨(notes label hx.symm).1, (notes label hx.symm).2 key hkey⟩
  · rcases (h.tidy.has_subscribeAll plain).mp hx with hx | ⟨-, hx, -⟩
    · exact h.wakes key n k hx
    · exact wakes k hx.symm

end Justified

theorem Tidy.connectAll {hub : Hub Channel} (tidy : hub.Tidy) (reads : List (Nat × Channel)) : (hub.connectAll reads).Tidy := by
  induction reads generalizing hub with
  | nil => exact tidy
  | cons x reads ih => exact ih (tidy.connect _ _)

/-- Links that come from one subscription to open events are distinct. -/
theorem Tidy.nodup_subscribeAll {κ : Type} [DecidableEq κ] {hub : Hub κ} (tidy : hub.Tidy) {keys : List κ} {h : Handler κ}
    (plain : h.IsPlain) (opened : ∀ key ∈ keys, hub.IsOpen key) : (hub.subscribeAll keys h).2.Nodup := by
  induction keys generalizing hub with
  | nil => exact List.nodup_nil
  | cons key keys ih =>
    have tidy' := tidy.subscribe key plain
    have first : (hub.subscribe key h).1.Has (hub.subscribe key h).2.event (hub.subscribe key h).2.handler h :=
      tidy.has_subscribe.mpr (Or.inr ⟨opened key List.mem_cons_self, rfl, rfl⟩)
    refine List.nodup_cons.mpr ⟨fun hmem => tidy'.fresh_subscribeAll plain hmem first, ih tidy' fun k hk => ?_⟩
    exact tidy.isOpen_subscribe.mpr (opened k (List.mem_cons_of_mem _ hk))

end Hub

/-! ### Pieces -/

namespace World

variable {noted : Prop} {present : Nat → Prop} {w w' : World} {c : Caller}

theorem justified_evaluate {α : Type} {taps : List (Nat × Source)} {m : View → Eval α}
    (h : w.hub.Justified noted present) (figure : Nat) (hm : IsConnecting taps m) :
    (w.evaluate figure m).2.hub.Justified noted present := by
  obtain ⟨reads, hhub, -⟩ := hm (w.view figure) w.traces
  have hhub : (w.evaluate figure m).2.hub = w.hub.connectAll reads := hhub
  rw [hhub]
  exact h.connectAll reads

theorem Acts.justified {figure : Nat} {taps : List (Nat × Source)} (acts : Acts figure taps w w')
    (h : w.hub.Justified noted present) : w'.hub.Justified noted present := by
  induction acts with
  | refl => exact h
  | tail _ act ih =>
    cases act with
    | log _ r => exact ih
    | evaluate _ hm => exact justified_evaluate ih figure hm
    | change _ x =>
      have hhub : (World.change _ x).hub = _ := ih.tidy.raise_hub x.channel
      rw [hhub]
      exact ih

theorem justified_release (h : w.hub.Justified noted present) (links : Subscription Channel) :
    (w.withHub (w.hub.release links)).hub.Justified noted present :=
  h.dwindles (h.tidy.release links) (.release h.tidy links)

theorem justified_waitUntil (h : w.hub.Justified noted present) (hc : present c.script) (next : List Frame) (p : Predicate Nat) :
    (w.waitUntil c next p).1.hub.Justified noted present := by
  have h₁ := justified_evaluate h c.figure p.isConnecting_test
  unfold waitUntil
  dsimp only
  split
  · exact h₁
  · have listening := h₁.subscribeAll (p.relays.map .relay) (.wake c.script) trivial nofun nofun
      fun k hk => Handler.wake.inj hk ▸ hc
    have h₂ := justified_evaluate (w := (w.evaluate c.figure p.test).2.withHub _) listening c.figure p.isConnecting_test
    split
    · exact justified_release h₂ _
    · exact h₂

theorem justified_retest {p : Predicate Nat} (tries : Nat) {w : World} (h : w.hub.Justified noted present) (next : List Frame)
    (links : Subscription Channel) : (w.retest c next p links tries).1.hub.Justified noted present := by
  induction tries generalizing w with
  | zero => exact h
  | succ tries ih =>
    have h₁ := justified_evaluate h c.figure p.isConnecting_test
    unfold retest
    dsimp only
    split
    · exact justified_release h₁ links
    · exact ih h₁

/-- A piece of a script that is present adds no handler without a purpose. -/
theorem Piece.justified {frames : List Frame} {pause : Pause} {progress : Progress} (spec : Piece w c frames pause w' progress)
    (h : w.hub.Justified noted present) (hc : present c.script) : w'.hub.Justified noted present := by
  cases spec with
  | ends => exact h
  | stops option rest next running => exact h
  | waits p rest next running => exact justified_waitUntil h hc _ p
  | wakes p links frames =>
    have h₁ : (w.clearWakes c.script).hub.Justified noted present := h
    simp only [resume]
    split
    · exact justified_release h₁ links
    · exact justified_retest _ h₁ frames links
  | acts unwatched plain acts goes quiet within => exact acts.justified h

/-! ### Links of a watch -/

theorem waitUntil_nodup (tidy : w.hub.Tidy) {next : List Frame} {p q : Predicate Nat} {links : Subscription Channel}
    (opened : ∀ r ∈ p.relays, w.hub.IsOpen (.relay r)) (h : (w.waitUntil c next p).2.pause = .watching q links) :
    links.Nodup := by
  obtain ⟨reads, hhub, -⟩ := p.isConnecting_test (w.view c.figure) w.traces
  have hhub : (w.evaluate c.figure p.test).2.hub = w.hub.connectAll reads := hhub
  have tested : (w.evaluate c.figure p.test).2.hub.Tidy := by
    rw [hhub]
    exact tidy.connectAll reads
  have still : ∀ r ∈ p.relays, (w.evaluate c.figure p.test).2.hub.IsOpen (.relay r) := by
    rw [hhub]
    exact fun r hr => tidy.isOpen_connectAll.mpr (opened r hr)
  unfold waitUntil at h
  dsimp only at h
  split at h
  · cases h
  · split at h
    · cases h
    · cases h
      have plain : (Handler.wake c.script : Handler Channel).IsPlain := trivial
      refine tested.nodup_subscribeAll plain fun key hkey => ?_
      obtain ⟨r, hr, rfl⟩ := List.mem_map.mp hkey
      exact still r hr

theorem retest_watching {next : List Frame} {p q : Predicate Nat} {links links' : Subscription Channel} (tries : Nat) {w : World}
    (h : (w.retest c next p links tries).2.pause = .watching q links') : links' = links := by
  induction tries generalizing w with
  | zero => exact (Pause.watching.inj h).2.symm
  | succ tries ih =>
    unfold retest at h
    dsimp only at h
    split at h
    · cases h
    · exact ih h

/-- The links of a watch are distinct, whether it begins or goes on. -/
theorem Piece.nodup {plan : Plan} {frames : List Frame} {pause : Pause} {progress : Progress}
    (spec : Piece w c frames pause w' progress) (tidy : w.hub.Tidy) (attends : w.Attends plan c frames pause)
    (h : ∀ p links, pause = .watching p links → links.Nodup) :
    ∀ p links, progress.pause = .watching p links → links.Nodup := by
  intro q links' hp
  cases spec with
  | ends => cases hp
  | stops option rest next running => cases hp
  | waits p rest next running =>
    refine waitUntil_nodup tidy (fun r hr => ?_) hp
    rw [← p.map_taps] at hr
    obtain ⟨x, hx, rfl⟩ := List.mem_map.mp hr
    exact (attends.taps x (List.mem_append_left _ (List.mem_append_left _ hx))).2
  | wakes p links frames =>
    simp only [resume] at hp
    split at hp
    · cases hp
    · rw [retest_watching _ hp]
      exact h p links rfl
  | acts unwatched plain acts goes quiet within => exact absurd hp (Pause.not_watching quiet)

end World

/-! ### Handlers of relays -/

/-- Whether a handler is a note, which is told to whoever holds a reporter. -/
def Handler.isNote {κ : Type} : Handler κ → Bool
  | .note _ => true
  | _ => false

namespace Hub

variable {κ : Type} [DecidableEq κ] {hub : Hub κ}

/-- The handlers of an event with their numbers. -/
def entriesOf (hub : Hub κ) (key : κ) : List (Nat × Handler κ) := ((hub.event? key).map (·.handlers)).getD []

theorem mem_entriesOf {key : κ} {n : Nat} {h : Handler κ} : (n, h) ∈ hub.entriesOf key ↔ hub.Has key n h := by
  unfold entriesOf Has
  cases hub.event? key <;> simp

theorem map_entriesOf (key : κ) : (hub.entriesOf key).map (·.2) = hub.handlersOf key := by
  unfold entriesOf handlersOf
  cases hub.event? key <;> rfl

theorem Tidy.isPlain (tidy : hub.Tidy) {key : κ} {n : Nat} {h : Handler κ} (has : hub.Has key n h) : h.IsPlain := by
  obtain ⟨e, he, hmem⟩ := has
  exact tidy.plain _ (mem_of_event? he) _ hmem

theorem Tidy.entriesOf_ordered (tidy : hub.Tidy) (key : κ) : (hub.entriesOf key).Pairwise fun x y => x.1 < y.1 := by
  unfold entriesOf
  cases he : hub.event? key with
  | none => exact List.Pairwise.nil
  | some e => exact List.pairwise_map.mp (tidy.ordered _ (mem_of_event? he))

end Hub

/-- The links that tell a script of changes. -/
def Pause.links : Pause → Subscription Channel
  | .watching _ links => links
  | _ => []

namespace World

variable {w : World}

end World

end BlockScript
