import BlockScript.Proofs.Event.Handlers
import BlockScript.Proofs.Script.Acting

/-!
How relays are wired. A plan says which channel each relay stands for. In a wired world a relay that is
fed is fed from the channel of the plan, and the handler that feeds it is in place, so a change on the
channel reaches whoever listens to the relay.
-/
namespace BlockScript

/-- Which channel each relay stands for. -/
abbrev Plan := Nat → Option Channel

namespace Hub

variable {hub : Hub Channel}

/-! ### Several relays -/

/-- Opens relays in order. -/
def openRelays (hub : Hub Channel) (relays : List Nat) : Hub Channel :=
  relays.foldl (fun hub r => hub.openEvent (.relay r)) hub

/-- Closes relays in order. -/
def closeRelays (hub : Hub Channel) (relays : List Nat) : Hub Channel :=
  relays.foldl (fun hub r => hub.closeRelay (.relay r)) hub

theorem openRelays_eq (relays : List Nat) : hub.openRelays relays = hub.openAll (relays.map .relay) := List.foldl_map.symm

theorem Tidy.openRelays (tidy : hub.Tidy) (relays : List Nat) : (hub.openRelays relays).Tidy :=
  openRelays_eq relays ▸ tidy.openAll _

theorem openRelays_feeds (relays : List Nat) : (hub.openRelays relays).feeds = hub.feeds :=
  openRelays_eq relays ▸ openAll_feeds _

theorem openRelays_subscriptions (relays : List Nat) : (hub.openRelays relays).subscriptions = hub.subscriptions :=
  openRelays_eq relays ▸ openAll_subscriptions _

theorem isOpen_openRelays {relays : List Nat} {c : Channel} :
    (hub.openRelays relays).IsOpen c ↔ (∃ r ∈ relays, c = .relay r) ∨ hub.IsOpen c := by
  rw [openRelays_eq, isOpen_openAll, List.mem_map]
  simp only [eq_comm]

theorem has_openRelays {relays : List Nat} {c : Channel} {n : Nat} {h : Handler Channel} :
    (hub.openRelays relays).Has c n h ↔ (∀ r ∈ relays, c ≠ .relay r) ∧ hub.Has c n h := by
  rw [openRelays_eq, has_openAll, List.mem_map]
  simp only [not_exists, not_and, ne_comm]

theorem lookup_closeRelays (relays : List Nat) (k : Nat) :
    (hub.closeRelays relays).feeds.lookup (.relay k) = if k ∈ relays then none else hub.feeds.lookup (.relay k) := by
  induction relays generalizing hub with
  | nil => simp [closeRelays]
  | cons r relays ih =>
    rw [closeRelays, List.foldl_cons, ← closeRelays, ih, lookup_closeRelay]
    by_cases hk : k = r
    · simp [hk]
    · simp [hk]

theorem closeRelays_subscriptions (relays : List Nat) : (hub.closeRelays relays).subscriptions = hub.subscriptions := by
  induction relays generalizing hub with
  | nil => rfl
  | cons r relays ih => exact ih.trans (closeRelay_subscriptions _)

theorem Tidy.isOpen_closeRelays (tidy : hub.Tidy) {relays : List Nat} {c : Channel} :
    (hub.closeRelays relays).IsOpen c ↔ (∀ r ∈ relays, c ≠ .relay r) ∧ hub.IsOpen c := by
  induction relays generalizing hub with
  | nil => simp [Hub.closeRelays]
  | cons r relays ih =>
    rw [Hub.closeRelays, List.foldl_cons, ← Hub.closeRelays, ih (tidy.closeRelay _), tidy.isOpen_closeRelay,
      List.forall_mem_cons]
    tauto

/-- With relays go their events and the handlers that feed them, and nothing else. -/
theorem Tidy.has_closeRelays (tidy : hub.Tidy) {relays : List Nat} {c : Channel} {n : Nat} {h : Handler Channel} :
    (hub.closeRelays relays).Has c n h ↔
      (∀ r ∈ relays, c ≠ .relay r ∧ hub.feeds.lookup (.relay r) ≠ some ⟨c, n⟩) ∧ hub.Has c n h := by
  induction relays generalizing hub with
  | nil => simp [Hub.closeRelays]
  | cons r relays ih =>
    rw [Hub.closeRelays, List.foldl_cons, ← Hub.closeRelays, ih (tidy.closeRelay _), tidy.has_closeRelay,
      List.forall_mem_cons]
    have hlookup : ∀ k, hub.feeds.lookup (.relay r) ≠ some ⟨c, n⟩ →
        ((hub.closeRelay (.relay r)).feeds.lookup (.relay k) ≠ some ⟨c, n⟩ ↔
          hub.feeds.lookup (.relay k) ≠ some ⟨c, n⟩) := by
      intro k hr
      rw [lookup_closeRelay]
      by_cases hk : k = r
      · simp [hk, hr]
      · simp [hk]
    constructor
    · rintro ⟨hrest, hc, has, hr⟩
      exact ⟨⟨⟨hc, hr⟩, fun k hk => ⟨(hrest k hk).1, (hlookup k hr).mp (hrest k hk).2⟩⟩, has⟩
    · rintro ⟨⟨⟨hc, hr⟩, hrest⟩, has⟩
      exact ⟨fun k hk => ⟨(hrest k hk).1, (hlookup k hr).mpr (hrest k hk).2⟩, hc, has, hr⟩

/-! ### Several connections -/

theorem Tidy.isOpen_connectAll (tidy : hub.Tidy) {reads : List (Nat × Channel)} {c : Channel} :
    (hub.connectAll reads).IsOpen c ↔ hub.IsOpen c := by
  induction reads generalizing hub with
  | nil => rfl
  | cons x reads ih => exact (ih (tidy.connect _ _)).trans tidy.isOpen_connect

theorem Tidy.has_connectAll (tidy : hub.Tidy) {reads : List (Nat × Channel)} {c : Channel} {n : Nat}
    {h : Handler Channel} (has : hub.Has c n h) : (hub.connectAll reads).Has c n h := by
  induction reads generalizing hub with
  | nil => exact has
  | cons x reads ih => exact ih (tidy.connect _ _) (tidy.has_connect.mpr (Or.inl has))

/-- Connecting adds forwarding handlers only. -/
theorem Tidy.wake_of_connectAll (tidy : hub.Tidy) {reads : List (Nat × Channel)} {c : Channel} {n k : Nat}
    (has : (hub.connectAll reads).Has c n (.wake k)) : hub.Has c n (.wake k) := by
  induction reads generalizing hub with
  | nil => exact has
  | cons x reads ih =>
    rcases tidy.has_connect.mp (ih (tidy.connect _ _) has) with has | ⟨-, -, hforward, -⟩
    · exact has
    · cases hforward

theorem connectAll_subscriptions (reads : List (Nat × Channel)) :
    (hub.connectAll reads).subscriptions = hub.subscriptions := by
  induction reads generalizing hub with
  | nil => rfl
  | cons x reads ih => exact ih.trans (connect_subscriptions _ _)

theorem lookup_connectAll {reads : List (Nat × Channel)} {r : Channel} {l : Link Channel}
    (h : hub.feeds.lookup r = some l) : (hub.connectAll reads).feeds.lookup r = some l := by
  induction reads generalizing hub with
  | nil => exact h
  | cons x reads ih =>
    refine ih ?_
    rw [lookup_connect]
    split
    · rename_i hr
      rw [← hr, h]
      rfl
    · exact h

theorem fed_connectAll {reads : List (Nat × Channel)} {x : Nat × Channel} (hx : x ∈ reads) :
    ∃ l, (hub.connectAll reads).feeds.lookup (.relay x.1) = some l := by
  induction reads generalizing hub with
  | nil => cases hx
  | cons y reads ih =>
    rcases List.mem_cons.mp hx with rfl | hx
    · have hfed := hub.lookup_connect (.relay x.1) x.2 (.relay x.1)
      rw [if_pos rfl] at hfed
      show ∃ l, ((hub.connect (.relay x.1) x.2).connectAll reads).feeds.lookup (.relay x.1) = some l
      exact ⟨_, lookup_connectAll hfed⟩
    · exact ih hx

end Hub

namespace World

/-- The hub of a world. -/
abbrev hub (w : World) : Hub Channel := w.traces.hub

theorem install_hub {α : Type} (w : World) (m : Numbering α) :
    (w.install m).1.hub = w.hub.openRelays (w.install m).2.2 := rfl

theorem mem_install {α : Type} (w : World) (m : Numbering α) {r : Nat} :
    r ∈ (w.install m).2.2 ↔ w.nextRelay ≤ r ∧ r < (m w.nextRelay).2 := by
  show r ∈ (List.range ((m w.nextRelay).2 - w.nextRelay)).map (w.nextRelay + ·) ↔ _
  simp only [List.mem_map, List.mem_range]
  constructor
  · rintro ⟨k, hk, rfl⟩
    omega
  · intro hr
    exact ⟨r - w.nextRelay, by omega, by omega⟩

/-- A hub in order under a plan that says what each relay taps: all channels of the scene are open, open relays have been
numbered, and a relay that is fed is fed by what the plan says. -/
structure Wired (plan : Plan) (w : World) : Prop where
  tidy : w.hub.Tidy
  channels : ∀ c ∈ w.scene.channels, w.hub.IsOpen c
  sources : ∀ r r', plan r ≠ some (.relay r')
  opened : ∀ r, w.hub.IsOpen (.relay r) → r < w.nextRelay
  fed : ∀ r l, w.hub.feeds.lookup (.relay r) = some l → r < w.nextRelay ∧ plan r = some l.event ∧
    (w.hub.IsOpen l.event → w.hub.Has l.event l.handler (.forward (.relay r)))

namespace Wired

variable {plan : Plan} {w : World}

theorem of_eq {w' : World} (h : w.Wired plan) (hub : w'.hub = w.hub) (scene : w.scene.SameShape w'.scene)
    (next : w'.nextRelay = w.nextRelay) : w'.Wired plan where
  tidy := hub ▸ h.tidy
  channels := by
    rw [scene.channels, hub]
    exact h.channels
  sources := h.sources
  opened := by
    rw [hub, next]
    exact h.opened
  fed := by
    rw [hub, next]
    exact h.fed

/-- Another hub with the same feeds, in which the same events are open and the feeding handlers are in
place. -/
theorem withHub (h : w.Wired plan) {hub : Hub Channel} (tidy : hub.Tidy) (hopen : ∀ c, hub.IsOpen c ↔ w.hub.IsOpen c)
    (feeds : hub.feeds = w.hub.feeds)
    (has : ∀ key n target, w.hub.Has key n (.forward target) → hub.Has key n (.forward target)) :
    (w.withHub hub).Wired plan where
  tidy := tidy
  channels := fun c hc => (hopen c).mpr (h.channels c hc)
  sources := h.sources
  opened := fun r hr => h.opened r ((hopen _).mp hr)
  fed := fun r l hl => by
    obtain ⟨hr, hplan, hhas⟩ := h.fed r l (feeds ▸ hl)
    exact ⟨hr, hplan, fun ho => has _ _ _ (hhas ((hopen _).mp ho))⟩

theorem connect (h : w.Wired plan) {r : Nat} {c : Channel} (hplan : plan r = some c) (hr : r < w.nextRelay) :
    (w.withHub (w.hub.connect (.relay r) c)).Wired plan where
  tidy := h.tidy.connect _ _
  channels := fun k hk => h.tidy.isOpen_connect.mpr (h.channels k hk)
  sources := h.sources
  opened := fun k hk => h.opened k (h.tidy.isOpen_connect.mp hk)
  fed := fun k l hl => by
    have hl : (w.hub.connect (.relay r) c).feeds.lookup (.relay k) = some l := hl
    rw [Hub.lookup_connect] at hl
    -- Either the relay was fed before, or it is the one that gets fed now.
    by_cases hold : w.hub.feeds.lookup (.relay k) = some l
    · obtain ⟨hk, hp, hhas⟩ := h.fed k l hold
      exact ⟨hk, hp, fun ho => h.tidy.has_connect.mpr (Or.inl (hhas (h.tidy.isOpen_connect.mp ho)))⟩
    · split at hl
      · rename_i hk
        obtain rfl := Channel.relay.inj hk
        cases hlook : w.hub.feeds.lookup (.relay k) with
        | some l' =>
          rw [hlook] at hl hold
          exact absurd hl hold
        | none =>
          rw [hlook] at hl
          obtain rfl := Option.some.inj hl
          refine ⟨hr, hplan, fun ho => h.tidy.has_connect.mpr (Or.inr ⟨hlook, ?_, rfl, rfl⟩)⟩
          exact h.tidy.isOpen_connect.mp ho
      · exact absurd hl hold

theorem connectAll (h : w.Wired plan) {reads : List (Nat × Channel)}
    (hreads : ∀ x ∈ reads, plan x.1 = some x.2 ∧ x.1 < w.nextRelay) :
    (w.withHub (w.hub.connectAll reads)).Wired plan := by
  induction reads generalizing w with
  | nil => exact h
  | cons x reads ih =>
    obtain ⟨hplan, hr⟩ := hreads x List.mem_cons_self
    exact ih (h.connect hplan hr) fun y hy => hreads y (List.mem_cons_of_mem _ hy)

theorem subscribeAll (h : w.Wired plan) (keys : List Channel) {handler : Handler Channel} (plain : handler.IsPlain) :
    (w.withHub (w.hub.subscribeAll keys handler).1).Wired plan :=
  h.withHub (h.tidy.subscribeAll keys plain) (fun _ => h.tidy.isOpen_subscribeAll plain) (Hub.subscribeAll_feeds _ _)
    fun _ _ _ has => (h.tidy.has_subscribeAll plain).mpr (Or.inl has)

theorem release (h : w.Wired plan) {links : Subscription Channel}
    (hlinks : ∀ l ∈ links, ∀ target, ¬ w.hub.Has l.event l.handler (.forward target)) :
    (w.withHub (w.hub.release links)).Wired plan :=
  h.withHub (h.tidy.release links) (fun _ => h.tidy.isOpen_release) (Hub.release_feeds _)
    fun _ _ _ has => h.tidy.has_release.mpr ⟨has, fun hl => hlinks _ hl _ has⟩

theorem closeRelay (h : w.Wired plan) (r : Nat) : (w.withHub (w.hub.closeRelay (.relay r))).Wired plan where
  tidy := h.tidy.closeRelay _
  channels := fun c hc => by
    refine h.tidy.isOpen_closeRelay.mpr ⟨?_, h.channels c hc⟩
    rintro rfl
    exact w.scene.relay_not_mem_channels r hc
  sources := h.sources
  opened := fun k hk => h.opened k (h.tidy.isOpen_closeRelay.mp hk).2
  fed := fun k l hl => by
    have hl : (w.hub.closeRelay (.relay r)).feeds.lookup (.relay k) = some l := hl
    rw [Hub.lookup_closeRelay] at hl
    split at hl
    · cases hl
    · rename_i hne
      obtain ⟨hk, hplan, hhas⟩ := h.fed k l hl
      refine ⟨hk, hplan, fun ho => ?_⟩
      obtain ⟨hevent, ho⟩ := h.tidy.isOpen_closeRelay.mp ho
      refine h.tidy.has_closeRelay.mpr ⟨hevent, hhas ho, fun hr => ?_⟩
      -- The handler that feeds one relay does not feed another.
      have hforward := h.tidy.has_unique ((h.fed r _ hr).2.2 ho) (hhas ho)
      exact hne (Handler.forward.inj hforward).symm

theorem closeRelays (h : w.Wired plan) (relays : List Nat) : (w.closeRelays relays).Wired plan := by
  unfold World.closeRelays
  induction relays generalizing w with
  | nil => exact h
  | cons r relays ih => exact ih (h.closeRelay r)

/-- A plan may change where no relay has a number yet. -/
theorem recast (h : w.Wired plan) {plan' : Plan} (hplan : ∀ r < w.nextRelay, plan' r = plan r)
    (hsources : ∀ r r', plan' r ≠ some (.relay r')) : w.Wired plan' where
  tidy := h.tidy
  channels := h.channels
  sources := hsources
  opened := h.opened
  fed := fun r l hl => by
    obtain ⟨hr, hp, hhas⟩ := h.fed r l hl
    exact ⟨hr, (hplan r hr).trans hp, hhas⟩

theorem install {α : Type} (h : w.Wired plan) {m : Numbering α} (hnext : w.nextRelay ≤ (m w.nextRelay).2) :
    (w.install m).1.Wired plan := by
  have hhub := w.install_hub m
  refine ⟨?_, ?_, h.sources, ?_, ?_⟩
  · rw [hhub]
    exact h.tidy.openRelays _
  · intro c hc
    rw [hhub]
    exact Hub.isOpen_openRelays.mpr (Or.inr (h.channels c hc))
  · intro r hr
    rw [hhub] at hr
    rcases Hub.isOpen_openRelays.mp hr with ⟨k, hk, hrk⟩ | hr
    · obtain rfl := Channel.relay.inj hrk
      exact ((w.mem_install m).mp hk).2
    · exact Nat.lt_of_lt_of_le (h.opened r hr) hnext
  · intro r l hl
    rw [hhub, Hub.openRelays_feeds] at hl
    obtain ⟨hr, hp, hhas⟩ := h.fed r l hl
    refine ⟨Nat.lt_of_lt_of_le hr hnext, hp, fun ho => ?_⟩
    rw [hhub] at ho ⊢
    have hevent : ∀ k ∈ (w.install m).2.2, l.event ≠ .relay k := fun k _ he => h.sources r k (he ▸ hp)
    refine Hub.has_openRelays.mpr ⟨hevent, hhas ?_⟩
    rcases Hub.isOpen_openRelays.mp ho with ⟨k, hk, he⟩ | ho
    · exact absurd he (hevent k hk)
    · exact ho

/-- At first every channel of the scene is open, and no relay is. -/
theorem ofScene (scene : Scene) : (World.ofScene scene).Wired fun _ => none := by
  have tidy : (Hub.empty : Hub Channel).Tidy := ⟨nofun, nofun, nofun, nofun⟩
  have closed : ∀ c : Channel, ¬ Hub.empty.IsOpen c := nofun
  refine ⟨tidy.openAll scene.channels, fun c hc => Hub.isOpen_openAll.mpr (Or.inl hc), nofun, fun r hr => ?_, fun r l hl => ?_⟩
  · rcases Hub.isOpen_openAll.mp hr with hr | hr
    · exact absurd hr (scene.relay_not_mem_channels r)
    · exact absurd hr (closed _)
  · have hfeeds : (World.ofScene scene).hub.feeds = [] := Hub.openAll_feeds scene.channels
    rw [hfeeds] at hl
    cases hl

end Wired
end World
end BlockScript
