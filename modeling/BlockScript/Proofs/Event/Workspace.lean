import BlockScript.Proofs.Event.Links

/-!
Events, relays and subscriptions under names, over whole runs. What has a name is owned, and an owner's
event stays open whatever handlers do. So the account of links and handlers holds after every run of
steps, and a relay stays with the first source that it was given.
-/
namespace BlockScript

namespace Hub

/-! ### Owners -/

section
variable {κ : Type} [DecidableEq κ] {hub : Hub κ}

/-- The event of a key is open and has an owner. -/
def Owns (hub : Hub κ) (key : κ) : Prop := ∃ e, hub.event? key = some e ∧ e.owned = true

theorem event?_modifyEvent_of_held {key : κ} {f : ChangeEvent κ → ChangeEvent κ} {e : ChangeEvent κ}
    (he : hub.event? key = some e) (held : (f e).isHeld key = true) : (hub.modifyEvent key f).event? key = some (f e) := by
  unfold modifyEvent event? at *
  revert he
  induction hub.events with
  | nil => intro he; cases he
  | cons x l ih =>
    intro he
    obtain ⟨k, e'⟩ := x
    rw [List.lookup_cons] at he
    by_cases hk : key = k
    · subst hk
      simp only [beq_self_eq_true] at he
      cases he
      simp [Option.filter, held]
    · rw [beq_false_of_ne hk] at he
      simp only [List.filterMap_cons, Ne.symm hk, if_false, List.lookup_cons, beq_false_of_ne hk]
      exact ih he

/-- What keeps owners keeps owned events open. -/
theorem Owns.modifyEvent {key other : κ} (h : hub.Owns key) {f : ChangeEvent κ → ChangeEvent κ}
    (hf : key = other → ∀ e, e.owned = true → (f e).owned = true) : (hub.modifyEvent other f).Owns key := by
  obtain ⟨e, he, owned⟩ := h
  by_cases hk : key = other
  · subst hk
    have owned' := hf rfl e owned
    exact ⟨f e, event?_modifyEvent_of_held he (isHeld_of_owned owned'), owned'⟩
  · exact ⟨e, by rw [event?_modifyEvent_of_ne hk]; exact he, owned⟩

theorem Owns.subscribe {key : κ} (h : hub.Owns key) (other : κ) (x : Handler κ) : (hub.subscribe other x).1.Owns key :=
  h.modifyEvent fun _ _ owned => owned

theorem Owns.closeEvent {key other : κ} (h : hub.Owns key) (hne : key ≠ other) : (hub.closeEvent other).Owns key :=
  h.modifyEvent fun hk => absurd hk hne

theorem Owns.unlink {key : κ} (h : hub.Owns key) (l : Link κ) : (hub.unlink l).Owns key :=
  h.modifyEvent fun _ _ owned => owned

theorem Owns.release {key : κ} (h : hub.Owns key) (s : Subscription κ) : (hub.release s).Owns key := by
  unfold Hub.release
  induction s generalizing hub with
  | nil => exact h
  | cons l s ih => exact ih (h.unlink l)

theorem Owns.dropNamed {key : κ} (h : hub.Owns key) (name : String) : (hub.dropNamed name).Owns key := by
  unfold Hub.dropNamed
  split
  · have hforget : (hub.forget name).Owns key := h
    exact hforget.release _
  · exact h

theorem Owns.subscribeAs {key : κ} (h : hub.Owns key) (name : String) (other : κ) (x : Handler κ) :
    (hub.subscribeAs name other x).Owns key := Owns.dropNamed (h.subscribe other x) name

theorem Owns.connect {key : κ} (h : hub.Owns key) (relay source : κ) : (hub.connect relay source).Owns key := by
  unfold Hub.connect
  split
  · exact h
  · exact h.subscribe source _

theorem Owns.closeRelay {key relay : κ} (h : hub.Owns key) (hne : key ≠ relay) : (hub.closeRelay relay).Owns key := by
  have hclosed := h.closeEvent hne
  cases hl : hub.feeds.lookup relay with
  | none => rwa [closeRelay_of_unfed hl]
  | some l =>
    rw [closeRelay_of_fed hl]
    have hunfed : (Hub.mk (hub.closeEvent relay).events hub.subscriptions (hub.feeds.filter (·.1 != relay))).Owns key :=
      hclosed
    exact hunfed.unlink l

theorem Owns.callAll {raise : κ → Hub κ → Hub κ × List Signal} {key : κ}
    (keeps : ∀ other hub, hub.Owns key → (raise other hub).1.Owns key) (handlers : List (Handler κ)) (h : hub.Owns key) :
    (hub.callAll raise handlers).1.Owns key := by
  induction handlers generalizing hub with
  | nil => exact h
  | cons x handlers ih =>
    refine ih ?_
    cases x with
    | note label => exact h
    | wake waiter => exact h
    | forward target => exact keeps target hub h
    | noteDropping label victim => exact h.dropNamed victim
    | noteAdding label added other => exact h.subscribeAs added other _

/-- A raise closes only an event that nobody owned when it began. -/
theorem Owns.raiseWithin {key : κ} (h : hub.Owns key) (depth : Nat) (other : κ) : (raiseWithin depth other hub).1.Owns key := by
  induction depth generalizing other hub with
  | zero => exact h
  | succ depth ih =>
    have keeps : ∀ other hub, Hub.Owns hub key → (Hub.raiseWithin depth other hub).1.Owns key := fun other hub h => ih h other
    unfold Hub.raiseWithin
    split
    · exact h
    · rename_i e he
      dsimp only
      split
      · exact h.callAll keeps _
      · rename_i unowned
        have hne : key ≠ other := by
          rintro rfl
          obtain ⟨e', he', owned⟩ := h
          obtain rfl := Option.some.inj (he.symm.trans he')
          exact unowned owned
        have hown : (hub.ownEvent other).Owns key := h.modifyEvent fun hk => absurd hk hne
        exact (hown.callAll keeps _).closeEvent hne

/-! ### Feeds -/

theorem mem_closeRelay_feeds {relay : κ} {x : κ × Link κ} (hx : x ∈ (hub.closeRelay relay).feeds) :
    x ∈ hub.feeds ∧ x.1 ≠ relay := by
  cases hl : hub.feeds.lookup relay with
  | none =>
    rw [closeRelay_of_unfed hl] at hx
    exact ⟨hx, ne_of_lookup_eq_none hl hx⟩
  | some l =>
    rw [closeRelay_of_fed hl] at hx
    obtain ⟨hx, hne⟩ := List.mem_filter.mp hx
    exact ⟨hx, bne_iff_ne.mp hne⟩

@[simp] theorem dropNamed_feeds (name : String) : (hub.dropNamed name).feeds = hub.feeds := by
  unfold Hub.dropNamed
  split
  · rw [release_feeds]
    rfl
  · rfl

@[simp] theorem subscribeAs_feeds (name : String) (key : κ) (x : Handler κ) : (hub.subscribeAs name key x).feeds = hub.feeds := by
  show ((hub.subscribe key x).1.dropNamed name).feeds = hub.feeds
  rw [dropNamed_feeds]
  rfl

theorem callAll_feeds {raise : κ → Hub κ → Hub κ × List Signal} (keeps : ∀ key hub, (raise key hub).1.feeds = hub.feeds)
    (handlers : List (Handler κ)) : (hub.callAll raise handlers).1.feeds = hub.feeds := by
  induction handlers generalizing hub with
  | nil => rfl
  | cons x handlers ih =>
    refine ih.trans ?_
    cases x with
    | note label => rfl
    | wake waiter => rfl
    | forward target => exact keeps target hub
    | noteDropping label victim => exact dropNamed_feeds victim
    | noteAdding label added other => exact subscribeAs_feeds added other _

theorem raiseWithin_feeds (depth : Nat) (key : κ) : (raiseWithin depth key hub).1.feeds = hub.feeds := by
  induction depth generalizing key hub with
  | zero => rfl
  | succ depth ih =>
    unfold Hub.raiseWithin
    split
    · rfl
    · dsimp only
      split
      · exact callAll_feeds (fun key hub => ih key) _
      · show ((hub.ownEvent key).callAll (raiseWithin depth) _).1.feeds = hub.feeds
        rw [callAll_feeds fun key hub => ih key]
        rfl

end

/-! ### Closing several events -/

theorem Accounts.closeAll {fresh : Nat} {hub : Hub Nat} (h : hub.Accounts fresh []) (keys : List (String × Nat)) :
    (keys.foldl (fun hub e => hub.closeEvent e.2) hub).Accounts fresh [] := by
  induction keys generalizing hub with
  | nil => exact h
  | cons x keys ih => exact ih (h.closeEvent x.2)

theorem Owns.closeAll {hub : Hub Nat} {key : Nat} (h : hub.Owns key) {keys : List (String × Nat)} (hkeys : ∀ x ∈ keys, key ≠ x.2) :
    (keys.foldl (fun hub e => hub.closeEvent e.2) hub).Owns key := by
  induction keys generalizing hub with
  | nil => exact h
  | cons x keys ih =>
    obtain ⟨hx, hkeys⟩ := List.forall_mem_cons.mp hkeys
    exact ih (h.closeEvent hx) hkeys

theorem closeAll_feeds (hub : Hub Nat) (keys : List (String × Nat)) :
    (keys.foldl (fun hub e => hub.closeEvent e.2) hub).feeds = hub.feeds := by
  induction keys generalizing hub with
  | nil => rfl
  | cons x keys ih => exact ih _

theorem Accounts.below_of_owns {fresh : Nat} {hand : Subscription Nat} {hub : Hub Nat} (h : hub.Accounts fresh hand) {key : Nat}
    (howns : hub.Owns key) : key < fresh := by
  obtain ⟨e, he, -⟩ := howns
  exact h.events _ (mem_of_event? he)

end Hub

namespace EventWorkspace

/-! ### Sound workspaces -/

/-- The account is kept, what has a name is owned, no key is both an event's and a relay's, and only
relays are fed. -/
structure Sound (w : EventWorkspace) : Prop where
  accounts : w.hub.Accounts w.fresh []
  events : ∀ x ∈ w.events, w.hub.Owns x.2
  relays : ∀ x ∈ w.relays, w.hub.Owns x.2
  apart : ∀ x ∈ w.events, ∀ y ∈ w.relays, x.2 ≠ y.2
  names : (w.relays.map (·.1)).Nodup
  keys : (w.relays.map (·.2)).Nodup
  feeds : ∀ x ∈ w.hub.feeds, x.1 ∈ w.relays.map (·.2)

namespace Sound

variable {w : EventWorkspace}

theorem empty : EventWorkspace.empty.Sound :=
  ⟨.empty, nofun, nofun, nofun, .nil, .nil, nofun⟩

theorem below (h : w.Sound) {key : Nat} (hkey : key ∈ (w.events ++ w.relays).map (·.2)) : key < w.fresh := by
  obtain ⟨x, hx, rfl⟩ := List.mem_map.mp hkey
  rcases List.mem_append.mp hx with hx | hx
  · exact h.accounts.below_of_owns (h.events x hx)
  · exact h.accounts.below_of_owns (h.relays x hx)

theorem event_below (h : w.Sound) {key : Nat} (hkey : key ∈ w.events.map (·.2)) : key < w.fresh :=
  h.below (List.map_append ▸ List.mem_append_left _ hkey)

theorem relay_below (h : w.Sound) {key : Nat} (hkey : key ∈ w.relays.map (·.2)) : key < w.fresh :=
  h.below (List.map_append ▸ List.mem_append_right _ hkey)

theorem knownTo (h : w.Sound) {key : Nat} (hkey : key ∈ (w.events ++ w.relays).map (·.2)) {x : Handler Nat}
    (own : ∀ other, x.holds other = true → other = key) : Hub.KnownTo w.fresh x :=
  fun other ho => own other ho ▸ h.below hkey

/-- A step on the hub alone. -/
theorem withHub (h : w.Sound) {hub : Hub Nat} (accounts : hub.Accounts w.fresh []) (owns : ∀ key, w.hub.Owns key → hub.Owns key)
    (feeds : ∀ x ∈ hub.feeds, x.1 ∈ w.relays.map (·.2)) : Sound { w with hub } :=
  ⟨accounts, fun x hx => owns _ (h.events x hx), fun x hx => owns _ (h.relays x hx), h.apart, h.names, h.keys, feeds⟩

theorem subscribe (h : w.Sound) (name : String) {key : Nat} (hkey : key < w.fresh) {x : Handler Nat}
    (hx : Hub.KnownTo w.fresh x) : (w.subscribe name key x).Sound := by
  refine h.withHub (h.accounts.subscribeAs name hkey hx) (fun _ ho => ho.subscribeAs name key x) ?_
  rw [Hub.subscribeAs_feeds]
  exact h.feeds

theorem withNames (h : w.Sound) {events : List (String × Nat)} (owns : ∀ x ∈ events, w.hub.Owns x.2)
    (apart : ∀ x ∈ events, ∀ y ∈ w.relays, x.2 ≠ y.2) : (w.withNames events).Sound := by
  refine ⟨h.accounts.closeAll _, ?_, ?_, apart, h.names, h.keys, ?_⟩
  · intro x hx
    refine (owns x hx).closeAll fun y hy he => ?_
    have hlost := (List.mem_filter.mp hy).2
    simp only [Bool.not_eq_true', List.any_eq_false, beq_iff_eq] at hlost
    exact hlost x hx he
  · intro x hx
    refine (h.relays x hx).closeAll fun y hy => ?_
    exact (h.apart y (List.mem_filter.mp hy).1 x hx).symm
  · intro x hx
    have hfeeds : (w.withNames events).hub.feeds = w.hub.feeds := Hub.closeAll_feeds w.hub _
    rw [hfeeds] at hx
    exact h.feeds x hx

theorem openFresh (h : w.Sound) : w.openFresh.1.Sound ∧ w.openFresh.1.hub.Owns w.fresh ∧
    (∀ y ∈ w.openFresh.1.events, w.fresh ≠ y.2) ∧ ∀ y ∈ w.openFresh.1.relays, w.fresh ≠ y.2 := by
  have hnew : ∀ key, w.hub.Owns key → w.fresh ≠ key := fun key ho he =>
    absurd (h.accounts.below_of_owns ho) (he ▸ Nat.lt_irrefl _)
  have owns : ∀ key, w.hub.Owns key → (w.hub.openEvent w.fresh).Owns key := by
    intro key ho
    have hne := hnew key ho
    obtain ⟨e, he, owned⟩ := ho
    exact ⟨e, by rw [Hub.event?_openEvent, if_neg hne.symm]; exact he, owned⟩
  refine ⟨⟨h.accounts.openEvent, ?_, ?_, h.apart, h.names, h.keys, h.feeds⟩, ?_, ?_, ?_⟩
  · exact fun x hx => owns _ (h.events x hx)
  · exact fun x hx => owns _ (h.relays x hx)
  · exact ⟨.fresh, by rw [EventWorkspace.openFresh, Hub.event?_openEvent, if_pos rfl], rfl⟩
  · exact fun y hy => hnew _ (h.events y hy)
  · exact fun y hy => hnew _ (h.relays y hy)

theorem nameEvent (h : w.Sound) (name : String) {key : Nat} (owns : w.hub.Owns key) (apart : ∀ y ∈ w.relays, key ≠ y.2) :
    (w.nameEvent name key).Sound := by
  refine h.withNames ?_ ?_
  · intro x hx
    rcases List.mem_cons.mp hx with rfl | hx
    · exact owns
    · exact h.events x (List.mem_filter.mp hx).1
  · intro x hx
    rcases List.mem_cons.mp hx with rfl | hx
    · exact apart
    · exact h.apart x (List.mem_filter.mp hx).1

theorem dropEvent (h : w.Sound) (name : String) : (w.dropEvent name).Sound :=
  h.withNames (fun x hx => h.events x (List.mem_filter.mp hx).1) fun x hx => h.apart x (List.mem_filter.mp hx).1

theorem relay?_unique (h : w.Sound) {name : String} {key : Nat} (hkey : w.relay? name = some key) {x : String × Nat}
    (hx : x ∈ w.relays) : x.2 = key ↔ x.1 = name := by
  have hmem : (name, key) ∈ w.relays := Hub.mem_of_lookup hkey
  constructor
  · intro he
    exact congrArg (·.1) (List.inj_on_of_nodup_map h.keys hx hmem he)
  · intro he
    exact congrArg (·.2) (List.inj_on_of_nodup_map h.names hx hmem he)

theorem mem_dropRelay (h : w.Sound) {name : String} {key : Nat} (hkey : w.relay? name = some key) {r : Nat} :
    r ∈ (w.dropRelay name).relays.map (·.2) ↔ r ∈ w.relays.map (·.2) ∧ r ≠ key := by
  have hdrop : (w.dropRelay name).relays = w.relays.filter (·.1 != name) := by simp only [EventWorkspace.dropRelay, hkey]
  rw [hdrop]
  constructor
  · intro hr
    obtain ⟨x, hx, rfl⟩ := List.mem_map.mp hr
    obtain ⟨hx, hname⟩ := List.mem_filter.mp hx
    exact ⟨List.mem_map_of_mem hx, fun he => by simp [(h.relay?_unique hkey hx).mp he] at hname⟩
  · rintro ⟨hr, hne⟩
    obtain ⟨x, hx, rfl⟩ := List.mem_map.mp hr
    refine List.mem_map_of_mem (List.mem_filter.mpr ⟨hx, ?_⟩)
    exact bne_iff_ne.mpr fun he => hne ((h.relay?_unique hkey hx).mpr he)

theorem dropRelay_hub {name : String} {key : Nat} (hkey : w.relay? name = some key) :
    (w.dropRelay name).hub = w.hub.closeRelay key := by simp only [EventWorkspace.dropRelay, hkey]

theorem dropRelay (h : w.Sound) (name : String) : (w.dropRelay name).Sound := by
  cases hkey : w.relay? name with
  | none =>
    have hsame : w.dropRelay name = w := by simp only [EventWorkspace.dropRelay, hkey]
    rw [hsame]
    exact h
  | some key =>
    have hmem : (name, key) ∈ w.relays := Hub.mem_of_lookup hkey
    have hdrop : w.dropRelay name = { w with relays := w.relays.filter (·.1 != name), hub := w.hub.closeRelay key } := by
      simp only [EventWorkspace.dropRelay, hkey]
    have hkeys : ∀ r, r ∈ (w.relays.filter (·.1 != name)).map (·.2) ↔ r ∈ w.relays.map (·.2) ∧ r ≠ key := by
      intro r
      have := h.mem_dropRelay hkey (r := r)
      rw [hdrop] at this
      exact this
    rw [hdrop]
    refine ⟨h.accounts.closeRelay key, ?_, ?_, ?_, ?_, ?_, ?_⟩
    · exact fun x hx => (h.events x hx).closeRelay (h.apart x hx _ hmem)
    · intro x hx
      have hne := ((hkeys x.2).mp (List.mem_map_of_mem hx)).2
      exact (h.relays x (List.mem_filter.mp hx).1).closeRelay hne
    · exact fun x hx y hy => h.apart x hx y (List.mem_filter.mp hy).1
    · exact h.names.sublist (List.filter_sublist.map _)
    · exact h.keys.sublist (List.filter_sublist.map _)
    · intro x hx
      obtain ⟨hx, hne⟩ := Hub.mem_closeRelay_feeds hx
      exact (hkeys x.1).mpr ⟨h.feeds x hx, hne⟩

theorem nameRelay (h : w.Sound) (name : String) {key : Nat} (owns : w.hub.Owns key) (events : ∀ x ∈ w.events, key ≠ x.2)
    (relays : ∀ x ∈ w.relays, key ≠ x.2) : (w.nameRelay name key).Sound := by
  have hdrop := h.dropRelay name
  have hsub : ∀ x ∈ (w.dropRelay name).relays, x ∈ w.relays ∧ x.1 ≠ name := by
    intro x hx
    unfold EventWorkspace.dropRelay at hx
    split at hx
    · rename_i hnone
      exact ⟨hx, Hub.ne_of_lookup_eq_none hnone hx⟩
    · obtain ⟨hx, hname⟩ := List.mem_filter.mp hx
      exact ⟨hx, bne_iff_ne.mp hname⟩
  have hevents : (w.dropRelay name).events = w.events := by
    unfold EventWorkspace.dropRelay
    split <;> rfl
  have howns : (w.dropRelay name).hub.Owns key := by
    unfold EventWorkspace.dropRelay
    split
    · exact owns
    · rename_i k hk
      exact owns.closeRelay (relays _ (Hub.mem_of_lookup hk))
  refine ⟨hdrop.accounts, hdrop.events, ?_, ?_, ?_, ?_, ?_⟩
  · intro x hx
    rcases List.mem_cons.mp hx with rfl | hx
    · exact howns
    · exact hdrop.relays x hx
  · intro x hx y hy
    rcases List.mem_cons.mp hy with rfl | hy
    · exact (events x (hevents ▸ hx)).symm
    · exact hdrop.apart x hx y hy
  · refine List.nodup_cons.mpr ⟨fun hmem => ?_, hdrop.names⟩
    obtain ⟨x, hx, he⟩ := List.mem_map.mp hmem
    exact (hsub x hx).2 he
  · refine List.nodup_cons.mpr ⟨fun hmem => ?_, hdrop.keys⟩
    obtain ⟨x, hx, he⟩ := List.mem_map.mp hmem
    exact relays x (hsub x hx).1 he.symm
  · exact fun x hx => List.mem_cons_of_mem _ (hdrop.feeds x hx)

theorem join (h : w.Sound) {name other : String} {first second : Subscription Nat} (hsecond : w.hub.subscription? other = some second)
    (hfirst : (w.hub.forget other).subscription? name = some first) :
    Sound { w with hub := ((w.hub.forget other).forget name).hold name (first ++ second) } := by
  have taken := (h.accounts.forget hsecond).forget hfirst
  rw [List.append_nil] at taken
  have keeps {key : Nat} (ho : w.hub.Owns key) : ((w.hub.forget other).forget name).Owns key := ho
  refine h.withHub ?_ (fun _ ho => (keeps ho).dropNamed name) ?_
  · rw [← List.append_nil (first ++ second)] at taken
    exact taken.hold name
  · have hfeeds : (((w.hub.forget other).forget name).hold name (first ++ second)).feeds = w.hub.feeds := Hub.dropNamed_feeds name
    rw [hfeeds]
    exact h.feeds

theorem connect (h : w.Sound) {relay source : Nat} (hrelay : relay ∈ w.relays.map (·.2)) (hsource : source < w.fresh) :
    Sound { w with hub := w.hub.connect relay source } := by
  refine h.withHub (h.accounts.connect relay hsource) (fun _ ho => ho.connect relay source) fun x hx => ?_
  unfold Hub.connect at hx
  split at hx
  · exact h.feeds x hx
  · rcases List.mem_cons.mp hx with rfl | hx
    · exact hrelay
    · exact h.feeds x hx

theorem raise (h : w.Sound) (key : Nat) : Sound { w with hub := (w.hub.raise key).1 } := by
  refine h.withHub (h.accounts.raise key) (fun _ ho => ho.raiseWithin _ key) ?_
  have hfeeds : (w.hub.raise key).1.feeds = w.hub.feeds := Hub.raiseWithin_feeds _ key
  rw [hfeeds]
  exact h.feeds

end Sound

/-! ### Runs -/

/-- The workspace after a step; one that names what is not there changes nothing. -/
def next (w : EventWorkspace) (step : EventStep) : EventWorkspace := ((w.perform step).map (·.1)).getD w

/-- The workspace after steps in order. -/
def after (w : EventWorkspace) (steps : List EventStep) : EventWorkspace := steps.foldl next w

theorem next_eq {w : EventWorkspace} {step : EventStep} {r : EventWorkspace × Option Bool × List Signal}
    (h : w.perform step = some r) : w.next step = r.1 := by
  simp [next, h]

/-- What a step can make of a workspace. The event that a handler is added to, or that a handler may add to, is one that
the workspace has a name for, and so is each relay that is fed. -/
inductive Becomes (w : EventWorkspace) : EventWorkspace → Prop
  | same : Becomes w w
  | opened (name : String) : Becomes w (w.openFresh.1.nameEvent name w.fresh)
  | named (name : String) {of : String} {key : Nat} (hkey : w.event? of = some key) : Becomes w (w.nameEvent name key)
  | relayed (name : String) : Becomes w (w.openFresh.1.nameRelay name w.fresh)
  | subscribed (name : String) {key : Nat} {x : Handler Nat} (hkey : key ∈ (w.events ++ w.relays).map (·.2))
      (own : ∀ other, x.holds other = true → other = key) : Becomes w (w.subscribe name key x)
  | connected {relay key : Nat} (hrelay : relay ∈ w.relays.map (·.2)) (hkey : key ∈ w.events.map (·.2)) :
      Becomes w { w with hub := w.hub.connect relay key }
  | held (name : String) : Becomes w { w with hub := w.hub.hold name [] }
  | joined (name other : String) {first second : Subscription Nat} (hsecond : w.hub.subscription? other = some second)
      (hfirst : (w.hub.forget other).subscription? name = some first) :
      Becomes w { w with hub := ((w.hub.forget other).forget name).hold name (first ++ second) }
  | dropped (name : String) : Becomes w { w with hub := w.hub.dropNamed name }
  | eventDropped (name : String) : Becomes w (w.dropEvent name)
  | relayDropped (name : String) : Becomes w (w.dropRelay name)
  | raised (key : Nat) : Becomes w { w with hub := (w.hub.raise key).1 }

theorem Becomes.subscribed_event {w : EventWorkspace} (name : String) {event : String} {key : Nat} {x : Handler Nat}
    (hkey : w.event? event = some key) (own : ∀ other, x.holds other = true → other = key) :
    w.Becomes (w.subscribe name key x) := by
  have hmem : (event, key) ∈ w.events ++ w.relays := List.mem_append_left _ (Hub.mem_of_lookup hkey)
  exact .subscribed name (List.mem_map_of_mem hmem) own

theorem becomes_perform {w : EventWorkspace} {step : EventStep} {r : EventWorkspace × Option Bool × List Signal}
    (hr : w.perform step = some r) : w.Becomes r.1 := by
  cases step with
  | event name => cases hr; exact .opened name
  | clone name of =>
    obtain ⟨key, hkey, rfl⟩ := Option.map_eq_some_iff.mp hr
    exact .named name hkey
  | relay name => cases hr; exact .relayed name
  | subscribe name event =>
    obtain ⟨key, hkey, rfl⟩ := Option.map_eq_some_iff.mp hr
    exact .subscribed_event name hkey nofun
  | subscribeDropping name event victim =>
    obtain ⟨key, hkey, rfl⟩ := Option.map_eq_some_iff.mp hr
    exact .subscribed_event name hkey nofun
  | subscribeAdding name event added =>
    obtain ⟨key, hkey, rfl⟩ := Option.map_eq_some_iff.mp hr
    exact .subscribed_event name hkey fun other ho => (of_decide_eq_true ho).symm
  | subscribeRelay name relay =>
    obtain ⟨key, hkey, rfl⟩ := Option.map_eq_some_iff.mp hr
    have hmem : (relay, key) ∈ w.events ++ w.relays := List.mem_append_right _ (Hub.mem_of_lookup hkey)
    exact .subscribed name (List.mem_map_of_mem hmem) nofun
  | forward name target source =>
    obtain ⟨goal, hgoal, hr⟩ := Option.bind_eq_some_iff.mp hr
    obtain ⟨key, hkey, hr⟩ := Option.bind_eq_some_iff.mp hr
    cases hr
    exact .subscribed_event name hkey fun _ ho => (Bool.false_ne_true ho).elim
  | forwardRelay relay source =>
    obtain ⟨target, htarget, hr⟩ := Option.bind_eq_some_iff.mp hr
    obtain ⟨key, hkey, hr⟩ := Option.bind_eq_some_iff.mp hr
    cases hr
    exact .connected (List.mem_map_of_mem (Hub.mem_of_lookup htarget)) (List.mem_map_of_mem (Hub.mem_of_lookup hkey))
  | empty name => cases hr; exact .held name
  | join name other =>
    obtain ⟨second, hsecond, hr⟩ := Option.bind_eq_some_iff.mp hr
    obtain ⟨first, hfirst, hr⟩ := Option.bind_eq_some_iff.mp hr
    cases hr
    exact .joined name other hsecond hfirst
  | isEmpty name => cases hr; exact .same
  | drop name =>
    obtain ⟨s, hs, rfl⟩ := Option.map_eq_some_iff.mp hr
    exact .dropped name
  | dropEvent name => cases hr; exact .eventDropped name
  | dropRelay name => cases hr; exact .relayDropped name
  | raise event =>
    obtain ⟨key, hkey, rfl⟩ := Option.map_eq_some_iff.mp hr
    exact .raised key

theorem becomes_next (w : EventWorkspace) (step : EventStep) : w.Becomes (w.next step) := by
  unfold next
  cases hr : w.perform step with
  | none => exact .same
  | some r => exact becomes_perform hr

theorem Sound.becomes {w w' : EventWorkspace} (h : w.Sound) (becomes : w.Becomes w') : w'.Sound := by
  cases becomes with
  | same => exact h
  | opened name =>
    obtain ⟨sound, owns, -, apart⟩ := h.openFresh
    exact sound.nameEvent name owns apart
  | named name hkey =>
    have hmem := Hub.mem_of_lookup hkey
    exact h.nameEvent name (h.events _ hmem) (h.apart _ hmem)
  | relayed name =>
    obtain ⟨sound, owns, events, relays⟩ := h.openFresh
    exact sound.nameRelay name owns events relays
  | subscribed name hkey own => exact h.subscribe name (h.below hkey) (h.knownTo hkey own)
  | connected hrelay hkey => exact h.connect hrelay (h.event_below hkey)
  | held name =>
    refine h.withHub (Hub.Accounts.hold (s := []) h.accounts name) (fun _ ho => ho.dropNamed name) ?_
    have hfeeds : (w.hub.hold name []).feeds = w.hub.feeds := Hub.dropNamed_feeds name
    rw [hfeeds]
    exact h.feeds
  | joined name other hsecond hfirst => exact h.join hsecond hfirst
  | dropped name =>
    refine h.withHub (h.accounts.dropNamed name) (fun _ ho => ho.dropNamed name) ?_
    rw [Hub.dropNamed_feeds]
    exact h.feeds
  | eventDropped name => exact h.dropEvent name
  | relayDropped name => exact h.dropRelay name
  | raised key => exact h.raise key

theorem Sound.next {w : EventWorkspace} (h : w.Sound) (step : EventStep) : (w.next step).Sound :=
  h.becomes (w.becomes_next step)

theorem sound_after (steps : List EventStep) : (empty.after steps).Sound := by
  suffices kept : ∀ w : EventWorkspace, w.Sound → (w.after steps).Sound from kept _ .empty
  induction steps with
  | nil => exact fun w h => h
  | cons step steps ih => exact fun w h => ih _ (h.next step)

/-! ### The source of a relay -/

/-- A relay number that has been given out: as long as the relay is there, the link feeds it. -/
structure Fed (relay : Nat) (l : Link Nat) (w : EventWorkspace) : Prop where
  taken : relay < w.fresh
  fed : relay ∈ w.relays.map (·.2) → w.hub.feeds.lookup relay = some l

namespace Fed

variable {w : EventWorkspace} {relay : Nat} {l : Link Nat}

theorem of_same (h : w.Fed relay l) {w' : EventWorkspace} (fresh : w.fresh ≤ w'.fresh) (relays : w'.relays = w.relays)
    (feeds : w'.hub.feeds = w.hub.feeds) : w'.Fed relay l := by
  refine ⟨Nat.lt_of_lt_of_le h.taken fresh, ?_⟩
  rw [relays, feeds]
  exact h.fed

theorem dropRelay (h : w.Fed relay l) (sound : w.Sound) (name : String) : (w.dropRelay name).Fed relay l := by
  cases hkey : w.relay? name with
  | none =>
    have hsame : w.dropRelay name = w := by simp only [EventWorkspace.dropRelay, hkey]
    rwa [hsame]
  | some key =>
    have hfresh : (w.dropRelay name).fresh = w.fresh := by simp only [EventWorkspace.dropRelay, hkey]
    refine ⟨hfresh ▸ h.taken, fun hr => ?_⟩
    obtain ⟨hr, hne⟩ := (sound.mem_dropRelay hkey).mp hr
    rw [Sound.dropRelay_hub hkey, Hub.lookup_closeRelay, if_neg hne]
    exact h.fed hr

theorem nameRelay (h : w.Fed relay l) (sound : w.Sound) (name : String) {key : Nat} (hne : relay ≠ key) :
    (w.nameRelay name key).Fed relay l := by
  have hdrop := h.dropRelay sound name
  refine ⟨hdrop.taken, fun hr => hdrop.fed ?_⟩
  rcases List.mem_cons.mp hr with hr | hr
  · exact absurd hr hne
  · exact hr

theorem becomes (h : w.Fed relay l) (sound : w.Sound) {w' : EventWorkspace} (becomes : w.Becomes w') : w'.Fed relay l := by
  have names : ∀ {w' : EventWorkspace}, w'.Fed relay l → ∀ events, (w'.withNames events).Fed relay l := fun {w'} h' events =>
    h'.of_same (Nat.le_refl _) rfl (Hub.closeAll_feeds w'.hub _)
  have opened : w.openFresh.1.Fed relay l := h.of_same (Nat.le_succ _) rfl rfl
  cases becomes with
  | same => exact h
  | opened name => exact names opened _
  | named name hkey => exact names h _
  | relayed name => exact opened.nameRelay sound.openFresh.1 name (Nat.ne_of_lt h.taken)
  | subscribed name hkey own => exact h.of_same (Nat.le_refl _) rfl (Hub.subscribeAs_feeds name _ _)
  | connected hrelay hkey =>
    refine ⟨h.taken, fun hmem => ?_⟩
    have hfed := h.fed hmem
    rw [Hub.lookup_connect]
    split
    · rename_i he
      rw [← he, hfed]
      rfl
    · exact hfed
  | held name => exact h.of_same (Nat.le_refl _) rfl (Hub.dropNamed_feeds name)
  | joined name other hsecond hfirst =>
    refine h.of_same (Nat.le_refl _) rfl ?_
    show (((w.hub.forget other).forget name).dropNamed name).feeds = w.hub.feeds
    rw [Hub.dropNamed_feeds]
    rfl
  | dropped name => exact h.of_same (Nat.le_refl _) rfl (Hub.dropNamed_feeds name)
  | eventDropped name => exact names h _
  | relayDropped name => exact h.dropRelay sound name
  | raised key => exact h.of_same (Nat.le_refl _) rfl (Hub.raiseWithin_feeds _ key)

theorem after (h : w.Fed relay l) (sound : w.Sound) (steps : List EventStep) : (w.after steps).Fed relay l := by
  induction steps generalizing w with
  | nil => exact h
  | cons step steps ih => exact ih (h.becomes sound (w.becomes_next step)) (sound.next step)

end Fed

/-- A relay has at most one link to a source. It has none at first; the first source it is given gets the
link; and it keeps that link, whatever sources it is given later, as long as it is there. -/
structure KeepsFirstSource (w : EventWorkspace) : Prop where
  single : ∀ relay, (w.hub.feeds.filter (·.1 = relay)).length ≤ 1
  fresh : ∀ name, ∃ key, (w.next (.relay name)).relay? name = some key ∧ (w.next (.relay name)).hub.feeds.lookup key = none
  first : ∀ name source relay key, w.relay? name = some relay → w.event? source = some key →
    w.hub.feeds.lookup relay = none → ∃ n,
      (w.next (.forwardRelay name source)).hub.feeds.lookup relay = some ⟨key, n⟩ ∧
      (w.next (.forwardRelay name source)).hub.Has key n (.forward relay)
  later : ∀ name source relay l, w.relay? name = some relay → w.hub.feeds.lookup relay = some l →
    w.next (.forwardRelay name source) = w
  kept : ∀ relay l, w.hub.feeds.lookup relay = some l → ∀ steps, relay ∈ (w.after steps).relays.map (·.2) →
    (w.after steps).hub.feeds.lookup relay = some l

namespace Sound

variable {w : EventWorkspace}

theorem fed_of_lookup (h : w.Sound) {relay : Nat} {l : Link Nat} (hl : w.hub.feeds.lookup relay = some l) : w.Fed relay l :=
  ⟨h.relay_below (h.feeds _ (Hub.mem_of_lookup hl)), fun _ => hl⟩

theorem unfed_of_not_mem (h : w.Sound) {relay : Nat} (hr : relay ∉ w.relays.map (·.2)) : w.hub.feeds.lookup relay = none := by
  refine List.lookup_eq_none_iff.mpr fun x hx => bne_iff_ne.mpr ?_
  rintro rfl
  exact hr (h.feeds x hx)

theorem keepsFirstSource (h : w.Sound) : w.KeepsFirstSource where
  single relay := by
    cases hl : w.hub.feeds.lookup relay with
    | none =>
      have hnil : w.hub.feeds.filter (·.1 = relay) = [] :=
        List.filter_eq_nil_iff.mpr fun x hx => by simpa using Hub.ne_of_lookup_eq_none hl hx
      simp [hnil]
    | some l =>
      have hperm := (Hub.perm_of_lookup h.accounts.relays hl).filter (·.1 = relay)
      have hothers : (w.hub.feeds.filter (·.1 != relay)).filter (·.1 = relay) = [] :=
        List.filter_eq_nil_iff.mpr fun x hx => by simpa using (List.mem_filter.mp hx).2
      rw [hperm.length_eq, List.filter_cons, hothers]
      simp
  fresh name := by
    have hnext : w.next (.relay name) = w.openFresh.1.nameRelay name w.fresh := rfl
    obtain ⟨sound, -, -, relays⟩ := h.openFresh
    rw [hnext]
    refine ⟨w.fresh, by simp [relay?, EventWorkspace.nameRelay], ?_⟩
    -- The hub is that of the workspace before the name was given.
    refine (sound.dropRelay name).unfed_of_not_mem fun hmem => ?_
    cases hkey : w.openFresh.1.relay? name with
    | none =>
      have hsame : w.openFresh.1.dropRelay name = w.openFresh.1 := by simp only [EventWorkspace.dropRelay, hkey]
      rw [hsame] at hmem
      obtain ⟨x, hx, he⟩ := List.mem_map.mp hmem
      exact relays x hx he.symm
    | some key =>
      obtain ⟨x, hx, he⟩ := List.mem_map.mp ((sound.mem_dropRelay hkey).mp hmem).1
      exact relays x hx he.symm
  first name source relay key hrelay hkey hnone := by
    have hnext : w.next (.forwardRelay name source) = { w with hub := w.hub.connect relay key } :=
      next_eq (r := (_, none, [])) (by simp [EventWorkspace.perform, hrelay, hkey])
    obtain ⟨e, he, owned⟩ := h.events _ (Hub.mem_of_lookup hkey)
    rw [hnext]
    refine ⟨e.next, ?_, e.add (.forward relay), ?_, by simp [ChangeEvent.add]⟩
    · rw [Hub.lookup_connect, if_pos rfl, hnone]
      simp [Hub.subscribe, he]
    · simp only [Hub.connect, hnone]
      have held : (e.add (.forward relay)).isHeld key = true := Hub.isHeld_of_owned owned
      exact Hub.event?_modifyEvent_of_held (f := (·.add (.forward relay))) he held
  later name source relay l hrelay hl := by
    unfold EventWorkspace.next
    cases hkey : w.event? source with
    | none => simp [EventWorkspace.perform, hkey]
    | some key => simp [EventWorkspace.perform, hrelay, hkey, Hub.connect, hl]
  kept relay l hl steps := ((h.fed_of_lookup hl).after h steps).fed

end Sound

/-! ### The account over runs -/

/-- The handlers of an open event are numbered in the order of subscription, and these numbers are those of
the links to it, each once. Dropping a subscription takes its own handlers from each event and no others,
and joining two moves no handler. What has a name is open. -/
structure KeepsAccount (w : EventWorkspace) : Prop where
  ordered : ∀ key e, w.hub.event? key = some e → (e.handlers.map (·.1)).Pairwise (· < ·)
  matched : ∀ key e, w.hub.event? key = some e → (w.hub.numbersTo key).Perm (e.handlers.map (·.1))
  counted : ∀ key, w.hub.IsOpen key → w.hub.observerCount key = (w.hub.numbersTo key).length
  dropped : ∀ name s, w.hub.subscription? name = some s → ∀ key,
    (w.next (.drop name)).hub.event? key = (w.hub.event? key).bind fun e => Hub.kept key (e.without key s)
  joined : ∀ name other first second, name ≠ other → w.hub.subscription? name = some first →
    w.hub.subscription? other = some second →
      (w.next (.join name other)).hub.subscription? name = some (first ++ second) ∧
      (w.next (.join name other)).hub.subscription? other = none ∧
      ∀ key, (w.next (.join name other)).hub.event? key = w.hub.event? key
  named : ∀ x ∈ w.events ++ w.relays, w.hub.IsOpen x.2

theorem Sound.keepsAccount {w : EventWorkspace} (h : w.Sound) : w.KeepsAccount where
  ordered := h.accounts.ordered
  matched key e he := h.accounts.perm he
  counted key hopen := by
    obtain ⟨e, he⟩ := Option.isSome_iff_exists.mp hopen
    exact h.accounts.observerCount he
  dropped name s hs key := by
    have hnext : w.next (.drop name) = { w with hub := w.hub.dropNamed name } :=
      next_eq (r := (_, none, [])) (by simp [EventWorkspace.perform, hs])
    rw [hnext]
    exact h.accounts.event?_dropNamed hs key
  joined name other first second hne hfirst hsecond := by
    have hfirst' : (w.hub.forget other).subscription? name = some first := by
      rw [← hfirst]
      exact (Hub.lookup_filter_ne _ _ _).trans (if_neg hne)
    have hfree : ((w.hub.forget other).forget name).subscription? name = none :=
      (Hub.lookup_filter_ne _ _ _).trans (if_pos rfl)
    have hhold : ((w.hub.forget other).forget name).hold name (first ++ second) =
        { (w.hub.forget other).forget name with
          subscriptions := (name, first ++ second) :: ((w.hub.forget other).forget name).subscriptions } := by
      simp only [Hub.hold, Hub.dropNamed, hfree]
    have hnext : w.next (.join name other) = { w with hub := ((w.hub.forget other).forget name).hold name (first ++ second) } :=
      next_eq (r := (_, none, [])) (by simp [EventWorkspace.perform, hsecond, hfirst'])
    rw [hnext, hhold]
    refine ⟨by simp [Hub.subscription?], ?_, fun _ => rfl⟩
    have hother : ((w.hub.forget other).forget name).subscription? other = none := by
      refine (Hub.lookup_filter_ne _ _ _).trans ((if_neg hne.symm).trans ?_)
      exact (Hub.lookup_filter_ne _ _ _).trans (if_pos rfl)
    simp only [Hub.subscription?, List.lookup_cons, beq_false_of_ne hne.symm]
    exact hother
  named x hx := by
    rcases List.mem_append.mp hx with hx | hx
    · obtain ⟨e, he, -⟩ := h.events x hx
      exact Option.isSome_iff_exists.mpr ⟨e, he⟩
    · obtain ⟨e, he, -⟩ := h.relays x hx
      exact Option.isSome_iff_exists.mpr ⟨e, he⟩

/-- After every run of steps, raises with handlers that subscribe and drop included, handlers and links
match, and relays keep to their first source. -/
theorem links_match_handlers (steps : List EventStep) :
    (empty.after steps).KeepsAccount ∧ (empty.after steps).KeepsFirstSource :=
  ⟨(sound_after steps).keepsAccount, (sound_after steps).keepsFirstSource⟩

end EventWorkspace
end BlockScript
