import BlockScript.Proofs.Event.Links

/-!
Raises, one occurrence after the other. A raise lists the handlers of its event when it begins, and then calls
them in turn. Between two of its calls anything may occur: whatever the called handler does, be it to subscribe,
to drop, to join, to close, or to raise an event again, the same one included. So a run is told by what occurs,
and nothing is asked of handlers. No occurrence touches what a raise has listed, and no event gives a number out
twice; so a raise calls the handlers that were there when it began, and no others.
-/
namespace BlockScript

namespace Hub

/-! ### What later hubs have of earlier ones -/

/-- An event that is there later, under a key that had been given out, was there before. Its handlers are old
ones, or they have been numbered since and are of a kind that may be added. -/
def Evolves (added : Handler Nat → Prop) (fresh : Nat) (hub hub' : Hub Nat) : Prop :=
  ∀ key < fresh, ∀ e', hub'.event? key = some e' →
    ∃ e, hub.event? key = some e ∧ e.next ≤ e'.next ∧ ∀ x ∈ e'.handlers, x ∈ e.handlers ∨ e.next ≤ x.1 ∧ added x.2

section
variable {added : Handler Nat → Prop} {fresh : Nat} {hand : Subscription Nat} {hub hub' : Hub Nat}

theorem Evolves.of_events (h : hub'.events = hub.events) : hub.Evolves added fresh hub' := by
  intro key _ e he
  refine ⟨e, ?_, Nat.le_refl _, fun x hx => Or.inl hx⟩
  rw [← he, event?, event?, h]

theorem Evolves.refl (hub : Hub Nat) : hub.Evolves added fresh hub := .of_events rfl

theorem Evolves.trans {fresh' : Nat} {hub'' : Hub Nat} (first : hub.Evolves added fresh hub') (le : fresh ≤ fresh')
    (second : hub'.Evolves added fresh' hub'') : hub.Evolves added fresh hub'' := by
  intro key hkey e'' he''
  obtain ⟨e', he', hnext', old'⟩ := second key (Nat.lt_of_lt_of_le hkey le) e'' he''
  obtain ⟨e, he, hnext, old⟩ := first key hkey e' he'
  refine ⟨e, he, Nat.le_trans hnext hnext', fun x hx => ?_⟩
  rcases old' x hx with hx | hx
  · exact old x hx
  · exact Or.inr ⟨Nat.le_trans hnext hx.1, hx.2⟩

/-- The same, where no key is given out in between. -/
theorem Evolves.andThen {hub'' : Hub Nat} (first : hub.Evolves added fresh hub') (second : hub'.Evolves added fresh hub'') :
    hub.Evolves added fresh hub'' :=
  first.trans (Nat.le_refl _) second

/-- A change that only drops handlers of an event, or numbers new ones. -/
theorem evolves_modifyEvent (keys : (hub.events.map (·.1)).Nodup) (key : Nat) {f : ChangeEvent Nat → ChangeEvent Nat}
    (grows : ∀ e, e.next ≤ (f e).next) (old : ∀ e, ∀ x ∈ (f e).handlers, x ∈ e.handlers ∨ e.next ≤ x.1 ∧ added x.2) :
    hub.Evolves added fresh (hub.modifyEvent key f) := by
  intro other hother e' he'
  by_cases hk : other = key
  · subst hk
    rw [event?_modifyEvent keys] at he'
    obtain ⟨e, he, hkept⟩ := Option.bind_eq_some_iff.mp he'
    obtain ⟨rfl, -⟩ := kept_eq_some.mp hkept
    exact ⟨e, he, grows e, old e⟩
  · rw [event?_modifyEvent_of_ne hk] at he'
    exact Evolves.refl hub other hother e' he'

theorem evolves_setOwned (keys : (hub.events.map (·.1)).Nodup) (key : Nat) (owned : Bool) :
    hub.Evolves added fresh (hub.modifyEvent key fun e => { e with owned }) :=
  evolves_modifyEvent keys key (fun _ => Nat.le_refl _) fun _ _ hx => Or.inl hx

theorem evolves_openEvent (hub : Hub Nat) : hub.Evolves added fresh (hub.openEvent fresh) := by
  intro key hkey e he
  rw [event?_openEvent, if_neg (Nat.ne_of_lt hkey)] at he
  exact Evolves.refl hub key hkey e he

theorem evolves_subscribe (keys : (hub.events.map (·.1)).Nodup) (key : Nat) {x : Handler Nat} (hx : added x) :
    hub.Evolves added fresh (hub.subscribe key x).1 := by
  refine evolves_modifyEvent keys key (fun e => Nat.le_succ _) fun e y hy => ?_
  rcases List.mem_append.mp hy with hy | hy
  · exact Or.inl hy
  · obtain rfl := List.mem_singleton.mp hy
    exact Or.inr ⟨Nat.le_refl _, hx⟩

theorem evolves_unlink (keys : (hub.events.map (·.1)).Nodup) (l : Link Nat) : hub.Evolves added fresh (hub.unlink l) :=
  evolves_modifyEvent keys l.event (fun _ => Nat.le_refl _) fun _ _ hx => Or.inl (List.mem_filter.mp hx).1

theorem evolves_release (keys : (hub.events.map (·.1)).Nodup) (s : Subscription Nat) :
    hub.Evolves added fresh (hub.release s) := by
  unfold Hub.release
  induction s generalizing hub with
  | nil => exact .refl hub
  | cons l s ih => exact (evolves_unlink keys l).andThen (ih (keys.sublist (modifyEvent_keys _ _)))

theorem evolves_dropNamed (keys : (hub.events.map (·.1)).Nodup) (name : String) :
    hub.Evolves added fresh (hub.dropNamed name) := by
  unfold Hub.dropNamed
  split
  · rename_i s hs
    have forgotten : hub.Evolves added fresh (hub.forget name) := .of_events rfl
    have hkeys : ((hub.forget name).events.map (·.1)).Nodup := keys
    exact forgotten.andThen (evolves_release hkeys s)
  · exact .refl hub

theorem evolves_hold (keys : (hub.events.map (·.1)).Nodup) (name : String) (s : Subscription Nat) :
    hub.Evolves added fresh (hub.hold name s) :=
  (evolves_dropNamed keys name).andThen (.of_events rfl)

theorem evolves_subscribeAs (keys : (hub.events.map (·.1)).Nodup) (name : String) (key : Nat) {x : Handler Nat} (hx : added x) :
    hub.Evolves added fresh (hub.subscribeAs name key x) :=
  (evolves_subscribe keys key hx).andThen (evolves_hold (keys.sublist (modifyEvent_keys _ _)) name _)

theorem evolves_connect (keys : (hub.events.map (·.1)).Nodup) {relay : Nat} (source : Nat) (hx : added (.forward relay)) :
    hub.Evolves added fresh (hub.connect relay source) := by
  unfold Hub.connect
  split
  · exact .refl hub
  · exact (evolves_subscribe keys source hx).andThen (.of_events rfl)

theorem evolves_closeRelay (keys : (hub.events.map (·.1)).Nodup) (relay : Nat) :
    hub.Evolves added fresh (hub.closeRelay relay) := by
  have hclosed : hub.Evolves added fresh (hub.closeEvent relay) := evolves_setOwned keys relay false
  cases hl : hub.feeds.lookup relay with
  | none =>
    rw [closeRelay_of_unfed hl]
    exact hclosed
  | some l =>
    rw [closeRelay_of_fed hl]
    have hkeys : ((hub.closeEvent relay).events.map (·.1)).Nodup := keys.sublist (modifyEvent_keys _ _)
    have unfed : (hub.closeEvent relay).Evolves added fresh
        (Hub.mk (hub.closeEvent relay).events hub.subscriptions (hub.feeds.filter (·.1 != relay))) := .of_events rfl
    exact (hclosed.andThen unfed).andThen (evolves_unlink hkeys l)

/-! ### Numbers that are used up -/

/-- The event, should it be there, has given out the number, and no handler has it any more. -/
def Spent (hub : Hub Nat) (key n : Nat) : Prop := ∀ e, hub.event? key = some e → n < e.next ∧ ∀ h, (n, h) ∉ e.handlers

theorem Evolves.spent (evolves : hub.Evolves added fresh hub') {key n : Nat} (hkey : key < fresh) (spent : hub.Spent key n) :
    hub'.Spent key n := by
  intro e' he'
  obtain ⟨e, he, hnext, old⟩ := evolves key hkey e' he'
  obtain ⟨hn, gone⟩ := spent e he
  refine ⟨Nat.lt_of_lt_of_le hn hnext, fun h hmem => ?_⟩
  rcases old _ hmem with hmem | hnew
  · exact gone h hmem
  · exact absurd hn (Nat.not_lt.mpr hnew.1)

/-- A handler that is no longer there has used up its number. -/
theorem Accounts.spent_of_gone (accounts : hub.Accounts fresh hand) (evolves : hub.Evolves added fresh hub') {key n : Nat}
    {h : Handler Nat} (has : hub.Has key n h) (gone : ¬ hub'.Has key n h) : hub'.Spent key n := by
  obtain ⟨e, he, hmem⟩ := has
  intro e' he'
  obtain ⟨e₀, he₀, hnext, old⟩ := evolves key (accounts.events _ (mem_of_event? he)) e' he'
  obtain rfl := Option.some.inj (he.symm.trans he₀)
  have hn : n < e.next := accounts.below key e he _ hmem
  refine ⟨Nat.lt_of_lt_of_le hn hnext, fun h' hmem' => ?_⟩
  rcases old _ hmem' with hold | hnew
  · have distinct : (e.handlers.map (·.1)).Nodup := (accounts.ordered key e he).imp Nat.ne_of_lt
    have hsame : h' = h := congrArg (·.2) (List.inj_on_of_nodup_map distinct hold hmem rfl)
    exact gone ⟨e', he', hsame ▸ hmem'⟩
  · exact absurd hn (Nat.not_lt.mpr hnew.1)

theorem mem_links {name : String} {s : Subscription Nat} (hs : hub.subscription? name = some s) {l : Link Nat}
    (hl : l ∈ s) : l ∈ hub.links :=
  List.mem_append_left _ (List.mem_flatMap.mpr ⟨(name, s), mem_of_lookup hs, hl⟩)

/-- With a subscription that is dropped, all that was joined to it included, the numbers of its links are used up. -/
theorem Accounts.spent_dropNamed (accounts : hub.Accounts fresh []) {name : String} {s : Subscription Nat}
    (hs : hub.subscription? name = some s) {key n : Nat} (hl : ⟨key, n⟩ ∈ s) : (hub.dropNamed name).Spent key n := by
  intro e' he'
  rw [accounts.event?_dropNamed hs key] at he'
  obtain ⟨e, he, hkept⟩ := Option.bind_eq_some_iff.mp he'
  obtain ⟨rfl, -⟩ := kept_eq_some.mp hkept
  constructor
  · have hcount : 0 < (e.handlers.map (·.1)).count n := by
      rw [← accounts.balance key e he n]
      exact List.count_pos_iff.mpr (mem_links hs hl)
    obtain ⟨x, hx, rfl⟩ := List.mem_map.mp (List.count_pos_iff.mp hcount)
    exact accounts.below key e he x hx
  · intro h hmem
    have hkeep := (List.mem_filter.mp hmem).2
    simp [hl] at hkeep

/-- A link in hand is not held under a name. -/
theorem Accounts.not_mem_of_hand {l : Link Nat} (accounts : hub.Accounts fresh [l]) {e : ChangeEvent Nat}
    (he : hub.event? l.event = some e) {name : String} {s : Subscription Nat} (hs : hub.subscription? name = some s) : l ∉ s := by
  intro hl
  have hbalance := accounts.balance l.event e he l.handler
  have hone : (e.handlers.map (·.1)).count l.handler ≤ 1 :=
    List.nodup_iff_count_le_one.mp ((accounts.ordered l.event e he).imp Nat.ne_of_lt) _
  have hcons : ([l] ++ hub.links).count ⟨l.event, l.handler⟩ = hub.links.count ⟨l.event, l.handler⟩ + 1 := List.count_cons_self
  have hheld : 0 < hub.links.count ⟨l.event, l.handler⟩ := List.count_pos_iff.mpr (mem_links hs hl)
  omega

/-- A handler that is subscribed is there afterwards under its number, unless its event goes with the subscription that
was held under the name. -/
theorem Accounts.has_subscribeAs (accounts : hub.Accounts fresh []) {name : String} {key : Nat} (hkey : key < fresh)
    {x : Handler Nat} (hx : KnownTo fresh x) (isOpen : (hub.subscribeAs name key x).IsOpen key) :
    (hub.subscribeAs name key x).Has key (hub.subscribe key x).2.handler x := by
  have inHand := accounts.subscribe hkey hx
  have hevent : (hub.subscribeAs name key x).event? key = ((hub.subscribe key x).1.dropNamed name).event? key := rfl
  have added : ∀ e, (hub.subscribe key x).1.event? key = some e → ((hub.subscribe key x).2.handler, x) ∈ e.handlers := by
    intro e he
    have he : (hub.modifyEvent key (·.add x)).event? key = some e := he
    rw [event?_modifyEvent accounts.keys] at he
    obtain ⟨e₀, he₀, hkept⟩ := Option.bind_eq_some_iff.mp he
    obtain ⟨rfl, -⟩ := kept_eq_some.mp hkept
    have hnumber : (hub.subscribe key x).2.handler = e₀.next := by simp [Hub.subscribe, he₀]
    rw [hnumber]
    exact List.mem_append_right _ (List.mem_singleton_self _)
  obtain ⟨e', he'⟩ := Option.isSome_iff_exists.mp isOpen
  refine ⟨e', he', ?_⟩
  rw [hevent] at he'
  cases hs : (hub.subscribe key x).1.subscription? name with
  | none =>
    simp only [Hub.dropNamed, hs] at he'
    exact added e' he'
  | some s =>
    rw [inHand.event?_dropNamed hs key] at he'
    obtain ⟨e, he, hkept⟩ := Option.bind_eq_some_iff.mp he'
    obtain ⟨rfl, -⟩ := kept_eq_some.mp hkept
    have apart : (hub.subscribe key x).2 ∉ s := inHand.not_mem_of_hand he hs
    refine List.mem_filter.mpr ⟨added e he, ?_⟩
    have hlink : (⟨key, (hub.subscribe key x).2.handler⟩ : Link Nat) ∉ s := apart
    simpa using hlink

end
end Hub

/-! ### Deeds -/

/-- What is done to open events and subscriptions, by handlers or by others. -/
inductive Deed where
  | subscribe (name : String) (event : Nat) (handler : Handler Nat)
  | empty (name : String)
  | join (name other : String)
  | drop (name : String)
  | close (event : Nat)
  | connect (relay source : Nat)
  | closeRelay (relay : Nat)
  deriving DecidableEq

namespace Deed

variable {fresh : Nat} {hub : Hub Nat}

/-- The hub after a deed. A join of what is not held changes nothing. -/
def perform (hub : Hub Nat) : Deed → Hub Nat
  | .subscribe name event handler => hub.subscribeAs name event handler
  | .empty name => hub.hold name []
  | .join name other =>
    match hub.subscription? other, (hub.forget other).subscription? name with
    | some second, some first => ((hub.forget other).forget name).hold name (first ++ second)
    | _, _ => hub
  | .drop name => hub.dropNamed name
  | .close event => hub.closeEvent event
  | .connect relay source => hub.connect relay source
  | .closeRelay relay => hub.closeRelay relay

/-- Events can be subscribed to once they have been given out. -/
def Known (fresh : Nat) : Deed → Prop
  | .subscribe _ event handler => event < fresh ∧ Hub.KnownTo fresh handler
  | .connect _ source => source < fresh
  | _ => True

theorem accounts (h : hub.Accounts fresh []) {d : Deed} (known : d.Known fresh) : (d.perform hub).Accounts fresh [] := by
  cases d with
  | subscribe name event handler => exact h.subscribeAs name known.1 known.2
  | empty name => exact Hub.Accounts.hold (s := []) h name
  | join name other =>
    simp only [perform]
    split
    · rename_i second first hsecond hfirst
      have taken := (h.forget hsecond).forget hfirst
      rw [← List.append_assoc] at taken
      exact taken.hold name
    · exact h
  | drop name => exact h.dropNamed name
  | close event => exact h.closeEvent event
  | connect relay source => exact h.connect relay known
  | closeRelay relay => exact h.closeRelay relay

theorem evolves (h : hub.Accounts fresh []) (d : Deed) : hub.Evolves (fun _ => True) fresh (d.perform hub) := by
  cases d with
  | subscribe name event handler => exact Hub.evolves_subscribeAs h.keys name event trivial
  | empty name => exact Hub.evolves_hold h.keys name []
  | join name other =>
    simp only [perform]
    split
    · have forgotten : hub.Evolves (fun _ => True) fresh ((hub.forget other).forget name) := .of_events rfl
      have hkeys : (((hub.forget other).forget name).events.map (·.1)).Nodup := h.keys
      exact forgotten.andThen (Hub.evolves_hold hkeys name _)
    · exact .refl hub
  | drop name => exact Hub.evolves_dropNamed h.keys name
  | close event => exact Hub.evolves_setOwned h.keys event false
  | connect relay source => exact Hub.evolves_connect h.keys source trivial
  | closeRelay relay => exact Hub.evolves_closeRelay h.keys relay

end Deed

/-! ### Occurrences -/

/-- A raise under way: its number, its event, whether the event had an owner when it began, and the handlers
that it has still to call. -/
structure Raise where
  number : Nat
  event : Nat
  owned : Bool
  left : List (Nat × Handler Nat)
  deriving DecidableEq

/-- What happens to a hub at one moment: an event is opened, a deed is done, or a raise, told by its number, begins,
calls a handler or ends. -/
inductive Occurrence where
  | opens (event : Nat)
  | does (deed : Deed)
  | begins (raise event : Nat)
  | calls (raise : Nat) (handler : Nat × Handler Nat)
  | ends (raise : Nat)
  deriving DecidableEq

/-- A hub in use: the key for the next event, the number for the next raise, and the raises under way, the
latest first. -/
structure Activity where
  hub : Hub Nat
  fresh : Nat
  begun : Nat
  underWay : List Raise

/-- The handler that is called, if the raise of this number calls one. -/
def Occurrence.callBy? (raise : Nat) : Occurrence → Option (Nat × Handler Nat)
  | .calls r x => if r = raise then some x else none
  | _ => none

/-- The handlers that a raise calls in a run. -/
def callsBy (raise : Nat) (trace : List Occurrence) : List (Nat × Handler Nat) := trace.filterMap (·.callBy? raise)

theorem callsBy_append (raise : Nat) (first second : List Occurrence) :
    callsBy raise (first ++ second) = callsBy raise first ++ callsBy raise second :=
  List.filterMap_append

theorem callsBy_cons (raise : Nat) (m : Occurrence) (rest : List Occurrence) :
    callsBy raise (m :: rest) = (m.callBy? raise).toList ++ callsBy raise rest := by
  unfold callsBy
  rw [List.filterMap_cons]
  cases m.callBy? raise <;> rfl

namespace Activity

/-- A new hub, where nothing has happened. -/
def start : Activity := ⟨.empty, 0, 0, []⟩

/-- What can happen next. A raise lists the handlers of its event when it begins, holds the event until it ends,
and calls what it has listed. Deeds, and raises of other events or of the same, may come in between. -/
inductive Step : Activity → Occurrence → Activity → Prop where
  | opens {hub : Hub Nat} {fresh begun : Nat} {underWay : List Raise} :
      Step ⟨hub, fresh, begun, underWay⟩ (.opens fresh) ⟨hub.openEvent fresh, fresh + 1, begun, underWay⟩
  | does {hub : Hub Nat} {fresh begun : Nat} {underWay : List Raise} (d : Deed) (known : d.Known fresh) :
      Step ⟨hub, fresh, begun, underWay⟩ (.does d) ⟨d.perform hub, fresh, begun, underWay⟩
  | begins {hub : Hub Nat} {fresh begun : Nat} {underWay : List Raise} {key : Nat} {e : ChangeEvent Nat}
      (isOpen : hub.event? key = some e) :
      Step ⟨hub, fresh, begun, underWay⟩ (.begins begun key)
        ⟨if e.owned then hub else hub.ownEvent key, fresh, begun + 1, ⟨begun, key, e.owned, e.handlers⟩ :: underWay⟩
  | calls {hub : Hub Nat} {fresh begun : Nat} {underWay : List Raise} {r key : Nat} {owned : Bool}
      {x : Nat × Handler Nat} {left : List (Nat × Handler Nat)} :
      Step ⟨hub, fresh, begun, ⟨r, key, owned, x :: left⟩ :: underWay⟩ (.calls r x)
        ⟨hub, fresh, begun, ⟨r, key, owned, left⟩ :: underWay⟩
  | ends {hub : Hub Nat} {fresh begun : Nat} {underWay : List Raise} {r key : Nat} {owned : Bool} :
      Step ⟨hub, fresh, begun, ⟨r, key, owned, []⟩ :: underWay⟩ (.ends r)
        ⟨if owned then hub else hub.closeEvent key, fresh, begun, underWay⟩

/-- Occurrences that follow each other lead from one activity to another. -/
inductive Runs : Activity → List Occurrence → Activity → Prop where
  | done {a : Activity} : Runs a [] a
  | next {a b c : Activity} {m : Occurrence} {rest : List Occurrence} (first : a.Step m b) (others : Runs b rest c) :
      Runs a (m :: rest) c

theorem Runs.append {a b c : Activity} {first second : List Occurrence} (h : a.Runs first b) (h' : b.Runs second c) :
    a.Runs (first ++ second) c := by
  induction h with
  | done => exact h'
  | next first _ ih => exact .next first (ih h')

/-! ### What a step keeps -/

/-- The account is kept, and raises under way have numbers of their own, all given out. -/
structure Sound (a : Activity) : Prop where
  accounts : a.hub.Accounts a.fresh []
  distinct : (a.underWay.map (·.number)).Nodup
  begun : ∀ r ∈ a.underWay, r.number < a.begun

theorem sound_start : start.Sound := ⟨.empty, .nil, nofun⟩

section
variable {a b c : Activity} {m : Occurrence} {trace : List Occurrence}

theorem Step.sound (h : a.Step m b) (sound : a.Sound) : b.Sound := by
  obtain ⟨accounts, distinct, numbers⟩ := sound
  cases h with
  | opens => exact ⟨accounts.openEvent, distinct, numbers⟩
  | does d known => exact ⟨Deed.accounts accounts known, distinct, numbers⟩
  | @begins hub fresh begun underWay key e isOpen =>
    refine ⟨?_, List.nodup_cons.mpr ⟨fun hmem => ?_, distinct⟩, fun r hr => ?_⟩
    · dsimp only
      split
      · exact accounts
      · exact accounts.ownEvent key
    · obtain ⟨r, hr, hnumber⟩ := List.mem_map.mp hmem
      exact Nat.ne_of_lt (numbers r hr) hnumber
    · rcases List.mem_cons.mp hr with rfl | hr
      · exact Nat.lt_succ_self _
      · exact Nat.lt_succ_of_lt (numbers r hr)
  | calls =>
    refine ⟨accounts, distinct, fun r hr => ?_⟩
    rcases List.mem_cons.mp hr with rfl | hr
    · have hlt := numbers _ List.mem_cons_self
      exact hlt
    · exact numbers r (List.mem_cons_of_mem _ hr)
  | @ends hub fresh begun underWay r key owned =>
    refine ⟨?_, (List.nodup_cons.mp distinct).2, fun r hr => numbers r (List.mem_cons_of_mem _ hr)⟩
    dsimp only
    split
    · exact accounts
    · exact accounts.closeEvent key

/-- Keys and numbers are given out one after the other, and none comes back. -/
structure Later (a b : Activity) : Prop where
  fresh : a.fresh ≤ b.fresh
  begun : a.begun ≤ b.begun
  evolves : a.hub.Evolves (fun _ => True) a.fresh b.hub

theorem Later.trans (first : a.Later b) (second : b.Later c) : a.Later c :=
  ⟨Nat.le_trans first.fresh second.fresh, Nat.le_trans first.begun second.begun,
    first.evolves.trans first.fresh second.evolves⟩

theorem Step.later (h : a.Step m b) (sound : a.Sound) : a.Later b := by
  obtain ⟨accounts, -, -⟩ := sound
  cases h with
  | @opens hub => exact ⟨Nat.le_succ _, Nat.le_refl _, Hub.evolves_openEvent hub⟩
  | does d => exact ⟨Nat.le_refl _, Nat.le_refl _, Deed.evolves accounts d⟩
  | @begins hub fresh begun underWay key e =>
    refine ⟨Nat.le_refl _, Nat.le_succ _, ?_⟩
    dsimp only
    split
    · exact .refl hub
    · exact Hub.evolves_setOwned accounts.keys key true
  | calls => exact ⟨Nat.le_refl _, Nat.le_refl _, .refl _⟩
  | @ends hub fresh begun underWay r key owned =>
    refine ⟨Nat.le_refl _, Nat.le_refl _, ?_⟩
    dsimp only
    split
    · exact .refl hub
    · exact Hub.evolves_setOwned accounts.keys key false

theorem Runs.sound (h : a.Runs trace b) (sound : a.Sound) : b.Sound := by
  induction h with
  | done => exact sound
  | next first _ ih => exact ih (first.sound sound)

theorem Runs.later (h : a.Runs trace b) (sound : a.Sound) : a.Later b := by
  induction h with
  | done => exact ⟨Nat.le_refl _, Nat.le_refl _, .refl _⟩
  | next first _ ih => exact (first.later sound).trans (ih (first.sound sound))

/-! ### What a raise has still to call -/

/-- A raise is under way with these handlers left, or it is over and none is left. -/
inductive Owes (a : Activity) (r : Nat) : List (Nat × Handler Nat) → Prop where
  | underWay (raise : Raise) (mem : raise ∈ a.underWay) (number : raise.number = r) : Owes a r raise.left
  | finished (gone : ∀ raise ∈ a.underWay, raise.number ≠ r) : Owes a r []

/-- What occurs is the call of the first handler that is left, or it leaves them all; a raise ends when none is
left. -/
theorem Step.owes (h : a.Step m b) (sound : a.Sound) {r : Nat} (old : r < a.begun) {left : List (Nat × Handler Nat)}
    (owes : a.Owes r left) :
    ∃ left', left = (m.callBy? r).toList ++ left' ∧ (m = .ends r → left' = []) ∧ b.Owes r left' := by
  obtain ⟨-, distinct, -⟩ := sound
  cases h with
  | opens =>
    cases owes with
    | underWay raise mem number => exact ⟨_, rfl, nofun, .underWay raise mem number⟩
    | finished gone => exact ⟨_, rfl, nofun, .finished gone⟩
  | does d =>
    cases owes with
    | underWay raise mem number => exact ⟨_, rfl, nofun, .underWay raise mem number⟩
    | finished gone => exact ⟨_, rfl, nofun, .finished gone⟩
  | begins =>
    cases owes with
    | underWay raise mem number => exact ⟨_, rfl, nofun, .underWay raise (List.mem_cons_of_mem _ mem) number⟩
    | finished gone =>
      refine ⟨_, rfl, nofun, .finished fun raise hraise => ?_⟩
      rcases List.mem_cons.mp hraise with rfl | hraise
      · exact (Nat.ne_of_lt old).symm
      · exact gone raise hraise
  | @calls hub fresh begun others s key owned x left =>
    have apart : ∀ raise ∈ others, raise.number ≠ s := fun raise hraise he =>
      (List.nodup_cons.mp distinct).1 (List.mem_map.mpr ⟨raise, hraise, he⟩)
    cases owes with
    | underWay raise mem number =>
      rcases List.mem_cons.mp mem with rfl | behind
      · have hnumber : s = r := number
        subst hnumber
        refine ⟨left, ?_, nofun, .underWay ⟨s, key, owned, left⟩ List.mem_cons_self rfl⟩
        simp [Occurrence.callBy?]
      · have hne : s ≠ r := fun he => apart raise behind (number.trans he.symm)
        refine ⟨raise.left, ?_, nofun, .underWay raise (List.mem_cons_of_mem _ behind) number⟩
        simp [Occurrence.callBy?, hne]
    | finished gone =>
      have hne : s ≠ r := gone _ List.mem_cons_self
      refine ⟨[], ?_, nofun, .finished fun raise hraise => ?_⟩
      · simp [Occurrence.callBy?, hne]
      · rcases List.mem_cons.mp hraise with rfl | hraise
        · exact hne
        · exact gone raise (List.mem_cons_of_mem _ hraise)
  | @ends hub fresh begun others s key owned =>
    have apart : ∀ raise ∈ others, raise.number ≠ s := fun raise hraise he =>
      (List.nodup_cons.mp distinct).1 (List.mem_map.mpr ⟨raise, hraise, he⟩)
    cases owes with
    | underWay raise mem number =>
      rcases List.mem_cons.mp mem with rfl | behind
      · exact ⟨[], rfl, fun _ => rfl, .finished fun raise hraise => number ▸ apart raise hraise⟩
      · refine ⟨raise.left, rfl, fun he => ?_, .underWay raise behind number⟩
        cases he
        exact absurd number (apart raise behind)
    | finished gone => exact ⟨[], rfl, fun _ => rfl, .finished fun raise hraise => gone raise (List.mem_cons_of_mem _ hraise)⟩

/-- A raise calls its handlers from the first one on, and all of them by its end. -/
theorem Runs.owes (h : a.Runs trace b) (sound : a.Sound) {r : Nat} (old : r < a.begun) {left : List (Nat × Handler Nat)}
    (owes : a.Owes r left) :
    ∃ left', left = callsBy r trace ++ left' ∧ (.ends r ∈ trace → left' = []) ∧ b.Owes r left' := by
  induction h generalizing left with
  | done => exact ⟨left, rfl, nofun, owes⟩
  | @next a b c m rest first _ ih =>
    obtain ⟨middle, hleft, hend, howes⟩ := first.owes sound old owes
    obtain ⟨left', hmiddle, hend', howes'⟩ := ih (first.sound sound) (Nat.lt_of_lt_of_le old (first.later sound).begun) howes
    refine ⟨left', ?_, fun hmem => ?_, howes'⟩
    · rw [hleft, hmiddle, callsBy_cons, List.append_assoc]
    · rcases List.mem_cons.mp hmem with hm | hmem
      · -- It ends here, so nothing was left for what comes after.
        rw [hend hm.symm] at hmiddle
        exact (List.append_eq_nil_iff.mp hmiddle.symm).2
      · exact hend' hmem

/-- Calls are made by raises that have begun. -/
theorem Runs.callsBy_eq_nil (h : a.Runs trace b) (sound : a.Sound) {r : Nat} (notBegun : b.begun ≤ r) : callsBy r trace = [] := by
  induction h with
  | done => rfl
  | @next a b c m rest first others ih =>
    have hrest := ih (first.sound sound) notBegun
    have hle : a.begun ≤ r :=
      Nat.le_trans (first.later sound).begun (Nat.le_trans (others.later (first.sound sound)).begun notBegun)
    rw [callsBy_cons, hrest, List.append_nil]
    cases first with
    | @calls hub fresh begun others s key owned x left =>
      have hlt := sound.begun _ List.mem_cons_self
      have hne : s ≠ r := Nat.ne_of_lt (Nat.lt_of_lt_of_le hlt hle)
      simp [Occurrence.callBy?, hne]
    | _ => rfl

end

/-! ### Whom a raise calls -/

/-- What a raise does that begins at `now`, when `after` follows. It calls the handlers that its event has
at `now`, in the order of subscription, all of them by its end. It calls none whose subscription was dropped
on the way to `now`, by itself or with what it was joined to, and none that had gone in another way; and it calls
none that is subscribed after it has begun. -/
structure Notifies (now begun : Activity) (r key : Nat) (after : List Occurrence) : Prop where
  listed : ∃ e, now.hub.event? key = some e ∧ (e.handlers.map (·.1)).Pairwise (· < ·) ∧
    callsBy r after <+: e.handlers ∧ (.ends r ∈ after → callsBy r after = e.handlers)
  dropped : ∀ {first second : List Occurrence} {a b : Activity} {name : String} {s : Subscription Nat},
    start.Runs first a → a.Step (.does (.drop name)) b → b.Runs second now → a.hub.subscription? name = some s →
      ∀ n, ⟨key, n⟩ ∈ s → ∀ h, (n, h) ∉ callsBy r after
  gone : ∀ {first second third : List Occurrence} {a b : Activity} {n : Nat} {h : Handler Nat},
    start.Runs first a → a.Runs second b → b.Runs third now → a.hub.Has key n h → ¬ b.hub.Has key n h →
      ∀ h', (n, h') ∉ callsBy r after
  added : ∀ {first : List Occurrence} {a b : Activity} {name : String} {h : Handler Nat},
    begun.Runs first a → a.Step (.does (.subscribe name key h)) b → a.hub.IsOpen key →
      ∀ h', ((a.hub.subscribe key h).2.handler, h') ∉ callsBy r after

theorem Step.listed {now begun last : Activity} {after : List Occurrence} {r key : Nat} (sound : now.Sound)
    (first : now.Step (.begins r key) begun) (future : begun.Runs after last) :
    ∃ e, now.hub.event? key = some e ∧ (e.handlers.map (·.1)).Pairwise (· < ·) ∧
      callsBy r after <+: e.handlers ∧ (.ends r ∈ after → callsBy r after = e.handlers) := by
  have soundBegun := first.sound sound
  cases first with
  | @begins hub fresh _ underWay _ e isOpen =>
    obtain ⟨left, hleft, hend, -⟩ :=
      future.owes soundBegun (Nat.lt_succ_self r) (.underWay ⟨r, key, e.owned, e.handlers⟩ List.mem_cons_self rfl)
    have hleft : e.handlers = callsBy r after ++ left := hleft
    refine ⟨e, isOpen, sound.accounts.ordered key e isOpen, ⟨left, hleft.symm⟩, fun hmem => ?_⟩
    rw [hleft, hend hmem, List.append_nil]

/-- What is subscribed is among the handlers of its event from then on, and so among those that the next raise lists. -/
theorem Step.subscribed {now later : Activity} (sound : now.Sound) {name : String} {key : Nat} {h : Handler Nat}
    (step : now.Step (.does (.subscribe name key h)) later) (isOpen : later.hub.IsOpen key) :
    later.hub.Has key (now.hub.subscribe key h).2.handler h := by
  cases step with
  | does _ known => exact sound.accounts.has_subscribeAs known.1 known.2 isOpen

theorem Step.begins_number {now begun : Activity} {r key : Nat} (first : now.Step (.begins r key) begun) : now.begun = r := by
  cases first
  rfl

theorem Step.notifies {now begun last : Activity} {before after : List Occurrence} {r key : Nat}
    (past : start.Runs before now) (first : now.Step (.begins r key) begun) (future : begun.Runs after last) :
    Notifies now begun r key after ∧ callsBy r before = [] := by
  have sound := past.sound sound_start
  obtain ⟨e, isOpen, ordered, called, ended⟩ := first.listed sound future
  -- Nobody is called who is not listed.
  have listed : ∀ {x}, x ∈ callsBy r after → x ∈ e.handlers := fun hx => called.subset hx
  have unspent : ∀ {n}, now.hub.Spent key n → ∀ h, (n, h) ∉ callsBy r after := fun spent h hx =>
    (spent e isOpen).2 h (listed hx)
  refine ⟨⟨⟨e, isOpen, ordered, called, ended⟩, ?_, ?_, ?_⟩,
    past.callsBy_eq_nil sound_start (Nat.le_of_eq first.begins_number)⟩
  · intro _ _ a b name s toDrop drop toNow hs n hl
    have soundA := toDrop.sound sound_start
    cases drop with
    | @does hubA freshA begunA underWayA _ known =>
      have hkey : key < freshA := soundA.accounts.links ⟨key, n⟩ (Hub.mem_links hs hl)
      have soundB := (Step.does (.drop name) known).sound soundA
      exact unspent ((toNow.later soundB).evolves.spent hkey (soundA.accounts.spent_dropNamed hs hl))
  · intro _ _ _ a b n h toA toB toNow has gone
    have soundA := toA.sound sound_start
    have laterB := toB.later soundA
    have hkey : key < b.fresh := by
      obtain ⟨e₀, he₀, -⟩ := has
      exact Nat.lt_of_lt_of_le (soundA.accounts.events _ (Hub.mem_of_event? he₀)) laterB.fresh
    have spent := soundA.accounts.spent_of_gone laterB.evolves has gone
    exact unspent ((toNow.later (toB.sound soundA)).evolves.spent hkey spent)
  · intro _ a b name h toA _ hopen h' hx
    obtain ⟨e', he'⟩ := Option.isSome_iff_exists.mp hopen
    have hkey : key < now.fresh := sound.accounts.events _ (Hub.mem_of_event? isOpen)
    have laterA := (first.later sound).trans (toA.later (first.sound sound))
    obtain ⟨e₀, he₀, hnext, -⟩ := laterA.evolves key hkey e' he'
    obtain rfl := Option.some.inj (isOpen.symm.trans he₀)
    have hlt := sound.accounts.below key e isOpen _ (listed hx)
    have hnumber : (a.hub.subscribe key h).2.handler = e'.next := by simp [Hub.subscribe, he']
    rw [hnumber] at hlt
    exact absurd hlt (Nat.not_lt.mpr hnext)

end Activity
end BlockScript
