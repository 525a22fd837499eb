import BlockScript.Proofs.Event.Handlers
import BlockScript.Event.Workspace

/-!
Handlers and the links that somebody holds. A link is made with its handler, moves between names and
relays, and takes its handler along when it is released. Links that an operation has in hand are
counted beside those in the hub, so each small operation keeps the account: an open event has under
each number as many handlers as there are links to it.
-/
namespace BlockScript

/-! ### One event -/

namespace ChangeEvent

variable {κ : Type} [DecidableEq κ]

/-- An event less the handlers that some links lead to. -/
def without (e : ChangeEvent κ) (key : κ) (s : Subscription κ) : ChangeEvent κ :=
  { e with handlers := e.handlers.filter fun h => !s.contains ⟨key, h.1⟩ }

@[simp] theorem without_nil (e : ChangeEvent κ) (key : κ) : e.without key [] = e := by
  simp [without]

theorem without_cons_self (e : ChangeEvent κ) (l : Link κ) (s : Subscription κ) :
    e.without l.event (l :: s) = (e.remove l.handler).without l.event s := by
  simp only [without, remove, List.filter_filter, ChangeEvent.mk.injEq, true_and]
  refine List.filter_congr fun h _ => ?_
  have hlink : ((⟨l.event, h.1⟩ : Link κ) == l) = (h.1 == l.handler) := by
    obtain ⟨event, handler⟩ := l
    rw [Bool.eq_iff_iff, beq_iff_eq, beq_iff_eq, Link.mk.injEq]
    simp
  rw [List.contains_cons, hlink, Bool.not_or, Bool.and_comm]
  rfl

theorem without_cons_of_ne {key : κ} {l : Link κ} (hne : key ≠ l.event) (e : ChangeEvent κ) (s : Subscription κ) :
    e.without key (l :: s) = e.without key s := by
  simp only [without, ChangeEvent.mk.injEq, true_and]
  refine List.filter_congr fun h _ => ?_
  have hlink : ((⟨key, h.1⟩ : Link κ) == l) = false := beq_false_of_ne fun he => hne (he ▸ rfl)
  rw [List.contains_cons, hlink, Bool.false_or]

theorem isHeld_of_without {e : ChangeEvent κ} {key : κ} {s : Subscription κ} (h : (e.without key s).isHeld key = true) :
    e.isHeld key = true := by
  simp only [isHeld, without, Bool.or_eq_true, List.any_eq_true] at h ⊢
  rcases h with h | ⟨x, hx, hholds⟩
  · exact Or.inl h
  · exact Or.inr ⟨x, (List.mem_filter.mp hx).1, hholds⟩

end ChangeEvent

namespace Hub

section
variable {κ : Type} [DecidableEq κ] {hub : Hub κ}

/-- An event of which somebody holds a part: it stays only as long as it is held. -/
def kept (key : κ) (e : ChangeEvent κ) : Option (ChangeEvent κ) := (some e).filter (·.isHeld key)

theorem kept_eq_some {key : κ} {e e' : ChangeEvent κ} : kept key e = some e' ↔ e' = e ∧ e.isHeld key = true := by
  unfold kept
  rw [Option.filter_eq_some_iff, Option.some.injEq]
  constructor
  · rintro ⟨rfl, held⟩
    exact ⟨rfl, held⟩
  · rintro ⟨rfl, held⟩
    exact ⟨rfl, held⟩

theorem kept_without_eq_none {key : κ} {e : ChangeEvent κ} (h : kept key e = none) (s : Subscription κ) :
    kept key (e.without key s) = none := by
  refine Option.eq_none_iff_forall_ne_some.mpr fun e' he' => ?_
  have held := ChangeEvent.isHeld_of_without (kept_eq_some.mp he').2
  rw [kept_eq_some.mpr ⟨rfl, held⟩] at h
  cases h

/-- Without a second event of the same key, a change leaves the changed event or nothing. -/
theorem event?_modifyEvent (nodup : (hub.events.map (·.1)).Nodup) (key : κ) (f : ChangeEvent κ → ChangeEvent κ) :
    (hub.modifyEvent key f).event? key = (hub.event? key).bind fun e => kept key (f e) := by
  unfold modifyEvent event?
  revert nodup
  induction hub.events with
  | nil => intro _; rfl
  | cons x l ih =>
    intro nodup
    obtain ⟨k, e⟩ := x
    rw [List.map_cons, List.nodup_cons] at nodup
    by_cases hk : k = key
    · subst hk
      have hnone : (l.filterMap fun e => if e.1 = k then (some (e.1, f e.2)).filter (·.2.isHeld k) else some e).lookup k = none := by
        refine List.lookup_eq_none_iff.mpr fun y hy => ?_
        obtain ⟨z, hz, hzy⟩ := List.mem_filterMap.mp hy
        have hne : z.1 ≠ k := by
          rintro rfl
          exact nodup.1 (List.mem_map_of_mem (f := (·.1)) hz)
        rw [if_neg hne] at hzy
        cases hzy
        exact bne_iff_ne.mpr hne.symm
      by_cases held : (f e).isHeld k = true
      · simp [kept, Option.filter, held]
      · simpa [kept, Option.filter, held] using hnone
    · have hne : (key == k) = false := beq_false_of_ne (Ne.symm hk)
      simp only [List.filterMap_cons, hk, if_false, List.lookup_cons, hne]
      exact ih nodup.2

theorem modifyEvent_keys (key : κ) (f : ChangeEvent κ → ChangeEvent κ) :
    ((hub.modifyEvent key f).events.map (·.1)).Sublist (hub.events.map (·.1)) := by
  unfold modifyEvent
  induction hub.events with
  | nil => exact .slnil
  | cons x l ih =>
    rw [List.filterMap_cons]
    split
    · exact ih.cons _
    · rename_i y hy
      have hkey : y.1 = x.1 := by
        split at hy
        · obtain ⟨hy, -⟩ := Option.filter_eq_some_iff.mp hy
          cases hy
          rfl
        · cases hy
          rfl
      rw [List.map_cons, List.map_cons, hkey]
      exact ih.cons_cons _

/-! ### Links that are held -/

/-- The links that somebody holds: under names, and as feeds of relays. -/
def links (hub : Hub κ) : List (Link κ) := hub.subscriptions.flatMap (·.2) ++ hub.feeds.map (·.2)

/-- The numbers of the held links to an event. -/
def numbersTo (hub : Hub κ) (key : κ) : List Nat := (hub.links.filter (·.event = key)).map (·.handler)

theorem count_numbersTo (key : κ) (n : Nat) : (hub.numbersTo key).count n = hub.links.count ⟨key, n⟩ := by
  unfold numbersTo
  induction hub.links with
  | nil => rfl
  | cons l links ih =>
    obtain ⟨event, handler⟩ := l
    by_cases hk : event = key
    · subst hk
      by_cases hn : handler = n
      · simp [hn, ih]
      · simp [hn, ih]
    · have hne : (⟨event, handler⟩ : Link κ) ≠ ⟨key, n⟩ := fun h => hk (congrArg Link.event h)
      simp [hk, ih, hne]

theorem ne_of_lookup_eq_none {α β : Type} [DecidableEq α] {l : List (α × β)} {key : α} (h : l.lookup key = none)
    {x : α × β} (hx : x ∈ l) : x.1 ≠ key := by
  have hne := List.lookup_eq_none_iff.mp h x hx
  exact (bne_iff_ne.mp hne).symm

theorem mem_of_lookup {α β : Type} [DecidableEq α] {l : List (α × β)} {key : α} {b : β} (h : l.lookup key = some b) :
    (key, b) ∈ l := by
  obtain ⟨l₁, l₂, hl, -⟩ := List.lookup_eq_some_iff.mp h
  rw [hl]
  exact List.mem_append_right _ List.mem_cons_self

/-- An entry of a table without a second one of its key is that entry and the others. -/
theorem perm_of_lookup {α β : Type} [DecidableEq α] {l : List (α × β)} (nodup : (l.map (·.1)).Nodup) {key : α} {b : β}
    (h : l.lookup key = some b) : l.Perm ((key, b) :: l.filter (·.1 != key)) := by
  induction l with
  | nil => cases h
  | cons x rest ih =>
    obtain ⟨other, c⟩ := x
    rw [List.map_cons, List.nodup_cons] at nodup
    rw [List.lookup_cons] at h
    by_cases hkey : key = other
    · subst hkey
      have hrest : rest.filter (·.1 != key) = rest := by
        refine List.filter_eq_self.mpr fun y hy => bne_iff_ne.mpr ?_
        rintro rfl
        exact nodup.1 (List.mem_map_of_mem (f := (·.1)) hy)
      simp only [beq_self_eq_true] at h
      cases h
      simp [hrest]
    · rw [beq_false_of_ne hkey] at h
      have hkeep : (other != key) = true := bne_iff_ne.mpr (Ne.symm hkey)
      rw [List.filter_cons, if_pos hkeep]
      exact ((ih nodup.2 h).cons _).trans (.swap ..)

omit [DecidableEq κ] in
theorem links_forget {name : String} {s : Subscription κ} (names : (hub.subscriptions.map (·.1)).Nodup)
    (hs : hub.subscription? name = some s) : hub.links.Perm (s ++ (hub.forget name).links) := by
  have hperm := (perm_of_lookup names hs).flatMap_right (·.2)
  rw [List.flatMap_cons] at hperm
  exact (hperm.append_right _).trans (by rw [List.append_assoc]; exact .refl _)

omit [DecidableEq κ] in
theorem links_subscriptions (name : String) (s : Subscription κ) :
    ({ hub with subscriptions := (name, s) :: hub.subscriptions } : Hub κ).links = s ++ hub.links := by
  simp only [links, List.flatMap_cons, List.append_assoc]

omit [DecidableEq κ] in
theorem links_feeds (relay : κ) (l : Link κ) :
    ({ hub with feeds := (relay, l) :: hub.feeds } : Hub κ).links.Perm (l :: hub.links) := by
  simp only [links, List.map_cons]
  exact List.perm_middle

theorem links_unfed {relay : κ} {l : Link κ} (relays : (hub.feeds.map (·.1)).Nodup) (hl : hub.feeds.lookup relay = some l) :
    hub.links.Perm (l :: ({ hub with feeds := hub.feeds.filter (·.1 != relay) } : Hub κ).links) := by
  have hperm := (perm_of_lookup relays hl).map (·.2)
  exact (hperm.append_left _).trans List.perm_middle

end

/-! ### The account -/

/-- The event that a handler holds has been given out. -/
def KnownTo (fresh : Nat) (h : Handler Nat) : Prop := ∀ key, h.holds key = true → key < fresh

/-- Keys below `fresh` have been given out. Open events are held, their handlers are numbered in the order
of subscription, and under each number they have as many handlers as there are links to it, be they in
the hub or in hand. -/
structure Accounts (fresh : Nat) (hand : Subscription Nat) (hub : Hub Nat) : Prop where
  keys : (hub.events.map (·.1)).Nodup
  names : (hub.subscriptions.map (·.1)).Nodup
  relays : (hub.feeds.map (·.1)).Nodup
  events : ∀ x ∈ hub.events, x.1 < fresh
  links : ∀ l ∈ hand ++ hub.links, l.event < fresh
  held : ∀ key e, hub.event? key = some e → e.isHeld key = true
  ordered : ∀ key e, hub.event? key = some e → (e.handlers.map (·.1)).Pairwise (· < ·)
  below : ∀ key e, hub.event? key = some e → ∀ h ∈ e.handlers, h.1 < e.next
  known : ∀ key e, hub.event? key = some e → ∀ h ∈ e.handlers, KnownTo fresh h.2
  balance : ∀ key e, hub.event? key = some e → ∀ n, (hand ++ hub.links).count ⟨key, n⟩ = (e.handlers.map (·.1)).count n

namespace Accounts

variable {fresh : Nat} {hand : Subscription Nat} {hub : Hub Nat}

theorem empty : Accounts 0 [] (Hub.empty : Hub Nat) where
  keys := .nil
  names := .nil
  relays := .nil
  events := nofun
  links := nofun
  held := nofun
  ordered := nofun
  below := nofun
  known := nofun
  balance := nofun

/-- A change of one event keeps the account if what is left of the event balances with the links. -/
theorem modifyEvent {hand' : Subscription Nat} (h : hub.Accounts fresh hand) {key : Nat}
    {f : ChangeEvent Nat → ChangeEvent Nat} (links : ∀ l ∈ hand', l ∈ hand ∨ l.event < fresh)
    (others : ∀ other n, other ≠ key → hand'.count ⟨other, n⟩ = hand.count ⟨other, n⟩)
    (ordered : ∀ e, hub.event? key = some e → ((f e).handlers.map (·.1)).Pairwise (· < ·))
    (below : ∀ e, hub.event? key = some e → ∀ x ∈ (f e).handlers, x.1 < (f e).next)
    (known : ∀ e, hub.event? key = some e → ∀ x ∈ (f e).handlers, KnownTo fresh x.2)
    (balance : ∀ e, hub.event? key = some e → ∀ n,
      (hand' ++ hub.links).count ⟨key, n⟩ = ((f e).handlers.map (·.1)).count n) :
    (hub.modifyEvent key f).Accounts fresh hand' := by
  -- What an event is afterwards: the changed one, still held, or one that is not touched.
  have back : ∀ other e', (hub.modifyEvent key f).event? other = some e' →
      (∃ e, other = key ∧ hub.event? key = some e ∧ e' = f e ∧ e'.isHeld key = true) ∨
        other ≠ key ∧ hub.event? other = some e' := by
    intro other e' he'
    by_cases hk : other = key
    · subst hk
      rw [event?_modifyEvent h.keys] at he'
      obtain ⟨e, he, hkept⟩ := Option.bind_eq_some_iff.mp he'
      obtain ⟨rfl, held⟩ := kept_eq_some.mp hkept
      exact Or.inl ⟨e, rfl, he, rfl, held⟩
    · rw [event?_modifyEvent_of_ne hk] at he'
      exact Or.inr ⟨hk, he'⟩
  refine ⟨h.keys.sublist (modifyEvent_keys key f), h.names, h.relays, ?_, ?_, ?_, ?_, ?_, ?_, ?_⟩
  · intro x hx
    obtain ⟨y, hy, hyx⟩ := List.mem_map.mp ((modifyEvent_keys key f).subset (List.mem_map_of_mem hx))
    exact hyx ▸ h.events y hy
  · intro l hl
    rcases List.mem_append.mp hl with hl | hl
    · rcases links l hl with hl | hl
      · exact h.links l (List.mem_append_left _ hl)
      · exact hl
    · exact h.links l (List.mem_append_right _ hl)
  · intro other e' he'
    rcases back other e' he' with ⟨e, rfl, -, -, held⟩ | ⟨-, he⟩
    · exact held
    · exact h.held other e' he
  · intro other e' he'
    rcases back other e' he' with ⟨e, -, he, rfl, -⟩ | ⟨-, he⟩
    · exact ordered e he
    · exact h.ordered other e' he
  · intro other e' he'
    rcases back other e' he' with ⟨e, -, he, rfl, -⟩ | ⟨-, he⟩
    · exact below e he
    · exact h.below other e' he
  · intro other e' he'
    rcases back other e' he' with ⟨e, -, he, rfl, -⟩ | ⟨-, he⟩
    · exact known e he
    · exact h.known other e' he
  · intro other e' he' n
    rcases back other e' he' with ⟨e, rfl, he, rfl, -⟩ | ⟨hne, he⟩
    · exact balance e he n
    · have hbalance := h.balance other e' he n
      have hcount := others other n hne
      have hlinks : (hub.modifyEvent key f).links = hub.links := rfl
      rw [List.count_append] at hbalance ⊢
      rw [hlinks, hcount]
      exact hbalance

/-- Whether somebody outside holds an event does not touch the account. -/
theorem setOwned (h : hub.Accounts fresh hand) (key : Nat) (owned : Bool) :
    (hub.modifyEvent key fun e => { e with owned }).Accounts fresh hand :=
  h.modifyEvent (fun _ hl => Or.inl hl) (fun _ _ _ => rfl) (h.ordered key) (h.below key) (h.known key) (h.balance key)

theorem closeEvent (h : hub.Accounts fresh hand) (key : Nat) : (hub.closeEvent key).Accounts fresh hand :=
  h.setOwned key false

theorem ownEvent (h : hub.Accounts fresh hand) (key : Nat) : (hub.ownEvent key).Accounts fresh hand :=
  h.setOwned key true

theorem openEvent (h : hub.Accounts fresh hand) : (hub.openEvent fresh).Accounts (fresh + 1) hand := by
  have back : ∀ key e, (hub.openEvent fresh).event? key = some e → key = fresh ∧ e = .fresh ∨ hub.event? key = some e := by
    intro key e he
    rw [event?_openEvent] at he
    split at he
    · rename_i hk
      exact Or.inl ⟨hk, (Option.some.inj he).symm⟩
    · exact Or.inr he
  refine ⟨?_, h.names, h.relays, ?_, fun l hl => Nat.lt_succ_of_lt (h.links l hl), ?_, ?_, ?_, ?_, ?_⟩
  · refine List.nodup_cons.mpr ⟨fun hmem => ?_, h.keys⟩
    obtain ⟨x, hx, hkey⟩ := List.mem_map.mp hmem
    exact absurd (h.events x hx) (hkey ▸ Nat.lt_irrefl _)
  · intro x hx
    rcases List.mem_cons.mp hx with rfl | hx
    · exact Nat.lt_succ_self _
    · exact Nat.lt_succ_of_lt (h.events x hx)
  · intro key e he
    rcases back key e he with ⟨rfl, rfl⟩ | he
    · rfl
    · exact h.held key e he
  · intro key e he
    rcases back key e he with ⟨-, rfl⟩ | he
    · exact .nil
    · exact h.ordered key e he
  · intro key e he
    rcases back key e he with ⟨-, rfl⟩ | he
    · nofun
    · exact h.below key e he
  · intro key e he
    rcases back key e he with ⟨-, rfl⟩ | he
    · nofun
    · exact fun x hx other ho => Nat.lt_succ_of_lt (h.known key e he x hx other ho)
  · intro key e he n
    rcases back key e he with ⟨rfl, rfl⟩ | he
    · -- No link leads to a key that has not been given out.
      refine List.count_eq_zero.mpr fun hmem => ?_
      exact Nat.lt_irrefl _ (h.links _ hmem)
    · exact h.balance key e he n

/-! ### Making and releasing links -/

/-- A new handler comes with its link, which is in hand. -/
theorem subscribe (h : hub.Accounts fresh hand) {key : Nat} (hkey : key < fresh) {x : Handler Nat} (hx : KnownTo fresh x) :
    (hub.subscribe key x).1.Accounts fresh ((hub.subscribe key x).2 :: hand) := by
  show (hub.modifyEvent key (·.add x)).Accounts fresh ((hub.subscribe key x).2 :: hand)
  refine h.modifyEvent ?_ ?_ ?_ ?_ ?_ ?_
  · intro l hl
    rcases List.mem_cons.mp hl with rfl | hl
    · exact Or.inr hkey
    · exact Or.inl hl
  · intro other n hne
    have hlink : (hub.subscribe key x).2 ≠ ⟨other, n⟩ := fun he => hne (congrArg Link.event he).symm
    rw [List.count_cons, beq_false_of_ne hlink]
    rfl
  · intro e he
    simp only [ChangeEvent.add, List.map_append, List.map_cons, List.map_nil, List.pairwise_append,
      List.pairwise_singleton, List.mem_singleton, true_and]
    refine ⟨h.ordered key e he, ?_⟩
    rintro a ha b rfl
    obtain ⟨y, hy, rfl⟩ := List.mem_map.mp ha
    exact h.below key e he y hy
  · intro e he y hy
    rcases List.mem_append.mp hy with hy | hy
    · exact Nat.lt_succ_of_lt (h.below key e he y hy)
    · obtain rfl := List.mem_singleton.mp hy
      exact Nat.lt_succ_self _
  · intro e he y hy
    rcases List.mem_append.mp hy with hy | hy
    · exact h.known key e he y hy
    · obtain rfl := List.mem_singleton.mp hy
      exact hx
  · intro e he n
    have hbalance := h.balance key e he n
    have hlink : (hub.subscribe key x).2 = ⟨key, e.next⟩ := by simp [Hub.subscribe, he]
    rw [hlink, List.cons_append, List.count_cons, hbalance]
    simp [ChangeEvent.add, List.count_cons]

/-- A link in hand that is released takes its handler along. -/
theorem unlink {l : Link Nat} (h : hub.Accounts fresh (l :: hand)) : (hub.unlink l).Accounts fresh hand := by
  refine h.modifyEvent (fun _ hl => Or.inl (List.mem_cons_of_mem _ hl)) ?_ ?_ ?_ ?_ ?_
  · intro other n hne
    have hlink : l ≠ ⟨other, n⟩ := fun he => hne (he ▸ rfl)
    rw [List.count_cons, beq_false_of_ne hlink]
    rfl
  · exact fun e he => (h.ordered _ e he).sublist (List.filter_sublist.map _)
  · exact fun e he x hx => h.below _ e he x (List.mem_filter.mp hx).1
  · exact fun e he x hx => h.known _ e he x (List.mem_filter.mp hx).1
  · intro e he n
    have hbalance := h.balance l.event e he n
    have hmap : ((e.remove l.handler).handlers.map (·.1)) = (e.handlers.map (·.1)).filter (· != l.handler) := by
      rw [List.filter_map]
      rfl
    rw [hmap]
    by_cases hn : n = l.handler
    · -- Its number stands for one handler only, so no other link has it.
      subst hn
      have hone : (e.handlers.map (·.1)).count l.handler ≤ 1 :=
        List.nodup_iff_count_le_one.mp ((h.ordered _ e he).imp Nat.ne_of_lt) _
      have hcons : (l :: hand ++ hub.links).count ⟨l.event, l.handler⟩ = (hand ++ hub.links).count ⟨l.event, l.handler⟩ + 1 :=
        List.count_cons_self
      have hzero : ((e.handlers.map (·.1)).filter (· != l.handler)).count l.handler = 0 :=
        List.count_eq_zero.mpr fun hmem => by simpa using (List.mem_filter.mp hmem).2
      omega
    · have hne : l ≠ ⟨l.event, n⟩ := fun hl => hn (congrArg Link.handler hl).symm
      rw [List.cons_append, List.count_cons, beq_false_of_ne hne] at hbalance
      rw [List.count_filter (by simpa using hn)]
      exact hbalance

theorem release {s : Subscription Nat} (h : hub.Accounts fresh (s ++ hand)) : (hub.release s).Accounts fresh hand := by
  unfold Hub.release
  induction s generalizing hub with
  | nil => exact h
  | cons l s ih => exact ih h.unlink

/-! ### Moving links -/

/-- The account does not ask where a link is held, as long as names and relays have one entry each. -/
theorem move {hub' : Hub Nat} {hand' : Subscription Nat} (h : hub.Accounts fresh hand) (events : hub'.events = hub.events)
    (names : (hub'.subscriptions.map (·.1)).Nodup) (relays : (hub'.feeds.map (·.1)).Nodup)
    (links : (hand' ++ hub'.links).Perm (hand ++ hub.links)) : hub'.Accounts fresh hand' := by
  have hevent : ∀ key, hub'.event? key = hub.event? key := fun key => congrArg (·.lookup key) events
  refine ⟨events ▸ h.keys, names, relays, events ▸ h.events, ?_, ?_, ?_, ?_, ?_, ?_⟩
  · exact fun l hl => h.links l (links.subset hl)
  · exact fun key e he => h.held key e (hevent key ▸ he)
  · exact fun key e he => h.ordered key e (hevent key ▸ he)
  · exact fun key e he => h.below key e (hevent key ▸ he)
  · exact fun key e he => h.known key e (hevent key ▸ he)
  · exact fun key e he n => (links.count_eq _).trans (h.balance key e (hevent key ▸ he) n)

theorem forget (h : hub.Accounts fresh hand) {name : String} {s : Subscription Nat} (hs : hub.subscription? name = some s) :
    (hub.forget name).Accounts fresh (s ++ hand) := by
  refine h.move rfl (h.names.sublist (List.filter_sublist.map _)) h.relays ?_
  refine (List.perm_append_comm.append_right _).trans ?_
  rw [List.append_assoc]
  exact (links_forget h.names hs).symm.append_left _

theorem dropNamed (h : hub.Accounts fresh hand) (name : String) : (hub.dropNamed name).Accounts fresh hand := by
  unfold Hub.dropNamed
  split
  · rename_i s hs
    exact (h.forget hs).release
  · exact h

theorem hold {s : Subscription Nat} (h : hub.Accounts fresh (s ++ hand)) (name : String) :
    (hub.hold name s).Accounts fresh hand := by
  have hdrop := h.dropNamed name
  have hfree : name ∉ (hub.dropNamed name).subscriptions.map (·.1) := by
    intro hmem
    obtain ⟨x, hx, hname⟩ := List.mem_map.mp hmem
    exact (mem_dropNamed hx).2 hname
  refine hdrop.move rfl (List.nodup_cons.mpr ⟨hfree, hdrop.names⟩) hdrop.relays ?_
  rw [Hub.hold, links_subscriptions, ← List.append_assoc]
  exact List.perm_append_comm.append_right _

theorem subscribeAs (h : hub.Accounts fresh hand) (name : String) {key : Nat} (hkey : key < fresh) {x : Handler Nat}
    (hx : KnownTo fresh x) : (hub.subscribeAs name key x).Accounts fresh hand := by
  have hsub := h.subscribe hkey hx
  exact Accounts.hold (s := [_]) hsub name

/-! ### Relays -/

theorem connect (h : hub.Accounts fresh hand) (relay : Nat) {source : Nat} (hsource : source < fresh) :
    (hub.connect relay source).Accounts fresh hand := by
  unfold Hub.connect
  split
  · exact h
  · rename_i hnone
    have hsub := h.subscribe hsource (x := .forward relay) nofun
    refine hsub.move rfl hsub.names (List.nodup_cons.mpr ⟨?_, h.relays⟩) ?_
    · intro hmem
      obtain ⟨x, hx, hkey⟩ := List.mem_map.mp hmem
      exact ne_of_lookup_eq_none hnone hx hkey
    · exact ((links_feeds relay _).append_left hand).trans List.perm_middle

theorem closeRelay (h : hub.Accounts fresh hand) (relay : Nat) : (hub.closeRelay relay).Accounts fresh hand := by
  have hclosed := h.closeEvent relay
  cases hl : hub.feeds.lookup relay with
  | none =>
    rw [closeRelay_of_unfed hl]
    exact hclosed
  | some l =>
    rw [closeRelay_of_fed hl]
    refine Accounts.unlink (hclosed.move rfl hclosed.names (h.relays.sublist (List.filter_sublist.map _)) ?_)
    have hlinks := @links_unfed Nat _ (hub.closeEvent relay) relay l h.relays hl
    exact List.perm_middle.symm.trans (hlinks.symm.append_left hand)

/-! ### Raising -/

theorem call {raise : Nat → Hub Nat → Hub Nat × List Signal}
    (keeps : ∀ key hub, hub.Accounts fresh hand → (raise key hub).1.Accounts fresh hand) {x : Handler Nat}
    (hx : KnownTo fresh x) (h : hub.Accounts fresh hand) : (hub.call raise x).1.Accounts fresh hand := by
  cases x with
  | note label => exact h
  | wake waiter => exact h
  | forward target => exact keeps target hub h
  | noteDropping label victim => exact h.dropNamed victim
  | noteAdding label added key => exact h.subscribeAs added (hx key (by simp [Handler.holds])) nofun

theorem callAll {raise : Nat → Hub Nat → Hub Nat × List Signal}
    (keeps : ∀ key hub, hub.Accounts fresh hand → (raise key hub).1.Accounts fresh hand) {handlers : List (Handler Nat)}
    (known : ∀ x ∈ handlers, KnownTo fresh x) (h : hub.Accounts fresh hand) :
    (hub.callAll raise handlers).1.Accounts fresh hand := by
  induction handlers generalizing hub with
  | nil => exact h
  | cons x handlers ih =>
    obtain ⟨hx, known⟩ := List.forall_mem_cons.mp known
    exact ih known (call keeps hx h)

theorem known_handlers (h : hub.Accounts fresh hand) {key : Nat} {e : ChangeEvent Nat} (he : hub.event? key = some e) :
    ∀ x ∈ e.handlers.map (·.2), KnownTo fresh x := by
  intro x hx
  obtain ⟨y, hy, rfl⟩ := List.mem_map.mp hx
  exact h.known key e he y hy

theorem raiseWithin (h : hub.Accounts fresh hand) (depth key : Nat) : (raiseWithin depth key hub).1.Accounts fresh hand := by
  induction depth generalizing key hub with
  | zero => exact h
  | succ depth ih =>
    unfold Hub.raiseWithin
    split
    · exact h
    · rename_i e he
      have known := h.known_handlers he
      dsimp only
      split
      · exact callAll (fun key hub h => ih h key) known h
      · exact (callAll (fun key hub h => ih h key) known (h.ownEvent key)).closeEvent key

theorem raise (h : hub.Accounts fresh hand) (key : Nat) : (hub.raise key).1.Accounts fresh hand := h.raiseWithin _ key

/-! ### What is left of an event -/

/-- Releasing a subscription takes exactly its own handlers from each event, and with them the events that
nobody else holds. -/
theorem event?_release {s : Subscription Nat} (h : hub.Accounts fresh (s ++ hand)) (key : Nat) :
    (hub.release s).event? key = (hub.event? key).bind fun e => kept key (e.without key s) := by
  unfold Hub.release
  induction s generalizing hub with
  | nil =>
    cases he : hub.event? key with
    | none => simp [he]
    | some e => simp [he, (kept_eq_some).mpr ⟨rfl, h.held key e he⟩]
  | cons l s ih =>
    rw [List.foldl_cons, ih h.unlink]
    by_cases hk : key = l.event
    · subst hk
      rw [Hub.unlink, event?_modifyEvent h.keys, Option.bind_assoc]
      refine congrArg _ (funext fun e => ?_)
      rw [ChangeEvent.without_cons_self]
      cases hr : kept l.event (e.remove l.handler) with
      | none => exact (kept_without_eq_none hr s).symm
      | some e' =>
        obtain ⟨rfl, -⟩ := kept_eq_some.mp hr
        rfl
    · rw [Hub.unlink, event?_modifyEvent_of_ne hk]
      refine congrArg _ (funext fun e => ?_)
      rw [ChangeEvent.without_cons_of_ne hk]

theorem event?_dropNamed (h : hub.Accounts fresh hand) {name : String} {s : Subscription Nat}
    (hs : hub.subscription? name = some s) (key : Nat) :
    (hub.dropNamed name).event? key = (hub.event? key).bind fun e => kept key (e.without key s) := by
  simp only [Hub.dropNamed, hs]
  exact (h.forget hs).event?_release key

/-! ### What the account says -/

theorem perm (h : hub.Accounts fresh []) {key : Nat} {e : ChangeEvent Nat} (he : hub.event? key = some e) :
    (hub.numbersTo key).Perm (e.handlers.map (·.1)) := by
  refine List.perm_iff_count.mpr fun n => ?_
  rw [count_numbersTo]
  exact h.balance key e he n

theorem observerCount (h : hub.Accounts fresh []) {key : Nat} {e : ChangeEvent Nat} (he : hub.event? key = some e) :
    hub.observerCount key = (hub.numbersTo key).length := by
  rw [(h.perm he).length_eq, List.length_map]
  simp [Hub.observerCount, he]

end Accounts
end Hub
end BlockScript
