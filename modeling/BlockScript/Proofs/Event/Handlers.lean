import BlockScript.Script.Evaluation
import Mathlib.Data.List.Nodup

/-!
A hub seen as a set of handlers: which events are open, and which handler an event has under which
number. In a tidy hub all events have owners and all handlers only tell or forward, so a number stands
for one handler, releasing links removes these handlers and no others, and a raise changes nothing.
-/
namespace BlockScript

/-- A handler that only tells or forwards. -/
def Handler.IsPlain {κ : Type} : Handler κ → Prop
  | .note _ => True
  | .wake _ => True
  | .forward _ => True
  | .noteDropping .. => False
  | .noteAdding .. => False

theorem Handler.IsPlain.holds_eq_false {κ : Type} [DecidableEq κ] {h : Handler κ} (plain : h.IsPlain) (key : κ) :
    h.holds key = false := by
  cases h <;> first | rfl | cases plain

namespace Hub

variable {κ : Type} [DecidableEq κ] {hub : Hub κ}

/-- The event of a key is there. -/
def IsOpen (hub : Hub κ) (key : κ) : Prop := (hub.event? key).isSome

/-- The event of a key has a handler under a number. -/
def Has (hub : Hub κ) (key : κ) (n : Nat) (h : Handler κ) : Prop :=
  ∃ e, hub.event? key = some e ∧ (n, h) ∈ e.handlers

theorem Has.isOpen {key : κ} {n : Nat} {h : Handler κ} (has : hub.Has key n h) : hub.IsOpen key := by
  obtain ⟨e, he, -⟩ := has
  simp [IsOpen, he]

/-- All events have owners, all handlers are plain, and their numbers grow in the order of
subscription. -/
structure Tidy (hub : Hub κ) : Prop where
  owned : ∀ x ∈ hub.events, x.2.owned = true
  plain : ∀ x ∈ hub.events, ∀ h ∈ x.2.handlers, h.2.IsPlain
  ordered : ∀ x ∈ hub.events, (x.2.handlers.map (·.1)).Pairwise (· < ·)
  below : ∀ x ∈ hub.events, ∀ h ∈ x.2.handlers, h.1 < x.2.next

theorem mem_of_event? {key : κ} {e : ChangeEvent κ} (h : hub.event? key = some e) : (key, e) ∈ hub.events := by
  obtain ⟨l₁, l₂, hl, -⟩ := List.lookup_eq_some_iff.mp h
  rw [hl]
  simp

omit [DecidableEq κ] in
theorem Tidy.of_events (tidy : hub.Tidy) {hub' : Hub κ} (h : hub'.events = hub.events) : hub'.Tidy :=
  ⟨fun x hx => tidy.owned x (h ▸ hx), fun x hx => tidy.plain x (h ▸ hx), fun x hx => tidy.ordered x (h ▸ hx),
    fun x hx => tidy.below x (h ▸ hx)⟩

/-- A number stands for one handler of an event. -/
theorem Tidy.has_unique (tidy : hub.Tidy) {key : κ} {n : Nat} {h h' : Handler κ} (a : hub.Has key n h)
    (b : hub.Has key n h') : h = h' := by
  obtain ⟨e, he, ha⟩ := a
  obtain ⟨e', he', hb⟩ := b
  rw [he] at he'
  cases he'
  have hnd : (e.handlers.map (·.1)).Nodup := (tidy.ordered _ (mem_of_event? he)).imp Nat.ne_of_lt
  exact congrArg (·.2) (List.inj_on_of_nodup_map hnd ha hb rfl)

/-! ### Changing one event -/

theorem event?_modifyEvent_of_ne {key other : κ} (hne : other ≠ key) (f : ChangeEvent κ → ChangeEvent κ) :
    (hub.modifyEvent key f).event? other = hub.event? other := by
  unfold modifyEvent event?
  induction hub.events with
  | nil => rfl
  | cons x l ih =>
    obtain ⟨k, e⟩ := x
    by_cases hk : k = key
    · subst hk
      have hk' : (other == k) = false := beq_false_of_ne hne
      by_cases held : (f e).isHeld k = true
      · simpa [Option.filter, held, List.lookup_cons, hk'] using ih
      · simpa [Option.filter, held, List.lookup_cons, hk'] using ih
    · simp only [List.filterMap_cons, hk, if_false, List.lookup_cons] at ih ⊢
      rw [ih]

/-- A change that leaves its event held changes just that event. -/
theorem event?_modifyEvent_self {key : κ} {f : ChangeEvent κ → ChangeEvent κ}
    (held : ∀ e, (key, e) ∈ hub.events → (f e).isHeld key = true) :
    (hub.modifyEvent key f).event? key = (hub.event? key).map f := by
  unfold modifyEvent event?
  revert held
  induction hub.events with
  | nil => intro _; rfl
  | cons x l ih =>
    intro held
    obtain ⟨k, e⟩ := x
    by_cases hk : k = key
    · subst hk
      have he := held e List.mem_cons_self
      simp [Option.filter, he]
    · have hne : (key == k) = false := beq_false_of_ne (Ne.symm hk)
      simp only [List.filterMap_cons, hk, if_false, List.lookup_cons, hne]
      exact ih fun e' he' => held e' (List.mem_cons_of_mem _ he')

theorem mem_modifyEvent {key : κ} {f : ChangeEvent κ → ChangeEvent κ} {x : κ × ChangeEvent κ}
    (hx : x ∈ (hub.modifyEvent key f).events) : x ∈ hub.events ∨ ∃ e, (key, e) ∈ hub.events ∧ x = (key, f e) := by
  obtain ⟨y, hy, hyx⟩ := List.mem_filterMap.mp hx
  split at hyx
  · rename_i hk
    obtain ⟨hyx, -⟩ := Option.filter_eq_some_iff.mp hyx
    cases hyx
    exact Or.inr ⟨y.2, by rw [← hk]; exact hy, by rw [hk]⟩
  · cases hyx
    exact Or.inl hy

/-- A hub stays tidy under a change that leaves the changed event tidy. -/
theorem Tidy.modifyEvent (tidy : hub.Tidy) {key : κ} {f : ChangeEvent κ → ChangeEvent κ}
    (hf : ∀ e, (key, e) ∈ hub.events → (f e).owned = true ∧ (∀ h ∈ (f e).handlers, h.2.IsPlain) ∧
      ((f e).handlers.map (·.1)).Pairwise (· < ·) ∧ ∀ h ∈ (f e).handlers, h.1 < (f e).next) :
    (hub.modifyEvent key f).Tidy where
  owned x hx := by
    rcases mem_modifyEvent hx with hx | ⟨e, he, rfl⟩
    · exact tidy.owned x hx
    · exact (hf e he).1
  plain x hx := by
    rcases mem_modifyEvent hx with hx | ⟨e, he, rfl⟩
    · exact tidy.plain x hx
    · exact (hf e he).2.1
  ordered x hx := by
    rcases mem_modifyEvent hx with hx | ⟨e, he, rfl⟩
    · exact tidy.ordered x hx
    · exact (hf e he).2.2.1
  below x hx := by
    rcases mem_modifyEvent hx with hx | ⟨e, he, rfl⟩
    · exact tidy.below x hx
    · exact (hf e he).2.2.2

/-! ### Subscribing and releasing -/

theorem isHeld_of_owned {key : κ} {e : ChangeEvent κ} (h : e.owned = true) : e.isHeld key = true := by
  simp [ChangeEvent.isHeld, h]

theorem Tidy.event?_subscribe (tidy : hub.Tidy) (key other : κ) (h : Handler κ) :
    (hub.subscribe key h).1.event? other =
      if other = key then (hub.event? key).map (·.add h) else hub.event? other := by
  by_cases hk : other = key
  · subst hk
    rw [if_pos rfl]
    exact event?_modifyEvent_self fun e he => isHeld_of_owned (tidy.owned _ he)
  · rw [if_neg hk]
    exact event?_modifyEvent_of_ne hk _

theorem Tidy.event?_unlink (tidy : hub.Tidy) (l : Link κ) (other : κ) :
    (hub.unlink l).event? other =
      if other = l.event then (hub.event? l.event).map (·.remove l.handler) else hub.event? other := by
  by_cases hk : other = l.event
  · subst hk
    rw [if_pos rfl]
    exact event?_modifyEvent_self fun e he => isHeld_of_owned (tidy.owned _ he)
  · rw [if_neg hk]
    exact event?_modifyEvent_of_ne hk _

theorem Tidy.subscribe (tidy : hub.Tidy) (key : κ) {h : Handler κ} (plain : h.IsPlain) :
    (hub.subscribe key h).1.Tidy := by
  show (hub.modifyEvent key (·.add h)).Tidy
  refine tidy.modifyEvent fun e he => ⟨tidy.owned _ he, ?_, ?_, ?_⟩
  · intro x hx
    rcases List.mem_append.mp hx with hx | hx
    · exact tidy.plain _ he x hx
    · obtain rfl := List.mem_singleton.mp hx
      exact plain
  · simp only [ChangeEvent.add, List.map_append, List.map_cons, List.map_nil, List.pairwise_append,
      List.pairwise_singleton, List.mem_singleton, true_and]
    refine ⟨tidy.ordered _ he, fun a ha b hb => ?_⟩
    subst hb
    obtain ⟨x, hx, rfl⟩ := List.mem_map.mp ha
    exact tidy.below _ he x hx
  · intro x hx
    rcases List.mem_append.mp hx with hx | hx
    · exact Nat.lt_succ_of_lt (tidy.below _ he x hx)
    · obtain rfl := List.mem_singleton.mp hx
      exact Nat.lt_succ_self _

theorem Tidy.unlink (tidy : hub.Tidy) (l : Link κ) : (hub.unlink l).Tidy := by
  show (hub.modifyEvent l.event (·.remove l.handler)).Tidy
  refine tidy.modifyEvent fun e he => ⟨tidy.owned _ he, ?_, ?_, ?_⟩
  · exact fun x hx => tidy.plain _ he x (List.mem_filter.mp hx).1
  · exact (tidy.ordered _ he).sublist (List.filter_sublist.map _)
  · exact fun x hx => tidy.below _ he x (List.mem_filter.mp hx).1

theorem Tidy.isOpen_subscribe (tidy : hub.Tidy) {key other : κ} {h : Handler κ} :
    (hub.subscribe key h).1.IsOpen other ↔ hub.IsOpen other := by
  unfold IsOpen
  rw [tidy.event?_subscribe]
  split
  · rename_i hk
    rw [hk, Option.isSome_map]
  · rfl

theorem Tidy.isOpen_unlink (tidy : hub.Tidy) {l : Link κ} {other : κ} :
    (hub.unlink l).IsOpen other ↔ hub.IsOpen other := by
  unfold IsOpen
  rw [tidy.event?_unlink]
  split
  · rename_i hk
    rw [hk, Option.isSome_map]
  · rfl

/-- Subscribing to an open event adds one handler, under the number of the link. -/
theorem Tidy.has_subscribe (tidy : hub.Tidy) {key other : κ} {h h' : Handler κ} {n : Nat} :
    (hub.subscribe key h).1.Has other n h' ↔
      hub.Has other n h' ∨ hub.IsOpen key ∧ h' = h ∧ (hub.subscribe key h).2 = ⟨other, n⟩ := by
  unfold Has IsOpen
  rw [tidy.event?_subscribe]
  by_cases hk : other = key
  · subst hk
    rw [if_pos rfl]
    cases he : hub.event? other with
    | none => simp
    | some e =>
      simp only [Option.map_some, Option.some.injEq, exists_eq_left', ChangeEvent.add, List.mem_append,
        List.mem_singleton, Prod.mk.injEq, Option.isSome_some, true_and, Hub.subscribe, he, Option.getD_some,
        Link.mk.injEq]
      exact or_congr Iff.rfl ⟨fun hn => ⟨hn.2, hn.1.symm⟩, fun hn => ⟨hn.2.symm, hn.1⟩⟩
  · rw [if_neg hk]
    refine ⟨Or.inl, fun hor => ?_⟩
    rcases hor with hor | ⟨-, -, hl⟩
    · exact hor
    · exact absurd (congrArg Link.event hl).symm hk

/-- Removing a link removes the handler under its number, and no other. -/
theorem Tidy.has_unlink (tidy : hub.Tidy) {l : Link κ} {key : κ} {n : Nat} {h : Handler κ} :
    (hub.unlink l).Has key n h ↔ hub.Has key n h ∧ l ≠ ⟨key, n⟩ := by
  unfold Has
  rw [tidy.event?_unlink]
  by_cases hk : key = l.event
  · subst hk
    rw [if_pos rfl]
    cases he : hub.event? l.event with
    | none => simp
    | some e =>
      have hl : l ≠ ⟨l.event, n⟩ ↔ n ≠ l.handler := not_congr
        ⟨fun h => (congrArg Link.handler h).symm, fun h => by rw [h]⟩
      simp [ChangeEvent.remove, List.mem_filter, hl]
  · rw [if_neg hk]
    refine ⟨fun hh => ⟨hh, fun hl => hk ?_⟩, And.left⟩
    rw [hl]

theorem Tidy.release (tidy : hub.Tidy) (s : Subscription κ) : (hub.release s).Tidy := by
  unfold Hub.release
  induction s generalizing hub with
  | nil => exact tidy
  | cons l s ih => exact ih (tidy.unlink l)

theorem Tidy.isOpen_release (tidy : hub.Tidy) {s : Subscription κ} {key : κ} :
    (hub.release s).IsOpen key ↔ hub.IsOpen key := by
  unfold Hub.release
  induction s generalizing hub with
  | nil => rfl
  | cons l s ih => exact (ih (tidy.unlink l)).trans tidy.isOpen_unlink

/-- Releasing links removes their handlers, and no others. -/
theorem Tidy.has_release (tidy : hub.Tidy) {s : Subscription κ} {key : κ} {n : Nat} {h : Handler κ} :
    (hub.release s).Has key n h ↔ hub.Has key n h ∧ ⟨key, n⟩ ∉ s := by
  unfold Hub.release
  induction s generalizing hub with
  | nil => simp
  | cons l s ih =>
    rw [List.foldl_cons, ih (tidy.unlink l), tidy.has_unlink, List.mem_cons, not_or, and_assoc, ne_comm]

@[simp] theorem release_feeds (s : Subscription κ) : (hub.release s).feeds = hub.feeds := by
  unfold Hub.release
  induction s generalizing hub with
  | nil => rfl
  | cons l s ih => exact ih

@[simp] theorem release_subscriptions (s : Subscription κ) :
    (hub.release s).subscriptions = hub.subscriptions := by
  unfold Hub.release
  induction s generalizing hub with
  | nil => rfl
  | cons l s ih => exact ih

@[simp] theorem subscribeAll_feeds (keys : List κ) (h : Handler κ) :
    (hub.subscribeAll keys h).1.feeds = hub.feeds := by
  induction keys generalizing hub with
  | nil => rfl
  | cons key keys ih => exact ih

@[simp] theorem subscribeAll_subscriptions (keys : List κ) (h : Handler κ) :
    (hub.subscribeAll keys h).1.subscriptions = hub.subscriptions := by
  induction keys generalizing hub with
  | nil => rfl
  | cons key keys ih => exact ih

theorem subscribeAll_events (keys : List κ) (h : Handler κ) :
    (hub.subscribeAll keys h).2.map (·.event) = keys := by
  induction keys generalizing hub with
  | nil => rfl
  | cons key keys ih =>
    show key :: ((hub.subscribe key h).1.subscribeAll keys h).2.map (·.event) = key :: keys
    rw [ih]

theorem Tidy.subscribeAll (tidy : hub.Tidy) (keys : List κ) {h : Handler κ} (plain : h.IsPlain) :
    (hub.subscribeAll keys h).1.Tidy := by
  induction keys generalizing hub with
  | nil => exact tidy
  | cons key keys ih => exact ih (tidy.subscribe key plain)

theorem Tidy.isOpen_subscribeAll (tidy : hub.Tidy) {keys : List κ} {h : Handler κ} (plain : h.IsPlain) {other : κ} :
    (hub.subscribeAll keys h).1.IsOpen other ↔ hub.IsOpen other := by
  induction keys generalizing hub with
  | nil => rfl
  | cons key keys ih => exact (ih (tidy.subscribe key plain)).trans tidy.isOpen_subscribe

/-- Subscribing to several events adds the handler once for each link to an open one. -/
theorem Tidy.has_subscribeAll (tidy : hub.Tidy) {keys : List κ} {h h' : Handler κ} (plain : h.IsPlain) {key : κ}
    {n : Nat} :
    (hub.subscribeAll keys h).1.Has key n h' ↔
      hub.Has key n h' ∨ hub.IsOpen key ∧ h' = h ∧ ⟨key, n⟩ ∈ (hub.subscribeAll keys h).2 := by
  induction keys generalizing hub with
  | nil => simp [Hub.subscribeAll]
  | cons k keys ih =>
    show ((hub.subscribe k h).1.subscribeAll keys h).1.Has key n h' ↔
      hub.Has key n h' ∨ hub.IsOpen key ∧ h' = h ∧
        ⟨key, n⟩ ∈ (hub.subscribe k h).2 :: ((hub.subscribe k h).1.subscribeAll keys h).2
    rw [ih (tidy.subscribe k plain), tidy.has_subscribe, tidy.isOpen_subscribe, List.mem_cons, or_assoc]
    refine or_congr_right ⟨fun hor => ?_, fun ⟨ho, hh, hor⟩ => ?_⟩
    · rcases hor with ⟨ho, hh, hl⟩ | ⟨ho, hh, hl⟩
      · have hk : k = key := congrArg Link.event hl
        exact ⟨hk ▸ ho, hh, Or.inl hl.symm⟩
      · exact ⟨ho, hh, Or.inr hl⟩
    · rcases hor with hl | hl
      · have hk : key = k := congrArg Link.event hl
        exact Or.inl ⟨hk ▸ ho, hh, hl.symm⟩
      · exact Or.inr ⟨ho, hh, hl⟩

theorem Tidy.fresh_subscribe (tidy : hub.Tidy) (key : κ) (h : Handler κ) {h' : Handler κ} :
    ¬ hub.Has (hub.subscribe key h).2.event (hub.subscribe key h).2.handler h' := by
  rintro ⟨e, he, hmem⟩
  have hnext : (hub.subscribe key h).2.handler = e.next := by
    have he : hub.event? key = some e := he
    simp [Hub.subscribe, he]
  have hlt := tidy.below _ (mem_of_event? he) _ hmem
  exact absurd hlt (Nat.not_lt.mpr (Nat.le_of_eq hnext.symm))

theorem Tidy.fresh_subscribeAll (tidy : hub.Tidy) {keys : List κ} {h h' : Handler κ} (plain : h.IsPlain) {l : Link κ}
    (hl : l ∈ (hub.subscribeAll keys h).2) : ¬ hub.Has l.event l.handler h' := by
  induction keys generalizing hub with
  | nil => cases hl
  | cons key keys ih =>
    rcases List.mem_cons.mp hl with rfl | hl
    · exact tidy.fresh_subscribe key h
    · exact fun has => ih (tidy.subscribe key plain) hl (tidy.has_subscribe.mpr (Or.inl has))

/-! ### Opening and closing -/

theorem event?_openEvent (key other : κ) :
    (hub.openEvent key).event? other = if other = key then some .fresh else hub.event? other := by
  by_cases hk : other = key
  · subst hk
    simp [Hub.openEvent, event?]
  · have hk' : (other == key) = false := beq_false_of_ne hk
    simp [Hub.openEvent, event?, List.lookup_cons, hk, hk']

omit [DecidableEq κ] in
theorem Tidy.openEvent (tidy : hub.Tidy) (key : κ) : (hub.openEvent key).Tidy where
  owned x hx := by
    rcases List.mem_cons.mp hx with rfl | hx
    · rfl
    · exact tidy.owned x hx
  plain x hx := by
    rcases List.mem_cons.mp hx with rfl | hx
    · simp [ChangeEvent.fresh]
    · exact tidy.plain x hx
  ordered x hx := by
    rcases List.mem_cons.mp hx with rfl | hx
    · simp [ChangeEvent.fresh]
    · exact tidy.ordered x hx
  below x hx := by
    rcases List.mem_cons.mp hx with rfl | hx
    · simp [ChangeEvent.fresh]
    · exact tidy.below x hx

theorem isOpen_openEvent {key other : κ} : (hub.openEvent key).IsOpen other ↔ other = key ∨ hub.IsOpen other := by
  unfold IsOpen
  rw [event?_openEvent]
  split <;> simp_all

theorem has_openEvent {key other : κ} {n : Nat} {h : Handler κ} :
    (hub.openEvent key).Has other n h ↔ other ≠ key ∧ hub.Has other n h := by
  unfold Has
  rw [event?_openEvent]
  split
  · rename_i hk
    simp [hk, ChangeEvent.fresh]
  · rename_i hk
    simp [hk]

/-! ### Several new events -/

/-- Opens events in order. -/
def openAll (hub : Hub κ) (keys : List κ) : Hub κ := keys.foldl openEvent hub

omit [DecidableEq κ] in
theorem Tidy.openAll (tidy : hub.Tidy) (keys : List κ) : (hub.openAll keys).Tidy := by
  induction keys generalizing hub with
  | nil => exact tidy
  | cons key keys ih => exact ih (tidy.openEvent key)

omit [DecidableEq κ] in
theorem openAll_feeds (keys : List κ) : (hub.openAll keys).feeds = hub.feeds := by
  induction keys generalizing hub with
  | nil => rfl
  | cons key keys ih => exact ih

omit [DecidableEq κ] in
theorem openAll_subscriptions (keys : List κ) : (hub.openAll keys).subscriptions = hub.subscriptions := by
  induction keys generalizing hub with
  | nil => rfl
  | cons key keys ih => exact ih

theorem isOpen_openAll {keys : List κ} {key : κ} : (hub.openAll keys).IsOpen key ↔ key ∈ keys ∨ hub.IsOpen key := by
  induction keys generalizing hub with
  | nil => simp [openAll]
  | cons k keys ih => rw [openAll, List.foldl_cons, ← openAll, ih, isOpen_openEvent, List.mem_cons, or_left_comm, or_assoc]

theorem has_openAll {keys : List κ} {key : κ} {n : Nat} {h : Handler κ} :
    (hub.openAll keys).Has key n h ↔ key ∉ keys ∧ hub.Has key n h := by
  induction keys generalizing hub with
  | nil => simp [openAll]
  | cons k keys ih =>
    rw [openAll, List.foldl_cons, ← openAll, ih, has_openEvent, List.mem_cons]
    tauto

/-! ### Closing -/

/-- An event of a tidy hub goes when its owner lets go of it: no handler holds it. -/
theorem Tidy.mem_closeEvent (tidy : hub.Tidy) {key : κ} {x : κ × ChangeEvent κ}
    (hx : x ∈ (hub.closeEvent key).events) : x ∈ hub.events ∧ x.1 ≠ key := by
  obtain ⟨y, hy, hyx⟩ := List.mem_filterMap.mp hx
  split at hyx
  · have hnone : y.2.handlers.any (fun h => h.2.holds key) = false :=
      List.any_eq_false.mpr fun h hh => by rw [(tidy.plain y hy h hh).holds_eq_false]; exact Bool.false_ne_true
    simp [Option.filter, ChangeEvent.isHeld, hnone] at hyx
  · rename_i hne
    cases hyx
    exact ⟨hy, hne⟩

theorem Tidy.event?_closeEvent (tidy : hub.Tidy) (key other : κ) :
    (hub.closeEvent key).event? other = if other = key then none else hub.event? other := by
  by_cases hk : other = key
  · subst hk
    rw [if_pos rfl]
    exact List.lookup_eq_none_iff.mpr fun x hx => bne_iff_ne.mpr (tidy.mem_closeEvent hx).2.symm
  · rw [if_neg hk]
    exact event?_modifyEvent_of_ne hk _

theorem Tidy.closeEvent (tidy : hub.Tidy) (key : κ) : (hub.closeEvent key).Tidy where
  owned x hx := tidy.owned x (tidy.mem_closeEvent hx).1
  plain x hx := tidy.plain x (tidy.mem_closeEvent hx).1
  ordered x hx := tidy.ordered x (tidy.mem_closeEvent hx).1
  below x hx := tidy.below x (tidy.mem_closeEvent hx).1

theorem Tidy.isOpen_closeEvent (tidy : hub.Tidy) {key other : κ} :
    (hub.closeEvent key).IsOpen other ↔ other ≠ key ∧ hub.IsOpen other := by
  unfold IsOpen
  rw [tidy.event?_closeEvent]
  split <;> simp_all

theorem Tidy.has_closeEvent (tidy : hub.Tidy) {key other : κ} {n : Nat} {h : Handler κ} :
    (hub.closeEvent key).Has other n h ↔ other ≠ key ∧ hub.Has other n h := by
  unfold Has
  rw [tidy.event?_closeEvent]
  split <;> simp_all

/-! ### Feeding relays -/

theorem lookup_filter_ne {α : Type} (l : List (κ × α)) (key other : κ) :
    (l.filter (·.1 != key)).lookup other = if other = key then none else l.lookup other := by
  induction l with
  | nil => simp
  | cons x l ih =>
    obtain ⟨k, a⟩ := x
    by_cases hk : k = key
    · subst hk
      by_cases ho : other = k
      · simpa [ho] using ih
      · simpa [ho, List.lookup_cons, beq_false_of_ne ho] using ih
    · by_cases ho : other = k
      · subst ho
        simp [hk]
      · simpa [hk, List.lookup_cons, beq_false_of_ne ho] using ih

theorem Tidy.connect (tidy : hub.Tidy) (relay source : κ) : (hub.connect relay source).Tidy := by
  unfold Hub.connect
  split
  · exact tidy
  · have plain : (Handler.forward relay).IsPlain := trivial
    exact (tidy.subscribe source plain).of_events rfl

theorem Tidy.isOpen_connect (tidy : hub.Tidy) {relay source key : κ} :
    (hub.connect relay source).IsOpen key ↔ hub.IsOpen key := by
  unfold Hub.connect
  split
  · rfl
  · exact tidy.isOpen_subscribe

@[simp] theorem connect_subscriptions (relay source : κ) :
    (hub.connect relay source).subscriptions = hub.subscriptions := by
  unfold Hub.connect
  split <;> rfl

theorem Tidy.has_connect (tidy : hub.Tidy) {relay source key : κ} {n : Nat} {h : Handler κ} :
    (hub.connect relay source).Has key n h ↔
      hub.Has key n h ∨ hub.feeds.lookup relay = none ∧ hub.IsOpen source ∧ h = .forward relay ∧
        (hub.subscribe source (.forward relay)).2 = ⟨key, n⟩ := by
  unfold Hub.connect
  split
  · rename_i l hl
    simp [hl]
  · rename_i hl
    rw [and_iff_right hl]
    exact tidy.has_subscribe

theorem lookup_connect (relay source other : κ) :
    (hub.connect relay source).feeds.lookup other =
      if other = relay then some ((hub.feeds.lookup relay).getD (hub.subscribe source (.forward relay)).2)
      else hub.feeds.lookup other := by
  unfold Hub.connect
  by_cases ho : other = relay
  · subst ho
    split
    · rename_i l hl
      simp [hl]
    · rename_i hl
      simp [hl]
  · split
    · simp [ho]
    · simp [ho, List.lookup_cons, beq_false_of_ne ho]
      rfl

theorem closeRelay_of_fed {relay : κ} {l : Link κ} (h : hub.feeds.lookup relay = some l) :
    hub.closeRelay relay =
      (Hub.mk (hub.closeEvent relay).events hub.subscriptions (hub.feeds.filter (·.1 != relay))).unlink l := by
  have h' : (hub.closeEvent relay).feeds.lookup relay = some l := h
  simp only [Hub.closeRelay, h']
  rfl

theorem closeRelay_of_unfed {relay : κ} (h : hub.feeds.lookup relay = none) :
    hub.closeRelay relay = hub.closeEvent relay := by
  have h' : (hub.closeEvent relay).feeds.lookup relay = none := h
  simp only [Hub.closeRelay, h']

theorem Tidy.unfed (tidy : hub.Tidy) (relay : κ) :
    (Hub.mk (hub.closeEvent relay).events hub.subscriptions (hub.feeds.filter (·.1 != relay))).Tidy :=
  (tidy.closeEvent relay).of_events rfl

theorem Tidy.closeRelay (tidy : hub.Tidy) (relay : κ) : (hub.closeRelay relay).Tidy := by
  cases hl : hub.feeds.lookup relay with
  | none => rw [closeRelay_of_unfed hl]; exact tidy.closeEvent relay
  | some l => rw [closeRelay_of_fed hl]; exact (tidy.unfed relay).unlink l

theorem Tidy.isOpen_closeRelay (tidy : hub.Tidy) {relay key : κ} :
    (hub.closeRelay relay).IsOpen key ↔ key ≠ relay ∧ hub.IsOpen key := by
  rw [← tidy.isOpen_closeEvent]
  cases hl : hub.feeds.lookup relay with
  | none => rw [closeRelay_of_unfed hl]
  | some l => rw [closeRelay_of_fed hl, (tidy.unfed relay).isOpen_unlink]; rfl

/-- With a relay goes the handler that feeds it. -/
theorem Tidy.has_closeRelay (tidy : hub.Tidy) {relay key : κ} {n : Nat} {h : Handler κ} :
    (hub.closeRelay relay).Has key n h ↔
      key ≠ relay ∧ hub.Has key n h ∧ hub.feeds.lookup relay ≠ some ⟨key, n⟩ := by
  rw [← and_assoc, ← tidy.has_closeEvent]
  cases hl : hub.feeds.lookup relay with
  | none => simp [closeRelay_of_unfed hl]
  | some l =>
    rw [closeRelay_of_fed hl, (tidy.unfed relay).has_unlink, ne_eq, ne_eq, Option.some.injEq]
    rfl

theorem lookup_closeRelay (relay other : κ) :
    (hub.closeRelay relay).feeds.lookup other = if other = relay then none else hub.feeds.lookup other := by
  cases hl : hub.feeds.lookup relay with
  | none =>
    rw [closeRelay_of_unfed hl]
    split
    · rename_i ho
      rw [ho]
      exact hl
    · rfl
  | some l =>
    rw [closeRelay_of_fed hl]
    exact lookup_filter_ne _ _ _

@[simp] theorem closeRelay_subscriptions (relay : κ) : (hub.closeRelay relay).subscriptions = hub.subscriptions := by
  cases hl : hub.feeds.lookup relay with
  | none => rw [closeRelay_of_unfed hl]; rfl
  | some l => rw [closeRelay_of_fed hl]; rfl

/-! ### Subscriptions under names -/

omit [DecidableEq κ] in
theorem Tidy.forget (tidy : hub.Tidy) (name : String) : (hub.forget name).Tidy := tidy.of_events rfl

theorem mem_dropNamed {name : String} {x : String × Subscription κ}
    (hx : x ∈ (hub.dropNamed name).subscriptions) : x ∈ hub.subscriptions ∧ x.1 ≠ name := by
  unfold Hub.dropNamed at hx
  split at hx
  · rw [release_subscriptions] at hx
    obtain ⟨hx, hn⟩ := List.mem_filter.mp hx
    exact ⟨hx, bne_iff_ne.mp hn⟩
  · rename_i hnone
    refine ⟨hx, fun hn => ?_⟩
    have := List.lookup_eq_none_iff.mp hnone x hx
    simp [hn] at this

theorem Tidy.has_dropNamed (tidy : hub.Tidy) {name : String} {key : κ} {n : Nat} {h : Handler κ} :
    (hub.dropNamed name).Has key n h ↔
      hub.Has key n h ∧ ∀ s, hub.subscription? name = some s → ⟨key, n⟩ ∉ s := by
  unfold Hub.dropNamed
  split
  · rename_i s hs
    simp only [hs, Option.some.injEq, forall_eq']
    exact (tidy.forget name).has_release
  · rename_i hs
    simp [hs]

/-! ### Raising -/

/-- Calls that leave the hub as it is tell one after the other what each of them tells. -/
theorem callAll_of_still {raise : κ → Hub κ → Hub κ × List Signal} {handlers : List (Handler κ)}
    (still : ∀ h ∈ handlers, (hub.call raise h).1 = hub) :
    hub.callAll raise handlers = (hub, handlers.flatMap fun h => (hub.call raise h).2) := by
  induction handlers with
  | nil => rfl
  | cons h handlers ih =>
    have hcall := still h List.mem_cons_self
    have ih := ih fun h' hh' => still h' (List.mem_cons_of_mem _ hh')
    simp only [callAll, hcall, ih, List.flatMap_cons]

theorem call_plain {raise : κ → Hub κ → Hub κ × List Signal} {h : Handler κ} (plain : h.IsPlain)
    (still : ∀ key, h = .forward key → (raise key hub).1 = hub) : (hub.call raise h).1 = hub := by
  cases h with
  | note label => rfl
  | wake waiter => rfl
  | forward target => exact still target rfl
  | noteDropping label victim => cases plain
  | noteAdding label added key => cases plain

theorem callAll_plain {raise : κ → Hub κ → Hub κ × List Signal} (still : ∀ key, (raise key hub).1 = hub)
    {handlers : List (Handler κ)} (plain : ∀ h ∈ handlers, h.IsPlain) :
    hub.callAll raise handlers = (hub, handlers.flatMap fun h => (hub.call raise h).2) :=
  callAll_of_still fun h hh => call_plain (plain h hh) fun key _ => still key

/-- A raise in a tidy hub changes nothing and calls the handlers of the event. -/
theorem Tidy.raiseWithin_succ (tidy : hub.Tidy) {depth : Nat} (still : ∀ key, (raiseWithin depth key hub).1 = hub)
    (key : κ) :
    raiseWithin (depth + 1) key hub = (hub, match hub.event? key with
      | none => []
      | some e => e.handlers.flatMap fun h => (hub.call (raiseWithin depth) h.2).2) := by
  unfold raiseWithin
  cases he : hub.event? key with
  | none => rfl
  | some e =>
    have hmem := mem_of_event? he
    have plain : ∀ h ∈ e.handlers.map (·.2), h.IsPlain := by
      intro h hh
      obtain ⟨x, hx, rfl⟩ := List.mem_map.mp hh
      exact tidy.plain _ hmem x hx
    have owned : e.owned = true := tidy.owned _ hmem
    simp only [owned, if_true, callAll_plain still plain, List.flatMap_map]

theorem Tidy.raiseWithin_hub (tidy : hub.Tidy) (depth : Nat) : ∀ key, (raiseWithin depth key hub).1 = hub := by
  induction depth with
  | zero => intro key; rfl
  | succ depth ih => intro key; rw [tidy.raiseWithin_succ ih]

theorem Tidy.raise_hub (tidy : hub.Tidy) (key : κ) : (hub.raise key).1 = hub := tidy.raiseWithin_hub _ key

theorem Tidy.mem_raiseWithin_succ (tidy : hub.Tidy) {depth : Nat} {key : κ} {x : Signal} :
    x ∈ (raiseWithin (depth + 1) key hub).2 ↔ ∃ n h, hub.Has key n h ∧ x ∈ (hub.call (raiseWithin depth) h).2 := by
  rw [tidy.raiseWithin_succ (tidy.raiseWithin_hub depth)]
  unfold Has
  cases he : hub.event? key with
  | none => simp
  | some e =>
    simp only [List.mem_flatMap, Prod.exists, Option.some.injEq, exists_eq_left']

/-- Only handlers wake. -/
theorem Tidy.has_of_wake (tidy : hub.Tidy) {waiter depth : Nat} :
    ∀ {key : κ}, .wake waiter ∈ (raiseWithin depth key hub).2 → ∃ key n, hub.Has key n (.wake waiter) := by
  induction depth with
  | zero => intro key h; cases h
  | succ depth ih =>
    intro key h
    obtain ⟨n, handler, has, hx⟩ := tidy.mem_raiseWithin_succ.mp h
    cases handler with
    | note label => simp [call] at hx
    | wake w =>
      simp only [call, List.mem_singleton, Signal.wake.injEq] at hx
      exact ⟨key, n, hx ▸ has⟩
    | forward target => exact ih hx
    | noteDropping label victim => simp [call] at hx
    | noteAdding label added k => simp [call] at hx

theorem one_le_handlerCount {key : κ} {n : Nat} {h : Handler κ} (has : hub.Has key n h) : 1 ≤ hub.handlerCount := by
  obtain ⟨e, he, hh⟩ := has
  exact List.length_pos_of_mem (List.mem_flatMap.mpr ⟨(key, e), mem_of_event? he, hh⟩)

theorem one_le_events {key : κ} (hopen : hub.IsOpen key) : 1 ≤ hub.events.length := by
  obtain ⟨e, he⟩ := Option.isSome_iff_exists.mp hopen
  exact List.length_pos_of_mem (mem_of_event? he)

/-- A change of an event wakes who listens to a relay that it feeds. -/
theorem Tidy.wake_of_raise (tidy : hub.Tidy) {source relay : κ} {m n waiter : Nat}
    (feed : hub.Has source m (.forward relay)) (listens : hub.Has relay n (.wake waiter)) :
    .wake waiter ∈ (hub.raise source).2 := by
  -- The bound on the depth leaves room for the source and the relay behind it.
  have hdepth : 2 ≤ hub.events.length * (hub.handlerCount + 1) :=
    Nat.mul_le_mul (one_le_events feed.isOpen) (Nat.succ_le_succ (one_le_handlerCount feed))
  obtain ⟨depth, hd⟩ := Nat.exists_eq_add_of_le hdepth
  unfold raise
  rw [hd, Nat.add_comm]
  refine tidy.mem_raiseWithin_succ.mpr ⟨m, _, feed, ?_⟩
  exact tidy.mem_raiseWithin_succ.mpr ⟨n, _, listens, List.mem_singleton_self _⟩

end Hub
end BlockScript
