import BlockScript.Proofs.Event.Forwarding
import BlockScript.Proofs.Event.Raising

/-!
How deep raises go. What is added while an event is raised does not forward, so the ways that a change can take only
become fewer. Where none of them comes back to an event that it left, raises go no deeper than there are events, whatever
handlers drop and add meanwhile; so the bound on their depth leaves nothing out.
-/
namespace BlockScript
namespace Hub

variable {fresh : Nat} {hub hub' : Hub Nat}

/-! ### The raise of one event -/

/-- The raise of an open event: it is held, and its handlers are called. -/
theorem raiseWithin_of_open {key : Nat} {e : ChangeEvent Nat} (he : hub.event? key = some e) (depth : Nat) :
    raiseWithin (depth + 1) key hub =
      let called := (if e.owned then hub else hub.ownEvent key).callAll (raiseWithin depth) (e.handlers.map (·.2))
      (if e.owned then called.1 else called.1.closeEvent key, called.2) := by
  simp only [raiseWithin, he]
  split <;> rfl

theorem raiseWithin_of_gone {key : Nat} (he : hub.event? key = none) (depth : Nat) :
    raiseWithin depth key hub = (hub, []) := by
  cases depth with
  | zero => rfl
  | succ depth => simp only [raiseWithin, he]

/-! ### What becomes of forwarding -/

/-- Events and handlers may go, and handlers may come that do not forward. -/
abbrev Narrows (fresh : Nat) (hub hub' : Hub Nat) : Prop := hub.Evolves (·.target? = none) fresh hub'

/-- A way to raise events under which forwarding only narrows. -/
structure Subsides (fresh : Nat) (raise : Nat → Hub Nat → Hub Nat × List Signal) : Prop where
  accounts : ∀ (key : Nat) (hub : Hub Nat), hub.Accounts fresh [] → (raise key hub).1.Accounts fresh []
  narrows : ∀ (key : Nat) (hub : Hub Nat), hub.Accounts fresh [] → hub.Narrows fresh (raise key hub).1

section
variable {raise : Nat → Hub Nat → Hub Nat × List Signal}

theorem Subsides.call (subsides : Subsides fresh raise) (accounts : hub.Accounts fresh []) (x : Handler Nat) :
    hub.Narrows fresh (hub.call raise x).1 := by
  cases x with
  | note label => exact .refl hub
  | wake waiter => exact .refl hub
  | forward target => exact subsides.narrows target hub accounts
  | noteDropping label victim => exact evolves_dropNamed accounts.keys victim
  | noteAdding label added key => exact evolves_subscribeAs accounts.keys added key rfl

theorem Subsides.callAll (subsides : Subsides fresh raise) {handlers : List (Handler Nat)}
    (known : ∀ x ∈ handlers, KnownTo fresh x) (accounts : hub.Accounts fresh []) :
    hub.Narrows fresh (hub.callAll raise handlers).1 := by
  induction handlers generalizing hub with
  | nil => exact .refl hub
  | cons x handlers ih =>
    obtain ⟨hx, known⟩ := List.forall_mem_cons.mp known
    exact (subsides.call accounts x).andThen (ih known (accounts.call subsides.accounts hx))

end

theorem subsides_raiseWithin (depth : Nat) : Subsides fresh (raiseWithin depth) := by
  induction depth with
  | zero => exact ⟨fun _ _ accounts => accounts, fun _ hub _ => .refl hub⟩
  | succ depth ih =>
    refine ⟨fun key hub accounts => accounts.raiseWithin (depth + 1) key, fun key hub accounts => ?_⟩
    cases he : hub.event? key with
    | none =>
      rw [raiseWithin_of_gone he]
      exact .refl hub
    | some e =>
      have known := accounts.known_handlers he
      rw [raiseWithin_of_open he]
      dsimp only
      split
      · exact ih.callAll known accounts
      · have owned : (hub.ownEvent key).Accounts fresh [] := accounts.ownEvent key
        have called : hub.Narrows fresh ((hub.ownEvent key).callAll (raiseWithin depth) (e.handlers.map (·.2))).1 :=
          (evolves_setOwned accounts.keys key true).andThen (ih.callAll known owned)
        exact called.andThen (evolves_setOwned (owned.callAll ih.accounts known).keys key false)

/-! ### Depth -/

/-- No path from an event meets that many events. -/
def EndsWithin (hub : Hub Nat) (n key : Nat) : Prop := ∀ path target, hub.Path key path target → path.length < n

theorem Narrows.exists_path (narrows : hub.Narrows fresh hub') (accounts : hub'.Accounts fresh []) {a b : Nat}
    {path : List Nat} (h : hub'.Path a path b) : ∃ path', hub.Path a path' b ∧ path'.length = path.length := by
  induction h with
  | @here key isOpen =>
    obtain ⟨e', he'⟩ := Option.isSome_iff_exists.mp isOpen
    obtain ⟨e, he, -⟩ := narrows key (accounts.events _ (mem_of_event? he')) e' he'
    exact ⟨[], .here (Option.isSome_iff_exists.mpr ⟨e, he⟩), rfl⟩
  | @there a b c i path link rest ih =>
    obtain ⟨path', hpath, hlength⟩ := ih
    obtain ⟨e', he'⟩ := Option.isSome_iff_exists.mp (isOpen_of_handlerAt link)
    obtain ⟨e, he, -, old⟩ := narrows a (accounts.events _ (mem_of_event? he')) e' he'
    rw [handlerAt, handlersOf_eq he'] at link
    obtain ⟨x, hx, hforward⟩ := List.mem_map.mp (List.mem_of_getElem? link)
    have hold : x ∈ e.handlers := by
      rcases old x hx with hold | ⟨-, hnew⟩
      · exact hold
      · rw [hforward] at hnew
        cases hnew
    have hmem : .forward b ∈ hub.handlersOf a := handlersOf_eq he ▸ List.mem_map.mpr ⟨x, hold, hforward⟩
    obtain ⟨j, hj⟩ := exists_handlerAt hmem
    exact ⟨j :: path', .there hj hpath, congrArg Nat.succ hlength⟩

theorem Narrows.endsWithin (narrows : hub.Narrows fresh hub') (accounts : hub'.Accounts fresh []) {n key : Nat}
    (ends : hub.EndsWithin n key) : hub'.EndsWithin n key := by
  intro path target h
  obtain ⟨path', hpath, hlength⟩ := narrows.exists_path accounts h
  exact hlength ▸ ends path' target hpath

theorem EndsWithin.behind {n key target : Nat} (ends : hub.EndsWithin (n + 1) key)
    (link : .forward target ∈ hub.handlersOf key) : hub.EndsWithin n target := by
  intro path f h
  obtain ⟨i, hi⟩ := exists_handlerAt link
  exact Nat.lt_of_succ_lt_succ (ends (i :: path) f (.there hi h))

/-- Handlers are called alike if the events that they forward to are raised alike, whatever has been dropped and added
by then. -/
theorem Subsides.callAll_congr {raise raise' : Nat → Hub Nat → Hub Nat × List Signal} (subsides : Subsides fresh raise)
    {handlers : List (Handler Nat)} (known : ∀ x ∈ handlers, KnownTo fresh x) (accounts : hub.Accounts fresh [])
    (same : ∀ hub', hub'.Accounts fresh [] → hub.Narrows fresh hub' →
      ∀ target, .forward target ∈ handlers → raise target hub' = raise' target hub') :
    hub.callAll raise handlers = hub.callAll raise' handlers := by
  induction handlers generalizing hub with
  | nil => rfl
  | cons x handlers ih =>
    obtain ⟨hx, known⟩ := List.forall_mem_cons.mp known
    have hcall : hub.call raise x = hub.call raise' x := by
      cases x with
      | forward target => exact same hub accounts (.refl hub) target List.mem_cons_self
      | _ => rfl
    have hrest := ih known (accounts.call subsides.accounts hx) fun hub' accounts' narrows target htarget =>
      same hub' accounts' ((subsides.call accounts x).andThen narrows) target (List.mem_cons_of_mem _ htarget)
    simp only [Hub.callAll]
    rw [hrest, hcall]

/-- Once the depth covers all paths from an event, more of it changes nothing. -/
theorem EndsWithin.raiseWithin_eq {n key depth depth' : Nat} (ends : hub.EndsWithin n key)
    (accounts : hub.Accounts fresh []) (hd : n ≤ depth) (hd' : n ≤ depth') :
    raiseWithin depth key hub = raiseWithin depth' key hub := by
  induction n generalizing key depth depth' hub with
  | zero =>
    have gone : hub.event? key = none := Option.eq_none_iff_forall_ne_some.mpr fun e he =>
      Nat.not_lt_zero _ (ends [] key (.here (Option.isSome_iff_exists.mpr ⟨e, he⟩)))
    rw [raiseWithin_of_gone gone, raiseWithin_of_gone gone]
  | succ n ih =>
    obtain ⟨depth, rfl⟩ := Nat.exists_eq_add_of_le' (Nat.le_trans (Nat.succ_pos n) hd)
    obtain ⟨depth', rfl⟩ := Nat.exists_eq_add_of_le' (Nat.le_trans (Nat.succ_pos n) hd')
    cases he : hub.event? key with
    | none => rw [raiseWithin_of_gone he, raiseWithin_of_gone he]
    | some e =>
      have same : ∀ hub', hub'.Accounts fresh [] → hub.Narrows fresh hub' → ∀ target,
          .forward target ∈ e.handlers.map (·.2) → raiseWithin depth target hub' = raiseWithin depth' target hub' := by
        intro hub' accounts' narrows target htarget
        have behind : hub.EndsWithin n target := ends.behind (handlersOf_eq he ▸ htarget)
        exact ih (narrows.endsWithin accounts' behind) accounts' (Nat.le_of_succ_le_succ hd) (Nat.le_of_succ_le_succ hd')
      have known := accounts.known_handlers he
      have subsides : Subsides fresh (raiseWithin depth) := subsides_raiseWithin depth
      have hcalled : (if e.owned then hub else hub.ownEvent key).callAll (raiseWithin depth) (e.handlers.map (·.2)) =
          (if e.owned then hub else hub.ownEvent key).callAll (raiseWithin depth') (e.handlers.map (·.2)) := by
        split
        · exact subsides.callAll_congr known accounts same
        · refine subsides.callAll_congr known (accounts.ownEvent key) fun hub' accounts' narrows => ?_
          exact same hub' accounts' ((evolves_setOwned accounts.keys key true).andThen narrows)
      rw [raiseWithin_of_open he, raiseWithin_of_open he, hcalled]

/-- Where no path from an event comes back, its raise is the same through any depth that covers the events. -/
theorem raiseWithin_eq_raise (accounts : hub.Accounts fresh []) {key depth : Nat}
    (acyclic : ∀ {path f loop}, hub.Path key path f → hub.Path f loop f → loop = []) (hd : hub.events.length ≤ depth) :
    raiseWithin depth key hub = hub.raise key := by
  have ends : hub.EndsWithin hub.events.length key := fun _ _ h => h.length_lt acyclic
  exact ends.raiseWithin_eq accounts hd (events_le_bound hub)

end Hub
end BlockScript
