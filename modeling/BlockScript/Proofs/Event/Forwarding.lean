import BlockScript.Proofs.Event.Workspace
import Mathlib.Data.Set.Card

/-!
Who is told when an event is raised. A forwarding path leads from one open event to another through
handlers that forward, each given by its place in the order of subscription. Where no path comes back to an
event that it left, a raise tells every handler behind a path, once for each path, and in the lexicographic
order of the places on the way: depth first, and in the order of subscription at every event.
-/
namespace BlockScript

/-- What a handler tells the outside itself. -/
def Handler.signal? {κ : Type} : Handler κ → Option Signal
  | .note label => some (.note label)
  | .wake waiter => some (.wake waiter)
  | .forward _ => none
  | .noteDropping label _ => some (.note label)
  | .noteAdding label _ _ => some (.note label)

/-- The event that a handler passes changes on to. -/
def Handler.target? {κ : Type} : Handler κ → Option κ
  | .forward target => some target
  | _ => none

instance {κ : Type} : DecidablePred (Handler.IsPlain : Handler κ → Prop)
  | .note _ => isTrue trivial
  | .wake _ => isTrue trivial
  | .forward _ => isTrue trivial
  | .noteDropping .. => isFalse id
  | .noteAdding .. => isFalse id

/-- A call of the handler at a place of an event, with the places of the handlers that forwarded to it. -/
structure Call (κ : Type) where
  path : List Nat
  event : κ
  place : Nat
  deriving DecidableEq

namespace Call

variable {κ : Type}

/-- The places from the raised event to the called handler. -/
def route (c : Call κ) : List Nat := c.path ++ [c.place]

/-- The same call, when it comes through a handler that forwards. -/
def behind (i : Nat) (c : Call κ) : Call κ := { c with path := i :: c.path }

theorem route_behind (i : Nat) (c : Call κ) : (c.behind i).route = i :: c.route := rfl

end Call

namespace Hub

variable {κ : Type} [DecidableEq κ] {hub : Hub κ}

/-! ### Paths -/

/-- The handlers of an event in the order of subscription. -/
def handlersOf (hub : Hub κ) (key : κ) : List (Handler κ) :=
  ((hub.event? key).map (·.handlers.map (·.2))).getD []

/-- The handler at a place in the order of subscription. -/
def handlerAt (hub : Hub κ) (key : κ) (i : Nat) : Option (Handler κ) := (hub.handlersOf key)[i]?

/-- What the handler at a place tells itself. -/
def signalAt (hub : Hub κ) (key : κ) (i : Nat) : Option Signal := (hub.handlerAt key i).bind Handler.signal?

/-- A way from one open event to another through handlers that forward. A handler whose target is gone leads
nowhere. -/
inductive Path (hub : Hub κ) : κ → List Nat → κ → Prop where
  | here {key : κ} (isOpen : hub.IsOpen key) : Path hub key [] key
  | there {a b c : κ} {i : Nat} {path : List Nat} (link : hub.handlerAt a i = some (.forward b))
      (rest : Path hub b path c) : Path hub a (i :: path) c

/-- All that a raise of an event can reach is live, tells or forwards only, and does not reach itself
again. -/
structure Settled (hub : Hub κ) (key : κ) : Prop where
  live : ∀ {path f e}, hub.Path key path f → hub.event? f = some e → e.isHeld f = true
  plain : ∀ {path f e}, hub.Path key path f → hub.event? f = some e → ∀ h ∈ e.handlers, h.2.IsPlain
  acyclic : ∀ {path f loop}, hub.Path key path f → hub.Path f loop f → loop = []

theorem handlersOf_eq {key : κ} {e : ChangeEvent κ} (he : hub.event? key = some e) :
    hub.handlersOf key = e.handlers.map (·.2) := by
  simp [handlersOf, he]

theorem handlersOf_eq_nil {key : κ} (he : hub.event? key = none) : hub.handlersOf key = [] := by
  simp [handlersOf, he]

theorem isOpen_of_handlerAt {key : κ} {i : Nat} {h : Handler κ} (hi : hub.handlerAt key i = some h) : hub.IsOpen key := by
  unfold IsOpen
  cases he : hub.event? key with
  | none => simp [handlerAt, handlersOf_eq_nil he] at hi
  | some e => rfl

theorem isOpen_of_signalAt {key : κ} {i : Nat} {s : Signal} (hs : hub.signalAt key i = some s) : hub.IsOpen key := by
  obtain ⟨h, hat, -⟩ := Option.bind_eq_some_iff.mp hs
  exact isOpen_of_handlerAt hat

theorem place_of_signalAt {key : κ} {i : Nat} {s : Signal} (hs : hub.signalAt key i = some s) :
    ∃ e, hub.event? key = some e ∧ i < e.handlers.length := by
  obtain ⟨e, he⟩ := Option.isSome_iff_exists.mp (isOpen_of_signalAt hs)
  obtain ⟨h, hat, -⟩ := Option.bind_eq_some_iff.mp hs
  rw [handlerAt, handlersOf_eq he] at hat
  obtain ⟨hi, -⟩ := List.getElem?_eq_some_iff.mp hat
  exact ⟨e, he, by simpa using hi⟩

theorem exists_handlerAt {key : κ} {h : Handler κ} (hh : h ∈ hub.handlersOf key) : ∃ i, hub.handlerAt key i = some h :=
  List.mem_iff_getElem?.mp hh

theorem Path.isOpen_target {a b : κ} {path : List Nat} (h : hub.Path a path b) : hub.IsOpen b := by
  induction h with
  | here isOpen => exact isOpen
  | there link rest ih => exact ih

theorem Settled.behind {key target : κ} {i : Nat} (h : hub.Settled key) (link : hub.handlerAt key i = some (.forward target)) :
    hub.Settled target where
  live hp := h.live (.there link hp)
  plain hp := h.plain (.there link hp)
  acyclic hp := h.acyclic (.there link hp)

/-- Only an owner holds an event that tells or forwards only. -/
theorem Settled.owned {key : κ} {e : ChangeEvent κ} (h : hub.Settled key) (he : hub.event? key = some e) : e.owned = true := by
  have here : hub.Path key [] key := .here (Option.isSome_iff_exists.mpr ⟨e, he⟩)
  have unheld : e.handlers.any (fun x => x.2.holds key) = false := by
    refine List.any_eq_false.mpr fun x hx => ?_
    rw [(h.plain here he x hx).holds_eq_false]
    exact Bool.false_ne_true
  simpa [ChangeEvent.isHeld, unheld] using h.live here he

/-- A way on which no event comes back meets each open event at most once. -/
theorem Path.length_lt {a b : κ} {path : List Nat} (h : hub.Path a path b)
    (acyclic : ∀ {way f loop}, hub.Path a way f → hub.Path f loop f → loop = []) : path.length < hub.events.length := by
  have visited : ∃ met : List κ, met.length = path.length + 1 ∧ met.Nodup ∧
      ∀ v ∈ met, hub.IsOpen v ∧ ∃ way, hub.Path a way v := by
    induction h with
    | @here key isOpen =>
      refine ⟨[key], rfl, List.nodup_singleton key, fun v hv => ?_⟩
      obtain rfl := List.mem_singleton.mp hv
      exact ⟨isOpen, [], .here isOpen⟩
    | @there a b c i path link rest ih =>
      obtain ⟨met, hlength, hnodup, hmet⟩ := ih fun hway hloop => acyclic (.there link hway) hloop
      have here : hub.Path a [] a := .here (isOpen_of_handlerAt link)
      refine ⟨a :: met, by simp [hlength], List.nodup_cons.mpr ⟨fun ha => ?_, hnodup⟩, fun v hv => ?_⟩
      · obtain ⟨-, way, hway⟩ := hmet a ha
        exact List.cons_ne_nil _ _ (acyclic here (.there link hway))
      · rcases List.mem_cons.mp hv with rfl | hv
        · exact ⟨here.isOpen_target, [], here⟩
        · obtain ⟨isOpen, way, hway⟩ := hmet v hv
          exact ⟨isOpen, i :: way, .there link hway⟩
  obtain ⟨met, hlength, hnodup, hmet⟩ := visited
  have hsub : met ⊆ hub.events.map (·.1) := by
    intro v hv
    obtain ⟨e, he⟩ := Option.isSome_iff_exists.mp (hmet v hv).1
    exact List.mem_map.mpr ⟨_, mem_of_event? he, rfl⟩
  have hle := (List.subperm_of_subset hnodup hsub).length_le
  rw [List.length_map] at hle
  omega

/-! ### The calls of a raise -/

/-- The calls through one handler with its place, where `below` gives those of an event it forwards to. -/
def callsThrough (below : κ → List (Call κ)) (key : κ) : Handler κ × Nat → List (Call κ)
  | (.forward target, i) => (below target).map (Call.behind i)
  | (_, i) => [⟨[], key, i⟩]

/-- The calls of a raise through at most `depth` events that forward to each other. -/
def callsWithin (hub : Hub κ) : (depth : Nat) → κ → List (Call κ)
  | 0, _ => []
  | depth + 1, key => (hub.handlersOf key).zipIdx.flatMap (callsThrough (hub.callsWithin depth) key)

omit [DecidableEq κ] in
/-- A route through a handler starts at its place. -/
theorem route_of_mem_callsThrough {below : κ → List (Call κ)} {key : κ} {x : Handler κ × Nat} {c : Call κ}
    (hc : c ∈ callsThrough below key x) : ∃ rest, c.route = x.2 :: rest := by
  obtain ⟨h, i⟩ := x
  cases h with
  | forward target =>
    obtain ⟨d, -, rfl⟩ := List.mem_map.mp hc
    exact ⟨d.route, rfl⟩
  | _ =>
    obtain rfl := List.mem_singleton.mp hc
    exact ⟨[], rfl⟩

theorem mem_zipIdx_handlersOf {key : κ} {x : Handler κ × Nat} :
    x ∈ (hub.handlersOf key).zipIdx ↔ hub.handlerAt key x.2 = some x.1 := List.mem_zipIdx_iff_getElem?

/-- A call through `depth` events is one of a handler that tells, behind a path shorter than `depth`. -/
theorem mem_callsWithin {depth : Nat} {key : κ} {c : Call κ} :
    c ∈ hub.callsWithin depth key ↔
      hub.Path key c.path c.event ∧ c.path.length < depth ∧ (hub.signalAt c.event c.place).isSome := by
  induction depth generalizing key c with
  | zero => simp [callsWithin]
  | succ depth ih =>
    rw [callsWithin, List.mem_flatMap]
    constructor
    · rintro ⟨⟨h, i⟩, hx, hc⟩
      have hat := mem_zipIdx_handlersOf.mp hx
      have told (hs : h.signal?.isSome) (hc : c = ⟨[], key, i⟩) :
          hub.Path key c.path c.event ∧ c.path.length < depth + 1 ∧ (hub.signalAt c.event c.place).isSome := by
        subst hc
        exact ⟨.here (isOpen_of_handlerAt hat), Nat.succ_pos depth, by simpa [signalAt, hat] using hs⟩
      cases h with
      | forward target =>
        obtain ⟨d, hd, rfl⟩ := List.mem_map.mp hc
        obtain ⟨hpath, hlength, hsignal⟩ := ih.mp hd
        exact ⟨.there hat hpath, Nat.succ_lt_succ hlength, hsignal⟩
      | note label => exact told rfl (List.mem_singleton.mp hc)
      | wake waiter => exact told rfl (List.mem_singleton.mp hc)
      | noteDropping label victim => exact told rfl (List.mem_singleton.mp hc)
      | noteAdding label added event => exact told rfl (List.mem_singleton.mp hc)
    · obtain ⟨path, f, i⟩ := c
      rintro ⟨hpath, hlength, hsignal⟩
      cases hpath with
      | here isOpen =>
        obtain ⟨s, hs⟩ := Option.isSome_iff_exists.mp hsignal
        obtain ⟨h, hat, hsome⟩ := Option.bind_eq_some_iff.mp hs
        refine ⟨(h, i), mem_zipIdx_handlersOf.mpr hat, ?_⟩
        cases h with
        | forward target => cases hsome
        | _ => exact List.mem_singleton_self _
      | @there _ b _ j path link rest =>
        refine ⟨(.forward b, j), mem_zipIdx_handlersOf.mpr link, List.mem_map.mpr ⟨⟨path, f, i⟩, ?_, rfl⟩⟩
        exact ih.mpr ⟨rest, Nat.lt_of_succ_lt_succ hlength, hsignal⟩

theorem pairwise_callsWithin (depth : Nat) (key : κ) :
    (hub.callsWithin depth key).Pairwise fun c d => c.route < d.route := by
  induction depth generalizing key with
  | zero => exact List.Pairwise.nil
  | succ depth ih =>
    rw [callsWithin, List.pairwise_flatMap]
    constructor
    · rintro ⟨h, i⟩ -
      cases h with
      | forward target =>
        refine List.pairwise_map.mpr ((ih target).imp fun {c d} hlt => ?_)
        rw [Call.route_behind, Call.route_behind]
        exact List.cons_lt_cons_self.mpr hlt
      | _ => exact List.pairwise_singleton _ _
    · -- Calls through different handlers of the event differ in their first place.
      have places : (hub.handlersOf key).zipIdx.Pairwise fun x y => x.2 < y.2 := by
        rw [← List.pairwise_map (f := Prod.snd), List.zipIdx_map_snd]
        exact List.pairwise_lt_range'
      refine places.imp fun {x y} hlt c hc d hd => ?_
      obtain ⟨restc, hrc⟩ := route_of_mem_callsThrough hc
      obtain ⟨restd, hrd⟩ := route_of_mem_callsThrough hd
      rw [hrc, hrd]
      exact List.cons_lt_cons_iff.mpr (Or.inl hlt)

theorem nodup_callsWithin (depth : Nat) (key : κ) : (hub.callsWithin depth key).Nodup :=
  (pairwise_callsWithin depth key).imp fun {c d} hlt heq => by
    rw [heq] at hlt
    exact List.lt_irrefl _ hlt

/-- Once the depth covers all open events, more of it adds no call. -/
theorem Settled.callsWithin_eq {key : κ} (h : hub.Settled key) {depth depth' : Nat} (hd : hub.events.length ≤ depth)
    (hd' : hub.events.length ≤ depth') : hub.callsWithin depth key = hub.callsWithin depth' key := by
  have same : (hub.callsWithin depth key).Perm (hub.callsWithin depth' key) := by
    refine (List.perm_ext_iff_of_nodup (nodup_callsWithin _ _) (nodup_callsWithin _ _)).mpr fun c => ?_
    rw [mem_callsWithin, mem_callsWithin]
    refine and_congr_right fun hpath => and_congr_left fun _ => ?_
    have hlt := hpath.length_lt h.acyclic
    exact iff_of_true (by omega) (by omega)
  refine same.eq_of_pairwise (fun c d _ _ hcd hdc => ?_) (pairwise_callsWithin _ _) (pairwise_callsWithin _ _)
  exact absurd hcd (List.lt_asymm hdc)

/-! ### The calls are those that a raise makes -/

/-- A raise leaves the hub as it is and tells what its calls tell, in their order. -/
theorem Settled.raiseWithin_eq {key : κ} (h : hub.Settled key) (depth : Nat) :
    raiseWithin depth key hub = (hub, (hub.callsWithin depth key).filterMap fun c => hub.signalAt c.event c.place) := by
  induction depth generalizing key with
  | zero => rfl
  | succ depth ih =>
    cases he : hub.event? key with
    | none => simp [raiseWithin, he, callsWithin, handlersOf_eq_nil he]
    | some e =>
      have here : hub.Path key [] key := .here (Option.isSome_iff_exists.mpr ⟨e, he⟩)
      have still : ∀ x ∈ e.handlers.map (·.2), (hub.call (raiseWithin depth) x).1 = hub := by
        intro x hx
        obtain ⟨y, hy, rfl⟩ := List.mem_map.mp hx
        refine call_plain (h.plain here he y hy) fun target hforward => ?_
        have hmem : y.2 ∈ hub.handlersOf key := handlersOf_eq he ▸ List.mem_map_of_mem hy
        obtain ⟨i, hi⟩ := exists_handlerAt hmem
        rw [ih (h.behind (hforward ▸ hi))]
      simp only [raiseWithin, he, h.owned he, if_true, callAll_of_still still]
      -- The handlers of the event are called in turn; the calls go through them with their places.
      rw [callsWithin, List.filterMap_flatMap, ← handlersOf_eq he]
      congr 1
      conv_lhs => rw [← List.zipIdx_map_fst 0 (hub.handlersOf key), List.flatMap_map]
      refine List.flatMap_congr fun x hx => ?_
      obtain ⟨handler, i⟩ := x
      have hat : hub.handlerAt key i = some handler := mem_zipIdx_handlersOf.mp hx
      cases handler with
      | forward target =>
        rw [callsThrough, List.filterMap_map]
        exact congrArg Prod.snd (ih (h.behind hat))
      | _ => simp [callsThrough, call, signalAt, hat, Handler.signal?]

omit [DecidableEq κ] in
theorem events_le_bound (hub : Hub κ) : hub.events.length ≤ hub.events.length * (hub.handlerCount + 1) :=
  Nat.le_mul_of_pos_right _ (Nat.succ_pos _)

/-! ### Counting -/

/-- The paths to a handler that tells are those of its calls. -/
theorem Settled.paths_eq {key f : κ} {i depth : Nat} (h : hub.Settled key) (hd : hub.events.length ≤ depth)
    (tells : (hub.signalAt f i).isSome) :
    {path | hub.Path key path f} =
      ↑(((hub.callsWithin depth key).filter fun c => c.event = f ∧ c.place = i).map (·.path)).toFinset := by
  ext path
  simp only [Set.mem_ofPred_eq, List.coe_toFinset, List.mem_map, List.mem_filter, mem_callsWithin, decide_eq_true_eq]
  constructor
  · intro hpath
    have hlt := Nat.lt_of_lt_of_le (hpath.length_lt h.acyclic) hd
    exact ⟨⟨path, f, i⟩, ⟨⟨hpath, hlt, tells⟩, rfl, rfl⟩, rfl⟩
  · rintro ⟨⟨path', f', i'⟩, ⟨⟨hpath, -, -⟩, rfl, rfl⟩, rfl⟩
    exact hpath

/-- A handler that tells is called once for each path to its event. -/
theorem Settled.countP_eq {key f : κ} {i depth : Nat} (h : hub.Settled key) (hd : hub.events.length ≤ depth)
    (tells : (hub.signalAt f i).isSome) :
    ((hub.callsWithin depth key).countP fun c => c.event = f ∧ c.place = i) = {path | hub.Path key path f}.ncard := by
  have nodup : (((hub.callsWithin depth key).filter fun c => c.event = f ∧ c.place = i).map (·.path)).Nodup := by
    refine List.Nodup.map_on (fun c hc d hd hpath => ?_) ((nodup_callsWithin depth key).filter _)
    have hc := of_decide_eq_true (List.mem_filter.mp hc).2
    have hd := of_decide_eq_true (List.mem_filter.mp hd).2
    obtain ⟨pc, fc, ic⟩ := c
    obtain ⟨pd, fd, id⟩ := d
    simp_all
  rw [h.paths_eq hd tells, Set.ncard_coe_finset, List.toFinset_card_of_nodup nodup, List.length_map, List.countP_eq_length_filter]

/-- An event has one path to itself. -/
theorem Settled.paths_self {key : κ} (h : hub.Settled key) (hopen : hub.IsOpen key) : {path | hub.Path key path key} = {[]} := by
  ext path
  simp only [Set.mem_ofPred_eq, Set.mem_singleton_iff]
  constructor
  · exact h.acyclic (.here hopen)
  · rintro rfl
    exact .here hopen

/-- The handler at a place is told of a raise `times` times. -/
def CalledTimes (calls : List (Call κ)) (f : κ) (i times : Nat) : Prop :=
  (calls.countP fun c => c.event = f ∧ c.place = i) = times

/-- A raise of a settled event ends, however deep it may go, and changes nothing. What it tells comes from
calls of handlers in depth-first order of subscription: all the handlers that tell behind some path, each as
often as there are paths to its event, which is once at the raised event itself and never at an event that is
gone or that no path leads to. A handler whose signal is its own is heard that often. -/
theorem raise_once_per_path {key : κ} (settled : hub.Settled key) :
    ∃ calls : List (Call κ),
      (hub.raise key).1 = hub ∧
      (hub.raise key).2.map some = calls.map (fun c => hub.signalAt c.event c.place) ∧
      (∀ depth, hub.events.length ≤ depth → raiseWithin depth key hub = hub.raise key) ∧
      calls.Pairwise (fun c d => c.route < d.route) ∧
      (∀ c, c ∈ calls ↔ hub.Path key c.path c.event ∧ (hub.signalAt c.event c.place).isSome) ∧
      ∀ f i s, hub.signalAt f i = some s →
        {path | hub.Path key path f}.Finite ∧
        CalledTimes calls f i {path | hub.Path key path f}.ncard ∧
        (f = key → CalledTimes calls f i 1) ∧
        ((∀ path, ¬ hub.Path key path f) → CalledTimes calls f i 0) ∧
        ((∀ f' i', hub.signalAt f' i' = some s → f' = f ∧ i' = i) →
          (hub.raise key).2.count s = {path | hub.Path key path f}.ncard) := by
  have bound := hub.events_le_bound
  have hraise := settled.raiseWithin_eq (hub.events.length * (hub.handlerCount + 1))
  set calls := hub.callsWithin (hub.events.length * (hub.handlerCount + 1)) key with hcalls
  have tells : ∀ c ∈ calls, (hub.signalAt c.event c.place).isSome := fun c hc => (mem_callsWithin.mp hc).2.2
  have told : (hub.raise key).2.map some = calls.map fun c => hub.signalAt c.event c.place := by
    rw [raise, hraise, List.map_filterMap_some_eq_filter_map_isSome]
    refine List.filter_eq_self.mpr fun x hx => ?_
    obtain ⟨c, hc, rfl⟩ := List.mem_map.mp hx
    exact tells c hc
  refine ⟨calls, congrArg Prod.fst hraise, told, fun depth hdepth => ?_, pairwise_callsWithin _ key, fun c => ?_, ?_⟩
  · rw [raise, hraise, settled.raiseWithin_eq depth, settled.callsWithin_eq hdepth bound]
  · rw [hcalls, mem_callsWithin]
    refine and_congr_right fun hpath => and_iff_right ?_
    exact Nat.lt_of_lt_of_le (hpath.length_lt settled.acyclic) bound
  · intro f i s hs
    have hsome : (hub.signalAt f i).isSome := Option.isSome_iff_exists.mpr ⟨s, hs⟩
    have count := settled.countP_eq bound hsome
    refine ⟨?_, count, ?_, fun hno => ?_, fun own => ?_⟩
    · rw [settled.paths_eq bound hsome]
      exact Finset.finite_toSet _
    · rintro rfl
      rw [settled.paths_self (isOpen_of_signalAt hs), Set.ncard_singleton] at count
      exact count
    · have hempty : {path | hub.Path key path f} = ∅ := Set.eq_empty_of_forall_notMem hno
      rw [hempty, Set.ncard_empty] at count
      exact count
    · rw [← count, ← List.count_map_of_injective _ some (Option.some_injective _), told, List.count, List.countP_map]
      refine List.countP_congr fun c _ => ?_
      simp only [Function.comp_apply, beq_iff_eq, decide_eq_true_eq]
      constructor
      · exact own c.event c.place
      · rintro ⟨rfl, rfl⟩
        exact hs

/-! ### Settled by rank -/

/-- Where forwarding leads to smaller ranks only, no path comes back. -/
theorem Path.rank_le (rank : κ → Nat) (descends : ∀ {a b i}, hub.handlerAt a i = some (.forward b) → rank b < rank a)
    {a b : κ} {path : List Nat} (h : hub.Path a path b) : rank b + path.length ≤ rank a := by
  induction h with
  | here isOpen => exact Nat.le_refl _
  | there link rest ih =>
    have hlt := descends link
    rw [List.length_cons]
    omega

theorem settled_of_rank (rank : κ → Nat) (live : ∀ x ∈ hub.events, x.2.isHeld x.1 = true)
    (plain : ∀ x ∈ hub.events, ∀ h ∈ x.2.handlers, h.2.IsPlain)
    (descends : ∀ x ∈ hub.events, ∀ h ∈ x.2.handlers, ∀ target ∈ h.2.target?, rank target < rank x.1) (key : κ) :
    hub.Settled key where
  live _ he := live _ (mem_of_event? he)
  plain _ he := plain _ (mem_of_event? he)
  acyclic {path f loop} _ hloop := by
    have hle := hloop.rank_le rank fun {a b i} link => by
      obtain ⟨e, he⟩ := Option.isSome_iff_exists.mp (isOpen_of_handlerAt link)
      rw [handlerAt, handlersOf_eq he] at link
      obtain ⟨h, hh, hforward⟩ := List.mem_map.mp (List.mem_of_getElem? link)
      exact descends _ (mem_of_event? he) h hh b (by rw [hforward]; rfl)
    exact List.length_eq_zero_iff.mp (by omega)

end Hub

namespace EventWorkspace

/-- One event reaches another on two ways and once through a target that is gone; a relay is fed by the first
of its two sources only. -/
def fork : EventWorkspace := empty.after
  [.event "start", .event "left", .event "right", .event "end", .event "gone", .relay "relay",
    .subscribe "first" "start", .forward "to right" "right" "start", .forward "to gone" "gone" "start",
    .forward "to left" "left" "start", .subscribe "last" "start", .forward "left to end" "end" "left",
    .forward "right to end" "end" "right", .subscribe "finish" "end", .forward "gone to end" "end" "gone",
    .forwardRelay "relay" "left", .forwardRelay "relay" "right", .subscribeRelay "listen" "relay", .dropEvent "gone"]

/-- An event forwards to events that were opened after it. -/
theorem settled_fork (key : Nat) : fork.hub.Settled key :=
  Hub.settled_of_rank (fun key => 5 - key) (by decide) (by decide) (by decide) key

theorem fork_delivers : fork.hub.Settled 0 ∧ (fork.hub.raise 0).2 =
    [.note "first", .note "finish", .note "finish", .note "listen", .note "last"] ∧
    {path | fork.hub.Path 0 path 3}.ncard = 2 := by
  obtain ⟨calls, -, -, -, -, -, each⟩ := Hub.raise_once_per_path (settled_fork 0)
  have heard : (fork.hub.raise 0).2 =
      [.note "first", .note "finish", .note "finish", .note "listen", .note "last"] := by decide
  have alone : ∀ x ∈ fork.hub.events, ∀ i < x.2.handlers.length,
      fork.hub.signalAt x.1 i = some (.note "finish") → x.1 = 3 ∧ i = 0 := by decide
  obtain ⟨-, -, -, -, own⟩ := each 3 0 (.note "finish") (by decide)
  refine ⟨settled_fork 0, heard, ?_⟩
  rw [← own, heard]
  · decide
  · intro f i hs
    obtain ⟨e, he, hi⟩ := Hub.place_of_signalAt hs
    exact alone _ (Hub.mem_of_event? he) i hi hs

end EventWorkspace
end BlockScript
