import BlockScript.Proofs.Event.Depth

/-!
Who hears of a raise while handlers come and go. What the hub does in one go, to raise an event with all that its
handlers do and raise in turn, comes about one occurrence after the other, and in one way only; the steps of a workspace
come about so too. Hence what holds of every run holds of them: a raise calls the handlers that its event had when it
began, whatever they do.
-/
namespace BlockScript

namespace Activity

/-- What the handler tells that is called, if one is. -/
def Occurrence.told? : Occurrence → Option Signal
  | .calls _ x => x.2.signal?
  | _ => none

/-- What the called handlers tell in a run. -/
def told (trace : List Occurrence) : List Signal := trace.filterMap Occurrence.told?

theorem told_append (first second : List Occurrence) : told (first ++ second) = told first ++ told second :=
  List.filterMap_append

theorem told_calls (r : Nat) (x : Nat × Handler Nat) (rest : List Occurrence) :
    told (.calls r x :: rest) = x.2.signal?.toList ++ told rest := by
  cases hs : x.2.signal? with
  | none => simp [told, Occurrence.told?, hs]
  | some s => simp [told, Occurrence.told?, hs]

/-! ### Raises as they occur -/

/-- What may occur on the way from one activity to another. -/
abbrev Course := Activity → List Occurrence → Activity → Prop

/-- What a called handler does: nothing beyond what it tells, the raise of the event it forwards to, or its one deed.
`raises` says how an event is raised. -/
inductive Reacts (raises : Nat → Course) : Handler Nat → Course where
  | note {label : String} {a : Activity} : Reacts raises (.note label) a [] a
  | wake {waiter : Nat} {a : Activity} : Reacts raises (.wake waiter) a [] a
  | forward {target : Nat} {a b : Activity} {trace : List Occurrence} (nested : raises target a trace b) :
      Reacts raises (.forward target) a trace b
  | noteDropping {label victim : String} {a b : Activity} (drops : a.Step (.does (.drop victim)) b) :
      Reacts raises (.noteDropping label victim) a [.does (.drop victim)] b
  | noteAdding {label added : String} {event : Nat} {a b : Activity}
      (adds : a.Step (.does (.subscribe added event (.note added))) b) :
      Reacts raises (.noteAdding label added event) a [.does (.subscribe added event (.note added))] b

/-- A raise calls handlers one after the other. What each of them does is over before the next is called, and nothing
else occurs. -/
inductive CallsInTurn (raises : Nat → Course) (r : Nat) : List (Nat × Handler Nat) → Course where
  | done {a : Activity} : CallsInTurn raises r [] a [] a
  | next {x : Nat × Handler Nat} {left : List (Nat × Handler Nat)} {a b c d : Activity} {reaction others : List Occurrence}
      (call : a.Step (.calls r x) b) (reacts : Reacts raises x.2 b reaction c)
      (rest : CallsInTurn raises r left c others d) : CallsInTurn raises r (x :: left) a (.calls r x :: (reaction ++ others)) d

/-- All that occurs when an event is raised through at most `depth` events that forward to each other. An open event
begins a raise, which calls the handlers of the event in turn and ends. -/
def Raises : (depth : Nat) → Nat → Course
  | 0, _, a, trace, b => trace = [] ∧ b = a
  | depth + 1, key, a, trace, b =>
    match a.hub.event? key with
    | none => trace = [] ∧ b = a
    | some e => ∃ listed called last, a.Step (.begins a.begun key) listed ∧
        CallsInTurn (Raises depth) a.begun e.handlers listed called last ∧ last.Step (.ends a.begun) b ∧
        trace = .begins a.begun key :: (called ++ [.ends a.begun])

section
variable {raises : Nat → Course} {a b b' : Activity} {trace trace' : List Occurrence}

theorem raises_of_open {depth key : Nat} {e : ChangeEvent Nat} (he : a.hub.event? key = some e) :
    Raises (depth + 1) key a trace b ↔ ∃ listed called last, a.Step (.begins a.begun key) listed ∧
      CallsInTurn (Raises depth) a.begun e.handlers listed called last ∧ last.Step (.ends a.begun) b ∧
      trace = .begins a.begun key :: (called ++ [.ends a.begun]) := by
  simp only [Raises, he]

theorem raises_of_gone {depth key : Nat} (he : a.hub.event? key = none) :
    Raises (depth + 1) key a trace b ↔ trace = [] ∧ b = a := by
  simp only [Raises, he]

/-- What can happen next is told by what occurs. -/
theorem Step.unique {m : Occurrence} (h : a.Step m b) (h' : a.Step m b') : b = b' := by
  cases h with
  | opens => cases h'; rfl
  | does d => cases h'; rfl
  | begins isOpen =>
    cases h' with
    | begins isOpen' =>
      obtain rfl := Option.some.inj (isOpen.symm.trans isOpen')
      rfl
  | calls => cases h'; rfl
  | ends => cases h'; rfl

/-! #### Raises are runs -/

/-- A raise consists of occurrences that can follow each other. -/
def AreRuns (raises : Nat → Course) : Prop :=
  ∀ key a trace b, raises key a trace b → a.Runs trace b

theorem Reacts.runs (runs : AreRuns raises) {h : Handler Nat} (reacts : Reacts raises h a trace b) : a.Runs trace b := by
  cases reacts with
  | note => exact .done
  | wake => exact .done
  | forward nested => exact runs _ _ _ _ nested
  | noteDropping drops => exact .next drops .done
  | noteAdding adds => exact .next adds .done

theorem CallsInTurn.runs (runs : AreRuns raises) {r : Nat} {left : List (Nat × Handler Nat)}
    (calls : CallsInTurn raises r left a trace b) : a.Runs trace b := by
  induction calls with
  | done => exact .done
  | next call reacts _ ih => exact .next call ((reacts.runs runs).append ih)

theorem areRuns_raises (depth : Nat) : AreRuns (Raises depth) := by
  induction depth with
  | zero =>
    rintro key a trace b ⟨rfl, rfl⟩
    exact .done
  | succ depth ih =>
    intro key a trace b h
    cases he : a.hub.event? key with
    | none =>
      obtain ⟨rfl, rfl⟩ := (raises_of_gone he).mp h
      exact .done
    | some e =>
      obtain ⟨listed, called, last, begins, calls, ends, rfl⟩ := (raises_of_open he).mp h
      exact .next begins ((calls.runs ih).append (.next ends .done))

/-! #### Raises can occur in one way only -/

/-- What occurs in a raise, and what comes of it, is told by the event and by what was there before. -/
def AreDetermined (raises : Nat → Course) : Prop :=
  ∀ key a trace b trace' b', raises key a trace b → raises key a trace' b' → trace = trace' ∧ b = b'

theorem Reacts.unique (determined : AreDetermined raises) {h : Handler Nat} (reacts : Reacts raises h a trace b)
    (reacts' : Reacts raises h a trace' b') : trace = trace' ∧ b = b' := by
  cases reacts with
  | note => cases reacts'; exact ⟨rfl, rfl⟩
  | wake => cases reacts'; exact ⟨rfl, rfl⟩
  | forward nested =>
    cases reacts' with
    | forward nested' => exact determined _ _ _ _ _ _ nested nested'
  | noteDropping drops =>
    cases reacts' with
    | noteDropping drops' => exact ⟨rfl, drops.unique drops'⟩
  | noteAdding adds =>
    cases reacts' with
    | noteAdding adds' => exact ⟨rfl, adds.unique adds'⟩

theorem CallsInTurn.unique (determined : AreDetermined raises) {r : Nat} {left : List (Nat × Handler Nat)}
    (calls : CallsInTurn raises r left a trace b) (calls' : CallsInTurn raises r left a trace' b') :
    trace = trace' ∧ b = b' := by
  induction calls generalizing trace' with
  | done => cases calls'; exact ⟨rfl, rfl⟩
  | next call reacts _ ih =>
    cases calls' with
    | next call' reacts' rest' =>
      obtain rfl := call.unique call'
      obtain ⟨rfl, rfl⟩ := reacts.unique determined reacts'
      obtain ⟨rfl, rfl⟩ := ih rest'
      exact ⟨rfl, rfl⟩

theorem areDetermined_raises (depth : Nat) : AreDetermined (Raises depth) := by
  induction depth with
  | zero => exact fun key a trace b trace' b' h h' => ⟨h.1.trans h'.1.symm, h.2.trans h'.2.symm⟩
  | succ depth ih =>
    intro key a trace b trace' b' h h'
    cases he : a.hub.event? key with
    | none =>
      obtain ⟨rfl, rfl⟩ := (raises_of_gone he).mp h
      obtain ⟨rfl, rfl⟩ := (raises_of_gone he).mp h'
      exact ⟨rfl, rfl⟩
    | some e =>
      obtain ⟨listed, called, last, begins, calls, ends, rfl⟩ := (raises_of_open he).mp h
      obtain ⟨listed', called', last', begins', calls', ends', rfl⟩ := (raises_of_open he).mp h'
      obtain rfl := begins.unique begins'
      obtain ⟨rfl, rfl⟩ := calls.unique ih calls'
      exact ⟨rfl, ends.unique ends'⟩

end

/-! ### Raises of a hub -/

/-- What a hub does to raise an event comes about as `raises` says. -/
def Realises (raises : Nat → Course) (raise : Nat → Hub Nat → Hub Nat × List Signal) : Prop :=
  ∀ (key : Nat) (a : Activity), a.Sound → ∃ trace count,
    raises key a trace { a with hub := (raise key a.hub).1, begun := count } ∧ told trace = (raise key a.hub).2

section
variable {raises : Nat → Course} {raise : Nat → Hub Nat → Hub Nat × List Signal}

/-- What a handler does when it is called. -/
theorem Realises.call (realises : Realises raises raise) {a : Activity} (sound : a.Sound) {h : Handler Nat}
    (known : Hub.KnownTo a.fresh h) :
    ∃ trace count, Reacts raises h a trace { a with hub := (a.hub.call raise h).1, begun := count } ∧
      h.signal?.toList ++ told trace = (a.hub.call raise h).2 := by
  obtain ⟨hub, fresh, begun, underWay⟩ := a
  cases h with
  | note label => exact ⟨[], begun, .note, rfl⟩
  | wake waiter => exact ⟨[], begun, .wake, rfl⟩
  | forward target =>
    obtain ⟨trace, count, nested, htold⟩ := realises target _ sound
    exact ⟨trace, count, .forward nested, htold⟩
  | noteDropping label victim => exact ⟨_, begun, .noteDropping (.does (.drop victim) trivial), rfl⟩
  | noteAdding label added event =>
    have hevent : event < fresh := known event (by simp [Handler.holds])
    have hnote : Hub.KnownTo fresh (.note added) := fun _ ho => (Bool.false_ne_true ho).elim
    exact ⟨_, begun, .noteAdding (.does (.subscribe added event (.note added)) ⟨hevent, hnote⟩), rfl⟩

/-- The handlers that a raise has left are called one after the other. -/
theorem Realises.callAll (realises : Realises raises raise) (runs : AreRuns raises) {fresh r key : Nat} {owned : Bool}
    {underWay : List Raise} {left : List (Nat × Handler Nat)} (known : ∀ x ∈ left, Hub.KnownTo fresh x.2) {hub : Hub Nat}
    {begun : Nat} (sound : Sound ⟨hub, fresh, begun, ⟨r, key, owned, left⟩ :: underWay⟩) :
    ∃ trace count, CallsInTurn raises r left ⟨hub, fresh, begun, ⟨r, key, owned, left⟩ :: underWay⟩ trace
        ⟨(hub.callAll raise (left.map (·.2))).1, fresh, count, ⟨r, key, owned, []⟩ :: underWay⟩ ∧
      told trace = (hub.callAll raise (left.map (·.2))).2 := by
  induction left generalizing hub begun with
  | nil => exact ⟨[], begun, .done, rfl⟩
  | cons x left ih =>
    obtain ⟨hx, known⟩ := List.forall_mem_cons.mp known
    have soundCalled := Step.calls.sound sound
    obtain ⟨first, count, reacts, htold⟩ := realises.call soundCalled hx
    obtain ⟨second, count', rest, htold'⟩ := ih known ((reacts.runs runs).sound soundCalled)
    refine ⟨_, count', .next .calls reacts rest, ?_⟩
    rw [told_calls, told_append, ← List.append_assoc, htold, htold']
    rfl

end

/-- What is told between the begin and the end of a raise is all that it tells. -/
theorem told_raise (r key : Nat) (called : List Occurrence) :
    told (.begins r key :: (called ++ [.ends r])) = told called := by
  show told (called ++ [.ends r]) = told called
  rw [told_append]
  exact List.append_nil _

theorem realises_raiseWithin (depth : Nat) : Realises (Raises depth) (Hub.raiseWithin depth) := by
  induction depth with
  | zero => exact fun key a sound => ⟨[], a.begun, ⟨rfl, rfl⟩, rfl⟩
  | succ depth ih =>
    intro key a sound
    obtain ⟨hub, fresh, begun, underWay⟩ := a
    cases he : hub.event? key with
    | none =>
      rw [Hub.raiseWithin_of_gone he]
      exact ⟨[], begun, (raises_of_gone he).mpr ⟨rfl, rfl⟩, rfl⟩
    | some e =>
      have begins : Step ⟨hub, fresh, begun, underWay⟩ _ _ := .begins he
      have known : ∀ x ∈ e.handlers, Hub.KnownTo fresh x.2 := sound.accounts.known key e he
      obtain ⟨called, count, calls, htold⟩ := ih.callAll (areRuns_raises depth) known (begins.sound sound)
      rw [Hub.raiseWithin_of_open he]
      have raised := (raises_of_open he).mpr ⟨_, called, _, begins, calls, .ends, rfl⟩
      exact ⟨_, count, raised, (told_raise begun key called).trans htold⟩

/-! ### Steps of a workspace -/

/-- A workspace between two of its steps. -/
def idle (w : EventWorkspace) (begun : Nat) : Activity := ⟨w.hub, w.fresh, begun, []⟩

variable {w : EventWorkspace}

theorem sound_idle (sound : w.Sound) (begun : Nat) : (idle w begun).Sound := ⟨sound.accounts, .nil, nofun⟩

/-- There is a run from one workspace to another. -/
def Leads (w w' : EventWorkspace) : Prop := ∀ begun, ∃ trace begun', (idle w begun).Runs trace (idle w' begun')

theorem Leads.refl (w : EventWorkspace) : Leads w w := fun begun => ⟨[], begun, .done⟩

theorem Leads.trans {w' w'' : EventWorkspace} (first : Leads w w') (second : Leads w' w'') : Leads w w'' := by
  intro begun
  obtain ⟨trace, begun', run⟩ := first begun
  obtain ⟨trace', begun'', run'⟩ := second begun'
  exact ⟨_, begun'', run.append run'⟩

theorem Leads.deed {d : Deed} (known : d.Known w.fresh) : Leads w { w with hub := d.perform w.hub } :=
  fun begun => ⟨_, begun, .next (.does d known) .done⟩

theorem Leads.withNames (w : EventWorkspace) (events : List (String × Nat)) : Leads w (w.withNames events) := by
  have closes : ∀ (lost : List (String × Nat)) (w : EventWorkspace),
      Leads w { w with hub := lost.foldl (fun hub e => hub.closeEvent e.2) w.hub } := by
    intro lost
    induction lost with
    | nil => exact fun w => .refl w
    | cons x lost ih =>
      intro w
      have close : Leads w { w with hub := w.hub.closeEvent x.2 } := .deed (d := .close x.2) trivial
      exact close.trans (ih { w with hub := w.hub.closeEvent x.2 })
  exact closes _ w

theorem Leads.openFresh (w : EventWorkspace) : Leads w w.openFresh.1 := fun begun => ⟨_, begun, .next .opens .done⟩

theorem Leads.dropRelay (w : EventWorkspace) (name : String) : Leads w (w.dropRelay name) := by
  unfold EventWorkspace.dropRelay
  split
  · exact .refl w
  · rename_i key _
    exact .deed (d := .closeRelay key) trivial

theorem Leads.nameRelay (w : EventWorkspace) (name : String) (key : Nat) : Leads w (w.nameRelay name key) :=
  .dropRelay w name

theorem Leads.subscribe (name : String) {key : Nat} (hkey : key < w.fresh) {h : Handler Nat} (known : Hub.KnownTo w.fresh h) :
    Leads w (w.subscribe name key h) :=
  .deed (d := .subscribe name key h) ⟨hkey, known⟩

theorem Leads.raise (sound : w.Sound) (key : Nat) : Leads w { w with hub := (w.hub.raise key).1 } := by
  intro begun
  obtain ⟨trace, begun', raises, -⟩ := realises_raiseWithin _ key (idle w begun) (sound_idle sound begun)
  exact ⟨trace, begun', areRuns_raises _ _ _ _ _ raises⟩

theorem Leads.of_becomes (sound : w.Sound) {w' : EventWorkspace} (becomes : w.Becomes w') : Leads w w' := by
  cases becomes with
  | same => exact .refl w
  | opened name => exact (Leads.openFresh w).trans (.withNames _ _)
  | named name hkey => exact .withNames w _
  | relayed name => exact (Leads.openFresh w).trans (.nameRelay _ name _)
  | subscribed name hkey own => exact .subscribe name (sound.below hkey) (sound.knownTo hkey own)
  | @connected relay key hrelay hkey => exact .deed (d := .connect relay key) (sound.event_below hkey)
  | held name => exact .deed (d := .empty name) trivial
  | @joined name other first second hsecond hfirst =>
    have hjoin : (Deed.join name other).perform w.hub =
        ((w.hub.forget other).forget name).hold name (first ++ second) := by simp only [Deed.perform, hsecond, hfirst]
    exact hjoin ▸ .deed (d := .join name other) trivial
  | dropped name => exact .deed (d := .drop name) trivial
  | eventDropped name => exact .withNames w _
  | relayDropped name => exact .dropRelay w name
  | raised key => exact .raise sound key

theorem Leads.next (sound : w.Sound) (step : EventStep) : Leads w (w.next step) :=
  .of_becomes sound (w.becomes_next step)

theorem Leads.after (sound : w.Sound) (steps : List EventStep) : Leads w (w.after steps) := by
  induction steps generalizing w with
  | nil => exact .refl w
  | cons step steps ih => exact (Leads.next sound step).trans (ih (sound.next step))

end Activity

namespace EventWorkspace
open Activity

theorem next_subscribe {w : EventWorkspace} (name : String) {event : String} {key : Nat} (hkey : w.event? event = some key) :
    w.next (.subscribe name event) = w.subscribe name key (.note name) := by
  simp [next, perform, hkey]

theorem next_drop (w : EventWorkspace) (name : String) :
    w.next (.drop name) = { w with hub := w.hub.dropNamed name } := by
  cases hs : w.hub.subscription? name with
  | none => simp [next, perform, Hub.dropNamed, hs]
  | some s => simp [next, perform, hs]

/-- What a workspace does comes about in runs. Its steps lead from one state between steps to the next; to subscribe and
to drop is one deed; and the raise of an open event can occur in one way only, which gives what the hub says. It begins,
calls the handlers that the event has, each with what it does before the next, and ends. Where forwarding does not come
back to an event, the bound on the depth cuts no raise short: through more events the raise would be the same. -/
structure IsPlayed (w : EventWorkspace) : Prop where
  steps : ∀ more, Leads w (w.after more)
  subscribes : ∀ name event key begun, w.event? event = some key →
    (idle w begun).Step (.does (.subscribe name key (.note name))) (idle (w.next (.subscribe name event)) begun)
  drops : ∀ name begun, (idle w begun).Step (.does (.drop name)) (idle (w.next (.drop name)) begun)
  raises : ∀ key e begun, w.hub.event? key = some e → ∃ listed called begun',
    (idle w begun).Step (.begins begun key) listed ∧
    listed.Runs (called ++ [.ends begun]) (idle { w with hub := (w.hub.raise key).1 } begun') ∧
    callsBy begun called = e.handlers ∧ told called = (w.hub.raise key).2 ∧
    ∀ trace last, Raises (w.hub.events.length * (w.hub.handlerCount + 1)) key (idle w begun) trace last ↔
      trace = .begins begun key :: (called ++ [.ends begun]) ∧ last = idle { w with hub := (w.hub.raise key).1 } begun'
  uncut : ∀ key depth, (∀ {path f loop}, w.hub.Path key path f → w.hub.Path f loop f → loop = []) →
    w.hub.events.length ≤ depth → Hub.raiseWithin depth key w.hub = w.hub.raise key

theorem Sound.isPlayed {w : EventWorkspace} (sound : w.Sound) : w.IsPlayed where
  steps more := Leads.after sound more
  subscribes name event key begun hkey := by
    have hbelow : key < w.fresh := sound.event_below (List.mem_map_of_mem (Hub.mem_of_lookup hkey))
    have hnote : Hub.KnownTo w.fresh (.note name) := fun _ ho => (Bool.false_ne_true ho).elim
    rw [next_subscribe name hkey]
    exact .does (.subscribe name key (.note name)) ⟨hbelow, hnote⟩
  drops name begun := by
    rw [next_drop]
    exact .does (.drop name) trivial
  raises key e begun he := by
    have isOpen : w.hub.IsOpen key := Option.isSome_iff_exists.mpr ⟨e, he⟩
    -- The event is there, so the bound on the depth leaves room for it.
    have hdepth : 1 ≤ w.hub.events.length * (w.hub.handlerCount + 1) :=
      Nat.mul_pos (Hub.one_le_events isOpen) (Nat.succ_pos _)
    obtain ⟨depth, hd⟩ := Nat.exists_eq_add_of_le' hdepth
    rw [hd]
    have soundIdle := sound_idle sound begun
    have hraise : Hub.raiseWithin (depth + 1) key w.hub = w.hub.raise key := by rw [Hub.raise, hd]
    obtain ⟨trace, begun', raised, htold⟩ := realises_raiseWithin (depth + 1) key (idle w begun) soundIdle
    rw [show (idle w begun).hub = w.hub from rfl, hraise] at raised htold
    obtain ⟨listed, called, last, begins, calls, ends, rfl⟩ := (raises_of_open he).mp raised
    have future := (calls.runs (areRuns_raises depth)).append (.next ends .done)
    obtain ⟨e', he', -, -, ended⟩ := begins.listed soundIdle future
    obtain rfl := Option.some.inj (he.symm.trans he')
    have hcalls := ended (List.mem_append_right _ (List.mem_singleton_self _))
    refine ⟨listed, called, begun', begins, future, ?_, (told_raise begun key called).symm.trans htold, fun trace last => ?_⟩
    · rw [← hcalls, callsBy_append]
      exact (List.append_nil _).symm
    · constructor
      · exact fun h => areDetermined_raises _ _ _ _ _ _ _ h raised
      · rintro ⟨rfl, rfl⟩
        exact raised
  uncut _ _ acyclic hdepth := Hub.raiseWithin_eq_raise sound.accounts acyclic hdepth

/-- A raise calls exactly the handlers that its event has when it begins, each once and in the order of
subscription, whatever handlers do meanwhile: those dropped while it goes on still by this raise, but by none that
begins after the drop; those added while it goes on, which are there from then on, only by raises that begin after that.
All that a workspace does comes about in such runs, and what it does to raise an event in no other. -/
theorem raises_call_those_present :
    (∀ {before after : List Occurrence} {now begun last : Activity} {r key : Nat},
      start.Runs before now → now.Step (.begins r key) begun → begun.Runs after last →
        Notifies now begun r key after ∧ callsBy r before = []) ∧
    (∀ {before : List Occurrence} {now later : Activity} {name : String} {key : Nat} {h : Handler Nat},
      start.Runs before now → now.Step (.does (.subscribe name key h)) later → later.hub.IsOpen key →
        later.hub.Has key (now.hub.subscribe key h).2.handler h) ∧
    ∀ steps, (∃ before begun, start.Runs before (idle (empty.after steps) begun)) ∧ (empty.after steps).IsPlayed := by
  refine ⟨Step.notifies, fun past step isOpen => step.subscribed (past.sound sound_start) isOpen, fun steps => ⟨?_, ?_⟩⟩
  · obtain ⟨before, begun, run⟩ := Leads.after .empty steps 0
    exact ⟨before, begun, run⟩
  · exact (sound_after steps).isPlayed

/-! ### A drop and a subscription in passing -/

/-- The first handler of a bell drops the second and the third, joined into one subscription; the fourth adds one. -/
def passing : List EventStep :=
  [.event "bell", .subscribeDropping "dropper" "bell" "first", .subscribe "first" "bell", .subscribe "second" "bell",
    .join "first" "second", .subscribeAdding "adder" "bell" "late"]

theorem event_passing : (empty.after passing).hub.event? 0 = some ⟨4, true,
    [(0, .noteDropping "dropper" "first"), (1, .note "first"), (2, .note "second"), (3, .noteAdding "adder" "late" 0)]⟩ := by
  decide

theorem event_passed : (empty.after (passing ++ [.raise "bell"])).hub.event? 0 = some ⟨5, true,
    [(0, .noteDropping "dropper" "first"), (3, .noteAdding "adder" "late" 0), (4, .note "late")]⟩ := by
  decide

/-- The first raise still calls both handlers that it drops, and not the one that it adds. The second calls that one,
and none of the two. -/
theorem bell_rung_twice : ∃ (now rung later again last : Activity) (first second : List Occurrence) (r r' : Nat),
    now.Step (.begins r 0) rung ∧ rung.Runs (first ++ [.ends r]) later ∧
    later.Step (.begins r' 0) again ∧ again.Runs (second ++ [.ends r']) last ∧
    (callsBy r first).map (·.1) = [0, 1, 2, 3] ∧ (∀ h, (4, h) ∉ callsBy r first) ∧
    told first = [.note "dropper", .note "first", .note "second", .note "adder"] ∧
    (callsBy r' second).map (·.1) = [0, 3, 4] ∧ (∀ h, (1, h) ∉ callsBy r' second) ∧
    told second = [.note "dropper", .note "adder", .note "late"] := by
  obtain ⟨notifies, -, played⟩ := raises_call_those_present
  obtain ⟨⟨before, r, past⟩, ⟨-, -, -, raises, -⟩⟩ := played passing
  obtain ⟨rung, first, r', begins, future, hcalls, htold, -⟩ := raises 0 _ r event_passing
  obtain ⟨-, -, -, -, raises', -⟩ := played (passing ++ [.raise "bell"])
  obtain ⟨again, second, count, begins', future', hcalls', htold', -⟩ := raises' 0 _ r' event_passed
  have soFar := past.append (.next begins future)
  -- The second handler is there before the first raise and gone after it.
  have has : (idle (empty.after passing) r).hub.Has 0 1 (.note "first") := ⟨_, event_passing, by simp⟩
  have gone : ¬ (idle (empty.after (passing ++ [.raise "bell"])) r').hub.Has 0 1 (.note "first") := by
    rintro ⟨e, he, hmem⟩
    obtain rfl := Option.some.inj (event_passed.symm.trans he)
    simp at hmem
  have unheard := (notifies soFar begins' future').1.gone past (.next begins future) .done has gone
  refine ⟨_, rung, _, again, _, first, second, r, r', begins, future, begins', future', ?_, ?_, ?_, ?_, ?_, ?_⟩
  · rw [hcalls]
    rfl
  · rw [hcalls]
    simp
  · rw [htold]
    decide
  · rw [hcalls']
    rfl
  · intro h hx
    refine unheard h ?_
    rw [callsBy_append]
    exact List.mem_append_left _ hx
  · rw [htold']
    decide

end EventWorkspace
end BlockScript
