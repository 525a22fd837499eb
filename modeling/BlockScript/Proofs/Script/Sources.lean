import BlockScript.Proofs.Event.Workspace
import BlockScript.Proofs.Script.Pieces
import BlockScript.Proofs.Script.Tandem
import BlockScript.Proofs.Script.Wiring

/-!
What a piece of a script reads, told by running it once more. A relay keeps the first source that it is fed from,
so the feeds after a piece do not tell what the piece has read; those that it leaves in a world where no relay was fed
do. Nothing else depends on the feeds, so both runs come the same way, and a relay is fed afterwards from the source
it had, or else from the one that the second run has it read first.
-/
namespace BlockScript

/-! ### Sources of relays -/

namespace Hub

variable {hub : Hub Channel}

/-- The channel that a relay is fed from. -/
def source? (hub : Hub Channel) (r : Nat) : Option Channel := (hub.feeds.lookup (.relay r)).map (·.event)

theorem source?_congr {hub' : Hub Channel} (h : hub'.feeds = hub.feeds) (r : Nat) : hub'.source? r = hub.source? r := by
  rw [source?, source?, h]

theorem source?_connect (r k : Nat) (c : Channel) :
    (hub.connect (.relay k) c).source? r = (hub.source? r).or (if r = k then some c else none) := by
  unfold source?
  rw [lookup_connect]
  by_cases hr : r = k
  · subst hr
    cases hl : hub.feeds.lookup (.relay r) <;> simp [Hub.subscribe]
  · simp [hr]

theorem source?_connectAll (reads : List (Nat × Channel)) (r : Nat) :
    (hub.connectAll reads).source? r = (hub.source? r).or (reads.lookup r) := by
  induction reads generalizing hub with
  | nil => simp [connectAll]
  | cons x reads ih =>
    obtain ⟨k, c⟩ := x
    show ((hub.connect (.relay k) c).connectAll reads).source? r = _
    rw [ih, source?_connect, Option.or_assoc]
    by_cases hr : r = k
    · simp [hr]
    · have hr' : (r == k) = false := beq_false_of_ne hr
      simp [hr, hr', List.lookup_cons]

end Hub

/-! ### Evaluation -/

/-- From a random source a computation has one outcome, connects the same relays in every hub and leaves one random
source. -/
def Eval.IsRepeatable {α : Type} (m : Eval α) : Prop :=
  ∀ random, ∃ a reads after, ∀ t : Traces, t.random = random →
    (m t).1 = a ∧ (m t).2.hub = t.hub.connectAll reads ∧ (m t).2.random = after

namespace Eval.IsRepeatable

variable {α β : Type}

theorem of_isReading {taps : List (Nat × Source)} {m : View → Eval α} (h : BlockScript.IsReading taps m) (v : View) :
    IsRepeatable (m v) := by
  intro random
  obtain ⟨a, reads, after, outcome, -⟩ := h v random
  exact ⟨a, reads, after, outcome v (.refl v reads)⟩

theorem map {m : Eval α} (h : IsRepeatable m) (f : α → β) : IsRepeatable (m >>= fun a => Pure.pure (f a)) := by
  intro random
  obtain ⟨a, reads, after, outcome⟩ := h random
  refine ⟨f a, reads, after, fun t ht => ?_⟩
  obtain ⟨hresult, hhub, hrandom⟩ := outcome t ht
  exact ⟨congrArg f hresult, hhub, hrandom⟩

theorem bind {m : Eval α} {k : α → Eval β} (hm : IsRepeatable m) (hk : ∀ a, IsRepeatable (k a)) : IsRepeatable (m >>= k) := by
  intro random
  obtain ⟨a, reads, middle, first⟩ := hm random
  obtain ⟨b, more, after, second⟩ := hk a middle
  refine ⟨b, reads ++ more, after, fun t ht => ?_⟩
  obtain ⟨hresult, hhub, hrandom⟩ := first t ht
  have hrun : (m >>= k) t = k a (m t).2 := congrArg (fun a => k a (m t).2) hresult
  obtain ⟨hresult', hhub', hrandom'⟩ := second (m t).2 hrandom
  rw [hrun, Hub.connectAll_append, ← hhub]
  exact ⟨hresult', hhub', hrandom'⟩

end Eval.IsRepeatable

theorem Operand.isRepeatable_eval (o : Operand Nat) (v : View) : (o.eval v).IsRepeatable := .of_isReading o.isReading_eval v

theorem Operand.isRepeatable_number (o : Operand Nat) (v : View) : (o.number v).IsRepeatable :=
  .of_isReading o.isReading_number v

theorem Predicate.isRepeatable_test (p : Predicate Nat) (v : View) : (p.test v).IsRepeatable :=
  .of_isReading p.isReading_test v

theorem isRepeatable_resolveIndex (index : Value) (length : Nat) (acceptAll : Bool) (v : View) :
    (resolveIndex index length acceptAll).IsRepeatable :=
  .of_isReading (isReading_resolveIndex index length acceptAll : BlockScript.IsReading [] _) v

theorem Step.isRepeatable_destination (step : Step Nat) (v : View) : (step.destination v).IsRepeatable := by
  cases step with
  | goTo x y => exact (x.isRepeatable_number v).bind fun a => (y.isRepeatable_number v).map fun b => (a, b)
  | setX x => exact (x.isRepeatable_number v).map fun a => (a, (v.scene.poseOf v.figure).y)
  | setY y => exact (y.isRepeatable_number v).map fun a => ((v.scene.poseOf v.figure).x, a)
  | changeX dx =>
    exact (dx.isRepeatable_number v).map fun a => ((v.scene.poseOf v.figure).x + a, (v.scene.poseOf v.figure).y)
  | changeY dy =>
    exact (dy.isRepeatable_number v).map fun a => ((v.scene.poseOf v.figure).x, (v.scene.poseOf v.figure).y + a)
  | forward steps => exact (steps.isRepeatable_number v).map fun a => (v.scene.poseOf v.figure).forward a

/-! ### Worlds -/

namespace World

/-- The world `u` was led the way of `w`, but with no relay fed at first, where `w` began with the hub `start`. -/
structure Retraces (start : Hub Channel) (w u : World) : Prop where
  scene : u.scene = w.scene
  random : u.traces.random = w.traces.random
  roster : u.roster = w.roster
  clock : u.clock = w.clock
  sources : ∀ r, w.hub.source? r = (start.source? r).or (u.hub.source? r)

namespace Retraces

variable {start : Hub Channel} {w u : World}

theorem isCancelled (h : w.Retraces start u) (script : Nat) : u.isCancelled script = w.isCancelled script := by
  rw [World.isCancelled, World.isCancelled, h.roster]

theorem log (h : w.Retraces start u) (x x' : LogRecord) : (w.log x).Retraces start (u.log x') :=
  ⟨h.scene, h.random, h.roster, h.clock, h.sources⟩

theorem logAll (h : w.Retraces start u) (records : List LogRecord) :
    (records.foldl World.log w).Retraces start (records.foldl World.log u) := by
  induction records generalizing w u with
  | nil => exact h
  | cons x records ih => exact ih (h.log x x)

/-- Handlers may come and go as long as the feeds stay. -/
theorem withHub (h : w.Retraces start u) {hub hub' : Hub Channel} (feeds : hub.feeds = w.hub.feeds)
    (feeds' : hub'.feeds = u.hub.feeds) : (w.withHub hub).Retraces start (u.withHub hub') where
  scene := h.scene
  random := h.random
  roster := h.roster
  clock := h.clock
  sources r := (Hub.source?_congr feeds r).trans ((h.sources r).trans (by rw [← Hub.source?_congr feeds' r]; rfl))

theorem evaluate {α : Type} {m : View → Eval α} (h : w.Retraces start u) (figure : Nat) (hm : ∀ v, (m v).IsRepeatable) :
    (u.evaluate figure m).1 = (w.evaluate figure m).1 ∧
      (w.evaluate figure m).2.Retraces start (u.evaluate figure m).2 := by
  obtain ⟨a, reads, after, outcome⟩ := hm (w.view figure) w.traces.random
  have hview : u.view figure = w.view figure := by rw [view, view, h.scene]
  obtain ⟨hw, hhub, hrandom⟩ := outcome w.traces rfl
  obtain ⟨hu, hhub', hrandom'⟩ := outcome u.traces h.random
  unfold World.evaluate
  rw [hview]
  refine ⟨hu.trans hw.symm, ⟨h.scene, hrandom'.trans hrandom.symm, h.roster, h.clock, fun r => ?_⟩⟩
  -- Both connect the same relays, each behind the sources that it had.
  show (m (w.view figure) w.traces).2.hub.source? r = (start.source? r).or ((m (w.view figure) u.traces).2.hub.source? r)
  rw [hhub, hhub', Hub.source?_connectAll, Hub.source?_connectAll, h.sources r, Option.or_assoc]

theorem change (h : w.Retraces start u) (c : Change) : (w.change c).Retraces start (u.change c) where
  scene := congrArg c.apply h.scene
  random := h.random
  roster := h.roster
  clock := h.clock
  sources r := by
    -- The handlers may differ, so a raise may call others, but it leaves the feeds alone.
    have kept : ∀ w : World, (w.change c).hub.source? r = w.hub.source? r := fun w =>
      Hub.source?_congr (Hub.raiseWithin_feeds _ _) r
    rw [kept, kept]
    exact h.sources r

theorem edit (h : w.Retraces start u) (a : Address) (e : ListEdit) :
    (u.edit a e).2 = (w.edit a e).2 ∧ (w.edit a e).1.Retraces start (u.edit a e).1 := by
  unfold World.edit
  rw [h.scene]
  split
  · exact ⟨rfl, h.change _⟩
  · exact ⟨rfl, h⟩

theorem moveTo (h : w.Retraces start u) (figure : Nat) (place : Number × Number) :
    (w.moveTo figure place).Retraces start (u.moveTo figure place) := by
  unfold World.moveTo
  rw [h.scene]
  split
  · exact h.change _
  · exact h

theorem pointTo (h : w.Retraces start u) (figure : Nat) (direction : Number) :
    (w.pointTo figure direction).Retraces start (u.pointTo figure direction) := by
  unfold World.pointTo
  rw [h.scene]
  split
  · exact h.change _
  · exact h

theorem cancelWhere (h : w.Retraces start u) (picks : RosterEntry → Bool) :
    (w.cancelWhere picks).Retraces start (u.cancelWhere picks) :=
  ⟨h.scene, h.random, congrArg (List.map _) h.roster, h.clock, h.sources⟩

end Retraces
end World

/-! ### Commands -/

/-- A run gives the same result in both worlds and leads them the same way. -/
def Run.Retraces {α : Type} (m : Run α) : Prop :=
  ∀ (start : Hub Channel) (w u : World), w.Retraces start u → (m u).1 = (m w).1 ∧ (m w).2.Retraces start (m u).2

namespace Run.Retraces

variable {α β : Type}

theorem pure (a : α) : Retraces (Pure.pure a : Run α) := fun _ _ _ h => ⟨rfl, h⟩

theorem bind {m : Run α} {k : α → Run β} (hm : m.Retraces) (hk : ∀ a, (k a).Retraces) : (m >>= k).Retraces := by
  intro start w u h
  obtain ⟨hresult, hworld⟩ := hm start w u h
  rw [Run.apply_bind, Run.apply_bind]
  cases hw : m w with
  | mk outcome w' =>
    cases hu : m u with
    | mk outcome' u' =>
      rw [hw, hu] at hresult hworld
      obtain rfl : outcome' = outcome := hresult
      cases outcome' with
      | error e => exact ⟨rfl, hworld⟩
      | ok a => exact hk a start _ _ hworld

theorem evaluate {c : Caller} {m : View → Eval α} (hm : ∀ v, (m v).IsRepeatable) : (Run.evaluate c m).Retraces := fun _ _ _ h =>
  ⟨congrArg Except.ok (h.evaluate c.figure hm).1, (h.evaluate c.figure hm).2⟩

theorem modified {f : World → World} (hf : ∀ {start w u}, World.Retraces start w u → (f w).Retraces start (f u)) :
    Retraces (modify f : Run Unit) := fun _ _ _ h => ⟨rfl, hf h⟩

theorem change (c : Change) : (Run.change c).Retraces := modified fun h => h.change c

theorem log (r : LogRecord) : (Run.log r).Retraces := modified fun h => h.log r r

theorem ask (f : Scene → α) : (Run.ask f).Retraces := fun _ _ _ h => ⟨congrArg (fun s => Except.ok (f s)) h.scene, h⟩

theorem edit (a : Address) (e : ListEdit) : (Run.edit a e).Retraces := fun _ _ _ h =>
  ⟨congrArg Except.ok (h.edit a e).1, (h.edit a e).2⟩

theorem findVariable (c : Caller) (ref : Ref) : (Run.findVariable c ref).Retraces := by
  intro start w u h
  rw [Run.apply_findVariable, Run.apply_findVariable, h.scene]
  exact ⟨rfl, h⟩

theorem findList (c : Caller) (ref : Ref) : (Run.findList c ref).Retraces := by
  intro start w u h
  rw [Run.apply_findList, Run.apply_findList, h.scene]
  exact ⟨rfl, h⟩

end Run.Retraces

theorem Evaluated.isRepeatable {α : Type} {taps : List (Nat × Source)} {m : View → Eval α} (h : Evaluated taps m) (v : View) :
    (m v).IsRepeatable := by
  cases h with
  | value _ => exact Operand.isRepeatable_eval _ v
  | number _ => exact Operand.isRepeatable_number _ v
  | position index length acceptAll => exact isRepeatable_resolveIndex index length acceptAll v
  | destination _ => exact Step.isRepeatable_destination _ v

section
variable {c : Caller} {cmd : Command Nat}

theorem Command.Part.retraces {α : Type} {m : Run α} (h : cmd.Part c m) : m.Retraces := by
  induction h with
  | pure a => exact .pure a
  | bind _ _ first rest => exact first.bind rest
  | evaluate h => exact .evaluate h.isRepeatable
  | ask f => exact .ask f
  | log r => exact .log r
  | edit a e => exact .edit a e
  | setVariable a v => exact .change _
  | setAudio _ audio => exact .change _
  | moveTo _ place => exact .modified fun h => h.moveTo _ place
  | pointTo _ direction => exact .modified fun h => h.pointTo _ direction
  | stop _ => exact .modified fun h => h.cancelWhere _

theorem Command.Parts.retraces {m : Run Unit} (h : cmd.Parts c m) : m.Retraces := by
  cases h with
  | part h => exact h.retraces
  | aboutVariable ref h => exact (Run.Retraces.findVariable c ref).bind fun a => (h a).retraces
  | aboutList ref h => exact (Run.Retraces.findList c ref).bind fun a => (h a).retraces

theorem retraces_playSound (c : Caller) (sound : Operand Nat) : (playSound c sound).Retraces :=
  (part_playSound c sound).retraces

theorem Command.retraces_run (c : Caller) (cmd : Command Nat) : (cmd.run c).Retraces := (cmd.parts_run c).retraces

end

/-! ### Pieces -/

namespace World.Retraces

variable {start : Hub Channel} {w u : World} {c : Caller}

theorem command (h : w.Retraces start u) (c : Caller) (cmd : Command Nat) :
    (w.command c cmd).Retraces start (u.command c cmd) := by
  obtain ⟨hresult, hworld⟩ := cmd.retraces_run c start w u h
  unfold World.command
  cases hw : cmd.run c w with
  | mk outcome w' =>
    cases hu : cmd.run c u with
    | mk outcome' u' =>
      rw [hw, hu] at hresult hworld
      obtain rfl : outcome' = outcome := hresult
      cases outcome' with
      | ok _ => exact hworld
      | error e => exact hworld.log _ _

theorem playUntilDone (h : w.Retraces start u) (next : List Frame) (sound : Operand Nat) :
    (w.playUntilDone c next sound).1.Retraces start (u.playUntilDone c next sound).1 := by
  have kept : ∀ w : World, (w.playUntilDone c next sound).1 = (playSound c sound w).2 := by
    intro w
    unfold World.playUntilDone
    split
    · rename_i hw
      rw [hw]
    · rename_i hw
      rw [hw]
  rw [kept, kept]
  exact (retraces_playSound c sound start w u h).2

theorem wait (h : w.Retraces start u) (next : List Frame) (seconds : Number) :
    (w.wait c next seconds).1.Retraces start (u.wait c next seconds).1 := by
  unfold World.wait
  split
  · exact h.log _ _
  · split <;> exact h

theorem waitUntil (h : w.Retraces start u) (next : List Frame) (p : Predicate Nat) :
    (w.waitUntil c next p).1.Retraces start (u.waitUntil c next p).1 := by
  obtain ⟨holds, h₁⟩ := h.evaluate c.figure p.isRepeatable_test
  unfold World.waitUntil
  dsimp only
  rw [holds]
  split
  · exact h₁
  · have h₂ := h₁.withHub (Hub.subscribeAll_feeds (p.relays.map .relay) (.wake c.script))
      (Hub.subscribeAll_feeds (p.relays.map .relay) (.wake c.script))
    obtain ⟨holds₂, h₃⟩ := h₂.evaluate c.figure p.isRepeatable_test
    rw [holds₂]
    split
    · exact h₃.withHub (Hub.release_feeds _) (Hub.release_feeds _)
    · exact h₃

theorem glide (h : w.Retraces start u) (next : List Frame) (seconds x y : Number) :
    (w.glide c next seconds x y).1.Retraces start (u.glide c next seconds x y).1 := by
  unfold World.glide
  dsimp only
  split
  · exact h.moveTo _ _
  · exact h

theorem continueGlide (h : w.Retraces start u) (next : List Frame) (g : Glide) :
    (w.continueGlide c next g).1.Retraces start (u.continueGlide c next g).1 := by
  by_cases hover : 1 ≤ g.progress w.clock
  · simp only [World.continueGlide, h.clock, if_pos hover]
    exact h.moveTo _ _
  · simp only [World.continueGlide, h.clock, if_neg hover]
    exact h.moveTo _ _

theorem begin (h : w.Retraces start u) (next : List Frame) (a : Action Nat) :
    (w.begin c next a).1.Retraces start (u.begin c next a).1 := by
  cases a with
  | command cmd => exact h.command c cmd
  | playUntilDone sound => exact h.playUntilDone next sound
  | wait seconds =>
    obtain ⟨hseconds, h₁⟩ := h.evaluate c.figure seconds.isRepeatable_number
    unfold World.begin
    dsimp only
    rw [hseconds]
    exact h₁.wait next _
  | waitUntil p => exact h.waitUntil next p
  | glide seconds x y =>
    obtain ⟨hseconds, h₁⟩ := h.evaluate c.figure seconds.isRepeatable_number
    obtain ⟨hx, h₂⟩ := h₁.evaluate c.figure x.isRepeatable_number
    obtain ⟨hy, h₃⟩ := h₂.evaluate c.figure y.isRepeatable_number
    unfold World.begin
    dsimp only
    rw [hseconds, hx, hy]
    exact h₃.glide next _ _ _
  | branch opcode condition thenBody elseBody => exact (h.evaluate c.figure condition.isRepeatable_test).2
  | repeatTimes times body =>
    obtain ⟨htimes, h₁⟩ := h.evaluate c.figure times.isRepeatable_number
    unfold World.begin
    dsimp only
    rw [htimes]
    exact h₁.logAll _
  | forever body => exact h
  | repeatUntil condition body => exact h

theorem checkLoop (h : w.Retraces start u) (next : List Frame) (loop : Loop) :
    (w.checkLoop c next loop).1.Retraces start (u.checkLoop c next loop).1 := by
  unfold World.checkLoop
  split
  · exact h
  · exact h
  · exact h
  · rw [h.isCancelled]
    split
    · exact h
    · exact (h.evaluate c.figure (Predicate.isRepeatable_test _)).2

theorem step (h : w.Retraces start u) (frames : List Frame) : (w.step c frames).1.Retraces start (u.step c frames).1 := by
  unfold World.step
  split
  · exact h
  · exact h
  · rw [h.isCancelled]
    split
    · exact h
    · exact h.begin _ _
  · exact h.checkLoop _ _
  · exact h

theorem retest (h : w.Retraces start u) (next : List Frame) (p : Predicate Nat) (links : Subscription Channel) (tries : Nat) :
    (w.retest c next p links tries).1.Retraces start (u.retest c next p links tries).1 := by
  induction tries generalizing w u with
  | zero => exact h
  | succ tries ih =>
    obtain ⟨holds, h₁⟩ := h.evaluate c.figure p.isRepeatable_test
    unfold World.retest
    dsimp only
    rw [holds]
    split
    · exact h₁.withHub (Hub.release_feeds _) (Hub.release_feeds _)
    · exact ih h₁

theorem resume (h : w.Retraces start u) (wakes : u.wakesOf c.script = w.wakesOf c.script) (frames : List Frame) (pause : Pause) :
    (w.resume c frames pause).1.Retraces start (u.resume c frames pause).1 := by
  cases pause with
  | ready => exact h
  | sleeping wakeAt => exact h
  | stalled => exact h
  | gliding g wakeAt =>
    simp only [World.resume, h.isCancelled]
    split
    · exact h
    · exact h.continueGlide _ _
  | watching p links =>
    have h₁ : (w.clearWakes c.script).Retraces start (u.clearWakes c.script) :=
      ⟨h.scene, h.random, h.roster, h.clock, h.sources⟩
    -- The wakes tell how often the condition is tested, and what is tested may connect.
    simp only [World.resume, h₁.isCancelled, wakes]
    split
    · exact h₁.withHub (Hub.release_feeds _) (Hub.release_feeds _)
    · exact h₁.retest _ _ _ _

/-- A piece of a script that was woken as often goes the same way. -/
theorem piece (h : w.Retraces start u) {t : Thread} (wakes : u.wakesOf t.caller.script = w.wakesOf t.caller.script) :
    (w.piece t).1.Retraces start (u.piece t).1 := by
  unfold World.piece
  split
  · exact h.step _
  · exact h.resume wakes _ _

end World.Retraces
end BlockScript
