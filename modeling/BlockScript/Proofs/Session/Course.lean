import BlockScript.Proofs.Script.Lockstep
import BlockScript.Proofs.Session.WakeUp

/-!
Courses. A script that has the world to itself takes turn after turn, each at the time it waits for; these stages are
its course. In a machine where every script keeps to a realm of its own, each script follows its course, whatever the
others do in between and whenever the clock jumps, as long as nothing is left to chance.
-/
namespace BlockScript

/-- A world and what a script has left to do in it, if anything. -/
abbrev Stage := World × Option (List Frame × Pause)

namespace Realm

/-- The next turn of a script that is alone. A script that waits for no time stays where it is. -/
def next (r : Realm) : Stage → Stage
  | (w, none) => (w, none)
  | (w, some (frames, pause)) =>
    match pause.due? w.clock with
    | none => (w, some (frames, pause))
    | some time => { w with clock := time }.turn ⟨r.caller 0, frames, pause, []⟩

/-- A script that starts on its figure and is the only one. -/
def first (r : Realm) (body : List (Action Unit)) : Stage :=
  (((World.ofScene r.scene).enroll r.figure).1, some ([.blocks (Action.bareAll body)], .ready))

/-- The stage after some turns. -/
def course (r : Realm) (body : List (Action Unit)) : Nat → Stage
  | 0 => r.first body
  | n + 1 => r.next (r.course body n)

variable {r : Realm} {body : List (Action Unit)} {n m : Nat} {w w' : World}

theorem course_over (h : r.course body n = (w, none)) (hle : n ≤ m) : r.course body m = (w, none) := by
  induction hle with
  | refl => exact h
  | step _ ih => rw [course, ih, next]

/-- A course has one end. -/
theorem course_over_unique (h : r.course body n = (w, none)) (h' : r.course body m = (w', none)) : w = w' := by
  have hw := course_over h (Nat.le_max_left n m)
  have hw' := course_over h' (Nat.le_max_right n m)
  rw [hw] at hw'
  exact congrArg Prod.fst hw'

end Realm

/-- A script of a machine with its number there. -/
structure Guest where
  realm : Realm
  script : Nat
  body : List (Action Unit)

namespace Guest

/-- The script as blocks see it, under its number in the machine. -/
def caller (g : Guest) : Caller := g.realm.caller g.script

/-- The stage that the script has come to after some turns of its own. -/
def stage (g : Guest) (n : Nat) : Stage := g.realm.course g.body n

/-- Nothing has been drawn so far. -/
def IsDrawless (g : Guest) (n : Nat) : Prop := ∀ k, k ≤ n → (g.stage k).1.traces.random.taken = 0

/-- Two scripts are different and own nothing in common. -/
structure Apart (g h : Guest) : Prop where
  script : g.script ≠ h.script
  owns : ∀ k, h.realm.Owns k → ¬ g.realm.Owns k

end Guest

namespace Machine

variable {m m' : Machine} {g h : Guest} {t : Thread} {n : Nat}

/-! ### Other scripts of a turn -/

/-- The threads after a turn are those before it, but for what the script has left to do. -/
theorem mem_settle {x : World × Option (List Frame × Pause)} {u : Thread} (hu : u ∈ (m.settle t x).threads) :
    ∃ v ∈ m.threads, v.caller = u.caller ∧ (u = v ∨ u.caller.script = t.caller.script ∧ x.2 = some (u.frames, u.pause)) := by
  obtain ⟨w, left | ⟨frames, pause⟩⟩ := x
  · exact ⟨u, (List.mem_filter.mp hu).1, rfl, Or.inl rfl⟩
  · obtain ⟨v, hv, rfl⟩ := List.mem_map.mp hu
    refine ⟨v, hv, ?_⟩
    split
    · rename_i hscript
      exact ⟨rfl, Or.inr ⟨hscript, rfl⟩⟩
    · exact ⟨rfl, Or.inl rfl⟩

theorem thread?_settle_of_ne {script : Nat} (hne : script ≠ t.caller.script) (x : World × Option (List Frame × Pause)) :
    (m.settle t x).thread? script = m.thread? script := by
  cases hu : m.thread? script with
  | some u =>
    obtain ⟨w, left | ⟨frames, pause⟩⟩ := x
    · exact thread?_finishThread (m := { m with world := w }) hu hne.symm
    · exact thread?_putThread_of_ne (m := { m with world := w }) hu hne.symm frames pause
  | none =>
    refine List.find?_eq_none.mpr fun u hmem => ?_
    obtain ⟨v, hv, hcaller, -⟩ := mem_settle hmem
    rw [← hcaller]
    exact List.find?_eq_none.mp hu v hv

theorem thread?_finishThread_self (m : Machine) (t : Thread) : (m.finishThread t).thread? t.caller.script = none := by
  refine List.find?_eq_none.mpr fun u hu => ?_
  simpa using (List.mem_filter.mp hu).2

theorem any_dismiss (w : World) {script : Nat} {test : RosterEntry → Bool} (h : ∀ e, test e = true → e.script ≠ script) :
    (w.dismiss script).roster.any test = w.roster.any test := by
  rw [World.dismiss, List.any_filter]
  congr 1
  funext e
  cases he : test e with
  | false => simp
  | true => simp [h e he]

theorem settle_confined {r : Realm} {w : World} {x : World × Option (List Frame × Pause)}
    (confined : w.Confined r t.caller.script x.1) : w.Confined r t.caller.script (m.settle t x).world := by
  obtain ⟨w₁, left | ⟨frames, pause⟩⟩ := x
  · refine ⟨confined.scene, confined.taken, confined.clock, fun k hk => ?_⟩
    obtain ⟨hcancelled, hlisted⟩ := confined.others k hk
    refine ⟨Eq.trans (any_dismiss w₁ fun e he => ?_) hcancelled, Eq.trans (any_dismiss w₁ fun e he => ?_) hlisted⟩
    · have hscript : e.script = k := by simp_all
      exact hscript ▸ hk
    · have hscript : e.script = k := by simp_all
      exact hscript ▸ hk
  · exact confined

/-! ### Following a course -/

/-- The script rests in the machine as it does alone in the world `w`. -/
structure Hosts (m : Machine) (g : Guest) (w : World) (left : List Frame × Pause) (t : Thread) : Prop where
  present : m.thread? g.script = some t
  caller : t.caller = g.caller
  mirrors : m.world.Mirrors g.realm g.script 0 { w with clock := m.world.clock }
  clock : t.pause = .ready → w.clock = m.world.clock
  rests : m.world.AtRest g.realm g.script (t.frames, t.pause) left

/-- The script is at this stage of its course. -/
def Follows (m : Machine) (g : Guest) : Stage → Prop
  | (w, none) => m.thread? g.script = none ∧ g.realm.Alike m.world.scene w.scene
  | (w, some left) => ∃ t, m.Hosts g w left t

theorem same_of_confined {r : Realm} {i : Nat} (confined : m.world.Confined r i m'.world)
    (apart : ∀ k, g.realm.Owns k → ¬ r.Owns k) : ∀ k, g.realm.Sees k → m.world.scene.SameAt m'.world.scene k := by
  rintro k (hk | rfl)
  · exact confined.scene.apart k (apart k hk)
  · exact confined.scene.apart .pointer id

/-- A script stays at its stage while another one keeps to itself. -/
theorem Follows.kept {stage : Stage} (follows : m.Follows g stage) {r : Realm} {i : Nat}
    (confined : m.world.Confined r i m'.world) (hne : g.script ≠ i) (apart : ∀ k, g.realm.Owns k → ¬ r.Owns k)
    (thread : m'.thread? g.script = m.thread? g.script) (none : m'.world.traces.random.taken = 0) : m'.Follows g stage := by
  have same := same_of_confined confined apart
  have drawless : m.world.traces.random.taken = 0 := Nat.eq_zero_of_le_zero (none ▸ confined.taken)
  obtain ⟨hcancelled, hlisted⟩ := confined.others g.script hne
  obtain ⟨w, _ | left⟩ := stage
  · obtain ⟨habsent, alike⟩ := follows
    exact ⟨thread.trans habsent, alike.kept confined.scene.varies same⟩
  · obtain ⟨t, hosts⟩ := follows
    refine ⟨t, thread.trans hosts.present, hosts.caller, ?_, fun hp => (hosts.clock hp).trans confined.clock.symm, ?_⟩
    · refine ⟨hosts.mirrors.scene.kept confined.scene.varies same, ?_, rfl, hosts.mirrors.cancelled.trans hcancelled.symm,
        hosts.mirrors.listed.trans hlisted.symm⟩
      exact hosts.mirrors.random.trans (congrArg Random.mk (drawless.trans none.symm))
    · have awaits := hosts.rests.awaits
      refine hosts.rests.on ⟨?_, fun time ht => ?_, ?_⟩
      · exact awaits.running.imp_right hcancelled.trans
      · rw [confined.clock] at ht ⊢
        exact awaits.due time ht
      · intro p links hp _
        have covers : g.realm.Covers p.sources := by
          have hcovers := hosts.rests.covers
          rw [hp] at hcovers
          exact hcovers
        exact (awaits.fails p links hp drawless).kept covers hosts.mirrors.scene.base confined.scene.varies same

/-- A script that can go on, and watches nothing, goes on at the time it waited for. -/
theorem Hosts.due? {w : World} {left : List Frame × Pause} (hosts : m.Hosts g w left t) (hrun : m.canRun t = true)
    (unwatched : t.pause.watched? = none) : t.pause.due? w.clock = some m.world.clock := by
  have running : t.pause ≠ .ready → m.world.isCancelled g.script = false := hosts.rests.awaits.running.resolve_left
  have hscript : t.caller.script = g.script := congrArg Caller.script hosts.caller
  have due := hosts.rests.awaits.due
  unfold canRun at hrun
  rw [hscript] at hrun
  cases hp : t.pause with
  | ready => exact congrArg some (hosts.clock hp)
  | watching p links =>
    rw [hp] at unwatched
    cases unwatched
  | stalled =>
    rw [hp] at hrun running
    rw [World.canResume, running (by simp)] at hrun
    cases hrun
  | sleeping time =>
    rw [hp] at hrun running due
    have hle : time ≤ m.world.clock := by simpa [World.canResume, running (by simp)] using hrun
    exact congrArg some (Nat.le_antisymm hle (due time rfl))
  | gliding x time =>
    rw [hp] at hrun running due
    have hle : time ≤ m.world.clock := by simpa [World.canResume, running (by simp)] using hrun
    exact congrArg some (Nat.le_antisymm hle (due time rfl))

/-- A script that is woken while its condition fails stays at its stage. -/
theorem Hosts.turn_watching {w : World} {left : List Frame × Pause} (hosts : m.Hosts g w left t) {p : Predicate Nat}
    {links : Subscription Channel} (hp : t.pause = .watching p links) (none : m.world.traces.random.taken = 0) :
    (m.settle t (m.world.turn t)).Hosts g w left t ∧ (m.settle t (m.world.turn t)).world.traces.random.taken = 0 := by
  have running : m.world.isCancelled g.script = false := hosts.rests.awaits.running.resolve_left (by rw [hp]; nofun)
  have fails := hosts.rests.awaits.fails p links hp none
  have hscript : t.caller.script = g.script := congrArg Caller.script hosts.caller
  obtain ⟨traces, signals, htaken, hturn⟩ :=
    World.turn_of_fails links t.frames t.relays running none fails
  have hthread : t = ⟨g.caller, t.frames, .watching p links, t.relays⟩ := by
    rw [← hosts.caller, ← hp]
  have hleft : m.world.turn t = ({ m.world with traces, signals }, some (t.frames, t.pause)) := by
    rw [hp]
    conv_lhs => rw [hthread]
    exact hturn
  rw [hleft]
  refine ⟨⟨?_, hosts.caller, ?_, hosts.clock, ?_⟩, htaken⟩
  · have put := thread?_putThread (m := { m with world := { m.world with traces, signals } }) hosts.present t.frames t.pause
    rw [← hscript] at put ⊢
    exact put
  · have hrandom := hosts.mirrors.random.trans (congrArg Random.mk (none.trans htaken.symm))
    exact ⟨hosts.mirrors.scene, hrandom, rfl, hosts.mirrors.cancelled, hosts.mirrors.listed⟩
  · have awaits := hosts.rests.awaits
    exact hosts.rests.on ⟨awaits.running, awaits.due, fun q l hq _ => awaits.fails q l hq none⟩

/-- A script that watches nothing comes to the next stage. -/
theorem Hosts.turn_unwatched {w : World} {left : List Frame × Pause} (hosts : m.Hosts g w left t)
    (hrun : m.canRun t = true) (unwatched : t.pause.watched? = none) :
    (m.settle t (m.world.turn t)).Follows g (g.realm.next (w, some left)) ∧
      (m.settle t (m.world.turn t)).world.traces.random = (g.realm.next (w, some left)).1.traces.random := by
  have hscript : t.caller.script = g.script := congrArg Caller.script hosts.caller
  have hdue := hosts.due? hrun unwatched
  obtain ⟨frames, pause⟩ := left
  obtain rfl : frames = t.frames.map Frame.bare := hosts.rests.frames
  obtain rfl : pause = t.pause := by
    have mirrors : t.pause.Mirrors pause := hosts.rests.pause
    generalize t.pause = q at mirrors unwatched
    cases mirrors with
    | same _ => rfl
    | watching p links links' => cases unwatched
  have turns := World.turns_of_unwatched hosts.mirrors hosts.rests.fits unwatched t.relays []
  have hthread : (⟨g.realm.caller g.script, t.frames, t.pause, t.relays⟩ : Thread) = t := by
    have hcaller : g.realm.caller g.script = t.caller := hosts.caller.symm
    rw [hcaller]
  rw [hthread] at turns
  have hnext : g.realm.next (w, some (t.frames.map Frame.bare, t.pause)) =
      { w with clock := m.world.clock }.turn ⟨g.realm.caller 0, t.frames.map Frame.bare, t.pause, []⟩ := by
    simp only [Realm.next, hdue]
  rw [hnext]
  generalize m.world.turn t = x at turns
  generalize World.turn _ _ = x' at turns
  obtain ⟨w₁, left₁⟩ := x
  obtain ⟨w₁', left₁'⟩ := x'
  obtain ⟨step, rel⟩ := turns
  have mirrors : w₁.Mirrors g.realm g.script 0 w₁' := step.mirrors
  cases rel with
  | none =>
    refine ⟨⟨?_, mirrors.scene⟩, mirrors.random.symm⟩
    rw [← hscript]
    exact thread?_finishThread_self _ t
  | @some left left' rests =>
    obtain ⟨frames, pause⟩ := left
    refine ⟨⟨{ t with frames, pause }, ?_, hosts.caller, ?_, fun _ => mirrors.clock, rests⟩, mirrors.random.symm⟩
    · have put := thread?_putThread (m := { m with world := w₁ }) hosts.present frames pause
      rw [← hscript] at put ⊢
      exact put
    · exact ⟨mirrors.scene, mirrors.random, rfl, mirrors.cancelled, mirrors.listed⟩

/-- A turn of a script leaves it at its stage, without a draw, or takes it to the next one. -/
theorem Follows.turn (follows : m.Follows g (g.stage n)) (present : m.thread? g.script = some t) (hrun : m.canRun t = true)
    (none : m.world.traces.random.taken = 0) :
    ((m.settle t (m.world.turn t)).Follows g (g.stage n) ∧ (m.settle t (m.world.turn t)).world.traces.random.taken = 0) ∨
      ((m.settle t (m.world.turn t)).Follows g (g.stage (n + 1)) ∧
        (m.settle t (m.world.turn t)).world.traces.random = (g.stage (n + 1)).1.traces.random) := by
  rw [show g.stage (n + 1) = g.realm.next (g.stage n) from rfl]
  generalize g.stage n = stage at follows
  obtain ⟨w, _ | left⟩ := stage
  · obtain ⟨habsent, -⟩ := follows
    rw [present] at habsent
    cases habsent
  · obtain ⟨t', hosts⟩ := follows
    obtain rfl : t = t' := Option.some.inj (present.symm.trans hosts.present)
    cases hp : t.pause.watched? with
    | none => exact Or.inr (hosts.turn_unwatched hrun hp)
    | some watched =>
      obtain ⟨p, links⟩ := watched
      have hpause : t.pause = .watching p links := by
        cases hq : t.pause <;> simp_all [Pause.watched?]
      obtain ⟨still, zero⟩ := hosts.turn_watching hpause none
      exact Or.inl ⟨⟨t, still⟩, zero⟩

theorem nextTime_le {deadline time : Nat} (ht : t ∈ m.threads) (htime : timer? t = some time) :
    m.nextTime deadline ≤ time :=
  Nat.le_trans (Nat.min_le_left _ _) (List.min?_getD_le_of_mem (List.mem_filterMap.mpr ⟨t, ht, htime⟩))

/-- While nobody can go on, the clock jumps to no time after the one that a script waits for. -/
theorem Follows.setClock {stage : Stage} (follows : m.Follows g stage) (idle : m.isIdle = true) (deadline : Nat) :
    (m.setClock (m.nextTime deadline)).Follows g stage := by
  obtain ⟨w, _ | left⟩ := stage
  · exact follows
  · obtain ⟨t, hosts⟩ := follows
    have hmem := mem_of_thread? hosts.present
    have resting : ∀ u ∈ m.threads, m.canRun u = false := by simpa [isIdle] using idle
    have unready : t.pause ≠ .ready := fun hp => by
      have hcan := resting t hmem
      rw [canRun_of_ready hp] at hcan
      cases hcan
    have mirrors := hosts.mirrors
    refine ⟨t, hosts.present, hosts.caller, ⟨mirrors.scene, mirrors.random, rfl, mirrors.cancelled, mirrors.listed⟩,
      fun hp => absurd hp unready, ?_⟩
    have awaits := hosts.rests.awaits
    refine hosts.rests.on ⟨awaits.running, fun time hdue => ?_, awaits.fails⟩
    refine nextTime_le hmem ?_
    unfold timer?
    cases hp : t.pause with
    | ready => exact absurd hp unready
    | _ =>
      rw [hp] at hdue
      exact hdue

/-! ### All scripts of a machine -/

/-- All scripts keep to their realms, and each is on its course while nothing is drawn. -/
structure Plays (cast : List Guest) (m : Machine) : Prop where
  base : ∀ g ∈ cast, g.realm.scene.Varies m.world.scene
  threads : ∀ t ∈ m.threads, ∃ g ∈ cast, t.caller = g.caller ∧ g.realm.Fits t.frames ∧
    g.realm.Covers (t.pause.taps.map (·.2))
  follows : m.world.traces.random.taken = 0 → ∀ g ∈ cast, ∃ n, m.Follows g (g.stage n) ∧ g.IsDrawless n
  drawless : (∀ g ∈ cast, ∀ n, g.IsDrawless n) → m.world.traces.random.taken = 0

namespace Plays

variable {cast : List Guest}

theorem settle (plays : Plays cast m) (apart : ∀ g ∈ cast, ∀ h ∈ cast, g = h ∨ g.Apart h)
    (present : m.thread? t.caller.script = some t) (hrun : m.canRun t = true) : Plays cast (m.settle t (m.world.turn t)) := by
  obtain ⟨g, hg, hcaller, fits, covers⟩ := plays.threads t (mem_of_thread? present)
  have hscript : t.caller.script = g.script := congrArg Caller.script hcaller
  have hcan : m.world.canResume g.script t.pause = true := hscript ▸ hrun
  obtain ⟨x', turns⟩ := World.turns_self (plays.base g hg) fits covers hcan t.relays
  have hthread : (⟨g.realm.caller g.script, t.frames, t.pause, t.relays⟩ : Thread) = t := by
    have same : g.realm.caller g.script = t.caller := hcaller.symm
    rw [same]
  rw [hthread] at turns
  have confined : m.world.Confined g.realm g.script (m.settle t (m.world.turn t)).world := by
    have own : m.world.Confined g.realm t.caller.script (m.world.turn t).1 := hscript.symm ▸ turns.step.confined
    exact hscript ▸ settle_confined own
  have own : ∀ h ∈ cast, h.script = g.script → h = g := fun h hh hsame => by
    rcases apart h hh g hg with he | away
    · exact he
    · exact absurd hsame away.script
  rw [hscript] at present
  refine ⟨fun h hh => (plays.base h hh).trans confined.scene.varies, fun u hu => ?_, fun none h hh => ?_, fun all => ?_⟩
  · obtain ⟨v, hv, hcaller', hsame⟩ := mem_settle hu
    obtain ⟨h, hh, hc, hfits⟩ := plays.threads v hv
    rcases hsame with rfl | ⟨hscript', hleft⟩
    · exact ⟨h, hh, hc, hfits⟩
    · have hu : u.caller = h.caller := hcaller'.symm.trans hc
      obtain rfl := own h hh ((congrArg Caller.script hu).symm.trans (hscript'.trans hscript))
      have rel := turns.left
      rw [hleft] at rel
      generalize x'.2 = left at rel
      cases rel with
      | some rests => exact ⟨h, hh, hu, rests.fits, rests.covers⟩
  · have before : m.world.traces.random.taken = 0 := Nat.eq_zero_of_le_zero (none ▸ confined.taken)
    obtain ⟨n, follows, drawless⟩ := plays.follows before h hh
    rcases apart g hg h hh with rfl | away
    · rcases follows.turn present hrun before with ⟨still, -⟩ | ⟨onwards, hrandom⟩
      · exact ⟨n, still, drawless⟩
      · refine ⟨n + 1, onwards, fun k hk => ?_⟩
        rcases Nat.le_succ_iff.mp hk with hk | rfl
        · exact drawless k hk
        · rw [← hrandom]
          exact none
    · refine ⟨n, follows.kept confined away.script.symm away.owns ?_ none, drawless⟩
      exact thread?_settle_of_ne (hscript ▸ away.script.symm) _
  · have before := plays.drawless all
    obtain ⟨n, follows, -⟩ := plays.follows before g hg
    rcases follows.turn present hrun before with ⟨-, zero⟩ | ⟨-, hrandom⟩
    · exact zero
    · rw [hrandom]
      exact all g hg (n + 1) (n + 1) (Nat.le_refl _)

theorem turn (plays : Plays cast m) (apart : ∀ g ∈ cast, ∀ h ∈ cast, g = h ∨ g.Apart h) (script : Nat) :
    Plays cast (m.turn script) := by
  cases ht : m.thread? script with
  | none =>
    have hturn : m.turn script = m := by simp only [Machine.turn, ht]
    exact hturn.symm ▸ plays
  | some t =>
    obtain rfl := script_of_thread? ht
    by_cases hrun : m.canRun t = true
    · rw [turn_of_canRun ht hrun]
      exact plays.settle apart ht hrun
    · have hturn : m.turn t.caller.script = m := by simp [Machine.turn, ht, hrun]
      exact hturn.symm ▸ plays

theorem round (plays : Plays cast m) (apart : ∀ g ∈ cast, ∀ h ∈ cast, g = h ∨ g.Apart h) : Plays cast m.round := by
  unfold Machine.round
  generalize m.threads.map (·.caller.script) = scripts
  induction scripts generalizing m with
  | nil => exact plays
  | cons script scripts ih => exact ih (plays.turn apart script)

theorem setClock (plays : Plays cast m) (idle : m.isIdle = true) (deadline : Nat) :
    Plays cast (m.setClock (m.nextTime deadline)) where
  base := plays.base
  threads := plays.threads
  follows := fun none g hg => by
    obtain ⟨n, follows, drawless⟩ := plays.follows none g hg
    exact ⟨n, follows.setClock idle deadline, drawless⟩
  drawless := plays.drawless

theorem runTo (apart : ∀ g ∈ cast, ∀ h ∈ cast, g = h ∨ g.Apart h) (enough : Machine → Bool) (deadline fuel : Nat)
    (plays : Plays cast m) : Plays cast (Machine.runTo enough deadline fuel m) := by
  induction fuel generalizing m with
  | zero => exact plays
  | succ fuel ih =>
    unfold Machine.runTo
    split
    · exact plays
    · split
      · rename_i idle
        exact ih (plays.setClock idle deadline)
      · exact ih (plays.round apart)

/-- When all scripts have ended each is at the end of its course. -/
theorem ended (plays : Plays cast m) (finished : m.isFinished = true) (none : m.world.traces.random.taken = 0) (hg : g ∈ cast) :
    ∃ n w, g.stage n = (w, Option.none) ∧ g.realm.Alike m.world.scene w.scene ∧ ∀ k, g.IsDrawless k := by
  obtain ⟨n, follows, drawless⟩ := plays.follows none g hg
  have hthreads : m.threads = [] := List.isEmpty_iff.mp finished
  cases hstage : g.stage n with
  | mk w left =>
    rw [hstage] at follows
    cases left with
    | some left =>
      obtain ⟨t, hosts⟩ := follows
      have hmem := mem_of_thread? hosts.present
      rw [hthreads] at hmem
      cases hmem
    | none =>
      refine ⟨n, w, hstage, follows.2, fun k l _ => ?_⟩
      rcases Nat.le_total l n with hle | hle
      · exact drawless l hle
      · have hover : g.stage l = (w, Option.none) := Realm.course_over hstage hle
        rw [hover, ← hstage]
        exact drawless n (Nat.le_refl n)

end Plays
end Machine

end BlockScript
