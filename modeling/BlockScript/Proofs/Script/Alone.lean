import BlockScript.Proofs.Script.Alike
import BlockScript.Proofs.Script.Loops
import BlockScript.Proofs.Script.Purpose
import BlockScript.Proofs.Script.Settings

/-!
A script that runs alone. While it lets others run nothing happens, and while it waits only the clock moves on. Where
nothing wakes it, a script that watches a condition waits for good, so what it does up to its end does not depend on who
listens and what was logged. The rounds of its loops are then executions of the body one after the other: tests between
them take draws from the random source and leave nothing else that the script finds.
-/
namespace BlockScript

open Moment

/-- No other script runs, and the clock moves on while the script waits. -/
def Nobody : Interference := fun pause w w' => pause ≠ .ready ∧ ∃ time, w' = { w with clock := time }

theorem meanwhile_nobody_iff {w w' : World} : Meanwhile Nobody w w' ↔ w' = w := by
  constructor
  · intro h
    induction h with
    | refl => rfl
    | tail _ acts => exact absurd rfl acts.1
  · rintro rfl
    exact .refl

/-! ### Nothing wakes the script -/

/-- All that listens to wake a script is released with its links, whatever was connected meanwhile. -/
theorem Hub.unheard_release {hub : Hub Channel} {script : Nat} (tidy : hub.Tidy)
    (unheard : ∀ key n, ¬hub.Has key n (.wake script)) (keys : List Channel) (reads : List (Nat × Channel)) :
    let linked := hub.subscribeAll keys (.wake script)
    ((linked.1.connectAll reads).release linked.2).Tidy ∧
      ∀ key n, ¬((linked.1.connectAll reads).release linked.2).Has key n (.wake script) := by
  intro linked
  have plain : (Handler.wake script : Handler Channel).IsPlain := trivial
  have tidy₁ := tidy.subscribeAll keys plain
  have tidy₂ := tidy₁.connectAll reads
  refine ⟨tidy₂.release _, fun key n has => ?_⟩
  obtain ⟨has, hlink⟩ := tidy₂.has_release.mp has
  rcases (tidy.has_subscribeAll plain).mp (tidy₁.wake_of_connectAll has) with hold | ⟨-, -, hnew⟩
  · exact unheard key n hold
  · exact hlink hnew

namespace World

/-- No handler wakes the script, and it was not woken. -/
structure Deaf (script : Nat) (w : World) : Prop where
  tidy : w.hub.Tidy
  unheard : ∀ key n, ¬w.hub.Has key n (.wake script)
  unwoken : w.wakesOf script = 0

variable {script : Nat} {w w' : World} {c : Caller} {next : List Frame}

namespace Deaf

theorem of_eq (h : w.Deaf script) (hub : w'.hub = w.hub) (signals : w'.signals = w.signals) : w'.Deaf script where
  tidy := hub ▸ h.tidy
  unheard := hub ▸ h.unheard
  unwoken := by
    rw [wakesOf, signals]
    exact h.unwoken

theorem evaluate {α : Type} {m : View → Eval α} {taps : List (Nat × Source)} (h : w.Deaf script) (figure : Nat)
    (hm : IsConnecting taps m) : (w.evaluate figure m).2.Deaf script := by
  obtain ⟨reads, hhub, -⟩ := hm (w.view figure) w.traces
  have hhub : (w.evaluate figure m).2.hub = w.hub.connectAll reads := hhub
  refine ⟨hhub ▸ h.tidy.connectAll reads, fun key n has => ?_, h.unwoken⟩
  rw [hhub] at has
  exact h.unheard key n (h.tidy.wake_of_connectAll has)

theorem change (h : w.Deaf script) (x : Change) : (w.change x).Deaf script := by
  have hhub : (w.change x).hub = w.hub := h.tidy.raise_hub x.channel
  refine ⟨hhub ▸ h.tidy, hhub ▸ h.unheard, ?_⟩
  rw [wakesOf_change, h.unwoken, Nat.add_zero, List.count_eq_zero]
  intro hwake
  obtain ⟨key, n, has⟩ := h.tidy.has_of_wake hwake
  exact h.unheard key n has

theorem acts {figure : Nat} {taps : List (Nat × Source)} (h : w.Deaf script) (acts : Acts figure taps w w') :
    w'.Deaf script := by
  induction acts with
  | refl => exact h
  | tail _ act ih =>
    cases act with
    | log => exact ih.of_eq rfl rfl
    | evaluate _ hm => exact ih.evaluate figure hm
    | change _ x => exact ih.change x

/-- A script that begins to wait for a condition goes on and listens to nothing, or it watches and was not woken. -/
theorem waitUntil (h : w.Deaf c.script) (p : Predicate Nat) :
    (w.waitUntil c next p).2 = .go next ∧ (w.waitUntil c next p).1.Deaf c.script ∨
      (∃ links, (w.waitUntil c next p).2 = .rest next (.watching p links)) ∧
        (w.waitUntil c next p).1.wakesOf c.script = 0 := by
  have h₁ := h.evaluate c.figure p.isConnecting_test
  unfold World.waitUntil
  dsimp only
  split
  · exact .inl ⟨rfl, h₁⟩
  · split
    · generalize (w.evaluate c.figure p.test).2 = w₁ at h₁
      obtain ⟨reads, hhub, -⟩ := p.isConnecting_test (w₁.view c.figure)
        { w₁.traces with hub := (w₁.hub.subscribeAll (p.relays.map .relay) (.wake c.script)).1 }
      obtain ⟨tidy, unheard⟩ := Hub.unheard_release h₁.tidy h₁.unheard (p.relays.map .relay) reads
      rw [← hhub] at tidy unheard
      exact .inl ⟨rfl, tidy, unheard, h₁.unwoken⟩
    · exact .inr ⟨⟨_, rfl⟩, h₁.unwoken⟩

end Deaf
end World

namespace Moment

/-- The script watches a condition, was not woken and is not cancelled. -/
structure Stuck (c : Caller) (m : Moment) : Prop where
  watches : ∃ p links, m.pause = .watching p links
  unwoken : m.world.wakesOf c.script = 0
  running : m.world.isCancelled c.script = false

variable {c : Caller} {m m' : Moment} {w w' v : World} {frames : List Frame} {n : Nat}

theorem Stuck.course (h : Course Nobody c n m m') (stuck : m.Stuck c) : m'.Stuck c := by
  induction h with
  | refl => exact stuck
  | @head n m m₁ m₂ next _ ih =>
    obtain ⟨⟨p, links, hpause⟩, unwoken, running⟩ := stuck
    cases next with
    | own left able => simp [hpause, World.canResume, unwoken, running] at able
    | other left acts =>
      obtain ⟨-, time, rfl⟩ := acts
      exact ih ⟨⟨p, links, hpause⟩, unwoken, running⟩

/-- A piece leaves a script that nothing wakes with nothing that wakes it, or stuck. -/
theorem deaf_or_stuck (deaf : m.world.Deaf c.script) (unwatched : m.pause.watched? = none) :
    (m.piece c).pause.watched? = none ∧ (m.piece c).world.Deaf c.script ∨ (m.piece c).Stuck c := by
  have spec := m.world.piece_spec ⟨c, m.frames, m.pause, []⟩
  unfold piece after
  obtain ⟨w, frames, pause⟩ := m
  generalize World.piece w ⟨c, frames, pause, []⟩ = r at spec
  obtain ⟨w', progress⟩ := r
  dsimp only at spec unwatched deaf ⊢
  cases spec with
  | ends => exact .inl ⟨rfl, deaf⟩
  | stops option rest next => exact .inl ⟨rfl, deaf.of_eq rfl rfl⟩
  | waits p rest next running =>
    rcases deaf.waitUntil p with ⟨hgo, hdeaf⟩ | ⟨⟨links, hrest⟩, unwoken⟩
    · rw [hgo]
      exact .inl ⟨rfl, hdeaf⟩
    · rw [hrest]
      refine .inr ⟨⟨p, links, rfl⟩, unwoken, ?_⟩
      exact (World.waitUntil_kept (f := fun w => w.isCancelled c.script) (fun _ _ _ _ => rfl) w c _ p).trans running
  | wakes p links => cases unwatched
  | acts _ _ acts _ quiet => exact .inl ⟨quiet, deaf.acts acts⟩

/-- A piece that does not end in watching goes the same way in a world that is alike. -/
theorem piece_alike (halike : m.world.Alike v) (unwatched : m.pause.watched? = none)
    (unwatched₁ : (m.piece c).pause.watched? = none) :
    ∃ v₁, ({ m with world := v } : Moment).piece c = { m.piece c with world := v₁ } ∧ (m.piece c).world.Alike v₁ := by
  obtain ⟨hworld, hlike⟩ := halike.piece (t := ⟨c, m.frames, m.pause, []⟩) unwatched
  refine ⟨(v.piece ⟨c, m.frames, m.pause, []⟩).1, ?_, hworld⟩
  unfold piece after at unwatched₁ ⊢
  generalize World.piece m.world ⟨c, m.frames, m.pause, []⟩ = r at unwatched₁ hlike ⊢
  generalize World.piece v ⟨c, m.frames, m.pause, []⟩ = r' at hlike
  obtain ⟨_, progress⟩ := r
  obtain ⟨_, progress'⟩ := r'
  cases hlike with
  | same => rfl
  | watching => cases unwatched₁

/-- In a world that is alike a script that nothing wakes comes to its end in the same way. -/
theorem Course.alike (h : Course Nobody c n m ⟨w', [], .ready⟩) (unwatched : m.pause.watched? = none)
    (deaf : m.world.Deaf c.script) (halike : m.world.Alike v) :
    ∃ v', Course Nobody c n { m with world := v } ⟨v', [], .ready⟩ ∧ w'.Alike v' ∧ w'.Deaf c.script := by
  generalize hend : (⟨w', [], .ready⟩ : Moment) = e at h
  induction h generalizing v with
  | refl m =>
    subst hend
    exact ⟨v, .refl _, halike, deaf⟩
  | @head n m m₁ m₂ next rest ih =>
    subst hend
    cases next with
    | own left able =>
      rcases deaf_or_stuck deaf unwatched with ⟨unwatched₁, deaf₁⟩ | stuck
      · obtain ⟨v₁, hpiece, halike₁⟩ := piece_alike halike unwatched unwatched₁
        obtain ⟨v', hv', hend⟩ := ih unwatched₁ deaf₁ halike₁ rfl
        have able' : v.canResume c.script m.pause = true := (halike.canResume c.script unwatched).trans able
        refine ⟨v', .head (.own left able') ?_, hend⟩
        rw [hpiece]
        exact hv'
      · -- A script that is stuck does not come to an end.
        obtain ⟨⟨p, links, hpause⟩, -⟩ := Stuck.course rest stuck
        cases hpause
    | other left acts =>
      obtain ⟨hpause, time, rfl⟩ := acts
      obtain ⟨v', hv', hend⟩ := ih unwatched (deaf.of_eq rfl rfl) (halike.setClock time) rfl
      exact ⟨v', .head (.other left ⟨hpause, time, rfl⟩) hv', hend⟩

end Moment

section
variable {c : Caller} {w w' v : World} {frames : List Frame} {body : List (Action Nat)} {k n : Nat}

theorem Executes.alike (h : Executes Nobody c frames w w') (deaf : w.Deaf c.script) (halike : w.Alike v) :
    ∃ v', Executes Nobody c frames v v' ∧ w'.Alike v' ∧ w'.Deaf c.script := by
  obtain ⟨n, h⟩ := h
  obtain ⟨v', hv', rest⟩ := h.alike rfl deaf halike
  exact ⟨v', ⟨n, hv'⟩, rest⟩

/-- Executing a body changes nothing once the script is cancelled. -/
theorem executes_cancelled (hw : w.isCancelled c.script = true) : Executes Nobody c [.blocks body] w w' ↔ w' = w := by
  cases body with
  | nil => rw [executes_blocks_nil, meanwhile_nobody_iff]
  | cons a rest => simp [executes_blocks_cons, meanwhile_nobody_iff, hw]

end

/-! ### One after the other -/

/-- So many executions of a body one after the other, with something done before each. -/
def Repeats (c : Caller) (before : World → World → Prop) (body : List (Action Nat)) : Nat → World → World → Prop
  | 0, w, w' => w' = w
  | k + 1, w, w' => ∃ v u, before w v ∧ Executes Nobody c [.blocks body] v u ∧ Repeats c before body k u w'

/-- The world after the draws of a test, with nothing else that the test leaves. -/
def World.drawn (w : World) (figure : Nat) (p : Predicate Nat) : World :=
  { w with traces := { w.traces with random := (w.evaluate figure p.test).2.traces.random } }

/-- The script is not cancelled and a condition does not hold; its test takes draws. -/
def Fails (c : Caller) (p : Predicate Nat) (w v : World) : Prop :=
  w.isCancelled c.script = false ∧ (w.evaluate c.figure p.test).1 = false ∧ v = w.drawn c.figure p

/-- The script is cancelled, or a condition holds; its test takes draws. -/
def Stops (c : Caller) (p : Predicate Nat) (w v : World) : Prop :=
  w.isCancelled c.script = true ∧ v = w ∨
    w.isCancelled c.script = false ∧ (w.evaluate c.figure p.test).1 = true ∧ v = w.drawn c.figure p

section
variable {c : Caller} {before : World → World → Prop} {test : Option (Predicate Nat)} {p : Predicate Nat}
  {body : List (Action Nat)} {w w' v x : World} {k n : Nat}

theorem Repeats.mono {before' : World → World → Prop} (h : Repeats c before body k w w')
    (hbefore : ∀ w v, before w v → before' w v) : Repeats c before' body k w w' := by
  induction k generalizing w with
  | zero => exact h
  | succ k ih =>
    obtain ⟨v, u, hv, executes, rest⟩ := h
    exact ⟨v, u, hbefore w v hv, executes, ih rest⟩

/-- What is done before each execution is done after all executions before it. -/
theorem Repeats.before_of_lt (h : Repeats c before body k w w') (hlt : n < k) :
    ∃ v x, Repeats c before body n w v ∧ before v x := by
  induction k generalizing w n with
  | zero => cases hlt
  | succ k ih =>
    obtain ⟨v, u, hv, executes, rest⟩ := h
    cases n with
    | zero => exact ⟨w, v, rfl, hv⟩
    | succ n =>
      obtain ⟨y, x, hy, hx⟩ := ih rest (Nat.lt_of_succ_lt_succ hlt)
      exact ⟨y, x, ⟨v, u, hv, executes, hy⟩, hx⟩

/-- Executions in worlds that are alike, if what is done before each can be done alike. -/
theorem Repeats.alike (h : Repeats c before body k w w') (before' : World → World → Prop) (deaf : w.Deaf c.script)
    (halike : w.Alike v)
    (hbefore : ∀ w u v, before w u → w.Deaf c.script → w.Alike v →
      ∃ u', before' v u' ∧ u.Alike u' ∧ u.Deaf c.script) :
    ∃ v', Repeats c before' body k v v' ∧ w'.Alike v' ∧ w'.Deaf c.script := by
  induction k generalizing w v with
  | zero =>
    obtain rfl : w' = w := h
    exact ⟨v, rfl, halike, deaf⟩
  | succ k ih =>
    obtain ⟨w₁, w₂, hw₁, executes, rest⟩ := h
    obtain ⟨v₁, hv₁, halike₁, deaf₁⟩ := hbefore w w₁ v hw₁ deaf halike
    obtain ⟨v₂, executes', halike₂, deaf₂⟩ := executes.alike deaf₁ halike₁
    obtain ⟨v', rest', hend⟩ := ih rest deaf₂ halike₂
    exact ⟨v', ⟨v₁, v₂, hv₁, executes', rest'⟩, hend⟩

/-- What executions lead to does not depend on what the script does not notice. -/
theorem Repeats.alike_self (h : Repeats c Eq body k w w') (deaf : w.Deaf c.script) (halike : w.Alike v) :
    ∃ v', Repeats c Eq body k v v' ∧ w'.Alike v' := by
  obtain ⟨v', hv', halike', -⟩ := h.alike Eq deaf halike fun w u v hu hdeaf hv => by
    subst hu
    exact ⟨v, rfl, hv, hdeaf⟩
  exact ⟨v', hv', halike'⟩

theorem repeats_cancelled (hw : w.isCancelled c.script = true) : Repeats c Eq body k w w' ↔ w' = w := by
  induction k with
  | zero => rfl
  | succ k ih =>
    constructor
    · rintro ⟨_, u, rfl, executes, rest⟩
      obtain rfl := (executes_cancelled hw).mp executes
      exact ih.mp rest
    · intro h
      exact ⟨w, w, rfl, (executes_cancelled hw).mpr rfl, ih.mpr h⟩

/-! ### Loops -/

/-- The rounds of a script that runs alone are executions of the body one after the other. -/
theorem rounds_nobody_iff : Rounds Nobody c test body k w w' ↔ Repeats c (Enters c test) body k w w' := by
  induction k generalizing w with
  | zero => exact rounds_zero_iff.trans meanwhile_nobody_iff
  | succ k ih =>
    constructor
    · rintro (_ | ⟨wait, enters, executes, rest⟩)
      obtain rfl := meanwhile_nobody_iff.mp wait
      exact ⟨_, _, enters, executes, ih.mp rest⟩
    · rintro ⟨v, u, enters, executes, rest⟩
      exact .round .refl enters executes (ih.mpr rest)

/-- Executions that were asked for are those that are done up to a cancellation. -/
theorem repeats_iff_rounds : Repeats c Eq body n w w' ↔
    ∃ k ≤ n, Rounds Nobody c none body k w w' ∧ (k < n → w'.isCancelled c.script = true) := by
  simp only [rounds_nobody_iff]
  induction n generalizing w with
  | zero =>
    constructor
    · exact fun h => ⟨0, Nat.le_refl 0, h, nofun⟩
    · rintro ⟨k, hk, rounds, -⟩
      obtain rfl := Nat.le_zero.mp hk
      exact rounds
  | succ n ih =>
    cases hw : w.isCancelled c.script with
    | true =>
      rw [repeats_cancelled hw]
      constructor
      · rintro rfl
        exact ⟨0, Nat.zero_le _, rfl, fun _ => hw⟩
      · rintro ⟨k, -, rounds, -⟩
        cases k with
        | zero => exact rounds
        | succ k =>
          obtain ⟨_, _, ⟨hlive, -⟩, -⟩ := rounds
          rw [hw] at hlive
          cases hlive
    | false =>
      constructor
      · rintro ⟨_, u, rfl, executes, rest⟩
        obtain ⟨k, hk, rounds, hcancelled⟩ := ih.mp rest
        exact ⟨k + 1, Nat.succ_le_succ hk, ⟨w, u, ⟨hw, rfl⟩, executes, rounds⟩,
          fun hlt => hcancelled (Nat.lt_of_succ_lt_succ hlt)⟩
      · rintro ⟨k, hk, rounds, hcancelled⟩
        cases k with
        | zero =>
          obtain rfl : w' = w := rounds
          rw [hcancelled (Nat.succ_pos n)] at hw
          cases hw
        | succ k =>
          obtain ⟨v, u, ⟨-, rfl⟩, executes, rest⟩ := rounds
          exact ⟨_, u, rfl, executes,
            ih.mpr ⟨k, Nat.le_of_succ_le_succ hk, rest, fun hlt => hcancelled (Nat.succ_lt_succ hlt)⟩⟩

theorem performs_repeatTimes_alone_iff {times : Operand Nat} : Performs Nobody c (.repeatTimes times body) w w' ↔
    Repeats c Eq body (w.counted c times).1 (w.counted c times).2 w' :=
  performs_repeatTimes_iff.trans repeats_iff_rounds.symm

/-- Taking a count leaves traces only. -/
theorem World.counted_alike {times : Operand Nat} (hrandom : (w.counted c times).2.traces.random = w.traces.random) :
    (w.counted c times).2.Alike w := by
  have acts : Acts c.figure times.taps w (w.counted c times).2 :=
    (Acts.evaluate w times.isConnecting_number).trans (Acts.logAll _ _)
  have hscene : (w.counted c times).2.scene = w.scene := World.logAll_scene _ _
  exact ⟨hscene.symm, hrandom.symm, (acts.kept (f := World.roster) fun _ _ _ _ => rfl).symm,
    (acts.kept (f := World.clock) fun _ _ _ _ => rfl).symm⟩

/-- A loop with a count comes to where executions of the body come to from where it began, if the count takes no draws. -/
theorem Performs.repeats_times {times : Operand Nat} (h : Performs Nobody c (.repeatTimes times body) w w')
    (hrandom : (w.counted c times).2.traces.random = w.traces.random) (deaf : w.Deaf c.script) :
    ∃ v', Repeats c Eq body (w.counted c times).1 w v' ∧ w'.Alike v' := by
  have deaf' : (w.counted c times).2.Deaf c.script :=
    deaf.acts ((World.Acts.evaluate w times.isConnecting_number).trans (World.Acts.logAll _ _))
  exact (performs_repeatTimes_alone_iff.mp h).alike_self deaf' (World.counted_alike hrandom)

theorem performs_forever_alone_iff : Performs Nobody c (.forever body) w w' ↔
    ∃ k, Repeats c (Enters c none) body k w w' ∧ w'.isCancelled c.script = true := by
  simp only [performs_forever_iff, rounds_nobody_iff]

/-- A test has the same outcome in worlds that are alike, and leaves the same as its draws do. -/
theorem World.Alike.tested (h : w.Alike v) (figure : Nat) (p : Predicate Nat) :
    (v.evaluate figure p.test).1 = (w.evaluate figure p.test).1 ∧ (w.evaluate figure p.test).2.Alike (v.drawn figure p) := by
  obtain ⟨hresult, h'⟩ := h.evaluate figure p.isRepeatable_test
  exact ⟨hresult, h.scene, h'.random, h.roster, h.clock⟩

/-- A loop with a condition comes to where executions of the body come to, if its tests take draws only. -/
theorem Performs.repeats_until (h : Performs Nobody c (.repeatUntil p body) w w') (deaf : w.Deaf c.script) :
    ∃ k v x, Repeats c (Fails c p) body k w v ∧ Stops c p v x ∧ w'.Alike x := by
  obtain ⟨k, u, rounds, hstop⟩ := performs_repeatUntil_iff.mp h
  obtain ⟨v, repeats, halike, hdeaf⟩ := (rounds_nobody_iff.mp rounds).alike (Fails c p) deaf (.refl w)
    fun w u v hu hdeaf hv => by
      obtain ⟨hlive, htest⟩ := hu
      obtain ⟨hresult, htested⟩ := hv.tested c.figure p
      rw [htest] at hresult htested
      have hdeaf' := hdeaf.evaluate c.figure p.isConnecting_test
      rw [htest] at hdeaf'
      exact ⟨_, ⟨(hv.isCancelled _).trans hlive, hresult, rfl⟩, htested, hdeaf'⟩
  rcases hstop with ⟨hcancelled, rfl⟩ | ⟨hlive, htest⟩
  · exact ⟨k, v, v, repeats, .inl ⟨(halike.isCancelled _).trans hcancelled, rfl⟩, halike⟩
  · obtain ⟨hresult, htested⟩ := halike.tested c.figure p
    rw [htest] at hresult htested
    exact ⟨k, v, _, repeats, .inr ⟨(halike.isCancelled _).trans hlive, hresult, rfl⟩, htested⟩

/-- And it comes there. -/
theorem Repeats.performs_until (h : Repeats c (Fails c p) body k w v) (hstop : Stops c p v x) (deaf : w.Deaf c.script) :
    ∃ w', Performs Nobody c (.repeatUntil p body) w w' ∧ w'.Alike x := by
  have drawn_alike (w v : World) (hw : w.Alike v) : (w.drawn c.figure p).Alike (v.evaluate c.figure p.test).2 := by
    obtain ⟨-, htested⟩ := hw.symm.tested c.figure p
    exact htested.symm
  obtain ⟨u, repeats, halike, -⟩ := h.alike (Enters c (some p)) deaf (.refl w) fun w u v hu hdeaf hv => by
    obtain ⟨hlive, htest, rfl⟩ := hu
    refine ⟨(v.evaluate c.figure p.test).2, ⟨(hv.isCancelled _).trans hlive, ?_⟩, drawn_alike w v hv, hdeaf.of_eq rfl rfl⟩
    exact Prod.ext ((hv.tested c.figure p).1.trans htest) rfl
  rcases hstop with ⟨hcancelled, rfl⟩ | ⟨hlive, htest, rfl⟩
  · refine ⟨u, performs_repeatUntil_iff.mpr ⟨k, u, rounds_nobody_iff.mpr repeats, .inl ⟨?_, rfl⟩⟩, halike.symm⟩
    exact (halike.isCancelled _).trans hcancelled
  · refine ⟨(u.evaluate c.figure p.test).2, ?_, (drawn_alike v u halike).symm⟩
    refine performs_repeatUntil_iff.mpr ⟨k, u, rounds_nobody_iff.mpr repeats, .inr ⟨(halike.isCancelled _).trans hlive, ?_⟩⟩
    exact Prod.ext ((halike.tested c.figure p).1.trans htest) rfl

end
end BlockScript
