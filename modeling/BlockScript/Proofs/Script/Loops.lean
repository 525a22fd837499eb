import BlockScript.Proofs.Script.Execution

/-!
Loops execute their bodies. A loop that is under way has done some rounds, each with a whole execution of its body, and
is about to decide, in its body or behind it; so what a loop does is told by what its rounds do. How many rounds there
are is up to the count that was taken before the first, or up to the condition that is tested before each, and none
begins once the script is cancelled.
-/
namespace BlockScript

open Moment

/-! ### Rounds -/

/-- The loop after a round. -/
def Loop.next : Loop → Loop
  | .times left body => .times (left - 1) body
  | loop => loop

/-- The loop after so many rounds. -/
def Loop.after : Loop → (rounds : Nat) → Loop
  | loop, 0 => loop
  | loop, rounds + 1 => loop.next.after rounds

/-- A loop goes into a round: it tests in one world and executes its body in another. -/
def Loop.Opens (c : Caller) (loop : Loop) (w w' : World) : Prop :=
  w.checkLoop c [] loop = (w', .go [.blocks loop.body, .rounded loop.next])

/-- A loop does not go into another round. -/
def Loop.Closes (c : Caller) (loop : Loop) (w w' : World) : Prop := w.checkLoop c [] loop = (w', .go [])

section
variable (others : Interference) (c : Caller)

/-- So many rounds of a loop, each with a whole execution of the body, and others in between. -/
inductive Laps : Loop → Nat → World → World → Prop
  | none {loop : Loop} {w w' : World} (wait : Meanwhile others w w') : Laps loop 0 w w'
  | lap {loop : Loop} {k : Nat} {w v v' u w' : World} (wait : Meanwhile others w v) (opens : loop.Opens c v v')
      (body : Executes others c [.blocks loop.body] v' u) (rest : Laps loop.next k u w') : Laps loop (k + 1) w w'

/-- Where a loop can be after some rounds: it is about to decide, at its end, in its body, or behind it. -/
inductive Loop.Stage (loop : Loop) (v : World) : Moment → Prop
  | deciding : Stage loop v ⟨v, [.check loop], .ready⟩
  | ended {v' : World} (closes : loop.Closes c v v') : Stage loop v ⟨v', [], .ready⟩
  | inside {v' : World} {n : Nat} {m : Moment} (opens : loop.Opens c v v')
      (course : Course others c n ⟨v', [.blocks loop.body], .ready⟩ m) : Stage loop v (m.above [.rounded loop.next])
  | behind {v' u u' : World} (opens : loop.Opens c v v') (body : Executes others c [.blocks loop.body] v' u)
      (wait : Meanwhile others u u') : Stage loop v ⟨u', [.rounded loop.next], .ready⟩

end

section
variable {others : Interference} {c : Caller} {loop : Loop} {w w' v : World} {k n : Nat}

theorem Loop.opens_or_closes (c : Caller) (loop : Loop) (w : World) : (∃ w', loop.Opens c w w') ∨ ∃ w', loop.Closes c w w' := by
  unfold Opens Closes World.checkLoop
  cases loop with
  | times left body =>
    cases left with
    | zero => exact .inr ⟨w, rfl⟩
    | succ left => cases w.isCancelled c.script <;> simp [Loop.body, Loop.next]
  | forever body => cases w.isCancelled c.script <;> simp [Loop.body, Loop.next]
  | repeatUntil condition body =>
    cases w.isCancelled c.script with
    | true => simp
    | false => cases (w.evaluate c.figure condition.test).1 <;> simp [Loop.body, Loop.next]

theorem piece_check (w : World) : piece c ⟨w, [.check loop], .ready⟩ = after (w.checkLoop c [] loop) := rfl

theorem Loop.Opens.piece (h : loop.Opens c w w') :
    piece c ⟨w, [.check loop], .ready⟩ = (⟨w', [.blocks loop.body], .ready⟩ : Moment).above [.rounded loop.next] := by
  rw [piece_check, show w.checkLoop c [] loop = _ from h]
  rfl

theorem Loop.Closes.piece (h : loop.Closes c w w') : piece c ⟨w, [.check loop], .ready⟩ = ⟨w', [], .ready⟩ := by
  rw [piece_check, show w.checkLoop c [] loop = _ from h]
  rfl

theorem Laps.head (h : Meanwhile others w v) (h' : Laps others c loop k v w') : Laps others c loop k w w' := by
  cases h' with
  | none wait => exact .none (h.trans wait)
  | lap wait opens body rest => exact .lap (h.trans wait) opens body rest

/-- Wherever a loop comes to, it has done some rounds and is at one of its stages. -/
theorem Moment.Course.stage {m : Moment} (h : Course others c n ⟨w, [.check loop], .ready⟩ m) :
    ∃ k v, Laps others c loop k w v ∧ (loop.after k).Stage others c v m := by
  induction n using Nat.strongRecOn generalizing loop w with
  | ind n ih =>
  obtain ⟨v, hv, rfl | ⟨n', hn', -, hrest⟩⟩ := h.of_ready
  · exact ⟨0, v, .none hv, .deciding⟩
  · rcases loop.opens_or_closes c v with ⟨v', opens⟩ | ⟨v', closes⟩
    · rw [opens.piece] at hrest
      rcases hrest.split with ⟨m₁, rfl, hbody⟩ | ⟨l, l', u, hl, hbody, hrest⟩
      · exact ⟨0, v, .none hv, .inside opens hbody⟩
      · obtain ⟨u', hu', rfl | ⟨n'', hn'', -, hrest⟩⟩ := hrest.of_ready
        · exact ⟨0, v, .none hv, .behind opens ⟨l, hbody⟩ hu'⟩
        · obtain ⟨k, x, laps, stage⟩ := ih n'' (by omega) hrest
          exact ⟨k + 1, x, .lap hv opens ⟨l, hbody⟩ (laps.head hu'), stage⟩
    · rw [closes.piece] at hrest
      obtain rfl := hrest.of_isOver ⟨rfl, rfl⟩
      exact ⟨0, v, .none hv, .ended closes⟩

/-- After its rounds a loop is about to decide again. -/
theorem Laps.course (h : Laps others c loop k w v) :
    ∃ n, Course others c n ⟨w, [.check loop], .ready⟩ ⟨v, [.check (loop.after k)], .ready⟩ := by
  induction h with
  | none wait => exact Course.exists_ready wait (List.cons_ne_nil _ _)
  | @lap loop k w v v' u w' wait opens body rest ih =>
    obtain ⟨n, hn⟩ := ih
    obtain ⟨l, hl⟩ := body
    obtain ⟨l', hl'⟩ := Course.exists_ready (c := c) wait (List.cons_ne_nil (.check loop) [])
    have hround : Course others c (n + 1) ⟨u, [.rounded loop.next], .ready⟩ ⟨w', [.check (loop.next.after k)], .ready⟩ :=
      .head_ready (List.cons_ne_nil _ _) hn
    have hbody := (hl.above [.rounded loop.next]).trans hround
    rw [← opens.piece] at hbody
    exact ⟨_, hl'.trans (.head_ready (List.cons_ne_nil _ _) hbody)⟩

/-- A loop ends when it has done some rounds and does not go into another. -/
theorem executes_check_iff : Executes others c [.check loop] w w' ↔
    ∃ k v, Laps others c loop k w v ∧ (loop.after k).Closes c v w' := by
  constructor
  · rintro ⟨n, h⟩
    obtain ⟨k, v, laps, stage⟩ := h.stage
    generalize hm : (⟨w', [], .ready⟩ : Moment) = m at stage
    cases stage with
    | deciding => cases hm
    | ended closes =>
      cases hm
      exact ⟨k, v, laps, closes⟩
    | inside opens course =>
      have hframes := congrArg Moment.frames hm
      simp [Moment.above] at hframes
    | behind => cases hm
  · rintro ⟨k, v, laps, closes⟩
    obtain ⟨n, hn⟩ := laps.course
    have hend : Course others c 1 ⟨v, [.check (loop.after k)], .ready⟩ ⟨w', [], .ready⟩ := by
      refine .head_ready (List.cons_ne_nil _ _) ?_
      rw [closes.piece]
      exact .refl _
    exact ⟨_, hn.trans hend⟩

end

/-! ### Rounds of a body -/

/-- A loop lets its body be executed: the script is not cancelled, and a condition, if there is one, is tested and does
not hold. -/
def Enters (c : Caller) : Option (Predicate Nat) → World → World → Prop
  | none, w, w' => w.isCancelled c.script = false ∧ w' = w
  | some p, w, w' => w.isCancelled c.script = false ∧ w.evaluate c.figure p.test = (false, w')

section
variable (others : Interference) (c : Caller)

/-- So many executions of a body, each where the loop lets it be executed, and others in between. -/
inductive Rounds (test : Option (Predicate Nat)) (body : List (Action Nat)) : Nat → World → World → Prop
  | none {w w' : World} (wait : Meanwhile others w w') : Rounds test body 0 w w'
  | round {k : Nat} {w v v' u w' : World} (wait : Meanwhile others w v) (enters : Enters c test v v')
      (executes : Executes others c [.blocks body] v' u) (rest : Rounds test body k u w') : Rounds test body (k + 1) w w'

end

section
variable {others : Interference} {c : Caller} {loop : Loop} {test : Option (Predicate Nat)} {p : Predicate Nat}
  {body : List (Action Nat)} {w w' v u : World} {j k n : Nat}

theorem opens_times_iff : (Loop.times n body).Opens c w w' ↔ 0 < n ∧ Enters c none w w' := by
  cases n with
  | zero => simp [Loop.Opens, World.checkLoop]
  | succ n =>
    cases hw : w.isCancelled c.script <;>
      simp [Loop.Opens, World.checkLoop, Enters, hw, Loop.body, Loop.next, eq_comm (a := w) (b := w')]

theorem opens_forever_iff : (Loop.forever body).Opens c w w' ↔ Enters c none w w' := by
  cases hw : w.isCancelled c.script <;>
    simp [Loop.Opens, World.checkLoop, Enters, hw, Loop.body, Loop.next, eq_comm (a := w) (b := w')]

theorem opens_repeatUntil_iff : (Loop.repeatUntil p body).Opens c w w' ↔ Enters c (some p) w w' := by
  cases hw : w.isCancelled c.script with
  | true => simp [Loop.Opens, World.checkLoop, Enters, hw]
  | false =>
    cases hp : w.evaluate c.figure p.test with
    | mk holds v => cases holds <;> simp [Loop.Opens, World.checkLoop, Enters, hw, hp, Loop.body, Loop.next]

theorem closes_times_iff : (Loop.times n body).Closes c w w' ↔ (0 < n → w.isCancelled c.script = true) ∧ w' = w := by
  cases n with
  | zero => simp [Loop.Closes, World.checkLoop, eq_comm (a := w) (b := w')]
  | succ n => cases hw : w.isCancelled c.script <;> simp [Loop.Closes, World.checkLoop, hw, eq_comm (a := w) (b := w')]

theorem closes_forever_iff : (Loop.forever body).Closes c w w' ↔ w.isCancelled c.script = true ∧ w' = w := by
  cases hw : w.isCancelled c.script <;> simp [Loop.Closes, World.checkLoop, hw, eq_comm (a := w) (b := w')]

theorem closes_repeatUntil_iff : (Loop.repeatUntil p body).Closes c w w' ↔
    w.isCancelled c.script = true ∧ w' = w ∨
      w.isCancelled c.script = false ∧ w.evaluate c.figure p.test = (true, w') := by
  cases hw : w.isCancelled c.script with
  | true => simp [Loop.Closes, World.checkLoop, hw, eq_comm (a := w) (b := w')]
  | false =>
    cases hp : w.evaluate c.figure p.test with
    | mk holds v => cases holds <;> simp [Loop.Closes, World.checkLoop, hw, hp]

/-- Where a loop stays the same, its rounds are rounds of its body. -/
theorem laps_iff_rounds (steady : loop.next = loop) (opens : ∀ v v', loop.Opens c v v' ↔ Enters c test v v') :
    Laps others c loop k w w' ↔ Rounds others c test loop.body k w w' := by
  constructor
  · intro h
    induction h with
    | none wait => exact .none wait
    | lap wait h executes _ ih =>
      rw [steady] at ih
      exact .round wait ((opens _ _).mp h) executes (ih steady opens)
  · intro h
    induction h with
    | none wait => exact .none wait
    | round wait enters executes _ ih => exact .lap wait ((opens _ _).mpr enters) executes (steady.symm ▸ ih)

theorem laps_times_iff : Laps others c (.times n body) k w w' ↔ k ≤ n ∧ Rounds others c none body k w w' := by
  constructor
  · intro h
    generalize hloop : Loop.times n body = loop at h
    induction h generalizing n with
    | none wait => exact ⟨Nat.zero_le n, .none wait⟩
    | lap wait opens executes _ ih =>
      subst hloop
      obtain ⟨hpos, enters⟩ := opens_times_iff.mp opens
      obtain ⟨hle, rest⟩ := ih (n := n - 1) rfl
      exact ⟨by omega, .round wait enters executes rest⟩
  · rintro ⟨hle, h⟩
    induction h generalizing n with
    | none wait => exact .none wait
    | round wait enters executes _ ih =>
      exact .lap wait (opens_times_iff.mpr ⟨by omega, enters⟩) executes (ih (n := n - 1) (by omega))

theorem after_times : (Loop.times n body).after k = .times (n - k) body := by
  induction k generalizing n with
  | zero => rfl
  | succ k ih => exact (ih (n := n - 1)).trans (by rw [Nat.sub_sub, Nat.add_comm])

theorem after_of_steady (steady : loop.next = loop) : loop.after k = loop := by
  induction k with
  | zero => rfl
  | succ k ih => exact (congrArg (Loop.after · k) steady).trans ih

/-! ### The three loops -/

/-- How often a loop is to run its body for a count, in the world in which the count was taken. -/
def World.counted (w : World) (c : Caller) (times : Operand Nat) : Nat × World :=
  let (count, w) := w.evaluate c.figure times.number
  let (n, records) := iterationCount count
  (n, records.foldl log w)

theorem performs_repeatTimes_iff {times : Operand Nat} : Performs others c (.repeatTimes times body) w w' ↔
    ∃ k ≤ (w.counted c times).1, Rounds others c none body k (w.counted c times).2 w' ∧
      (k < (w.counted c times).1 → w'.isCancelled c.script = true) := by
  have hbegun : Performs others c (.repeatTimes times body) w w' ↔
      Executes others c [.check (.times (w.counted c times).1 body)] (w.counted c times).2 w' := .rfl
  rw [hbegun, executes_check_iff]
  constructor
  · rintro ⟨k, v, laps, closes⟩
    obtain ⟨hle, rounds⟩ := laps_times_iff.mp laps
    rw [after_times, closes_times_iff] at closes
    obtain ⟨hcancelled, rfl⟩ := closes
    exact ⟨k, hle, rounds, fun hlt => hcancelled (by omega)⟩
  · rintro ⟨k, hle, rounds, hcancelled⟩
    refine ⟨k, w', laps_times_iff.mpr ⟨hle, rounds⟩, ?_⟩
    rw [after_times, closes_times_iff]
    exact ⟨fun hpos => hcancelled (by omega), rfl⟩

theorem performs_forever_iff : Performs others c (.forever body) w w' ↔
    ∃ k, Rounds others c none body k w w' ∧ w'.isCancelled c.script = true := by
  have hbegun : Performs others c (.forever body) w w' ↔ Executes others c [.check (.forever body)] w w' := .rfl
  rw [hbegun, executes_check_iff]
  refine exists_congr fun k => ?_
  simp only [@laps_iff_rounds others c (.forever body) none _ _ _ rfl fun _ _ => opens_forever_iff,
    @after_of_steady (.forever body) _ rfl, closes_forever_iff]
  constructor
  · rintro ⟨v, rounds, hcancelled, rfl⟩
    exact ⟨rounds, hcancelled⟩
  · rintro ⟨rounds, hcancelled⟩
    exact ⟨w', rounds, hcancelled, rfl⟩

theorem performs_repeatUntil_iff : Performs others c (.repeatUntil p body) w w' ↔
    ∃ k v, Rounds others c (some p) body k w v ∧ (v.isCancelled c.script = true ∧ w' = v ∨
      v.isCancelled c.script = false ∧ v.evaluate c.figure p.test = (true, w')) := by
  have hbegun : Performs others c (.repeatUntil p body) w w' ↔ Executes others c [.check (.repeatUntil p body)] w w' := .rfl
  rw [hbegun, executes_check_iff]
  simp only [@laps_iff_rounds others c (.repeatUntil p body) (some p) _ _ _ rfl fun _ _ => opens_repeatUntil_iff,
    @after_of_steady (.repeatUntil p body) _ rfl, closes_repeatUntil_iff]
  rfl

/-! ### Cancellation -/

/-- Others do not undo the cancellation of a script. -/
def Lasting (others : Interference) (c : Caller) : Prop :=
  ∀ pause v v', others pause v v' → v.isCancelled c.script = true → v'.isCancelled c.script = true

theorem Meanwhile.isCancelled (h : Meanwhile others w w') (lasting : Lasting others c) (hw : w.isCancelled c.script = true) :
    w'.isCancelled c.script = true := by
  induction h with
  | refl => exact hw
  | tail _ acts ih => exact lasting _ _ _ acts ih

/-- A script that is cancelled stays so whatever it does. -/
theorem World.isCancelled_piece {t : Thread} (h : w.isCancelled t.caller.script = true) :
    (w.piece t).1.isCancelled t.caller.script = true := by
  rcases (w.piece_spec t).kept (f := fun w => w.isCancelled t.caller.script) fun _ _ _ _ => rfl with
    hsame | ⟨_, _, _, -, -, running, -⟩
  · exact hsame.trans h
  · rw [h] at running
    cases running

/-- A script that is cancelled on its way is cancelled at the end. -/
theorem Moment.Course.isCancelled {m m' : Moment} (h : Course others c n m m') (lasting : Lasting others c)
    (hm : m.world.isCancelled c.script = true) : m'.world.isCancelled c.script = true := by
  induction h with
  | refl => exact hm
  | head next _ ih =>
    cases next with
    | own => exact ih (World.isCancelled_piece (t := ⟨c, _, _, []⟩) hm)
    | other _ acts => exact ih (lasting _ _ _ acts hm)

theorem Enters.not_cancelled (h : Enters c test w w') : w.isCancelled c.script = false := by
  cases test <;> exact h.1

/-- Once the script is cancelled its loops let no body be executed. -/
theorem Rounds.eq_zero (h : Rounds others c test body k w w') (lasting : Lasting others c)
    (hw : w.isCancelled c.script = true) : k = 0 ∧ w'.isCancelled c.script = true := by
  cases h with
  | none wait => exact ⟨rfl, wait.isCancelled lasting hw⟩
  | round wait enters =>
    have := wait.isCancelled lasting hw
    rw [enters.not_cancelled] at this
    cases this

theorem rounds_zero_iff : Rounds others c test body 0 w w' ↔ Meanwhile others w w' := by
  constructor
  · rintro ⟨wait⟩
    exact wait
  · exact .none

theorem Rounds.head (h : Meanwhile others w v) (h' : Rounds others c test body k v w') :
    Rounds others c test body k w w' := by
  cases h' with
  | none wait => exact .none (h.trans wait)
  | round wait enters executes rest => exact .round (h.trans wait) enters executes rest

theorem rounds_add_iff : Rounds others c test body (j + k) w w' ↔
    ∃ u, Rounds others c test body j w u ∧ Rounds others c test body k u w' := by
  induction j generalizing w with
  | zero =>
    rw [Nat.zero_add]
    constructor
    · exact fun h => ⟨w, .none .refl, h⟩
    · rintro ⟨u, ⟨wait⟩, h⟩
      exact .head wait h
  | succ j ih =>
    rw [Nat.add_right_comm]
    constructor
    · rintro (_ | ⟨wait, enters, executes, rest⟩)
      obtain ⟨u, hu, h⟩ := ih.mp rest
      exact ⟨u, .round wait enters executes hu, h⟩
    · rintro ⟨u, _ | ⟨wait, enters, executes, rest⟩, h⟩
      exact .round wait enters executes (ih.mpr ⟨u, rest, h⟩)

end
end BlockScript
