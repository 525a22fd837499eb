import BlockScript.Proofs.Script.Alone
import BlockScript.Proofs.Session.Cancelled
import BlockScript.Proofs.Session.WakeUp

/-!
Loops in sessions. Whatever happens in a session, each script goes on in a course of its own, in which the others and the
clock may do what they like as long as a cancellation lasts; and a script that is the only one in a machine goes on as it
does alone. So what loops do in such courses they do in every session.
-/
namespace BlockScript

open Moment

/-- Others may do what they like, but the script stays cancelled once it is. -/
def Keeping (c : Caller) : Interference := fun _ w w' => w.isCancelled c.script = true → w'.isCancelled c.script = true

theorem lasting_keeping (c : Caller) : Lasting (Keeping c) c := fun _ _ _ keeps => keeps

/-- Where the script stands. -/
def Thread.moment (t : Thread) (w : World) : Moment := ⟨w, t.frames, t.pause⟩

namespace Machine

variable {m : Machine} {script : Nat} {t : Thread}

/-- A script that is not over does its next piece. -/
theorem piece_of_left (present : m.thread? script = some t) (runs : m.canRun t = true)
    (left : ¬(t.moment m.world).IsOver) :
    m.piece script = { m with world := ((t.moment m.world).piece t.caller).world }.putThread script
      ((t.moment m.world).piece t.caller).frames ((t.moment m.world).piece t.caller).pause := by
  obtain rfl := script_of_thread? present
  rw [piece_of_canRun present runs]
  have hpiece : (t.moment m.world).piece t.caller = after (m.world.piece t) := rfl
  have spec := m.world.piece_spec t
  rw [hpiece]
  generalize m.world.piece t = r at spec
  obtain ⟨w, progress⟩ := r
  cases progress with
  | done =>
    obtain ⟨hframes, hpause, -⟩ := spec.of_done rfl
    exact absurd ⟨hframes, hpause⟩ left
  | _ => rfl

/-- A script that is over ends. -/
theorem piece_of_over (present : m.thread? script = some t) (hover : (t.moment m.world).IsOver) :
    m.piece script = m.finishThread t := by
  obtain ⟨hframes, hpause⟩ := hover
  have hframes : t.frames = [] := hframes
  have hpause : t.pause = .ready := hpause
  have runs : m.canRun t = true := by rw [canRun, hpause, World.canResume]
  rw [piece_of_canRun present runs, World.piece, hpause, hframes]
  rfl

end Machine

/-! ### Among others -/

namespace Session

/-- In the session the script goes on in a course of its own, to where it stands after the moves or to its end. -/
def Continues (s : Session) (script : Nat) (t : Thread) (moves : List Move) : Prop :=
  (∃ t' n, (s.after moves).machine.thread? script = some t' ∧ t'.caller = t.caller ∧
    Course (Keeping t.caller) t.caller n (t.moment s.world) (t'.moment (s.after moves).world)) ∨
  ∃ k ≤ moves.length, ∃ n,
    Course (Keeping t.caller) t.caller n (t.moment s.world) ⟨(s.after (moves.take k)).world, [], .ready⟩

/-- In the session the script goes on in a course of its own among such others, to where it stands after the moves or to
its end. -/
def ContinuesAmong (others : Interference) (s : Session) (script : Nat) (t : Thread) (moves : List Move) : Prop :=
  (∃ t' n, (s.after moves).machine.thread? script = some t' ∧ t'.caller = t.caller ∧
    Course others t.caller n (t.moment s.world) (t'.moment (s.after moves).world)) ∨
  ∃ k ≤ moves.length, ∃ n,
    Course others t.caller n (t.moment s.world) ⟨(s.after (moves.take k)).world, [], .ready⟩

variable {s : Session} {script : Nat} {t u : Thread} {others : Interference}

/-- A move of a session is a piece of the script, or others make it. -/
theorem next_make (present : s.machine.thread? script = some u) (left : ¬(u.moment s.world).IsOver) (move : Move)
    (acts : move ≠ .tick (.piece script) → others u.pause s.world (s.make move).world) :
    ∃ u', (s.make move).machine.thread? script = some u' ∧ u'.caller = u.caller ∧
      (u'.moment (s.make move).world = u.moment s.world ∨
        (u.moment s.world).Next others u.caller (u'.moment (s.make move).world)) := by
  by_cases hmove : move = .tick (.piece script)
  · subst hmove
    rcases s.machine.piece_cases script with ⟨hsame, -⟩ | ⟨u', hu', runs, -⟩
    · have hsame : (s.make (.tick (.piece script))).machine = s.machine := hsame
      refine ⟨u, hsame ▸ present, rfl, .inl ?_⟩
      rw [world, hsame]
      rfl
    · obtain rfl := Option.some.inj (present.symm.trans hu')
      have hpiece : (s.make (.tick (.piece script))).machine = _ := Machine.piece_of_left present runs left
      refine ⟨{ u with
        frames := ((u.moment s.world).piece u.caller).frames
        pause := ((u.moment s.world).piece u.caller).pause }, ?_, rfl, .inr ?_⟩
      · rw [hpiece]
        exact Machine.thread?_putThread (m := { s.machine with world := _ }) present _ _
      · have hworld : (s.make (.tick (.piece script))).world = ((u.moment s.world).piece u.caller).world :=
          congrArg Machine.world hpiece
        rw [hworld]
        obtain rfl := Machine.script_of_thread? present
        exact .own left runs
  · exact ⟨u, thread?_make present hmove, rfl, .inr (.other left (acts hmove))⟩

/-- A script goes on among others that make all moves but its own. -/
theorem continuesAmong (present : s.machine.thread? script = some t) {moves : List Move}
    (acts : ∀ before move later, moves = before ++ move :: later → move ≠ .tick (.piece script) → ∀ u,
      (s.after before).machine.thread? script = some u → u.caller = t.caller →
      others u.pause (s.after before).world ((s.after before).make move).world) :
    s.ContinuesAmong others script t moves := by
  induction moves using List.reverseRecOn with
  | nil => exact .inl ⟨t, 0, present, rfl, .refl _⟩
  | append_singleton moves move ih =>
    have hlength : moves.length ≤ (moves ++ [move]).length := by simp
    have ih := ih fun before x later hmoves => acts before x (later ++ [move]) (by simp [hmoves])
    rcases ih with ⟨u, n, hu, hcaller, course⟩ | ⟨k, hk, n, course⟩
    · by_cases hover : (u.moment (s.after moves).world).IsOver
      · refine .inr ⟨moves.length, hlength, n, ?_⟩
        rw [List.take_left]
        exact (isOver_iff.mp hover) ▸ course
      · obtain ⟨u', hu', hcaller', hsame | next⟩ := next_make hu hover move fun hmove =>
          acts moves move [] rfl hmove u hu hcaller
        · refine .inl ⟨u', n, by rwa [after_append], hcaller'.trans hcaller, ?_⟩
          rw [after_append]
          exact hsame ▸ course
        · refine .inl ⟨u', n + 1, by rwa [after_append], hcaller'.trans hcaller, ?_⟩
          rw [after_append]
          rw [hcaller] at next
          exact course.trans (.head next (.refl _))
    · refine .inr ⟨k, Nat.le_trans hk hlength, n, ?_⟩
      rw [List.take_append_of_le_length hk]
      exact course

/-- No move undoes a cancellation. -/
theorem keeping_make (henrolled : s.machine.Enrolled) (present : s.machine.thread? script = some u) {move : Move}
    (hmove : move ≠ .tick (.piece script)) : Keeping u.caller u.pause s.world (s.make move).world := by
  intro hcancelled
  obtain rfl := Machine.script_of_thread? present
  have cancelled := (Cancelled.of_isCancelled henrolled hcancelled).make move
  exact cancelled.isCancelled (enrolled_make henrolled move) (thread?_make present hmove)

theorem continues (henrolled : s.machine.Enrolled) (present : s.machine.thread? script = some t) (moves : List Move) :
    s.Continues script t moves := by
  refine continuesAmong present fun before move later _ hmove u hu hcaller => ?_
  have henrolled' : (s.after before).machine.Enrolled :=
    after_induct (P := fun s => s.machine.Enrolled) henrolled (fun _ move h => enrolled_make h move) before
  exact hcaller ▸ keeping_make henrolled' hu hmove

/-- Nothing wakes a script of a session that does not watch. -/
theorem deaf_after (project : Project) (moves : List Move) {t : Thread}
    (present : ((ofProject project).after moves).machine.thread? script = some t) (unwatched : t.pause.watched? = none) :
    ((ofProject project).after moves).world.Deaf t.caller.script := by
  obtain ⟨plan, owner, sound⟩ := sound_after project moves
  have attends := (sound.threads t (Machine.mem_of_thread? present)).attends
  refine ⟨sound.wired.tidy, fun key n has => ?_, attends.wakesOf_eq_zero unwatched⟩
  obtain ⟨p, links, hpause, -⟩ := attends.heard key n has
  exact Pause.not_watching unwatched hpause

end Session

/-! ### Alone -/

namespace Machine

/-- All that happened in the machine is the course of one script that is alone in it, or was until it ended. -/
def Solo (c : Caller) (relays : List Nat) (start : Moment) (m : Machine) : Prop :=
  (∃ n frames pause, m.threads = [⟨c, frames, pause, relays⟩] ∧ Course Nobody c n start ⟨m.world, frames, pause⟩) ∨
  ∃ n v, m.threads = [] ∧ Course Nobody c n start ⟨v, [], .ready⟩ ∧
    m.world = { (v.dismiss c.script).closeRelays relays with clock := m.world.clock }

namespace Solo

variable {m : Machine} {c : Caller} {relays : List Nat} {start : Moment}

theorem piece (h : m.Solo c relays start) : (m.piece c.script).Solo c relays start := by
  rcases h with ⟨n, frames, pause, hthreads, course⟩ | ⟨n, v, hthreads, course, hworld⟩
  · have present : m.thread? c.script = some ⟨c, frames, pause, relays⟩ := by simp [thread?, hthreads]
    by_cases hover : (Thread.moment ⟨c, frames, pause, relays⟩ m.world).IsOver
    · rw [piece_of_over present hover]
      refine .inr ⟨n, m.world, ?_, isOver_iff.mp hover ▸ course, rfl⟩
      simp [finishThread, hthreads]
    · by_cases runs : m.canRun ⟨c, frames, pause, relays⟩ = true
      · rw [piece_of_left present runs hover]
        have hnext : Course Nobody c (n + 1) start ((Thread.moment ⟨c, frames, pause, relays⟩ m.world).piece c) :=
          course.trans (.head (.own hover runs) (.refl _))
        generalize (Thread.moment ⟨c, frames, pause, relays⟩ m.world).piece c = next at hnext ⊢
        exact .inl ⟨n + 1, next.frames, next.pause, by simp [putThread, hthreads], hnext⟩
      · have hsame : m.piece c.script = m := by simp [Machine.piece, present, runs]
        rw [hsame]
        exact .inl ⟨n, frames, pause, hthreads, course⟩
  · have hsame : m.piece c.script = m := by simp [Machine.piece, thread?, hthreads]
    rw [hsame]
    exact .inr ⟨n, v, hthreads, course, hworld⟩

theorem ticks (h : m.Solo c relays start) (n : Nat) : (m.ticks (.replicate n (.piece c.script))).Solo c relays start := by
  induction n generalizing m with
  | zero => exact h
  | succ n ih => exact ih h.piece

theorem round (h : m.Solo c relays start) : m.round.Solo c relays start := by
  have hround : m.round = m ∨ m.round = m.turn c.script := by
    rcases h with ⟨_, _, _, hthreads, -⟩ | ⟨_, _, hthreads, -⟩ <;> simp [Machine.round, hthreads]
  rcases hround with hround | hround
  · rwa [hround]
  · obtain ⟨n, hn⟩ := m.turn_ticks c.script
    rw [hround, hn]
    exact h.ticks n

theorem setClock (h : m.Solo c relays start) (idle : m.isIdle = true) (time : Nat) : (m.setClock time).Solo c relays start := by
  rcases h with ⟨n, frames, pause, hthreads, course⟩ | ⟨n, v, hthreads, course, hworld⟩
  · refine .inl ⟨n + 1, frames, pause, hthreads, course.trans (.head (.other ?_ ⟨?_, time, rfl⟩) (.refl _))⟩ <;>
      simp only [isIdle, hthreads, List.any_cons, List.any_nil, Bool.or_false, Bool.not_eq_true', canRun] at idle
    · rintro ⟨-, rfl⟩
      cases idle
    · rintro rfl
      cases idle
  · refine .inr ⟨n, v, hthreads, course, ?_⟩
    show { m.world with clock := time } = _
    rw [hworld]
    rfl

theorem runTo (h : m.Solo c relays start) (enough : Machine → Bool) (deadline fuel : Nat) :
    (Machine.runTo enough deadline fuel m).Solo c relays start := by
  induction fuel generalizing m with
  | zero => exact h
  | succ fuel ih =>
    unfold Machine.runTo
    split
    · exact h
    · split
      · rename_i idle
        exact ih (h.setClock idle _)
      · exact ih h.round

end Solo
end Machine

/-! ### What loops do -/

/-- What loops over a body do among others. -/
structure LoopsAmong (others : Interference) (c : Caller) (body : List (Action Nat)) : Prop where
  /-- The count is taken once, before the first round. There are as many rounds as it says, unless the script is
  cancelled by the end of an earlier one. -/
  times : ∀ times w w', Performs others c (.repeatTimes times body) w w' ↔
    ∃ k ≤ (w.counted c times).1, Rounds others c none body k (w.counted c times).2 w' ∧
      (k < (w.counted c times).1 → w'.isCancelled c.script = true)
  /-- The condition is tested before each round, and after the last unless the script is cancelled by then. It holds only
  then. -/
  untilHolds : ∀ p w w', Performs others c (.repeatUntil p body) w w' ↔
    ∃ k v, Rounds others c (some p) body k w v ∧ (v.isCancelled c.script = true ∧ w' = v ∨
      v.isCancelled c.script = false ∧ v.evaluate c.figure p.test = (true, w'))
  forever : ∀ w w', Performs others c (.forever body) w w' ↔
    ∃ k, Rounds others c none body k w w' ∧ w'.isCancelled c.script = true
  /-- A loop that does not come to an end does rounds as well. -/
  underWay : ∀ loop n w m, loop.body = body → Course others c n ⟨w, [.check loop], .ready⟩ m →
    ∃ k v, Laps others c loop k w v ∧ (loop.after k).Stage others c v m
  rounds : ∀ test j k w w', Rounds others c test body (j + k) w w' ↔
    ∃ v, Rounds others c test body j w v ∧ Rounds others c test body k v w'
  /-- The round in which the script is cancelled is the last. -/
  cancelled : Lasting others c → ∀ test n n' k v m u w', Course others c n ⟨v, [.blocks body], .ready⟩ m →
    m.world.isCancelled c.script = true → Course others c n' m ⟨u, [], .ready⟩ → Rounds others c test body k u w' →
    k = 0 ∧ w'.isCancelled c.script = true
  /-- A block, with whatever is left to do behind it. -/
  block : ∀ a rest below w w', Executes others c (.blocks (a :: rest) :: below) w w' ↔
    ∃ v, Meanwhile others w v ∧ (v.isCancelled c.script = true ∧ Executes others c below v w' ∨
      v.isCancelled c.script = false ∧ ∃ u, Performs others c a v u ∧ Executes others c (.blocks rest :: below) u w')

/-- What loops over a body do in a script that is alone. -/
structure LoopsAlone (c : Caller) (body : List (Action Nat)) : Prop where
  times : ∀ times w w', Performs Nobody c (.repeatTimes times body) w w' ↔
    Repeats c Eq body (w.counted c times).1 (w.counted c times).2 w'
  /-- The executions might as well begin where the loop does, if the count takes no draws. -/
  timesFromStart : ∀ times w w', Performs Nobody c (.repeatTimes times body) w w' →
    (w.counted c times).2.traces.random = w.traces.random → w.Deaf c.script →
    ∃ v', Repeats c Eq body (w.counted c times).1 w v' ∧ w'.Alike v'
  forever : ∀ w w', Performs Nobody c (.forever body) w w' ↔
    ∃ k, Repeats c (Enters c none) body k w w' ∧ w'.isCancelled c.script = true
  untilStops : ∀ p w w', Performs Nobody c (.repeatUntil p body) w w' → w.Deaf c.script →
    ∃ k v x, Repeats c (Fails c p) body k w v ∧ Stops c p v x ∧ w'.Alike x
  stopsUntil : ∀ p k w v x, Repeats c (Fails c p) body k w v → Stops c p v x → w.Deaf c.script →
    ∃ w', Performs Nobody c (.repeatUntil p body) w w' ∧ w'.Alike x
  /-- The condition does not hold after fewer executions. -/
  least : ∀ p j k w v, Repeats c (Fails c p) body k w v → j < k →
    ∃ u, Repeats c (Fails c p) body j w u ∧ (u.evaluate c.figure p.test).1 = false
  /-- Where the condition takes no draws there is nothing between the executions. -/
  drawless : ∀ p k w v x, (∀ u : World, u.drawn c.figure p = u) → Repeats c (Fails c p) body k w v → Stops c p v x →
    Repeats c Eq body k w v ∧ x = v

theorem loopsAmong (others : Interference) (c : Caller) (body : List (Action Nat)) : LoopsAmong others c body where
  times _ _ _ := performs_repeatTimes_iff
  untilHolds _ _ _ := performs_repeatUntil_iff
  forever _ _ := performs_forever_iff
  underWay _ _ _ _ _ course := course.stage
  rounds _ _ _ _ _ := rounds_add_iff
  cancelled lasting _ _ _ _ _ _ _ _ _ hm rest rounds := rounds.eq_zero lasting (rest.isCancelled lasting hm)
  block a rest below w w' := by
    rw [← List.singleton_append, executes_append]
    simp only [executes_blocks_cons, ← List.singleton_append (l := below), executes_append]
    constructor
    · rintro ⟨x, ⟨v, hv, ⟨hcancelled, rfl⟩ | ⟨hlive, u, performs, hx⟩⟩, hw'⟩
      · exact ⟨_, hv, .inl ⟨hcancelled, hw'⟩⟩
      · exact ⟨v, hv, .inr ⟨hlive, u, performs, x, hx, hw'⟩⟩
    · rintro ⟨v, hv, ⟨hcancelled, hw'⟩ | ⟨hlive, u, performs, x, hx, hw'⟩⟩
      · exact ⟨v, ⟨v, hv, .inl ⟨hcancelled, rfl⟩⟩, hw'⟩
      · exact ⟨x, ⟨v, hv, .inr ⟨hlive, u, performs, hx⟩⟩, hw'⟩

theorem loopsAlone (c : Caller) (body : List (Action Nat)) : LoopsAlone c body where
  times _ _ _ := performs_repeatTimes_alone_iff
  timesFromStart _ _ _ performs hrandom deaf := performs.repeats_times hrandom deaf
  forever _ _ := performs_forever_alone_iff
  untilStops _ _ _ performs deaf := performs.repeats_until deaf
  stopsUntil _ _ _ _ _ repeats stops deaf := repeats.performs_until stops deaf
  least p j k w v repeats hlt := by
    obtain ⟨u, x, hu, -, htest, -⟩ := repeats.before_of_lt hlt
    exact ⟨u, hu, htest⟩
  drawless p k w v x hdrawn repeats stops := by
    refine ⟨repeats.mono fun w v fails => ?_, ?_⟩
    · exact (fails.2.2.trans (hdrawn w)).symm
    · rcases stops with ⟨-, hx⟩ | ⟨-, -, hx⟩
      · exact hx
      · exact hx.trans (hdrawn v)

/-- Loops match their reference. Among others a loop does rounds of its body, as many as its count says or until its
condition holds, and none after the one in which the script is cancelled; and every script of every session goes on in such
a course. In a script that is alone rounds are executions of the body one after the other, from where the loop begins to
where it ends, up to what the script does not notice; and every machine with one script runs it so. -/
theorem loops_match_reference (c : Caller) (body : List (Action Nat)) :
    (∀ others, LoopsAmong others c body) ∧ LoopsAlone c body ∧ Lasting (Keeping c) c ∧
    (∀ project moves script t, ((Session.ofProject project).after moves).machine.thread? script = some t →
      (∀ later, ((Session.ofProject project).after moves).Continues script t later) ∧
      (t.pause.watched? = none → ((Session.ofProject project).after moves).world.Deaf t.caller.script)) ∧
    ∀ m t enough deadline fuel, m.threads = [t] →
      (Machine.runTo enough deadline fuel m).Solo t.caller t.relays (t.moment m.world) := by
  refine ⟨fun others => loopsAmong others c body, loopsAlone c body, lasting_keeping c, ?_, ?_⟩
  · intro project moves script t present
    exact ⟨fun later => Session.continues (Session.enrolled_after project moves) present later,
      fun unwatched => Session.deaf_after project moves present unwatched⟩
  · intro m t enough deadline fuel hthreads
    have start : m.Solo t.caller t.relays (t.moment m.world) := .inl ⟨0, t.frames, t.pause, hthreads, .refl _⟩
    exact start.runTo enough deadline fuel

/-- A script that stops itself in the first round of a loop that has no end does one round, and comes to its end. -/
theorem selfStopping_one_round :
    let s := (Session.ofProject Session.selfStopping).after [.greenFlag]
    let t : Thread := ⟨⟨0, 0⟩, [.blocks [.forever [.command (.stop .thisScript)]]], .ready, []⟩
    s.Continues 0 t Session.selfStoppingMoves ∧ s.world.Deaf 0 ∧
      (Machine.runTo Machine.isFinished 1000 10 s.machine).Solo ⟨0, 0⟩ [] (t.moment s.world) ∧
      Performs Nobody ⟨0, 0⟩ (.forever [.command (.stop .thisScript)]) s.world (s.world.cancelWhere (·.script == 0)) := by
  intro s t
  obtain ⟨-, alone, -, sessions, machines⟩ := loops_match_reference ⟨0, 0⟩ [.command (.stop .thisScript)]
  obtain ⟨continues, deaf⟩ := sessions Session.selfStopping [.greenFlag] 0 t rfl
  refine ⟨continues _, deaf rfl, machines s.machine t _ _ _ rfl, (alone.forever _ _).mpr ⟨1, ?_, rfl⟩⟩
  have stops : Performs Nobody ⟨0, 0⟩ (.command (.stop .thisScript)) s.world (s.world.cancelWhere (·.script == 0)) :=
    ⟨0, .refl _⟩
  have executes := executes_blocks_cons.mpr ⟨_, .refl, .inr ⟨rfl, _, stops, executes_blocks_nil.mpr .refl⟩⟩
  exact ⟨s.world, _, ⟨rfl, rfl⟩, executes, rfl⟩

end BlockScript
