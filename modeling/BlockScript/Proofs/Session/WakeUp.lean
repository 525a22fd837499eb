import BlockScript.Proofs.Session.Wiring

/-!
No wake-up is lost. A condition that leaves nothing to chance tests true only after data has changed that
its last test read. The relays of that data were connected by the test, and the waiting script listens
to all relays of its condition, also to those that no test came by, so it has been woken.
-/
namespace BlockScript

/-! ### Nothing left to chance -/

/-- A keyword for any position of a list. -/
def Value.IsChance (x : Value) : Prop := x = .text "random" ∨ x = .text "any"

mutual
/-- In a view, the operand picks no random number, and no position in a list by a keyword for any. -/
def Operand.IsSteady (v : View) : Operand Nat → Prop
  | .constant _ => True
  | .soundMenu _ => True
  | .source _ _ => True
  | .search q _ _ argument => argument.IsSteady v ∧ (q = .item → ∀ t, ¬ (argument.eval v t).1.IsChance)
  | .unary _ a => a.IsSteady v
  | .binary _ a b => a.IsSteady v ∧ b.IsSteady v
  | .random _ _ => False
  | .truth p => p.IsSteady v
/-- The same for all that a condition evaluates. -/
def Predicate.IsSteady (v : View) : Predicate Nat → Prop
  | .absent => True
  | .compare _ a b => a.IsSteady v ∧ b.IsSteady v
  | .logic _ _ a b => a.IsSteady v ∧ b.IsSteady v
  | .not p => p.IsSteady v
  | .listHas _ _ item => item.IsSteady v
end

/-- What is computed does not depend on the traces. -/
def Eval.IsFixed {α : Type} (m : Eval α) : Prop := ∃ a, ∀ t, (m t).1 = a

namespace Eval.IsFixed

variable {α β : Type}

theorem pure (a : α) : IsFixed (Pure.pure a) := ⟨a, fun _ => rfl⟩

theorem bind {m : Eval α} {k : α → Eval β} (hm : IsFixed m) (hk : ∀ a, (∃ t, (m t).1 = a) → IsFixed (k a)) :
    IsFixed (m >>= k) := by
  obtain ⟨a, ha⟩ := hm
  obtain ⟨b, hb⟩ := hk a ⟨⟨.empty, [], ⟨0⟩⟩, ha _⟩
  refine ⟨b, fun t => ?_⟩
  show (k (m t).1 (m t).2).1 = b
  rw [ha]
  exact hb _

theorem findVariable (v : View) (ref : Ref) (relay : Nat) : IsFixed (v.findVariable ref relay) := by
  unfold View.findVariable
  cases v.scene.findVariable? v.figure ref with
  | some a => exact ⟨_, fun _ => rfl⟩
  | none => exact ⟨_, fun _ => rfl⟩

theorem findList (v : View) (ref : Ref) (relay : Nat) : IsFixed (v.findList ref relay) := by
  unfold View.findList
  cases v.scene.findList? v.figure ref with
  | some a => exact ⟨_, fun _ => rfl⟩
  | none => exact ⟨_, fun _ => rfl⟩

theorem read (v : View) (relay : Nat) (s : Source) : IsFixed (v.read relay s) := by
  cases s with
  | «variable» ref =>
    refine (findVariable v ref relay).bind fun found _ => ?_
    cases found <;> exact .pure _
  | listContents ref =>
    refine (findList v ref relay).bind fun found _ => ?_
    cases found <;> exact .pure _
  | listLength ref =>
    refine (findList v ref relay).bind fun found _ => ?_
    cases found <;> exact .pure _
  | pose c opcode => exact ⟨_, fun _ => rfl⟩
  | volume => exact ⟨_, fun _ => rfl⟩
  | pointer c opcode =>
    simp only [View.read]
    cases v.scene.pointer with
    | tracked x y => exact ⟨_, fun _ => rfl⟩
    | fixed x y => exact ⟨_, fun _ => rfl⟩

theorem answer (items : List Value) {argument : Value} {q : ListQuery} (h : q = .item → ¬ argument.IsChance) :
    IsFixed (q.answer items argument) := by
  cases q with
  | position => exact .pure _
  | item =>
    have hdraws : listIndexDraws argument items.length = false := by
      have := h rfl
      simp only [Value.IsChance, not_or] at this
      simp [listIndexDraws, this]
    unfold ListQuery.answer resolveIndex
    rw [hdraws]
    refine IsFixed.bind (.pure _) fun i _ => ?_
    cases i <;> exact .pure _

end Eval.IsFixed

mutual
theorem Operand.IsSteady.isFixed {v : View} : {o : Operand Nat} → o.IsSteady v → (o.eval v).IsFixed
  | .constant x, _ => .pure x
  | .soundMenu sound, _ => .pure _
  | .source s relay, _ => .read v relay s
  | .search q list relay argument, h => by
    obtain ⟨steady, hchance⟩ := h
    simp only [Operand.eval]
    refine (Eval.IsFixed.findList v list relay).bind fun found _ => ?_
    cases found with
    | none => exact .pure _
    | some items =>
      refine steady.isFixed.bind fun x hx => .answer items fun hq => ?_
      obtain ⟨t, rfl⟩ := hx
      exact hchance hq t
  | .unary op a, h => by
    simp only [Operand.eval]
    exact Eval.IsFixed.bind (Operand.IsSteady.isFixed h) fun _ _ => .pure _
  | .binary op a b, h => by
    simp only [Operand.eval]
    exact h.1.isFixed.bind fun _ _ => h.2.isFixed.bind fun _ _ => .pure _
  | .random a b, h => h.elim
  | .truth p, h => by
    simp only [Operand.eval]
    exact Eval.IsFixed.bind (Predicate.IsSteady.isFixed h) fun _ _ => .pure _
theorem Predicate.IsSteady.isFixed {v : View} : {p : Predicate Nat} → p.IsSteady v → (p.test v).IsFixed
  | .absent, _ => .pure _
  | .compare c a b, h => by
    simp only [Predicate.test]
    exact h.1.isFixed.bind fun _ _ => h.2.isFixed.bind fun _ _ => .pure _
  | .logic c opcode a b, h => by
    simp only [Predicate.test]
    refine h.1.isFixed.bind fun x _ => ?_
    cases c <;> cases x
    · exact .pure false
    · exact h.2.isFixed
    · exact h.2.isFixed
    · exact .pure true
  | .not p, h => by
    simp only [Predicate.test]
    exact Eval.IsFixed.bind (Predicate.IsSteady.isFixed h) fun _ _ => .pure _
  | .listHas list relay item, h => by
    simp only [Predicate.test]
    refine (Eval.IsFixed.findList v list relay).bind fun found _ => ?_
    cases found with
    | none => exact .pure _
    | some items => exact Eval.IsFixed.bind (Operand.IsSteady.isFixed h) fun _ _ => .pure _
end

/-! ### Waiting for a condition -/

/-- The script watches the condition, or is about to begin a block that waits for it. -/
def Thread.WaitsFor (t : Thread) (p : Predicate Nat) : Prop :=
  (∃ links, t.pause = .watching p links) ∨
    t.pause = .ready ∧ ∃ rest next, t.frames = .blocks (.waitUntil p :: rest) :: next

namespace World

/-- The world is what a test left that failed. -/
def HasFailed (w : World) (figure : Nat) (p : Predicate Nat) : Prop :=
  ∃ before : World, before.evaluate figure p.test = (false, w)

/-- What a piece of a script does that waits for a condition. It watches after a test that failed and has
not been woken since, or it goes on because it is cancelled or because a test did not fail. -/
inductive WaitStep (w : World) (c : Caller) (p : Predicate Nat) : World × Progress → Prop
  | watches (w' : World) (next : List Frame) (links : Subscription Channel) (failed : w'.HasFailed c.figure p)
      (zero : w'.wakesOf c.script = 0) : WaitStep w c p (w', .rest next (.watching p links))
  | goes (w' : World) (next : List Frame)
      (why : w.isCancelled c.script = true ∨ ∃ t, (p.test (w.view c.figure) t).1 = true) : WaitStep w c p (w', .go next)

section
variable {w : World} {c : Caller} {p : Predicate Nat}

/-- A step in a world with the same scene and the same scripts. -/
theorem WaitStep.of_eq {w₁ : World} {r : World × Progress} (h : WaitStep w₁ c p r) (scene : w₁.scene = w.scene)
    (roster : w₁.roster = w.roster) : WaitStep w c p r := by
  cases h with
  | watches w' next links failed zero => exact .watches w' next links failed zero
  | goes w' next why =>
    rw [isCancelled, view, roster, scene] at why
    exact .goes w' next why

theorem waitUntil_waitStep (next : List Frame) (zero : w.wakesOf c.script = 0) :
    WaitStep w c p (w.waitUntil c next p) := by
  unfold waitUntil
  dsimp only
  split
  · rename_i holds
    exact .goes _ _ (Or.inr ⟨_, holds⟩)
  · split
    · rename_i holds
      exact .goes _ _ (Or.inr ⟨_, holds⟩)
    · rename_i fails
      exact .watches _ _ _ ⟨_, Prod.ext (Bool.not_eq_true _ ▸ fails) rfl⟩ zero

theorem retest_waitStep (next : List Frame) (links : Subscription Channel) (tries : Nat) (zero : w.wakesOf c.script = 0)
    (failed : tries = 0 → w.HasFailed c.figure p) : WaitStep w c p (w.retest c next p links tries) := by
  induction tries generalizing w with
  | zero => exact .watches _ _ _ (failed rfl) zero
  | succ tries ih =>
    unfold retest
    dsimp only
    split
    · rename_i holds
      exact .goes _ _ (Or.inr ⟨_, holds⟩)
    · rename_i fails
      have step := ih (w := (w.evaluate c.figure p.test).2) zero fun _ => ⟨w, Prod.ext (Bool.not_eq_true _ ▸ fails) rfl⟩
      exact step.of_eq rfl rfl

theorem resume_waitStep (frames : List Frame) (links : Subscription Channel)
    (hcan : w.canResume c.script (.watching p links) = true) : WaitStep w c p (w.resume c frames (.watching p links)) := by
  simp only [resume]
  split
  · rename_i cancelled
    exact .goes _ _ (Or.inl cancelled)
  · rename_i running
    have running : w.isCancelled c.script = false := Bool.not_eq_true _ ▸ running
    have hwoken : 0 < w.wakesOf c.script := by simpa [canResume, running] using hcan
    have step : WaitStep (w.clearWakes c.script) c p _ :=
      retest_waitStep frames links (min (w.wakesOf c.script) 2) (w.wakesOf_clearWakes_self c.script) fun htries => by omega
    exact step.of_eq rfl rfl

theorem piece_waitStep {plan : Plan} {t : Thread} (h : w.Attends plan t.caller t.frames t.pause)
    (hcan : w.canResume t.caller.script t.pause = true) (waits : t.WaitsFor p) : WaitStep w t.caller p (w.piece t) := by
  rcases waits with ⟨links, hpause⟩ | ⟨hpause, rest, next, hframes⟩
  · rw [hpause] at hcan
    simp only [piece, hpause]
    exact resume_waitStep t.frames links hcan
  · have zero := h.wakesOf_eq_zero (hpause ▸ rfl)
    simp only [piece, hpause, hframes, step]
    split
    · rename_i cancelled
      exact .goes _ _ (Or.inl cancelled)
    · exact waitUntil_waitStep _ zero

/-- A steady condition that rests does not hold. -/
theorem Rests.not_holds (h : w.Rests c.figure p) (steady : p.IsSteady (w.view c.figure)) :
    (w.evaluate c.figure p.test).1 = false := by
  obtain ⟨random, reads, htest, -⟩ := h
  obtain ⟨b, hb⟩ := steady.isFixed
  have hfalse := htest (w.view c.figure) (.refl _ _) { w.traces with random } rfl
  exact (hb w.traces).trans ((hb _).symm.trans hfalse)

end
end World

/-! ### Other moves -/

namespace Machine

variable {m : Machine} {script other : Nat} {t : Thread}

theorem thread?_finishThread (h : m.thread? script = some t) {u : Thread} (hne : u.caller.script ≠ script) :
    (m.finishThread u).thread? script = some t := by
  have hsame : (fun x : Thread => decide (x.caller.script != u.caller.script ∧ x.caller.script == script)) =
      fun x => x.caller.script == script := by
    funext x
    by_cases hx : x.caller.script = script
    · simp [hx, hne.symm]
    · simp [hx]
  show (m.threads.filter (·.caller.script != u.caller.script)).find? (·.caller.script == script) = some t
  rw [List.find?_filter, hsame]
  exact h

theorem thread?_putThread_of_ne (h : m.thread? script = some t) (hne : other ≠ script) (frames : List Frame) (pause : Pause) :
    (m.putThread other frames pause).thread? script = some t := by
  have hsame : (fun x : Thread => x.caller.script == script) ∘
      (fun x : Thread => if x.caller.script = other then { x with frames, pause } else x) =
      fun x => x.caller.script == script := by
    funext x
    simp only [Function.comp_apply]
    split <;> rfl
  have hscript := script_of_thread? h
  unfold thread? putThread at *
  rw [List.find?_map, hsame, h]
  simp [hscript, hne.symm]

theorem thread?_piece (h : m.thread? script = some t) (hne : other ≠ script) : (m.piece other).thread? script = some t := by
  rcases m.piece_cases other with ⟨hm, -⟩ | ⟨u, hu, -, hm⟩
  · rwa [hm]
  obtain rfl := script_of_thread? hu
  rw [hm]
  unfold leave
  split
  · exact thread?_finishThread (m := { m with world := _ }) h hne
  · exact thread?_putThread_of_ne (m := { m with world := _ }) h hne _ _

theorem thread?_start (h : m.thread? script = some t) (figure : Nat) (body : List (Action Nat)) (relays : List Nat) :
    (m.start figure body relays).thread? script = some t := by
  unfold thread? at h
  unfold thread? start
  rw [List.find?_append, h]
  rfl

theorem thread?_startAll (bodies : List (Nat × List (Action Nat))) (h : m.thread? script = some t) :
    (bodies.foldl (fun m b => m.start b.1 b.2 []) m).thread? script = some t := by
  induction bodies generalizing m with
  | nil => exact h
  | cons b bodies ih => exact ih (thread?_start h b.1 b.2 [])

end Machine

namespace Session

variable {s : Session} {script : Nat} {t : Thread}

/-- A script is left as it is by all moves but its own pieces. -/
theorem thread?_make (h : s.machine.thread? script = some t) {move : Move} (hmove : move ≠ .tick (.piece script)) :
    (s.make move).machine.thread? script = some t := by
  by_cases hscripted : move.IsScripted
  · cases move with
    | tick x =>
      cases x with
      | piece other => exact Machine.thread?_piece h fun he => hmove (he ▸ rfl)
      | clock time => exact h
    | greenFlag => exact Machine.thread?_startAll s.bodies h
    | start figure block =>
      obtain ⟨body, relays, hm⟩ := s.start_machine figure block
      show (s.start figure block).1.machine.thread? script = some t
      have same : (s.prepared figure block).machine.thread? script = some t := h
      rw [hm]
      exact Machine.thread?_start same figure body relays
    | stopAll => exact h
    | stop figure => exact h
    | _ => cases hscripted
  · unfold Machine.thread?
    rw [(s.sameScripts_make hscripted).threads]
    exact h

theorem thread?_after (h : s.machine.thread? script = some t) (moves : List Move)
    (hmoves : ∀ move ∈ moves, move ≠ .tick (.piece script)) : (s.after moves).machine.thread? script = some t := by
  induction moves generalizing s with
  | nil => exact h
  | cons move moves ih =>
    exact ih (thread?_make h (hmoves move List.mem_cons_self)) fun x hx => hmoves x (List.mem_cons_of_mem _ hx)

/-- No wake-up is lost. Take any moment at which a script that waits for a condition goes on. Either it
watches then: the test it just made failed, and from there until its next piece, whatever happens, it
listens to all relays of the condition, and if the condition would test true it has been woken. Or it is
done with waiting, and then it is cancelled or the condition tests true. -/
theorem woken_when_condition_holds (project : Project) (moves : List Move) (script : Nat) (t : Thread) (p : Predicate Nat)
    (present : ((ofProject project).after moves).machine.thread? script = some t) (waits : t.WaitsFor p)
    (runs : ((ofProject project).after moves).machine.canRun t = true) :
    let s := (ofProject project).after moves
    let s₁ := s.make (.tick (.piece script))
    ∃ t₁, s₁.machine.thread? script = some t₁ ∧ t₁.caller = t.caller ∧
      ((∃ links, t₁.pause = .watching p links ∧ s₁.world.HasFailed t.caller.figure p ∧ s₁.world.wakesOf script = 0 ∧
        ∀ later, (∀ move ∈ later, move ≠ .tick (.piece script)) →
          let s₂ := s₁.after later
          s₂.machine.thread? script = some t₁ ∧ s₂.world.Listens t.caller p links ∧
          (p.IsSteady (s₂.world.view t.caller.figure) → (s₂.world.evaluate t.caller.figure p.test).1 = true →
            0 < s₂.world.wakesOf script)) ∨
      t₁.pause = .ready ∧ (s.world.isCancelled script = true ∨
        (∃ traces, (p.test (s.world.view t.caller.figure) traces).1 = true) ∧
        (p.IsSteady (s.world.view t.caller.figure) → (s.world.evaluate t.caller.figure p.test).1 = true))) := by
  intro s s₁
  obtain rfl := Machine.script_of_thread? present
  obtain ⟨plan, owner, sound⟩ := sound_after project moves
  have attends := (sound.threads t (Machine.mem_of_thread? present)).attends
  have hpiece : s₁.machine = s.machine.leave t (s.world.piece t) := Machine.piece_of_canRun present runs
  generalize hr : s.world.piece t = r at hpiece
  have step : World.WaitStep s.world t.caller p r := hr ▸ World.piece_waitStep attends runs waits
  cases step with
  | watches w' next links failed zero =>
    have hthread : s₁.machine.thread? t.caller.script = some { t with frames := next, pause := .watching p links } := by
      rw [hpiece]
      exact Machine.thread?_putThread (m := { s.machine with world := w' }) present _ _
    have hworld : s₁.world = w' := congrArg Machine.world hpiece
    refine ⟨_, hthread, rfl, Or.inl ⟨links, rfl, hworld ▸ failed, hworld ▸ zero, fun later hlater => ?_⟩⟩
    have hlast := thread?_after hthread later hlater
    -- All is wired at the later moment too.
    obtain ⟨plan₂, owner₂, sound₂⟩ := sound_after project (moves ++ .tick (.piece t.caller.script) :: later)
    rw [after_append] at sound₂
    have thread₂ := sound₂.threads _ (Machine.mem_of_thread? hlast)
    refine ⟨hlast, (thread₂.attends.watched p links rfl).2, fun steady holds => ?_⟩
    rcases thread₂.told p links rfl with woken | rests
    · exact woken
    · exact absurd holds (Bool.eq_false_iff.mp (rests.not_holds steady))
  | goes w' next why =>
    have hthread : s₁.machine.thread? t.caller.script = some { t with frames := next, pause := .ready } := by
      rw [hpiece]
      exact Machine.thread?_putThread (m := { s.machine with world := w' }) present _ _
    refine ⟨_, hthread, rfl, Or.inr ⟨rfl, why.imp_right fun ⟨traces, holds⟩ => ⟨⟨traces, holds⟩, fun steady => ?_⟩⟩⟩
    obtain ⟨b, hb⟩ := steady.isFixed
    exact (hb _).trans ((hb traces).symm.trans holds)

/-- A script that waits until two lists both have an item. -/
def twoLists : Project where
  scene :=
    { figures := [⟨"cat", false, [], [⟨"a", "a", []⟩, ⟨"b", "b", []⟩], [], ⟨0, 0, 90⟩, ⟨100, 0, 0⟩⟩],
      pointer := .fixed 0 0, config := .default }
  graphs := []
  scripts := [⟨0, "hat", [.waitUntil (.logic .and "operator_and" (.listHas ⟨"a", "a"⟩ () (.constant (.boolean true)))
    (.listHas ⟨"b", "b"⟩ () (.constant (.boolean true))))]⟩]

/-- The condition that the script waits for, installed from the first relay on. -/
def twoListsCondition : Predicate Nat :=
  .logic .and "operator_and" (.listHas ⟨"a", "a"⟩ 0 (.constant (.boolean true)))
    (.listHas ⟨"b", "b"⟩ 1 (.constant (.boolean true)))

/-- The second list, which no test has read, is the first to get the item. -/
def twoListsChanges : List Move :=
  [.change (.items ⟨0, "b"⟩ [.boolean true]), .change (.items ⟨0, "a"⟩ [.boolean true])]

theorem twoLists_woken :
    0 < ((((ofProject twoLists).after [.greenFlag]).make (.tick (.piece 0))).after twoListsChanges).world.wakesOf 0 := by
  obtain ⟨t₁, -, -, ⟨links, -, -, -, later⟩ | ⟨-, cancelled | ⟨-, holds⟩⟩⟩ :=
    woken_when_condition_holds twoLists [.greenFlag] 0 _ twoListsCondition rfl (Or.inr ⟨rfl, [], [], rfl⟩) rfl
  · exact (later twoListsChanges (by simp [twoListsChanges])).2.2 ⟨trivial, trivial⟩ rfl
  · cases cancelled
  · cases holds ⟨trivial, trivial⟩

end Session
end BlockScript
