import BlockScript.Script.Substack
import BlockScript.Proofs.Script.Pieces
import BlockScript.Proofs.Script.Tandem

/-!
Blocks of a substack do not disturb each other. An execution runs blocks in order up to the one that cancels its
scope, each once; whether blocks fail does not matter to those behind them, and each that fails is told by one record.
A command that fails has done nothing to the world: it looks for its variable or list before anything else.
-/
namespace BlockScript
namespace Substack

variable {α σ : Type}

/-- The state after blocks that all run. -/
def stateAfter (run : α → σ → σ × Option RunError) (blocks : List α) (state : σ) : σ :=
  blocks.foldl (fun state block => (run block state).1) state

/-- The failures of blocks that all run, in order, each with its block. -/
def failures (run : α → σ → σ × Option RunError) : List α → σ → List (α × RunError)
  | [], _ => []
  | block :: rest, state => ((run block state).2.map (block, ·)).toList ++ failures run rest (run block state).1

/-- Blocks that also put themselves down when they run. -/
def traced (run : α → σ → σ × Option RunError) (block : α) (state : σ × List α) : (σ × List α) × Option RunError :=
  (((run block state.1).1, state.2 ++ [block]), (run block state.1).2)

/-- So many blocks run: the scope is not cancelled before any of them, and it is after them unless they are all. -/
structure RunsUpTo (cancelled : σ → Bool) (run : α → σ → σ × Option RunError) (blocks : List α) (state : σ) (n : Nat) :
    Prop where
  le : n ≤ blocks.length
  live : ∀ k < n, cancelled (stateAfter run (blocks.take k) state) = false
  stopped : n < blocks.length → cancelled (stateAfter run (blocks.take n) state) = true

variable {cancelled : σ → Bool} {run : α → σ → σ × Option RunError} {blocks : List α}

theorem stateAfter_congr {run' : α → σ → σ × Option RunError} (same : ∀ block state, (run' block state).1 = (run block state).1) :
    stateAfter run' = stateAfter run := by
  funext blocks state
  simp only [stateAfter, same]

namespace RunsUpTo

theorem zero_iff {block : α} {state : σ} : RunsUpTo cancelled run (block :: blocks) state 0 ↔ cancelled state = true :=
  ⟨fun h => h.stopped (Nat.succ_pos _), fun h => ⟨Nat.zero_le _, nofun, fun _ => h⟩⟩

theorem succ_iff {block : α} {state : σ} {n : Nat} : RunsUpTo cancelled run (block :: blocks) state (n + 1) ↔
    cancelled state = false ∧ RunsUpTo cancelled run blocks (run block state).1 n := by
  constructor
  · intro h
    exact ⟨h.live 0 (Nat.succ_pos n), Nat.le_of_succ_le_succ h.le, fun k hk => h.live (k + 1) (Nat.succ_lt_succ hk),
      fun hn => h.stopped (Nat.succ_lt_succ hn)⟩
  · rintro ⟨hlive, h⟩
    refine ⟨Nat.succ_le_succ h.le, fun k hk => ?_, fun hn => h.stopped (Nat.lt_of_succ_lt_succ hn)⟩
    cases k with
    | zero => exact hlive
    | succ k => exact h.live k (Nat.lt_of_succ_lt_succ hk)

/-- How far a run goes depends on what blocks do to the state, not on whether they fail. -/
theorem congr {run' : α → σ → σ × Option RunError} {state : σ} {n : Nat}
    (same : ∀ block state, (run' block state).1 = (run block state).1) (h : RunsUpTo cancelled run blocks state n) :
    RunsUpTo cancelled run' blocks state n := by
  have hstate := stateAfter_congr same
  exact ⟨h.le, hstate ▸ h.live, hstate ▸ h.stopped⟩

end RunsUpTo

theorem exists_runsUpTo (cancelled : σ → Bool) (run : α → σ → σ × Option RunError) (blocks : List α) (state : σ) :
    ∃ n, RunsUpTo cancelled run blocks state n := by
  induction blocks generalizing state with
  | nil => exact ⟨0, Nat.le_refl _, nofun, nofun⟩
  | cons block blocks ih =>
    cases hstate : cancelled state with
    | true => exact ⟨0, RunsUpTo.zero_iff.mpr hstate⟩
    | false =>
      obtain ⟨n, hn⟩ := ih (run block state).1
      exact ⟨n + 1, RunsUpTo.succ_iff.mpr ⟨hstate, hn⟩⟩

/-- The blocks that run leave their states and their failures. -/
theorem runBlocks_eq {state : σ} {n : Nat} (h : RunsUpTo cancelled run blocks state n) (record : α → RunError → LogRecord) :
    runBlocks cancelled run record blocks state =
      (stateAfter run (blocks.take n) state, (failures run (blocks.take n) state).map fun x => record x.1 x.2) := by
  induction blocks generalizing state n with
  | nil => simp [runBlocks, stateAfter, failures]
  | cons block blocks ih =>
    cases n with
    | zero => simp [runBlocks, stateAfter, failures, RunsUpTo.zero_iff.mp h]
    | succ n =>
      obtain ⟨hlive, hrest⟩ := RunsUpTo.succ_iff.mp h
      have hfirst : ((run block state).2.map (record block)).toList =
          ((run block state).2.map (block, ·)).toList.map fun x => record x.1 x.2 := by
        cases (run block state).2 <;> rfl
      simp only [runBlocks, hlive, ih hrest, hfirst, List.take_succ_cons, stateAfter, failures, List.foldl_cons,
        List.map_append, Bool.false_eq_true, if_false]

theorem stateAfter_traced (blocks : List α) (state : σ) (ran : List α) :
    stateAfter (traced run) blocks (state, ran) = (stateAfter run blocks state, ran ++ blocks) := by
  induction blocks generalizing state ran with
  | nil => simp [stateAfter]
  | cons block blocks ih =>
    have hrest := ih (run block state).1 (ran ++ [block])
    rw [List.append_assoc] at hrest
    exact hrest

theorem RunsUpTo.traced {state : σ} {n : Nat} (h : RunsUpTo cancelled run blocks state n) :
    RunsUpTo (fun x => cancelled x.1) (traced run) blocks (state, []) n where
  le := h.le
  live k hk := by simpa only [stateAfter_traced] using h.live k hk
  stopped hn := by simpa only [stateAfter_traced] using h.stopped hn

end Substack

/-! ### Commands -/

namespace Run

variable {α β : Type}

/-- A run that fails in no world. -/
def Succeeds (m : Run α) : Prop := ∀ w, ∃ a w', m w = (.ok a, w')

/-- A run that has done nothing where it fails. -/
def FailsFirst (m : Run α) : Prop := ∀ w e w', m w = (.error e, w') → w' = w

namespace Succeeds

theorem pure (a : α) : Succeeds (Pure.pure a) := fun w => ⟨a, w, rfl⟩

theorem bind {m : Run α} {k : α → Run β} (hm : m.Succeeds) (hk : ∀ a, (k a).Succeeds) : (m >>= k).Succeeds := by
  intro w
  obtain ⟨a, w', hfirst⟩ := hm w
  obtain ⟨b, w'', hsecond⟩ := hk a w'
  exact ⟨b, w'', by simp only [Run.apply_bind, hfirst, hsecond]⟩

theorem evaluate (c : Caller) (m : View → Eval α) : (Run.evaluate c m).Succeeds := fun _ => ⟨_, _, rfl⟩

theorem modified (f : World → World) : (modify f : Run Unit).Succeeds := fun w => ⟨(), f w, rfl⟩

theorem change (c : Change) : (Run.change c).Succeeds := modified _

theorem log (r : LogRecord) : (Run.log r).Succeeds := modified _

theorem ask (f : Scene → α) : (Run.ask f).Succeeds := fun w => ⟨f w.scene, w, rfl⟩

theorem edit (a : Address) (e : ListEdit) : (Run.edit a e).Succeeds := fun _ => ⟨_, _, rfl⟩

theorem failsFirst {m : Run α} (h : m.Succeeds) : m.FailsFirst := by
  intro w e w' herror
  obtain ⟨a, w'', hok⟩ := h w
  rw [hok] at herror
  cases herror

end Succeeds

namespace FailsFirst

theorem bind {m : Run α} {k : α → Run β} (hm : m.FailsFirst) (hk : ∀ a, (k a).Succeeds) : (m >>= k).FailsFirst := by
  intro w e w' herror
  rw [Run.apply_bind] at herror
  cases hfirst : m w with
  | mk outcome w₁ =>
    rw [hfirst] at herror
    cases outcome with
    | error e₁ =>
      cases herror
      exact hm w e w' hfirst
    | ok a =>
      obtain ⟨b, w₂, hsecond⟩ := hk a w₁
      cases hsecond.symm.trans herror

theorem findVariable (c : Caller) (ref : Ref) : (Run.findVariable c ref).FailsFirst := by
  intro w e w' herror
  rw [Run.apply_findVariable] at herror
  exact (congrArg Prod.snd herror).symm

theorem findList (c : Caller) (ref : Ref) : (Run.findList c ref).FailsFirst := by
  intro w e w' herror
  rw [Run.apply_findList] at herror
  exact (congrArg Prod.snd herror).symm

end FailsFirst
end Run

section
variable {c : Caller} {cmd : Command Nat}

theorem Command.Part.succeeds {α : Type} {m : Run α} (h : cmd.Part c m) : m.Succeeds := by
  induction h with
  | pure a => exact .pure a
  | bind _ _ first rest => exact first.bind rest
  | evaluate _ => exact .evaluate c _
  | ask f => exact .ask f
  | log r => exact .log r
  | edit a e => exact .edit a e
  | setVariable a v => exact .change _
  | setAudio _ audio => exact .change _
  | moveTo _ place => exact .modified _
  | pointTo _ direction => exact .modified _
  | stop _ => exact .modified _

theorem Command.Parts.failsFirst {m : Run Unit} (h : cmd.Parts c m) : m.FailsFirst := by
  cases h with
  | part h => exact h.succeeds.failsFirst
  | aboutVariable ref h => exact (Run.FailsFirst.findVariable c ref).bind fun a => (h a).succeeds
  | aboutList ref h => exact (Run.FailsFirst.findList c ref).bind fun a => (h a).succeeds

theorem succeeds_playSound (c : Caller) (sound : Operand Nat) : (playSound c sound).Succeeds :=
  (part_playSound c sound).succeeds

/-- A command that fails has done nothing: what may fail comes first. -/
theorem Command.failsFirst_run (c : Caller) (cmd : Command Nat) : (cmd.run c).FailsFirst :=
  (cmd.parts_run c).failsFirst

end

/-! ### Bodies of scripts -/

/-- A command as a block of a substack: what it leaves of the world, its record included, and its failure. -/
def Command.attempt (c : Caller) (cmd : Command Nat) (w : World) : World × Option RunError :=
  (w.command c cmd, match (cmd.run c w).1 with
    | .ok () => none
    | .error e => some e)

/-- A body of commands runs as the substack of its commands does. -/
theorem World.runFrames_commands (w : World) (c : Caller) (cmds : List (Command Nat)) (next : List Frame)
    (record : Command Nat → RunError → LogRecord) :
    w.runFrames c (.blocks (cmds.map .command) :: next) =
      (Substack.runBlocks (·.isCancelled c.script) (Command.attempt c) record cmds w).1.runFrames c next := by
  induction cmds generalizing w with
  | nil =>
    rw [runFrames_eq]
    rfl
  | cons cmd cmds ih =>
    rw [runFrames_eq, Substack.runBlocks]
    cases hcancelled : w.isCancelled c.script with
    | true => simp [step, hcancelled]
    | false =>
      simp only [List.map_cons, step, hcancelled, begin, Bool.false_eq_true, if_false]
      exact ih (w.command c cmd)

/-- Blocks of a substack are isolated from each other. An execution runs its blocks in order, each once, from the first
up to the one after which the scope is cancelled, and all if it never is. Which blocks run depends on what they do to the
state and not on whether they fail, and each block that ran and failed is told by one record with its operation code, in
order. Bodies of commands run so in scripts. And a command that fails leaves the whole world as it was: its one effect
is the record. -/
theorem blocks_isolated {α σ : Type} (s : Substack α) (cancelled : σ → Bool) (run : α → σ → σ × Option RunError)
    (figure : String) (opcode : α → String) (state : σ) :
    (∃ n, Substack.RunsUpTo cancelled run s.blocks state n ∧
      (s.execute (fun x => cancelled x.1) (Substack.traced run) (fun block e => e.record figure (opcode block)) (state, [])).2.1 =
        (Substack.stateAfter run (s.blocks.take n) state, s.blocks.take n) ∧
      ∀ run' : α → σ → σ × Option RunError, (∀ block state, (run' block state).1 = (run block state).1) →
        s.execute cancelled run' (fun block e => e.record figure (opcode block)) state =
          (s.freeze, Substack.stateAfter run (s.blocks.take n) state,
            (Substack.failures run' (s.blocks.take n) state).map fun x => x.2.record figure (opcode x.1))) ∧
    (∀ (w : World) (c : Caller) (cmds : List (Command Nat)) (next : List Frame),
      w.runFrames c (.blocks (cmds.map .command) :: next) =
        (Substack.runBlocks (·.isCancelled c.script) (Command.attempt c)
          (fun cmd e => e.record (w.scene.figureName c.figure) cmd.opcode) cmds w).1.runFrames c next) ∧
    (∀ (c : Caller) (sound : Operand Nat), (playSound c sound).Succeeds) ∧
    ∀ (w w' : World) (c : Caller) (cmd : Command Nat) (e : RunError), cmd.run c w = (.error e, w') →
      w' = w ∧ w.command c cmd = w.log (e.record (w.scene.figureName c.figure) cmd.opcode) := by
  obtain ⟨n, hn⟩ := Substack.exists_runsUpTo cancelled run s.blocks state
  refine ⟨⟨n, hn, ?_, fun run' same => ?_⟩, fun w c cmds next => w.runFrames_commands c cmds next _, succeeds_playSound,
    fun w w' c cmd e herror => ?_⟩
  · simp only [Substack.execute, Substack.runBlocks_eq hn.traced, Substack.stateAfter_traced, List.nil_append]
  · simp only [Substack.execute, Substack.runBlocks_eq (hn.congr same), Substack.stateAfter_congr same]
  · obtain rfl := cmd.failsFirst_run c w e w' herror
    exact ⟨rfl, by simp only [World.command, herror]⟩

end BlockScript
