import BlockScript.Proofs.Session.Roster
import BlockScript.Script.Cancellation

/-!
Cancellation is final. From the moment a script is cancelled, by itself or by another, none of its
pieces begins a block, so its pieces leave the scene as it is, and it stays cancelled until it has
ended. Numbers of scripts are not used again, so no later script inherits the cancellation.
-/
namespace BlockScript

namespace World

/-- The next piece of a script begins a block: it is what beginning that block does. -/
def Begins (w : World) (t : Thread) (a : Action Nat) : Prop :=
  t.pause = .ready ∧ ∃ rest next, t.frames = .blocks (a :: rest) :: next ∧
    w.piece t = w.begin t.caller (.blocks rest :: next) a

theorem suffix_waitUntil (w : World) (c : Caller) (next : List Frame) (p : Predicate Nat) :
    next <:+ (w.waitUntil c next p).2.frames := by
  unfold waitUntil
  dsimp only
  split
  · exact List.suffix_rfl
  · split <;> exact List.suffix_rfl

/-- What follows a block is still left to do once it has begun. -/
theorem suffix_begin (w : World) (c : Caller) (next : List Frame) (a : Action Nat) :
    next <:+ (w.begin c next a).2.frames := by
  by_cases hstop : ∃ option, a = .command (.stop option)
  · obtain ⟨option, rfl⟩ := hstop
    exact List.suffix_rfl
  by_cases hwait : ∃ p, a = .waitUntil p
  · obtain ⟨p, rfl⟩ := hwait
    exact w.suffix_waitUntil c next p
  exact (goes_begin w (not_exists.mp hstop) (not_exists.mp hwait)).suffix

/-! ### Pieces of a cancelled script -/

theorem step_cancelled {w : World} {c : Caller} (h : w.isCancelled c.script = true) (frames : List Frame) :
    (w.step c frames).1 = w := by
  unfold step
  split
  · rfl
  · rfl
  · rw [if_pos h]
  · unfold checkLoop
    split <;> simp only [h, if_true]
  · rfl

theorem piece_cancelled {w : World} {t : Thread} (h : w.isCancelled t.caller.script = true) :
    (w.piece t).1.scene = w.scene := by
  unfold piece
  split
  · rw [step_cancelled h]
  · cases t.pause with
    | ready => rfl
    | sleeping wakeAt => rfl
    | stalled => rfl
    | gliding g wakeAt => simp only [resume, h, if_true]
    | watching p links =>
      have h' : (w.clearWakes t.caller.script).isCancelled t.caller.script = true := h
      simp only [resume, h', if_true]
      rfl

/-- A cancelled script skips its blocks: what follows the body is all that is left. -/
theorem not_begins_cancelled {w : World} {t : Thread} (h : w.isCancelled t.caller.script = true) (a : Action Nat) :
    ¬ w.Begins t a := by
  rintro ⟨hpause, rest, next, hframes, hpiece⟩
  have hskip : w.piece t = (w, .go next) := by simp only [piece, hpause, hframes, step, h, if_true]
  have hsuffix := w.suffix_begin t.caller (.blocks rest :: next) a
  rw [← hpiece, hskip] at hsuffix
  exact Nat.not_succ_le_self _ hsuffix.length_le

end World

theorem Machine.piece_scene {m : Machine} {script : Nat}
    (h : ∀ t, m.thread? script = some t → m.world.isCancelled script = true) :
    (m.piece script).world.scene = m.world.scene := by
  rcases m.piece_cases script with ⟨hm, -⟩ | ⟨t, ht, -, hm⟩
  · rw [hm]
  obtain rfl := script_of_thread? ht
  have hscene := World.piece_cancelled (h t ht)
  rw [hm]
  unfold leave
  split
  · rename_i w hw
    rw [hw] at hscene
    exact hscene
  · rename_i w progress _ hw
    rw [hw] at hscene
    exact hscene

/-! ### Runs -/

namespace Session

/-- A script is cancelled as far as it is there, and its number is taken. -/
structure Cancelled (script : Nat) (s : Session) : Prop where
  entries : ∀ e ∈ s.world.roster, e.script = script → e.cancelled = true
  taken : script < s.world.nextScript

namespace Cancelled

variable {s : Session} {script : Nat}

theorem of_isCancelled (h : s.machine.Enrolled) (hc : s.world.isCancelled script = true) : s.Cancelled script := by
  obtain ⟨e, he, hpicked⟩ := List.any_eq_true.mp hc
  obtain ⟨hscript, hcancelled⟩ := Bool.and_eq_true_iff.mp hpicked
  obtain rfl := beq_iff_eq.mp hscript
  refine ⟨fun x hx hx' => ?_, h.entry_below he⟩
  obtain rfl := List.inj_on_of_nodup_map h.scripts_nodup hx he hx'
  exact hcancelled

theorem make (h : s.Cancelled script) (move : Move) : (s.make move).Cancelled script where
  entries := by
    rw [roster_make]
    intro e he hscript
    rcases List.mem_append.mp he with he | he
    · obtain ⟨x, hx, rfl⟩ := List.mem_map.mp he
      have hx' : x.script = script := (congrArg Caller.script (x.caller_cancelIf (s.cancels move))).symm.trans hscript
      have hcancelled := h.entries x (List.mem_filter.mp hx).1 hx'
      unfold RosterEntry.cancelIf
      split
      · rfl
      · exact hcancelled
    · exact absurd h.taken (Nat.not_lt.mpr (hscript ▸ (mem_newcomers he).1))
  taken := by
    rw [nextScript_make]
    exact Nat.lt_of_lt_of_le h.taken (Nat.le_add_right _ _)

theorem after (h : s.Cancelled script) (moves : List Move) : (s.after moves).Cancelled script :=
  after_induct (P := (·.Cancelled script)) h (fun _ move h => h.make move) moves

theorem isCancelled (h : s.Cancelled script) (henrolled : s.machine.Enrolled) {t : Thread}
    (ht : s.machine.thread? script = some t) : s.world.isCancelled script = true := by
  have hmem : t.caller ∈ s.world.roster.map RosterEntry.caller :=
    henrolled.listed ▸ List.mem_map_of_mem (Machine.mem_of_thread? ht)
  obtain ⟨e, he, hcaller⟩ := List.mem_map.mp hmem
  have hscript : e.script = script := (congrArg Caller.script hcaller).trans (Machine.script_of_thread? ht)
  exact List.any_eq_true.mpr ⟨e, he, by simp [hscript, h.entries e he hscript]⟩

end Cancelled

/-- Whatever happens after a script was cancelled, it stays cancelled, it begins no block, and its
pieces leave the scene as it is. -/
theorem cancelled_for_good (project : Project) (moves later : List Move) (script : Nat)
    (h : ((ofProject project).after moves).world.isCancelled script = true) :
    let s := ((ofProject project).after moves).after later
    (∀ e ∈ s.world.roster, e.script = script → e.cancelled = true) ∧
    (∀ t, s.machine.thread? script = some t → s.world.isCancelled script = true ∧ ∀ a, ¬ s.world.Begins t a) ∧
    (s.make (.tick (.piece script))).scene = s.scene := by
  intro s
  have hcancelled : s.Cancelled script := (Cancelled.of_isCancelled (enrolled_after project moves) h).after later
  have henrolled : s.machine.Enrolled := by
    have hall := enrolled_after project (moves ++ later)
    rwa [after_append] at hall
  refine ⟨hcancelled.entries, fun t ht => ?_, Machine.piece_scene fun t ht => hcancelled.isCancelled henrolled ht⟩
  have hc := hcancelled.isCancelled henrolled ht
  obtain rfl := Machine.script_of_thread? ht
  exact ⟨hc, World.not_begins_cancelled hc⟩

/-- A script that stops itself inside a loop that has no end. -/
def selfStopping : Project where
  scene := { figures := [], pointer := .fixed 0 0, config := .default }
  graphs := []
  scripts := [⟨0, "hat", [.forever [.command (.stop .thisScript)]]⟩]

/-- The loop begins, decides on a round, and the round begins the stop block. -/
def selfStoppingMoves : List Move := [.greenFlag, .tick (.piece 0), .tick (.piece 0), .tick (.piece 0)]

theorem selfStopping_for_good :
    ((ofProject selfStopping).after selfStoppingMoves).world.isCancelled 0 = true ∧
    ∀ e ∈ (((ofProject selfStopping).after selfStoppingMoves).after [.greenFlag]).world.roster,
      e.script = 0 → e.cancelled = true :=
  ⟨rfl, (cancelled_for_good selfStopping selfStoppingMoves [.greenFlag] 0 rfl).1⟩

end Session

/-! ### Scopes -/

namespace ScopeWorkspace

theorem isCancelled_cancel {w : ScopeWorkspace} {scope : Nat} (h : w.isCancelled scope = true) (other : Nat) :
    (w.cancel other).isCancelled scope = true := by
  unfold cancel
  split
  · exact h
  · exact List.contains_iff_mem.mpr (List.mem_cons_of_mem _ (List.contains_iff_mem.mp h))

/-- A scope that was cancelled stays so. -/
theorem isCancelled_perform {w : ScopeWorkspace} {scope : Nat} (h : w.isCancelled scope = true) {step : ScopeStep}
    {r : ScopeWorkspace × ScopeAnswer} (hr : w.perform step = some r) : r.1.isCancelled scope = true := by
  cases step with
  | new name => cases hr; exact h
  | clone name of =>
    obtain ⟨_, -, rfl⟩ := Option.map_eq_some_iff.mp hr
    exact h
  | cancel name =>
    obtain ⟨other, -, rfl⟩ := Option.map_eq_some_iff.mp hr
    exact isCancelled_cancel h other
  | same a b =>
    obtain ⟨_, -, hr⟩ := Option.bind_eq_some_iff.mp hr
    obtain ⟨_, -, hr⟩ := Option.bind_eq_some_iff.mp hr
    cases hr
    exact h
  | wait name =>
    obtain ⟨_, -, rfl⟩ := Option.map_eq_some_iff.mp hr
    exact h
  | waitCancel name victim =>
    obtain ⟨_, -, hr⟩ := Option.bind_eq_some_iff.mp hr
    obtain ⟨other, -, hr⟩ := Option.bind_eq_some_iff.mp hr
    cases hr
    exact isCancelled_cancel h other

end ScopeWorkspace
end BlockScript
