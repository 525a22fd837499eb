import BlockScript.Proofs.Session.Moves
import Mathlib.Data.List.Nodup

/-!
The roster. At every moment it lists the scripts that have not ended, each once and under a number of
its own. A move takes off what ends, cancels what it reaches and adds what starts, and does nothing
else to the roster.
-/
namespace BlockScript

/-- A script on the roster as its blocks see it. -/
def RosterEntry.caller (e : RosterEntry) : Caller := ⟨e.script, e.figure⟩

/-- The entry, cancelled if a test picks it. -/
def RosterEntry.cancelIf (picks : RosterEntry → Bool) (e : RosterEntry) : RosterEntry :=
  if picks e then { e with cancelled := true } else e

theorem RosterEntry.caller_cancelIf (picks : RosterEntry → Bool) (e : RosterEntry) :
    (e.cancelIf picks).caller = e.caller := by
  unfold cancelIf
  split <;> rfl

theorem World.cancelWhere_roster (w : World) (picks : RosterEntry → Bool) :
    (w.cancelWhere picks).roster = w.roster.map (·.cancelIf picks) := rfl

/-- Entries for scripts that start on these figures. -/
def World.newcomers (w : World) (figures : List Nat) : List RosterEntry :=
  figures.mapIdx fun n figure => ⟨w.nextScript + n, figure, false⟩

namespace Thread

/-- Nothing is left to do, and nothing is waited for. -/
def isOver (t : Thread) : Bool :=
  match t.frames, t.pause with
  | [], .ready => true
  | _, _ => false

/-- What the stop block ends that comes next. -/
def stopOption? (t : Thread) : Option StopOption :=
  match t.frames, t.pause with
  | .blocks (.command (.stop option) :: _) :: _, .ready => some option
  | _, _ => none

theorem isOver_iff (t : Thread) : t.isOver = true ↔ t.frames = [] ∧ t.pause = .ready := by
  unfold isOver
  split <;> simp_all

theorem stopOption?_eq_some {t : Thread} {option : StopOption} :
    t.stopOption? = some option ↔
      (∃ rest next, t.frames = .blocks (.command (.stop option) :: rest) :: next) ∧ t.pause = .ready := by
  unfold stopOption?
  split
  · rename_i option' rest next hf hp
    simp [hf, hp]
  · rename_i hne
    refine ⟨nofun, ?_⟩
    rintro ⟨⟨rest, next, hf⟩, hp⟩
    exact absurd hp (hne option rest next hf)

end Thread

namespace Machine

/-- Whether the next piece of a script is its end. -/
def isEnding (m : Machine) (script : Nat) : Bool := (m.thread? script).any Thread.isOver

/-- The stop block that the next piece of a script begins, with the script. -/
def stopBlock? (m : Machine) (script : Nat) : Option (Caller × StopOption) :=
  (m.thread? script).bind fun t =>
    if m.world.isCancelled script then none else t.stopOption?.map fun option => (t.caller, option)

/-- The roster lists the scripts that have not ended, and these have numbers of their own. -/
structure Enrolled (m : Machine) : Prop where
  listed : m.world.roster.map RosterEntry.caller = m.threads.map (·.caller)
  distinct : (m.threads.map (·.caller.script)).Nodup
  below : ∀ t ∈ m.threads, t.caller.script < m.world.nextScript

namespace Enrolled

variable {m : Machine}

theorem of_kept {m' : Machine} (h : m.Enrolled)
    (roster : m'.world.roster.map RosterEntry.caller = m.world.roster.map RosterEntry.caller)
    (next : m'.world.nextScript = m.world.nextScript) (threads : m'.threads.map (·.caller) = m.threads.map (·.caller)) :
    m'.Enrolled where
  listed := by rw [roster, threads, h.listed]
  distinct := by
    have hmap : ∀ l : List Thread, l.map (·.caller.script) = (l.map (·.caller)).map (·.script) := fun l => by
      rw [List.map_map]; rfl
    rw [hmap, threads, ← hmap]
    exact h.distinct
  below := fun t ht => by
    have hc : t.caller ∈ m.threads.map (·.caller) := threads ▸ List.mem_map_of_mem ht
    obtain ⟨u, hu, huc⟩ := List.mem_map.mp hc
    rw [next, ← huc]
    exact h.below u hu

theorem scripts_nodup (h : m.Enrolled) : (m.world.roster.map (·.script)).Nodup := by
  have hmap : m.world.roster.map (·.script) = (m.threads.map (·.caller.script)) := by
    have := congrArg (List.map Caller.script) h.listed
    rwa [List.map_map, List.map_map] at this
  rw [hmap]
  exact h.distinct

theorem entry_below (h : m.Enrolled) {e : RosterEntry} (he : e ∈ m.world.roster) : e.script < m.world.nextScript := by
  have hc : e.caller ∈ m.threads.map (·.caller) := h.listed ▸ List.mem_map_of_mem he
  obtain ⟨t, ht, htc⟩ := List.mem_map.mp hc
  have hscript : t.caller.script = e.script := congrArg Caller.script htc
  exact hscript ▸ h.below t ht

theorem start (h : m.Enrolled) (figure : Nat) (body : List (Action Nat)) (relays : List Nat) :
    (m.start figure body relays).Enrolled where
  listed := by
    simp only [Machine.start, World.enroll, List.map_append, h.listed, List.map_cons, List.map_nil]
    rfl
  distinct := by
    simp only [Machine.start, World.enroll, List.map_append, List.map_cons, List.map_nil]
    refine List.nodup_append.mpr ⟨h.distinct, List.nodup_singleton _, fun a ha b hb => ?_⟩
    obtain ⟨t, ht, rfl⟩ := List.mem_map.mp ha
    obtain rfl := List.mem_singleton.mp hb
    exact Nat.ne_of_lt (h.below t ht)
  below := fun t ht => by
    rcases List.mem_append.mp ht with ht | ht
    · exact Nat.lt_succ_of_lt (h.below t ht)
    · obtain rfl := List.mem_singleton.mp ht
      exact Nat.lt_succ_self _

/-- Whatever is picked by script and figure is picked from the roster and from the scripts alike. -/
theorem filter_listed (h : m.Enrolled) (picks : Caller → Bool) :
    (m.world.roster.filter (picks ·.caller)).map RosterEntry.caller =
      (m.threads.filter (picks ·.caller)).map (·.caller) := by
  have hfilter := congrArg (List.filter picks) h.listed
  rwa [List.filter_map, List.filter_map] at hfilter

theorem finishThread (h : m.Enrolled) (t : Thread) : (m.finishThread t).Enrolled where
  listed := h.filter_listed fun c => c.script != t.caller.script
  distinct := (h.distinct).sublist (List.filter_sublist.map _)
  below := fun u hu => h.below u (List.mem_filter.mp hu).1

end Enrolled

/-! ### Pieces -/

theorem putThread_callers (m : Machine) (script : Nat) (frames : List Frame) (pause : Pause) :
    (m.putThread script frames pause).threads.map (·.caller) = m.threads.map (·.caller) := by
  simp only [putThread, List.map_map]
  refine List.map_congr_left fun t _ => ?_
  simp only [Function.comp_apply]
  split <;> rfl

theorem leave_nextScript (m : Machine) (t : Thread) (r : World × Progress) :
    (m.leave t r).world.nextScript = r.1.nextScript := by
  unfold leave
  split <;> rfl

theorem piece_nextScript (m : Machine) (script : Nat) : (m.piece script).world.nextScript = m.world.nextScript := by
  rcases m.piece_cases script with ⟨hm, -⟩ | ⟨t, -, -, hm⟩
  · rw [hm]
  rw [hm, leave_nextScript, World.piece_nextScript]

theorem Enrolled.piece {m : Machine} (h : m.Enrolled) (script : Nat) : (m.piece script).Enrolled := by
  rcases m.piece_cases script with ⟨hm, -⟩ | ⟨t, ht, -, hm⟩
  · rwa [hm]
  rw [hm]
  have spec := m.world.piece_spec t
  have hworld : ({ m with world := (m.world.piece t).1 } : Machine).Enrolled := by
    refine h.of_kept ?_ ?_ rfl
    · rcases spec.kept (f := World.roster) fun _ _ _ _ => rfl with hr | ⟨_, _, _, -, -, -, hw⟩
      · rw [hr]
      · rw [hw, World.cancelWhere_roster, List.map_map]
        exact List.map_congr_left fun e _ => e.caller_cancelIf _
    · exact m.world.piece_nextScript t
  unfold leave
  split
  · rename_i w hw
    rw [hw] at hworld
    exact hworld.finishThread t
  · rename_i w progress _ hw
    rw [hw] at hworld
    exact hworld.of_kept rfl rfl (putThread_callers _ _ _ _)

theorem canRun_of_ready {m : Machine} {t : Thread} (h : t.pause = .ready) : m.canRun t = true := by
  rw [canRun, h]
  rfl

/-- The scripts that the next piece of a script cancels. -/
def reaches (m : Machine) (script : Nat) (e : RosterEntry) : Bool :=
  match m.stopBlock? script with
  | some (caller, .thisScript) => e.script == caller.script
  | some (caller, .otherScripts) => e.figure == caller.figure && e.script != caller.script
  | some (_, .all) => true
  | none => false

theorem reaches_eq {m : Machine} {script : Nat} {c : Caller} {option : StopOption}
    (h : m.stopBlock? script = some (c, option)) : m.reaches script = option.reaches c := by
  funext e
  unfold reaches
  rw [h]
  cases option <;> rfl

theorem reaches_of_none {m : Machine} {script : Nat} (h : m.stopBlock? script = none) :
    m.reaches script = fun _ => false := by
  funext e
  unfold reaches
  rw [h]

theorem stopBlock?_of_ending {m : Machine} {script : Nat} (h : m.isEnding script = true) :
    m.stopBlock? script = none := by
  unfold isEnding at h
  unfold stopBlock?
  cases ht : m.thread? script with
  | none => rfl
  | some t =>
    rw [ht] at h
    have hframes := ((t.isOver_iff).mp h).1
    have hstop : t.stopOption? = none := by simp [Thread.stopOption?, hframes]
    simp [hstop]

theorem filter_not_ending {m : Machine} {script : Nat} (h : m.isEnding script = false) (l : List RosterEntry) :
    l.filter (fun e => !(e.script == script && m.isEnding script)) = l :=
  List.filter_eq_self.mpr fun e _ => by simp [h]

/-- The end of a script takes it off the roster. -/
theorem piece_ending {m : Machine} {script : Nat} (h : m.isEnding script = true) :
    (m.piece script).world.roster = m.world.roster.filter (·.script != script) := by
  obtain ⟨t, ht, hover⟩ := (Option.any_eq_true _ _).mp h
  obtain ⟨hframes, hpause⟩ := t.isOver_iff.mp hover
  obtain rfl := script_of_thread? ht
  have hpiece : m.world.piece t = (m.world, .done) := by simp only [World.piece, hpause, hframes, World.step]
  rw [piece_of_canRun ht (canRun_of_ready hpause), hpiece]
  rfl

/-- A stop block cancels what it reaches. -/
theorem piece_stopping {m : Machine} {script : Nat} {c : Caller} {option : StopOption}
    (h : m.stopBlock? script = some (c, option)) :
    (m.piece script).world.roster = m.world.roster.map (·.cancelIf (option.reaches c)) := by
  obtain ⟨t, ht, h⟩ := Option.bind_eq_some_iff.mp h
  split at h
  · cases h
  · rename_i running
    obtain ⟨option', hoption, hc⟩ := Option.map_eq_some_iff.mp h
    cases hc
    obtain ⟨⟨rest, next, hframes⟩, hpause⟩ := Thread.stopOption?_eq_some.mp hoption
    obtain rfl := script_of_thread? ht
    have hpiece : m.world.piece t = (m.world.cancelWhere (option.reaches t.caller), .go (.blocks rest :: next)) := by
      simp only [World.piece, hpause, hframes, World.step, running]
      rfl
    rw [piece_of_canRun ht (canRun_of_ready hpause), hpiece]
    rfl

/-- Any other piece leaves the roster alone. -/
theorem piece_going {m : Machine} {script : Nat} (hending : m.isEnding script = false)
    (hstop : m.stopBlock? script = none) : (m.piece script).world.roster = m.world.roster := by
  rcases m.piece_cases script with ⟨hm, -⟩ | ⟨t, ht, -, hm⟩
  · rw [hm]
  rw [hm]
  have spec := m.world.piece_spec t
  have hroster : (m.world.piece t).1.roster = m.world.roster := by
    rcases spec.kept (f := World.roster) fun _ _ _ _ => rfl with hr | ⟨option, rest, next, hf, hp, running, -⟩
    · exact hr
    · obtain rfl := script_of_thread? ht
      have hoption : t.stopOption? = some option := Thread.stopOption?_eq_some.mpr ⟨⟨rest, next, hf⟩, hp⟩
      simp [stopBlock?, ht, running, hoption] at hstop
  unfold leave
  split
  · rename_i w hw
    obtain ⟨hframes, hpause, -⟩ := spec.of_done (by rw [hw])
    have hover := t.isOver_iff.mpr ⟨hframes, hpause⟩
    simp [isEnding, ht, hover] at hending
  · rename_i w progress _ hw
    rw [hw] at hroster
    exact hroster

/-- A piece ends its script if nothing is left to do, cancels what its stop block reaches, and leaves
the rest of the roster alone. -/
theorem piece_roster (m : Machine) (script : Nat) :
    (m.piece script).world.roster =
      (m.world.roster.filter fun e => !(e.script == script && m.isEnding script)).map (·.cancelIf (m.reaches script)) := by
  cases hending : m.isEnding script with
  | true =>
    rw [piece_ending hending, reaches_of_none (stopBlock?_of_ending hending)]
    simp only [Bool.and_true]
    exact (List.map_id _).symm
  | false =>
    rw [← hending, filter_not_ending hending]
    cases hstop : m.stopBlock? script with
    | none =>
      rw [piece_going hending hstop, reaches_of_none hstop]
      exact (List.map_id _).symm
    | some x =>
      obtain ⟨c, option⟩ := x
      rw [piece_stopping hstop, reaches_eq hstop]

/-! ### Starting -/

theorem startAll_roster (bodies : List (Nat × List (Action Nat))) (m : Machine) :
    (bodies.foldl (fun m b => m.start b.1 b.2 []) m).world.roster =
      m.world.roster ++ m.world.newcomers (bodies.map (·.1)) := by
  induction bodies generalizing m with
  | nil => simp [World.newcomers]
  | cons b bodies ih =>
    rw [List.foldl_cons, ih]
    simp only [start, World.enroll, World.newcomers, List.map_cons, List.mapIdx_cons, Nat.add_zero, List.append_assoc,
      List.singleton_append, Nat.add_assoc, Nat.add_comm 1]

theorem startAll_nextScript (bodies : List (Nat × List (Action Nat))) (m : Machine) :
    (bodies.foldl (fun m b => m.start b.1 b.2 []) m).world.nextScript = m.world.nextScript + bodies.length := by
  induction bodies generalizing m with
  | nil => rfl
  | cons b bodies ih =>
    rw [List.foldl_cons, ih, List.length_cons, Nat.add_comm bodies.length 1, ← Nat.add_assoc]
    rfl

theorem startAll_world (bodies : List (Nat × List (Action Nat))) (m : Machine) :
    ∃ roster nextScript, (bodies.foldl (fun m b => m.start b.1 b.2 []) m).world = { m.world with roster, nextScript } := by
  induction bodies generalizing m with
  | nil => exact ⟨m.world.roster, m.world.nextScript, rfl⟩
  | cons b bodies ih =>
    obtain ⟨roster, nextScript, hworld⟩ := ih (m.start b.1 b.2 [])
    exact ⟨roster, nextScript, hworld⟩

theorem startAll_threads (bodies : List (Nat × List (Action Nat))) (m : Machine) :
    (bodies.foldl (fun m b => m.start b.1 b.2 []) m).threads = m.threads ++
      bodies.mapIdx fun n b => ⟨⟨m.world.nextScript + n, b.1⟩, [.blocks b.2], .ready, []⟩ := by
  induction bodies generalizing m with
  | nil => simp
  | cons b bodies ih =>
    rw [List.foldl_cons, ih]
    simp only [start, World.enroll, List.mapIdx_cons, Nat.add_zero, List.append_assoc, List.singleton_append, Nat.add_assoc,
      Nat.add_comm 1]

theorem Enrolled.startAll (bodies : List (Nat × List (Action Nat))) {m : Machine} (h : m.Enrolled) :
    (bodies.foldl (fun m b => m.start b.1 b.2 []) m).Enrolled := by
  induction bodies generalizing m with
  | nil => exact h
  | cons b bodies ih => exact ih (h.start b.1 b.2 [])

end Machine

/-! ### Sessions -/

namespace Session

/-- Whether a move takes a script off the roster. -/
def ends (s : Session) : Move → RosterEntry → Bool
  | .tick (.piece script), e => e.script == script && s.machine.isEnding script
  | _, _ => false

/-- Whether a move cancels a script. -/
def cancels (s : Session) : Move → RosterEntry → Bool
  | .tick (.piece script), e => s.machine.reaches script e
  | .stopAll, _ => true
  | .stop figure, e => e.figure == figure
  | _, _ => false

/-- The figures that a move starts scripts on, one for each script. -/
def starts (s : Session) : Move → List Nat
  | .greenFlag => s.bodies.map (·.1)
  | .start figure _ => [figure]
  | _ => []

/-- The roster after a move. -/
def rosterAfter (s : Session) (move : Move) : List RosterEntry :=
  (s.world.roster.filter fun e => !s.ends move e).map (·.cancelIf (s.cancels move)) ++ s.world.newcomers (s.starts move)

/-- Neither scripts nor the roster differ. -/
structure SameScripts (s s' : Session) : Prop where
  roster : s'.world.roster = s.world.roster
  next : s'.world.nextScript = s.world.nextScript
  threads : s'.machine.threads = s.machine.threads

theorem SameScripts.trans {a b c : Session} (h : a.SameScripts b) (h' : b.SameScripts c) : a.SameScripts c :=
  ⟨h'.roster.trans h.roster, h'.next.trans h.next, h'.threads.trans h.threads⟩

theorem sameScripts_log (s : Session) (records : List LogRecord) : s.SameScripts (s.log records) := by
  have acts : World.Acts 0 [] s.world (records.foldl World.log s.world) := .logAll records s.world
  exact ⟨acts.kept (f := World.roster) fun _ _ _ _ => rfl, acts.kept (f := World.nextScript) fun _ _ _ _ => rfl, rfl⟩

theorem sameScripts_dropReporter (s : Session) (name : String) : s.SameScripts (s.dropReporter name) := by
  unfold dropReporter
  split
  · exact ⟨rfl, rfl, rfl⟩
  · exact ⟨rfl, rfl, rfl⟩

/-- The moves that have to do with scripts. -/
def Move.IsScripted : Move → Prop
  | .tick (.piece _) | .greenFlag | .start .. | .stopAll | .stop _ => True
  | _ => False

theorem sameScripts_make (s : Session) {move : Move} (h : ¬ move.IsScripted) : s.SameScripts (s.make move) := by
  cases move with
  | tick x =>
    cases x with
    | piece script => exact absurd trivial h
    | clock time => exact ⟨rfl, rfl, rfl⟩
  | greenFlag => exact absurd trivial h
  | start figure block => exact absurd trivial h
  | stopAll => exact absurd trivial h
  | stop figure => exact absurd trivial h
  | change c => exact ⟨rfl, rfl, rfl⟩
  | log records => exact s.sameScripts_log records
  | hold name figure r =>
    have install : s.SameScripts { s with machine := { s.machine with world := (s.world.install r.install).1 } } :=
      ⟨rfl, rfl, rfl⟩
    have drop := install.trans (sameScripts_dropReporter _ name)
    exact ⟨drop.roster, drop.next, drop.threads⟩
  | drop name => exact s.sameScripts_dropReporter name
  | report name =>
    simp only [make]
    split <;> exact ⟨rfl, rfl, rfl⟩
  | subscribe name label =>
    simp only [make]
    split <;> exact ⟨rfl, rfl, rfl⟩
  | unsubscribe label => exact ⟨rfl, rfl, rfl⟩
  | clearReport => exact ⟨rfl, rfl, rfl⟩

theorem rosterAfter_of_endless {s : Session} {move : Move} (ends : s.ends move = fun _ => false) :
    s.rosterAfter move = s.world.roster.map (·.cancelIf (s.cancels move)) ++ s.world.newcomers (s.starts move) := by
  have hfilter : (s.world.roster.filter fun _ => !false) = s.world.roster := List.filter_eq_self.mpr fun _ _ => rfl
  rw [rosterAfter, ends, hfilter]

theorem rosterAfter_of_still {s : Session} {move : Move} (ends : s.ends move = fun _ => false)
    (cancels : s.cancels move = fun _ => false) :
    s.rosterAfter move = s.world.roster ++ s.world.newcomers (s.starts move) := by
  rw [rosterAfter_of_endless ends, cancels]
  exact congrArg (· ++ _) (List.map_id _)

theorem still_of_not (s : Session) {move : Move} (h : ¬ move.IsScripted) :
    s.ends move = (fun _ => false) ∧ s.cancels move = (fun _ => false) ∧ s.starts move = [] := by
  cases move with
  | tick x =>
    cases x with
    | piece script => exact absurd trivial h
    | clock time => exact ⟨rfl, rfl, rfl⟩
  | greenFlag => exact absurd trivial h
  | start figure block => exact absurd trivial h
  | stopAll => exact absurd trivial h
  | stop figure => exact absurd trivial h
  | _ => exact ⟨rfl, rfl, rfl⟩

theorem rosterAfter_of_not {s : Session} {move : Move} (h : ¬ move.IsScripted) : s.rosterAfter move = s.world.roster := by
  obtain ⟨ends, cancels, starts⟩ := s.still_of_not h
  rw [rosterAfter_of_still ends cancels, starts]
  exact List.append_nil _

theorem cancelWhere_enrolled {m : Machine} (h : m.Enrolled) (picks : RosterEntry → Bool) :
    (m.onWorld (·.cancelWhere picks)).Enrolled := by
  refine h.of_kept ?_ rfl rfl
  show (m.world.roster.map (·.cancelIf picks)).map RosterEntry.caller = _
  rw [List.map_map]
  exact List.map_congr_left fun e _ => e.caller_cancelIf _

/-- The session that a start adds its script to. -/
def prepared (s : Session) (figure : Nat) (block : Option String) : Session :=
  let built := (s.project.builder figure).substack block
  { s.log built.2 with
    machine := { s.machine with world := ((s.log built.2).world.install (Action.installAll built.1)).1 } }

theorem sameScripts_prepared (s : Session) (figure : Nat) (block : Option String) : s.SameScripts (s.prepared figure block) :=
  (s.sameScripts_log _).trans ⟨rfl, rfl, rfl⟩

theorem start_machine (s : Session) (figure : Nat) (block : Option String) :
    ∃ body relays, (s.start figure block).1.machine = (s.prepared figure block).machine.start figure body relays :=
  ⟨_, _, rfl⟩

/-- A move takes off what ends, cancels what it reaches and adds what starts. -/
theorem roster_make (s : Session) (move : Move) : (s.make move).world.roster = s.rosterAfter move := by
  by_cases h : move.IsScripted
  · cases move with
    | tick x =>
      cases x with
      | piece script => exact (s.machine.piece_roster script).trans (List.append_nil _).symm
      | clock time => cases h
    | greenFlag =>
      rw [rosterAfter_of_still rfl rfl]
      exact Machine.startAll_roster s.bodies s.machine
    | start figure block =>
      rw [rosterAfter_of_still rfl rfl]
      obtain ⟨body, relays, hm⟩ := s.start_machine figure block
      have same := s.sameScripts_prepared figure block
      show (s.start figure block).1.machine.world.roster = _
      rw [hm]
      show (s.prepared figure block).world.roster ++ [⟨(s.prepared figure block).world.nextScript, figure, false⟩] = _
      rw [same.roster, same.next]
      rfl
    | stopAll =>
      rw [rosterAfter_of_endless rfl]
      exact (List.append_nil _).symm
    | stop figure =>
      rw [rosterAfter_of_endless rfl]
      exact (List.append_nil _).symm
    | _ => cases h
  · rw [(s.sameScripts_make h).roster, rosterAfter_of_not h]

theorem nextScript_make (s : Session) (move : Move) :
    (s.make move).world.nextScript = s.world.nextScript + (s.starts move).length := by
  by_cases h : move.IsScripted
  · cases move with
    | tick x =>
      cases x with
      | piece script => exact s.machine.piece_nextScript script
      | clock time => cases h
    | greenFlag =>
      rw [starts, List.length_map]
      exact Machine.startAll_nextScript s.bodies s.machine
    | start figure block =>
      obtain ⟨body, relays, hm⟩ := s.start_machine figure block
      show (s.start figure block).1.machine.world.nextScript = _
      rw [hm]
      exact congrArg (· + 1) (s.sameScripts_prepared figure block).next
    | stopAll => rfl
    | stop figure => rfl
    | _ => cases h
  · rw [(s.sameScripts_make h).next, (s.still_of_not h).2.2]
    rfl

theorem enrolled_make {s : Session} (h : s.machine.Enrolled) (move : Move) : (s.make move).machine.Enrolled := by
  by_cases hmove : move.IsScripted
  · cases move with
    | tick x =>
      cases x with
      | piece script => exact h.piece script
      | clock time => cases hmove
    | greenFlag => exact h.startAll s.bodies
    | start figure block =>
      obtain ⟨body, relays, hm⟩ := s.start_machine figure block
      have same := s.sameScripts_prepared figure block
      show (s.start figure block).1.machine.Enrolled
      rw [hm]
      exact (h.of_kept (congrArg _ same.roster) same.next (congrArg _ same.threads)).start figure body relays
    | stopAll => exact cancelWhere_enrolled h _
    | stop figure => exact cancelWhere_enrolled h _
    | _ => cases hmove
  · have same := s.sameScripts_make hmove
    exact h.of_kept (congrArg _ same.roster) same.next (congrArg _ same.threads)

theorem installAll_world (scripts : List FlagScript) (w : World) :
    ∃ hub nextRelay, (installAll w scripts).1 = { w.withHub hub with nextRelay } := by
  induction scripts generalizing w with
  | nil => exact ⟨w.traces.hub, w.nextRelay, rfl⟩
  | cons s scripts ih =>
    obtain ⟨hub, nextRelay, hworld⟩ := ih (w.install (Action.installAll s.body)).1
    exact ⟨hub, nextRelay, hworld⟩

theorem installAll_roster (scripts : List FlagScript) (w : World) : (installAll w scripts).1.roster = w.roster := by
  obtain ⟨hub, nextRelay, hworld⟩ := installAll_world scripts w
  rw [hworld]
  rfl

theorem enrolled_after (project : Project) (moves : List Move) : ((ofProject project).after moves).machine.Enrolled := by
  have first : (ofProject project).machine.Enrolled := by
    refine ⟨congrArg (List.map _) (installAll_roster project.scripts (.ofScene project.scene)), List.nodup_nil, ?_⟩
    intro t ht
    cases ht
  exact after_induct (P := fun s => s.machine.Enrolled) first (fun _ move h => enrolled_make h move) moves

theorem mem_newcomers {w : World} {figures : List Nat} {e : RosterEntry} (h : e ∈ w.newcomers figures) :
    w.nextScript ≤ e.script ∧ e.cancelled = false := by
  obtain ⟨n, hn, rfl⟩ := List.mem_mapIdx.mp h
  exact ⟨Nat.le_add_right _ _, rfl⟩

theorem isCancelled_newcomer {s : Session} (h : s.machine.Enrolled) {move : Move} {e : RosterEntry}
    (he : e ∈ s.world.newcomers (s.starts move)) : (s.make move).world.isCancelled e.script = false := by
  unfold World.isCancelled
  rw [roster_make, List.any_eq_false]
  intro x hx hcancelled
  obtain ⟨hscript, hcancelled⟩ := Bool.and_eq_true_iff.mp hcancelled
  rcases List.mem_append.mp hx with hx | hx
  · -- A script that was there before has a smaller number.
    obtain ⟨y, hy, rfl⟩ := List.mem_map.mp hx
    have hold : y.script < s.world.nextScript := h.entry_below (List.mem_filter.mp hy).1
    have hsame : y.script = e.script :=
      (congrArg Caller.script (y.caller_cancelIf (s.cancels move))).symm.trans (beq_iff_eq.mp hscript)
    exact absurd (mem_newcomers he).1 (Nat.not_le.mpr (hsame ▸ hold))
  · rw [(mem_newcomers hx).2] at hcancelled
    cases hcancelled

/-- At every moment each figure has exactly its scripts that have not ended on the roster, each once;
a move ends, cancels and starts just what it says; and what starts is not cancelled. -/
theorem scripts_on_roster (project : Project) (moves : List Move) :
    let s := (ofProject project).after moves
    (∀ figure, (s.world.scriptsOn figure).map (·.script) =
      (s.machine.threads.filter (·.caller.figure == figure)).map (·.caller.script)) ∧
    (s.world.roster.map (·.script)).Nodup ∧
    (∀ move, (s.make move).world.roster = s.rosterAfter move) ∧
    ∀ move, ∀ e ∈ s.world.newcomers (s.starts move), (s.make move).world.isCancelled e.script = false := by
  intro s
  have h : s.machine.Enrolled := enrolled_after project moves
  refine ⟨fun figure => ?_, h.scripts_nodup, s.roster_make, fun move e he => ?_⟩
  · have hlisted := congrArg (List.map Caller.script) (h.filter_listed fun c => c.figure == figure)
    rwa [List.map_map, List.map_map] at hlisted
  · exact isCancelled_newcomer h he

end Session
end BlockScript
