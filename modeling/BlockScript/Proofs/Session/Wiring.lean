import BlockScript.Proofs.Script.Numbering
import BlockScript.Proofs.Script.Waiting
import BlockScript.Proofs.Session.Roster

/-!
Sessions are wired. Every relay has an owner: the project, a script that was started alone, or a held
reporter. Blocks tap relays of their project or of their own script only, so when an owner goes with its
relays nobody else misses them. That all scripts attend, that those who watch are told, and that all taps
are in place is kept by every move.
-/
namespace BlockScript

/-- Whom a relay goes with. -/
inductive Owner where
  | project
  | script (n : Nat)
  | reporter (name : String)

/-- A script in order. -/
structure Thread.Sound (plan : Plan) (owner : Nat → Owner) (w : World) (t : Thread) : Prop where
  attends : w.Attends plan t.caller t.frames t.pause
  told : w.IsTold t.caller t.pause
  taps : ∀ x ∈ Frame.stackTaps t.frames ++ t.pause.taps, owner x.1 = .project ∨ owner x.1 = .script t.caller.script
  relays : ∀ r ∈ t.relays, owner r = .script t.caller.script ∧ r < w.nextRelay

/-- Taps in order that all belong to one owner. -/
def World.Owns (plan : Plan) (owner : Nat → Owner) (w : World) (figure : Nat) (o : Owner) (taps : List (Nat × Source)) : Prop :=
  w.Conforms plan figure taps ∧ ∀ x ∈ taps, owner x.1 = o

/-- A held reporter in order: its taps and the relays it brought belong to the name it is held under. -/
structure HeldReporter.Sound (plan : Plan) (owner : Nat → Owner) (w : World) (name : String) (r : HeldReporter) : Prop where
  taps : w.Owns plan owner r.figure (.reporter name) r.reporter.taps
  relays : ∀ k ∈ r.relays, owner k = .reporter name ∧ k < w.nextRelay

/-- The links held under a label lead to relays, and where these are still open, to notes of the label. -/
def World.Notes (w : World) (label : String) (links : Subscription Channel) : Prop :=
  ∀ l ∈ links, ∃ r, l.event = .relay r ∧ r < w.nextRelay ∧
    (w.hub.IsOpen (.relay r) → w.hub.Has (.relay r) l.handler (.note label))

/-- A session in order: the world is wired, and so is all that is held or runs in it. Links under labels lead to
relays, and only scripts that have been numbered listen or have been woken. -/
structure Session.Sound (plan : Plan) (owner : Nat → Owner) (s : Session) : Prop where
  wired : s.world.Wired plan
  threads : ∀ t ∈ s.machine.threads, t.Sound plan owner s.world
  bodies : ∀ b ∈ s.bodies, s.world.Owns plan owner b.1 .project (Action.bodyTaps b.2)
  reporters : ∀ q ∈ s.reporters, q.2.Sound plan owner s.world q.1
  notes : ∀ x ∈ s.world.hub.subscriptions, s.world.Notes x.1 x.2
  heard : ∀ key n k, s.world.hub.Has key n (.wake k) → k < s.world.nextScript
  woken : ∀ k, 0 < s.world.wakesOf k → k < s.world.nextScript

/-! ### What is kept -/

section
variable {plan : Plan} {owner : Nat → Owner} {w w' : World} {gone : Nat → Prop} {lost : Handler Channel → Prop}

open World

theorem Pause.mem_taps {pause : Pause} {p : Predicate Nat} {links : Subscription Channel} (h : pause = .watching p links)
    {r : Nat} (hr : r ∈ p.relays) : ∃ x ∈ pause.taps, x.1 = r := by
  subst h
  rw [← p.map_taps] at hr
  obtain ⟨x, hx, rfl⟩ := List.mem_map.mp hr
  exact ⟨x, hx, rfl⟩

theorem Thread.Sound.kept {t : Thread} (h : t.Sound plan owner w) (kept : Kept gone lost w w')
    (hlost : ¬ lost (.wake t.caller.script)) (project : ∀ r, gone r → owner r ≠ .project)
    (own : ∀ r, gone r → owner r ≠ .script t.caller.script) : t.Sound plan owner w' := by
  have spared : ∀ x ∈ Frame.stackTaps t.frames ++ t.pause.taps, ¬ gone x.1 := by
    intro x hx hgone
    rcases h.taps x hx with ho | ho
    · exact project _ hgone ho
    · exact own _ hgone ho
  have hpause : ∀ p links, t.pause = .watching p links → ∀ r ∈ p.relays, ¬ gone r := by
    intro p links hp r hr
    obtain ⟨x, hx, rfl⟩ := Pause.mem_taps hp hr
    exact spared x (List.mem_append_right _ hx)
  refine ⟨h.attends.kept kept hlost (fun x hx => spared x (List.mem_append_left _ hx)) hpause,
    h.told.kept h.attends kept hlost hpause, h.taps, fun r hr => ?_⟩
  exact ⟨(h.relays r hr).1, Nat.lt_of_lt_of_le (h.relays r hr).2 kept.relays⟩

theorem World.Owns.kept {figure : Nat} {o : Owner} {taps : List (Nat × Source)} (h : w.Owns plan owner figure o taps)
    (kept : Kept gone lost w w') (own : ∀ r, gone r → owner r ≠ o) : w'.Owns plan owner figure o taps :=
  ⟨kept.conforms h.1 fun x hx hgone => own _ hgone (h.2 x hx), h.2⟩

theorem HeldReporter.Sound.kept {name : String} {r : HeldReporter} (h : r.Sound plan owner w name)
    (kept : Kept gone lost w w') (own : ∀ r, gone r → owner r ≠ .reporter name) : r.Sound plan owner w' name :=
  ⟨h.taps.kept kept own, fun k hk => ⟨(h.relays k hk).1, Nat.lt_of_lt_of_le (h.relays k hk).2 kept.relays⟩⟩

theorem World.Notes.kept {label : String} {links : Subscription Channel} (h : w.Notes label links)
    (kept : Kept gone lost w w') (hlost : ¬ lost (.note label)) (closed : ∀ r, gone r → ¬ w'.hub.IsOpen (.relay r)) :
    w'.Notes label links := by
  intro l hl
  obtain ⟨r, hevent, hr, hhas⟩ := h l hl
  refine ⟨r, hevent, Nat.lt_of_lt_of_le hr kept.relays, fun hopen => ?_⟩
  refine kept.has _ _ _ (hhas (kept.back r hr hopen)) hlost fun k hk hgone => ?_
  exact closed k hgone (hk ▸ hopen)

theorem World.Conforms.recast {plan' : Plan} {figure : Nat} {taps : List (Nat × Source)}
    (h : w.Conforms plan figure taps) (wired : w.Wired plan) (hplan : ∀ r < w.nextRelay, plan' r = plan r) :
    w.Conforms plan' figure taps :=
  fun x hx => ⟨(hplan _ (wired.opened _ (h x hx).2)).trans (h x hx).1, (h x hx).2⟩

theorem Thread.Sound.below {t : Thread} (h : t.Sound plan owner w) (wired : w.Wired plan) {x : Nat × Source}
    (hx : x ∈ Frame.stackTaps t.frames ++ t.pause.taps) : x.1 < w.nextRelay := by
  rcases List.mem_append.mp hx with hx | hx
  · exact wired.opened _ (h.attends.taps x hx).2
  · cases hp : t.pause with
    | watching p links =>
      rw [hp] at hx
      exact wired.opened _ ((h.attends.watched p links hp).1 x hx).2
    | _ =>
      rw [hp] at hx
      cases hx

end

namespace Session

variable {plan : Plan} {owner : Nat → Owner} {s : Session}

open World

/-- Whatever is in order or was spared is in order. -/
theorem Sound.kept {gone : Nat → Prop} {lost : Handler Channel → Prop} {s' : Session} (h : s.Sound plan owner)
    (wired : s'.world.Wired plan) (kept : Kept gone lost s.world s'.world)
    (project : ∀ r, gone r → owner r ≠ .project) (closed : ∀ r, gone r → ¬ s'.world.hub.IsOpen (.relay r))
    (threads : ∀ t ∈ s'.machine.threads, t.Sound plan owner s'.world ∨ t ∈ s.machine.threads ∧
      ¬ lost (.wake t.caller.script) ∧ ∀ r, gone r → owner r ≠ .script t.caller.script)
    (bodies : ∀ b ∈ s'.bodies, s'.world.Owns plan owner b.1 .project (Action.bodyTaps b.2) ∨ b ∈ s.bodies)
    (reporters : ∀ q ∈ s'.reporters, q.2.Sound plan owner s'.world q.1 ∨ q ∈ s.reporters ∧
      ∀ r, gone r → owner r ≠ .reporter q.1)
    (notes : ∀ x ∈ s'.world.hub.subscriptions, ¬ lost (.note x.1))
    (scripts : s.world.nextScript ≤ s'.world.nextScript) (taken : ∀ k, lost (.wake k) → k < s'.world.nextScript) :
    s'.Sound plan owner where
  wired := wired
  threads := fun t ht => by
    rcases threads t ht with ht | ⟨ht, hlost, own⟩
    · exact ht
    · exact (h.threads t ht).kept kept hlost project own
  bodies := fun b hb => by
    rcases bodies b hb with hb | hb
    · exact hb
    · exact (h.bodies b hb).kept kept project
  reporters := fun q hq => by
    rcases reporters q hq with hq | ⟨hq, own⟩
    · exact hq
    · exact (h.reporters q hq).kept kept own
  notes := fun x hx => (h.notes x (kept.held hx)).kept kept (notes x hx) closed
  heard := fun key n k hh => by
    by_cases hlost : lost (.wake k)
    · exact taken k hlost
    · exact Nat.lt_of_lt_of_le (h.heard key n k (kept.heard key n k hh hlost)) scripts
  woken := fun k hk => by
    by_cases hlost : lost (.wake k)
    · exact taken k hlost
    rcases kept.woken k hk hlost with hk | ⟨key, n, hh⟩
    · exact Nat.lt_of_lt_of_le (h.woken k hk) scripts
    · exact Nat.lt_of_lt_of_le (h.heard key n k hh) scripts

/-- Nothing is lost, and scripts, bodies, reporters and subscriptions are the same. -/
theorem Sound.quiet {s' : Session} (h : s.Sound plan owner) (wired : s'.world.Wired plan)
    (kept : Kept (fun _ => False) (fun _ => False) s.world s'.world) (threads : s'.machine.threads = s.machine.threads)
    (bodies : s'.bodies = s.bodies) (reporters : s'.reporters = s.reporters)
    (scripts : s'.world.nextScript = s.world.nextScript) : s'.Sound plan owner :=
  h.kept wired kept (fun _ => False.elim) (fun _ => False.elim) (fun _ ht => Or.inr ⟨threads ▸ ht, id, fun _ => False.elim⟩)
    (fun _ hb => Or.inr (bodies ▸ hb)) (fun _ hq => Or.inr ⟨reporters ▸ hq, fun _ => False.elim⟩)
    (fun _ _ => id) (Nat.le_of_eq scripts.symm) fun _ => False.elim

/-! ### New relays -/

/-- The plan and the owners may change where no relay has a number yet. -/
theorem Sound.recast {plan' : Plan} {owner' : Nat → Owner} (h : s.Sound plan owner)
    (hplan : ∀ r < s.world.nextRelay, plan' r = plan r) (howner : ∀ r < s.world.nextRelay, owner' r = owner r)
    (hsources : ∀ r r', plan' r ≠ some (.relay r')) : s.Sound plan' owner' := by
  have owns : ∀ {figure o taps}, s.world.Owns plan owner figure o taps → s.world.Owns plan' owner' figure o taps := by
    rintro figure o taps ⟨hc, ho⟩
    exact ⟨hc.recast h.wired hplan, fun x hx => (howner _ (h.wired.opened _ (hc x hx).2)).trans (ho x hx)⟩
  refine ⟨h.wired.recast hplan hsources, fun t ht => ?_, fun b hb => owns (h.bodies b hb), fun q hq => ?_, h.notes, h.heard,
    h.woken⟩
  · have sound := h.threads t ht
    have attends := sound.attends
    refine ⟨⟨attends.taps.recast h.wired hplan, fun p links hp => ?_, attends.heard, attends.woken⟩, sound.told,
      fun x hx => ?_, fun r hr => ?_⟩
    · exact ⟨(attends.watched p links hp).1.recast h.wired hplan, (attends.watched p links hp).2⟩
    · rw [howner _ (sound.below h.wired hx)]
      exact sound.taps x hx
    · obtain ⟨ho, hr⟩ := sound.relays r hr
      exact ⟨(howner r hr).trans ho, hr⟩
  · have sound := h.reporters q hq
    refine ⟨owns sound.taps, fun r hr => ?_⟩
    obtain ⟨ho, hr⟩ := sound.relays r hr
    exact ⟨(howner r hr).trans ho, hr⟩

/-- The same session in another world. -/
def withWorld (s : Session) (world : World) : Session := { s with machine := { s.machine with world } }

/-- Installing a tree for a figure and an owner. -/
theorem Sound.install {α : Type} (h : s.Sound plan owner) {m : Numbering α} {taps : List (Nat × Source)}
    (numbered : Numbered taps s.world.nextRelay (m s.world.nextRelay).2) (figure : Nat) (o : Owner) :
    ∃ plan' owner', (s.withWorld (s.world.install m).1).Sound plan' owner' ∧
      (s.world.install m).1.Owns plan' owner' figure o taps ∧
      ∀ r ∈ (s.world.install m).2.2, owner' r = o ∧ r < (s.world.install m).1.nextRelay := by
  -- New relays stand for what their taps read, and go with the new owner.
  let plan' : Plan := fun r => if r < s.world.nextRelay then plan r else (taps.lookup r).bind (·.channel? (s.world.view figure))
  let owner' : Nat → Owner := fun r => if r < s.world.nextRelay then owner r else o
  have hsources : ∀ r r', plan' r ≠ some (.relay r') := by
    intro r r' heq
    simp only [plan'] at heq
    split at heq
    · exact h.wired.sources r r' heq
    · obtain ⟨x, -, hx⟩ := Option.bind_eq_some_iff.mp heq
      exact x.channel?_ne_relay _ r' hx
  have recast : s.Sound plan' owner' := h.recast (fun r hr => if_pos hr) (fun r hr => if_pos hr) hsources
  have wired := recast.wired.install numbered.1
  have howner : ∀ r, s.world.nextRelay ≤ r → owner' r = o := fun r hr => if_neg (Nat.not_lt.mpr hr)
  refine ⟨plan', owner', recast.quiet wired (kept_install recast.wired numbered.1) rfl rfl rfl rfl, ⟨fun x hx => ?_, ?_⟩,
    fun r hr => ?_⟩
  · have hnew := numbered.mem_iff.mp (List.mem_map_of_mem hx)
    refine ⟨?_, Hub.isOpen_openRelays.mpr (Or.inl ⟨x.1, (s.world.mem_install m).mpr hnew, rfl⟩)⟩
    have hold : ¬ x.1 < s.world.nextRelay := Nat.not_lt.mpr hnew.1
    simp only [plan', if_neg hold, numbered.lookup_eq hx]
    rfl
  · exact fun x hx => howner _ (numbered.mem_iff.mp (List.mem_map_of_mem hx)).1
  · have hnew := (s.world.mem_install m).mp hr
    exact ⟨howner r hnew.1, hnew.2⟩

/-! ### Scripts -/

theorem Sound.congr {s' : Session} (h : s.Sound plan owner) (machine : s'.machine = s.machine) (bodies : s'.bodies = s.bodies)
    (reporters : s'.reporters = s.reporters) : s'.Sound plan owner := by
  obtain ⟨project, m, b, r, started⟩ := s'
  cases machine
  cases bodies
  cases reporters
  exact ⟨h.wired, h.threads, h.bodies, h.reporters, h.notes, h.heard, h.woken⟩

theorem Sound.start (h : s.Sound plan owner) {figure : Nat} {body : List (Action Nat)} {relays : List Nat} {o : Owner}
    (owns : s.world.Owns plan owner figure o (Action.bodyTaps body)) (ho : o = .project ∨ o = .script s.world.nextScript)
    (hrelays : ∀ r ∈ relays, owner r = .script s.world.nextScript ∧ r < s.world.nextRelay) :
    ({ s with machine := s.machine.start figure body relays }).Sound plan owner := by
  have hstack : Frame.stackTaps [.blocks body] = Action.bodyTaps body := List.append_nil _
  have kept : Kept (fun _ => False) (fun _ => False) s.world (s.machine.start figure body relays).world :=
    .of_eq rfl rfl rfl rfl
  refine h.kept (h.wired.of_eq rfl (.refl _) rfl) kept (fun _ => False.elim) (fun _ => False.elim) (fun t ht => ?_) (fun _ hb => Or.inr hb)
    (fun _ hq => Or.inr ⟨hq, fun _ => False.elim⟩) (fun _ _ => id) (Nat.le_succ _) fun _ => False.elim
  rcases List.mem_append.mp ht with ht | ht
  · exact Or.inr ⟨ht, id, fun _ => False.elim⟩
  · obtain rfl := List.mem_singleton.mp ht
    refine Or.inl ⟨⟨?_, nofun, fun key n hh => ?_, fun hk => ?_⟩, nofun, fun x hx => ?_, hrelays⟩
    · rw [hstack]
      exact owns.1
    -- The number is new: no handler and no signal is for it yet.
    · exact absurd (h.heard key n _ hh) (Nat.lt_irrefl _)
    · exact absurd (h.woken _ hk) (Nat.lt_irrefl _)
    · rcases List.mem_append.mp hx with hx | hx
      · rw [hstack] at hx
        rw [owns.2 x hx]
        exact ho
      · cases hx

theorem Sound.startAll (h : s.Sound plan owner) (l : List (Nat × List (Action Nat))) (hsub : ∀ b ∈ l, b ∈ s.bodies) :
    ({ s with machine := l.foldl (fun (m : Machine) b => m.start b.1 b.2 []) s.machine } : Session).Sound plan owner := by
  induction l generalizing s with
  | nil => exact h
  | cons b l ih =>
    have hrelays : ∀ r ∈ ([] : List Nat), owner r = .script s.world.nextScript ∧ r < s.world.nextRelay := nofun
    have first := h.start (h.bodies b (hsub b List.mem_cons_self)) (Or.inl rfl) hrelays
    exact ih first fun b' hb' => hsub b' (List.mem_cons_of_mem _ hb')

theorem logAll_eq (records : List LogRecord) (w : World) :
    ∃ logs, records.foldl World.log w = { w with traces := { w.traces with logs } } := by
  induction records generalizing w with
  | nil => exact ⟨w.traces.logs, rfl⟩
  | cons r records ih =>
    obtain ⟨logs, hlogs⟩ := ih (w.log r)
    exact ⟨logs, hlogs⟩

theorem Sound.log (h : s.Sound plan owner) (records : List LogRecord) : (s.log records).Sound plan owner := by
  obtain ⟨logs, hlogs⟩ := logAll_eq records s.world
  have hs : s.log records = s.withWorld { s.world with traces := { s.world.traces with logs } } := by
    show s.withWorld (records.foldl World.log s.world) = _
    rw [hlogs]
  rw [hs]
  exact h.quiet (h.wired.of_eq rfl (.refl _) rfl) (.of_eq rfl rfl rfl rfl) rfl rfl rfl rfl

/-- A body that is built, installed and started alone. -/
theorem Sound.startBlock (h : s.Sound plan owner) (figure : Nat) (block : Option String) :
    ∃ plan' owner', (s.start figure block).1.Sound plan' owner' := by
  have logged := h.log ((s.project.builder figure).substack block).2
  obtain ⟨plan', owner', installed, owns, relays⟩ :=
    logged.install (Action.numberedAll ((s.project.builder figure).substack block).1 _) figure (.script _)
  exact ⟨plan', owner', (installed.start owns (Or.inr rfl) relays).congr rfl rfl rfl⟩

/-! ### Pieces -/

theorem Sound.closeRelays {s' : Session} (h : s.Sound plan owner) {relays : List Nat} {o : Owner}
    (hrelays : ∀ r ∈ relays, owner r = o) (ho : o ≠ .project) (world : s'.world = s.world.closeRelays relays)
    (threads : ∀ t ∈ s'.machine.threads, t ∈ s.machine.threads ∧ o ≠ .script t.caller.script)
    (bodies : s'.bodies = s.bodies) (reporters : ∀ q ∈ s'.reporters, q ∈ s.reporters ∧ o ≠ .reporter q.1) :
    s'.Sound plan owner := by
  have kept : Kept (· ∈ relays) (fun handler => ∃ r ∈ relays, handler = .forward (.relay r)) s.world s'.world :=
    world ▸ kept_closeRelays h.wired (fun _ => id) fun r hr => ⟨r, hr, rfl⟩
  refine h.kept (world ▸ h.wired.closeRelays relays) kept (fun r hr he => ho (hrelays r hr ▸ he)) (fun r hr hopen => ?_)
    (fun t ht => Or.inr ⟨(threads t ht).1, nofun, fun r hr he => (threads t ht).2 (hrelays r hr ▸ he)⟩)
    (fun _ hb => Or.inr (bodies ▸ hb))
    (fun q hq => Or.inr ⟨(reporters q hq).1, fun r hr he => (reporters q hq).2 (hrelays r hr ▸ he)⟩) (fun _ _ => nofun)
    (world ▸ Nat.le_refl _) nofun
  rw [world] at hopen
  exact (h.wired.tidy.isOpen_closeRelays.mp hopen).1 r hr rfl

theorem Sound.finishThread (h : s.Sound plan owner) {t : Thread} (ht : t ∈ s.machine.threads) :
    (s.onMachine (·.finishThread t)).Sound plan owner := by
  -- Taking the script off the roster is seen by nobody; its relays are its own.
  have dismissed : (s.onWorld (·.dismiss t.caller.script)).Sound plan owner :=
    h.quiet (h.wired.of_eq rfl (.refl _) rfl) (.of_eq rfl rfl rfl rfl) rfl rfl rfl rfl
  refine dismissed.closeRelays (fun r hr => ((h.threads t ht).relays r hr).1) nofun rfl (fun u hu => ?_) rfl
    fun q hq => ⟨hq, nofun⟩
  obtain ⟨hu, hne⟩ := List.mem_filter.mp hu
  exact ⟨hu, fun he => bne_iff_ne.mp hne (Owner.script.inj he).symm⟩

theorem Sound.putThread (h : s.Sound plan owner) (enrolled : s.machine.Enrolled) {t : Thread} (ht : t ∈ s.machine.threads)
    {world : World} {frames : List Frame} {pause : Pause} (served : Served plan s.world t.caller world frames pause)
    (taps : Frame.stackTaps frames ++ pause.taps ⊆ Frame.stackTaps t.frames ++ t.pause.taps)
    (next : world.nextScript = s.world.nextScript) :
    (s.onMachine fun m => { m with world }.putThread t.caller.script frames pause).Sound plan owner := by
  have sound := h.threads t ht
  refine h.kept served.wired served.spares (fun _ => False.elim) (fun _ => False.elim) (fun u hu => ?_) (fun _ hb => Or.inr hb)
    (fun _ hq => Or.inr ⟨hq, fun _ => False.elim⟩) (fun _ _ => nofun) (Nat.le_of_eq next.symm) fun k hk => ?_
  · obtain ⟨v, hv, rfl⟩ := List.mem_map.mp hu
    split
    · rename_i hscript
      obtain rfl := List.inj_on_of_nodup_map enrolled.distinct hv ht hscript
      refine Or.inl ⟨served.attends, served.told, fun x hx => sound.taps x (taps hx), fun r hr => ?_⟩
      exact ⟨(sound.relays r hr).1, Nat.lt_of_lt_of_le (sound.relays r hr).2 served.spares.relays⟩
    · rename_i hscript
      exact Or.inr ⟨hv, fun he => hscript (Handler.wake.inj he), fun _ => False.elim⟩
  · obtain rfl := Handler.wake.inj hk
    exact next ▸ enrolled.below t ht

theorem Sound.piece (h : s.Sound plan owner) (enrolled : s.machine.Enrolled) (script : Nat) :
    (s.onMachine (·.piece script)).Sound plan owner := by
  rcases s.machine.piece_cases script with ⟨hm, -⟩ | ⟨t, ht, hrun, hm⟩
  · exact h.congr hm rfl rfl
  have hmem := Machine.mem_of_thread? ht
  obtain rfl := Machine.script_of_thread? ht
  have sound := h.threads t hmem
  have spec := s.world.piece_spec t
  have served := spec.served h.wired sound.attends hrun
  refine Sound.congr (s := s.onMachine fun m => m.leave t (s.world.piece t)) ?_ hm rfl rfl
  unfold Machine.leave
  cases hr : s.world.piece t with
  | mk w progress =>
    rw [hr] at spec served
    have next : w.nextScript = s.world.nextScript := by rw [← s.world.piece_nextScript t, hr]
    cases progress with
    | done =>
      obtain ⟨-, -, rfl⟩ := spec.of_done rfl
      exact h.finishThread hmem
    | go frames => exact h.putThread enrolled hmem served spec.taps next
    | rest frames pause => exact h.putThread enrolled hmem served spec.taps next

/-! ### Reporters -/

theorem mem_of_reporter? {name : String} {r : HeldReporter} (h : s.reporter? name = some r) : (name, r) ∈ s.reporters := by
  obtain ⟨l₁, l₂, hl, -⟩ := List.lookup_eq_some_iff.mp h
  rw [hl]
  simp

theorem Sound.dropReporter (h : s.Sound plan owner) (name : String) : (s.dropReporter name).Sound plan owner := by
  unfold Session.dropReporter
  split
  · exact h
  · rename_i r hr
    have sound := h.reporters _ (mem_of_reporter? hr)
    refine h.closeRelays (fun k hk => (sound.relays k hk).1) nofun rfl (fun t ht => ⟨ht, nofun⟩) rfl fun q hq => ?_
    obtain ⟨hq, hne⟩ := List.mem_filter.mp hq
    exact ⟨hq, fun he => bne_iff_ne.mp hne (Owner.reporter.inj he).symm⟩

theorem Sound.addReporter (h : s.Sound plan owner) {name : String} {r : HeldReporter} (hr : r.Sound plan owner s.world name) :
    ({ s with reporters := (name, r) :: s.reporters }).Sound plan owner := by
  refine ⟨h.wired, h.threads, h.bodies, fun q hq => ?_, h.notes, h.heard, h.woken⟩
  rcases List.mem_cons.mp hq with rfl | hq
  · exact hr
  · exact h.reporters q hq

/-- A reporter takes the place of one of its name. The relays of the old one have smaller numbers. -/
theorem Sound.holdReporter (h : s.Sound plan owner) (name : String) (figure : Nat) (r : Reporter Unit) :
    ∃ plan' owner', (s.holdReporter name figure r).Sound plan' owner' := by
  have numbered := r.numbered s.world.nextRelay
  obtain ⟨plan', owner', installed, owns, relays⟩ := h.install numbered figure (.reporter name)
  refine ⟨plan', owner', (installed.dropReporter name).addReporter ?_⟩
  unfold Session.dropReporter
  split
  · exact ⟨owns, relays⟩
  · rename_i old hold
    have hold := (h.reporters _ (mem_of_reporter? hold)).relays
    have kept : Kept (· ∈ old.relays) (fun handler => ∃ k ∈ old.relays, handler = .forward (.relay k))
        (s.world.install r.install).1 ((s.world.install r.install).1.closeRelays old.relays) :=
      kept_closeRelays installed.wired (fun _ => id) fun k hk => ⟨k, hk, rfl⟩
    refine ⟨⟨kept.conforms owns.1 fun x hx hgone => ?_, owns.2⟩, relays⟩
    have hnew := (numbered.mem_iff.mp (List.mem_map_of_mem hx)).1
    exact absurd (hold _ hgone).2 (Nat.not_lt.mpr hnew)

theorem Sound.evaluate (h : s.Sound plan owner) {name : String} {r : HeldReporter} (hr : s.reporter? name = some r) :
    (s.evaluate r.figure r.reporter.eval).1.Sound plan owner := by
  have conforms := (h.reporters _ (mem_of_reporter? hr)).taps.1
  have connecting : IsConnecting r.reporter.taps (fun v => r.reporter.eval v) :=
    r.reporter.taps_toOperand ▸ r.reporter.toOperand.isConnecting_eval
  exact h.quiet (h.wired.evaluate conforms connecting) (kept_evaluate h.wired conforms connecting) rfl rfl rfl rfl

/-! ### Subscriptions -/

theorem Sound.forget (h : s.Sound plan owner) (label : String) :
    (s.withWorld (s.world.withHub (s.world.hub.forget label))).Sound plan owner := by
  have kept : Kept (fun _ => False) (fun _ => False) s.world (s.world.withHub (s.world.hub.forget label)) :=
    .of_scene rfl (Nat.le_refl _) (fun _ ho _ => ho) (fun _ _ ho => ho) (fun _ _ _ hh _ _ => hh) (fun _ _ hl _ => hl)
      (fun _ _ _ hh _ => hh) (fun _ _ => rfl) fun _ hx => (List.mem_filter.mp hx).1
  exact h.quiet (h.wired.withHub (h.wired.tidy.forget label) (fun _ => Iff.rfl) rfl fun _ _ _ => id) kept rfl rfl rfl rfl

theorem Sound.notes_of_subscription? (h : s.Sound plan owner) {label : String} {links : Subscription Channel}
    (hlinks : s.world.hub.subscription? label = some links) : s.world.Notes label links := by
  obtain ⟨l₁, l₂, hl, -⟩ := List.lookup_eq_some_iff.mp hlinks
  exact h.notes (label, links) (hl ▸ List.mem_append_right _ List.mem_cons_self)

/-- Where a link of a label leads to a handler, it is a note of the label. -/
theorem Sound.handler_eq_note (h : s.Sound plan owner) {label : String} {links : Subscription Channel}
    (hlinks : s.world.hub.subscription? label = some links) {l : Link Channel} (hl : l ∈ links) {handler : Handler Channel}
    (hh : s.world.hub.Has l.event l.handler handler) : handler = .note label := by
  obtain ⟨r, hevent, -, hnote⟩ := h.notes_of_subscription? hlinks l hl
  rw [hevent] at hh
  exact h.wired.tidy.has_unique hh (hnote hh.isOpen)

theorem Sound.dropNamed (h : s.Sound plan owner) (label : String) :
    (s.withWorld (s.world.withHub (s.world.hub.dropNamed label))).Sound plan owner := by
  cases hlinks : s.world.hub.subscription? label with
  | none =>
    have hhub : s.world.hub.dropNamed label = s.world.hub := by simp only [Hub.dropNamed, hlinks]
    rw [hhub]
    exact h.congr rfl rfl rfl
  | some links =>
    have hhub : s.world.hub.dropNamed label = (s.world.hub.forget label).release links := by
      simp only [Hub.dropNamed, hlinks]
    have forgot := h.forget label
    have notes : ∀ l ∈ links, ∀ handler, (s.world.hub.forget label).Has l.event l.handler handler → handler = .note label :=
      fun l hl handler hh => h.handler_eq_note hlinks hl hh
    have kept : Kept (fun _ => False) (· = .note label) (s.world.withHub (s.world.hub.forget label))
        (s.world.withHub ((s.world.hub.forget label).release links)) := kept_release forgot.wired notes
    have wired := forgot.wired.release fun l hl target hh => nomatch notes l hl _ hh
    rw [hhub]
    refine forgot.kept wired kept (fun _ => False.elim) (fun _ => False.elim)
      (fun _ ht => Or.inr ⟨ht, nofun, fun _ => False.elim⟩) (fun _ hb => Or.inr hb)
      (fun _ hq => Or.inr ⟨hq, fun _ => False.elim⟩) (fun x hx he => ?_) (Nat.le_refl _) nofun
    have hx : x ∈ (s.world.hub.dropNamed label).subscriptions := hhub ▸ hx
    exact (Hub.mem_dropNamed hx).2 (Handler.note.inj he)

theorem Sound.addSubscription (h : s.Sound plan owner) {label : String} {links : Subscription Channel}
    (notes : s.world.Notes label links) :
    (s.withWorld (s.world.withHub { s.world.hub with subscriptions := (label, links) :: s.world.hub.subscriptions })).Sound
      plan owner := by
  let hub : Hub Channel := { s.world.hub with subscriptions := (label, links) :: s.world.hub.subscriptions }
  have same : (s.world.withHub hub).Wired plan :=
    h.wired.withHub (h.wired.tidy.of_events rfl) (fun _ => Iff.rfl) rfl fun _ _ _ => id
  -- Who is in order does not depend on what is held under labels.
  refine ⟨same, fun t ht => ?_, h.bodies, fun q hq => ?_, fun x hx => ?_, h.heard, h.woken⟩
  · have sound := h.threads t ht
    refine ⟨⟨sound.attends.taps, fun p links hp => ?_, sound.attends.heard, sound.attends.woken⟩, sound.told, sound.taps,
      sound.relays⟩
    obtain ⟨conforms, listens⟩ := sound.attends.watched p links hp
    exact ⟨conforms, listens.events, listens.has⟩
  · exact ⟨(h.reporters q hq).taps, (h.reporters q hq).relays⟩
  · rcases List.mem_cons.mp hx with rfl | hx
    · exact notes
    · exact h.notes x hx

/-- A subscription takes the place of one with its label. Its links are new, so they stay when the old
ones are released. -/
theorem Sound.subscribe (h : s.Sound plan owner) {name : String} {r : HeldReporter} (hr : s.reporter? name = some r)
    (label : String) : (s.subscribe r label).1.Sound plan owner := by
  have conforms := (h.reporters _ (mem_of_reporter? hr)).taps.1
  have plain : (Handler.note label : Handler Channel).IsPlain := trivial
  have subscribed : (s.withWorld (s.world.withHub
      (s.world.hub.subscribeAll (r.reporter.relays.map .relay) (.note label)).1)).Sound plan owner :=
    h.quiet (h.wired.subscribeAll _ plain) (kept_subscribeAll h.wired _ plain nofun) rfl rfl rfl rfl
  refine (subscribed.dropNamed label).addSubscription fun l hl => ?_
  have hevent : l.event ∈ r.reporter.relays.map .relay := by
    rw [← s.world.hub.subscribeAll_events (r.reporter.relays.map .relay) (.note label)]
    exact List.mem_map_of_mem hl
  obtain ⟨k, hk, hevent⟩ := List.mem_map.mp hevent
  have hopen : s.world.hub.IsOpen (.relay k) := by
    rw [← r.reporter.map_taps] at hk
    obtain ⟨x, hx, rfl⟩ := List.mem_map.mp hk
    exact (conforms x hx).2
  have hlink : (⟨.relay k, l.handler⟩ : Link Channel) ∈
      (s.world.hub.subscribeAll (r.reporter.relays.map .relay) (.note label)).2 := by
    rw [hevent]
    exact hl
  refine ⟨k, hevent.symm, h.wired.opened k hopen, fun _ => ?_⟩
  refine subscribed.wired.tidy.has_dropNamed.mpr
    ⟨(h.wired.tidy.has_subscribeAll plain).mpr (Or.inr ⟨hopen, rfl, hlink⟩), fun links hlinks hmem => ?_⟩
  have hlinks : s.world.hub.subscription? label = some links :=
    (congrArg (List.lookup label) (Hub.subscribeAll_subscriptions _ _)).symm.trans hlinks
  obtain ⟨k', hevent', -, hnote⟩ := h.notes_of_subscription? hlinks _ hmem
  obtain rfl := Channel.relay.inj hevent'
  exact h.wired.tidy.fresh_subscribeAll plain hlink (hnote hopen)

/-! ### The first session -/

theorem Sound.addBody (h : s.Sound plan owner) {figure : Nat} {body : List (Action Nat)}
    (owns : s.world.Owns plan owner figure .project (Action.bodyTaps body)) :
    ({ s with bodies := s.bodies ++ [(figure, body)] }).Sound plan owner := by
  refine ⟨h.wired, h.threads, fun b hb => ?_, h.reporters, h.notes, h.heard, h.woken⟩
  rcases List.mem_append.mp hb with hb | hb
  · exact h.bodies b hb
  · obtain rfl := List.mem_singleton.mp hb
    exact owns

theorem Sound.installAll (h : s.Sound plan owner) (scripts : List FlagScript) :
    ∃ plan' owner', ({ s.withWorld (installAll s.world scripts).1 with
      bodies := s.bodies ++ (installAll s.world scripts).2 }).Sound plan' owner' := by
  induction scripts generalizing s plan owner with
  | nil => exact ⟨plan, owner, h.congr rfl (List.append_nil _) rfl⟩
  | cons x scripts ih =>
    obtain ⟨plan₁, owner₁, installed, owns, -⟩ := h.install (Action.numberedAll x.body _) x.figure .project
    obtain ⟨plan₂, owner₂, others⟩ := ih (installed.addBody owns)
    exact ⟨plan₂, owner₂, others.congr rfl (List.append_assoc _ [_] _).symm rfl⟩

theorem sound_ofProject (project : Project) : ∃ plan owner, (ofProject project).Sound plan owner := by
  have wired : (World.ofScene project.scene).Wired fun _ => none := .ofScene project.scene
  let s : Session := { project, machine := ⟨.ofScene project.scene, []⟩, bodies := [], reporters := [], started := 0 }
  have first : s.Sound (fun _ => none) (fun _ => .project) := by
    refine ⟨wired, fun _ ht => absurd ht List.not_mem_nil, fun _ hb => absurd hb List.not_mem_nil,
      fun _ hq => absurd hq List.not_mem_nil, fun x hx => ?_, fun key n k hh => ?_, fun k hk => absurd hk (Nat.lt_irrefl 0)⟩
    · have hnone : s.world.hub.subscriptions = [] := Hub.openAll_subscriptions project.scene.channels
      rw [hnone] at hx
      cases hx
    · obtain ⟨e, he, -⟩ := (Hub.has_openAll.mp hh).2
      cases he
  exact first.installAll project.scripts

/-! ### Moves -/

theorem Sound.clearReport (h : s.Sound plan owner) : s.clearReport.Sound plan owner := by
  refine h.quiet (h.wired.of_eq rfl (.refl _) rfl) ?_ rfl rfl rfl rfl
  have logs : Kept (fun _ => False) (fun _ => False) s.world { s.world with traces := { s.world.traces with logs := [] } } :=
    .of_eq rfl rfl rfl rfl
  exact logs.trans (kept_signals fun k _ => List.count_filter rfl)

theorem sound_make (h : s.Sound plan owner) (enrolled : s.machine.Enrolled) (move : Move) :
    ∃ plan' owner', (s.make move).Sound plan' owner' := by
  cases move with
  | tick x =>
    cases x with
    | piece script => exact ⟨plan, owner, h.piece enrolled script⟩
    | clock time => exact ⟨plan, owner, h.quiet (h.wired.of_eq rfl (.refl _) rfl) (.of_eq rfl rfl rfl rfl) rfl rfl rfl rfl⟩
  | greenFlag => exact ⟨plan, owner, (h.startAll s.bodies fun _ hb => hb).congr rfl rfl rfl⟩
  | start figure block => exact h.startBlock figure block
  | stopAll => exact ⟨plan, owner, h.quiet (h.wired.of_eq rfl (.refl _) rfl) (.of_eq rfl rfl rfl rfl) rfl rfl rfl rfl⟩
  | stop figure => exact ⟨plan, owner, h.quiet (h.wired.of_eq rfl (.refl _) rfl) (.of_eq rfl rfl rfl rfl) rfl rfl rfl rfl⟩
  | change c => exact ⟨plan, owner, h.quiet (h.wired.change c) (kept_change h.wired c) rfl rfl rfl rfl⟩
  | log records => exact ⟨plan, owner, h.log records⟩
  | hold name figure r => exact h.holdReporter name figure r
  | drop name => exact ⟨plan, owner, h.dropReporter name⟩
  | report name =>
    refine ⟨plan, owner, ?_⟩
    dsimp only [Session.make]
    split
    · exact h
    · rename_i r hr
      exact h.evaluate hr
  | subscribe name label =>
    refine ⟨plan, owner, ?_⟩
    dsimp only [Session.make]
    split
    · exact h
    · rename_i r hr
      exact h.subscribe hr label
  | unsubscribe label => exact ⟨plan, owner, h.dropNamed label⟩
  | clearReport => exact ⟨plan, owner, h.clearReport⟩

/-- At every moment of every session all is wired. -/
theorem sound_after (project : Project) (moves : List Move) :
    ∃ plan owner, ((ofProject project).after moves).Sound plan owner := by
  let P : Session → Prop := fun s => s.machine.Enrolled ∧ ∃ plan owner, s.Sound plan owner
  have first : P (ofProject project) := ⟨enrolled_after project [], sound_ofProject project⟩
  have kept : ∀ s move, P s → P (s.make move) := by
    rintro s move ⟨enrolled, plan, owner, h⟩
    exact ⟨enrolled_make enrolled move, sound_make h enrolled move⟩
  exact (after_induct first kept moves).2

end Session
end BlockScript
