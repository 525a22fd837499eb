import BlockScript.Proofs.Script.Purpose
import BlockScript.Proofs.Script.Sources
import BlockScript.Proofs.Session.Wiring

/-!
Subscriptions do not pile up. At every moment a channel of the scene has no more handlers than reporters have read it,
one for each relay that is fed from it, and the relays have exactly the handlers of the scripts that watch a condition,
one for each reporter in it. Notes, which a session may subscribe to a reporter it holds, are on relays only and come
from nowhere else.
-/
namespace BlockScript

namespace Session

variable {plan : Plan} {owner : Nat → Owner} {s : Session} {noted : Prop}

/-! ### Moves that begin no subscription -/

/-- A script with a number has not ended. -/
def Runs (s : Session) (script : Nat) : Prop := ∃ t ∈ s.machine.threads, t.caller.script = script

/-- Every handler is accounted for, and the links of a watch are distinct. -/
structure Accounted (noted : Prop) (s : Session) : Prop where
  justified : s.world.hub.Justified noted s.Runs
  nodup : ∀ t ∈ s.machine.threads, ∀ p links, t.pause = .watching p links → links.Nodup

namespace Accounted

theorem of_added {s' : Session} (h : s.Accounted noted) (justified : s'.world.hub.Justified noted s.Runs)
    {added : List Thread} (threads : s'.machine.threads = s.machine.threads ++ added) (ready : ∀ t ∈ added, t.pause = .ready) :
    s'.Accounted noted := by
  refine ⟨justified.recast fun _ _ k _ ⟨t, ht, hscript⟩ => ⟨t, ?_, hscript⟩, fun t ht p links hp => ?_⟩
  · rw [threads]
    exact List.mem_append_left _ ht
  · rw [threads] at ht
    rcases List.mem_append.mp ht with ht | ht
    · exact h.nodup t ht p links hp
    · cases (ready t ht).symm.trans hp

theorem of_same {s' : Session} (h : s.Accounted noted) (justified : s'.world.hub.Justified noted s.Runs)
    (threads : s'.machine.threads = s.machine.threads) : s'.Accounted noted :=
  h.of_added justified (threads.trans (List.append_nil _).symm) (List.forall_mem_nil _)

theorem finishThread (h : s.Accounted noted) (sound : s.Sound plan owner) {t : Thread} (ht : t ∈ s.machine.threads)
    (ended : t.pause = .ready) : (s.onMachine (·.finishThread t)).Accounted noted := by
  have closed := h.justified.dwindles (sound.finishThread ht).wired.tidy (.closeRelays h.justified.tidy t.relays)
  refine ⟨closed.recast fun key n k hx ⟨u, hu, hscript⟩ => ⟨u, List.mem_filter.mpr ⟨hu, ?_⟩, hscript⟩, fun u hu => ?_⟩
  · -- A script that does not watch has no handlers, so none is left of the one that ends.
    refine bne_iff_ne.mpr fun he => ?_
    obtain rfl : t.caller.script = k := he.symm.trans hscript
    obtain ⟨p, links, hp, -⟩ :=
      (sound.threads t ht).attends.heard key n (h.justified.tidy.has_closeRelays.mp hx).2
    cases ended.symm.trans hp
  · exact h.nodup u (List.mem_filter.mp hu).1

theorem putThread (h : s.Accounted noted) {script : Nat} {world : World} {frames : List Frame} {pause : Pause}
    (justified : world.hub.Justified noted s.Runs) (nodup : ∀ p links, pause = .watching p links → links.Nodup) :
    (s.onMachine fun m => { m with world }.putThread script frames pause).Accounted noted := by
  refine ⟨justified.recast fun _ _ k _ ⟨t, ht, hscript⟩ => ⟨_, List.mem_map_of_mem ht, ?_⟩, fun u hu => ?_⟩
  · split
    · exact hscript
    · exact hscript
  · obtain ⟨t, ht, rfl⟩ := List.mem_map.mp hu
    split
    · exact nodup
    · exact h.nodup t ht

theorem piece (h : s.Accounted noted) (sound : s.Sound plan owner) (script : Nat) :
    (s.onMachine (·.piece script)).Accounted noted := by
  rcases s.machine.piece_cases script with ⟨hm, -⟩ | ⟨t, ht, -, hm⟩
  · have hs : s.onMachine (·.piece script) = s := congrArg (fun machine => { s with machine }) hm
    rw [hs]
    exact h
  have hmem := Machine.mem_of_thread? ht
  obtain rfl := Machine.script_of_thread? ht
  have spec := s.world.piece_spec t
  have justified := spec.justified h.justified ⟨t, hmem, rfl⟩
  have nodup := spec.nodup h.justified.tidy (sound.threads t hmem).attends (h.nodup t hmem)
  suffices left : (s.onMachine fun m => m.leave t (s.world.piece t)).Accounted noted by
    have hs : s.onMachine (·.piece t.caller.script) = s.onMachine fun m => m.leave t (s.world.piece t) :=
      congrArg (fun machine => { s with machine }) hm
    rw [hs]
    exact left
  unfold Machine.leave
  cases hr : s.world.piece t with
  | mk w progress =>
    rw [hr] at spec justified nodup
    cases progress with
    | done =>
      obtain ⟨-, ended, rfl⟩ := spec.of_done rfl
      exact h.finishThread sound hmem ended
    | go frames => exact h.putThread justified nodup
    | rest frames pause => exact h.putThread justified nodup

theorem subscribe (h : s.Accounted noted) (sound : s.Sound plan owner) {name : String} {r : HeldReporter}
    (hr : s.reporter? name = some r) (label : String) (hnoted : noted) : (s.subscribe r label).1.Accounted noted := by
  have listening := h.justified.subscribeAll (r.reporter.relays.map .relay) (.note label) trivial nofun
    (fun _ _ => ⟨hnoted, fun key hkey => (List.mem_map.mp hkey).imp fun _ hr => hr.2.symm⟩) nofun
  have held : Hub.Dwindles _ (s.subscribe r label).1.world.hub :=
    (Hub.Dwindles.dropNamed listening.tidy label).trans (.of_feeds (fun _ _ _ => id) rfl)
  exact h.of_same (listening.dwindles (sound.subscribe hr label).wired.tidy held) rfl

end Accounted

/-- The session before any relay was fed. -/
def unfed (s : Session) : Session := s.onWorld fun w => w.withHub { w.hub with feeds := [] }

/-- Whether the reporter of a relay reads a channel in a move: made where no relay was fed, the move has the relay fed
from the channel. -/
def reads (s : Session) (move : Move) (r : Nat) (c : Channel) : Bool := (s.unfed.make move).world.hub.source? r == some c

/-- The links of all scripts that watch. -/
def watchLinks (s : Session) : List (Link Channel) := s.machine.threads.flatMap (·.pause.links)

theorem mem_watchLinks {l : Link Channel} : l ∈ s.watchLinks ↔
    ∃ t ∈ s.machine.threads, ∃ p links, t.pause = .watching p links ∧ l ∈ links := by
  refine List.mem_flatMap.trans (exists_congr fun t => and_congr_right fun _ => ?_)
  cases t.pause with
  | watching p links => simp [Pause.links]
  | _ => simp [Pause.links]

/-- Relays are not fed from relays, so what is no note on a relay wakes a script that watches. -/
theorem Accounted.watches (h : s.Accounted noted) (sound : s.Sound plan owner) {r n : Nat} {handler : Handler Channel}
    (has : s.world.hub.Has (.relay r) n handler) (hnote : handler.isNote = false) : ⟨.relay r, n⟩ ∈ s.watchLinks := by
  cases handler with
  | note label => cases hnote
  | wake k =>
    obtain ⟨t, ht, rfl⟩ := h.justified.wakes _ n k has
    obtain ⟨p, links, hp, hl⟩ := (sound.threads t ht).attends.heard _ n has
    exact mem_watchLinks.mpr ⟨t, ht, p, links, hp, hl⟩
  | forward target =>
    obtain ⟨k, -, hk⟩ := h.justified.forwards _ n target has
    exact absurd (sound.wired.fed k _ hk).2.1 (sound.wired.sources k r)
  | noteDropping label victim => exact (h.justified.tidy.isPlain has).elim
  | noteAdding label added key => exact (h.justified.tidy.isPlain has).elim

/-- A handler of a channel of the scene feeds a relay. -/
theorem Accounted.feeds (h : s.Accounted noted) (sound : s.Sound plan owner) {c : Channel} (hc : ∀ r, c ≠ .relay r) {n : Nat}
    {handler : Handler Channel} (has : s.world.hub.Has c n handler) :
    ∃ r, handler = .forward (.relay r) ∧ s.world.hub.feeds.lookup (.relay r) = some ⟨c, n⟩ := by
  cases handler with
  | note label =>
    obtain ⟨-, r, hr⟩ := h.justified.notes c n label has
    exact absurd hr (hc r)
  | wake k =>
    obtain ⟨t, ht, rfl⟩ := h.justified.wakes c n k has
    obtain ⟨p, links, hp, hl⟩ := (sound.threads t ht).attends.heard c n has
    obtain ⟨r, -, hr⟩ := ((sound.threads t ht).attends.watched p links hp).2.event_of_mem hl
    exact absurd hr (hc r)
  | forward target =>
    obtain ⟨r, rfl, hr⟩ := h.justified.forwards c n target has
    exact ⟨r, rfl, hr⟩
  | noteDropping label victim => exact (h.justified.tidy.isPlain has).elim
  | noteAdding label added key => exact (h.justified.tidy.isPlain has).elim

theorem Accounted.source_of_handler (h : s.Accounted noted) (sound : s.Sound plan owner) {c : Channel} (hc : ∀ r, c ≠ .relay r)
    {handler : Handler Channel} (hmem : handler ∈ s.world.hub.handlersOf c) :
    ∃ r, handler = .forward (.relay r) ∧ s.world.hub.source? r = some c := by
  rw [← Hub.map_entriesOf] at hmem
  obtain ⟨⟨n, handler⟩, hx, rfl⟩ := List.mem_map.mp hmem
  obtain ⟨r, hr, hfed⟩ := h.feeds sound hc (Hub.mem_entriesOf.mp hx)
  exact ⟨r, hr, by rw [Hub.source?, hfed]; rfl⟩

/-- A relay is fed by one handler. -/
theorem Accounted.nodup_handlersOf (h : s.Accounted noted) (sound : s.Sound plan owner) {c : Channel} (hc : ∀ r, c ≠ .relay r) :
    (s.world.hub.handlersOf c).Nodup := by
  rw [← Hub.map_entriesOf]
  refine List.pairwise_map.mpr ((h.justified.tidy.entriesOf_ordered c).imp_of_mem fun {x y} hx hy hlt he => ?_)
  obtain ⟨r, hr, hfed⟩ := h.feeds sound hc (Hub.mem_entriesOf.mp hx)
  obtain ⟨r', hr', hfed'⟩ := h.feeds sound hc (Hub.mem_entriesOf.mp hy)
  obtain rfl : r = r' := Channel.relay.inj (Handler.forward.inj (hr.symm.trans (he.trans hr')))
  have hlink := Option.some.inj (hfed.symm.trans hfed')
  exact Nat.ne_of_lt hlt (congrArg Link.handler hlink)

/-- The handlers of a channel of the scene feed relays, each a relay of its own. -/
theorem Accounted.handlersOf_eq (h : s.Accounted noted) (sound : s.Sound plan owner) {c : Channel} (hc : ∀ r, c ≠ .relay r) :
    ∃ rs : List Nat, (s.world.hub.handlersOf c = rs.map fun r => .forward (.relay r)) ∧ rs.Nodup ∧
      ∀ r ∈ rs, s.world.hub.source? r = some c := by
  have hrange : s.world.hub.handlersOf c ∈ Set.range (List.map fun r => Handler.forward (Channel.relay r)) := by
    rw [Set.range_list_map]
    intro handler hmem
    obtain ⟨r, hr, -⟩ := h.source_of_handler sound hc hmem
    exact ⟨r, hr.symm⟩
  obtain ⟨rs, hrs⟩ := hrange
  have distinct := h.nodup_handlersOf sound hc
  rw [← hrs] at distinct
  refine ⟨rs, hrs.symm, distinct.of_map _, fun r hr => ?_⟩
  obtain ⟨k, hk, hsource⟩ := h.source_of_handler sound hc (hrs ▸ List.mem_map_of_mem hr)
  obtain rfl := Channel.relay.inj (Handler.forward.inj hk)
  exact hsource

end Session
end BlockScript
