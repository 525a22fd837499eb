import BlockScript.Proofs.Number.Direction
import BlockScript.Proofs.Session.Settings

/-!
Turns of figures. A block that turns or points a figure leaves it in the direction that it heads for, without whole
turns, or in the direction that it had if it heads for none that is finite. Turning by an angle and back by the same
one leaves the direction that the figure began with, without whole turns.
-/
namespace BlockScript
open Number

/-- The direction of a figure. -/
def World.heading (w : World) (figure : Nat) : Number := (w.scene.poseOf figure).direction

/-- What a reporter of the direction reports. -/
theorem eval_direction (v : View) (t : Traces) (opcode : String) (relay : Nat) :
    ((Operand.source (.pose .direction opcode) relay).eval v t).1 = .number (v.scene.poseOf v.figure).direction := rfl

namespace World

variable {w : World} {c : Caller} {kind : Turn} {opcode : String} {degrees : Operand Nat}

/-- Where a block heads that turns its figure. -/
def turnAim (w : World) (c : Caller) (kind : Turn) (degrees : Operand Nat) : Number :=
  kind.apply (w.heading c.figure) (w.evaluate c.figure degrees.number).1

/-- A figure takes a finite direction, without whole turns, and keeps its own one otherwise. -/
theorem heading_head {figure : Nat} (h : (w.scene.figure? figure).isSome = true) (d : Number) :
    (w.head figure (.direction d)).heading figure = if d.isFinite then d.wrapDirection else w.heading figure := by
  rw [head_eq, Aim.isFinite]
  by_cases hfinite : d.isFinite = true
  · rw [if_pos hfinite, if_pos hfinite]
    exact congrArg Pose.direction (Scene.poseOf_setPose_self h _)
  · rw [if_neg hfinite, if_neg hfinite]

theorem heading_command_turn (h : (w.scene.figure? c.figure).isSome = true) :
    (w.command c (.turn kind opcode degrees)).heading c.figure =
      if (w.turnAim c kind degrees).isFinite then (w.turnAim c kind degrees).wrapDirection else w.heading c.figure := by
  rw [command_turn, heading_head (w := (w.evaluate c.figure degrees.number).2) h]
  rfl

theorem isSome_figure?_command_turn (n : Nat) :
    ((w.command c (.turn kind opcode degrees)).scene.figure? n).isSome = (w.scene.figure? n).isSome := by
  rw [command_turn, isSome_figure?_head]
  rfl

end World

/-! ### Turns on the way -/

namespace World

variable {w : World}

/-- A figure that heads somewhere keeps its direction or takes one without whole turns, and the others keep theirs. -/
theorem heading_head_or (w : World) (figure : Nat) (aim : Aim) (n : Nat) :
    (w.head figure aim).heading n = w.heading n ∨
      ∃ d : Number, d.isFinite = true ∧ (w.head figure aim).heading n = d.wrapDirection := by
  rw [head_eq]
  split
  · rename_i hfinite
    by_cases hn : n = figure
    · subst hn
      rcases w.scene.poseOf_setPose n n ((w.scene.poseOf n).reach aim) with h | h
      · exact .inl (congrArg Pose.direction h)
      · cases aim with
        | place x y => exact .inl ((congrArg Pose.direction h).trans rfl)
        | direction d => exact .inr ⟨d, hfinite, congrArg Pose.direction h⟩
    · have hkept := Change.sameAt_of_ne (.pose figure ((w.scene.poseOf figure).reach aim)) w.scene (k := .moved n)
        (fun h => hn (Channel.moved.inj h))
      exact .inl (congrArg Pose.direction hkept)
  · exact .inl rfl

theorem heading_piece_or (w : World) (t : Thread) (n : Nat) :
    (w.piece t).1.heading n = w.heading n ∨
      ∃ d : Number, d.isFinite = true ∧ (w.piece t).1.heading n = d.wrapDirection := by
  cases haim : w.aim? t with
  | none => exact .inl (congrArg Pose.direction (poseOf_piece haim n))
  | some x =>
    obtain ⟨hscene, -, hpiece⟩ := piece_of_aim haim
    have hheading : x.1.heading n = w.heading n := congrArg (fun s : Scene => (s.poseOf n).direction) hscene
    rw [hpiece, ← hscene, ← head_eq, ← hheading]
    exact x.1.heading_head_or _ x.2 n

end World

/-! ### Turning back -/

/-- The sums that turn by an angle and back are doubles. -/
structure TurnsExactly (q a : ℚ) : Prop where
  turned : Exact (q + a)
  wraps : WrapsExactly (q + a)
  back : Exact (wrapped (q + a) - a)
  wrapsBack : WrapsExactly (wrapped (q + a) - a)

/-- Directions and angles of up to 44 binary places, as far as 53 bits suffice for them. -/
theorem turnsExactly_of_places {k : Nat} {c e : ℤ} (h : |c| + |e| + 360 * 2 ^ k ≤ 2 ^ 53) :
    TurnsExactly (c / 2 ^ k) (e / 2 ^ k) := by
  have hc := abs_nonneg c
  have he := abs_nonneg e
  have hpos : (0 : ℤ) < 2 ^ k := by positivity
  have hk : k ≤ 44 := by
    by_contra! hk
    have : (2 : ℤ) ^ 45 ≤ 2 ^ k := pow_le_pow_right₀ (by decide) hk
    omega
  have hturned : (c : ℚ) / 2 ^ k + e / 2 ^ k = ((c + e : ℤ) : ℚ) / 2 ^ k := by
    push_cast
    rw [add_div]
  have hsum := abs_add_le c e
  obtain ⟨m, hm, hsmall⟩ := wrapped_places (c + e) k
  have hback : wrapped ((c + e : ℤ) / 2 ^ k) - e / 2 ^ k = ((m - e : ℤ) : ℚ) / 2 ^ k := by
    rw [hm]
    push_cast
    rw [sub_div]
  have hdiff := abs_sub m e
  constructor <;> rw [hturned]
  · exact exact_dyadic (by omega) (by omega)
  · exact wrapsExactly_of_places hk (by omega)
  · rw [hback]
    exact exact_dyadic (by omega) (by omega)
  · rw [hback]
    exact wrapsExactly_of_places hk (by omega)

theorem World.heading_right_left {w : World} {c : Caller} {right left : String} {degrees degrees' : Operand Nat}
    (h : (w.scene.figure? c.figure).isSome = true) (hheading : (w.heading c.figure).isFinite = true) {a : Number}
    (ha : a.isFinite = true) (hright : (w.evaluate c.figure degrees.number).1 = a)
    (hleft : ((w.command c (.turn .right right degrees)).evaluate c.figure degrees'.number).1 = a)
    (hexact : TurnsExactly (w.heading c.figure).toRat a.toRat) :
    (((w.command c (.turn .right right degrees)).command c (.turn .left left degrees')).heading c.figure).toRat =
      wrapped (w.heading c.figure).toRat := by
  have hturn : w.turnAim c .right degrees = w.heading c.figure + a := congrArg (w.heading c.figure + ·) hright
  obtain ⟨hfinite, hvalue⟩ := (rounds_add hheading ha).eq hexact.turned
  have hturned : (w.command c (.turn .right right degrees)).heading c.figure = _ := heading_command_turn h
  rw [hturn, if_pos hfinite] at hturned
  have hfigure : ((w.command c (.turn .right right degrees)).scene.figure? c.figure).isSome = true := by
    rw [isSome_figure?_command_turn, h]
  generalize w.command c (.turn .right right degrees) = u at *
  have hback : u.turnAim c .left degrees' = u.heading c.figure - a := congrArg (u.heading c.figure - ·) hleft
  have hwrapped : (u.heading c.figure).toRat = wrapped ((w.heading c.figure).toRat + a.toRat) := by
    rw [hturned, toRat_wrapDirection hfinite (hvalue ▸ hexact.wraps), hvalue]
  have hheading' : (u.heading c.figure).isFinite = true := by
    rw [hturned]
    exact (wrapDirection_mem hfinite).1
  have hdiff := rounds_sub hheading' ha
  rw [hwrapped] at hdiff
  obtain ⟨hfinite', hvalue'⟩ := hdiff.eq hexact.back
  rw [heading_command_turn hfigure, hback, if_pos hfinite', toRat_wrapDirection hfinite' (hvalue' ▸ hexact.wrapsBack),
    hvalue', wrapped_back]

/-- As long as nobody sets poses from outside, a figure of a session has the direction that it had at first or one
without whole turns. -/
theorem Session.heading_after (s : Session) {moves : List Move} (outside : ∀ n p, .change (.pose n p) ∉ moves)
    (n : Nat) :
    (s.after moves).world.heading n = s.world.heading n ∨
      ∃ d : Number, d.isFinite = true ∧ (s.after moves).world.heading n = d.wrapDirection := by
  refine scene_induct (P := fun scene => (scene.poseOf n).direction = s.world.heading n ∨
    ∃ d : Number, d.isFinite = true ∧ (scene.poseOf n).direction = d.wrapDirection) (.inl rfl) ?_ ?_
  · intro w t h
    rcases w.heading_piece_or t n with hkept | hturned
    · have hsame : ((w.piece t).1.scene.poseOf n).direction = (w.scene.poseOf n).direction := hkept
      rwa [hsame]
    · exact .inr hturned
  · intro c hc scene h
    have hkept : c.channel ≠ .moved n := by
      cases c with
      | pose m p => exact absurd hc (outside m p)
      | _ => nofun
    have hpose : (c.apply scene).poseOf n = scene.poseOf n := c.sameAt_of_ne scene (k := .moved n) hkept.symm
    rwa [hpose]

/-! ### Directions -/

/-- In exact arithmetic a direction without whole turns is in the interval from -179 to 181, its upper end left out, and
stays when it is wrapped again; it is above 180 exactly for the directions that are between 180 and 181 up to whole
turns. Doubles are brought to the same interval or its upper end, and to the same direction if the sums are exact. The
reporter of the direction tells the direction of the last turn without whole turns, and that of a figure that turns by
an angle and back is the one that it began with. -/
theorem World.turning_spec {w : World} {c : Caller} (hfigure : (w.scene.figure? c.figure).isSome = true)
    (hheading : (w.heading c.figure).isFinite = true) :
    (∀ q : ℚ, (-179 ≤ wrapped q ∧ wrapped q < 181) ∧ (∃ k : ℤ, q = wrapped q + 360 * k) ∧
      wrapped (wrapped q) = wrapped q ∧
      ((-180 < wrapped q ∧ wrapped q ≤ 180) ↔ ¬∃ k : ℤ, 180 < q + 360 * k ∧ q + 360 * k < 181)) ∧
    (∀ d : Number, d.isFinite = true → d.wrapDirection.isFinite = true ∧
      (-179 ≤ d.wrapDirection.toRat ∧ d.wrapDirection.toRat ≤ 181) ∧
      (d.wrapDirection.wrapDirection.toRat = d.wrapDirection.toRat ↔ d.wrapDirection.toRat ≠ 181) ∧
      (WrapsExactly d.toRat → d.wrapDirection.toRat = wrapped d.toRat)) ∧
    (∀ (k : Nat) (m e : ℤ), (k ≤ 44 → |m| + 179 * 2 ^ k ≤ 2 ^ 53 → WrapsExactly (m / 2 ^ k)) ∧
      (|m| + |e| + 360 * 2 ^ k ≤ 2 ^ 53 → TurnsExactly (m / 2 ^ k) (e / 2 ^ k))) ∧
    (∀ (kind : Turn) (opcode reporter : String) (degrees : Operand Nat) (relay : Nat) (t : Traces),
      ((Operand.source (.pose .direction reporter) relay).eval
        ((w.command c (.turn kind opcode degrees)).view c.figure) t).1 =
        .number (if (w.turnAim c kind degrees).isFinite then (w.turnAim c kind degrees).wrapDirection
          else w.heading c.figure)) ∧
    (∀ (right left : String) (degrees degrees' : Operand Nat) (a : Number), a.isFinite = true →
      (w.evaluate c.figure degrees.number).1 = a →
      ((w.command c (.turn .right right degrees)).evaluate c.figure degrees'.number).1 = a →
      TurnsExactly (w.heading c.figure).toRat a.toRat →
      (((w.command c (.turn .right right degrees)).command c (.turn .left left degrees')).heading c.figure).toRat =
        wrapped (w.heading c.figure).toRat) := by
  refine ⟨fun q => ?_, fun d hd => ?_, fun k m e => ?_, fun kind opcode reporter degrees relay t => ?_, ?_⟩
  · obtain ⟨hmem, hturns⟩ := wrapped_mem q
    exact ⟨hmem, hturns, wrapped_wrapped q, wrapped_le_iff q⟩
  · obtain ⟨hfinite, hmem⟩ := wrapDirection_mem hd
    exact ⟨hfinite, hmem, wrapDirection_wrapDirection_iff hd, toRat_wrapDirection hd⟩
  · exact ⟨wrapsExactly_of_places, turnsExactly_of_places⟩
  · rw [eval_direction]
    exact congrArg Value.number (heading_command_turn hfigure)
  · intro right left degrees degrees' a ha hright hleft
    exact heading_right_left hfigure hheading ha hright hleft

theorem World.evaluate_constant (w : World) (n : Nat) (v : Value) :
    (w.evaluate n (Operand.constant v).number).1 = v.toNumber := rfl

/-- A world with one figure that heads to the right. -/
def lonely : World :=
  .ofScene ⟨[⟨"Cat", false, [], [], [], ⟨0, 0, 90⟩, ⟨100, 0, 0⟩⟩], .fixed 0 0, .default⟩

/-- Half a turn and back. -/
theorem lonely_turns_back :
    (((lonely.command ⟨0, 0⟩ (.turn .right "motion_turnright" (.constant (.number 180)))).command ⟨0, 0⟩
      (.turn .left "motion_turnleft" (.constant (.number 180)))).heading 0).toRat = 90 := by
  have hstart : (90 : Number).isFinite = true ∧ (90 : Number).toRat = 90 := by
    exact_mod_cast toRat_ofNat (n := 90) (by decide)
  have hangle : (180 : Number).isFinite = true ∧ (180 : Number).toRat = 180 := by
    exact_mod_cast toRat_ofNat (n := 180) (by decide)
  have hheading : lonely.heading 0 = 90 := rfl
  have hreads (w : World) : (w.evaluate 0 (Operand.constant (.number 180)).number).1 = 180 := by
    rw [World.evaluate_constant]
    decide +kernel
  obtain ⟨-, -, hplaces, -, hback⟩ := World.turning_spec (w := lonely) (c := ⟨0, 0⟩) rfl hstart.1
  have hexact := (hplaces 0 90 180).2 (by decide)
  have hturned := hback "motion_turnright" "motion_turnleft" (.constant (.number 180)) (.constant (.number 180)) 180
    hangle.1 (hreads _) (hreads _) (by simpa [hheading, hstart.2, hangle.2] using hexact)
  rw [hturned, hheading, hstart.2]
  exact wrapped_of_mem (by norm_num) (by norm_num)

/-- The direction 180.5. -/
def pastHalfTurn : Number := ofDecimal false 1805 (-1)

theorem pastHalfTurn_eq : ∃ fits, pastHalfTurn = .finite false (361 * twoPow 1073) fits :=
  ⟨by decide +kernel, by decide +kernel⟩

/-- The direction 180.5 is not brought to the other side, in doubles and in exact arithmetic. -/
theorem pastHalfTurn_stays : pastHalfTurn.isFinite = true ∧ pastHalfTurn.wrapDirection = pastHalfTurn ∧
    pastHalfTurn.toRat = 361 / 2 ∧ ¬(-180 < wrapped (361 / 2) ∧ wrapped (361 / 2) ≤ 180) := by
  obtain ⟨fits, h⟩ := pastHalfTurn_eq
  refine ⟨by decide +kernel, by decide +kernel, ?_, ?_⟩
  · rw [h, toRat_places (k := 1) rfl rfl]
    norm_num [signed]
  · rw [wrapped_of_mem (by norm_num) (by norm_num)]
    norm_num

end BlockScript
