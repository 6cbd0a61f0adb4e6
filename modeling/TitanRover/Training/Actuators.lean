import TitanRover.Training.EndEffector
import TitanRover.Training.Relays

/-! # What the training sketch holds its actuators at

The relays follow the last relay pulse, in one direction, in the other or in neither; before the
first one both are on. The servo stays at its default for as long as every end effector pulse is as
wide as that, and is within the range that the fingers allow from the first other pulse on. -/
namespace TitanRover.Training
open TitanRover.Arduino TitanRover.Stick Foundations Foundations.Run
set_option autoImplicit false

/-! ## The relays -/

/-- What a relay pulse asks of a relay. -/
def Asked (usRelIn : BitVec 16) : Relay → Prop
  | .relay1 => usRelIn < 1100
  | .relay2 => usRelIn > 1900

/-- Relay pins that are outputs. -/
def Outputs (pins : Pins) : Prop := ∀ r, (pins r).output = true

theorem digitalWrite_outputs {pins : Pins} (h : Outputs pins) (w : Relay × Bool) :
    Outputs (digitalWrite pins w) := by
  intro r
  unfold digitalWrite
  by_cases hr : r = w.1
  · subst hr
    rw [Function.update_self]
    exact h w.1
  · rw [Function.update_of_ne hr]
    exact h r

theorem foldl_outputs {pins : Pins} (h : Outputs pins) (ws : List (Relay × Bool)) :
    Outputs (ws.foldl digitalWrite pins) := by
  induction ws generalizing pins with
  | nil => exact h
  | cons w ws ih => exact ih (digitalWrite_outputs h w)

theorem on_iff {pins : Pins} (h : Outputs pins) (r : Relay) :
    On pins r ↔ (pins r).level = false := and_iff_right (h r)

theorem relayWrites_level (pins : Pins) (usRelIn : BitVec 16) (r : Relay) :
    ((relayWrites usRelIn).foldl digitalWrite pins r).level = false ↔ Asked usRelIn r := by
  unfold relayWrites
  split_ifs with hlow hhigh
  · have hnot : ¬ usRelIn > 1900 := by
      rw [gt_iff_lt, BitVec.lt_def]
      rw [BitVec.lt_def] at hlow
      exact Nat.lt_asymm (hlow.trans (by decide))
    cases r with
    | relay1 => simpa [digitalWrite, Asked] using hlow
    | relay2 => simpa [digitalWrite, Asked] using hnot
  · cases r with
    | relay1 => simpa [digitalWrite, Asked] using hlow
    | relay2 => simpa [digitalWrite, Asked] using hhigh
  · cases r with
    | relay1 => simpa [digitalWrite, Asked] using hlow
    | relay2 => simpa [digitalWrite, Asked] using hhigh

/-! ## The servo -/

/-- The range that the fingers allow. -/
def WithinFingers (servo : BitVec 16) : Prop := 1220 ≤ servo.toNat ∧ servo.toNat ≤ 1480

theorem endCommand_withinFingers (p : BitVec 16) : WithinFingers (endCommand p) := by
  have h := endCommand_commanded p
  rw [Commanded, map_end (by omega)] at h
  unfold WithinFingers
  omega

theorem withinFingers_ne {servo : BitVec 16} (h : WithinFingers servo) :
    servo ≠ defaultPulseWidth := by
  rintro rfl
  exact absurd h.2 (by decide)

theorem loop_servoEnd_idle {s : Vars} (h0 : s.bUpdateFlags = 0) {sh : Shared Channel}
    (h : ¬ Consumes Channel.flag .ende sh) : (loop s sh).servoEnd = s.servoEnd := by
  have hflags : ¬ (relays (received s sh)).bUpdateFlags &&& endFlag ≠ 0 := by
    have hkept : (relays (received s sh)).bUpdateFlags = sh.bUpdateFlagsShared := by
      simp only [relays, received, readShared_eq]
      exact flagsInEffect_of_cleared h0 sh
    rw [hkept]
    exact h
  change (endEffector (relays (received s sh))).servoEnd = _
  rw [endEffector, if_neg hflags]
  rfl

/-! ## Runs -/

section Runs
variable (inp : ℕ → Shared Channel)

/-- The width of the last relay pulse that the first `n` iterations have consumed. -/
def lastRel (n : ℕ) : Option (BitVec 16) :=
  latest inp (Consumes Channel.flag .rel) (fun sh => some (sh.inputShared .rel)) none n

/-- Every end effector pulse consumed by the first `n` iterations is as wide as the default. -/
def AllDefault (n : ℕ) : Prop :=
  ∀ k < n, Consumes Channel.flag .ende (inp k) → (inp k).inputShared .ende = defaultPulseWidth

theorem allDefault_succ (n : ℕ) : AllDefault inp (n + 1) ↔ AllDefault inp n ∧
    (Consumes Channel.flag .ende (inp n) →
      (inp n).inputShared .ende = defaultPulseWidth) := by
  unfold AllDefault
  constructor
  · exact fun h => ⟨fun k hk => h k (Nat.lt_succ_of_lt hk), h n (Nat.lt_succ_self n)⟩
  · rintro ⟨h, hn⟩ k hk
    rcases Nat.lt_succ_iff_lt_or_eq.mp hk with hlt | rfl
    · exact h k hlt
    · exact hn

/-- The actuators after `n` iterations. -/
structure Held (n : ℕ) (s : Vars) : Prop where
  outputs : Outputs s.pins
  relay : ∀ r, On s.pins r ↔ ∀ usRelIn, lastRel inp n = some usRelIn → Asked usRelIn r
  default : s.servoEnd = defaultPulseWidth ↔ AllDefault inp n
  fingers : ¬ AllDefault inp n → WithinFingers s.servoEnd

theorem loop_pins_held {n : ℕ} {s : Vars} (h : Held inp n s) (h0 : s.bUpdateFlags = 0) (r : Relay) :
    On (loop s (inp n)).pins r ↔
      ∀ usRelIn, lastRel inp (n + 1) = some usRelIn → Asked usRelIn r := by
  have hpins : (loop s (inp n)).pins = (writes (received s (inp n))).foldl digitalWrite s.pins :=
    endEffector_pins _
  have hwrites : writes (received s (inp n)) = if Consumes Channel.flag .rel (inp n) then
      relayWrites ((received s (inp n)).input .rel) else [] := by
    have hflags : (received s (inp n)).bUpdateFlags = (inp n).bUpdateFlagsShared := by
      simp only [received, readShared_eq]
      exact flagsInEffect_of_cleared h0 (inp n)
    rw [writes, hflags]
    rfl
  rw [hpins, hwrites]
  by_cases hrel : Consumes Channel.flag .rel (inp n)
  · have hlast : lastRel inp (n + 1) = some ((inp n).inputShared .rel) := if_pos hrel
    have hinput : (received s (inp n)).input .rel = (inp n).inputShared .rel := by
      simp only [received, readShared_eq]
      exact if_pos hrel
    rw [if_pos hrel, on_iff (foldl_outputs h.outputs _), hinput, relayWrites_level, hlast]
    simp
  · have hlast : lastRel inp (n + 1) = lastRel inp n := if_neg hrel
    rw [if_neg hrel, hlast]
    exact h.relay r

theorem loop_servo_held {n : ℕ} {s : Vars} (h : Held inp n s) (h0 : s.bUpdateFlags = 0) :
    ((loop s (inp n)).servoEnd = defaultPulseWidth ↔ AllDefault inp (n + 1)) ∧
      (¬ AllDefault inp (n + 1) → WithinFingers (loop s (inp n)).servoEnd) := by
  rw [allDefault_succ]
  by_cases hend : Consumes Channel.flag .ende (inp n)
  · rw [loop_servoEnd s hend]
    by_cases hsame : s.servoEnd ≠ (inp n).inputShared .ende
    · rw [if_pos hsame]
      have hcommand := endCommand_withinFingers ((inp n).inputShared .ende)
      refine ⟨iff_of_false (withinFingers_ne hcommand) ?_, fun _ => hcommand⟩
      rintro ⟨hall, hwidth⟩
      exact hsame ((h.default.mpr hall).trans (hwidth hend).symm)
    · rw [if_neg hsame]
      rw [not_not] at hsame
      constructor
      · rw [← h.default]
        exact ⟨fun hd => ⟨hd, fun _ => hsame.symm.trans hd⟩, fun hd => hd.1⟩
      · intro hnot
        apply h.fingers
        intro hall
        exact hnot ⟨hall, fun _ => hsame.symm.trans (h.default.mpr hall)⟩
  · rw [loop_servoEnd_idle h0 hend, h.default]
    exact ⟨⟨fun hall => ⟨hall, fun hc => absurd hc hend⟩, fun hd => hd.1⟩,
      fun hnot => h.fingers fun hall => hnot ⟨hall, fun hc => absurd hc hend⟩⟩

/-- In every run the relays do what the last relay pulse asks, and the servo is at its default or
within the range of the fingers. -/
theorem actuators_held (n : ℕ) : Held inp n (varsAt inp n) := by
  apply invariant loop setup inp (P := Held inp)
  · refine ⟨?_, ?_, ?_, ?_⟩
    · intro r
      cases r <;> rfl
    · intro r
      refine iff_of_true ?_ (fun w hw => by cases hw)
      cases r <;> decide
    · exact iff_of_true rfl (fun k hk => absurd hk (Nat.not_lt_zero k))
    · exact fun hnot => absurd (fun k hk => absurd hk (Nat.not_lt_zero k)) hnot
  · intro n h
    have h0 := varsAt_bUpdateFlags inp n
    have hpins : (loop (varsAt inp n) (inp n)).pins =
        (writes (received (varsAt inp n) (inp n))).foldl digitalWrite (varsAt inp n).pins :=
      endEffector_pins _
    obtain ⟨hdefault, hfingers⟩ := loop_servo_held inp h h0
    refine ⟨?_, loop_pins_held inp h h0, hdefault, hfingers⟩
    change Outputs (loop (varsAt inp n) (inp n)).pins
    rw [hpins]
    exact foldl_outputs h.outputs _

end Runs

end TitanRover.Training
