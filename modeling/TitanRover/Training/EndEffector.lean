import TitanRover.Training.Mix

/-! # The updates of the end effector

`loop` skips the write when the servo's last command equals the new pulse. The command is the mapped
value of an earlier pulse, so the comparison is of two different scales, and an update is dropped
exactly when a pulse happens to be as wide as the command and is not mapped to itself. -/
namespace TitanRover.Training
open TitanRover.Arduino TitanRover.Stick Foundations Foundations.Run
set_option autoImplicit false

/-- What a pulse of width `p` asks of the servo. -/
def Commanded (p servo : BitVec 16) : Prop :=
  (servo.toNat : ℤ) = Arduino.map (max 1000 (min p.toNat 2000) : ℕ) 1000 2000 1220 1480

/-- The two widths that are mapped to themselves. -/
def Fixed (p : BitVec 16) : Prop := p = 1296 ∨ p = 1297

theorem map_end {n : ℕ} (h : 1000 ≤ n) :
    Arduino.map n 1000 2000 1220 1480 = ((n - 1000 : ℕ) : ℤ) * 260 / 1000 + 1220 := by
  rw [Arduino.map, Int.tdiv_eq_ediv_of_nonneg (by omega)]
  omega

theorem endCommand_commanded (p : BitVec 16) : Commanded p (endCommand p) := by
  have hmap := map_end (n := max 1000 (min p.toNat 2000)) (by omega)
  rw [Commanded, endCommand, scrubWidth_toNat, hmap, BitVec.toNat_ofInt]
  omega

theorem commanded_iff (p servo : BitVec 16) : Commanded p servo ↔ servo = endCommand p := by
  constructor
  · intro h
    apply BitVec.eq_of_toNat_eq
    exact_mod_cast h.trans (endCommand_commanded p).symm
  · rintro rfl
    exact endCommand_commanded p

theorem endCommand_eq_self_iff (p : BitVec 16) : endCommand p = p ↔ Fixed p := by
  have hvalue : Fixed p ↔ p.toNat = 1296 ∨ p.toNat = 1297 :=
    or_congr (BitVec.toNat_inj (y := 1296)).symm (BitVec.toNat_inj (y := 1297)).symm
  rw [eq_comm, ← commanded_iff, Commanded, map_end (by omega), hvalue]
  omega

theorem loop_servoEnd (s : Vars) {sh : Shared Channel} (h : Consumes Channel.flag .ende sh) :
    (loop s sh).servoEnd =
      if s.servoEnd ≠ sh.inputShared .ende then endCommand (sh.inputShared .ende)
      else s.servoEnd := by
  have hflags : flagsInEffect s.toStatics sh &&& endFlag ≠ 0 := by
    rw [flagsInEffect_of_consumes Channel.flag h]
    exact h
  have hinput : inEffect Channel.flag s.toStatics sh .ende = sh.inputShared .ende := if_pos h
  simp only [loop, endEffector, relays, received, readShared_eq, hinput]
  rw [if_pos hflags]
  split_ifs <;> rfl

theorem loop_commanded_iff (s : Vars) {sh : Shared Channel} (h : Consumes Channel.flag .ende sh) :
    Commanded (sh.inputShared .ende) (loop s sh).servoEnd ↔
      s.servoEnd ≠ sh.inputShared .ende ∨ Fixed (sh.inputShared .ende) := by
  rw [commanded_iff, loop_servoEnd s h, ← endCommand_eq_self_iff]
  split_ifs with hne
  · exact iff_of_true rfl (Or.inl hne)
  · rw [or_iff_right hne, not_not.mp hne, eq_comm]

/-- No update of a run is dropped exactly when no pulse is as wide as the command that the servo
holds, unless it is mapped to itself. -/
theorem updates_iff (inp : ℕ → Shared Channel) :
    (∀ n, Consumes Channel.flag .ende (inp n) →
      Commanded ((inp n).inputShared .ende) (varsAt inp (n + 1)).servoEnd) ↔
    ∀ n, Consumes Channel.flag .ende (inp n) →
      (varsAt inp n).servoEnd ≠ (inp n).inputShared .ende ∨ Fixed ((inp n).inputShared .ende) :=
  forall_congr' fun n => forall_congr' fun h => loop_commanded_iff (varsAt inp n) h

/-- The stick at rest: a pulse of 1500 in every iteration. -/
def centred (_ : ℕ) : Shared Channel where
  bUpdateFlagsShared := endFlag
  inputShared := fun _ => 1500

/-- The very first pulse is dropped when it is as wide as the default command. -/
theorem first_update_dropped :
    ¬ ∀ (inp : ℕ → Shared Channel) (n : ℕ), Consumes Channel.flag .ende (inp n) →
      Commanded ((inp n).inputShared .ende) (varsAt inp (n + 1)).servoEnd := by
  intro hall
  have h := (updates_iff centred).mp (hall centred) 0 (by decide)
  exact absurd h (by unfold Fixed; decide)

end TitanRover.Training
