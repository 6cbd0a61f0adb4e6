import TitanRover.Drive.SignalChecker

/-! # T16_Drive: the middle wheels

In 4WD mode nothing is written to the middle ESCs, so they keep the command they had when the
mode was left. A run is safe for them as long as no iteration sets a new power in 4WD mode while a
middle ESC still holds a drive command. -/
namespace TitanRover.Drive
open Foundations.Run
set_option autoImplicit false

/-- After the iteration each middle ESC is idle or holds the value the same iteration wrote to the
front and back ESCs of its side. -/
def MiddleFollows (s : Vars) (i : Input) : Prop :=
  ∀ d : Side, (loop s i).escs d.middle = 1500 ∨
    ∀ v, (d.front, v) ∈ loopWrites s i ∨ (d.back, v) ∈ loopWrites s i →
      (loop s i).escs d.middle = v

def driveMode (s : Vars) (i : Input) : BitVec 16 :=
  if Consumes .drv i then i.shared.inShared .drv else s.input .drv

/-- The iteration runs in 6WD mode, finds both middle ESCs idle, or sets no new power. -/
def LeavesNoMiddleRunning (s : Vars) (i : Input) : Prop :=
  driveMode s i > 1500 ∨ (∀ d : Side, s.escs d.middle = 1500) ∨
    ¬ Consumes .jly i ∧ ¬ CheckerFires s i

theorem middleFollows_iff (s : Vars) (i : Input) :
    MiddleFollows s i ↔ ∀ d : Side,
      (loop s i).escs d.middle = 1500 ∨ (loop s i).escs d.middle = (loop s i).power d := by
  simp only [MiddleFollows, loopWrites, mem_outputs_front, mem_outputs_back, or_self, forall_eq]
  rfl

theorem middle_step {s : Vars} (h0 : s.bUpdateFlags = 0) (i : Input) (d : Side)
    (hd : s.escs d.middle = 1500 ∨ s.escs d.middle = s.power d)
    (h : LeavesNoMiddleRunning s i) :
    (loop s i).escs d.middle = 1500 ∨ (loop s i).escs d.middle = (loop s i).power d := by
  have hmode : (loop s i).input .drv = driveMode s i := loop_input h0 i .drv
  rw [loop_escs_middle h0 i d, hmode]
  by_cases h6 : driveMode s i > 1500
  · rw [if_pos h6]
    exact Or.inr rfl
  · rw [if_neg h6]
    rcases h with h | h | ⟨hy, hf⟩
    · exact absurd h h6
    · exact Or.inl (h d)
    · rw [loop_power h0 i d, if_neg hy, if_neg hf]
      exact hd

theorem middle_run (b : Boot) (inp : ℕ → Input)
    (h : ∀ k, LeavesNoMiddleRunning (varsAt b inp k) (inp k)) (n : ℕ) (d : Side) :
    (varsAt b inp n).escs d.middle = 1500 ∨
      (varsAt b inp n).escs d.middle = (varsAt b inp n).power d := by
  induction n with
  | zero =>
    left
    have hsetup : (varsAt b inp 0).escs = fun _ => calSignal := setup_escs b
    rw [hsetup, calSignal]
  | succ n ih => exact middle_step (varsAt_bUpdateFlags b inp n) (inp n) d ih (h n)

theorem middle_follows (b : Boot) (inp : ℕ → Input)
    (h : ∀ k, LeavesNoMiddleRunning (varsAt b inp k) (inp k)) (n : ℕ) :
    MiddleFollows (varsAt b inp n) (inp n) :=
  (middleFollows_iff _ _).mpr (fun d => middle_run b inp h (n + 1) d)

def sixWheel (k : ℕ) : Input :=
  { shared :=
      { bUpdateFlagsShared := 15
        inShared := fun c => if c = .jly ∨ c = .drv then 2000 else 1500 }
    time := k }

theorem sixWheel_mode (s : Vars) (k : ℕ) : driveMode s (sixWheel k) > 1500 := by
  have hd : Consumes .drv (sixWheel k) := by
    simp only [Consumes, sixWheel]
    decide
  rw [driveMode, if_pos hd]
  show (2000 : BitVec 16) > 1500
  decide

theorem middle_follows_sixWheel : MiddleFollows (varsAt coldBoot sixWheel 7) (sixWheel 7) :=
  middle_follows coldBoot sixWheel (fun k => Or.inl (sixWheel_mode _ k)) 7

/-- The stick is centred and the switch moved to 4WD in the same iteration. -/
def toFourWheel (k : ℕ) : Input :=
  if k = 0 then sixWheel 0
  else { shared := { bUpdateFlagsShared := 15, inShared := fun c => if c = .drv then 1000 else 1500 }
         time := k }

theorem middle_keeps_running :
    ¬ ∀ (b : Boot) (inp : ℕ → Input) (n : ℕ), MiddleFollows (varsAt b inp n) (inp n) := by
  intro hall
  have h := (middleFollows_iff _ _).mp (hall coldBoot toFourWheel 1) .left
  have hmiddle : (varsAt coldBoot toFourWheel 2).escs .ml = 1760 := by decide +kernel
  have hpower : (varsAt coldBoot toFourWheel 2).power .left = 1500 := by decide +kernel
  have h' : (varsAt coldBoot toFourWheel 2).escs .ml = 1500 ∨
      (varsAt coldBoot toFourWheel 2).escs .ml = (varsAt coldBoot toFourWheel 2).power .left := h
  rw [hmiddle, hpower] at h'
  exact absurd h' (by decide)

end TitanRover.Drive
