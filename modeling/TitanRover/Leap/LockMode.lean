import TitanRover.Leap.Frame

/-! # The lock mode

While `wrist_gripper_mode` is on, the joints stand still; the wrist and the gripper move in that
mode only, and only while their own key is held. The frame without a hand writes the past copies
back, which changes nothing because they agree with the current values. -/
namespace TitanRover.Leap
open Foundations
set_option autoImplicit false

section Lock
variable {R : Type*}

def WristUnlocked (s : Vars R) : Prop :=
  s.reset = false ∧ s.wristGripperMode = true ∧ s.wristOnline = true

def GripperUnlocked (s : Vars R) : Prop :=
  s.reset = false ∧ s.wristGripperMode = true ∧ s.gripperOnline = true

variable [Field R] [LinearOrder R]

theorem wristMove_locked {s : Vars R} {r : Reading R} (h : ¬ WristUnlocked s) :
    wristMove s r = 0 := if_neg h

theorem gripperMove_locked {s : Vars R} {r : Reading R} (h : ¬ GripperUnlocked s) :
    gripperMove s r = 0 := if_neg h

theorem wristGripper_wristOrientation {h : HandValues R} {s : Vars R}
    (honline : s.wristOnline = false) :
    (wristGripper h s).wristOrientation = s.wristOrientation := by
  change (moveWrist h (moveGripper h s)).wristOrientation = _
  rw [moveWrist, if_neg (by simp [(moveGripper_keeps h s).2.1, honline])]
  unfold moveGripper
  split <;> rfl

variable [FloorRing R] (env : Env R)

/-- What the frame `draw` makes of reading `r` in state `s` leaves locked. -/
structure Locked (s : Vars R) (r : Reading R) : Prop where
  joints : s.wristGripperMode = true → s.reset = false →
    (∀ j, s.increment j = false ∧ s.decrement j = false) →
    ∀ j, (draw env s r).1.PWM j = s.PWM j
  gripper : (draw env s r).1.gripper ≠ s.gripper → GripperUnlocked s
  wrist : (draw env s r).1.wrist ≠ s.wrist → WristUnlocked s
  orientation : (draw env s r).2.wristOrientation ≠ 0 → WristUnlocked s
  noHand : s.reset = false → s.wristGripperMode = false → NoHand (handValues r) →
    (draw env s r).1.wrist = s.wrist ∧ (draw env s r).1.gripper = s.gripper

theorem start_wristOrientation (s : Vars R) (r : Reading R) :
    (start env s r).wristOrientation = s.wristOrientation := by
  unfold start firstCycle
  split <;> rfl

theorem track_wristOrientation (s : Vars R) :
    (track env s).wristOrientation = s.wristOrientation := by
  have hsolve : (solve env s).wristOrientation = s.wristOrientation := by
    unfold solve
    dsimp only
    split <;> rfl
  have happroach : (track env s).wristOrientation = (solve env s).wristOrientation := by
    unfold track approach leaveFirstCycle
    split_ifs <;> rfl
  exact happroach.trans hsolve

/-- A locked wrist's orientation is not assigned. -/
theorem frame_wristOrientation {s : Vars R} (h : Consistent s) (r : Reading R)
    (hlocked : ¬ WristUnlocked s) : (frame env s r).wristOrientation = s.wristOrientation := by
  have hs := start_started env h r
  have hfinish : (frame env s r).wristOrientation =
      (mode env (handValues r) (start env s r)).wristOrientation := finish_wristOrientation _
  rw [hfinish, ← start_wristOrientation env s r, mode, hs.reset, hs.mode]
  cases hreset : s.reset with
  | true => rfl
  | false =>
    cases hmode : s.wristGripperMode with
    | true =>
      have honline : (start env s r).wristOnline = false := by
        rw [hs.wristOnline, ← Bool.not_eq_true]
        exact fun hon => hlocked ⟨hreset, hmode, hon⟩
      exact wristGripper_wristOrientation honline
    | false =>
      by_cases hhand : NoHand (handValues r)
      · simp [hhand, restorePast]
      · simp [hhand, track_wristOrientation]

theorem draw_locked {s : Vars R} (h : Consistent s) (hw : s.wristOrientation = 0)
    (r : Reading R) : Locked env s r := by
  have hwrist : (draw env s r).1.wrist = s.wrist + wristMove s r := frame_wrist env h r
  have hgripper : (draw env s r).1.gripper = s.gripper + gripperMove s r := frame_gripper env h r
  refine ⟨?_, ?_, ?_, ?_, ?_⟩
  · intro hmode hreset hnudge j
    obtain ⟨p, hp⟩ := Option.isSome_iff_exists.mp (h.defined j)
    have hnot : ¬ Tracks s r := by simp [Tracks, hmode]
    rw [draw_PWM, frame_joint env h, hp]
    simp [jointFrom, jointMove, jointStep, nudgeMove, hreset, hnot, hnudge j, hp]
  · intro hne
    by_contra hlocked
    rw [hgripper, gripperMove_locked hlocked, add_zero] at hne
    exact hne rfl
  · intro hne
    by_contra hlocked
    rw [hwrist, wristMove_locked hlocked, add_zero] at hne
    exact hne rfl
  · intro hne
    by_contra hlocked
    exact hne ((frame_wristOrientation env h r hlocked).trans hw)
  · intro hreset hmode _
    rw [hwrist, hgripper, wristMove_locked (fun hu => by simp [WristUnlocked, hmode] at hu),
      gripperMove_locked (fun hu => by simp [GripperUnlocked, hmode] at hu), add_zero, add_zero]
    exact ⟨rfl, rfl⟩

theorem varsAt_wristOrientation (events : ℕ → Event R) (n : ℕ) :
    (varsAt env events n).wristOrientation = 0 := by
  apply Run.invariant (step env) init events (P := fun _ s => s.wristOrientation = 0) rfl
  intro n h
  cases events n with
  | frame r => rfl
  | press key => exact h
  | release key => exact h

theorem lock_mode (events : ℕ → Event R) (n : ℕ) (r : Reading R) :
    Locked env (varsAt env events n) r :=
  draw_locked env (varsAt_consistent env events n) (varsAt_wristOrientation env events n) r

end Lock

end TitanRover.Leap
