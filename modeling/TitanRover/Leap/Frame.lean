import TitanRover.Leap.Sketch

/-! # What a frame moves

Between events the past copies agree with the current values, once a frame has taken the inverse
kinematics branch (`Consistent`). From such a state a frame moves each of the four servo commands by
at most one step of the slow increment and one nudge; `frame_wrist`, `frame_gripper` and
`frame_joint` give the moves. -/
namespace TitanRover.Leap
open Foundations
set_option autoImplicit false

inductive Joint where
  | one | two
  deriving DecidableEq

section Joints
variable {R : Type*}

def Vars.PWM (s : Vars R) : Joint → Num R
  | .one => s.joint1PWM
  | .two => s.joint2PWM

def Vars.pastPWM (s : Vars R) : Joint → Num R
  | .one => s.pastJoint1PWM
  | .two => s.pastJoint2PWM

def Vars.theta (s : Vars R) : Joint → Num R
  | .one => s.theta1
  | .two => s.theta2

def Vars.pastTheta (s : Vars R) : Joint → Num R
  | .one => s.pastTheta1
  | .two => s.pastTheta2

def Vars.increment (s : Vars R) : Joint → Bool
  | .one => s.joint1Increment
  | .two => s.joint2Increment

def Vars.decrement (s : Vars R) : Joint → Bool
  | .one => s.joint1Decrement
  | .two => s.joint2Decrement

structure Consistent (s : Vars R) : Prop where
  slow : s.oneToOneSlow = true
  gripper : s.firstLoopCycle = false → s.pastGripper = s.gripper
  wrist : s.firstLoopCycle = false → s.pastWrist = s.wrist
  joint : ∀ j, s.firstLoopCycle = false → s.pastPWM j = s.PWM j
  theta : ∀ j, s.firstLoopCycle = false → s.pastTheta j = s.theta j
  solved : ∀ j, (s.theta j).isSome = true
  defined : ∀ j, (s.PWM j).isSome = true

structure Started (s s' : Vars R) : Prop where
  wrist : s'.wrist = s.wrist
  gripper : s'.gripper = s.gripper
  pastWrist : s'.pastWrist = s.wrist
  pastGripper : s'.pastGripper = s.gripper
  firstLoopCycle : s'.firstLoopCycle = s.firstLoopCycle
  slow : s'.oneToOneSlow = true
  reset : s'.reset = s.reset
  mode : s'.wristGripperMode = s.wristGripperMode
  wristOnline : s'.wristOnline = s.wristOnline
  gripperOnline : s'.gripperOnline = s.gripperOnline
  PWM : ∀ j, s'.PWM j = s.PWM j
  pastPWM : ∀ j, s.firstLoopCycle = false → s'.pastPWM j = s.PWM j
  theta : ∀ j, (s'.theta j).isSome = true
  pastTheta : ∀ j, s'.pastTheta j = s'.theta j
  increment : ∀ j, s'.increment j = s.increment j
  decrement : ∀ j, s'.decrement j = s.decrement j

theorem keys_PWM (s : Vars R) (keys : Keys) (j : Joint) :
    ({ s with toKeys := keys } : Vars R).PWM j = s.PWM j := by
  cases j <;> rfl

theorem keys_consistent {s : Vars R} (h : Consistent s) (keys : Keys) :
    Consistent { s with toKeys := keys } := by
  refine ⟨h.slow, h.gripper, h.wrist, ?_, ?_, ?_, ?_⟩ <;> intro j
  · have hj := h.joint j
    cases j <;> exact hj
  · have hj := h.theta j
    cases j <;> exact hj
  · have hj := h.solved j
    cases j <;> exact hj
  · have hj := h.defined j
    cases j <;> exact hj

theorem PWM_getD [Zero R] {s s' : Vars R} (h : Consistent s) (hs : Started s s') (j : Joint) :
    s'.PWM j = some ((s.PWM j).getD 0) := by
  obtain ⟨p, hp⟩ := Option.isSome_iff_exists.mp (h.defined j)
  rw [hs.PWM, hp]
  rfl

end Joints

/-! ## The moves of a frame -/

section Moves
variable {R : Type*} [Field R]

def nudgeMove (increment decrement : Bool) : R :=
  if increment then 1 else if decrement then -1 else 0

theorem nudge_some (increment decrement : Bool) (p : R) :
    nudge increment decrement (some p) = some (p + nudgeMove increment decrement) := by
  unfold nudge nudgeMove
  split_ifs <;> simp

variable [LinearOrder R]

def approachMove (target p : R) : R :=
  if target > p then oneToOneSlowIncrementFactor
  else if target < p then -oneToOneSlowIncrementFactor
  else 0

theorem slowIncrementPWM_eq (target p : R) :
    slowIncrementPWM target p = p + approachMove target p := by
  unfold slowIncrementPWM approachMove
  split_ifs <;> ring

def wristTurn (wrst : R) : R :=
  if TurnsCCW wrst then -oneToOneSlowIncrementFactor
  else if TurnsCW wrst then oneToOneSlowIncrementFactor
  else 0

theorem rotateWrist_wrist (wrst : R) (s : Vars R) :
    (rotateWrist wrst s).wrist = s.wrist + wristTurn wrst := by
  unfold rotateWrist wristTurn
  split_ifs <;> simp [sub_eq_add_neg]

def jointPosition (env : Env R) (theta : R) : Joint → R
  | .one => joint1Position (degrees env theta)
  | .two => joint2Position (degrees env theta)

def jointReset : Joint → R
  | .one => joint1Reset
  | .two => joint2Reset

theorem moveGripper_keeps (h : HandValues R) (s : Vars R) :
    (moveGripper h s).wrist = s.wrist ∧ (moveGripper h s).wristOnline = s.wristOnline ∧
      (moveGripper h s).oneToOneSlow = s.oneToOneSlow ∧
      ∀ j, (moveGripper h s).PWM j = s.PWM j ∧ (moveGripper h s).theta j = s.theta j ∧
        (moveGripper h s).increment j = s.increment j ∧
        (moveGripper h s).decrement j = s.decrement j := by
  unfold moveGripper
  split <;> refine ⟨rfl, rfl, rfl, ?_⟩ <;>
    · intro j
      cases j <;> exact ⟨rfl, rfl, rfl, rfl⟩

theorem moveWrist_keeps (h : HandValues R) (s : Vars R) :
    (moveWrist h s).gripper = s.gripper ∧ (moveWrist h s).oneToOneSlow = s.oneToOneSlow ∧
      ∀ j, (moveWrist h s).PWM j = s.PWM j ∧ (moveWrist h s).theta j = s.theta j ∧
        (moveWrist h s).increment j = s.increment j ∧
        (moveWrist h s).decrement j = s.decrement j := by
  unfold moveWrist rotateWrist
  split_ifs <;> refine ⟨rfl, rfl, ?_⟩ <;>
    · intro j
      cases j <;> exact ⟨rfl, rfl, rfl, rfl⟩

theorem wristGripper_firstLoopCycle (h : HandValues R) (s : Vars R) :
    (wristGripper h s).firstLoopCycle = s.firstLoopCycle := by
  unfold wristGripper moveWrist rotateWrist moveGripper
  split_ifs <;> rfl

end Moves

/-! ## The parts of a tracking frame -/

section Tracking
variable {R : Type*} [Field R] (env : Env R)

theorem solve_keeps (s : Vars R) :
    (solve env s).wrist = s.wrist ∧ (solve env s).gripper = s.gripper ∧
      (solve env s).pastGripper = s.pastGripper ∧
      (solve env s).firstLoopCycle = s.firstLoopCycle ∧
      (solve env s).oneToOneSlow = s.oneToOneSlow ∧
      ∀ j, (solve env s).pastPWM j = s.pastPWM j ∧ (solve env s).increment j = s.increment j ∧
        (solve env s).decrement j = s.decrement j := by
  unfold solve
  dsimp only
  split <;> refine ⟨rfl, rfl, rfl, rfl, rfl, ?_⟩ <;>
    · intro j
      cases j <;> exact ⟨rfl, rfl, rfl⟩

/-- The pose that is aimed at is always defined: it is the solution, or else the past pose. -/
theorem solve_theta {s : Vars R} (h : ∀ j, (s.pastTheta j).isSome = true) (j : Joint) :
    ((solve env s).theta j).isSome = true := by
  unfold solve
  dsimp only
  split
  · cases j
    · exact h .one
    · exact h .two
  · next hsome =>
    simp only [not_or, Bool.not_eq_true, Option.isNone_eq_false_iff] at hsome
    cases j
    · exact hsome.1
    · exact hsome.2

variable [LinearOrder R]

/-- The step from the past position to the one aimed at, which in the first tracking frame is the
past position. -/
theorem approach_PWM {s : Vars R} (hslow : s.oneToOneSlow = true) {j : Joint} {target p : R}
    (hP : s.PWM j = some target) (hpast : s.firstLoopCycle = false → s.pastPWM j = some p) :
    (approach (leaveFirstCycle s)).PWM j =
      some (if s.firstLoopCycle = true then target else p + approachMove target p) := by
  have hself : slowIncrementPWM target target = target := by
    rw [slowIncrementPWM_eq, approachMove, if_neg (lt_irrefl _), if_neg (lt_irrefl _), add_zero]
  unfold approach leaveFirstCycle
  cases hfirst : s.firstLoopCycle with
  | true =>
    cases j <;>
      · simp only [Vars.PWM] at hP
        simp [hslow, Vars.PWM, hP, slowIncrement, hself]
  | false =>
    have hp := hpast hfirst
    cases j <;>
      · simp only [Vars.PWM, Vars.pastPWM] at hP hp
        simp [hslow, Vars.PWM, hP, hp, slowIncrement, slowIncrementPWM_eq]

theorem approach_keeps (s : Vars R) :
    (approach (leaveFirstCycle s)).wrist = s.wrist ∧
      (approach (leaveFirstCycle s)).gripper = s.gripper ∧
      (approach (leaveFirstCycle s)).pastGripper = s.pastGripper ∧
      (approach (leaveFirstCycle s)).oneToOneSlow = s.oneToOneSlow ∧
      ∀ j, (approach (leaveFirstCycle s)).theta j = s.theta j ∧
        (approach (leaveFirstCycle s)).increment j = s.increment j ∧
        (approach (leaveFirstCycle s)).decrement j = s.decrement j := by
  unfold approach leaveFirstCycle
  split_ifs <;> refine ⟨rfl, rfl, rfl, rfl, ?_⟩ <;>
    · intro j
      cases j <;> exact ⟨rfl, rfl, rfl⟩

end Tracking

/-! ## The end of a frame -/

section Finish
variable {R : Type*} [Field R]

/-- After the modes a frame only nudges the joints and saves the past copies. -/
theorem finish_PWM (s : Vars R) (j : Joint) :
    (savePast (nudgeJoints s)).PWM j = nudge (s.increment j) (s.decrement j) (s.PWM j) := by
  cases j <;> rfl

theorem finish_theta (s : Vars R) (j : Joint) :
    (savePast (nudgeJoints s)).theta j = s.theta j := by
  cases j <;> rfl

theorem finish_keys (s : Vars R) : (savePast (nudgeJoints s)).toKeys = s.toKeys := rfl

theorem finish_wristOrientation (s : Vars R) :
    (savePast (nudgeJoints s)).wristOrientation = s.wristOrientation := rfl

theorem finish_firstLoopCycle (s : Vars R) :
    (savePast (nudgeJoints s)).firstLoopCycle = s.firstLoopCycle := rfl

theorem finish_consistent {s : Vars R} (hslow : s.oneToOneSlow = true)
    (hgripper : s.pastGripper = s.gripper) (htheta : ∀ j, (s.theta j).isSome = true)
    (hPWM : ∀ j, (s.PWM j).isSome = true) :
    Consistent { savePast (nudgeJoints s) with wristOrientation := 0 } := by
  refine ⟨hslow, fun _ => hgripper, fun _ => rfl, ?_, ?_, ?_, ?_⟩
  · intro j _
    cases j <;> rfl
  · intro j _
    cases j <;> rfl
  · intro j
    have hj := htheta j
    cases j <;> exact hj
  · intro j
    obtain ⟨p, hp⟩ := Option.isSome_iff_exists.mp (hPWM j)
    have hj : ((savePast (nudgeJoints s)).PWM j).isSome = true := by
      rw [finish_PWM, hp, nudge_some]
      rfl
    cases j <;> exact hj

end Finish

section Frames
variable {R : Type*} [Field R] [LinearOrder R] [FloorRing R]

def Tracks (s : Vars R) (r : Reading R) : Prop :=
  s.reset = false ∧ s.wristGripperMode = false ∧ ¬ NoHand (handValues r)

instance (s : Vars R) (r : Reading R) : Decidable (Tracks s r) :=
  inferInstanceAs (Decidable (_ ∧ _ ∧ _))

def wristMove (s : Vars R) (r : Reading R) : R :=
  if s.reset = false ∧ s.wristGripperMode = true ∧ s.wristOnline = true then
    wristTurn (handValues r).rollR
  else 0

def gripperMove (s : Vars R) (r : Reading R) : R :=
  if s.reset = false ∧ s.wristGripperMode = true ∧ s.gripperOnline = true then
    approachMove (gripperTarget (handValues r)) s.gripper
  else 0

def start (env : Env R) (s : Vars R) (r : Reading R) : Vars R :=
  firstCycle env (aim (handValues r) s)

def jointTarget (env : Env R) (s : Vars R) (r : Reading R) (j : Joint) : R :=
  jointPosition env (((solve env (start env s r)).theta j).getD 0) j

/-- The position a frame moves a joint from: the reset position, the target itself in the first
tracking frame, and else where the joint is. -/
def jointFrom (env : Env R) (s : Vars R) (r : Reading R) (j : Joint) : R :=
  if s.reset = true then jointReset j
  else if Tracks s r ∧ s.firstLoopCycle = true then jointTarget env s r j
  else (s.PWM j).getD 0

def jointStep (env : Env R) (s : Vars R) (r : Reading R) (j : Joint) : R :=
  if Tracks s r ∧ s.firstLoopCycle = false then
    approachMove (jointTarget env s r j) ((s.PWM j).getD 0)
  else 0

def jointMove (env : Env R) (s : Vars R) (r : Reading R) (j : Joint) : R :=
  jointStep env s r j + nudgeMove (s.increment j) (s.decrement j)

/-! ## The start of a frame -/

section Start
variable (env : Env R)

theorem start_started {s : Vars R} (h : Consistent s) (r : Reading R) :
    Started s (start env s r) := by
  unfold start firstCycle aim
  cases hfirst : s.firstLoopCycle with
  | true =>
    refine ⟨rfl, rfl, rfl, rfl, hfirst.symm, h.slow, rfl, rfl, rfl, rfl, ?_, ?_, ?_, ?_, ?_, ?_⟩ <;>
      · intro j
        cases j <;> simp [Vars.PWM, Vars.theta, Vars.pastTheta, Vars.increment, Vars.decrement,
          hfirst]
  | false =>
    refine ⟨rfl, rfl, h.wrist hfirst, h.gripper hfirst, hfirst.symm, h.slow, rfl, rfl, rfl, rfl,
      ?_, ?_, ?_, ?_, ?_, ?_⟩
    · intro j
      cases j <;> rfl
    · intro j _
      have hj := h.joint j hfirst
      cases j <;> exact hj
    · intro j
      have hj := h.solved j
      cases j <;> exact hj
    · intro j
      have hj := h.theta j hfirst
      cases j <;> exact hj
    · intro j
      cases j <;> rfl
    · intro j
      cases j <;> rfl

theorem mode_of_tracks {s : Vars R} (h : Consistent s) {r : Reading R} (ht : Tracks s r) :
    mode env (handValues r) (start env s r) = track env (start env s r) := by
  have hs := start_started env h r
  rw [mode, hs.reset, hs.mode, if_neg (by simp [ht.1]), if_neg (by simp [ht.2.1]), if_neg ht.2.2]

/-! ## The modes -/

structure Moved (s : Vars R) (r : Reading R) (s₁ : Vars R) : Prop where
  wrist : s₁.wrist = s.wrist + wristMove s r
  gripper : s₁.gripper = s.gripper + gripperMove s r
  pastGripper : s₁.pastGripper = s₁.gripper
  PWM : ∀ j, s₁.PWM j = some (jointFrom env s r j + jointStep env s r j)
  theta : ∀ j, (s₁.theta j).isSome = true
  slow : s₁.oneToOneSlow = true
  increment : ∀ j, s₁.increment j = s.increment j
  decrement : ∀ j, s₁.decrement j = s.decrement j

theorem resetJoints_moved {s s' : Vars R} {r : Reading R} (hs : Started s s')
    (hreset : s.reset = true) : Moved env s r (resetJoints s') where
  wrist := by simp [resetJoints, wristMove, hreset, hs.wrist]
  gripper := by simp [resetJoints, gripperMove, hreset, hs.gripper]
  pastGripper := hs.pastGripper.trans hs.gripper.symm
  PWM := by
    intro j
    cases j <;> simp [resetJoints, Vars.PWM, jointFrom, jointStep, Tracks, hreset, jointReset]
  theta := hs.theta
  slow := hs.slow
  increment := hs.increment
  decrement := hs.decrement

theorem wristGripper_moved {s s' : Vars R} {r : Reading R} (h : Consistent s) (hs : Started s s')
    (hreset : s.reset = false) (hmode : s.wristGripperMode = true) :
    Moved env s r (wristGripper (handValues r) s') := by
  obtain ⟨hgw, hgo, hgs, hgj⟩ := moveGripper_keeps (handValues r) s'
  obtain ⟨hwg, hws, hwj⟩ :=
    moveWrist_keeps (handValues r) (moveGripper (handValues r) s')
  have hnot : ¬ Tracks s r := by simp [Tracks, hmode]
  refine ⟨?_, ?_, rfl, ?_, ?_, ?_, ?_, ?_⟩
  · change (moveWrist _ _).wrist = _
    unfold moveWrist wristMove
    rw [hgo, hs.wristOnline]
    by_cases hon : s.wristOnline = true
    · rw [if_pos hon, if_pos ⟨hreset, hmode, hon⟩, rotateWrist_wrist, hgw, hs.wrist]
    · rw [if_neg hon, if_neg (fun hc => hon hc.2.2), hgw, hs.wrist, add_zero]
  · change (moveWrist _ _).gripper = _
    rw [hwg]
    unfold moveGripper gripperMove
    rw [hs.gripperOnline]
    by_cases hon : s.gripperOnline = true
    · rw [if_pos hon, if_pos ⟨hreset, hmode, hon⟩, slowIncrementPWM_eq, hs.pastGripper]
    · rw [if_neg hon, if_neg (fun hc => hon hc.2.2), hs.gripper, add_zero]
  · intro j
    have hj : (wristGripper (handValues r) s').PWM j = s'.PWM j :=
      ((hwj j).1).trans ((hgj j).1)
    rw [hj, PWM_getD h hs]
    simp [jointFrom, jointStep, hreset, hnot]
  · intro j
    have hj : (wristGripper (handValues r) s').theta j = s'.theta j :=
      ((hwj j).2.1).trans ((hgj j).2.1)
    rw [hj]
    exact hs.theta j
  · exact (hws.trans hgs).trans hs.slow
  · intro j
    exact (((hwj j).2.2.1).trans ((hgj j).2.2.1)).trans (hs.increment j)
  · intro j
    exact (((hwj j).2.2.2).trans ((hgj j).2.2.2)).trans (hs.decrement j)

theorem restorePast_moved {s s' : Vars R} {r : Reading R} (h : Consistent s) (hs : Started s s')
    (hreset : s.reset = false) (hmode : s.wristGripperMode = false)
    (hhand : NoHand (handValues r)) : Moved env s r (restorePast s') := by
  have hnot : ¬ Tracks s r := fun ht => ht.2.2 hhand
  refine ⟨?_, ?_, rfl, ?_, ?_, hs.slow, hs.increment, hs.decrement⟩
  · simp [restorePast, wristMove, hmode, hs.pastWrist]
  · simp [restorePast, gripperMove, hmode, hs.pastGripper]
  · intro j
    have hj : (restorePast s').PWM j = s'.PWM j := by cases j <;> rfl
    rw [hj, PWM_getD h hs]
    simp [jointFrom, jointStep, hreset, hnot]
  · intro j
    have hj : (restorePast s').theta j = s'.pastTheta j := by cases j <;> rfl
    rw [hj, hs.pastTheta]
    exact hs.theta j

theorem pose_PWM {s : Vars R} {j : Joint} {theta : R} (h : s.theta j = some theta) :
    (pose env s).PWM j = some (jointPosition env theta j) := by
  cases j <;>
    · simp only [Vars.theta] at h
      simp [pose, Vars.PWM, jointPosition, h]

theorem track_moved {s : Vars R} {r : Reading R} (h : Consistent s) (ht : Tracks s r) :
    Moved env s r (track env (start env s r)) := by
  have hs := start_started env h r
  obtain ⟨hsw, hsg, hspg, hsf, hss, hsj⟩ := solve_keeps env (start env s r)
  obtain ⟨haw, hag, hapg, has, haj⟩ := approach_keeps (pose env (solve env (start env s r)))
  have htheta := solve_theta env (s := start env s r) (fun j => by
    rw [hs.pastTheta j]
    exact hs.theta j)
  refine ⟨?_, ?_, ?_, ?_, ?_, ?_, ?_, ?_⟩
  · rw [track, haw, wristMove, if_neg (by simp [ht.2.1]), add_zero]
    exact hsw.trans hs.wrist
  · rw [track, hag, gripperMove, if_neg (by simp [ht.2.1]), add_zero]
    exact hsg.trans hs.gripper
  · rw [track, hapg, hag]
    exact (hspg.trans hs.pastGripper).trans (hsg.trans hs.gripper).symm
  · intro j
    obtain ⟨theta, hθ⟩ := Option.isSome_iff_exists.mp (htheta j)
    have htarget : jointTarget env s r j = jointPosition env theta j := by
      rw [jointTarget, hθ]
      rfl
    have hfirst : (pose env (solve env (start env s r))).firstLoopCycle = s.firstLoopCycle :=
      hsf.trans hs.firstLoopCycle
    have hPWM := approach_PWM (s := pose env (solve env (start env s r)))
      (hss.trans hs.slow) (pose_PWM env hθ) (p := (s.PWM j).getD 0) (fun hf => by
        rw [hfirst] at hf
        obtain ⟨p, hp⟩ := Option.isSome_iff_exists.mp (h.defined j)
        have hpast : (pose env (solve env (start env s r))).pastPWM j =
            (solve env (start env s r)).pastPWM j := by cases j <;> rfl
        rw [hpast, (hsj j).1, hs.pastPWM j hf, hp]
        rfl)
    rw [track, hPWM, hfirst, ← htarget, jointFrom, jointStep]
    cases hf : s.firstLoopCycle <;> simp [ht, ht.1]
  · intro j
    have hj : (pose env (solve env (start env s r))).theta j =
        (solve env (start env s r)).theta j := by cases j <;> rfl
    rw [track, (haj j).1, hj]
    exact htheta j
  · rw [track, has]
    exact hss.trans hs.slow
  · intro j
    have hj : (pose env (solve env (start env s r))).increment j =
        (solve env (start env s r)).increment j := by cases j <;> rfl
    rw [track, (haj j).2.1, hj, (hsj j).2.1, hs.increment]
  · intro j
    have hj : (pose env (solve env (start env s r))).decrement j =
        (solve env (start env s r)).decrement j := by cases j <;> rfl
    rw [track, (haj j).2.2, hj, (hsj j).2.2, hs.decrement]

theorem mode_moved {s : Vars R} (h : Consistent s) (r : Reading R) :
    Moved env s r (mode env (handValues r) (start env s r)) := by
  have hs := start_started env h r
  unfold mode
  rw [hs.reset, hs.mode]
  cases hreset : s.reset with
  | true => exact resetJoints_moved env hs hreset
  | false =>
    cases hmode : s.wristGripperMode with
    | true => exact wristGripper_moved env h hs hreset hmode
    | false =>
      by_cases hhand : NoHand (handValues r)
      · simpa [hhand] using restorePast_moved env h hs hreset hmode hhand
      · simpa [hhand] using track_moved env h ⟨hreset, hmode, hhand⟩

/-! ## Whole frames -/

theorem mode_keys (h : HandValues R) (s : Vars R) : (mode env h s).toKeys = s.toKeys := by
  have hgripper : (moveGripper h s).toKeys = s.toKeys := by
    unfold moveGripper
    split <;> rfl
  have hwrist : (moveWrist h (moveGripper h s)).toKeys = (moveGripper h s).toKeys := by
    unfold moveWrist rotateWrist
    split_ifs <;> rfl
  have hsolve : (solve env s).toKeys = s.toKeys := by
    unfold solve
    dsimp only
    split <;> rfl
  have happroach : (approach (leaveFirstCycle (pose env (solve env s)))).toKeys =
      (solve env s).toKeys := by
    unfold approach leaveFirstCycle
    split_ifs <;> rfl
  unfold mode
  split_ifs
  · rfl
  · exact hwrist.trans hgripper
  · rfl
  · exact happroach.trans hsolve

/-- Only the key handlers assign their variables. -/
theorem draw_keys (s : Vars R) (r : Reading R) : (draw env s r).1.toKeys = s.toKeys := by
  have hstart : (start env s r).toKeys = s.toKeys := by
    unfold start firstCycle
    split <;> rfl
  have hfinish : (draw env s r).1.toKeys = (mode env (handValues r) (start env s r)).toKeys :=
    finish_keys _
  rw [hfinish, mode_keys, hstart]

theorem frame_wrist {s : Vars R} (h : Consistent s) (r : Reading R) :
    (frame env s r).wrist = s.wrist + wristMove s r := (mode_moved env h r).wrist

theorem frame_gripper {s : Vars R} (h : Consistent s) (r : Reading R) :
    (frame env s r).gripper = s.gripper + gripperMove s r := (mode_moved env h r).gripper

theorem frame_joint {s : Vars R} (h : Consistent s) (r : Reading R) (j : Joint) :
    (frame env s r).PWM j = some (jointFrom env s r j + jointMove env s r j) := by
  have hm := mode_moved env h r
  have hj : (frame env s r).PWM j =
      nudge ((mode env (handValues r) (start env s r)).increment j)
        ((mode env (handValues r) (start env s r)).decrement j)
        ((mode env (handValues r) (start env s r)).PWM j) := finish_PWM _ j
  rw [hj, hm.PWM, hm.increment, hm.decrement, nudge_some, jointMove, add_assoc]

theorem draw_PWM (s : Vars R) (r : Reading R) (j : Joint) :
    (draw env s r).1.PWM j = (frame env s r).PWM j := by
  cases j <;> rfl

theorem draw_theta (s : Vars R) (r : Reading R) (j : Joint) :
    (draw env s r).1.theta j = (frame env s r).theta j := by
  cases j <;> rfl

theorem draw_consistent {s : Vars R} (h : Consistent s) (r : Reading R) :
    Consistent (draw env s r).1 := by
  have hm := mode_moved env h r
  apply finish_consistent hm.slow hm.pastGripper hm.theta
  intro j
  rw [hm.PWM]
  rfl

theorem track_firstLoopCycle (s : Vars R) : (track env s).firstLoopCycle = false := by
  unfold track approach leaveFirstCycle
  split_ifs <;> simp_all

/-- The first cycle ends with the first frame that takes the inverse kinematics branch. -/
theorem draw_firstLoopCycle {s : Vars R} (h : Consistent s) (r : Reading R) :
    (draw env s r).1.firstLoopCycle = true ↔ s.firstLoopCycle = true ∧ ¬ Tracks s r := by
  have hs := start_started env h r
  have hfinish : (draw env s r).1.firstLoopCycle =
      (mode env (handValues r) (start env s r)).firstLoopCycle := finish_firstLoopCycle _
  rw [hfinish, mode, Tracks, hs.reset, hs.mode]
  cases hreset : s.reset with
  | true => simp [resetJoints, hs.firstLoopCycle]
  | false =>
    cases hmode : s.wristGripperMode with
    | true => simp [wristGripper_firstLoopCycle, hs.firstLoopCycle]
    | false =>
      by_cases hhand : NoHand (handValues r)
      · simp [hhand, restorePast, hs.firstLoopCycle]
      · simp [hhand, track_firstLoopCycle]

end Start

end Frames

/-! ## Runs -/

section Runs
variable {R : Type*} [Field R]

theorem init_consistent : Consistent (init : Vars R) := by
  refine ⟨rfl, ?_, ?_, ?_, ?_, ?_, ?_⟩
  · intro h
    exact absurd h (by simp [init])
  · intro h
    exact absurd h (by simp [init])
  · intro j h
    exact absurd h (by simp [init])
  · intro j h
    exact absurd h (by simp [init])
  · intro j
    cases j <;> rfl
  · intro j
    cases j <;> rfl

variable [LinearOrder R] [FloorRing R] (env : Env R)

theorem varsAt_consistent (events : ℕ → Event R) (n : ℕ) : Consistent (varsAt env events n) := by
  apply Run.invariant (step env) init events (P := fun _ s => Consistent s) init_consistent
  intro n h
  cases events n with
  | frame r => exact draw_consistent env h r
  | press key => exact keys_consistent h _
  | release key => exact keys_consistent h _

end Runs

end TitanRover.Leap
