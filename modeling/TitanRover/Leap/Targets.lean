import TitanRover.Leap.CommandRange

/-! # The pose aimed at

A frame without a solution aims at the pose of the most recent frame that had one, and at the rest
pose before the first. The angles at the end of every frame are that pose. A tracking frame has a
solution exactly if its target is within reach. -/
namespace TitanRover.Leap
open Foundations
set_option autoImplicit false

section Pose
variable {R : Type*} [Field R] (env : Env R)

def Joint.of {V : Type*} (a b : V) : Joint → V
  | .one => a
  | .two => b

/-- The pair of solutions for the arm's target, if both are defined. -/
def solution (s : Vars R) : Option (Joint → R) :=
  match env.solveTheta1 s.xArm s.yArm length1 length2,
    env.solveTheta2 s.xArm s.yArm length1 length2 with
  | some theta1, some theta2 => some (Joint.of theta1 theta2)
  | _, _ => none

theorem solve_solution (s : Vars R) (j : Joint) :
    (solve env s).theta j = (solution env s).elim (s.pastTheta j) (fun pose => some (pose j)) := by
  unfold solve solution
  cases h1 : env.solveTheta1 s.xArm s.yArm length1 length2 with
  | none => cases j <;> simp [Vars.theta, Vars.pastTheta]
  | some theta1 =>
    cases h2 : env.solveTheta2 s.xArm s.yArm length1 length2 with
    | none => cases j <;> simp [Vars.theta, Vars.pastTheta]
    | some theta2 => cases j <;> simp [Vars.theta, Joint.of]

variable [LinearOrder R] [FloorRing R]

/-- The pair a frame solves, if it takes the inverse kinematics branch. -/
def solved (s : Vars R) (r : Reading R) : Option (Joint → R) :=
  if Tracks s r then solution env (start env s r) else none

def solvedAt (s : Vars R) : Event R → Option (Joint → R)
  | .frame r => solved env s r
  | .press _ => none
  | .release _ => none

def restPose : Joint → R := fun _ => env.PI / ((2 : ℤ) : R)

/-- The pair solved for the most recent of the first `n` events that solved one. -/
def lastSolved (events : ℕ → Event R) (n : ℕ) : Joint → R :=
  Run.latest (fun k => solvedAt env (varsAt env events k) (events k))
    (fun pose => pose.isSome = true) (fun pose => pose.getD (restPose env)) (restPose env) n

/-- What frame `r` at event `n` leaves and sends. -/
structure PoseKept (events : ℕ → Event R) (n : ℕ) (r : Reading R) : Prop where
  theta : ∀ j, (frame env (varsAt env events n) r).theta j =
    some (lastSolved env events (n + 1) j)
  command : ∀ j, ((frame env (varsAt env events n) r).PWM j).isSome = true
  unreachable : solved env (varsAt env events n) r = none →
    lastSolved env events (n + 1) = lastSolved env events n
  target : Tracks (varsAt env events n) r → ∀ j, jointTarget env (varsAt env events n) r j =
    jointPosition env (lastSolved env events (n + 1) j) j

theorem lastSolved_succ (events : ℕ → Event R) (n : ℕ) :
    lastSolved env events (n + 1) =
      (solvedAt env (varsAt env events n) (events n)).getD (lastSolved env events n) := by
  rw [lastSolved, Run.latest]
  cases h : solvedAt env (varsAt env events n) (events n) with
  | none => rfl
  | some pose => rfl

/-! ## The target of a frame -/

/-- The arm's target depends on the hand alone. -/
def targetX (r : Reading R) : R := (aim (handValues r) init).xArm
def targetY (r : Reading R) : R := (aim (handValues r) init).yArm

theorem start_target (s : Vars R) (r : Reading R) :
    (start env s r).xArm = targetX r ∧ (start env s r).yArm = targetY r := by
  unfold start firstCycle
  split_ifs <;> exact ⟨rfl, rfl⟩

/-! ## The angles of a frame -/

theorem start_theta (s : Vars R) (r : Reading R) (j : Joint) :
    (start env s r).theta j = if s.firstLoopCycle = true then some (restPose env j) else s.theta j := by
  unfold start firstCycle aim
  cases hfirst : s.firstLoopCycle <;> cases j <;> simp [Vars.theta, restPose]

theorem track_theta (s : Vars R) (j : Joint) : (track env s).theta j = (solve env s).theta j := by
  have hpose : (pose env (solve env s)).theta j = (solve env s).theta j := by cases j <;> rfl
  rw [track, ((approach_keeps _).2.2.2.2 j).1, hpose]

/-- The angles change only where the frame solves a pair. -/
theorem frame_theta {s : Vars R} (h : Consistent s) (r : Reading R) (j : Joint) :
    (frame env s r).theta j =
      (solved env s r).elim ((start env s r).theta j) (fun pose => some (pose j)) := by
  have hs := start_started env h r
  have hframe : (frame env s r).theta j = (mode env (handValues r) (start env s r)).theta j :=
    finish_theta _ j
  rw [hframe]
  by_cases ht : Tracks s r
  · rw [mode_of_tracks env h ht, track_theta, solve_solution, hs.pastTheta, solved, if_pos ht]
  · have hnone : solved env s r = none := if_neg ht
    rw [hnone, Option.elim_none, mode, hs.reset, hs.mode]
    cases hreset : s.reset with
    | true => cases j <;> rfl
    | false =>
      cases hmode : s.wristGripperMode with
      | true =>
        exact ((moveWrist_keeps _ _).2.2 j).2.1.trans ((moveGripper_keeps _ _).2.2.2 j).2.1
      | false =>
        have hhand : NoHand (handValues r) := by
          by_contra hhand
          exact ht ⟨hreset, hmode, hhand⟩
        rw [if_neg (by simp), if_neg (by simp), if_pos hhand, ← hs.pastTheta j]
        cases j <;> rfl

theorem jointTarget_eq {s : Vars R} (h : Consistent s) {r : Reading R} (ht : Tracks s r) {pose : R}
    {j : Joint} (htheta : (frame env s r).theta j = some pose) :
    jointTarget env s r j = jointPosition env pose j := by
  rw [frame_theta env h, solved, if_pos ht, ← (start_started env h r).pastTheta,
    ← solve_solution] at htheta
  rw [jointTarget, htheta]
  rfl

/-! ## Runs -/

/-- The next frame, whatever it reads, starts from the last pose solved. -/
theorem varsAt_pose (events : ℕ → Event R) (n : ℕ) (r : Reading R) (j : Joint) :
    (start env (varsAt env events n) r).theta j = some (lastSolved env events n j) := by
  induction n generalizing r j with
  | zero => exact start_theta env init r j
  | succ n ih =>
    have hc := varsAt_consistent env events n
    have hstep : varsAt env events (n + 1) = step env (varsAt env events n) (events n) := rfl
    rw [hstep, lastSolved_succ]
    cases events n with
    | frame x =>
      have htheta : (draw env (varsAt env events n) x).1.theta j =
          some ((solved env (varsAt env events n) x).getD (lastSolved env events n) j) := by
        rw [draw_theta, frame_theta env hc, ih x j]
        cases solved env (varsAt env events n) x <;> rfl
      change (start env (draw env (varsAt env events n) x).1 r).theta j = some _
      rw [start_theta]
      split_ifs with hfirst
      · obtain ⟨hn, hnot⟩ := (draw_firstLoopCycle env hc x).mp hfirst
        have hnone : solved env (varsAt env events n) x = none := if_neg hnot
        have hlast := ih x j
        rw [start_theta, if_pos hn] at hlast
        change _ = some ((solved env (varsAt env events n) x).getD _ j)
        rw [hnone, hlast]
        rfl
      · exact htheta
    | press key =>
      have hlast := ih r j
      rw [start_theta] at hlast ⊢
      cases j <;> exact hlast
    | release key =>
      have hlast := ih r j
      rw [start_theta] at hlast ⊢
      cases j <;> exact hlast

theorem lastSolved_frame {events : ℕ → Event R} {n : ℕ} {r : Reading R} (hr : events n = .frame r) :
    lastSolved env events (n + 1) =
      (solved env (varsAt env events n) r).getD (lastSolved env events n) := by
  rw [lastSolved_succ, hr]
  rfl

/-- Every frame ends with the last pose solved, its own included. -/
theorem frame_pose {events : ℕ → Event R} {n : ℕ} {r : Reading R} (hr : events n = .frame r)
    (j : Joint) :
    (frame env (varsAt env events n) r).theta j = some (lastSolved env events (n + 1) j) := by
  rw [lastSolved_frame env hr, frame_theta env (varsAt_consistent env events n),
    varsAt_pose env events n r j]
  cases solved env (varsAt env events n) r <;> rfl

theorem jointTarget_pose {events : ℕ → Event R} {n : ℕ} {r : Reading R} (hr : events n = .frame r)
    (ht : Tracks (varsAt env events n) r) (j : Joint) :
    jointTarget env (varsAt env events n) r j =
      jointPosition env (lastSolved env events (n + 1) j) j :=
  jointTarget_eq env (varsAt_consistent env events n) ht (frame_pose env hr j)

theorem pose_kept (events : ℕ → Event R) (n : ℕ) (r : Reading R) (hr : events n = .frame r) :
    PoseKept env events n r := by
  refine ⟨frame_pose env hr, ?_, ?_, ?_⟩
  · intro j
    rw [frame_joint env (varsAt_consistent env events n)]
    rfl
  · intro hnone
    rw [lastSolved_frame env hr, hnone]
    rfl
  · exact fun ht j => jointTarget_pose env hr ht j

end Pose

/-! ## The frames that solve -/

theorem solveTheta1_isSome (x y l1 l2 : ℝ) :
    (solveTheta1 x y l1 l2).isSome = true ↔ 0 ≤ 1 - c2 x y l1 l2 * c2 x y l1 l2 := by
  rw [solveTheta1, Option.isSome_map, sqrt, Option.isSome_ite]

theorem solveTheta2_isSome (x y l1 l2 : ℝ) :
    (solveTheta2 x y l1 l2).isSome = true ↔ 0 ≤ 1 - c2 x y l1 l2 * c2 x y l1 l2 := by
  rw [solveTheta2, Option.isSome_map, sqrt, Option.isSome_ite]

theorem c2_reaches {x y l1 l2 : ℝ} (h1 : 0 < l1) (h2 : 0 < l2) :
    0 ≤ 1 - c2 x y l1 l2 * c2 x y l1 l2 ↔ TwoLink.Reaches l1 l2 (x * x + y * y) := by
  rw [TwoLink.one_sub_mul_self_nonneg_iff, ← TwoLink.cosine_range_iff h1 h2, c2]
  push_cast
  rfl

theorem solution_isSome_iff (s : Vars ℝ) :
    (solution realEnv s).isSome = true ↔
      (solveTheta1 s.xArm s.yArm length1 length2).isSome = true ∧
        (solveTheta2 s.xArm s.yArm length1 length2).isSome = true := by
  unfold solution realEnv
  dsimp only
  cases solveTheta1 s.xArm s.yArm length1 length2 <;>
    cases solveTheta2 s.xArm s.yArm length1 length2 <;> simp

/-- A frame solves the targets within reach, if it tracks the hand. -/
theorem solved_isSome_iff (s : Vars ℝ) (r : Reading ℝ) :
    (solved realEnv s r).isSome = true ↔ Tracks s r ∧
      TwoLink.Reaches (length1 : ℝ) length2 (targetX r * targetX r + targetY r * targetY r) := by
  have hsolution : (solution realEnv (start realEnv s r)).isSome = true ↔
      TwoLink.Reaches (length1 : ℝ) length2 (targetX r * targetX r + targetY r * targetY r) := by
    rw [solution_isSome_iff, solveTheta1_isSome, solveTheta2_isSome, and_self_iff,
      (start_target realEnv s r).1, (start_target realEnv s r).2,
      c2_reaches (by norm_num [length1]) (by norm_num [length2])]
  rw [solved, ← hsolution]
  split_ifs with ht
  · exact (and_iff_right ht).symm
  · exact iff_of_false (by simp) fun h => ht h.1

/-! ## A hand that leaves the reach -/

def hand (palmY palmZ : ℝ) : Reading ℝ where
  palmY := palmY
  palmZ := palmZ
  pitch := 0
  roll := 0
  ff1 := 0
  ff2 := 0

/-- In front of the shoulder and above it, behind the shoulder and below it, and out of reach. -/
noncomputable def forwardHand : Reading ℝ := hand 327 (-108)
noncomputable def backwardHand : Reading ℝ := hand 268 108
noncomputable def farHand : Reading ℝ := hand 327 (-327)

theorem forwardHand_target : targetX forwardHand = 1080 ∧ targetY forwardHand = 360 := by
  norm_num [targetX, targetY, aim, forwardHand, hand, handValues, limit, map, int, trunc]

theorem backwardHand_target : targetX backwardHand = -1080 ∧ targetY backwardHand = -360 := by
  norm_num [targetX, targetY, aim, backwardHand, hand, handValues, limit, map, int, trunc]

theorem farHand_target : targetX farHand = 1800 ∧ targetY farHand = 360 := by
  norm_num [targetX, targetY, aim, farHand, hand, handValues, limit, map, int, trunc]

/-- The very first frame solves a hand at this distance. -/
theorem first_solved {r : Reading ℝ} (hhand : ¬ NoHand (handValues r))
    (hdist : targetX r * targetX r + targetY r * targetY r = 1296000) (events : ℕ → Event ℝ) :
    (solved realEnv (varsAt realEnv events 0) r).isSome = true := by
  rw [solved_isSome_iff, hdist, TwoLink.Reaches]
  exact ⟨⟨rfl, rfl, hhand⟩, by norm_num [length1, length2], by norm_num [length1, length2]⟩

theorem forwardHand_solved (events : ℕ → Event ℝ) :
    (solved realEnv (varsAt realEnv events 0) forwardHand).isSome = true := by
  apply first_solved
  · norm_num [NoHand, forwardHand, hand, handValues, limit, map, int, trunc]
  · norm_num [forwardHand_target.1, forwardHand_target.2]

theorem farHand_unsolved (s : Vars ℝ) : solved realEnv s farHand = none := by
  rw [← Option.not_isSome_iff_eq_none, solved_isSome_iff, farHand_target.1, farHand_target.2,
    TwoLink.Reaches]
  rintro ⟨-, -, hhigh⟩
  norm_num [length1, length2] at hhigh

/-- The hand is within reach in the first frame, and out of it from then on. -/
noncomputable def leaving : ℕ → Event ℝ
  | 0 => .frame forwardHand
  | _ + 1 => .frame farHand

/-- The second frame takes the inverse kinematics branch without a solution, and keeps the pose that
the first one solved. -/
theorem pose_kept_leaving : Tracks (varsAt realEnv leaving 1) farHand ∧
    solved realEnv (varsAt realEnv leaving 1) farHand = none ∧
    ∃ pose, solved realEnv (varsAt realEnv leaving 0) forwardHand = some pose ∧
      ∀ j, (frame realEnv (varsAt realEnv leaving 1) farHand).theta j = some (pose j) := by
  obtain ⟨pose, hpose⟩ := Option.isSome_iff_exists.mp (forwardHand_solved leaving)
  have hkept := pose_kept realEnv leaving 1 farHand rfl
  have hkeys : (varsAt realEnv leaving 1).toKeys = (init : Vars ℝ).toKeys :=
    draw_keys realEnv _ forwardHand
  have hlast : lastSolved realEnv leaving 1 = pose := by
    have hfirst : leaving 0 = .frame forwardHand := rfl
    rw [lastSolved_frame realEnv hfirst, hpose, Option.getD_some]
  refine ⟨⟨congrArg Keys.reset hkeys, congrArg Keys.wristGripperMode hkeys, ?_⟩,
    farHand_unsolved _, pose, hpose, fun j => ?_⟩
  · norm_num [NoHand, farHand, hand, handValues, limit, map, int, trunc]
  · rw [hkept.theta j, hkept.unreachable (farHand_unsolved _), hlast]

end TitanRover.Leap
