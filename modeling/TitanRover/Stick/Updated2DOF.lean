import TitanRover.Foundations.TwoLink
import TitanRover.Stick.Maths
import TitanRover.Stick.Steering

/-! # `Updated 2DOF`

The sketch limits each axis of the target by itself, and passes the target to its solvers
unguarded. The limits are those of a rectangle whose outer corners, and a disc around the shoulder,
are out of reach of the arm. `solvable_iff` says in which runs the target never gets there. -/
namespace TitanRover.Stick.Updated2DOF
open TitanRover.Arduino Foundations Foundations.Run
set_option autoImplicit false

/-! ## The sketch -/

section Sketch
variable {R : Type*} [Field R]

def length1 : ℤ := 900
def length2 : ℤ := 1050

def c2 (x y l1 l2 : R) : R := (x * x + y * y - l1 * l1 - l2 * l2) / (((2 : ℤ) : R) * l1 * l2)

/-- The source uses the global lengths for `k1` and the arguments elsewhere. -/
def solveTheta1 (m : Maths R) (x y l1 l2 : R) : Double R :=
  (m.sqrt (1 - c2 x y l1 l2 * c2 x y l1 l2)).map (fun s2 =>
    let k1 := length1 + length2 * c2 x y l1 l2
    let k2 := l2 * s2
    m.atan2 y x - m.atan2 k2 k1)

def solveTheta2 (m : Maths R) (x y l1 l2 : R) : Double R :=
  (m.sqrt (1 - c2 x y l1 l2 * c2 x y l1 l2)).map (fun s2 => m.atan2 s2 (c2 x y l1 l2))

def move : Axis → BitVec 16 → ℤ → ℤ
  | .x, w, pos => clip (-985) 1950 (advance w pos)
  | .y, w, pos => clip (-145) 1950 (advance w pos)

def steering : Steering Axis where
  flag := Axis.flag
  mask := logicalOr xCoordFlag yCoordFlag
  channel := id
  move := move
  move_congr := by
    intro a w w' pos h
    cases a <;> simp only [move, advance_eq, h]

structure Vars (R : Type*) extends Guide Axis where
  theta1 : Double R
  theta2 : Double R
  usAJNT1 : ℤ
  usAJNT2 : ℤ
  servos : Servo → BitVec 16

/-- The servos are attached at whatever command they hold. -/
def setup (servos : Servo → BitVec 16) : Vars R where
  toGuide := Guide.init
  theta1 := some 0
  theta2 := some 0
  usAJNT1 := 0
  usAJNT2 := 0
  servos := applyWrites servos
    [(.armJoint1, centerSignal), (.armJoint2, centerSignal), (.endeJoint, endeSignal)]

variable (m : Maths R)

def solve (s : Vars R) : Vars R :=
  { s with
    theta1 := solveTheta1 m s.xEndEPos s.yEndEPos length1 length2
    theta2 := solveTheta2 m s.xEndEPos s.yEndEPos length1 length2 }

def command (s : Vars R) : Vars R :=
  let theta1Deg := degrees m s.theta1
  let theta2Deg := degrees m s.theta2
  if InBounds theta1Deg ∧ InBounds theta2Deg then
    let usAJNT1 := Arduino.map theta1Deg (-180) 180 1000 2000
    let usAJNT2 := Arduino.map theta2Deg (-180) 180 2000 1000
    { s with
      usAJNT1 := usAJNT1
      usAJNT2 := usAJNT2
      servos := applyWrites s.servos
        (setSpeed .armJoint1 usAJNT1 ++ setSpeed .armJoint2 usAJNT2 ++ setSpeed .endeJoint 1500) }
  else s

/-- The state in which an iteration calls the solvers. -/
def updated (s : Vars R) (sh : Shared Axis) : Vars R :=
  { s with toGuide := steering.update s.toGuide sh }

def loop (s : Vars R) (sh : Shared Axis) : Vars R :=
  { command m (solve m (updated s sh)) with bUpdateFlags := 0 }

def varsAt (servos : Servo → BitVec 16) (inp : ℕ → Shared Axis) : ℕ → Vars R :=
  stateAt (loop m) (setup servos) inp

theorem loop_guide (s : Vars R) (sh : Shared Axis) :
    (loop m s sh).toGuide = steering.step s.toGuide sh := by
  unfold loop command
  dsimp only
  split_ifs <;> rfl

theorem varsAt_guide (servos : Servo → BitVec 16) (inp : ℕ → Shared Axis) (n : ℕ) :
    (varsAt m servos inp n).toGuide = steering.guideAt inp n :=
  stateAt_map (loop m) (setup servos) inp (fun s => s.toGuide) id (loop_guide m) n

theorem interrupted_run (servos : Servo → BitVec 16) (events : List (Option (Interrupt Axis))) :
    ∃ inp n, (events.foldl (Snapshot.act (system Axis.handler (loop m)))
      (Radio.init, setup servos)).2 = varsAt m servos inp n :=
  interleaving_refines Axis.handler (loop m) (setup servos) events

end Sketch

/-! ## Targets within reach -/

section Targets
variable (toInt : Double ℝ → ℤ)

/-- What the solvers are called with in state `s`, and what they return. -/
structure Solvable (s : Vars ℝ) : Prop where
  x : -985 ≤ s.xEndEPos ∧ s.xEndEPos ≤ 1950
  y : -145 ≤ s.yEndEPos ∧ s.yEndEPos ≤ 1950
  reach : 0 ≤ 1 - c2 (s.xEndEPos : ℝ) s.yEndEPos length1 length2 *
    c2 (s.xEndEPos : ℝ) s.yEndEPos length1 length2
  theta1 : (solve (realMaths toInt) s).theta1.isSome = true
  theta2 : (solve (realMaths toInt) s).theta2.isSome = true

/-- The squared length of the arm stretched, and of the arm folded. -/
def outer : ℤ := (length1 + length2) * (length1 + length2)
def inner : ℤ := (length1 - length2) * (length1 - length2)

/-- What the stick shifts an axis by: an increment, or what is left to the limit. -/
def shift (low high : ℤ) (w : BitVec 16) (pos : ℤ) : ℤ :=
  max (low - pos) (min (high - pos) (50 * lever w))

/-- What a shift adds to the square of a coordinate. -/
def gain (pos s : ℤ) : ℤ := s * (2 * pos + s)

/-- The old target has room for the shift: its squared distance from the shoulder gains no more
than it is short of the arm stretched, and loses no more than it exceeds the arm folded. -/
def KeepsReach (g : Guide Axis) (sh : Shared Axis) : Prop :=
  let dist := g.xEndEPos * g.xEndEPos + g.yEndEPos * g.yEndEPos
  let gained :=
    gain g.xEndEPos (shift (-985) 1950 (steering.width g sh .x) g.xEndEPos) +
      gain g.yEndEPos (shift (-145) 1950 (steering.width g sh .y) g.yEndEPos)
  gained ≤ outer - dist ∧ -gained ≤ dist - inner

theorem reach_iff (x y : ℤ) :
    0 ≤ 1 - c2 (x : ℝ) y length1 length2 * c2 (x : ℝ) y length1 length2 ↔
      inner ≤ x * x + y * y ∧ x * x + y * y ≤ outer := by
  have h1 : (0 : ℝ) < (length1 : ℤ) := by norm_num [length1]
  have h2 : (0 : ℝ) < (length2 : ℤ) := by norm_num [length2]
  rw [TwoLink.one_sub_mul_self_nonneg_iff, c2, TwoLink.cosine_range_iff h1 h2, TwoLink.Reaches,
    inner, outer]
  exact_mod_cast Iff.rfl

theorem solve_isSome_iff (s : Vars ℝ) :
    (solve (realMaths toInt) s).theta1.isSome = true ∧
        (solve (realMaths toInt) s).theta2.isSome = true ↔
      0 ≤ 1 - c2 (s.xEndEPos : ℝ) s.yEndEPos length1 length2 *
        c2 (s.xEndEPos : ℝ) s.yEndEPos length1 length2 := by
  simp only [solve, solveTheta1, solveTheta2, Option.isSome_map, and_self, realMaths, Leap.sqrt]
  split_ifs with h
  · exact iff_of_true rfl h
  · exact iff_of_false (by simp) h

theorem clip_advance_eq {low high : ℤ} (h : low ≤ high) (w : BitVec 16) (pos : ℤ) :
    clip low high (advance w pos) = pos + shift low high w pos := by
  rw [clip_eq h, advance_eq, shift]
  omega

theorem shift_range {low high : ℤ} (h : low ≤ high) (w : BitVec 16) (pos : ℤ) :
    low ≤ pos + shift low high w pos ∧ pos + shift low high w pos ≤ high := by
  rw [shift]
  omega

theorem add_mul_self_eq (pos s : ℤ) : (pos + s) * (pos + s) = pos * pos + gain pos s := by
  rw [gain]
  ring

theorem updated_pos {s : Vars ℝ} (h0 : s.bUpdateFlags = 0) (sh : Shared Axis) :
    (updated s sh).xEndEPos =
        s.xEndEPos + shift (-985) 1950 (steering.width s.toGuide sh .x) s.xEndEPos ∧
      (updated s sh).yEndEPos =
        s.yEndEPos + shift (-145) 1950 (steering.width s.toGuide sh .y) s.yEndEPos := by
  have hx := steering.step_pos (g := s.toGuide) h0 sh .x
  have hy := steering.step_pos (g := s.toGuide) h0 sh .y
  simp only [steering, move] at hx hy
  rw [clip_advance_eq (by decide)] at hx hy
  exact ⟨hx, hy⟩

theorem updated_reach_iff {s : Vars ℝ} (h0 : s.bUpdateFlags = 0) (sh : Shared Axis) :
    0 ≤ 1 - c2 ((updated s sh).xEndEPos : ℝ) (updated s sh).yEndEPos length1 length2 *
        c2 ((updated s sh).xEndEPos : ℝ) (updated s sh).yEndEPos length1 length2 ↔
      KeepsReach s.toGuide sh := by
  obtain ⟨hx, hy⟩ := updated_pos h0 sh
  rw [reach_iff, hx, hy, add_mul_self_eq, add_mul_self_eq, KeepsReach]
  constructor
  · rintro ⟨hinner, houter⟩
    constructor <;> linarith
  · rintro ⟨houter, hinner⟩
    constructor <;> linarith

theorem updated_solvable_iff {s : Vars ℝ} (h0 : s.bUpdateFlags = 0) (sh : Shared Axis) :
    Solvable toInt (updated s sh) ↔ KeepsReach s.toGuide sh := by
  obtain ⟨hx, hy⟩ := updated_pos h0 sh
  have hreach := updated_reach_iff h0 sh
  constructor
  · exact fun h => hreach.mp h.reach
  · intro h
    obtain ⟨h1, h2⟩ := (solve_isSome_iff toInt _).mpr (hreach.mpr h)
    refine ⟨?_, ?_, hreach.mpr h, h1, h2⟩
    · rw [hx]
      exact shift_range (by decide) _ _
    · rw [hy]
      exact shift_range (by decide) _ _

theorem varsAt_bUpdateFlags (servos : Servo → BitVec 16) (inp : ℕ → Shared Axis) (n : ℕ) :
    (varsAt (realMaths toInt) servos inp n).bUpdateFlags = 0 := by
  rw [varsAt_guide]
  exact steering.guideAt_bUpdateFlags inp n

/-- Every target of a run is solvable exactly when every iteration keeps it within reach. -/
theorem solvable_iff (servos : Servo → BitVec 16) (inp : ℕ → Shared Axis) :
    (∀ n, Solvable toInt (updated (varsAt (realMaths toInt) servos inp n) (inp n))) ↔
      ∀ n, KeepsReach (varsAt (realMaths toInt) servos inp n).toGuide (inp n) :=
  forall_congr' fun n => updated_solvable_iff toInt (varsAt_bUpdateFlags toInt servos inp n) (inp n)

end Targets

/-- The `x` stick is held over and the `y` stick is centred. -/
def heldOver (_ : ℕ) : Shared Axis where
  bUpdateFlagsShared := 3
  inputShared := fun a => if a = .x then 2000 else 1500

/-- The second iteration with the stick held over asks for (1150, 1600). -/
theorem unreachable_target :
    ¬ ∀ (toInt : Double ℝ → ℤ) (servos : Servo → BitVec 16) (inp : ℕ → Shared Axis) (n : ℕ),
      Solvable toInt (updated (varsAt (realMaths toInt) servos inp n) (inp n)) := by
  intro hall
  have h := (updated_solvable_iff (fun _ => 0)
    (varsAt_bUpdateFlags (fun _ => 0) (fun _ => 1500) heldOver 1) (heldOver 1)).mp
      (hall (fun _ => 0) (fun _ => 1500) heldOver 1)
  rw [varsAt_guide] at h
  have hout : ¬ KeepsReach (steering.guideAt heldOver 1) (heldOver 1) := by
    unfold KeepsReach
    decide +kernel
  exact hout h

end TitanRover.Stick.Updated2DOF
