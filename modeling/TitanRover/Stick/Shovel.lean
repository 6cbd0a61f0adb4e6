import TitanRover.Stick.Maths
import TitanRover.Stick.Steering

/-! # `sketch_nov24b.ino`

The sketch for two joints and the shovel. The shovel's command is written in every iteration, from
a width that is scrubbed only when a pulse of the `x` channel came with it, for the test names the
logical or of the three flags; `speeds_inRange_iff` says in which runs it stays in the range chosen
against a collision. -/
namespace TitanRover.Stick.Shovel
open TitanRover.Arduino Foundations Foundations.Run
set_option autoImplicit false

/-! ## The channels -/

inductive Channel where
  | x | y | ende
  deriving DecidableEq

def endeFlag : BitVec 8 := 8

def Channel.flag : Channel → BitVec 8
  | .x => xCoordFlag
  | .y => yCoordFlag
  | .ende => endeFlag

def calcXLocation (high : Bool) (now : BitVec 32) (r : Radio Channel) : Radio Channel :=
  edge Channel.flag .x high now r

def calcYLocation (high : Bool) (now : BitVec 32) (r : Radio Channel) : Radio Channel :=
  edge Channel.flag .y high now r

def calcENDE (high : Bool) (now : BitVec 32) (r : Radio Channel) : Radio Channel :=
  edge Channel.flag .ende high now r

def Channel.handler : Channel → Bool → BitVec 32 → Radio Channel → Radio Channel
  | .x => calcXLocation
  | .y => calcYLocation
  | .ende => calcENDE

def axisChannel : Axis → Channel
  | .x => .x
  | .y => .y

def steering : Steering Channel where
  flag := Channel.flag
  mask := logicalOr (logicalOr xCoordFlag yCoordFlag) endeFlag
  channel := axisChannel
  move := fun _ => advanceOrClip 2000
  move_congr := fun _ => advanceOrClip_congr 2000

/-! ## The sketch -/

section Sketch
variable {R : Type*} [Field R]

def length1 : ℤ := 900
def length2 : ℤ := 1400

def solveLinkage (m : Maths R) (x y : R) : Double R := m.sqrt (x * x + y * y)

/-- The source uses the global lengths and not its arguments. -/
def solveGamma [DecidableEq R] (m : Maths R) (linkage : Double R) : Double R :=
  linkage.bind (fun l =>
    (divide (l * l + length1 * length1 - length2 * length2) (((2 : ℤ) : R) * length1 * l)).bind
      m.acos)

def solveTheta1 (m : Maths R) (gamma : Double R) (x y : R) : Double R :=
  gamma.map (fun g => m.atan2 y x - g)

def solveTheta2 (m : Maths R) (theta1 : Double R) (l1 x y : R) : Double R :=
  theta1.map (fun t =>
    let numerator := y - l1 * m.sin t
    let denominator := x - l1 * m.cos t
    m.atan2 numerator denominator - t)

structure Vars (R : Type*) extends Guide Channel where
  linkage : Double R
  gamma : Double R
  theta1 : Double R
  theta2 : Double R
  usAJNT1 : ℤ
  usAJNT2 : ℤ
  ende : ℚ
  servos : Servo → BitVec 16

/-- Only the shovel is sent its safety signal. -/
def setup (servos : Servo → BitVec 16) : Vars R where
  toGuide := Guide.init
  linkage := some 0
  gamma := some 0
  theta1 := some 0
  theta2 := some 0
  usAJNT1 := 0
  usAJNT2 := 0
  ende := 0
  servos := applyWrites servos [(.endeJoint, endeSignal)]

/-- The state at the end of the position update. -/
def updated (s : Vars R) (sh : Shared Channel) : Vars R :=
  { s with toGuide := steering.update s.toGuide sh }

/-- The `map` of the width to the shovel's range, kept in a `float`. -/
def endeOf (usENDEIn : BitVec 16) : ℚ :=
  (Arduino.map (usENDEIn.toNat : ℤ) 1000 2000 1276 1950 : ℤ)

/-- The value passed to `setSpeedEnde`, a `uint16_t`. -/
def endeSpeed (s : Vars R) : BitVec 16 := toUint16 (endeOf (s.input .ende))

def shovel (s : Vars R) : Vars R :=
  { s with
    ende := endeOf (s.input .ende)
    servos := applyWrites s.servos [(.endeJoint, endeSpeed s)] }

variable (m : Maths R)

def solve [DecidableEq R] (s : Vars R) : Vars R :=
  let linkage := solveLinkage m s.xEndEPos s.yEndEPos
  let gamma := solveGamma m linkage
  let theta1 := solveTheta1 m gamma s.xEndEPos s.yEndEPos
  { s with
    linkage := linkage
    gamma := gamma
    theta1 := theta1
    theta2 := solveTheta2 m theta1 length1 s.xEndEPos s.yEndEPos }

def command (s : Vars R) : Vars R :=
  let theta1Deg := degrees m s.theta1
  let theta2Deg := degrees m s.theta2
  if InBounds theta1Deg ∧ InBounds theta2Deg then
    let usAJNT1 := Arduino.map theta1Deg (-180) 180 1000 2000
    let usAJNT2 := Arduino.map theta2Deg (-180) 180 1000 2000
    { s with
      usAJNT1 := usAJNT1
      usAJNT2 := usAJNT2
      servos := applyWrites s.servos
        (setSpeed .armJoint1 usAJNT1 ++ setSpeed .armJoint2 (mirror usAJNT2)) }
  else s

def loop [DecidableEq R] (s : Vars R) (sh : Shared Channel) : Vars R :=
  { command m (solve m (shovel (updated s sh))) with bUpdateFlags := 0 }

def varsAt [DecidableEq R] (servos : Servo → BitVec 16) (inp : ℕ → Shared Channel) : ℕ → Vars R :=
  stateAt (loop m) (setup servos) inp

theorem loop_guide [DecidableEq R] (s : Vars R) (sh : Shared Channel) :
    (loop m s sh).toGuide = steering.step s.toGuide sh := by
  unfold loop command
  dsimp only
  split_ifs <;> rfl

theorem varsAt_guide [DecidableEq R] (servos : Servo → BitVec 16) (inp : ℕ → Shared Channel)
    (n : ℕ) : (varsAt m servos inp n).toGuide = steering.guideAt inp n :=
  stateAt_map (loop m) (setup servos) inp (fun s => s.toGuide) id (loop_guide m) n

theorem interrupted_run [DecidableEq R] (servos : Servo → BitVec 16)
    (events : List (Option (Interrupt Channel))) :
    ∃ inp n, (events.foldl (Snapshot.act (system Channel.handler (loop m)))
      (Radio.init, setup servos)).2 = varsAt m servos inp n :=
  interleaving_refines Channel.handler (loop m) (setup servos) events

end Sketch

/-! ## The range of the shovel's command -/

def collisionLow : ℕ := 1276
def collisionHigh : ℕ := 1950

def SpeedInRange (speed : BitVec 16) : Prop :=
  collisionLow ≤ speed.toNat ∧ speed.toNat ≤ collisionHigh

/-- The width of the shovel's channel in effect before the scrub. -/
def endeWidth {R : Type*} (s : Vars R) (sh : Shared Channel) : BitVec 16 :=
  inEffect Channel.flag s.toStatics sh .ende

/-- The iteration scrubs, or the width in effect is one that `map` takes into the range: the
division truncates towards zero, which lets one width on each side pass. -/
def KeepsSpeed {R : Type*} (s : Vars R) (sh : Shared Channel) : Prop :=
  Consumes Channel.flag .x sh ∨ 999 ≤ (endeWidth s sh).toNat ∧ (endeWidth s sh).toNat ≤ 2001

instance {R : Type*} (s : Vars R) (sh : Shared Channel) : Decidable (KeepsSpeed s sh) :=
  inferInstanceAs (Decidable (_ ∨ _))

theorem map_ende (w : ℕ) (hw : w < 2 ^ 16) :
    0 ≤ Arduino.map w 1000 2000 1276 1950 ∧ Arduino.map w 1000 2000 1276 1950 < 2 ^ 16 ∧
      (1276 ≤ Arduino.map w 1000 2000 1276 1950 ∧ Arduino.map w 1000 2000 1276 1950 ≤ 1950 ↔
        999 ≤ w ∧ w ≤ 2001) := by
  rw [Arduino.map]
  rcases Nat.lt_or_ge w 1000 with hlow | hhigh
  · have hneg : ((w : ℤ) - 1000) * (1950 - 1276) = -((1000 - w) * (1950 - 1276)) := by ring
    rw [hneg, Int.neg_tdiv, Int.tdiv_eq_ediv_of_nonneg (by omega)]
    omega
  · rw [Int.tdiv_eq_ediv_of_nonneg (by omega)]
    omega

theorem endeSpeed_inRange_iff {R : Type*} (s : Vars R) :
    SpeedInRange (endeSpeed s) ↔
      999 ≤ (s.input .ende).toNat ∧ (s.input .ende).toNat ≤ 2001 := by
  obtain ⟨h0, hlt, hrange⟩ := map_ende (s.input .ende).toNat (s.input .ende).isLt
  have hspeed : ((endeSpeed s).toNat : ℤ) =
      Arduino.map (s.input .ende).toNat 1000 2000 1276 1950 := by
    rw [endeSpeed, toUint16, endeOf, trunc_intCast, BitVec.toNat_ofInt]
    omega
  rw [← hrange, ← hspeed, SpeedInRange, collisionLow, collisionHigh]
  omega

theorem mask_eq : steering.mask = xCoordFlag := by decide

theorem updated_ende {R : Type*} {s : Vars R} (h0 : s.bUpdateFlags = 0) (sh : Shared Channel) :
    (updated s sh).input .ende =
      if Consumes Channel.flag .x sh then scrubWidth (endeWidth s sh) else endeWidth s sh := by
  have h := receive_input Channel.flag (p := s.toStatics) h0 steering.mask sh .ende
  rw [mask_eq] at h
  exact h

theorem updated_inRange_iff {R : Type*} {s : Vars R} (h0 : s.bUpdateFlags = 0)
    (sh : Shared Channel) :
    SpeedInRange (endeSpeed (updated s sh)) ↔ KeepsSpeed s sh := by
  rw [endeSpeed_inRange_iff, updated_ende h0, KeepsSpeed]
  split_ifs with hx
  · obtain ⟨hlow, hhigh⟩ := scrubWidth_range (endeWidth s sh)
    exact iff_of_true (by omega) (Or.inl hx)
  · exact (or_iff_right hx).symm

section Runs
variable {R : Type*} [Field R] [DecidableEq R] (m : Maths R)

theorem varsAt_bUpdateFlags (servos : Servo → BitVec 16) (inp : ℕ → Shared Channel) (n : ℕ) :
    (varsAt m servos inp n).bUpdateFlags = 0 := by
  rw [varsAt_guide]
  exact steering.guideAt_bUpdateFlags inp n

/-- Every value a run passes to `setSpeedEnde` is in range exactly when every iteration keeps
it there. -/
theorem speeds_inRange_iff (servos : Servo → BitVec 16) (inp : ℕ → Shared Channel) :
    (∀ n, SpeedInRange (endeSpeed (updated (varsAt m servos inp n) (inp n)))) ↔
      ∀ n, KeepsSpeed (varsAt m servos inp n) (inp n) :=
  forall_congr' fun n => updated_inRange_iff (varsAt_bUpdateFlags m servos inp n) (inp n)

end Runs

/-- The first iteration without a pulse writes 602. -/
theorem first_speed_outside :
    ¬ ∀ (m : Maths ℝ) (servos : Servo → BitVec 16) (inp : ℕ → Shared Channel) (n : ℕ),
      SpeedInRange (endeSpeed (updated (varsAt m servos inp n) (inp n))) := by
  intro hall
  have h := hall (realMaths fun _ => 0) (fun _ => 1500) silent 0
  rw [updated_inRange_iff rfl] at h
  exact absurd h (by decide)

end TitanRover.Stick.Shovel
