import TitanRover.Stick.Solvers

/-! # The pose that the servos hold

`Updated 2DOF`, `InverseKinematicsRoboticArm.ino` and `sketch_nov24b.ino` convert the solved angles
to whole degrees, map these to pulses and send them, for joint 2 mirrored, where they are within
bounds. Whatever a run does, its joints hold the pulses of the last iteration that sent some, and
the arm turned to these ends near the target that this iteration solved. -/
namespace TitanRover.Stick
open Foundations
set_option autoImplicit false

/-! ## The angle of a pulse -/

/-- The angle that the sketches stand for by a pulse. -/
noncomputable def pulseAngle (pulse : ℝ) : ℝ :=
  (pulse - ((1500 : ℤ) : ℝ)) * (Real.pi / ((500 : ℤ) : ℝ))

theorem pulseAngle_eq (pulse : ℝ) : pulseAngle pulse = (pulse - 1500) * (Real.pi / 500) := by
  rw [pulseAngle]
  push_cast
  rfl

/-- The pulse of an angle in whole degrees. -/
def pulseOf (deg : ℤ) : ℤ := Arduino.map deg (-180) 180 1000 2000

theorem pulseOf_bounds {deg : ℤ} (h : InBounds deg) :
    1000 * (deg + 180) ≤ 360 * (pulseOf deg - 1000) + 359 ∧
      360 * (pulseOf deg - 1000) ≤ 1000 * (deg + 180) ∧ 1000 ≤ pulseOf deg ∧ pulseOf deg ≤ 2000 := by
  obtain ⟨hlow, hhigh⟩ := h
  rw [pulseOf, Arduino.map, Int.tdiv_eq_ediv_of_nonneg (by omega)]
  omega

theorem mirror_eq (pulse : ℤ) : mirror pulse = 3000 - pulse := by
  rw [mirror]
  split_ifs <;> omega

/-- `Updated 2DOF` maps to the mirrored pulse at once. -/
theorem map_mirrored (deg : ℤ) : Arduino.map deg (-180) 180 2000 1000 = mirror (pulseOf deg) := by
  have hneg : (deg - -180) * (1000 - 2000) = -((deg - -180) * (2000 - 1000)) := by ring
  rw [mirror_eq, pulseOf, Arduino.map, Arduino.map, hneg, Int.neg_tdiv]
  ring

theorem ofInt_pulse {pulse : ℤ} (h : 1000 ≤ pulse ∧ pulse ≤ 2000) :
    ((BitVec.ofInt 16 pulse).toNat : ℝ) = pulse := by
  have hnat : ((BitVec.ofInt 16 pulse).toNat : ℤ) = pulse := by
    rw [BitVec.toNat_ofInt]
    omega
  exact_mod_cast hnat

theorem pulseAngle_mirror (pulse : ℤ) : pulseAngle (mirror pulse : ℤ) = -pulseAngle pulse := by
  rw [mirror_eq, pulseAngle_eq, pulseAngle_eq]
  push_cast
  ring

/-- The conversion to `int` truncates. -/
def Truncates (toInt : Double ℝ → ℤ) : Prop := ∀ x, toInt (some x) = trunc x

/-- A pulse stands for its angle to within a degree and the width of a pulse. -/
theorem pulseAngle_near {toInt : Double ℝ → ℤ} (htoInt : Truncates toInt) {t : ℝ}
    (h : InBounds (degrees (realMaths toInt) (some t))) :
    |pulseAngle (pulseOf (degrees (realMaths toInt) (some t))) - t| ≤ 17 * Real.pi / 2250 := by
  obtain ⟨hup, hdown, -, -⟩ := pulseOf_bounds h
  have hpi := Real.pi_pos
  have hdeg : degrees (realMaths toInt) (some t) = trunc (t * (180 / Real.pi)) := by
    rw [degrees, Option.map_some]
    exact_mod_cast htoInt (t * (180 / Real.pi))
  rw [hdeg] at hup hdown ⊢
  obtain ⟨hlow, hhigh⟩ := abs_lt.mp (abs_trunc_sub_self_lt (t * (180 / Real.pi)))
  generalize hd : trunc (t * (180 / Real.pi)) = deg at *
  have hup' : (1000 : ℝ) * (deg + 180) ≤ 360 * ((pulseOf deg : ℤ) - 1000) + 359 := by
    exact_mod_cast hup
  have hdown' : (360 : ℝ) * ((pulseOf deg : ℤ) - 1000) ≤ 1000 * (deg + 180) := by
    exact_mod_cast hdown
  have hangle : pulseAngle (pulseOf deg : ℤ) - t =
      ((pulseOf deg : ℤ) - 1500 - t * (180 / Real.pi) * (25 / 9)) * (Real.pi / 500) := by
    rw [pulseAngle_eq]
    field_simp
    ring
  have hwide : |((pulseOf deg : ℤ) : ℝ) - 1500 - t * (180 / Real.pi) * (25 / 9)| ≤ 34 / 9 := by
    rw [abs_le]
    constructor <;> linarith
  rw [hangle, abs_mul, abs_of_pos (by positivity : 0 < Real.pi / 500)]
  calc _ ≤ 34 / 9 * (Real.pi / 500) := mul_le_mul_of_nonneg_right hwide (by positivity)
    _ = 17 * Real.pi / 2250 := by ring

/-! ## The pose of the servos -/

/-- Turned as the servos are told the arm ends within `d` of the point `(x, y)`. Joint 2 is mounted
backwards. -/
def Posed (servos : Servo → BitVec 16) (l1 l2 x y d : ℝ) : Prop :=
  ∃ x' y', TwoLink.EndsAt l1 l2 (pulseAngle (servos .armJoint1).toNat)
      (-pulseAngle (servos .armJoint2).toNat) x' y' ∧ TwoLink.distance x y x' y' ≤ d

/-- The joints are told the angles: they have the pulses of these, for joint 2 mirrored. -/
structure Told (toInt : Double ℝ → ℤ) (theta1 theta2 : Double ℝ) (servos : Servo → BitVec 16) :
    Prop where
  bounds1 : InBounds (degrees (realMaths toInt) theta1)
  bounds2 : InBounds (degrees (realMaths toInt) theta2)
  joint1 : servos .armJoint1 = BitVec.ofInt 16 (pulseOf (degrees (realMaths toInt) theta1))
  joint2 : servos .armJoint2 =
    BitVec.ofInt 16 (mirror (pulseOf (degrees (realMaths toInt) theta2)))

theorem Told.posed {toInt : Double ℝ → ℤ} (htoInt : Truncates toInt) {theta1 theta2 : Double ℝ}
    {servos : Servo → BitVec 16} (h : Told toInt theta1 theta2 servos) {l1 l2 x y : ℝ}
    (h1 : 0 ≤ l1) (h2 : 0 ≤ l2) (hsolves : Solves l1 l2 x y theta1 theta2) :
    Posed servos l1 l2 x y ((l1 + 2 * l2) * (17 * Real.pi / 2250)) := by
  obtain ⟨t1, t2, rfl, rfl, hends⟩ := hsolves
  obtain ⟨-, -, hrange1⟩ := pulseOf_bounds h.bounds1
  obtain ⟨-, -, hrange2⟩ := pulseOf_bounds h.bounds2
  have hmirror : 1000 ≤ mirror (pulseOf (degrees (realMaths toInt) (some t2))) ∧
      mirror (pulseOf (degrees (realMaths toInt) (some t2))) ≤ 2000 := by
    rw [mirror_eq]
    omega
  refine ⟨_, _, ⟨rfl, rfl⟩, hends.near ⟨rfl, rfl⟩ h1 h2 ?_ ?_⟩
  · rw [h.joint1, ofInt_pulse hrange1]
    exact pulseAngle_near htoInt h.bounds1
  · rw [h.joint2, ofInt_pulse hmirror, pulseAngle_mirror, neg_neg]
    exact pulseAngle_near htoInt h.bounds2

/-! ## What a run leaves the servos at -/

/-- A sketch that tells its servos the angles of an iteration in those that `Sends` names, and
leaves the joints alone in the others. -/
structure Commanding (toInt : Double ℝ → ℤ) (S I : Type*) where
  loop : S → I → S
  theta1 : S → Double ℝ
  theta2 : S → Double ℝ
  servos : S → Servo → BitVec 16
  Sends : S → I → Prop
  told : ∀ s i, Sends s i → Told toInt (theta1 (loop s i)) (theta2 (loop s i)) (servos (loop s i))
  kept : ∀ s i, ¬ Sends s i → servos (loop s i) .armJoint1 = servos s .armJoint1 ∧
    servos (loop s i) .armJoint2 = servos s .armJoint2

section Runs
variable {toInt : Double ℝ → ℤ} {S I : Type*} (c : Commanding toInt S I) (s₀ : S) (inp : ℕ → I)

def Commanding.at (n : ℕ) : S := Run.stateAt c.loop s₀ inp n

/-- The joints are where they started, or hold the pulses for the angles of the last iteration that
sent some, with the arm within `d` of its target `(x, y)` if that was one with `Good`. -/
def Commanding.HoldsPose (l1 l2 : ℝ) (x y : S → ℝ) (Good : S → Prop) (d : ℝ) (n : ℕ) : Prop :=
  ((∀ k < n, ¬ c.Sends (c.at s₀ inp k) (inp k)) ∧
      c.servos (c.at s₀ inp n) .armJoint1 = c.servos s₀ .armJoint1 ∧
      c.servos (c.at s₀ inp n) .armJoint2 = c.servos s₀ .armJoint2) ∨
    ∃ k < n, c.Sends (c.at s₀ inp k) (inp k) ∧
      (∀ i, k < i → i < n → ¬ c.Sends (c.at s₀ inp i) (inp i)) ∧
      Told toInt (c.theta1 (c.at s₀ inp (k + 1))) (c.theta2 (c.at s₀ inp (k + 1)))
        (c.servos (c.at s₀ inp n)) ∧
      (Good (c.at s₀ inp (k + 1)) → Posed (c.servos (c.at s₀ inp n)) l1 l2
        (x (c.at s₀ inp (k + 1))) (y (c.at s₀ inp (k + 1))) d)

theorem Commanding.holdsPose (htoInt : Truncates toInt) {l1 l2 : ℝ} (h1 : 0 ≤ l1) (h2 : 0 ≤ l2)
    {x y : S → ℝ} {Good : S → Prop}
    (hsolves : ∀ s i, Good (c.loop s i) → Solves l1 l2 (x (c.loop s i)) (y (c.loop s i))
      (c.theta1 (c.loop s i)) (c.theta2 (c.loop s i))) {d : ℝ}
    (hd : (l1 + 2 * l2) * (17 * Real.pi / 2250) ≤ d) (n : ℕ) :
    c.HoldsPose s₀ inp l1 l2 x y Good d n := by
  have hheld := Run.held c.loop s₀ inp
    (fun s => (c.servos s .armJoint1, c.servos s .armJoint2))
    (fun s i hs => Prod.ext (c.kept s i hs).1 (c.kept s i hs).2) n
  rcases hheld with ⟨hnone, hjoints⟩ | ⟨k, hk, hsends, hlast, hjoints⟩
  · exact Or.inl ⟨hnone, (Prod.mk.inj hjoints).1, (Prod.mk.inj hjoints).2⟩
  · obtain ⟨hj1, hj2⟩ := Prod.mk.inj hjoints
    have hsent := c.told _ _ hsends
    have htold : Told toInt (c.theta1 (c.at s₀ inp (k + 1))) (c.theta2 (c.at s₀ inp (k + 1)))
        (c.servos (c.at s₀ inp n)) :=
      ⟨hsent.bounds1, hsent.bounds2, hj1.trans hsent.joint1, hj2.trans hsent.joint2⟩
    refine Or.inr ⟨k, hk, hsends, hlast, htold, fun hgood => ?_⟩
    obtain ⟨x', y', hends, hdist⟩ := htold.posed htoInt h1 h2 (hsolves _ _ hgood)
    exact ⟨x', y', hends, hdist.trans hd⟩

end Runs

/-! ## The three sketches -/

section Sketches
variable (toInt : Double ℝ → ℤ)

/-- Both angles of the state are within bounds. -/
def BothInBounds (theta1 theta2 : Double ℝ) : Prop :=
  InBounds (degrees (realMaths toInt) theta1) ∧ InBounds (degrees (realMaths toInt) theta2)

noncomputable def Updated2DOF.commanding :
    Commanding toInt (Updated2DOF.Vars ℝ) (Shared Axis) where
  loop := Updated2DOF.loop (realMaths toInt)
  theta1 := fun s => s.theta1
  theta2 := fun s => s.theta2
  servos := fun s => s.servos
  Sends := fun s sh => BothInBounds toInt
    (Updated2DOF.solve (realMaths toInt) (Updated2DOF.updated s sh)).theta1
    (Updated2DOF.solve (realMaths toInt) (Updated2DOF.updated s sh)).theta2
  told := by
    intro s sh h
    have hin := h
    unfold BothInBounds at hin
    unfold Updated2DOF.loop Updated2DOF.command
    rw [if_pos hin]
    refine ⟨hin.1, hin.2, rfl, ?_⟩
    rw [← map_mirrored]
    rfl
  kept := by
    intro s sh h
    unfold BothInBounds at h
    unfold Updated2DOF.loop Updated2DOF.command
    rw [if_neg h]
    exact ⟨rfl, rfl⟩

noncomputable def InverseKinematics.commanding :
    Commanding toInt (InverseKinematics.Vars ℝ) (Shared Axis) where
  loop := InverseKinematics.loop (realMaths toInt)
  theta1 := fun s => s.theta1
  theta2 := fun s => s.theta2
  servos := fun s => s.servos
  Sends := fun s sh =>
    let solved := InverseKinematics.solve (realMaths toInt) (InverseKinematics.updated s sh)
    InBounds (degrees (realMaths toInt) solved.theta1) ∧
      InBounds (degrees (realMaths toInt) solved.theta2) ∧
      InBounds (degrees (realMaths toInt) solved.theta3)
  told := by
    intro s sh h
    have hin := h
    unfold InverseKinematics.loop InverseKinematics.command
    rw [if_pos hin]
    exact ⟨hin.1, hin.2.1, rfl, rfl⟩
  kept := by
    intro s sh h
    unfold InverseKinematics.loop InverseKinematics.command
    rw [if_neg h]
    exact ⟨rfl, rfl⟩

noncomputable def Shovel.commanding :
    Commanding toInt (Shovel.Vars ℝ) (Shared Shovel.Channel) where
  loop := Shovel.loop (realMaths toInt)
  theta1 := fun s => s.theta1
  theta2 := fun s => s.theta2
  servos := fun s => s.servos
  Sends := fun s sh => BothInBounds toInt
    (Shovel.solve (realMaths toInt) (Shovel.shovel (Shovel.updated s sh))).theta1
    (Shovel.solve (realMaths toInt) (Shovel.shovel (Shovel.updated s sh))).theta2
  told := by
    intro s sh h
    have hin := h
    unfold BothInBounds at hin
    unfold Shovel.loop Shovel.command
    rw [if_pos hin]
    exact ⟨hin.1, hin.2, rfl, rfl⟩
  kept := by
    intro s sh h
    unfold BothInBounds at h
    unfold Shovel.loop Shovel.command
    rw [if_neg h]
    exact ⟨rfl, rfl⟩

/-! ## The targets of an iteration -/

/-- The lengths are short enough for `d` to bound what the pulses leave open. -/
theorem pose_error {l1 l2 d : ℝ} (h : (l1 + 2 * l2) * 17 * 3.15 ≤ d * 2250)
    (hl : 0 ≤ l1 + 2 * l2) : (l1 + 2 * l2) * (17 * Real.pi / 2250) ≤ d := by
  have hmul := mul_le_mul_of_nonneg_left Real.pi_lt_d2.le hl
  linarith

/-- The target of a state is within reach. -/
def Updated2DOF.Within (s : Updated2DOF.Vars ℝ) : Prop :=
  TwoLink.Reaches (Updated2DOF.length1 : ℝ) Updated2DOF.length2
    ((s.xEndEPos : ℝ) * s.xEndEPos + (s.yEndEPos : ℝ) * s.yEndEPos)

def Shovel.Within (s : Shovel.Vars ℝ) : Prop :=
  TwoLink.Reaches (Shovel.length1 : ℝ) Shovel.length2
    ((s.xEndEPos : ℝ) * s.xEndEPos + (s.yEndEPos : ℝ) * s.yEndEPos)

/-- The wrist's target of a state. -/
noncomputable def InverseKinematics.wristX (s : InverseKinematics.Vars ℝ) : ℝ :=
  InverseKinematics.solveXWrist (realMaths toInt) s.phiE s.xEndEPos

noncomputable def InverseKinematics.wristY (s : InverseKinematics.Vars ℝ) : ℝ :=
  InverseKinematics.solveYWrist (realMaths toInt) s.phiE s.yEndEPos

/-- It is within reach, and not right above or below the shoulder. -/
def InverseKinematics.Within (s : InverseKinematics.Vars ℝ) : Prop :=
  TwoLink.Reaches (InverseKinematics.length1 : ℝ) InverseKinematics.length2
      (InverseKinematics.wristX toInt s * InverseKinematics.wristX toInt s +
        InverseKinematics.wristY toInt s * InverseKinematics.wristY toInt s) ∧
    InverseKinematics.wristX toInt s ≠ 0

theorem Updated2DOF.loop_solves {s : Updated2DOF.Vars ℝ} {sh : Shared Axis}
    (h : Updated2DOF.Within (Updated2DOF.loop (realMaths toInt) s sh)) :
    Solves Updated2DOF.length1 Updated2DOF.length2
      (Updated2DOF.loop (realMaths toInt) s sh).xEndEPos
      (Updated2DOF.loop (realMaths toInt) s sh).yEndEPos
      (Updated2DOF.loop (realMaths toInt) s sh).theta1
      (Updated2DOF.loop (realMaths toInt) s sh).theta2 := by
  have htheta : ∀ s' : Updated2DOF.Vars ℝ, s' = Updated2DOF.loop (realMaths toInt) s sh →
      s'.theta1 = (Updated2DOF.solve (realMaths toInt) s').theta1 ∧
        s'.theta2 = (Updated2DOF.solve (realMaths toInt) s').theta2 := by
    rintro _ rfl
    unfold Updated2DOF.loop Updated2DOF.command
    dsimp only
    split_ifs <;> exact ⟨rfl, rfl⟩
  obtain ⟨h1, h2⟩ := htheta _ rfl
  rw [h1, h2]
  exact solves_of_reaches toInt (by norm_num [Updated2DOF.length1])
    (by norm_num [Updated2DOF.length2]) h

theorem InverseKinematics.loop_solves {s : InverseKinematics.Vars ℝ} {sh : Shared Axis}
    (h : InverseKinematics.Within toInt (InverseKinematics.loop (realMaths toInt) s sh)) :
    Solves InverseKinematics.length1 InverseKinematics.length2
      (InverseKinematics.wristX toInt (InverseKinematics.loop (realMaths toInt) s sh))
      (InverseKinematics.wristY toInt (InverseKinematics.loop (realMaths toInt) s sh))
      (InverseKinematics.loop (realMaths toInt) s sh).theta1
      (InverseKinematics.loop (realMaths toInt) s sh).theta2 := by
  have htheta : ∀ s' : InverseKinematics.Vars ℝ,
      s' = InverseKinematics.loop (realMaths toInt) s sh →
      s'.theta1 = (InverseKinematics.solve (realMaths toInt) s').theta1 ∧
        s'.theta2 = (InverseKinematics.solve (realMaths toInt) s').theta2 := by
    rintro _ rfl
    unfold InverseKinematics.loop InverseKinematics.command
    dsimp only
    split_ifs <;> exact ⟨rfl, rfl⟩
  obtain ⟨h1, h2⟩ := htheta _ rfl
  rw [h1, h2]
  exact (InverseKinematics.wrist_solves_iff toInt (by norm_num [InverseKinematics.length1])
    (by norm_num [InverseKinematics.length2])
    (by norm_num [InverseKinematics.length1, InverseKinematics.length2])).mpr h

theorem Shovel.loop_solves {s : Shovel.Vars ℝ} {sh : Shared Shovel.Channel}
    (h : Shovel.Within (Shovel.loop (realMaths toInt) s sh)) :
    Solves Shovel.length1 Shovel.length2 (Shovel.loop (realMaths toInt) s sh).xEndEPos
      (Shovel.loop (realMaths toInt) s sh).yEndEPos (Shovel.loop (realMaths toInt) s sh).theta1
      (Shovel.loop (realMaths toInt) s sh).theta2 := by
  have htheta : ∀ s' : Shovel.Vars ℝ, s' = Shovel.loop (realMaths toInt) s sh →
      s'.theta1 = (Shovel.solve (realMaths toInt) s').theta1 ∧
        s'.theta2 = (Shovel.solve (realMaths toInt) s').theta2 := by
    rintro _ rfl
    unfold Shovel.loop Shovel.command
    dsimp only
    split_ifs <;> exact ⟨rfl, rfl⟩
  obtain ⟨h1, h2⟩ := htheta _ rfl
  rw [h1, h2]
  exact Shovel.solves_of_reaches toInt h

/-- What the joints hold after `n` iterations of any run of the three sketches. The arm of
`sketch_nov24b.ino` is the longest, and `InverseKinematicsRoboticArm.ino` leads its wrist to the
wrist's target. -/
structure PosesHeld (servos : Servo → BitVec 16) (n : ℕ) : Prop where
  updated2DOF : ∀ inp, (Updated2DOF.commanding toInt).HoldsPose (Updated2DOF.setup servos) inp
    Updated2DOF.length1 Updated2DOF.length2 (fun s => s.xEndEPos) (fun s => s.yEndEPos)
    Updated2DOF.Within 72 n
  inverseKinematics : ∀ inp, (InverseKinematics.commanding toInt).HoldsPose
    (InverseKinematics.setup servos) inp InverseKinematics.length1 InverseKinematics.length2
    (InverseKinematics.wristX toInt) (InverseKinematics.wristY toInt)
    (InverseKinematics.Within toInt) 72 n
  shovel : ∀ inp, (Shovel.commanding toInt).HoldsPose (Shovel.setup servos) inp
    Shovel.length1 Shovel.length2 (fun s => s.xEndEPos) (fun s => s.yEndEPos) Shovel.Within 89 n

theorem poses_held (htoInt : Truncates toInt) (servos : Servo → BitVec 16) (n : ℕ) :
    PosesHeld toInt servos n := by
  refine ⟨fun inp => ?_, fun inp => ?_, fun inp => ?_⟩
  · apply (Updated2DOF.commanding toInt).holdsPose _ inp htoInt
    · norm_num [Updated2DOF.length1]
    · norm_num [Updated2DOF.length2]
    · exact fun _ _ => Updated2DOF.loop_solves toInt
    · apply pose_error <;> norm_num [Updated2DOF.length1, Updated2DOF.length2]
  · apply (InverseKinematics.commanding toInt).holdsPose _ inp htoInt
    · norm_num [InverseKinematics.length1]
    · norm_num [InverseKinematics.length2]
    · exact fun _ _ => InverseKinematics.loop_solves toInt
    · apply pose_error <;> norm_num [InverseKinematics.length1, InverseKinematics.length2]
  · apply (Shovel.commanding toInt).holdsPose _ inp htoInt
    · norm_num [Shovel.length1]
    · norm_num [Shovel.length2]
    · exact fun _ _ => Shovel.loop_solves toInt
    · apply pose_error <;> norm_num [Shovel.length1, Shovel.length2]

end Sketches

/-- The conversion of the language, with 0 for NaN. -/
noncomputable def truncated (x : Double ℝ) : ℤ := x.elim 0 trunc

theorem poses_held_truncated : PosesHeld truncated (fun _ => 1500) 2 :=
  poses_held truncated (fun _ => rfl) (fun _ => 1500) 2

end TitanRover.Stick
