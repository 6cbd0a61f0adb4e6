import TitanRover.Stick.Maths
import TitanRover.Stick.Receiver

/-! # `Titan16_3DOF.ino`

The sketch maps the stick to a position, solves it and commands the two joints if the solution is
within a quarter turn. An unsolved iteration writes the saved commands again when the saved angles
are within it. These are then the commands that the joints hold (`Saved`), also after iterations
whose angles were out of bounds and that wrote nothing. -/
namespace TitanRover.Stick.Titan3DOF
open TitanRover.Arduino Foundations Foundations.Run
set_option autoImplicit false

/-! ## The sketch -/

section Sketch
variable {R : Type*} [Field R]

def length1 : ℤ := 900
def length2 : ℤ := 1100

def solveTheta1 [DecidableEq R] (m : Maths R) (x y l1 l2 : R) : Double R :=
  ((shoulderCosine m x y l1 l2).bind m.acos).map (fun a =>
    m.atan (y / (if x = 0 then 1 else x)) - a)

def solveTheta2 [DecidableEq R] (m : Maths R) (x y l1 l2 : R) : Double R :=
  ((elbowCosine x y l1 l2).bind m.acos).map (fun a => m.PI - a)

/-- The two solvers that an iteration calls. -/
structure Solver (R : Type*) where
  theta1 : R → R → R → R → Double R
  theta2 : R → R → R → R → Double R

def solver [DecidableEq R] (m : Maths R) : Solver R where
  theta1 := solveTheta1 m
  theta2 := solveTheta2 m

structure Vars (R : Type*) extends Statics Axis where
  XPOS : ℤ
  YPOS : ℤ
  theta1 : Double R
  theta2 : Double R
  theta1Deg : ℤ
  theta2Deg : ℤ
  usAJNT1 : ℤ
  usAJNT2 : ℤ
  initialized : Bool
  servos : Servo → BitVec 16

def setup (servos : Servo → BitVec 16) : Vars R where
  toStatics := Statics.init
  XPOS := 0
  YPOS := 0
  theta1 := some 0
  theta2 := some 0
  theta1Deg := 0
  theta2Deg := 0
  usAJNT1 := 0
  usAJNT2 := 0
  initialized := false
  servos := applyWrites servos [(.armJoint1, centerSignal), (.armJoint2, centerSignal)]

def received (s : Vars R) (sh : Shared Axis) : Vars R :=
  { s with toStatics := receive Axis.flag (logicalOr xCoordFlag yCoordFlag) s.toStatics sh }

def locate (s : Vars R) : Vars R :=
  { s with
    XPOS := Arduino.map (s.input .x).toNat 1000 2000 0 2000
    YPOS := Arduino.map (s.input .y).toNat 1000 2000 0 2000 }

def solve (solver : Solver R) (s : Vars R) : Vars R :=
  { s with
    theta1 := solver.theta1 s.XPOS s.YPOS length1 length2
    theta2 := solver.theta2 s.XPOS s.YPOS length1 length2 }

def InQuarter (deg : ℤ) : Prop := deg ≥ -90 ∧ deg ≤ 90

instance (deg : ℤ) : Decidable (InQuarter deg) := inferInstanceAs (Decidable (_ ∧ _))

/-- The writes of both joints' commands. -/
def commands (s : Vars R) : List Write :=
  setSpeed .armJoint1 s.usAJNT1 ++ setSpeed .armJoint2 s.usAJNT2

variable (m : Maths R)

def solvedBranch (s : Vars R) : Vars R × List Write :=
  let s := { s with
    theta1Deg := degrees m s.theta1
    theta2Deg := degrees m s.theta2
    bUpdateFlags := 0
    initialized := true }
  if InQuarter s.theta1Deg ∧ InQuarter s.theta2Deg then
    let s := { s with
      usAJNT1 := Arduino.map s.theta1Deg (-90) 90 1000 2000
      usAJNT2 := Arduino.map s.theta2Deg (-90) 90 1000 2000 }
    (s, commands s)
  else (s, [])

def debugBranch (s : Vars R) : Vars R × List Write :=
  if InQuarter s.theta1Deg ∧ InQuarter s.theta2Deg then (s, commands s) else (s, [])

def respond (s : Vars R) : Vars R × List Write :=
  if s.theta1.isSome ∨ s.theta2.isSome then solvedBranch m s
  else if s.initialized then debugBranch s
  else (s, [])

/-- What an iteration finds: the shared variables, and the solvers as they answer in it. -/
structure Turn (R : Type*) where
  shared : Shared Axis
  solver : Solver R

/-- The state with the iteration's angles. -/
def angles (s : Vars R) (i : Turn R) : Vars R := solve i.solver (locate (received s i.shared))

def loopWrites (s : Vars R) (i : Turn R) : List Write := (respond m (angles s i)).2

def loop (s : Vars R) (i : Turn R) : Vars R :=
  { (respond m (angles s i)).1 with
    servos := applyWrites (respond m (angles s i)).1.servos (loopWrites m s i) }

def varsAt (servos : Servo → BitVec 16) (inp : ℕ → Turn R) : ℕ → Vars R :=
  stateAt (loop m) (setup servos) inp

/-- The iteration that calls the sketch's own solvers. -/
def sketchLoop [DecidableEq R] (s : Vars R) (sh : Shared Axis) : Vars R :=
  loop m s { shared := sh, solver := solver m }

theorem interrupted_run [DecidableEq R] (servos : Servo → BitVec 16)
    (events : List (Option (Interrupt Axis))) :
    ∃ inp n, (events.foldl (Snapshot.act (system Axis.handler (sketchLoop m)))
      (Radio.init, setup servos)).2 = varsAt m servos inp n := by
  obtain ⟨found, n, hrun⟩ :=
    interleaving_refines Axis.handler (sketchLoop m) (setup servos) events
  let turn : Shared Axis → Turn R := fun sh => { shared := sh, solver := solver m }
  refine ⟨fun k => turn (found k), n, hrun.trans ?_⟩
  exact stateAt_map (sketchLoop m) (setup servos) found id turn (fun _ _ => rfl) n

end Sketch

/-! ## The saved commands -/

section Commands
variable {R : Type*}

def commandLow : ℕ := 1000
def commandHigh : ℕ := 2000

def InCommandRange (command : BitVec 16) : Prop :=
  commandLow ≤ command.toNat ∧ command.toNat ≤ commandHigh

/-- Once initialised with angles within the quarter turn, the joints hold the saved commands, and
these are in range. -/
def Saved (s : Vars R) : Prop :=
  s.initialized = true → InQuarter s.theta1Deg ∧ InQuarter s.theta2Deg →
    ∀ w ∈ commands s, s.servos w.1 = w.2 ∧ InCommandRange w.2

/-- The angles of the iteration are NaN. -/
def Unsolved (s : Vars R) : Prop := s.theta1 = none ∧ s.theta2 = none

theorem applyWrites_held {servos : Servo → BitVec 16} {ws : List Write}
    (h : ∀ w ∈ ws, servos w.1 = w.2) : applyWrites servos ws = servos := by
  induction ws with
  | nil => rfl
  | cons w ws ih =>
    have hw : Function.update servos w.1 w.2 = servos := by
      rw [← h w (List.mem_cons_self ..), Function.update_eq_self]
    change applyWrites (Function.update servos w.1 w.2) ws = servos
    rw [hw]
    exact ih fun v hv => h v (List.mem_cons_of_mem w hv)

theorem map_inCommandRange {deg : ℤ} (h : InQuarter deg) :
    InCommandRange (BitVec.ofInt 16 (Arduino.map deg (-90) 90 1000 2000)) := by
  obtain ⟨hlow, hhigh⟩ := h
  have hmap : Arduino.map deg (-90) 90 1000 2000 = (deg + 90) * 1000 / 180 + 1000 := by
    rw [Arduino.map, Int.tdiv_eq_ediv_of_nonneg (by omega)]
    norm_num
  have hrange : 1000 ≤ (deg + 90) * 1000 / 180 + 1000 ∧ (deg + 90) * 1000 / 180 + 1000 ≤ 2000 := by
    omega
  rw [hmap]
  exact ofInt_range hrange (by decide)

theorem commands_written (s : Vars R) (servos : Servo → BitVec 16) :
    ∀ w ∈ commands s, applyWrites servos (commands s) w.1 = w.2 := by
  intro w hw
  simp only [commands, setSpeed, List.cons_append, List.nil_append, List.mem_cons,
    List.not_mem_nil, or_false] at hw
  rcases hw with rfl | rfl <;> simp [commands, setSpeed, applyWrites]

/-- What the invariant says after an iteration that answered `r`, its writes done. -/
def Answers (r : Vars R × List Write) : Prop :=
  Saved { r.1 with servos := applyWrites r.1.servos r.2 } ∧ ∀ w ∈ r.2, InCommandRange w.2

theorem debugBranch_answers {s : Vars R} (h : Saved s) (hinit : s.initialized = true) :
    Answers (debugBranch s) ∧ (debugBranch s).1 = s ∧
      applyWrites s.servos (debugBranch s).2 = s.servos := by
  unfold debugBranch
  split_ifs with hin
  · have hsaved := h hinit hin
    have hheld := applyWrites_held fun w hw => (hsaved w hw).1
    refine ⟨⟨?_, fun w hw => (hsaved w hw).2⟩, rfl, hheld⟩
    intro _ _ w hw
    dsimp only
    rw [hheld]
    exact hsaved w hw
  · exact ⟨⟨h, fun w hw => absurd hw (by simp)⟩, rfl, rfl⟩

end Commands

section Branches
variable {R : Type*} [Field R] (m : Maths R)

theorem solvedBranch_answers (s : Vars R) : Answers (solvedBranch m s) := by
  unfold solvedBranch
  dsimp only
  split_ifs with hin
  · have hrange : ∀ w ∈ commands { s with
        usAJNT1 := Arduino.map (degrees m s.theta1) (-90) 90 1000 2000
        usAJNT2 := Arduino.map (degrees m s.theta2) (-90) 90 1000 2000 }, InCommandRange w.2 := by
      intro w hw
      simp only [commands, setSpeed, List.cons_append, List.nil_append, List.mem_cons,
        List.not_mem_nil, or_false] at hw
      rcases hw with rfl | rfl
      · exact map_inCommandRange hin.1
      · exact map_inCommandRange hin.2
    exact ⟨fun _ _ w hw => ⟨commands_written _ s.servos w hw, hrange w hw⟩, hrange⟩
  · exact ⟨fun _ hq => absurd hq hin, fun w hw => absurd hw (by simp)⟩

theorem respond_answers {s : Vars R} (h : Saved s) : Answers (respond m s) := by
  unfold respond
  split_ifs with hsome hinit
  · exact solvedBranch_answers m s
  · exact (debugBranch_answers h hinit).1
  · exact ⟨h, fun w hw => absurd hw (by simp)⟩

theorem respond_unsolved {s : Vars R} (h : Saved s) (hnan : Unsolved s) :
    applyWrites (respond m s).1.servos (respond m s).2 = s.servos := by
  have hnone : ¬ (s.theta1.isSome = true ∨ s.theta2.isSome = true) := by simp [hnan.1, hnan.2]
  unfold respond
  rw [if_neg hnone]
  split_ifs with hinit
  · obtain ⟨-, hstate, hheld⟩ := debugBranch_answers h hinit
    rw [hstate, hheld]
  · rfl

/-! ## Runs -/

theorem angles_saved {s : Vars R} (h : Saved s) (i : Turn R) : Saved (angles s i) := h

theorem varsAt_saved (servos : Servo → BitVec 16) (inp : ℕ → Turn R) (n : ℕ) :
    Saved (varsAt m servos inp n) := by
  apply invariant (loop m) (setup servos) inp (P := fun _ s => Saved s)
  · exact fun hinit => absurd hinit (by simp [setup])
  · exact fun n h => (respond_answers m (angles_saved h (inp n))).1

/-- An unsolved iteration leaves every servo's command as it was, and no iteration writes a
command out of range. -/
theorem unsolved_leaves_commands (servos : Servo → BitVec 16) (inp : ℕ → Turn R) (n : ℕ) :
    (Unsolved (angles (varsAt m servos inp n) (inp n)) →
        (varsAt m servos inp (n + 1)).servos = (varsAt m servos inp n).servos) ∧
      ∀ w ∈ loopWrites m (varsAt m servos inp n) (inp n), InCommandRange w.2 := by
  have h := angles_saved (varsAt_saved m servos inp n) (inp n)
  exact ⟨fun hnan => respond_unsolved m h hnan, (respond_answers m h).2⟩

end Branches

end TitanRover.Stick.Titan3DOF
