import TitanRover.Drive.Response
import TitanRover.Stick.Receiver

/-! # `Titan16_Drive.ino`

The earlier drive program mixes the stick inline and scales the shares to a fixed span of 250
microseconds. Its handlers and the first part of its `loop` are those of the arm sketches. Its
powers point the way those of `T16_DiffAlg` do, for no share is too small for the truncation of
either program (`directions_agree`). -/
namespace TitanRover.Titan16Drive
open TitanRover.Arduino TitanRover.Stick TitanRover.Drive.T16DiffAlg Foundations Foundations.Run
set_option autoImplicit false

/-! ## The channels and the motors -/

inductive Channel where
  | jlx | jly
  deriving DecidableEq

def jlyFlag : BitVec 8 := 2
def jlxFlag : BitVec 8 := 1

def Channel.flag : Channel → BitVec 8
  | .jlx => jlxFlag
  | .jly => jlyFlag

def calcJLY (high : Bool) (now : BitVec 32) (r : Radio Channel) : Radio Channel :=
  edge Channel.flag .jly high now r

def calcJLX (high : Bool) (now : BitVec 32) (r : Radio Channel) : Radio Channel :=
  edge Channel.flag .jlx high now r

def Channel.handler : Channel → Bool → BitVec 32 → Radio Channel → Radio Channel
  | .jlx => calcJLX
  | .jly => calcJLY

inductive Motor where
  | fl | fr | bl | br
  deriving DecidableEq

abbrev Write := Motor × BitVec 16

def applyWrites (motors : Motor → BitVec 16) (ws : List Write) : Motor → BitVec 16 :=
  ws.foldl (fun m w => Function.update m w.1 w.2) motors

def setSpeedAll (val : BitVec 16) : List Write := [(.fl, val), (.fr, val), (.bl, val), (.br, val)]
def setSpeedLeft (val : BitVec 16) : List Write := [(.fl, val), (.bl, val)]
def setSpeedRight (val : BitVec 16) : List Write := [(.fr, val), (.br, val)]

/-! ## The sketch -/

def calSignal : BitVec 16 := 1500
def maxFwd : ℚ := 1750
def maxRev : ℚ := 1250

structure Vars extends Statics Channel where
  xCoord : ℚ
  yCoord : ℚ
  usPowL : BitVec 16
  usPowR : BitVec 16
  motors : Motor → BitVec 16

/-- The calibration loop repeats the same writes for four seconds. -/
def setup (motors : Motor → BitVec 16) : Vars where
  toStatics := Statics.init
  xCoord := 0
  yCoord := 0
  usPowL := 0
  usPowR := 0
  motors := applyWrites motors (setSpeedAll calSignal)

def calcPosVar (x y : ℚ) : ℚ := (100 - |x|) * (y / 100) + y
def calcNegVar (x y : ℚ) : ℚ := (100 - |y|) * (x / 100) + x
def calcRightPower (v w : ℚ) : ℚ := (v + w) / 2
def calcLeftPower (v w : ℚ) : ℚ := (v - w) / 2

/-- The two branches for one side. -/
def inlinePower (prop : ℚ) : BitVec 16 :=
  if prop < 0 then toUint16 (1500 - (1500 - maxRev) * (|prop| / 100))
  else toUint16 (1500 + (maxFwd - 1500) * (prop / 100))

/-- The logical, not the bitwise, or of the two flags. -/
def mask : BitVec 8 := logicalOr jlxFlag jlyFlag

def received (s : Vars) (sh : Shared Channel) : Vars :=
  { s with toStatics := receive Channel.flag mask s.toStatics sh }

def mix (s : Vars) : Vars :=
  let s := { s with xCoord := coord (s.input .jlx), yCoord := coord (s.input .jly) }
  let s := { s with xCoord := deadzone s.xCoord, yCoord := deadzone s.yCoord }
  let s := { s with xCoord := s.xCoord * -1 }
  let v := calcPosVar s.xCoord s.yCoord
  let w := calcNegVar s.xCoord s.yCoord
  { s with
    usPowR := inlinePower (calcRightPower v w)
    usPowL := inlinePower (calcLeftPower v w) }

def powers (s : Vars) : Vars := if s.bUpdateFlags &&& mask ≠ 0 then mix s else s

def outputs (s : Vars) : List Write := setSpeedRight s.usPowR ++ setSpeedLeft s.usPowL

def finish (s : Vars) : Vars :=
  { s with motors := applyWrites s.motors (outputs s), bUpdateFlags := 0 }

def loop (s : Vars) (sh : Shared Channel) : Vars := finish (powers (received s sh))

def varsAt (motors : Motor → BitVec 16) (inp : ℕ → Shared Channel) : ℕ → Vars :=
  stateAt loop (setup motors) inp

theorem interrupted_run (motors : Motor → BitVec 16) (events : List (Option (Interrupt Channel))) :
    ∃ inp n, (events.foldl (Snapshot.act (system Channel.handler loop))
      (Radio.init, setup motors)).2 = varsAt motors inp n :=
  interleaving_refines Channel.handler loop (setup motors) events

/-- Every iteration sends the powers it holds. -/
theorem loop_motors (s : Vars) (sh : Shared Channel) :
    (loop s sh).motors .fl = (loop s sh).usPowL ∧ (loop s sh).motors .bl = (loop s sh).usPowL ∧
      (loop s sh).motors .fr = (loop s sh).usPowR ∧ (loop s sh).motors .br = (loop s sh).usPowR := by
  constructorm* _ ∧ _ <;> simp [loop, finish, outputs, setSpeedLeft, setSpeedRight, applyWrites]

/-! ## The powers -/

theorem mask_eq : mask = jlxFlag := by decide

theorem inlinePower_eq (prop : ℚ) : inlinePower prop = sidePower (5 / 8) prop := by
  have hrev : (1500 - maxRev) * (|prop| / 100) =
      (1500 - Drive.maxRev) * (5 / 8) * (|prop| / 100) := by
    norm_num [maxRev, Drive.maxRev]
  have hfwd : (maxFwd - 1500) * (prop / 100) = (Drive.maxFwd - 1500) * (5 / 8) * (prop / 100) := by
    norm_num [maxFwd, Drive.maxFwd]
  rw [inlinePower, sidePower, hrev, hfwd]

/-- The inline mix computes the shares of `T16_DiffAlg`. -/
theorem mix_powers {s : Vars} {x y : BitVec 16} (hx : s.input .jlx = scrubWidth x)
    (hy : s.input .jly = scrubWidth y) :
    (mix s).usPowL = inlinePower (leftShare x y) ∧
      (mix s).usPowR = inlinePower (rightShare x y) := by
  have hX : deadzone (coord (s.input .jlx)) * -1 = stickX x := by
    rw [hx]
    exact mul_neg_one _
  have hY : deadzone (coord (s.input .jly)) = stickY y := by
    rw [hy]
    rfl
  rw [← proportions_propL Drive.T16DiffAlg.init, ← proportions_propR Drive.T16DiffAlg.init]
  simp only [mix, hX, hY]
  exact ⟨rfl, rfl⟩

/-- The width on a channel that the iteration computes with. -/
def width (s : Vars) (sh : Shared Channel) (c : Channel) : BitVec 16 :=
  inEffect Channel.flag s.toStatics sh c

theorem loop_powers (s : Vars) {sh : Shared Channel} (h : Consumes Channel.flag .jlx sh) :
    (loop s sh).usPowL = inlinePower (leftShare (width s sh .jlx) (width s sh .jly)) ∧
      (loop s sh).usPowR = inlinePower (rightShare (width s sh .jlx) (width s sh .jly)) := by
  have hflags : flagsInEffect s.toStatics sh &&& mask ≠ 0 := by
    rw [flagsInEffect_of_consumes Channel.flag h, mask_eq]
    exact h
  have hinput : ∀ c, (received s sh).input c = scrubWidth (width s sh c) := fun c => by
    have hc := receive_eq Channel.flag mask s.toStatics sh c
    rwa [if_pos hflags] at hc
  have hkept : (received s sh).bUpdateFlags = flagsInEffect s.toStatics sh := by
    simp only [received, receive, readShared_eq, scrub]
    rw [if_pos hflags]
  have hpowers : powers (received s sh) = mix (received s sh) := by
    rw [powers, hkept, if_pos hflags]
  have hmix := mix_powers (hinput .jlx) (hinput .jly)
  rw [← hpowers] at hmix
  exact hmix

/-! ## The directions of the two programs -/

/-- Two powers send the motor the same way. -/
structure SameDirection (old new : BitVec 16) : Prop where
  forward : 1500 < old.toNat ↔ 1500 < new.toNat
  stopped : old.toNat = 1500 ↔ new.toNat = 1500
  reverse : old.toNat < 1500 ↔ new.toNat < 1500

theorem sameDirection_of_answers {p : ℚ} {old new : BitVec 16} (h : Answers p old)
    (h' : Answers p new) : SameDirection old new :=
  ⟨h.forward.trans h'.forward.symm, h.idle.trans h'.idle.symm, h.reverse.trans h'.reverse.symm⟩

theorem inlinePower_answers {p : ℚ} (hrange : |p| ≤ 100) (hp : 0 < p → 1 ≤ p) :
    Answers p (inlinePower p) := by
  rw [inlinePower_eq]
  exact sidePower_answers (by norm_num) (by norm_num) hrange hp

/-- In every iteration that consumes an x pulse, whatever the widths in effect, both powers point
the way that `T16_DiffAlg` would drive the sides with any throttle it has accepted. -/
theorem directions_agree (storage : Drive.T16DiffAlg) (calls : List Drive.Call)
    (hm : (after storage calls).inputPwmMTH ≠ 0) (s : Vars) {sh : Shared Channel}
    (hx : Consumes Channel.flag .jlx sh) :
    SameDirection (loop s sh).usPowL
        ((after storage calls).calcSpeed (width s sh .jlx) (width s sh .jly)).getPowLeft ∧
      SameDirection (loop s sh).usPowR
        ((after storage calls).calcSpeed (width s sh .jlx) (width s sh .jly)).getPowRight := by
  obtain ⟨hl, hr⟩ := one_le_shares (width s sh .jlx) (width s sh .jly)
  obtain ⟨hL, hR⟩ := calcSpeed_answers (after_accepted storage calls hm) (width s sh .jlx)
    (width s sh .jly)
  obtain ⟨holdL, holdR⟩ := loop_powers s hx
  rw [holdL, holdR]
  exact ⟨sameDirection_of_answers (inlinePower_answers (abs_leftShare_le _ _) hl) hL,
    sameDirection_of_answers (inlinePower_answers (abs_rightShare_le _ _) hr) hR⟩

/-- Both pulses of a stick pushed forward and to the right. -/
def pushed : Shared Channel where
  bUpdateFlagsShared := 3
  inputShared := fun c => if c = .jlx then 1600 else 1700

theorem directions_agree_pushed :
    SameDirection (loop (setup fun _ => 0) pushed).usPowL
        ((after init [.setMaxThrottle 1500]).calcSpeed (width (setup fun _ => 0) pushed .jlx)
          (width (setup fun _ => 0) pushed .jly)).getPowLeft ∧
      SameDirection (loop (setup fun _ => 0) pushed).usPowR
        ((after init [.setMaxThrottle 1500]).calcSpeed (width (setup fun _ => 0) pushed .jlx)
          (width (setup fun _ => 0) pushed .jly)).getPowRight :=
  directions_agree init [.setMaxThrottle 1500] (by decide +kernel) (setup fun _ => 0) (by decide)

end TitanRover.Titan16Drive
