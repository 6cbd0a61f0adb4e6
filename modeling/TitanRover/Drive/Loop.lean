import TitanRover.Foundations.Run
import TitanRover.Foundations.Clock
import TitanRover.Drive.DiffAlg

/-! # T16_Drive: `setup` and `loop`

One iteration of `loop` reads the shared variables (`readShared`), recomputes the powers
(`calcPowers`), runs the signal checker (`signalChecker`) and writes the ESCs (`outputs`).
`DEBUG` and `PERFORMANCE` are `0` in the sketch, so the code under them is left out.
`beforeOutputs_cases` says everything an iteration does, and the field lemmas after it are read
off from it; the results on runs unfold nothing else. -/
namespace TitanRover.Drive
open TitanRover.Arduino Foundations.Run
set_option autoImplicit false

/-! ## Channels, flags and ESCs -/

inductive Channel where
  | jly | jlx | drv | mth
  deriving DecidableEq

def jlyFlag : BitVec 8 := 1
def jlxFlag : BitVec 8 := 2
def drvFlag : BitVec 8 := 4
def mthFlag : BitVec 8 := 8

def Channel.flag : Channel → BitVec 8
  | .jly => jlyFlag
  | .jlx => jlxFlag
  | .drv => drvFlag
  | .mth => mthFlag

def calSignal : BitVec 16 := 1500

inductive Esc where
  | fl | fr | bl | br | ml | mr
  deriving DecidableEq

inductive Side where
  | left | right

def Side.front : Side → Esc
  | .left => .fl
  | .right => .fr

def Side.back : Side → Esc
  | .left => .bl
  | .right => .br

def Side.middle : Side → Esc
  | .left => .ml
  | .right => .mr

abbrev Write := Esc × BitVec 16

def applyWrites (escs : Esc → BitVec 16) (ws : List Write) : Esc → BitVec 16 :=
  ws.foldl (fun e w => Function.update e w.1 w.2) escs

def setSpeedAll (val : BitVec 16) : List Write :=
  [(.bl, val), (.br, val), (.ml, val), (.mr, val), (.fl, val), (.fr, val)]

/-- In 6WD mode all three motors of a side are written, in 4WD mode the middle one is not. -/
def setSpeedSide (side : Side) (val mode : BitVec 16) : List Write :=
  if mode > 1500 then [(side.back, val), (side.middle, val), (side.front, val)]
  else [(side.front, val), (side.back, val)]

def setSpeedLeft (val mode : BitVec 16) : List Write := setSpeedSide .left val mode
def setSpeedRight (val mode : BitVec 16) : List Write := setSpeedSide .right val mode

/-! ## State -/

/-- The variables the interrupt handlers share with the loop: `bUpdateFlagsShared` and
`uJLYInShared`, `uJLXInShared`, `uDRVInShared`, `uMTHInShared`. -/
structure Shared where
  bUpdateFlagsShared : BitVec 8
  inShared : Channel → BitVec 16

/-- The variables only the loop touches: its function statics, `ulCheckStart`, the mixer object
and the commands the ESCs hold. `input` is `uJLYIn`, `uJLXIn`, `uDRVIn`, `uMTHIn`. -/
structure Vars where
  bUpdateFlags : BitVec 8
  input : Channel → BitVec 16
  uPowL : BitVec 16
  uPowR : BitVec 16
  ulCheckStart : BitVec 32
  diff : T16DiffAlg
  escs : Esc → BitVec 16

def Vars.power (s : Vars) : Side → BitVec 16
  | .left => s.uPowL
  | .right => s.uPowR

def T16DiffAlg.getPow (d : T16DiffAlg) : Side → BitVec 16
  | .left => d.getPowLeft
  | .right => d.getPowRight

/-- What is not the sketch's choice at power-up: what the ESCs hold, and how often the
calibration loop is repeated before its four seconds are over. -/
structure Boot where
  escs : Esc → BitVec 16
  passes : ℕ

def calibrate (escs : Esc → BitVec 16) : ℕ → Esc → BitVec 16
  | 0 => applyWrites escs (setSpeedAll calSignal)
  | n + 1 => applyWrites (calibrate escs n) (setSpeedAll calSignal)

def setup (b : Boot) : Vars where
  bUpdateFlags := 0
  input := fun _ => 0
  uPowL := 0
  uPowR := 0
  ulCheckStart := 0
  diff := T16DiffAlg.init
  escs := calibrate b.escs b.passes

/-! ## The loop -/

def block (s : Vars) (sh : Shared) : Vars :=
  { s with bUpdateFlags := sh.bUpdateFlagsShared
           input := fun c =>
             if sh.bUpdateFlagsShared &&& c.flag ≠ 0 then sh.inShared c else s.input c }

def readShared (s : Vars) (sh : Shared) : Vars :=
  if sh.bUpdateFlagsShared ≠ 0 then block s sh else s

/-- The mask is the logical, not the bitwise, or of the three flags. -/
def calcPowers (s : Vars) : Vars :=
  if s.bUpdateFlags &&& logicalOr (logicalOr jlxFlag jlyFlag) mthFlag ≠ 0 then
    let d := (s.diff.setMaxThrottle (s.input .mth)).calcSpeed (s.input .jlx) (s.input .jly)
    { s with diff := d, uPowL := d.getPowLeft, uPowR := d.getPowRight }
  else s

def signalChecker (s : Vars) (now : BitVec 32) : Vars :=
  if s.bUpdateFlags = 0 then
    if s.ulCheckStart = 0 then { s with ulCheckStart := now }
    else if now - s.ulCheckStart ≥ 1000000 then { s with uPowR := 1500, uPowL := 1500 }
    else s
  else { s with ulCheckStart := 0 }

def outputs (s : Vars) : List Write :=
  setSpeedRight s.uPowR (s.input .drv) ++ setSpeedLeft s.uPowL (s.input .drv)

def finish (s : Vars) : Vars :=
  { s with escs := applyWrites s.escs (outputs s), bUpdateFlags := 0 }

/-- What one iteration reads: the shared variables as its check and its block find them, and the
true time at which it reads `micros()`, which it does at most once. -/
structure Input where
  shared : Shared
  time : ℕ

def micros (time : ℕ) : BitVec 32 := Foundations.Clock.read 32 time

def beforeOutputs (s : Vars) (i : Input) : Vars :=
  signalChecker (calcPowers (readShared s i.shared)) (micros i.time)

def loop (s : Vars) (i : Input) : Vars := finish (beforeOutputs s i)

def loopWrites (s : Vars) (i : Input) : List Write := outputs (beforeOutputs s i)

def varsAt (b : Boot) (inp : ℕ → Input) : ℕ → Vars := stateAt loop (setup b) inp

theorem varsAt_succ (b : Boot) (inp : ℕ → Input) (n : ℕ) :
    varsAt b inp (n + 1) = loop (varsAt b inp n) (inp n) := rfl

/-! ## What an iteration finds -/

/-- The iteration consumes a pulse of channel `c`. -/
def Consumes (c : Channel) (i : Input) : Prop := i.shared.bUpdateFlagsShared &&& c.flag ≠ 0

def Silent (i : Input) : Prop := i.shared.bUpdateFlagsShared = 0

instance (c : Channel) (i : Input) : Decidable (Consumes c i) := inferInstanceAs (Decidable (_ ≠ _))
instance (i : Input) : Decidable (Silent i) := inferInstanceAs (Decidable (_ = _))

theorem Silent.not_consumes {i : Input} (h : Silent i) (c : Channel) : ¬ Consumes c i := by
  have h' : i.shared.bUpdateFlagsShared = 0 := h
  simp [Consumes, h']

theorem gate_eq : logicalOr (logicalOr jlxFlag jlyFlag) mthFlag = jlyFlag := by decide

/-! ## The calibration leaves every ESC idle -/

theorem applyWrites_setSpeedAll (escs : Esc → BitVec 16) (val : BitVec 16) :
    applyWrites escs (setSpeedAll val) = fun _ => val := by
  funext e
  cases e <;> simp [applyWrites, setSpeedAll]

theorem setup_escs (b : Boot) : (setup b).escs = fun _ => calSignal := by
  unfold setup
  cases hp : b.passes with
  | zero => simp only [calibrate, applyWrites_setSpeedAll]
  | succ n => simp only [calibrate, applyWrites_setSpeedAll]

/-! ## The outputs -/

theorem finish_escs_front (s : Vars) (d : Side) : (finish s).escs d.front = s.power d := by
  simp only [finish, outputs, setSpeedLeft, setSpeedRight, setSpeedSide, applyWrites]
  cases d <;> split_ifs <;> simp [Side.front, Side.back, Side.middle, Vars.power]

theorem finish_escs_middle (s : Vars) (d : Side) :
    (finish s).escs d.middle = if s.input .drv > 1500 then s.power d else s.escs d.middle := by
  simp only [finish, outputs, setSpeedLeft, setSpeedRight, setSpeedSide, applyWrites]
  cases d <;> split_ifs <;> simp [Side.front, Side.back, Side.middle, Vars.power]

@[simp] theorem finish_input (s : Vars) : (finish s).input = s.input := rfl
@[simp] theorem finish_power (s : Vars) (d : Side) : (finish s).power d = s.power d := by
  cases d <;> rfl
@[simp] theorem finish_ulCheckStart (s : Vars) : (finish s).ulCheckStart = s.ulCheckStart := rfl
@[simp] theorem finish_diff (s : Vars) : (finish s).diff = s.diff := rfl

theorem mem_outputs {s : Vars} {w : Write} (h : w ∈ outputs s) : ∃ d, w.2 = s.power d := by
  simp only [outputs, setSpeedLeft, setSpeedRight, setSpeedSide, List.mem_append] at h
  rcases h with h | h
  · refine ⟨.right, ?_⟩
    split_ifs at h <;> simp at h <;> rcases h with rfl | rfl | rfl <;> rfl
  · refine ⟨.left, ?_⟩
    split_ifs at h <;> simp at h <;> rcases h with rfl | rfl | rfl <;> rfl

/-! ## What an iteration does -/

/-- The fail-safe overwrites the powers in this iteration. -/
def CheckerFires (s : Vars) (i : Input) : Prop :=
  Silent i ∧ s.ulCheckStart ≠ 0 ∧ micros i.time - s.ulCheckStart ≥ 1000000

instance (s : Vars) (i : Input) : Decidable (CheckerFires s i) :=
  inferInstanceAs (Decidable (_ ∧ _ ∧ _))

def mixed (s : Vars) (i : Input) : T16DiffAlg :=
  let input := (block s i.shared).input
  (s.diff.setMaxThrottle (input .mth)).calcSpeed (input .jlx) (input .jly)

theorem calcPowers_of_zero {s : Vars} (h0 : s.bUpdateFlags = 0) : calcPowers s = s := by
  rw [calcPowers, h0, BitVec.ofNat_eq_ofNat, BitVec.zero_and, if_neg (not_not.mpr rfl)]

theorem calcPowers_block {s : Vars} {i : Input} :
    calcPowers (block s i.shared) =
      if Consumes .jly i then
        { block s i.shared with
            diff := mixed s i
            uPowL := (mixed s i).getPowLeft
            uPowR := (mixed s i).getPowRight }
      else block s i.shared := by
  rw [calcPowers, gate_eq]
  rfl

theorem beforeOutputs_silent {s : Vars} {i : Input} (h0 : s.bUpdateFlags = 0) (h : Silent i) :
    beforeOutputs s i = signalChecker s (micros i.time) := by
  have hread : readShared s i.shared = s := if_neg (not_not.mpr h)
  rw [beforeOutputs, hread, calcPowers_of_zero h0]

theorem beforeOutputs_flagged {s : Vars} {i : Input} (h : ¬ Silent i) :
    beforeOutputs s i = { calcPowers (block s i.shared) with ulCheckStart := 0 } := by
  have hread : readShared s i.shared = block s i.shared := if_pos h
  have hne : ¬ (calcPowers (block s i.shared)).bUpdateFlags = 0 := by
    rw [calcPowers_block]
    split_ifs <;> exact h
  rw [beforeOutputs, hread, signalChecker, if_neg hne]

/-- Everything an iteration does before it writes its outputs. -/
theorem beforeOutputs_cases (s : Vars) (i : Input) (h0 : s.bUpdateFlags = 0) :
    (Consumes .jly i ∧ ¬ Silent i ∧ beforeOutputs s i =
      { block s i.shared with
          diff := mixed s i
          uPowL := (mixed s i).getPowLeft
          uPowR := (mixed s i).getPowRight
          ulCheckStart := 0 }) ∨
    (¬ Consumes .jly i ∧ ¬ Silent i ∧
      beforeOutputs s i = { block s i.shared with ulCheckStart := 0 }) ∨
    (Silent i ∧ s.ulCheckStart = 0 ∧
      beforeOutputs s i = { s with ulCheckStart := micros i.time }) ∨
    (CheckerFires s i ∧ beforeOutputs s i = { s with uPowR := 1500, uPowL := 1500 }) ∨
    (Silent i ∧ s.ulCheckStart ≠ 0 ∧ ¬ CheckerFires s i ∧ beforeOutputs s i = s) := by
  by_cases h : Silent i
  · right; right
    rw [beforeOutputs_silent h0 h, signalChecker, if_pos h0]
    by_cases hz : s.ulCheckStart = 0
    · exact Or.inl ⟨h, hz, if_pos hz⟩
    · rw [if_neg hz]
      by_cases hT : micros i.time - s.ulCheckStart ≥ 1000000
      · exact Or.inr (Or.inl ⟨⟨h, hz, hT⟩, if_pos hT⟩)
      · exact Or.inr (Or.inr ⟨h, hz, fun hc => hT hc.2.2, if_neg hT⟩)
  · rw [beforeOutputs_flagged h, calcPowers_block]
    by_cases hy : Consumes .jly i
    · exact Or.inl ⟨hy, h, by rw [if_pos hy]⟩
    · exact Or.inr (Or.inl ⟨hy, h, by rw [if_neg hy]⟩)

section Fields
variable {s : Vars} (h0 : s.bUpdateFlags = 0) (i : Input)
include h0

theorem loop_input (c : Channel) :
    (loop s i).input c = if Consumes c i then i.shared.inShared c else s.input c := by
  rw [loop, finish_input]
  rcases beforeOutputs_cases s i h0 with ⟨-, -, h⟩ | ⟨-, -, h⟩ | ⟨hs, -, h⟩ | ⟨hf, h⟩ | ⟨hs, -, -, h⟩
  · rw [h]; rfl
  · rw [h]; rfl
  · rw [h, if_neg (hs.not_consumes c)]
  · rw [h, if_neg (hf.1.not_consumes c)]
  · rw [h, if_neg (hs.not_consumes c)]

theorem loop_ulCheckStart :
    (loop s i).ulCheckStart =
      if Silent i then if s.ulCheckStart = 0 then micros i.time else s.ulCheckStart else 0 := by
  rw [loop, finish_ulCheckStart]
  rcases beforeOutputs_cases s i h0 with
    ⟨-, hs, h⟩ | ⟨-, hs, h⟩ | ⟨hs, hz, h⟩ | ⟨hf, h⟩ | ⟨hs, hz, -, h⟩
  · rw [h, if_neg hs]
  · rw [h, if_neg hs]
  · rw [h, if_pos hs, if_pos hz]
  · rw [h, if_pos hf.1, if_neg hf.2.1]
  · rw [h, if_pos hs, if_neg hz]

theorem loop_diff : (loop s i).diff = if Consumes .jly i then mixed s i else s.diff := by
  rw [loop, finish_diff]
  rcases beforeOutputs_cases s i h0 with ⟨hy, -, h⟩ | ⟨hy, -, h⟩ | ⟨hs, -, h⟩ | ⟨hf, h⟩ | ⟨hs, -, -, h⟩
  · rw [h, if_pos hy]
  · rw [h, if_neg hy]; rfl
  · rw [h, if_neg (hs.not_consumes .jly)]
  · rw [h, if_neg (hf.1.not_consumes .jly)]
  · rw [h, if_neg (hs.not_consumes .jly)]

/-- The powers an iteration writes: new ones only with a `JLY` pulse, idle when the fail-safe
fires, the old ones otherwise. -/
theorem loop_power (d : Side) :
    (loop s i).power d =
      if Consumes .jly i then (mixed s i).getPow d
      else if CheckerFires s i then 1500 else s.power d := by
  rw [loop, finish_power]
  rcases beforeOutputs_cases s i h0 with
    ⟨hy, hs, h⟩ | ⟨hy, hs, h⟩ | ⟨hs, hz, h⟩ | ⟨hf, h⟩ | ⟨hs, -, hf, h⟩
  · rw [h, if_pos hy]
    cases d <;> rfl
  · rw [h, if_neg hy, if_neg (fun hf => hs hf.1)]
    cases d <;> rfl
  · rw [h, if_neg (hs.not_consumes .jly), if_neg (fun hf => hf.2.1 hz)]
    cases d <;> rfl
  · rw [h, if_neg (hf.1.not_consumes .jly), if_pos hf]
    cases d <;> rfl
  · rw [h, if_neg (hs.not_consumes .jly), if_neg hf]

end Fields

@[simp] theorem loop_bUpdateFlags (s : Vars) (i : Input) : (loop s i).bUpdateFlags = 0 := rfl

theorem varsAt_bUpdateFlags (b : Boot) (inp : ℕ → Input) (n : ℕ) :
    (varsAt b inp n).bUpdateFlags = 0 := by
  cases n with
  | zero => rfl
  | succ n => rw [varsAt_succ, loop_bUpdateFlags]

theorem loop_escs_front (s : Vars) (i : Input) (d : Side) :
    (loop s i).escs d.front = (loop s i).power d := by
  rw [loop, finish_escs_front, finish_power]

theorem loop_escs_middle {s : Vars} (h0 : s.bUpdateFlags = 0) (i : Input) (d : Side) :
    (loop s i).escs d.middle =
      if (loop s i).input .drv > 1500 then (loop s i).power d else s.escs d.middle := by
  have hescs : (beforeOutputs s i).escs = s.escs := by
    rcases beforeOutputs_cases s i h0 with ⟨-, -, h⟩ | ⟨-, -, h⟩ | ⟨-, -, h⟩ | ⟨-, h⟩ | ⟨-, -, -, h⟩ <;>
      rw [h] <;> rfl
  rw [loop, finish_escs_middle, hescs, finish_input, finish_power]

end TitanRover.Drive
