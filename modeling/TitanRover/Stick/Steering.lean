import TitanRover.Stick.Receiver

/-! # The target that the stick steers

Three of the sketches integrate the end effector's target from the stick: 50 per iteration and axis
while the stick is held over, with limits of their own. `Steering` is what differs between them.
The target is a whole number in every iteration, so that its `float` arithmetic is exact as long as
it stays below `2 ^ 24`. `step_pos` is everything an iteration does to an axis. -/
namespace TitanRover.Stick
open TitanRover.Arduino Foundations Foundations.Run
set_option autoImplicit false

/-! ## The position update -/

/-- The increments of an axis. -/
def advance (w : BitVec 16) (pos : ℤ) : ℤ :=
  if w > 1750 then pos + 50 else if w < 1250 then pos - 50 else pos

/-- The limits of an axis. -/
def clip (low high pos : ℤ) : ℤ := if pos ≤ low then low else if pos ≥ high then high else pos

/-- Increments and limits in one chain. -/
def advanceOrClip (limit : ℤ) (w : BitVec 16) (pos : ℤ) : ℤ :=
  if w > 1750 then pos + 50
  else if w < 1250 then pos - 50
  else if pos ≤ -limit then -limit
  else if pos ≥ limit then limit
  else pos

/-- The way the stick is held. -/
def lever (w : BitVec 16) : ℤ := if w > 1750 then 1 else if w < 1250 then -1 else 0

theorem lever_scrubWidth (w : BitVec 16) : lever (scrubWidth w) = lever w := by
  simp only [lever, scrubWidth, BitVec.lt_def, gt_iff_lt, BitVec.ofNat_eq_ofNat,
    BitVec.toNat_ofNat]
  split_ifs <;> simp_all <;> omega

theorem lever_cases (w : BitVec 16) :
    (w > 1750 ∧ ¬ w < 1250 ∧ lever w = 1) ∨ (¬ w > 1750 ∧ w < 1250 ∧ lever w = -1) ∨
      (¬ w > 1750 ∧ ¬ w < 1250 ∧ lever w = 0) := by
  unfold lever
  by_cases hup : w > 1750
  · have hnot : ¬ w < 1250 := by
      simp only [BitVec.lt_def, gt_iff_lt, BitVec.ofNat_eq_ofNat, BitVec.toNat_ofNat] at hup ⊢
      omega
    exact Or.inl ⟨hup, hnot, if_pos hup⟩
  · by_cases hdown : w < 1250
    · exact Or.inr (Or.inl ⟨hup, hdown, by rw [if_neg hup, if_pos hdown]⟩)
    · exact Or.inr (Or.inr ⟨hup, hdown, by rw [if_neg hup, if_neg hdown]⟩)

theorem advance_eq (w : BitVec 16) (pos : ℤ) : advance w pos = pos + 50 * lever w := by
  unfold advance lever
  split_ifs <;> omega

theorem advanceOrClip_eq (limit : ℤ) (w : BitVec 16) (pos : ℤ) :
    advanceOrClip limit w pos =
      if lever w = 1 then pos + 50
      else if lever w = -1 then pos - 50
      else if pos ≤ -limit then -limit
      else if pos ≥ limit then limit
      else pos := by
  unfold advanceOrClip
  rcases lever_cases w with ⟨hup, -, h⟩ | ⟨hup, hdown, h⟩ | ⟨hup, hdown, h⟩
  · rw [if_pos hup, if_pos h]
  · rw [if_neg hup, if_pos hdown, h]
    rfl
  · rw [if_neg hup, if_neg hdown, h]
    rfl

theorem advanceOrClip_congr (limit : ℤ) (w w' : BitVec 16) (pos : ℤ) (h : lever w = lever w') :
    advanceOrClip limit w pos = advanceOrClip limit w' pos := by
  rw [advanceOrClip_eq, advanceOrClip_eq, h]

theorem clip_eq {low high : ℤ} (h : low ≤ high) (pos : ℤ) :
    clip low high pos = max low (min high pos) := by
  unfold clip
  split_ifs <;> omega

/-! ## The steered target -/

/-- The variables of `loop` up to the position update. -/
structure Guide (C : Type) extends Statics C where
  xEndEPos : ℤ
  yEndEPos : ℤ

/-- What a sketch steers its target by. An axis moves by the way its stick is held. -/
structure Steering (C : Type) where
  flag : C → BitVec 8
  mask : BitVec 8
  channel : Axis → C
  move : Axis → BitVec 16 → ℤ → ℤ
  move_congr : ∀ a w w' pos, lever w = lever w' → move a w pos = move a w' pos

section Steered
variable {C : Type}

def Guide.pos (g : Guide C) : Axis → ℤ
  | .x => g.xEndEPos
  | .y => g.yEndEPos

/-- The target that `setup` sets. -/
def startPos : Axis → ℤ
  | .x => 1050
  | .y => 1600

def Guide.init : Guide C where
  toStatics := Statics.init
  xEndEPos := startPos .x
  yEndEPos := startPos .y

variable (st : Steering C)

def Steering.update (g : Guide C) (sh : Shared C) : Guide C :=
  let p := receive st.flag st.mask g.toStatics sh
  { toStatics := p
    yEndEPos := st.move .y (p.input (st.channel .y)) g.yEndEPos
    xEndEPos := st.move .x (p.input (st.channel .x)) g.xEndEPos }

/-- An iteration as far as the target is concerned. -/
def Steering.step (g : Guide C) (sh : Shared C) : Guide C :=
  { st.update g sh with bUpdateFlags := 0 }

def Steering.guideAt (inp : ℕ → Shared C) : ℕ → Guide C := stateAt st.step Guide.init inp

/-- The width in effect on an axis in an iteration. -/
def Steering.width (g : Guide C) (sh : Shared C) (a : Axis) : BitVec 16 :=
  inEffect st.flag g.toStatics sh (st.channel a)

theorem Steering.guideAt_bUpdateFlags (inp : ℕ → Shared C) (n : ℕ) :
    (st.guideAt inp n).bUpdateFlags = 0 := by
  cases n with
  | zero => rfl
  | succ n => rfl

section Step
variable {g : Guide C} (h0 : g.bUpdateFlags = 0) (sh : Shared C)
include h0

theorem Steering.lever_input (c : C) :
    lever ((st.step g sh).input c) = lever (inEffect st.flag g.toStatics sh c) := by
  change lever ((receive st.flag st.mask g.toStatics sh).input c) = _
  rw [receive_input st.flag h0]
  split_ifs
  · exact lever_scrubWidth _
  · rfl

theorem Steering.step_pos (a : Axis) :
    (st.step g sh).pos a = st.move a (st.width g sh a) (g.pos a) := by
  have hlever := st.lever_input h0 sh (st.channel a)
  cases a <;> exact st.move_congr _ _ _ _ hlever

end Step

/-! ## Without a pulse -/

/-- No pulse of either axis is consumed in the first `n` iterations. -/
def Steering.Quiet (inp : ℕ → Shared C) (n : ℕ) : Prop :=
  ∀ k < n, ∀ a, ¬ Consumes st.flag (st.channel a) (inp k)

/-- The receiver is off. -/
def silent (_ : ℕ) : Shared C where
  bUpdateFlagsShared := 0
  inputShared := fun _ => 0

theorem Steering.silent_quiet (n : ℕ) : st.Quiet silent n := by
  intro k _ a
  simp [Consumes, silent]

/-- Before the first pulse the stick reads as held down, for the statics start at zero. -/
theorem Steering.quiet_lever {inp : ℕ → Shared C} {n : ℕ} (h : st.Quiet inp n) (a : Axis) :
    lever ((st.guideAt inp n).input (st.channel a)) = -1 := by
  induction n with
  | zero => rfl
  | succ n ih =>
    have hn := ih (fun k hk => h k (by omega))
    have hstep := st.lever_input (st.guideAt_bUpdateFlags inp n) (inp n) (st.channel a)
    rw [inEffect, if_neg (h n (Nat.lt_succ_self n) a), hn] at hstep
    exact hstep

theorem Steering.quiet_pos {inp : ℕ → Shared C} {n : ℕ} (h : st.Quiet inp n) (a : Axis) :
    (st.guideAt inp n).pos a = (st.move a 0)^[n] (startPos a) := by
  induction n with
  | zero => cases a <;> rfl
  | succ n ih =>
    have hprefix : st.Quiet inp n := fun k hk => h k (by omega)
    have hstep : (st.guideAt inp (n + 1)).pos a =
        st.move a (st.width (st.guideAt inp n) (inp n) a) ((st.guideAt inp n).pos a) :=
      st.step_pos (st.guideAt_bUpdateFlags inp n) (inp n) a
    have hlever : lever (st.width (st.guideAt inp n) (inp n) a) = lever 0 := by
      rw [Steering.width, inEffect, if_neg (h n (Nat.lt_succ_self n) a)]
      exact st.quiet_lever hprefix a
    rw [hstep, st.move_congr a _ _ _ hlever, ih hprefix, Function.iterate_succ_apply']

end Steered

end TitanRover.Stick
