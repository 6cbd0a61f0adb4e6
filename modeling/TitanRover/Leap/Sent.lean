import TitanRover.Foundations.Drift
import TitanRover.Leap.Convergence
import TitanRover.Leap.HeldKeys
import TitanRover.Leap.LockMode
import TitanRover.Leap.RateLimit

/-! # What the messages carry

Facts about every message of every run of the sketch, for whoever receives them. The three
orientations are 0, 1 or 2 and the gripper number stays near the centre. A joint number leaves its
band around the centre by one for each frame that nudged the joint, the wrist number by one step for
each frame that had the wrist unlocked, and two messages are no further apart than the frames
between them account for. -/
namespace TitanRover.Leap
open Foundations
set_option autoImplicit false

def Message.joint (m : Message) : Joint → ℤ
  | .one => m.joint1PWM
  | .two => m.joint2PWM

def Event.isFrame {R : Type*} : Event R → Bool
  | .frame _ => true
  | _ => false

def servoCentre : ℤ := 1500

/-- Half of the servo range and one step. -/
def band : ℤ := 503

def IsOrientation (z : ℤ) : Prop := 0 ≤ z ∧ z ≤ 2

instance (z : ℤ) : Decidable (IsOrientation z) := inferInstanceAs (Decidable (_ ∧ _))

theorem keyPressed_isOrientation (key : Char) (k : Keys) (m : Motor) :
    IsOrientation ((keyPressed key k).orientation m) := by
  by_cases hkey : key ∈ m.keys
  · cases m with
    | lazySusan =>
      simp only [Motor.keys, Finset.mem_insert, Finset.mem_singleton] at hkey
      rcases hkey with rfl | rfl
      · change IsOrientation 1
        decide
      · change IsOrientation 2
        decide
    | shoulder =>
      simp only [Motor.keys, Finset.mem_insert, Finset.mem_singleton] at hkey
      rcases hkey with rfl | rfl
      · change IsOrientation 2
        decide
      · change IsOrientation 1
        decide
  · rw [not_ne_iff.mp (mt (keyPressed_orientation key k m).mp hkey)]
    decide

theorem rotateWrist_isOrientation {R : Type*} [Field R] [LinearOrder R] (wrst : R) (s : Vars R) :
    IsOrientation (rotateWrist wrst s).wristOrientation := by
  unfold rotateWrist
  split_ifs
  · change IsOrientation 2
    decide
  · change IsOrientation 1
    decide
  · change IsOrientation 0
    decide

section Sent
variable {R : Type*} [Field R] [LinearOrder R] [FloorRing R] (env : Env R)

/-! ## The message of a frame -/

theorem sent_frame {events : ℕ → Event R} {n : ℕ} {m : Message} (h : sent env events n = some m) :
    ∃ r, events n = .frame r ∧ m = message (frame env (varsAt env events n) r) := by
  unfold sent at h
  cases he : events n with
  | frame r =>
    rw [he, Option.some.injEq] at h
    exact ⟨r, rfl, h.symm⟩
  | press key =>
    rw [he] at h
    cases h
  | release key =>
    rw [he] at h
    cases h

theorem varsAt_frame {events : ℕ → Event R} {n : ℕ} {r : Reading R} (h : events n = .frame r) :
    varsAt env events (n + 1) = (draw env (varsAt env events n) r).1 := by
  change step env (varsAt env events n) (events n) = _
  rw [h]
  rfl

/-- The message has the numbers of a state. -/
structure Carries (s : Vars R) (m : Message) : Prop where
  wrist : m.wrist = int (some s.wrist)
  gripper : m.gripper = int (some s.gripper)
  joint : ∀ j, m.joint j = int (s.PWM j)

theorem sent_carries {events : ℕ → Event R} {n : ℕ} {m : Message}
    (h : sent env events n = some m) : Carries (varsAt env events (n + 1)) m := by
  obtain ⟨r, hr, rfl⟩ := sent_frame env h
  rw [varsAt_frame env hr]
  refine ⟨rfl, rfl, fun j => ?_⟩
  cases j <;> rfl

/-! ## The orientations -/

theorem varsAt_isOrientation (events : ℕ → Event R) (m : Motor) (n : ℕ) :
    IsOrientation ((varsAt env events n).toKeys.orientation m) := by
  apply Run.invariant (step env) init events
    (P := fun _ s => IsOrientation (s.toKeys.orientation m))
  · cases m with
    | lazySusan => exact (by decide : IsOrientation 0)
    | shoulder => exact (by decide : IsOrientation 0)
  · intro n h
    rw [step_keys]
    cases events n with
    | frame r => exact h
    | press key => exact keyPressed_isOrientation key _ m
    | release key =>
      rw [keyStep, keyReleased_orientation]
      decide

theorem frame_isOrientation {s : Vars R} (h : Consistent s) (r : Reading R)
    (hs : IsOrientation s.wristOrientation) :
    IsOrientation (frame env s r).wristOrientation := by
  by_cases hunlocked : WristUnlocked s
  · obtain ⟨hreset, hmode, honline⟩ := hunlocked
    have hstart := start_started env h r
    have hframe : (frame env s r).wristOrientation =
        (wristGripper (handValues r) (start env s r)).wristOrientation := by
      change (mode env (handValues r) (start env s r)).wristOrientation = _
      rw [mode, hstart.reset, hstart.mode, hreset, hmode]
      rfl
    have honline' : (moveGripper (handValues r) (start env s r)).wristOnline = true := by
      rw [(moveGripper_keeps _ _).2.1, hstart.wristOnline, honline]
    rw [hframe]
    change IsOrientation (moveWrist (handValues r)
      (moveGripper (handValues r) (start env s r))).wristOrientation
    rw [moveWrist, if_pos honline']
    exact rotateWrist_isOrientation _ _
  · rw [frame_wristOrientation env h r hunlocked]
    exact hs

theorem sent_isOrientation {events : ℕ → Event R} {n : ℕ} {m : Message}
    (h : sent env events n = some m) :
    IsOrientation m.wristOrientation ∧ IsOrientation m.shoulderOrientation ∧
      IsOrientation m.lazySusanOrientation := by
  obtain ⟨r, hr, rfl⟩ := sent_frame env h
  have hkeys : (frame env (varsAt env events n) r).toKeys = (varsAt env events n).toKeys :=
    draw_keys env (varsAt env events n) r
  refine ⟨?_, ?_, ?_⟩
  · apply frame_isOrientation env (varsAt_consistent env events n)
    rw [varsAt_wristOrientation]
    decide
  · have h := varsAt_isOrientation env events .shoulder n
    rw [← hkeys] at h
    exact h
  · have h := varsAt_isOrientation env events .lazySusan n
    rw [← hkeys] at h
    exact h

/-! ## Frames counted -/

section Counts
variable (events : ℕ → Event R) (P : Vars R → Prop) [DecidablePred P]

/-- Event `n` is a frame, drawn in a state with `P`. -/
def FrameAt (n : ℕ) : Prop := (events n).isFrame = true ∧ P (varsAt env events n)

instance : DecidablePred (FrameAt env events P) :=
  fun _ => inferInstanceAs (Decidable (_ ∧ _))

/-- The number of such frames among the first `n` events. -/
def framesWith (n : ℕ) : ℕ := Nat.count (FrameAt env events P) n

theorem framesWith_succ (n : ℕ) : framesWith env events P (n + 1) =
    framesWith env events P n + if FrameAt env events P n then 1 else 0 :=
  Nat.count_succ _ n

omit [DecidablePred P] in
theorem frameAt_frame {n : ℕ} {r : Reading R} (h : events n = .frame r) :
    FrameAt env events P n ↔ P (varsAt env events n) := by
  rw [FrameAt, h, Event.isFrame, eq_self, true_and]

theorem framesWith_key {n : ℕ} (h : (events n).isFrame = false) :
    framesWith env events P (n + 1) = framesWith env events P n := by
  rw [framesWith_succ, if_neg, add_zero]
  rintro ⟨hframe, -⟩
  rw [h] at hframe
  cases hframe

end Counts

def Nudged (j : Joint) (s : Vars R) : Prop := s.increment j = true ∨ s.decrement j = true

instance (j : Joint) : DecidablePred (Nudged (R := R) j) :=
  fun _ => inferInstanceAs (Decidable (_ ∨ _))

instance : DecidablePred (WristUnlocked (R := R)) :=
  fun _ => inferInstanceAs (Decidable (_ ∧ _ ∧ _))

instance : DecidablePred (GripperUnlocked (R := R)) :=
  fun _ => inferInstanceAs (Decidable (_ ∧ _ ∧ _))

/-! ## The bands -/

section Bands
variable [IsStrictOrderedRing R]

theorem int_sub_le {x y : R} {d : ℤ} (h : |y - x| ≤ d) : |int (some y) - int (some x)| ≤ d := by
  have hmove := (within_of_move (x := x) h).2
  rwa [add_sub_cancel] at hmove

theorem int_centre : int (some ((servoCentre : ℤ) : R)) = servoCentre := by
  rw [int, trunc_intCast]
  rfl

theorem int_near {x : R} {d : ℤ} (h : |x - (servoCentre : ℤ)| ≤ d) :
    |int (some x) - servoCentre| ≤ d := by
  have hint := int_sub_le h
  rwa [int_centre] at hint

theorem checkPWMBounds_near (PWMSignal : R) :
    |checkPWMBounds PWMSignal - (servoCentre : ℤ)| + oneToOneSlowIncrementFactor ≤ (band : ℤ) := by
  rw [← le_sub_iff_add_le, abs_le]
  unfold checkPWMBounds
  norm_num [servoCentre, band, oneToOneSlowIncrementFactor]
  split_ifs <;> constructor <;> linarith

theorem slowIncrementPWM_near {PWMSignal p : R} {k : ℕ}
    (h : |p - (servoCentre : ℤ)| ≤ ((band + k : ℤ) : R)) :
    |p + approachMove (checkPWMBounds PWMSignal) p - (servoCentre : ℤ)| ≤
      ((band + k : ℤ) : R) := by
  rw [← slowIncrementPWM_eq, slowIncrementPWM_step]
  refine Approach.step_near slowFactor_pos.le ((checkPWMBounds_near PWMSignal).trans ?_) h
  exact_mod_cast Int.le_add_of_nonneg_right (Int.natCast_nonneg k)

theorem varsAt_gripper_near (events : ℕ → Event R) (n : ℕ) :
    |(varsAt env events n).gripper - (servoCentre : ℤ)| ≤ (band : ℤ) := by
  apply Run.invariant (step env) init events
    (P := fun _ s => |s.gripper - (servoCentre : ℤ)| ≤ (band : ℤ))
  · norm_num [init, servoCentre, band]
  · intro n h
    cases events n with
    | frame r =>
      change |(frame env (varsAt env events n) r).gripper - _| ≤ _
      rw [frame_gripper env (varsAt_consistent env events n), gripperMove]
      split_ifs
      · have hband : ((band + (0 : ℕ) : ℤ) : R) = (band : ℤ) := by rw [Nat.cast_zero, add_zero]
        rw [← hband] at h ⊢
        exact slowIncrementPWM_near h
      · rw [add_zero]
        exact h
    | press key => exact h
    | release key => exact h

theorem jointPosition_near (theta : R) (j : Joint) (k : ℕ) :
    |jointPosition env theta j - (servoCentre : ℤ)| ≤ ((band + k : ℤ) : R) := by
  have hbounds : ∀ x : R, |checkPWMBounds x - (servoCentre : ℤ)| ≤ ((band + k : ℤ) : R) := by
    intro x
    have hx := checkPWMBounds_near x
    have hk : ((0 : ℤ) : R) ≤ ((k : ℤ) : R) := Int.cast_le.mpr (Int.natCast_nonneg k)
    have hpos := slowFactor_pos (R := R)
    push_cast at hk ⊢
    linarith
  cases j <;> exact hbounds _

theorem jointReset_near (j : Joint) (k : ℕ) :
    |(jointReset j : R) - (servoCentre : ℤ)| ≤ ((band + k : ℤ) : R) := by
  have hclose : |(jointReset j : R) - (servoCentre : ℤ)| ≤ (band : ℤ) := by
    cases j <;> norm_num [jointReset, joint1Reset, joint2Reset, servoCentre, band]
  exact hclose.trans (Int.cast_le.mpr (Int.le_add_of_nonneg_right (Int.natCast_nonneg k)))

/-- A frame moves a joint within its band, but for the nudge. -/
theorem jointFrom_near {s : Vars R} (r : Reading R) (j : Joint) {k : ℕ}
    (h : |(s.PWM j).getD 0 - (servoCentre : ℤ)| ≤ ((band + k : ℤ) : R)) :
    |jointFrom env s r j + jointStep env s r j - (servoCentre : ℤ)| ≤ ((band + k : ℤ) : R) := by
  unfold jointFrom jointStep
  by_cases hreset : s.reset = true
  · have hnot : ¬ (Tracks s r ∧ s.firstLoopCycle = false) := fun ht => by
      rw [ht.1.1] at hreset
      cases hreset
    rw [if_pos hreset, if_neg hnot, add_zero]
    exact jointReset_near j k
  · rw [if_neg hreset]
    by_cases ht : Tracks s r
    · cases hfirst : s.firstLoopCycle with
      | true =>
        rw [if_pos ⟨ht, rfl⟩, if_neg (fun hf => Bool.noConfusion hf.2), add_zero]
        exact jointPosition_near env _ j k
      | false =>
        rw [if_neg (by simp), if_pos ⟨ht, rfl⟩]
        cases j <;> exact slowIncrementPWM_near h
    · simpa [ht] using h

theorem varsAt_joint_near (events : ℕ → Event R) (j : Joint) (n : ℕ) :
    |((varsAt env events n).PWM j).getD 0 - (servoCentre : ℤ)| ≤
      ((band + framesWith env events (Nudged j) n : ℤ) : R) := by
  apply Run.invariant (step env) init events (P := fun n s =>
    |(s.PWM j).getD 0 - (servoCentre : ℤ)| ≤
      ((band + framesWith env events (Nudged j) n : ℤ) : R))
  · have hinit : (((init : Vars R).PWM j).getD 0) = jointReset j := by cases j <;> rfl
    rw [hinit]
    exact jointReset_near j _
  · intro n h
    cases he : events n with
    | frame r =>
      rw [framesWith_succ, if_congr (frameAt_frame env events (Nudged j) he) rfl rfl]
      change |((draw env (varsAt env events n) r).1.PWM j).getD 0 - _| ≤ _
      have hmove := jointFrom_near env r j h
      have hnudge : |(nudgeMove ((varsAt env events n).increment j)
          ((varsAt env events n).decrement j) : R)| ≤
          ((if Nudged j (varsAt env events n) then 1 else 0 : ℕ) : ℤ) := by
        unfold nudgeMove Nudged
        split_ifs <;> simp_all
      rw [draw_PWM, frame_joint env (varsAt_consistent env events n), Option.getD_some, jointMove]
      calc _ = |(jointFrom env (varsAt env events n) r j + jointStep env (varsAt env events n) r j -
            (servoCentre : ℤ)) + nudgeMove ((varsAt env events n).increment j)
            ((varsAt env events n).decrement j)| := by
            congr 1
            ring
        _ ≤ _ := (abs_add_le _ _).trans (add_le_add hmove hnudge)
        _ = _ := by
            push_cast
            ring
    | press key =>
      rw [framesWith_key env events (Nudged j) (by rw [he]; rfl)]
      change |(({ varsAt env events n with toKeys := keyPressed key _ } : Vars R).PWM j).getD 0 - _|
        ≤ _
      rw [keys_PWM]
      exact h
    | release key =>
      rw [framesWith_key env events (Nudged j) (by rw [he]; rfl)]
      change |(({ varsAt env events n with toKeys := keyReleased key _ } : Vars R).PWM j).getD 0 -
        _| ≤ _
      rw [keys_PWM]
      exact h

end Bands

/-! ## Two messages -/

section Apart
variable [IsStrictOrderedRing R] (events : ℕ → Event R)

/-- A number that keys leave alone and that a frame moves by at most `d`, and only in a state with
`P`. -/
theorem varsAt_apart (f : Vars R → R) (P : Vars R → Prop) [DecidablePred P] {d : ℤ} {m n : ℕ}
    (hmn : m ≤ n) (hkeys : ∀ s keys, f { s with toKeys := keys } = f s)
    (hmove : ∀ k r, m ≤ k → k < n → events k = .frame r →
      |f (draw env (varsAt env events k) r).1 - f (varsAt env events k)| ≤ d)
    (hstill : ∀ k r, events k = .frame r → ¬ P (varsAt env events k) →
      f (draw env (varsAt env events k) r).1 = f (varsAt env events k)) :
    |f (varsAt env events n) - f (varsAt env events m)| ≤
      ((d * (framesWith env events P n - framesWith env events P m : ℕ) : ℤ) : R) := by
  have hdrift : |f (varsAt env events n) - f (varsAt env events m)| ≤
      (framesWith env events P n - framesWith env events P m) • (d : R) := by
    apply Drift.abs_sub_le (FrameAt env events P) (x := fun k => f (varsAt env events k)) hmn
    · intro k hk hkn hP
      cases he : events k with
      | frame r =>
        rw [varsAt_frame env he]
        exact hmove k r hk hkn he
      | press key =>
        rw [FrameAt, he] at hP
        cases hP.1
      | release key =>
        rw [FrameAt, he] at hP
        cases hP.1
    · intro k hk hkn hP
      change f (step env (varsAt env events k) (events k)) = _
      cases he : events k with
      | frame r =>
        rw [frameAt_frame env events P he] at hP
        exact hstill k r he hP
      | press key => exact hkeys _ _
      | release key => exact hkeys _ _
  rw [nsmul_eq_mul, mul_comm] at hdrift
  rwa [Int.cast_mul, Int.cast_natCast]

theorem wrist_apart {m n : ℕ} (h : m ≤ n) :
    |(varsAt env events n).wrist - (varsAt env events m).wrist| ≤
      ((slowStep * (framesWith env events WristUnlocked n -
        framesWith env events WristUnlocked m : ℕ) : ℤ) : R) := by
  have hframe : ∀ k r, (draw env (varsAt env events k) r).1.wrist =
      (varsAt env events k).wrist + wristMove (varsAt env events k) r :=
    fun k r => frame_wrist env (varsAt_consistent env events k) r
  apply varsAt_apart env events (fun s => s.wrist) WristUnlocked h (fun _ _ => rfl)
  · intro k r _ _ _
    rw [hframe, add_sub_cancel_left]
    exact abs_wristMove_le _ _
  · intro k r _ hlocked
    rw [hframe, wristMove_locked hlocked, add_zero]

theorem gripper_apart {m n : ℕ} (h : m ≤ n) :
    |(varsAt env events n).gripper - (varsAt env events m).gripper| ≤
      ((slowStep * (framesWith env events GripperUnlocked n -
        framesWith env events GripperUnlocked m : ℕ) : ℤ) : R) := by
  have hframe : ∀ k r, (draw env (varsAt env events k) r).1.gripper =
      (varsAt env events k).gripper + gripperMove (varsAt env events k) r :=
    fun k r => frame_gripper env (varsAt_consistent env events k) r
  apply varsAt_apart env events (fun s => s.gripper) GripperUnlocked h (fun _ _ => rfl)
  · intro k r _ _ _
    rw [hframe, add_sub_cancel_left]
    exact abs_gripperMove_le _ _
  · intro k r _ hlocked
    rw [hframe, gripperMove_locked hlocked, add_zero]

/-- The frames that may put a joint anywhere. -/
def Jumps (n : ℕ) : Prop := (varsAt env events n).reset = true ∨ FirstTracking env events n

def Frame (_ : Vars R) : Prop := True

instance : DecidablePred (Frame (R := R)) := fun _ => inferInstanceAs (Decidable True)

theorem joint_apart (j : Joint) {m n : ℕ} (h : m ≤ n)
    (hjump : ∀ k, m ≤ k → k < n → ¬ Jumps env events k) :
    |((varsAt env events n).PWM j).getD 0 - ((varsAt env events m).PWM j).getD 0| ≤
      (((slowStep + 1) * (framesWith env events Frame n -
        framesWith env events Frame m : ℕ) : ℤ) : R) := by
  apply varsAt_apart env events (fun s => (s.PWM j).getD 0) Frame h
  · intro s keys
    rw [keys_PWM]
  · intro k r hk hkn he
    have hfree := hjump k hk hkn
    rw [Jumps, not_or, Bool.not_eq_true] at hfree
    have hlater : ¬ (Tracks (varsAt env events k) r ∧
        (varsAt env events k).firstLoopCycle = true) := fun ht =>
      hfree.2 ⟨⟨r, he, ht.1⟩, untracked_of_firstLoopCycle env events k ht.2⟩
    have hfrom : jointFrom env (varsAt env events k) r j =
        ((varsAt env events k).PWM j).getD 0 := by
      rw [jointFrom, if_neg (by simp [hfree.1]), if_neg hlater]
    rw [draw_PWM, frame_joint env (varsAt_consistent env events k), Option.getD_some, hfrom,
      add_sub_cancel_left]
    exact abs_jointMove_le env _ _ _
  · exact fun k r _ hframe => absurd trivial hframe

/-- How far the messages `m` of event `n` and `m'` of a later event `n'` may be apart. -/
structure Apart (n n' : ℕ) (m m' : Message) : Prop where
  wrist : |m'.wrist - m.wrist| ≤ slowStep * (framesWith env events WristUnlocked (n' + 1) -
    framesWith env events WristUnlocked (n + 1) : ℕ)
  gripper : |m'.gripper - m.gripper| ≤ slowStep * (framesWith env events GripperUnlocked (n' + 1) -
    framesWith env events GripperUnlocked (n + 1) : ℕ)
  joint : (∀ k, n < k → k ≤ n' → ¬ Jumps env events k) → ∀ j, |m'.joint j - m.joint j| ≤
    (slowStep + 1) * (framesWith env events Frame (n' + 1) -
      framesWith env events Frame (n + 1) : ℕ)

theorem messages_apart {n n' : ℕ} {m m' : Message} (hn : n ≤ n')
    (hm : sent env events n = some m) (hm' : sent env events n' = some m') :
    Apart env events n n' m m' := by
  have hc := sent_carries env hm
  have hc' := sent_carries env hm'
  refine ⟨?_, ?_, ?_⟩
  · rw [hc.wrist, hc'.wrist]
    exact int_sub_le (wrist_apart env events (Nat.succ_le_succ hn))
  · rw [hc.gripper, hc'.gripper]
    exact int_sub_le (gripper_apart env events (Nat.succ_le_succ hn))
  · intro hjump j
    obtain ⟨p, hp⟩ := Option.isSome_iff_exists.mp ((varsAt_consistent env events (n + 1)).defined j)
    obtain ⟨p', hp'⟩ :=
      Option.isSome_iff_exists.mp ((varsAt_consistent env events (n' + 1)).defined j)
    have hjoint := joint_apart env events j (Nat.succ_le_succ hn)
      (fun k hk hkn => hjump k (by omega) (by omega))
    rw [hp, hp'] at hjoint
    rw [hc.joint, hc'.joint, hp, hp']
    exact int_sub_le hjoint

end Apart

/-! ## The numbers of a message -/

section Numbers
variable [IsStrictOrderedRing R] {events : ℕ → Event R} {n : ℕ} {m : Message}

theorem sent_gripper_near (h : sent env events n = some m) :
    |m.gripper - servoCentre| ≤ band := by
  rw [(sent_carries env h).gripper]
  exact int_near (varsAt_gripper_near env events (n + 1))

theorem sent_joint_near (h : sent env events n = some m) (j : Joint) :
    |m.joint j - servoCentre| ≤ band + framesWith env events (Nudged j) (n + 1) := by
  obtain ⟨p, hp⟩ := Option.isSome_iff_exists.mp ((varsAt_consistent env events (n + 1)).defined j)
  have hnear := varsAt_joint_near env events j (n + 1)
  rw [hp] at hnear
  rw [(sent_carries env h).joint, hp]
  exact int_near hnear

theorem sent_wrist_near (h : sent env events n = some m) :
    |m.wrist - servoCentre| ≤ slowStep * framesWith env events WristUnlocked (n + 1) := by
  have hnear := wrist_apart env events (Nat.zero_le (n + 1))
  have hinit : (varsAt env events 0).wrist = ((servoCentre : ℤ) : R) := by
    norm_num [varsAt, init, servoCentre]
  rw [hinit] at hnear
  rw [(sent_carries env h).wrist]
  exact int_near hnear

/-- The bounds on the message of event `n`. -/
structure Banded (env : Env R) (events : ℕ → Event R) (n : ℕ) (m : Message) : Prop where
  orientations : IsOrientation m.wristOrientation ∧ IsOrientation m.shoulderOrientation ∧
    IsOrientation m.lazySusanOrientation
  gripper : |m.gripper - servoCentre| ≤ band
  joint : ∀ j, |m.joint j - servoCentre| ≤ band + framesWith env events (Nudged j) (n + 1)
  wrist : |m.wrist - servoCentre| ≤ slowStep * framesWith env events WristUnlocked (n + 1)

theorem sent_banded (h : sent env events n = some m) : Banded env events n m :=
  ⟨sent_isOrientation env h, sent_gripper_near env h, sent_joint_near env h, sent_wrist_near env h⟩

theorem sent_banded_wristHeld : ∃ m, sent realEnv wristHeld 501 = some m ∧
    Banded realEnv wristHeld 501 m :=
  ⟨_, rfl, sent_banded realEnv rfl⟩

end Numbers

end Sent

end TitanRover.Leap
