import TitanRover.Leap.CommandRange

/-! # How fast the commands move

From one message to the next the wrist and the gripper move by at most one step of the slow
increment, and a joint by one such step and one nudge, unless the frame resets the joints or is the
first of the run to track the hand. This holds of the variables and of the whole numbers sent. -/
namespace TitanRover.Leap
open Foundations
set_option autoImplicit false

/-- `oneToOneSlowIncrementFactor` as a whole number. -/
def slowStep : ℤ := 3

section Rates
variable {R : Type*} [Field R]

/-! ## The moves are small -/

theorem slowStep_cast : ((slowStep : ℤ) : R) = oneToOneSlowIncrementFactor := by
  norm_num [slowStep, oneToOneSlowIncrementFactor]

variable [LinearOrder R]

theorem abs_ite_le {p : Prop} [Decidable p] {a b d : R} (ha : |a| ≤ d) (hb : |b| ≤ d) :
    |if p then a else b| ≤ d := by
  split_ifs
  · exact ha
  · exact hb

section Moves
variable [IsStrictOrderedRing R]

theorem abs_slowFactor_le : |(oneToOneSlowIncrementFactor : R)| ≤ (slowStep : ℤ) := by
  have h : (0 : R) ≤ oneToOneSlowIncrementFactor := by norm_num [oneToOneSlowIncrementFactor]
  rw [slowStep_cast, abs_of_nonneg h]

theorem abs_neg_slowFactor_le : |-(oneToOneSlowIncrementFactor : R)| ≤ (slowStep : ℤ) := by
  rw [abs_neg]
  exact abs_slowFactor_le

theorem abs_zero_le_slowStep : |(0 : R)| ≤ (slowStep : ℤ) := by
  rw [abs_zero]
  exact (abs_nonneg _).trans abs_slowFactor_le

theorem abs_approachMove_le (target p : R) : |approachMove target p| ≤ (slowStep : ℤ) :=
  abs_ite_le abs_slowFactor_le (abs_ite_le abs_neg_slowFactor_le abs_zero_le_slowStep)

theorem abs_wristTurn_le (wrst : R) : |wristTurn wrst| ≤ (slowStep : ℤ) :=
  abs_ite_le abs_neg_slowFactor_le (abs_ite_le abs_slowFactor_le abs_zero_le_slowStep)

theorem abs_nudgeMove_le (increment decrement : Bool) :
    |(nudgeMove increment decrement : R)| ≤ 1 := by
  unfold nudgeMove
  split_ifs <;> simp

theorem abs_wristMove_le (s : Vars R) (r : Reading R) : |wristMove s r| ≤ (slowStep : ℤ) :=
  abs_ite_le (abs_wristTurn_le _) abs_zero_le_slowStep

theorem abs_gripperMove_le (s : Vars R) (r : Reading R) : |gripperMove s r| ≤ (slowStep : ℤ) :=
  abs_ite_le (abs_approachMove_le _ _) abs_zero_le_slowStep

end Moves

variable [FloorRing R]

/-- A command moved by at most `d`, and so did the number sent for it. -/
def Within (d : ℤ) (p q : Num R) : Prop :=
  (∃ x y, p = some x ∧ q = some y ∧ |y - x| ≤ (d : R)) ∧ |int q - int p| ≤ d

theorem within_of_move [IsStrictOrderedRing R] {d : ℤ} {x move : R} (h : |move| ≤ d) :
    Within d (some x) (some (x + move)) := by
  have hmove : |x + move - x| ≤ (d : R) := by rwa [add_sub_cancel_left]
  refine ⟨⟨x, x + move, rfl, rfl, hmove⟩, ?_⟩
  have htrunc := abs_sub_le_iff.mp (abs_trunc_sub_le hmove)
  simp only [int]
  rw [abs_sub_le_iff]
  omega

variable (env : Env R)

/-! ## Consecutive messages -/

/-- Events `m` and `n` are frames with only key events between them. -/
structure Consecutive (events : ℕ → Event R) (m n : ℕ) (r r' : Reading R) : Prop where
  lt : m < n
  first : events m = .frame r
  second : events n = .frame r'
  between : ∀ k, m < k → k < n → ∀ x, events k ≠ .frame x

def TracksAt (events : ℕ → Event R) (n : ℕ) : Prop :=
  ∃ r, events n = .frame r ∧ Tracks (varsAt env events n) r

/-- Event `n` is the first frame of the run that takes the inverse kinematics branch. -/
def FirstTracking (events : ℕ → Event R) (n : ℕ) : Prop :=
  TracksAt env events n ∧ ∀ k < n, ¬ TracksAt env events k

/-- How far the commands may be apart that are sent from the states `s` and `s'`, where `free`
lifts the limit on the joints. -/
structure RateLimited (s s' : Vars R) (free : Prop) : Prop where
  wrist : Within slowStep (some s.wrist) (some s'.wrist)
  gripper : Within slowStep (some s.gripper) (some s'.gripper)
  joint : ¬ free → ∀ j, Within (slowStep + 1) (s.PWM j) (s'.PWM j)

/-- While the flag of the first cycle is set, no frame has tracked the hand. -/
theorem untracked_of_firstLoopCycle (events : ℕ → Event R) (n : ℕ)
    (h : (varsAt env events n).firstLoopCycle = true) : ∀ k < n, ¬ TracksAt env events k := by
  induction n with
  | zero => exact fun k hk => absurd hk (Nat.not_lt_zero k)
  | succ n ih =>
    have hstep : varsAt env events (n + 1) = step env (varsAt env events n) (events n) := rfl
    rw [hstep] at h
    have hn : (varsAt env events n).firstLoopCycle = true ∧ ¬ TracksAt env events n := by
      unfold TracksAt
      cases he : events n with
      | frame r =>
        rw [he] at h
        have hdraw := (draw_firstLoopCycle env (varsAt_consistent env events n) r).mp h
        refine ⟨hdraw.1, ?_⟩
        rintro ⟨x, hx, ht⟩
        rw [Event.frame.injEq] at hx
        exact hdraw.2 (hx ▸ ht)
      | press key =>
        rw [he] at h
        exact ⟨h, by simp⟩
      | release key =>
        rw [he] at h
        exact ⟨h, by simp⟩
    intro k hk
    rcases Nat.lt_succ_iff_lt_or_eq.mp hk with hlt | rfl
    · exact ih hn.1 k hlt
    · exact hn.2

/-- Key events between two frames leave the commands alone. -/
theorem commands_between {events : ℕ → Event R} {m n : ℕ} {r r' : Reading R}
    (h : Consecutive events m n r r') :
    (varsAt env events n).wrist = (frame env (varsAt env events m) r).wrist ∧
      (varsAt env events n).gripper = (frame env (varsAt env events m) r).gripper ∧
      ∀ j, (varsAt env events n).PWM j = (frame env (varsAt env events m) r).PWM j := by
  have hfirst : varsAt env events (m + 1) = (draw env (varsAt env events m) r).1 := by
    change step env (varsAt env events m) (events m) = _
    rw [h.first]
    rfl
  apply Run.persists (step env) init events (m := m + 1) (P := fun _ s =>
    s.wrist = (frame env (varsAt env events m) r).wrist ∧
      s.gripper = (frame env (varsAt env events m) r).gripper ∧
      ∀ j, s.PWM j = (frame env (varsAt env events m) r).PWM j) h.lt
  · show (varsAt env events (m + 1)).wrist = _ ∧ (varsAt env events (m + 1)).gripper = _ ∧
      ∀ j, (varsAt env events (m + 1)).PWM j = _
    rw [hfirst]
    exact ⟨rfl, rfl, draw_PWM env (varsAt env events m) r⟩
  · rintro k hmk hkn ⟨hw, hg, hj⟩
    cases he : events k with
    | frame x => exact absurd he (h.between k hmk hkn x)
    | press key => exact ⟨hw, hg, fun j => (keys_PWM _ _ j).trans (hj j)⟩
    | release key => exact ⟨hw, hg, fun j => (keys_PWM _ _ j).trans (hj j)⟩

/-! ## The limit -/

section Limit
variable [IsStrictOrderedRing R]

theorem abs_jointMove_le (s : Vars R) (r : Reading R) (j : Joint) :
    |jointMove env s r j| ≤ ((slowStep + 1 : ℤ) : R) := by
  have hstep : |jointStep env s r j| ≤ (slowStep : ℤ) :=
    abs_ite_le (abs_approachMove_le _ _) abs_zero_le_slowStep
  push_cast
  exact (abs_add_le _ _).trans (add_le_add hstep (abs_nudgeMove_le _ _))

theorem messages_rate_limited {events : ℕ → Event R} {m n : ℕ} {r r' : Reading R}
    (h : Consecutive events m n r r') :
    RateLimited (frame env (varsAt env events m) r) (frame env (varsAt env events n) r')
      ((varsAt env events n).reset = true ∨ FirstTracking env events n) := by
  have hc := varsAt_consistent env events n
  obtain ⟨hw, hg, hj⟩ := commands_between env h
  refine ⟨?_, ?_, ?_⟩
  · rw [frame_wrist env hc, ← hw]
    exact within_of_move (abs_wristMove_le _ _)
  · rw [frame_gripper env hc, ← hg]
    exact within_of_move (abs_gripperMove_le _ _)
  · intro hfree j
    rw [not_or, Bool.not_eq_true] at hfree
    have hlater : ¬ (Tracks (varsAt env events n) r' ∧
        (varsAt env events n).firstLoopCycle = true) := fun ht =>
      hfree.2 ⟨⟨r', h.second, ht.1⟩, untracked_of_firstLoopCycle env events n ht.2⟩
    obtain ⟨p, hp⟩ := Option.isSome_iff_exists.mp (hc.defined j)
    have hfrom : jointFrom env (varsAt env events n) r' j = p := by
      rw [jointFrom, if_neg (by simp [hfree.1]), if_neg hlater, hp]
      rfl
    rw [frame_joint env hc, ← hj, hp, hfrom]
    exact within_of_move (abs_jointMove_le env _ _ _)

end Limit

end Rates

theorem messages_rate_limited_wristHeld :
    RateLimited (frame realEnv (varsAt realEnv wristHeld 2) rolled)
      (frame realEnv (varsAt realEnv wristHeld 3) rolled)
      ((varsAt realEnv wristHeld 3).reset = true ∨ FirstTracking realEnv wristHeld 3) :=
  messages_rate_limited realEnv
    { lt := by decide
      first := rfl
      second := rfl
      between := fun k _ _ => by omega }

end TitanRover.Leap
