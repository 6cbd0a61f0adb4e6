import TitanRover.Drive.SignalChecker

/-! # T16_Drive: the commands it sends

The gate of the power computation tests the `JLY` flag alone, so a pulse on another channel takes
effect only together with one on that channel; and the power statics start at zero, so the
iterations before the first `JLY` pulse write zero to the ESCs that `setup` left idle. -/
namespace TitanRover.Drive
open Foundations.Run
set_option autoImplicit false

/-! ## Which pulses take effect -/

/-- The width most recently consumed on channel `c` when iteration `n` ends, zero if none was. -/
def consumedWidth (inp : ℕ → Input) (c : Channel) (n : ℕ) : BitVec 16 :=
  latest inp (Consumes c) (fun i => i.shared.inShared c) 0 (n + 1)

def PowersCurrent (b : Boot) (inp : ℕ → Input) (n : ℕ) : Prop :=
  ∀ d : Side, (varsAt b inp (n + 1)).power d =
    (((varsAt b inp n).diff.setMaxThrottle (consumedWidth inp .mth n)).calcSpeed
      (consumedWidth inp .jlx n) (consumedWidth inp .jly n)).getPow d

theorem input_eq_latest (b : Boot) (inp : ℕ → Input) (c : Channel) (n : ℕ) :
    (varsAt b inp n).input c = latest inp (Consumes c) (fun i => i.shared.inShared c) 0 n := by
  apply tracks_latest loop (setup b) inp (fun i => i.shared.inShared c) 0 (fun s => s.input c) rfl
  intro k
  exact loop_input (varsAt_bUpdateFlags b inp k) (inp k) c

theorem powersCurrent_of_jly (b : Boot) (inp : ℕ → Input) (n : ℕ)
    (hy : Consumes .jly (inp n)) : PowersCurrent b inp n := by
  intro d
  have hin : ∀ c, (block (varsAt b inp n) (inp n).shared).input c = consumedWidth inp c n := by
    intro c
    rw [consumedWidth, ← input_eq_latest b inp c, varsAt_succ,
      loop_input (varsAt_bUpdateFlags b inp n)]
    rfl
  rw [varsAt_succ, loop_power (varsAt_bUpdateFlags b inp n), if_pos hy, mixed, hin, hin, hin]

/-- In a run in which every iteration that consumes a `JLX` or `MTH` pulse also consumes a `JLY`
pulse, no consumed pulse is ignored. -/
theorem powers_current (b : Boot) (inp : ℕ → Input)
    (h : ∀ k, Consumes .jlx (inp k) ∨ Consumes .mth (inp k) → Consumes .jly (inp k)) (n : ℕ)
    (hn : Consumes .jlx (inp n) ∨ Consumes .jly (inp n) ∨ Consumes .mth (inp n)) :
    PowersCurrent b inp n := by
  apply powersCurrent_of_jly
  rcases hn with hx | hy | hm
  · exact h n (Or.inl hx)
  · exact hy
  · exact h n (Or.inr hm)

def allChannels (k : ℕ) : Input :=
  { shared := { bUpdateFlagsShared := 15, inShared := fun c => if c = .jly then 2000 else 1500 }
    time := k }

theorem allChannels_jly (k : ℕ) : Consumes .jly (allChannels k) := by
  simp only [Consumes, allChannels]
  decide

theorem powers_current_allChannels : PowersCurrent coldBoot allChannels 3 :=
  powers_current coldBoot allChannels (fun k _ => allChannels_jly k) 3 (Or.inl (by decide))

/-- Full speed ahead, then a pulse of the steering axis alone. -/
def thenSteer (k : ℕ) : Input :=
  if k = 0 then allChannels 0
  else { shared := { bUpdateFlagsShared := jlxFlag, inShared := fun _ => 2000 }, time := k }

theorem steering_ignored :
    ¬ ∀ (b : Boot) (inp : ℕ → Input) (n : ℕ),
      Consumes .jlx (inp n) ∨ Consumes .jly (inp n) ∨ Consumes .mth (inp n) →
        PowersCurrent b inp n := by
  intro hall
  have h := hall coldBoot thenSteer 1 (Or.inl (by decide)) .right
  have hne : (varsAt coldBoot thenSteer 2).power .right ≠
      (((varsAt coldBoot thenSteer 1).diff.setMaxThrottle
        (consumedWidth thenSteer .mth 1)).calcSpeed (consumedWidth thenSteer .jlx 1)
          (consumedWidth thenSteer .jly 1)).getPow .right := by
    decide +kernel
  exact hne h

/-! ## From power-up on -/

/-- No ESC leaves the idle command before the first `JLY` pulse is consumed, and every value
written from then on is within 90% of the half range. -/
def SafeFromPowerUp (b : Boot) (inp : ℕ → Input) : Prop :=
  (∀ n, (∀ k < n, ¬ Consumes .jly (inp k)) → ∀ e, (varsAt b inp n).escs e = 1500) ∧
    ∀ n, (∃ k ≤ n, Consumes .jly (inp k)) →
      ∀ w ∈ loopWrites (varsAt b inp n) (inp n), 1140 ≤ w.2.toNat ∧ w.2.toNat ≤ 1860

theorem throttle_run (b : Boot) (inp : ℕ → Input) (n : ℕ) :
    0 ≤ (varsAt b inp n).diff.maxThrottle ∧ (varsAt b inp n).diff.maxThrottle ≤ 9 / 10 := by
  induction n with
  | zero => exact ⟨le_refl 0, by norm_num [varsAt, setup, T16DiffAlg.init]⟩
  | succ n ih =>
    rw [varsAt_succ, loop_diff (varsAt_bUpdateFlags b inp n)]
    split_ifs
    · rw [mixed, T16DiffAlg.calcSpeed_maxThrottle]
      exact T16DiffAlg.setMaxThrottle_range _ _ ih.1 ih.2
    · exact ih

theorem mixed_power_range {s : Vars} (ht0 : 0 ≤ s.diff.maxThrottle)
    (ht : s.diff.maxThrottle ≤ 9 / 10) (i : Input) (d : Side) :
    1140 ≤ ((mixed s i).getPow d).toNat ∧ ((mixed s i).getPow d).toNat ≤ 1860 := by
  obtain ⟨h0, h9⟩ := T16DiffAlg.setMaxThrottle_range s.diff
    ((block s i.shared).input .mth) ht0 ht
  have h := T16DiffAlg.calcSpeed_power_range _ ((block s i.shared).input .jlx)
    ((block s i.shared).input .jly) h0 h9
  cases d with
  | left => exact h.1
  | right => exact h.2

theorem power_run (b : Boot) (inp : ℕ → Input) {k n : ℕ} (hkn : k < n)
    (hy : Consumes .jly (inp k)) (d : Side) :
    1140 ≤ ((varsAt b inp n).power d).toNat ∧ ((varsAt b inp n).power d).toNat ≤ 1860 := by
  induction n with
  | zero => omega
  | succ n ih =>
    obtain ⟨h0, h9⟩ := throttle_run b inp n
    rw [varsAt_succ, loop_power (varsAt_bUpdateFlags b inp n)]
    split_ifs with hn hf
    · exact mixed_power_range h0 h9 (inp n) d
    · decide
    · have hne : k ≠ n := fun he => hn (he ▸ hy)
      exact ih (by omega)

theorem writes_in_range (b : Boot) (inp : ℕ → Input) {k n : ℕ} (hkn : k ≤ n)
    (hy : Consumes .jly (inp k)) (w : Write) (hw : w ∈ loopWrites (varsAt b inp n) (inp n)) :
    1140 ≤ w.2.toNat ∧ w.2.toNat ≤ 1860 := by
  obtain ⟨d, hd⟩ := mem_outputs hw
  have h := power_run b inp (by omega : k < n + 1) hy d
  rw [varsAt_succ, loop, finish_power] at h
  rw [hd]
  exact h

theorem first_power (b : Boot) (inp : ℕ → Input) (hy : ¬ Consumes .jly (inp 0)) (d : Side) :
    (varsAt b inp 1).power d = 0 := by
  have hf : ¬ CheckerFires (setup b) (inp 0) := fun hf => hf.2.1 rfl
  have h := loop_power (s := setup b) rfl (inp 0) d
  rw [if_neg hy, if_neg hf] at h
  rw [varsAt_succ]
  cases d <;> exact h

/-- The commands are safe from power-up on exactly when the first iteration already finds a
`JLY` pulse. -/
theorem safe_from_power_up_iff (b : Boot) (inp : ℕ → Input) :
    SafeFromPowerUp b inp ↔ Consumes .jly (inp 0) := by
  constructor
  · intro h
    by_contra hy
    have hidle := h.1 1 (fun k hk => by rwa [Nat.lt_one_iff.mp hk]) .fl
    have hfl : (varsAt b inp 1).escs .fl = (varsAt b inp 1).power .left :=
      loop_escs_front (setup b) (inp 0) .left
    rw [hfl, first_power b inp hy] at hidle
    exact absurd hidle (by decide)
  · intro hy
    refine ⟨?_, fun n _ w hw => writes_in_range b inp (Nat.zero_le n) hy w hw⟩
    intro n hn e
    cases n with
    | zero =>
      have hsetup : (varsAt b inp 0).escs = fun _ => calSignal := setup_escs b
      rw [hsetup, calSignal]
    | succ n => exact absurd hy (hn 0 (Nat.succ_pos n))

theorem unsafe_at_power_up :
    ¬ ∀ (b : Boot) (inp : ℕ → Input), SafeFromPowerUp b inp := by
  intro hall
  have h := (hall coldBoot quiet).1 1 (fun k _ => (quiet_silent k).not_consumes .jly) .fl
  have hfl : (varsAt coldBoot quiet 1).escs .fl = 0 := by decide +kernel
  rw [hfl] at h
  exact absurd h (by decide)

end TitanRover.Drive
