import TitanRover.Foundations.Watchdog
import TitanRover.Drive.Loop

/-! # T16_Drive: the signal checker

The loop refines a watchdog with a one-second limit: `ulCheckStart` is its start time, a poll is
silent when the iteration finds no flag, and a latched expiry means both powers are idle. A latch
is released only by an iteration that consumes a `JLY` pulse, since no other one computes powers. -/
namespace TitanRover.Drive
open Foundations.Run Foundations.Watchdog
set_option autoImplicit false

def IdleFrontBack (ws : List Write) : Prop :=
  ∀ (d : Side) (e : Esc), e = d.front ∨ e = d.back →
    (e, 1500) ∈ ws ∧ ∀ v, (e, v) ∈ ws → v = 1500

structure Paced (inp : ℕ → Input) : Prop where
  increasing : ∀ k, (inp k).time < (inp (k + 1)).time
  gap : ∀ k, (inp (k + 1)).time - (inp k).time < 2 ^ 32 - 10 ^ 6

theorem mem_outputs_front (s : Vars) (d : Side) (v : BitVec 16) :
    (d.front, v) ∈ outputs s ↔ v = s.power d := by
  simp only [outputs, setSpeedLeft, setSpeedRight, setSpeedSide]
  cases d <;> split_ifs <;> simp [Side.front, Side.back, Side.middle, Vars.power]

theorem mem_outputs_back (s : Vars) (d : Side) (v : BitVec 16) :
    (d.back, v) ∈ outputs s ↔ v = s.power d := by
  simp only [outputs, setSpeedLeft, setSpeedRight, setSpeedSide]
  cases d <;> split_ifs <;> simp [Side.front, Side.back, Side.middle, Vars.power]

theorem idle_outputs (s : Vars) : IdleFrontBack (outputs s) ↔ ∀ d, s.power d = 1500 := by
  constructor
  · intro h d
    exact ((mem_outputs_front s d 1500).mp (h d d.front (Or.inl rfl)).1).symm
  · rintro h d e (rfl | rfl)
    · simp [mem_outputs_front, h d]
    · simp [mem_outputs_back, h d]

/-! ## The refinement -/

def poll (i : Input) : Poll where
  time := i.time
  silent := decide (Silent i)
  release := decide (Consumes .jly i)

structure Refines (s : Vars) (t : Timer 32) : Prop where
  flags : s.bUpdateFlags = 0
  start : s.ulCheckStart = t.start
  idle : t.latched = true → ∀ d, s.power d = 1500

theorem refines_fires {s : Vars} {t : Timer 32} (h : Refines s t) (i : Input) :
    CheckerFires s i ↔ Fires 1000000 t (poll i) := by
  rw [CheckerFires, h.start, ge_iff_le, BitVec.le_def]
  simp [Fires, poll, micros]

theorem refines_step {s : Vars} {t : Timer 32} (h : Refines s t) (i : Input) :
    Refines (loop s i) (step 1000000 t (poll i)) := by
  have hstart := loop_ulCheckStart h.flags i
  have hpower := loop_power h.flags i
  have hfires := refines_fires h i
  refine ⟨loop_bUpdateFlags s i, ?_, ?_⟩
  · rw [hstart, h.start]
    by_cases hs : Silent i
    · have hp : (poll i).silent = true := by simpa [poll] using hs
      rw [if_pos hs]
      by_cases hz : t.start = 0
      · rw [if_pos hz, step_arm hp hz]
        rfl
      · rw [if_neg hz, step_start hp hz]
    · have hp : (poll i).silent = false := by simpa [poll] using hs
      rw [if_neg hs, step_active hp]
  · intro hl d
    rw [hpower d]
    by_cases hc : CheckerFires s i
    · rw [if_neg (hc.1.not_consumes .jly), if_pos hc]
    · have hnf : ¬ Fires 1000000 t (poll i) := fun hf => hc (hfires.mpr hf)
      obtain ⟨hlt, hy⟩ := latched_before hl hnf
      have hjly : ¬ Consumes .jly i := by
        intro hj
        rcases hy with hs | hr
        · exact Silent.not_consumes (by simpa [poll] using hs) .jly hj
        · simp [poll, hj] at hr
      rw [if_neg hjly, if_neg hc]
      exact h.idle hlt d

theorem refines_run (b : Boot) (inp : ℕ → Input) (n : ℕ) :
    Refines (varsAt b inp n) (timerAt (fun k => poll (inp k)) 32 1000000 n) := by
  induction n with
  | zero => exact ⟨rfl, rfl, fun h => Bool.noConfusion h⟩
  | succ n ih => exact refines_step ih (inp n)

/-! ## Silence stops the rover -/

theorem idle_of_latched (b : Boot) (inp : ℕ → Input) (n : ℕ)
    (h : (timerAt (fun k => poll (inp k)) 32 1000000 (n + 1)).latched = true) :
    IdleFrontBack (loopWrites (varsAt b inp n) (inp n)) := by
  refine (idle_outputs _).mpr (fun d => ?_)
  have hd := (refines_run b inp (n + 1)).idle h d
  rwa [varsAt_succ, loop, finish_power] at hd

/-- After a silence of one second past its second iteration every write is idle, up to the next
iteration that consumes a `JLY` pulse. -/
theorem idle_after_silence (b : Boot) (inp : ℕ → Input) (hp : Paced inp) {i j m : ℕ}
    (hs : ∀ k, i ≤ k → k ≤ j → Silent (inp k))
    (hlong : (inp (i + 1)).time + 10 ^ 6 ≤ (inp j).time) (hjm : j ≤ m)
    (hy : ∀ k, j ≤ k → k ≤ m → ¬ Consumes .jly (inp k)) :
    IdleFrontBack (loopWrites (varsAt b inp m) (inp m)) := by
  have hlatch : (timerAt (fun k => poll (inp k)) 32 1000000 (j + 1)).latched = true :=
    latched_of_silence _ hp.increasing hp.gap (by decide)
      (fun k hik hkj => by simpa [poll] using hs k hik hkj) hlong
  apply idle_of_latched
  refine latched_persists _ (by omega : j + 1 ≤ m + 1) hlatch (fun k hjk hkm => Or.inr ?_)
  simpa [poll] using hy k (by omega) (by omega)

/-- The iteration of a firing ends a second without any flag. -/
theorem silence_of_fires (b : Boot) (inp : ℕ → Input) (hp : Paced inp) {k : ℕ}
    (hf : CheckerFires (varsAt b inp k) (inp k)) :
    ∃ i ≤ k, (∀ m, i ≤ m → m ≤ k → Silent (inp m)) ∧ (inp i).time + 10 ^ 6 ≤ (inp k).time := by
  have hfires := (refines_fires (refines_run b inp k) (inp k)).mp hf
  obtain ⟨i, hik, hs, ht⟩ := fires_sound _ hp.increasing k hfires
  exact ⟨i, hik, fun m him hmk => by simpa [poll] using hs m him hmk, ht⟩

/-- Without a `JLY` pulse only a firing changes a power. -/
theorem fires_of_power_ne {s : Vars} (h0 : s.bUpdateFlags = 0) {i : Input}
    (hy : ¬ Consumes .jly i) {d : Side} (hne : (loop s i).power d ≠ s.power d) :
    CheckerFires s i := by
  by_contra hf
  rw [loop_power h0, if_neg hy, if_neg hf] at hne
  exact hne rfl

/-- The signal checker: a silence of one second idles the motors until the next `JLY` pulse, over
any number of wraps of `micros()`, and the checker never fires earlier. -/
theorem signalChecker_timely (b : Boot) (inp : ℕ → Input) (hp : Paced inp) :
    (∀ i j, (∀ k, i ≤ k → k ≤ j → Silent (inp k)) →
      (inp (i + 1)).time + 10 ^ 6 ≤ (inp j).time →
      ∀ m, j ≤ m → (∀ k, j ≤ k → k ≤ m → ¬ Consumes .jly (inp k)) →
        IdleFrontBack (loopWrites (varsAt b inp m) (inp m))) ∧
    (∀ k, CheckerFires (varsAt b inp k) (inp k) →
      ∃ i ≤ k, (∀ m, i ≤ m → m ≤ k → Silent (inp m)) ∧
        (inp i).time + 10 ^ 6 ≤ (inp k).time) ∧
    (∀ k d, ¬ Consumes .jly (inp k) →
      (varsAt b inp (k + 1)).power d ≠ (varsAt b inp k).power d →
      ∃ i ≤ k, (∀ m, i ≤ m → m ≤ k → Silent (inp m)) ∧
        (inp i).time + 10 ^ 6 ≤ (inp k).time) := by
  refine ⟨fun i j hs hlong m hjm hy => idle_after_silence b inp hp hs hlong hjm hy, ?_, ?_⟩
  · exact fun k hf => silence_of_fires b inp hp hf
  · intro k d hy hne
    exact silence_of_fires b inp hp (fires_of_power_ne (varsAt_bUpdateFlags b inp k) hy hne)

def coldBoot : Boot := { escs := fun _ => 0, passes := 0 }

/-- No pulse ever arrives; `micros()` reads exactly `0` when the timer is first armed. -/
def quiet (k : ℕ) : Input :=
  { shared := { bUpdateFlagsShared := 0, inShared := fun _ => 0 }, time := 1000 * k }

theorem quiet_paced : Paced quiet :=
  ⟨fun k => by simp only [quiet]; omega, fun k => by simp only [quiet]; omega⟩

theorem quiet_silent (k : ℕ) : Silent (quiet k) := rfl

theorem signalChecker_timely_quiet :
    IdleFrontBack (loopWrites (varsAt coldBoot quiet 1001) (quiet 1001)) ∧
      ∀ k, CheckerFires (varsAt coldBoot quiet k) (quiet k) →
        ∃ i ≤ k, (∀ m, i ≤ m → m ≤ k → Silent (quiet m)) ∧
          (quiet i).time + 10 ^ 6 ≤ (quiet k).time := by
  obtain ⟨hidle, hfires, -⟩ := signalChecker_timely coldBoot quiet quiet_paced
  exact ⟨hidle 0 1001 (fun k _ _ => quiet_silent k) (by decide) 1001 (le_refl _)
    (fun k _ _ => (quiet_silent k).not_consumes .jly), hfires⟩

/-! ## The stick alone does not restart the timer

Any channel restarts it, so a throttle channel that keeps sending keeps the rover moving. -/

/-- Once the stick is silent, a pause of one second on the other channels as well idles the motors,
whatever these channels deliver before and after it. -/
theorem idle_after_pause (b : Boot) (inp : ℕ → Input) (hp : Paced inp) {i j a c : ℕ}
    (hstick : ∀ k, i ≤ k → k ≤ j → ¬ Consumes .jlx (inp k) ∧ ¬ Consumes .jly (inp k))
    (hia : i ≤ a) (hcj : c ≤ j) (hpause : ∀ k, a ≤ k → k ≤ c → Silent (inp k))
    (hlong : (inp (a + 1)).time + 10 ^ 6 ≤ (inp c).time) :
    IdleFrontBack (loopWrites (varsAt b inp j) (inp j)) := by
  have hac : a ≤ c := by
    by_contra hlt
    have h := time_le (fun k => poll (inp k)) hp.increasing (by omega : c ≤ a + 1)
    simp only [poll] at h
    omega
  exact idle_after_silence b inp hp hpause hlong hcj
    (fun k hck hkj => (hstick k (by omega) hkj).2)

/-- All channels deliver once, with the stick forward. Then the throttle and mode channels go on
alone, pause from the fourth iteration to the eighth, and go on. -/
def pausing (k : ℕ) : Input where
  shared :=
    { bUpdateFlagsShared := if k = 0 then 15 else if 4 ≤ k ∧ k ≤ 8 then 0 else mthFlag ||| drvFlag
      inShared := fun c => if c = .jly then 2000 else if c = .drv then 1000 else 1500 }
  time := 400000 * k

theorem pausing_paced : Paced pausing :=
  ⟨fun k => by simp only [pausing]; omega, fun k => by simp only [pausing]; omega⟩

theorem pausing_stick (k : ℕ) (hk : 1 ≤ k) :
    ¬ Consumes .jlx (pausing k) ∧ ¬ Consumes .jly (pausing k) := by
  have hk0 : k ≠ 0 := by omega
  simp only [Consumes, pausing, if_neg hk0]
  split_ifs <;> decide

theorem pausing_silent (k : ℕ) (hk : 4 ≤ k ∧ k ≤ 8) : Silent (pausing k) := by
  have hk0 : k ≠ 0 := by omega
  simp only [Silent, pausing, if_neg hk0, if_pos hk]

/-- The rover stands though the throttle and mode channels deliver again. -/
theorem idle_after_pause_pausing :
    IdleFrontBack (loopWrites (varsAt coldBoot pausing 11) (pausing 11)) :=
  idle_after_pause coldBoot pausing pausing_paced (i := 1) (a := 4) (c := 8)
    (fun k hk _ => pausing_stick k hk) (by decide) (by decide)
    (fun k hk hk' => pausing_silent k ⟨hk, hk'⟩) (by decide)

example : (varsAt coldBoot pausing 4).power .left = 1760 := by decide +kernel

def throttleOnly (k : ℕ) : Input :=
  { shared :=
      { bUpdateFlagsShared := if k = 0 then 15 else mthFlag
        inShared := fun c => if c = .jly then 2000 else if c = .drv then 1000 else 1500 }
    time := 500000 * k }

theorem throttleOnly_paced : Paced throttleOnly :=
  ⟨fun k => by simp only [throttleOnly]; omega, fun k => by simp only [throttleOnly]; omega⟩

theorem throttleOnly_stick (k : ℕ) (hk : 1 ≤ k) :
    ¬ Consumes .jlx (throttleOnly k) ∧ ¬ Consumes .jly (throttleOnly k) ∧
      ¬ Silent (throttleOnly k) := by
  have hk0 : k ≠ 0 := by omega
  simp only [Consumes, Silent, throttleOnly, if_neg hk0]
  decide

theorem throttleOnly_power (n : ℕ) :
    (varsAt coldBoot throttleOnly (n + 1)).power .left = 1760 := by
  induction n with
  | zero => decide +kernel
  | succ n ih =>
    obtain ⟨-, hy, hs⟩ := throttleOnly_stick (n + 1) (by omega)
    rw [varsAt_succ, loop_power (varsAt_bUpdateFlags _ _ _), if_neg hy,
      if_neg (fun hf => hs hf.1), ih]

theorem stick_silence_not_idle :
    ¬ ∀ (b : Boot) (inp : ℕ → Input), Paced inp → ∀ i j,
      (∀ k, i ≤ k → k ≤ j → ¬ Consumes .jlx (inp k) ∧ ¬ Consumes .jly (inp k)) →
      (inp (i + 1)).time + 10 ^ 6 ≤ (inp j).time →
      IdleFrontBack (loopWrites (varsAt b inp j) (inp j)) := by
  intro hall
  have hidle := hall coldBoot throttleOnly throttleOnly_paced 1 4
    (fun k hk _ => ⟨(throttleOnly_stick k hk).1, (throttleOnly_stick k hk).2.1⟩) (by decide)
  have h := (idle_outputs _).mp hidle .left
  have hp := throttleOnly_power 4
  rw [varsAt_succ, loop, finish_power, h] at hp
  exact absurd hp (by decide)

end TitanRover.Drive
