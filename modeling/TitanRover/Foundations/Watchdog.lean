import TitanRover.Foundations.Run
import TitanRover.Foundations.Clock

/-! # A watchdog over a wrapping counter with an in-band unarmed mark

A polled loop arms a timer when a silence begins, and latches an expiry once the counter has moved
on by `T`. The start time is kept in `w` bits and `0` also stands for "not armed", so a silence
that begins when the counter shows exactly `0` is armed one poll later. The elapsed time falls
back below `T` each time the counter wraps; the latch keeps the expiry.

* `fires_sound`: an expiry is never early.
* `latched_of_silence`: a silence of at least `T` after its second poll ends latched, over any
  number of wraps, as long as two polls are less than `2 ^ w - T` apart.
* `latched_persists`: the latch holds until a poll that releases it. -/
namespace Foundations.Watchdog
open Foundations.Run Foundations.Clock
set_option autoImplicit false

/-- One pass of the polling loop: its true time, whether it found nothing, and whether what it
found releases the latch. -/
structure Poll where
  time : ℕ
  silent : Bool
  release : Bool

structure Timer (w : ℕ) where
  start : BitVec w
  latched : Bool

def Fires {w : ℕ} (T : ℕ) (s : Timer w) (p : Poll) : Prop :=
  p.silent = true ∧ s.start ≠ 0 ∧ T ≤ (read w p.time - s.start).toNat

instance {w : ℕ} (T : ℕ) (s : Timer w) (p : Poll) : Decidable (Fires T s p) :=
  inferInstanceAs (Decidable (_ ∧ _ ∧ _))

def step {w : ℕ} (T : ℕ) (s : Timer w) (p : Poll) : Timer w :=
  if p.silent then
    if s.start = 0 then { s with start := read w p.time }
    else if T ≤ (read w p.time - s.start).toNat then { s with latched := true }
    else s
  else { start := 0, latched := s.latched && !p.release }

def unarmed (w : ℕ) : Timer w := { start := 0, latched := false }

section Steps
variable {w T : ℕ} {s : Timer w} {p : Poll}

theorem step_arm (hp : p.silent = true) (h0 : s.start = 0) :
    step T s p = { s with start := read w p.time } := by
  rw [step, if_pos hp, if_pos h0]

theorem step_fire (h : Fires T s p) : step T s p = { s with latched := true } := by
  obtain ⟨hp, h0, hT⟩ := h
  rw [step, if_pos hp, if_neg h0, if_pos hT]

theorem step_wait (hp : p.silent = true) (h0 : s.start ≠ 0) (h : ¬ Fires T s p) :
    step T s p = s := by
  have hT : ¬ T ≤ (read w p.time - s.start).toNat := fun hT => h ⟨hp, h0, hT⟩
  rw [step, if_pos hp, if_neg h0, if_neg hT]

theorem step_active (hp : p.silent = false) :
    step T s p = { start := 0, latched := s.latched && !p.release } := by
  simp [step, hp]

theorem step_start (hp : p.silent = true) (h0 : s.start ≠ 0) : (step T s p).start = s.start := by
  by_cases h : Fires T s p
  · rw [step_fire h]
  · rw [step_wait hp h0 h]

theorem step_latched (hl : s.latched = true) (hr : p.silent = true ∨ p.release = false) :
    (step T s p).latched = true := by
  cases hp : p.silent with
  | false =>
    rw [step_active hp]
    have hr' : p.release = false := by simpa [hp] using hr
    simp [hl, hr']
  | true =>
    by_cases h0 : s.start = 0
    · rw [step_arm hp h0]
      exact hl
    · by_cases h : Fires T s p
      · rw [step_fire h]
      · rw [step_wait hp h0 h]
        exact hl

/-- A step that does not fire leaves the latch set only if it was set and is not released. -/
theorem latched_before (hl : (step T s p).latched = true) (hf : ¬ Fires T s p) :
    s.latched = true ∧ (p.silent = true ∨ p.release = false) := by
  cases hp : p.silent with
  | false =>
    rw [step_active hp] at hl
    simpa using hl
  | true =>
    refine ⟨?_, Or.inl rfl⟩
    by_cases h0 : s.start = 0
    · rwa [step_arm hp h0] at hl
    · rwa [step_wait hp h0 hf] at hl

end Steps

section Polling
variable {w T : ℕ} (inp : ℕ → Poll)

def timerAt (w T : ℕ) : ℕ → Timer w := stateAt (step T) (unarmed w) inp

theorem timerAt_succ (n : ℕ) : timerAt inp w T (n + 1) = step T (timerAt inp w T n) (inp n) := rfl

/-- Before poll `n`, the timer was armed at poll `a`, every poll since was silent, and unless the
expiry is latched the last of them is less than `T` after `a`. -/
structure Armed (w T n a : ℕ) : Prop where
  before : a < n
  start : (timerAt inp w T n).start = read w (inp a).time
  nonzero : (timerAt inp w T n).start ≠ 0
  silent : ∀ k, a ≤ k → k < n → (inp k).silent = true
  due : (inp (n - 1)).time < (inp a).time + T ∨ (timerAt inp w T n).latched = true

theorem armed_start (hT : 0 < T) {n : ℕ} (hp : (inp n).silent = true)
    (h0 : (timerAt inp w T n).start = 0) (hread : read w (inp n).time ≠ 0) :
    Armed inp w T (n + 1) n := by
  have hs := timerAt_succ (w := w) (T := T) inp n
  rw [step_arm hp h0] at hs
  refine ⟨Nat.lt_succ_self n, by rw [hs], by rw [hs]; exact hread, ?_, Or.inl ?_⟩
  · intro k hk hkn
    have hkn' : k = n := by omega
    rw [hkn']
    exact hp
  · rw [Nat.add_sub_cancel]
    omega

/-- What an armed timer says about the past, with no bound on the gaps. -/
theorem armed_since (n : ℕ) (h0 : (timerAt inp w T n).start ≠ 0) :
    ∃ a < n, (timerAt inp w T n).start = read w (inp a).time ∧
      ∀ k, a ≤ k → k < n → (inp k).silent = true := by
  induction n with
  | zero => exact absurd rfl h0
  | succ n ih =>
    cases hp : (inp n).silent with
    | false =>
      rw [timerAt_succ, step_active hp] at h0
      exact absurd rfl h0
    | true =>
      have hlast : ∀ a k, (∀ k, a ≤ k → k < n → (inp k).silent = true) → a ≤ k → k < n + 1 →
          (inp k).silent = true := by
        intro a k hk hak hkn
        by_cases hkn' : k = n
        · rw [hkn']
          exact hp
        · exact hk k hak (by omega)
      by_cases hz : (timerAt inp w T n).start = 0
      · refine ⟨n, Nat.lt_succ_self n, by rw [timerAt_succ, step_arm hp hz], ?_⟩
        exact fun k => hlast n k (fun k hk hkn => by omega)
      · obtain ⟨a, han, hs, hk⟩ := ih hz
        refine ⟨a, by omega, by rw [timerAt_succ, step_start hp hz]; exact hs, ?_⟩
        exact fun k => hlast a k hk

variable (hmono : ∀ k, (inp k).time < (inp (k + 1)).time)
include hmono

theorem time_le {m n : ℕ} (h : m ≤ n) : (inp m).time ≤ (inp n).time := by
  induction n with
  | zero =>
    have h0 : m = 0 := by omega
    rw [h0]
  | succ n ih =>
    by_cases hm : m = n + 1
    · rw [hm]
    · have h1 := ih (by omega)
      have h2 := hmono n
      omega

/-- A silent poll keeps the timer armed where it was. The gap bound is used here: the first poll
that is `T` after `a` still sees the elapsed time below the counter's range, so it fires. -/
theorem armed_step (hgap : ∀ k, (inp (k + 1)).time - (inp k).time < 2 ^ w - T) {n a : ℕ}
    (h : Armed inp w T n a) (hp : (inp n).silent = true) : Armed inp w T (n + 1) a := by
  have hbefore := h.before
  have hstart : (timerAt inp w T (n + 1)).start = (timerAt inp w T n).start := by
    rw [timerAt_succ, step_start hp h.nonzero]
  refine ⟨by omega, hstart.trans h.start, by rw [hstart]; exact h.nonzero, ?_, ?_⟩
  · intro k hk hkn
    by_cases hkn' : k = n
    · rw [hkn']
      exact hp
    · exact h.silent k hk (by omega)
  · rw [Nat.add_sub_cancel]
    by_cases hdue : (inp n).time < (inp a).time + T
    · exact Or.inl hdue
    · right
      rw [timerAt_succ]
      rcases h.due with hlast | hl
      · have hle := time_le inp hmono (by omega : a ≤ n)
        have hg := hgap (n - 1)
        rw [Nat.sub_add_cancel (by omega : 1 ≤ n)] at hg
        have hfit : (inp n).time - (inp a).time < 2 ^ w := by omega
        have hel := elapsed_exact w hle hfit
        have hfire : Fires T (timerAt inp w T n) (inp n) := by
          refine ⟨hp, h.nonzero, ?_⟩
          rw [h.start, hel]
          omega
        rw [step_fire hfire]
      · exact step_latched hl (Or.inl hp)

theorem fires_sound (n : ℕ) (h : Fires T (timerAt inp w T n) (inp n)) :
    ∃ a ≤ n, (∀ k, a ≤ k → k ≤ n → (inp k).silent = true) ∧
      (inp a).time + T ≤ (inp n).time := by
  obtain ⟨hp, h0, hT⟩ := h
  obtain ⟨a, han, hs, hk⟩ := armed_since inp n h0
  have hle := time_le inp hmono (Nat.le_of_lt han)
  rw [hs] at hT
  have hel := elapsed_le w hle
  refine ⟨a, Nat.le_of_lt han, ?_, by omega⟩
  intro k hak hkn
  by_cases hkn' : k = n
  · rw [hkn']
    exact hp
  · exact hk k hak (by omega)

variable (hgap : ∀ k, (inp (k + 1)).time - (inp k).time < 2 ^ w - T)
include hgap

theorem armed_of_start (hT : 0 < T) (n : ℕ) (h0 : (timerAt inp w T n).start ≠ 0) :
    ∃ a, Armed inp w T n a := by
  induction n with
  | zero => exact absurd rfl h0
  | succ n ih =>
    cases hp : (inp n).silent with
    | false =>
      rw [timerAt_succ, step_active hp] at h0
      exact absurd rfl h0
    | true =>
      by_cases hz : (timerAt inp w T n).start = 0
      · have hread : read w (inp n).time ≠ 0 := by
          rw [timerAt_succ, step_arm hp hz] at h0
          exact h0
        exact ⟨n, armed_start inp hT hp hz hread⟩
      · obtain ⟨a, ha⟩ := ih hz
        exact ⟨a, armed_step inp hmono hgap ha hp⟩

theorem armed_through {m n a : ℕ} (hmn : m ≤ n) (hm : Armed inp w T m a)
    (hp : ∀ k, m ≤ k → k < n → (inp k).silent = true) : Armed inp w T n a :=
  persists (step T) (unarmed w) inp (P := fun k _ => Armed inp w T k a) hmn hm
    (fun k hk hkn h => armed_step inp hmono hgap h (hp k hk hkn))

/-- Two silent polls arm the timer, even when the counter shows `0` at the first of them. -/
theorem armed_of_two (hT : 0 < T) (i : ℕ) (h1 : (inp i).silent = true)
    (h2 : (inp (i + 1)).silent = true) : ∃ a ≤ i + 1, Armed inp w T (i + 2) a := by
  by_cases hz : (timerAt inp w T i).start = 0
  · by_cases hread : read w (inp i).time = 0
    · have hz1 : (timerAt inp w T (i + 1)).start = 0 := by
        rw [timerAt_succ, step_arm h1 hz]
        exact hread
      have hlt := hmono i
      have hg := hgap i
      have hne := read_ne w hlt (by omega)
      rw [hread] at hne
      exact ⟨i + 1, le_refl _, armed_start inp hT h2 hz1 hne⟩
    · exact ⟨i, by omega, armed_step inp hmono hgap (armed_start inp hT h1 hz hread) h2⟩
  · obtain ⟨a, ha⟩ := armed_of_start inp hmono hgap hT i hz
    have h := armed_step inp hmono hgap (armed_step inp hmono hgap ha h1) h2
    exact ⟨a, by have := ha.before; omega, h⟩

/-- If polls `i` to `j` are silent and the last comes `T` after the second,
the expiry is latched after poll `j`. -/
theorem latched_of_silence (hT : 0 < T) {i j : ℕ}
    (hp : ∀ k, i ≤ k → k ≤ j → (inp k).silent = true)
    (hlong : (inp (i + 1)).time + T ≤ (inp j).time) :
    (timerAt inp w T (j + 1)).latched = true := by
  have hij : i + 1 < j := by
    by_contra hlt
    have h := time_le inp hmono (by omega : j ≤ i + 1)
    omega
  obtain ⟨a, hai, ha⟩ := armed_of_two inp hmono hgap hT i (hp i (by omega) (by omega))
    (hp (i + 1) (by omega) (by omega))
  have hj : Armed inp w T (j + 1) a := armed_through inp hmono hgap (by omega) ha
    (fun k hk hkj => hp k (by omega) (by omega))
  rcases hj.due with hlast | hl
  · rw [Nat.add_sub_cancel] at hlast
    have h := time_le inp hmono hai
    omega
  · exact hl

omit hmono hgap

theorem latched_persists {m n : ℕ} (hmn : m ≤ n) (hm : (timerAt inp w T m).latched = true)
    (hr : ∀ k, m ≤ k → k < n → (inp k).silent = true ∨ (inp k).release = false) :
    (timerAt inp w T n).latched = true :=
  persists (step T) (unarmed w) inp (P := fun _ s => s.latched = true) hmn hm
    (fun k hk hkn hl => step_latched hl (hr k hk hkn))

end Polling

end Foundations.Watchdog
