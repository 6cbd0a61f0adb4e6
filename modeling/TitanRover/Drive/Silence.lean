import TitanRover.Drive.Firmware
import TitanRover.Drive.SignalChecker

/-! # T16_Drive: the radio falls silent

When no handler sees its line fall any more, the marks of what the handlers published are gone by
the end of the second pass of the loop, wherever the loop was, and from then on every pass finds
nothing. Between any two passes that end a second or more after this the front and back motors are
idle, on the board with its interrupt routines and under any interleaving of handlers and loop. -/
namespace TitanRover.Drive
open Foundations
set_option autoImplicit false

/-! ## The passes since a point of a history -/

def Falls : Action → Prop
  | .interrupt _ high _ => high = false
  | .loopStep _ => False

variable (b : Boot) (old : List Action)

/-- What the passes that ended after `old` read, newest first. -/
def since : List Action → List Input
  | [] => []
  | .interrupt _ _ _ :: h => since h
  | .loopStep _ :: h =>
    if (after b (h ++ old)).phase = .outputs then
      { shared := snapshot b (h ++ old), time := checkTime b (h ++ old) } :: since h
    else since h

theorem inputs_append (h : List Action) : inputs b (h ++ old) = since b old h ++ inputs b old := by
  induction h with
  | nil => rfl
  | cons a h ih =>
    cases a with
    | interrupt c high time => exact ih
    | loopStep time =>
      rw [List.cons_append, inputs, since]
      split_ifs
      · rw [ih, List.cons_append]
      · exact ih

/-- What the handlers left is taken in the second pass at the latest. -/
structure Settling (h : List Action) : Prop where
  cleared : 1 ≤ (since b old h).length →
    (after b (h ++ old)).phase ≠ .check ∧ (after b (h ++ old)).phase ≠ .block →
      (after b (h ++ old)).radio.shared.bUpdateFlagsShared = 0
  still : 2 ≤ (since b old h).length →
    (after b (h ++ old)).radio.shared.bUpdateFlagsShared = 0 ∧
      (after b (h ++ old)).phase ≠ .block ∧
      ((after b (h ++ old)).phase ≠ .check → (snapshot b (h ++ old)).bUpdateFlagsShared = 0)
  silent : ∀ i ∈ (since b old h).take ((since b old h).length - 2), Silent i

variable {b old}

theorem settling_interrupt {h : List Action} (hs : Settling b old h) (c : Channel) (time : ℕ) :
    Settling b old (.interrupt c true time :: h) := by
  have hact : after b (.interrupt c true time :: h ++ old) =
      { after b (h ++ old) with radio := edge c true (micros time) (after b (h ++ old)).radio } := by
    rw [List.cons_append, after, act, handler_eq]
  constructor
  · rw [hact]
    exact hs.cleared
  · rw [hact]
    exact hs.still
  · exact hs.silent

/-- The steps between the read and the end of a pass touch nothing that the handlers share. -/
theorem settling_private {h : List Action} (hs : Settling b old h) (time : ℕ)
    (hp : (after b (h ++ old)).phase = .powers ∨ (after b (h ++ old)).phase = .checker) :
    Settling b old (.loopStep time :: h) := by
  have hact : after b (.loopStep time :: (h ++ old)) = act (after b (h ++ old)) (.loopStep time) :=
    rfl
  have hsnap : snapshot b (.loopStep time :: (h ++ old)) = snapshot b (h ++ old) :=
    if_neg (by rcases hp with hp | hp <;> simp [hp])
  have hsince : since b old (.loopStep time :: h) = since b old h := by
    rcases hp with hp | hp <;> simp [since, hp]
  have hcleared := hs.cleared
  have hstill := hs.still
  constructor
  · rcases hp with hp | hp <;> simpa [hact, act, hp, hsince] using hcleared
  · rcases hp with hp | hp <;> simpa [hact, act, hp, hsince, hsnap] using hstill
  · rw [hsince]
    exact hs.silent

/-- The end of a pass adds what the pass read: nothing, from the third pass on. -/
theorem settling_outputs {h : List Action} (hs : Settling b old h) (time : ℕ)
    (hp : (after b (h ++ old)).phase = .outputs) : Settling b old (.loopStep time :: h) := by
  have hact : after b (.loopStep time :: (h ++ old)) = act (after b (h ++ old)) (.loopStep time) :=
    rfl
  have hsince : since b old (.loopStep time :: h) =
      { shared := snapshot b (h ++ old), time := checkTime b (h ++ old) } :: since b old h := by
    simp [since, hp]
  constructor
  · intro _ hphase
    simp [hact, act, hp] at hphase
  · intro hlen
    rw [hsince, List.length_cons] at hlen
    have hzero := hs.cleared (Nat.le_of_succ_le_succ hlen) (by simp [hp])
    simpa [hact, act, hp] using hzero
  · intro i hi
    rw [hsince, List.length_cons] at hi
    by_cases hlen : 2 ≤ (since b old h).length
    · rw [Nat.sub_add_comm hlen, List.take_succ_cons] at hi
      rcases List.mem_cons.mp hi with rfl | hi
      · exact (hs.still hlen).2.2 (by rw [hp]; decide)
      · exact hs.silent i hi
    · have h0 : (since b old h).length + 1 - 2 = 0 := by omega
      rw [h0] at hi
      exact absurd hi List.not_mem_nil

theorem settling_loopStep {h : List Action} (hs : Settling b old h) (time : ℕ) :
    Settling b old (.loopStep time :: h) := by
  have hact : after b (.loopStep time :: (h ++ old)) = act (after b (h ++ old)) (.loopStep time) :=
    rfl
  cases hp : (after b (h ++ old)).phase with
  | check =>
    have hsince : since b old (.loopStep time :: h) = since b old h := by simp [since, hp]
    have hsnap : snapshot b (.loopStep time :: (h ++ old)) = (after b (h ++ old)).radio.shared :=
      if_pos (Or.inl hp)
    by_cases hf : (after b (h ++ old)).radio.shared.bUpdateFlagsShared ≠ 0
    · constructor
      · intro _ hphase
        have hblock : (after b (.loopStep time :: (h ++ old))).phase = .block := by
          simp only [hact, act, hp]
          exact if_pos hf
        exact absurd hblock hphase.2
      · intro hlen
        rw [hsince] at hlen
        exact absurd (hs.still hlen).1 hf
      · rw [hsince]
        exact hs.silent
    · rw [not_not] at hf
      constructor
      · simp [hact, act, hp, hf]
      · simp [hact, act, hp, hf, hsnap]
      · rw [hsince]
        exact hs.silent
  | block =>
    have hsince : since b old (.loopStep time :: h) = since b old h := by simp [since, hp]
    constructor
    · simp [hact, act, hp, clearShared]
    · intro hlen
      rw [hsince] at hlen
      exact absurd hp (hs.still hlen).2.1
    · rw [hsince]
      exact hs.silent
  | powers => exact settling_private hs time (Or.inl hp)
  | checker => exact settling_private hs time (Or.inr hp)
  | outputs => exact settling_outputs hs time hp

theorem settling {h : List Action} (hquiet : ∀ a ∈ h, ¬ Falls a) : Settling b old h := by
  induction h with
  | nil =>
    constructor
    · exact fun h0 => absurd h0 (Nat.not_succ_le_zero 0)
    · exact fun h0 => absurd h0 (Nat.not_succ_le_zero 1)
    · exact fun i hi => absurd hi List.not_mem_nil
  | cons a h ih =>
    have hs := ih fun a' ha' => hquiet a' (List.mem_cons_of_mem a ha')
    cases a with
    | interrupt c high time =>
      have hhigh : high = true := Bool.eq_true_of_not_eq_false (hquiet _ List.mem_cons_self)
      rw [hhigh]
      exact settling_interrupt hs c time
    | loopStep time => exact settling_loopStep hs time

/-! ## The loop's passes as a run -/

/-- The time between two passes of the loop fits the clock. -/
def InPace (late early : Input) : Prop :=
  early.time < late.time ∧ late.time - early.time < 2 ^ 32 - 10 ^ 6

/-- The passes of a list, newest first, and then passes that find nothing, a microsecond apart. -/
def extend (last : Input) (rest : List Input) (k : ℕ) : Input :=
  if k ≤ rest.length then (last :: rest).getD (rest.length - k) last
  else { quiet 0 with time := last.time + (k - rest.length) }

variable {last : Input} {rest : List Input}

theorem extend_eq (last : Input) {k : ℕ} (hk : k ≤ rest.length) :
    (last :: rest)[rest.length - k]? = some (extend last rest k) := by
  have hlt : rest.length - k < (last :: rest).length := by
    rw [List.length_cons]
    omega
  rw [extend, if_pos hk, List.getD_eq_getElem _ _ hlt, List.getElem?_eq_getElem hlt]

theorem extend_last : extend last rest rest.length = last := by
  rw [extend, if_pos (le_refl _), Nat.sub_self]
  rfl

theorem extend_inPace (h : (last :: rest).IsChain InPace) (k : ℕ) :
    InPace (extend last rest (k + 1)) (extend last rest k) := by
  by_cases hk : k + 1 ≤ rest.length
  · have hlate := extend_eq last hk
    have hearly := extend_eq last (Nat.le_of_succ_le hk)
    have hidx : rest.length - k = rest.length - (k + 1) + 1 := by omega
    rw [hidx] at hearly
    obtain ⟨h1, hlate⟩ := List.getElem?_eq_some_iff.mp hlate
    obtain ⟨h2, hearly⟩ := List.getElem?_eq_some_iff.mp hearly
    have hchain := List.isChain_iff_getElem.mp h _ h2
    rw [hlate, hearly] at hchain
    exact hchain
  · by_cases hlast : k = rest.length
    · rw [hlast, extend_last, extend, if_neg (by omega), Nat.add_sub_cancel_left]
      refine ⟨Nat.lt_succ_self _, ?_⟩
      rw [Nat.add_sub_cancel_left]
      decide
    · have hgap : k + 1 - rest.length = k - rest.length + 1 := by omega
      rw [extend, if_neg hk, extend, if_neg (by omega), hgap]
      refine ⟨Nat.lt_succ_self _, ?_⟩
      rw [← Nat.add_assoc, Nat.add_sub_cancel_left]
      decide

theorem extend_paced (h : (last :: rest).IsChain InPace) : Paced (extend last rest) where
  increasing k := (extend_inPace h k).1
  gap k := (extend_inPace h k).2

theorem extend_map : (List.range (last :: rest).length).map (extend last rest) =
    (last :: rest).reverse := by
  apply List.ext_getElem?
  intro k
  by_cases hk : k ≤ rest.length
  · have hlt : k < (last :: rest).length := Nat.lt_succ_of_le hk
    rw [List.getElem?_map, List.getElem?_range hlt, Option.map_some, List.getElem?_reverse hlt,
      ← extend_eq last hk, List.length_cons, Nat.add_sub_cancel]
  · rw [List.getElem?_eq_none (by simp; omega), List.getElem?_eq_none (by simp; omega)]

/-! ## The motors -/

theorem finish_escs_back (s : Vars) (d : Side) : (finish s).escs d.back = s.power d := by
  simp only [finish, outputs, setSpeedLeft, setSpeedRight, setSpeedSide, applyWrites]
  cases d <;> split_ifs <;> simp [Side.front, Side.back, Side.middle, Vars.power]

theorem idle_of_silence {h : List Action} (hquiet : ∀ a ∈ h, ¬ Falls a)
    (hcheck : (after b (h ++ old)).phase = .check) {mid : List Input}
    {fourth third second first : Input}
    (hnew : since b old h = last :: (mid ++ [fourth, third, second, first]))
    (hpace : (inputs b (h ++ old)).IsChain InPace) (hlong : fourth.time + 10 ^ 6 ≤ last.time)
    (d : Side) :
    (after b (h ++ old)).vars.escs d.front = 1500 ∧
      (after b (h ++ old)).vars.escs d.back = 1500 := by
  obtain ⟨rest, hrest⟩ : ∃ rest, rest = mid ++ [fourth, third, second, first] ++ inputs b old :=
    ⟨_, rfl⟩
  have hall : inputs b (h ++ old) = last :: rest := by
    rw [inputs_append, hnew, hrest, List.cons_append]
  have hlen : rest.length = mid.length + 4 + (inputs b old).length := by
    rw [hrest, List.length_append, List.length_append]
    rfl
  have hsince : (since b old h).length = mid.length + 5 := by
    rw [hnew, List.length_cons, List.length_append]
    rfl
  have hnewest : ∀ k, k < mid.length + 5 →
      (since b old h)[k]? = some (extend last rest (rest.length - k)) := by
    intro k hk
    have hidx : rest.length - (rest.length - k) = k := by omega
    rw [← extend_eq last (Nat.sub_le _ _), ← hall, inputs_append, hidx,
      List.getElem?_append_left (by omega)]
  have hsilent : ∀ k, (inputs b old).length + 2 ≤ k → k ≤ rest.length →
      Silent (extend last rest k) := by
    intro k hlow hhigh
    have hk := hnewest (rest.length - k) (by omega)
    rw [Nat.sub_sub_self hhigh] at hk
    apply (settling hquiet).silent
    rw [hsince]
    apply List.mem_of_getElem? (i := rest.length - k)
    rw [List.getElem?_take_of_lt (by omega), hk]
  have hfourth : extend last rest ((inputs b old).length + 3) = fourth := by
    have hk := hnewest (mid.length + 1) (by omega)
    have hidx : rest.length - (mid.length + 1) = (inputs b old).length + 3 := by omega
    rw [hidx, hnew, List.getElem?_cons_succ, List.getElem?_append_right (le_refl _),
      Nat.sub_self] at hk
    exact (Option.some.inj hk).symm
  have hidle := idle_after_silence b (extend last rest) (extend_paced (hall ▸ hpace))
    (i := (inputs b old).length + 2) (j := rest.length) hsilent
    (by rw [extend_last, hfourth]; exact hlong) (le_refl _)
    (fun k hj hm => (hsilent k (by omega) hm).not_consumes .jly)
  have hrun := interleaving_refines b (h ++ old) hcheck (extend last rest)
    (by rw [hall]; exact extend_map)
  rw [hall, List.length_cons, varsAt_succ, loop] at hrun
  rw [hrun, finish_escs_front, finish_escs_back]
  exact ⟨(idle_outputs _).mp hidle d, (idle_outputs _).mp hidle d⟩

/-! ## The firmware -/

section Firmware
variable (b : Boot) (input : PinChange.UnoPort → PinChange.Reg) (pcifr : PinChange.Reg)
  (events : ℕ → Event)

theorem history_since {N n : ℕ} (hNn : N ≤ n) :
    ∃ h, history b input pcifr events n = h ++ history b input pcifr events N ∧
      ∀ a ∈ h, ∃ k, N ≤ k ∧ k < n ∧
        driven (firmwareAt b input pcifr events k) (events k) = some a := by
  induction n, hNn using Nat.le_induction with
  | base => exact ⟨[], rfl, fun a ha => absurd ha List.not_mem_nil⟩
  | succ n hNn ih =>
    obtain ⟨h, hh, hmem⟩ := ih
    refine ⟨(driven (firmwareAt b input pcifr events n) (events n)).toList ++ h, ?_, ?_⟩
    · rw [history_succ, hh, List.append_assoc]
    · intro a ha
      rcases List.mem_append.mp ha with ha | ha
      · exact ⟨n, hNn, Nat.lt_succ_self n, Option.mem_toList.mp ha⟩
      · obtain ⟨k, hk, hkn, hdriven⟩ := hmem a ha
        exact ⟨k, hk, Nat.lt_succ_of_lt hkn, hdriven⟩

/-- In every run of the firmware in which, from some event on, no handler sees its line fall, the
front and back motors are idle whenever the loop is between two passes and its last pass read the
clock a second or more after the fourth pass since. -/
theorem silence_idles {N n : ℕ} (hNn : N ≤ n)
    (hquiet : ∀ k, N ≤ k → k < n → ∀ c time,
      driven (firmwareAt b input pcifr events k) (events k) ≠ some (.interrupt c false time))
    (hcheck : (firmwareAt b input pcifr events n).drive.phase = .check)
    {last fourth third second first : Input} {mid : List Input}
    (hpasses : inputs b (history b input pcifr events n) =
      last :: (mid ++ [fourth, third, second, first]) ++
        inputs b (history b input pcifr events N))
    (hpace : (inputs b (history b input pcifr events n)).IsChain InPace)
    (hlong : fourth.time + 10 ^ 6 ≤ last.time) (d : Side) :
    (firmwareAt b input pcifr events n).drive.vars.escs d.front = 1500 ∧
      (firmwareAt b input pcifr events n).drive.vars.escs d.back = 1500 := by
  obtain ⟨h, hh, hmem⟩ := history_since b input pcifr events hNn
  rw [firmware_drive] at hcheck ⊢
  rw [hh] at hcheck hpasses hpace ⊢
  rw [inputs_append] at hpasses
  refine idle_of_silence ?_ hcheck (List.append_cancel_right hpasses) hpace hlong d
  intro a ha hfalls
  obtain ⟨k, hk, hkn, hdriven⟩ := hmem a ha
  cases a with
  | interrupt c high time =>
    obtain rfl : high = false := hfalls
    exact hquiet k hk hkn c time hdriven
  | loopStep time => exact hfalls

end Firmware

/-- No pin moves, and the fifth pass comes a second late. -/
def noRadio (k : ℕ) : Event := .loopStep (if k < 16 then k else 10 ^ 6 + k)

def found (time : ℕ) : Input := { (quiet 0) with time := time }

theorem silence_idles_noRadio :
    (firmwareAt benchBoot PinChange.unoLow 0 noRadio 20).drive.vars.escs .fl = 1500 ∧
      (firmwareAt benchBoot PinChange.unoLow 0 noRadio 20).drive.vars.escs .bl = 1500 := by
  have hpasses : inputs benchBoot (history benchBoot PinChange.unoLow 0 noRadio 20) =
      [found (10 ^ 6 + 18), found 14, found 10, found 6, found 2] := rfl
  refine silence_idles benchBoot PinChange.unoLow 0 noRadio (Nat.zero_le 20) ?_ rfl
    (show _ = found (10 ^ 6 + 18) :: ([] ++ [found 14, found 10, found 6, found 2]) ++ _ from hpasses)
    ?_ ?_ .left
  · intro k _ _ c time h
    cases hp : (firmwareAt benchBoot PinChange.unoLow 0 noRadio k).service.point <;>
      simp only [driven, noRadio, hp, Option.some.injEq, reduceCtorEq] at h
  · rw [hpasses]
    simp [InPace, found]
  · decide

example : (firmwareAt benchBoot PinChange.unoLow 0 noRadio 16).drive.vars.escs .fl = 0 := rfl

end TitanRover.Drive
