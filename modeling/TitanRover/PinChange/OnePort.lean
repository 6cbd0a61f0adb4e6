import TitanRover.PinChange.Delivery

/-! # Sketches whose pins are all on one port

With one port in use no other port's flag can be wiped, so that nothing is lost whenever the pins
change. All sketches of the rover but `T16_Drive.ino` have their receiver on one port. -/
namespace TitanRover.PinChange
open Foundations
set_option autoImplicit false

section OnePort
variable {P H : Type} [DecidableEq P] (b : Board P)

/-- Every call of the library was about pins of the port `q`. -/
def OnPort (q : P) (h : List (Op P H)) : Prop :=
  ∀ op ∈ h, match op with
    | .attach arduinoPin _ _ _ _ => b.digitalPinToPort arduinoPin = some q
    | .detach arduinoPin => b.digitalPinToPort arduinoPin = some q
    | .round q' _ => q' = q

omit [DecidableEq P] in
theorem listening_of_onPort {q q' : P} (hq : q' ≠ q) {h : List (Op P H)} (hon : OnPort b q h)
    {pin : Pin} (hpin : b.digitalPinToPort pin = some q') : listening b pin h = false := by
  induction h with
  | nil => rfl
  | cons op h ih =>
    have hrest := ih (fun op' hop' => hon op' (List.mem_cons_of_mem op hop'))
    have hop := hon op List.mem_cons_self
    cases op with
    | attach arduinoPin userFunc mode new input =>
      have hne : arduinoPin ≠ pin := by
        rintro rfl
        exact hq (Option.some.inj (hpin.symm.trans hop))
      rw [listening, hrest, Bool.false_or, decide_eq_false_iff_not]
      exact fun hc => hne hc.1
    | detach arduinoPin => rw [listening, hrest, ite_self]
    | round q'' curr => exact hrest

theorem mask_of_onPort (hJ : b.usesPortJ = false) {q q' : P} (hq : q' ≠ q) {h : List (Op P H)}
    (hon : OnPort b q h) : ((after b h).port q').portPCMask = 0 := by
  by_contra hmask
  obtain ⟨pin, hpin, hnow⟩ := (mask_ne_zero_iff b hJ h q').mp hmask
  rw [listening_of_onPort b hq hon hpin] at hnow
  cases hnow

theorem disabled_of_onPort (hJ : b.usesPortJ = false) {q q' : P} (hq : q' ≠ q)
    {h : List (Op P H)} (hon : OnPort b q h) :
    (after b h).PCICR.getLsbD (b.pcindex q') = false := by
  rw [Bool.eq_false_iff, ne_eq, PCICR_bit_iff b hJ, not_not]
  exact mask_of_onPort b hJ hq hon

theorem mask_afterRounds (h : List (Op P H)) (rs : List (P × Reg)) (q : P) :
    ((after b (afterRounds h rs)).port q).portPCMask = ((after b h).port q).portPCMask := by
  induction rs generalizing h with
  | nil => rfl
  | cons r rs ih =>
    have hstep : afterRounds h (r :: rs) = afterRounds (.round r.1 r.2 :: h) rs := by
      simp [afterRounds]
    rw [hstep, ih, after, act, round, mask_view]

theorem PCICR_afterRounds (h : List (Op P H)) (rs : List (P × Reg)) :
    (after b (afterRounds h rs)).PCICR = (after b h).PCICR := by
  induction rs generalizing h with
  | nil => rfl
  | cons r rs ih =>
    have hstep : afterRounds h (r :: rs) = afterRounds (.round r.1 r.2 :: h) rs := by
      simp [afterRounds]
    rw [hstep, ih]
    rfl

/-- The routine that the processor is in, if any, serves the port `q`. -/
def Serves (s : Sys P H) (q : P) : Prop :=
  match s.point with
  | .main => True
  | .read q' => q' = q
  | .compare q' => q' = q
  | .walk q' _ _ => q' = q
  | .test q' => q' = q
  | .load q' => q' = q
  | .store q' _ => q' = q

theorem serves_step {s : Sys P H} {q : P} (hs : Serves s q)
    (hoff : ∀ q', q' ≠ q → s.lib.PCICR.getLsbD (b.pcindex q') = false) (a : Action P) :
    Serves (serve b s a) q := by
  cases a with
  | interrupt q' =>
    cases hp : s.point with
    | main =>
      simp only [serve, takeInterrupt, hp]
      split_ifs with hc
      · by_contra hq
        have hbit := (Bits.test_bit _ _).mp hc.2
        rw [hoff q' hq] at hbit
        cases hbit
      · exact hs
    | _ => simpa only [serve, takeInterrupt, hp] using hs
  | step =>
    unfold Serves at hs
    cases hp : s.point with
    | main => simp only [serve, stepPCint, hp, Serves]
    | walk q' changed ps =>
      simp only [hp] at hs
      cases ps <;> simpa only [serve, stepPCint, hp, Serves] using hs
    | test q' =>
      simp only [hp] at hs
      simp only [serve, stepPCint, hp, Serves]
      split_ifs
      · trivial
      · exact hs
    | _ =>
      simp only [hp] at hs
      simpa only [serve, stepPCint, hp, Serves] using hs
  | pins q' levels => exact hs
  | busy => exact hs

theorem serves_run (hJ : b.usesPortJ = false) {q : P} {h : List (Op P H)} (hon : OnPort b q h)
    (input : P → Reg) (pcifr : Reg) (actions : ℕ → Action P) (n : ℕ) :
    Serves (sysAt b (started b h input pcifr) actions n) q := by
  induction n with
  | zero => trivial
  | succ n ih =>
    refine serves_step b ih (fun q' hq => ?_) (actions n)
    rw [(delivers_run b h input pcifr actions n).lib, PCICR_afterRounds]
    exact disabled_of_onPort b hJ hq hon

theorem spares_of_onPort (hJ : b.usesPortJ = false) {q : P} {h : List (Op P H)}
    (hon : OnPort b q h) (input : P → Reg) (pcifr : Reg) (actions : ℕ → Action P) (n : ℕ) :
    SparesFlags b (sysAt b (started b h input pcifr) actions n) (actions n) := by
  have hserves := serves_run b hJ hon input pcifr actions n
  unfold SparesFlags
  split
  · split
    · next q' v hp =>
      intro q'' hq'' hout
      rw [Serves, hp] at hserves
      rw [hserves] at hq''
      refine absurd ?_ hout
      rw [(delivers_run b h input pcifr actions n).lib, mask_afterRounds,
        mask_of_onPort b hJ hq'' hon, BitVec.ofNat_eq_ofNat, BitVec.and_zero]
    · trivial
  · trivial

/-- A sketch whose pins are all on one port misses nothing, whenever its pins change: whenever the
processor is at rest, the function of every pin attached in mode `CHANGE` has been told levels that
alternate and end with the level that the pin has. -/
theorem one_port_told (hJ : b.usesPortJ = false) {q : P} {h : List (Op P H)} (hon : OnPort b q h)
    {input : P → Reg} (hquiet : ((after b h).port q).lastPinView = input q) (pcifr : Reg)
    (actions : ℕ → Action P) (n : ℕ)
    (hrest : (sysAt b (started b h input pcifr) actions n).point = .main)
    (hflag : ¬ Raised b (sysAt b (started b h input pcifr) actions n) q) {pin : Pin} {f : H}
    (hpin : b.digitalPinToPort pin = some q) (hf : functionOf b pin h = some f)
    (harmed : ∀ high, armed b pin high h = true) :
    let told := (toldTo b (started b h input pcifr) actions pin n).map (·.pinState)
    (seen b pin h :: told).IsChain (· ≠ ·) ∧
      told.getLastD (seen b pin h) =
        ((sysAt b (started b h input pcifr) actions n).portInputReg q).getLsbD (b.place pin) := by
  have hstart : NothingLost b (started b h input pcifr) := by
    refine started_nothing_lost b pcifr (fun q' => ?_)
    by_cases hq : q' = q
    · exact Or.inr (hq ▸ hquiet)
    · exact Or.inl (mask_of_onPort b hJ hq hon)
  exact ⟨told_alternates b input pcifr actions n hpin hf harmed,
    told_at_rest b hJ actions hpin hf harmed hstart
      (fun k _ => spares_of_onPort b hJ hon input pcifr actions k) hrest hflag⟩

end OnePort

/-- The line of the button goes up, its interrupt is taken, and the routine runs to its end. -/
def press : ℕ → Action UnoPort
  | 0 => .pins .B 1
  | 1 => .interrupt .B
  | _ + 2 => .step

theorem one_port_told_press :
    let told := (toldTo uno (started uno button unoLow 0) press 8 7).map (·.pinState)
    (seen uno 8 button :: told).IsChain (· ≠ ·) ∧
      told.getLastD (seen uno 8 button) =
        ((sysAt uno (started uno button unoLow 0) press 7).portInputReg .B).getLsbD
          (uno.place 8) := by
  refine one_port_told uno rfl ?_ rfl 0 press 7 rfl (by decide) rfl rfl (by decide)
  intro op hop
  rw [button, List.mem_singleton] at hop
  subst hop
  rfl

example : (toldTo uno (started uno button unoLow 0) press 8 7).map (·.pinState) = [true] := by
  decide

end TitanRover.PinChange
