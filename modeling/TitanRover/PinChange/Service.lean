import TitanRover.Foundations.Run
import TitanRover.PinChange.Enabled

/-! # The interrupt routine among changing pins

`PCint` and the routines around it, cut at every access to a hardware register, while the pins of all
ports change at any moment. The hardware raises a port's flag in `PCIFR` when an enabled pin changes,
and a flag is cleared by writing a one to it. `PCint` clears its own flag with `PCIFR |= PCICRbit`,
which reads the whole register and writes back a one for every flag it found raised.

A change is lost when no flag is raised for it and no routine is about to look at the port.
`nothing_lost_iff` says that this happens at that store and nowhere else. -/
namespace TitanRover.PinChange
open Foundations
set_option autoImplicit false

/-! ## The processor and its pins -/

/-- Where the processor is in `PCint`: about to read `portInputReg` into `curr`, to compare it, in
the walk along the pins, about to test the port's flag, and in the middle of `PCIFR |= PCICRbit`. -/
inductive Point (P H : Type) where
  | main
  | read (q : P)
  | compare (q : P)
  | walk (q : P) (changed : Reg) (pins : List (PCintPin H))
  | test (q : P)
  | load (q : P)
  | store (q : P) (pcifr : Reg)

structure Sys (P H : Type) where
  lib : Lib P H
  portInputReg : P → Reg
  PCIFR : Reg
  curr : Reg
  point : Point P H

/-- The pins of a port change to `levels`, the interrupt of a port is taken, the processor takes its
next step in `PCint`, or it is busy with the main program. -/
inductive Action (P : Type) where
  | pins (q : P) (levels : Reg)
  | interrupt (q : P)
  | step
  | busy

section Processor
variable {P H : Type} [DecidableEq P] (b : Board P)

/-- The hardware's part of a change of pins. -/
def setPins (q : P) (levels : Reg) (s : Sys P H) : Sys P H :=
  { s with
    portInputReg := Function.update s.portInputReg q levels
    PCIFR :=
      if (s.portInputReg q ^^^ levels) &&& (s.lib.port q).portPCMask ≠ 0 then
        s.PCIFR ||| b.PCICRbit q
      else s.PCIFR }

/-- The hardware clears the flag of the interrupt it takes, and disables the others until the
routine returns. -/
def takeInterrupt (q : P) (s : Sys P H) : Sys P H :=
  match s.point with
  | .main =>
    if s.PCIFR &&& b.PCICRbit q ≠ 0 ∧ s.lib.PCICR &&& b.PCICRbit q ≠ 0 then
      { s with PCIFR := s.PCIFR &&& ~~~b.PCICRbit q, point := .read q }
    else s
  | _ => s

def stepPCint (s : Sys P H) : Sys P H :=
  match s.point with
  | .main => s
  | .read q => { s with curr := s.portInputReg q, point := .compare q }
  | .compare q =>
    { s with
      lib := s.lib.view q s.curr
      point := .walk q (changedPins (s.lib.port q) s.curr) (s.lib.port q).firstPin }
  | .walk q _ [] => { s with point := .test q }
  | .walk q changed (_ :: ps) => { s with point := .walk q changed ps }
  | .test q => { s with point := if s.PCIFR &&& b.PCICRbit q = 0 then .main else .load q }
  | .load q => { s with point := .store q s.PCIFR }
  | .store q pcifr =>
    { s with PCIFR := s.PCIFR &&& ~~~(pcifr ||| b.PCICRbit q), point := .read q }

def serve (s : Sys P H) : Action P → Sys P H
  | .pins q levels => setPins b q levels s
  | .interrupt q => takeInterrupt b q s
  | .step => stepPCint b s
  | .busy => s

/-- The function that the next step calls, with the level of the pin as `digitalRead` finds it. -/
def called (s : Sys P H) : Option (Call H × Bool) :=
  match s.point with
  | .walk q changed (p :: _) =>
    if p.mask &&& changed ≠ 0 then
      some (p.call s.curr, decide (s.portInputReg q &&& p.mask ≠ 0))
    else none
  | _ => none

/-! ## Changes that are lost -/

/-- The levels of a port that its next comparison takes for the old ones. -/
def viewOf (s : Sys P H) (q : P) : Reg :=
  match s.point with
  | .compare q' => if q' = q then s.curr else (s.lib.port q).lastPinView
  | _ => (s.lib.port q).lastPinView

/-- An enabled pin of the port has changed since the levels that its next comparison knows of. -/
def Outstanding (s : Sys P H) (q : P) : Prop :=
  (s.portInputReg q ^^^ viewOf s q) &&& (s.lib.port q).portPCMask ≠ 0

/-- The processor is on its way to read the levels of the port. -/
def WillRead (s : Sys P H) (q : P) : Prop :=
  match s.point with
  | .read q' => q' = q
  | .load q' => q' = q
  | .store q' _ => q' = q
  | _ => False

def Raised (s : Sys P H) (q : P) : Prop := s.PCIFR.getLsbD (b.pcindex q) = true

instance (s : Sys P H) (q : P) : Decidable (Raised b s q) := inferInstanceAs (Decidable (_ = _))

def NothingLost (s : Sys P H) : Prop :=
  ∀ q, Outstanding s q → Raised b s q ∨ WillRead s q

/-- A store to `PCIFR` does not write a one to the flag of another port with an outstanding change. -/
def SparesFlags (s : Sys P H) : Action P → Prop
  | .step =>
    match s.point with
    | .store q pcifr => ∀ q', q' ≠ q → Outstanding s q' → pcifr.getLsbD (b.pcindex q') = false
    | _ => True
  | _ => True

theorem outstanding_congr {s s' : Sys P H} {q : P}
    (hin : s'.portInputReg q = s.portInputReg q) (hview : viewOf s' q = viewOf s q)
    (hmask : (s'.lib.port q).portPCMask = (s.lib.port q).portPCMask) :
    Outstanding s' q ↔ Outstanding s q := by
  rw [Outstanding, Outstanding, hin, hview, hmask]

/-- Of two levels that differ, one differs from any third. -/
theorem outstanding_split {x y z mask : Reg} (h : (y ^^^ z) &&& mask ≠ 0) :
    (x ^^^ y) &&& mask ≠ 0 ∨ (x ^^^ z) &&& mask ≠ 0 := by
  obtain ⟨i, hi, hbit⟩ := (Bits.ne_zero_iff _).mp h
  simp only [BitVec.getLsbD_and, BitVec.getLsbD_xor, Bool.and_eq_true] at hbit
  by_cases hxy : x.getLsbD i = y.getLsbD i
  · refine Or.inr ((Bits.ne_zero_iff _).mpr ⟨i, hi, ?_⟩)
    simp only [BitVec.getLsbD_and, BitVec.getLsbD_xor, hxy, hbit.1, hbit.2, Bool.true_and]
  · refine Or.inl ((Bits.ne_zero_iff _).mpr ⟨i, hi, ?_⟩)
    simpa [hbit.2] using hxy

theorem pins_nothing_lost {s : Sys P H} (hs : NothingLost b s) (q : P) (levels : Reg) :
    NothingLost b (setPins b q levels s) := by
  intro q' hout
  have hkeep : Raised b s q' → Raised b (setPins b q levels s) q' := by
    intro hr
    change (if _ then s.PCIFR ||| b.PCICRbit q else s.PCIFR).getLsbD _ = true
    split_ifs
    · rw [BitVec.getLsbD_or, hr, Bool.true_or]
    · exact hr
  by_cases hq : q' = q
  · subst hq
    by_cases hold : Outstanding s q'
    · exact (hs q' hold).imp_left hkeep
    · have hnew : (s.portInputReg q' ^^^ levels) &&& (s.lib.port q').portPCMask ≠ 0 := by
        have hout' : (levels ^^^ viewOf s q') &&& (s.lib.port q').portPCMask ≠ 0 := by
          simpa [Outstanding, setPins, viewOf] using hout
        exact (outstanding_split hout').resolve_right hold
      refine Or.inl ?_
      rw [Raised, setPins, if_pos hnew, Board.PCICRbit, Bits.set_bit (b.pcindex_lt q')]
      simp
  · have hin : (setPins b q levels s).portInputReg q' = s.portInputReg q' := by
      simp [setPins, Function.update_of_ne hq]
    exact (hs q' ((outstanding_congr hin rfl rfl).mp hout)).imp_left hkeep

theorem interrupt_nothing_lost {s : Sys P H} (hs : NothingLost b s) (q : P) :
    NothingLost b (takeInterrupt b q s) := by
  unfold takeInterrupt
  split
  · next hpoint =>
    split_ifs
    · intro q' hout
      by_cases hq : q' = q
      · exact Or.inr hq.symm
      · have hold : Outstanding s q' := by
          simpa [Outstanding, viewOf, hpoint] using hout
        have hr : Raised b s q' := (hs q' hold).resolve_right (by simp [WillRead, hpoint])
        refine Or.inl ?_
        rw [Raised, Board.PCICRbit, Bits.clear_bit (b.pcindex_lt q'), hr]
        simpa using fun he => hq (b.pcindex_injective he).symm
    · exact hs
  · exact hs

/-- Nothing is lost by a step of the processor, unless it stores to `PCIFR`. -/
theorem step_nothing_lost {s : Sys P H} (hs : NothingLost b s)
    (hstore : ∀ q pcifr, s.point ≠ .store q pcifr) : NothingLost b (stepPCint b s) := by
  intro q' hout
  unfold stepPCint at hout ⊢
  cases hpoint : s.point with
  | main =>
    simp only [hpoint] at hout
    exact hs q' hout
  | read q =>
    simp only [hpoint] at hout ⊢
    by_cases hq : q' = q
    · subst hq
      simp [Outstanding, viewOf] at hout
    · have hold : Outstanding s q' := by
        simpa [Outstanding, viewOf, hpoint, Ne.symm hq] using hout
      exact Or.inl ((hs q' hold).resolve_right (by simpa [WillRead, hpoint] using Ne.symm hq))
  | compare q =>
    simp only [hpoint] at hout ⊢
    have hview : ((s.lib.view q s.curr).port q').lastPinView = viewOf s q' := by
      by_cases hq : q' = q
      · subst hq
        simp [Lib.view, Lib.setPort, viewOf, hpoint]
      · simp [Lib.view, Lib.setPort, Function.update_of_ne hq, viewOf, hpoint, Ne.symm hq]
    have hold : Outstanding s q' := by
      unfold Outstanding at hout ⊢
      rw [← hview, ← mask_view q q' s.curr s.lib]
      exact hout
    exact Or.inl ((hs q' hold).resolve_right (by simp [WillRead, hpoint]))
  | walk q changed ps =>
    have hold : Outstanding s q' := by
      cases ps <;> simpa [Outstanding, viewOf, hpoint] using hout
    have hr := (hs q' hold).resolve_right (by simp [WillRead, hpoint])
    cases ps <;> exact Or.inl hr
  | test q =>
    simp only [hpoint] at hout ⊢
    have hold : Outstanding s q' := by
      split_ifs at hout <;> simpa [Outstanding, viewOf, hpoint] using hout
    exact Or.inl ((hs q' hold).resolve_right (by simp [WillRead, hpoint]))
  | load q =>
    simp only [hpoint] at hout ⊢
    have hold : Outstanding s q' := by
      simpa [Outstanding, viewOf, hpoint] using hout
    exact (hs q' hold).imp_right (fun hr => by simpa [WillRead, hpoint] using hr)
  | store q pcifr => exact absurd hpoint (hstore q pcifr)

/-- A store loses a change exactly when it writes a one to the flag of another port that has one. -/
theorem store_nothing_lost_iff {s : Sys P H} (hs : NothingLost b s) {q : P} {pcifr : Reg}
    (hpoint : s.point = .store q pcifr) :
    NothingLost b (stepPCint b s) ↔
      ∀ q', q' ≠ q → Outstanding s q' → pcifr.getLsbD (b.pcindex q') = false := by
  have hstate : stepPCint b s =
      { s with PCIFR := s.PCIFR &&& ~~~(pcifr ||| b.PCICRbit q), point := .read q } := by
    simp only [stepPCint, hpoint]
  have hout : ∀ q', Outstanding (stepPCint b s) q' ↔ Outstanding s q' := by
    intro q'
    rw [hstate]
    exact outstanding_congr rfl (by simp [viewOf, hpoint]) rfl
  have hraised : ∀ q', q' ≠ q → Outstanding s q' →
      (Raised b (stepPCint b s) q' ↔ pcifr.getLsbD (b.pcindex q') = false) := by
    intro q' hq hold
    have hr : Raised b s q' :=
      (hs q' hold).resolve_right (by simpa [WillRead, hpoint] using Ne.symm hq)
    have hbit : (b.PCICRbit q).getLsbD (b.pcindex q') = false := by
      rw [Board.PCICRbit, BitVec.getLsbD_twoPow]
      simpa using fun _ he => hq (b.pcindex_injective he).symm
    rw [hstate, Raised, BitVec.getLsbD_and, BitVec.getLsbD_not, BitVec.getLsbD_or, hr, hbit]
    simp [b.pcindex_lt q']
  constructor
  · intro h q' hq hold
    refine (hraised q' hq hold).mp ((h q' ((hout q').mpr hold)).resolve_right ?_)
    rw [hstate]
    exact fun he => hq he.symm
  · intro h q' ho
    by_cases hq : q' = q
    · refine Or.inr ?_
      rw [hstate]
      exact hq.symm
    · have hold := (hout q').mp ho
      exact Or.inl ((hraised q' hq hold).mpr (h q' hq hold))

theorem nothing_lost_step {s : Sys P H} (hs : NothingLost b s) (a : Action P) :
    NothingLost b (serve b s a) ↔ SparesFlags b s a := by
  cases a with
  | pins q levels => exact iff_of_true (pins_nothing_lost b hs q levels) trivial
  | interrupt q => exact iff_of_true (interrupt_nothing_lost b hs q) trivial
  | step =>
    cases hpoint : s.point with
    | store q pcifr =>
      simp only [SparesFlags, hpoint]
      exact store_nothing_lost_iff b hs hpoint
    | _ =>
      simp only [SparesFlags, hpoint, iff_true]
      exact step_nothing_lost b hs (by simp [hpoint])
  | busy => exact iff_of_true hs trivial

/-! ## Runs -/

/-- The processor when `setup` has attached its pins and no pin has moved since. -/
def started (h : List (Op P H)) (input : P → Reg) (pcifr : Reg) : Sys P H where
  lib := after b h
  portInputReg := input
  PCIFR := pcifr
  curr := 0
  point := .main

theorem started_nothing_lost {h : List (Op P H)} {input : P → Reg} (pcifr : Reg)
    (hquiet : ∀ q, ((after b h).port q).portPCMask = 0 ∨
      ((after b h).port q).lastPinView = input q) : NothingLost b (started b h input pcifr) := by
  intro q hout
  refine absurd ?_ hout
  rcases hquiet q with h0 | hview
  · simp [started, h0]
  · simp [started, viewOf, hview]

def sysAt (s : Sys P H) (actions : ℕ → Action P) (n : ℕ) : Sys P H :=
  Run.stateAt (serve b) s actions n

/-- In a run that begins with nothing lost, nothing is ever lost exactly when every store to
`PCIFR` spares the flags of the other ports that have an outstanding change. -/
theorem nothing_lost_iff {s : Sys P H} (hs : NothingLost b s) (actions : ℕ → Action P) :
    (∀ n, NothingLost b (sysAt b s actions n)) ↔
      ∀ n, SparesFlags b (sysAt b s actions n) (actions n) :=
  Run.always_iff (serve b) s actions (P := fun _ s => NothingLost b s)
    (Q := fun _ s a => SparesFlags b s a) hs
    (fun n hn => nothing_lost_step b hn (actions n))

end Processor

end TitanRover.PinChange
