import TitanRover.PinChange.Reports
import TitanRover.PinChange.Service

/-! # What the functions have been told when the processor comes to rest

The rounds of a run of the processor are rounds of the library, and the calls made are those of the
rounds, up to the ones still to be made in the round under way. Whenever no flag of a port is raised
and no routine runs, every armed pin's function has been told the level that its pin has now. -/
namespace TitanRover.PinChange
open Foundations
set_option autoImplicit false

section Delivery
variable {P H : Type} [DecidableEq P] (b : Board P)

/-! ## Rounds and calls of a run -/

/-- The round that a step begins. -/
def begun (s : Sys P H) : Action P → Option (P × Reg)
  | .step =>
    match s.point with
    | .compare q => some (q, s.curr)
    | _ => none
  | _ => none

/-- The call that a step makes. -/
def made (s : Sys P H) : Action P → Option (Call H × Bool)
  | .step => called s
  | _ => none

def roundsAt (s : Sys P H) (actions : ℕ → Action P) (n : ℕ) : List (P × Reg) :=
  Run.outputs (serve b) s actions begun n

def callsAt (s : Sys P H) (actions : ℕ → Action P) (n : ℕ) : List (Call H × Bool) :=
  Run.outputs (serve b) s actions made n

/-- The calls of rounds, oldest first, that follow the history `h`. -/
def callsOf (h : List (Op P H)) : List (P × Reg) → List (Call H)
  | [] => []
  | r :: rs => (round r.1 r.2 (after b h)).2 ++ callsOf (.round r.1 r.2 :: h) rs

theorem callsOf_append (h : List (Op P H)) (rs : List (P × Reg)) (r : P × Reg) :
    callsOf b h (rs ++ [r]) =
      callsOf b h rs ++ (round r.1 r.2 (after b (afterRounds h rs))).2 := by
  induction rs generalizing h with
  | nil => simp [callsOf, afterRounds]
  | cons a rs ih =>
    have hstep : afterRounds h (a :: rs) = afterRounds (.round a.1 a.2 :: h) rs := by
      simp [afterRounds]
    rw [List.cons_append, callsOf, ih, callsOf, List.append_assoc, hstep]

theorem filter_callsOf (h : List (Op P H)) (pin : Pin) (rs : List (P × Reg)) :
    (callsOf b h rs).filter (fun c => c.arduinoPin = pin) = callsTo b pin h rs := by
  induction rs generalizing h with
  | nil => rfl
  | cons r rs ih => rw [callsOf, callsTo, List.filter_append, ih]

/-- The calls still to be made in the round under way. -/
def pending (s : Sys P H) : List (Call H) :=
  match s.point with
  | .walk _ changed ps => walk changed s.curr ps
  | _ => []

theorem pending_of_called {s : Sys P H} {c : Call H × Bool} (hc : called s = some c) :
    pending s = c.1 :: pending (stepPCint b s) := by
  unfold called at hc
  split at hc
  · next q changed p ps hpoint =>
    split_ifs at hc with hp
    rw [Option.some.injEq] at hc
    subst hc
    simp only [pending, stepPCint, hpoint, walk, if_pos hp]
  · cases hc

theorem pending_of_not_called {s : Sys P H} (hc : called s = none)
    (hpoint : ∀ q, s.point ≠ .compare q) : pending (stepPCint b s) = pending s := by
  unfold called at hc
  cases hp : s.point with
  | compare q => exact absurd hp (hpoint q)
  | walk q changed ps =>
    cases ps with
    | nil => simp [pending, stepPCint, hp, walk]
    | cons p ps =>
      simp only [hp, ite_eq_right_iff, reduceCtorEq, imp_false] at hc
      simp only [pending, stepPCint, hp, walk, if_neg hc]
  | test q =>
    simp only [pending, stepPCint, hp]
    split_ifs <;> rfl
  | _ => simp [pending, stepPCint, hp]

/-- The library is as its rounds leave it, and the calls made and pending are those of the rounds. -/
structure Delivers (h : List (Op P H)) (rs : List (P × Reg)) (cs : List (Call H × Bool))
    (s : Sys P H) : Prop where
  lib : s.lib = after b (afterRounds h rs)
  calls : cs.map Prod.fst ++ pending s = callsOf b h rs

omit [DecidableEq P] in
theorem lib_takeInterrupt (q : P) (s : Sys P H) : (takeInterrupt b q s).lib = s.lib := by
  unfold takeInterrupt
  split
  · split_ifs <;> rfl
  · rfl

omit [DecidableEq P] in
theorem pending_takeInterrupt (q : P) (s : Sys P H) :
    pending (takeInterrupt b q s) = pending s := by
  unfold takeInterrupt
  split
  · next hp =>
    split_ifs
    · simp [pending, hp]
    · rfl
  · rfl

/-- The comparison begins a round: the library is as the round leaves it, and all its calls are to
be made. -/
theorem delivers_compare {h : List (Op P H)} {rs : List (P × Reg)} {cs : List (Call H × Bool)}
    {s : Sys P H} (hs : Delivers b h rs cs s) {q : P} (hp : s.point = .compare q) :
    Delivers b h (rs ++ [(q, s.curr)]) cs (stepPCint b s) := by
  have hround : round q s.curr s.lib = (s.lib.view q s.curr, pending (stepPCint b s)) := by
    simp only [round, pending, stepPCint, hp]
  have hbefore : pending s = [] := by simp [pending, hp]
  have hcalls := hs.calls
  rw [hbefore, List.append_nil] at hcalls
  constructor
  · rw [afterRounds_append, after, act, ← hs.lib, hround]
    simp only [stepPCint, hp]
  · rw [callsOf_append, ← hcalls, ← hs.lib, hround]

theorem delivers_step {h : List (Op P H)} {rs : List (P × Reg)} {cs : List (Call H × Bool)}
    {s : Sys P H} (hs : Delivers b h rs cs s) (a : Action P) :
    Delivers b h (rs ++ (begun s a).toList) (cs ++ (made s a).toList) (serve b s a) := by
  cases a with
  | pins q levels => simpa [begun, made] using ⟨hs.lib, hs.calls⟩
  | busy => simpa [begun, made] using ⟨hs.lib, hs.calls⟩
  | interrupt q =>
    simp only [begun, made, Option.toList_none, List.append_nil]
    refine ⟨(lib_takeInterrupt b q s).trans hs.lib, ?_⟩
    rw [serve, pending_takeInterrupt]
    exact hs.calls
  | step =>
    by_cases hpoint : ∃ q, s.point = .compare q
    · obtain ⟨q, hp⟩ := hpoint
      simp only [begun, made, called, hp, serve, Option.toList_none, List.append_nil,
        Option.toList_some]
      exact delivers_compare b hs hp
    · have hbegun : begun s .step = none := by
        cases hp : s.point with
        | compare q => exact absurd ⟨q, hp⟩ hpoint
        | _ => simp [begun, hp]
      have hlib : (stepPCint b s).lib = s.lib := by
        cases hp : s.point with
        | compare q => exact absurd ⟨q, hp⟩ hpoint
        | walk q changed ps => cases ps <;> simp [stepPCint, hp]
        | _ => simp [stepPCint, hp]
      rw [hbegun, Option.toList_none, List.append_nil]
      refine ⟨hlib.trans hs.lib, ?_⟩
      cases hc : called s with
      | none =>
        rw [made, hc, Option.toList_none, List.append_nil, serve,
          pending_of_not_called b hc (fun q hp => hpoint ⟨q, hp⟩)]
        exact hs.calls
      | some c =>
        rw [made, hc, Option.toList_some, List.map_append, List.append_assoc, serve, ← hs.calls,
          pending_of_called b hc]
        rfl

theorem delivers_run (h : List (Op P H)) (input : P → Reg) (pcifr : Reg) (actions : ℕ → Action P)
    (n : ℕ) : Delivers b h (roundsAt b (started b h input pcifr) actions n)
      (callsAt b (started b h input pcifr) actions n)
      (sysAt b (started b h input pcifr) actions n) := by
  induction n with
  | zero => exact ⟨rfl, rfl⟩
  | succ n ih => exact delivers_step b ih (actions n)

/-! ## Alternation -/

/-- The calls of the function of a pin so far. -/
def toldTo (s : Sys P H) (actions : ℕ → Action P) (pin : Pin) (n : ℕ) : List (Call H) :=
  ((callsAt b s actions n).map Prod.fst).filter (fun c => c.arduinoPin = pin)

/-- At any moment of a run, the levels that a function attached in mode `CHANGE` has been told
alternate, from the one seen at its attachment on. -/
theorem told_alternates {h : List (Op P H)} (input : P → Reg) (pcifr : Reg)
    (actions : ℕ → Action P) (n : ℕ) {q : P} {pin : Pin} {f : H}
    (hpin : b.digitalPinToPort pin = some q) (hf : functionOf b pin h = some f)
    (harmed : ∀ high, armed b pin high h = true) :
    (seen b pin h :: (toldTo b (started b h input pcifr) actions pin n).map
      (·.pinState)).IsChain (· ≠ ·) := by
  have hcalls := (delivers_run b h input pcifr actions n).calls
  have hchain := List.isChain_destutter' (· ≠ ·)
    (samples b q pin (roundsAt b (started b h input pcifr) actions n)) (seen b pin h)
  rw [← callsTo_levels b hpin hf harmed, ← filter_callsOf, ← hcalls, List.filter_append,
    List.map_append, ← List.cons_append] at hchain
  exact hchain.left_of_append

theorem callsOf_function {h : List (Op P H)} {rs : List (P × Reg)} {c : Call H}
    (hc : c ∈ callsOf b h rs) : functionOf b c.arduinoPin h = some c.PCintFunc := by
  induction rs generalizing h with
  | nil => cases hc
  | cons r rs ih =>
    rw [callsOf, List.mem_append, round_answers b h r.1 r.2, List.mem_filterMap] at hc
    rcases hc with ⟨pin, -, hanswer⟩ | hrest
    · exact answer_function b hanswer
    · exact ih (h := .round r.1 r.2 :: h) hrest

/-- Only attached functions are called, each for the pin it is attached to. -/
theorem made_function {h : List (Op P H)} {input : P → Reg} {pcifr : Reg}
    {actions : ℕ → Action P} {n : ℕ} {c : Call H × Bool}
    (hc : c ∈ callsAt b (started b h input pcifr) actions n) :
    functionOf b c.1.arduinoPin h = some c.1.PCintFunc := by
  have hcalls := (delivers_run b h input pcifr actions n).calls
  have hmem : c.1 ∈ (callsAt b (started b h input pcifr) actions n).map Prod.fst ++
      pending (sysAt b (started b h input pcifr) actions n) :=
    List.mem_append_left _ (List.mem_map_of_mem hc)
  rw [hcalls] at hmem
  exact callsOf_function b hmem

/-! ## Undisturbed routines -/

/-- No pin of a port changes between the routine's reading of the port and its last call. -/
def Undisturbed (s : Sys P H) : Action P → Prop
  | .pins q _ =>
    match s.point with
    | .compare q' => q' ≠ q
    | .walk q' _ _ => q' ≠ q
    | _ => True
  | _ => True

/-- The levels that the routine works on are still the port's. -/
def Fresh (s : Sys P H) : Prop :=
  match s.point with
  | .compare q => s.curr = s.portInputReg q
  | .walk q _ _ => s.curr = s.portInputReg q
  | _ => True

theorem fresh_step {s : Sys P H} (hs : Fresh s) {a : Action P} (ha : Undisturbed s a) :
    Fresh (serve b s a) := by
  cases a with
  | pins q levels =>
    unfold Fresh at hs ⊢
    unfold Undisturbed at ha
    change match s.point with | .compare q' => _ | .walk q' _ _ => _ | _ => True
    cases hp : s.point with
    | compare q' =>
      simp only [hp] at hs ha ⊢
      change s.curr = Function.update s.portInputReg q levels q'
      rw [Function.update_of_ne ha, hs]
    | walk q' changed ps =>
      simp only [hp] at hs ha ⊢
      change s.curr = Function.update s.portInputReg q levels q'
      rw [Function.update_of_ne ha, hs]
    | _ => trivial
  | interrupt q =>
    cases hp : s.point with
    | main =>
      simp only [serve, takeInterrupt, hp]
      split_ifs
      · trivial
      · exact hs
    | _ => simpa only [serve, takeInterrupt, hp] using hs
  | step =>
    unfold Fresh at hs
    cases hp : s.point with
    | read q => simp [serve, stepPCint, hp, Fresh]
    | compare q =>
      simp only [hp] at hs
      simpa [serve, stepPCint, hp, Fresh] using hs
    | walk q changed ps =>
      simp only [hp] at hs
      cases ps with
      | nil => simp [serve, stepPCint, hp, Fresh]
      | cons p ps => simpa [serve, stepPCint, hp, Fresh] using hs
    | test q =>
      simp only [serve, stepPCint, hp, Fresh]
      split_ifs <;> trivial
    | _ => simp [serve, stepPCint, hp, Fresh]
  | busy => exact hs

omit [DecidableEq P] in
theorem called_fresh {s : Sys P H} (hs : Fresh s) {c : Call H × Bool} (hc : called s = some c) :
    c.2 = c.1.pinState := by
  unfold called at hc
  split at hc
  · next q changed p ps hpoint =>
    simp only [Fresh, hpoint] at hs
    split_ifs at hc
    rw [Option.some.injEq] at hc
    rw [← hc, PCintPin.call, hs]
  · cases hc

/-- In an undisturbed run every function that reads its pin finds the level it is called for. -/
theorem calls_undisturbed {h : List (Op P H)} {input : P → Reg} {pcifr : Reg}
    {actions : ℕ → Action P} {n : ℕ}
    (hcalm : ∀ k, k < n →
      Undisturbed (sysAt b (started b h input pcifr) actions k) (actions k)) :
    ∀ c ∈ callsAt b (started b h input pcifr) actions n, c.2 = c.1.pinState := by
  have hfresh : ∀ k, k ≤ n → Fresh (sysAt b (started b h input pcifr) actions k) := by
    intro k hk
    induction k with
    | zero => trivial
    | succ k ih => exact fresh_step b (ih (by omega)) (hcalm k (by omega))
  have hprefix : ∀ k, k ≤ n → ∀ c ∈ callsAt b (started b h input pcifr) actions k,
      c.2 = c.1.pinState := by
    intro k hk
    induction k with
    | zero => exact fun c hc => absurd hc List.not_mem_nil
    | succ k ih =>
      intro c hc
      rw [callsAt, Run.outputs, List.mem_append] at hc
      rcases hc with hold | hnew
      · exact ih (by omega) c hold
      · rw [Option.mem_toList] at hnew
        cases ha : actions k with
        | step =>
          rw [ha] at hnew
          exact called_fresh (hfresh k (by omega)) hnew
        | _ =>
          rw [ha] at hnew
          cases hnew
  exact hprefix n le_rfl

/-! ## At rest -/

theorem armed_masked_at {h : List (Op P H)} {input : P → Reg} {pcifr : Reg}
    (hJ : b.usesPortJ = false) (actions : ℕ → Action P) (n : ℕ) {q : P} {pin : Pin} {high : Bool}
    (hpin : b.digitalPinToPort pin = some q) (harmed : armed b pin high h = true) :
    ((sysAt b (started b h input pcifr) actions n).lib.port q).portPCMask.getLsbD (b.place pin) =
      true := by
  rw [(delivers_run b h input pcifr actions n).lib]
  rw [mask_bit b hJ _ hpin]
  exact listening_of_armed b (by rwa [armed_afterRounds])

/-- With no flag raised and no routine running, the level seen last of an armed pin is its level. -/
theorem seen_at_rest {h : List (Op P H)} {input : P → Reg} {pcifr : Reg}
    (hJ : b.usesPortJ = false) (actions : ℕ → Action P) {n : ℕ} {q : P} {pin : Pin} {high : Bool}
    (hpin : b.digitalPinToPort pin = some q) (harmed : armed b pin high h = true)
    (hlost : NothingLost b (sysAt b (started b h input pcifr) actions n))
    (hrest : (sysAt b (started b h input pcifr) actions n).point = .main)
    (hflag : ¬ Raised b (sysAt b (started b h input pcifr) actions n) q) :
    ((sysAt b (started b h input pcifr) actions n).portInputReg q).getLsbD (b.place pin) =
      seen b pin (afterRounds h (roundsAt b (started b h input pcifr) actions n)) := by
  have hnot : ¬ Outstanding (sysAt b (started b h input pcifr) actions n) q := by
    intro hout
    rcases hlost q hout with hr | hr
    · exact hflag hr
    · simp [WillRead, hrest] at hr
  have hmask : ((sysAt b (started b h input pcifr) actions n).lib.port q).portPCMask.getLsbD
      (b.place pin) = true := armed_masked_at b hJ actions n hpin harmed
  have hview := (represents_after b (afterRounds h
    (roundsAt b (started b h input pcifr) actions n)) q).view pin hpin
  rw [← (delivers_run b h input pcifr actions n).lib] at hview
  rw [← hview]
  by_contra hne
  refine hnot ((Bits.ne_zero_iff _).mpr ⟨b.place pin, b.place_lt pin, ?_⟩)
  simp only [BitVec.getLsbD_and, BitVec.getLsbD_xor, viewOf, hrest, hmask, Bool.and_true]
  simpa using hne

/-- In a run whose stores to `PCIFR` spare the other ports' flags, whenever the processor is at rest
the function of a pin attached in mode `CHANGE` was last told the level that the pin has. -/
theorem told_at_rest {h : List (Op P H)} {input : P → Reg} {pcifr : Reg}
    (hJ : b.usesPortJ = false) (actions : ℕ → Action P) {n : ℕ} {q : P} {pin : Pin} {f : H}
    (hpin : b.digitalPinToPort pin = some q) (hf : functionOf b pin h = some f)
    (harmed : ∀ high, armed b pin high h = true)
    (hstart : NothingLost b (started b h input pcifr))
    (hspares : ∀ k, k < n →
      SparesFlags b (sysAt b (started b h input pcifr) actions k) (actions k))
    (hrest : (sysAt b (started b h input pcifr) actions n).point = .main)
    (hflag : ¬ Raised b (sysAt b (started b h input pcifr) actions n) q) :
    ((toldTo b (started b h input pcifr) actions pin n).map (·.pinState)).getLastD
        (seen b pin h) =
      ((sysAt b (started b h input pcifr) actions n).portInputReg q).getLsbD (b.place pin) := by
  have hlost : NothingLost b (sysAt b (started b h input pcifr) actions n) :=
    Run.persists (serve b) _ actions (P := fun _ s => NothingLost b s) (Nat.zero_le n) hstart
      (fun k _ hk hs => (nothing_lost_step b hs (actions k)).mpr (hspares k hk))
  have hcalls := (delivers_run b h input pcifr actions n).calls
  have hpending : pending (sysAt b (started b h input pcifr) actions n) = [] := by
    simp [pending, hrest]
  rw [hpending, List.append_nil] at hcalls
  have htold : toldTo b (started b h input pcifr) actions pin n =
      callsTo b pin h (roundsAt b (started b h input pcifr) actions n) := by
    rw [← filter_callsOf, ← hcalls, toldTo]
  have hedges := callsTo_levels b hpin hf harmed
    (roundsAt b (started b h input pcifr) actions n)
  rw [htold, seen_at_rest b hJ actions hpin (harmed true) hlost hrest hflag,
    seen_afterRounds b hpin, getLastD_of_destutter' hedges.symm]

end Delivery

end TitanRover.PinChange
