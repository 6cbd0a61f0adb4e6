import TitanRover.Foundations.Mailbox
import TitanRover.Drive.Loop

/-! # T16_Drive: the interrupt handlers and the loop, interleaved

The loop is cut where a handler may run: its check of `bUpdateFlagsShared`, the block between
`noInterrupts()` and `interrupts()`, and the parts after it. A history lists the actions of handlers
and loop newest first, in any order. `handshake` says that the channels behave as mailboxes, and
`interleaving_refines` that what the loop does under any interleaving is a run of `loop`. -/
namespace TitanRover.Drive
open TitanRover.Arduino Foundations.Run Foundations.Mailbox
set_option autoImplicit false

/-! ## The handlers -/

/-- What the handlers write: the shared variables and the start times `ulJLYStart`, `ulJLXStart`,
`ulDRVStart`, `ulMTHStart`. -/
structure Radio where
  shared : Shared
  start : Channel → BitVec 32

/-- One handler: a rising edge stores the time, a falling edge publishes the width and its flag. -/
def edge (c : Channel) (high : Bool) (now : BitVec 32) (r : Radio) : Radio :=
  if high then { r with start := Function.update r.start c now }
  else
    { r with shared :=
      { bUpdateFlagsShared := r.shared.bUpdateFlagsShared ||| c.flag
        inShared := Function.update r.shared.inShared c ((now - r.start c).setWidth 16) } }

def calcJLY (high : Bool) (now : BitVec 32) (r : Radio) : Radio := edge .jly high now r
def calcJLX (high : Bool) (now : BitVec 32) (r : Radio) : Radio := edge .jlx high now r
def calcDRV (high : Bool) (now : BitVec 32) (r : Radio) : Radio := edge .drv high now r
def calcMTH (high : Bool) (now : BitVec 32) (r : Radio) : Radio := edge .mth high now r

/-- The handler `setup` attaches to each channel's pin. -/
def handler : Channel → Bool → BitVec 32 → Radio → Radio
  | .jly => calcJLY
  | .jlx => calcJLX
  | .drv => calcDRV
  | .mth => calcMTH

theorem handler_eq (c : Channel) : handler c = edge c := by cases c <;> rfl

/-! ## The interleaved system -/

inductive Phase where
  | check | block | powers | checker | outputs
  deriving DecidableEq

structure Sys where
  radio : Radio
  vars : Vars
  phase : Phase

/-- A handler runs, its pin read as `high` at true time `time`, or the loop takes its next step. -/
inductive Action where
  | interrupt (c : Channel) (high : Bool) (time : ℕ)
  | loopStep (time : ℕ)

def boot (b : Boot) : Sys where
  radio := { shared := { bUpdateFlagsShared := 0, inShared := fun _ => 0 }, start := fun _ => 0 }
  vars := setup b
  phase := .check

def clearShared (r : Radio) : Radio :=
  { r with shared := { r.shared with bUpdateFlagsShared := 0 } }

def act (s : Sys) : Action → Sys
  | .interrupt c high time => { s with radio := handler c high (micros time) s.radio }
  | .loopStep time =>
    match s.phase with
    | .check => { s with phase := if s.radio.shared.bUpdateFlagsShared ≠ 0 then .block else .powers }
    | .block =>
      { radio := clearShared s.radio, vars := block s.vars s.radio.shared, phase := .powers }
    | .powers => { s with vars := calcPowers s.vars, phase := .checker }
    | .checker => { s with vars := signalChecker s.vars (micros time), phase := .outputs }
    | .outputs => { s with vars := finish s.vars, phase := .check }

def after (b : Boot) : List Action → Sys
  | [] => boot b
  | a :: h => act (after b h) a

/-! ## What a history publishes and takes -/

def publishedWidth (s : Sys) (c : Channel) (time : ℕ) : BitVec 16 :=
  (micros time - s.radio.start c).setWidth 16

/-- The falling edges of a history as publications, its blocks as takes. -/
def ops (b : Boot) : List Action → List (Op Channel (BitVec 16))
  | [] => []
  | .interrupt c high time :: h =>
    if high then ops b h else .publish c (publishedWidth (after b h) c time) :: ops b h
  | .loopStep _ :: h => if (after b h).phase = .block then .take :: ops b h else ops b h

theorem flag_or (f : BitVec 8) (c d : Channel) :
    (f ||| c.flag) &&& d.flag ≠ 0 ↔ c = d ∨ f &&& d.flag ≠ 0 := by
  rw [BitVec.and_or_distrib_right]
  by_cases h : c = d
  · subst h
    cases c <;> simp [Channel.flag, jlyFlag, jlxFlag, drvFlag, mthFlag, BitVec.or_eq_zero_iff]
  · have hcd : c.flag &&& d.flag = 0 := by
      cases c <;> cases d <;> first | exact absurd rfl h | decide
    simp [hcd, h]

/-- The system shows a box: its slots, its pending marks and the loop's copies. -/
structure Shows (s : Sys) (box : Box Channel (BitVec 16)) : Prop where
  slot : ∀ c, s.radio.shared.inShared c = box.slot c
  pending : ∀ c, s.radio.shared.bUpdateFlagsShared &&& c.flag ≠ 0 ↔ box.pending c = true
  copy : ∀ c, s.vars.input c = box.copy c

theorem calcPowers_input (s : Vars) : (calcPowers s).input = s.input := by
  unfold calcPowers
  split_ifs <;> rfl

theorem signalChecker_input (s : Vars) (now : BitVec 32) :
    (signalChecker s now).input = s.input := by
  unfold signalChecker
  split_ifs <;> rfl

theorem shows_publish {s : Sys} {box : Box Channel (BitVec 16)} (h : Shows s box) (c : Channel)
    (time : ℕ) : Shows (act s (.interrupt c false time))
      (step box (.publish c (publishedWidth s c time))) := by
  have hact : act s (.interrupt c false time) =
      { s with radio := edge c false (micros time) s.radio } := by rw [act, handler_eq]
  rw [hact]
  refine ⟨?_, ?_, h.copy⟩
  · intro d
    by_cases hd : d = c
    · subst hd; simp [edge, step, publishedWidth]
    · simp [edge, step, Function.update_of_ne hd, h.slot d]
  · intro d
    have hflag := flag_or s.radio.shared.bUpdateFlagsShared c d
    by_cases hd : d = c
    · subst hd
      simpa [edge, step] using hflag.mpr (Or.inl rfl)
    · have hor := hflag.trans (or_iff_right (Ne.symm hd))
      simpa [edge, step, Function.update_of_ne hd] using hor.trans (h.pending d)

theorem shows_take {s : Sys} {box : Box Channel (BitVec 16)} (h : Shows s box)
    (hp : s.phase = .block) (time : ℕ) :
    Shows (act s (.loopStep time)) (step box .take) := by
  simp only [act, hp]
  refine ⟨h.slot, fun c => by simp [clearShared, step], ?_⟩
  intro c
  by_cases hc : s.radio.shared.bUpdateFlagsShared &&& c.flag ≠ 0
  · have hb := (h.pending c).mp hc
    simp only [block, step, if_pos hc, hb, if_true, h.slot c]
  · have hb : box.pending c = false := by
      rw [← Bool.not_eq_true, ← h.pending c]
      exact hc
    simp only [block, step, if_neg hc, hb, Bool.false_eq_true, if_false, h.copy c]

theorem shows_after (b : Boot) (h : List Action) :
    Shows (after b h) (Foundations.Mailbox.after 0 (ops b h)) := by
  induction h with
  | nil => exact ⟨fun _ => rfl, fun c => by simp [after, boot, ops, Foundations.Mailbox.after,
      Foundations.Mailbox.empty], fun _ => rfl⟩
  | cons a h ih =>
    cases a with
    | interrupt c high time =>
      cases high with
      | true =>
        have hact : after b (.interrupt c true time :: h) =
            { after b h with radio := edge c true (micros time) (after b h).radio } := by
          rw [after, act, handler_eq]
        rw [hact]
        exact ⟨ih.slot, ih.pending, ih.copy⟩
      | false => exact shows_publish ih c time
    | loopStep time =>
      by_cases hp : (after b h).phase = .block
      · rw [ops, if_pos hp]
        exact shows_take ih hp time
      · rw [ops, if_neg hp]
        refine ⟨?_, ?_, ?_⟩
        · intro c
          rw [← ih.slot c, after, act]
          split <;> rfl
        · intro c
          rw [← ih.pending c, after, act]
          split <;> first | rfl | contradiction
        · intro c
          rw [← ih.copy c, after, act]
          split
          · rfl
          · contradiction
          · exact congrFun (calcPowers_input _) c
          · exact congrFun (signalChecker_input _ _) c
          · rfl

/-! ## Pulse widths -/

def edges (c : Channel) : List Action → List (Bool × ℕ)
  | [] => []
  | .interrupt d high time :: h => if d = c then (high, time) :: edges c h else edges c h
  | .loopStep _ :: h => edges c h

/-- Edges, newest first, that alternate between high and low and began with high. -/
def Alternate : List (Bool × ℕ) → Prop
  | [] => True
  | [(high, _)] => high = true
  | (high, _) :: (high', t) :: l => high = !high' ∧ Alternate ((high', t) :: l)

theorem start_eq (b : Boot) (c : Channel) (h : List Action) (t : ℕ) (l : List (Bool × ℕ))
    (he : edges c h = (true, t) :: l) : (after b h).radio.start c = micros t := by
  induction h with
  | nil => simp [edges] at he
  | cons a h ih =>
    cases a with
    | interrupt d high time =>
      rw [after, act, handler_eq]
      by_cases hd : d = c
      · subst hd
        rw [edges, if_pos rfl] at he
        simp only [List.cons.injEq, Prod.mk.injEq] at he
        obtain ⟨⟨rfl, rfl⟩, -⟩ := he
        simp [edge]
      · rw [edges, if_neg hd] at he
        cases high with
        | true => simpa [edge, Function.update_of_ne (Ne.symm hd)] using ih he
        | false => exact ih he
    | loopStep time =>
      rw [edges] at he
      rw [← ih he, after, act]
      split <;> rfl

/-- A falling edge of a channel whose edges alternate publishes the true high time of its pulse,
however often `micros()` wrapped, as long as the time fits the width it is kept in. -/
theorem published_true_width (b : Boot) (c : Channel) (h : List Action) (t : ℕ)
    (ha : Alternate (edges c (.interrupt c false t :: h))) :
    ∃ t₀ l, edges c h = (true, t₀) :: l ∧
      (t₀ ≤ t → t - t₀ < 2 ^ 16 → (publishedWidth (after b h) c t).toNat = t - t₀) := by
  rw [edges, if_pos rfl] at ha
  cases he : edges c h with
  | nil => simp [he, Alternate] at ha
  | cons e l =>
    obtain ⟨high, t₀⟩ := e
    rw [he, Alternate] at ha
    have hhigh : high = true := by simpa using ha.1.symm
    subst hhigh
    refine ⟨t₀, l, rfl, fun hle hlt => ?_⟩
    rw [publishedWidth, start_eq b c h t₀ l he]
    exact Foundations.Clock.elapsed_truncated (by decide) hle hlt

/-- The block leaves the loop with the value last published on every channel. -/
theorem block_copies (b : Boot) {h : List Action} (hp : (after b h).phase = .block) (t : ℕ)
    (c : Channel) :
    (after b (.loopStep t :: h)).vars.input c = lastPublished 0 c (ops b h) := by
  have hops : ops b (.loopStep t :: h) = .take :: ops b h := by rw [ops, if_pos hp]
  rw [(shows_after b (.loopStep t :: h)).copy c, hops]
  exact (take_spec 0 c (ops b h)).1

theorem handshake (b : Boot) :
    (∀ h t, (after b h).phase = .block →
      (∀ c, (after b (.loopStep t :: h)).vars.input c = lastPublished 0 c (ops b h) ∧
        ((after b (.loopStep t :: h)).vars.bUpdateFlags &&& c.flag ≠ 0 ↔
          freshSince c (ops b h) = true)) ∧
      (after b (.loopStep t :: h)).radio.shared.bUpdateFlagsShared = 0) ∧
    (∀ h t, (after b h).phase = .check → (after b (.loopStep t :: h)).phase ≠ .block →
      ∀ c, freshSince c (ops b h) = false) ∧
    (∀ c h t, Alternate (edges c (.interrupt c false t :: h)) →
      ∃ t₀ l, edges c h = (true, t₀) :: l ∧
        (t₀ ≤ t → t - t₀ < 2 ^ 16 → (publishedWidth (after b h) c t).toNat = t - t₀)) := by
  refine ⟨?_, ?_, published_true_width b⟩
  · intro h t hp
    have hact : after b (.loopStep t :: h) =
        { radio := clearShared (after b h).radio
          vars := block (after b h).vars (after b h).radio.shared
          phase := .powers } := by simp only [after, act, hp]
    refine ⟨fun c => ⟨?_, ?_⟩, ?_⟩
    · exact block_copies b hp t c
    · rw [hact, ← pending_eq 0 c (ops b h)]
      exact (shows_after b h).pending c
    · rw [hact]
      rfl
  · intro h t hp hskip c
    have hflags : (after b h).radio.shared.bUpdateFlagsShared = 0 := by
      by_contra hne
      exact hskip (by simp only [after, act, hp]; rw [if_pos hne])
    have hpend := (shows_after b h).pending c
    rw [← pending_eq 0 c (ops b h), ← Bool.not_eq_true, ← hpend, hflags]
    simp

/-! ## The loop's part of an interleaving is a run of `loop` -/

/-- The shared variables as the check and the block of the current iteration found them. -/
def snapshot (b : Boot) : List Action → Shared
  | [] => (boot b).radio.shared
  | .interrupt _ _ _ :: h => snapshot b h
  | .loopStep _ :: h =>
    if (after b h).phase = .check ∨ (after b h).phase = .block then (after b h).radio.shared
    else snapshot b h

def checkTime (b : Boot) : List Action → ℕ
  | [] => 0
  | .interrupt _ _ _ :: h => checkTime b h
  | .loopStep time :: h => if (after b h).phase = .checker then time else checkTime b h

def inputs (b : Boot) : List Action → List Input
  | [] => []
  | .interrupt _ _ _ :: h => inputs b h
  | .loopStep _ :: h =>
    if (after b h).phase = .outputs then
      { shared := snapshot b h, time := checkTime b h } :: inputs b h
    else inputs b h

/-- The variables after iterations that read the given inputs, newest first. -/
def varsOf (b : Boot) (l : List Input) : Vars := l.foldr (fun i s => loop s i) (setup b)

def Between (b : Boot) (h : List Action) : Prop :=
  match (after b h).phase with
  | .check => (after b h).vars = varsOf b (inputs b h)
  | .block => (after b h).vars = varsOf b (inputs b h) ∧
      (after b h).radio.shared.bUpdateFlagsShared ≠ 0
  | .powers => (after b h).vars = readShared (varsOf b (inputs b h)) (snapshot b h)
  | .checker => (after b h).vars = calcPowers (readShared (varsOf b (inputs b h)) (snapshot b h))
  | .outputs => (after b h).vars =
      beforeOutputs (varsOf b (inputs b h)) { shared := snapshot b h, time := checkTime b h }

theorem edge_flags (c : Channel) (high : Bool) (now : BitVec 32) (r : Radio)
    (h : r.shared.bUpdateFlagsShared ≠ 0) : (edge c high now r).shared.bUpdateFlagsShared ≠ 0 := by
  cases high with
  | true => exact h
  | false =>
    intro he
    have hor : r.shared.bUpdateFlagsShared ||| c.flag = 0 := he
    rw [BitVec.ofNat_eq_ofNat, BitVec.or_eq_zero_iff] at hor
    exact h hor.1

theorem between_interrupt (b : Boot) (h : List Action) (c : Channel) (high : Bool) (time : ℕ)
    (ih : Between b h) : Between b (.interrupt c high time :: h) := by
  simp only [Between, after, act, handler_eq, inputs, snapshot, checkTime] at ih ⊢
  split
  · next hp => simpa only [hp] using ih
  · next hp =>
    simp only [hp] at ih
    exact ⟨ih.1, edge_flags c high _ _ ih.2⟩
  · next hp => simpa only [hp] using ih
  · next hp => simpa only [hp] using ih
  · next hp => simpa only [hp] using ih

theorem between_loopStep (b : Boot) (h : List Action) (time : ℕ) (ih : Between b h) :
    Between b (.loopStep time :: h) := by
  rw [Between] at ih
  cases hp : (after b h).phase with
  | check =>
    simp only [hp] at ih
    by_cases hf : (after b h).radio.shared.bUpdateFlagsShared ≠ 0
    · simp only [Between, after, act, hp, if_pos hf, inputs, reduceCtorEq, if_false]
      exact ⟨ih, hf⟩
    · simp only [Between, after, act, hp, if_neg hf, inputs, snapshot, reduceCtorEq, if_false,
        true_or, if_true]
      rw [ih, readShared, if_neg hf]
  | block =>
    simp only [hp] at ih
    simp only [Between, after, act, hp, inputs, snapshot, reduceCtorEq, if_false, or_true, if_true]
    rw [ih.1, readShared, if_pos ih.2]
  | powers =>
    simp only [hp] at ih
    simp only [Between, after, act, hp, inputs, snapshot, reduceCtorEq, if_false, or_self]
    rw [ih]
  | checker =>
    simp only [hp] at ih
    simp only [Between, after, act, hp, inputs, snapshot, checkTime, reduceCtorEq, if_false,
      or_self, if_true]
    rw [ih, beforeOutputs]
  | outputs =>
    simp only [hp] at ih
    simp only [Between, after, act, hp, inputs, if_true]
    rw [ih]
    rfl

theorem between_after (b : Boot) (h : List Action) : Between b h := by
  induction h with
  | nil => rfl
  | cons a h ih =>
    cases a with
    | interrupt c high time => exact between_interrupt b h c high time ih
    | loopStep time => exact between_loopStep b h time ih

/-- Whenever the loop is about to start an iteration, its variables are those of a run of `loop`
over what its completed iterations read, whatever the handlers did in between. -/
theorem interleaving_refines (b : Boot) (h : List Action) (hp : (after b h).phase = .check)
    (inp : ℕ → Input)
    (hinp : (List.range (inputs b h).length).map inp = (inputs b h).reverse) :
    (after b h).vars = varsAt b inp (inputs b h).length := by
  have hb := between_after b h
  rw [Between, hp] at hb
  rw [hb, varsAt, stateAt_eq_foldl, hinp, List.foldl_reverse, varsOf]

end TitanRover.Drive
