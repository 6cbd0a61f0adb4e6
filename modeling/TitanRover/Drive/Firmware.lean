import TitanRover.Drive.Interrupts
import TitanRover.PinChange.Delivery
import TitanRover.PinChange.Uno

/-! # T16_Drive on its board: pins, library, handlers and loop

The whole of the program as it runs: the pins of the receiver change, the library's interrupt
routines compare the ports and call the handlers, a handler reads its pin again with `digitalRead`,
and the loop takes its steps while no routine runs. The part of a run that `T16_Drive.ino` accounts
for is an interleaving of its handlers and its loop, and where no pin changes under a routine that
serves its port the edges that each handler sees alternate, as the pulse widths need. -/
namespace TitanRover.Drive
open Foundations
set_option autoImplicit false

/-! ## What `setup` attaches -/

/-- `JLX_IN_PIN`, `JLY_IN_PIN`, `DRV_IN_PIN` and `MTH_IN_PIN`. -/
def inPin : Channel → PinChange.Pin
  | .jlx => 7
  | .jly => 8
  | .drv => 12
  | .mth => 4

def attach (c : Channel) (input : PinChange.UnoPort → PinChange.Reg) :
    PinChange.Op PinChange.UnoPort Channel :=
  .attach (inPin c) (some c) (PinChange.change.setWidth 16) true input

/-- The attachments of `setup`, newest first, with the levels of the ports at that time. -/
def attachments (input : PinChange.UnoPort → PinChange.Reg) :
    List (PinChange.Op PinChange.UnoPort Channel) :=
  [attach .mth input, attach .drv input, attach .jlx input, attach .jly input]

def inPort : Channel → PinChange.UnoPort
  | .jlx => .D
  | .jly => .B
  | .drv => .B
  | .mth => .D

theorem inPin_port (c : Channel) : PinChange.uno.digitalPinToPort (inPin c) = some (inPort c) := by
  cases c <;> rfl

theorem functionOf_inPin (c : Channel) (input : PinChange.UnoPort → PinChange.Reg) :
    PinChange.functionOf PinChange.uno (inPin c) (attachments input) = some c := by
  cases c <;> rfl

theorem armed_inPin (c : Channel) (high : Bool) (input : PinChange.UnoPort → PinChange.Reg) :
    PinChange.armed PinChange.uno (inPin c) high (attachments input) = true := by
  cases c <;> cases high <;> rfl

/-- Only the receiver's pins have a handler, each its own. -/
theorem inPin_of_functionOf {pin : PinChange.Pin} {c : Channel}
    {input : PinChange.UnoPort → PinChange.Reg}
    (h : PinChange.functionOf PinChange.uno pin (attachments input) = some c) : pin = inPin c := by
  rcases PinChange.functionOf_attach _ h with ⟨hpin, hc⟩ | h
  · rw [← hpin, Option.some.inj hc]
  rcases PinChange.functionOf_attach _ h with ⟨hpin, hc⟩ | h
  · rw [← hpin, Option.some.inj hc]
  rcases PinChange.functionOf_attach _ h with ⟨hpin, hc⟩ | h
  · rw [← hpin, Option.some.inj hc]
  rcases PinChange.functionOf_attach _ h with ⟨hpin, hc⟩ | h
  · rw [← hpin, Option.some.inj hc]
  · cases h

/-! ## The firmware -/

structure Firmware where
  service : PinChange.Sys PinChange.UnoPort Channel
  drive : Sys

/-- The pins of a port change, an interrupt is taken, or the processor takes its next step in the
interrupt routine or in the loop, in which `micros()` reads `time`. -/
inductive Event where
  | pins (q : PinChange.UnoPort) (levels : PinChange.Reg)
  | interrupt (q : PinChange.UnoPort)
  | isrStep (time : ℕ)
  | loopStep (time : ℕ)

/-- What an event does in the sketch: a handler is called, or the loop moves on. -/
def driven (s : Firmware) : Event → Option Action
  | .isrStep time =>
    (PinChange.called s.service).map (fun c => .interrupt c.1.PCintFunc c.2 time)
  | .loopStep time =>
    match s.service.point with
    | .main => some (.loopStep time)
    | _ => none
  | _ => none

def served : Event → PinChange.Action PinChange.UnoPort
  | .pins q levels => .pins q levels
  | .interrupt q => .interrupt q
  | .isrStep _ => .step
  | .loopStep _ => .busy

def react (s : Firmware) (e : Event) : Firmware where
  service := PinChange.serve PinChange.uno s.service (served e)
  drive := (driven s e).elim s.drive (act s.drive)

def powerUp (b : Boot) (input : PinChange.UnoPort → PinChange.Reg) (pcifr : PinChange.Reg) :
    Firmware where
  service := PinChange.started PinChange.uno (attachments input) input pcifr
  drive := boot b

section Firmware
variable (b : Boot) (input : PinChange.UnoPort → PinChange.Reg) (pcifr : PinChange.Reg)
  (events : ℕ → Event)

def firmwareAt (n : ℕ) : Firmware := Run.stateAt react (powerUp b input pcifr) events n

/-- What a run does in the sketch, newest first. -/
def history (n : ℕ) : List Action :=
  (Run.outputs react (powerUp b input pcifr) events driven n).reverse

theorem history_succ (n : ℕ) : history b input pcifr events (n + 1) =
    (driven (firmwareAt b input pcifr events n) (events n)).toList ++
      history b input pcifr events n := by
  rw [history, Run.outputs, List.reverse_append]
  congr 1
  cases h : driven (Run.stateAt react (powerUp b input pcifr) events n) (events n) <;>
    simp [firmwareAt, h]

/-- The sketch's part of any run of the firmware is an interleaving of its handlers and its loop. -/
theorem firmware_drive (n : ℕ) :
    (firmwareAt b input pcifr events n).drive = after b (history b input pcifr events n) := by
  induction n with
  | zero => rfl
  | succ n ih =>
    rw [history_succ, firmwareAt, Run.stateAt_succ, react]
    change (driven (firmwareAt b input pcifr events n) (events n)).elim _ _ = _
    cases h : driven (firmwareAt b input pcifr events n) (events n) with
    | none => exact ih
    | some a =>
      change act (firmwareAt b input pcifr events n).drive a = _
      rw [ih]
      rfl

theorem firmware_service (n : ℕ) : (firmwareAt b input pcifr events n).service =
    PinChange.sysAt PinChange.uno
      (PinChange.started PinChange.uno (attachments input) input pcifr)
      (fun k => served (events k)) n :=
  Run.stateAt_map react (powerUp b input pcifr) events Firmware.service served
    (fun _ _ => rfl) n

/-! ## The edges the handlers see -/

def serviceActions (k : ℕ) : PinChange.Action PinChange.UnoPort := served (events k)

def calls (n : ℕ) : List (PinChange.Call Channel × Bool) :=
  PinChange.callsAt PinChange.uno
    (PinChange.started PinChange.uno (attachments input) input pcifr) (serviceActions events) n

theorem calls_succ (n : ℕ) : calls input pcifr events (n + 1) =
    calls input pcifr events n ++
      (PinChange.made (firmwareAt b input pcifr events n).service (served (events n))).toList := by
  rw [firmware_service]
  rfl

/-- The edges of a channel are the calls of its handler. -/
theorem edges_eq_calls (c : Channel) (n : ℕ) :
    (edges c (history b input pcifr events n)).map Prod.fst =
      (((calls input pcifr events n).filter (fun x => x.1.PCintFunc = c)).map Prod.snd).reverse := by
  induction n with
  | zero => rfl
  | succ n ih =>
    rw [history_succ, calls_succ b, List.filter_append, List.map_append, List.reverse_append, ← ih]
    cases he : events n with
    | isrStep time =>
      cases hc : PinChange.called (firmwareAt b input pcifr events n).service with
      | none => simp [driven, served, PinChange.made, hc]
      | some x =>
        by_cases hx : x.1.PCintFunc = c <;>
          simp [driven, served, PinChange.made, hc, edges, hx]
    | loopStep time =>
      cases hp : (firmwareAt b input pcifr events n).service.point <;>
        simp [driven, served, PinChange.made, hp, edges]
    | _ => simp [driven, served, PinChange.made]

theorem calls_pin (n : ℕ) {x : PinChange.Call Channel × Bool}
    (hx : x ∈ calls input pcifr events n) (c : Channel) :
    x.1.PCintFunc = c ↔ x.1.arduinoPin = inPin c := by
  have hf := PinChange.made_function PinChange.uno hx
  constructor
  · rintro rfl
    exact inPin_of_functionOf hf
  · intro hpin
    rw [hpin, functionOf_inPin, Option.some.injEq] at hf
    exact hf.symm

/-- Edges, newest first, that go up and down by turns. -/
def ByTurns (l : List (Bool × ℕ)) : Prop := (l.map Prod.fst).IsChain (· ≠ ·)

/-- No pin of a port changes while a routine serves the port. -/
def UndisturbedAt (n : ℕ) : Prop :=
  PinChange.Undisturbed (firmwareAt b input pcifr events n).service (served (events n))

theorem edges_byTurns (c : Channel) (n : ℕ)
    (hcalm : ∀ k, k < n → UndisturbedAt b input pcifr events k) :
    ByTurns (edges c (history b input pcifr events n)) := by
  have hchain := PinChange.told_alternates PinChange.uno input pcifr (serviceActions events) n
    (inPin_port c) (functionOf_inPin c input) (fun high => armed_inPin c high input)
  have hread : ∀ x ∈ calls input pcifr events n, x.2 = x.1.pinState := by
    apply PinChange.calls_undisturbed PinChange.uno
    intro k hk
    have h := hcalm k hk
    rw [UndisturbedAt, firmware_service] at h
    exact h
  have hsame : (((calls input pcifr events n).filter (fun x => x.1.PCintFunc = c)).map Prod.snd) =
      (PinChange.toldTo PinChange.uno
        (PinChange.started PinChange.uno (attachments input) input pcifr) (serviceActions events)
        (inPin c) n).map (·.pinState) := by
    rw [PinChange.toldTo, List.filter_map, List.map_map]
    change _ = ((calls input pcifr events n).filter _).map _
    have hfilter : (calls input pcifr events n).filter (fun x => x.1.PCintFunc = c) =
        (calls input pcifr events n).filter
          ((fun y => decide (y.arduinoPin = inPin c)) ∘ Prod.fst) := by
      apply List.filter_congr
      intro x hx
      rw [Function.comp_apply, decide_eq_decide]
      exact calls_pin input pcifr events n hx c
    rw [hfilter]
    apply List.map_congr_left
    intro x hx
    exact hread x (List.mem_of_mem_filter hx)
  rw [ByTurns, edges_eq_calls, hsame, List.isChain_reverse]
  exact hchain.tail.imp fun _ _ hne => hne.symm

/-! ## The widths the loop reads -/

/-- The high time of the last pulse that is over, from edges listed newest first. A pulse under way
when the handlers were attached counts from power-up. -/
def lastPulse : List (Bool × ℕ) → ℕ
  | [] => 0
  | (true, _) :: l => lastPulse l
  | [(false, t)] => t
  | (false, t) :: (_, t₀) :: _ => t - t₀

/-- Edges, newest first, in the order of their times. -/
def InOrder : List (Bool × ℕ) → Prop
  | [] => True
  | e :: l => (∀ e' ∈ l, e'.2 ≤ e.2) ∧ InOrder l

/-- Before its first edge the start time of a channel is 0. -/
theorem start_zero (b : Boot) (c : Channel) (h : List Action) (he : edges c h = []) :
    (after b h).radio.start c = micros 0 := by
  induction h with
  | nil => rfl
  | cons a h ih =>
    cases a with
    | interrupt d high time =>
      rw [edges] at he
      split_ifs at he with hd
      rw [after, act, handler_eq]
      cases high with
      | true => simpa [edge, Function.update_of_ne (Ne.symm hd)] using ih he
      | false => exact ih he
    | loopStep time =>
      rw [← ih he, after, act]
      split <;> rfl

theorem publishedWidth_toNat (b : Boot) (c : Channel) (h : List Action) {t t₀ : ℕ}
    (hstart : (after b h).radio.start c = micros t₀) (hle : t₀ ≤ t) :
    (publishedWidth (after b h) c t).toNat = (t - t₀) % 2 ^ 16 := by
  rw [publishedWidth, hstart, BitVec.toNat_setWidth]
  have helapsed := Foundations.Clock.elapsed_toNat 32 hle
  change (micros t - micros t₀).toNat = _ at helapsed
  rw [helapsed, Nat.mod_mod_of_dvd _ (by decide)]

/-- A falling edge publishes the high time of the pulse that it ends. -/
theorem published_eq (b : Boot) (c : Channel) (h : List Action) {t : ℕ}
    (halt : ByTurns ((false, t) :: edges c h)) (hord : InOrder ((false, t) :: edges c h)) :
    (publishedWidth (after b h) c t).toNat = lastPulse ((false, t) :: edges c h) % 2 ^ 16 := by
  cases he : edges c h with
  | nil =>
    rw [publishedWidth_toNat b c h (start_zero b c h he) (Nat.zero_le t), lastPulse, Nat.sub_zero]
  | cons e l =>
    obtain ⟨high, t₀⟩ := e
    rw [he] at halt hord
    have hne : false ≠ high := (List.isChain_cons_cons.mp halt).1
    obtain rfl : high = true := Bool.eq_true_of_not_eq_false hne.symm
    rw [publishedWidth_toNat b c h (start_eq b c h t₀ l he) (hord.1 _ List.mem_cons_self),
      lastPulse]

theorem lastPublished_eq (b : Boot) (c : Channel) (h : List Action)
    (halt : ByTurns (edges c h)) (hord : InOrder (edges c h)) :
    (Mailbox.lastPublished 0 c (ops b h)).toNat = lastPulse (edges c h) % 2 ^ 16 := by
  induction h with
  | nil => rfl
  | cons a h ih =>
    cases a with
    | loopStep time =>
      have hops : Mailbox.lastPublished 0 c (ops b (.loopStep time :: h)) =
          Mailbox.lastPublished 0 c (ops b h) := by
        rw [ops]
        split_ifs <;> rfl
      rw [hops, edges]
      exact ih halt hord
    | interrupt d high time =>
      by_cases hd : d = c
      · subst hd
        rw [edges, if_pos rfl] at halt hord ⊢
        cases high with
        | true =>
          rw [ops, if_pos rfl, lastPulse]
          exact ih halt.tail hord.2
        | false =>
          rw [ops, if_neg Bool.false_ne_true, Mailbox.lastPublished, if_pos rfl]
          exact published_eq b d h halt hord
      · rw [edges, if_neg hd] at halt hord ⊢
        have hops : Mailbox.lastPublished 0 c (ops b (.interrupt d high time :: h)) =
            Mailbox.lastPublished 0 c (ops b h) := by
          rw [ops]
          split_ifs
          · rfl
          · rw [Mailbox.lastPublished, if_neg hd]
        rw [hops]
        exact ih halt hord

/-- The times that `micros()` stands for are those of a clock that does not run back. -/
def Stamped (clock : ℕ → ℕ) : Prop :=
  Monotone clock ∧ ∀ n time, events n = .isrStep time → time = clock n

theorem edges_inOrder {clock : ℕ → ℕ} (hclock : Stamped events clock) (c : Channel) (n : ℕ) :
    InOrder (edges c (history b input pcifr events n)) ∧
      ∀ e ∈ edges c (history b input pcifr events n), e.2 ≤ clock n := by
  induction n with
  | zero => exact ⟨trivial, fun e he => absurd he List.not_mem_nil⟩
  | succ n ih =>
    have hold : ∀ e ∈ edges c (history b input pcifr events n), e.2 ≤ clock (n + 1) :=
      fun e he => (ih.2 e he).trans (hclock.1 (Nat.le_succ n))
    have keep : edges c (history b input pcifr events (n + 1)) =
        edges c (history b input pcifr events n) →
        InOrder (edges c (history b input pcifr events (n + 1))) ∧
          ∀ e ∈ edges c (history b input pcifr events (n + 1)), e.2 ≤ clock (n + 1) := by
      intro hsame
      rw [hsame]
      exact ⟨ih.1, hold⟩
    cases he : events n with
    | isrStep time =>
      have htime := hclock.2 n time he
      cases hc : PinChange.called (firmwareAt b input pcifr events n).service with
      | none => exact keep (by simp [history_succ, he, driven, hc])
      | some x =>
        by_cases hx : x.1.PCintFunc = c
        · have hnew : edges c (history b input pcifr events (n + 1)) =
              (x.2, time) :: edges c (history b input pcifr events n) := by
            simp [history_succ, he, driven, hc, edges, hx]
          rw [hnew]
          refine ⟨⟨fun e hm => htime ▸ ih.2 e hm, ih.1⟩, fun e hm => ?_⟩
          rcases List.mem_cons.mp hm with rfl | hm
          · exact htime ▸ hclock.1 (Nat.le_succ n)
          · exact hold e hm
        · exact keep (by simp [history_succ, he, driven, hc, edges, hx])
    | loopStep time =>
      cases hp : (firmwareAt b input pcifr events n).service.point <;>
        exact keep (by simp [history_succ, he, driven, hp, edges])
    | _ => exact keep (by simp [history_succ, he, driven])

/-- In every run of the firmware in which no pin changes under a routine that serves its port, each
width that the loop takes over is the high time of the last pulse that the channel's handler saw the
end of, kept in 16 bits. -/
theorem loop_reads_pulses (clock : ℕ → ℕ) (hclock : Stamped events clock) (n time : ℕ)
    (hcalm : ∀ k, k < n → UndisturbedAt b input pcifr events k)
    (hstep : events n = .loopStep time)
    (hmain : (firmwareAt b input pcifr events n).service.point = .main)
    (hblock : (firmwareAt b input pcifr events n).drive.phase = .block) (c : Channel) :
    ((firmwareAt b input pcifr events (n + 1)).drive.vars.input c).toNat =
      lastPulse (edges c (history b input pcifr events n)) % 2 ^ 16 := by
  have hnext : history b input pcifr events (n + 1) =
      .loopStep time :: history b input pcifr events n := by
    rw [history_succ, hstep]
    simp [driven, hmain]
  rw [firmware_drive] at hblock
  rw [firmware_drive, hnext, block_copies b hblock time c]
  exact lastPublished_eq b c _ (edges_byTurns b input pcifr events c n hcalm)
    (edges_inOrder b input pcifr events hclock c n).1

end Firmware

/-- One pulse on `JLY`, 1520 microseconds long, and the loop's check and block. -/
def onePulse (n : ℕ) : Event :=
  if n = 0 then .pins .B 1
  else if n = 1 ∨ n = 9 then .interrupt .B
  else if n = 8 then .pins .B 0
  else if n < 16 then .isrStep (190 * n)
  else .loopStep (190 * n)

def benchBoot : Boot where
  escs := fun _ => 0
  passes := 0

theorem loop_reads_pulses_onePulse :
    ((firmwareAt benchBoot PinChange.unoLow 0 onePulse 18).drive.vars.input .jly).toNat =
      lastPulse (edges .jly (history benchBoot PinChange.unoLow 0 onePulse 17)) % 2 ^ 16 := by
  refine loop_reads_pulses benchBoot PinChange.unoLow 0 onePulse (fun n => 190 * n) ⟨?_, ?_⟩
    17 _ ?_ rfl rfl rfl .jly
  · intro m n h
    exact Nat.mul_le_mul_left 190 h
  · intro n time h
    unfold onePulse at h
    split_ifs at h
    · exact (Event.isrStep.inj h).symm
  · intro k hk
    interval_cases k <;> trivial

example : lastPulse (edges .jly (history benchBoot PinChange.unoLow 0 onePulse 17)) = 1520 := by
  decide

/-! ## Two ports -/

/-- The line of `JLX` goes up and its port is served; `MTH` and `JLY`, on the same and on the other
port, go up while the handler of `JLX` runs. -/
def crossing : ℕ → PinChange.Action PinChange.UnoPort
  | 0 => .pins .D 128
  | 1 => .interrupt .D
  | 4 => .pins .D 144
  | 5 => .pins .B 1
  | _ => .step

theorem attachments_quiet (input : PinChange.UnoPort → PinChange.Reg) (pcifr : PinChange.Reg) :
    PinChange.NothingLost PinChange.uno
      (PinChange.started PinChange.uno (attachments input) input pcifr) := by
  apply PinChange.started_nothing_lost
  intro q
  cases q with
  | B => exact Or.inr rfl
  | C => exact Or.inl rfl
  | D => exact Or.inr rfl

/-- The sketch's own wiring loses the edge of `JLY` when the routine for the other port clears its
flag. -/
theorem nothing_lost_iff_crossing :
    ((∀ n, PinChange.NothingLost PinChange.uno (PinChange.sysAt PinChange.uno
        (PinChange.started PinChange.uno (attachments PinChange.unoLow) PinChange.unoLow 0)
        crossing n)) ↔
      ∀ n, PinChange.SparesFlags PinChange.uno (PinChange.sysAt PinChange.uno
        (PinChange.started PinChange.uno (attachments PinChange.unoLow) PinChange.unoLow 0)
        crossing n) (crossing n)) ∧
    ¬ ∀ n, PinChange.NothingLost PinChange.uno (PinChange.sysAt PinChange.uno
      (PinChange.started PinChange.uno (attachments PinChange.unoLow) PinChange.unoLow 0)
      crossing n) := by
  refine ⟨PinChange.nothing_lost_iff PinChange.uno (attachments_quiet _ 0) crossing, fun h => ?_⟩
  have hout : PinChange.Outstanding (PinChange.sysAt PinChange.uno
      (PinChange.started PinChange.uno (attachments PinChange.unoLow) PinChange.unoLow 0)
      crossing 12) .B := by
    unfold PinChange.Outstanding
    decide
  rcases h 12 .B hout with hr | hr
  · exact absurd hr (by decide)
  · exact absurd (show PinChange.UnoPort.D = .B from hr) (by decide)

end TitanRover.Drive
