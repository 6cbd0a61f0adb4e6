import TitanRover.Stick.Receiver

/-! # `Titan16_Arm.ino`

The sketch passes four channels on to four servos. It scrubs, maps and writes them all, but only in
an iteration that consumes a pulse of joint 1, for the test names the logical or of the four flags,
and it clears its copy of the flags only there. A joint-1 pulse within 4 microseconds above the last
one is ignored as jitter. The filtered width is then one that the scrub has rewritten (`Resting`). -/
namespace TitanRover.Stick.Titan16Arm
open TitanRover.Arduino Foundations Foundations.Run
set_option autoImplicit false

/-! ## The channels -/

/-- A channel, and the servo that it commands. -/
inductive Channel where
  | joint1 | joint2 | wrist | ende
  deriving DecidableEq

def joint1Flag : BitVec 8 := 1
def joint2Flag : BitVec 8 := 2
def wristFlag : BitVec 8 := 4
def endeFlag : BitVec 8 := 8

def Channel.flag : Channel → BitVec 8
  | .joint1 => joint1Flag
  | .joint2 => joint2Flag
  | .wrist => wristFlag
  | .ende => endeFlag

def calcAJNT1 (high : Bool) (now : BitVec 32) (r : Radio Channel) : Radio Channel :=
  edge Channel.flag .joint1 high now r

def calcAJNT2 (high : Bool) (now : BitVec 32) (r : Radio Channel) : Radio Channel :=
  edge Channel.flag .joint2 high now r

def calcWRIST (high : Bool) (now : BitVec 32) (r : Radio Channel) : Radio Channel :=
  edge Channel.flag .wrist high now r

def calcENDE (high : Bool) (now : BitVec 32) (r : Radio Channel) : Radio Channel :=
  edge Channel.flag .ende high now r

def Channel.handler : Channel → Bool → BitVec 32 → Radio Channel → Radio Channel
  | .joint1 => calcAJNT1
  | .joint2 => calcAJNT2
  | .wrist => calcWRIST
  | .ende => calcENDE

/-! ## The sketch -/

abbrev Write := Channel × BitVec 16

def applyWrites (servos : Channel → BitVec 16) (ws : List Write) : Channel → BitVec 16 :=
  ws.foldl (fun s w => Function.update s w.1 w.2) servos

structure Vars extends Statics Channel where
  usAJNT1 : BitVec 16
  usAJNT2 : BitVec 16
  usWRIST : BitVec 16
  usENDE : BitVec 16
  servos : Channel → BitVec 16

def setup (servos : Channel → BitVec 16) : Vars where
  toStatics := Statics.init
  usAJNT1 := 0
  usAJNT2 := 0
  usWRIST := 0
  usENDE := 0
  servos := applyWrites servos
    [(.joint1, centerSignal), (.joint2, centerSignal), (.wrist, centerSignal),
      (.ende, centerSignal)]

/-- The jitter filter of joint 1. The difference is taken in `uint16_t`. -/
def filter (usAJNT1In usAJNT1InShared : BitVec 16) : BitVec 16 :=
  if (usAJNT1InShared - usAJNT1In).toNat > 4 then usAJNT1InShared else usAJNT1In

def read (p : Statics Channel) (sh : Shared Channel) : Channel → BitVec 16
  | .joint1 => filter (p.input .joint1) (sh.inputShared .joint1)
  | c => sh.inputShared c

def received (s : Vars) (sh : Shared Channel) : Vars :=
  if sh.bUpdateFlagsShared ≠ 0 then
    { s with
      bUpdateFlags := sh.bUpdateFlagsShared
      input := fun c =>
        if sh.bUpdateFlagsShared &&& c.flag ≠ 0 then read s.toStatics sh c else s.input c }
  else s

def mask : BitVec 8 :=
  logicalOr (logicalOr (logicalOr joint1Flag joint2Flag) wristFlag) endeFlag

def scrubbed (s : Vars) : Vars := { s with input := fun c => scrubWidth (s.input c) }

def mapped (s : Vars) : Vars :=
  { s with
    usAJNT1 := if s.usAJNT1 ≠ s.input .joint1 then s.input .joint1 else s.usAJNT1
    usAJNT2 := BitVec.ofInt 16 (Arduino.map (s.input .joint2).toNat 1000 2000 1000 2000)
    usWRIST := 1725
    usENDE := BitVec.ofInt 16 (Arduino.map (s.input .ende).toNat 1000 2000 1276 1950) }

def commands (s : Vars) : List Write :=
  [(.joint1, s.usAJNT1), (.joint2, s.usAJNT2), (.wrist, s.usWRIST), (.ende, s.usENDE)]

def respond (s : Vars) : Vars × List Write :=
  if s.bUpdateFlags &&& mask ≠ 0 then
    ({ mapped (scrubbed s) with bUpdateFlags := 0 }, commands (mapped (scrubbed s)))
  else (s, [])

def loopWrites (s : Vars) (sh : Shared Channel) : List Write := (respond (received s sh)).2

def loop (s : Vars) (sh : Shared Channel) : Vars :=
  { (respond (received s sh)).1 with servos := applyWrites s.servos (loopWrites s sh) }

def varsAt (servos : Channel → BitVec 16) (inp : ℕ → Shared Channel) : ℕ → Vars :=
  stateAt loop (setup servos) inp

theorem interrupted_run (servos : Channel → BitVec 16)
    (events : List (Option (Interrupt Channel))) :
    ∃ inp n, (events.foldl (Snapshot.act (system Channel.handler loop))
      (Radio.init, setup servos)).2 = varsAt servos inp n :=
  interleaving_refines Channel.handler loop (setup servos) events

/-! ## One iteration -/

theorem mask_eq : mask = joint1Flag := by decide

theorem cleared : (0 : BitVec 8) &&& joint1Flag = 0 := by decide

/-- What holds between iterations. -/
structure Resting (s : Vars) : Prop where
  flags : s.bUpdateFlags &&& joint1Flag = 0
  input : s.input .joint1 = 0 ∨ WidthInRange (s.input .joint1)

/-- Without a pulse of joint 1 an iteration only takes its inputs over. -/
theorem respond_idle {s : Vars} {sh : Shared Channel} (h : Resting s)
    (hnot : ¬ Consumes Channel.flag .joint1 sh) :
    respond (received s sh) = (received s sh, []) ∧
      (received s sh).bUpdateFlags &&& joint1Flag = 0 ∧
      (received s sh).input .joint1 = s.input .joint1 := by
  have hflags : (received s sh).bUpdateFlags &&& joint1Flag = 0 := by
    unfold received
    split_ifs
    · exact not_not.mp hnot
    · exact h.flags
  refine ⟨?_, hflags, ?_⟩
  · rw [respond, mask_eq, if_neg (not_not.mpr hflags)]
  · unfold received
    split_ifs
    · exact if_neg hnot
    · rfl

theorem received_consumed (s : Vars) {sh : Shared Channel}
    (h : Consumes Channel.flag .joint1 sh) :
    (received s sh).bUpdateFlags &&& joint1Flag ≠ 0 ∧
      (received s sh).input .joint1 = filter (s.input .joint1) (sh.inputShared .joint1) := by
  have hshared : sh.bUpdateFlagsShared ≠ 0 := fun h0 => h (by simp [h0])
  rw [received, if_pos hshared]
  exact ⟨h, if_pos h⟩

theorem respond_consumed (s : Vars) {sh : Shared Channel}
    (h : Consumes Channel.flag .joint1 sh) :
    respond (received s sh) =
      ({ mapped (scrubbed (received s sh)) with bUpdateFlags := 0 },
        commands (mapped (scrubbed (received s sh)))) := by
  rw [respond, mask_eq, if_pos (received_consumed s h).1]

theorem mapped_usAJNT1 (s : Vars) : (mapped s).usAJNT1 = s.input .joint1 := by
  simp only [mapped]
  split_ifs with h
  · rfl
  · exact not_not.mp h

/-- The widths that the filter holds back are those up to 4 above the kept one, which the scrub has
rewritten: it is in range, or 0 before the first pulse. -/
theorem filter_near {old : BitVec 16} (h : old = 0 ∨ WidthInRange old) (p : BitVec 16) :
    |((scrubWidth (filter old p)).toNat : ℤ) - (max 1000 (min p.toNat 2000) : ℕ)| ≤ 4 := by
  have hold : old.toNat = 0 ∨ (1000 ≤ old.toNat ∧ old.toNat ≤ 2000) :=
    h.imp (fun h0 => by rw [h0]; rfl) id
  rw [scrubWidth_toNat, filter, abs_le]
  split_ifs with hjump
  · omega
  · rw [BitVec.toNat_sub] at hjump
    omega

/-- The bounds of what the servo of a channel is sent. -/
def InRange : Write → Prop
  | (.joint1, val) => 1000 ≤ val.toNat ∧ val.toNat ≤ 2000
  | (.joint2, val) => 1000 ≤ val.toNat ∧ val.toNat ≤ 2000
  | (.wrist, val) => val = 1725
  | (.ende, val) => 1276 ≤ val.toNat ∧ val.toNat ≤ 1950

theorem commands_inRange (s : Vars) : ∀ w ∈ commands (mapped (scrubbed s)), InRange w := by
  intro w hw
  simp only [commands, List.mem_cons, List.not_mem_nil, or_false] at hw
  rcases hw with rfl | rfl | rfl | rfl
  · rw [InRange, mapped_usAJNT1]
    exact scrubWidth_range _
  · exact ofInt_range (map_pwm_range (scrubWidth_range _) 1000 2000 (by decide)) (by decide)
  · rfl
  · exact ofInt_range (map_pwm_range (scrubWidth_range _) 1276 1950 (by decide)) (by decide)

theorem commands_joint1 (s : Vars) (servos : Channel → BitVec 16) :
    applyWrites servos (commands s) .joint1 = s.usAJNT1 := by
  simp [applyWrites, commands]

theorem loop_joint1 (s : Vars) {sh : Shared Channel} (h : Consumes Channel.flag .joint1 sh) :
    (loop s sh).servos .joint1 = scrubWidth (filter (s.input .joint1) (sh.inputShared .joint1)) := by
  have hinput := (received_consumed s h).2
  rw [loop, loopWrites, respond_consumed s h]
  dsimp only
  rw [commands_joint1, mapped_usAJNT1]
  change scrubWidth ((received s sh).input .joint1) = _
  rw [hinput]

/-! ## Runs -/

theorem loop_resting {s : Vars} (h : Resting s) (sh : Shared Channel) : Resting (loop s sh) := by
  by_cases hc : Consumes Channel.flag .joint1 sh
  · have hr := respond_consumed s hc
    refine ⟨?_, Or.inr ?_⟩
    · rw [loop, hr]
      exact cleared
    · rw [loop, hr]
      exact scrubWidth_range _
  · obtain ⟨hr, hflags, hinput⟩ := respond_idle h hc
    refine ⟨?_, ?_⟩
    · rw [loop, hr]
      exact hflags
    · rw [loop, hr]
      dsimp only
      rw [hinput]
      exact h.input

theorem varsAt_resting (servos : Channel → BitVec 16) (inp : ℕ → Shared Channel) (n : ℕ) :
    Resting (varsAt servos inp n) := by
  apply invariant loop (setup servos) inp (P := fun _ s => Resting s)
  · exact ⟨cleared, Or.inl rfl⟩
  · exact fun n h => loop_resting h (inp n)

/-- What iteration `n` of a run writes. -/
structure Safe (servos : Channel → BitVec 16) (inp : ℕ → Shared Channel) (n : ℕ) : Prop where
  idle : (∀ k ≤ n, ¬ Consumes Channel.flag .joint1 (inp k)) →
    loopWrites (varsAt servos inp n) (inp n) = []
  range : ∀ w ∈ loopWrites (varsAt servos inp n) (inp n), InRange w
  close : Consumes Channel.flag .joint1 (inp n) →
    |(((varsAt servos inp (n + 1)).servos .joint1).toNat : ℤ) -
      (max 1000 (min ((inp n).inputShared .joint1).toNat 2000) : ℕ)| ≤ 4

theorem outputs_safe (servos : Channel → BitVec 16) (inp : ℕ → Shared Channel) (n : ℕ) :
    Safe servos inp n := by
  have h := varsAt_resting servos inp n
  have hidle : ¬ Consumes Channel.flag .joint1 (inp n) →
      loopWrites (varsAt servos inp n) (inp n) = [] := by
    intro hnot
    rw [loopWrites, (respond_idle h hnot).1]
  refine ⟨fun hnone => hidle (hnone n (le_refl n)), ?_, ?_⟩
  · by_cases hc : Consumes Channel.flag .joint1 (inp n)
    · rw [loopWrites, respond_consumed _ hc]
      exact commands_inRange _
    · rw [hidle hc]
      exact fun w hw => absurd hw List.not_mem_nil
  · intro hc
    have hloop : (varsAt servos inp (n + 1)).servos .joint1 =
        scrubWidth (filter ((varsAt servos inp n).input .joint1) ((inp n).inputShared .joint1)) :=
      loop_joint1 _ hc
    rw [hloop]
    exact filter_near h.input _

end TitanRover.Stick.Titan16Arm
