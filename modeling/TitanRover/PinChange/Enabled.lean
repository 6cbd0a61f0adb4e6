import TitanRover.PinChange.History
import TitanRover.PinChange.Uno

/-! # The registers that let a pin interrupt

A change of a pin raises its port's flag only if the pin's bit in the port's `PCMSK` register is set,
and the flag interrupts only if the port's bit in `PCICR` is. After any calls of the library the bits
of `PCMSK` are those of the pins that were attached since they were last detached, and the bits of
`PCICR` those of the ports with such a pin. On port J the bits of `PCMSK` are not those of the port,
and the board is taken to have none. -/
namespace TitanRover.PinChange
open Foundations
set_option autoImplicit false

section Enabled
variable {P H : Type} [DecidableEq P] (b : Board P)

theorem mask_enable (hJ : b.usesPortJ = false) (q q' : P) (p : PCintPin H) (s : Lib P H) :
    ((enable b q p s).port q').portPCMask =
      if q' = q then (s.port q').portPCMask ||| p.mask else (s.port q').portPCMask := by
  by_cases hq : q' = q
  · subst hq
    simp [enable, Lib.setPort, Board.pcMask, hJ]
  · simp [enable, Lib.setPort, hq]

theorem mask_disable (hJ : b.usesPortJ = false) (q q' : P) (pin : Pin) (current : PCintPin H)
    (s : Lib P H) :
    ((disable b q pin current s).port q').portPCMask =
      if q' = q then (s.port q').portPCMask &&& ~~~b.digitalPinToBitMask pin
      else (s.port q').portPCMask := by
  by_cases hq : q' = q
  · subst hq
    simp [disable, Lib.setPort, Board.pcMask, hJ]
  · simp [disable, Lib.setPort, hq]

theorem mask_view (q q' : P) (input : Reg) (s : Lib P H) :
    ((s.view q input).port q').portPCMask = (s.port q').portPCMask := by
  by_cases hq : q' = q
  · subst hq
    simp [Lib.view, Lib.setPort]
  · simp [Lib.view, Lib.setPort, Function.update_of_ne hq]

theorem mask_setPins (q q' : P) (ps : List (PCintPin H)) (s : Lib P H) :
    ((s.setPins q ps).port q').portPCMask = (s.port q').portPCMask := by
  by_cases hq : q' = q
  · subst hq
    simp [Lib.setPins, Lib.setPort]
  · simp [Lib.setPins, Lib.setPort, Function.update_of_ne hq]

/-- The pin was attached since it was last detached. -/
def listening (pin : Pin) : List (Op P H) → Bool
  | [] => false
  | .attach arduinoPin userFunc _ new _ :: h =>
    listening pin h || decide (arduinoPin = pin ∧ (b.digitalPinToPort pin).isSome ∧
      userFunc.isSome ∧ (new ∨ (functionOf b pin h).isSome))
  | .detach arduinoPin :: h => if arduinoPin = pin then false else listening pin h
  | .round _ _ :: h => listening pin h

omit [DecidableEq P] in
theorem listening_refused {arduinoPin : Pin} {userFunc : Option H} {mode : BitVec 16} {new : Bool}
    {input : P → Reg} {h : List (Op P H)} (href : Refused b arduinoPin userFunc new h) (pin : Pin) :
    listening b pin (.attach arduinoPin userFunc mode new input :: h) = listening b pin h := by
  rw [listening, Bool.or_eq_left_iff_imp, decide_eq_true_eq]
  rintro ⟨rfl, hport, huser, hnew⟩
  rcases href with hr | hr | ⟨hr, hnone⟩
  · rw [hr] at hport
    cases hport
  · rw [hr] at huser
    cases huser
  · rw [hr, hnone] at hnew
    simp at hnew

omit [DecidableEq P] in
theorem listening_accepted {arduinoPin : Pin} {f : H} {mode : BitVec 16} {new : Bool}
    {input : P → Reg} {h : List (Op P H)} {q : P} (hport : b.digitalPinToPort arduinoPin = some q)
    (hacc : new = true ∨ functionOf b arduinoPin h ≠ none) (pin : Pin) :
    listening b pin (.attach arduinoPin (some f) mode new input :: h) =
      (listening b pin h || decide (arduinoPin = pin)) := by
  rw [listening]
  congr 1
  rw [decide_eq_decide]
  refine ⟨And.left, ?_⟩
  rintro rfl
  exact ⟨rfl, by simp [hport], rfl, by rwa [Option.isSome_iff_ne_none]⟩

omit [DecidableEq P] in
/-- A pin that is listed nowhere does not listen. -/
theorem listening_of_not_listed {pin : Pin} {h : List (Op P H)}
    (hnone : functionOf b pin h = none) : listening b pin h = false := by
  induction h with
  | nil => rfl
  | cons op h ih =>
    cases op with
    | attach arduinoPin userFunc mode new input =>
      rw [functionOf] at hnone
      split_ifs at hnone with hacc
      · obtain ⟨huser, hrest⟩ := Option.or_eq_none_iff.mp hnone
        simp [listening, ih hrest, huser]
      · rw [listening, ih hnone, Bool.false_or, decide_eq_false_iff_not]
        rintro ⟨hpin, hport, -, hnew⟩
        exact hacc ⟨hpin, hport, hnew⟩
    | detach arduinoPin =>
      rw [listening, ih hnone, ite_self]
    | round q curr => exact ih hnone

omit [DecidableEq P] in
theorem listening_of_armed {pin : Pin} {high : Bool} {h : List (Op P H)}
    (harmed : armed b pin high h = true) : listening b pin h = true := by
  induction h with
  | nil => cases harmed
  | cons op h ih =>
    cases op with
    | attach arduinoPin userFunc mode new input =>
      rw [armed, Bool.or_eq_true, decide_eq_true_eq] at harmed
      rw [listening, Bool.or_eq_true, decide_eq_true_eq]
      refine harmed.imp ih ?_
      rintro ⟨hpin, hport, huser, hnew, -⟩
      exact ⟨hpin, hport, huser, hnew⟩
    | detach arduinoPin =>
      rw [armed] at harmed
      split_ifs at harmed with he
      rw [listening, if_neg he]
      exact ih harmed
    | round q curr => exact ih harmed

/-! ## The registers as sets -/

/-- The masks are the sets of the pins that listen, and `PCICR` that of the ports they are on. -/
structure Registers (h : List (Op P H)) (s : Lib P H) : Prop where
  masked : ∀ q i, i < 8 → ((s.port q).portPCMask.getLsbD i = true ↔
    ∃ pin, b.digitalPinToPort pin = some q ∧ b.place pin = i ∧ listening b pin h = true)
  enabled : ∀ i, i < 8 → (s.PCICR.getLsbD i = true ↔
    ∃ q, b.pcindex q = i ∧ (s.port q).portPCMask ≠ 0)

omit [DecidableEq P] in
/-- What keeps the registers and the pins that listen keeps the promise. -/
theorem registers_unchanged {h : List (Op P H)} {s s' : Lib P H} (hs : Registers b h s)
    (op : Op P H) (hreg : s'.PCICR = s.PCICR)
    (hmask : ∀ q, (s'.port q).portPCMask = (s.port q).portPCMask)
    (hsame : ∀ pin q, b.digitalPinToPort pin = some q →
      listening b pin (op :: h) = listening b pin h) : Registers b (op :: h) s' where
  masked := by
    intro q i hi
    rw [hmask, hs.masked q i hi]
    refine exists_congr fun pin => and_congr_right fun hpin => ?_
    rw [hsame pin q hpin]
  enabled := by
    intro i hi
    rw [hreg, hs.enabled i hi]
    exact exists_congr fun q => by rw [hmask]

/-- Enabling an entry of a pin adds the pin to the mask and its port to `PCICR`. -/
theorem registers_enable (hJ : b.usesPortJ = false) {h : List (Op P H)} {s : Lib P H}
    (hs : Registers b h s) (op : Op P H) {q : P} {p : PCintPin H}
    (hport : b.digitalPinToPort p.arduinoPin = some q)
    (hp : p.mask = b.digitalPinToBitMask p.arduinoPin)
    (hlist : ∀ pin, listening b pin (op :: h) =
      (listening b pin h || decide (p.arduinoPin = pin))) :
    Registers b (op :: h) (enable b q p s) := by
  have hadded : ((enable b q p s).port q).portPCMask ≠ 0 := by
    rw [mask_enable b hJ, if_pos rfl, hp, Board.digitalPinToBitMask, Bits.ne_zero_iff]
    refine ⟨b.place p.arduinoPin, b.place_lt _, ?_⟩
    rw [Bits.set_bit (b.place_lt _), decide_eq_true rfl, Bool.or_true]
  constructor
  · intro q' i hi
    rw [mask_enable b hJ]
    by_cases hq : q' = q
    · subst hq
      rw [if_pos rfl, hp, Board.digitalPinToBitMask, Bits.set_bit (b.place_lt _), Bool.or_eq_true,
        hs.masked q' i hi, decide_eq_true_eq]
      constructor
      · rintro (⟨pin, hpin, hplace, hold⟩ | hplace)
        · exact ⟨pin, hpin, hplace, by rw [hlist, hold, Bool.true_or]⟩
        · exact ⟨_, hport, hplace, by rw [hlist, decide_eq_true rfl, Bool.or_true]⟩
      · rintro ⟨pin, hpin, hplace, hnow⟩
        rw [hlist, Bool.or_eq_true, decide_eq_true_eq] at hnow
        rcases hnow with hold | rfl
        · exact Or.inl ⟨pin, hpin, hplace, hold⟩
        · exact Or.inr hplace
    · rw [if_neg hq, hs.masked q' i hi]
      refine exists_congr fun pin => and_congr_right fun hpin => ?_
      have hne : p.arduinoPin ≠ pin := by
        rintro rfl
        exact hq (Option.some.inj (hpin.symm.trans hport))
      rw [hlist, decide_eq_false hne, Bool.or_false]
  · intro i hi
    show (s.PCICR ||| b.PCICRbit q).getLsbD i = true ↔ _
    rw [Board.PCICRbit, Bits.set_bit (b.pcindex_lt q), Bool.or_eq_true, hs.enabled i hi,
      decide_eq_true_eq]
    constructor
    · rintro (⟨q', hidx, hmask⟩ | hidx)
      · by_cases hq : q' = q
        · exact ⟨q, hq ▸ hidx, hadded⟩
        · exact ⟨q', hidx, by rwa [mask_enable b hJ, if_neg hq]⟩
      · exact ⟨q, hidx, hadded⟩
    · rintro ⟨q', hidx, hmask⟩
      by_cases hq : q' = q
      · exact Or.inr (hq ▸ hidx)
      · rw [mask_enable b hJ, if_neg hq] at hmask
        exact Or.inl ⟨q', hidx, hmask⟩

/-- Detaching a pin takes it off the mask, and with the last one its port off `PCICR`. -/
theorem registers_disable (hJ : b.usesPortJ = false) {h : List (Op P H)} {s : Lib P H}
    (hs : Registers b h s) {q : P} {arduinoPin : Pin}
    (hport : b.digitalPinToPort arduinoPin = some q) (current : PCintPin H) :
    Registers b (.detach arduinoPin :: h) (disable b q arduinoPin current s) := by
  have hother : ∀ q', q' ≠ q → ((disable b q arduinoPin current s).port q').portPCMask =
      (s.port q').portPCMask := by
    intro q' hq
    rw [mask_disable b hJ, if_neg hq]
  have hown : ((disable b q arduinoPin current s).port q).portPCMask =
      (s.port q).portPCMask &&& ~~~b.digitalPinToBitMask arduinoPin := by
    rw [mask_disable b hJ, if_pos rfl]
  have hreg : (disable b q arduinoPin current s).PCICR =
      if ((disable b q arduinoPin current s).port q).portPCMask = 0 then
        s.PCICR &&& ~~~b.PCICRbit q else s.PCICR := by
    rw [hown]
    simp [disable, Board.pcMask, hJ]
  constructor
  · intro q' i hi
    by_cases hq : q' = q
    · subst hq
      rw [hown, Board.digitalPinToBitMask, Bits.clear_bit hi, Bool.and_eq_true, hs.masked q' i hi]
      simp only [Bool.not_eq_true', decide_eq_false_iff_not]
      constructor
      · rintro ⟨⟨pin, hpin, hplace, hold⟩, hne⟩
        refine ⟨pin, hpin, hplace, ?_⟩
        rw [listening, if_neg, hold]
        rintro rfl
        exact hne hplace
      · rintro ⟨pin, hpin, hplace, hnow⟩
        rw [listening] at hnow
        split_ifs at hnow with he
        refine ⟨⟨pin, hpin, hplace, hnow⟩, fun hsame => he ?_⟩
        exact b.place_injective hport hpin (hsame.trans hplace.symm)
    · rw [hother q' hq, hs.masked q' i hi]
      refine exists_congr fun pin => and_congr_right fun hpin => ?_
      have hne : arduinoPin ≠ pin := by
        rintro rfl
        exact hq (Option.some.inj (hpin.symm.trans hport))
      rw [listening, if_neg hne]
  · intro i hi
    rw [hreg]
    split_ifs with hempty
    · rw [Board.PCICRbit, Bits.clear_bit hi, Bool.and_eq_true, hs.enabled i hi]
      simp only [Bool.not_eq_true', decide_eq_false_iff_not]
      constructor
      · rintro ⟨⟨q', hidx, hmask⟩, hne⟩
        have hq : q' ≠ q := fun he => hne (he ▸ hidx)
        exact ⟨q', hidx, by rwa [hother q' hq]⟩
      · rintro ⟨q', hidx, hmask⟩
        have hq : q' ≠ q := fun he => hmask (he ▸ hempty)
        rw [hother q' hq] at hmask
        exact ⟨⟨q', hidx, hmask⟩, fun he => hq (b.pcindex_injective (hidx.trans he.symm))⟩
    · -- the port's mask is smaller than before, and still not empty
      have hbefore : (s.port q).portPCMask ≠ 0 := by
        intro h0
        rw [hown, h0] at hempty
        exact hempty BitVec.zero_and
      rw [hs.enabled i hi]
      refine exists_congr fun q' => and_congr_right fun _ => ?_
      by_cases hq : q' = q
      · subst hq
        exact iff_of_true hbefore hempty
      · rw [hother q' hq]

theorem registers_attach (hJ : b.usesPortJ = false) {h : List (Op P H)}
    (hs : Registers b h (after b h)) (arduinoPin : Pin) (userFunc : Option H) (mode : BitVec 16)
    (new : Bool) (input : P → Reg) :
    Registers b (.attach arduinoPin userFunc mode new input :: h)
      (after b (.attach arduinoPin userFunc mode new input :: h)) := by
  rw [after, act]
  rcases attach_cases b arduinoPin userFunc mode new input (after b h) with
    ⟨hsame, hwhy⟩ | ⟨q, f, hport, rfl, ⟨hview, rfl, hout⟩ | ⟨p, ps, rfl, -, hstate, hkind⟩⟩
  · have href : Refused b arduinoPin userFunc new h := hwhy.imp_right Or.inl
    rw [hsame]
    exact registers_unchanged b hs _ rfl (fun _ => rfl)
      fun pin _ _ => listening_refused b href pin
  · have hr := represents_after b h q
    rw [hr.pins, hr.listed arduinoPin hport, not_not] at hout
    rw [hview]
    exact registers_unchanged b hs _ rfl (fun q' => mask_view q q' (input q) _)
      fun pin _ _ => listening_refused b (Or.inr (Or.inr ⟨rfl, hout⟩)) pin
  · have hr := represents_after b h q
    have hacc : new = true ∨ functionOf b p.arduinoPin h ≠ none := by
      rcases hkind with ⟨hmem, -⟩ | ⟨hnew, -⟩
      · rw [hr.pins, hr.listed p.arduinoPin hport] at hmem
        exact Or.inr hmem
      · exact Or.inl hnew
    have hp : p.mask = b.digitalPinToBitMask p.arduinoPin := by
      rcases hkind with ⟨-, ⟨p', hp', hmask, hp'e⟩, -⟩ | ⟨-, -, hentry, -⟩
      · rw [hmask, hr.mask p' hp', hp'e]
      · rw [hentry]
        rfl
    have hkept : Registers b h (((after b h).view q (input q)).setPins q ps) := by
      constructor
      · intro q' i hi
        rw [mask_setPins, mask_view, hs.masked q' i hi]
      · intro i hi
        simp only [mask_setPins, mask_view]
        exact hs.enabled i hi
    rw [hstate]
    exact registers_enable b hJ hkept _ hport hp (listening_accepted b hport hacc)

theorem registers_after (hJ : b.usesPortJ = false) (h : List (Op P H)) :
    Registers b h (after b h) := by
  induction h with
  | nil =>
    constructor
    · simp [after, Lib.init, PCintPort.init, listening]
    · simp [after, Lib.init, PCintPort.init]
  | cons op h ih =>
    cases op with
    | attach arduinoPin userFunc mode new input =>
      exact registers_attach b hJ ih arduinoPin userFunc mode new input
    | detach arduinoPin =>
      rw [after, act]
      rcases detach_cases b arduinoPin (after b h) with ⟨hsame, hnone⟩ | ⟨q, p, hport, -, hdis⟩
      · rw [hsame]
        refine registers_unchanged b ih _ rfl (fun _ => rfl) fun pin q hpin => ?_
        rw [listening]
        split_ifs with he
        · subst he
          have hr := represents_after b h q
          have hout : arduinoPin ∉ attached b q h := by
            rw [← hr.pins]
            intro hmem
            obtain ⟨p, hp, hpe⟩ := List.mem_map.mp hmem
            exact hnone q hpin p hp (by rw [hr.mask p hp, hpe])
          rw [hr.listed arduinoPin hpin, not_not] at hout
          exact (listening_of_not_listed b hout).symm
        · rfl
      · rw [hdis]
        exact registers_disable b hJ ih hport p
    | round q curr =>
      exact registers_unchanged b ih _ rfl (fun q' => mask_view q q' curr _) fun _ _ _ => rfl

/-! ## One pin, one port -/

theorem mask_bit (hJ : b.usesPortJ = false) (h : List (Op P H)) {q : P} {pin : Pin}
    (hpin : b.digitalPinToPort pin = some q) :
    ((after b h).port q).portPCMask.getLsbD (b.place pin) = listening b pin h := by
  rw [Bool.eq_iff_iff, (registers_after b hJ h).masked q _ (b.place_lt pin)]
  constructor
  · rintro ⟨pin', hpin', hplace, hnow⟩
    rwa [← b.place_injective hpin' hpin hplace]
  · exact fun hnow => ⟨pin, hpin, rfl, hnow⟩

theorem mask_ne_zero_iff (hJ : b.usesPortJ = false) (h : List (Op P H)) (q : P) :
    ((after b h).port q).portPCMask ≠ 0 ↔
      ∃ pin, b.digitalPinToPort pin = some q ∧ listening b pin h = true := by
  rw [Bits.ne_zero_iff]
  constructor
  · rintro ⟨i, hi, hbit⟩
    obtain ⟨pin, hpin, -, hnow⟩ := ((registers_after b hJ h).masked q i hi).mp hbit
    exact ⟨pin, hpin, hnow⟩
  · rintro ⟨pin, hpin, hnow⟩
    exact ⟨b.place pin, b.place_lt pin, by rw [mask_bit b hJ h hpin, hnow]⟩

theorem PCICR_bit_iff (hJ : b.usesPortJ = false) (h : List (Op P H)) (q : P) :
    (after b h).PCICR.getLsbD (b.pcindex q) = true ↔ ((after b h).port q).portPCMask ≠ 0 := by
  rw [(registers_after b hJ h).enabled _ (b.pcindex_lt q)]
  constructor
  · rintro ⟨q', hidx, hmask⟩
    rwa [← b.pcindex_injective hidx]
  · exact fun hmask => ⟨q, rfl, hmask⟩

/-- After any calls of the library a pin's bit in `PCMSK` is set exactly if the pin was attached since
it was last detached, and its port interrupts exactly if some pin of the port was: detaching a pin
never silences the others, and the last one silences the port. -/
theorem interrupts_iff (hJ : b.usesPortJ = false) (h : List (Op P H)) (q : P) :
    (∀ pin, b.digitalPinToPort pin = some q →
      ((after b h).port q).portPCMask.getLsbD (b.place pin) = listening b pin h) ∧
    ((after b h).PCICR.getLsbD (b.pcindex q) = true ↔
      ∃ pin, b.digitalPinToPort pin = some q ∧ listening b pin h = true) := by
  refine ⟨fun pin hpin => mask_bit b hJ h hpin, ?_⟩
  rw [PCICR_bit_iff b hJ, mask_ne_zero_iff b hJ]

end Enabled

/-- D2 and D3 are attached, and then D2 is detached. -/
def oneLeft : List (Op UnoPort Unit) :=
  [.detach 2, .attach 3 (some ()) 1 true unoLow, .attach 2 (some ()) 1 true unoLow]

theorem interrupts_iff_oneLeft :
    ((after uno oneLeft).port .D).portPCMask.getLsbD (uno.place 2) = false ∧
      (after uno oneLeft).PCICR.getLsbD (uno.pcindex .D) = true :=
  ⟨(interrupts_iff uno rfl oneLeft .D).1 2 rfl,
    (interrupts_iff uno rfl oneLeft .D).2.mpr ⟨3, rfl, by decide⟩⟩

example : (after uno (.detach 3 :: oneLeft)).PCICR = 0 := by decide

end TitanRover.PinChange
