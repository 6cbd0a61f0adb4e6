import Mathlib.Data.List.Basic
import TitanRover.PinChange.Port

/-! # Which functions an interrupt calls

A history lists the calls of the library, newest first, in any order. What a pin can expect after
it is read off the history alone: the function last attached to it, the edges it has been armed for
since it was last detached, and the level its port was last seen with. `round_calls` says that the
library, with its linked list and its registers shared by the pins of a port, does exactly that for
every pin. -/
namespace TitanRover.PinChange
open Foundations
set_option autoImplicit false

section Histories
variable {P H : Type} (b : Board P)

inductive Op (P H : Type) where
  | attach (arduinoPin : Pin) (userFunc : Option H) (mode : BitVec 16) (new : Bool)
      (input : P → Reg)
  | detach (arduinoPin : Pin)
  | round (q : P) (curr : Reg)

/-! ## What a history promises a pin -/

/-- The function last attached to the pin. A pin's first attachment needs memory for its entry. -/
def functionOf (pin : Pin) : List (Op P H) → Option H
  | [] => none
  | .attach arduinoPin userFunc _ new _ :: h =>
    if arduinoPin = pin ∧ (b.digitalPinToPort pin).isSome ∧ (new ∨ (functionOf pin h).isSome) then
      userFunc.or (functionOf pin h)
    else functionOf pin h
  | .detach _ :: h => functionOf pin h
  | .round _ _ :: h => functionOf pin h

/-- The mode answers the edge to the level `high`. -/
def Covers (mode : BitVec 8) (high : Bool) : Prop :=
  mode = (if high then rising else falling) ∨ mode = change

instance (mode : BitVec 8) (high : Bool) : Decidable (Covers mode high) :=
  inferInstanceAs (Decidable (_ ∨ _))

/-- The pin was attached, since it was last detached, in a mode that answers the edge to `high`. -/
def armed (pin : Pin) (high : Bool) : List (Op P H) → Bool
  | [] => false
  | .attach arduinoPin userFunc mode new _ :: h =>
    armed pin high h || decide (arduinoPin = pin ∧ (b.digitalPinToPort pin).isSome ∧
      userFunc.isSome ∧ (new ∨ (functionOf b pin h).isSome) ∧ Covers (mode.setWidth 8) high)
  | .detach arduinoPin :: h => if arduinoPin = pin then false else armed pin high h
  | .round _ _ :: h => armed pin high h

/-- A pin's function comes from an attachment of the pin. -/
theorem functionOf_attach {arduinoPin pin : Pin} {userFunc : Option H} {mode : BitVec 16}
    {new : Bool} {input : P → Reg} {h : List (Op P H)} {f : H}
    (hf : functionOf b pin (.attach arduinoPin userFunc mode new input :: h) = some f) :
    (arduinoPin = pin ∧ userFunc = some f) ∨ functionOf b pin h = some f := by
  rw [functionOf] at hf
  split_ifs at hf with hacc
  · rcases Option.or_eq_some_iff.mp hf with huser | ⟨-, hold⟩
    · exact Or.inl ⟨hacc.1, huser⟩
    · exact Or.inr hold
  · exact Or.inr hf

theorem armed_of_not_listed {pin : Pin} {high : Bool} {h : List (Op P H)}
    (hnone : functionOf b pin h = none) : armed b pin high h = false := by
  induction h with
  | nil => rfl
  | cons op h ih =>
    cases op with
    | attach arduinoPin userFunc mode new input =>
      rw [functionOf] at hnone
      split_ifs at hnone with hacc
      · obtain ⟨huser, hrest⟩ := Option.or_eq_none_iff.mp hnone
        simp [armed, ih hrest, huser]
      · rw [armed, ih hnone, Bool.false_or, decide_eq_false_iff_not]
        rintro ⟨hpin, hport, -, hnew, -⟩
        exact hacc ⟨hpin, hport, hnew⟩
    | detach arduinoPin =>
      rw [armed, ih hnone, ite_self]
    | round q curr => exact ih hnone

/-! ## Registers -/

/-- The register of the pins that answer an edge to the level `high`. -/
def PCintPort.edges (high : Bool) (port : PCintPort H) : Reg :=
  if high then port.portRisingPins else port.portFallingPins

theorem changedPins_bit (port : PCintPort H) (curr : Reg) {i : ℕ} (hi : i < 8) :
    (changedPins port curr).getLsbD i = true ↔
      curr.getLsbD i ≠ port.lastPinView.getLsbD i ∧
        (port.edges (curr.getLsbD i)).getLsbD i = true := by
  simp only [changedPins, PCintPort.edges, BitVec.getLsbD_and, BitVec.getLsbD_or,
    BitVec.getLsbD_xor, BitVec.getLsbD_not, decide_eq_true hi]
  cases curr.getLsbD i <;> cases port.lastPinView.getLsbD i <;> simp

variable [DecidableEq P]

theorem edges_enable (q : P) (p : PCintPin H) (s : Lib P H) (high : Bool) :
    ((enable b q p s).port q).edges high =
      if Covers p.mode high then (s.port q).edges high ||| p.mask else (s.port q).edges high := by
  cases high <;> simp [enable, Lib.setPort, PCintPort.edges, Covers]

theorem edges_disable (q : P) (pin : Pin) (current : PCintPin H) (s : Lib P H) (high : Bool) :
    ((disable b q pin current s).port q).edges high =
      (s.port q).edges high &&& ~~~current.mask := by
  cases high <;> simp [disable, Lib.setPort, PCintPort.edges]

/-! ## Levels, order and the library's state -/

/-- The level of the pin when its port was last looked at: by an interrupt, or by an attachment of
any of the port's pins. -/
def seen (pin : Pin) : List (Op P H) → Bool
  | [] => false
  | .attach arduinoPin userFunc _ _ input :: h =>
    match b.digitalPinToPort pin with
    | none => false
    | some q =>
      if b.digitalPinToPort arduinoPin = some q ∧ userFunc.isSome then
        (input q).getLsbD (b.place pin)
      else seen pin h
  | .detach _ :: h => seen pin h
  | .round q curr :: h =>
    if b.digitalPinToPort pin = some q then curr.getLsbD (b.place pin) else seen pin h

/-- The pins of a port, in the order of their first attachment. -/
def attached (q : P) : List (Op P H) → List Pin
  | [] => []
  | .attach arduinoPin userFunc _ new _ :: h =>
    if b.digitalPinToPort arduinoPin = some q ∧ userFunc.isSome ∧ new ∧
      functionOf b arduinoPin h = none then attached q h ++ [arduinoPin]
    else attached q h
  | .detach _ :: h => attached q h
  | .round _ _ :: h => attached q h

def act (s : Lib P H) : Op P H → Lib P H
  | .attach arduinoPin userFunc mode new input =>
    (attachInterrupt b arduinoPin userFunc mode new input s).1
  | .detach arduinoPin => detachInterrupt b arduinoPin s
  | .round q curr => (round q curr s).1

def after : List (Op P H) → Lib P H
  | [] => .init
  | op :: h => act b (after h) op

/-! ## The list of a port -/

theorem map_reenable (arduinoPin : Pin) (f : H) (mode : BitVec 8) (ps : List (PCintPin H)) :
    (reenable arduinoPin f mode ps).map (·.arduinoPin) = ps.map (·.arduinoPin) := by
  induction ps with
  | nil => rfl
  | cons p ps ih =>
    rw [reenable]
    split_ifs
    · rfl
    · rw [List.map_cons, ih, List.map_cons]

/-- In a list without repeated pins every entry is the pin's own new one or an old one. -/
theorem mem_reenable {arduinoPin : Pin} {f : H} {mode : BitVec 8} {ps : List (PCintPin H)}
    (hnd : (ps.map (·.arduinoPin)).Nodup) {p : PCintPin H}
    (hp : p ∈ reenable arduinoPin f mode ps) :
    (p.arduinoPin = arduinoPin ∧ p.PCintFunc = f ∧
        ∃ p' ∈ ps, p'.arduinoPin = arduinoPin ∧ p.mask = p'.mask) ∨
      (p.arduinoPin ≠ arduinoPin ∧ p ∈ ps) := by
  induction ps with
  | nil => simp [reenable] at hp
  | cons a ps ih =>
    rw [List.map_cons, List.nodup_cons] at hnd
    rw [reenable] at hp
    split_ifs at hp with ha
    · rcases List.mem_cons.mp hp with rfl | hmem
      · exact Or.inl ⟨ha, rfl, a, List.mem_cons_self, ha, rfl⟩
      · refine Or.inr ⟨fun he => hnd.1 ?_, List.mem_cons_of_mem a hmem⟩
        exact List.mem_map.mpr ⟨p, hmem, he.trans ha.symm⟩
    · rcases List.mem_cons.mp hp with rfl | hmem
      · exact Or.inr ⟨ha, List.mem_cons_self⟩
      · rcases ih hnd.2 hmem with ⟨hpin, hf, p', hp', hrest⟩ | ⟨hne, hold⟩
        · exact Or.inl ⟨hpin, hf, p', List.mem_cons_of_mem a hp', hrest⟩
        · exact Or.inr ⟨hne, List.mem_cons_of_mem a hold⟩

/-! ## What the objects of a port promise -/

/-- The objects of a port are as the history promises each of its pins. -/
structure Represents (h : List (Op P H)) (q : P) (port : PCintPort H) : Prop where
  pins : port.firstPin.map (·.arduinoPin) = attached b q h
  nodup : (attached b q h).Nodup
  listed : ∀ pin, b.digitalPinToPort pin = some q →
    (pin ∈ attached b q h ↔ functionOf b pin h ≠ none)
  home : ∀ p ∈ port.firstPin, b.digitalPinToPort p.arduinoPin = some q
  mask : ∀ p ∈ port.firstPin, p.mask = b.digitalPinToBitMask p.arduinoPin
  function : ∀ p ∈ port.firstPin, functionOf b p.arduinoPin h = some p.PCintFunc
  edges : ∀ pin high, b.digitalPinToPort pin = some q →
    (port.edges high).getLsbD (b.place pin) = armed b pin high h
  view : ∀ pin, b.digitalPinToPort pin = some q →
    port.lastPinView.getLsbD (b.place pin) = seen b pin h

theorem represents_init (q : P) : Represents (H := H) b [] q .init where
  pins := rfl
  nodup := List.nodup_nil
  listed := fun pin _ => by simp [attached, functionOf]
  home := fun p hp => absurd hp List.not_mem_nil
  mask := fun p hp => absurd hp List.not_mem_nil
  function := fun p hp => absurd hp List.not_mem_nil
  edges := fun pin high _ => by cases high <;> simp [PCintPort.edges, PCintPort.init, armed]
  view := fun pin _ => by simp [PCintPort.init, seen]

theorem represents_round {h : List (Op P H)} {s : Lib P H} {q : P}
    (hs : Represents b h q (s.port q)) (q' : P) (curr : Reg) :
    Represents b (.round q' curr :: h) q ((round q' curr s).1.port q) := by
  by_cases hq : q = q'
  · subst hq
    have hport : (round q curr s).1.port q = { s.port q with lastPinView := curr } := by
      simp [round, Lib.view, Lib.setPort]
    rw [hport]
    refine ⟨hs.pins, hs.nodup, hs.listed, hs.home, hs.mask, hs.function, hs.edges, ?_⟩
    intro pin hpin
    rw [seen, if_pos hpin]
  · have hport : (round q' curr s).1.port q = s.port q := by
      simp [round, Lib.view, Lib.setPort, Function.update_of_ne hq]
    rw [hport]
    refine ⟨hs.pins, hs.nodup, hs.listed, hs.home, hs.mask, hs.function, hs.edges, ?_⟩
    intro pin hpin
    rw [seen, if_neg (fun he => hq (Option.some.inj (hpin.symm.trans he))), hs.view pin hpin]

/-- What a call of `detachInterrupt` does. -/
theorem detach_cases (arduinoPin : Pin) (s : Lib P H) :
    (detachInterrupt b arduinoPin s = s ∧ ∀ q, b.digitalPinToPort arduinoPin = some q →
      ∀ p ∈ (s.port q).firstPin, p.mask ≠ b.digitalPinToBitMask arduinoPin) ∨
    ∃ q current, b.digitalPinToPort arduinoPin = some q ∧
      current.mask = b.digitalPinToBitMask arduinoPin ∧
      detachInterrupt b arduinoPin s = disable b q arduinoPin current s := by
  unfold detachInterrupt
  split
  · next hport => exact Or.inl ⟨rfl, fun q hq => by rw [hport] at hq; cases hq⟩
  · next q hport =>
    split
    · next hfind =>
      refine Or.inl ⟨rfl, fun q' hq' p hp he => ?_⟩
      have hqq : q = q' := Option.some.inj (hport.symm.trans hq')
      subst hqq
      exact List.find?_eq_none.mp hfind p hp (decide_eq_true he)
    · next current hfind =>
      have hmask := List.find?_some hfind
      exact Or.inr ⟨q, current, hport, by simpa using hmask, rfl⟩

/-- A call of `detachInterrupt` changes which edges the pins answer, and nothing else. -/
theorem represents_disarmed {h : List (Op P H)} {q : P} {port port' : PCintPort H}
    (hs : Represents b h q port) (arduinoPin : Pin) (hfirst : port'.firstPin = port.firstPin)
    (hview : port'.lastPinView = port.lastPinView)
    (hedges : ∀ pin high, b.digitalPinToPort pin = some q →
      (port'.edges high).getLsbD (b.place pin) = armed b pin high (.detach arduinoPin :: h)) :
    Represents b (.detach arduinoPin :: h) q port' where
  pins := hfirst ▸ hs.pins
  nodup := hs.nodup
  listed := hs.listed
  home := hfirst ▸ hs.home
  mask := hfirst ▸ hs.mask
  function := hfirst ▸ hs.function
  edges := hedges
  view := hview ▸ hs.view

theorem represents_detach {h : List (Op P H)} {s : Lib P H} {q : P}
    (hs : Represents b h q (s.port q)) (arduinoPin : Pin) :
    Represents b (.detach arduinoPin :: h) q ((detachInterrupt b arduinoPin s).port q) := by
  rcases detach_cases b arduinoPin s with ⟨hsame, hnone⟩ | ⟨q', current, hport, hcur, hdis⟩
  · rw [hsame]
    refine represents_disarmed b hs arduinoPin rfl rfl ?_
    intro pin high hpin
    rw [hs.edges pin high hpin, armed]
    split_ifs with he
    · subst he
      have hout : arduinoPin ∉ attached b q h := by
        rw [← hs.pins]
        intro hmem
        obtain ⟨p, hp, hpe⟩ := List.mem_map.mp hmem
        exact hnone q hpin p hp (by rw [hs.mask p hp, hpe])
      rw [hs.listed arduinoPin hpin, not_not] at hout
      exact armed_of_not_listed b hout
    · rfl
  · rw [hdis]
    by_cases hq : q = q'
    · subst hq
      refine represents_disarmed b hs arduinoPin (by simp [disable, Lib.setPort])
        (by simp [disable, Lib.setPort]) ?_
      intro pin high hpin
      rw [edges_disable, hcur, clear_mask b hpin hport, hs.edges pin high hpin, armed]
      split_ifs with he <;> simp [he]
    · have hsame : (disable b q' arduinoPin current s).port q = s.port q := by
        simp [disable, Lib.setPort, Function.update_of_ne hq]
      rw [hsame]
      refine represents_disarmed b hs arduinoPin rfl rfl ?_
      intro pin high hpin
      have hne : arduinoPin ≠ pin := by
        intro he
        rw [he, hpin] at hport
        exact hq (Option.some.inj hport)
      rw [hs.edges pin high hpin, armed, if_neg hne]

/-- What a call of `attachInterrupt` does: nothing, or a look at the port, after which memory fails
or the pin's entry, old or new, is enabled. -/
theorem attach_cases (arduinoPin : Pin) (userFunc : Option H) (mode : BitVec 16) (new : Bool)
    (input : P → Reg) (s : Lib P H) :
    ((attachInterrupt b arduinoPin userFunc mode new input s).1 = s ∧
      (b.digitalPinToPort arduinoPin = none ∨ userFunc = none)) ∨
    ∃ q f, b.digitalPinToPort arduinoPin = some q ∧ userFunc = some f ∧
      (((attachInterrupt b arduinoPin userFunc mode new input s).1 = s.view q (input q) ∧
          new = false ∧ arduinoPin ∉ (s.port q).firstPin.map (·.arduinoPin)) ∨
        ∃ p ps, p.arduinoPin = arduinoPin ∧ p.mode = mode.setWidth 8 ∧
          (attachInterrupt b arduinoPin userFunc mode new input s).1 =
            enable b q p ((s.view q (input q)).setPins q ps) ∧
          ((arduinoPin ∈ (s.port q).firstPin.map (·.arduinoPin) ∧
              (∃ p' ∈ (s.port q).firstPin, p.mask = p'.mask ∧ p'.arduinoPin = arduinoPin) ∧
              ps = reenable arduinoPin f (mode.setWidth 8) (s.port q).firstPin) ∨
            (new = true ∧ arduinoPin ∉ (s.port q).firstPin.map (·.arduinoPin) ∧
              p = newPin b arduinoPin f (mode.setWidth 8) ∧
              ps = (s.port q).firstPin ++ [p]))) := by
  cases hport : b.digitalPinToPort arduinoPin with
  | none => exact Or.inl ⟨by simp [attachInterrupt, hport], Or.inl rfl⟩
  | some q =>
    cases userFunc with
    | none => exact Or.inl ⟨by simp [attachInterrupt, hport], Or.inr rfl⟩
    | some f =>
      refine Or.inr ⟨q, f, rfl, rfl, ?_⟩
      have hlist : ((s.view q (input q)).port q).firstPin = (s.port q).firstPin := by
        simp [Lib.view, Lib.setPort]
      simp only [attachInterrupt, hport, addPin, hlist]
      cases hfind : (s.port q).firstPin.find? (fun p => p.arduinoPin = arduinoPin) with
      | some p =>
        have hpin : p.arduinoPin = arduinoPin := by
          have h := List.find?_some hfind
          simpa using h
        have hmem := List.mem_of_find?_eq_some hfind
        refine Or.inr ⟨{ p with mode := mode.setWidth 8, PCintFunc := f }, _, hpin, rfl, rfl,
          Or.inl ⟨List.mem_map.mpr ⟨p, hmem, hpin⟩, ⟨p, hmem, rfl, hpin⟩, rfl⟩⟩
      | none =>
        have hout : arduinoPin ∉ (s.port q).firstPin.map (·.arduinoPin) := by
          intro hmem
          obtain ⟨p, hp, hpe⟩ := List.mem_map.mp hmem
          exact List.find?_eq_none.mp hfind p hp (decide_eq_true hpe)
        cases new with
        | false => exact Or.inl ⟨rfl, rfl, hout⟩
        | true =>
          exact Or.inr ⟨newPin b arduinoPin f (mode.setWidth 8), _, rfl, rfl, rfl,
            Or.inr ⟨rfl, hout, rfl, rfl⟩⟩

/-! ## An attachment that is refused, and one that is carried out -/

/-- Why an attachment stores nothing: no port, no function or no memory. -/
def Refused (arduinoPin : Pin) (userFunc : Option H) (new : Bool) (h : List (Op P H)) : Prop :=
  b.digitalPinToPort arduinoPin = none ∨ userFunc = none ∨
    (new = false ∧ functionOf b arduinoPin h = none)

omit [DecidableEq P] in
theorem functionOf_refused {arduinoPin : Pin} {userFunc : Option H} {mode : BitVec 16} {new : Bool}
    {input : P → Reg} {h : List (Op P H)} (href : Refused b arduinoPin userFunc new h) (pin : Pin) :
    functionOf b pin (.attach arduinoPin userFunc mode new input :: h) = functionOf b pin h := by
  rw [functionOf]
  split_ifs with hacc
  · obtain ⟨rfl, hport, hnew⟩ := hacc
    rcases href with hr | hr | ⟨hr, hnone⟩
    · rw [hr] at hport
      cases hport
    · rw [hr, Option.none_or]
    · rw [hr, hnone] at hnew
      simp at hnew
  · rfl

omit [DecidableEq P] in
theorem armed_refused {arduinoPin : Pin} {userFunc : Option H} {mode : BitVec 16} {new : Bool}
    {input : P → Reg} {h : List (Op P H)} (href : Refused b arduinoPin userFunc new h) (pin : Pin)
    (high : Bool) :
    armed b pin high (.attach arduinoPin userFunc mode new input :: h) = armed b pin high h := by
  rw [armed, Bool.or_eq_left_iff_imp, decide_eq_true_eq]
  rintro ⟨rfl, hport, huser, hnew, -⟩
  rcases href with hr | hr | ⟨hr, hnone⟩
  · rw [hr] at hport
    cases hport
  · rw [hr] at huser
    cases huser
  · rw [hr, hnone] at hnew
    simp at hnew

theorem attached_refused {arduinoPin : Pin} {userFunc : Option H} {mode : BitVec 16} {new : Bool}
    {input : P → Reg} {h : List (Op P H)} (href : Refused b arduinoPin userFunc new h) (q : P) :
    attached b q (.attach arduinoPin userFunc mode new input :: h) = attached b q h := by
  rw [attached, if_neg]
  rintro ⟨hport, huser, hnew, -⟩
  rcases href with hr | hr | ⟨hr, -⟩
  · rw [hr] at hport
    cases hport
  · rw [hr] at huser
    cases huser
  · rw [hr] at hnew
    cases hnew

omit [DecidableEq P] in
theorem functionOf_accepted {arduinoPin : Pin} {f : H} {mode : BitVec 16} {new : Bool}
    {input : P → Reg} {h : List (Op P H)} {q : P} (hport : b.digitalPinToPort arduinoPin = some q)
    (hacc : new = true ∨ functionOf b arduinoPin h ≠ none) (pin : Pin) :
    functionOf b pin (.attach arduinoPin (some f) mode new input :: h) =
      if arduinoPin = pin then some f else functionOf b pin h := by
  rw [functionOf]
  by_cases he : arduinoPin = pin
  · subst he
    rw [if_pos rfl, if_pos ⟨rfl, by simp [hport], by rwa [Option.isSome_iff_ne_none]⟩, Option.some_or]
  · rw [if_neg he, if_neg (fun hc => he hc.1)]

omit [DecidableEq P] in
theorem armed_accepted {arduinoPin : Pin} {f : H} {mode : BitVec 16} {new : Bool}
    {input : P → Reg} {h : List (Op P H)} {q : P} (hport : b.digitalPinToPort arduinoPin = some q)
    (hacc : new = true ∨ functionOf b arduinoPin h ≠ none) (pin : Pin) (high : Bool) :
    armed b pin high (.attach arduinoPin (some f) mode new input :: h) =
      (armed b pin high h || decide (arduinoPin = pin ∧ Covers (mode.setWidth 8) high)) := by
  rw [armed]
  congr 1
  rw [decide_eq_decide]
  constructor
  · rintro ⟨he, -, -, -, hcov⟩
    exact ⟨he, hcov⟩
  · rintro ⟨rfl, hcov⟩
    exact ⟨rfl, by simp [hport], rfl, by rwa [Option.isSome_iff_ne_none], hcov⟩

theorem seen_attach {arduinoPin pin : Pin} {f : H} {mode : BitVec 16} {new : Bool}
    {input : P → Reg} {h : List (Op P H)} {q : P} (hport : b.digitalPinToPort arduinoPin = some q)
    (hpin : b.digitalPinToPort pin = some q) :
    seen b pin (.attach arduinoPin (some f) mode new input :: h) =
      (input q).getLsbD (b.place pin) := by
  simp [seen, hport, hpin]

/-! ## The library keeps its promises -/

/-- An attachment that stores nothing: the levels seen may be new, the rest is as before. -/
theorem represents_refused {h : List (Op P H)} {q : P} {port port' : PCintPort H}
    (hs : Represents b h q port) {arduinoPin : Pin} {userFunc : Option H} {mode : BitVec 16}
    {new : Bool} {input : P → Reg} (href : Refused b arduinoPin userFunc new h)
    (hport : port' = { port with lastPinView := port'.lastPinView })
    (hview : ∀ pin, b.digitalPinToPort pin = some q → port'.lastPinView.getLsbD (b.place pin) =
      seen b pin (.attach arduinoPin userFunc mode new input :: h)) :
    Represents b (.attach arduinoPin userFunc mode new input :: h) q port' := by
  have hattached : attached b q (.attach arduinoPin userFunc mode new input :: h) =
      attached b q h := attached_refused b href q
  have hedges : ∀ high, port'.edges high = port.edges high := by
    intro high
    rw [hport]
    rfl
  have hfirst : port'.firstPin = port.firstPin := by rw [hport]
  refine ⟨?_, ?_, ?_, ?_, ?_, ?_, ?_, hview⟩
  · rw [hattached, hfirst]
    exact hs.pins
  · rw [hattached]
    exact hs.nodup
  · intro pin hpin
    rw [hattached, functionOf_refused b href]
    exact hs.listed pin hpin
  · rw [hfirst]
    exact hs.home
  · rw [hfirst]
    exact hs.mask
  · rw [hfirst]
    intro p hp
    rw [functionOf_refused b href]
    exact hs.function p hp
  · intro pin high hpin
    rw [hedges, armed_refused b href]
    exact hs.edges pin high hpin

/-- An attachment of a pin of another port. -/
theorem represents_elsewhere {h : List (Op P H)} {q q' : P} {port : PCintPort H}
    (hs : Represents b h q port) {arduinoPin : Pin} (hport : b.digitalPinToPort arduinoPin = some q')
    (hq : q ≠ q') (userFunc : Option H) (mode : BitVec 16) (new : Bool) (input : P → Reg) :
    Represents b (.attach arduinoPin userFunc mode new input :: h) q port := by
  have hne : ∀ pin, b.digitalPinToPort pin = some q → arduinoPin ≠ pin := by
    intro pin hpin he
    rw [he, hpin] at hport
    exact hq (Option.some.inj hport)
  have hqq : ¬ q' = q := fun he => hq he.symm
  have hfun : ∀ pin, b.digitalPinToPort pin = some q →
      functionOf b pin (.attach arduinoPin userFunc mode new input :: h) = functionOf b pin h := by
    intro pin hpin
    rw [functionOf, if_neg (fun hc => hne pin hpin hc.1)]
  have hattached : attached b q (.attach arduinoPin userFunc mode new input :: h) =
      attached b q h := by
    rw [attached, if_neg]
    rintro ⟨hc, -⟩
    exact hqq (Option.some.inj (hport.symm.trans hc))
  refine ⟨?_, ?_, ?_, hs.home, hs.mask, ?_, ?_, ?_⟩
  · rw [hattached]
    exact hs.pins
  · rw [hattached]
    exact hs.nodup
  · intro pin hpin
    rw [hattached, hfun pin hpin]
    exact hs.listed pin hpin
  · intro p hp
    rw [hfun _ (hs.home p hp)]
    exact hs.function p hp
  · intro pin high hpin
    rw [hs.edges pin high hpin, armed]
    simp [hne pin hpin]
  · intro pin hpin
    rw [hs.view pin hpin, seen, hpin]
    simp [hport, hqq]

/-- The port's object after an entry `p` is enabled in the list `ps`. -/
theorem represents_enabled {h : List (Op P H)} {s : Lib P H} {q : P}
    (hs : Represents b h q (s.port q)) {arduinoPin : Pin} {f : H} {mode : BitVec 16} {new : Bool}
    {input : P → Reg} (hport : b.digitalPinToPort arduinoPin = some q)
    (hacc : new = true ∨ functionOf b arduinoPin h ≠ none) {p : PCintPin H}
    {ps : List (PCintPin H)} (hmode : p.mode = mode.setWidth 8)
    (hmask : p.mask = b.digitalPinToBitMask arduinoPin)
    (hpins : ps.map (·.arduinoPin) =
      attached b q (.attach arduinoPin (some f) mode new input :: h))
    (hnodup : (ps.map (·.arduinoPin)).Nodup)
    (hlisted : ∀ pin, pin ∈ ps.map (·.arduinoPin) ↔ arduinoPin = pin ∨ pin ∈ attached b q h)
    (hps : ∀ p' ∈ ps, (p'.arduinoPin = arduinoPin ∧ p'.PCintFunc = f ∧
        p'.mask = b.digitalPinToBitMask arduinoPin) ∨
      (p'.arduinoPin ≠ arduinoPin ∧ p' ∈ (s.port q).firstPin)) :
    Represents b (.attach arduinoPin (some f) mode new input :: h) q
      ((enable b q p ((s.view q (input q)).setPins q ps)).port q) := by
  have hfirst : ((enable b q p ((s.view q (input q)).setPins q ps)).port q).firstPin = ps := by
    simp [enable, Lib.setPins, Lib.setPort]
  have hview : ((enable b q p ((s.view q (input q)).setPins q ps)).port q).lastPinView =
      input q := by
    simp [enable, Lib.setPins, Lib.setPort, Lib.view]
  have hold : ∀ high, (((s.view q (input q)).setPins q ps).port q).edges high =
      (s.port q).edges high := by
    intro high
    cases high <;> simp [Lib.setPins, Lib.setPort, Lib.view, PCintPort.edges]
  refine ⟨?_, ?_, ?_, ?_, ?_, ?_, ?_, ?_⟩
  · rw [hfirst, hpins]
  · rwa [← hpins]
  · intro pin hpin
    rw [← hpins, hlisted pin, functionOf_accepted b hport hacc]
    by_cases he : arduinoPin = pin
    · simp [he]
    · rw [if_neg he, or_iff_right he]
      exact hs.listed pin hpin
  · rw [hfirst]
    intro p' hp'
    rcases hps p' hp' with ⟨he, -⟩ | ⟨-, hmem⟩
    · rw [he, hport]
    · exact hs.home p' hmem
  · rw [hfirst]
    intro p' hp'
    rcases hps p' hp' with ⟨he, -, hm⟩ | ⟨-, hmem⟩
    · rw [he, hm]
    · exact hs.mask p' hmem
  · rw [hfirst]
    intro p' hp'
    rw [functionOf_accepted b hport hacc]
    rcases hps p' hp' with ⟨he, hf, -⟩ | ⟨hne, hmem⟩
    · rw [if_pos he.symm, hf]
    · rw [if_neg (Ne.symm hne)]
      exact hs.function p' hmem
  · intro pin high hpin
    rw [edges_enable, hold, hmode, hmask, armed_accepted b hport hacc, ← hs.edges pin high hpin]
    split_ifs with hcov
    · rw [set_mask b hpin hport]
      simp [hcov]
    · simp [hcov]
  · intro pin hpin
    rw [hview, seen_attach b hport hpin]

/-- A pin attached again: the entry it has gets the new function and mode. -/
theorem represents_reenabled {h : List (Op P H)} {s : Lib P H} {q : P}
    (hs : Represents b h q (s.port q)) {arduinoPin : Pin} {f : H} {mode : BitVec 16} {new : Bool}
    {input : P → Reg} (hport : b.digitalPinToPort arduinoPin = some q)
    (hmem : arduinoPin ∈ (s.port q).firstPin.map (·.arduinoPin)) {p p' : PCintPin H}
    (hmode : p.mode = mode.setWidth 8) (hp' : p' ∈ (s.port q).firstPin) (hmask : p.mask = p'.mask)
    (hp'e : p'.arduinoPin = arduinoPin) :
    Represents b (.attach arduinoPin (some f) mode new input :: h) q
      ((enable b q p ((s.view q (input q)).setPins q
        (reenable arduinoPin f (mode.setWidth 8) (s.port q).firstPin))).port q) := by
  have hsomefun : functionOf b arduinoPin h ≠ none := by
    rw [hs.pins] at hmem
    exact (hs.listed arduinoPin hport).mp hmem
  have hpins : (reenable arduinoPin f (mode.setWidth 8) (s.port q).firstPin).map
      (·.arduinoPin) = attached b q h := by rw [map_reenable, hs.pins]
  refine represents_enabled b hs hport (Or.inr hsomefun) hmode ?_ ?_ ?_ ?_ ?_
  · rw [hmask, hs.mask p' hp', hp'e]
  · rw [hpins, attached, if_neg (fun hc => hsomefun hc.2.2.2)]
  · rw [hpins]
    exact hs.nodup
  · intro pin
    rw [hpins]
    refine ⟨Or.inr, fun hor => hor.elim (fun he => ?_) id⟩
    rw [← he, ← hs.pins]
    exact hmem
  · intro p'' hp''
    have hnd : ((s.port q).firstPin.map (·.arduinoPin)).Nodup := by
      rw [hs.pins]
      exact hs.nodup
    rcases mem_reenable hnd hp'' with ⟨he, hf, p₀, hp₀, hp₀e, hm⟩ | hold
    · exact Or.inl ⟨he, hf, by rw [hm, hs.mask p₀ hp₀, hp₀e]⟩
    · exact Or.inr hold

/-- A pin attached for the first time: its entry is the last of the list. -/
theorem represents_appended {h : List (Op P H)} {s : Lib P H} {q : P}
    (hs : Represents b h q (s.port q)) {arduinoPin : Pin} {f : H} {mode : BitVec 16}
    {input : P → Reg} (hport : b.digitalPinToPort arduinoPin = some q)
    (hout : arduinoPin ∉ (s.port q).firstPin.map (·.arduinoPin)) :
    Represents b (.attach arduinoPin (some f) mode true input :: h) q
      ((enable b q (newPin b arduinoPin f (mode.setWidth 8)) ((s.view q (input q)).setPins q
        ((s.port q).firstPin ++ [newPin b arduinoPin f (mode.setWidth 8)]))).port q) := by
  have hout' : arduinoPin ∉ attached b q h := by rwa [← hs.pins]
  have hnone : functionOf b arduinoPin h = none := by
    rwa [hs.listed arduinoPin hport, not_not] at hout'
  have hpins : ((s.port q).firstPin ++ [newPin b arduinoPin f (mode.setWidth 8)]).map
      (·.arduinoPin) = attached b q h ++ [arduinoPin] := by
    rw [List.map_append, hs.pins]
    rfl
  refine represents_enabled b hs hport (Or.inl rfl) rfl rfl ?_ ?_ ?_ ?_
  · rw [hpins, attached, if_pos ⟨hport, rfl, rfl, hnone⟩]
  · rw [hpins, List.nodup_append]
    refine ⟨hs.nodup, by simp, ?_⟩
    intro pin hpin pin' hpin' he
    rw [List.mem_singleton] at hpin'
    rw [he, hpin'] at hpin
    exact hout' hpin
  · intro pin
    rw [hpins, List.mem_append, List.mem_singleton, or_comm, eq_comm]
  · intro p' hp'
    rcases List.mem_append.mp hp' with hmem | hmem
    · refine Or.inr ⟨fun he => hout ?_, hmem⟩
      exact List.mem_map.mpr ⟨p', hmem, he⟩
    · rw [List.mem_singleton] at hmem
      rw [hmem]
      exact Or.inl ⟨rfl, rfl, rfl⟩

theorem represents_attach {h : List (Op P H)} {s : Lib P H} {q : P}
    (hs : Represents b h q (s.port q)) (arduinoPin : Pin) (userFunc : Option H)
    (mode : BitVec 16) (new : Bool) (input : P → Reg) :
    Represents b (.attach arduinoPin userFunc mode new input :: h) q
      ((attachInterrupt b arduinoPin userFunc mode new input s).1.port q) := by
  rcases attach_cases b arduinoPin userFunc mode new input s with
    ⟨hsame, hwhy⟩ | ⟨q', f, hport, rfl, hcase⟩
  · have href : Refused b arduinoPin userFunc new h := hwhy.imp_right Or.inl
    rw [hsame]
    refine represents_refused b hs href rfl ?_
    intro pin hpin
    rw [hs.view pin hpin, seen, hpin]
    rcases hwhy with hno | hno <;> simp [hno]
  · by_cases hq : q = q'
    · subst hq
      rcases hcase with ⟨hview, rfl, hout⟩ | ⟨p, ps, hpe, hmode, hstate, hkind⟩
      · have href : Refused b arduinoPin (some f) false h := by
          refine Or.inr (Or.inr ⟨rfl, ?_⟩)
          rwa [hs.pins, hs.listed arduinoPin hport, not_not] at hout
        have hpq : (s.view q (input q)).port q = { s.port q with lastPinView := input q } := by
          simp [Lib.view, Lib.setPort]
        rw [hview, hpq]
        refine represents_refused b hs href rfl ?_
        intro pin hpin
        rw [seen_attach b hport hpin]
      · rw [hstate]
        rcases hkind with ⟨hmem, ⟨p', hp', hmask, hp'e⟩, rfl⟩ | ⟨rfl, hout, rfl, rfl⟩
        · exact represents_reenabled b hs hport hmem hmode hp' hmask hp'e
        · exact represents_appended b hs hport hout
    · have hsame : (attachInterrupt b arduinoPin (some f) mode new input s).1.port q =
          s.port q := by
        rcases hcase with ⟨hview, -⟩ | ⟨p, ps, -, -, hstate, -⟩
        · rw [hview]
          simp [Lib.view, Lib.setPort, Function.update_of_ne hq]
        · rw [hstate]
          simp [enable, Lib.setPins, Lib.view, Lib.setPort, Function.update_of_ne hq]
      rw [hsame]
      exact represents_elsewhere b hs hport hq (some f) mode new input

theorem represents_after (h : List (Op P H)) (q : P) :
    Represents b h q ((after b h).port q) := by
  induction h with
  | nil => exact represents_init b q
  | cons op h ih =>
    cases op with
    | attach arduinoPin userFunc mode new input =>
      exact represents_attach b ih arduinoPin userFunc mode new input
    | detach arduinoPin => exact represents_detach b ih arduinoPin
    | round q' curr => exact represents_round b ih q' curr

/-! ## The calls of a round -/

/-- What a round on the levels `curr` owes a pin. -/
def answer (h : List (Op P H)) (curr : Reg) (pin : Pin) : Option (Call H) :=
  let high := curr.getLsbD (b.place pin)
  if high ≠ seen b pin h ∧ armed b pin high h then
    (functionOf b pin h).map (fun f => { PCintFunc := f, arduinoPin := pin, pinState := high })
  else none

theorem walk_eq_filterMap (changed curr : Reg) (ps : List (PCintPin H)) :
    walk changed curr ps =
      ps.filterMap (fun p => if p.mask &&& changed ≠ 0 then some (p.call curr) else none) := by
  induction ps with
  | nil => rfl
  | cons p ps ih =>
    rw [walk, ih]
    by_cases hp : p.mask &&& changed ≠ 0
    · rw [if_pos hp, List.filterMap_cons_some (by rw [if_pos hp])]
    · rw [if_neg hp, List.filterMap_cons_none (by rw [if_neg hp])]

theorem round_answers (h : List (Op P H)) (q : P) (curr : Reg) :
    (round q curr (after b h)).2 = (attached b q h).filterMap (answer b h curr) := by
  have hs := represents_after b h q
  rw [← hs.pins, List.filterMap_map]
  change walk _ _ _ = _
  rw [walk_eq_filterMap]
  apply List.filterMap_congr
  intro p hp
  have hpin := hs.home p hp
  have hmask := hs.mask p hp
  have hfun := hs.function p hp
  have hbit := changedPins_bit ((after b h).port q) curr (b.place_lt p.arduinoPin)
  rw [hs.view _ hpin, hs.edges _ _ hpin] at hbit
  have hcalled := (Bits.test_bit' _ _).trans hbit
  have hcall : p.call curr =
      { PCintFunc := p.PCintFunc, arduinoPin := p.arduinoPin,
        pinState := curr.getLsbD (b.place p.arduinoPin) } := by
    simp only [PCintPin.call, hmask, Board.digitalPinToBitMask, Bits.test_bit,
      Bool.decide_eq_true]
  simp only [Function.comp_apply, answer, hfun, Option.map_some, hmask,
    Board.digitalPinToBitMask, hcall]
  by_cases hc : curr.getLsbD (b.place p.arduinoPin) ≠ seen b p.arduinoPin h ∧
      armed b p.arduinoPin (curr.getLsbD (b.place p.arduinoPin)) h = true
  · rw [if_pos hc, if_pos (hcalled.mpr hc)]
  · rw [if_neg hc, if_neg (fun hm => hc (hcalled.mp hm))]

/-- After any calls of the library, a round for a port calls the function last attached to each pin
of the port whose level is not the one last seen, if the pin is armed for that edge: once each, in
the order of their first attachment, with the pin's own level, and no other function. -/
theorem round_calls (h : List (Op P H)) (q : P) (curr : Reg) :
    (round q curr (after b h)).2 = (attached b q h).filterMap (answer b h curr) ∧
      (attached b q h).Nodup :=
  ⟨round_answers b h q curr, (represents_after b h q).nodup⟩

end Histories

end TitanRover.PinChange
