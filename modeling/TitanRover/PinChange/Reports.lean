import Mathlib.Data.List.Destutter
import TitanRover.PinChange.History
import TitanRover.PinChange.Uno

/-! # What a pin's function is told over many interrupts

A function attached in mode `CHANGE` is called at the edges of the signal that the interrupts
sample, and is told the level after each: what it is told, after the level the port was last seen
with, is the sampled signal without its repetitions. -/
namespace TitanRover.PinChange
open Foundations
set_option autoImplicit false

section Keys
variable {α β : Type} [DecidableEq α]

/-- Of results listed under distinct keys, the one under `a`. -/
theorem filter_filterMap_key {l : List α} (hnd : l.Nodup) (g : α → Option β) (key : β → α)
    (hkey : ∀ x y, g x = some y → key y = x) (a : α) :
    (l.filterMap g).filter (fun y => key y = a) = if a ∈ l then (g a).toList else [] := by
  induction l with
  | nil => rfl
  | cons x l ih =>
    rw [List.nodup_cons] at hnd
    cases hx : g x with
    | none =>
      rw [List.filterMap_cons_none hx, ih hnd.2]
      by_cases hax : a = x
      · subst hax
        simp [hnd.1, hx]
      · simp [hax]
    | some y =>
      rw [List.filterMap_cons_some hx, List.filter_cons, hkey x y hx, ih hnd.2]
      by_cases hax : x = a
      · subst hax
        simp [hnd.1, hx]
      · simp [hax, Ne.symm hax]

end Keys

theorem destutter'_eq_cons (x : Bool) (xs : List Bool) :
    ∃ ys, xs.destutter' (· ≠ ·) x = x :: ys := by
  induction xs with
  | nil => exact ⟨[], rfl⟩
  | cons a xs ih =>
    by_cases hxa : x ≠ a
    · exact ⟨_, List.destutter'_cons_pos _ hxa⟩
    · rw [List.destutter'_cons_neg _ hxa]
      exact ih

/-- A signal ends on the level of its last edge. -/
theorem getLastD_of_destutter' {x : Bool} {xs ys : List Bool}
    (h : xs.destutter' (· ≠ ·) x = x :: ys) : ys.getLastD x = xs.getLastD x := by
  induction xs generalizing x ys with
  | nil =>
    rw [List.destutter'_nil, List.cons.injEq] at h
    rw [← h.2]
  | cons a xs ih =>
    rw [List.getLastD_cons]
    by_cases hxa : x ≠ a
    · rw [List.destutter'_cons_pos _ hxa, List.cons.injEq] at h
      obtain ⟨ys', hys'⟩ := destutter'_eq_cons a xs
      rw [← h.2, hys', List.getLastD_cons, ih hys']
    · rw [List.destutter'_cons_neg _ hxa] at h
      rw [ne_eq, not_not] at hxa
      subst hxa
      exact ih h

section Histories
variable {P H : Type}

/-- The history after rounds, oldest first, that follow the history `h`. -/
def afterRounds (h : List (Op P H)) (rs : List (P × Reg)) : List (Op P H) :=
  (rs.map (fun r => Op.round r.1 r.2)).reverse ++ h

theorem afterRounds_append (h : List (Op P H)) (rs : List (P × Reg)) (r : P × Reg) :
    afterRounds h (rs ++ [r]) = .round r.1 r.2 :: afterRounds h rs := by
  simp [afterRounds]

theorem armed_afterRounds (b : Board P) (pin : Pin) (high : Bool) (h : List (Op P H))
    (rs : List (P × Reg)) : armed b pin high (afterRounds h rs) = armed b pin high h := by
  induction rs generalizing h with
  | nil => rfl
  | cons r rs ih =>
    have hstep : afterRounds h (r :: rs) = afterRounds (.round r.1 r.2 :: h) rs := by
      simp [afterRounds]
    rw [hstep, ih, armed]

end Histories

section Stretches
variable {P H : Type} [DecidableEq P] (b : Board P)

theorem answer_pin {h : List (Op P H)} {curr : Reg} {pin : Pin} {c : Call H}
    (hc : answer b h curr pin = some c) : c.arduinoPin = pin := by
  simp only [answer, Option.ite_none_right_eq_some, Option.map_eq_some_iff] at hc
  obtain ⟨-, f, -, rfl⟩ := hc
  rfl

theorem answer_function {h : List (Op P H)} {curr : Reg} {pin : Pin} {c : Call H}
    (hc : answer b h curr pin = some c) : functionOf b c.arduinoPin h = some c.PCintFunc := by
  simp only [answer, Option.ite_none_right_eq_some, Option.map_eq_some_iff] at hc
  obtain ⟨-, f, hf, rfl⟩ := hc
  exact hf

/-- A round's calls for one of the port's pins. -/
theorem round_calls_pin {h : List (Op P H)} {q : P} {pin : Pin}
    (hpin : b.digitalPinToPort pin = some q) (curr : Reg) :
    (round q curr (after b h)).2.filter (fun c => c.arduinoPin = pin) =
      (answer b h curr pin).toList := by
  rw [round_answers, filter_filterMap_key (represents_after b h q).nodup _ _ (fun _ _ hc => answer_pin b hc)]
  by_cases hmem : pin ∈ attached b q h
  · rw [if_pos hmem]
  · have hnone : functionOf b pin h = none := by
      rwa [(represents_after b h q).listed pin hpin, not_not] at hmem
    rw [if_neg hmem]
    simp [answer, hnone]

/-- A round for another port. -/
theorem round_calls_other {h : List (Op P H)} {q q' : P} {pin : Pin}
    (hpin : b.digitalPinToPort pin = some q) (hq : q' ≠ q) (curr : Reg) :
    (round q' curr (after b h)).2.filter (fun c => c.arduinoPin = pin) = [] := by
  rw [round_answers, filter_filterMap_key (represents_after b h q').nodup _ _ (fun _ _ hc => answer_pin b hc), if_neg]
  rw [← (represents_after b h q').pins]
  intro hmem
  obtain ⟨p, hp, rfl⟩ := List.mem_map.mp hmem
  have hhome := (represents_after b h q').home p hp
  exact hq (Option.some.inj (hhome.symm.trans hpin))

/-- The calls of a pin's function in rounds that follow a history, oldest first. -/
def callsTo (pin : Pin) (h : List (Op P H)) : List (P × Reg) → List (Call H)
  | [] => []
  | r :: rs => (round r.1 r.2 (after b h)).2.filter (fun c => c.arduinoPin = pin) ++
      callsTo pin (.round r.1 r.2 :: h) rs

/-- The levels of a pin that the rounds for its port sample. -/
def samples (q : P) (pin : Pin) (rs : List (P × Reg)) : List Bool :=
  rs.filterMap (fun r => if r.1 = q then some (r.2.getLsbD (b.place pin)) else none)

theorem callsTo_function {h : List (Op P H)} {pin : Pin} {f : H} (hf : functionOf b pin h = some f)
    (rs : List (P × Reg)) : ∀ c ∈ callsTo b pin h rs, c.PCintFunc = f := by
  induction rs generalizing h with
  | nil => exact fun c hc => absurd hc List.not_mem_nil
  | cons r rs ih =>
    intro c hc
    rw [callsTo, List.mem_append, List.mem_filter, round_answers, List.mem_filterMap,
      decide_eq_true_eq] at hc
    rcases hc with ⟨⟨pin', -, hanswer⟩, hpin⟩ | hrest
    · have hfun := answer_function b hanswer
      rw [hpin, hf, Option.some.injEq] at hfun
      exact hfun.symm
    · exact ih (h := .round r.1 r.2 :: h) hf c hrest

theorem callsTo_levels {h : List (Op P H)} {q : P} {pin : Pin} {f : H}
    (hpin : b.digitalPinToPort pin = some q) (hf : functionOf b pin h = some f)
    (harmed : ∀ high, armed b pin high h = true) (rs : List (P × Reg)) :
    seen b pin h :: (callsTo b pin h rs).map (·.pinState) =
      (samples b q pin rs).destutter' (· ≠ ·) (seen b pin h) := by
  induction rs generalizing h with
  | nil => rfl
  | cons r rs ih =>
    obtain ⟨q', curr⟩ := r
    have hnext := ih (h := .round q' curr :: h) hf harmed
    by_cases hq : q' = q
    · subst hq
      have hseen : seen b pin (.round q' curr :: h) = curr.getLsbD (b.place pin) := by
        rw [seen, if_pos hpin]
      have hsamples : samples b q' pin ((q', curr) :: rs) =
          curr.getLsbD (b.place pin) :: samples b q' pin rs := by
        simp [samples]
      rw [callsTo, round_calls_pin b hpin, hsamples]
      rw [hseen] at hnext
      by_cases hlevel : curr.getLsbD (b.place pin) ≠ seen b pin h
      · have hanswer : answer b h curr pin =
            some { PCintFunc := f, arduinoPin := pin,
                   pinState := curr.getLsbD (b.place pin) } := by
          rw [answer, if_pos ⟨hlevel, harmed _⟩, hf, Option.map_some]
        rw [hanswer, List.destutter'_cons_pos _ hlevel.symm, ← hnext]
        rfl
      · rw [ne_eq, not_not] at hlevel
        have hanswer : answer b h curr pin = none := by
          rw [answer, if_neg (fun hc => hc.1 hlevel)]
        rw [hanswer, List.destutter'_cons_neg _ (fun hc => hc hlevel.symm), ← hlevel, ← hnext]
        rfl
    · have hseen : seen b pin (.round q' curr :: h) = seen b pin h := by
        rw [seen, if_neg]
        intro hc
        exact hq (Option.some.inj (hc.symm.trans hpin))
      have hsamples : samples b q pin ((q', curr) :: rs) = samples b q pin rs := by
        simp [samples, hq]
      rw [callsTo, round_calls_other b hpin hq, hsamples, ← hseen]
      exact hnext

/-- While a pin stays attached in mode `CHANGE`, its function is called at every edge of the sampled
signal and at nothing else, whatever happens on the other pins and ports. -/
theorem callsTo_edges {h : List (Op P H)} {q : P} {pin : Pin} {f : H}
    (hpin : b.digitalPinToPort pin = some q) (hf : functionOf b pin h = some f)
    (harmed : ∀ high, armed b pin high h = true) (rs : List (P × Reg)) :
    seen b pin h :: (callsTo b pin h rs).map (·.pinState) =
        (samples b q pin rs).destutter' (· ≠ ·) (seen b pin h) ∧
      ∀ c ∈ callsTo b pin h rs, c.PCintFunc = f :=
  ⟨callsTo_levels b hpin hf harmed rs, callsTo_function b hf rs⟩

end Stretches

/-- One function attached to the pin D8 in mode `CHANGE`, its line low. -/
def button : List (Op UnoPort Unit) := [.attach 8 (some ()) 1 true unoLow]

theorem callsTo_edges_button :
    seen uno 8 button :: (callsTo uno 8 button [(.B, 1), (.D, 1), (.B, 3), (.B, 2)]).map
        (·.pinState) =
      (samples uno .B 8 [(.B, 1), (.D, 1), (.B, 3), (.B, 2)]).destutter' (· ≠ ·)
        (seen uno 8 button) ∧
    ∀ c ∈ callsTo uno 8 button [(.B, 1), (.D, 1), (.B, 3), (.B, 2)], c.PCintFunc = () :=
  callsTo_edges uno rfl rfl (by decide) _

example : (callsTo uno 8 button [(.B, 1), (.D, 1), (.B, 3), (.B, 2)]).map (·.pinState) =
    [true, false] := by decide

section Stretches
variable {P H : Type} [DecidableEq P] (b : Board P)

theorem seen_afterRounds {q : P} {pin : Pin} (hpin : b.digitalPinToPort pin = some q)
    (h : List (Op P H)) (rs : List (P × Reg)) :
    seen b pin (afterRounds h rs) = (samples b q pin rs).getLastD (seen b pin h) := by
  induction rs generalizing h with
  | nil => rfl
  | cons r rs ih =>
    have hstep : afterRounds h (r :: rs) = afterRounds (.round r.1 r.2 :: h) rs := by
      simp [afterRounds]
    rw [hstep, ih, seen, hpin]
    by_cases hq : r.1 = q
    · have hsamples : samples b q pin (r :: rs) =
          r.2.getLsbD (b.place pin) :: samples b q pin rs := by simp [samples, hq]
      rw [if_pos (by rw [hq]), hsamples, List.getLastD_cons]
    · have hsamples : samples b q pin (r :: rs) = samples b q pin rs := by simp [samples, hq]
      rw [if_neg (fun he => hq (Option.some.inj he).symm), hsamples]

end Stretches

end TitanRover.PinChange
