import TitanRover.Training.Mix

/-! # The interlock of the relays

Each branch of `loop` writes the relay that it turns off first, so after every single write one of
the two pins drives 1. Only `setup` writes neither, and leaves both relays on. -/
namespace TitanRover.Training
open TitanRover.Stick Foundations Foundations.Run
set_option autoImplicit false

theorem digitalWrite_same (pins : Pins) (r : Relay) (level : Bool) :
    (digitalWrite pins (r, level) r).level = level := by
  rw [digitalWrite, Function.update_self]

theorem digitalWrite_other (pins : Pins) {r r' : Relay} (level : Bool) (h : r' ≠ r) :
    digitalWrite pins (r, level) r' = pins r' := Function.update_of_ne h _ _

theorem not_bothOn {pins : Pins} (r : Relay) (h : (pins r).level = true) : ¬ BothOn pins := by
  rintro ⟨h1, h2⟩
  cases r with
  | relay1 => exact absurd (h.symm.trans h1.2) (by decide)
  | relay2 => exact absurd (h.symm.trans h2.2) (by decide)

/-- A relay is turned off, then the other one is set. -/
theorem off_first (pins : Pins) {r r' : Relay} (h : r ≠ r') (level : Bool) :
    Throughout digitalWrite (fun p => ¬ BothOn p) pins [(r, true), (r', level)] := by
  have hoff := digitalWrite_same pins r true
  refine ⟨not_bothOn r hoff, not_bothOn r ?_, trivial⟩
  rw [digitalWrite_other _ level h]
  exact hoff

theorem relayWrites_interlocked (pins : Pins) (usRelIn : BitVec 16) :
    Throughout digitalWrite (fun p => ¬ BothOn p) pins (relayWrites usRelIn) := by
  unfold relayWrites
  split_ifs
  · exact off_first pins (by decide) false
  · exact off_first pins (by decide) false
  · exact off_first pins (by decide) true

theorem writes_interlocked (pins : Pins) (s : Vars) :
    Throughout digitalWrite (fun p => ¬ BothOn p) pins (writes s) := by
  unfold writes
  split_ifs
  · exact relayWrites_interlocked pins _
  · trivial

/-! ## Runs -/

/-- The calls of `digitalWrite` in the first `n` iterations, in order. -/
def writesBefore (inp : ℕ → Shared Channel) : ℕ → List (Relay × Bool)
  | 0 => []
  | n + 1 => writesBefore inp n ++ writes (received (varsAt inp n) (inp n))

theorem varsAt_bUpdateFlags (inp : ℕ → Shared Channel) (n : ℕ) :
    (varsAt inp n).bUpdateFlags = 0 := by
  cases n <;> rfl

theorem relayWrites_ne_nil (usRelIn : BitVec 16) : relayWrites usRelIn ≠ [] := by
  unfold relayWrites
  split_ifs <;> exact List.cons_ne_nil _ _

/-- Nothing else than a relay pulse makes an iteration write. -/
theorem writes_ne_nil_iff {s : Vars} (h0 : s.bUpdateFlags = 0) (sh : Shared Channel) :
    writes (received s sh) ≠ [] ↔ Consumes Channel.flag .rel sh := by
  have hflags : (received s sh).bUpdateFlags = sh.bUpdateFlagsShared := by
    simp only [received, readShared_eq]
    exact flagsInEffect_of_cleared h0 sh
  rw [writes, hflags]
  split_ifs with h
  · exact iff_of_true (relayWrites_ne_nil _) h
  · exact iff_of_false (not_not.mpr rfl) h

theorem writesBefore_ne_nil_iff (inp : ℕ → Shared Channel) (n : ℕ) :
    writesBefore inp n ≠ [] ↔ ∃ i < n, Consumes Channel.flag .rel (inp i) := by
  induction n with
  | zero => exact iff_of_false (not_not.mpr rfl) (fun ⟨_, hi, _⟩ => absurd hi (Nat.not_lt_zero _))
  | succ n ih =>
    rw [writesBefore, Nat.exists_lt_succ_right, ← ih,
      ← writes_ne_nil_iff (varsAt_bUpdateFlags inp n) (inp n), ne_eq, List.append_eq_nil_iff,
      not_and_or]

theorem endEffector_pins (s : Vars) : (endEffector s).pins = s.pins := by
  unfold endEffector
  split_ifs <;> rfl

/-- The pins are what the writes so far have made of them. -/
theorem varsAt_pins (inp : ℕ → Shared Channel) (n : ℕ) :
    (varsAt inp n).pins = (writesBefore inp n).foldl digitalWrite setup.pins := by
  induction n with
  | zero => rfl
  | succ n ih =>
    have hloop : (varsAt inp (n + 1)).pins =
        (writes (received (varsAt inp n) (inp n))).foldl digitalWrite (varsAt inp n).pins :=
      endEffector_pins _
    rw [hloop, ih, writesBefore, List.foldl_append]

theorem writesBefore_interlocked (inp : ℕ → Shared Channel) (n : ℕ) :
    Throughout digitalWrite (fun p => ¬ BothOn p) setup.pins (writesBefore inp n) := by
  induction n with
  | zero => trivial
  | succ n ih => exact (throughout_append digitalWrite _ _ _ _).mpr ⟨ih, writes_interlocked _ _⟩

/-- The pins after the first `k` writes of the first `n` iterations; after `setup` for `k = 0`. -/
def pinsAfter (inp : ℕ → Shared Channel) (n k : ℕ) : Pins :=
  ((writesBefore inp n).take k).foldl digitalWrite setup.pins

/-- The relays are never on together once a relay pulse has led to a write, and are until then. -/
theorem interlock_iff (inp : ℕ → Shared Channel) (n k : ℕ) :
    ¬ BothOn (pinsAfter inp n k) ↔ 0 < k ∧ ∃ i < n, Consumes Channel.flag .rel (inp i) := by
  have hsome : (writesBefore inp n).take k ≠ [] ↔
      0 < k ∧ ∃ i < n, Consumes Channel.flag .rel (inp i) := by
    rw [← writesBefore_ne_nil_iff, ne_eq, List.take_eq_nil_iff, not_or, ← ne_eq, ← ne_eq,
      Nat.pos_iff_ne_zero]
  rw [← hsome]
  constructor
  · intro h hnone
    rw [pinsAfter, hnone] at h
    exact h (by decide)
  · exact throughout_take digitalWrite (writesBefore_interlocked inp n) k

/-- The receiver has sent nothing. -/
def silent (_ : ℕ) : Shared Channel where
  bUpdateFlagsShared := 0
  inputShared := fun _ => 0

/-- `setup` leaves both relays on. -/
theorem relays_on_after_setup :
    ¬ ∀ (inp : ℕ → Shared Channel) (n k : ℕ), ¬ BothOn (pinsAfter inp n k) := by
  intro hall
  exact absurd ((interlock_iff silent 0 0).mp (hall silent 0 0)).1 (Nat.lt_irrefl 0)

end TitanRover.Training
