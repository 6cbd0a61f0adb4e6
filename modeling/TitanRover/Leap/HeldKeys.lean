import TitanRover.Leap.CommandRange

/-! # Held keys

The handlers see one key at a time and keep no record of what is held. `heldKeys` is that record,
read off the events. A control that is on has its key held, so with every key up all of them are
off (`dead_man`). The converse fails: a press clears every motor but its own, and a release clears
both motors and the reset; `obeyed_iff` says in which runs no held key is cut off so. -/
namespace TitanRover.Leap
open Foundations
set_option autoImplicit false

/-! ## The controls and their keys -/

/-- The controls with one key each. -/
inductive Switch where
  | reset | joint1Increment | joint1Decrement | joint2Increment | joint2Decrement
  | wristOnline | gripperOnline
  deriving DecidableEq

def Switch.key : Switch → Char
  | .reset => 'r'
  | .joint1Increment => 'a'
  | .joint1Decrement => 'z'
  | .joint2Increment => 's'
  | .joint2Decrement => 'x'
  | .wristOnline => 'h'
  | .gripperOnline => 'j'

def Keys.on (k : Keys) : Switch → Bool
  | .reset => k.reset
  | .joint1Increment => k.joint1Increment
  | .joint1Decrement => k.joint1Decrement
  | .joint2Increment => k.joint2Increment
  | .joint2Decrement => k.joint2Decrement
  | .wristOnline => k.wristOnline
  | .gripperOnline => k.gripperOnline

/-- The motors with a key for each direction. -/
inductive Motor where
  | lazySusan | shoulder
  deriving DecidableEq

def Motor.keys : Motor → Finset Char
  | .lazySusan => {'A', 'D'}
  | .shoulder => {'W', 'S'}

def Keys.orientation (k : Keys) : Motor → ℤ
  | .lazySusan => k.lazySusanOrientation
  | .shoulder => k.shoulderOrientation

theorem keyPressed_on (key : Char) (k : Keys) (f : Switch) :
    (keyPressed key k).on f = (decide (key = f.key) || k.on f) := by
  by_cases hkey : key ∈ ['r', 'a', 'z', 's', 'x', 'g', 'h', 'j']
  · simp only [List.mem_cons, List.not_mem_nil, or_false] at hkey
    rcases hkey with rfl | rfl | rfl | rfl | rfl | rfl | rfl | rfl <;> cases f <;> rfl
  · simp only [List.mem_cons, List.not_mem_nil, or_false, not_or] at hkey
    obtain ⟨hr, ha, hz, hs, hx, hg, hh, hj⟩ := hkey
    cases f <;> simp [keyPressed, Keys.on, Switch.key, hr, ha, hz, hs, hx, hg, hh, hj]

theorem keyReleased_on (key : Char) (k : Keys) (f : Switch) :
    (keyReleased key k).on f = (decide (f ≠ .reset ∧ key ≠ f.key) && k.on f) := by
  by_cases hkey : key ∈ ['a', 'z', 's', 'x', 'h', 'j']
  · simp only [List.mem_cons, List.not_mem_nil, or_false] at hkey
    rcases hkey with rfl | rfl | rfl | rfl | rfl | rfl <;> cases f <;> rfl
  · simp only [List.mem_cons, List.not_mem_nil, or_false, not_or] at hkey
    obtain ⟨ha, hz, hs, hx, hh, hj⟩ := hkey
    cases f <;> simp [keyReleased, Keys.on, Switch.key, ha, hz, hs, hx, hh, hj]

theorem keyPressed_orientation (key : Char) (k : Keys) (m : Motor) :
    (keyPressed key k).orientation m ≠ 0 ↔ key ∈ m.keys := by
  by_cases hkey : key ∈ ['A', 'D', 'W', 'S', 'g', 'h', 'j']
  · simp only [List.mem_cons, List.not_mem_nil, or_false] at hkey
    rcases hkey with rfl | rfl | rfl | rfl | rfl | rfl | rfl <;> cases m <;>
      simp [keyPressed, Keys.orientation, Motor.keys]
  · simp only [List.mem_cons, List.not_mem_nil, or_false, not_or] at hkey
    obtain ⟨hA, hD, hW, hS, hg, hh, hj⟩ := hkey
    cases m <;> simp [keyPressed, Keys.orientation, Motor.keys, hA, hD, hW, hS, hg, hh, hj]

theorem keyReleased_orientation (key : Char) (k : Keys) (m : Motor) :
    (keyReleased key k).orientation m = 0 := by cases m <;> rfl

/-! ## What is held -/

section Held
variable {R : Type*}

def hold (held : Finset Char) : Event R → Finset Char
  | .frame _ => held
  | .press key => insert key held
  | .release key => held.erase key

/-- The keys held down after the first `n` events. A held key that repeats is pressed again. -/
def heldKeys (events : ℕ → Event R) : ℕ → Finset Char := Run.stateAt hold ∅ events

theorem heldKeys_succ (events : ℕ → Event R) (n : ℕ) :
    heldKeys events (n + 1) = hold (heldKeys events n) (events n) := rfl

def keyStep (k : Keys) : Event R → Keys
  | .frame _ => k
  | .press key => keyPressed key k
  | .release key => keyReleased key k

/-- The controls that only keys turn on: all but `wrist_gripper_mode`. -/
structure AllOff (k : Keys) : Prop where
  switches : ∀ f, k.on f = false
  motors : ∀ m, k.orientation m = 0

structure OnlyHeld (held : Finset Char) (k : Keys) : Prop where
  switches : ∀ f, k.on f = true → f.key ∈ held
  motors : ∀ m, k.orientation m ≠ 0 → ∃ key ∈ m.keys, key ∈ held

theorem OnlyHeld.allOff {k : Keys} (h : OnlyHeld ∅ k) : AllOff k := by
  constructor
  · intro f
    rw [← Bool.not_eq_true]
    exact fun hf => absurd (h.switches f hf) (Finset.notMem_empty _)
  · intro m
    by_contra hm
    obtain ⟨key, -, hheld⟩ := h.motors m hm
    exact absurd hheld (Finset.notMem_empty _)

theorem onlyHeld_step {held : Finset Char} {k : Keys} (h : OnlyHeld held k) (e : Event R) :
    OnlyHeld (hold held e) (keyStep k e) := by
  cases e with
  | frame r => exact h
  | press key =>
    refine ⟨?_, ?_⟩
    · intro f hf
      rw [keyStep, keyPressed_on, Bool.or_eq_true, decide_eq_true_eq] at hf
      rcases hf with rfl | hf
      · exact Finset.mem_insert_self _ _
      · exact Finset.mem_insert_of_mem (h.switches f hf)
    · intro m hm
      exact ⟨key, (keyPressed_orientation key k m).mp hm, Finset.mem_insert_self _ _⟩
  | release key =>
    refine ⟨?_, ?_⟩
    · intro f hf
      rw [keyStep, keyReleased_on, Bool.and_eq_true, decide_eq_true_eq] at hf
      exact Finset.mem_erase.mpr ⟨fun he => hf.1.2 he.symm, h.switches f hf.2⟩
    · intro m hm
      exact absurd (keyReleased_orientation key k m) hm

/-! ## Keys that stay in effect -/

/-- The motors turn and the reset is on exactly while one of their keys is held. -/
structure Obeyed (held : Finset Char) (k : Keys) : Prop where
  motors : ∀ m, k.orientation m ≠ 0 ↔ ∃ key ∈ m.keys, key ∈ held
  reset : k.reset = true ↔ 'r' ∈ held

/-- The keys of the controls that a release turns off, whichever key it is of. -/
def cutOff : Finset Char := {'A', 'D', 'W', 'S', 'r'}

/-- The event takes no other key's control away: a press finds no key of a motor held, unless it
is of that motor itself, and a release finds no other key held that it turns off. -/
def Undisturbed (held : Finset Char) : Event R → Prop
  | .frame _ => True
  | .press key => ∀ m : Motor, key ∈ m.keys ∨ ∀ c ∈ m.keys, c ∉ held
  | .release key => ∀ c ∈ cutOff, c ≠ key → c ∉ held

theorem obeyed_press {held : Finset Char} {k : Keys} (h : Obeyed held k) (key : Char) :
    Obeyed (insert key held) (keyPressed key k) ↔
      ∀ m : Motor, key ∈ m.keys ∨ ∀ c ∈ m.keys, c ∉ held := by
  have hreset : (keyPressed key k).reset = true ↔ 'r' ∈ insert key held := by
    have hon : (keyPressed key k).reset = (decide (key = 'r') || k.reset) :=
      keyPressed_on key k .reset
    rw [hon, Bool.or_eq_true, decide_eq_true_eq, h.reset, Finset.mem_insert, eq_comm]
  constructor
  · intro ho m
    by_cases hm : key ∈ m.keys
    · exact Or.inl hm
    · refine Or.inr fun c hc hheld => hm ?_
      rw [← keyPressed_orientation key k m, ho.motors]
      exact ⟨c, hc, Finset.mem_insert_of_mem hheld⟩
  · intro hu
    refine ⟨?_, hreset⟩
    intro m
    rw [keyPressed_orientation]
    constructor
    · exact fun hm => ⟨key, hm, Finset.mem_insert_self _ _⟩
    · rintro ⟨c, hc, hheld⟩
      rcases Finset.mem_insert.mp hheld with rfl | hheld
      · exact hc
      · exact (hu m).resolve_right fun hall => hall c hc hheld

theorem mem_cutOff (c : Char) : c ∈ cutOff ↔ (∃ m : Motor, c ∈ m.keys) ∨ c = 'r' := by
  simp only [cutOff, Finset.mem_insert, Finset.mem_singleton]
  constructor
  · rintro (h | h | h | h | h)
    · exact Or.inl ⟨.lazySusan, by simp [Motor.keys, h]⟩
    · exact Or.inl ⟨.lazySusan, by simp [Motor.keys, h]⟩
    · exact Or.inl ⟨.shoulder, by simp [Motor.keys, h]⟩
    · exact Or.inl ⟨.shoulder, by simp [Motor.keys, h]⟩
    · exact Or.inr h
  · rintro (⟨m, hm⟩ | h)
    · cases m <;> simp only [Motor.keys, Finset.mem_insert, Finset.mem_singleton] at hm <;> tauto
    · tauto

theorem obeyed_release (held : Finset Char) (k : Keys) (key : Char) :
    Obeyed (held.erase key) (keyReleased key k) ↔ ∀ c ∈ cutOff, c ≠ key → c ∉ held := by
  constructor
  · intro ho c hc hne hheld
    have hmem := Finset.mem_erase.mpr ⟨hne, hheld⟩
    rcases (mem_cutOff c).mp hc with ⟨m, hm⟩ | rfl
    · exact (ho.motors m).mpr ⟨c, hm, hmem⟩ (keyReleased_orientation key k m)
    · exact absurd (ho.reset.mpr hmem) (by simp [keyReleased])
  · intro hu
    refine ⟨?_, ?_⟩
    · intro m
      refine ⟨fun hm => absurd (keyReleased_orientation key k m) hm, ?_⟩
      rintro ⟨c, hc, hmem⟩
      obtain ⟨hne, hheld⟩ := Finset.mem_erase.mp hmem
      exact absurd hheld (hu c ((mem_cutOff c).mpr (Or.inl ⟨m, hc⟩)) hne)
    · refine ⟨fun hr => absurd hr (by simp [keyReleased]), ?_⟩
      intro hmem
      obtain ⟨hne, hheld⟩ := Finset.mem_erase.mp hmem
      exact absurd hheld (hu 'r' ((mem_cutOff 'r').mpr (Or.inr rfl)) hne)

theorem obeyed_step {held : Finset Char} {k : Keys} (h : Obeyed held k) (e : Event R) :
    Obeyed (hold held e) (keyStep k e) ↔ Undisturbed held e := by
  cases e with
  | frame r => exact iff_of_true h trivial
  | press key => exact obeyed_press h key
  | release key => exact obeyed_release held k key

end Held

/-! ## Runs -/

section Runs
variable {R : Type*} [Field R]

theorem init_allOff : AllOff (init : Vars R).toKeys :=
  ⟨fun f => by cases f <;> rfl, fun m => by cases m <;> rfl⟩

variable [LinearOrder R] [FloorRing R] (env : Env R)

theorem step_keys (s : Vars R) (e : Event R) : (step env s e).toKeys = keyStep s.toKeys e := by
  cases e with
  | frame r => exact draw_keys env s r
  | press key => rfl
  | release key => rfl

theorem varsAt_keys (events : ℕ → Event R) (n : ℕ) :
    (varsAt env events (n + 1)).toKeys = keyStep (varsAt env events n).toKeys (events n) :=
  step_keys env _ _

theorem varsAt_onlyHeld (events : ℕ → Event R) (n : ℕ) :
    OnlyHeld (heldKeys events n) (varsAt env events n).toKeys := by
  induction n with
  | zero =>
    exact ⟨fun f hf => absurd hf (by simp [varsAt, init_allOff.switches f]),
      fun m hm => absurd (init_allOff.motors m) hm⟩
  | succ n ih =>
    rw [varsAt_keys, heldKeys_succ]
    exact onlyHeld_step ih (events n)

/-- With every key up, every control but `wrist_gripper_mode` is off. -/
theorem dead_man (events : ℕ → Event R) (n : ℕ) (h : heldKeys events n = ∅) :
    AllOff (varsAt env events n).toKeys := by
  have honly := varsAt_onlyHeld env events n
  rw [h] at honly
  exact honly.allOff

/-- Every held key stays in effect throughout a run exactly when no event of it takes another
key's control away. -/
theorem obeyed_iff (events : ℕ → Event R) :
    (∀ n, Obeyed (heldKeys events n) (varsAt env events n).toKeys) ↔
      ∀ n, Undisturbed (heldKeys events n) (events n) := by
  apply Run.always_iff (step env) init events
    (P := fun n s => Obeyed (heldKeys events n) s.toKeys)
    (Q := fun n _ e => Undisturbed (heldKeys events n) e)
  · refine ⟨fun m => ?_, ?_⟩
    · exact iff_of_false (not_not.mpr (init_allOff.motors m)) (by simp [heldKeys])
    · exact iff_of_false (by simp [init]) (by simp [heldKeys])
  · intro n h
    rw [step_keys, heldKeys_succ]
    exact obeyed_step h (events n)

end Runs

/-- `A` and `W` pressed one after the other, and released in the same order. -/
def bothMotors : ℕ → Event ℝ
  | 0 => .press 'A'
  | 1 => .press 'W'
  | 2 => .release 'A'
  | _ + 3 => .release 'W'

theorem dead_man_bothMotors : AllOff (varsAt realEnv bothMotors 4).toKeys :=
  dead_man realEnv bothMotors 4 (by decide)

theorem held_key_cut_off : ¬ ∀ (events : ℕ → Event ℝ) (n : ℕ),
    Obeyed (heldKeys events n) (varsAt realEnv events n).toKeys := by
  intro hall
  have hturn := ((hall bothMotors 2).motors .lazySusan).mpr ⟨'A', by decide, by decide⟩
  exact hturn rfl

end TitanRover.Leap
