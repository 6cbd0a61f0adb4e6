import Mathlib.Data.List.Range

/-! # Runs of a step function over an input sequence

`stateAt step s₀ inp n` is the state after the first `n` inputs. The rules below are the inductions
over runs that the sketches need: one for an invariant that may mention the position, one for a
property that holds from some point on, one for a property kept exactly on a condition, one for a
part of the state that steps by itself, one for a variable that keeps the value of the last input
that assigns it, one for a part of the state that keeps what the last of some steps left, and one
for a property of every state that a list of inputs leads through. The outputs of a run are those of
its steps in order, and systems that reply to requests are compared by a map of their states. -/
namespace Foundations.Run
set_option autoImplicit false

section Sequences
variable {S I V : Type*} (step : S → I → S) (s₀ : S) (inp : ℕ → I)

def stateAt : ℕ → S
  | 0 => s₀
  | n + 1 => step (stateAt n) (inp n)

@[simp] theorem stateAt_zero : stateAt step s₀ inp 0 = s₀ := rfl

theorem stateAt_succ (n : ℕ) :
    stateAt step s₀ inp (n + 1) = step (stateAt step s₀ inp n) (inp n) := rfl

theorem stateAt_eq_foldl (n : ℕ) :
    stateAt step s₀ inp n = ((List.range n).map inp).foldl step s₀ := by
  induction n with
  | zero => rfl
  | succ n ih =>
    rw [stateAt_succ, ih, List.range_succ, List.map_append, List.foldl_append]
    rfl

theorem invariant {P : ℕ → S → Prop} (h0 : P 0 s₀)
    (hstep : ∀ n, P n (stateAt step s₀ inp n) →
      P (n + 1) (step (stateAt step s₀ inp n) (inp n))) (n : ℕ) :
    P n (stateAt step s₀ inp n) := by
  induction n with
  | zero => exact h0
  | succ n ih => exact hstep n ih

/-- A property reached at `m` still holds at `n` when every step between keeps it. -/
theorem persists {P : ℕ → S → Prop} {m n : ℕ} (hmn : m ≤ n) (hm : P m (stateAt step s₀ inp m))
    (hstep : ∀ k, m ≤ k → k < n → P k (stateAt step s₀ inp k) →
      P (k + 1) (step (stateAt step s₀ inp k) (inp k))) :
    P n (stateAt step s₀ inp n) := by
  induction n with
  | zero =>
    have h0 : m = 0 := by omega
    rw [← h0]
    exact hm
  | succ n ih =>
    by_cases h : m = n + 1
    · rw [← h]
      exact hm
    · have hn := ih (by omega) (fun k hk hkn => hstep k hk (by omega))
      exact hstep n (by omega) (by omega) hn

/-- A property that a step keeps exactly on a condition holds along a run exactly when every step
of the run meets the condition. -/
theorem always_iff {P : ℕ → S → Prop} {Q : ℕ → S → I → Prop} (h0 : P 0 s₀)
    (hstep : ∀ n, P n (stateAt step s₀ inp n) →
      (P (n + 1) (step (stateAt step s₀ inp n) (inp n)) ↔
        Q n (stateAt step s₀ inp n) (inp n))) :
    (∀ n, P n (stateAt step s₀ inp n)) ↔ ∀ n, Q n (stateAt step s₀ inp n) (inp n) := by
  constructor
  · intro h n
    exact (hstep n (h n)).mp (h (n + 1))
  · intro h
    apply invariant step s₀ inp h0
    intro n hn
    exact (hstep n hn).mpr (h n)

/-- A part `g` of the state that steps by itself runs by itself. -/
theorem stateAt_map {T J : Type*} {step' : T → J → T} (g : S → T) (f : I → J)
    (hstep : ∀ s i, g (step s i) = step' (g s) (f i)) (n : ℕ) :
    g (stateAt step s₀ inp n) = stateAt step' (g s₀) (fun k => f (inp k)) n := by
  induction n with
  | zero => rfl
  | succ n ih => rw [stateAt_succ, stateAt_succ, hstep, ih]

/-! ## The last input that assigns a variable -/

/-- The value `f` gives to the last of the first `n` inputs that `p` selects, `v₀` if none is. -/
def latest (p : I → Prop) [DecidablePred p] (f : I → V) (v₀ : V) : ℕ → V
  | 0 => v₀
  | n + 1 => if p (inp n) then f (inp n) else latest p f v₀ n

/-- A variable that the steps of a run assign on `p`-inputs only holds the latest value. -/
theorem tracks_latest {p : I → Prop} [DecidablePred p] (f : I → V) (v₀ : V) (g : S → V)
    (h0 : g s₀ = v₀)
    (hstep : ∀ n, g (step (stateAt step s₀ inp n) (inp n)) =
      if p (inp n) then f (inp n) else g (stateAt step s₀ inp n)) (n : ℕ) :
    g (stateAt step s₀ inp n) = latest inp p f v₀ n := by
  induction n with
  | zero => exact h0
  | succ n ih => rw [stateAt_succ, hstep, ih, latest]

/-- The latest value stays while no input is selected. -/
theorem latest_of_none {p : I → Prop} [DecidablePred p] (f : I → V) (v₀ : V) {m n : ℕ}
    (hmn : m ≤ n) (hnone : ∀ k, m ≤ k → k < n → ¬ p (inp k)) :
    latest inp p f v₀ n = latest inp p f v₀ m := by
  induction n, hmn using Nat.le_induction with
  | base => rfl
  | succ n hmn ih =>
    rw [latest, if_neg (hnone n hmn (Nat.lt_succ_self n))]
    exact ih fun k hk hkn => hnone k hk (Nat.lt_succ_of_lt hkn)

/-- A part of the state that only steps with `P` change is at the end of a run what the last of
these steps left. -/
theorem held {P : S → I → Prop} (g : S → V) (hkeep : ∀ s i, ¬ P s i → g (step s i) = g s) (n : ℕ) :
    ((∀ k < n, ¬ P (stateAt step s₀ inp k) (inp k)) ∧ g (stateAt step s₀ inp n) = g s₀) ∨
      ∃ k < n, P (stateAt step s₀ inp k) (inp k) ∧
        (∀ i, k < i → i < n → ¬ P (stateAt step s₀ inp i) (inp i)) ∧
        g (stateAt step s₀ inp n) = g (stateAt step s₀ inp (k + 1)) := by
  induction n with
  | zero => exact Or.inl ⟨fun k hk => absurd hk (Nat.not_lt_zero k), rfl⟩
  | succ n ih =>
    by_cases hn : P (stateAt step s₀ inp n) (inp n)
    · refine Or.inr ⟨n, Nat.lt_succ_self n, hn, fun i hi hin => ?_, rfl⟩
      exact absurd (Nat.le_of_lt_succ hin) (not_le.mpr hi)
    · have hsame : g (stateAt step s₀ inp (n + 1)) = g (stateAt step s₀ inp n) := hkeep _ _ hn
      rcases ih with ⟨hnone, hg⟩ | ⟨k, hk, hP, hnone, hg⟩
      · refine Or.inl ⟨fun k hk => ?_, hsame.trans hg⟩
        rcases Nat.lt_succ_iff_lt_or_eq.mp hk with hlt | rfl
        · exact hnone k hlt
        · exact hn
      · refine Or.inr ⟨k, Nat.lt_succ_of_lt hk, hP, fun i hi hin => ?_, hsame.trans hg⟩
        rcases Nat.lt_succ_iff_lt_or_eq.mp hin with hlt | rfl
        · exact hnone i hi hlt
        · exact hn

/-! ## Every state on the way -/

/-- `P` holds after each of the inputs. -/
def Throughout (P : S → Prop) : S → List I → Prop
  | _, [] => True
  | s, i :: is => P (step s i) ∧ Throughout P (step s i) is

theorem throughout_append (P : S → Prop) (s : S) (is js : List I) :
    Throughout step P s (is ++ js) ↔
      Throughout step P s is ∧ Throughout step P (is.foldl step s) js := by
  induction is generalizing s with
  | nil => exact (iff_of_eq (true_and _)).symm
  | cons i is ih =>
    rw [List.cons_append, Throughout, Throughout, ih, List.foldl_cons, and_assoc]

theorem throughout_take {P : S → Prop} {s : S} {is : List I} (h : Throughout step P s is) (k : ℕ)
    (hne : is.take k ≠ []) : P ((is.take k).foldl step s) := by
  induction k generalizing s is with
  | zero => exact absurd List.take_zero hne
  | succ k ih =>
    cases is with
    | nil => exact absurd List.take_nil hne
    | cons i is =>
      rw [List.take_succ_cons, List.foldl_cons]
      by_cases hrest : is.take k = []
      · rw [hrest]
        exact h.1
      · exact ih h.2 hrest

/-! ## What the steps put out -/

/-- The outputs of the first `n` steps, oldest first, of steps that put out one at most. -/
def outputs {O : Type*} (out : S → I → Option O) : ℕ → List O
  | 0 => []
  | n + 1 => outputs out n ++ (out (stateAt step s₀ inp n) (inp n)).toList

end Sequences

/-! ## Systems that reply -/

section Replies
variable {S T I O : Type*}

/-- The state after a list of requests, and the replies to them. -/
def replies (exec : S → I → S × O) : S → List I → S × List O
  | s, [] => (s, [])
  | s, i :: is =>
    let rest := replies exec (exec s i).1 is
    (rest.1, (exec s i).2 :: rest.2)

/-- `Q` holds of every request in the state that it finds. -/
def AllAsked (exec : S → I → S × O) (Q : S → I → Prop) : S → List I → Prop
  | _, [] => True
  | s, i :: is => Q s i ∧ AllAsked exec Q (exec s i).1 is

/-- Where a map of the states commutes with exactly the requests that meet `Q`, the two systems go
along through every first part of a list of requests exactly when all of it meets `Q`. -/
theorem replies_map_iff {exec : S → I → S × O} {exec' : T → I → T × O} {g : S → T}
    {Q : T → I → Prop} (h : ∀ s i, exec' (g s) i = (g (exec s i).1, (exec s i).2) ↔ Q (g s) i)
    (s : S) (is : List I) :
    (∀ k, replies exec' (g s) (is.take k) =
      (g (replies exec s (is.take k)).1, (replies exec s (is.take k)).2)) ↔
      AllAsked exec' Q (g s) is := by
  induction is generalizing s with
  | nil => simp [replies, AllAsked]
  | cons i is ih =>
    rw [AllAsked, ← h]
    constructor
    · intro hall
      have hone := hall 1
      rw [List.take_succ_cons, List.take_zero, replies, replies, replies, replies] at hone
      obtain ⟨hstate, hreply⟩ := Prod.mk.inj hone
      have hstep : exec' (g s) i = (g (exec s i).1, (exec s i).2) :=
        Prod.ext hstate (List.cons.inj hreply).1
      refine ⟨hstep, ?_⟩
      rw [hstep, ← ih]
      intro k
      have hk := hall (k + 1)
      rw [List.take_succ_cons, replies, replies, hstep] at hk
      obtain ⟨hrest, hreplies⟩ := Prod.mk.inj hk
      exact Prod.ext hrest (List.cons.inj hreplies).2
    · rintro ⟨hstep, hrest⟩ k
      rw [hstep, ← ih] at hrest
      cases k with
      | zero => rfl
      | succ k => rw [List.take_succ_cons, replies, replies, hstep, hrest k]

/-- As `replies`, of a system that is asked only what it allows. -/
def allowed (exec : T → I → Option (T × O)) : T → List I → Option (T × List O)
  | t, [] => some (t, [])
  | t, i :: is =>
    (exec t i).bind fun r => (allowed exec r.1 is).map fun rest => (rest.1, r.2 :: rest.2)

/-- A system that answers every allowed request as `exec'` does answers every allowed list of
requests as `exec'` does. -/
theorem replies_of_allowed {R : S → T → Prop} {exec : S → I → S × O}
    {exec' : T → I → Option (T × O)}
    (h : ∀ s t i r, R s t → exec' t i = some r → R (exec s i).1 r.1 ∧ (exec s i).2 = r.2)
    {s : S} {t : T} {is : List I} {r : T × List O} (hR : R s t) (hr : allowed exec' t is = some r) :
    R (replies exec s is).1 r.1 ∧ (replies exec s is).2 = r.2 := by
  induction is generalizing s t r with
  | nil =>
    obtain rfl := Option.some.inj hr
    exact ⟨hR, rfl⟩
  | cons i is ih =>
    obtain ⟨r1, h1, hrest⟩ := Option.bind_eq_some_iff.mp hr
    obtain ⟨rest, h2, rfl⟩ := Option.map_eq_some_iff.mp hrest
    obtain ⟨hR1, ho⟩ := h s t i r1 hR h1
    obtain ⟨hR2, hos⟩ := ih hR1 h2
    exact ⟨hR2, congrArg₂ List.cons ho hos⟩

end Replies

end Foundations.Run
