import TitanRover.Foundations.Run

/-! # A loop that polls what interrupt handlers share with it

Handlers write a shared state at any time; an iteration of the loop takes the shared state as it
finds it, clears it, and computes on. Whatever the interleaving, the loop's own state is that of a
run on the snapshots its iterations took. -/
namespace Foundations.Snapshot
open Foundations.Run
set_option autoImplicit false

section Systems
variable {X S H : Type*}

structure System (X S H : Type*) where
  handle : X → H → X
  clear : X → X
  loop : S → X → S

variable (sys : System X S H)

/-- A handler runs, or the loop runs an iteration. -/
def act : X × S → Option H → X × S
  | (x, s), some h => (sys.handle x h, s)
  | (x, s), none => (sys.clear x, sys.loop s x)

/-- The shared states that the iterations among `events` find. -/
def snapshots (x : X) : List (Option H) → List X
  | [] => []
  | some h :: events => snapshots (sys.handle x h) events
  | none :: events => x :: snapshots (sys.clear x) events

theorem foldl_act (x : X) (s : S) (events : List (Option H)) :
    (events.foldl (act sys) (x, s)).2 = (snapshots sys x events).foldl sys.loop s := by
  induction events generalizing x s with
  | nil => rfl
  | cons e events ih =>
    cases e with
    | some h => exact ih (sys.handle x h) s
    | none => exact ih (sys.clear x) (sys.loop s x)

theorem foldl_eq_stateAt (xs : List X) (d : X) (s : S) :
    xs.foldl sys.loop s = stateAt sys.loop s (fun k => xs.getD k d) xs.length := by
  have hxs : (List.range xs.length).map (fun k => xs.getD k d) = xs := by
    apply List.ext_getElem
    · simp
    · intro k _ hk
      simp [hk]
  rw [stateAt_eq_foldl, hxs]

/-- Every interleaving is a run of the loop. -/
theorem interleaving_is_run (x : X) (s : S) (events : List (Option H)) :
    ∃ inp n, (events.foldl (act sys) (x, s)).2 = stateAt sys.loop s inp n :=
  ⟨_, _, (foldl_act sys x s events).trans (foldl_eq_stateAt sys _ x s)⟩

end Systems

end Foundations.Snapshot
