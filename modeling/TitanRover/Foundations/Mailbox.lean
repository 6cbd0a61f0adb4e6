import Mathlib.Logic.Function.Basic

/-! # Mailboxes with pending marks

Producers publish into one slot a channel and mark the channel pending. The consumer takes in one
atomic step: it copies the pending slots, keeps which they were, and clears all marks. Histories
are listed newest first. `take_spec` says that nothing is lost and nothing is attributed to the
wrong take, for every order of publications and takes. -/
namespace Foundations.Mailbox
set_option autoImplicit false

inductive Op (κ V : Type*) where
  | publish (k : κ) (v : V)
  | take

structure Box (κ V : Type*) where
  slot : κ → V
  pending : κ → Bool
  copy : κ → V
  taken : κ → Bool

section Histories
variable {κ V : Type*} [DecidableEq κ] (v₀ : V)

def empty : Box κ V where
  slot := fun _ => v₀
  pending := fun _ => false
  copy := fun _ => v₀
  taken := fun _ => false

def step (b : Box κ V) : Op κ V → Box κ V
  | .publish k v =>
      { b with slot := Function.update b.slot k v
               pending := Function.update b.pending k true }
  | .take =>
      { b with pending := fun _ => false
               copy := fun k => if b.pending k then b.slot k else b.copy k
               taken := b.pending }

def after : List (Op κ V) → Box κ V
  | [] => empty v₀
  | op :: h => step (after h) op

def lastPublished (k : κ) : List (Op κ V) → V
  | [] => v₀
  | .publish j v :: h => if j = k then v else lastPublished k h
  | .take :: h => lastPublished k h

def freshSince (k : κ) : List (Op κ V) → Bool
  | [] => false
  | .publish j _ :: h => decide (j = k) || freshSince k h
  | .take :: _ => false

theorem slot_eq (k : κ) (h : List (Op κ V)) : (after v₀ h).slot k = lastPublished v₀ k h := by
  induction h with
  | nil => rfl
  | cons op h ih =>
    cases op with
    | publish j v =>
      by_cases hj : j = k
      · subst hj; simp [after, step, lastPublished]
      · simp [after, step, lastPublished, hj, Function.update_of_ne (Ne.symm hj), ih]
    | take => simpa [after, step, lastPublished] using ih

theorem pending_eq (k : κ) (h : List (Op κ V)) : (after v₀ h).pending k = freshSince k h := by
  induction h with
  | nil => rfl
  | cons op h ih =>
    cases op with
    | publish j v =>
      by_cases hj : j = k
      · subst hj; simp [after, step, freshSince]
      · simp [after, step, freshSince, hj, Function.update_of_ne (Ne.symm hj), ih]
    | take => rfl

/-- A channel that is not pending was already copied as it was last published. -/
theorem copy_eq (k : κ) (h : List (Op κ V)) (hp : (after v₀ h).pending k = false) :
    (after v₀ h).copy k = lastPublished v₀ k h := by
  induction h with
  | nil => rfl
  | cons op h ih =>
    cases op with
    | publish j v =>
      have hj : j ≠ k := by
        intro he
        subst he
        simp [after, step] at hp
      have hp' : (after v₀ h).pending k = false := by
        simpa [after, step, Function.update_of_ne (Ne.symm hj)] using hp
      simpa [after, step, lastPublished, hj] using ih hp'
    | take =>
      simp only [after, step, lastPublished]
      cases hk : (after v₀ h).pending k with
      | false => simpa using ih hk
      | true => simpa using slot_eq v₀ k h

/-- Its copy of every channel is the value last published there, it takes a
channel exactly when that was published since the take before, and it leaves nothing pending. -/
theorem take_spec (k : κ) (h : List (Op κ V)) :
    (after v₀ (.take :: h)).copy k = lastPublished v₀ k h ∧
      (after v₀ (.take :: h)).taken k = freshSince k h ∧
      (after v₀ (.take :: h)).pending k = false :=
  ⟨copy_eq v₀ k (.take :: h) rfl, pending_eq v₀ k h, rfl⟩

end Histories

end Foundations.Mailbox
