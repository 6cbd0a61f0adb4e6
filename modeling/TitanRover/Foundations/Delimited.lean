import Mathlib.Data.List.Basic
import Mathlib.Data.List.Induction

/-! # Delimited fields read into slots

A reader gathers bytes into a pending text of bounded capacity. At a delimiter the text's value goes
to the first open slot and closes it, unless the value is one that leaves that slot open. Once
every slot is closed the rest of the input is ignored. `run_fields` reads back what was encoded,
`run_isSome_iff` says which inputs stay within the capacity, in terms of how the input splits at the
delimiter. -/
namespace Foundations.Delimited
set_option autoImplicit false

structure Format (β α : Type*) where
  delimiter : β
  value : List β → α
  closes : ℕ → α → Bool
  slots : ℕ
  capacity : ℕ

@[ext] structure State (β α : Type*) where
  stored : List α
  pending : List β

section Reader
variable {β α : Type*} (F : Format β α)

def Format.Full (st : List α) : Prop := F.slots ≤ st.length

instance (st : List α) : Decidable (F.Full st) := inferInstanceAs (Decidable (_ ≤ _))

def Format.close (st : List α) (t : List β) : List α :=
  if F.closes st.length (F.value t) then st ++ [F.value t] else st

theorem close_congr {t u : List β} (h : F.value t = F.value u) (st : List α) :
    F.close st t = F.close st u := by
  rw [Format.close, Format.close, h]

theorem prefix_close (st : List α) (t : List β) : st <+: F.close st t := by
  unfold Format.close
  split
  · exact List.prefix_append st _
  · exact List.prefix_rfl

variable [DecidableEq β]

/-- One byte; `none` when the pending text is at its capacity. -/
def Format.step (s : State β α) (b : β) : Option (State β α) :=
  if F.Full s.stored then some s
  else if s.pending.length < F.capacity then
    some (if b = F.delimiter then ⟨F.close s.stored s.pending, []⟩
      else ⟨s.stored, s.pending ++ [b]⟩)
  else none

def Format.run (s : State β α) (bs : List β) : Option (State β α) := bs.foldlM F.step s

@[simp] theorem run_nil (s : State β α) : F.run s [] = some s := rfl

@[simp] theorem run_cons (s : State β α) (b : β) (bs : List β) :
    F.run s (b :: bs) = (F.step s b).bind (F.run · bs) := rfl

@[simp] theorem run_singleton (s : State β α) (b : β) : F.run s [b] = F.step s b := by
  simp only [run_cons, run_nil]
  exact Option.bind_fun_some (F.step s b)

theorem run_append (s : State β α) (xs ys : List β) :
    F.run s (xs ++ ys) = (F.run s xs).bind (F.run · ys) := by
  unfold Format.run
  rw [List.foldlM_append]
  rfl

/-! ## One step -/

theorem step_full {s : State β α} (h : F.Full s.stored) (b : β) : F.step s b = some s := by
  rw [Format.step, if_pos h]

theorem step_overrun {s : State β α} (h : ¬ F.Full s.stored)
    (hp : ¬ s.pending.length < F.capacity) (b : β) : F.step s b = none := by
  rw [Format.step, if_neg h, if_neg hp]

theorem step_delimiter {s : State β α} (h : ¬ F.Full s.stored)
    (hp : s.pending.length < F.capacity) :
    F.step s F.delimiter = some ⟨F.close s.stored s.pending, []⟩ := by
  rw [Format.step, if_neg h, if_pos hp, if_pos rfl]

theorem step_text {s : State β α} (h : ¬ F.Full s.stored)
    (hp : s.pending.length < F.capacity) {b : β} (hb : b ≠ F.delimiter) :
    F.step s b = some ⟨s.stored, s.pending ++ [b]⟩ := by
  rw [Format.step, if_neg h, if_pos hp, if_neg hb]

/-! ## Whole texts and whole fields -/

theorem run_full {s : State β α} (h : F.Full s.stored) (bs : List β) : F.run s bs = some s := by
  induction bs with
  | nil => rfl
  | cons b bs ih => rw [run_cons, step_full F h, Option.bind_some, ih]

theorem run_text {s : State β α} (h : ¬ F.Full s.stored) {t : List β} (ht : F.delimiter ∉ t)
    (hp : s.pending.length + t.length ≤ F.capacity) :
    F.run s t = some ⟨s.stored, s.pending ++ t⟩ := by
  induction t generalizing s with
  | nil => simp
  | cons b t ih =>
    simp only [List.mem_cons, not_or, List.length_cons] at ht hp
    have hb : F.step s b = some ⟨s.stored, s.pending ++ [b]⟩ :=
      step_text F h (by omega) (Ne.symm ht.1)
    have hrest := ih (s := ⟨s.stored, s.pending ++ [b]⟩) h ht.2 (by simp; omega)
    rw [run_cons, hb, Option.bind_some, hrest]
    simp

theorem run_overrun {s : State β α} (h : ¬ F.Full s.stored) {t : List β} (ht : F.delimiter ∉ t)
    (hs : s.pending.length ≤ F.capacity) (hp : F.capacity < s.pending.length + t.length) :
    F.run s t = none := by
  induction t generalizing s with
  | nil =>
    simp only [List.length_nil] at hp
    omega
  | cons b t ih =>
    simp only [List.mem_cons, not_or, List.length_cons] at ht hp
    rw [run_cons]
    by_cases hcap : s.pending.length < F.capacity
    · rw [step_text F h hcap (Ne.symm ht.1), Option.bind_some]
      exact ih (s := ⟨s.stored, s.pending ++ [b]⟩) h ht.2 (by simp; omega) (by simp; omega)
    · rw [step_overrun F h hcap, Option.bind_none]

theorem run_field {s : State β α} (h : ¬ F.Full s.stored) {t : List β} (ht : F.delimiter ∉ t)
    (hp : s.pending.length + t.length < F.capacity) :
    F.run s (t ++ [F.delimiter]) = some ⟨F.close s.stored (s.pending ++ t), []⟩ := by
  have hlen : (s.pending ++ t).length < F.capacity := by simpa using hp
  rw [run_append, run_text F h ht (by omega), Option.bind_some, run_singleton]
  exact step_delimiter F (s := ⟨s.stored, s.pending ++ t⟩) h hlen

theorem run_text_eq {s : State β α} (h : ¬ F.Full s.stored) {t : List β} (ht : F.delimiter ∉ t)
    (hs : s.pending.length ≤ F.capacity) :
    F.run s t = if s.pending.length + t.length ≤ F.capacity then some ⟨s.stored, s.pending ++ t⟩
      else none := by
  split
  · next hp => exact run_text F h ht hp
  · next hp => exact run_overrun F h ht hs (by omega)

theorem run_field_eq {s : State β α} (h : ¬ F.Full s.stored) {t : List β} (ht : F.delimiter ∉ t)
    (hs : s.pending.length ≤ F.capacity) :
    F.run s (t ++ [F.delimiter]) = if s.pending.length + t.length < F.capacity
      then some ⟨F.close s.stored (s.pending ++ t), []⟩ else none := by
  split
  · next hp => exact run_field F h ht hp
  · next hp =>
    rw [run_append, run_text_eq F h ht hs]
    split
    · have hlen : ¬ (s.pending ++ t).length < F.capacity := by simpa using hp
      rw [Option.bind_some, run_singleton]
      exact step_overrun F (s := ⟨s.stored, s.pending ++ t⟩) h hlen _
    · rfl

theorem prefix_step {s s' : State β α} {b : β} (h : F.step s b = some s') :
    s.stored <+: s'.stored := by
  unfold Format.step at h
  split at h
  · rw [Option.some.injEq] at h
    exact h ▸ List.prefix_rfl
  · split at h
    · split at h
      · rw [Option.some.injEq] at h
        rw [← h]
        exact prefix_close F s.stored s.pending
      · rw [Option.some.injEq] at h
        exact h ▸ List.prefix_rfl
    · exact absurd h (by simp)

theorem prefix_run {s s' : State β α} {bs : List β} (h : F.run s bs = some s') :
    s.stored <+: s'.stored := by
  induction bs generalizing s with
  | nil =>
    rw [run_nil, Option.some.injEq] at h
    exact h ▸ List.prefix_rfl
  | cons b bs ih =>
    rw [run_cons] at h
    obtain ⟨s₁, h₁, h₂⟩ := Option.bind_eq_some_iff.mp h
    exact (prefix_step F h₁).trans (ih h₂)

theorem run_delimiters (hcap : 0 < F.capacity) (st : List α) (n : ℕ) :
    ∃ st', F.run ⟨st, []⟩ (List.replicate n F.delimiter) = some ⟨st', []⟩ := by
  induction n generalizing st with
  | zero => exact ⟨st, rfl⟩
  | succ n ih =>
    rw [List.replicate_succ, run_cons]
    by_cases hfull : F.Full st
    · rw [step_full F (s := ⟨st, []⟩) hfull]
      exact ih st
    · rw [step_delimiter F (s := ⟨st, []⟩) hfull hcap]
      exact ih (F.close st [])

/-- Texts that fit, each of a value that closes its slot, are read back. -/
theorem run_fields {texts : List (List β)} {st : List α}
    (htext : ∀ t ∈ texts, F.delimiter ∉ t ∧ t.length < F.capacity)
    (hcloses : ∀ i (hi : i < texts.length),
      F.closes (st.length + i) (F.value texts[i]) = true)
    (hslots : st.length + texts.length ≤ F.slots) :
    F.run ⟨st, []⟩ (texts.flatMap (· ++ [F.delimiter])) =
      some ⟨st ++ texts.map F.value, []⟩ := by
  induction texts generalizing st with
  | nil => simp
  | cons t texts ih =>
    simp only [List.length_cons] at hcloses hslots
    obtain ⟨hd, hlen⟩ := htext t (by simp)
    have hopen : ¬ F.Full st := by
      unfold Format.Full
      omega
    have hclose : F.close st t = st ++ [F.value t] := by
      have h0 := hcloses 0 (by omega)
      simp only [Nat.add_zero, List.getElem_cons_zero] at h0
      rw [Format.close, if_pos h0]
    have hfield : F.run ⟨st, []⟩ (t ++ [F.delimiter]) = some ⟨st ++ [F.value t], []⟩ := by
      rw [run_field F hopen hd (by simpa using hlen), List.nil_append, hclose]
    have hrest := @ih (st ++ [F.value t])
      (fun u hu => htext u (by simp [hu]))
      (fun i hi => by
        have h1 := hcloses (i + 1) (by omega)
        simp only [List.getElem_cons_succ] at h1
        rw [List.length_append, List.length_singleton, Nat.add_assoc, Nat.add_comm 1 i]
        exact h1)
      (by rw [List.length_append, List.length_singleton]; omega)
    rw [List.flatMap_cons, run_append, hfield, Option.bind_some, hrest]
    simp

/-! ## Inputs split at the delimiter -/

def closedTexts (δ : β) (bs : List β) : List (List β) := (bs.splitOn δ).dropLast

def openText (δ : β) (bs : List β) : List β :=
  (bs.splitOn δ).getLast (List.splitOn_ne_nil δ bs)

theorem closedTexts_append_openText (δ : β) (bs : List β) :
    closedTexts δ bs ++ [openText δ bs] = bs.splitOn δ :=
  List.dropLast_append_getLast (List.splitOn_ne_nil δ bs)

theorem splitOn_append_delimiter (δ : β) (bs : List β) :
    (bs ++ [δ]).splitOn δ = bs.splitOn δ ++ [[]] := by
  rw [List.splitOn_append_cons_self, List.splitOn_nil]

theorem split_of_splitOn {δ : β} {bs rest : List β} (closed : List (List β))
    (h : bs.splitOn δ = closed ++ [rest]) : closedTexts δ bs = closed ∧ openText δ bs = rest := by
  unfold closedTexts openText
  simp [h]

theorem splitOn_append_text {δ b : β} (hb : b ≠ δ) (bs : List β) :
    (bs ++ [b]).splitOn δ = closedTexts δ bs ++ [openText δ bs ++ [b]] := by
  induction bs with
  | nil =>
    have h : δ ∉ [b] := by simpa using Ne.symm hb
    simpa [closedTexts, openText] using List.splitOn_eq_singleton h
  | cons a bs ih =>
    have hsplit := closedTexts_append_openText δ bs
    rw [List.cons_append, List.splitOn_cons_eq_if_modifyHead, ih]
    have hcons := List.splitOn_cons_eq_if_modifyHead (a := δ) a bs
    rw [← hsplit] at hcons
    by_cases ha : a = δ
    · rw [if_pos (by simpa using ha), ← List.cons_append] at hcons
      obtain ⟨hc, ho⟩ := split_of_splitOn _ hcons
      rw [hc, ho, if_pos (by simpa using ha), List.cons_append]
    · rw [if_neg (by simpa using ha)] at hcons
      rw [if_neg (by simpa using ha)]
      cases hc : closedTexts δ bs with
      | nil =>
        obtain ⟨hc', ho⟩ := split_of_splitOn [] (by simpa [hc] using hcons)
        rw [hc', ho]
        rfl
      | cons t ts =>
        obtain ⟨hc', ho⟩ := split_of_splitOn ((a :: t) :: ts) (by simpa [hc] using hcons)
        rw [hc', ho]
        rfl

theorem closedTexts_append_delimiter (δ : β) (bs : List β) :
    closedTexts δ (bs ++ [δ]) = closedTexts δ bs ++ [openText δ bs] := by
  rw [closedTexts_append_openText, closedTexts, splitOn_append_delimiter, List.dropLast_concat]

@[simp] theorem openText_append_delimiter (δ : β) (bs : List β) :
    openText δ (bs ++ [δ]) = [] := by
  simp [openText, splitOn_append_delimiter]

@[simp] theorem closedTexts_append_text {δ b : β} (hb : b ≠ δ) (bs : List β) :
    closedTexts δ (bs ++ [b]) = closedTexts δ bs := by
  rw [closedTexts, splitOn_append_text hb, List.dropLast_concat]

@[simp] theorem openText_append_text {δ b : β} (hb : b ≠ δ) (bs : List β) :
    openText δ (bs ++ [b]) = openText δ bs ++ [b] := by
  simp [openText, splitOn_append_text hb]

/-! ## What a run has read -/

def Format.fill (texts : List (List β)) : List α :=
  texts.foldl (fun st t => if F.Full st then st else F.close st t) []

/-- The slots filled by the texts of an input that are closed by a delimiter. -/
def Format.filled (bs : List β) : List α := F.fill (closedTexts F.delimiter bs)

theorem filled_append_delimiter {bs : List β} (h : ¬ F.Full (F.filled bs)) :
    F.filled (bs ++ [F.delimiter]) = F.close (F.filled bs) (openText F.delimiter bs) := by
  unfold Format.filled Format.fill at *
  rw [closedTexts_append_delimiter, List.foldl_append, List.foldl_cons, List.foldl_nil, if_neg h]

theorem filled_append_text {bs : List β} {b : β} (hb : b ≠ F.delimiter) :
    F.filled (bs ++ [b]) = F.filled bs := by
  rw [Format.filled, closedTexts_append_text hb, Format.filled]

theorem filled_append_of_full {bs : List β} (h : F.Full (F.filled bs)) (b : β) :
    F.filled (bs ++ [b]) = F.filled bs := by
  by_cases hb : b = F.delimiter
  · subst hb
    unfold Format.filled Format.fill at *
    rw [closedTexts_append_delimiter, List.foldl_append, List.foldl_cons, List.foldl_nil, if_pos h]
  · exact filled_append_text F hb

/-- A run that stays within its capacity has filled the slots its input fills, and while a slot
is open it holds the input's open text. -/
theorem run_reads {bs : List β} {s : State β α} (h : F.run ⟨[], []⟩ bs = some s) :
    s.stored = F.filled bs ∧ (¬ F.Full s.stored → s.pending = openText F.delimiter bs) := by
  induction bs using List.reverseRecOn generalizing s with
  | nil =>
    simp only [run_nil, Option.some.injEq] at h
    subst h
    exact ⟨rfl, fun _ => by simp [openText]⟩
  | append_singleton bs b ih =>
    rw [run_append] at h
    obtain ⟨s₁, h₁, h⟩ := Option.bind_eq_some_iff.mp h
    obtain ⟨hstored, hpending⟩ := ih h₁
    rw [run_singleton] at h
    by_cases hfull : F.Full s₁.stored
    · rw [step_full F hfull, Option.some.injEq] at h
      subst h
      refine ⟨?_, fun hn => absurd hfull hn⟩
      rw [hstored, filled_append_of_full F (hstored ▸ hfull)]
    · have hcap : s₁.pending.length < F.capacity := by
        by_contra hc
        rw [step_overrun F hfull hc] at h
        exact absurd h (by simp)
      by_cases hb : b = F.delimiter
      · subst hb
        rw [step_delimiter F hfull hcap, Option.some.injEq] at h
        subst h
        refine ⟨?_, fun _ => by simp⟩
        rw [filled_append_delimiter F (hstored ▸ hfull), hstored, hpending hfull]
      · rw [step_text F hfull hcap hb, Option.some.injEq] at h
        subst h
        refine ⟨?_, fun _ => ?_⟩
        · rw [hstored, filled_append_text F hb]
        · rw [hpending hfull, openText_append_text hb]

def Format.Fits (bs : List β) : Prop :=
  ∀ i < bs.length, ¬ F.Full (F.filled (bs.take i)) →
    (openText F.delimiter (bs.take i)).length < F.capacity

instance (bs : List β) : Decidable (F.Fits bs) := by
  unfold Format.Fits
  infer_instance

theorem fits_append_iff (bs : List β) (b : β) :
    F.Fits (bs ++ [b]) ↔ F.Fits bs ∧
      (¬ F.Full (F.filled bs) → (openText F.delimiter bs).length < F.capacity) := by
  unfold Format.Fits
  constructor
  · intro h
    refine ⟨fun i hi => ?_, ?_⟩
    · have h₁ := h i (by simp; omega)
      rwa [List.take_append_of_le_length (by omega)] at h₁
    · have h₁ := h bs.length (by simp)
      rwa [List.take_left] at h₁
  · intro h i hi
    by_cases hlt : i < bs.length
    · rw [List.take_append_of_le_length (by omega)]
      exact h.1 i hlt
    · have he : i = bs.length := by
        simp at hi
        omega
      rw [he, List.take_left]
      exact h.2

theorem run_isSome_iff (bs : List β) : (F.run ⟨[], []⟩ bs).isSome ↔ F.Fits bs := by
  induction bs using List.reverseRecOn with
  | nil => simp [Format.Fits]
  | append_singleton bs b ih =>
    rw [fits_append_iff, ← ih, run_append]
    cases hrun : F.run ⟨[], []⟩ bs with
    | none => simp
    | some s =>
      obtain ⟨hstored, hpending⟩ := run_reads F hrun
      rw [← hstored]
      by_cases hfull : F.Full s.stored
      · simp [step_full F hfull, hfull]
      · rw [← hpending hfull]
        by_cases hcap : s.pending.length < F.capacity
        · simp [Format.step, hfull, hcap]
        · simp [step_overrun F hfull hcap, hfull, hcap]

/-! ## Texts read one by one -/

/-- The slots after some texts, each closed by a delimiter. -/
def Format.read (st : List α) (texts : List (List β)) : List α :=
  texts.foldl (fun st t => if F.Full st then st else F.close st t) st

omit [DecidableEq β] in
theorem read_cons (st : List α) (t : List β) (texts : List (List β)) :
    F.read st (t :: texts) = F.read (if F.Full st then st else F.close st t) texts := rfl

omit [DecidableEq β] in
theorem read_append (st : List α) (texts texts' : List (List β)) :
    F.read st (texts ++ texts') = F.read (F.read st texts) texts' := List.foldl_append

omit [DecidableEq β] in
theorem prefix_read (st : List α) (texts : List (List β)) : st <+: F.read st texts := by
  induction texts generalizing st with
  | nil => exact List.prefix_rfl
  | cons t texts ih =>
    rw [read_cons]
    split
    · exact ih st
    · exact (prefix_close F st t).trans (ih _)

omit [DecidableEq β] in
theorem close_length_le (st : List α) (t : List β) : (F.close st t).length ≤ st.length + 1 := by
  unfold Format.close
  split
  · exact Nat.le_of_eq (List.length_append.trans rfl)
  · omega

omit [DecidableEq β] in
theorem read_length_le (st : List α) (texts : List (List β)) :
    (F.read st texts).length ≤ st.length + texts.length := by
  induction texts generalizing st with
  | nil => exact Nat.le_add_right _ _
  | cons t texts ih =>
    have hclose := close_length_le F st t
    rw [read_cons, List.length_cons]
    split
    · have h := ih st
      omega
    · have h := ih (F.close st t)
      omega

omit [DecidableEq β] in
/-- Where `k` slots are filled, a last text that would close slot `k` leaves more than `k` filled. -/
theorem lt_read_length {st : List α} {texts : List (List β)} {t : List β} {k : ℕ}
    (hk : k ≤ (F.read st texts).length) (hslots : k < F.slots)
    (hcloses : F.closes k (F.value t) = true) : k < (F.read st (texts ++ [t])).length := by
  have hlast : F.read st (texts ++ [t]) =
      if F.Full (F.read st texts) then F.read st texts else F.close (F.read st texts) t :=
    read_append F st texts [t]
  rw [hlast]
  generalize F.read st texts = filled at hk
  rcases Nat.lt_or_eq_of_le hk with hlt | rfl
  · split
    · exact hlt
    · exact Nat.lt_of_lt_of_le hlt (prefix_close F filled t).length_le
  · have hopen : ¬ F.Full filled := Nat.not_le.mpr hslots
    rw [if_neg hopen, Format.close, if_pos hcloses, List.length_append]
    exact Nat.lt_succ_self filled.length

theorem run_texts {texts : List (List β)} (st : List α)
    (htext : ∀ t ∈ texts, F.delimiter ∉ t ∧ t.length < F.capacity) :
    F.run ⟨st, []⟩ (texts.flatMap (· ++ [F.delimiter])) = some ⟨F.read st texts, []⟩ := by
  induction texts generalizing st with
  | nil => rfl
  | cons t texts ih =>
    obtain ⟨hd, hlen⟩ := htext t List.mem_cons_self
    have hrest := fun st => ih st (fun u hu => htext u (List.mem_cons_of_mem t hu))
    rw [List.flatMap_cons, run_append, read_cons]
    by_cases hfull : F.Full st
    · rw [run_full F (s := ⟨st, []⟩) hfull, Option.bind_some, if_pos hfull]
      exact hrest st
    · rw [run_field F (s := ⟨st, []⟩) hfull hd (by simpa using hlen), Option.bind_some,
        if_neg hfull]
      exact hrest _

/-- Every value stored is one that closes its slot. -/
def Format.Sound (st : List α) : Prop := ∀ i (hi : i < st.length), F.closes i st[i] = true

omit [DecidableEq β] in
theorem sound_close {st : List α} (h : F.Sound st) (t : List β) : F.Sound (F.close st t) := by
  unfold Format.close
  split
  · next hc =>
    intro i hi
    rw [List.length_append, List.length_singleton] at hi
    by_cases hlt : i < st.length
    · rw [List.getElem_append_left hlt]
      exact h i hlt
    · have he : i = st.length := by omega
      subst he
      simpa using hc
  · exact h

theorem sound_run {s s' : State β α} {bs : List β} (h : F.Sound s.stored)
    (hrun : F.run s bs = some s') : F.Sound s'.stored := by
  induction bs generalizing s with
  | nil =>
    rw [run_nil, Option.some.injEq] at hrun
    exact hrun ▸ h
  | cons b bs ih =>
    rw [run_cons] at hrun
    obtain ⟨s₁, h₁, h₂⟩ := Option.bind_eq_some_iff.mp hrun
    refine ih ?_ h₂
    unfold Format.step at h₁
    split_ifs at h₁ with hfull hcap hb
    · exact Option.some.inj h₁ ▸ h
    · exact Option.some.inj h₁ ▸ sound_close F h s.pending
    · exact Option.some.inj h₁ ▸ h

end Reader

end Foundations.Delimited
