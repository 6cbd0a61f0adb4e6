import Mathlib.Data.Nat.Digits.Lemmas

/-! # Decimal texts of machine integers

`integer` writes a whole number in decimal, `parse` is the C library's reading of a decimal text
into a `w`-bit word: leading space is skipped, one sign is taken, and digits are accumulated modulo
`2 ^ w` up to the first byte that is no digit. `parse_integer` is the round trip, `parse_stop` says
that nothing after a stopping byte is read. -/
namespace Foundations.Decimal
set_option autoImplicit false

abbrev Byte := BitVec 8

def minus : Byte := 45

def plus : Byte := 43

def isDigit (c : Byte) : Bool := decide (48 ≤ c.toNat ∧ c.toNat ≤ 57)

def isSpace (c : Byte) : Bool := decide (c = 32 ∨ 9 ≤ c.toNat ∧ c.toNat ≤ 13)

def digitByte (d : ℕ) : Byte := BitVec.ofNat 8 (48 + d)

/-! ## Writing -/

def natural (n : ℕ) : List Byte :=
  if n = 0 then [digitByte 0] else (Nat.digits 10 n).reverse.map digitByte

def integer (z : ℤ) : List Byte :=
  if z < 0 then minus :: natural z.natAbs else natural z.natAbs

/-! ## Reading -/

section Reading
variable {w : ℕ}

def digits (r : BitVec w) : List Byte → BitVec w
  | [] => r
  | c :: cs =>
    if isDigit c then digits (r * 10#w + BitVec.ofNat w (c.toNat - 48)) cs else r

def signed : List Byte → BitVec w
  | [] => 0#w
  | c :: cs =>
    if c = minus then -digits 0#w cs
    else if c = plus then digits 0#w cs
    else digits 0#w (c :: cs)

def parse (w : ℕ) (t : List Byte) : BitVec w := signed (t.dropWhile isSpace)

/-- A byte that ends every text before it. -/
def Stops (c : Byte) : Prop := isDigit c = false ∧ isSpace c = false ∧ c ≠ minus ∧ c ≠ plus

instance (c : Byte) : Decidable (Stops c) := inferInstanceAs (Decidable (_ ∧ _ ∧ _ ∧ _))

@[simp] theorem parse_nil : parse w [] = 0#w := rfl

theorem digits_stop {c : Byte} (hc : isDigit c = false) (r : BitVec w) (t rest : List Byte) :
    digits r (t ++ c :: rest) = digits r t := by
  induction t generalizing r with
  | nil => simp [digits, hc]
  | cons b t ih =>
    rw [List.cons_append, digits, digits]
    by_cases hb : isDigit b = true
    · rw [if_pos hb, if_pos hb, ih]
    · rw [if_neg hb, if_neg hb]

theorem signed_stop {c : Byte} (hc : Stops c) (t rest : List Byte) :
    (signed (t ++ c :: rest) : BitVec w) = signed t := by
  obtain ⟨hdigit, -, hminus, hplus⟩ := hc
  cases t with
  | nil => simp [signed, digits, hdigit, hminus, hplus]
  | cons b t =>
    rw [List.cons_append, signed, signed, digits_stop hdigit, ← List.cons_append,
      digits_stop hdigit]

theorem parse_stop {c : Byte} (hc : Stops c) (t rest : List Byte) :
    parse w (t ++ c :: rest) = parse w t := by
  have hdrop : (t ++ c :: rest).dropWhile isSpace = t.dropWhile isSpace ++ c :: rest := by
    rw [List.dropWhile_append]
    split
    · next h =>
      rw [List.isEmpty_iff] at h
      rw [h, List.dropWhile_cons_of_neg (by simp [hc.2.1]), List.nil_append]
    · rfl
  rw [parse, hdrop, signed_stop hc, parse]

/-! ## The round trip -/

theorem digitByte_toNat {d : ℕ} (hd : d < 10) : (digitByte d).toNat = 48 + d := by
  rw [digitByte, BitVec.toNat_ofNat]
  omega

theorem isDigit_digitByte {d : ℕ} (hd : d < 10) : isDigit (digitByte d) = true := by
  rw [isDigit, digitByte_toNat hd]
  simp
  omega

theorem digits_map {ds : List ℕ} (hds : ∀ d ∈ ds, d < 10) (n : ℕ) :
    digits (BitVec.ofNat w n) (ds.map digitByte) =
      BitVec.ofNat w (ds.foldl (fun m d => m * 10 + d) n) := by
  induction ds generalizing n with
  | nil => rfl
  | cons d ds ih =>
    have hd : d < 10 := hds d (by simp)
    have hacc : BitVec.ofNat w n * 10#w + BitVec.ofNat w ((digitByte d).toNat - 48) =
        BitVec.ofNat w (n * 10 + d) := by
      rw [digitByte_toNat hd, Nat.add_sub_cancel_left, BitVec.ofNat_add, BitVec.ofNat_mul]
    rw [List.map_cons, digits, if_pos (isDigit_digitByte hd), hacc, List.foldl_cons]
    exact ih (fun e he => hds e (by simp [he])) (n * 10 + d)

theorem foldl_digits (n : ℕ) :
    (Nat.digits 10 n).reverse.foldl (fun m d => m * 10 + d) 0 = n := by
  have h := Nat.ofDigits_digits 10 n
  rw [Nat.ofDigits_eq_foldr] at h
  rw [List.foldl_reverse]
  simpa [Nat.add_comm, Nat.mul_comm] using h

theorem natural_digit {n : ℕ} (hn : n < 10) : natural n = [digitByte n] := by
  rw [natural]
  split_ifs with h0
  · rw [h0]
  · rw [Nat.digits_of_lt 10 n h0 hn]
    rfl

theorem natural_step {n : ℕ} (hn : 10 ≤ n) :
    natural n = natural (n / 10) ++ [digitByte (n % 10)] := by
  have hn0 : n ≠ 0 := by omega
  have hdiv : n / 10 ≠ 0 := by omega
  rw [natural, natural, if_neg hn0, if_neg hdiv, Nat.digits_eq_cons_digits_div (by decide) hn0,
    List.reverse_cons, List.map_append]
  rfl

theorem natural_eq_map (n : ℕ) : ∃ ds : List ℕ, natural n = ds.map digitByte ∧
    (∀ d ∈ ds, d < 10) ∧ ds ≠ [] ∧ ds.foldl (fun m d => m * 10 + d) 0 = n := by
  by_cases h : n = 0
  · refine ⟨[0], ?_, ?_, ?_, ?_⟩ <;> simp [natural, h]
  · refine ⟨(Nat.digits 10 n).reverse, ?_, ?_, ?_, foldl_digits n⟩
    · rw [natural, if_neg h]
    · intro d hd
      exact Nat.digits_lt_base (by norm_num) (List.mem_reverse.mp hd)
    · simpa using Nat.digits_ne_nil_iff_ne_zero.mpr h

theorem ne_of_isDigit {c d : Byte} (hc : isDigit c = true) (hd : isDigit d = false) : c ≠ d := by
  intro h
  rw [h, hd] at hc
  exact absurd hc (by decide)

theorem isDigit_natural {n : ℕ} {c : Byte} (hc : c ∈ natural n) : isDigit c = true := by
  obtain ⟨ds, hds, hlt, -, -⟩ := natural_eq_map n
  rw [hds] at hc
  obtain ⟨d, hd, rfl⟩ := List.mem_map.mp hc
  exact isDigit_digitByte (hlt d hd)

theorem digits_natural (n : ℕ) : digits 0#w (natural n) = BitVec.ofNat w n := by
  obtain ⟨ds, hds, hlt, -, hval⟩ := natural_eq_map n
  rw [hds, digits_map hlt 0, hval]

theorem signed_natural (n : ℕ) : (signed (natural n) : BitVec w) = BitVec.ofNat w n := by
  have hread := digits_natural (w := w) n
  cases hn : natural n with
  | nil =>
    obtain ⟨ds, hds, -, hne, -⟩ := natural_eq_map n
    rw [hn] at hds
    exact absurd (List.map_eq_nil_iff.mp hds.symm) hne
  | cons c cs =>
    have hc : isDigit c = true := isDigit_natural (n := n) (by simp [hn])
    rw [signed, if_neg (ne_of_isDigit hc (by decide)), if_neg (ne_of_isDigit hc (by decide)),
      ← hn, hread]

theorem isDigit_or_minus {z : ℤ} {c : Byte} (hc : c ∈ integer z) :
    isDigit c = true ∨ c = minus := by
  unfold integer at hc
  split at hc
  · rcases List.mem_cons.mp hc with h | h
    · exact Or.inr h
    · exact Or.inl (isDigit_natural h)
  · exact Or.inl (isDigit_natural hc)

theorem isSpace_integer {z : ℤ} {c : Byte} (hc : c ∈ integer z) : isSpace c = false := by
  rcases isDigit_or_minus hc with h | h
  · have h32 : c ≠ 32 := ne_of_isDigit h (by decide)
    simp only [isDigit, decide_eq_true_eq] at h
    have hrange : ¬ (9 ≤ c.toNat ∧ c.toNat ≤ 13) := by omega
    rw [isSpace, decide_eq_false_iff_not, not_or]
    exact ⟨h32, hrange⟩
  · subst h
    decide

theorem parse_integer (z : ℤ) : parse w (integer z) = BitVec.ofInt w z := by
  have hdrop : (integer z).dropWhile isSpace = integer z := by
    cases hz : integer z with
    | nil => rfl
    | cons c cs =>
      have hc : isSpace c = false := isSpace_integer (z := z) (by simp [hz])
      rw [List.dropWhile_cons_of_neg (by simp [hc])]
  rw [parse, hdrop, integer]
  by_cases hz : z < 0
  · have habs : z = -(z.natAbs : ℤ) := by omega
    rw [if_pos hz, signed, if_pos rfl, digits_natural]
    conv_rhs => rw [habs, BitVec.ofInt_neg, BitVec.ofInt_natCast]
  · have habs : z = (z.natAbs : ℤ) := by omega
    rw [if_neg hz, signed_natural]
    conv_rhs => rw [habs, BitVec.ofInt_natCast]

theorem natural_length_le {n k : ℕ} (hk : 0 < k) (hn : n < 10 ^ k) : (natural n).length ≤ k := by
  unfold natural
  split
  · rw [List.length_singleton]
    omega
  · rw [List.length_map, List.length_reverse]
    exact (Nat.digits_length_le_iff (by norm_num) n).mpr hn

theorem integer_length_le {z : ℤ} {k : ℕ} (hk : 0 < k) (hz : z.natAbs < 10 ^ k) :
    (integer z).length ≤ k + 1 := by
  have h := natural_length_le hk hz
  unfold integer
  split
  · simpa using h
  · omega

end Reading

end Foundations.Decimal
