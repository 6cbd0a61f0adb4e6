import TitanRover.Buffer.Deque
import TitanRover.Foundations.Words

/-! # Numbers in the byte buffer

`putInt`, `putLong` and `putFloat` leave a number as its bytes at the end of the buffer, their
`InFront` versions at its beginning, and the getters put it together again. The orders of the bytes
agree: the numbers come out at either end as they went in at either end, as long as there was room
for them and each is asked for as what it is. A `float` is its 32 bits. -/
namespace TitanRover.Buffer
open Foundations
set_option autoImplicit false

namespace ByteBuffer
variable (b : ByteBuffer)

/-! ## Bytes one after the other -/

def putEach (xs : List Byte) : ByteBuffer := xs.foldl (fun b x => (b.put x).1) b

def putInFrontEach (xs : List Byte) : ByteBuffer := xs.foldl (fun b x => (b.putInFront x).1) b

def getEach (b : ByteBuffer) : ℕ → ByteBuffer × List Byte
  | 0 => (b, [])
  | n + 1 => ((getEach b.get.1 n).1, b.get.2 :: (getEach b.get.1 n).2)

def getFromBackEach (b : ByteBuffer) : ℕ → ByteBuffer × List Byte
  | 0 => (b, [])
  | n + 1 =>
    ((getFromBackEach b.getFromBack.1 n).1,
      b.getFromBack.2 :: (getFromBackEach b.getFromBack.1 n).2)

/-! ## Ints -/

def putIntInFront (v : BitVec 16) : ByteBuffer :=
  b.putInFrontEach [Words.pointer v 0, Words.pointer v 1]

def putInt (v : BitVec 16) : ByteBuffer := b.putEach [Words.pointer v 1, Words.pointer v 0]

/-- `pointer[1]` is the byte that comes first. -/
def getInt : ByteBuffer × BitVec 16 := ((b.getEach 2).1, Words.word 16 (b.getEach 2).2)

/-- `pointer[0]` is the byte that comes first. -/
def getIntFromBack : ByteBuffer × BitVec 16 :=
  ((b.getFromBackEach 2).1, Words.word 16 (b.getFromBackEach 2).2.reverse)

/-! ## Longs -/

def putLongInFront (v : BitVec 32) : ByteBuffer :=
  b.putInFrontEach [Words.pointer v 0, Words.pointer v 1, Words.pointer v 2, Words.pointer v 3]

def putLong (v : BitVec 32) : ByteBuffer :=
  b.putEach [Words.pointer v 3, Words.pointer v 2, Words.pointer v 1, Words.pointer v 0]

def getLong : ByteBuffer × BitVec 32 := ((b.getEach 4).1, Words.word 32 (b.getEach 4).2)

def getLongFromBack : ByteBuffer × BitVec 32 :=
  ((b.getFromBackEach 4).1, Words.word 32 (b.getFromBackEach 4).2.reverse)

/-! ## Floats -/

def putFloatInFront (v : BitVec 32) : ByteBuffer :=
  b.putInFrontEach [Words.pointer v 0, Words.pointer v 1, Words.pointer v 2, Words.pointer v 3]

def putFloat (v : BitVec 32) : ByteBuffer :=
  b.putEach [Words.pointer v 3, Words.pointer v 2, Words.pointer v 1, Words.pointer v 0]

def getFloat : ByteBuffer × BitVec 32 := ((b.getEach 4).1, Words.word 32 (b.getEach 4).2)

def getFloatFromBack : ByteBuffer × BitVec 32 :=
  ((b.getFromBackEach 4).1, Words.word 32 (b.getFromBackEach 4).2.reverse)

end ByteBuffer

/-! ## A deque of numbers -/

inductive Kind where
  | byte
  | int
  | long
  | float
  deriving DecidableEq

inductive Value where
  | byte (x : BitVec 8)
  | int (v : BitVec 16)
  | long (v : BitVec 32)
  | float (v : BitVec 32)
  deriving DecidableEq

namespace Value

def kind : Value → Kind
  | .byte _ => .byte
  | .int _ => .int
  | .long _ => .long
  | .float _ => .float

def bytes : Value → List Byte
  | .byte x => [x]
  | .int v => Words.highFirst v 2
  | .long v => Words.highFirst v 4
  | .float v => Words.highFirst v 4

end Value

inductive Typed where
  | put (v : Value)
  | putInFront (v : Value)
  | get (k : Kind)
  | getFromBack (k : Kind)

def room (vs : List Value) : ℕ := (vs.flatMap Value.bytes).length

/-- What is asked of a list of numbers, if it may be: a number is put where it fits, and taken as
what it is. -/
def askValues (cap : ℕ) (vs : List Value) : Typed → Option (List Value × Option Value)
  | .put v => if room vs + v.bytes.length ≤ cap then some (vs ++ [v], none) else none
  | .putInFront v => if room vs + v.bytes.length ≤ cap then some (v :: vs, none) else none
  | .get k =>
    match vs with
    | [] => none
    | v :: rest => if v.kind = k then some (rest, some v) else none
  | .getFromBack k =>
    match vs.getLast? with
    | none => none
    | some v => if v.kind = k then some (vs.dropLast, some v) else none

namespace ByteBuffer
variable (b : ByteBuffer)

def putValue : Value → ByteBuffer
  | .byte x => (b.put x).1
  | .int v => b.putInt v
  | .long v => b.putLong v
  | .float v => b.putFloat v

def putValueInFront : Value → ByteBuffer
  | .byte x => (b.putInFront x).1
  | .int v => b.putIntInFront v
  | .long v => b.putLongInFront v
  | .float v => b.putFloatInFront v

def getValue : Kind → ByteBuffer × Value
  | .byte => (b.get.1, .byte b.get.2)
  | .int => (b.getInt.1, .int b.getInt.2)
  | .long => (b.getLong.1, .long b.getLong.2)
  | .float => (b.getFloat.1, .float b.getFloat.2)

def getValueFromBack : Kind → ByteBuffer × Value
  | .byte => (b.getFromBack.1, .byte b.getFromBack.2)
  | .int => (b.getIntFromBack.1, .int b.getIntFromBack.2)
  | .long => (b.getLongFromBack.1, .long b.getLongFromBack.2)
  | .float => (b.getFloatFromBack.1, .float b.getFloatFromBack.2)

def ask : Typed → ByteBuffer × Option Value
  | .put v => (b.putValue v, none)
  | .putInFront v => (b.putValueInFront v, none)
  | .get k => ((b.getValue k).1, some (b.getValue k).2)
  | .getFromBack k => ((b.getValueFromBack k).1, some (b.getValueFromBack k).2)

end ByteBuffer

/-! ## Buffers that refused nothing -/

/-- The buffer holds these bytes and has refused none. -/
structure Holds (cap : ℕ) (b : ByteBuffer) (l : List Byte) : Prop where
  contents : b.contents = l
  capacity : b.capacity = cap
  fillError : b.fillError = false

namespace Holds
variable {cap : ℕ} {b : ByteBuffer} {l : List Byte}

theorem length_eq (h : Holds cap b l) : b.length = l.length := by
  rw [← b.length_contents, h.contents]

theorem put (h : Holds cap b l) (hroom : l.length < cap) (x : Byte) :
    Holds cap (b.put x).1 (l ++ [x]) := by
  have hlt : b.length < b.capacity := by
    rw [h.length_eq, h.capacity]
    exact hroom
  rw [ByteBuffer.put, dif_pos hlt]
  constructor
  · rw [b.store_contents hlt, h.contents]
  · exact h.capacity
  · exact h.fillError

theorem putInFront (h : Holds cap b l) (hroom : l.length < cap) (x : Byte) :
    Holds cap (b.putInFront x).1 (x :: l) := by
  have hlt : b.length < b.capacity := by
    rw [h.length_eq, h.capacity]
    exact hroom
  have hbytes := congrArg (fun d => d.1.bytes) (b.putInFront_deque x)
  rw [Deque.putInFront, dif_pos (b.room_iff.mpr hlt)] at hbytes
  constructor
  · rw [← h.contents]
    exact hbytes.symm
  · rw [ByteBuffer.putInFront, dif_pos hlt]
    exact h.capacity
  · rw [ByteBuffer.putInFront, dif_pos hlt]
    exact h.fillError

theorem get {x : Byte} (h : Holds cap b (x :: l)) : Holds cap b.get.1 l ∧ b.get.2 = x := by
  have hpos : 0 < b.length := by
    rw [h.length_eq]
    exact Nat.zero_lt_succ _
  have hfront := (b.get_contents hpos).symm.trans h.contents
  obtain ⟨hx, hl⟩ := List.cons.inj hfront
  refine ⟨⟨hl, ?_, ?_⟩, hx⟩
  · rw [ByteBuffer.get, if_pos hpos]
    exact h.capacity
  · rw [ByteBuffer.get, if_pos hpos]
    exact h.fillError

theorem getFromBack {x : Byte} (h : Holds cap b (l ++ [x])) :
    Holds cap b.getFromBack.1 l ∧ b.getFromBack.2 = x := by
  have hpos : 0 < b.length := by
    rw [h.length_eq, List.length_append]
    exact Nat.zero_lt_succ _
  have hback := (b.getFromBack_contents hpos).symm.trans h.contents
  obtain ⟨hl, hx⟩ := List.append_inj' hback rfl
  refine ⟨⟨hl, ?_, ?_⟩, (List.cons.inj hx).1⟩
  · rw [ByteBuffer.getFromBack, if_pos hpos]
    exact h.capacity
  · rw [ByteBuffer.getFromBack, if_pos hpos]
    exact h.fillError

theorem putEach (h : Holds cap b l) {xs : List Byte} (hroom : l.length + xs.length ≤ cap) :
    Holds cap (b.putEach xs) (l ++ xs) := by
  induction xs generalizing b l with
  | nil =>
    rw [List.append_nil]
    exact h
  | cons x xs ih =>
    rw [List.length_cons] at hroom
    have hrest := ih (h.put (by omega) x) (by rw [List.length_append, List.length_singleton]; omega)
    rw [List.append_assoc] at hrest
    exact hrest

theorem putInFrontEach (h : Holds cap b l) (xs : List Byte) (hroom : l.length + xs.length ≤ cap) :
    Holds cap (b.putInFrontEach xs) (xs.reverse ++ l) := by
  induction xs generalizing b l with
  | nil => exact h
  | cons x xs ih =>
    rw [List.length_cons] at hroom
    have hrest := ih (h.putInFront (by omega) x) (by rw [List.length_cons]; omega)
    rw [List.reverse_cons, List.append_assoc]
    exact hrest

theorem getEach {xs : List Byte} (h : Holds cap b (xs ++ l)) :
    Holds cap (b.getEach xs.length).1 l ∧ (b.getEach xs.length).2 = xs := by
  induction xs generalizing b with
  | nil => exact ⟨h, rfl⟩
  | cons x xs ih =>
    obtain ⟨hget, hx⟩ := h.get
    obtain ⟨hrest, hxs⟩ := ih hget
    exact ⟨hrest, congrArg₂ List.cons hx hxs⟩

theorem getFromBackEach {xs : List Byte} (h : Holds cap b (l ++ xs.reverse)) :
    Holds cap (b.getFromBackEach xs.length).1 l ∧ (b.getFromBackEach xs.length).2 = xs := by
  induction xs generalizing b with
  | nil =>
    rw [List.reverse_nil, List.append_nil] at h
    exact ⟨h, rfl⟩
  | cons x xs ih =>
    rw [List.reverse_cons, ← List.append_assoc] at h
    obtain ⟨hget, hx⟩ := h.getFromBack
    obtain ⟨hrest, hxs⟩ := ih hget
    exact ⟨hrest, congrArg₂ List.cons hx hxs⟩

/-! ## One number -/

variable {v : Value}

theorem putValue (h : Holds cap b l) (hroom : l.length + v.bytes.length ≤ cap) :
    Holds cap (b.putValue v) (l ++ v.bytes) := by
  cases v with
  | byte x => exact h.put hroom x
  | int v => exact h.putEach hroom
  | long v => exact h.putEach hroom
  | float v => exact h.putEach hroom

theorem putValueInFront (h : Holds cap b l) (hroom : l.length + v.bytes.length ≤ cap) :
    Holds cap (b.putValueInFront v) (v.bytes ++ l) := by
  cases v with
  | byte x => exact h.putInFront hroom x
  | int v => exact h.putInFrontEach (Words.highFirst v 2).reverse hroom
  | long v => exact h.putInFrontEach (Words.highFirst v 4).reverse hroom
  | float v => exact h.putInFrontEach (Words.highFirst v 4).reverse hroom

/-- A word that the getters put together again. -/
theorem getWord {w n : ℕ} (hw : w ≤ 8 * n) {v : BitVec w}
    (h : Holds cap b (Words.highFirst v n ++ l)) :
    Holds cap (b.getEach n).1 l ∧ Words.word w (b.getEach n).2 = v := by
  obtain ⟨hl, hbytes⟩ := h.getEach
  rw [Words.length_highFirst] at hl hbytes
  rw [hbytes]
  exact ⟨hl, Words.word_highFirst n hw v⟩

theorem getWordFromBack {w n : ℕ} (hw : w ≤ 8 * n) {v : BitVec w}
    (h : Holds cap b (l ++ Words.highFirst v n)) :
    Holds cap (b.getFromBackEach n).1 l ∧ Words.word w (b.getFromBackEach n).2.reverse = v := by
  rw [← List.reverse_reverse (Words.highFirst v n)] at h
  obtain ⟨hl, hbytes⟩ := h.getFromBackEach
  rw [List.length_reverse, Words.length_highFirst] at hl hbytes
  rw [hbytes, List.reverse_reverse]
  exact ⟨hl, Words.word_highFirst n hw v⟩

theorem getValue (h : Holds cap b (v.bytes ++ l)) :
    Holds cap (b.getValue v.kind).1 l ∧ (b.getValue v.kind).2 = v := by
  cases v with
  | byte x =>
    obtain ⟨hl, hx⟩ := h.get
    exact ⟨hl, congrArg Value.byte hx⟩
  | int v =>
    obtain ⟨hl, hv⟩ := h.getWord (n := 2) (by decide)
    exact ⟨hl, congrArg Value.int hv⟩
  | long v =>
    obtain ⟨hl, hv⟩ := h.getWord (n := 4) (by decide)
    exact ⟨hl, congrArg Value.long hv⟩
  | float v =>
    obtain ⟨hl, hv⟩ := h.getWord (n := 4) (by decide)
    exact ⟨hl, congrArg Value.float hv⟩

theorem getValueFromBack (h : Holds cap b (l ++ v.bytes)) :
    Holds cap (b.getValueFromBack v.kind).1 l ∧ (b.getValueFromBack v.kind).2 = v := by
  cases v with
  | byte x =>
    obtain ⟨hl, hx⟩ := h.getFromBack
    exact ⟨hl, congrArg Value.byte hx⟩
  | int v =>
    obtain ⟨hl, hv⟩ := h.getWordFromBack (n := 2) (by decide)
    exact ⟨hl, congrArg Value.int hv⟩
  | long v =>
    obtain ⟨hl, hv⟩ := h.getWordFromBack (n := 4) (by decide)
    exact ⟨hl, congrArg Value.long hv⟩
  | float v =>
    obtain ⟨hl, hv⟩ := h.getWordFromBack (n := 4) (by decide)
    exact ⟨hl, congrArg Value.float hv⟩

/-- A request that may be made of the numbers is answered as they say. -/
theorem ask {vs : List Value} {op : Typed} {r : List Value × Option Value}
    (h : Holds cap b (vs.flatMap Value.bytes)) (hr : askValues cap vs op = some r) :
    Holds cap (b.ask op).1 (r.1.flatMap Value.bytes) ∧ (b.ask op).2 = r.2 := by
  cases op with
  | put v =>
    obtain ⟨hroom, heq⟩ := Option.ite_none_right_eq_some.mp hr
    obtain rfl := Option.some.inj heq
    refine ⟨?_, rfl⟩
    rw [List.flatMap_append, List.flatMap_singleton]
    exact h.putValue hroom
  | putInFront v =>
    obtain ⟨hroom, heq⟩ := Option.ite_none_right_eq_some.mp hr
    obtain rfl := Option.some.inj heq
    exact ⟨h.putValueInFront hroom, rfl⟩
  | get k =>
    cases vs with
    | nil => exact nomatch hr
    | cons v rest =>
      obtain ⟨rfl, heq⟩ := Option.ite_none_right_eq_some.mp hr
      obtain rfl := Option.some.inj heq
      obtain ⟨hl, hv⟩ := Holds.getValue h
      exact ⟨hl, congrArg some hv⟩
  | getFromBack k =>
    cases hlast : vs.getLast? with
    | none =>
      rw [askValues, hlast] at hr
      exact nomatch hr
    | some v =>
      rw [askValues, hlast] at hr
      obtain ⟨rfl, heq⟩ := Option.ite_none_right_eq_some.mp hr
      obtain rfl := Option.some.inj heq
      rw [← List.dropLast_append_getLast? v hlast, List.flatMap_append,
        List.flatMap_singleton] at h
      obtain ⟨hl, hv⟩ := Holds.getValueFromBack h
      exact ⟨hl, congrArg some hv⟩

end Holds

/-! ## Numerals -/

/-- `while (tmp >= step) { count++; tmp -= step; }` -/
def tally (step : ℕ) (hstep : 0 < step) (count tmp : ℕ) : ℕ × ℕ :=
  if step ≤ tmp then tally step hstep (count + 1) (tmp - step) else (count, tmp)
termination_by tmp

theorem tally_eq (step : ℕ) (hstep : 0 < step) (count tmp : ℕ) :
    tally step hstep count tmp = (count + tmp / step, tmp % step) := by
  induction tmp using Nat.strong_induction_on generalizing count with
  | _ tmp ih =>
    rw [tally]
    split_ifs with h
    · rw [ih (tmp - step) (Nat.sub_lt (hstep.trans_le h) hstep), Nat.mod_eq_sub_mod h,
        Nat.div_eq_sub_div hstep h, Nat.add_assoc, Nat.add_comm 1]
    · rw [Nat.div_eq_of_lt (Nat.lt_of_not_le h), Nat.mod_eq_of_lt (Nat.lt_of_not_le h)]
      rfl

namespace ByteBuffer
variable (b : ByteBuffer)

/-- The `uint8_t` of this name. -/
def putDec (number : BitVec 8) : ByteBuffer :=
  let (hundreds, tmp) := tally 100 (by decide) 0 number.toNat
  let (tens, ones) := tally 10 (by decide) 0 tmp
  let b := if 100 ≤ number.toNat then (b.put (Decimal.digitByte hundreds)).1 else b
  let b := if 10 ≤ number.toNat then (b.put (Decimal.digitByte tens)).1 else b
  (b.put (Decimal.digitByte ones)).1

/-- The `int8_t` of this name. -/
def putDecSigned (number : BitVec 8) : ByteBuffer :=
  let b := if number.toInt < 0 then (b.put Decimal.minus).1 else b
  b.putDec (BitVec.ofInt 8 |number.toInt|)

end ByteBuffer

theorem ByteBuffer.putDec_eq (b : ByteBuffer) (number : BitVec 8) :
    b.putDec number = b.putEach (Decimal.natural number.toNat) := by
  have hlt : number.toNat < 256 := number.isLt
  generalize hn : number.toNat = n at hlt
  simp only [ByteBuffer.putDec, hn, tally_eq, Nat.zero_add]
  by_cases h10 : 10 ≤ n
  · rw [Decimal.natural_step h10, if_pos h10]
    by_cases h100 : 100 ≤ n
    · have htens : n % 100 / 10 = n / 10 % 10 := by omega
      have hhundreds : n / 100 = n / 10 / 10 := by omega
      rw [Decimal.natural_step (n := n / 10) (by omega), Decimal.natural_digit (by omega),
        if_pos h100, htens, hhundreds, Nat.mod_mod_of_dvd n (by decide)]
      rfl
    · have htens : n % 100 / 10 = n / 10 := by omega
      rw [Decimal.natural_digit (by omega), if_neg h100, htens, Nat.mod_mod_of_dvd n (by decide)]
      rfl
  · have hones : n % 100 % 10 = n := by omega
    rw [Decimal.natural_digit (by omega), if_neg h10, if_neg (by omega), hones]
    rfl

theorem ByteBuffer.putDecSigned_eq (b : ByteBuffer) (number : BitVec 8) :
    b.putDecSigned number = b.putEach (Decimal.integer number.toInt) := by
  have hlow := BitVec.le_toInt number
  have hhigh := BitVec.toInt_lt (x := number)
  have habs : (BitVec.ofInt 8 |number.toInt|).toNat = number.toInt.natAbs := by
    rw [BitVec.toNat_ofInt, Int.abs_eq_natAbs]
    omega
  rw [ByteBuffer.putDecSigned, ByteBuffer.putDec_eq, habs, Decimal.integer]
  split_ifs <;> rfl

/-- A number that `putDec` left reads back as itself. -/
theorem Holds.putDecSigned {cap : ℕ} {b : ByteBuffer} {l : List Byte} (h : Holds cap b l)
    (number : BitVec 8) (hroom : l.length + 4 ≤ cap) :
    ∃ text, Holds cap (b.putDecSigned number) (l ++ text) ∧ Decimal.parse 8 text = number := by
  have hlow := BitVec.le_toInt number
  have hhigh := BitVec.toInt_lt (x := number)
  have hlen : (Decimal.integer number.toInt).length ≤ 3 + 1 :=
    Decimal.integer_length_le (by decide) (by omega)
  refine ⟨Decimal.integer number.toInt, ?_, ?_⟩
  · rw [ByteBuffer.putDecSigned_eq]
    exact h.putEach (by omega)
  · rw [Decimal.parse_integer, BitVec.ofInt_toInt]

/-! ## Any numbers -/

/-- From an empty buffer, numbers of any kinds that are put at both ends where they fit, and taken
at both ends as what they are, come back as from a list of numbers. -/
theorem numbers_come_back (memory : ℕ → Byte) (buf_length : ℕ)
    (h : 0 < buf_length ∧ buf_length < 2 ^ 15) (ops : List Typed) (vs : List Value)
    (told : List (Option Value)) (hr : Run.allowed (askValues buf_length) [] ops = some (vs, told)) :
    let after := Run.replies ByteBuffer.ask (init memory buf_length h) ops
    after.2 = told ∧ after.1.contents = vs.flatMap Value.bytes ∧ after.1.fillError = false := by
  intro after
  have hinit : Holds buf_length (init memory buf_length h) (([] : List Value).flatMap Value.bytes) :=
    ⟨rfl, rfl, rfl⟩
  obtain ⟨hholds, htold⟩ := Run.replies_of_allowed
    (R := fun b vs => Holds buf_length b (vs.flatMap Value.bytes))
    (fun _ _ _ _ hR hr => Holds.ask hR hr) hinit hr
  exact ⟨htold, hholds.contents, hholds.fillError⟩

theorem numbers_come_back_both_ends :
    (Run.replies ByteBuffer.ask (init (fun _ => 0) 7 ⟨by decide, by decide⟩)
      [.put (.int 0x1234), .putInFront (.long 0xDEADBEEF), .put (.byte 7), .getFromBack .byte,
        .get .long, .getFromBack .int]).2 =
      [none, none, none, some (.byte 7), some (.long 0xDEADBEEF), some (.int 0x1234)] :=
  (numbers_come_back (fun _ => 0) 7 ⟨by decide, by decide⟩
    [.put (.int 0x1234), .putInFront (.long 0xDEADBEEF), .put (.byte 7), .getFromBack .byte,
      .get .long, .getFromBack .int] []
    [none, none, none, some (.byte 7), some (.long 0xDEADBEEF), some (.int 0x1234)] (by decide)).1

end TitanRover.Buffer
