import TitanRover.Buffer.ByteBuffer

/-! # The byte buffer is a deque

Whatever operations are called, in whatever order, the ring of `ByteBuffer.cpp` answers as a list of
bounded length does that takes and gives bytes at both ends, and the list is what the ring holds.
`putString` alone has inputs at which it does something else: an empty text, whose zero is stored as
if it were a character, and a text that fits but brings the count back to zero. -/
namespace TitanRover.Buffer
open Foundations
set_option autoImplicit false

/-! ## The deque -/

/-- What the buffer stands for: a list of bytes of bounded length, and the mark of a byte refused. -/
@[ext] structure Deque where
  bytes : List Byte
  capacity : ℕ
  error : Bool
  bounded : bytes.length ≤ capacity

namespace Deque
variable (d : Deque)

def full : Deque := { d with error := true }

def put (x : Byte) : Deque × BitVec 8 :=
  if h : d.bytes.length < d.capacity then
    ({ d with bytes := d.bytes ++ [x], bounded := by simpa using h }, 1)
  else (d.full, 0)

def putInFront (x : Byte) : Deque × BitVec 8 :=
  if h : d.bytes.length < d.capacity then
    ({ d with bytes := x :: d.bytes, bounded := by simpa using h }, 1)
  else (d.full, 0)

/-- As much of a text as there is room for. The count has 8 bits. -/
def putText (text : List Byte) : Deque × BitVec 8 :=
  ({ d with
    bytes := d.bytes ++ text.take (d.capacity - d.bytes.length)
    error := d.error || decide (d.capacity - d.bytes.length < text.length)
    bounded := by
      have h := d.bounded
      rw [List.length_append, List.length_take]
      omega },
    BitVec.ofNat 8 (min text.length (d.capacity - d.bytes.length)))

def get : Deque × Byte :=
  ({ d with bytes := d.bytes.tail, bounded := by simp; have h := d.bounded; omega },
    d.bytes.headD 0)

def getFromBack : Deque × Byte :=
  ({ d with bytes := d.bytes.dropLast, bounded := by simp; have h := d.bounded; omega },
    d.bytes.getLastD 0)

end Deque

/-! ## Operations -/

inductive Op where
  | put (x : Byte)
  | putInFront (x : Byte)
  | putString (text : Text)
  | get
  | getFromBack
  | clear
  | resetError
  | checkError
  | getSize
  | getCapacity

inductive Reply where
  | done
  | count (n : BitVec 8)
  | byte (x : Byte)
  | flag (e : Bool)
  | size (n : ℕ)
  deriving DecidableEq

namespace ByteBuffer
variable (b : ByteBuffer)

def exec : Op → ByteBuffer × Reply
  | .put x => ((b.put x).1, .count (b.put x).2)
  | .putInFront x => ((b.putInFront x).1, .count (b.putInFront x).2)
  | .putString text => ((b.putString text.memory).1, .count (b.putString text.memory).2)
  | .get => (b.get.1, .byte b.get.2)
  | .getFromBack => (b.getFromBack.1, .byte b.getFromBack.2)
  | .clear => (b.clear, .done)
  | .resetError => (b.resetError, .done)
  | .checkError => (b.checkError.1, .flag b.checkError.2)
  | .getSize => (b, .size b.getSize)
  | .getCapacity => (b, .size b.getCapacity)

end ByteBuffer

namespace Deque
variable (d : Deque)

def exec : Op → Deque × Reply
  | .put x => ((d.put x).1, .count (d.put x).2)
  | .putInFront x => ((d.putInFront x).1, .count (d.putInFront x).2)
  | .putString text => ((d.putText text.bytes).1, .count (d.putText text.bytes).2)
  | .get => (d.get.1, .byte d.get.2)
  | .getFromBack => (d.getFromBack.1, .byte d.getFromBack.2)
  | .clear => ({ d with bytes := [], bounded := Nat.zero_le _ }, .done)
  | .resetError => ({ d with error := false }, .done)
  | .checkError => ({ d with error := false }, .flag d.error)
  | .getSize => (d, .size d.bytes.length)
  | .getCapacity => (d, .size d.capacity)

/-- An operation that the buffer does as a list would. A text has a character if there is room, and
does not bring the count back to zero unless the error is set anyway. -/
def Plain : Op → Prop
  | .putString text =>
    (text.bytes = [] → d.bytes.length = d.capacity) ∧
      (text.bytes.length % 256 = 0 →
        d.capacity - d.bytes.length < text.bytes.length ∨ d.error = true)
  | _ => True

end Deque

/-! ## What the ring holds -/

namespace ByteBuffer
variable (b : ByteBuffer)

def contents : List Byte := Ring.contents b.data b.capacity b.position b.length

@[simp] theorem length_contents : b.contents.length = b.length :=
  Ring.length_contents b.data b.capacity b.position b.length

def deque : Deque where
  bytes := b.contents
  capacity := b.capacity
  error := b.fillError
  bounded := by
    rw [length_contents]
    exact b.length_le

theorem index_eq {k : ℕ} (hk : k ≤ b.capacity) : b.index k = (b.position + k) % b.capacity := by
  have hpos := b.position_lt
  have hcap := b.capacity_lt
  have hsum : b.position + k < 2 ^ 16 := by omega
  rw [index, Nat.mod_eq_of_lt hsum]

theorem before_succ : (b.before + 1) % b.capacity = b.position := by
  have hpos := b.position_lt
  rw [before]
  split_ifs with h
  · rw [Nat.sub_add_cancel (Nat.one_le_of_lt hpos), Nat.mod_self, h]
  · have hback : (b.position - 1) % b.capacity = b.position - 1 := Nat.mod_eq_of_lt (by omega)
    rw [hback, Nat.sub_add_cancel (Nat.one_le_iff_ne_zero.mpr h), Nat.mod_eq_of_lt hpos]

theorem peek_eq {k : ℕ} (hk : k < b.length) : b.contents[k]? = some (b.peek k) := by
  rw [contents, Ring.getElem?_contents _ _ hk, peek, index_eq b (hk.le.trans b.length_le)]

theorem store_contents (h : b.length < b.capacity) (x : Byte) :
    (b.store h x).contents = b.contents ++ [x] := by
  have hpush := Ring.contents_push b.data b.position h x
  rw [← index_eq b h.le] at hpush
  exact hpush

/-! ## One operation -/

theorem room_iff : b.deque.bytes.length < b.deque.capacity ↔ b.length < b.capacity := by
  show b.contents.length < b.capacity ↔ _
  rw [length_contents]

theorem put_deque (x : Byte) : b.deque.put x = ((b.put x).1.deque, (b.put x).2) := by
  by_cases h : b.length < b.capacity
  · rw [Deque.put, dif_pos (b.room_iff.mpr h), put, dif_pos h]
    congr 1
    ext1
    · exact (b.store_contents h x).symm
    · rfl
    · rfl
  · rw [Deque.put, dif_neg (mt b.room_iff.mp h), put, dif_neg h]
    rfl

theorem putInFront_deque (x : Byte) :
    b.deque.putInFront x = ((b.putInFront x).1.deque, (b.putInFront x).2) := by
  by_cases h : b.length < b.capacity
  · rw [Deque.putInFront, dif_pos (b.room_iff.mpr h), putInFront, dif_pos h]
    congr 1
    ext1
    · exact (Ring.contents_pushFront b.data b.before_lt b.before_succ h x).symm
    · rfl
    · rfl
  · rw [Deque.putInFront, dif_neg (mt b.room_iff.mp h), putInFront, dif_neg h]
    rfl

theorem contents_eq_nil (h : ¬ 0 < b.length) : b.contents = [] := by
  apply List.eq_nil_of_length_eq_zero
  rw [length_contents]
  exact Nat.eq_zero_of_not_pos h

theorem get_contents (h : 0 < b.length) : b.contents = b.get.2 :: b.get.1.contents := by
  have hfront := Ring.contents_front b.data b.position_lt (b.length - 1)
  rw [Nat.sub_add_cancel h] at hfront
  rw [get, if_pos h]
  exact hfront

theorem get_deque : b.deque.get = (b.get.1.deque, b.get.2) := by
  by_cases h : 0 < b.length
  · have hbytes : b.deque.bytes = b.get.2 :: b.get.1.contents := b.get_contents h
    ext1
    · ext1
      · exact congrArg List.tail hbytes
      · rw [get, if_pos h]
        rfl
      · rw [get, if_pos h]
        rfl
    · exact congrArg (fun l => l.headD 0) hbytes
  · have hbytes : b.deque.bytes = [] := b.contents_eq_nil h
    rw [get, if_neg h]
    ext1
    · ext1
      · exact (congrArg List.tail hbytes).trans hbytes.symm
      · rfl
      · rfl
    · exact congrArg (fun l => l.headD 0) hbytes

theorem getFromBack_contents (h : 0 < b.length) :
    b.contents = b.getFromBack.1.contents ++ [b.getFromBack.2] := by
  have hback := Ring.contents_back b.data b.capacity b.position (b.length - 1)
  rw [Nat.sub_add_cancel h, ← index_eq b ((Nat.sub_le _ _).trans b.length_le)] at hback
  rw [getFromBack, if_pos h]
  exact hback

theorem getFromBack_deque : b.deque.getFromBack = (b.getFromBack.1.deque, b.getFromBack.2) := by
  by_cases h : 0 < b.length
  · have hbytes : b.deque.bytes = b.getFromBack.1.contents ++ [b.getFromBack.2] :=
      b.getFromBack_contents h
    ext1
    · ext1
      · exact (congrArg List.dropLast hbytes).trans List.dropLast_concat
      · rw [getFromBack, if_pos h]
        rfl
      · rw [getFromBack, if_pos h]
        rfl
    · exact (congrArg (fun l => l.getLastD 0) hbytes).trans List.getLastD_concat
  · have hbytes : b.deque.bytes = [] := b.contents_eq_nil h
    rw [getFromBack, if_neg h]
    ext1
    · ext1
      · exact (congrArg List.dropLast hbytes).trans hbytes.symm
      · rfl
      · rfl
    · exact congrArg (fun l => l.getLastD 0) hbytes

/-! ## A text -/

/-- What `putString` leaves of a text in `room` places when it has counted `count` characters
before. -/
structure Wrote (room : ℕ) (count : BitVec 8) (text : List Byte) (r : ByteBuffer × BitVec 8) :
    Prop where
  contents : r.1.contents = b.contents ++ text.take room
  capacity : r.1.capacity = b.capacity
  fillError : r.1.fillError = (b.fillError || decide (room < text.length) ||
    decide (count + BitVec.ofNat 8 text.length = 0))
  count : r.2 = count + BitVec.ofNat 8 (min text.length room)

theorem count_succ (count : BitVec 8) (n : ℕ) :
    count + 1 + BitVec.ofNat 8 n = count + BitVec.ofNat 8 (n + 1) := by
  rw [BitVec.add_assoc, Nat.add_comm n 1, BitVec.ofNat_add]
  rfl

theorem wrote_full (count : BitVec 8) (x : Byte) (rest : List Byte) :
    b.Wrote 0 count (x :: rest) ({ b with fillError := true }, count) := by
  constructor
  · exact (List.append_nil _).symm
  · rfl
  · simp
  · simp

/-- The loop stores `x` whatever it is, and goes on up to the next zero. -/
theorem putStringLoop_wrote (count : BitVec 8) (x : Byte) (rest : List Byte) (hrest : 0 ∉ rest)
    (beyond : ℕ → Byte) (room : ℕ) (h : b.length + room = b.capacity) :
    b.Wrote room count (x :: rest)
      (b.putStringLoop (memoryOf (x :: rest) beyond) count room h) := by
  induction rest generalizing b count x room with
  | nil =>
    cases room with
    | zero => exact b.wrote_full count x []
    | succ room =>
      have hstore := b.store_contents (by omega) x
      have hend : memoryOf [x] beyond 1 = 0 := rfl
      have hfits : ¬ room + 1 < [x].length := by simp
      have hone : count + BitVec.ofNat 8 [x].length = count + 1 := rfl
      simp only [putStringLoop, if_pos hend]
      constructor
      · rw [List.take_succ_cons, List.take_nil, ← hstore]
        split_ifs <;> rfl
      · split_ifs <;> rfl
      · rw [hone, decide_eq_false hfits, Bool.or_false]
        split_ifs with hzero
        · rw [decide_eq_true hzero, Bool.or_true]
        · rw [decide_eq_false hzero, Bool.or_false]
          rfl
      · split_ifs <;> simp
  | cons y rest ih =>
    cases room with
    | zero => exact b.wrote_full count x (y :: rest)
    | succ room =>
      have hlt : b.length < b.capacity := by omega
      have hleft : (b.store hlt x).length + room = (b.store hlt x).capacity := by
        show b.length + 1 + room = b.capacity
        omega
      have hgo : ¬ memoryOf (x :: y :: rest) beyond 1 = 0 :=
        (List.ne_of_not_mem_cons hrest).symm
      have hstep : b.putStringLoop (memoryOf (x :: y :: rest) beyond) count (room + 1) h =
          (b.store hlt x).putStringLoop (memoryOf (y :: rest) beyond) (count + 1) room hleft :=
        if_neg hgo
      have hloop := ih (b.store hlt x) (count + 1) y (List.not_mem_of_not_mem_cons hrest) room hleft
      have hlen : (x :: y :: rest).length = (y :: rest).length + 1 := rfl
      rw [hstep]
      constructor
      · rw [List.take_succ_cons, hloop.contents, b.store_contents, List.append_assoc]
        rfl
      · exact hloop.capacity
      · rw [hloop.fillError, count_succ, hlen]
        simp only [Nat.add_lt_add_iff_right]
        rfl
      · rw [hloop.count, count_succ, hlen, Nat.add_min_add_right]

theorem length_le_putStringLoop (inString : ℕ → Byte) (count : BitVec 8) (room : ℕ)
    (h : b.length + room = b.capacity) :
    b.length ≤ (b.putStringLoop inString count room h).1.length := by
  induction room generalizing b inString count with
  | zero => exact le_refl _
  | succ room ih =>
    rw [putStringLoop]
    split_ifs
    · exact Nat.le_succ _
    · exact Nat.le_succ _
    · exact (Nat.le_succ b.length).trans (ih (b.store _ _) _ _ _)

/-- The zero of an empty text takes a place. -/
theorem length_lt_putString (h : b.length < b.capacity) (inString : ℕ → Byte) :
    b.length < (b.putString inString).1.length := by
  obtain ⟨room, hroom⟩ : ∃ room, b.capacity - b.length = room + 1 :=
    ⟨b.capacity - b.length - 1, by omega⟩
  simp only [putString, hroom, putStringLoop]
  split_ifs
  · exact Nat.lt_succ_self _
  · exact Nat.lt_succ_self _
  · exact Nat.lt_of_succ_le ((b.store h _).length_le_putStringLoop _ _ _ _)

theorem putString_full (h : ¬ b.length < b.capacity) (inString : ℕ → Byte) :
    b.putString inString = ({ b with fillError := true }, 0) := by
  have hroom : b.capacity - b.length = 0 := by omega
  simp only [putString, hroom, putStringLoop]

theorem zero_add_ofNat (n : ℕ) : (0 : BitVec 8) + BitVec.ofNat 8 n = BitVec.ofNat 8 n :=
  BitVec.zero_add _

theorem ofNat_eq_zero_iff (n : ℕ) : BitVec.ofNat 8 n = 0 ↔ n % 256 = 0 := by
  rw [BitVec.toNat_eq]
  simp

theorem room_eq : b.deque.capacity - b.deque.bytes.length = b.capacity - b.length := by
  show b.capacity - b.contents.length = _
  rw [length_contents]

theorem putText_eq_iff (text : List Byte) (r : ByteBuffer × BitVec 8) :
    b.deque.putText text = (r.1.deque, r.2) ↔
      (b.contents ++ text.take (b.capacity - b.length) = r.1.contents ∧
        b.capacity = r.1.capacity ∧
        (b.fillError || decide (b.capacity - b.length < text.length)) = r.1.fillError) ∧
        BitVec.ofNat 8 (min text.length (b.capacity - b.length)) = r.2 := by
  rw [Prod.ext_iff, Deque.ext_iff, ← b.room_eq]
  rfl

theorem putString_deque_iff_of_nil (text : Text) (hempty : text.bytes = []) :
    b.deque.putText text.bytes =
        ((b.putString text.memory).1.deque, (b.putString text.memory).2) ↔
      b.deque.Plain (.putString text) := by
  rw [putText_eq_iff, Deque.Plain, room_eq, hempty]
  by_cases h : b.length < b.capacity
  · have hlt := b.length_lt_putString h text.memory
    constructor
    · rintro ⟨⟨hbytes, -, -⟩, -⟩
      have hlen := congrArg List.length hbytes
      rw [List.take_nil, List.append_nil, length_contents, length_contents] at hlen
      exact absurd hlen hlt.ne
    · rintro ⟨hfull, -⟩
      exact absurd (hfull rfl) (b.room_iff.mpr h).ne
  · have hfull : b.deque.bytes.length = b.deque.capacity :=
      b.deque.bounded.antisymm (not_lt.mp (mt b.room_iff.mp h))
    rw [b.putString_full h]
    constructor
    · rintro ⟨⟨-, -, herror⟩, -⟩
      exact ⟨fun _ => hfull, fun _ => Or.inr ((Bool.or_false _).symm.trans herror)⟩
    · rintro ⟨-, herror⟩
      have hset : b.fillError = true := (herror rfl).resolve_left (Nat.not_lt_zero _)
      rw [List.take_nil, List.append_nil, hset, Bool.true_or]
      exact ⟨⟨rfl, rfl, rfl⟩, rfl⟩

theorem putString_wrote (text : Text) (h : text.bytes ≠ []) :
    b.Wrote (b.capacity - b.length) 0 text.bytes (b.putString text.memory) := by
  obtain ⟨x, rest, hbytes⟩ := List.exists_cons_of_ne_nil h
  have hnone := text.nonzero
  rw [hbytes] at hnone
  rw [Text.memory, hbytes]
  exact b.putStringLoop_wrote 0 x rest (List.not_mem_of_not_mem_cons hnone) text.beyond _ _

theorem putString_deque_iff (text : Text) :
    b.deque.putText text.bytes =
        ((b.putString text.memory).1.deque, (b.putString text.memory).2) ↔
      b.deque.Plain (.putString text) := by
  by_cases hempty : text.bytes = []
  · exact b.putString_deque_iff_of_nil text hempty
  have hwrote := b.putString_wrote text hempty
  rw [putText_eq_iff, Deque.Plain, room_eq, hwrote.contents, hwrote.capacity, hwrote.fillError,
    hwrote.count, zero_add_ofNat, zero_add_ofNat]
  simp only [ofNat_eq_zero_iff, hempty, true_and, and_true, false_imp_iff]
  constructor
  · intro herror hzero
    rw [decide_eq_true hzero, Bool.or_true, Bool.or_eq_true, decide_eq_true_iff] at herror
    exact herror.symm
  · intro hset
    by_cases hzero : text.bytes.length % 256 = 0
    · rw [decide_eq_true hzero, Bool.or_true, Bool.or_eq_true, decide_eq_true_iff]
      exact (hset hzero).symm
    · rw [decide_eq_false hzero, Bool.or_false]

/-! ## Any operations -/

theorem exec_deque_iff (op : Op) :
    b.deque.exec op = ((b.exec op).1.deque, (b.exec op).2) ↔ b.deque.Plain op := by
  cases op with
  | putString text =>
    rw [← putString_deque_iff, Deque.exec, exec, Prod.ext_iff, Prod.ext_iff]
    simp only [Reply.count.injEq]
  | put x => exact iff_of_true (by rw [Deque.exec, put_deque, exec]) trivial
  | putInFront x => exact iff_of_true (by rw [Deque.exec, putInFront_deque, exec]) trivial
  | get => exact iff_of_true (by rw [Deque.exec, get_deque, exec]) trivial
  | getFromBack => exact iff_of_true (by rw [Deque.exec, getFromBack_deque, exec]) trivial
  | clear => exact iff_of_true rfl trivial
  | resetError => exact iff_of_true rfl trivial
  | checkError => exact iff_of_true rfl trivial
  | getSize =>
    have hsize : b.contents.length = b.getSize := b.length_contents
    exact iff_of_true (congrArg (fun n => (b.deque, Reply.size n)) hsize) trivial
  | getCapacity => exact iff_of_true rfl trivial

end ByteBuffer

/-- What was told of the list is so of the buffer. -/
structure Answers (told : Deque × List Reply) (after : ByteBuffer × List Reply) : Prop where
  replies : after.2 = told.2
  capacity : after.1.capacity = told.1.capacity
  length : after.1.length = told.1.bytes.length
  fillError : after.1.fillError = told.1.error
  peek : ∀ k < told.1.bytes.length, told.1.bytes[k]? = some (after.1.peek k)

theorem answers_iff (told : Deque × List Reply) (after : ByteBuffer × List Reply) :
    Answers told after ↔ told = (after.1.deque, after.2) := by
  constructor
  · intro h
    ext1
    · ext1
      · apply List.ext_getElem?
        intro k
        by_cases hk : k < told.1.bytes.length
        · have hlt : k < after.1.length := h.length ▸ hk
          exact (h.peek k hk).trans (after.1.peek_eq hlt).symm
        · have hle := not_lt.mp hk
          have hsame : after.1.contents.length = told.1.bytes.length :=
            after.1.length_contents.trans h.length
          exact (List.getElem?_eq_none hle).trans (List.getElem?_eq_none (hsame.trans_le hle)).symm
      · exact h.capacity.symm
      · exact h.fillError.symm
    · exact h.replies.symm
  · rintro rfl
    refine ⟨rfl, rfl, (after.1.length_contents).symm, rfl, fun k hk => ?_⟩
    apply after.1.peek_eq
    rw [← after.1.length_contents]
    exact hk

def letters (n : ℕ) : Text where
  bytes := List.replicate n 65
  beyond := fun _ => 0
  nonzero := fun h => absurd (List.eq_of_mem_replicate h) (by decide)

end TitanRover.Buffer
