import TitanRover.Foundations.Decimal
import TitanRover.Foundations.Ring
import TitanRover.Foundations.Run

/-! # The byte buffer

The model of `ByteBuffer.cpp`, the circular buffer that comes with the pin change interrupt library
for handlers to leave their output in. Its members are those of the class, with the bounds that the
operations keep: the buffer was allocated, and `unsigned int` holds the sum of two of its numbers.
Every operation is one step, as the interrupts are off while it changes the buffer or the interrupt
handlers call it. -/
namespace TitanRover.Buffer
open Foundations
set_option autoImplicit false

abbrev Byte := Decimal.Byte

/-! ## The class -/

structure ByteBuffer where
  data : ℕ → Byte
  capacity : ℕ
  position : ℕ
  length : ℕ
  fillError : Bool
  position_lt : position < capacity
  length_le : length ≤ capacity
  capacity_lt : capacity < 2 ^ 15

def init (memory : ℕ → Byte) (buf_length : ℕ) (h : 0 < buf_length ∧ buf_length < 2 ^ 15) :
    ByteBuffer where
  data := memory
  capacity := buf_length
  position := 0
  length := 0
  fillError := false
  position_lt := h.1
  length_le := Nat.zero_le _
  capacity_lt := h.2

namespace ByteBuffer
variable (b : ByteBuffer)

/-- `(position+k) % capacity` in `unsigned int`s. -/
def index (k : ℕ) : ℕ := (b.position + k) % 2 ^ 16 % b.capacity

def clear : ByteBuffer :=
  { b with
    position := 0
    length := 0
    position_lt := (Nat.zero_le _).trans_lt b.position_lt
    length_le := Nat.zero_le _ }

def resetError : ByteBuffer := { b with fillError := false }

def checkError : ByteBuffer × Bool := ({ b with fillError := false }, b.fillError)

def getSize : ℕ := b.length

def getCapacity : ℕ := b.capacity

def peek (i : ℕ) : Byte := b.data (b.index i)

/-- The byte is saved at the end, and the length incremented. -/
def store (h : b.length < b.capacity) (x : Byte) : ByteBuffer :=
  { b with
    data := Function.update b.data (b.index b.length) x
    length := b.length + 1
    length_le := h }

def put (x : Byte) : ByteBuffer × BitVec 8 :=
  if h : b.length < b.capacity then (b.store h x, 1)
  else ({ b with fillError := true }, 0)

/-- The loop of `putString` with `room` places left, where `inString` is what the pointer and the
places behind it hold. The count is an `uint8_t`. -/
def putStringLoop (b : ByteBuffer) (inString : ℕ → Byte) (count : BitVec 8) :
    (room : ℕ) → b.length + room = b.capacity → ByteBuffer × BitVec 8
  | 0, _ => ({ b with fillError := true }, count)
  | room + 1, h =>
    let stored := b.store (by omega) (inString 0)
    -- The pointer is compared with zero only after it moved, so the first byte is stored unseen.
    if inString 1 = 0 then
      if count + 1 = 0 then ({ stored with fillError := true }, count + 1)
      else (stored, count + 1)
    else
      putStringLoop stored (fun i => inString (i + 1)) (count + 1) room
        (by show b.length + 1 + room = b.capacity; omega)

def putString (inString : ℕ → Byte) : ByteBuffer × BitVec 8 :=
  b.putStringLoop inString 0 (b.capacity - b.length) (Nat.add_sub_cancel' b.length_le)

def before : ℕ := if b.position = 0 then b.capacity - 1 else (b.position - 1) % b.capacity

theorem before_lt : b.before < b.capacity := by
  have hpos := b.position_lt
  rw [before]
  split_ifs
  · omega
  · exact Nat.mod_lt _ (by omega)

def putInFront (x : Byte) : ByteBuffer × BitVec 8 :=
  if h : b.length < b.capacity then
    ({ b with
      data := Function.update b.data b.before x
      position := b.before
      length := b.length + 1
      position_lt := b.before_lt
      length_le := h }, 1)
  else ({ b with fillError := true }, 0)

def get : ByteBuffer × Byte :=
  if 0 < b.length then
    ({ b with
      position := (b.position + 1) % b.capacity
      length := b.length - 1
      position_lt := Nat.mod_lt _ ((Nat.zero_le _).trans_lt b.position_lt)
      length_le := (Nat.sub_le _ _).trans b.length_le }, b.data b.position)
  else (b, 0)

def getFromBack : ByteBuffer × Byte :=
  if 0 < b.length then
    ({ b with
      length := b.length - 1
      length_le := (Nat.sub_le _ _).trans b.length_le }, b.data (b.index (b.length - 1)))
  else (b, 0)

end ByteBuffer

/-! ## Texts -/

/-- Characters in memory with the zero that ends them, and the bytes behind it. -/
structure Text where
  bytes : List Byte
  beyond : ℕ → Byte
  nonzero : 0 ∉ bytes

def memoryOf : List Byte → (ℕ → Byte) → ℕ → Byte
  | [], _, 0 => 0
  | [], beyond, i + 1 => beyond i
  | x :: _, _, 0 => x
  | _ :: rest, beyond, i + 1 => memoryOf rest beyond i

def Text.memory (text : Text) : ℕ → Byte := memoryOf text.bytes text.beyond

end TitanRover.Buffer
