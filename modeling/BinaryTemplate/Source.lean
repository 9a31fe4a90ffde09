import BinaryTemplate.Integer
import BinaryTemplate.Text.Numeral

/-!
# Byte sources

What a decode needs of its input: a cursor that can be moved and asked for, and reads that either
give all the bytes wanted or fail with the bytes that there were. Every operation may move the
cursor, also when it fails, so it returns the source after it in either case.
-/

namespace BinaryTemplate

inductive SeekTarget where
  | start (position : Nat)
  | current (distance : Int)
  | stop (distance : Int)
deriving DecidableEq, Repr

namespace SeekTarget

/-- The position meant, given the cursor and the number of bytes; `none` if it is negative or
needs more than 64 bits. -/
def resolve? (cursor size : Nat) : SeekTarget → Option Nat
  | .start position => some position
  | .current distance => within? (cursor + distance)
  | .stop distance => within? (size + distance)
where
  within? (n : Int) : Option Nat :=
    if 0 ≤ n ∧ n < Integer.unsignedLimit then some n.toNat else none

end SeekTarget

/-- A failure of the device behind a source. -/
inductive DeviceFault where
  | invalidSeek
  | other (text : String)
deriving DecidableEq, Repr

namespace DeviceFault

def message : DeviceFault → String
  | invalidSeek => "invalid seek to a negative or overflowing position"
  | other text => text

end DeviceFault

inductive InputError where
  /-- Fewer bytes than wanted, and these. -/
  | shortRead (offset wanted : Nat) (got : List UInt8)
  | device (fault : DeviceFault)
deriving DecidableEq, Repr

namespace InputError

def message : InputError → String
  | shortRead offset wanted got =>
    "short read at " ++ Text.Numeral.hex offset ++ ": wanted " ++ toString wanted ++
      " bytes, got " ++ toString got.length
  | device fault => "IO: " ++ fault.message

end InputError

/-- An operation on a source of type `σ`. -/
abbrev SourceM (σ : Type) := ExceptT InputError (StateM σ)

/-- A source of bytes with a cursor. -/
class ByteSource (σ : Type) where
  /-- Moves the cursor and returns its new position. -/
  seek : SeekTarget → SourceM σ Nat
  tell : SourceM σ Nat
  size : SourceM σ Nat
  /-- Reads so many bytes at the cursor and moves it past them. -/
  readExact : Nat → SourceM σ (List UInt8)
  /-- Reads so many bytes at an offset and leaves the cursor alone. -/
  readExactAt : Nat → (offset : Nat) → SourceM σ (List UInt8)

namespace ByteSource

variable {σ : Type} [ByteSource σ]

def readByte : SourceM σ UInt8 := do
  let bytes ← readExact 1
  return bytes.headD 0

end ByteSource

end BinaryTemplate
