import BinaryTemplate.Source

/-!
# Bytes in memory

The source over an array of bytes. It never fails but for short reads, which leave the cursor at
the end of the bytes, and for seeks to no position.
-/

namespace BinaryTemplate

/-- The bytes of `data` from `start` on, at most `count` of them. -/
def window (data : Array UInt8) (start count : Nat) : List UInt8 :=
  (data.extract start (start + count)).toList

/-- An array of bytes with a cursor, which may be past its end. -/
structure Slice where
  data : Array UInt8
  cursor : Nat := 0
deriving DecidableEq, Repr

namespace Slice

/-- All of `count` bytes at `offset`. -/
def bytesAt (s : Slice) (count offset : Nat) : Except InputError (List UInt8) :=
  if s.data.size < offset + count then
    .error (.shortRead offset count (window s.data offset s.data.size))
  else .ok (window s.data offset count)

def seek (target : SeekTarget) : SourceM Slice Nat := do
  let s ← get
  match target.resolve? s.cursor s.data.size with
  | some position =>
    set { s with cursor := position }
    return position
  | none => throw (.device .invalidSeek)

def readExact (count : Nat) : SourceM Slice (List UInt8) := do
  let s ← get
  match s.bytesAt count s.cursor with
  | .ok bytes =>
    set { s with cursor := s.cursor + count }
    return bytes
  | .error e =>
    -- A short read still consumes what was there.
    set { s with cursor := max s.cursor s.data.size }
    throw e

instance : ByteSource Slice where
  seek := seek
  tell := return (← get).cursor
  size := return (← get).data.size
  readExact := readExact
  readExactAt count offset := do liftExcept ((← get).bytesAt count offset)

end Slice

end BinaryTemplate
