import BinaryTemplate.Source.Reader
import BinaryTemplate.Source.Slice

/-!
# A reader over bytes in memory

A device for files that are held in memory, and for trying out what a decode does when a device
misbehaves: reads may come in small chunks, every other request may be interrupted, and reads and
seeks may fail from some position on.
-/

namespace BinaryTemplate

structure Faults where
  /-- The most bytes that one request gives. -/
  chunk : Option Nat := none
  /-- Whether every other request, the first one included, is interrupted. -/
  interrupts : Bool := false
  /-- Reads at this position or beyond fail. -/
  failRead : Option Nat := none
  /-- Seeks that end at this position or beyond fail after the cursor has moved. -/
  failSeek : Option Nat := none
deriving DecidableEq, Repr

structure Cursor where
  data : Array UInt8
  position : Nat := 0
  faults : Faults := {}
  /-- Whether the request before this one was interrupted. -/
  wasInterrupted : Bool := false
deriving DecidableEq, Repr

namespace Cursor

/-- Whether a position is at the given limit or beyond. -/
def reaches (position : Nat) (limit : Option Nat) : Bool :=
  limit.any (· ≤ position)

def seek (target : SeekTarget) (c : Cursor) : Except DeviceFault Nat × Cursor :=
  match target.resolve? c.position c.data.size with
  | none => (.error .invalidSeek, c)
  | some position =>
    let moved := { c with position := position }
    if reaches position c.faults.failSeek then (.error (.other "seek failure"), moved)
    else (.ok position, moved)

/-- The most bytes that a request for `wanted` gives: a chunk, and nothing at or beyond the
position where reads fail. -/
def allowance (c : Cursor) (wanted : Nat) : Nat :=
  let chunk := (c.faults.chunk.map (min wanted)).getD wanted
  (c.faults.failRead.map fun limit => min chunk (limit - c.position)).getD chunk

def read (wanted : Nat) (c : Cursor) : ReadOutcome × Cursor :=
  if c.faults.interrupts && !c.wasInterrupted then
    (.interrupted, { c with wasInterrupted := true })
  else
    let c := { c with wasInterrupted := false }
    if reaches c.position c.faults.failRead then (.failed (.other "read failure"), c)
    else
      let bytes := window c.data c.position (c.allowance wanted)
      (.bytes bytes, { c with position := c.position + bytes.length })

instance : Reader Cursor where
  seek := seek
  read := read
  patience c := if c.wasInterrupted then 0 else 1
  patience_read_lt wanted c h := by
    unfold read at h ⊢
    split at h
    · next first =>
      simp only [Bool.and_eq_true, Bool.not_eq_true'] at first
      simp [first]
    · dsimp only at h
      split at h <;> cases h

end Cursor

end BinaryTemplate
