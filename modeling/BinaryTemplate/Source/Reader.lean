import BinaryTemplate.Source

/-!
# Sources over readers

A reader is a device that gives some bytes at a time: perhaps fewer than asked for, perhaps none
for now because it was interrupted. The source over a reader asks on until it has all the bytes it
wants or the reader has no more. An interruption is answered by asking again, so a reader has to
say how often in a row it may still interrupt.
-/

namespace BinaryTemplate

inductive ReadOutcome where
  /-- Some of the bytes wanted; none at the end of the data. -/
  | bytes (got : List UInt8)
  | interrupted
  | failed (fault : DeviceFault)
deriving DecidableEq, Repr

/-- A device with a cursor that can be read from and moved. -/
class Reader (ρ : Type) where
  /-- Moves the cursor; the device may move it and then fail. -/
  seek : SeekTarget → ρ → Except DeviceFault Nat × ρ
  /-- Reads at most so many bytes at the cursor. -/
  read : Nat → ρ → ReadOutcome × ρ
  /-- How often in a row a request may still be interrupted. -/
  patience : ρ → Nat
  patience_read_lt : ∀ wanted r,
    (read wanted r).1 = .interrupted → patience (read wanted r).2 < patience r

namespace Reader

variable {ρ : Type} [Reader ρ]

/-- Reads until `wanted` bytes are there or the reader has no more. -/
def fill (wanted : Nat) (r : ρ) : Except DeviceFault (List UInt8) × ρ :=
  if wanted = 0 then (.ok [], r)
  else
    match _outcome : Reader.read wanted r with
    | (.bytes [], r') => (.ok [], r')
    | (.bytes (b :: more), r') =>
      match fill (wanted - (more.length + 1)) r' with
      | (.ok rest, r'') => (.ok (b :: more ++ rest), r'')
      | (.error fault, r'') => (.error fault, r'')
    | (.interrupted, r') => fill wanted r'
    | (.failed fault, r') => (.error fault, r')
termination_by (wanted, Reader.patience r)
decreasing_by
  · exact Prod.Lex.left _ _ (by omega)
  · have fewer := Reader.patience_read_lt wanted r (by rw [_outcome])
    rw [_outcome] at fewer
    exact Prod.Lex.right _ fewer

/-- An operation of the device as one of the source. -/
def lift {α : Type} (operation : ρ → Except DeviceFault α × ρ) : SourceM ρ α :=
  fun r =>
    match operation r with
    | (.ok a, r') => (.ok a, r')
    | (.error fault, r') => (.error (.device fault), r')

def seekTo (target : SeekTarget) : SourceM ρ Nat := lift (Reader.seek target)

/-- The position of a device is found by moving its cursor by nothing. -/
def position : SourceM ρ Nat := seekTo (.current 0)

/-- The bytes read at `offset`, if they are as many as wanted. -/
def complete (wanted offset : Nat) (bytes : List UInt8) : SourceM ρ (List UInt8) :=
  if bytes.length < wanted then throw (.shortRead offset wanted bytes) else return bytes

instance : ByteSource ρ where
  seek := seekTo
  tell := position
  size := do
    let here ← position
    let size ← seekTo (.stop 0)
    let _ ← seekTo (.start here)
    return size
  readExact wanted := do
    let offset ← position
    let bytes ← lift (fill wanted)
    complete wanted offset bytes
  readExactAt wanted offset := do
    let here ← position
    let _ ← seekTo (.start offset)
    -- The cursor goes back before a failed read is reported.
    let outcome ← attempt (fill wanted)
    let _ ← seekTo (.start here)
    let bytes ← lift fun r => (outcome, r)
    complete wanted offset bytes
where
  /-- The outcome of an operation of the device, failed or not. -/
  attempt {α : Type} (operation : ρ → Except DeviceFault α × ρ) :
      SourceM ρ (Except DeviceFault α) :=
    fun r => let (outcome, r') := operation r; (.ok outcome, r')

end Reader

end BinaryTemplate
