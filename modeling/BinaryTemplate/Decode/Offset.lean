import BinaryTemplate.Decode.Number

/-!
# Offsets

An offset reads a pointer and computes the address that it means: the pointer, counted from a
base, plus an additional amount. The element that it references is decoded there as a side tree,
in a scope of its own, and the cursor is put back afterwards, whether that succeeds or not. An
address at which the same element is already being decoded closes a loop and is not followed.
-/

namespace BinaryTemplate.Decoder

open DecodeM (fail record resolved outcome setPending tell tellAt seek)

variable {σ : Type} (d : Decoder σ)

/-- Decodes an instance of an element at a place. -/
abbrev DecodeChild := Place → Node d.schema → DecodeM σ Value

/-! ## The address -/

/-- The address that a pointer counts from when it is relative to `base`: its own offset, the
start of the innermost open container of `base`, or else of a completed value of it. -/
def baseAddress (p : Place) (n : Node d.schema) (offset : Nat) (base : ElementId) :
    DecodeM σ Nat :=
  if base = n.id then pure offset
  else
    let c := p.context d.schema
    match (c.containerStart? base).or ((c.find? base).map (·.offset)) with
    | some address => pure address
    | none => fail n offset (.unresolved (.baseNotDecoded base))

/-- The address that a pointer means; `none` for a null pointer that is not to be followed. -/
def targetAddress (p : Place) (n : Node d.schema) (offset pointer : Nat) :
    DecodeM σ (Option Nat) := do
  if pointer = 0 then
    -- A null pointer that is followed is relative to its base like any other.
    if !(← resolved n offset n.followNull) then return none
  let base ← match ← resolved n offset (n.lookup .relativeTo) with
    | some base => d.baseAddress p n offset base
    | none => pure 0
  let additional ← d.evalAttribute p n offset .additional
  let address := (base : Int) + pointer + (additional.map (·.toInt)).getD 0
  if 0 ≤ address ∧ address < positionLimit then return some address.toNat
  fail n offset (.range (toString address) (some 0) none)

/-! ## The side tree -/

/-- The declared size of the referenced region, if an element for it is named. -/
def referencedSize? (p : Place) (n : Node d.schema) (offset : Nat) : DecodeM σ (Option Nat) := do
  match ← resolved n offset (n.lookup .referencedSize) with
  | none => return none
  | some sizeId =>
    match (p.context d.schema).find? sizeId with
    | none => fail n offset (.unresolved (.sizeNotDecoded sizeId))
    | some v =>
      match v.toInt? with
      | some k =>
        if 0 ≤ k.toInt then return some k.toInt.toNat
        fail n offset (.expression (.notNumeric sizeId.text))
      | none => fail n offset (.expression (.notNumeric sizeId.text))

/-- The end of the region at `target`: by its size, or else the end of the file. -/
def regionStop (p : Place) (n : Node d.schema) (offset target : Nat) (size : Option Nat) :
    DecodeM σ Nat :=
  let stop := (size.map (target + ·)).getD p.dataStop
  if target ≤ stop ∧ stop ≤ p.dataStop then pure stop
  else fail n offset (.shortRead (size.getD 1) (p.dataStop - target))

def sidePlace (p : Place) (element : ElementId) (target stop : Nat) : Place :=
  { p.enter (.scope element target stop) with following := (target, element) :: p.following }

variable [ByteSource σ]

/-- Decodes the referenced element at `target` and puts the cursor and the unread bits back. -/
def follow (child : d.DecodeChild) (p : Place) (n : Node d.schema) (offset target : Nat)
    (element : ElementId) : DecodeM σ Value := do
  if (target, element) ∈ p.following then fail n offset (.pointerLoop target)
  let referenced ← d.node element offset
  let size ← d.referencedSize? p n offset
  let stop ← d.regionStop p n offset target size
  let resume ← tellAt n offset
  record (.followed n.label referenced.label target)
  seek n offset target
  -- The side tree starts on a byte, whatever is unread behind the pointer.
  let pending := (← get).pending
  setPending []
  let result ← outcome (child (sidePlace p element target stop) referenced)
  -- Both are put back also where the side tree has failed.
  setPending pending
  seek n offset resume
  liftExcept result

/-- Follows the address of an offset if there is one and an element is referenced. -/
def followTarget (child : d.DecodeChild) (p : Place) (n : Node d.schema) (offset : Nat)
    (target : Option Nat) : DecodeM σ (Option Value) := do
  match target, ← resolved n offset (n.lookup .references) with
  | some target, some element =>
    let v ← d.follow child p n offset target element
    return some v
  | _, _ => return none

def decodeOffset (child : d.DecodeChild) (p : Place) (n : Node d.schema) : DecodeM σ Value := do
  let position ← tell n
  let order ← resolved n position n.byteOrder
  let r ← d.readRaw p n order
  let target ← d.targetAddress p n r.offset r.raw
  let referenced ← d.followTarget child p n r.offset target
  return {
    element := n.id
    offset := r.offset
    len := r.len
    order := some order
    payload := .offset (UInt64.ofNat r.raw) target referenced
    children := [] }

end BinaryTemplate.Decoder
