import BinaryTemplate.Decode.Field

/-!
# Runs of bytes

A run of bytes takes its declared length, or all that is left. Its bytes are only read if they
have to be matched with listed ones.
-/

namespace BinaryTemplate.Decoder

open DecodeM (record resolved align tell)

variable {σ : Type} (d : Decoder σ)

/-- Bytes in a message: the first sixteen, and a mark if there are more. -/
def bytesPreview (bytes : List UInt8) : String :=
  Text.Numeral.hexBytes "" (bytes.take 16) ++ if 16 < bytes.length then ".." else ""

def bytesChoice (v : NamedValue (List UInt8)) : String := v.name ++ "=" ++ bytesPreview v.value

variable [ByteSource σ]

/-- Reads so many bytes, and gives the name of the listed ones that they equal. Violates the
constraint if one has to match and none does. -/
def matchBytes (p : Place) (n : Node d.schema) (offset count : Nat)
    (choices : List (NamedValue (List UInt8))) : DecodeM σ (Option String) := do
  let bytes ← d.read p n count
  let matched := choices.find? (·.value == bytes)
  if matched.isNone then
    if ← resolved n offset n.mustMatch then
      d.violation
        ⟨n.id, n.label, offset, .mustMatch (bytesPreview bytes) (choices.map bytesChoice)⟩
  return matched.map (·.name)

def decodeBinary (p : Place) (n : Node d.schema) : DecodeM σ Value := do
  align
  let offset ← tell n
  let declared ← d.declaredBytes p n offset
  let count := declared.getD (p.limit - offset)
  let choices ← resolved n offset n.binaryValues
  let matched ←
    if choices.isEmpty then do
      d.skip p n count
      pure none
    else d.matchBytes p n offset count choices
  record (.bytesSkipped n.label count offset)
  return {
    element := n.id
    offset := offset
    len := count
    order := none
    payload := .binary matched
    children := [] }

end BinaryTemplate.Decoder
