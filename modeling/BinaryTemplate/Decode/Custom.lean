import BinaryTemplate.Decode.Field

/-!
# Scripted elements

An element that a script decodes takes as many bytes as the script answers, which may not reach
past the innermost frame. The cursor is then put behind them, wherever the script has left it.
-/

namespace BinaryTemplate.Decoder

open DecodeM (fail align tell seek)

variable {σ : Type} (d : Decoder σ)

def runScript (n : Node d.schema) (host : ScriptHost σ) (script : ScriptBody)
    (call : ScriptCall) : DecodeM σ ScriptOutput := fun st =>
  match host.run script call st.source with
  | (.ok output, source) => (.ok output, { st with source := source })
  | (.error text, source) =>
    (fail n call.start (.script text) : DecodeM σ ScriptOutput) { st with source := source }

variable [ByteSource σ]

/-- Decodes an element by a script that is known. -/
def decodeByScript (p : Place) (n : Node d.schema) (offset : Nat) (script : ScriptBody) :
    DecodeM σ Value := do
  match d.scripts with
  | none => fail n offset (.script "no script host configured")
  | some host =>
    let declared ← d.declaredBytes p n offset
    let output ← d.runScript n host script
      { element := n.id
        start := offset
        length? := declared
        limit := p.limit
        context := p.context d.schema }
    -- What the script has read itself is not held to the frame, only what it claims.
    if p.limit < offset + output.len then
      fail n offset (.shortRead output.len (p.limit - offset))
    seek n offset (offset + output.len)
    return {
      element := n.id
      offset := offset
      len := output.len
      order := none
      payload := .custom output.text
      children := [] }

def decodeScripted (p : Place) (n : Node d.schema) (scriptId : ElementId) : DecodeM σ Value := do
  align
  let offset ← tell n
  let script ← d.node scriptId offset
  match script.kind with
  | .script body => d.decodeByScript p n offset body
  | kind => fail n offset (.unresolved (.notAScript scriptId kind.name))

end BinaryTemplate.Decoder
