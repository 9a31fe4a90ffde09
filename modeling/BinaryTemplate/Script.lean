import BinaryTemplate.Context
import BinaryTemplate.Source

/-!
# Scripts

A script decodes an element that the template language cannot describe. It runs in a host, which
may read from the source and look at the context. It answers how many bytes the element takes and
what text stands for it; where it leaves the cursor does not matter.
-/

namespace BinaryTemplate

/-- What a script is told about the element that it decodes. -/
structure ScriptCall where
  element : ElementId
  /-- Where the element starts; the cursor is there. -/
  start : Nat
  length? : Option Nat
  /-- The end of the bytes that the element may use. -/
  limit : Nat
  context : Context

structure ScriptOutput where
  len : Nat
  text : String
deriving DecidableEq, Repr

/-- Runs scripts over sources of type `σ`. A failure is given as text. -/
structure ScriptHost (σ : Type) where
  run : ScriptBody → ScriptCall → ExceptT String (StateM σ) ScriptOutput

end BinaryTemplate
