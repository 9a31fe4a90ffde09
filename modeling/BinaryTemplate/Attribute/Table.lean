import BinaryTemplate.Attribute

/-!
# The attributes of a template

One descriptor per attribute: the key that messages use, the links that it follows, and where an
element keeps it. An element whose kind does not carry an attribute never sets it.
-/

namespace BinaryTemplate.Attribute

/-! ## Identity: own value, then template -/

def id : Attribute Int64 := ⟨"id", .identity, (·.traits.id)⟩

def name : Attribute String := ⟨"name", .identity, (·.traits.name)⟩

def description : Attribute String := ⟨"description", .identity, (·.traits.description)⟩

def elemType : Attribute String := ⟨"elemType", .identity, (·.traits.elemType)⟩

/-! ## Template: own value, referenced structure, then template -/

def fill : Attribute Colour := ⟨"fillColour", .template, (·.traits.fill)⟩

def stroke : Attribute Colour := ⟨"strokeColour", .template, (·.traits.stroke)⟩

def repeatMin : Attribute Reference := ⟨"repeatMin", .template, (·.traits.repeatMin)⟩

def repeatMax : Attribute Reference := ⟨"repeatMax", .template, (·.traits.repeatMax)⟩

def length : Attribute Reference where
  key := "length"
  scope := .template
  own e := e.kind.extent?.bind (·.length)

def lengthOffset : Attribute Reference where
  key := "lengthOffset"
  scope := .template
  own e := match e.kind with
    | .structure body => body.lengthOffset
    | _ => none

def order : Attribute ChildOrder where
  key := "order"
  scope := .template
  own e := match e.kind with
    | .structure body => body.order
    | _ => none

def mustMatch : Attribute Bool where
  key := "mustMatch"
  scope := .template
  own e := match e.kind with
    | .number body => body.mustMatch
    | .string body => body.mustMatch
    | .binary body => body.mustMatch
    | _ => none

def ofNumber {α : Type} (key : String) (field : NumberBody → Option α) : Attribute α where
  key := key
  scope := .template
  own e := match e.kind with
    | .number body => field body
    | _ => none

def numberKind : Attribute NumberKind := ofNumber "type" (·.kind)

def minVal : Attribute Reference := ofNumber "minVal" (·.minVal)

def maxVal : Attribute Reference := ofNumber "maxVal" (·.maxVal)

def numberValues : Attribute (List (NamedValue Int64)) := ofNumber "values" (·.values)

def masks : Attribute (List Mask) := ofNumber "masks" (·.masks)

def valueExpression : Attribute Reference := ofNumber "valueExpression" (·.valueExpression)

def ofString {α : Type} (key : String) (field : StringBody → Option α) : Attribute α where
  key := key
  scope := .template
  own e := match e.kind with
    | .string body => field body
    | _ => none

def stringKind : Attribute StringKind := ofString "type" (·.kind)

def delimiter : Attribute UInt8 := ofString "delimiter" (·.delimiter)

def stringValues : Attribute (List (NamedValue String)) := ofString "values" (·.values)

def binaryValues : Attribute (List (NamedValue (List UInt8))) where
  key := "values"
  scope := .template
  own e := match e.kind with
    | .binary body => body.values
    | _ => none

def script : Attribute ElementId where
  key := "script"
  scope := .template
  own e := match e.kind with
    | .custom body => body.script
    | _ => none

def ofOffset {α : Type} (key : String) (field : OffsetBody → Option α) : Attribute α where
  key := key
  scope := .template
  own e := match e.kind with
    | .offset body => field body
    | _ => none

def references : Attribute ElementId := ofOffset "references" (·.references)

def relativeTo : Attribute ElementId := ofOffset "relativeTo" (·.relativeTo)

def referencedSize : Attribute ElementId := ofOffset "referencedSize" (·.referencedSize)

def followNull : Attribute Bool := ofOffset "followNullReference" (·.followNull)

def additional : Attribute Reference := ofOffset "additional" (·.additional)

def ofGrammarRef {α : Type} (key : String) (field : GrammarRefBody → Option α) :
    Attribute α where
  key := key
  scope := .template
  own e := match e.kind with
    | .grammarRef body => field body
    | _ => none

def grammar : Attribute ElementId := ofGrammarRef "grammar" (·.grammar)

def filename : Attribute String := ofGrammarRef "filename" (·.filename)

def uti : Attribute String := ofGrammarRef "uti" (·.uti)

def disabled : Attribute Bool := ofGrammarRef "disabled" (·.disabled)

/-! ## Structural: as template, then parent -/

def byteOrder : Attribute ByteOrder where
  key := "endian"
  scope := .structural
  own e := match e.kind with
    | .structure body => body.byteOrder
    | .number body => body.byteOrder
    | .offset body => body.byteOrder
    | _ => none

def radix : Attribute Radix where
  key := "display"
  scope := .structural
  own e := match e.kind with
    | .structure body => body.radix
    | .number body => body.radix
    | .offset body => body.radix
    | _ => none

def encoding : Attribute String where
  key := "encoding"
  scope := .structural
  own e := match e.kind with
    | .structure body => body.encoding
    | .string body => body.encoding
    | _ => none

def lengthUnit : Attribute LengthUnit where
  key := "lengthUnit"
  scope := .structural
  own e := e.kind.extent?.bind (·.unit)

end BinaryTemplate.Attribute
