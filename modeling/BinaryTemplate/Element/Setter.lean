import BinaryTemplate.Element

/-!
# Setting the attributes of an element

One function per attribute. An attribute that the element's kind does not carry is ignored, so
that a list of settings can be applied to any element. Attributes that hold a reference are given
as text; blank text unsets them.
-/

namespace BinaryTemplate.Element

def mapTraits (f : Traits → Traits) (e : Element) : Element :=
  { e with traits := f e.traits }

def mapKind (f : Kind → Kind) (e : Element) : Element :=
  { e with kind := f e.kind }

/-! ## Traits -/

def setId (id : Int64) : Element → Element :=
  mapTraits fun t => { t with id := some id }

def setDescription (text : String) : Element → Element :=
  mapTraits fun t => { t with description := some text }

def setElemType (text : String) : Element → Element :=
  mapTraits fun t => { t with elemType := some text }

def setFill (colour : Colour) : Element → Element :=
  mapTraits fun t => { t with fill := some colour }

def setStroke (colour : Colour) : Element → Element :=
  mapTraits fun t => { t with stroke := some colour }

def setRepeatMin (text : String) : Element → Element :=
  mapTraits fun t => { t with repeatMin := Reference.parse text }

def setRepeatMax (text : String) : Element → Element :=
  mapTraits fun t => { t with repeatMax := Reference.parse text }

def setTemplate (base : ElementId) : Element → Element :=
  mapTraits fun t => { t with template := some base }

def setParent (parent : Option ElementId) : Element → Element :=
  mapTraits fun t => { t with parent := parent }

/-! ## Layout -/

def setLength (text : String) : Element → Element :=
  mapKind (Kind.mapExtent fun x => { x with length := Reference.parse text })

def setLengthUnit (unit : LengthUnit) : Element → Element :=
  mapKind (Kind.mapExtent fun x => { x with unit := some unit })

def setByteOrder (order : ByteOrder) : Element → Element :=
  mapKind fun
    | .structure body => .structure { body with byteOrder := some order }
    | .number body => .number { body with byteOrder := some order }
    | .offset body => .offset { body with byteOrder := some order }
    | kind => kind

def setRadix (radix : Radix) : Element → Element :=
  mapKind fun
    | .structure body => .structure { body with radix := some radix }
    | .number body => .number { body with radix := some radix }
    | .offset body => .offset { body with radix := some radix }
    | kind => kind

def setEncoding (label : String) : Element → Element :=
  mapKind fun
    | .structure body => .structure { body with encoding := some label }
    | .string body => .string { body with encoding := some label }
    | kind => kind

def setOrder (order : ChildOrder) : Element → Element :=
  mapKind fun
    | .structure body => .structure { body with order := some order }
    | kind => kind

def setLengthOffset (text : String) : Element → Element :=
  mapKind fun
    | .structure body => .structure { body with lengthOffset := Reference.parse text }
    | kind => kind

/-! ## Values and constraints -/

def setMustMatch (yes : Bool) : Element → Element :=
  mapKind fun
    | .number body => .number { body with mustMatch := some yes }
    | .string body => .string { body with mustMatch := some yes }
    | .binary body => .binary { body with mustMatch := some yes }
    | kind => kind

def mapNumber (f : NumberBody → NumberBody) : Element → Element :=
  mapKind fun
    | .number body => .number (f body)
    | kind => kind

def setNumberKind (kind : NumberKind) : Element → Element :=
  mapNumber fun body => { body with kind := some kind }

def setMinVal (text : String) : Element → Element :=
  mapNumber fun body => { body with minVal := Reference.parse text }

def setMaxVal (text : String) : Element → Element :=
  mapNumber fun body => { body with maxVal := Reference.parse text }

def setNumberValues (values : List (NamedValue Int64)) : Element → Element :=
  mapNumber fun body => { body with values := some values }

def setMasks (masks : List Mask) : Element → Element :=
  mapNumber fun body => { body with masks := some masks }

def setValueExpression (text : String) : Element → Element :=
  mapNumber fun body => { body with valueExpression := Reference.parse text }

def mapString (f : StringBody → StringBody) : Element → Element :=
  mapKind fun
    | .string body => .string (f body)
    | kind => kind

def setStringKind (kind : StringKind) : Element → Element :=
  mapString fun body => { body with kind := some kind }

def setDelimiter (byte : UInt8) : Element → Element :=
  mapString fun body => { body with delimiter := some byte }

def setStringValues (values : List (NamedValue String)) : Element → Element :=
  mapString fun body => { body with values := some values }

def setBinaryValues (values : List (NamedValue (List UInt8))) : Element → Element :=
  mapKind fun
    | .binary body => .binary { body with values := some values }
    | kind => kind

/-! ## Links -/

def mapOffset (f : OffsetBody → OffsetBody) : Element → Element :=
  mapKind fun
    | .offset body => .offset (f body)
    | kind => kind

def setReferences (target : ElementId) : Element → Element :=
  mapOffset fun body => { body with references := some target }

def setRelativeTo (base : ElementId) : Element → Element :=
  mapOffset fun body => { body with relativeTo := some base }

def setReferencedSize (size : ElementId) : Element → Element :=
  mapOffset fun body => { body with referencedSize := some size }

def setFollowNull (yes : Bool) : Element → Element :=
  mapOffset fun body => { body with followNull := some yes }

def setAdditional (text : String) : Element → Element :=
  mapOffset fun body => { body with additional := Reference.parse text }

def mapGrammarRef (f : GrammarRefBody → GrammarRefBody) : Element → Element :=
  mapKind fun
    | .grammarRef body => .grammarRef (f body)
    | kind => kind

def setGrammar (grammar : ElementId) : Element → Element :=
  mapGrammarRef fun body => { body with grammar := some grammar }

def setFilename (name : String) : Element → Element :=
  mapGrammarRef fun body => { body with filename := some name }

def setUti (uti : String) : Element → Element :=
  mapGrammarRef fun body => { body with uti := some uti }

def setDisabled (yes : Bool) : Element → Element :=
  mapGrammarRef fun body => { body with disabled := some yes }

/-- Makes `start` the element that a grammar decodes; other kinds have none. -/
def setStart (start : ElementId) : Element → Element :=
  mapKind fun
    | .grammar body => .grammar { body with start := some start }
    | kind => kind

end BinaryTemplate.Element
