import BinaryTemplate.Text.Encoding.SingleByte
import BinaryTemplate.Text.Encoding.Utf16
import BinaryTemplate.Text.Encoding.Utf8

/-!
# Text encodings

An encoding goes by its name in the Encoding Standard. Which encoding a label stands for, and which
characters bytes have in it, is the business of the encodings that a decode is given; the decode
itself only needs to know which two of them have units of two bytes. Nothing is assumed of the
encodings that are given.

The common ones are a selection. Their labels are those of the Encoding Standard, compared without
regard to ASCII case and to ASCII white space around them. A byte order mark is an ordinary
character.
-/

namespace BinaryTemplate.Text

/-- An encoding, by its name. -/
structure Encoding where
  name : String
deriving DecidableEq, Repr, Inhabited

namespace Encoding

def utf16le : Encoding := ⟨"UTF-16LE"⟩

def utf16be : Encoding := ⟨"UTF-16BE"⟩

/-- How many bytes a unit of the encoding has. -/
def unitSize (encoding : Encoding) : Nat :=
  if encoding = utf16le ∨ encoding = utf16be then 2 else 1

end Encoding

/-- The encodings that a decode is given. -/
structure Encodings where
  /-- The encoding that a label stands for. -/
  ofLabel? : String → Option Encoding
  /-- The characters of bytes in an encoding; `none` if the bytes are malformed. -/
  decode? : Encoding → List UInt8 → Option (List Char)

/-- An encoding with the labels that stand for it, in lower case, and its strict decoding. -/
structure Charset where
  encoding : Encoding
  labels : List String
  decode? : List UInt8 → Option (List Char)

namespace Charset

def utf8 : Charset where
  encoding := ⟨"UTF-8"⟩
  labels :=
    ["unicode-1-1-utf-8", "unicode11utf8", "unicode20utf8", "utf-8", "utf8", "x-unicode20utf8"]
  decode? := Utf8.decode

def utf16le : Charset where
  encoding := .utf16le
  labels :=
    ["csunicode", "iso-10646-ucs-2", "ucs-2", "unicode", "unicodefeff", "utf-16", "utf-16le"]
  decode? bytes := (Utf16.unitsLittle bytes).bind Utf16.decodeUnits

def utf16be : Charset where
  encoding := .utf16be
  labels := ["unicodefffe", "utf-16be"]
  decode? bytes := (Utf16.unitsBig bytes).bind Utf16.decodeUnits

def windows1252 : Charset where
  encoding := ⟨"windows-1252"⟩
  labels :=
    ["ansi_x3.4-1968", "ascii", "cp1252", "cp819", "csisolatin1", "ibm819", "iso-8859-1",
      "iso-ir-100", "iso8859-1", "iso88591", "iso_8859-1", "iso_8859-1:1987", "l1", "latin1",
      "us-ascii", "windows-1252", "x-cp1252"]
  decode? bytes := some (SingleByte.decode SingleByte.windows1252 bytes)

def iso8859_5 : Charset where
  encoding := ⟨"ISO-8859-5"⟩
  labels :=
    ["csisolatincyrillic", "cyrillic", "iso-8859-5", "iso-ir-144", "iso8859-5", "iso88595",
      "iso_8859-5", "iso_8859-5:1988"]
  decode? bytes := some (SingleByte.decode SingleByte.iso8859_5 bytes)

def iso8859_15 : Charset where
  encoding := ⟨"ISO-8859-15"⟩
  labels :=
    ["csisolatin9", "iso-8859-15", "iso8859-15", "iso885915", "iso_8859-15", "l9"]
  decode? bytes := some (SingleByte.decode SingleByte.iso8859_15 bytes)

def userDefined : Charset where
  encoding := ⟨"x-user-defined"⟩
  labels := ["x-user-defined"]
  decode? bytes := some (SingleByte.decode SingleByte.userDefined bytes)

/-- Stands for encodings that are unsafe to read; it has no text but the empty one. -/
def replacement : Charset where
  encoding := ⟨"replacement"⟩
  labels :=
    ["csiso2022kr", "hz-gb-2312", "iso-2022-cn", "iso-2022-cn-ext", "iso-2022-kr", "replacement"]
  decode? bytes := if bytes.isEmpty then some [] else none

end Charset

namespace Encodings

/-- Tab, line feed, form feed, carriage return and space. -/
def isLabelSpace (c : Char) : Bool :=
  c == '\t' || c == '\n' || c == '\x0c' || c == '\r' || c == ' '

/-- A label without the white space around it, in lower case. -/
def normalizeLabel (label : String) : String :=
  let inner := (label.toList.dropWhile isLabelSpace).reverse.dropWhile isLabelSpace
  String.ofList (inner.reverse.map Char.toLower)

def ofCharsets (charsets : List Charset) : Encodings where
  ofLabel? label :=
    (charsets.find? fun c => c.labels.contains (normalizeLabel label)).map (·.encoding)
  decode? encoding bytes :=
    (charsets.find? (·.encoding == encoding)).bind fun c => c.decode? bytes

def common : Encodings :=
  .ofCharsets
    [.utf8, .utf16le, .utf16be, .windows1252, .iso8859_5, .iso8859_15, .userDefined, .replacement]

end Encodings

end BinaryTemplate.Text
