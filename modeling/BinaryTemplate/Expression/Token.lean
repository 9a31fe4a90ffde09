import BinaryTemplate.Expression

/-!
# Tokens of expressions

An expression is written in tokens: numbers, dotted paths of names, operators and parentheses.
Blanks may stand between tokens and nowhere inside one. The longest operator that fits is always
taken. The grammar looks for the operators of one level at a time instead, one after the other;
`Expression.parse?_eq_some_iff_matches` says that this makes no difference.
-/

namespace BinaryTemplate

inductive Token where
  | number (text : List Char)
  | path (first : String) (rest : List String)
  /-- The minus sign is this token, whether it stands between operands or in front of one. -/
  | operator (op : BinaryOp)
  /-- Logical negation and complement, which only stand in front of an operand. -/
  | unary (op : UnaryOp)
  | openParen
  | closeParen
deriving DecidableEq, Repr

namespace Token

def isBlank (c : Char) : Bool := c == ' ' || c == '\t' || c == '\r' || c == '\n'

def isHexDigit (c : Char) : Bool := (Text.Numeral.digitOf? 16 c).isSome

def isBinaryDigit (c : Char) : Bool := c == '0' || c == '1'

def isNameStart (c : Char) : Bool := c.isAlpha || c == '_'

def isNameRest (c : Char) : Bool := c.isAlphanum || c == '_'

/-- The digits after a base mark, if there are any, with what follows them. -/
def afterMark? (isDigit : Char → Bool) (mark : List Char) (cs : List Char) :
    Option (Token × List Char) :=
  if (cs.takeWhile isDigit).isEmpty then none
  else some (.number (mark ++ cs.takeWhile isDigit), cs.dropWhile isDigit)

/-- The number that starts with the digit `c`. A base mark without digits behind it is not part
of the number. -/
def numberFrom (c : Char) (cs : List Char) : Token × List Char :=
  let plain := (Token.number (c :: cs.takeWhile Char.isDigit), cs.dropWhile Char.isDigit)
  match c, cs with
  | '0', 'x' :: rest => (afterMark? isHexDigit ['0', 'x'] rest).getD plain
  | '0', 'X' :: rest => (afterMark? isHexDigit ['0', 'X'] rest).getD plain
  | '0', 'b' :: rest => (afterMark? isBinaryDigit ['0', 'b'] rest).getD plain
  | '0', 'B' :: rest => (afterMark? isBinaryDigit ['0', 'B'] rest).getD plain
  | _, _ => plain

/-- The further names of a path, each behind a dot, with what follows them. A dot that no name
follows is not part of the path. -/
def furtherNames (cs : List Char) : List String × List Char :=
  match cs with
  | '.' :: c :: rest =>
    if isNameStart c then
      let further := furtherNames (rest.dropWhile isNameRest)
      (String.ofList (c :: rest.takeWhile isNameRest) :: further.1, further.2)
    else ([], cs)
  | _ => ([], cs)
termination_by cs.length
decreasing_by
  have shorter := List.IsSuffix.length_le (List.dropWhile_suffix (l := rest) isNameRest)
  simp only [List.length_cons]
  omega

/-- The path that starts with the letter `c`. -/
def pathFrom (c : Char) (cs : List Char) : Token × List Char :=
  let further := furtherNames (cs.dropWhile isNameRest)
  (.path (String.ofList (c :: cs.takeWhile isNameRest)) further.1, further.2)

/-- The operator or parenthesis that starts with `c`. -/
def symbolFrom? (c : Char) (cs : List Char) : Option (Token × List Char) :=
  match c, cs with
  | '|', '|' :: rest => some (.operator .or, rest)
  | '|', rest => some (.operator .bitOr, rest)
  | '&', '&' :: rest => some (.operator .and, rest)
  | '&', rest => some (.operator .bitAnd, rest)
  | '=', '=' :: rest => some (.operator .eq, rest)
  | '!', '=' :: rest => some (.operator .ne, rest)
  | '!', rest => some (.unary .not, rest)
  | '<', '=' :: rest => some (.operator .le, rest)
  | '<', '<' :: rest => some (.operator .shiftLeft, rest)
  | '<', rest => some (.operator .lt, rest)
  | '>', '=' :: rest => some (.operator .ge, rest)
  | '>', '>' :: rest => some (.operator .shiftRight, rest)
  | '>', rest => some (.operator .gt, rest)
  | '^', rest => some (.operator .bitXor, rest)
  | '+', rest => some (.operator .add, rest)
  | '-', rest => some (.operator .sub, rest)
  | '*', rest => some (.operator .mul, rest)
  | '/', rest => some (.operator .div, rest)
  | '%', rest => some (.operator .mod, rest)
  | '~', rest => some (.unary .complement, rest)
  | '(', rest => some (.openParen, rest)
  | ')', rest => some (.closeParen, rest)
  | _, _ => none

/-- The token that starts with `c`, with what follows it. -/
def from? (c : Char) (cs : List Char) : Option (Token × List Char) :=
  if c.isDigit then some (numberFrom c cs)
  else if isNameStart c then some (pathFrom c cs)
  else symbolFrom? c cs

/-! ## A token consumes at least its first character -/

theorem length_dropWhile_le (p : Char → Bool) (cs : List Char) :
    (cs.dropWhile p).length ≤ cs.length :=
  (List.dropWhile_suffix p).length_le

theorem length_afterMark? {isDigit : Char → Bool} {mark cs rest : List Char} {t : Token}
    (h : afterMark? isDigit mark cs = some (t, rest)) : rest.length ≤ cs.length := by
  unfold afterMark? at h
  split at h
  · cases h
  · cases h
    exact length_dropWhile_le isDigit cs

theorem length_getD_afterMark? {isDigit : Char → Bool} {mark cs : List Char} {bound : Nat}
    {plain : Token × List Char} (below : cs.length ≤ bound) (plainBelow : plain.2.length ≤ bound) :
    ((afterMark? isDigit mark cs).getD plain).2.length ≤ bound := by
  cases marked : afterMark? isDigit mark cs with
  | none => simpa using plainBelow
  | some found =>
    have shorter := length_afterMark? marked
    simp only [Option.getD_some]
    omega

theorem length_numberFrom (c : Char) (cs : List Char) :
    (numberFrom c cs).2.length ≤ cs.length := by
  have plainBelow := length_dropWhile_le Char.isDigit cs
  unfold numberFrom
  split
  · exact length_getD_afterMark? (by simp) plainBelow
  · exact length_getD_afterMark? (by simp) plainBelow
  · exact length_getD_afterMark? (by simp) plainBelow
  · exact length_getD_afterMark? (by simp) plainBelow
  · exact plainBelow

theorem length_furtherNames (cs : List Char) : (furtherNames cs).2.length ≤ cs.length := by
  fun_induction furtherNames cs with
  | case1 c rest _ further ih =>
    have shorter := length_dropWhile_le isNameRest rest
    have below : further.2.length ≤ (rest.dropWhile isNameRest).length := ih
    simp only [List.length_cons]
    omega
  | case2 => simp
  | case3 => simp

theorem length_symbolFrom? {c : Char} {cs rest : List Char} {t : Token}
    (h : symbolFrom? c cs = some (t, rest)) : rest.length ≤ cs.length := by
  unfold symbolFrom? at h
  split at h <;> cases h <;> simp

theorem length_from? {c : Char} {cs rest : List Char} {t : Token}
    (h : from? c cs = some (t, rest)) : rest.length ≤ cs.length := by
  unfold from? at h
  split at h
  · have same : (numberFrom c cs).2 = rest := by rw [Option.some.inj h]
    rw [← same]
    exact length_numberFrom c cs
  · split at h
    · have same : (pathFrom c cs).2 = rest := by rw [Option.some.inj h]
      have first := length_dropWhile_le isNameRest cs
      have further := length_furtherNames (cs.dropWhile isNameRest)
      rw [← same]
      simp only [pathFrom]
      omega
    · exact length_symbolFrom? h

end Token

/-- The tokens of a text; `none` if some character starts no token. -/
def tokens? (cs : List Char) : Option (List Token) :=
  match cs with
  | [] => some []
  | c :: rest =>
    if Token.isBlank c then tokens? rest
    else
      match _found : Token.from? c rest with
      | none => none
      | some (t, rest) => (tokens? rest).map (t :: ·)
termination_by cs.length
decreasing_by
  · simp
  · have shorter := Token.length_from? _found
    simp only [List.length_cons]
    omega

end BinaryTemplate
