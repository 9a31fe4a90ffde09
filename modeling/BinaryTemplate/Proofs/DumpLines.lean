import BinaryTemplate.Proofs.NumberTexts
import BinaryTemplate.Proofs.Rendering

/-!
# The lines of a dump

A dump is the walk through a tree with one text for each value, for each mask of a number and for
each side tree, joined by line feeds. The texts that a dump writes itself, which are numbers, places
and indentation, hold no line feed. Names and decoded texts are put in as they are, so the dump has
as many lines as the walk has entries and, beyond these, one for each line feed in such a text.
-/

namespace BinaryTemplate

/-! ## Line feeds -/

/-- The number of line feeds in a text. -/
def lineFeeds (text : String) : Nat := text.toList.count '\n'

/-- The lines of a text: what is between its line feeds. -/
def textLines (text : String) : List String :=
  (text.toList.splitOn '\n').map String.ofList

theorem lineFeeds_eq_zero {text : String} : lineFeeds text = 0 ↔ '\n' ∉ text.toList :=
  List.count_eq_zero

theorem lineFeeds_ofList {cs : List Char} (none : '\n' ∉ cs) : lineFeeds (String.ofList cs) = 0 :=
  lineFeeds_eq_zero.mpr (by rwa [String.toList_ofList])

@[simp] theorem lineFeeds_append (first second : String) :
    lineFeeds (first ++ second) = lineFeeds first + lineFeeds second := by
  simp [lineFeeds]

/-- Texts that are joined have their own line feeds and those of the separators. -/
theorem lineFeeds_intercalate (separator : String) (rows : List String) :
    lineFeeds (separator.intercalate rows) =
      (rows.map lineFeeds).sum + (rows.length - 1) * lineFeeds separator := by
  induction rows with
  | nil => simp [lineFeeds]
  | cons row rows inductionHypothesis =>
    cases rows with
    | nil => simp
    | cons next rows =>
      rw [String.intercalate_cons_cons, lineFeeds_append, lineFeeds_append, inductionHypothesis]
      simp only [List.map_cons, List.sum_cons, List.length_cons, Nat.add_sub_cancel]
      ring

theorem length_splitOn (cs : List Char) : (cs.splitOn '\n').length = cs.count '\n' + 1 := by
  induction cs with
  | nil => rfl
  | cons c cs inductionHypothesis =>
    rw [List.splitOn] at inductionHypothesis ⊢
    rw [List.splitOnP_cons_eq_if_modifyHead, List.count_cons]
    by_cases feed : (c == '\n') = true
    · rw [if_pos feed, if_pos feed, List.length_cons, inductionHypothesis]
    · rw [if_neg feed, if_neg feed, List.length_modifyHead, inductionHypothesis]

theorem length_textLines (text : String) : (textLines text).length = lineFeeds text + 1 := by
  rw [textLines, List.length_map, length_splitOn, lineFeeds]

/-- The lines of joined texts are these texts as long as none of them has a line feed. -/
theorem textLines_intercalate {rows : List String} (some : rows ≠ []) :
    textLines ("\n".intercalate rows) = rows ↔ (rows.map lineFeeds).sum = 0 := by
  constructor
  · intro same
    have lengths := length_textLines ("\n".intercalate rows)
    rw [same, lineFeeds_intercalate] at lengths
    have separators : lineFeeds "\n" = 1 := rfl
    have present := List.length_pos_iff.mpr some
    rw [separators] at lengths
    omega
  · intro none
    have clean : ∀ cs ∈ rows.map String.toList, '\n' ∉ cs := by
      intro cs member
      obtain ⟨row, listed, rfl⟩ := List.mem_map.mp member
      exact lineFeeds_eq_zero.mp (List.sum_eq_zero_iff.mp none _ (List.mem_map_of_mem listed))
    have split := List.splitOn_intercalate '\n' clean (by simpa using some)
    have joined : ("\n".intercalate rows).toList = ['\n'].intercalate (rows.map String.toList) :=
      String.toList_intercalate
    rw [textLines, joined, split, List.map_map]
    exact List.map_id'' (fun row => String.ofList_toList) rows

/-! ## Texts without line feeds -/

theorem DigitsOf.no_feed {base n : Nat} {digits : List Char} (h : DigitsOf base digits n) :
    '\n' ∉ digits := by
  intro member
  cases h.digit _ member

theorem Denoted.no_feed {radix : Radix} {text : List Char} {i : Int}
    (h : Denoted radix text i) : '\n' ∉ text := by
  cases h with
  | dec number =>
    cases number with
    | plain digits => exact digits.no_feed
    | negative digits => simpa using digits.no_feed
  | hex digits | octal digits | binary digits => simpa using digits.no_feed

@[simp] theorem lineFeeds_repr (n : Nat) : lineFeeds n.repr = 0 :=
  lineFeeds_eq_zero.mpr (denoted_toString n).no_feed

@[simp] theorem lineFeeds_hex (n : Nat) : lineFeeds (Text.Numeral.hex n) = 0 := by
  have digits : DigitsOf 16 (Nat.toDigits 16 n) n := digitsOf_toDigits (by decide) (by decide) n
  rw [Text.Numeral.hex, lineFeeds_append, Text.Numeral.hexDigits, lineFeeds_ofList digits.no_feed]
  rfl

@[simp] theorem lineFeeds_hexBytes (bytes : List UInt8) :
    lineFeeds (Text.Numeral.hexBytes " " bytes) = 0 := by
  have digit : ∀ n < 16, n.digitChar ≠ '\n' := by decide
  have pair (b : UInt8) : lineFeeds (Text.Numeral.hexByte b) = 0 := by
    have small := b.toNat_lt
    refine lineFeeds_ofList ?_
    simp only [List.mem_cons, List.not_mem_nil, or_false, not_or]
    exact ⟨(digit _ (by omega)).symm, (digit _ (by omega)).symm⟩
  have separator : lineFeeds " " = 0 := rfl
  rw [Text.Numeral.hexBytes, lineFeeds_intercalate, separator, List.map_map]
  simp [Function.comp_def, pair]

theorem Binary64.lineFeeds_positional (n : Nat) (e : Int) : lineFeeds (positional n e) = 0 := by
  have written : DigitsOf 10 (Nat.toDigits 10 n) n := digitsOf_toDigits (by decide) (by decide) n
  have digits := written.no_feed
  have zeros (k : Nat) : '\n' ∉ List.replicate k '0' := by simp
  cases e with
  | ofNat k =>
    exact lineFeeds_ofList fun member => (List.mem_append.mp member).elim digits (zeros k)
  | negSucc k =>
    rw [positional]
    generalize padding : List.replicate _ '0' ++ Nat.toDigits 10 n = padded
    have padded_digits : '\n' ∉ padded := by
      rw [← padding]
      exact fun member => (List.mem_append.mp member).elim (zeros _) digits
    -- Both parts are made of the digits.
    have whole (k : Nat) : lineFeeds (String.ofList (padded.take k)) = 0 :=
      lineFeeds_ofList fun member => padded_digits (List.mem_of_mem_take member)
    have fraction (k : Nat) : lineFeeds
        (String.ofList ((padded.drop k).reverse.dropWhile (· == '0')).reverse) = 0 := by
      refine lineFeeds_ofList fun member => padded_digits ?_
      rw [List.mem_reverse] at member
      exact List.mem_of_mem_drop
        (List.mem_reverse.mp ((List.dropWhile_sublist _).mem member))
    split
    · exact whole _
    · rw [lineFeeds_append, lineFeeds_append, whole, fraction]
      rfl

@[simp] theorem Binary64.lineFeeds_text (x : Binary64) : lineFeeds x.text = 0 := by
  have unsigned : lineFeeds (if x.isInfinite then "inf" else if x.significand = 0 then "0"
      else positional x.shortest.1 x.shortest.2) = 0 := by
    split
    · rfl
    · split
      · rfl
      · exact lineFeeds_positional _ _
  rw [text]
  split
  · rfl
  · dsimp only
    split
    · rw [lineFeeds_append, unsigned]
      rfl
    · exact unsigned

@[simp] theorem NumberValue.lineFeeds_format (radix : Radix) (width : Nat) (value : NumberValue) :
    lineFeeds (value.format radix width) = 0 := by
  have pattern {radix : Radix} (marked : radix ≠ .dec) (bits : Nat) :
      lineFeeds (patternText radix bits) = 0 :=
    lineFeeds_eq_zero.mpr (denoted_patternText marked bits).no_feed
  have integer (i : Int) : lineFeeds (toString i) = 0 :=
    lineFeeds_eq_zero.mpr (denoted_toString i).no_feed
  cases value with
  | float x => exact Binary64.lineFeeds_text x
  | unsigned n =>
    cases radix with
    | dec => exact lineFeeds_repr _
    | hex | octal | binary => exact pattern (by decide) _
  | signed n =>
    cases radix with
    | dec => exact integer _
    | hex | octal | binary => exact pattern (by decide) _

@[simp] theorem Value.lineFeeds_indentation (depth : Nat) : lineFeeds (indentation depth) = 0 :=
  lineFeeds_ofList (by simp)

@[simp] theorem ElementId.lineFeeds_text (id : ElementId) : lineFeeds id.text = 0 := by
  simp [text, show lineFeeds "#" = 0 from rfl]

theorem Node.lineFeeds_label {s : Schema} {n : Node s} (unnamed : n.name = .ok "") :
    lineFeeds n.label = 0 := by
  have kind : lineFeeds n.kind.name = 0 := by cases n.kind <;> simp [lineFeeds, Kind.name]
  have short : n.label = n.kind.name ++ n.id.text := by
    rw [label, unnamed]
    rfl
  rw [short, lineFeeds_append, kind, ElementId.lineFeeds_text]

/-! ## Entries -/

/-- What a dump shows on a line: a value, a mask of a number, or the way to a side tree. -/
inductive Entry where
  | value (v : Value)
  | mask (m : MaskValue)
  | arrow

namespace Entry

def value? : Entry → Option Value
  | value v => some v
  | mask _ | arrow => none

/-- How an entry is shown at a depth. -/
def line {σ : Type} [ByteSource σ] (s : Schema) (depth : Nat) : Entry → RenderM σ String
  | value v => Value.dumpLine s depth v
  | mask m => return Value.maskLine depth m
  | arrow => return Value.indentation depth ++ "  ->"

end Entry

namespace Value

def masks (v : Value) : List MaskValue :=
  match v.payload with
  | .number _ _ masks _ => masks
  | _ => []

mutual

/-- The entries of a tree with their depths: the value, its masks, what is inside its children, and
its side tree behind an arrow. -/
def outline (depth : Nat) : Value → List (Nat × Entry)
  | ⟨element, offset, len, order, payload, children⟩ =>
    let v : Value := ⟨element, offset, len, order, payload, children⟩
    (depth, .value v) :: v.masks.map (fun m => (depth, .mask m)) ++
      outlineIn (depth + 1) children ++
      match payload with
      | .offset _ _ (some side) => (depth, .arrow) :: outline (depth + 2) side
      | _ => []

/-- The entries of several trees, one tree after the other. -/
def outlineIn (depth : Nat) : List Value → List (Nat × Entry)
  | [] => []
  | v :: vs => outline depth v ++ outlineIn depth vs

end

/-- The entries of a side tree, behind the arrow that leads to it. -/
def sideOutline (depth : Nat) : Option Value → List (Nat × Entry)
  | some side => (depth, .arrow) :: outline (depth + 2) side
  | none => []

theorem outline_eq (depth : Nat) (v : Value) :
    v.outline depth = (depth, .value v) :: v.masks.map (fun m => (depth, .mask m)) ++
      outlineIn (depth + 1) v.children ++ sideOutline depth v.referenced? := by
  rcases v with ⟨element, offset, len, order, payload, children⟩
  rw [outline.eq_def]
  rcases payload with _ | _ | _ | _ | ⟨pointer, target, _ | side⟩ | _ <;> rfl

theorem outline_ne_nil (depth : Nat) (v : Value) : v.outline depth ≠ [] := by
  rw [outline_eq]
  simp

/-! ### The walk -/

theorem filterMap_outlineIn {depth : Nat} {vs : List Value}
    (each : ∀ v ∈ vs, (v.outline depth).filterMap (·.2.value?) = v.preorder) :
    (outlineIn depth vs).filterMap (·.2.value?) = preorderIn vs := by
  induction vs with
  | nil => rfl
  | cons v vs inductionHypothesis =>
    obtain ⟨own, others⟩ := List.forall_mem_cons.mp each
    rw [outlineIn, List.filterMap_append, own, inductionHypothesis others, preorderIn]

/-- The values among the entries of a tree are those of a walk through it. -/
theorem filterMap_outline (depth : Nat) (v : Value) :
    (v.outline depth).filterMap (·.2.value?) = v.preorder := by
  induction v using tree_induction generalizing depth with
  | step v children side =>
    have below := filterMap_outlineIn fun c member => children c member (depth + 1)
    have masks : (v.masks.map fun m => (depth, Entry.mask m)).filterMap (·.2.value?) = [] := by
      simp [List.filterMap_map, Entry.value?]
    have beside : (sideOutline depth v.referenced?).filterMap (·.2.value?) =
        (v.referenced?.map preorder).getD [] := by
      cases referenced : v.referenced? with
      | none => rfl
      | some c => exact side c referenced (depth + 2)
    rw [outline_eq, preorder_eq, List.filterMap_append, List.filterMap_append, below, beside,
      List.filterMap_cons, masks]
    rfl

/-- How many entries a value has itself: one, one for each mask, and one if it has a side tree. -/
def entryCount (v : Value) : Nat := 1 + v.masks.length + v.referenced?.toList.length

theorem length_outlineIn {depth : Nat} {vs : List Value}
    (each : ∀ v ∈ vs, (v.outline depth).length = (v.preorder.map entryCount).sum) :
    (outlineIn depth vs).length = ((preorderIn vs).map entryCount).sum := by
  induction vs with
  | nil => rfl
  | cons v vs inductionHypothesis =>
    obtain ⟨own, others⟩ := List.forall_mem_cons.mp each
    rw [outlineIn, List.length_append, own, inductionHypothesis others, preorderIn,
      List.map_append, List.sum_append]

theorem length_outline (depth : Nat) (v : Value) :
    (v.outline depth).length = (v.preorder.map entryCount).sum := by
  induction v using tree_induction generalizing depth with
  | step v children side =>
    have below := length_outlineIn fun c member => children c member (depth + 1)
    have beside : (sideOutline depth v.referenced?).length = v.referenced?.toList.length +
        (((v.referenced?.map preorder).getD []).map entryCount).sum := by
      cases referenced : v.referenced? with
      | none => rfl
      | some c =>
        rw [sideOutline, List.length_cons, side c referenced, Nat.add_comm]
        rfl
    rw [outline_eq, preorder_eq, List.length_append, List.length_append, below, beside,
      List.length_cons, List.length_map, List.map_cons, List.sum_cons, List.map_append,
      List.sum_append, entryCount]
    omega

/-! ### Rendering the entries -/

section Rendering

variable {σ : Type} [ByteSource σ] {s : Schema}

/-- The entries one after the other, each on a line. -/
def renderEntries (s : Schema) (entries : List (Nat × Entry)) : RenderM σ (List String) :=
  entries.mapM fun entry => entry.2.line s entry.1

theorem renderEntries_append (first second : List (Nat × Entry)) :
    (renderEntries s (first ++ second) : RenderM σ (List String)) = do
      let rows ← renderEntries s first
      let others ← renderEntries s second
      return rows ++ others :=
  List.mapM_append

theorem renderEntries_cons (entry : Nat × Entry) (entries : List (Nat × Entry)) :
    (renderEntries s (entry :: entries) : RenderM σ (List String)) = do
      let row ← entry.2.line s entry.1
      let rows ← renderEntries s entries
      return row :: rows :=
  List.mapM_cons

theorem renderEntries_masks (depth : Nat) (v : Value) :
    (renderEntries s (v.masks.map fun m => (depth, .mask m)) : RenderM σ (List String)) =
      pure (maskLines depth v.payload) := by
  have same : maskLines depth v.payload = v.masks.map (maskLine depth) := by
    unfold maskLines masks
    cases v.payload <;> rfl
  rw [same, renderEntries, List.mapM_map]
  exact List.mapM_pure

theorem dumpAll_eq_renderEntries {depth : Nat} {vs : List Value}
    (each : ∀ v ∈ vs, (dumpLines s depth v : RenderM σ (List String)) =
      renderEntries s (v.outline depth)) :
    (dumpAll s depth vs : RenderM σ (List String)) = renderEntries s (outlineIn depth vs) := by
  induction vs with
  | nil =>
    rw [dumpAll, outlineIn]
    rfl
  | cons v vs inductionHypothesis =>
    obtain ⟨own, others⟩ := List.forall_mem_cons.mp each
    rw [dumpAll, outlineIn, renderEntries_append, own, inductionHypothesis others]

/-- The lines of a tree are those of its entries. -/
theorem dumpLines_eq_renderEntries (depth : Nat) (v : Value) :
    (dumpLines s depth v : RenderM σ (List String)) = renderEntries s (v.outline depth) := by
  induction v using tree_induction generalizing depth with
  | step v children side =>
    have below := dumpAll_eq_renderEntries fun c member => children c member (depth + 1)
    have beside : (sideLines s depth v.referenced? : RenderM σ (List String)) =
        renderEntries s (sideOutline depth v.referenced?) := by
      cases referenced : v.referenced? with
      | none => rfl
      | some c =>
        rw [sideLines, sideOutline, renderEntries_cons, side c referenced]
        simp [Entry.line]
    rw [dumpLines_eq, outline_eq, renderEntries_append, renderEntries_append, renderEntries_cons,
      renderEntries_masks, below, beside]
    simp [Entry.line]

/-! ### Line feeds in entries -/

/-- The name that the element of a value has in the schema. -/
def elementName? (s : Schema) (v : Value) : Option String :=
  (s.node? v.element).bind fun node => node.name.toOption

/-- The text that the content of a value is rendered with as it is: a decoded text, or the name of
a listed value. -/
def verbatim? (v : Value) : Option String :=
  match v.payload with
  | .number _ matched _ _ | .binary matched => matched
  | .string text _ | .custom text => some text
  | .none | .offset .. => none

theorem lineFeeds_dumpName {v : Value} {name : String} (found : v.dumpName s = .ok name) :
    lineFeeds name = (v.elementName? s).elim 0 lineFeeds := by
  unfold dumpName at found
  unfold elementName?
  cases known : s.node? v.element with
  | none =>
    rw [known] at found
    cases found
    exact ElementId.lineFeeds_text _
  | some node =>
    rw [known] at found
    cases named : node.name with
    | error cycle =>
      simp only [named] at found
      cases found
    | ok own =>
      simp only [named] at found
      cases found
      rw [Option.bind_some, named]
      dsimp only
      -- Instead of an empty name there is a label, which has no line feeds either.
      by_cases unnamed : own.isEmpty = true
      · obtain rfl : own = "" := String.isEmpty_iff.mp unnamed
        rw [if_pos unnamed, Node.lineFeeds_label named]
        rfl
      · rw [if_neg unnamed]
        rfl

theorem lineFeeds_preview {v : Value} {text : String} {before after : σ}
    (given : v.preview before = (.ok text, after)) : lineFeeds text = 0 := by
  unfold preview at given
  obtain ⟨bytes, mid, -, given⟩ := RenderM.bind_eq_ok_iff.mp given
  obtain ⟨rfl, -⟩ := RenderM.pure_eq_ok_iff.mp given
  have mark : lineFeeds (if min v.len previewLength < v.len then " .." else "") = 0 := by
    split <;> rfl
  rw [lineFeeds_append, lineFeeds_hexBytes, mark]

theorem lineFeeds_format {v : Value} {text : String} {before after : σ}
    (given : v.format s before = (.ok text, after)) :
    lineFeeds text = v.verbatim?.elim 0 lineFeeds := by
  unfold format at given
  obtain ⟨radix, mid, -, given⟩ := RenderM.bind_eq_ok_iff.mp given
  unfold verbatim?
  cases payload : v.payload with
  | none =>
    simp only [payload] at given
    obtain ⟨rfl, -⟩ := RenderM.pure_eq_ok_iff.mp given
    rfl
  | string text | custom text =>
    simp only [payload] at given
    obtain ⟨rfl, -⟩ := RenderM.pure_eq_ok_iff.mp given
    rfl
  | number value matched masks bits =>
    cases matched with
    | none =>
      simp only [payload] at given
      obtain ⟨rfl, -⟩ := RenderM.pure_eq_ok_iff.mp given
      exact NumberValue.lineFeeds_format _ _ _
    | some name =>
      simp only [payload] at given
      obtain ⟨rfl, -⟩ := RenderM.pure_eq_ok_iff.mp given
      simp [show lineFeeds " (" = 0 from rfl, show lineFeeds ")" = 0 from rfl]
  | binary matched =>
    cases matched with
    | none =>
      simp only [payload] at given
      exact lineFeeds_preview given
    | some name =>
      simp only [payload] at given
      obtain ⟨rfl, -⟩ := RenderM.pure_eq_ok_iff.mp given
      rfl
  | offset pointer target side =>
    cases target with
    | none =>
      simp only [payload] at given
      obtain ⟨rfl, -⟩ := RenderM.pure_eq_ok_iff.mp given
      simp [show lineFeeds " -> null" = 0 from rfl]
    | some target =>
      simp only [payload] at given
      obtain ⟨rfl, -⟩ := RenderM.pure_eq_ok_iff.mp given
      simp [show lineFeeds " -> " = 0 from rfl]

theorem lineFeeds_dumpLine {v : Value} {depth : Nat} {row : String} {before after : σ}
    (given : dumpLine s depth v before = (.ok row, after)) :
    lineFeeds row = (v.elementName? s).elim 0 lineFeeds + v.verbatim?.elim 0 lineFeeds := by
  unfold dumpLine at given
  obtain ⟨name, mid, named, given⟩ := RenderM.bind_eq_ok_iff.mp given
  obtain ⟨content, last, formatted, given⟩ := RenderM.bind_eq_ok_iff.mp given
  obtain ⟨rfl, -⟩ := RenderM.pure_eq_ok_iff.mp given
  obtain ⟨found, -⟩ := RenderM.resolved_eq_ok_iff.mp named
  rw [← lineFeeds_dumpName found, ← lineFeeds_format formatted]
  have place : lineFeeds (indentation depth ++ name ++ " [" ++ Text.Numeral.hex v.offset ++ "+" ++
      toString v.len ++ "]") = lineFeeds name := by
    simp [show lineFeeds " [" = 0 from rfl, show lineFeeds "+" = 0 from rfl,
      show lineFeeds "]" = 0 from rfl]
  by_cases empty : content.isEmpty = true
  · obtain rfl : content = "" := String.isEmpty_iff.mp empty
    rw [if_pos empty, place]
    rfl
  · rw [if_neg empty, lineFeeds_append, lineFeeds_append, place]
    rfl

theorem lineFeeds_maskLine (depth : Nat) (m : MaskValue) :
    lineFeeds (maskLine depth m) = lineFeeds m.name + m.matched.elim 0 lineFeeds := by
  unfold maskLine
  cases m.matched with
  | none => simp [show lineFeeds "  ." = 0 from rfl, show lineFeeds " = " = 0 from rfl]
  | some name =>
    simp [show lineFeeds "  ." = 0 from rfl, show lineFeeds " = " = 0 from rfl,
      show lineFeeds " (" = 0 from rfl, show lineFeeds ")" = 0 from rfl]

end Rendering

end Value

namespace Entry

variable {σ : Type} [ByteSource σ] {s : Schema}

/-- The texts that the line of an entry shows as they are. -/
def texts (s : Schema) : Entry → List String
  | value v => (v.elementName? s).toList ++ v.verbatim?.toList
  | mask m => m.name :: m.matched.toList
  | arrow => []

theorem lineFeeds_line {entry : Entry} {depth : Nat} {row : String} {before after : σ}
    (given : entry.line s depth before = (.ok row, after)) :
    lineFeeds row = ((entry.texts s).map lineFeeds).sum := by
  have option (text? : Option String) :
      (text?.toList.map lineFeeds).sum = text?.elim 0 lineFeeds := by
    cases text? <;> simp
  cases entry with
  | value v =>
    rw [Value.lineFeeds_dumpLine given, texts, List.map_append, List.sum_append, option, option]
  | mask m =>
    obtain ⟨rfl, -⟩ := RenderM.pure_eq_ok_iff.mp given
    rw [Value.lineFeeds_maskLine, texts, List.map_cons, List.sum_cons, option]
  | arrow =>
    obtain ⟨rfl, -⟩ := RenderM.pure_eq_ok_iff.mp given
    rw [lineFeeds_append, Value.lineFeeds_indentation]
    rfl

end Entry

namespace Value

variable {σ : Type} [ByteSource σ]

/-- All texts that the entries show as they are. -/
def shownTexts (s : Schema) (entries : List (Nat × Entry)) : List String :=
  entries.flatMap fun entry => entry.2.texts s

theorem renderEntries_ok {s : Schema} {entries : List (Nat × Entry)} {rows : List String}
    {before after : σ} (given : renderEntries s entries before = (.ok rows, after)) :
    rows.length = entries.length ∧
      (rows.map lineFeeds).sum = ((shownTexts s entries).map lineFeeds).sum := by
  induction entries generalizing rows before with
  | nil =>
    obtain ⟨rfl, -⟩ := RenderM.pure_eq_ok_iff.mp given
    exact ⟨rfl, rfl⟩
  | cons entry entries inductionHypothesis =>
    rw [renderEntries_cons] at given
    obtain ⟨row, mid, first, given⟩ := RenderM.bind_eq_ok_iff.mp given
    obtain ⟨others, last, rest, given⟩ := RenderM.bind_eq_ok_iff.mp given
    obtain ⟨rfl, rfl⟩ := RenderM.pure_eq_ok_iff.mp given
    obtain ⟨lengths, feeds⟩ := inductionHypothesis rest
    refine ⟨by rw [List.length_cons, List.length_cons, lengths], ?_⟩
    rw [List.map_cons, List.sum_cons, feeds, Entry.lineFeeds_line first]
    simp only [shownTexts, List.flatMap_cons, List.map_append, List.sum_append]

/-- A dump has one line for each value, mask and side tree, in the order of the walk, and one more
for each line feed in a name or a text that it shows. No lines are merged, and the lines are those
of the entries if and only if these texts have no line feeds. -/
theorem dump_lines (s : Schema) (v : Value) (before after : σ) (text : String)
    (dumped : v.dump s before = (.ok text, after)) :
    (v.outline 0).filterMap (·.2.value?) = v.preorder ∧
      (v.outline 0).length = (v.preorder.map entryCount).sum ∧
      ∃ rows, renderEntries s (v.outline 0) before = (.ok rows, after) ∧
        rows.length = (v.outline 0).length ∧ text = "\n".intercalate rows ∧
        (textLines text).length =
          (v.outline 0).length + ((shownTexts s (v.outline 0)).map lineFeeds).sum ∧
        (textLines text = rows ↔
          ∀ shown ∈ shownTexts s (v.outline 0), '\n' ∉ shown.toList) := by
  refine ⟨filterMap_outline 0 v, length_outline 0 v, ?_⟩
  unfold dump at dumped
  rw [dumpLines_eq_renderEntries] at dumped
  obtain ⟨rows, mid, rendered, joined⟩ := RenderM.bind_eq_ok_iff.mp dumped
  obtain ⟨rfl, rfl⟩ := RenderM.pure_eq_ok_iff.mp joined
  obtain ⟨lengths, feeds⟩ := renderEntries_ok rendered
  have present : 0 < rows.length := lengths ▸ List.length_pos_iff.mpr (outline_ne_nil 0 v)
  refine ⟨rows, rendered, lengths, rfl, ?_, ?_⟩
  · have separator : lineFeeds "\n" = 1 := rfl
    rw [length_textLines, lineFeeds_intercalate, separator, feeds]
    omega
  · rw [textLines_intercalate (List.length_pos_iff.mp present), feeds, List.sum_eq_zero_iff]
    simp only [List.forall_mem_map, lineFeeds_eq_zero]

end Value

/-! ## Texts with a line feed -/

namespace Decoder

/-- A number with a mask, and a pointer to a text. -/
def memo : Decoder Slice where
  schema :=
    { elements := #[
        ⟨{}, .structure { children := [⟨1⟩, ⟨2⟩] }⟩,
        ⟨{}, .number
          { extent := { length := some (.literal 1) }, masks := some [⟨"low", 0x0F, []⟩] }⟩,
        ⟨{}, .offset { extent := { length := some (.literal 1) }, references := some ⟨3⟩ }⟩,
        ⟨{}, .string {}⟩]
      root := ⟨0⟩ }
  options := { maxDepth := 3, maxRepeat := 1 }

def memoBytes : Slice := ⟨#[0x12, 2, 0x61, 0x0A, 0x62], 0⟩

def memoText (offset : Nat) : Value := ⟨⟨3⟩, offset, 3, none, .string "a\nb" none, []⟩

def memoValue : Value :=
  ⟨⟨0⟩, 0, 2, none, .none,
    [⟨⟨1⟩, 0, 1, some .little, .number (.unsigned 18) none [⟨"low", 2, none⟩] none, []⟩,
      ⟨⟨2⟩, 1, 1, some .little, .offset 2 (some 2) (some (memoText 2)), []⟩]⟩

def memoDump : String :=
  "structure#0 [0x0+2]\n  number#1 [0x0+1]: 18\n    .low = 2\n  offset#2 [0x1+1]: 2 -> 0x2\n" ++
    "    ->\n      string#3 [0x2+3]: a\nb"

theorem dump_lines_memo :
    memoValue.dump memo.schema memoBytes = (.ok memoDump, memoBytes) ∧
      (memoValue.outline 0).length = 6 ∧ (textLines memoDump).length = 7 := by
  have dumped : memoValue.dump memo.schema memoBytes = (.ok memoDump, memoBytes) := by cbv
  obtain ⟨-, entries, rows, -, -, -, lines, -⟩ :=
    Value.dump_lines memo.schema memoValue memoBytes memoBytes memoDump dumped
  have six : (memoValue.outline 0).length = 6 := entries
  have texts : Value.shownTexts memo.schema (memoValue.outline 0) =
      ["", "", "low", "", "", "a\nb"] := by cbv
  refine ⟨dumped, six, ?_⟩
  rw [lines, six, texts]
  rfl

/-- A line feed that was decoded makes two lines of one value. -/
theorem decoded_text_adds_line :
    (memo.decodeElement ⟨3⟩ ⟨#[0x61, 0x0A, 0x62], 0⟩).result = .ok (memoText 0, []) ∧
      (memoText 0).dump memo.schema (⟨#[0x61, 0x0A, 0x62], 0⟩ : Slice) =
        (.ok "string#3 [0x0+3]: a\nb", ⟨#[0x61, 0x0A, 0x62], 0⟩) ∧
      ((memoText 0).outline 0).length = 1 ∧
      textLines "string#3 [0x0+3]: a\nb" = ["string#3 [0x0+3]: a", "b"] := by
  exact ⟨by cbv, by cbv, rfl, rfl⟩

end Decoder

end BinaryTemplate
