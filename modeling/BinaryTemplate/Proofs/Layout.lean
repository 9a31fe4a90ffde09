import BinaryTemplate.Proofs.CycleGuard
import BinaryTemplate.Proofs.Delivery

/-!
# Fixed layouts

A fixed layout is a tree of structures whose leaves are numbers of one to eight bytes, together with
the integers of these leaves. It has an encoding, in which the integers follow one another in the
byte orders that their leaves have or inherit, and a tree of values that goes with it. A schema may
have the elements of a layout in any order; with the elements numbered in the order of the tree
every layout has such a schema.
-/

namespace BinaryTemplate

namespace Bytes

/-- The lowest `width` bytes of a number, the least significant one first. -/
def ofNatLittle : (width : Nat) → Nat → List UInt8
  | 0, _ => []
  | width + 1, k => UInt8.ofNat (k % 256) :: ofNatLittle width (k / 256)

/-- The lowest `width` bytes of a number in a byte order. -/
def ofNatIn : ByteOrder → (width : Nat) → Nat → List UInt8
  | .little, width, k => ofNatLittle width k
  | .big, width, k => (ofNatLittle width k).reverse

theorem length_ofNatLittle (width k : Nat) : (ofNatLittle width k).length = width := by
  induction width generalizing k with
  | zero => rfl
  | succ width inductionHypothesis =>
    rw [ofNatLittle, List.length_cons, inductionHypothesis]

@[simp] theorem length_ofNatIn (order : ByteOrder) (width k : Nat) :
    (ofNatIn order width k).length = width := by
  cases order <;> simp [ofNatIn, length_ofNatLittle]

theorem toNatLittle_ofNatLittle {width k : Nat} (inRange : k < 256 ^ width) :
    toNatLittle (ofNatLittle width k) = k := by
  induction width generalizing k with
  | zero =>
    rw [Nat.pow_zero] at inRange
    rw [ofNatLittle, toNatLittle]
    omega
  | succ width inductionHypothesis =>
    have rest : k / 256 < 256 ^ width := by
      rw [Nat.pow_succ] at inRange
      omega
    have byte : (UInt8.ofNat (k % 256)).toNat = k % 256 := by simp
    rw [ofNatLittle, toNatLittle, inductionHypothesis rest, byte]
    omega

/-- The bytes of a number denote it in the order that they are written in. -/
theorem toNatIn_ofNatIn (order : ByteOrder) {width k : Nat} (inRange : k < 256 ^ width) :
    toNatIn order (ofNatIn order width k) = k := by
  cases order with
  | little => exact toNatLittle_ofNatLittle inRange
  | big =>
    rw [toNatIn, ofNatIn, toNatBig, List.reverse_reverse]
    exact toNatLittle_ofNatLittle inRange

end Bytes

/-! ## Layouts -/

/-- A number of whole bytes and an integer that fits it. A byte order that is not set is
inherited. -/
structure Leaf where
  id : ElementId
  order : Option ByteOrder
  width : Nat
  wide : 0 < width ∧ width ≤ 8
  value : Nat
  inRange : value < 256 ^ width

/-- A tree of structures and numbers. A structure may declare its length. -/
inductive Layout where
  | number (leaf : Leaf)
  | structure (id : ElementId) (order : Option ByteOrder) (declared : Bool) (parts : List Layout)

namespace Layout

def id : Layout → ElementId
  | .number leaf => leaf.id
  | .structure id _ _ _ => id

mutual

/-- How many bytes the layout takes. -/
def size : Layout → Nat
  | .number leaf => leaf.width
  | .structure _ _ _ parts => sizeAll parts

def sizeAll : List Layout → Nat
  | [] => 0
  | l :: ls => size l + sizeAll ls

end

mutual

/-- How many levels the layout has. -/
def height : Layout → Nat
  | .number _ => 1
  | .structure _ _ _ parts => heightAll parts + 1

def heightAll : List Layout → Nat
  | [] => 0
  | l :: ls => max (height l) (heightAll ls)

end

mutual

/-- The integers of the layout in order, in the given byte order where no other one is set. -/
def encode (inherited : ByteOrder) : Layout → List UInt8
  | .number leaf => Bytes.ofNatIn (leaf.order.getD inherited) leaf.width leaf.value
  | .structure _ order _ parts => encodeAll (order.getD inherited) parts

def encodeAll (inherited : ByteOrder) : List Layout → List UInt8
  | [] => []
  | l :: ls => encode inherited l ++ encodeAll inherited ls

end

mutual

/-- The tree of the layout where it starts at an offset. -/
def value (inherited : ByteOrder) (offset : Nat) : Layout → Value
  | .number leaf =>
    Decoder.numberValue leaf.id offset leaf.width (leaf.order.getD inherited) leaf.value
  | .structure id order _ parts =>
    Decoder.containerValue id offset (offset + sizeAll parts)
      (values (order.getD inherited) offset parts)

def values (inherited : ByteOrder) (offset : Nat) : List Layout → List Value
  | [] => []
  | l :: ls => value inherited offset l :: values inherited (offset + size l) ls

end

mutual

theorem length_encode (inherited : ByteOrder) : ∀ l : Layout, (l.encode inherited).length = l.size
  | .number _ => Bytes.length_ofNatIn ..
  | .structure _ order _ parts => length_encodeAll (order.getD inherited) parts

theorem length_encodeAll (inherited : ByteOrder) :
    ∀ ls : List Layout, (encodeAll inherited ls).length = sizeAll ls
  | [] => rfl
  | l :: ls => by
    rw [encodeAll, sizeAll, List.length_append, length_encode inherited l,
      length_encodeAll inherited ls]

end

end Layout

/-! ## Attributes of plain elements -/

namespace Schema

variable {α : Type} {s : Schema}

/-- What an element with this parent takes from it for a structural attribute. -/
def FromParent (s : Schema) (a : Attribute α) (parent : Option ElementId) (above : Option α) :
    Prop :=
  match parent with
  | none => above = none
  | some container => s.lookup a container = .ok above

/-- An element that has no template and is no reference takes what it does not set itself from its
parent, if the attribute is structural. -/
theorem lookup_plain {a : Attribute α} {id : ElementId} {e : Element} {above : Option α}
    (found : s.get? id = some e) (direct : ∀ body, e.kind ≠ .structRef body)
    (untemplated : e.traits.template = none)
    (inherits : if a.scope = .structural then s.FromParent a e.traits.parent above
      else above = none) : s.lookup a id = .ok ((a.own e).or above) := by
  have links : ∀ depth, (s.attributeWalk a).links depth id e =
      some (if a.scope = .structural then e.traits.parent.toList else []) := by
    intro depth
    have unlinked : s.targetWithin a.scope depth id e = some none := by
      unfold targetWithin
      split
      · rfl
      · rename_i refers _
        exact absurd refers (direct _)
      · rfl
    show Option.map _ (s.targetWithin a.scope depth id e) = _
    rw [unlinked, untemplated]
    rfl
  refine (guards_attribute a).search_iff.mpr ?_
  cases own : (s.attributeWalk a).own e with
  | some v =>
    have set : a.own e = some v := own
    rw [set, Option.some_or]
    exact ⟨1, by simp only [follow, found, own]⟩
  | none =>
    have unset : a.own e = none := own
    rw [unset, Option.none_or]
    have step : ∀ depth, s.follow (s.attributeWalk a) (depth + 1) id =
        firstOf (s.follow (s.attributeWalk a) depth)
          (if a.scope = .structural then e.traits.parent.toList else []) := by
      intro depth
      simp only [follow, found, own, links]
    by_cases structural : a.scope = .structural
    · simp only [structural, if_true] at inherits step
      cases container : e.traits.parent with
      | none =>
        rw [container] at inherits
        obtain rfl : above = none := inherits
        exact ⟨1, by rw [step, container]; rfl⟩
      | some q =>
        rw [container] at inherits
        obtain ⟨depth, ended⟩ := (guards_attribute a).search_iff.mp inherits
        refine ⟨depth + 1, ?_⟩
        rw [step, container]
        simp only [Option.toList_some, firstOf, ended]
        cases above <;> rfl
    · simp only [structural, if_false] at inherits step
      subst inherits
      exact ⟨1, step 0⟩

end Schema

/-! ## Schemas for layouts -/

/-- The traits of an element that occurs once and has no template. -/
structure Traits.OccursIn (t : Traits) (parent : Option ElementId) : Prop where
  untemplated : t.template = none
  placed : t.parent = parent
  once : t.repeatMin = none ∧ t.repeatMax = none

/-- The extent is counted in bytes. -/
def Extent.InBytes (x : Extent) : Prop := x.unit = none ∨ x.unit = some .byte

/-- The extent sets a length. -/
def Extent.Has (x : Extent) (len : Nat) : Prop :=
  ∃ k, x.length = some (.literal k) ∧ k.toInt = len

/-- The body of an unsigned number for a leaf, without constraints. -/
structure NumberBody.IsFor (body : NumberBody) (leaf : Leaf) : Prop where
  kind : body.kind = none ∨ body.kind = some .unsigned
  order : body.byteOrder = leaf.order
  unit : body.extent.InBytes
  length : body.extent.Has leaf.width
  isRead : body.valueExpression = none
  unlisted : body.values = none
  bounded : body.minVal = none ∧ body.maxVal = none
  unmasked : body.masks = none

/-- The body of a structure with some parts, which has no length or the exact one. The exact one
can be set if the number of its bits can be. -/
structure StructureBody.IsFor (body : StructureBody) (order : Option ByteOrder) (declared : Bool)
    (parts : List Layout) : Prop where
  order : body.byteOrder = order
  inTurn : body.order = none ∨ body.order = some .declared
  unit : body.extent.InBytes
  length : if declared then
      body.extent.Has (Layout.sizeAll parts) ∧ 8 * Layout.sizeAll parts < positionLimit
    else body.extent.length = none
  exact : body.lengthOffset = none
  children : body.children = parts.map Layout.id

/-- The schema has the elements of a layout that stands in the container `parent`, or at the top. -/
inductive Schema.LaysOut (s : Schema) : Option ElementId → Layout → Prop
  | number {parent : Option ElementId} {leaf : Leaf} {traits : Traits} {body : NumberBody}
      (found : s.get? leaf.id = some ⟨traits, .number body⟩) (occurs : traits.OccursIn parent)
      (isFor : body.IsFor leaf) : LaysOut s parent (.number leaf)
  | structure {parent : Option ElementId} {id : ElementId} {order : Option ByteOrder}
      {declared : Bool} {parts : List Layout} {traits : Traits} {body : StructureBody}
      (found : s.get? id = some ⟨traits, .structure body⟩) (occurs : traits.OccursIn parent)
      (isFor : body.IsFor order declared parts)
      (inner : ∀ l ∈ parts, LaysOut s (some id) l) :
      LaysOut s parent (.structure id order declared parts)

namespace Schema

variable {s : Schema} {parent : Option ElementId} {inherited : ByteOrder}

/-- What the elements in a container, or at the top, inherit: lengths are counted in bytes, and the
byte order is the given one. -/
structure Passes (s : Schema) (parent : Option ElementId) (inherited : ByteOrder) : Prop where
  order : ∃ above, s.FromParent .byteOrder parent above ∧ above.getD .little = inherited
  unit : ∃ above, s.FromParent .lengthUnit parent above ∧ above.getD .byte = .byte

theorem passes_top : s.Passes none .little :=
  ⟨⟨none, rfl, rfl⟩, ⟨none, rfl, rfl⟩⟩

/-- An element of a layout stands in its container, or at the top: it occurs once, is no reference,
and counts its length in bytes. -/
structure Stands (s : Schema) (parent : Option ElementId) (id : ElementId) (e : Element) :
    Prop where
  found : s.get? id = some e
  occurs : e.traits.OccursIn parent
  direct : (∀ body, e.kind ≠ .structRef body) ∧ ∀ body, e.kind ≠ .grammarRef body
  unit : ∃ x, e.kind.extent? = some x ∧ x.InBytes

theorem stands_number {leaf : Leaf} {traits : Traits} {body : NumberBody}
    (found : s.get? leaf.id = some ⟨traits, .number body⟩) (occurs : traits.OccursIn parent)
    (isFor : body.IsFor leaf) : s.Stands parent leaf.id ⟨traits, .number body⟩ :=
  ⟨found, occurs, ⟨nofun, nofun⟩, _, rfl, isFor.unit⟩

theorem stands_structure {id : ElementId} {order : Option ByteOrder} {declared : Bool}
    {parts : List Layout} {traits : Traits} {body : StructureBody}
    (found : s.get? id = some ⟨traits, .structure body⟩) (occurs : traits.OccursIn parent)
    (isFor : body.IsFor order declared parts) : s.Stands parent id ⟨traits, .structure body⟩ :=
  ⟨found, occurs, ⟨nofun, nofun⟩, _, rfl, isFor.unit⟩

theorem LaysOut.stands {l : Layout} (h : s.LaysOut parent l) : ∃ e, s.Stands parent l.id e := by
  cases h with
  | number found occurs isFor => exact ⟨_, stands_number found occurs isFor⟩
  | «structure» found occurs isFor => exact ⟨_, stands_structure found occurs isFor⟩

namespace Stands

variable {id : ElementId} {e : Element} (stands : s.Stands parent id e)

include stands

theorem lookup_own {α : Type} (a : Attribute α) (ownScope : a.scope ≠ .structural) :
    s.lookup a id = .ok (a.own e) := by
  have inherits : if a.scope = .structural then s.FromParent a e.traits.parent none
      else (none : Option α) = none := by
    rw [if_neg ownScope]
  rw [lookup_plain stands.found stands.direct.1 stands.occurs.untemplated inherits, Option.or_none]

theorem lookup_above {α : Type} {a : Attribute α} {above : Option α}
    (structural : a.scope = .structural) (inherits : s.FromParent a parent above) :
    s.lookup a id = .ok ((a.own e).or above) := by
  apply lookup_plain stands.found stands.direct.1 stands.occurs.untemplated
  rw [if_pos structural, stands.occurs.placed]
  exact inherits

theorem unit_lookup (passes : s.Passes parent inherited) :
    ∃ unit, s.lookup .lengthUnit id = .ok unit ∧ unit.getD .byte = .byte := by
  obtain ⟨above, inherits, bytes⟩ := passes.unit
  refine ⟨_, stands.lookup_above rfl inherits, ?_⟩
  obtain ⟨x, extent, unset | set⟩ := stands.unit
  · simpa [Attribute.lengthUnit, extent, unset] using bytes
  · simp [Attribute.lengthUnit, extent, set]

theorem order_lookup (passes : s.Passes parent inherited) :
    ∃ order, s.lookup .byteOrder id = .ok order ∧
      order.getD .little = (Attribute.byteOrder.own e).getD inherited := by
  obtain ⟨above, inherits, rfl⟩ := passes.order
  refine ⟨_, stands.lookup_above rfl inherits, ?_⟩
  cases Attribute.byteOrder.own e <;> rfl

/-- What a container passes on is what it has. -/
theorem passes (passes : s.Passes parent inherited) :
    s.Passes (some id) ((Attribute.byteOrder.own e).getD inherited) :=
  ⟨stands.order_lookup passes, stands.unit_lookup passes⟩

end Stands

end Schema

/-! ## Elements of a layout -/

namespace Layout

mutual

/-- How many elements the layout has. -/
def count : Layout → Nat
  | .number _ => 1
  | .structure _ _ _ parts => countAll parts + 1

def countAll : List Layout → Nat
  | [] => 0
  | l :: ls => count l + countAll ls

end

mutual

/-- The layout with its elements numbered from `start` on, a structure before its parts. -/
def numbered (start : Nat) : Layout → Layout
  | .number leaf => .number { leaf with id := ⟨start⟩ }
  | .structure _ order declared parts =>
    .structure ⟨start⟩ order declared (numberedAll (start + 1) parts)

def numberedAll (start : Nat) : List Layout → List Layout
  | [] => []
  | l :: ls => numbered start l :: numberedAll (start + count l) ls

end

/-- An extent of so many bytes. -/
def extent (len : Nat) : Extent := { length := some (.literal (Int64.ofNat len)) }

mutual

/-- The elements of the layout, numbered from `start` on. -/
def elements (parent : Option ElementId) (start : Nat) : Layout → List Element
  | .number leaf =>
    [⟨{ parent := parent }, .number { byteOrder := leaf.order, extent := extent leaf.width }⟩]
  | .structure _ order declared parts =>
    ⟨{ parent := parent }, .structure
      { children := (numberedAll (start + 1) parts).map id
        byteOrder := order
        extent := if declared then extent (sizeAll parts) else {} }⟩ ::
      elementsAll (some ⟨start⟩) (start + 1) parts

def elementsAll (parent : Option ElementId) (start : Nat) : List Layout → List Element
  | [] => []
  | l :: ls => elements parent start l ++ elementsAll parent (start + count l) ls

end

/-- The schema of a layout. -/
def schema (l : Layout) : Schema where
  elements := (l.elements none 0).toArray
  root := ⟨0⟩

mutual

theorem size_numbered (start : Nat) : ∀ l : Layout, (l.numbered start).size = l.size
  | .number _ => rfl
  | .structure _ _ _ parts => sizeAll_numbered (start + 1) parts

theorem sizeAll_numbered (start : Nat) : ∀ ls : List Layout,
    sizeAll (numberedAll start ls) = sizeAll ls
  | [] => rfl
  | l :: ls => by
    rw [numberedAll, sizeAll, sizeAll, size_numbered start l, sizeAll_numbered (start + count l) ls]

end

mutual

theorem length_elements (parent : Option ElementId) (start : Nat) : ∀ l : Layout,
    (l.elements parent start).length = l.count
  | .number _ => rfl
  | .structure _ _ _ parts => by
    rw [elements, count, List.length_cons, length_elementsAll _ _ parts]

theorem length_elementsAll (parent : Option ElementId) (start : Nat) : ∀ ls : List Layout,
    (elementsAll parent start ls).length = countAll ls
  | [] => rfl
  | l :: ls => by
    rw [elementsAll, countAll, List.length_append, length_elements _ _ l, length_elementsAll _ _ ls]

end

theorem extent_has {len : Nat} (small : 8 * len < positionLimit) : (extent len).Has len := by
  simp only [positionLimit, Integer.unsignedLimit] at small
  exact ⟨_, rfl, Int64.toInt_ofNat_of_lt (by omega)⟩

theorem found_of_row {s : Schema} {start : Nat} {front back : List Element} {e : Element}
    (behind : front.length = start) (row : s.elements.toList = front ++ e :: back) :
    s.get? ⟨start⟩ = some e := by
  subst behind
  rw [Schema.get?, ← Array.getElem?_toList, row]
  simp

section Rows

variable {s : Schema}

mutual

/-- A schema that has the elements of a numbered layout in a row lays it out. -/
theorem laysOut_numbered {parent : Option ElementId} {start : Nat} {front back : List Element} :
    ∀ l : Layout, front.length = start →
      s.elements.toList = front ++ (l.elements parent start ++ back) →
      8 * l.size < positionLimit → s.LaysOut parent (l.numbered start)
  | .number leaf, behind, row, small =>
    .number (found_of_row behind row) ⟨rfl, rfl, rfl, rfl⟩
      ⟨.inl rfl, rfl, .inl rfl, extent_has small, rfl, rfl, ⟨rfl, rfl⟩, rfl⟩
  | .structure _ order declared parts, behind, row, small => by
    rw [size] at small
    rw [elements, List.cons_append] at row
    have found := found_of_row behind row
    rw [List.append_cons] at row
    have inner := laysOut_numberedAll parts (by simp [behind]) row small
    refine .structure found ⟨rfl, rfl, rfl, rfl⟩ ⟨rfl, .inl rfl, ?_, ?_, rfl, rfl⟩ inner
    · cases declared <;> exact .inl rfl
    · rw [sizeAll_numbered]
      cases declared with
      | false => rfl
      | true => exact ⟨extent_has small, small⟩

theorem laysOut_numberedAll {parent : Option ElementId} {start : Nat} {front back : List Element} :
    ∀ ls : List Layout, front.length = start →
      s.elements.toList = front ++ (elementsAll parent start ls ++ back) →
      8 * sizeAll ls < positionLimit → ∀ l ∈ numberedAll start ls, s.LaysOut parent l
  | [], _, _, _ => List.forall_mem_nil _
  | l :: ls, behind, row, small => by
    rw [sizeAll] at small
    rw [elementsAll, List.append_assoc] at row
    have first := laysOut_numbered l behind row (by omega)
    rw [← List.append_assoc] at row
    have others := laysOut_numberedAll ls (by simp [behind, length_elements]) row (by omega)
    exact List.forall_mem_cons.mpr ⟨first, others⟩

end

end Rows

/-- Every layout that is small enough for its length to be declared has a schema. -/
theorem laysOut_schema (l : Layout) (small : 8 * l.size < positionLimit) :
    l.schema.LaysOut none (l.numbered 0) := by
  have row : l.schema.elements.toList = [] ++ (l.elements none 0 ++ []) := by
    simp [schema]
  exact laysOut_numbered l rfl row small

end Layout

end BinaryTemplate
