import BinaryTemplate.Proofs.Layout

/-!
# Decoding layouts

A schema for a layout decodes the encoding of the layout to its tree again, whatever lies around it.
What each element needs for that is read off the schema, where byte orders come down from the
containers, and the tree is followed from its leaves up to the whole file.
-/

namespace BinaryTemplate

/-- Of bytes that lie within a frame, so do the first ones and those behind them. -/
theorem Reading.Holds.split {r : Reading} {limit first more : Nat}
    (h : r.Holds limit (first + more)) :
    r.Holds limit first ∧ (r.afterBytes first).Holds limit more :=
  ⟨h.mono (Nat.le_add_right ..), Reading.holds_add_iff.mp h⟩

theorem window_middle (front middle back : List UInt8) :
    window (front ++ (middle ++ back)).toArray front.length middle.length = middle := by
  simp [window, List.extract_eq_take_drop]

namespace Decoder

open DecodeM

variable {σ : Type} {d : Decoder σ} {p : Place} {n : Node d.schema} {parent : Option ElementId}
  {inherited : ByteOrder} {e : Element}

theorem kind_of_stands (stands : d.schema.Stands parent n.id e) : n.kind = e.kind :=
  congrArg Element.kind (Option.some.inj (n.found.symm.trans stands.found))

theorem lookupD_of_stands (stands : d.schema.Stands parent n.id e) {α : Type} (a : Attribute α)
    (fallback : α) (ownScope : a.scope ≠ .structural) :
    n.lookupD a fallback = .ok ((a.own e).getD fallback) := by
  unfold Node.lookupD Node.lookup
  rw [stands.lookup_own a ownScope]
  rfl

theorem enabled_of_stands (stands : d.schema.Stands parent n.id e) : Disabled n false := by
  obtain rfl : n.element = e := Option.some.inj (n.found.symm.trans stands.found)
  unfold Disabled
  cases kind : n.kind with
  | grammarRef body => exact absurd kind (stands.direct.2 body)
  | _ => rfl

theorem bounds_of_stands (stands : d.schema.Stands parent n.id e) : d.Bounds p n 1 (some 1) := by
  have least : n.repeatMin = .ok Node.once := by
    rw [Node.repeatMin, lookupD_of_stands stands _ _ (by decide)]
    simp [Attribute.repeatMin, stands.occurs.once.1]
  have most : n.repeatMax = .ok Node.once := by
    rw [Node.repeatMax, lookupD_of_stands stands _ _ (by decide)]
    simp [Attribute.repeatMax, stands.occurs.once.2]
  exact ⟨_, _, 1, 1, least, most, rfl, rfl, rfl, rfl⟩

theorem unit_of_stands (stands : d.schema.Stands parent n.id e)
    (passes : d.schema.Passes parent inherited) : n.lengthUnit = .ok .byte := by
  obtain ⟨unit, found, bytes⟩ := stands.unit_lookup passes
  rw [Node.lengthUnit, Node.lookupD, Node.lookup, found]
  exact congrArg _ bytes

theorem plainNumber_of_stands {leaf : Leaf} {traits : Traits} {body : NumberBody}
    (stands : d.schema.Stands parent n.id ⟨traits, .number body⟩) (isFor : body.IsFor leaf)
    (passes : d.schema.Passes parent inherited) :
    d.PlainNumber p n (leaf.order.getD inherited) leaf.width := by
  obtain ⟨k, set, exact⟩ := isFor.length
  refine ⟨?_, ?_, ?_, unit_of_stands stands passes, ⟨.literal k, ?_, k, rfl, exact⟩, leaf.wide, ?_,
    ⟨?_, ?_⟩, ?_⟩
  · rw [Node.lookup, stands.lookup_own _ (by decide)]
    exact congrArg _ isFor.isRead
  · rw [Node.numberKind, lookupD_of_stands stands _ _ (by decide)]
    obtain unset | set := isFor.kind <;> simp [Attribute.numberKind, Attribute.ofNumber, *]
  · obtain ⟨order, found, same⟩ := stands.order_lookup passes
    rw [Node.byteOrder, Node.lookupD, Node.lookup, found, ← isFor.order]
    exact congrArg _ same
  · rw [Node.lookup, stands.lookup_own _ (by decide)]
    exact congrArg _ set
  · rw [Node.numberValues, lookupD_of_stands stands _ _ (by decide)]
    simp [Attribute.numberValues, Attribute.ofNumber, isFor.unlisted]
  · show n.lookup _ = _
    rw [Node.lookup, stands.lookup_own _ (by decide)]
    exact congrArg _ isFor.bounded.1
  · show n.lookup _ = _
    rw [Node.lookup, stands.lookup_own _ (by decide)]
    exact congrArg _ isFor.bounded.2
  · rw [Node.masks, lookupD_of_stands stands _ _ (by decide)]
    simp [Attribute.masks, Attribute.ofNumber, isFor.unmasked]

theorem order_of_stands {order : Option ByteOrder} {declared : Bool} {parts : List Layout}
    {traits : Traits} {body : StructureBody}
    (stands : d.schema.Stands parent n.id ⟨traits, .structure body⟩)
    (isFor : body.IsFor order declared parts) : n.order = .ok .declared := by
  rw [Node.order, lookupD_of_stands stands _ _ (by decide)]
  obtain unset | set := isFor.inTurn <;> simp [Attribute.order, *]

/-- The length that a structure of a layout declares is the one that its parts take. -/
theorem spans_of_stands {order : Option ByteOrder} {declared : Bool} {parts : List Layout}
    {traits : Traits} {body : StructureBody}
    (stands : d.schema.Stands parent n.id ⟨traits, .structure body⟩)
    (isFor : body.IsFor order declared parts) (passes : d.schema.Passes parent inherited) :
    d.Spans p n (if declared then some (Layout.sizeAll parts) else none) := by
  have length : n.lookup .length = .ok body.extent.length := stands.lookup_own _ (by decide)
  have exact : n.lookup .lengthOffset = .ok body.lengthOffset := stands.lookup_own _ (by decide)
  have whole := isFor.length
  cases declared with
  | false =>
    rw [if_neg (by decide)] at whole ⊢
    rw [whole] at length
    exact length
  | true =>
    rw [if_pos rfl] at whole ⊢
    obtain ⟨⟨k, set, counted⟩, fits⟩ := whole
    have counts : d.Counts p (.literal k) (Layout.sizeAll parts) := ⟨k, rfl, counted⟩
    rw [set] at length
    rw [isFor.exact] at exact
    refine ⟨.literal k, Layout.sizeAll parts, none, Layout.sizeAll parts, .byte, length, counts,
      exact, Int.add_zero _, unit_of_stands stands passes, ?_, ?_⟩
    · simp only [LengthUnit.bits]
      omega
    · simp only [LengthUnit.bits]
      omega

theorem inside_of_declared {start len : Nat} (declared : Bool) (within : start + len ≤ p.limit) :
    (inside p n none start (if declared then some len else none)).limit ≤ p.limit ∧
      start + len ≤ (inside p n none start (if declared then some len else none)).limit := by
  cases declared with
  | false => exact ⟨Nat.le_refl _, within⟩
  | true => exact ⟨within, Nat.le_refl _⟩

/-! ## Decoding -/

variable [ByteSource σ] [SliceLike σ]

/-- A layout decodes to its tree wherever its bytes lie within the frame. -/
def Restores (d : Decoder σ) (inherited : ByteOrder) (l : Layout) : Prop :=
  ∀ ⦃depth : Nat⦄ ⦃p : Place⦄ ⦃n : Node d.schema⦄ ⦃before : Reading⦄, n.id = l.id →
    l.height ≤ depth → before.Holds p.limit l.size →
    window before.data before.cursor l.size = l.encode inherited →
    Delivers (d.decodeOne depth p n) before (l.value inherited before.cursor)
      (before.afterBytes l.size)

theorem decodeDeclared_restores {depth : Nat} {before : Reading} {parts : List Layout}
    (room : 0 < d.options.maxRepeat)
    (stand : ∀ l ∈ parts, ∃ e, d.schema.Stands parent l.id e)
    (restore : ∀ l ∈ parts, d.Restores inherited l) (deep : Layout.heightAll parts ≤ depth)
    (aligned : before.pending = []) (holds : before.Holds p.limit (Layout.sizeAll parts))
    (bytes : window before.data before.cursor (Layout.sizeAll parts) =
      Layout.encodeAll inherited parts) :
    Delivers (d.decodeDeclared (d.decodeOne depth) (parts.map Layout.id) p) before
      (p.completeAll (Layout.values inherited before.cursor parts))
      (before.afterBytes (Layout.sizeAll parts)) := by
  induction parts generalizing p before with
  | nil =>
    have same : before.afterBytes 0 = before := by
      obtain ⟨data, cursor, pending⟩ := before
      obtain rfl : pending = [] := aligned
      rfl
    rw [Layout.sizeAll, same]
    exact .pure
  | cons l ls inductionHypothesis =>
    rw [Layout.heightAll] at deep
    rw [Layout.sizeAll] at holds bytes
    obtain ⟨here, behind⟩ := holds.split
    obtain ⟨e, stands⟩ := stand l List.mem_cons_self
    obtain ⟨n, found, same⟩ := Schema.node?_of_get? stands.found
    -- The bytes of the first part and those of the others lie side by side.
    rw [← window_add, Layout.encodeAll] at bytes
    obtain ⟨first, others⟩ := List.append_inj bytes (by
      rw [length_window here.2, Layout.length_encode])
    have taken : Delivers (d.decodeOne depth p n) before (l.value inherited before.cursor)
        (before.afterBytes l.size) :=
      restore l List.mem_cons_self same (by omega) here first
    rw [← same] at stands
    have once := decodeRepeated_once (bounds_of_stands (p := p) stands) room taken
    refine decodeDeclared_delivers found (enabled_of_stands stands) once ?_
    rw [Layout.values, Place.completeAll_cons, Layout.sizeAll, ← Reading.afterBytes_add]
    apply inductionHypothesis
    · exact fun l' member => stand l' (List.mem_cons_of_mem l member)
    · exact fun l' member => restore l' (List.mem_cons_of_mem l member)
    · omega
    · rfl
    · exact behind
    · exact others

theorem restores_number {leaf : Leaf} {traits : Traits} {body : NumberBody}
    (stands : d.schema.Stands parent leaf.id ⟨traits, .number body⟩) (isFor : body.IsFor leaf)
    (passes : d.schema.Passes parent inherited) : d.Restores inherited (.number leaf) := by
  intro depth p n before same deep holds bytes
  cases depth with
  | zero => cases deep
  | succ rest =>
    rw [Layout.id] at same
    rw [← same] at stands
    have plain : d.PlainNumber p n (leaf.order.getD inherited) leaf.width :=
      plainNumber_of_stands stands isFor passes
    have number : Delivers (d.decodeOne (rest + 1) p n) before _ _ :=
      decodeOne_number (kind_of_stands stands) plain holds
    rw [Layout.size, Layout.encode] at bytes
    rw [bytes, Bytes.toNatIn_ofNatIn _ leaf.inRange, same] at number
    exact number

/-- A structure restores its layout if its elements restore the parts of it in the byte order that
the structure passes on. -/
theorem restores_structure {id : ElementId} {order : Option ByteOrder} {declared : Bool}
    {parts : List Layout} {traits : Traits} {body : StructureBody}
    (stands : d.schema.Stands parent id ⟨traits, .structure body⟩)
    (isFor : body.IsFor order declared parts) (passes : d.schema.Passes parent inherited)
    (room : 0 < d.options.maxRepeat)
    (stand : ∀ l ∈ parts, ∃ e, d.schema.Stands (some id) l.id e)
    (restore : ∀ l ∈ parts, d.Restores (order.getD inherited) l) :
    d.Restores inherited (.structure id order declared parts) := by
  intro depth p n before same deep holds bytes
  cases depth with
  | zero => cases deep
  | succ rest =>
    obtain rfl : id = n.id := same.symm
    rw [Layout.size] at holds bytes ⊢
    rw [Layout.height] at deep
    rw [Layout.encode] at bytes
    obtain ⟨within, present⟩ := holds
    have spans : d.Spans p n _ := spans_of_stands stands isFor passes
    obtain ⟨frame, opened⟩ := inside_of_declared (n := n) declared within
    generalize declares : (if declared then some (Layout.sizeAll parts) else none) = length
      at spans frame opened
    have exact : ∀ len, length = some len → len = Layout.sizeAll parts := by
      rintro len rfl
      cases declared <;> cases declares
      rfl
    have content : Delivers (d.decodeDeclared (d.decodeOne rest) body.children
        (inside p n none before.cursor length)) (before.afterBytes 0)
        ((inside p n none before.cursor length).completeAll
          (Layout.values (order.getD inherited) before.cursor parts))
        (before.afterBytes (Layout.sizeAll parts)) := by
      rw [isFor.children, ← Nat.zero_add (Layout.sizeAll parts), ← Reading.afterBytes_add]
      apply decodeDeclared_restores room stand restore
      · omega
      · rfl
      · exact ⟨opened, present⟩
      · exact bytes
    exact decodeOne_structure (kind_of_stands stands) (order_of_stands stands isFor) spans frame
      content exact

/-- A schema for a layout restores it, in the byte order that its container passes on. -/
theorem restores_of_laysOut {l : Layout} (h : d.schema.LaysOut parent l)
    (room : 0 < d.options.maxRepeat) (passes : d.schema.Passes parent inherited) :
    d.Restores inherited l := by
  induction h generalizing inherited with
  | number found occurs isFor =>
    exact restores_number (Schema.stands_number found occurs isFor) isFor passes
  | @«structure» parent id order declared parts traits body found occurs isFor inner
      inductionHypothesis =>
    have stands : d.schema.Stands parent id ⟨traits, .structure body⟩ :=
      Schema.stands_structure found occurs isFor
    -- The byte order that the structure passes on is its own one, if it sets one.
    have below : d.schema.Passes (some id) (order.getD inherited) := by
      rw [← isFor.order]
      exact stands.passes passes
    exact restores_structure stands isFor passes room (fun l member => (inner l member).stands)
      fun l member => inductionHypothesis l member below

/-! ## Whole decodes -/

/-- Decoding undoes encoding. Where a schema has a layout and a source has its bytes at the cursor,
the decode succeeds with the tree of the layout and stops behind its bytes, whatever is in front of
them and behind them. -/
theorem decode_encode (d : Decoder σ) (l : Layout) (source : σ) (front back : List UInt8)
    (laysOut : d.schema.LaysOut none l) (deep : l.height ≤ d.options.maxDepth)
    (room : 1 ≤ d.options.maxRepeat)
    (bytes : SliceLike.slice source =
      ⟨(front ++ (l.encode .little ++ back)).toArray, front.length⟩)
    (addressable : (front ++ (l.encode .little ++ back)).length < positionLimit) :
    (d.decodeElement l.id source).result = .ok (l.value .little front.length, []) ∧
      (SliceLike.slice (d.decodeElement l.id source).source).cursor = front.length + l.size := by
  obtain ⟨e, stands⟩ := laysOut.stands
  obtain ⟨n, found, same⟩ := Schema.node?_of_get? stands.found
  have restored : d.Restores .little l := restores_of_laysOut laysOut room Schema.passes_top
  have length := Layout.length_encode .little l
  simp only [List.length_append] at addressable
  have data : (SliceLike.slice source).data = (front ++ (l.encode .little ++ back)).toArray :=
    congrArg Slice.data bytes
  have cursor : (SliceLike.slice source).cursor = front.length := congrArg Slice.cursor bytes
  have size : (SliceLike.slice source).data.size =
      front.length + ((l.encode .little).length + back.length) := by
    rw [data]
    simp
  have decoded : Delivers (d.decodeOne d.options.maxDepth
      (startPlace l.id (SliceLike.slice source).cursor (SliceLike.slice source).data.size) n)
      (SliceLike.reading source) (l.value .little (SliceLike.slice source).cursor)
      ((SliceLike.reading source).afterBytes l.size) := by
    apply restored same deep
    · constructor
      · show (SliceLike.slice source).cursor + l.size ≤ (SliceLike.slice source).data.size
        omega
      · show (SliceLike.slice source).cursor + l.size ≤ (SliceLike.slice source).data.size
        omega
    · show window (SliceLike.slice source).data (SliceLike.slice source).cursor l.size = _
      rw [data, cursor, ← length]
      exact window_middle front (l.encode .little) back
  have ended := decodeElement_delivers found (by omega) (by omega) decoded
  rw [cursor] at ended
  refine ⟨ended.1, ended.2.trans ?_⟩
  show (SliceLike.slice source).cursor + l.size = _
  rw [cursor]

/-! ## A nested layout -/

/-- A structure in big-endian order with two numbers, and between them a structure of declared
length with a number that is little-endian and an empty structure. -/
def nestedLayout : Layout :=
  .structure ⟨0⟩ (some .big) false [
    .number ⟨⟨1⟩, none, 2, by decide, 0x0102, by decide⟩,
    .structure ⟨2⟩ none true [
      .number ⟨⟨3⟩, some .little, 3, by decide, 0x030405, by decide⟩,
      .structure ⟨4⟩ none true []],
    .number ⟨⟨5⟩, none, 8, by decide, 0xFFFFFFFFFFFFFFFE, by decide⟩]

def nested : Decoder Slice where
  schema := nestedLayout.schema
  options := { maxDepth := 3, maxRepeat := 1 }

/-- The encoding of the layout between two bytes that are none of it. -/
def nestedBytes : Slice :=
  ⟨#[0xEE, 1, 2, 5, 4, 3, 255, 255, 255, 255, 255, 255, 255, 254, 0xEE], 1⟩

def nestedValue : Value :=
  ⟨⟨0⟩, 1, 13, none, .none,
    [numberValue ⟨1⟩ 1 2 .big 0x0102,
      ⟨⟨2⟩, 3, 3, none, .none,
        [numberValue ⟨3⟩ 3 3 .little 0x030405, ⟨⟨4⟩, 6, 0, none, .none, []⟩]⟩,
      numberValue ⟨5⟩ 6 8 .big 0xFFFFFFFFFFFFFFFE]⟩

theorem decode_encode_nested :
    nested.schema.LaysOut none nestedLayout ∧ nestedLayout.height ≤ 3 ∧
      nestedBytes = ⟨([0xEE] ++ (nestedLayout.encode .little ++ [0xEE])).toArray, 1⟩ ∧
      (nested.decodeElement ⟨0⟩ nestedBytes).result = .ok (nestedValue, []) ∧
      (nested.decodeElement ⟨0⟩ nestedBytes).source.cursor = 14 := by
  have laysOut : nested.schema.LaysOut none nestedLayout := nestedLayout.laysOut_schema (by decide)
  have bytes : nestedBytes = ⟨([0xEE] ++ (nestedLayout.encode .little ++ [0xEE])).toArray, 1⟩ := by
    decide
  exact ⟨laysOut, by decide, bytes, decode_encode nested nestedLayout nestedBytes [0xEE] [0xEE]
    laysOut (by decide) (by decide) bytes (by decide)⟩

end Decoder

end BinaryTemplate
