import Mathlib
import BinaryTemplate.Proofs.Container
import BinaryTemplate.Proofs.Independence
import BinaryTemplate.Proofs.ValidTrees

/-!
# Value trees tile their bytes

A decoded value starts at the cursor and ends where the cursor is afterwards, and so do the values
inside it and inside its side trees, at any depth: the children of a container tile it from its
first to its last byte. Such a tree passes its validation, so whether a decode validates its tree
makes no difference.
-/

namespace BinaryTemplate

namespace Value

/-! ## Trees -/

/-- A value is what its element makes: the element exists, the value ends at a position, only
containers have children, and these tile the value, which takes no byte if there are none. -/
structure Tiled (s : Schema) (v : Value) : Prop where
  known : (s.get? v.element).isSome = true
  fits : v.offset + v.len < positionLimit
  container : v.children ≠ [] → ∃ e, s.get? v.element = some e ∧ e.kind.producesChildren = true
  tiles : v.children ≠ [] → Tiles v.offset v.children (v.offset + v.len)
  empty : ∀ e, s.get? v.element = some e → e.kind.producesChildren = true → v.children = [] →
    v.len = 0

theorem Tiled.of_leaf {s : Schema} {v : Value} (n : Node s) (element : v.element = n.id)
    (childless : n.kind.producesChildren = false) (none : v.children = [])
    (fits : v.offset + v.len < positionLimit) : Tiled s v := by
  have found : s.get? v.element = some n.element := element ▸ n.found
  refine ⟨by simp [found], fits, absurd none, absurd none, ?_⟩
  intro e known produces
  obtain rfl : n.element = e := Option.some.inj (found.symm.trans known)
  exact absurd (produces.symm.trans childless) (by decide)

theorem Tiled.of_container {s : Schema} {v : Value} (n : Node s) (element : v.element = n.id)
    (produces : n.kind.producesChildren = true)
    (tiles : Tiles v.offset v.children (v.offset + v.len))
    (fits : v.offset + v.len < positionLimit) : Tiled s v := by
  have found : s.get? v.element = some n.element := element ▸ n.found
  refine ⟨by simp [found], fits, fun _ => ⟨_, found, produces⟩, fun _ => tiles, ?_⟩
  intro _ _ _ none
  rw [none] at tiles
  -- Tiled by nothing, the container ends where it starts.
  have ends : v.offset = v.offset + v.len := tiles
  omega

theorem Tiled.sound {s : Schema} {v : Value} (tiled : Tiled s v) : Sound s v where
  known := tiled.known
  fits := tiled.fits
  container some := (tiled.container some).imp fun _ ⟨found, produces⟩ =>
    ⟨found, Kind.producesChildren_iff.mp produces⟩
  tiles := tiled.tiles

/-- Every value of a tree is as its element makes it. -/
def AllTiled (s : Schema) (v : Value) : Prop := ∀ w, Within w v → Tiled s w

/-- A tree whose values are all as their elements make them is valid. -/
theorem validate_of_tiled {s : Schema} (v : Value) (tiled : v.AllTiled s) :
    v.validate s = .ok () :=
  (validate_eq_ok_iff v).mpr fun w within => (tiled w within).sound

end Value

namespace Decoder

open DecodeM

variable {σ : Type} [ByteSource σ] [SliceLike σ] {d : Decoder σ} {child : d.DecodeChild}
  {p : Place} {n : Node d.schema} {st st' : DecodeState σ}

/-- A value starts at one cursor and ends at another, and everything in its tree is as its element
makes it. -/
structure Placed (s : Schema) (start : Nat) (v : Value) (stop : Nat) : Prop where
  offset : v.offset = start
  stop : stop = v.offset + v.len
  tiled : v.AllTiled s

theorem Placed.valid {s : Schema} {start stop : Nat} {v : Value} (h : Placed s start v stop) :
    v.validate s = .ok () :=
  v.validate_of_tiled h.tiled

/-- Every value that an element decodes to is placed where the cursor was and ends where it is
afterwards, as long as the file and the frame end at positions. -/
def PlacesAll (child : d.DecodeChild) : Prop :=
  ∀ {p : Place} {n : Node d.schema} {st : DecodeState σ} {v : Value} {st' : DecodeState σ},
    p.limit < positionLimit → p.dataStop < positionLimit → st.reading.cursor < positionLimit →
    Returns (child p n) st v st' → Placed d.schema st.reading.cursor v st'.reading.cursor

/-! ## Fields -/

omit [ByteSource σ] [SliceLike σ] in
/-- A value without children is placed, if its side tree is as its elements make it. -/
theorem placed_of_leaf {v : Value} {start : Nat} (element : v.element = n.id)
    (childless : n.kind.producesChildren = false) (none : v.children = [])
    (offset : v.offset = start) (fits : v.offset + v.len < positionLimit)
    (side : ∀ c, v.referenced? = some c → c.AllTiled d.schema) :
    Placed d.schema start v (start + v.len) := by
  refine ⟨offset, by rw [offset], ?_⟩
  intro w within
  cases within with
  | self => exact .of_leaf n element childless none fits
  | child member _ =>
    rw [none] at member
    cases member
  | side referenced within => exact side _ referenced w within

omit [ByteSource σ] [SliceLike σ] in
theorem RawRead.moves {limit width : Nat} {order : ByteOrder} {unit : LengthUnit}
    {before after : Reading} {r : RawNumber} (h : RawRead limit order width before unit r after) :
    r.offset = before.cursor ∧ after.cursor = before.cursor + r.len ∧
      (0 < r.len → before.cursor + r.len ≤ limit) := by
  cases h with
  | bits holds => exact ⟨rfl, rfl, fun some => (holds some).1⟩
  | bytes holds => exact ⟨rfl, rfl, fun _ => holds.1⟩

omit [ByteSource σ] [SliceLike σ] in
theorem NumberDecoded.placed {body : NumberBody} {v : Value} {before after : Reading}
    (h : NumberDecoded d p n before v after) (kind : n.kind = .number body)
    (limit : p.limit < positionLimit) (start : before.cursor < positionLimit) :
    Placed d.schema before.cursor v after.cursor := by
  have childless : n.kind.producesChildren = false := by rw [kind]; rfl
  cases h with
  | read _ _ _ _ raw _ =>
    obtain ⟨offset, moved, within⟩ := raw.moves
    rw [moved]
    exact placed_of_leaf rfl childless rfl offset (by dsimp only; omega) nofun
  | computed => exact placed_of_leaf rfl childless rfl rfl start nofun
  | skipped _ _ within =>
    exact placed_of_leaf rfl childless rfl rfl (by dsimp only; omega) nofun

omit [ByteSource σ] [SliceLike σ] in
theorem WholeDecoded.placed {v : Value} {before after : Reading}
    (h : WholeDecoded d p n before v after) (childless : n.kind.producesChildren = false)
    (limit : p.limit < positionLimit) (start : before.cursor < positionLimit) :
    Placed d.schema before.cursor v after.cursor := by
  have within := h.within
  have offset := h.offset
  rw [h.cursor]
  refine placed_of_leaf h.element childless h.children h.offset (by omega) ?_
  intro c referenced
  exact absurd (h.side.symm.trans referenced) nofun

theorem OffsetDecoded.placed {body : OffsetBody} {v : Value} {before after : Reading}
    (h : OffsetDecoded child p n before v after) (places : PlacesAll child)
    (kind : n.kind = .offset body) (limit : p.limit < positionLimit)
    (dataStop : p.dataStop < positionLimit) (start : before.cursor < positionLimit) :
    Placed d.schema before.cursor v after.cursor := by
  have childless : n.kind.producesChildren = false := by rw [kind]; rfl
  cases h with
  | read _ _ raw references =>
    obtain ⟨offset, moved, within⟩ := raw.moves
    rw [references.cursor, moved]
    refine placed_of_leaf rfl childless rfl offset (by dsimp only; omega) ?_
    intro c referenced
    cases references with
    | nothing => cases referenced
    | side position region begins decoded =>
      cases referenced
      -- The region ends within the file, which bounds the side tree as the frame bounds the rest.
      refine (places ?_ ?_ ?_ decoded).tiled
      · exact Nat.lt_of_le_of_lt region dataStop
      · exact dataStop
      · rw [begins]
        exact position

/-! ## Containers -/

/-- Values that fill a container follow one another from the cursor to where it is afterwards. -/
theorem Fills.tiles {vs : List Value} (h : Fills child p st vs st') (places : PlacesAll child)
    (limit : p.limit < positionLimit) (dataStop : p.dataStop < positionLimit)
    (start : st.reading.cursor < positionLimit) :
    Value.Tiles st.reading.cursor vs st'.reading.cursor ∧
      st.reading.cursor ≤ st'.reading.cursor ∧ st'.reading.cursor < positionLimit ∧
      ∀ v ∈ vs, v.AllTiled d.schema := by
  induction h with
  | nil resumes =>
    rw [resumes.reading]
    exact ⟨rfl, Nat.le_refl _, start, nofun⟩
  | rejected attempt _ inductionHypothesis =>
    cases attempt with
    | mk _ _ _ rewound =>
      -- A rejected attempt takes no place in the container.
      have back := congrArg Reading.cursor rewound.reading
      dsimp only at back
      rw [back] at inductionHypothesis
      exact inductionHypothesis limit dataStop start
  | took attempt _ inductionHypothesis =>
    cases attempt with
    | mk resumes decoded =>
      have begins := congrArg Reading.cursor resumes.reading
      have placed := places limit dataStop (begins ▸ start) decoded
      have fits := (placed.tiled _ .self).fits
      obtain ⟨tiles, forward, inRange, tiled⟩ :=
        inductionHypothesis limit dataStop (placed.stop ▸ fits)
      rw [placed.stop] at tiles forward
      refine ⟨⟨placed.offset.trans begins, tiles⟩, ?_, inRange, ?_⟩
      · have offset := placed.offset
        omega
      · intro v member
        cases member with
        | head => exact placed.tiled
        | tail _ member => exact tiled v member

theorem ContainerDecoded.placed {definition : Option ElementId} {ids : List ElementId}
    {order : ChildOrder} {declared : Option Nat} {v : Value} {before after : Reading}
    (h : ContainerDecoded child p n definition ids order declared before v after)
    (places : PlacesAll child) (produces : n.kind.producesChildren = true)
    (limit : p.limit < positionLimit) (dataStop : p.dataStop < positionLimit)
    (start : before.cursor < positionLimit) : Placed d.schema before.cursor v after.cursor := by
  cases h with
  | mk within opens content _ =>
    have begins := congrArg Reading.cursor opens
    change _ = before.cursor at begins
    -- The inner frame ends within the outer one, so no position inside is out of range.
    obtain ⟨tiles, forward, inRange, tiled⟩ := content.fills.tiles places
      (Nat.lt_of_le_of_lt within limit) dataStop (begins ▸ start)
    rw [begins] at tiles forward
    refine ⟨rfl, ?_, ?_⟩
    · dsimp only [Reading.afterBytes]
      omega
    intro w within
    cases within with
    | self =>
      refine .of_container n rfl produces ?_ ?_
      · dsimp only
        rw [Nat.add_sub_of_le forward]
        exact tiles
      · dsimp only
        omega
    | child member within => exact tiled _ member w within
    | side referenced _ => cases referenced

/-! ## Decodes -/

theorem KindDecoded.placed {v : Value} (h : KindDecoded child p n st v st')
    (places : PlacesAll child) (limit : p.limit < positionLimit)
    (dataStop : p.dataStop < positionLimit) (start : st.reading.cursor < positionLimit) :
    Placed d.schema st.reading.cursor v st'.reading.cursor := by
  cases h with
  | number kind decoded => exact decoded.placed kind limit start
  | whole bytes decoded => exact decoded.placed bytes.childless limit start
  | offset kind decoded => exact decoded.placed places kind limit dataStop start
  | disabled kind _ still =>
    rw [still]
    exact placed_of_leaf rfl (by rw [kind]; rfl) rfl rfl start nofun
  | grammar _ _ _ _ _ resumes decoded =>
    have begins := congrArg Reading.cursor resumes.reading
    rw [← begins] at start ⊢
    exact places limit dataStop start decoded
  | container contains decoded =>
    exact decoded.placed places contains.producesChildren limit dataStop start

theorem decodeOne_places (depth : Nat) : PlacesAll (d.decodeOne depth) := by
  intro p n st v st' limit dataStop start h
  revert limit dataStop start
  refine decodeOne_induction (fun inner resumes decoded limit dataStop start => ?_) h
  rw [← resumes.reading] at start ⊢
  refine decoded.placed ?_ limit dataStop start
  intro p n st v st' limit dataStop start h
  exact inner h limit dataStop start

omit [ByteSource σ] [SliceLike σ] in
theorem checkTree_of_valid {v : Value} (valid : v.validate d.schema = .ok ()) :
    (d.checkTree n v : DecodeM σ Unit) = pure () := by
  unfold checkTree
  rw [valid]
  cases d.options.validate <;> rfl

/-- A decode ends in the same way whether it validates its tree or not, and never with a fault of
the tree. -/
theorem decodeWhole_alike (b : Bool) (element : ElementId)
    (size : st.reading.data.size < positionLimit) (start : st.reading.cursor < positionLimit) :
    EndAlike ⟨Eq, True⟩ ((d.decodeWhole element).ending st)
      (((d.validating b).decodeWhole element).ending st) := by
  have keeps := d.respects_eq True
  refine EndAlike.bind (node_agrees element _ _ (.refl st)) fun n begun begun' found alike => ?_
  refine EndAlike.bind (tell_agrees keeps _ _ alike) fun position told told' tells alike => ?_
  refine EndAlike.bind (Agree.onSource keeps.size _ _ alike) fun dataStop sized sized' sizes alike
    => ?_
  obtain ⟨-, rfl⟩ := node_returns.mp found
  obtain ⟨rfl, same⟩ := tell_returns tells
  obtain ⟨rfl, still⟩ := size_returns sizes
  rw [← same] at size start
  refine EndAlike.bind (decodeOne_agrees keeps _ _ n _ _ alike) fun v after after' decoded alike
    => ?_
  -- Both decoders have the same tree here, and only one of them may look at it.
  have valid : v.validate d.schema = .ok () := by
    refine (decodeOne_places _ ?_ ?_ ?_ decoded).valid
    · exact size
    · exact size
    · rw [still]
      exact start
  rw [checkTree_of_valid valid, checkTree_of_valid (d := d.validating b) valid]
  exact .returned alike

/-- What decodes starts at the cursor, ends where the cursor is afterwards, and is valid: every
container in it and in its side trees is tiled by its children. So no decode fails with a fault of
its tree, and whether trees are validated makes no difference to any report. -/
theorem decode_tiles (d : Decoder σ) :
    (∀ (depth : Nat) (p : Place) (n : Node d.schema) (st : DecodeState σ) (v : Value)
      (st' : DecodeState σ), p.limit < positionLimit → p.dataStop < positionLimit →
      st.reading.cursor < positionLimit → Returns (d.decodeOne depth p n) st v st' →
      Placed d.schema st.reading.cursor v st'.reading.cursor ∧ v.validate d.schema = .ok ()) ∧
    ∀ (element : ElementId) (source : σ), (SliceLike.slice source).data.size < positionLimit →
      (SliceLike.slice source).cursor < positionLimit →
      (∀ v warnings, (d.decodeElement element source).result = .ok (v, warnings) →
        Placed d.schema (SliceLike.slice source).cursor v
          (SliceLike.slice (d.decodeElement element source).source).cursor ∧
        v.validate d.schema = .ok ()) ∧
      (∀ e, (d.decodeElement element source).result = .error e → ¬ e.failure.IsFault) ∧
      ∀ b, (d.validating b).decodeElement element source = d.decodeElement element source := by
  constructor
  · intro depth p n st v st' limit dataStop start h
    have placed := decodeOne_places depth limit dataStop start h
    exact ⟨placed, placed.valid⟩
  · intro element source size start
    -- Compared with itself validating, a decode shows that its errors are no faults.
    have alike : ∀ b, EndAlike ⟨Eq, True⟩ ((d.decodeWhole element).ending { source := source })
        (((d.validating b).decodeWhole element).ending { source := source }) :=
      fun b => decodeWhole_alike b element size start
    refine ⟨?_, ?_, ?_⟩
    · intro v warnings ok
      obtain ⟨n, begun, after, -, same, decoded, reached⟩ := decodeElement_returns ok
      have cursor : begun.reading.cursor = (SliceLike.slice source).cursor :=
        congrArg Reading.cursor same
      have placed : Placed d.schema begun.reading.cursor v after.reading.cursor := by
        refine decodeOne_places _ ?_ ?_ ?_ decoded
        · exact size
        · exact size
        · rw [cursor]
          exact start
      rw [cursor, ← reached] at placed
      exact ⟨placed, placed.valid⟩
    · intro e failed
      rw [decodeElement_eq] at failed
      have ends := alike true
      generalize (d.decodeWhole element).ending { source := source } = ending at failed ends
      generalize ((d.validating true).decodeWhole element).ending { source := source } = other
        at ends
      cases ends with
      | returned => cases failed
      | threw _ sound =>
        cases failed
        exact sound
    · intro b
      rw [decodeElement_eq, decodeElement_eq, (alike b).eq]

/-! ## A tree with a side tree -/

/-- A structure of a pointer and four bits, where the pointer references those bits. -/
def pointing : Decoder Slice where
  schema :=
    { elements := #[
        ⟨{}, .structure { children := [⟨1⟩, ⟨2⟩] }⟩,
        ⟨{}, .offset { extent := { length := some (.literal 1) }, references := some ⟨2⟩ }⟩,
        ⟨{}, .number { extent := { length := some (.literal 4), unit := some .bit } }⟩]
      root := ⟨0⟩ }
  options := { maxDepth := 3, maxRepeat := 2 }

/-- What it decodes to where the pointer is one: the bits are in the tree and in the side tree. -/
def pointed : Value :=
  let bits : Value := ⟨⟨2⟩, 1, 1, some .little, .number (.unsigned 5) none [] (some ⟨8, 4⟩), []⟩
  ⟨⟨0⟩, 0, 2, none, .none,
    [⟨⟨1⟩, 0, 1, some .little, .offset 1 (some 1) (some bits), []⟩, bits]⟩

def pointingRoot : Node pointing.schema := ⟨⟨0⟩, _, rfl⟩

def pointingBytes : Slice := ⟨#[1, 0x25], 0⟩

set_option maxRecDepth 8000 in
theorem decode_tiles_pointing :
    (∃ st', Returns (pointing.decodeOne 3 (startPlace ⟨0⟩ 0 2) pointingRoot)
        { source := pointingBytes } pointed st' ∧
      Placed pointing.schema 0 pointed st'.reading.cursor ∧
      pointed.validate pointing.schema = .ok ()) ∧
    (pointing.decodeElement ⟨0⟩ pointingBytes).result = .ok (pointed, []) ∧
      Placed pointing.schema 0 pointed
        (pointing.decodeElement ⟨0⟩ pointingBytes).source.cursor := by
  constructor
  · have returned : Returns (pointing.decodeOne 3 (startPlace ⟨0⟩ 0 2) pointingRoot)
        { source := pointingBytes } pointed _ := Prod.ext (by cbv) rfl
    refine ⟨_, returned, ?_⟩
    exact (decode_tiles pointing).1 3 _ _ _ _ _ (by decide) (by decide) (by decide) returned
  · have decodes : (pointing.decodeElement ⟨0⟩ pointingBytes).result = .ok (pointed, []) := by
      cbv
    refine ⟨decodes, ?_⟩
    have small := (decode_tiles pointing).2 ⟨0⟩ pointingBytes (by decide) (by decide)
    exact (small.1 pointed [] decodes).1

end Decoder

end BinaryTemplate
