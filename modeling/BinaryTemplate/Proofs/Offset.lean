import BinaryTemplate.Decode.Offset
import BinaryTemplate.Proofs.Number
import BinaryTemplate.Proofs.Targets

/-!
# What offsets take

An offset takes its pointer as a number takes its pattern. What it references is decoded at the
target with no bits unread, in a frame that ends within the file, and afterwards the cursor and the
unread bits are those behind the pointer again.
-/

namespace BinaryTemplate.Decoder

open DecodeM

variable {σ : Type} {d : Decoder σ} {p : Place} {n : Node d.schema} {offset : Nat}
  {st st' : DecodeState σ}

/-! ## Side trees -/

variable [ByteSource σ] [SliceLike σ] {child : d.DecodeChild}

/-- What an offset references, from the reading behind its pointer: nothing, or an instance decoded
at the target, after which the cursor and the unread bits are put back. -/
inductive Referenced (child : d.DecodeChild) (p : Place) (before : Reading) :
    Option Nat → Option Value → Reading → Prop
  | nothing {target : Option Nat} : Referenced child p before target none before
  | side {target stop : Nat} {element : ElementId} {referenced : Node d.schema} {v : Value}
      {st st' : DecodeState σ} (position : target < positionLimit) (within : stop ≤ p.dataStop)
      (start : st.reading = ⟨before.data, target, []⟩)
      (decoded : Returns (child (sidePlace p element target stop) referenced) st v st') :
      Referenced child p before (some target) (some v)
        ⟨st'.reading.data, before.cursor, before.pending⟩

/-- The cursor is put back behind the pointer, whatever is decoded at the target. -/
theorem Referenced.cursor {before after : Reading} {target : Option Nat} {side : Option Value}
    (h : Referenced child p before target side after) : after.cursor = before.cursor := by
  cases h with
  | nothing => rfl
  | side => rfl

theorem Followed.referenced {target : Nat} {element : ElementId} {v : Value}
    (h : Followed child p n offset target element st v st') (position : target < positionLimit) :
    Referenced child p st.reading (some target) (some v) st'.reading := by
  cases h with
  | @mk referenced _ stop resume told moved ended _ _ _ _ _ region tells seeks decoded returns =>
    obtain ⟨rfl, same⟩ := tellAt_returns tells
    -- The side tree starts from the bytes of the pointer, at the target, with no bits unread.
    have there : moved.reading = { st.reading with cursor := target } := by
      rw [seek_returns seeks, DecodeState.reading_events, same]
    have here := seek_returns returns
    have pending : moved.pending = st.pending := congrArg Reading.pending there
    rw [here, pending]
    change Referenced child p st.reading _ _
      ⟨ended.reading.data, st.reading.cursor, st.reading.pending⟩
    refine .side position region.within ?_ decoded
    change Reading.mk moved.reading.data moved.reading.cursor [] = _
    rw [there]

theorem Dereferenced.referenced {target : Option Nat} {side : Option Value}
    (h : Dereferenced child p n offset st target side st')
    (positions : ∀ address, target = some address → address < positionLimit) :
    Referenced child p st.reading target side st'.reading := by
  cases h with
  | nowhere => exact .nothing
  | unreferenced => exact .nothing
  | side _ followed => exact followed.referenced (positions _ rfl)

/-- How an offset decodes: its pointer is read, and what it references is decoded. -/
inductive OffsetDecoded (child : d.DecodeChild) (p : Place) (n : Node d.schema)
    (before : Reading) : Value → Reading → Prop
  | read {order : ByteOrder} {unit : LengthUnit} {width : Nat} {r : RawNumber}
      {behind after : Reading} {target : Option Nat} {side : Option Value}
      (ordered : n.byteOrder = .ok order)
      (wide : d.HasWidth p n unit width) (raw : RawRead p.limit order width before unit r behind)
      (references : Referenced child p behind target side after) :
      OffsetDecoded child p n before
        ⟨n.id, r.offset, r.len, some order, .offset (UInt64.ofNat r.raw) target side, []⟩ after

theorem decodeOffset_returns {v : Value} (h : Returns (d.decodeOffset child p n) st v st') :
    OffsetDecoded child p n st.reading v st'.reading := by
  obtain ⟨start, told, order, r, read, target, side, tells, ordered, reads, targets, leads, rfl⟩ :=
    decodeOffset_steps h
  obtain ⟨-, same⟩ := tell_returns tells
  obtain ⟨unit, width, wide, raw⟩ := readRaw_returns reads
  rw [same] at raw
  refine .read ordered wide raw (leads.referenced ?_)
  rintro address rfl
  exact targets.position

end BinaryTemplate.Decoder
