import BinaryTemplate.Proofs.Number

/-!
# The bits of the data as one stream

The bits of the data form one stream, in which the least significant bit of each byte comes first.
A reading stands at a position of this stream: eight bits for each byte before the cursor, less
those that are still unread. Reading `width` bits takes the next `width` bits of the stream, and
letting go of the unread bits rounds the position up to a whole byte.
-/

namespace BinaryTemplate

namespace Bits

/-- The bits of all the data. -/
def stream (data : Array UInt8) : List Bool := data.toList.flatMap ofByte

/-- So many bits of the data from a position on. -/
def slice (data : Array UInt8) (pos width : Nat) : List Bool := ((stream data).drop pos).take width

/-- The first byte that starts at a position of the stream or after it. -/
def byteAt (pos : Nat) : Nat := (pos + 7) / 8

@[simp] theorem length_ofByte (b : UInt8) : (ofByte b).length = 8 := by simp [ofByte]

theorem length_flatMap_ofByte (bytes : List UInt8) :
    (bytes.flatMap ofByte).length = 8 * bytes.length := by
  induction bytes with
  | nil => rfl
  | cons b bytes inductionHypothesis =>
    rw [List.flatMap_cons, List.length_append, length_ofByte, inductionHypothesis]
    simp only [List.length_cons]
    omega

@[simp] theorem length_stream (data : Array UInt8) : (stream data).length = 8 * data.size := by
  rw [stream, length_flatMap_ofByte, Array.length_toList]

theorem flatMap_drop (count : Nat) (bytes : List UInt8) :
    (bytes.drop count).flatMap ofByte = (bytes.flatMap ofByte).drop (8 * count) := by
  induction count generalizing bytes with
  | zero => rfl
  | succ count inductionHypothesis =>
    cases bytes with
    | nil => simp
    | cons b bytes =>
      have past : 8 * (count + 1) = (ofByte b).length + 8 * count := by
        rw [length_ofByte]
        omega
      rw [List.drop_succ_cons, inductionHypothesis, List.flatMap_cons, past,
        List.drop_length_add_append]

theorem flatMap_take (count : Nat) (bytes : List UInt8) :
    (bytes.take count).flatMap ofByte = (bytes.flatMap ofByte).take (8 * count) := by
  induction count generalizing bytes with
  | zero => rfl
  | succ count inductionHypothesis =>
    cases bytes with
    | nil => simp
    | cons b bytes =>
      have past : 8 * (count + 1) = (ofByte b).length + 8 * count := by
        rw [length_ofByte]
        omega
      rw [List.take_succ_cons, List.flatMap_cons, inductionHypothesis, List.flatMap_cons, past,
        List.take_length_add_append]

/-- The bits of whole bytes are a slice of the stream. -/
theorem flatMap_window (data : Array UInt8) (start count : Nat) :
    (window data start count).flatMap ofByte = slice data (8 * start) (8 * count) := by
  have bytes : window data start count = (data.toList.drop start).take count := by
    simp [window, List.take_drop]
  rw [bytes, flatMap_take, flatMap_drop]
  rfl

theorem slice_append (data : Array UInt8) (pos first more : Nat) :
    slice data pos first ++ slice data (pos + first) more = slice data pos (first + more) := by
  simp only [slice]
  rw [List.take_add, List.drop_drop]

theorem take_slice {data : Array UInt8} {pos width more : Nat} (fits : width ≤ more) :
    (slice data pos more).take width = slice data pos width := by
  simp only [slice]
  rw [List.take_take, Nat.min_eq_left fits]

theorem drop_slice {data : Array UInt8} {pos width more : Nat} :
    (slice data pos more).drop width = slice data (pos + width) (more - width) := by
  simp only [slice]
  rw [List.drop_take, List.drop_drop]

theorem length_slice {data : Array UInt8} {pos width : Nat} (inside : pos + width ≤ 8 * data.size) :
    (slice data pos width).length = width := by
  simp only [slice, List.length_take, List.length_drop, length_stream]
  omega

end Bits

namespace Reading

open Bits (byteAt slice)

/-- The reading stands at a position of the stream: fewer than eight bits are unread, and they are
the next ones of the stream. -/
structure At (r : Reading) (pos : Nat) : Prop where
  position : 8 * r.cursor = pos + r.pending.length
  partly : r.pending.length < 8
  unread : r.pending = slice r.data pos r.pending.length

variable {r : Reading} {pos : Nat}

theorem At.cursor (h : r.At pos) : r.cursor = byteAt pos := by
  have position := h.position
  have partly := h.partly
  unfold byteAt
  omega

/-- A reading with no bits unread stands at its cursor. -/
theorem at_of_aligned (aligned : r.pending = []) : r.At (8 * r.cursor) := by
  refine ⟨by simp [aligned], by simp [aligned], ?_⟩
  rw [aligned]
  simp [slice]

theorem At.afterBytes (h : r.At pos) (len : Nat) :
    (r.afterBytes len).At (8 * (byteAt pos + len)) := by
  rw [← h.cursor]
  exact at_of_aligned rfl

theorem At.nextBit (h : r.At pos) : Decoder.nextBit r.cursor r.pending.length = pos := by
  have position := h.position
  have partly := h.partly
  unfold Decoder.nextBit
  by_cases none : r.pending.length = 0
  · rw [if_pos none]
    omega
  · rw [if_neg none]
    omega

/-- The unread bits are present in the data. -/
theorem At.present (h : r.At pos) (some : 0 < r.pending.length) :
    pos + r.pending.length ≤ 8 * r.data.size := by
  have length := congrArg List.length h.unread
  simp only [slice, List.length_take, List.length_drop, Bits.length_stream] at length
  omega

theorem At.upcoming (h : r.At pos) (width : Nat) :
    r.upcoming width = slice r.data pos (r.pending.length + 8 * r.bytesFor width) := by
  unfold Reading.upcoming
  rw [Bits.flatMap_window, h.position, ← Bits.slice_append, ← h.unread]

/-- The next bits of the reading are those of the stream, and behind them the reading stands so
many bits further. -/
theorem At.afterBits (h : r.At pos) {limit width : Nat} (some : 0 < width)
    (holds : 0 < r.bytesFor width → r.Holds limit (r.bytesFor width)) :
    (r.upcoming width).take width = slice r.data pos width ∧
      (r.afterBits width).At (pos + width) ∧ pos + width ≤ 8 * r.data.size := by
  have position := h.position
  have partly := h.partly
  have upcoming := h.upcoming width
  -- As many bytes are read as are needed, so fewer than eight bits are left.
  have needed : width ≤ r.pending.length + 8 * r.bytesFor width ∧
      r.pending.length + 8 * r.bytesFor width < width + 8 := by
    unfold bytesFor
    omega
  -- Either a byte was read, which is in the data, or some bits were unread, which were.
  have present : pos + (r.pending.length + 8 * r.bytesFor width) ≤ 8 * r.data.size := by
    by_cases further : 0 < r.bytesFor width
    · have inside := (holds further).2
      omega
    · have unread := h.present (by omega)
      omega
  have rest : (r.afterBits width).pending =
      slice r.data (pos + width) (r.pending.length + 8 * r.bytesFor width - width) := by
    unfold Reading.afterBits
    rw [upcoming, Bits.drop_slice]
  have left : (r.afterBits width).pending.length =
      r.pending.length + 8 * r.bytesFor width - width := by
    rw [rest]
    exact Bits.length_slice (by omega)
  refine ⟨?_, ⟨?_, ?_, ?_⟩, by omega⟩
  · rw [upcoming, Bits.take_slice needed.1]
  · rw [left]
    simp only [Reading.afterBits]
    omega
  · omega
  · rw [left]
    exact rest

end Reading

end BinaryTemplate
