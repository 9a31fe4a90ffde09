import BinaryTemplate.Proofs.Outcome
import BinaryTemplate.Source.Slice

/-!
# Reading bytes in memory

A source behaves like bytes in memory if there is a slice behind it and every operation answers
and moves the cursor as that of the slice does; what else it keeps to itself does not matter. Of
such a source and the unread bits beside it, all that later steps of a decode depend on is a
`Reading`. Each operation is described by what it does to the reading.
-/

namespace BinaryTemplate

/-- A source that behaves like the bytes in memory that `slice` finds behind it. -/
class SliceLike (σ : Type) [ByteSource σ] where
  slice : σ → Slice
  seek_slice : ∀ target source,
    Prod.map id slice ((ByteSource.seek target : SourceM σ Nat) source) =
      ByteSource.seek target (slice source)
  tell_slice : ∀ source,
    Prod.map id slice ((ByteSource.tell : SourceM σ Nat) source) = ByteSource.tell (slice source)
  size_slice : ∀ source,
    Prod.map id slice ((ByteSource.size : SourceM σ Nat) source) = ByteSource.size (slice source)
  readExact_slice : ∀ count source,
    Prod.map id slice ((ByteSource.readExact count : SourceM σ (List UInt8)) source) =
      ByteSource.readExact count (slice source)

instance : SliceLike Slice where
  slice := id
  seek_slice _ _ := rfl
  tell_slice _ := rfl
  size_slice _ := rfl
  readExact_slice _ _ := rfl

/-- What later steps of a decode read from its state: the bytes, the cursor and the bits of the
byte before the cursor that are still unread. -/
structure Reading where
  data : Array UInt8
  cursor : Nat
  pending : List Bool

variable {σ : Type} [ByteSource σ] [SliceLike σ]

/-- The reading of a source at which no bits are unread. -/
def SliceLike.reading (source : σ) : Reading :=
  ⟨(slice source).data, (slice source).cursor, []⟩

namespace DecodeState

def reading (st : DecodeState σ) : Reading :=
  { SliceLike.reading st.source with pending := st.pending }

@[simp] theorem reading_events {st : DecodeState σ} {events : List Event} :
    reading { st with events := events } = st.reading := rfl

@[simp] theorem reading_warnings {st : DecodeState σ} {warnings : List DecodeError} :
    reading { st with warnings := warnings } = st.reading := rfl

@[simp] theorem reading_setPending {st : DecodeState σ} {pending : List Bool} :
    reading { st with pending := pending } = { st.reading with pending := pending } := rfl

@[simp] theorem reading_rewind {st : DecodeState σ} {pending : List Bool}
    {warnings : List DecodeError} :
    reading { st with pending := pending, warnings := warnings } =
      { st.reading with pending := pending } := rfl

@[simp] theorem pending_reading {st : DecodeState σ} : st.reading.pending = st.pending := rfl

/-- A slice is its bytes and its cursor, and a reading has both. -/
theorem slice_eq_of_reading {st st' : DecodeState σ} (same : st.reading = st'.reading) :
    SliceLike.slice st.source = SliceLike.slice st'.source := by
  have data := congrArg Reading.data same
  have cursor := congrArg Reading.cursor same
  change (SliceLike.slice st.source).data = (SliceLike.slice st'.source).data at data
  change (SliceLike.slice st.source).cursor = (SliceLike.slice st'.source).cursor at cursor
  generalize SliceLike.slice st.source = left at data cursor ⊢
  generalize SliceLike.slice st'.source = right at data cursor ⊢
  cases left
  cases right
  cases data
  cases cursor
  rfl

end DecodeState

namespace SliceLike

/-- An operation of the source ends as that of the slice behind it. -/
theorem slice_of_operation {α : Type} {operation : SourceM σ α} {ofSlice : SourceM Slice α}
    {source after : σ} {outcome : Except InputError α}
    (behaves : Prod.map id slice (operation source) = ofSlice (slice source))
    (ended : operation source = (outcome, after)) :
    ofSlice (slice source) = (outcome, slice after) := by
  rw [← behaves, ended]
  rfl

/-- An operation that does not change the bytes of the slice does not change those of the source. -/
theorem data_kept {α : Type} {operation : SourceM σ α} {ofSlice : SourceM Slice α}
    (behaves : ∀ source, Prod.map id slice (operation source) = ofSlice (slice source))
    (keeps : ∀ s, (ofSlice s).2.data = s.data) (source : σ) :
    (slice (operation source).2).data = (slice source).data := by
  have same := congrArg (fun ending => ending.2.data) (behaves source)
  exact same.trans (keeps (slice source))

end SliceLike

/-! ## The operations of a slice -/

namespace Slice

theorem tell_ok {s after : Slice} {position : Nat}
    (h : (ByteSource.tell : SourceM Slice Nat) s = (.ok position, after)) :
    position = s.cursor ∧ after = s := by
  cases h
  exact ⟨rfl, rfl⟩

theorem size_ok {s after : Slice} {size : Nat}
    (h : (ByteSource.size : SourceM Slice Nat) s = (.ok size, after)) :
    size = s.data.size ∧ after = s := by
  cases h
  exact ⟨rfl, rfl⟩

theorem seek_start_ok {s after : Slice} {position reached : Nat}
    (h : (ByteSource.seek (.start position) : SourceM Slice Nat) s = (.ok reached, after)) :
    after = { s with cursor := position } := by
  cases h
  rfl

theorem readExact_apply (s : Slice) (count : Nat) :
    (ByteSource.readExact count : SourceM Slice (List UInt8)) s =
      (match s.bytesAt count s.cursor with
        | .ok bytes => do
          set { s with cursor := s.cursor + count }
          return bytes
        | .error e => do
          set { s with cursor := max s.cursor s.data.size }
          throw e : SourceM Slice (List UInt8)) s :=
  rfl

theorem readExact_ok {s after : Slice} {count : Nat} {bytes : List UInt8}
    (h : (ByteSource.readExact count : SourceM Slice (List UInt8)) s = (.ok bytes, after)) :
    s.cursor + count ≤ s.data.size ∧ bytes = window s.data s.cursor count ∧
      after = { s with cursor := s.cursor + count } := by
  rw [readExact_apply, bytesAt] at h
  -- A read that comes up short moves the cursor and fails; only the other one returns.
  by_cases short : s.data.size < s.cursor + count
  · rw [if_pos short] at h
    cases h
  · rw [if_neg short] at h
    cases h
    exact ⟨by omega, rfl, rfl⟩

/-- Bytes in memory only fail by being too few. -/
theorem readExact_error {s after : Slice} {count : Nat} {cause : InputError}
    (h : (ByteSource.readExact count : SourceM Slice (List UInt8)) s = (.error cause, after)) :
    s.data.size < s.cursor + count ∧ ∃ got, cause = .shortRead s.cursor count got := by
  rw [readExact_apply, bytesAt] at h
  by_cases short : s.data.size < s.cursor + count
  · rw [if_pos short] at h
    cases h
    exact ⟨short, _, rfl⟩
  · rw [if_neg short] at h
    cases h

theorem seek_apply (s : Slice) (target : SeekTarget) :
    (ByteSource.seek target : SourceM Slice Nat) s =
      (match target.resolve? s.cursor s.data.size with
        | some position => do
          set { s with cursor := position }
          return position
        | none => throw (.device .invalidSeek) : SourceM Slice Nat) s :=
  rfl

theorem data_seek (s : Slice) (target : SeekTarget) :
    ((ByteSource.seek target : SourceM Slice Nat) s).2.data = s.data := by
  rw [seek_apply]
  cases target.resolve? s.cursor s.data.size <;> rfl

theorem data_readExact (s : Slice) (count : Nat) :
    ((ByteSource.readExact count : SourceM Slice (List UInt8)) s).2.data = s.data := by
  rw [readExact_apply, bytesAt]
  by_cases short : s.data.size < s.cursor + count
  · rw [if_pos short]
    rfl
  · rw [if_neg short]
    rfl

end Slice

/-! ## The operations of a decode on its source -/

namespace DecodeM

variable {s : Schema} {n : Node s} {st st' : DecodeState σ} {offset : Nat}

theorem tellAt_returns {position : Nat} (h : Returns (tellAt n offset) st position st') :
    position = st.reading.cursor ∧ st'.reading = st.reading := by
  obtain ⟨source, ended, rfl⟩ := returns_onSource.mp h
  obtain ⟨told, same⟩ := Slice.tell_ok (SliceLike.slice_of_operation (SliceLike.tell_slice _) ended)
  exact ⟨told, by simp [DecodeState.reading, SliceLike.reading, same]⟩

theorem tell_returns {position : Nat} (h : Returns (tell n) st position st') :
    position = st.reading.cursor ∧ st'.reading = st.reading :=
  tellAt_returns h

theorem size_returns {size : Nat} (h : Returns (onSource n offset ByteSource.size) st size st') :
    size = st.reading.data.size ∧ st'.reading = st.reading := by
  obtain ⟨source, ended, rfl⟩ := returns_onSource.mp h
  obtain ⟨told, same⟩ := Slice.size_ok (SliceLike.slice_of_operation (SliceLike.size_slice _) ended)
  exact ⟨told, by simp [DecodeState.reading, SliceLike.reading, same]⟩

theorem seek_returns {position : Nat} {u : Unit} (h : Returns (seek n offset position) st u st') :
    st'.reading = { st.reading with cursor := position } := by
  simp only [seek, returns_bind, returns_pure] at h
  obtain ⟨reached, _, moved, -, rfl⟩ := h
  obtain ⟨source, ended, rfl⟩ := returns_onSource.mp moved
  have same := Slice.seek_start_ok
    (SliceLike.slice_of_operation (SliceLike.seek_slice _ _) ended)
  simp [DecodeState.reading, SliceLike.reading, same]

/-- Bytes in memory can be moved to any position. -/
theorem seek_succeeds (n : Node s) (offset position : Nat) (st : DecodeState σ) :
    ∃ st', Returns (seek n offset position) st () st' := by
  have moves := SliceLike.seek_slice (.start position) st.source
  rcases ended : (ByteSource.seek (.start position) : SourceM σ Nat) st.source with ⟨e | a, source⟩
  · rw [ended] at moves
    cases congrArg Prod.fst moves
  · refine ⟨{ st with source := source }, ?_⟩
    simp only [seek, returns_bind, returns_pure, returns_onSource]
    exact ⟨a, _, ⟨source, ended, rfl⟩, trivial, rfl⟩

theorem readExact_returns {count : Nat} {bytes : List UInt8}
    (h : Returns (onSource n offset (ByteSource.readExact count)) st bytes st') :
    st.reading.cursor + count ≤ st.reading.data.size ∧
      bytes = window st.reading.data st.reading.cursor count ∧
      st'.reading = { st.reading with cursor := st.reading.cursor + count } := by
  obtain ⟨source, ended, rfl⟩ := returns_onSource.mp h
  obtain ⟨inside, read, same⟩ := Slice.readExact_ok
    (SliceLike.slice_of_operation (SliceLike.readExact_slice _ _) ended)
  exact ⟨inside, read, by simp [DecodeState.reading, SliceLike.reading, same]⟩

theorem not_tellAt_throws {e : DecodeError} : ¬ Throws (tellAt n offset) st e st' := by
  intro h
  obtain ⟨cause, source, ended, -⟩ := throws_onSource.mp h
  have told := SliceLike.slice_of_operation (SliceLike.tell_slice _) ended
  cases told

theorem not_tell_throws {e : DecodeError} : ¬ Throws (tell n) st e st' := not_tellAt_throws

theorem not_seek_throws {position : Nat} {e : DecodeError} :
    ¬ Throws (seek n offset position) st e st' := by
  obtain ⟨moved, seeks⟩ := seek_succeeds n offset position st
  exact seeks.not_throws

/-- A read fails if the bytes in memory are too few for it. -/
theorem readExact_throws {count : Nat} {e : DecodeError}
    (h : Throws (onSource n offset (ByteSource.readExact count)) st e st') :
    st.reading.data.size < st.reading.cursor + count ∧
      ∃ available, e = ⟨n.id, n.label, offset, .shortRead count available⟩ := by
  obtain ⟨cause, source, ended, rfl, -⟩ := throws_onSource.mp h
  obtain ⟨short, got, rfl⟩ := Slice.readExact_error
    (SliceLike.slice_of_operation (SliceLike.readExact_slice _ _) ended)
  exact ⟨short, got.length, rfl⟩

end DecodeM

/-- What is put back after an attempt: the cursor, the unread bits and the warnings. -/
theorem Mark.take_returns {s : Schema} {n : Node s} {st st' : DecodeState σ} {mark : Mark}
    (h : DecodeM.Returns (Mark.take n) st mark st') :
    mark.position = st.reading.cursor ∧ mark.pending = st.pending ∧
      mark.warnings = st.warnings ∧ st'.reading = st.reading ∧ st'.warnings = st.warnings := by
  simp only [Mark.take, DecodeM.returns_bind, DecodeM.returns_get, DecodeM.returns_pure] at h
  obtain ⟨position, told, tells, _, _, ⟨rfl, rfl⟩, rfl, rfl⟩ := h
  obtain ⟨rfl, same⟩ := DecodeM.tell_returns tells
  obtain ⟨source, -, rfl⟩ := DecodeM.returns_onSource.mp tells
  exact ⟨rfl, rfl, rfl, same, rfl⟩

theorem Mark.rewind_returns {s : Schema} {n : Node s} {st st' : DecodeState σ} {mark : Mark}
    {u : Unit} (h : DecodeM.Returns (Mark.rewind n mark) st u st') :
    st'.reading = ⟨st.reading.data, mark.position, mark.pending⟩ ∧
      st'.warnings = mark.warnings := by
  simp only [Mark.rewind, DecodeM.returns_bind, DecodeM.returns_modify] at h
  obtain ⟨_, moved, seeks, rfl⟩ := h
  have reading := DecodeM.seek_returns seeks
  exact ⟨by simp [reading], rfl⟩

theorem Mark.not_take_throws {s : Schema} {n : Node s} {st st' : DecodeState σ} {e : DecodeError} :
    ¬ DecodeM.Throws (Mark.take n) st e st' := by
  simp only [Mark.take, DecodeM.throws_bind, DecodeM.throws_get, DecodeM.throws_pure, and_false,
    exists_false, or_false]
  exact DecodeM.not_tell_throws

theorem Mark.not_rewind_throws {s : Schema} {n : Node s} {st st' : DecodeState σ} {mark : Mark}
    {e : DecodeError} : ¬ DecodeM.Throws (mark.rewind n) st e st' := by
  simp only [Mark.rewind, DecodeM.throws_bind, DecodeM.throws_modify, and_false, exists_false,
    or_false]
  exact DecodeM.not_seek_throws

end BinaryTemplate
