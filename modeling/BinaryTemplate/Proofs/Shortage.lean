import BinaryTemplate.Proofs.Container

/-!
# What fields are short of

A field may need bytes that its frame does not have. Its failure says at which offset it wants how
many bytes, and nothing else tells the containers around it whether the field overran one of them.
The two numbers give where the field would have ended, with two exceptions. A bit field of which the
frame has had some bytes wants the others at the offset where the field starts. A string in a slot
is read piece by piece, and it wants the piece that the frame does not have.
-/

namespace BinaryTemplate

/-! ## Short reads -/

def Failure.isShort : Failure → Bool
  | .shortRead .. => true
  | _ => false

namespace DecodeError

def isShort (e : DecodeError) : Bool := e.failure.isShort

/-- The error is that so many bytes at an offset cannot be had. -/
def Wants (e : DecodeError) (offset count : Nat) : Prop :=
  e.offset = offset ∧ ∃ available, e.failure = .shortRead count available

theorem Wants.isShort {e : DecodeError} {offset count : Nat} (h : e.Wants offset count) :
    e.isShort = true := by
  obtain ⟨-, _, failure⟩ := h
  unfold DecodeError.isShort
  rw [failure]
  rfl

theorem Wants.shortReadStop {e : DecodeError} {offset count : Nat} (h : e.Wants offset count) :
    e.shortReadStop? = some (min (offset + count) (positionLimit - 1)) := by
  obtain ⟨rfl, _, failure⟩ := h
  unfold shortReadStop?
  rw [failure]

theorem wants_of_isShort {e : DecodeError} (short : e.isShort = true) :
    ∃ count, e.Wants e.offset count := by
  unfold DecodeError.isShort at short
  cases failure : e.failure with
  | shortRead count available => exact ⟨count, rfl, available, failure⟩
  | _ =>
    rw [failure] at short
    cases short

theorem isMismatch_of_isShort {e : DecodeError} (short : e.isShort = true) :
    e.isMismatch = true := by
  obtain ⟨_, -, _, failure⟩ := wants_of_isShort short
  unfold isMismatch
  rw [failure]
  rfl

/-- What is no mismatch is no short read. -/
theorem not_isShort_of_fatal {e : DecodeError} (fatal : ¬ e.isMismatch = true) :
    e.isShort = false := by
  cases short : e.isShort with
  | false => rfl
  | true => exact absurd (isMismatch_of_isShort short) fatal

end DecodeError

/-! ## Steps that want no bytes -/

namespace DecodeM

variable {σ α β : Type} {s : Schema} {n : Node s} {offset : Nat}

/-- No failure of the step is a short read. -/
def Quiet (step : DecodeM σ α) : Prop :=
  ∀ st e st', Throws step st e st' → e.isShort = false

namespace Quiet

theorem of_not_throws {step : DecodeM σ α} (never : ∀ {st e st'}, ¬ Throws step st e st') :
    Quiet step :=
  fun _ _ _ thrown => absurd thrown never

theorem of_fatal {step : DecodeM σ α}
    (fatal : ∀ {st e st'}, Throws step st e st' → e.isMismatch = false) : Quiet step := by
  intro st e st' thrown
  exact DecodeError.not_isShort_of_fatal (by simp [fatal thrown])

theorem pure (a : α) : Quiet (Pure.pure a : DecodeM σ α) := of_not_throws throws_pure

theorem outcome (step : DecodeM σ α) : Quiet (DecodeM.outcome step) := of_not_throws throws_outcome

theorem record (event : Event) : Quiet (DecodeM.record event : DecodeM σ Unit) :=
  of_not_throws throws_record

theorem throw {e : DecodeError} (quiet : e.isShort = false) :
    Quiet (MonadExcept.throw e : DecodeM σ α) := by
  intro st _ st' thrown
  obtain ⟨rfl, -⟩ := throws_throw.mp thrown
  exact quiet

theorem fail {failure : Failure} (quiet : failure.isShort = false) :
    Quiet (DecodeM.fail n offset failure : DecodeM σ α) :=
  throw quiet

theorem resolved (r : Except CycleError α) : Quiet (DecodeM.resolved n offset r : DecodeM σ α) :=
  of_fatal Decoder.resolved_throws

theorem bind {step : DecodeM σ α} {next : α → DecodeM σ β} (first : Quiet step)
    (rest : ∀ a, Quiet (next a)) : Quiet (step >>= next) := by
  intro st e st' thrown
  obtain thrown | ⟨a, mid, -, thrown⟩ := throws_bind.mp thrown
  · exact first _ _ _ thrown
  · exact rest a _ _ _ thrown

theorem exhausted {p : Place} {position : Nat} :
    Quiet (Decoder.exhausted p position : DecodeM σ Bool) :=
  .bind (.of_not_throws throws_get) fun _ => .pure _

theorem ite {c : Prop} [Decidable c] {yes no : DecodeM σ α} (left : Quiet yes) (right : Quiet no) :
    Quiet (if c then yes else no) := by
  by_cases holds : c
  · rw [if_pos holds]
    exact left
  · rw [if_neg holds]
    exact right

/-- A short read behind a quiet step comes from the rest. -/
theorem rest {step : DecodeM σ α} {next : α → DecodeM σ β} {st st' : DecodeState σ}
    {e : DecodeError} (quiet : Quiet step) (short : e.isShort = true)
    (h : Throws (step >>= next) st e st') :
    ∃ a mid, Returns step st a mid ∧ Throws (next a) mid e st' := by
  obtain thrown | behind := throws_bind.mp h
  · cases (quiet _ _ _ thrown).symm.trans short
  · exact behind

theorem absurd {step : DecodeM σ α} {st st' : DecodeState σ} {e : DecodeError} {P : Prop}
    (quiet : Quiet step) (short : e.isShort = true) (h : Throws step st e st') : P := by
  cases (quiet _ _ _ h).symm.trans short

variable [ByteSource σ] [SliceLike σ]

theorem tellAt : Quiet (DecodeM.tellAt n offset : DecodeM σ Nat) := of_not_throws not_tellAt_throws

theorem tell : Quiet (DecodeM.tell n : DecodeM σ Nat) := tellAt

theorem seek (position : Nat) : Quiet (DecodeM.seek n offset position : DecodeM σ Unit) :=
  of_not_throws not_seek_throws

theorem take : Quiet (Mark.take n : DecodeM σ Mark) := of_not_throws Mark.not_take_throws

theorem rewind (mark : Mark) : Quiet (mark.rewind n : DecodeM σ Unit) :=
  of_not_throws Mark.not_rewind_throws

end Quiet

end DecodeM

namespace Decoder

open DecodeM

section Quiet

variable {σ : Type} {d : Decoder σ} {p : Place} {n : Node d.schema} {offset : Nat}

theorem evalInteger_quiet (r : Reference) : Quiet (d.evalInteger p n offset r) :=
  .of_fatal evalInteger_throws

theorem node_quiet (id : ElementId) : Quiet (d.node id offset) := .of_fatal node_throws

theorem evalCount_quiet (r : Reference) : Quiet (d.evalCount p n offset r) :=
  .bind (evalInteger_quiet r) fun _ => .ite (.pure _) (.fail rfl)

theorem evalAttribute_quiet (a : Attribute Reference) : Quiet (d.evalAttribute p n offset a) := by
  refine .bind (.resolved _) fun r => ?_
  cases r with
  | none => exact .pure _
  | some r => exact .bind (evalInteger_quiet r) fun _ => .pure _

theorem toBytes_quiet (units : Nat) (unit : LengthUnit) : Quiet (d.toBytes n offset units unit) :=
  .ite (.fail rfl) (.ite (.fail rfl) (.pure _))

theorem lengthBytes_quiet (length : Reference) : Quiet (d.lengthBytes p n offset length) :=
  .bind (evalCount_quiet length) fun _ => .bind (.resolved _) fun _ => toBytes_quiet _ _

theorem declaredBytes_quiet : Quiet (d.declaredBytes p n offset) := by
  refine .bind (.resolved _) fun length => ?_
  cases length with
  | none => exact .pure _
  | some length => exact .bind (lengthBytes_quiet length) fun _ => .pure _

theorem structureLength_quiet : Quiet (d.structureLength p n offset) := by
  refine .bind (.resolved _) fun length => ?_
  cases length with
  | none => exact .pure _
  | some length =>
    exact .bind (evalCount_quiet length) fun _ => .bind (evalAttribute_quiet _) fun _ =>
      .bind (.ite (.pure _) (.fail rfl)) fun _ => .bind (.resolved _) fun _ =>
      .bind (toBytes_quiet _ _) fun _ => .pure _

theorem violation_quiet {e : DecodeError} (quiet : e.isShort = false) : Quiet (d.violation e) :=
  .ite (.throw quiet) (.bind (.record _) fun _ => .of_not_throws throws_modify)

theorem finishNumber_quiet (len : Nat) (value : NumberValue) (bits : Option BitSpan)
    (order : ByteOrder) : Quiet (d.finishNumber p n offset len value bits order) := by
  have matching : Quiet (d.matchNumber n offset value) :=
    .bind (.resolved _) fun _ =>
      .ite (.bind (.resolved _) fun _ =>
        .ite (.bind (violation_quiet rfl) fun _ => .pure _) (.pure _)) (.pure _)
  have ranging : Quiet (d.checkRange p n offset value) :=
    .bind (evalAttribute_quiet _) fun _ => .bind (evalAttribute_quiet _) fun _ =>
      .ite (violation_quiet rfl) (.pure _)
  exact .bind matching fun _ => .bind ranging fun _ => .bind (.resolved _) fun _ =>
    .bind (.record _) fun _ => .pure _

theorem interpret_quiet (kind : NumberKind) (r : RawNumber) : Quiet (d.interpret n kind r) := by
  cases kind with
  | unsigned => exact .pure _
  | signed => exact .pure _
  | float => exact .ite (.pure _) (.ite (.pure _) (.fail rfl))

theorem matchString_quiet (text : String) : Quiet (d.matchString n offset text) :=
  .bind (.resolved _) fun _ =>
    .ite (.bind (.resolved _) fun _ =>
      .ite (.bind (violation_quiet rfl) fun _ => .pure _) (.pure _)) (.pure _)

end Quiet

end Decoder

/-! ## Where fields would end -/

namespace Node

variable {s : Schema}

/-- An offset, or a number that is not computed. -/
def ReadsPattern (n : Node s) : Prop :=
  (∃ body, n.kind = .offset body) ∨
    (∃ body, n.kind = .number body) ∧ n.lookup .valueExpression = .ok none

/-- A number that is computed. -/
def IsComputed (n : Node s) : Prop :=
  (∃ body, n.kind = .number body) ∧ ∃ expression, n.lookup .valueExpression = .ok (some expression)

/-- How the bytes of a string are framed, in which encoding and with which delimiter. -/
def Frames (n : Node s) (encodings : Text.Encodings) (encoding : Text.Encoding) (kind : StringKind)
    (delimiter : Option UInt8) : Prop :=
  (∃ body, n.kind = .string body) ∧
    (∃ label, n.encoding = .ok label ∧ encodings.ofLabel? label = some encoding) ∧
    n.lookup .delimiter = .ok delimiter ∧
    ∃ own, n.lookup .stringKind = .ok own ∧ kind = Decoder.effectiveKind own delimiter

/-- The script that decodes an element. -/
def RunsScript (n : Node s) (id : ElementId) : Prop :=
  (∃ body, n.kind = .script body ∧ id = n.id) ∨
    ∃ body, n.kind = .custom body ∧ n.lookup .script = .ok (some id)

end Node

namespace Decoder

open DecodeM

variable {d : Decoder Slice} {p : Place} {n : Node d.schema} {before : Reading}
  {st st' : DecodeState Slice} {e : DecodeError}

/-- The terminator of a string, if it has one. -/
def terminator? (encoding : Text.Encoding) (delimiter : Option UInt8) :
    StringKind → Option (List UInt8)
  | .zeroTerminated => some (terminator encoding 0)
  | .delimited => some (terminator encoding (delimiter.getD 0))
  | _ => none

/-- A terminator is one unit. -/
theorem length_terminator? {encoding : Text.Encoding} {delimiter : Option UInt8}
    {kind : StringKind} {mark : List UInt8}
    (marked : terminator? encoding delimiter kind = some mark) :
    mark.length = encoding.unitSize := by
  cases kind with
  | fixedLength | pascal => cases marked
  | zeroTerminated | delimited =>
    cases marked
    exact length_terminator encoding _

theorem terminator?_pos {encoding : Text.Encoding} {delimiter : Option UInt8} {kind : StringKind}
    {mark : List UInt8} (marked : terminator? encoding delimiter kind = some mark) :
    0 < mark.length := by
  rw [length_terminator? marked]
  exact unitSize_pos encoding

/-- Where an element that starts at the cursor would end, as far as its frame lets tell. -/
inductive WouldEnd (d : Decoder Slice) (p : Place) (n : Node d.schema) (before : Reading) :
    Nat → Prop
  | bytes {width : Nat} (reads : n.ReadsPattern) (wide : d.HasWidth p n .byte width) :
      WouldEnd d p n before (before.cursor + width / 8)
  | bits {width : Nat} (reads : n.ReadsPattern) (wide : d.HasWidth p n .bit width) :
      WouldEnd d p n before (before.cursor + before.bytesFor width)
  | computed {len : Nat} (computed : n.IsComputed) (declares : d.Declares p n (some len)) :
      WouldEnd d p n before (before.cursor + len)
  | binary {body : BinaryBody} {len : Nat} (kind : n.kind = .binary body)
      (declares : d.Declares p n (some len)) : WouldEnd d p n before (before.cursor + len)
  /-- A slot of a string with a length byte has to hold that. -/
  | slot {encoding : Text.Encoding} {kind : StringKind} {delimiter : Option UInt8} {len : Nat}
      (frames : n.Frames d.encodings encoding kind delimiter)
      (declares : d.Declares p n (some len)) :
      WouldEnd d p n before (before.cursor + if kind = .pascal then max len 1 else len)
  /-- The length byte tells the length, if the frame has that byte. -/
  | counted {encoding : Text.Encoding} {delimiter : Option UInt8}
      (frames : n.Frames d.encodings encoding .pascal delimiter)
      (undeclared : d.Declares p n none) :
      WouldEnd d p n before (before.cursor + 1 + if before.cursor < p.limit then
        ((window before.data before.cursor 1).headD 0).toNat else 0)
  /-- A terminator that is not among the whole units of the frame needs one more unit. -/
  | terminated {encoding : Text.Encoding} {kind : StringKind} {delimiter : Option UInt8}
      {mark : List UInt8} (frames : n.Frames d.encodings encoding kind delimiter)
      (marked : terminator? encoding delimiter kind = some mark)
      (undeclared : d.Declares p n none) :
      WouldEnd d p n before (before.cursor +
        ((p.limit - before.cursor) / mark.length * mark.length + mark.length))
  /-- A script answers how many bytes the element takes. -/
  | scripted {id : ElementId} {script : Node d.schema} {body : ScriptBody} {host : ScriptHost Slice}
      {declared : Option Nat} {output : ScriptOutput} {after : Slice} (runs : n.RunsScript id)
      (found : d.schema.node? id = some script) (defines : script.kind = .script body)
      (hosted : d.scripts = some host) (declares : d.Declares p n declared)
      (answers : (host.run body ⟨n.id, before.cursor, declared, p.limit, p.context d.schema⟩ :
        Slice → Except String ScriptOutput × Slice) ⟨before.data, before.cursor⟩ =
          (.ok output, after)) :
      WouldEnd d p n before (before.cursor + output.len)
  | container {len : Nat} (structural : n.IsStructural) (spans : d.Spans p n (some len)) :
      WouldEnd d p n before (before.cursor + len)

/-- An element wants what its frame does not have, up to where it would end. -/
structure WantsWhole (d : Decoder Slice) (p : Place) (n : Node d.schema) (before : Reading)
    (e : DecodeError) (stop : Nat) : Prop where
  ends : d.WouldEnd p n before stop
  wants : ∃ offset, e.Wants offset (stop - offset) ∧ before.cursor ≤ offset ∧ offset ≤ p.limit
  beyond : p.limit < stop

/-- A string in a slot wants a piece of the slot that its frame does not have, up to `reach`. -/
structure WantsPiece (d : Decoder Slice) (p : Place) (n : Node d.schema) (before : Reading)
    (e : DecodeError) (reach : Nat) : Prop where
  frames : ∃ encoding kind delimiter, n.Frames d.encodings encoding kind delimiter
  ends : ∃ stop, d.WouldEnd p n before stop ∧ reach < stop
  wants : ∃ offset count, e.Wants offset count ∧ offset + count = reach ∧ before.cursor ≤ offset ∧
    offset ≤ p.limit
  beyond : p.limit < reach

/-- A bit field that its frame has had `taken` bytes for wants the `rest`, at the offset where it
starts. -/
structure WantsRest (d : Decoder Slice) (p : Place) (n : Node d.schema) (before : Reading)
    (e : DecodeError) (taken rest : Nat) : Prop where
  reads : n.ReadsPattern
  wide : ∃ width, d.HasWidth p n .bit width ∧ before.bytesFor width = taken + rest
  wants : e.Wants before.cursor rest
  frame : before.cursor + taken = p.limit
  begun : 0 < taken
  beyond : 0 < rest

/-- A read wants bytes of the frame, but the data ends before the frame does. -/
structure DataEnds (p : Place) (before : Reading) (e : DecodeError) : Prop where
  wants : ∃ offset count, e.Wants offset count ∧ offset + count ≤ p.limit
  ended : before.data.size < p.limit

/-- How an element that starts at the cursor comes to be short of bytes. -/
inductive Shortage (d : Decoder Slice) (p : Place) (n : Node d.schema) (before : Reading)
    (e : DecodeError) : Prop
  | whole {stop : Nat} (whole : d.WantsWhole p n before e stop) : Shortage d p n before e
  | piece {reach : Nat} (piece : d.WantsPiece p n before e reach) : Shortage d p n before e
  | rest {taken rest : Nat} (rest : d.WantsRest p n before e taken rest) : Shortage d p n before e
  | data (ended : DataEnds p before e) : Shortage d p n before e

/-- Unread bits have no part in where an element ends, unless it reads bits. -/
theorem WouldEnd.of_aligned {stop : Nat} (whole : ¬ n.ReadsPattern)
    (h : d.WouldEnd p n { before with pending := [] } stop) : d.WouldEnd p n before stop := by
  cases h with
  | bytes reads => exact absurd reads whole
  | bits reads => exact absurd reads whole
  | computed computed declares => exact .computed computed declares
  | binary kind declares => exact .binary kind declares
  | slot frames declares => exact .slot frames declares
  | counted frames undeclared => exact .counted frames undeclared
  | terminated frames marked undeclared => exact .terminated frames marked undeclared
  | scripted runs found defines hosted declares answers =>
    exact .scripted runs found defines hosted declares answers
  | container structural spans => exact .container structural spans

theorem Shortage.of_aligned (whole : ¬ n.ReadsPattern)
    (h : Shortage d p n { before with pending := [] } e) : Shortage d p n before e := by
  cases h with
  | whole h => exact .whole ⟨h.ends.of_aligned whole, h.wants, h.beyond⟩
  | piece h =>
    obtain ⟨stop, ends, short⟩ := h.ends
    exact .piece ⟨h.frames, ⟨stop, ends.of_aligned whole, short⟩, h.wants, h.beyond⟩
  | rest h => exact absurd h.reads whole
  | data h => exact .data ⟨h.wants, h.ended⟩

/-- An element that wants all of its bytes at once. -/
theorem Shortage.all {count : Nat} (ends : d.WouldEnd p n before (before.cursor + count))
    (wants : e.Wants before.cursor count) (within : before.cursor ≤ p.limit)
    (beyond : p.limit < before.cursor + count) : Shortage d p n before e := by
  refine .whole ⟨ends, ⟨before.cursor, ?_, Nat.le_refl _, within⟩, beyond⟩
  rw [Nat.add_sub_cancel_left]
  exact wants

/-! ## Reads -/

@[simp] theorem returns_tellAt {s : Schema} {n : Node s} {offset position : Nat} :
    Returns (tellAt n offset) st position st' ↔ position = st.reading.cursor ∧ st' = st := by
  constructor
  · intro h
    cases h
    exact ⟨rfl, rfl⟩
  · rintro ⟨rfl, rfl⟩
    rfl

@[simp] theorem returns_tell {s : Schema} {n : Node s} {position : Nat} :
    Returns (tell n) st position st' ↔ position = st.reading.cursor ∧ st' = st :=
  returns_tellAt

@[simp] theorem returns_take {s : Schema} {n : Node s} {mark : Mark} :
    Returns (Mark.take n) st mark st' ↔
      mark = ⟨st.reading.cursor, st.pending, st.warnings⟩ ∧ st' = st := by
  simp only [Mark.take, returns_bind, returns_tell, returns_get, returns_pure]
  constructor
  · rintro ⟨_, _, ⟨rfl, rfl⟩, _, _, ⟨rfl, rfl⟩, rfl, rfl⟩
    exact ⟨rfl, rfl⟩
  · rintro ⟨rfl, rfl⟩
    exact ⟨_, st', ⟨rfl, rfl⟩, st', st', ⟨rfl, rfl⟩, rfl, rfl⟩

/-- To ask for the cursor takes no part in a failure. -/
theorem behind_tellAt {s : Schema} {n : Node s} {α : Type} {offset : Nat}
    {next : Nat → DecodeM Slice α} (h : Throws (tellAt n offset >>= next) st e st') :
    Throws (next st.reading.cursor) st e st' := by
  obtain told | ⟨_, _, tells, h⟩ := throws_bind.mp h
  · exact absurd told not_tellAt_throws
  · obtain ⟨rfl, same⟩ := returns_tellAt.mp tells
    rw [same] at h
    exact h

theorem behind_tell {s : Schema} {n : Node s} {α : Type} {next : Nat → DecodeM Slice α}
    (h : Throws (tell n >>= next) st e st') : Throws (next st.reading.cursor) st e st' :=
  behind_tellAt h

theorem behind_align {α : Type} {next : Unit → DecodeM Slice α}
    (h : Throws (align >>= next) st e st') : Throws (next ()) { st with pending := [] } e st' := by
  obtain aligns | ⟨_, _, aligned, h⟩ := throws_bind.mp h
  · exact absurd aligns throws_align
  · rw [returns_align.mp aligned] at h
    exact h

theorem behind_resolved {s : Schema} {n : Node s} {α β : Type} {offset : Nat}
    {r : Except CycleError α} {next : α → DecodeM Slice β} (short : e.isShort = true)
    (h : Throws (resolved n offset r >>= next) st e st') :
    ∃ a, r = .ok a ∧ Throws (next a) st e st' := by
  obtain ⟨a, _, resolves, h⟩ := (Quiet.resolved r).rest short h
  obtain ⟨found, same⟩ := returns_resolved.mp resolves
  rw [same] at h
  exact ⟨a, found, h⟩

theorem behind_declaredBytes {α : Type} {offset : Nat} {next : Option Nat → DecodeM Slice α}
    (short : e.isShort = true) (h : Throws (d.declaredBytes p n offset >>= next) st e st') :
    ∃ declared, d.Declares p n declared ∧ Throws (next declared) st e st' := by
  obtain ⟨declared, _, declares, h⟩ := declaredBytes_quiet.rest short h
  obtain ⟨found, same⟩ := declaredBytes_returns.mp declares
  rw [same] at h
  exact ⟨declared, found, h⟩

/-- A read that wants so many bytes at the cursor, beyond the frame or beyond the data. -/
structure Misses (limit : Nat) (before : Reading) (e : DecodeError) (count : Nat) : Prop where
  wants : e.Wants before.cursor count
  beyond : limit < before.cursor + count ∨
    before.cursor + count ≤ limit ∧ before.data.size < before.cursor + count

theorem checkBound_throws {count : Nat} (h : Throws (d.checkBound p n count) st e st') :
    e.Wants st.reading.cursor count ∧ p.limit < st.reading.cursor + count := by
  simp only [checkBound, throws_bind, returns_tell, throws_guard_bind, throws_pure, and_false,
    or_false] at h
  obtain told | ⟨_, _, ⟨rfl, rfl⟩, beyond, rfl, -⟩ := h
  · exact absurd told not_tell_throws
  · exact ⟨⟨rfl, _, rfl⟩, beyond⟩

theorem read_throws {count : Nat} (h : Throws (d.read p n count) st e st') :
    Misses p.limit st.reading e count := by
  simp only [read, throws_bind] at h
  obtain bounded | ⟨_, _, bounded, reads⟩ := h
  · obtain ⟨wants, beyond⟩ := checkBound_throws bounded
    exact ⟨wants, .inl beyond⟩
  · obtain ⟨rfl, within, same⟩ := checkBound_returns bounded
    obtain ⟨short, available, rfl⟩ := readExact_throws reads
    rw [same] at short
    exact ⟨⟨rfl, available, rfl⟩, .inr ⟨within, short⟩⟩

theorem skip_throws {count : Nat} (h : Throws (d.skip p n count) st e st') :
    e.Wants st.reading.cursor count ∧ p.limit < st.reading.cursor + count := by
  simp only [skip, throws_bind] at h
  obtain bounded | ⟨_, _, -, seeks⟩ := h
  · exact checkBound_throws bounded
  · exact absurd seeks not_seek_throws

/-- A read that goes up to where the element would end. -/
theorem Misses.shortage {before : Reading} {count : Nat} (h : Misses p.limit before e count)
    (data : before.data = st.reading.data) (behind : st.reading.cursor ≤ before.cursor)
    (inside : before.cursor ≤ p.limit)
    (ends : p.limit < before.cursor + count → d.WouldEnd p n st.reading (before.cursor + count)) :
    Shortage d p n st.reading e := by
  obtain beyond | ⟨within, ended⟩ := h.beyond
  · have wants : e.Wants before.cursor (before.cursor + count - before.cursor) := by
      rw [Nat.add_sub_cancel_left]
      exact h.wants
    exact .whole ⟨ends beyond, ⟨_, wants, behind, inside⟩, beyond⟩
  · rw [data] at ended
    exact .data ⟨⟨_, _, h.wants, within⟩, Nat.lt_of_lt_of_le ended within⟩

/-! ## Numbers -/

theorem readByte_throws {offset : Nat}
    (h : Throws (onSource n offset ByteSource.readByte) st e st') :
    e.Wants offset 1 ∧ st.reading.data.size < st.reading.cursor + 1 := by
  have whole : Throws (onSource n offset (ByteSource.readExact 1)) st e st' := by
    obtain ⟨cause, source, ended, rfl, rfl⟩ := throws_onSource.mp h
    rcases first : (ByteSource.readExact 1 : SourceM Slice (List UInt8)) st.source with
      ⟨cause' | bytes, after⟩
    · cases ended.symm.trans (bind_of_error first)
      exact throws_onSource.mpr ⟨_, _, first, rfl, rfl⟩
    · cases ended.symm.trans (bind_of_ok first)
  obtain ⟨short, available, rfl⟩ := readExact_throws whole
  exact ⟨⟨rfl, available, rfl⟩, short⟩

/-- Each byte is checked on its own, so the frame may have had some of them. The offset is that of
the field all the same. -/
theorem pullBytes_throws {offset : Nat} : ∀ {more consumed : Nat} {st : DecodeState Slice},
    Throws (d.pullBytes p n offset more consumed) st e st' → e.isShort = true →
    st.reading.cursor = offset + consumed → offset + consumed ≤ p.limit →
    p.limit < offset + consumed + more ∧ e.Wants offset (offset + consumed + more - p.limit) ∨
      e.Wants offset 1 ∧ offset + 1 ≤ p.limit ∧ st.reading.data.size < p.limit := by
  intro more
  induction more with
  | zero =>
    intro consumed st h
    exact absurd h throws_pure
  | succ more inductionHypothesis =>
    intro consumed st h short start within
    simp only [pullBytes, throws_guard_bind] at h
    obtain ⟨beyond, rfl, -⟩ | ⟨room, h⟩ := h
    · have rest : offset + consumed + (more + 1) - p.limit = more + 1 := by omega
      refine .inl ⟨by omega, ?_⟩
      rw [rest]
      exact ⟨rfl, _, rfl⟩
    simp only [throws_bind, throws_pure, and_false, exists_false, or_false] at h
    obtain missing | ⟨b, mid, reads, pulls⟩ := h
    · obtain ⟨wants, ended⟩ := readByte_throws missing
      exact .inr ⟨wants, by omega, by omega⟩
    · obtain ⟨-, -, moved⟩ := readByte_returns reads
      have data : mid.reading.data = st.reading.data := by rw [moved]
      have further : mid.reading.cursor = st.reading.cursor + 1 := by rw [moved]
      have pulled := inductionHypothesis pulls short (by omega) (by omega)
      rw [data] at pulled
      rw [show offset + consumed + (more + 1) = offset + (consumed + 1) + more by omega]
      exact pulled

theorem readBits_throws {width : Nat} (reads : n.ReadsPattern) (wide : d.HasWidth p n .bit width)
    (within : st.reading.cursor ≤ p.limit) (short : e.isShort = true)
    (h : Throws (d.readBits p n width) st e st') : Shortage d p n st.reading e := by
  have h := behind_tell h
  simp only [throws_bind, returns_get, throws_get, throws_guard_bind, throws_setPending,
    throws_record, throws_pure, false_or, and_false, exists_false, or_false] at h
  obtain ⟨_, _, ⟨got, same⟩, ⟨-, rfl, -⟩ | ⟨-, pulls⟩⟩ := h
  · cases short
  rw [got, same] at pulls
  obtain ⟨beyond, wants⟩ | ⟨wants, inside, ended⟩ := pullBytes_throws pulls short rfl within
  · change p.limit < st.reading.cursor + st.reading.bytesFor width at beyond
    change e.Wants _ (st.reading.cursor + st.reading.bytesFor width - p.limit) at wants
    -- Where the frame has had none of the bytes, the field wants all of them.
    by_cases begun : st.reading.cursor < p.limit
    · refine .rest ⟨reads, ⟨width, wide, ?_⟩, wants, Nat.add_sub_cancel' within, ?_, ?_⟩ <;> omega
    · have same : p.limit = st.reading.cursor := by omega
      rw [same] at wants
      exact .whole ⟨.bits reads wide, ⟨_, wants, Nat.le_refl _, within⟩, beyond⟩
  · exact .data ⟨⟨_, _, wants, inside⟩, ended⟩

theorem readBytes_throws {offset : Nat} {order : ByteOrder} {width : Nat} (reads : n.ReadsPattern)
    (wide : d.HasWidth p n .byte width) (within : st.reading.cursor ≤ p.limit)
    (h : Throws (d.readBytes p n offset order width) st e st') : Shortage d p n st.reading e := by
  have h := behind_tellAt (behind_align h)
  simp only [throws_bind, throws_record, throws_pure, and_false, exists_false, or_false] at h
  exact (read_throws h).shortage rfl (Nat.le_refl _) within fun _ => .bytes reads wide

theorem readRaw_throws {order : ByteOrder} (reads : n.ReadsPattern)
    (within : st.reading.cursor ≤ p.limit) (short : e.isShort = true)
    (h : Throws (d.readRaw p n order) st e st') : Shortage d p n st.reading e := by
  obtain ⟨length, declared, h⟩ := behind_resolved short (behind_tell h)
  cases length with
  | none => exact (Quiet.fail rfl).absurd short h
  | some length =>
    obtain ⟨unit, found, h⟩ := behind_resolved short h
    obtain ⟨units, _, counting, h⟩ := (evalCount_quiet length).rest short h
    obtain ⟨counts, same⟩ := evalCount_returns.mp counting
    rw [same] at h
    simp only [throws_guard_bind] at h
    obtain ⟨-, rfl, -⟩ | ⟨inRange, h⟩ := h
    · cases short
    have wide : d.HasWidth p n unit (units * unit.bits) :=
      ⟨length, units, declared, found, counts, rfl, by omega, by omega⟩
    cases unit with
    | bit => exact readBits_throws reads wide within short h
    | byte => exact readBytes_throws reads wide within h

theorem computedPlace_throws {offset : Nat} (computed : n.IsComputed)
    (within : st.reading.cursor ≤ p.limit) (short : e.isShort = true)
    (h : Throws (d.computedPlace p n offset) st e st') : Shortage d p n st.reading e := by
  obtain ⟨length, declared, h⟩ := behind_resolved short h
  cases length with
  | none => exact absurd h throws_pure
  | some length =>
    obtain ⟨len, _, measuring, h⟩ :=
      (lengthBytes_quiet length).rest short (behind_tellAt (behind_align h))
    obtain ⟨measures, same⟩ := lengthBytes_returns.mp measuring
    rw [same] at h
    simp only [throws_bind, throws_pure, and_false, exists_false, or_false] at h
    obtain ⟨wants, beyond⟩ := skip_throws h
    exact .all (.computed computed ⟨length, declared, measures⟩) wants within beyond

theorem decodeNumber_throws {body : NumberBody} (kind : n.kind = .number body)
    (within : st.reading.cursor ≤ p.limit) (short : e.isShort = true)
    (h : Throws (d.decodeNumber p n) st e st') : Shortage d p n st.reading e := by
  obtain ⟨_, -, h⟩ := behind_resolved short (behind_tell h)
  obtain ⟨_, -, h⟩ := behind_resolved short h
  obtain ⟨expression, given, h⟩ := behind_resolved short h
  cases expression with
  | none =>
    obtain reads | ⟨r, mid, -, h⟩ := throws_bind.mp h
    · exact readRaw_throws (.inr ⟨⟨body, kind⟩, given⟩) within short reads
    · obtain ⟨_, _, -, h⟩ := (interpret_quiet _ r).rest short h
      exact (finishNumber_quiet _ _ _ _).absurd short h
  | some expression =>
    obtain ⟨k, _, evaluates, h⟩ := (evalInteger_quiet expression).rest short h
    obtain ⟨-, same⟩ := evalInteger_returns.mp evaluates
    rw [same] at h
    obtain places | ⟨place, mid, -, h⟩ := throws_bind.mp h
    · exact computedPlace_throws ⟨⟨body, kind⟩, expression, given⟩ within short places
    · exact (finishNumber_quiet _ _ _ _).absurd short h

/-! ## Strings -/

/-- A read of a piece of the slot. -/
theorem Misses.inSlot {before : Reading} {count stop : Nat} {encoding : Text.Encoding}
    {kind : StringKind} {delimiter : Option UInt8} (h : Misses p.limit before e count)
    (data : before.data = st.reading.data) (behind : st.reading.cursor ≤ before.cursor)
    (inside : before.cursor ≤ p.limit) (frames : n.Frames d.encodings encoding kind delimiter)
    (ends : d.WouldEnd p n st.reading stop) (held : before.cursor + count ≤ stop) :
    Shortage d p n st.reading e := by
  by_cases last : before.cursor + count = stop
  · exact h.shortage data behind inside fun _ => last.symm ▸ ends
  · obtain beyond | ⟨within, ended⟩ := h.beyond
    · exact .piece ⟨⟨_, _, _, frames⟩, ⟨stop, ends, by omega⟩, ⟨_, _, h.wants, rfl, behind, inside⟩,
        beyond⟩
    · rw [data] at ended
      exact .data ⟨⟨_, _, h.wants, within⟩, Nat.lt_of_lt_of_le ended within⟩

theorem readUntil_throws {mark : List UInt8} : ∀ {units : Nat} {st : DecodeState Slice},
    Throws (d.readUntil p n mark units) st e st' → st.reading.cursor ≤ p.limit →
    ∃ before : Reading, before.data = st.reading.data ∧ st.reading.cursor ≤ before.cursor ∧
      before.cursor ≤ p.limit ∧ before.cursor + mark.length ≤
        st.reading.cursor + units * mark.length ∧ Misses p.limit before e mark.length := by
  intro units
  induction units with
  | zero =>
    intro st h
    exact absurd h throws_pure
  | succ units inductionHypothesis =>
    intro st h within
    simp only [readUntil, throws_bind, throws_ite, throws_pure, and_false, exists_false,
      or_false, false_or] at h
    rw [Nat.succ_mul]
    obtain missing | ⟨first, mid, reads, -, h⟩ := h
    · exact ⟨st.reading, rfl, Nat.le_refl _, within, by omega, read_throws missing⟩
    · obtain ⟨-, room, -, moved⟩ := read_returns reads
      have data : mid.reading.data = st.reading.data := by rw [moved]
      have here : mid.reading.cursor = st.reading.cursor + mark.length := by rw [moved]
      obtain ⟨before, same, behind, inside, held, miss⟩ := inductionHypothesis h (by omega)
      exact ⟨before, same.trans data, by omega, inside, by omega, miss⟩

section Strings

variable {encoding : Text.Encoding} {delimiter : Option UInt8} {declared : Option Nat}
  (within : st.reading.cursor ≤ p.limit) (declares : d.Declares p n declared)
  (short : e.isShort = true)

include within declares

theorem readFixed_throws {unit : Nat}
    (frames : n.Frames d.encodings encoding .fixedLength delimiter)
    (h : Throws (d.readFixed p n st.reading.cursor unit declared) st e st') :
    Shortage d p n st.reading e := by
  simp only [readFixed, throws_bind, throws_pure, and_false, exists_false, or_false] at h
  refine (read_throws h).shortage rfl (Nat.le_refl _) within fun beyond => ?_
  cases declared with
  | none =>
    -- What is left of the frame is never too much for it.
    change p.limit < st.reading.cursor + (p.limit - st.reading.cursor) at beyond
    omega
  | some len => exact .slot frames declares

include short

theorem readPascal_throws (frames : n.Frames d.encodings encoding .pascal delimiter)
    (h : Throws (d.readPascal p n st.reading.cursor declared) st e st') :
    Shortage d p n st.reading e := by
  obtain missing | ⟨first, mid, reads, h⟩ := throws_bind.mp h
  · have miss := read_throws missing
    cases declared with
    | none =>
      refine miss.shortage rfl (Nat.le_refl _) within fun beyond => ?_
      have ends : d.WouldEnd p n st.reading _ := .counted frames declares
      rw [if_neg (by omega)] at ends
      exact ends
    | some len =>
      refine miss.inSlot rfl (Nat.le_refl _) within frames (.slot frames declares) ?_
      rw [if_pos rfl]
      omega
  obtain ⟨rfl, room, -, moved⟩ := read_returns reads
  have data : mid.reading.data = st.reading.data := by rw [moved]
  have here : mid.reading.cursor = st.reading.cursor + 1 := by rw [moved]
  cases declared with
  | none =>
    refine (read_throws h).shortage data (by omega) (by omega) fun beyond => ?_
    have ends : d.WouldEnd p n st.reading _ := .counted frames declares
    rw [if_pos (by omega)] at ends
    rw [here]
    exact ends
  | some len =>
    have ends : d.WouldEnd p n st.reading _ := .slot frames declares
    rw [if_pos rfl] at ends
    simp only [throws_guard_bind, throws_bind, throws_pure, and_false, exists_false,
      or_false] at h
    obtain ⟨-, rfl, -⟩ | ⟨fits, missing | ⟨text, after, texts, skips⟩⟩ := h
    · cases short
    · exact (read_throws missing).inSlot data (by omega) (by omega) frames ends (by omega)
    · obtain ⟨-, room', -, moved'⟩ := read_returns texts
      have data' : after.reading.data = st.reading.data := by rw [moved', data]
      have there : after.reading.cursor = mid.reading.cursor +
          ((window st.reading.data st.reading.cursor 1).headD 0).toNat := by rw [moved']
      obtain ⟨wants, beyond⟩ := skip_throws skips
      exact Misses.inSlot ⟨wants, .inl beyond⟩ data' (by omega) (by omega) frames ends (by omega)

theorem readTerminated_throws {kind : StringKind} {mark : List UInt8}
    (frames : n.Frames d.encodings encoding kind delimiter)
    (marked : terminator? encoding delimiter kind = some mark)
    (h : Throws (d.readTerminated p n st.reading.cursor mark declared) st e st') :
    Shortage d p n st.reading e := by
  have other : kind ≠ .pascal := by
    rintro rfl
    cases marked
  have units (size : Nat) : size / mark.length * mark.length ≤ size := Nat.div_mul_le_self _ _
  obtain missing | ⟨⟨bytes, found⟩, mid, reads, h⟩ := throws_bind.mp h
  · obtain ⟨before, data, behind, inside, held, miss⟩ := readUntil_throws missing within
    cases declared with
    | none =>
      have fits := units (p.limit - st.reading.cursor)
      change _ ≤ _ + (p.limit - st.reading.cursor) / mark.length * mark.length at held
      exact miss.shortage data behind inside (by omega)
    | some len =>
      have fits := units len
      change _ ≤ _ + len / mark.length * mark.length at held
      have ends : d.WouldEnd p n st.reading _ := .slot frames declares
      rw [if_neg other] at ends
      exact miss.inSlot data behind inside frames ends (by omega)
  obtain ⟨moved, inside, held, all⟩ := readUntil_returns reads
  have data : mid.reading.data = st.reading.data := by rw [moved]
  have here : mid.reading.cursor = st.reading.cursor +
      (bytes.length + if found then mark.length else 0) := by rw [moved]
  cases declared with
  | none =>
    simp only [throws_guard_bind, throws_pure, and_false, or_false] at h
    obtain ⟨unfound, rfl, -⟩ := h
    obtain rfl : found = false := by simpa using unfound
    have every : bytes.length = (p.limit - st.reading.cursor) / mark.length * mark.length := all rfl
    have ends : d.WouldEnd p n st.reading _ := .terminated frames marked declares
    rw [← every] at ends
    have beyond : p.limit - st.reading.cursor < bytes.length + mark.length := by
      rw [every]
      exact Nat.lt_div_mul_add (terminator?_pos marked)
    exact .all ends ⟨rfl, _, rfl⟩ within (by omega)
  | some len =>
    simp only [throws_bind, throws_pure, and_false, exists_false, or_false] at h
    have ends : d.WouldEnd p n st.reading _ := .slot frames declares
    rw [if_neg other] at ends
    obtain ⟨wants, beyond⟩ := skip_throws h
    exact Misses.inSlot ⟨wants, .inl beyond⟩ data (by omega) (by omega) frames ends (by omega)

theorem readFramed_throws {kind : StringKind}
    (frames : n.Frames d.encodings encoding kind delimiter)
    (h : Throws (d.readFramed p n st.reading.cursor encoding kind delimiter declared) st e st') :
    Shortage d p n st.reading e := by
  cases kind with
  | fixedLength => exact readFixed_throws within declares frames h
  | pascal => exact readPascal_throws within declares short frames h
  | zeroTerminated => exact readTerminated_throws within declares short frames rfl h
  | delimited => exact readTerminated_throws within declares short frames rfl h

end Strings

section Whole

variable (within : st.reading.cursor ≤ p.limit) (short : e.isShort = true)

include within short

theorem decodeString_throws {body : StringBody} (kind : n.kind = .string body)
    (h : Throws (d.decodeString p n) st e st') : Shortage d p n st.reading e := by
  have whole : ¬ n.ReadsPattern := by
    unfold Node.ReadsPattern
    rw [kind]
    simp
  obtain ⟨label, labelled, h⟩ := behind_resolved short (behind_tell (behind_align h))
  cases known : d.encodings.ofLabel? label with
  | none =>
    rw [known] at h
    exact (Quiet.fail rfl).absurd short h
  | some encoding =>
    rw [known] at h
    obtain ⟨delimiter, delimited, h⟩ := behind_resolved short h
    obtain ⟨own, framed, h⟩ := behind_resolved short h
    obtain ⟨declared, declares, h⟩ := behind_declaredBytes short h
    have frames : n.Frames d.encodings encoding (effectiveKind own delimiter) delimiter :=
      ⟨⟨body, kind⟩, ⟨label, labelled, known⟩, delimited, own, framed, rfl⟩
    obtain framing | ⟨bytes, mid, -, h⟩ := throws_bind.mp h
    · refine .of_aligned whole (readFramed_throws ?_ declares short frames framing)
      exact within
    · have h := behind_tellAt h
      cases readable : d.encodings.decode? encoding bytes with
      | none =>
        rw [readable] at h
        exact (Quiet.fail rfl).absurd short h
      | some chars =>
        rw [readable] at h
        have quiet : Quiet (d.matchString n st.reading.cursor (String.ofList chars)) :=
          matchString_quiet _
        obtain ⟨matched, _, -, h⟩ := quiet.rest short h
        obtain ⟨_, _, -, h⟩ := (Quiet.record _).rest short h
        exact absurd h throws_pure

theorem decodeBinary_throws {body : BinaryBody} (kind : n.kind = .binary body)
    (h : Throws (d.decodeBinary p n) st e st') : Shortage d p n st.reading e := by
  obtain ⟨declared, declares, h⟩ := behind_declaredBytes short (behind_tell (behind_align h))
  obtain ⟨choices, -, h⟩ := behind_resolved short h
  have miss : Misses p.limit st.reading e (declared.getD (p.limit - st.reading.cursor)) := by
    simp only [throws_bind, throws_ite, throws_record, throws_pure, and_false, exists_false,
      or_false] at h
    obtain ⟨-, skips⟩ | ⟨-, reads⟩ := h
    · obtain ⟨wants, beyond⟩ := skip_throws skips
      exact ⟨wants, .inl beyond⟩
    · obtain reads | ⟨bytes, mid, -, matches_⟩ := throws_bind.mp reads
      · obtain ⟨wants, beyond⟩ := read_throws reads
        exact ⟨wants, beyond⟩
      · refine Quiet.absurd ?_ short matches_
        exact .ite (.bind (.resolved _) fun _ =>
          .ite (.bind (violation_quiet rfl) fun _ => .pure _) (.pure _)) (.pure _)
  refine miss.shortage rfl (Nat.le_refl _) within fun beyond => ?_
  cases declared with
  | none =>
    -- What is left of the frame is never too much for it.
    change p.limit < st.reading.cursor + (p.limit - st.reading.cursor) at beyond
    omega
  | some len => exact .binary kind declares

omit within short in
theorem runScript_answers {host : ScriptHost Slice} {script : ScriptBody} {call : ScriptCall}
    {output : ScriptOutput} (h : Returns (d.runScript n host script call) st output st') :
    (host.run script call : Slice → Except String ScriptOutput × Slice) st.source =
      (.ok output, st'.source) := by
  unfold Returns ending runScript at h
  rcases ran : (host.run script call : Slice → Except String ScriptOutput × Slice) st.source
    with ⟨text | answer, source⟩ <;> rw [ran] at h <;> cases h
  rfl

omit within short in
theorem runScript_quiet (host : ScriptHost Slice) (script : ScriptBody) (call : ScriptCall) :
    Quiet (d.runScript n host script call) := by
  intro st e st' h
  unfold Throws ending runScript at h
  rcases ran : (host.run script call : Slice → Except String ScriptOutput × Slice) st.source
    with ⟨text | answer, source⟩ <;> rw [ran] at h <;> cases h
  rfl

theorem decodeScripted_throws {id : ElementId} (runs : n.RunsScript id)
    (h : Throws (d.decodeScripted p n id) st e st') : Shortage d p n st.reading e := by
  obtain ⟨script, _, looks, h⟩ := (node_quiet id).rest short (behind_tell (behind_align h))
  obtain ⟨found, same⟩ := node_returns.mp looks
  rw [same] at h
  cases defines : script.kind with
  | script body =>
    simp only [defines, decodeByScript] at h
    cases hosted : d.scripts with
    | none =>
      rw [hosted] at h
      exact (Quiet.fail rfl).absurd short h
    | some host =>
      rw [hosted] at h
      obtain ⟨declared, declares, h⟩ := behind_declaredBytes short h
      obtain ⟨output, after, ran, h⟩ := (runScript_quiet host body _).rest short h
      simp only [throws_guard_bind] at h
      obtain ⟨beyond, rfl, -⟩ | ⟨-, h⟩ := h
      · have answers := runScript_answers ran
        exact .all (.scripted runs found defines hosted declares answers) ⟨rfl, _, rfl⟩ within
          beyond
      · obtain ⟨_, _, -, h⟩ := (Quiet.seek _).rest short h
        exact absurd h throws_pure
  | _ =>
    simp only [defines] at h
    exact (Quiet.fail rfl).absurd short h

end Whole

end Decoder

end BinaryTemplate
