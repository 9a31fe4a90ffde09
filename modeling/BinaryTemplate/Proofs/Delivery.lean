import BinaryTemplate.Proofs.Tiling

/-!
# Steps that succeed

What a step has taken is told from its having returned. Here it is the other way round: from what
lies at the cursor it follows that a step succeeds, with which value, and where it leaves the
cursor. There is one rule for every way in which the steps of a decode are put together, so a
decode of known bytes is followed from its fields up to the whole file. A step may also be refused,
with an error that ends a run of instances; its rules stand beside the others.
-/

namespace BinaryTemplate

theorem Reading.afterBytes_add (r : Reading) (first more : Nat) :
    (r.afterBytes first).afterBytes more = r.afterBytes (first + more) := by
  simp only [afterBytes, Nat.add_assoc]

namespace DecodeM

variable {σ α β : Type} [ByteSource σ] [SliceLike σ] {s : Schema} {n : Node s} {offset : Nat}
  {before mid after : Reading} {a : α} {b : β} {step : DecodeM σ α} {next : α → DecodeM σ β}

/-- From every state with the reading `before`, the step returns `a` without a warning and leaves
the reading `after`. -/
def Delivers (step : DecodeM σ α) (before : Reading) (a : α) (after : Reading) : Prop :=
  ∀ st : DecodeState σ, st.reading = before →
    ∃ st', Returns step st a st' ∧ st'.reading = after ∧ st'.warnings = st.warnings

/-- From every state with the reading `before`, the step fails with a mismatch, and the bytes stay
as they are. -/
def Refuses (step : DecodeM σ α) (before : Reading) : Prop :=
  ∀ st : DecodeState σ, st.reading = before →
    ∃ e st', Throws step st e st' ∧ e.isMismatch = true ∧ st'.reading.data = before.data

/-- From every state with the reading `before`, the step fails with such an error. -/
def FailsWith (step : DecodeM σ α) (before : Reading) (such : DecodeError → Prop) : Prop :=
  ∀ st : DecodeState σ, st.reading = before → ∃ e st', Throws step st e st' ∧ such e

theorem Delivers.bind (first : Delivers step before a mid) (rest : Delivers (next a) mid b after) :
    Delivers (step >>= next) before b after := by
  intro st here
  obtain ⟨st', returned, there, kept⟩ := first st here
  obtain ⟨st'', returned', ended, kept'⟩ := rest st' there
  exact ⟨st'', returns_bind.mpr ⟨a, st', returned, returned'⟩, ended, kept'.trans kept⟩

/-- A step that leaves every state as it is. -/
theorem Delivers.still (h : ∀ st : DecodeState σ, Returns step st a st) :
    Delivers step before a before :=
  fun st here => ⟨st, h st, here, rfl⟩

theorem Delivers.pure : Delivers (Pure.pure a : DecodeM σ α) before a before :=
  .still fun _ => returns_pure.mpr ⟨rfl, rfl⟩

theorem Delivers.record {e : Event} :
    Delivers (DecodeM.record e : DecodeM σ Unit) before () before :=
  fun st here => ⟨{ st with events := e :: st.events }, returns_record.mpr rfl, here, rfl⟩

theorem Delivers.align :
    Delivers (DecodeM.align : DecodeM σ Unit) before () (before.afterBytes 0) := by
  rintro st rfl
  exact ⟨{ st with pending := [] }, returns_align.mpr rfl, rfl, rfl⟩

theorem Delivers.resolved {r : Except CycleError α} (known : r = .ok a) :
    Delivers (DecodeM.resolved n offset r : DecodeM σ α) before a before :=
  .still fun _ => returns_resolved.mpr ⟨known, rfl⟩

/-- What the state is read for depends on its reading only. -/
theorem Delivers.get_bind {next : DecodeState σ → DecodeM σ β}
    (rest : ∀ seen : DecodeState σ, seen.reading = before → Delivers (next seen) before b after) :
    Delivers (get >>= next) before b after := by
  intro st here
  obtain ⟨st', returned, ended⟩ := rest st here st here
  exact ⟨st', returns_bind.mpr ⟨st, st, returns_get.mpr ⟨rfl, rfl⟩, returned⟩, ended⟩

theorem Delivers.setPending {bits : List Bool} :
    Delivers (DecodeM.setPending bits : DecodeM σ Unit) before ()
      { before with pending := bits } := by
  rintro st rfl
  exact ⟨{ st with pending := bits }, returns_setPending.mpr rfl, rfl, rfl⟩

theorem Delivers.outcome (h : Delivers step before a after) :
    Delivers (DecodeM.outcome step) before (.ok a) after := by
  intro st here
  obtain ⟨st', returned, ended⟩ := h st here
  exact ⟨st', returns_outcome.mpr (.inl ⟨a, rfl, returned⟩), ended⟩

/-- From every state with the reading `before`, the step comes to `rest`, without a warning so far,
where the reading is `after`: both end alike, whether they return or throw. -/
def Leads (step : DecodeM σ α) (before : Reading) (rest : DecodeM σ α) (after : Reading) : Prop :=
  ∀ st : DecodeState σ, st.reading = before →
    ∃ st', st'.reading = after ∧ st'.warnings = st.warnings ∧ step.ending st = rest.ending st'

theorem Leads.refl : Leads step before step before := fun st here => ⟨st, here, rfl, rfl⟩

theorem Delivers.leads {rest : DecodeM σ β} (first : Delivers step before a mid)
    (behind : Leads (next a) mid rest after) : Leads (step >>= next) before rest after := by
  intro st here
  obtain ⟨st', returned, there, kept⟩ := first st here
  obtain ⟨st'', ended, kept', same⟩ := behind st' there
  exact ⟨st'', ended, kept'.trans kept, (ending_behind returned).trans same⟩

theorem Leads.delivers {rest : DecodeM σ α} (leads : Leads step before rest mid)
    (behind : Delivers rest mid a after) : Delivers step before a after := by
  intro st here
  obtain ⟨st', there, kept, same⟩ := leads st here
  obtain ⟨st'', returned, ended, kept'⟩ := behind st' there
  exact ⟨st'', same.trans returned, ended, kept'.trans kept⟩

theorem FailsWith.first {such : DecodeError → Prop} (h : FailsWith step before such) :
    FailsWith (step >>= next) before such := by
  intro st here
  obtain ⟨e, st', thrown, holds⟩ := h st here
  exact ⟨e, st', throws_bind.mpr (.inl thrown), holds⟩

theorem Delivers.fails {such : DecodeError → Prop} (first : Delivers step before a mid)
    (rest : FailsWith (next a) mid such) : FailsWith (step >>= next) before such := by
  intro st here
  obtain ⟨st', returned, there, -⟩ := first st here
  obtain ⟨e, st'', thrown, holds⟩ := rest st' there
  exact ⟨e, st'', (throws_behind returned).mpr thrown, holds⟩

theorem FailsWith.fail {such : DecodeError → Prop} {failure : Failure}
    (holds : such ⟨n.id, n.label, offset, failure⟩) :
    FailsWith (DecodeM.fail n offset failure : DecodeM σ α) before such :=
  fun st _ => ⟨_, st, throws_fail.mpr ⟨rfl, rfl⟩, holds⟩

theorem Leads.bind {rest : DecodeM σ α} (leads : Leads step before rest mid) :
    Leads (step >>= next) before (rest >>= next) mid := by
  intro st here
  obtain ⟨st', there, kept, same⟩ := leads st here
  refine ⟨st', there, kept, ?_⟩
  rw [ending_bind, ending_bind, same]

theorem Leads.trans {rest further : DecodeM σ α} (first : Leads step before rest mid)
    (behind : Leads rest mid further after) : Leads step before further after := by
  intro st here
  obtain ⟨st', there, kept, same⟩ := first st here
  obtain ⟨st'', ended, kept', same'⟩ := behind st' there
  exact ⟨st'', ended, kept'.trans kept, same.trans same'⟩

theorem Leads.fails {rest : DecodeM σ α} {such : DecodeError → Prop}
    (leads : Leads step before rest mid) (behind : FailsWith rest mid such) :
    FailsWith step before such := by
  intro st here
  obtain ⟨st', there, -, same⟩ := leads st here
  obtain ⟨e, st'', thrown, holds⟩ := behind st' there
  exact ⟨e, st'', same.trans thrown, holds⟩

theorem Refuses.first (h : Refuses step before) : Refuses (step >>= next) before := by
  intro st here
  obtain ⟨e, st', thrown, rest⟩ := h st here
  exact ⟨e, st', throws_bind.mpr (.inl thrown), rest⟩

/-- A step that succeeds and leaves the bytes as they are passes the refusal of the rest on. -/
theorem Delivers.refuses (first : Delivers step before a mid) (rest : Refuses (next a) mid)
    (same : mid.data = before.data) : Refuses (step >>= next) before := by
  intro st here
  obtain ⟨st', returned, there, -⟩ := first st here
  obtain ⟨e, st'', thrown, mismatch, data⟩ := rest st' there
  exact ⟨e, st'', (throws_behind returned).mpr thrown, mismatch, data.trans same⟩

/-! ## Operations on the source -/

/-- An operation that cannot fail at a reading delivers what it returns there. -/
theorem Delivers.onSource {operation : SourceM σ α}
    (succeeds : ∀ st e st', st.reading = before →
      ¬ Throws (DecodeM.onSource n offset operation) st e st')
    (ends : ∀ st a' st', st.reading = before →
      Returns (DecodeM.onSource n offset operation) st a' st' → a' = a ∧ st'.reading = after) :
    Delivers (DecodeM.onSource n offset operation) before a after := by
  intro st here
  obtain ⟨a', st', returned⟩ | ⟨e, st', thrown⟩ :=
    returns_or_throws (DecodeM.onSource n offset operation) st
  · obtain ⟨rfl, ended⟩ := ends st a' st' here returned
    obtain ⟨source, -, rfl⟩ := returns_onSource.mp returned
    exact ⟨_, returned, ended, rfl⟩
  · exact absurd thrown (succeeds st e st' here)

theorem Delivers.tellAt :
    Delivers (DecodeM.tellAt n offset : DecodeM σ Nat) before before.cursor before := by
  apply Delivers.onSource
  · intro st e st' _
    exact not_tellAt_throws
  · rintro st position st' rfl returned
    exact tellAt_returns returned

theorem Delivers.tell : Delivers (DecodeM.tell n : DecodeM σ Nat) before before.cursor before :=
  .tellAt

theorem Delivers.size :
    Delivers (DecodeM.onSource n offset ByteSource.size : DecodeM σ Nat) before before.data.size
      before := by
  apply Delivers.onSource
  · intro st e st' _ thrown
    obtain ⟨cause, source, ended, -⟩ := throws_onSource.mp thrown
    have told := SliceLike.slice_of_operation (SliceLike.size_slice _) ended
    cases told
  · rintro st size st' rfl returned
    exact size_returns returned

theorem Delivers.readExact {count : Nat} (present : before.cursor + count ≤ before.data.size) :
    Delivers (DecodeM.onSource n offset (ByteSource.readExact count) : DecodeM σ (List UInt8))
      before (window before.data before.cursor count)
      { before with cursor := before.cursor + count } := by
  apply Delivers.onSource
  · rintro st e st' rfl thrown
    obtain ⟨short, -⟩ := readExact_throws thrown
    omega
  · rintro st bytes st' rfl returned
    exact (readExact_returns returned).2

theorem Delivers.readByte {b : UInt8} (present : before.cursor + 1 ≤ before.data.size)
    (byte : window before.data before.cursor 1 = [b]) :
    Delivers (DecodeM.onSource n offset ByteSource.readByte : DecodeM σ UInt8) before b
      { before with cursor := before.cursor + 1 } := by
  intro st here
  have whole : Delivers (DecodeM.onSource n offset (ByteSource.readExact 1) :
      DecodeM σ (List UInt8)) before _ _ := .readExact present
  obtain ⟨_, returned, ended, kept⟩ := whole st here
  obtain ⟨source, read, rfl⟩ := returns_onSource.mp returned
  rw [byte] at read
  refine ⟨_, returns_onSource.mpr ⟨source, ?_, rfl⟩, ended, kept⟩
  exact bind_of_ok read

theorem Delivers.seek {position : Nat} :
    Delivers (DecodeM.seek n offset position : DecodeM σ Unit) before ()
      { before with cursor := position } := by
  rintro st rfl
  obtain ⟨st', returned⟩ := seek_succeeds n offset position st
  refine ⟨st', returned, seek_returns returned, ?_⟩
  simp only [DecodeM.seek, returns_bind, returns_onSource, returns_pure] at returned
  obtain ⟨_, _, ⟨source, -, rfl⟩, -, rfl⟩ := returned
  rfl

end DecodeM

namespace Decoder

open DecodeM

variable {σ : Type} [ByteSource σ] [SliceLike σ] {d : Decoder σ} {child : d.DecodeChild}
  {p : Place} {n : Node d.schema} {offset : Nat} {before mid after : Reading}

theorem node_delivers {id : ElementId} (found : d.schema.node? id = some n) :
    Delivers (d.node id offset) before n before :=
  .still fun _ => node_returns.mpr ⟨found, rfl⟩

/-! ## Fields of whole bytes -/

theorem checkBound_delivers {count : Nat} (within : before.cursor + count ≤ p.limit) :
    Delivers (d.checkBound p n count) before before.cursor before := by
  apply Delivers.tell.bind
  rw [if_neg (by omega)]
  exact .pure

theorem checkBound_refuses {count : Nat} (beyond : p.limit < before.cursor + count) :
    Refuses (d.checkBound p n count) before := by
  refine Delivers.tell.refuses ?_ rfl
  rw [if_pos beyond]
  apply Refuses.first
  intro st here
  exact ⟨_, st, throws_fail.mpr ⟨rfl, rfl⟩, rfl, congrArg Reading.data here⟩

theorem read_delivers {count : Nat} (holds : before.Holds p.limit count) :
    Delivers (d.read p n count) before (window before.data before.cursor count)
      { before with cursor := before.cursor + count } :=
  (checkBound_delivers holds.1).bind (.readExact holds.2)

theorem skip_delivers {count : Nat} (within : before.cursor + count ≤ p.limit) :
    Delivers (d.skip p n count) before () { before with cursor := before.cursor + count } :=
  (checkBound_delivers within).bind .seek

theorem readBytes_delivers {offset : Nat} {order : ByteOrder} {width : Nat}
    (holds : before.Holds p.limit (width / 8)) :
    Delivers (d.readBytes p n offset order width) before
      ⟨Bytes.toNatIn order (window before.data before.cursor (width / 8)), before.cursor,
        width / 8, none, width⟩ (before.afterBytes (width / 8)) := by
  have reads : Delivers (d.read p n (width / 8)) (before.afterBytes 0)
      (window before.data before.cursor (width / 8)) (before.afterBytes (width / 8)) :=
    read_delivers holds
  apply Delivers.align.bind
  apply Delivers.tellAt.bind
  apply reads.bind
  cases order <;> exact Delivers.record.bind .pure

/-- The bytes for a bit field are read if the frame and the data have them all. -/
theorem pullBytes_delivers {more consumed : Nat} (start : before.cursor = offset + consumed)
    (holds : 0 < more → before.Holds p.limit more) :
    Delivers (d.pullBytes p n offset more consumed) before (window before.data before.cursor more)
      { before with cursor := before.cursor + more } := by
  induction more generalizing before consumed with
  | zero =>
    rw [pullBytes, window_zero]
    exact .pure
  | succ more inductionHypothesis =>
    obtain ⟨within, present⟩ := holds (by omega)
    have one : (window before.data before.cursor 1).length = 1 := length_window (by omega)
    obtain ⟨b, only⟩ := List.length_eq_one_iff.mp one
    have joined := window_add before.data before.cursor 1 more
    rw [only, Nat.add_comm 1 more] at joined
    rw [pullBytes, if_neg (by omega), ← joined]
    apply (Delivers.readByte (by omega) only).bind
    have behind : { before with cursor := before.cursor + 1 }.Holds p.limit more :=
      ⟨by dsimp only; omega, by dsimp only; omega⟩
    have rest : Delivers (d.pullBytes p n offset more (consumed + 1))
        { before with cursor := before.cursor + 1 } _ _ :=
      inductionHypothesis (by dsimp only; omega) fun _ => behind
    dsimp only at rest
    rw [Nat.add_right_comm, Nat.add_assoc before.cursor more 1] at rest
    exact rest.bind .pure

/-- Bits are read if the frame and the data have the bytes for them, and the first bit an index. -/
theorem readBits_delivers {width : Nat}
    (indexed : nextBit before.cursor before.pending.length < positionLimit)
    (holds : 0 < before.bytesFor width → before.Holds p.limit (before.bytesFor width)) :
    Delivers (d.readBits p n width) before
      ⟨Bits.toNat ((before.upcoming width).take width), before.cursor, before.bytesFor width,
        some ⟨nextBit before.cursor before.pending.length, width⟩, width⟩
      (before.afterBits width) := by
  have count : (window before.data before.cursor (before.bytesFor width)).length =
      before.bytesFor width := length_window_of_holds holds
  apply Delivers.tell.bind
  refine .get_bind fun seen here => ?_
  have pending : seen.pending = before.pending := congrArg Reading.pending here
  rw [pending, if_neg (by omega)]
  apply (pullBytes_delivers (by rfl) holds).bind
  apply Delivers.setPending.bind
  apply Delivers.record.bind
  rw [count]
  exact .pure

/-- A pattern is read wherever the bytes or bits that it takes are there. -/
theorem readRaw_delivers {order : ByteOrder} {unit : LengthUnit} {width : Nat} {r : RawNumber}
    (wide : d.HasWidth p n unit width) (raw : RawRead p.limit order width before unit r after)
    (indexed : unit = .bit → nextBit before.cursor before.pending.length < positionLimit) :
    Delivers (d.readRaw p n order) before r after := by
  obtain ⟨length, units, declared, found, counts, rfl, some, most⟩ := wide
  apply Delivers.tell.bind
  apply (Delivers.resolved declared).bind
  apply (Delivers.resolved found).bind
  apply (Delivers.still fun _ => evalCount_returns.mpr ⟨counts, rfl⟩).bind
  dsimp only
  rw [if_neg (by omega)]
  cases raw with
  | bits holds => exact readBits_delivers (indexed rfl) holds
  | bytes holds => exact readBytes_delivers holds

/-- A number whose value neither is compared with anything nor has masks. -/
structure Unconstrained (d : Decoder σ) (p : Place) (n : Node d.schema) : Prop where
  unlisted : n.numberValues = .ok []
  bounded : d.Gives p n .minVal none ∧ d.Gives p n .maxVal none
  unmasked : n.masks = .ok []

theorem finishNumber_delivers {order : ByteOrder} {len : Nat} {value : NumberValue}
    {bits : Option BitSpan} (free : d.Unconstrained p n) :
    Delivers (d.finishNumber p n offset len value bits order) before
      ⟨n.id, offset, len, some order, .number value none [] bits, []⟩ before := by
  have matches_ : Delivers (d.matchNumber n offset value) before none before := by
    apply (Delivers.resolved free.unlisted).bind
    simp only [List.isEmpty_nil, Bool.not_true, Bool.false_and, Bool.false_eq_true, if_false]
    cases value.toInt? <;> exact .pure
  have ranges : Delivers (d.checkRange p n offset value) before () before := by
    apply (Delivers.still fun _ => evalAttribute_returns.mpr ⟨free.bounded.1, rfl⟩).bind
    apply (Delivers.still fun _ => evalAttribute_returns.mpr ⟨free.bounded.2, rfl⟩).bind
    exact .pure
  apply matches_.bind
  apply ranges.bind
  apply (Delivers.resolved free.unmasked).bind
  exact Delivers.record.bind .pure

omit [ByteSource σ] [SliceLike σ] in
theorem interpret_of_interprets {kind : NumberKind} {r : RawNumber} {value : NumberValue}
    (means : Interprets r kind value) (st : DecodeState σ) :
    Returns (d.interpret n kind r) st value st := by
  cases means with
  | unsigned | signed => exact returns_pure.mpr ⟨rfl, rfl⟩
  | single width =>
    rw [interpret, if_pos width]
    exact returns_pure.mpr ⟨rfl, rfl⟩
  | double width =>
    rw [interpret, if_neg (by omega), if_pos width]
    exact returns_pure.mpr ⟨rfl, rfl⟩

/-- Once its pattern is read and has a value, all that is left of a number is the check of that. -/
theorem decodeNumber_leads {kind : NumberKind} {order : ByteOrder} {unit : LengthUnit}
    {width : Nat} {r : RawNumber} {value : NumberValue}
    (plain : n.lookup .valueExpression = .ok none) (ofKind : n.numberKind = .ok kind)
    (ordered : n.byteOrder = .ok order) (wide : d.HasWidth p n unit width)
    (raw : RawRead p.limit order width before unit r after) (means : Interprets r kind value)
    (indexed : unit = .bit → nextBit before.cursor before.pending.length < positionLimit) :
    Leads (d.decodeNumber p n) before (d.finishNumber p n r.offset r.len value r.bits order)
      after := by
  apply Delivers.tell.leads
  apply (Delivers.resolved ofKind).leads
  apply (Delivers.resolved ordered).leads
  apply (Delivers.resolved plain).leads
  apply (readRaw_delivers wide raw indexed).leads
  exact (Delivers.still (interpret_of_interprets means)).leads .refl

/-- A number that is read from so many whole bytes in an order, and that nothing constrains. -/
structure PlainNumber (d : Decoder σ) (p : Place) (n : Node d.schema) (order : ByteOrder)
    (len : Nat) : Prop where
  isRead : n.lookup .valueExpression = .ok none
  kind : n.numberKind = .ok .unsigned
  ordered : n.byteOrder = .ok order
  unit : n.lengthUnit = .ok .byte
  length : ∃ r, n.lookup .length = .ok (some r) ∧ d.Counts p r len
  wide : 0 < len ∧ len ≤ 8
  unlisted : n.numberValues = .ok []
  bounded : d.Gives p n .minVal none ∧ d.Gives p n .maxVal none
  unmasked : n.masks = .ok []

/-- The value of such a number. -/
def numberValue (id : ElementId) (offset len : Nat) (order : ByteOrder) (k : Nat) : Value :=
  ⟨id, offset, len, some order, .number (.unsigned (UInt64.ofNat k)) none [] none, []⟩

omit [ByteSource σ] [SliceLike σ] in
/-- The pattern of so many whole bytes. -/
theorem rawRead_of_bytes {order : ByteOrder} {limit len : Nat} (holds : before.Holds limit len) :
    RawRead limit order (len * 8) before .byte
      ⟨Bytes.toNatIn order (window before.data before.cursor len), before.cursor, len, none,
        len * 8⟩ (before.afterBytes len) := by
  have whole : len * 8 / 8 = len := Nat.mul_div_cancel _ (by decide)
  have read : RawRead limit order (len * 8) before .byte _ _ := .bytes (whole.symm ▸ holds)
  rwa [whole] at read

theorem decodeNumber_delivers {order : ByteOrder} {len : Nat} (plain : d.PlainNumber p n order len)
    (holds : before.Holds p.limit len) :
    Delivers (d.decodeNumber p n) before
      (numberValue n.id before.cursor len order
        (Bytes.toNatIn order (window before.data before.cursor len)))
      (before.afterBytes len) := by
  obtain ⟨r, declared, counts⟩ := plain.length
  have ranges := plain.wide
  have wide : d.HasWidth p n .byte (len * 8) :=
    ⟨r, len, declared, plain.unit, counts, rfl, by omega, by omega⟩
  have leads := decodeNumber_leads plain.isRead plain.kind plain.ordered wide
    (rawRead_of_bytes holds) .unsigned nofun
  exact leads.delivers (finishNumber_delivers ⟨plain.unlisted, plain.bounded, plain.unmasked⟩)

/-- A run of bytes of some length that nothing constrains. -/
structure PlainBinary (d : Decoder σ) (p : Place) (n : Node d.schema) (len : Nat) : Prop where
  length : d.Declares p n (some len)
  unlisted : n.binaryValues = .ok []

/-- The value of such a run of bytes. -/
def binaryValue (id : ElementId) (offset len : Nat) : Value :=
  ⟨id, offset, len, none, .binary none, []⟩

theorem decodeBinary_delivers {len : Nat} (plain : d.PlainBinary p n len)
    (within : before.cursor + len ≤ p.limit) :
    Delivers (d.decodeBinary p n) before (binaryValue n.id before.cursor len)
      (before.afterBytes len) := by
  apply Delivers.align.bind
  apply Delivers.tell.bind
  apply (Delivers.still fun _ => declaredBytes_returns.mpr ⟨plain.length, rfl⟩).bind
  apply (Delivers.resolved plain.unlisted).bind
  have skips : Delivers (d.skip p n len) (before.afterBytes 0) () (before.afterBytes len) :=
    skip_delivers within
  simp only [List.isEmpty_nil, if_true, pure_bind]
  apply skips.bind
  exact Delivers.record.bind .pure

theorem decodeBinary_refuses {len : Nat} (plain : d.PlainBinary p n len)
    (beyond : p.limit < before.cursor + len) : Refuses (d.decodeBinary p n) before := by
  have bounded : Refuses (d.checkBound p n len) (before.afterBytes 0) := checkBound_refuses beyond
  refine Delivers.align.refuses ?_ rfl
  refine Delivers.tell.refuses ?_ rfl
  refine (Delivers.still fun _ => declaredBytes_returns.mpr ⟨plain.length, rfl⟩).refuses ?_ rfl
  refine (Delivers.resolved plain.unlisted).refuses ?_ rfl
  simp only [List.isEmpty_nil, if_true, pure_bind]
  exact bounded.first.first

/-! ## Runs -/

theorem take_succeeds (n : Node d.schema) (st : DecodeState σ) :
    ∃ mark st', Returns (Mark.take n) st mark st' ∧ Marked mark st' ∧ st.Resumes st' := by
  obtain ⟨mark, st', taken⟩ | ⟨e, st', thrown⟩ := returns_or_throws (Mark.take n) st
  · exact ⟨mark, st', taken, marked_of_take taken⟩
  · exact absurd thrown Mark.not_take_throws

/-- A run that is not full, and whose frame is not spent where the run might end, ends as the
attempt at its next instance does. -/
theorem repeatFrom_attempts {min room count : Nat} {max : Option Nat} {p' : Place} {mark : Mark}
    {st start st' : DecodeState σ} (free : max.any (· ≤ count) = false)
    (takes : Returns (Mark.take n) st mark start) (marked : Marked mark start)
    (left : min ≤ count → ¬ Spent p start)
    (attempt : Returns (do
      match ← outcome (child p n) with
      | .ok v =>
        if v.len = 0 ∧ max.isNone then return p.complete v
        d.repeatFrom child n min max room (count + 1) (p.complete v)
      | .error e =>
        if max.isNone && min ≤ count && e.isMismatch then
          record (.runEnded n.label count e)
          mark.rewind n
          return p
        throw e) start p' st') :
    Returns (d.repeatFrom child n min max (room + 1) count p) st p' st' := by
  rw [repeatFrom.eq_def]
  simp only [free, Bool.false_eq_true, if_false]
  refine returns_bind.mpr ⟨mark, start, takes, ?_⟩
  by_cases enough : min ≤ count
  · rw [if_pos enough]
    have unspent := mt (marked.spent (p := p)).mp (left enough)
    refine returns_bind.mpr ⟨_, start, exhausted_returns.mpr ⟨rfl, rfl⟩, ?_⟩
    rw [if_neg unspent]
    exact attempt
  · rw [if_neg enough]
    exact attempt

section Repeating

variable {min room count : Nat} {max : Option Nat} {p' : Place} {v : Value}

theorem repeatFrom_full (full : max.any (· ≤ count) = true) :
    Delivers (d.repeatFrom child n min max room count p) before p before := by
  rw [repeatFrom.eq_def]
  simp only [full, if_true]
  exact .pure

/-- A run that has enough instances ends where its frame ends. -/
theorem repeatFrom_spent (free : max.any (· ≤ count) = false) (enough : min ≤ count)
    (spent : p.limit ≤ before.cursor) (aligned : before.pending = []) :
    Delivers (d.repeatFrom child n min max room count p) before p before := by
  rintro st rfl
  obtain ⟨mark, start, takes, marked, resumes⟩ := take_succeeds n st
  refine ⟨start, ?_, resumes.reading, resumes.warnings⟩
  rw [repeatFrom.eq_def]
  simp only [free, Bool.false_eq_true, if_false]
  refine returns_bind.mpr ⟨mark, start, takes, ?_⟩
  rw [← resumes.reading] at spent aligned
  rw [if_pos enough]
  refine returns_bind.mpr ⟨_, start, exhausted_returns.mpr ⟨rfl, rfl⟩, ?_⟩
  rw [if_pos (marked.spent.mpr ⟨spent, aligned⟩)]
  exact returns_pure.mpr ⟨rfl, rfl⟩

/-- A run takes one more instance and goes on behind it. -/
theorem repeatFrom_more (free : max.any (· ≤ count) = false)
    (left : min ≤ count → before.cursor < p.limit) (taken : Delivers (child p n) before v mid)
    (progress : max = none → v.len ≠ 0)
    (others : Delivers (d.repeatFrom child n min max room (count + 1) (p.complete v)) mid p'
      after) :
    Delivers (d.repeatFrom child n min max (room + 1) count p) before p' after := by
  rintro st rfl
  obtain ⟨mark, start, takes, marked, resumes⟩ := take_succeeds n st
  obtain ⟨got, decoded, there, kept⟩ := taken start resumes.reading
  obtain ⟨st', returned, ended, kept'⟩ := others got there
  refine ⟨st', ?_, ended, kept'.trans (kept.trans resumes.warnings)⟩
  apply repeatFrom_attempts free takes marked
  · rintro enough ⟨spent, -⟩
    have inside := left enough
    rw [← resumes.reading] at inside
    omega
  · refine returns_bind.mpr ⟨.ok v, got, returns_outcome.mpr (.inl ⟨v, rfl, decoded⟩), ?_⟩
    dsimp only
    rw [if_neg]
    · exact returned
    · rintro ⟨empty, openEnded⟩
      exact progress (Option.isNone_iff_eq_none.mp openEnded) empty

/-- An open-ended run that has enough instances ends where another one is refused, with the cursor
and the unread bits from before that attempt. -/
theorem repeatFrom_ended (enough : min ≤ count) (left : before.cursor < p.limit)
    (refused : Refuses (child p n) before) :
    Delivers (d.repeatFrom child n min none (room + 1) count p) before p before := by
  rintro st rfl
  obtain ⟨mark, start, takes, marked, resumes⟩ := take_succeeds n st
  obtain ⟨e, failed, thrown, mismatch, data⟩ := refused start resumes.reading
  -- The attempt is put on record, and the mark has what it is put back to.
  obtain ⟨back, rewinds⟩ : ∃ back, Returns (mark.rewind n)
      { failed with events := .runEnded n.label count e :: failed.events } () back := by
    obtain ⟨_, back, rewinds⟩ | ⟨_, _, impossible⟩ := returns_or_throws (mark.rewind n)
        { failed with events := .runEnded n.label count e :: failed.events }
    · exact ⟨back, rewinds⟩
    · exact absurd impossible Mark.not_rewind_throws
  obtain ⟨reading, warnings⟩ := Mark.rewind_returns rewinds
  refine ⟨back, ?_, ?_, warnings.trans (marked.warnings.trans resumes.warnings)⟩
  · apply repeatFrom_attempts rfl takes marked
    · rintro - ⟨spent, -⟩
      rw [← resumes.reading] at left
      omega
    · refine returns_bind.mpr
        ⟨.error e, failed, returns_outcome.mpr (.inr ⟨e, rfl, thrown⟩), ?_⟩
      simp only [Option.isNone_none, enough, decide_true, mismatch, Bool.and_self, if_true]
      exact returns_bind.mpr ⟨(), _, returns_record.mpr rfl,
        returns_bind.mpr ⟨(), back, rewinds, returns_pure.mpr ⟨rfl, rfl⟩⟩⟩
  · rw [reading, marked.position, marked.pending, resumes.reading]
    exact congrArg (Reading.mk · _ _) data

/-- A run that cannot do without its next instance is refused with it. -/
theorem repeatFrom_refuses (free : max.any (· ≤ count) = false) (few : ¬ min ≤ count)
    (refused : Refuses (child p n) before) :
    Refuses (d.repeatFrom child n min max (room + 1) count p) before := by
  rintro st rfl
  obtain ⟨mark, start, takes, marked, resumes⟩ := take_succeeds n st
  obtain ⟨e, failed, thrown, mismatch, data⟩ := refused start resumes.reading
  refine ⟨e, failed, ?_, mismatch, data⟩
  rw [repeatFrom.eq_def]
  simp only [free, Bool.false_eq_true, if_false]
  refine (throws_behind takes).mpr ?_
  rw [if_neg few]
  refine (throws_behind (returns_outcome.mpr (.inr ⟨e, rfl, thrown⟩))).mpr ?_
  simp only [few, decide_false, Bool.and_false, Bool.false_and, Bool.false_eq_true, if_false]
  exact throws_throw.mpr ⟨rfl, rfl⟩

end Repeating

/-- A run at whose place its bounds are known. -/
theorem decodeRepeated_delivers {min : Nat} {max : Option Nat} {p' : Place}
    (bounds : d.Bounds p n min max)
    (run : Delivers (d.repeatFrom child n (required min max) max d.options.maxRepeat 0 p) before p'
      after) : Delivers (d.decodeRepeated child p n) before p' after := by
  apply Delivers.tell.bind
  apply (Delivers.still fun _ => repeatBounds_returns.mpr ⟨⟨min, bounds, rfl⟩, rfl⟩).bind
  exact run

theorem decodeRepeated_refuses {min : Nat} {max : Option Nat} (bounds : d.Bounds p n min max)
    (run : Refuses (d.repeatFrom child n (required min max) max d.options.maxRepeat 0 p) before) :
    Refuses (d.decodeRepeated child p n) before := by
  refine Delivers.tell.refuses ?_ rfl
  refine (Delivers.still fun _ => repeatBounds_returns.mpr ⟨⟨min, bounds, rfl⟩, rfl⟩).refuses ?_ rfl
  exact run

/-- An element that occurs once, which is what an element without bounds does. -/
theorem decodeRepeated_once {v : Value} (once : d.Bounds p n 1 (some 1))
    (some : 0 < d.options.maxRepeat) (taken : Delivers (child p n) before v after) :
    Delivers (d.decodeRepeated child p n) before (p.complete v) after := by
  apply decodeRepeated_delivers once
  obtain ⟨room, more⟩ := Nat.exists_eq_add_of_lt some
  rw [more, Nat.zero_add]
  refine repeatFrom_more rfl ?_ taken nofun (repeatFrom_full rfl)
  intro impossible
  cases impossible

theorem decodeRepeated_once_refuses (once : d.Bounds p n 1 (some 1))
    (some : 0 < d.options.maxRepeat) (refused : Refuses (child p n) before) :
    Refuses (d.decodeRepeated child p n) before := by
  apply decodeRepeated_refuses once
  obtain ⟨room, more⟩ := Nat.exists_eq_add_of_lt some
  rw [more, Nat.zero_add]
  exact repeatFrom_refuses rfl nofun refused

/-! ## Containers -/

theorem decodeDeclared_delivers {id : ElementId} {ids : List ElementId} {p' p'' : Place}
    (found : d.schema.node? id = some n) (on : Disabled n false)
    (first : Delivers (d.decodeRepeated child p n) before p' mid)
    (others : Delivers (d.decodeDeclared child ids p') mid p'' after) :
    Delivers (d.decodeDeclared child (id :: ids) p) before p'' after := by
  apply (node_delivers found).bind
  apply (Delivers.still fun _ => isDisabled_returns.mpr ⟨on, rfl⟩).bind
  simp only [Bool.false_eq_true, if_false]
  exact first.bind others

theorem decodeDeclared_refuses {id : ElementId} {ids : List ElementId}
    (found : d.schema.node? id = some n) (on : Disabled n false)
    (rest : Refuses (d.decodeRepeated child p n >>= d.decodeDeclared child ids) before) :
    Refuses (d.decodeDeclared child (id :: ids) p) before := by
  refine (node_delivers found).refuses ?_ rfl
  refine (Delivers.still fun _ => isDisabled_returns.mpr ⟨on, rfl⟩).refuses ?_ rfl
  simp only [Bool.false_eq_true, if_false]
  exact rest

theorem decodeContainer_delivers {definition : Option ElementId} {ids : List ElementId}
    {order : ChildOrder} {declared : Option Nat} {vs : List Value}
    (within : (inside p n definition before.cursor declared).limit ≤ p.limit)
    (content : Delivers
      (d.decodeContent child n ids order (inside p n definition before.cursor declared))
      (before.afterBytes 0) ((inside p n definition before.cursor declared).completeAll vs) mid)
    (length : ∀ len, declared = some len → len = mid.cursor - before.cursor) :
    Delivers (d.decodeContainer child p n definition ids order declared) before
      ⟨n.id, before.cursor, mid.cursor - before.cursor, none, .none, vs⟩ (mid.afterBytes 0) := by
  apply Delivers.align.bind
  apply Delivers.tell.bind
  apply (Delivers.still fun _ => containerStop_returns.mpr ⟨rfl, within, rfl⟩).bind
  apply Delivers.record.bind
  apply content.outcome.bind
  apply Delivers.align.bind
  apply Delivers.tellAt.bind
  have sized : Delivers
      (d.containerLength n before.cursor (mid.cursor - before.cursor) declared : DecodeM σ Nat)
      (mid.afterBytes 0) (mid.cursor - before.cursor) (mid.afterBytes 0) := by
    cases declared with
    | none => exact .pure
    | some len =>
      show Delivers (if len = mid.cursor - before.cursor then pure len else _) _ _ _
      rw [if_pos (length len rfl), length len rfl]
      exact .pure
  apply sized.bind
  -- The frame starts without values, so its children are those of the content.
  rw [Place.children_completeAll]
  exact .pure

/-- A container that declares no length is refused as its content is. -/
theorem decodeContainer_refuses {definition : Option ElementId} {ids : List ElementId}
    {order : ChildOrder}
    (content : Refuses
      (d.decodeContent child n ids order (inside p n definition before.cursor none))
      (before.afterBytes 0)) :
    Refuses (d.decodeContainer child p n definition ids order none) before := by
  refine Delivers.align.refuses ?_ rfl
  refine Delivers.tell.refuses ?_ rfl
  refine (Delivers.still fun _ =>
    containerStop_returns.mpr ⟨rfl, Nat.le_refl _, rfl⟩).refuses ?_ rfl
  refine Delivers.record.refuses ?_ rfl
  intro st here
  obtain ⟨e, failed, thrown, mismatch, data⟩ := content st here
  refine ⟨e, { failed with pending := [] }, ?_, mismatch, data⟩
  refine (throws_behind (returns_outcome.mpr (.inr ⟨e, rfl, thrown⟩))).mpr ?_
  have aligned : Returns align failed () { failed with pending := [] } := returns_align.mpr rfl
  refine (throws_behind aligned).mpr ?_
  exact throws_throw.mpr ⟨rfl, rfl⟩

/-! ## Elements -/

theorem decodeOne_delivers {depth : Nat} {v : Value}
    (h : Delivers (d.decodeKind (d.decodeOne depth) p n before.cursor) before v after) :
    Delivers (d.decodeOne (depth + 1) p n) before v after := by
  apply Delivers.record.bind
  apply Delivers.tell.bind
  exact h

theorem decodeOne_refuses {depth : Nat}
    (h : Refuses (d.decodeKind (d.decodeOne depth) p n before.cursor) before) :
    Refuses (d.decodeOne (depth + 1) p n) before := by
  refine Delivers.record.refuses ?_ rfl
  refine Delivers.tell.refuses ?_ rfl
  exact h

theorem decodeOne_number {depth : Nat} {body : NumberBody} {order : ByteOrder} {len : Nat}
    (kind : n.kind = .number body) (plain : d.PlainNumber p n order len)
    (holds : before.Holds p.limit len) :
    Delivers (d.decodeOne (depth + 1) p n) before
      (numberValue n.id before.cursor len order
        (Bytes.toNatIn order (window before.data before.cursor len)))
      (before.afterBytes len) := by
  apply decodeOne_delivers
  simp only [decodeKind, kind]
  exact decodeNumber_delivers plain holds

theorem decodeOne_binary {depth : Nat} {body : BinaryBody} {len : Nat}
    (kind : n.kind = .binary body) (plain : d.PlainBinary p n len)
    (within : before.cursor + len ≤ p.limit) :
    Delivers (d.decodeOne (depth + 1) p n) before (binaryValue n.id before.cursor len)
      (before.afterBytes len) := by
  apply decodeOne_delivers
  simp only [decodeKind, kind]
  exact decodeBinary_delivers plain within

theorem decodeOne_binary_refuses {depth : Nat} {body : BinaryBody} {len : Nat}
    (kind : n.kind = .binary body) (plain : d.PlainBinary p n len)
    (beyond : p.limit < before.cursor + len) : Refuses (d.decodeOne (depth + 1) p n) before := by
  apply decodeOne_refuses
  simp only [decodeKind, kind]
  exact decodeBinary_refuses plain beyond

/-- The value of a structure or a grammar with the given children. -/
def containerValue (id : ElementId) (start stop : Nat) (vs : List Value) : Value :=
  ⟨id, start, stop - start, none, .none, vs⟩

theorem decodeOne_structure {depth count : Nat} {body : StructureBody} {declared : Option Nat}
    {vs : List Value} (kind : n.kind = .structure body) (ordered : n.order = .ok .declared)
    (spans : d.Spans p n declared)
    (within : (inside p n none before.cursor declared).limit ≤ p.limit)
    (content : Delivers
      (d.decodeDeclared (d.decodeOne depth) body.children (inside p n none before.cursor declared))
      (before.afterBytes 0) ((inside p n none before.cursor declared).completeAll vs)
      (before.afterBytes count))
    (length : ∀ len, declared = some len → len = count) :
    Delivers (d.decodeOne (depth + 1) p n) before
      (containerValue n.id before.cursor (before.cursor + count) vs) (before.afterBytes count) := by
  apply decodeOne_delivers
  simp only [decodeKind, kind]
  apply Delivers.align.bind
  apply Delivers.tell.bind
  apply (Delivers.resolved ordered).bind
  apply (Delivers.still fun _ => structureLength_returns.mpr ⟨spans, rfl⟩).bind
  rw [if_pos rfl, kind]
  have exact : ∀ len, declared = some len → len = before.cursor + count - before.cursor :=
    fun len set => (length len set).trans (Nat.add_sub_cancel_left ..).symm
  have decoded : Delivers (d.decodeContainer (d.decodeOne depth) p n none
      (Kind.structure body).children .declared declared) (before.afterBytes 0) _ _ :=
    decodeContainer_delivers within content exact
  exact decoded

theorem decodeOne_structure_refuses {depth : Nat} {body : StructureBody}
    (kind : n.kind = .structure body) (ordered : n.order = .ok .declared)
    (spans : d.Spans p n none)
    (content : Refuses
      (d.decodeDeclared (d.decodeOne depth) body.children (inside p n none before.cursor none))
      (before.afterBytes 0)) : Refuses (d.decodeOne (depth + 1) p n) before := by
  apply decodeOne_refuses
  simp only [decodeKind, kind]
  refine Delivers.align.refuses ?_ rfl
  refine Delivers.tell.refuses ?_ rfl
  refine (Delivers.resolved ordered).refuses ?_ rfl
  refine (Delivers.still fun _ => structureLength_returns.mpr ⟨spans, rfl⟩).refuses ?_ rfl
  rw [if_pos rfl, kind]
  have refused : Refuses (d.decodeContainer (d.decodeOne depth) p n none
      (Kind.structure body).children .declared none) (before.afterBytes 0) :=
    decodeContainer_refuses content
  exact refused

theorem decodeOne_grammar {depth count : Nat} {body : GrammarBody} {vs : List Value}
    (kind : n.kind = .grammar body) (unstarted : body.start = none)
    (content : Delivers
      (d.decodeDeclared (d.decodeOne depth) body.children (inside p n none before.cursor none))
      (before.afterBytes 0) ((inside p n none before.cursor none).completeAll vs)
      (before.afterBytes count)) :
    Delivers (d.decodeOne (depth + 1) p n) before
      (containerValue n.id before.cursor (before.cursor + count) vs) (before.afterBytes count) := by
  apply decodeOne_delivers
  simp only [decodeKind, kind, unstarted]
  have decoded : Delivers
      (d.decodeContainer (d.decodeOne depth) p n none body.children .declared none) before _ _ :=
    decodeContainer_delivers (Nat.le_refl _) content (by simp)
  exact decoded

/-! ## Whole decodes -/

theorem decodeWhole_delivers {element : ElementId} {v : Value}
    (found : d.schema.node? element = some n) (size : before.data.size < positionLimit)
    (start : before.cursor < positionLimit)
    (decoded : Delivers (d.decodeOne d.options.maxDepth
      (startPlace element before.cursor before.data.size) n) before v after) :
    Delivers (d.decodeWhole element) before v after := by
  rintro st rfl
  obtain ⟨st', returned, -⟩ := decoded st rfl
  -- What decodes is valid, so looking at the tree changes nothing.
  have valid : v.validate d.schema = .ok () := by
    refine (decodeOne_places _ ?_ ?_ start returned).valid
    · exact size
    · exact size
  have checked : Delivers (d.checkTree n v) after () after := by
    rw [checkTree_of_valid valid]
    exact .pure
  have whole : Delivers (d.decodeWhole element) st.reading v after := by
    apply (node_delivers found).bind
    apply Delivers.tell.bind
    apply Delivers.size.bind
    apply decoded.bind
    apply checked.bind
    exact .pure
  exact whole st rfl

/-- A decode that is followed up to the whole file: its tree, without a warning, and the cursor
behind it. -/
theorem decodeElement_delivers {element : ElementId} {source : σ} {v : Value}
    (found : d.schema.node? element = some n)
    (size : (SliceLike.slice source).data.size < positionLimit)
    (start : (SliceLike.slice source).cursor < positionLimit)
    (decoded : Delivers (d.decodeOne d.options.maxDepth
      (startPlace element (SliceLike.slice source).cursor (SliceLike.slice source).data.size) n)
      (SliceLike.reading source) v after) :
    (d.decodeElement element source).result = .ok (v, []) ∧
      (SliceLike.slice (d.decodeElement element source).source).cursor = after.cursor := by
  obtain ⟨st, returned, ended, kept⟩ :=
    decodeWhole_delivers found size start decoded { source := source } rfl
  rw [decodeElement_eq]
  have ending : (d.decodeWhole element).ending { source := source } = (.ok v, st) := returned
  rw [ending]
  refine ⟨?_, congrArg Reading.cursor ended⟩
  show Except.ok (v, st.warnings.reverse) = _
  rw [kept]
  rfl

end Decoder

end BinaryTemplate
