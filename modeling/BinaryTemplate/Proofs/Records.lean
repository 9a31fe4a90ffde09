import BinaryTemplate.Proofs.Delivery
import BinaryTemplate.Proofs.Evaluation
import BinaryTemplate.Proofs.Visits

/-!
# Records that say how long they are

A record is a byte and behind it as many bytes as it says. The length of the second field of a
record, and in one of the templates the number of the records, is an expression over what has been
decoded a moment before. A run of records with a count reads back what was written, and an
open-ended run takes the records up to the first one that is not whole.
-/

namespace BinaryTemplate

/-! ## Bytes -/

/-- Bytes that one byte can count. -/
structure ShortBytes where
  bytes : List UInt8
  short : bytes.length ≤ 255
deriving DecidableEq, Repr

namespace ShortBytes

/-- The number of the bytes, and the bytes behind it. -/
def record (p : ShortBytes) : List UInt8 := UInt8.ofNat p.bytes.length :: p.bytes

/-- The records of several payloads, one behind the other. -/
def records (ps : List ShortBytes) : List UInt8 := ps.flatMap record

theorem record_append (p : ShortBytes) (more : List UInt8) :
    p.record ++ more = UInt8.ofNat p.bytes.length :: (p.bytes ++ more) := rfl

@[simp] theorem records_cons (p : ShortBytes) (ps : List ShortBytes) :
    records (p :: ps) = p.record ++ records ps := rfl

/-- Bytes that do not start with a whole record: there are none, or fewer behind the first one than
it says. -/
def Incomplete : List UInt8 → Prop
  | [] => True
  | len :: tail => tail.length < len.toNat

theorem toNat_length (p : ShortBytes) : (UInt8.ofNat p.bytes.length).toNat = p.bytes.length :=
  UInt8.toNat_ofNat_of_lt' (Nat.lt_succ_of_le p.short)

theorem length_record (p : ShortBytes) : p.record.length = 1 + p.bytes.length := by
  rw [record, List.length_cons, Nat.add_comm]

theorem length_le_length_records (ps : List ShortBytes) : ps.length ≤ (records ps).length := by
  induction ps with
  | nil => exact Nat.le_refl _
  | cons p ps inductionHypothesis =>
    rw [records_cons, List.length_append, length_record, List.length_cons]
    omega

theorem length_records_le (ps : List ShortBytes) : (records ps).length ≤ ps.length * 256 := by
  induction ps with
  | nil => exact Nat.le_refl _
  | cons p ps inductionHypothesis =>
    have short := p.short
    rw [records_cons, List.length_append, length_record, List.length_cons]
    omega

/-- Bytes are the records that they start with, and a rest that starts with none. -/
theorem exists_records (bytes : List UInt8) :
    ∃ ps rest, bytes = records ps ++ rest ∧ Incomplete rest := by
  induction h : bytes.length using Nat.strongRecOn generalizing bytes with
  | ind length inductionHypothesis =>
    cases bytes with
    | nil => exact ⟨[], [], rfl, trivial⟩
    | cons len tail =>
      by_cases whole : len.toNat ≤ tail.length
      · have counted : (tail.take len.toNat).length = len.toNat := List.length_take_of_le whole
        have less : (tail.drop len.toNat).length < length := by
          rw [← h, List.length_drop, List.length_cons]
          omega
        obtain ⟨ps, rest, same, incomplete⟩ := inductionHypothesis _ less _ rfl
        have short : (tail.take len.toNat).length ≤ 255 := by
          rw [counted]
          exact Nat.le_of_lt_succ len.toNat_lt
        refine ⟨⟨tail.take len.toNat, short⟩ :: ps, rest, ?_, incomplete⟩
        rw [records_cons, List.append_assoc, record_append, ← same, List.take_append_drop]
        exact congrArg (· :: tail) ((congrArg UInt8.ofNat counted).trans UInt8.ofNat_toNat).symm
      · exact ⟨[], len :: tail, rfl, Nat.lt_of_not_le whole⟩

theorem eq_of_record_prefix {p q : ShortBytes} {others rest : List UInt8}
    (h : q.record ++ others <+: p.record ++ rest) : q = p ∧ others <+: rest := by
  rw [record_append, record_append] at h
  obtain ⟨same, behind⟩ := List.cons_prefix_cons.mp h
  have lengths : q.bytes.length = p.bytes.length := by
    rw [← toNat_length q, ← toNat_length p, same]
  obtain ⟨more, equal⟩ := behind
  rw [List.append_assoc] at equal
  obtain ⟨bytes, others⟩ := List.append_inj equal lengths
  refine ⟨?_, more, others⟩
  obtain ⟨pBytes, pShort⟩ := p
  obtain rfl : q.bytes = pBytes := bytes
  rfl

/-- No other records make a longer start of the same bytes. -/
theorem records_prefix {ps qs : List ShortBytes} {rest : List UInt8} (incomplete : Incomplete rest)
    (start : records qs <+: records ps ++ rest) : qs <+: ps := by
  induction qs generalizing ps with
  | nil => exact List.nil_prefix
  | cons q qs inductionHypothesis =>
    cases ps with
    | nil =>
      -- The first of the records would be one that the rest starts with.
      cases rest with
      | nil => exact absurd (List.prefix_nil.mp start) (List.cons_ne_nil _ _)
      | cons len tail =>
        rw [records_cons, record_append] at start
        obtain ⟨rfl, behind⟩ := List.cons_prefix_cons.mp start
        have enough := behind.length_le
        rw [List.length_append] at enough
        rw [Incomplete, toNat_length] at incomplete
        omega
    | cons p ps =>
      rw [records_cons, records_cons, List.append_assoc] at start
      obtain ⟨rfl, others⟩ := eq_of_record_prefix start
      exact List.cons_prefix_cons.mpr ⟨rfl, inductionHypothesis others⟩

end ShortBytes

namespace Reading

open Decoder (length_window window_add)

variable {r : Reading} {bytes more : List UInt8} {limit : Nat}

/-- The bytes from the cursor on, up to the end of the frame and of the data. -/
def Ahead (r : Reading) (limit : Nat) (bytes : List UInt8) : Prop :=
  r.cursor + bytes.length = limit ∧ limit = r.data.size ∧
    window r.data r.cursor bytes.length = bytes

theorem Ahead.first (h : r.Ahead limit (bytes ++ more)) :
    r.Holds limit bytes.length ∧ window r.data r.cursor bytes.length = bytes := by
  obtain ⟨reaches, whole, shows⟩ := h
  rw [List.length_append] at reaches shows
  have inside : r.cursor + bytes.length ≤ r.data.size := by omega
  rw [← window_add] at shows
  exact ⟨⟨by omega, inside⟩, (List.append_inj shows (length_window inside)).1⟩

theorem Ahead.rest (h : r.Ahead limit (bytes ++ more)) :
    (r.afterBytes bytes.length).Ahead limit more := by
  obtain ⟨reaches, whole, shows⟩ := h
  rw [List.length_append] at reaches shows
  have inside : r.cursor + bytes.length ≤ r.data.size := by omega
  rw [← window_add] at shows
  exact ⟨(Nat.add_assoc ..).trans reaches, whole, (List.append_inj shows (length_window inside)).2⟩

theorem ahead_of_start (bytes : List UInt8) : Ahead ⟨bytes.toArray, 0, []⟩ bytes.length bytes := by
  refine ⟨Nat.zero_add _, List.size_toArray.symm, ?_⟩
  simp [window]

end Reading

/-! ## Templates -/

/-- A number of one byte with a name, which occurs once and which nothing constrains. -/
structure Node.IsByte {s : Schema} (n : Node s) (name : String) : Prop where
  kind : ∃ body, n.kind = .number body
  named : n.name = .ok name
  once : n.repeatMin = .ok Node.once ∧ n.repeatMax = .ok Node.once
  isRead : n.lookup .valueExpression = .ok none
  unsigned : n.numberKind = .ok .unsigned
  ordered : n.byteOrder = .ok .little
  length : n.lookup .length = .ok (some (.literal 1))
  unit : n.lengthUnit = .ok .byte
  unlisted : n.numberValues = .ok []
  bounded : n.lookup .minVal = .ok none ∧ n.lookup .maxVal = .ok none
  unmasked : n.masks = .ok []

/-- The elements that describe a record: a structure that has, in turn, the byte `len` and a run of
`len` bytes. -/
structure RecordNodes (s : Schema) where
  chunk : Node s
  len : Node s
  payload : Node s
  parts : ∃ body, chunk.kind = .structure body ∧ body.children = [len.id, payload.id]
  inTurn : chunk.order = .ok .declared
  unsized : chunk.lookup .length = .ok none
  isByte : len.IsByte "len"
  kind : ∃ body, payload.kind = .binary body
  once : payload.repeatMin = .ok Node.once ∧ payload.repeatMax = .ok Node.once
  length : payload.lookup .length = .ok (some (.expression "len"))
  unit : payload.lengthUnit = .ok .byte
  unlisted : payload.binaryValues = .ok []

namespace RecordNodes

variable {s : Schema}

/-- The value of a record that starts at a place. -/
def value (t : RecordNodes s) (start : Nat) (p : ShortBytes) : Value :=
  Decoder.containerValue t.chunk.id start (start + p.record.length)
    [Decoder.numberValue t.len.id start 1 .little p.bytes.length,
      Decoder.binaryValue t.payload.id (start + 1) p.bytes.length]

/-- The values of records of which the first one starts at a place. -/
def values (t : RecordNodes s) : Nat → List ShortBytes → List Value
  | _, [] => []
  | start, p :: ps => t.value start p :: t.values (start + p.record.length) ps

end RecordNodes

namespace Value

/-- The bytes at the values of an element, in the order of a walk through the trees. -/
def bytesIn (element : ElementId) (data : Array UInt8) (vs : List Value) : List (List UInt8) :=
  ((preorderIn vs).filter (·.element = element)).map fun w => window data w.offset w.len

variable {element id : ElementId} {data : Array UInt8} {start stop len : Nat} {vs : List Value}

theorem bytesIn_cons (v : Value) : bytesIn element data (v :: vs) =
    bytesIn element data [v] ++ bytesIn element data vs := by
  simp only [bytesIn, preorderIn, List.append_nil, List.filter_append, List.map_append]

@[simp] theorem bytesIn_container (other : id ≠ element) :
    bytesIn element data [Decoder.containerValue id start stop vs] = bytesIn element data vs := by
  simp [bytesIn, preorderIn, preorder, Decoder.containerValue, other]

@[simp] theorem bytesIn_number {order : ByteOrder} {k : Nat} (other : id ≠ element) :
    bytesIn element data [Decoder.numberValue id start len order k] = [] := by
  simp [bytesIn, preorderIn, preorder, Decoder.numberValue, other]

@[simp] theorem bytesIn_binary :
    bytesIn element data [Decoder.binaryValue element start len] = [window data start len] := by
  simp [bytesIn, preorderIn, preorder, Decoder.binaryValue]

end Value

namespace RecordNodes

variable {s : Schema} (t : RecordNodes s)

theorem chunk_ne_payload : t.chunk.id ≠ t.payload.id := by
  intro same
  obtain ⟨body, kind, -⟩ := t.parts
  obtain ⟨binary, kind'⟩ := t.kind
  rw [Node.eq_of_id same, kind'] at kind
  cases kind

theorem len_ne_payload : t.len.id ≠ t.payload.id := by
  intro same
  obtain ⟨body, kind⟩ := t.isByte.kind
  obtain ⟨binary, kind'⟩ := t.kind
  rw [Node.eq_of_id same, kind'] at kind
  cases kind

/-- The payloads are at their values. -/
theorem bytesIn_values {r : Reading} {limit : Nat} {ps : List ShortBytes} {more : List UInt8}
    (ahead : r.Ahead limit (ShortBytes.records ps ++ more)) :
    Value.bytesIn t.payload.id r.data (t.values r.cursor ps) = ps.map ShortBytes.bytes := by
  induction ps generalizing r with
  | nil => rfl
  | cons q ps inductionHypothesis =>
    rw [ShortBytes.records_cons, List.append_assoc] at ahead
    have inner : r.Ahead limit ([UInt8.ofNat q.bytes.length] ++ (q.bytes ++ _)) := ahead
    have here : window r.data (r.cursor + 1) q.bytes.length = q.bytes := inner.rest.first.2
    have behind : Value.bytesIn t.payload.id r.data
        (t.values (r.cursor + q.record.length) ps) = ps.map ShortBytes.bytes :=
      inductionHypothesis ahead.rest
    rw [values, Value.bytesIn_cons, behind, value, Value.bytesIn_container t.chunk_ne_payload,
      Value.bytesIn_cons, Value.bytesIn_number t.len_ne_payload, Value.bytesIn_binary, here]
    rfl

end RecordNodes

namespace Decoder

open DecodeM

variable {σ : Type} {d : Decoder σ} {p : Place} {n : Node d.schema} {name : String}
  {before : Reading}

/-! ## Names -/

theorem bounds_of_once (once : n.repeatMin = .ok Node.once ∧ n.repeatMax = .ok Node.once) :
    d.Bounds p n 1 (some 1) :=
  ⟨_, _, 1, 1, once.1, once.2, rfl, rfl, rfl, rfl⟩

/-- A name stands for the byte of that name where its value is the last one of the innermost
frame. -/
theorem counts_of_last {start count : Nat} (standard : d.evaluator = .standard)
    (noLiteral : Literal.parse? (Text.trim name.toList) = none)
    (lone : tokens? name.toList = some [.path name []]) (isByte : n.IsByte name)
    (small : count ≤ 255) :
    d.Counts (p.complete (numberValue n.id start 1 .little count)) (.expression name) count := by
  have fits : (UInt64.ofNat count).toNat = count := by
    rw [UInt64.toNat_ofNat']
    omega
  obtain ⟨k, known⟩ : ∃ k, Integer.narrow? count = some k := by
    unfold Integer.narrow?
    rw [if_pos (by simp only [Integer.least, Integer.greatest]; omega)]
    exact ⟨_, rfl⟩
  have last : Value.hasName d.schema name (numberValue n.id start 1 .little count) = true := by
    simp only [Value.hasName, Value.name, numberValue, Schema.node?_of_id, isByte.named,
      beq_self_eq_true]
  have found : ((p.complete (numberValue n.id start 1 .little count)).context d.schema).lookup
      [name] = some (numberValue n.id start 1 .little count) := by
    simp [Context.lookup, Context.sibling?, Place.context, Place.complete, Frame.complete, last]
  have value : (numberValue n.id start 1 .little count).toInt? = some k := by
    simp only [Value.toInt?, numberValue, NumberValue.toInt?, fits, known]
  refine ⟨k, ?_, Integer.toInt_narrow? known⟩
  rw [Evaluates, standard]
  exact (Evaluator.Answers.numeric noLiteral (written_of_tokens? lone) found
    value).evaluateStandard_eq

theorem plainNumber_of_isByte (isByte : n.IsByte name) : d.PlainNumber p n .little 1 where
  isRead := isByte.isRead
  kind := isByte.unsigned
  ordered := isByte.ordered
  unit := isByte.unit
  length := ⟨_, isByte.length, 1, rfl, rfl⟩
  wide := by decide
  unlisted := isByte.unlisted
  bounded := isByte.bounded
  unmasked := isByte.unmasked

/-! ## One record -/

section Record

variable {t : RecordNodes d.schema} {q : ShortBytes} {more : List UInt8} {depth : Nat}

/-- Behind its length, a payload is a run of so many bytes. -/
theorem plainBinary_of_last {start len : Nat} (standard : d.evaluator = .standard)
    (small : len ≤ 255) :
    d.PlainBinary (p.complete (numberValue t.len.id start 1 .little len)) t.payload len where
  length := by
    refine ⟨_, t.length, len, .byte, ?_, t.unit, Nat.mul_comm .., ?_⟩
    · exact counts_of_last standard (by decide) (by cbv) t.isByte small
    · simp only [LengthUnit.bits, positionLimit, Integer.unsignedLimit]
      omega
  unlisted := t.unlisted

theorem enabled_of_isByte (isByte : n.IsByte name) : Disabled n false := by
  obtain ⟨body, kind⟩ := isByte.kind
  simp only [Disabled, kind]

theorem enabled_payload (t : RecordNodes d.schema) : Disabled t.payload false := by
  obtain ⟨body, kind⟩ := t.kind
  simp only [Disabled, kind]

variable [ByteSource σ] [SliceLike σ]

/-- A byte is read as the number that it is. -/
theorem decodeRepeated_byte {b : UInt8} (isByte : n.IsByte name) (room : 0 < d.options.maxRepeat)
    (ahead : before.Ahead p.limit ([b] ++ more)) :
    Delivers (d.decodeRepeated (d.decodeOne (depth + 1)) p n) before
      (p.complete (numberValue n.id before.cursor 1 .little b.toNat)) (before.afterBytes 1) := by
  obtain ⟨body, kind⟩ := isByte.kind
  obtain ⟨holds, shows⟩ := ahead.first
  have taken : Delivers (d.decodeOne (depth + 1) p n) before _ _ :=
    decodeOne_number kind (plainNumber_of_isByte isByte) holds
  rw [show window before.data before.cursor 1 = [b] from shows] at taken
  exact decodeRepeated_once (bounds_of_once isByte.once) room taken

/-- A whole record decodes to its value. -/
theorem record_delivers (standard : d.evaluator = .standard) (room : 0 < d.options.maxRepeat)
    (ahead : before.Ahead p.limit (q.record ++ more)) :
    Delivers (d.decodeOne (depth + 2) p t.chunk) before (t.value before.cursor q)
      (before.afterBytes q.record.length) := by
  obtain ⟨body, kind, children⟩ := t.parts
  obtain ⟨binary, isRun⟩ := t.kind
  have opened : (before.afterBytes 0).Ahead p.limit
      ([UInt8.ofNat q.bytes.length] ++ (q.bytes ++ more)) := ahead
  have len : Delivers (d.decodeRepeated (d.decodeOne (depth + 1))
      (inside p t.chunk none before.cursor none) t.len) (before.afterBytes 0) _ _ :=
    decodeRepeated_byte t.isByte room opened
  rw [q.toNat_length] at len
  have content : Delivers (d.decodeDeclared (d.decodeOne (depth + 1)) body.children
      (inside p t.chunk none before.cursor none)) (before.afterBytes 0)
      ((inside p t.chunk none before.cursor none).completeAll
        [numberValue t.len.id before.cursor 1 .little q.bytes.length,
          binaryValue t.payload.id (before.cursor + 1) q.bytes.length])
      (before.afterBytes q.record.length) := by
    rw [children, q.length_record, ← Reading.afterBytes_add]
    refine decodeDeclared_delivers (Schema.node?_of_id _) (enabled_of_isByte t.isByte) len ?_
    refine decodeDeclared_delivers (Schema.node?_of_id _) (enabled_payload t) ?_ .pure
    apply decodeRepeated_once (bounds_of_once t.once) room
    exact decodeOne_binary isRun (plainBinary_of_last standard q.short) opened.rest.first.1.1
  exact decodeOne_structure kind t.inTurn (show d.Spans p t.chunk none from t.unsized)
    (Nat.le_refl _) content nofun

/-- A record that is not whole is refused for its payload, which would go beyond the end. -/
theorem record_refuses {len : UInt8} {tail : List UInt8} (standard : d.evaluator = .standard)
    (room : 0 < d.options.maxRepeat) (ahead : before.Ahead p.limit ([len] ++ tail))
    (short : tail.length < len.toNat) :
    Refuses (d.decodeOne (depth + 2) p t.chunk) before := by
  obtain ⟨body, kind, children⟩ := t.parts
  obtain ⟨binary, isRun⟩ := t.kind
  have opened : (before.afterBytes 0).Ahead p.limit ([len] ++ tail) := ahead
  have first : Delivers (d.decodeRepeated (d.decodeOne (depth + 1))
      (inside p t.chunk none before.cursor none) t.len) (before.afterBytes 0) _ _ :=
    decodeRepeated_byte t.isByte room opened
  have small : len.toNat ≤ 255 := Nat.le_of_lt_succ len.toNat_lt
  have beyond : p.limit < before.cursor + 1 + len.toNat := by
    have reaches := ahead.1
    rw [List.length_append, List.length_singleton] at reaches
    omega
  have content : Refuses (d.decodeDeclared (d.decodeOne (depth + 1)) body.children
      (inside p t.chunk none before.cursor none)) (before.afterBytes 0) := by
    rw [children]
    refine decodeDeclared_refuses (Schema.node?_of_id _) (enabled_of_isByte t.isByte) ?_
    refine first.refuses ?_ rfl
    refine decodeDeclared_refuses (Schema.node?_of_id _) (enabled_payload t) (Refuses.first ?_)
    apply decodeRepeated_once_refuses (bounds_of_once t.once) room
    exact decodeOne_binary_refuses isRun (plainBinary_of_last standard small) beyond
  exact decodeOne_structure_refuses kind t.inTurn (show d.Spans p t.chunk none from t.unsized)
    content

/-! ## Runs of records -/

theorem length_lt_of_ahead {r : Reading} {limit : Nat} (ahead : r.Ahead limit (q.record ++ more)) :
    r.cursor < limit := by
  have within := ahead.first.1.1
  rw [q.length_record] at within
  omega

/-- A run takes records as long as it may, and goes on behind them. -/
theorem records_deliver {min room count : Nat} {max : Option Nat} {ps : List ShortBytes}
    {p' : Place} {after : Reading} (standard : d.evaluator = .standard)
    (one : 0 < d.options.maxRepeat) (free : ∀ i < ps.length, max.any (· ≤ count + i) = false)
    (ahead : before.Ahead p.limit (ShortBytes.records ps ++ more))
    (others : Delivers (d.repeatFrom (d.decodeOne (depth + 2)) t.chunk min max room
      (count + ps.length) (p.completeAll (t.values before.cursor ps)))
      (before.afterBytes (ShortBytes.records ps).length) p' after) (aligned : before.pending = []) :
    Delivers (d.repeatFrom (d.decodeOne (depth + 2)) t.chunk min max (room + ps.length) count p)
      before p' after := by
  induction ps generalizing count p before with
  | nil =>
    have same : before.afterBytes 0 = before := by
      obtain ⟨data, cursor, pending⟩ := before
      obtain rfl : pending = [] := aligned
      rfl
    exact same ▸ others
  | cons q ps inductionHypothesis =>
    rw [ShortBytes.records_cons, List.append_assoc] at ahead
    have taken : Delivers (d.decodeOne (depth + 2) p t.chunk) before (t.value before.cursor q)
        (before.afterBytes q.record.length) := record_delivers standard one ahead
    refine repeatFrom_more (free 0 (Nat.succ_pos _)) ?_ taken ?_ ?_
    · exact fun _ => length_lt_of_ahead ahead
    · rintro -
      show before.cursor + q.record.length - before.cursor ≠ 0
      rw [q.length_record]
      omega
    · apply inductionHypothesis
      · intro i less
        have later := free (i + 1) (Nat.succ_lt_succ less)
        rwa [← Nat.add_assoc, Nat.add_right_comm] at later
      · exact ahead.rest
      · rw [Reading.afterBytes_add, ← List.length_append, Nat.add_right_comm]
        exact others
      · rfl

/-- An open-ended run takes all whole records, and ends at a rest that starts with none. -/
theorem openRun_delivers {ps : List ShortBytes} {rest : List UInt8}
    (standard : d.evaluator = .standard) (room : ps.length < d.options.maxRepeat)
    (ahead : before.Ahead p.limit (ShortBytes.records ps ++ rest))
    (incomplete : ShortBytes.Incomplete rest) (aligned : before.pending = []) :
    Delivers (d.repeatFrom (d.decodeOne (depth + 2)) t.chunk 0 none d.options.maxRepeat 0 p) before
      (p.completeAll (t.values before.cursor ps))
      (before.afterBytes (ShortBytes.records ps).length) := by
  obtain ⟨further, enough⟩ := Nat.exists_eq_add_of_lt room
  have same : d.options.maxRepeat = further + 1 + ps.length := by omega
  rw [same]
  refine records_deliver standard (by omega) (fun _ _ => rfl) ahead ?_ aligned
  cases rest with
  | nil =>
    have reaches := ahead.rest.1
    rw [List.length_nil, Nat.add_zero] at reaches
    refine repeatFrom_spent rfl (Nat.zero_le _) ?_ rfl
    rw [Place.limit_completeAll, reaches]
  | cons len tail =>
    have behind : (before.afterBytes (ShortBytes.records ps).length).Ahead
        (p.completeAll (t.values before.cursor ps)).limit ([len] ++ tail) := by
      rw [Place.limit_completeAll]
      exact ahead.rest
    have one : 0 < d.options.maxRepeat := by omega
    refine repeatFrom_ended (Nat.zero_le _) ?_ (record_refuses standard one behind incomplete)
    have reaches := behind.1
    rw [List.length_append, List.length_singleton] at reaches
    omega

end Record

end Decoder

/-! ## Two templates -/

/-- The node of an element by its place in the schema. -/
def Schema.nodeAt (s : Schema) (index : Nat) (inRange : index < s.size) : Node s :=
  ⟨⟨index⟩, s.elements[index], Array.getElem?_eq_getElem inRange⟩

/-- A count of one byte, and so many records. -/
def countedChunks : Schema :=
  ({} : SchemaBuilder)
    |>.define (.named "chunks" (.grammar {}))
    |>.add ⟨0⟩ (.named "file" (.structure {}))
    |>.add ⟨1⟩ ((Element.named "count" (.number {})).setLength "1")
    |>.add ⟨1⟩ ((Element.named "chunk" (.structure {})).setRepeatMax "count")
    |>.add ⟨3⟩ ((Element.named "len" (.number {})).setLength "1")
    |>.add ⟨3⟩ ((Element.named "payload" (.binary {})).setLength "len")
    |>.build ⟨0⟩

/-- An open-ended run of records. -/
def openChunks : Schema :=
  ({} : SchemaBuilder)
    |>.define (.named "stream" (.grammar {}))
    |>.add ⟨0⟩ (((Element.named "chunk" (.structure {})).setRepeatMin "0").setRepeatMax "-1")
    |>.add ⟨1⟩ ((Element.named "len" (.number {})).setLength "1")
    |>.add ⟨1⟩ ((Element.named "payload" (.binary {})).setLength "len")
    |>.build ⟨0⟩

def countedRecords : RecordNodes countedChunks where
  chunk := countedChunks.nodeAt 3 (by decide)
  len := countedChunks.nodeAt 4 (by decide)
  payload := countedChunks.nodeAt 5 (by decide)
  parts := ⟨_, rfl, rfl⟩
  inTurn := by cbv
  unsized := by cbv
  isByte := ⟨⟨_, rfl⟩, by cbv, ⟨by cbv, by cbv⟩, by cbv, by cbv, by cbv, by cbv, by cbv, by cbv,
    ⟨by cbv, by cbv⟩, by cbv⟩
  kind := ⟨_, rfl⟩
  once := ⟨by cbv, by cbv⟩
  length := by cbv
  unit := by cbv
  unlisted := by cbv

def countNode : Node countedChunks := countedChunks.nodeAt 2 (by decide)

theorem countNode_isByte : countNode.IsByte "count" :=
  ⟨⟨_, rfl⟩, by cbv, ⟨by cbv, by cbv⟩, by cbv, by cbv, by cbv, by cbv, by cbv, by cbv,
    ⟨by cbv, by cbv⟩, by cbv⟩

def fileNode : Node countedChunks := countedChunks.nodeAt 1 (by decide)

theorem fileNode_once :
    fileNode.repeatMin = .ok Node.once ∧ fileNode.repeatMax = .ok Node.once :=
  ⟨by cbv, by cbv⟩

theorem fileNode_inTurn : fileNode.order = .ok .declared ∧ fileNode.lookup .length = .ok none :=
  ⟨by cbv, by cbv⟩

def openRecords : RecordNodes openChunks where
  chunk := openChunks.nodeAt 1 (by decide)
  len := openChunks.nodeAt 2 (by decide)
  payload := openChunks.nodeAt 3 (by decide)
  parts := ⟨_, rfl, rfl⟩
  inTurn := by cbv
  unsized := by cbv
  isByte := ⟨⟨_, rfl⟩, by cbv, ⟨by cbv, by cbv⟩, by cbv, by cbv, by cbv, by cbv, by cbv, by cbv,
    ⟨by cbv, by cbv⟩, by cbv⟩
  kind := ⟨_, rfl⟩
  once := ⟨by cbv, by cbv⟩
  length := by cbv
  unit := by cbv
  unlisted := by cbv

/-- The bytes of a count and the records of so many payloads. -/
def countedBytes (ps : List ShortBytes) : List UInt8 :=
  [UInt8.ofNat ps.length] ++ ShortBytes.records ps

/-- The tree of a count and so many records. -/
def countedValue (start : Nat) (ps : List ShortBytes) : Value :=
  let stop := start + (countedBytes ps).length
  Decoder.containerValue ⟨0⟩ start stop
    [Decoder.containerValue ⟨1⟩ start stop
      (Decoder.numberValue ⟨2⟩ start 1 .little ps.length :: countedRecords.values (start + 1) ps)]

/-- The tree of an open-ended run of records. -/
def openValue (start : Nat) (ps : List ShortBytes) : Value :=
  Decoder.containerValue ⟨0⟩ start (start + (ShortBytes.records ps).length)
    (openRecords.values start ps)

namespace Decoder

open DecodeM

variable {σ : Type} [ByteSource σ] [SliceLike σ] {options : DecodeOptions} {p : Place}
  {before : Reading} {ps : List ShortBytes} {depth : Nat}

/-- The decoder of a schema with the expression language and without scripts. -/
def plain (s : Schema) (options : DecodeOptions) : Decoder σ where
  schema := s
  options := options

theorem open_delivers {rest : List UInt8} (room : ps.length < options.maxRepeat)
    (ahead : before.Ahead p.limit (ShortBytes.records ps ++ rest))
    (incomplete : ShortBytes.Incomplete rest) :
    Delivers ((plain openChunks options : Decoder σ).decodeOne (depth + 3) p
      (openChunks.nodeAt 0 (by decide))) before (openValue before.cursor ps)
      (before.afterBytes (ShortBytes.records ps).length) := by
  have bounds (p' : Place) :
      (plain openChunks options : Decoder σ).Bounds p' openRecords.chunk 0 none :=
    ⟨.literal 0, .literal (-1), 0, -1, by cbv, by cbv, rfl, rfl, rfl, rfl⟩
  have content : Delivers ((plain openChunks options : Decoder σ).decodeDeclared
      ((plain openChunks options).decodeOne (depth + 2)) [⟨1⟩]
      (p.enter (.container ⟨0⟩ none before.cursor p.limit))) (before.afterBytes 0)
      ((p.enter (.container ⟨0⟩ none before.cursor p.limit)).completeAll
        (openRecords.values before.cursor ps))
      (before.afterBytes (ShortBytes.records ps).length) := by
    rw [← Nat.zero_add (ShortBytes.records ps).length, ← Reading.afterBytes_add]
    refine decodeDeclared_delivers (Schema.node?_of_id openRecords.chunk) rfl ?_ .pure
    apply decodeRepeated_delivers (bounds _)
    exact openRun_delivers rfl room ahead incomplete rfl
  exact decodeOne_grammar rfl rfl content

/-- Behind the count, as many records as it says are taken. -/
theorem countedRun_delivers {start : Nat} (few : ps.length ≤ 255)
    (room : max 1 ps.length ≤ options.maxRepeat)
    (ahead : before.Ahead p.limit (ShortBytes.records ps)) (aligned : before.pending = []) :
    Delivers ((plain countedChunks options : Decoder σ).decodeRepeated
      ((plain countedChunks options).decodeOne (depth + 2))
      (p.complete (numberValue countNode.id start 1 .little ps.length)) countedRecords.chunk) before
      ((p.complete (numberValue countNode.id start 1 .little ps.length)).completeAll
        (countedRecords.values before.cursor ps))
      (before.afterBytes (ShortBytes.records ps).length) := by
  have noLiteral : Literal.parse? (Text.trim "count".toList) = none := by decide
  have lone : tokens? "count".toList = some [.path "count" []] := by cbv
  have counted : (plain countedChunks options : Decoder σ).Counts
      (p.complete (numberValue countNode.id start 1 .little ps.length)) (.expression "count")
      ps.length := counts_of_last rfl noLiteral lone countNode_isByte few
  obtain ⟨most, counts, same⟩ := counted
  have bounds : (plain countedChunks options : Decoder σ).Bounds
      (p.complete (numberValue countNode.id start 1 .little ps.length)) countedRecords.chunk 1
      (some ps.length) := by
    refine ⟨Node.once, .expression "count", 1, most, by cbv, by cbv, rfl, counts, rfl, ?_⟩
    rw [same, if_neg (by omega), Int.toNat_natCast]
  apply decodeRepeated_delivers bounds
  obtain ⟨further, enough⟩ := Nat.exists_eq_add_of_le' (Nat.max_le.mp room).2
  rw [show (plain countedChunks options : Decoder σ).options.maxRepeat = further + ps.length
    from enough]
  rw [← List.append_nil (ShortBytes.records ps)] at ahead
  refine records_deliver rfl (Nat.max_le.mp room).1 ?_ ahead ?_ aligned
  · intro i less
    simp [less]
  · apply repeatFrom_full
    simp

theorem counted_delivers (few : ps.length ≤ 255) (room : max 1 ps.length ≤ options.maxRepeat)
    (ahead : before.Ahead p.limit (countedBytes ps)) :
    Delivers ((plain countedChunks options : Decoder σ).decodeOne (depth + 4) p
      (countedChunks.nodeAt 0 (by decide))) before (countedValue before.cursor ps)
      (before.afterBytes (countedBytes ps).length) := by
  have one : 0 < options.maxRepeat := (Nat.max_le.mp room).1
  have small : (UInt8.ofNat ps.length).toNat = ps.length :=
    UInt8.toNat_ofNat_of_lt' (Nat.lt_succ_of_le few)
  let chunks := p.enter (.container ⟨0⟩ none before.cursor p.limit)
  let inner := chunks.enter (.container ⟨1⟩ none before.cursor p.limit)
  let length := (countedBytes ps).length
  let parts := numberValue ⟨2⟩ before.cursor 1 .little ps.length ::
    countedRecords.values (before.cursor + 1) ps
  have count : Delivers ((plain countedChunks options : Decoder σ).decodeRepeated
      ((plain countedChunks options).decodeOne (depth + 2)) inner countNode) (before.afterBytes 0)
      (inner.complete
        (numberValue countNode.id before.cursor 1 .little (UInt8.ofNat ps.length).toNat))
      ((before.afterBytes 0).afterBytes 1) :=
    decodeRepeated_byte countNode_isByte one ahead
  rw [small] at count
  have content : Delivers ((plain countedChunks options : Decoder σ).decodeDeclared
      ((plain countedChunks options).decodeOne (depth + 2)) [⟨2⟩, ⟨3⟩] inner) (before.afterBytes 0)
      (inner.completeAll parts) (before.afterBytes length) := by
    rw [show length = 1 + _ from List.length_append, ← Reading.afterBytes_add]
    refine decodeDeclared_delivers (Schema.node?_of_id countNode) rfl count ?_
    refine decodeDeclared_delivers (Schema.node?_of_id countedRecords.chunk) rfl ?_ .pure
    exact countedRun_delivers few room ahead.rest rfl
  have file : Delivers ((plain countedChunks options : Decoder σ).decodeOne (depth + 3) chunks
      fileNode) (before.afterBytes 0)
      (containerValue ⟨1⟩ before.cursor (before.cursor + length) parts)
      (before.afterBytes length) :=
    decodeOne_structure rfl fileNode_inTurn.1
      (show (plain countedChunks options : Decoder σ).Spans chunks fileNode none
        from fileNode_inTurn.2) (Nat.le_refl _) content nofun
  have files : Delivers ((plain countedChunks options : Decoder σ).decodeDeclared
      ((plain countedChunks options).decodeOne (depth + 3)) [⟨1⟩] chunks) (before.afterBytes 0)
      (chunks.completeAll [containerValue ⟨1⟩ before.cursor (before.cursor + length) parts])
      (before.afterBytes length) :=
    decodeDeclared_delivers (Schema.node?_of_id fileNode) rfl
      (decodeRepeated_once (bounds_of_once fileNode_once) one file) .pure
  exact decodeOne_grammar rfl rfl files

/-! ## Whole files -/

/-- The decode of a source succeeds without a warning with this tree, and leaves the cursor here. -/
def DecodesTo (d : Decoder σ) (source : σ) (v : Value) (position : Nat) : Prop :=
  (d.decode source).result = .ok (v, []) ∧
    (SliceLike.slice (d.decode source).source).cursor = position

/-- What is delivered wherever some bytes are ahead is what the whole file of these bytes decodes
to. -/
theorem decode_of_delivers {d : Decoder σ} {n : Node d.schema} {source : σ} {bytes : List UInt8}
    {v : Nat → Value} {count : Nat} (root : d.schema.root = n.id)
    (holds : SliceLike.slice source = ⟨bytes.toArray, 0⟩) (size : bytes.length < positionLimit)
    (delivers : ∀ (p : Place) (r : Reading), r.Ahead p.limit bytes →
      Delivers (d.decodeOne d.options.maxDepth p n) r (v r.cursor) (r.afterBytes count)) :
    d.DecodesTo source (v 0) count := by
  have reading : SliceLike.reading source = ⟨bytes.toArray, 0, []⟩ := by
    rw [SliceLike.reading, holds]
  have start : (SliceLike.slice source).cursor < positionLimit := by
    rw [holds]
    exact Nat.lt_of_le_of_lt (Nat.zero_le _) size
  have decoded : Delivers (d.decodeOne d.options.maxDepth
      (startPlace n.id (SliceLike.slice source).cursor (SliceLike.slice source).data.size) n)
      (SliceLike.reading source) (v 0) (Reading.afterBytes ⟨bytes.toArray, 0, []⟩ count) := by
    rw [reading]
    apply delivers
    rw [holds]
    exact Reading.ahead_of_start bytes
  have ended := decodeElement_delivers (Schema.node?_of_id n) (by rw [holds]; exact size) start
    decoded
  rw [DecodesTo, Decoder.decode, root]
  exact ⟨ended.1, ended.2.trans (Nat.zero_add count)⟩

theorem bytesIn_countedValue (ps : List ShortBytes) :
    Value.bytesIn ⟨5⟩ (countedBytes ps).toArray [countedValue 0 ps] =
      ps.map ShortBytes.bytes := by
  have ahead : Reading.Ahead ⟨(countedBytes ps).toArray, 0, []⟩ (countedBytes ps).length
      ([UInt8.ofNat ps.length] ++ (ShortBytes.records ps ++ [])) := by
    rw [List.append_nil]
    exact Reading.ahead_of_start (countedBytes ps)
  rw [countedValue, Value.bytesIn_container (by decide), Value.bytesIn_container (by decide),
    Value.bytesIn_cons, Value.bytesIn_number (by decide)]
  exact countedRecords.bytesIn_values ahead.rest

theorem bytesIn_openValue (ps : List ShortBytes) (rest : List UInt8) :
    Value.bytesIn ⟨3⟩ (ShortBytes.records ps ++ rest).toArray [openValue 0 ps] =
      ps.map ShortBytes.bytes := by
  rw [openValue, Value.bytesIn_container (by decide)]
  exact openRecords.bytesIn_values (Reading.ahead_of_start (ShortBytes.records ps ++ rest))

/-- Records are read back. A count with so many records decodes, to the end, to the tree of these
records. Any bytes decode as an open-ended run to the records that they start with, of which no
others make a longer start, and the cursor is behind these records. In both cases the payloads are
found, in their order, at the values of their element. -/
theorem records_read_back (options : DecodeOptions)
    (addressed : options.maxRepeat ≤ positionLimit) :
    (∀ (source : σ) (payloads : List ShortBytes), payloads.length ≤ 255 → 4 ≤ options.maxDepth →
      max 1 payloads.length ≤ options.maxRepeat →
      SliceLike.slice source = ⟨(countedBytes payloads).toArray, 0⟩ →
      (plain countedChunks options).DecodesTo source (countedValue 0 payloads)
          (countedBytes payloads).length ∧
        Value.bytesIn ⟨5⟩ (countedBytes payloads).toArray [countedValue 0 payloads] =
          payloads.map ShortBytes.bytes) ∧
    (∀ (source : σ) (bytes : List UInt8), bytes.length < options.maxRepeat →
      3 ≤ options.maxDepth → SliceLike.slice source = ⟨bytes.toArray, 0⟩ →
      ∃ payloads rest, bytes = ShortBytes.records payloads ++ rest ∧
        ShortBytes.Incomplete rest ∧
        (∀ others, ShortBytes.records others <+: bytes → others <+: payloads) ∧
        (plain openChunks options).DecodesTo source (openValue 0 payloads)
          (ShortBytes.records payloads).length ∧
        Value.bytesIn ⟨3⟩ bytes.toArray [openValue 0 payloads] =
          payloads.map ShortBytes.bytes) := by
  constructor
  · intro source payloads few deep room holds
    obtain ⟨depth, enough⟩ := Nat.exists_eq_add_of_le' deep
    have size : (countedBytes payloads).length < positionLimit := by
      have most := ShortBytes.length_records_le payloads
      rw [countedBytes, List.length_append, List.length_singleton]
      simp only [positionLimit, Integer.unsignedLimit]
      omega
    have decodes : (plain countedChunks options).DecodesTo source (countedValue 0 payloads) _ :=
      decode_of_delivers (n := countedChunks.nodeAt 0 (by decide)) (v := (countedValue · payloads))
        rfl holds size fun p r ahead => enough ▸ counted_delivers few room ahead
    exact ⟨decodes, bytesIn_countedValue payloads⟩
  · intro source bytes short deep holds
    obtain ⟨depth, enough⟩ := Nat.exists_eq_add_of_le' deep
    obtain ⟨payloads, rest, rfl, incomplete⟩ := ShortBytes.exists_records bytes
    have room : payloads.length < options.maxRepeat := by
      have least := ShortBytes.length_le_length_records payloads
      rw [List.length_append] at short
      omega
    have decodes : (plain openChunks options).DecodesTo source (openValue 0 payloads) _ :=
      decode_of_delivers (n := openChunks.nodeAt 0 (by decide)) (v := (openValue · payloads)) rfl
        holds (Nat.lt_of_lt_of_le short addressed)
        fun p r ahead => enough ▸ open_delivers room ahead incomplete
    exact ⟨payloads, rest, rfl, incomplete, fun _ => ShortBytes.records_prefix incomplete, decodes,
      bytesIn_openValue payloads rest⟩

/-- Two records with their count; and two records in front of one that is not whole. -/
theorem records_read_back_two :
    (plain countedChunks {}).DecodesTo (⟨#[2, 1, 0xAA, 0], 0⟩ : Slice)
        (countedValue 0 [⟨[0xAA], by decide⟩, ⟨[], by decide⟩]) 4 ∧
      ∃ payloads rest, [1, 0xAA, 0, 3, 0xBB] = ShortBytes.records payloads ++ rest ∧
        ShortBytes.Incomplete rest ∧
        (plain openChunks {}).DecodesTo (⟨#[1, 0xAA, 0, 3, 0xBB], 0⟩ : Slice)
          (openValue 0 payloads) (ShortBytes.records payloads).length := by
  have readBack := records_read_back (σ := Slice) {} (by decide)
  refine ⟨(readBack.1 _ [⟨[0xAA], by decide⟩, ⟨[], by decide⟩] (by decide) (by decide) (by decide)
    rfl).1, ?_⟩
  obtain ⟨payloads, rest, same, incomplete, -, decodes, -⟩ :=
    readBack.2 ⟨#[1, 0xAA, 0, 3, 0xBB], 0⟩ _ (by decide) (by decide) rfl
  exact ⟨payloads, rest, same, incomplete, decodes⟩

end Decoder

end BinaryTemplate
