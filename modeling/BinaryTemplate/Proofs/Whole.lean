import BinaryTemplate.Decode.Binary
import BinaryTemplate.Decode.Custom
import BinaryTemplate.Decode.String
import BinaryTemplate.Proofs.Number

/-!
# Fields of whole bytes

Strings, runs of bytes and scripted elements let go of the unread bits and take whole bytes from
the cursor on, none of them past the end of the frame. A script may leave the cursor anywhere: what
it answers decides where the cursor goes.
-/

namespace BinaryTemplate

/-- Whether a reading goes on by some whole bytes, all of them within the frame. -/
def Reading.Advances (limit : Nat) (before after : Reading) : Prop :=
  ∃ len, after = { before with cursor := before.cursor + len } ∧
    (0 < len → before.cursor + len ≤ limit)

namespace Reading.Advances

variable {limit : Nat} {first second third : Reading}

theorem refl (r : Reading) : Advances limit r r := ⟨0, rfl, by omega⟩

theorem trans (left : Advances limit first second) (right : Advances limit second third) :
    Advances limit first third := by
  obtain ⟨len, rfl, within⟩ := left
  obtain ⟨more, rfl, further⟩ := right
  refine ⟨len + more, by simp [Nat.add_assoc], ?_⟩
  dsimp only at further
  intro some
  cases more with
  | zero => exact within some
  | succ more =>
    have bound := further (by omega)
    omega

end Reading.Advances

/-- A unit is one byte or two. -/
theorem Text.Encoding.unitSize_cases (encoding : Encoding) :
    encoding.unitSize = 1 ∨ encoding.unitSize = 2 := by
  unfold unitSize
  split
  · exact .inr rfl
  · exact .inl rfl

namespace Decoder

open DecodeM

variable {σ : Type} [ByteSource σ] [SliceLike σ] {d : Decoder σ} {p : Place} {n : Node d.schema}
  {offset : Nat} {st st' : DecodeState σ}

theorem unitSize_pos (encoding : Text.Encoding) : 0 < encoding.unitSize := by
  obtain one | two := encoding.unitSize_cases <;> omega

/-- A terminating character is one unit. -/
theorem length_terminator (encoding : Text.Encoding) (c : UInt8) :
    (terminator encoding c).length = encoding.unitSize := by
  unfold terminator
  by_cases big : encoding = .utf16be
  · rw [if_pos big, big]
    rfl
  · rw [if_neg big]
    obtain one | two := encoding.unitSize_cases
    · rw [one]
      rfl
    · rw [two]
      rfl

theorem read_advances {count : Nat} {bytes : List UInt8}
    (h : Returns (d.read p n count) st bytes st') : st.reading.Advances p.limit st'.reading := by
  obtain ⟨-, within, -, moved⟩ := read_returns h
  exact ⟨count, moved, fun _ => within⟩

theorem skip_advances {count : Nat} {u : Unit} (h : Returns (d.skip p n count) st u st') :
    st.reading.Advances p.limit st'.reading := by
  obtain ⟨within, moved⟩ := skip_returns h
  exact ⟨count, moved, fun _ => within⟩

/-! ## Strings -/

/-- A search reads the units of the text and, if it finds it, the terminator, and no more units than
it may. Without the terminator it has read them all. -/
theorem readUntil_returns {mark bytes : List UInt8} {units : Nat} {found : Bool}
    (h : Returns (d.readUntil p n mark units) st (bytes, found) st') :
    let consumed := bytes.length + if found then mark.length else 0
    st'.reading = { st.reading with cursor := st.reading.cursor + consumed } ∧
      (0 < consumed → st.reading.cursor + consumed ≤ p.limit) ∧
      consumed ≤ units * mark.length ∧ (found = false → bytes.length = units * mark.length) := by
  induction units generalizing bytes st with
  | zero =>
    simp only [readUntil, returns_pure, Prod.mk.injEq] at h
    obtain ⟨⟨rfl, rfl⟩, rfl⟩ := h
    exact ⟨rfl, by simp, Nat.zero_le _, fun _ => (Nat.zero_mul _).symm⟩
  | succ units inductionHypothesis =>
    simp only [readUntil, returns_bind, returns_ite, returns_pure, Prod.mk.injEq] at h
    obtain ⟨unit, mid, reads, h⟩ := h
    obtain ⟨rfl, within, present, moved⟩ := read_returns reads
    rw [Nat.succ_mul]
    obtain ⟨-, ⟨rfl, rfl⟩, rfl⟩ | ⟨-, ⟨rest, again⟩, _, further, ⟨rfl, rfl⟩, rfl⟩ := h
    · exact ⟨by simp [moved], by simpa using fun _ => within, by simp, by simp⟩
    · obtain ⟨reached, inside, room, all⟩ := inductionHypothesis further
      rw [moved] at reached inside
      dsimp only at reached inside room all ⊢
      rw [List.length_append, length_window present]
      refine ⟨?_, by omega, by omega, fun missed => ?_⟩
      · rw [reached]
        simp only [Nat.add_assoc]
      · rw [all missed, Nat.add_comm]

theorem readUntil_advances {mark bytes : List UInt8} {units : Nat} {found : Bool}
    (h : Returns (d.readUntil p n mark units) st (bytes, found) st') :
    st.reading.Advances p.limit st'.reading := by
  obtain ⟨moved, within, -⟩ := readUntil_returns h
  exact ⟨_, moved, within⟩

theorem readFramed_advances {encoding : Text.Encoding} {kind : StringKind}
    {delimiter : Option UInt8} {declared : Option Nat} {bytes : List UInt8}
    (h : Returns (d.readFramed p n offset encoding kind delimiter declared) st bytes st') :
    st.reading.Advances p.limit st'.reading := by
  -- Zero and the delimiter are found in the same way.
  have terminated : ∀ terminator, Returns (d.readTerminated p n offset terminator declared) st
      bytes st' → st.reading.Advances p.limit st'.reading := by
    intro terminator h
    simp only [readTerminated, returns_bind] at h
    obtain ⟨⟨text, found⟩, _, reads, h⟩ := h
    cases declared with
    | none =>
      simp only [returns_guard_bind, returns_pure] at h
      obtain ⟨-, -, rfl⟩ := h
      exact readUntil_advances reads
    | some slot =>
      simp only [returns_bind, returns_pure] at h
      obtain ⟨_, _, skips, -, rfl⟩ := h
      exact (readUntil_advances reads).trans (skip_advances skips)
  cases kind with
  | fixedLength =>
    simp only [readFramed, readFixed, returns_bind, returns_pure] at h
    obtain ⟨_, _, reads, -, rfl⟩ := h
    exact read_advances reads
  | pascal =>
    simp only [readFramed, readPascal, returns_bind] at h
    obtain ⟨first, _, begins, h⟩ := h
    cases declared with
    | none => exact (read_advances begins).trans (read_advances h)
    | some slot =>
      simp only [returns_guard_bind, returns_bind, returns_pure] at h
      obtain ⟨-, _, _, reads, _, _, skips, -, rfl⟩ := h
      exact ((read_advances begins).trans (read_advances reads)).trans (skip_advances skips)
  | zeroTerminated => exact terminated _ h
  | delimited => exact terminated _ h

theorem matchString_returns {text : String} {matched : Option String}
    (h : Returns (d.matchString n offset text) st matched st') : st'.reading = st.reading := by
  simp only [matchString, returns_bind, returns_resolved, returns_ite, returns_pure] at h
  obtain ⟨choices, _, ⟨-, rfl⟩, ⟨-, mustMatch, _, ⟨-, rfl⟩, h⟩ | ⟨-, -, rfl⟩⟩ := h
  · obtain ⟨-, _, _, violates, -, rfl⟩ | ⟨-, -, rfl⟩ := h
    · exact violation_returns violates
    · rfl
  · rfl

/-- The kinds that are fields of whole bytes: texts, runs of bytes, and what a script decodes. -/
inductive TakesBytes : Kind → Prop
  | string (body : StringBody) : TakesBytes (.string body)
  | binary (body : BinaryBody) : TakesBytes (.binary body)
  | custom (body : CustomBody) : TakesBytes (.custom body)
  | script (body : ScriptBody) : TakesBytes (.script body)

theorem TakesBytes.childless {kind : Kind} (h : TakesBytes kind) :
    kind.producesChildren = false := by
  cases h <;> rfl

/-- How a field of whole bytes decodes: it lies at the cursor, has no children, is no number and no
offset, and the bytes that it takes are within the frame. -/
structure WholeDecoded (d : Decoder σ) (p : Place) (n : Node d.schema) (before : Reading)
    (v : Value) (after : Reading) : Prop where
  element : v.element = n.id
  offset : v.offset = before.cursor
  children : v.children = []
  side : v.referenced? = none
  number : v.number? = none
  plain : ∀ pointer target side, v.payload ≠ .offset pointer target side
  within : 0 < v.len → before.cursor + v.len ≤ p.limit
  cursor : after.cursor = before.cursor + v.len
  aligned : after.pending = []

theorem decodeString_returns {v : Value} (h : Returns (d.decodeString p n) st v st') :
    WholeDecoded d p n st.reading v st'.reading := by
  simp only [decodeString, returns_bind, returns_align, returns_resolved] at h
  obtain ⟨_, _, rfl, start, told, tells, label, _, ⟨-, rfl⟩, h⟩ := h
  obtain ⟨rfl, same⟩ := tell_returns tells
  cases known : d.encodings.ofLabel? label with
  | none =>
    rw [known] at h
    exact absurd h returns_fail
  | some encoding =>
    rw [known] at h
    simp only [returns_bind, returns_resolved, declaredBytes_returns] at h
    obtain ⟨delimiter, _, ⟨-, rfl⟩, kind, _, ⟨-, rfl⟩, declared, _, ⟨-, rfl⟩, bytes, _, frames,
      stop, _, stops, h⟩ := h
    obtain ⟨rfl, ended⟩ := tellAt_returns stops
    -- However it is framed, the string has gone on by some whole bytes, which are its length.
    obtain ⟨len, moved, within⟩ := readFramed_advances frames
    cases readable : d.encodings.decode? encoding bytes with
    | none =>
      rw [readable] at h
      exact absurd h returns_fail
    | some chars =>
      rw [readable] at h
      simp only [returns_bind, returns_record, returns_pure] at h
      obtain ⟨matched, _, matches_, _, _, recorded, rfl, last⟩ := h
      have unmoved := matchString_returns matches_
      rw [same] at moved within
      have final : st'.reading =
          { st.reading with cursor := st.reading.cursor + len, pending := [] } := by
        subst last recorded
        exact (unmoved.trans ended).trans moved
      rw [final, moved]
      -- The length is the difference of two cursors.
      have taken : st.reading.cursor + len - st.reading.cursor = len := by omega
      refine ⟨rfl, rfl, rfl, rfl, rfl, by simp, ?_, ?_, rfl⟩
      · simpa [taken] using within
      · simp [taken]

/-! ## Runs of bytes -/

theorem matchBytes_advances {count : Nat} {choices : List (NamedValue (List UInt8))}
    {matched : Option String}
    (h : Returns (d.matchBytes p n offset count choices) st matched st') :
    st.reading.cursor + count ≤ p.limit ∧
      st'.reading = { st.reading with cursor := st.reading.cursor + count } := by
  simp only [matchBytes, returns_bind, returns_resolved, returns_ite, returns_pure] at h
  obtain ⟨bytes, _, reads, ⟨-, mustMatch, _, ⟨-, rfl⟩, h⟩ | ⟨-, -, rfl⟩⟩ := h
  · obtain ⟨-, within, -, moved⟩ := read_returns reads
    obtain ⟨-, _, _, violates, -, rfl⟩ | ⟨-, -, rfl⟩ := h
    · exact ⟨within, (violation_returns violates).trans moved⟩
    · exact ⟨within, moved⟩
  · obtain ⟨-, within, -, moved⟩ := read_returns reads
    exact ⟨within, moved⟩

theorem decodeBinary_returns {v : Value} (h : Returns (d.decodeBinary p n) st v st') :
    WholeDecoded d p n st.reading v st'.reading := by
  simp only [decodeBinary, returns_bind, returns_align, returns_resolved, declaredBytes_returns,
    returns_ite, returns_record, returns_pure] at h
  obtain ⟨_, _, rfl, start, told, tells, declared, _, ⟨-, rfl⟩, choices, _, ⟨-, rfl⟩, h⟩ := h
  obtain ⟨rfl, same⟩ := tell_returns tells
  obtain ⟨-, _, _, skips, matched, _, ⟨rfl, rfl⟩, _, _, rfl, rfl, rfl⟩ |
    ⟨-, matched, _, reads, _, _, rfl, rfl, rfl⟩ := h
  · obtain ⟨within, moved⟩ := skip_returns skips
    rw [same] at within moved
    exact ⟨rfl, rfl, rfl, rfl, rfl, by simp, fun _ => within, congrArg Reading.cursor moved,
      congrArg Reading.pending moved⟩
  · obtain ⟨within, moved⟩ := matchBytes_advances reads
    rw [same] at within moved
    exact ⟨rfl, rfl, rfl, rfl, rfl, by simp, fun _ => within, congrArg Reading.cursor moved,
      congrArg Reading.pending moved⟩

/-! ## Scripted elements -/

omit [ByteSource σ] [SliceLike σ] in
theorem runScript_returns {host : ScriptHost σ} {script : ScriptBody} {call : ScriptCall}
    {output : ScriptOutput} (h : Returns (d.runScript n host script call) st output st') :
    ∃ source, st' = { st with source := source } := by
  unfold Returns ending runScript at h
  rcases ran : (host.run script call st.source : Except String ScriptOutput × σ)
    with ⟨e | answer, source⟩
  · rw [ran] at h
    cases h
  · rw [ran] at h
    cases h
    exact ⟨source, rfl⟩

theorem decodeByScript_returns {script : ScriptBody} {v : Value}
    (h : Returns (d.decodeByScript p n st.reading.cursor script) st v st')
    (aligned : st.pending = []) : WholeDecoded d p n st.reading v st'.reading := by
  unfold decodeByScript at h
  cases hosted : d.scripts with
  | none =>
    rw [hosted] at h
    exact absurd h returns_fail
  | some host =>
    rw [hosted] at h
    simp only [returns_bind, declaredBytes_returns, returns_guard_bind, returns_pure] at h
    obtain ⟨declared, _, ⟨-, rfl⟩, output, _, runs, within, _, _, seeks, rfl, rfl⟩ := h
    -- Where the script has left the cursor does not matter: it is moved behind the claimed bytes.
    obtain ⟨source, rfl⟩ := runScript_returns runs
    have moved := seek_returns seeks
    rw [moved]
    refine ⟨rfl, rfl, rfl, rfl, rfl, by simp, ?_, rfl, aligned⟩
    intro _
    dsimp only
    omega

theorem decodeScripted_returns {id : ElementId} {v : Value}
    (h : Returns (d.decodeScripted p n id) st v st') :
    WholeDecoded d p n st.reading v st'.reading := by
  simp only [decodeScripted, returns_bind, returns_align, node_returns] at h
  obtain ⟨_, _, rfl, start, _, tells, script, told, ⟨-, rfl⟩, h⟩ := h
  obtain ⟨rfl, same⟩ := tell_returns tells
  cases body : script.kind with
  | script body =>
    simp only [body] at h
    -- The value lies at the cursor that was told; the lookup of the script has not moved it.
    have start : st.reading.cursor = told.reading.cursor := (congrArg Reading.cursor same).symm
    have decoded := decodeByScript_returns (start ▸ h) (congrArg Reading.pending same)
    exact { decoded with
      offset := decoded.offset.trans start.symm
      within := start ▸ decoded.within
      cursor := start ▸ decoded.cursor }
  | _ =>
    simp only [body] at h
    exact absurd h returns_fail

end Decoder

end BinaryTemplate
