import BinaryTemplate.Proofs.ElementSimulation
import BinaryTemplate.Proofs.Fitting

/-!
# The one calculation that may stray

Of the calculations of a decode only one can leave its type: the index of a bit, which is eight
times the position of its byte. What else a bit field calculates fits by where the cursor is, and
all other calculations fit in every state. So a decode and the one with its calculations made
explicit run in step, and what strays is at most the index of a bit at a position from
`positionLimit / 8` on. A seek may put the cursor there, behind the end of all data.
-/

namespace BinaryTemplate

open DecodeM Simulation

/-! ## Bits one by one

A bit field reads the bytes that it needs and takes its bits from them. It comes to the same if each
bit is put in its place as it is taken, and a byte is read where no bit is left.
-/

namespace Decoder

variable {σ : Type} [ByteSource σ] {d : Decoder σ} {p : Place} {n : Node d.schema}
  {offset width wanted consumed raw : Nat} {bit : Bool} {rest pending : List Bool}

/-- Takes the last `wanted` bits of a number of `width` bits, with the bytes that they need read
first. -/
def takeBits (d : Decoder σ) (p : Place) (n : Node d.schema)
    (offset width wanted consumed raw : Nat) (pending : List Bool) : DecodeM σ (Nat × Nat) := do
  let bytes ← d.pullBytes p n offset ((wanted - pending.length + 7) / 8) consumed
  let bits := pending ++ bytes.flatMap Bits.ofByte
  setPending (bits.drop wanted)
  return (raw + Bits.toNat (bits.take wanted) <<< (width - wanted), consumed + bytes.length)

theorem readBits_eq_takeBits :
    d.readBits p n width = (do
      let offset ← tell n
      let pending := (← get).pending
      let firstBit := nextBit offset pending.length
      if positionLimit ≤ firstBit then fail n offset (.bitIndexOverflow offset)
      let (raw, len) ← d.takeBits p n offset width width 0 0 pending
      record (.bitsRead n.label width raw firstBit)
      return ⟨raw, offset, len, some ⟨firstBit, width⟩, width⟩) := by
  unfold readBits takeBits
  simp only [bind_assoc, pure_bind, Nat.sub_self, Nat.shiftLeft_zero, Nat.zero_add]

theorem takeBits_zero :
    d.takeBits p n offset width 0 consumed raw pending = (do
      setPending pending
      return (raw, consumed)) := by
  have none : (0 - pending.length + 7) / 8 = 0 := by omega
  unfold takeBits
  rw [none]
  simp only [pullBytes, pure_bind, List.flatMap_nil, List.append_nil, List.drop_zero,
    List.take_zero, Bits.toNat, Nat.zero_shiftLeft, Nat.add_zero, List.length_nil]

/-- The next bit that is unread is the next one of the number. -/
theorem takeBits_cons (few : wanted < width) :
    d.takeBits p n offset width (wanted + 1) consumed raw (bit :: rest) =
      d.takeBits p n offset width wanted consumed (raw + bit.toNat <<< (width - (wanted + 1)))
        rest := by
  have place : width - wanted = width - (wanted + 1) + 1 := by omega
  have weight (first others place : Nat) :
      (first + 2 * others) <<< place = first <<< place + others <<< (place + 1) := by
    simp only [Nat.shiftLeft_eq, Nat.pow_succ]
    ring
  unfold takeBits
  simp only [List.length_cons, Nat.add_sub_add_right, List.cons_append, List.drop_succ_cons,
    List.take_succ_cons, Bits.toNat, weight, place, Nat.add_assoc]

/-- Without unread bits the next byte is read. -/
theorem takeBits_nil :
    d.takeBits p n offset width (wanted + 1) consumed raw [] = (do
      if p.limit ≤ offset + consumed then fail n offset (.shortRead ((wanted + 1 + 7) / 8) 0)
      let b ← onSource n offset ByteSource.readByte
      d.takeBits p n offset width (wanted + 1) (consumed + 1) raw (Bits.ofByte b)) := by
  have more : (wanted + 1 + 7) / 8 = wanted / 8 + 1 := by omega
  have left (b : UInt8) : (wanted + 1 - (Bits.ofByte b).length + 7) / 8 = wanted / 8 := by
    simp only [Bits.ofByte, List.length_map, List.length_range]
    omega
  unfold takeBits
  rw [List.length_nil, Nat.sub_zero, more, pullBytes]
  by_cases short : p.limit ≤ offset + consumed
  · rw [if_pos short, if_pos short, bind_assoc]
    exact bind_congr_of_returns fun _ _ _ failed => absurd failed returns_fail
  · rw [if_neg short, if_neg short]
    simp only [bind_assoc, pure_bind, left, List.nil_append, List.flatMap_cons, List.length_cons]
    refine bind_congr fun b => bind_congr fun bytes => bind_congr fun _ => ?_
    rw [Nat.add_assoc, Nat.add_comm 1]

end Decoder

/-! ## Two decodes in step -/

/-- A position up to `last` at which bits have no index that is a word. -/
def Unindexed (last position : Nat) : Prop := positionLimit ≤ 8 * position ∧ position ≤ last

/-- The calculation of such an index. -/
def Calculation.IsUnindexed (last : Nat) (c : Calculation) : Prop :=
  ∃ position, c = .product position 8 ∧ Unindexed last position

/-- Whether a decode has failed because a bit has no index. -/
def Failure.IsUnindexed (f : Failure) : Prop := ∃ position, f = .bitIndexOverflow position

/-- The decoder over a source that notes calculations differs in its scripts only. -/
theorem Decoder.counterpart_calculating {σ : Type} (d : Decoder σ) :
    d.Counterpart d.calculating :=
  ⟨.refl d.schema, fun _ _ => rfl, rfl, rfl, rfl, rfl⟩

/-- An element is the same one there. -/
theorem Decoder.twins_calculating {σ : Type} (d : Decoder σ) (n : Node d.schema) :
    @Node.Twins d.schema d.calculating.schema n n :=
  .refl n

/-- The scripts of a decoder cannot change the bytes of the source, and a cursor that they find up
to `last` they leave there. -/
def Decoder.ScriptsStay {σ : Type} [ByteSource σ] [SliceLike σ] (d : Decoder σ) (last : Nat) :
    Prop :=
  ∀ host ∈ d.scripts, ∀ script, d.schema.HasScript script → ∀ call source,
    (SliceLike.slice source).cursor ≤ last →
      let after := SliceLike.slice (host.run script call source).2
      after.data = (SliceLike.slice source).data ∧ after.cursor ≤ last

namespace Calculating

variable {σ : Type} [ByteSource σ] [SliceLike σ] {clean : Prop} {size last : Nat}

/-- A source and the same one with notes, in which there are at most indices of bits that have none,
and nothing if it is to be `clean`. -/
structure InStep (clean : Prop) (size last : Nat) (l : σ) (r : Calculating σ) : Prop where
  source : r.source = l
  strays : ∀ c ∈ r.strays, c.IsUnindexed last
  clean : clean → r.strays = []
  data : (SliceLike.slice l).data.size = size
  cursor : (SliceLike.slice l).cursor ≤ last

/-- A decode and the same one with its calculations made explicit. Where the notes are to be clean,
nothing is said of a decode that ends at a bit without an index. -/
def inStep (clean : Prop) (size last : Nat) : Simulation σ (Calculating σ) where
  source := InStep clean size last
  sameEvents := True
  excuses e := clean ∧ e.failure.IsUnindexed
  moves position := position ≤ last
  high := some size
  follows := true
  fatal := by
    rintro e ⟨-, position, unindexed⟩
    rw [DecodeError.isMismatch, unindexed]
    rfl
  admits e := ∀ position, e.failure = .bitIndexOverflow position → Unindexed last position
  usual := by
    intro e usual position unindexed
    rw [unindexed] at usual
    cases usual
  unindexed := by
    intro e position within beyond fails other same
    cases fails.symm.trans same
    exact ⟨beyond, within⟩

theorem covers_inStep {stop : Nat} :
    (inStep (σ := σ) clean size last).Covers stop ↔ stop ≤ size := by
  simp [Covers, inStep]

theorem roams_inStep (clean : Prop) (inside : size ≤ last) :
    (inStep (σ := σ) clean size last).Roams where
  sides _ covers := covers.sides rfl
  moves _ covers := Nat.le_trans (covers_inStep.mp covers) inside

/-- An operation of the source leaves the two in step if the slice behind it stays within reach. -/
theorem InStep.answers {α : Type} {operation : SourceM σ α} {ofSlice : SourceM Slice α} {l : σ}
    {r : Calculating σ} (inStep : InStep clean size last l r)
    (behaves : Prod.map id SliceLike.slice (operation l) = ofSlice (SliceLike.slice l))
    (kept : (ofSlice (SliceLike.slice l)).2.data = (SliceLike.slice l).data)
    (within : (ofSlice (SliceLike.slice l)).2.cursor ≤ last) :
    (Calculating.inStep clean size last).Answers (operation l) (lifted operation r) := by
  obtain ⟨rfl, strays, clean, data, -⟩ := inStep
  have slices : SliceLike.slice (operation r.source).2 = (ofSlice (SliceLike.slice r.source)).2 :=
    congrArg Prod.snd behaves
  refine ⟨rfl, rfl, strays, clean, ?_, ?_⟩
  · rw [slices, kept, data]
  · rw [slices]
    exact within

theorem respects_inStep (clean : Prop) (inside : size ≤ last) :
    (inStep (σ := σ) clean size last).Respects where
  moves _ _ inStep := inStep.cursor
  onward _ _ _ _ covers := Nat.le_trans (covers_inStep.mp covers) inside
  tell l r inStep := inStep.answers (SliceLike.tell_slice l) rfl inStep.cursor
  seek position l r within inStep :=
    inStep.answers (SliceLike.seek_slice (.start position) l) (Slice.data_seek _ _) within
  readExact count l r covers inStep := by
    have present := covers_inStep.mp covers
    refine inStep.answers (SliceLike.readExact_slice count l) (Slice.data_readExact _ _) ?_
    have enough : ¬ (SliceLike.slice l).data.size < (SliceLike.slice l).cursor + count := by
      rw [inStep.data]
      omega
    rw [Slice.readExact_apply, Slice.bytesAt, if_neg enough]
    exact Nat.le_trans present inside

/-! ## Numbers and offsets -/

section Numbers

variable {d : Decoder σ} {p : Place} {n : Node d.schema} {offset : Nat}

section Unindexed

variable {α β γ : Type} {Q : α → β → Prop} {st : DecodeState σ}
  {st' : DecodeState (Calculating σ)} {next : γ → DecodeM σ α}
  {next' : Unit → DecodeM (Calculating σ) β}

/-- An index that does not fit is noted on the right, and both runs fail. -/
theorem unindexed_ends {position : Nat} (related : (inStep clean size last).Related st st')
    (stray : Unindexed last position) (here : Unindexed last offset) :
    EndRelated (inStep clean size last) Q
      ((fail n offset (.bitIndexOverflow offset) >>= next).ending st)
      ((calculate n offset (.product position 8) >>= next').ending st') := by
  have large : ¬ (Calculation.product position 8).Fits := by
    show ¬ position * 8 < positionLimit
    have beyond := stray.1
    omega
  unfold calculate
  rw [if_pos large]
  by_cases isClean : clean
  · exact .excused ⟨isClean, offset, rfl⟩
  · have noted : InStep clean size last st.source
        { st'.source with strays := .product position 8 :: st'.source.strays } :=
      { related.source with
        clean := fun isClean' => absurd isClean' isClean
        strays := by
          intro c member
          obtain rfl | member := List.mem_cons.mp member
          · exact ⟨position, rfl, stray⟩
          · exact related.source.strays c member }
    refine .threw { related with source := noted } ?_
    rintro other ⟨⟩
    exact here

/-- Less than eight bits more make no word of what was none, so the product is too large already. -/
theorem indexBit_ends {pending : Nat} (related : (inStep clean size last).Related st st')
    (here : offset ≤ last) (beyond : positionLimit ≤ Decoder.nextBit offset pending) :
    EndRelated (inStep clean size last) Q
      ((fail n offset (.bitIndexOverflow offset) >>= next).ending st)
      ((indexBit n offset pending >>= next').ending st') := by
  have own : Unindexed last offset := ⟨Decoder.unindexed_of_nextBit beyond, here⟩
  unfold indexBit
  by_cases aligned : pending = 0
  · rw [if_pos aligned]
    exact unindexed_ends related own own
  · rw [if_neg aligned, bind_assoc]
    refine unindexed_ends related ⟨?_, by omega⟩ own
    rw [Decoder.nextBit, if_neg aligned] at beyond
    unfold positionLimit Integer.unsignedLimit at *
    omega

end Unindexed

variable (inside : size ≤ last) (small : last < positionLimit)

include inside small

/-- Bytes are counted up to the cursor, which is a word. -/
theorem takeBits_ends {width wanted consumed raw : Nat} {pending : List Bool}
    {st : DecodeState σ} {st' : DecodeState (Calculating σ)}
    (covers : (inStep (σ := σ) clean size last).Covers p.limit) (few : wanted ≤ width)
    (most : width ≤ 64) (at_ : st.reading.cursor = offset + consumed)
    (related : (inStep clean size last).Related st st') :
    EndRelated (inStep clean size last) Eq
      ((d.takeBits p n offset width wanted consumed raw pending).ending st)
      ((takeBits d p n offset width wanted consumed raw pending).ending st') := by
  have keeps := respects_inStep (σ := σ) clean inside
  have names := (d.twins_calculating n).toNamesakes
  -- What is consumed lies before the cursor, so each sum that counts it is up to a position.
  induction wanted generalizing consumed raw pending st st' with
  | zero =>
    rw [Decoder.takeBits_zero, takeBits_zero]
    exact Simulates.bind (.setPending _) (fun _ => .pure rfl) st st' related
  | succ wanted inductionHypothesis =>
    have next : wanted ≤ width := by omega
    cases pending with
    | cons bit rest =>
      rw [Decoder.takeBits_cons few, takeBits_cons few most]
      exact inductionHypothesis next at_ related
    | nil =>
      have here : st.reading.cursor ≤ last := moves_cursor keeps related
      have start : (Calculation.sum offset consumed).Fits := by
        show offset + consumed < positionLimit
        omega
      rw [Decoder.takeBits_nil, takeBits_nil, calculate_bind start]
      refine Simulates.guard_ends names rfl related fun within => ?_
      refine (readByte_ends names keeps related (covers.mono (by omega))).bind ?_
      rintro b _ mid mid' reads rfl between
      obtain ⟨-, -, moved⟩ := Decoder.readByte_returns reads
      have there : mid.reading.cursor = offset + (consumed + 1) := by
        rw [moved]
        dsimp only
        omega
      have bound : mid.reading.cursor ≤ last := moves_cursor keeps between
      have more : (Calculation.sum consumed 1).Fits := by
        show consumed + 1 < positionLimit
        omega
      rw [calculate_bind more]
      -- A byte has a first bit, which is taken from it on both sides.
      obtain ⟨bit, rest, byte⟩ : ∃ bit rest, Bits.ofByte b = bit :: rest := ⟨_, _, rfl⟩
      rw [byte, Decoder.takeBits_cons few, takeBits_cons few most]
      exact inductionHypothesis next there between

theorem readBits_sims {width : Nat}
    (covers : (inStep (σ := σ) clean size last).Covers p.limit) (most : width ≤ 64) :
    (inStep clean size last).Simulates Eq (d.readBits p n width) (readBits d p n width) := by
  have keeps := respects_inStep (σ := σ) clean inside
  have names := (d.twins_calculating n).toNamesakes
  intro st st' related
  rw [Decoder.readBits_eq_takeBits]
  unfold readBits
  refine (tell_sims names keeps st st' related).bind ?_
  rintro offset _ mid mid' tells rfl between
  obtain ⟨rfl, same⟩ := tell_returns tells
  refine .get_bind ?_
  rw [← between.pending]
  dsimp only
  by_cases beyond : positionLimit ≤ Decoder.nextBit st.reading.cursor mid.pending.length
  · rw [if_pos beyond]
    exact indexBit_ends between (moves_cursor keeps related) beyond
  · rw [if_neg beyond, indexBit_eq (Nat.lt_of_not_le beyond), pure_bind]
    refine (takeBits_ends inside small covers (Nat.le_refl width) most ?_ between).bind ?_
    · rw [same]
      rfl
    · rintro taken _ after after' - rfl related
      exact Simulates.bind (.record _) (fun _ => .pure rfl) after after' related

/-- All else of a number or an offset is as in the decoder. -/
theorem readRaw_sims (covers : (inStep (σ := σ) clean size last).Covers p.limit)
    (order : ByteOrder) :
    (inStep clean size last).Simulates Eq (d.readRaw p n order) (readRaw d p n order) := by
  have keeps := respects_inStep (σ := σ) clean inside
  have kin := d.counterpart_calculating
  have twins := d.twins_calculating n
  refine .bind (tell_sims twins.toNamesakes keeps) fun start =>
    .bind (.resolved twins.toNamesakes rfl) fun length => ?_
  cases length with
  | none => exact .fail twins.toNamesakes rfl
  | some length =>
    refine .bind (.resolved twins.toNamesakes rfl) fun unit => ?_
    refine .bind (Decoder.evalCount_sims kin twins length) fun units => ?_
    refine .guard twins.toNamesakes rfl fun wide => ?_
    cases unit with
    | bit => exact readBits_sims inside small covers (by omega)
    | byte => exact Decoder.readBytes_sims (τ := Calculating σ) twins keeps covers order _

omit inside small in
/-- What is read as a number has bits. -/
theorem readRaw_wide {order : ByteOrder} {r : Decoder.RawNumber} {st st' : DecodeState σ}
    (h : Returns (d.readRaw p n order) st r st') : 0 < r.width := by
  obtain ⟨unit, width, ⟨_, _, _, _, _, _, wide, _⟩, raw⟩ := Decoder.readRaw_returns h
  generalize st'.reading = after at raw
  cases raw with
  | bits => exact wide
  | bytes => exact wide

theorem decodeNumber_sims (covers : (inStep (σ := σ) clean size last).Covers p.limit) :
    (inStep clean size last).Simulates Eq (d.decodeNumber p n) (decodeNumber d p n) := by
  have keeps := respects_inStep (σ := σ) clean inside
  have kin := d.counterpart_calculating
  have twins := d.twins_calculating n
  have frame : p.limit < positionLimit := by
    have within := covers_inStep.mp covers
    omega
  refine .bind (tell_sims twins.toNamesakes keeps) fun start =>
    .bind (.resolved twins.toNamesakes rfl) fun kind =>
    .bind (.resolved twins.toNamesakes rfl) fun order =>
    .bind (.resolved twins.toNamesakes rfl) fun expression => ?_
  simp only [finishNumber_eq]
  cases expression with
  | some expression =>
    refine .bind (Decoder.evalInteger_sims kin twins expression) fun k => ?_
    rw [computedPlace_eq frame]
    exact .bind (Decoder.computedPlace_sims kin twins keeps covers) fun place =>
      Decoder.finishNumber_sims kin twins _ _ _ _
  | none =>
    intro st st' related
    refine (readRaw_sims inside small covers order st st' related).bind ?_
    rintro r _ mid mid' reads rfl between
    rw [interpret_eq kind (readRaw_wide reads)]
    exact Simulates.bind (Decoder.interpret_sims (τ := Calculating σ) twins kind r)
      (fun _ => Decoder.finishNumber_sims kin twins _ _ _ _) mid mid' between

theorem decodeOffset_sims {child : d.DecodeChild} {child' : d.calculating.DecodeChild}
    (covers : (inStep (σ := σ) clean size last).Covers ((inStep (σ := σ) clean size last).reach p))
    (simulates : ∀ id, Decoder.SimulatesChild (inStep clean size last) child child' id) :
    (inStep clean size last).Simulates Eq (d.decodeOffset child p n)
      (decodeOffset d child' p n) := by
  have keeps := respects_inStep (σ := σ) clean inside
  have kin := d.counterpart_calculating
  have twins := d.twins_calculating n
  exact .bind (tell_sims twins.toNamesakes keeps) fun _ =>
    .bind (.resolved twins.toNamesakes rfl) fun order =>
    .bind (readRaw_sims inside small covers.limit order) fun r =>
    .bind (Decoder.targetAddress_sims kin twins r.raw) fun target =>
    .bind (Decoder.followTarget_sims kin twins keeps (roams_inStep clean inside) covers
      (fun element _ => simulates element) target) fun _ => .pure rfl

end Numbers

/-! ## Elements -/

section Elements

variable {d : Decoder σ} {p : Place} {n : Node d.schema} {offset : Nat}

theorem sameHosts_inStep (stay : d.ScriptsStay last) :
    Option.Rel (Decoder.SameHost (inStep clean size last) d d.calculating) d.scripts
      d.calculating.scripts := by
  unfold Decoder.calculating
  cases hosted : d.scripts with
  | none => exact .none
  | some host =>
    refine .some fun script defined element start length? limit frames l r inStep => ?_
    obtain ⟨kept, within⟩ := stay host hosted script defined
      ⟨element, start, length?, limit, ⟨d.schema, frames⟩⟩ l inStep.cursor
    obtain ⟨rfl, strays, clean, data, -⟩ := inStep
    exact ⟨rfl, rfl, strays, clean, (congrArg Array.size kept).trans data, within⟩

variable (inside : size ≤ last) (small : last < positionLimit) (room : size + 2 < positionLimit)
  (stay : d.ScriptsStay last)

include inside small room stay

theorem decodeKind_sims {child : d.DecodeChild} {child' : d.calculating.DecodeChild}
    (covers : (inStep (σ := σ) clean size last).Covers ((inStep (σ := σ) clean size last).reach p))
    (simulates : ∀ id, Decoder.SimulatesChild (inStep clean size last) child child' id) :
    (inStep clean size last).Simulates Eq (d.decodeKind child p n offset)
      (decodeKind d child' p n offset) := by
  have keeps := respects_inStep (σ := σ) clean inside
  have roams := roams_inStep (σ := σ) clean inside
  have kin := d.counterpart_calculating
  have twins := d.twins_calculating n
  have frame : p.limit + 2 < positionLimit := by
    have within := covers_inStep.mp covers.limit
    omega
  -- Only numbers and offsets read bits; every other kind is the same decode with all that fits.
  by_cases number : ∃ body, n.kind = .number body
  · obtain ⟨body, kind⟩ := number
    unfold Decoder.decodeKind decodeKind
    rw [kind]
    exact decodeNumber_sims inside small covers.limit
  by_cases pointer : ∃ body, n.kind = .offset body
  · obtain ⟨body, kind⟩ := pointer
    unfold Decoder.decodeKind decodeKind
    rw [kind]
    exact decodeOffset_sims inside small covers simulates
  rw [decodeKind_eq frame (fun body kind => number ⟨body, kind⟩)
    fun body kind => pointer ⟨body, kind⟩]
  refine Decoder.decodeKind_sims kin twins keeps ?_ covers
  exact .of_schema_eq rfl twins (fun id _ => simulates id) (fun _ => roams) fun _ _ id covers =>
    Decoder.decodeScripted_sims kin twins keeps roams covers.limit (sameHosts_inStep stay) id

theorem decodeOne_sims (depth : Nat) (id : ElementId) :
    Decoder.SimulatesChild (inStep clean size last) (d.decodeOne depth) (decodeOne d depth) id := by
  have keeps := respects_inStep (σ := σ) clean inside
  have kin := d.counterpart_calculating
  induction depth generalizing id with
  | zero => exact fun _ _ _ _ twins _ => Decoder.decodeOne_zero_sims kin twins keeps
  | succ depth inductionHypothesis =>
    rintro p n n' - twins covers
    obtain rfl : n = n' := Node.eq_of_id twins.id
    exact .bind (.record _) fun _ => .bind (tell_sims twins.toNamesakes keeps) fun _ =>
      decodeKind_sims inside small room stay covers inductionHypothesis

omit inside small room stay in
theorem checkTree_sims (v : Value) :
    (inStep (σ := σ) clean size last).Simulates Eq (d.checkTree n v)
      (d.calculating.checkTree n v) := by
  unfold Decoder.checkTree
  refine .ite (fun _ => ?_) fun _ => .pure rfl
  cases v.validate d.schema with
  | ok => exact .pure rfl
  | error cause => exact .throw nofun

theorem decodeWhole_ends (clean : Prop) (element : ElementId) {source : σ}
    (data : (SliceLike.slice source).data.size = size)
    (cursor : (SliceLike.slice source).cursor ≤ last) :
    EndRelated (inStep clean size last) Eq ((d.decodeWhole element).ending { source := source })
      ((decodeWhole d element).ending { source := { source := source } }) := by
  have keeps := respects_inStep (σ := σ) clean inside
  have kin := d.counterpart_calculating
  have begun : (inStep clean size last).Related { source := source }
      { source := { source := source } } :=
    ⟨⟨rfl, nofun, fun _ => rfl, data, cursor⟩, rfl, rfl, fun _ => rfl⟩
  refine (Decoder.node_sims kin element _ _ begun).bind ?_
  rintro n n' found found' - twins between
  obtain rfl : n = n' := Node.eq_of_id twins.id
  refine (tell_sims twins.toNamesakes keeps _ _ between).bind ?_
  rintro start _ told told' - rfl between
  have sizes := between.source.answers (SliceLike.size_slice _) rfl between.source.cursor
  refine (onSource_ends twins.toNamesakes between sizes).bind ?_
  rintro dataStop _ sized sized' measures rfl after
  -- The frame of the decode ends with the data.
  obtain ⟨rfl, -⟩ := size_returns measures
  have within : told.reading.data.size = size := between.source.data
  have covers : (inStep (σ := σ) clean size last).Covers ((inStep (σ := σ) clean size last).reach
      (Decoder.startPlace element start told.reading.data.size)) := by
    have all : (inStep (σ := σ) clean size last).Covers told.reading.data.size :=
      covers_inStep.mpr (Nat.le_of_eq within)
    exact covers_reach.mpr ⟨all, fun _ => all⟩
  exact Simulates.bind
    (decodeOne_sims inside small room stay _ n.id _ n n rfl twins covers)
    (fun v => .bind (checkTree_sims v) fun _ => .pure rfl) sized sized' after

end Elements

theorem strays_of_ends {α : Type} {l : Except DecodeError α × DecodeState σ}
    {r : Except DecodeError α × DecodeState (Calculating σ)}
    (ends : EndRelated (inStep True size last) Eq l r) :
    r.2.source.strays = [] ∨ ∃ e, l.1 = .error e ∧ e.failure.IsUnindexed := by
  cases ends with
  | returned _ related => exact .inl (related.source.clean trivial)
  | threw related _ => exact .inl (related.source.clean trivial)
  | excused excuse => exact .inr ⟨_, rfl, excuse.2⟩

theorem unindexed_of_ends {α : Type} {l : Except DecodeError α × DecodeState σ}
    {r : Except DecodeError α × DecodeState (Calculating σ)}
    (ends : EndRelated (inStep False size last) Eq l r) {e : DecodeError} {position : Nat}
    (failed : l.1 = .error e) (unindexed : e.failure = .bitIndexOverflow position) :
    Unindexed last position := by
  cases ends with
  | returned => cases failed
  | threw _ sound =>
    cases failed
    exact sound position unindexed
  | excused excuse => exact excuse.1.elim

omit [SliceLike σ] in
theorem decodeElement_eq (d : Decoder σ) (element : ElementId) (source : σ) :
    decodeElement d element source =
      ⟨((decodeWhole d element).ending { source := { source := source } }).1.map fun v =>
          (v, ((decodeWhole d element).ending
            { source := { source := source } }).2.warnings.reverse),
        ((decodeWhole d element).ending { source := { source := source } }).2.source,
        ((decodeWhole d element).ending { source := { source := source } }).2.events.reverse⟩ :=
  rfl

end Calculating

/-! ## The whole decode -/

namespace Decoder

/-- The index of a bit is the only calculation of a decode that can leave its type. From a start up
to `last`, in data up to `last`, a decode with all calculations made explicit is the decode itself.
The strays are indices of bits at positions from `positionLimit / 8` on, and there are none unless
the decode ends at a bit without an index. -/
theorem only_bit_indices_stray {σ : Type} [ByteSource σ] [SliceLike σ] (d : Decoder σ)
    (element : ElementId) (source : σ) (last : Nat)
    (room : (SliceLike.slice source).data.size + 2 < positionLimit)
    (inside : (SliceLike.slice source).data.size ≤ last)
    (reached : (SliceLike.slice source).cursor ≤ last) (small : last < positionLimit)
    (stay : d.ScriptsStay last) :
    let plain := d.decodeElement element source
    let run := Calculating.decodeElement d element source
    run.result = plain.result ∧ run.events = plain.events ∧ run.source.source = plain.source ∧
      (∀ c ∈ run.source.strays, c.IsUnindexed last) ∧
      (run.source.strays ≠ [] → ∃ e, plain.result = .error e ∧ e.failure.IsUnindexed) ∧
      (∀ e position, plain.result = .error e → e.failure = .bitIndexOverflow position →
        Unindexed last position) ∧
      (8 * last < positionLimit →
        run.source.strays = [] ∧ ∀ e, plain.result = .error e → ¬ e.failure.IsUnindexed) := by
  intro plain run
  -- The run with notes is compared twice: for what it notes, and for when it notes anything.
  have noted := Calculating.decodeWhole_ends inside small room stay False element rfl reached
  have clean := Calculating.decodeWhole_ends inside small room stay True element rfl reached
  have plainly : plain = _ := decodeElement_eq d element source
  have explicitly : run = _ := Calculating.decodeElement_eq d element source
  obtain ⟨same, related⟩ := noted.agree fun e excuse => excuse.1
  have strays : ∀ c ∈ run.source.strays, c.IsUnindexed last := related.source.strays
  have unindexed : ∀ e position, plain.result = .error e →
      e.failure = .bitIndexOverflow position → Unindexed last position := by
    intro e position failed
    obtain ⟨after, thrown⟩ := decodeElement_throws failed
    exact Calculating.unindexed_of_ends noted (congrArg Prod.fst thrown)
  refine ⟨?_, ?_, related.source.source, strays, ?_, unindexed, fun low => ⟨?_, ?_⟩⟩
  · rw [plainly, explicitly, same, related.warnings]
  · rw [plainly, explicitly, related.events trivial]
  · intro some
    obtain none | ⟨e, failed, ends⟩ := Calculating.strays_of_ends clean
    · exact absurd none some
    · refine ⟨e, ?_, ends⟩
      rw [plainly, failed]
      rfl
  · refine List.eq_nil_iff_forall_not_mem.mpr fun c member => ?_
    obtain ⟨position, -, beyond, within⟩ := strays c member
    omega
  · rintro e failed ⟨position, ends⟩
    obtain ⟨beyond, within⟩ := unindexed e position failed ends
    omega

/-- A structure of a number of three bits and a string of up to three bytes. -/
def labelled : Decoder Slice where
  schema :=
    { elements := #[
        ⟨{}, .structure { children := [⟨1⟩, ⟨2⟩] }⟩,
        ⟨{}, .number { extent := { length := some (.literal 3), unit := some .bit } }⟩,
        ⟨{}, .string { kind := some .zeroTerminated, extent := { length := some (.literal 3) } }⟩]
      root := ⟨0⟩ }

def labelledValue : Value :=
  ⟨⟨0⟩, 0, 4, none, .none,
    [⟨⟨1⟩, 0, 1, some .little, .number (.unsigned 5) none [] (some ⟨0, 3⟩), []⟩,
      ⟨⟨2⟩, 1, 3, none, .string "A" none, []⟩]⟩

set_option maxRecDepth 8000 in
theorem only_bit_indices_stray_labelled :
    labelled.ScriptsStay 4 ∧
      (labelled.decodeElement ⟨0⟩ ⟨#[0x0d, 0x41, 0, 0], 0⟩).result = .ok (labelledValue, []) ∧
      (Calculating.decodeElement labelled ⟨0⟩ (⟨#[0x0d, 0x41, 0, 0], 0⟩ : Slice)).result =
        .ok (labelledValue, []) ∧
      (Calculating.decodeElement labelled ⟨0⟩
        (⟨#[0x0d, 0x41, 0, 0], 0⟩ : Slice)).source.strays = [] := by
  have stay : labelled.ScriptsStay 4 := nofun
  obtain ⟨same, -, -, -, -, -, clean⟩ := only_bit_indices_stray labelled ⟨0⟩
    (⟨#[0x0d, 0x41, 0, 0], 0⟩ : Slice) 4 (by decide) (by decide) (by decide) (by decide) stay
  have decodes : (labelled.decodeElement ⟨0⟩ ⟨#[0x0d, 0x41, 0, 0], 0⟩).result =
      .ok (labelledValue, []) := by cbv
  exact ⟨stay, decodes, same.trans decodes, (clean (by decide)).1⟩

/-- A number of one bit. -/
def flag : Decoder Slice where
  schema :=
    { elements := #[
        ⟨{}, .number { extent := { length := some (.literal 1), unit := some .bit } }⟩]
      root := ⟨0⟩ }

/-- A bit behind the end of the data is not looked for if its index is no word: the decode does not
get as far as to find that it is behind the end. -/
theorem far_bit_strays :
    let run := Calculating.decodeElement flag ⟨0⟩ (⟨#[0], 2 ^ 61⟩ : Slice)
    (∃ e, run.result = .error e ∧ e.failure = .bitIndexOverflow (2 ^ 61)) ∧
      run.source.strays = [.product (2 ^ 61) 8] ∧ ¬ (Calculation.product (2 ^ 61) 8).Fits := by
  refine ⟨⟨⟨⟨0⟩, "number#0", 2 ^ 61, .bitIndexOverflow (2 ^ 61)⟩, ?_, rfl⟩, ?_, by decide⟩
  · cbv
  · cbv

end Decoder

end BinaryTemplate
