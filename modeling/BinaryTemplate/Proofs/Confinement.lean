import BinaryTemplate.Proofs.ElementSimulation

/-!
# What a declared length confines

A structure with a declared length is decoded from the bytes that it declares and from no others,
unless it contains offsets, which lead elsewhere, or scripts, which do as they like. Two things are
meant by that. Inputs that differ only in other bytes decode alike, whether they decode or not. And
no read reaches beyond the declared bytes, which a source that keeps a list of its reads shows.

Both compare two runs that keep to a window of the input, so both follow from the walk of two runs
through the elements of a schema. What is left to show is that the sources answer alike as long as
the reads lie in the window.
-/

namespace BinaryTemplate

/-! ## Bytes in a window -/

theorem getElem?_window (data : Array UInt8) (start count i : Nat) :
    (window data start count)[i]? = if i < count then data[start + i]? else none := by
  rw [window, Array.getElem?_toList, Array.getElem?_extract]
  by_cases inside : i < count
  · rw [if_pos inside]
    by_cases there : start + i < data.size
    · rw [if_pos (by omega)]
    · rw [if_neg (by omega), Array.getElem?_eq_none (by omega)]
  · rw [if_neg inside, if_neg (by omega)]

theorem window_congr {left right : Array UInt8} {start count : Nat}
    (same : ∀ i, start ≤ i → i < start + count → left[i]? = right[i]?) :
    window left start count = window right start count := by
  apply List.ext_getElem?
  intro i
  rw [getElem?_window, getElem?_window]
  by_cases inside : i < count
  · rw [if_pos inside, if_pos inside]
    exact same _ (by omega) (by omega)
  · rw [if_neg inside, if_neg inside]

namespace Slice

variable {low high : Nat} {l r : Slice}

/-- As many bytes with the cursor at the same place, and the same bytes from `low` up to `high`. -/
structure SameWithin (low high : Nat) (l r : Slice) : Prop where
  size : l.data.size = r.data.size
  cursor : l.cursor = r.cursor
  bytes : ∀ i, low ≤ i → i < high → l.data[i]? = r.data[i]?

theorem SameWithin.bytesAt (same : SameWithin low high l r) {count offset : Nat}
    (above : low ≤ offset) (below : offset + count ≤ high) :
    l.bytesAt count offset = r.bytesAt count offset := by
  unfold Slice.bytesAt
  rw [← same.size]
  by_cases short : l.data.size < offset + count
  · rw [if_pos short, if_pos short]
    -- What there is of the bytes wanted ends with the data, and so before the window does.
    have rest : window l.data offset l.data.size = window r.data offset l.data.size := by
      refine window_congr fun i from_ _ => ?_
      by_cases there : i < l.data.size
      · exact same.bytes i (by omega) (by omega)
      · rw [Array.getElem?_eq_none (by omega), Array.getElem?_eq_none (by rw [← same.size]; omega)]
    rw [rest]
  · rw [if_neg short, if_neg short]
    rw [window_congr fun i above below => same.bytes i (by omega) (by omega)]

/-- Also a read that comes up short moves the cursor forwards. -/
theorem cursor_readExact_le (s : Slice) (count : Nat) :
    s.cursor ≤ ((ByteSource.readExact count : SourceM Slice (List UInt8)) s).2.cursor := by
  rw [readExact_apply]
  cases s.bytesAt count s.cursor with
  | ok bytes => exact Nat.le_add_right ..
  | error e => exact Nat.le_max_left ..

theorem SameWithin.readExact (same : SameWithin low high l r) {count : Nat} (above : low ≤ l.cursor)
    (below : l.cursor + count ≤ high) :
    let left := (ByteSource.readExact count : SourceM Slice (List UInt8)) l
    let right := (ByteSource.readExact count : SourceM Slice (List UInt8)) r
    left.1 = right.1 ∧ SameWithin low high left.2 right.2 ∧ low ≤ left.2.cursor := by
  refine ⟨?_, ?_, Nat.le_trans above (cursor_readExact_le l count)⟩
  all_goals
    rw [readExact_apply, readExact_apply, ← same.cursor, ← same.bytesAt above below, ← same.size]
    cases l.bytesAt count l.cursor with
    | ok bytes => first | rfl | exact ⟨same.size, rfl, same.bytes⟩
    | error e => first | rfl | exact ⟨same.size, rfl, same.bytes⟩

end Slice

/-! ## A source that lists its reads -/

/-- A source with the reads made of it: where each began and how many bytes it wanted, the most
recent one first. -/
structure Traced (σ : Type) where
  source : σ
  reads : List (Nat × Nat) := []

namespace Traced

variable {σ : Type} {α ε : Type}

/-- An operation of the source that is no read. -/
def untraced (operation : ExceptT ε (StateM σ) α) : ExceptT ε (StateM (Traced σ)) α :=
  fun t => let (answer, source) := operation t.source; (answer, { t with source := source })

/-- A read of `count` bytes from `start` on. -/
def traced (start count : Nat) (operation : ExceptT ε (StateM σ) α) :
    ExceptT ε (StateM (Traced σ)) α :=
  fun t => untraced operation { t with reads := (start, count) :: t.reads }

variable [ByteSource σ] [SliceLike σ]

instance : ByteSource (Traced σ) where
  seek target := untraced (ByteSource.seek target)
  tell := untraced ByteSource.tell
  size := untraced ByteSource.size
  readExact count := fun t =>
    traced (SliceLike.slice t.source).cursor count (ByteSource.readExact count) t
  readExactAt count offset := traced offset count (ByteSource.readExactAt count offset)

/-- Every read lies within the bytes from `low` up to `high`. -/
def ReadsWithin (low high : Nat) (t : Traced σ) : Prop :=
  ∀ start count, (start, count) ∈ t.reads → low ≤ start ∧ start + count ≤ high

end Traced

/-- The same decoder over a source that lists its reads. -/
@[reducible] def Decoder.traced {σ : Type} (d : Decoder σ) : Decoder (Traced σ) where
  schema := d.schema
  evaluator := d.evaluator
  encodings := d.encodings
  scripts := d.scripts.map fun host => ⟨fun script call => Traced.untraced (host.run script call)⟩
  options := d.options

/-- The state of a decode without the reads made so far. -/
def DecodeState.untraced {σ : Type} (st : DecodeState (Traced σ)) : DecodeState σ :=
  ⟨st.source.source, st.pending, st.warnings, st.events⟩

/-- The state from which the reads of a decode are listed. -/
def DecodeState.traced {σ : Type} (st : DecodeState σ) : DecodeState (Traced σ) :=
  ⟨⟨st.source, []⟩, st.pending, st.warnings, st.events⟩

/-! ## Two runs in a window -/

namespace Simulation

variable {σ : Type} [ByteSource σ] [SliceLike σ]

/-- Runs over inputs that are the same in a window. -/
def sameWithin (σ : Type) [ByteSource σ] [SliceLike σ] (low high : Nat) : Simulation σ σ where
  source l r := Slice.SameWithin low high (SliceLike.slice l) (SliceLike.slice r) ∧
    low ≤ (SliceLike.slice l).cursor
  sameEvents := True
  excuses _ := False
  moves position := low ≤ position
  high := some high
  fatal := Simulation.fatal_of_never

/-- A run and the same run with its reads listed, all of them in a window. -/
def listed (σ : Type) [ByteSource σ] [SliceLike σ] (low high : Nat) : Simulation σ (Traced σ) where
  source l r := r.source = l ∧ r.ReadsWithin low high ∧ low ≤ (SliceLike.slice l).cursor
  sameEvents := True
  excuses _ := False
  moves position := low ≤ position
  high := some high
  fatal := Simulation.fatal_of_never

/-- Operations that do to the slices behind two sources what keeps these the same in the window. -/
theorem sameWithin_answers {low high : Nat} {α : Type} {operation : SourceM σ α}
    {ofSlice : SourceM Slice α}
    (behaves : ∀ source, Prod.map id SliceLike.slice (operation source) =
      ofSlice (SliceLike.slice source)) {l r : σ}
    (same : (ofSlice (SliceLike.slice l)).1 = (ofSlice (SliceLike.slice r)).1 ∧
      Slice.SameWithin low high (ofSlice (SliceLike.slice l)).2 (ofSlice (SliceLike.slice r)).2 ∧
      low ≤ (ofSlice (SliceLike.slice l)).2.cursor) :
    (sameWithin σ low high).Answers (operation l) (operation r) := by
  rw [← behaves l, ← behaves r] at same
  exact same

theorem sameWithin_respects (low high : Nat) : (sameWithin σ low high).Respects where
  moves _ _ related := related.2
  onward _ _ above further _ := Nat.le_trans above further
  tell _ _ := fun ⟨same, above⟩ =>
    sameWithin_answers SliceLike.tell_slice ⟨congrArg Except.ok same.cursor, same, above⟩
  seek position _ _ above := fun ⟨same, _⟩ =>
    sameWithin_answers (SliceLike.seek_slice (.start position))
      ⟨rfl, ⟨same.size, rfl, same.bytes⟩, above⟩
  readExact count _ _ covered := fun ⟨same, above⟩ =>
    sameWithin_answers (SliceLike.readExact_slice count)
      (same.readExact above (covered high rfl))

/-- A listed run does to its source what the run itself does, and leaves the list alone. -/
theorem listed_answers {low high : Nat} {α : Type} {operation : SourceM σ α}
    {ofSlice : SourceM Slice α}
    (behaves : ∀ source, Prod.map id SliceLike.slice (operation source) =
      ofSlice (SliceLike.slice source)) {r : Traced σ} (within : r.ReadsWithin low high)
    (above : low ≤ (ofSlice (SliceLike.slice r.source)).2.cursor) :
    (listed σ low high).Answers (operation r.source) (Traced.untraced operation r) := by
  rw [← behaves r.source] at above
  exact ⟨rfl, rfl, within, above⟩

theorem listed_respects (low high : Nat) : (listed σ low high).Respects where
  moves _ _ related := related.2.2
  onward _ _ above further _ := Nat.le_trans above further
  tell := by
    rintro _ r ⟨rfl, within, above⟩
    exact listed_answers SliceLike.tell_slice within above
  seek position := by
    rintro _ r above ⟨rfl, within, -⟩
    exact listed_answers (SliceLike.seek_slice (.start position)) within above
  readExact count := by
    rintro _ r covered ⟨rfl, within, above⟩
    refine listed_answers (r := ⟨r.source, (_, count) :: r.reads⟩)
      (SliceLike.readExact_slice count) ?_ (Nat.le_trans above (Slice.cursor_readExact_le _ _))
    rintro start wanted member
    obtain same | earlier := List.mem_cons.mp member
    · cases same
      exact ⟨above, covered high rfl⟩
    · exact within start wanted earlier

theorem Related.untraced_eq {low high : Nat} {st : DecodeState σ} {st' : DecodeState (Traced σ)}
    (related : (listed σ low high).Related st st') : st'.untraced = st := by
  obtain ⟨source, pending, warnings, events⟩ := st
  obtain ⟨same, -, -⟩ := related.source
  unfold DecodeState.untraced
  rw [same, ← related.pending, ← related.warnings, ← related.events trivial]

end Simulation

/-! ## The structure -/

namespace DecodeState

variable {σ : Type} [ByteSource σ] [SliceLike σ]

/-- The same state of a decode over inputs that are the same in a window. -/
structure SameWithin (low high : Nat) (st st' : DecodeState σ) : Prop where
  source : Slice.SameWithin low high (SliceLike.slice st.source) (SliceLike.slice st'.source)
  pending : st.pending = st'.pending
  warnings : st.warnings = st'.warnings
  events : st.events = st'.events

end DecodeState

/-- Neither an offset nor an element that a script decodes. -/
def Node.StaysInside {s : Schema} (n : Node s) : Prop :=
  (∀ body, n.kind ≠ .offset body) ∧ ¬ n.IsScripted

namespace Decoder

open DecodeM Simulation

variable {σ τ : Type} [ByteSource σ] [SliceLike σ] [ByteSource τ] {d : Decoder σ} {d' : Decoder τ}
  {R : Simulation σ τ} {p : Place} {n : Node d.schema} {n' : Node d'.schema} {len : Nat}

/-- Two runs through a structure keep to its declared bytes, if they keep to their window in that
nothing else can be reached from it. -/
theorem structural_ends (kin : d.Counterpart d') (same : d.schema = d'.schema) (twins : n.Twins n')
    (keeps : R.Respects) (structural : n.IsStructural) (spans : d.Spans p n (some len))
    (inside : ∀ m : Node d.schema, d.schema.Reaches n.id m.id → m.StaysInside) (depth : Nat)
    {st : DecodeState σ} {st' : DecodeState τ} (related : R.Related st st')
    (covers : R.Covers (st.reading.cursor + len)) (stays : R.follows = false := by rfl) :
    EndRelated R Eq ((d.decodeOne depth p n).ending st) ((d'.decodeOne depth p n').ending st') := by
  have handled : ∀ {child : d.DecodeChild} {child' : d'.DecodeChild} {m : Node d.schema}
      {m' : Node d'.schema}, d.schema.Reaches n.id m.id → m.Twins m' →
      (∀ id, m.Leads id → SimulatesChild R child child' id) → Handles R child child' m m' :=
    fun reached twins children => .of_schema_eq same twins children
      (fun kind => absurd kind ((inside _ reached).1 _))
      fun scripted => absurd scripted (inside _ reached).2
  have closed : ∀ {m : Node d.schema} {id : ElementId}, d.schema.Reaches n.id m.id → m.Leads id →
      d.schema.Reaches n.id id :=
    fun reached leads => reached.tail ⟨_, rfl, leads⟩
  -- The window has to hold the content only where the structure opens, and that is its length.
  have held : ∀ declared, d.Spans p n declared → ∀ stop,
      stop = (declared.map (st.reading.cursor + ·)).getD p.limit → stop ≤ p.limit →
      R.Covers stop := by
    rintro declared spans' _ rfl -
    obtain rfl := spans.unique spans'
    exact covers
  have sides : R.follows = true → R.Covers p.dataStop := by
    rw [stays]
    exact nofun
  cases depth with
  | zero => exact decodeOne_zero_sims kin twins keeps st st' related
  | succ depth =>
    have children : ∀ id, n.Leads id →
        SimulatesChild R (d.decodeOne depth) (d'.decodeOne depth) id := fun id leads =>
      decodeOne_sims kin keeps (d.schema.Reaches n.id) closed handled depth (closed .refl leads)
    have handles := handled .refl twins children
    simp only [decodeOne]
    rw [twins.kindName]
    refine EndRelated.bind (Simulates.record _ st st' related) ?_
    rintro _ _ begun begun' recorded - between
    obtain rfl := returns_record.mp recorded
    refine (tell_sims twins.toNamesakes keeps _ _ between).bind ?_
    rintro offset _ told told' tells rfl after
    obtain ⟨-, still⟩ := tell_returns tells
    have here : told.reading.cursor = st.reading.cursor := congrArg Reading.cursor still
    rw [← here] at held
    have kinds := twins.kind_eq same
    unfold decodeKind
    rw [← kinds]
    obtain ⟨body, kind⟩ | ⟨body, kind⟩ := structural
    · rw [kind]
      exact decodeStructure_ends kin twins keeps twins (handles.order (.own kind))
        (fun _ => handles.content (.own kind) twins) after held sides
    · rw [kind]
      exact decodeStructRef_ends kin twins kind keeps handles after held sides

/-- A declared length confines its structure. If a structure of `len` bytes starts at the cursor
and no offset and no script can be reached from it, then from the same state over two inputs of one
size that have these bytes in common it decodes to the same value or fails with the same error, in
the same state. And every read on the way lies within these bytes. -/
theorem structure_confined (d : Decoder σ) (p : Place) (n : Node d.schema) (depth len : Nat)
    (st : DecodeState σ) (structural : n.IsStructural) (spans : d.Spans p n (some len))
    (inside : ∀ m : Node d.schema, d.schema.Reaches n.id m.id → m.StaysInside) :
    let start := st.reading.cursor
    let run := (d.decodeOne depth p n).ending st
    let listing := (d.traced.decodeOne depth p n).ending st.traced
    (∀ st', st.SameWithin start (start + len) st' →
      let run' := (d.decodeOne depth p n).ending st'
      run.1 = run'.1 ∧ run.2.SameWithin start (start + len) run'.2) ∧
    (listing.1 = run.1 ∧ listing.2.untraced = run.2) ∧
      listing.2.source.ReadsWithin start (start + len) := by
  intro start run listing
  have covers : ∀ high ∈ some (start + len), start + len ≤ high := by
    rintro _ ⟨⟩
    exact Nat.le_refl _
  constructor
  · intro st' same run'
    have ends := structural_ends (R := sameWithin σ start (start + len))
      ⟨.refl d.schema, fun _ _ => rfl, rfl, rfl, rfl, rfl⟩ rfl
      ((Schema.Counterpart.refl _).twins rfl) (sameWithin_respects _ _) structural spans inside
      depth ⟨⟨same.source, Nat.le_refl start⟩, same.pending, same.warnings, fun _ => same.events⟩
      covers
    obtain ⟨result, related⟩ := ends.agree fun _ => id
    exact ⟨result, related.source.1, related.pending, related.warnings, related.events trivial⟩
  · have begins : (listed σ start (start + len)).Related st st.traced :=
      ⟨⟨rfl, nofun, Nat.le_refl start⟩, rfl, rfl, fun _ => rfl⟩
    have kin : d.Counterpart d.traced := ⟨.refl d.schema, fun _ _ => rfl, rfl, rfl, rfl, rfl⟩
    have ends := structural_ends kin rfl ((Schema.Counterpart.refl _).twins rfl)
      (listed_respects _ _) structural spans inside depth begins covers
    obtain ⟨result, related⟩ := ends.agree fun _ => id
    refine ⟨⟨result.symm, ?_⟩, related.source.2.1⟩
    exact related.untraced_eq

/-! ## A string without its terminator -/

/-- A structure of three bytes: a number of one byte and a string up to a zero byte. -/
def unterminated : Decoder Slice where
  schema :=
    { elements := #[
        ⟨{}, .structure { children := [⟨1⟩, ⟨2⟩], extent := { length := some (.literal 3) } }⟩,
        ⟨{}, .number { extent := { length := some (.literal 1) } }⟩,
        ⟨{}, .string { kind := some .zeroTerminated }⟩]
      root := ⟨0⟩ }
  options := { maxDepth := 2, maxRepeat := 2 }

def unterminatedRoot : Node unterminated.schema := ⟨⟨0⟩, _, rfl⟩

/-- The structure behind one byte, with a zero byte behind its three bytes or without. -/
def terminatedLate : DecodeState Slice := { source := ⟨#[0, 5, 0x68, 0x69, 0, 0], 1⟩ }

def neverTerminated : DecodeState Slice := { source := ⟨#[7, 5, 0x68, 0x69, 1, 2], 1⟩ }

/-- What its decode ends with: the terminator would have been the fourth byte. -/
def overlong : DecodeError := ⟨⟨0⟩, "structure#0", 1, .lengthMismatch 3 4⟩

theorem structure_confined_overlong :
    let place := startPlace ⟨0⟩ 1 6
    let run := fun st => (unterminated.decodeOne 2 place unterminatedRoot).ending st
    let listing := (unterminated.traced.decodeOne 2 place unterminatedRoot).ending
      terminatedLate.traced
    unterminated.Spans place unterminatedRoot (some 3) ∧
      (run terminatedLate).1 = .error overlong ∧ (run neverTerminated).1 = .error overlong ∧
      listing.1 = .error overlong ∧ listing.2.source.ReadsWithin 1 4 := by
  intro place run listing
  have structural : unterminatedRoot.IsStructural := .inl ⟨_, rfl⟩
  have spans : unterminated.Spans place unterminatedRoot (some 3) :=
    ⟨.literal 3, 3, none, 3, .byte, by cbv, ⟨3, rfl, rfl⟩, by cbv, rfl, by cbv, rfl, by decide⟩
  have inside : ∀ m : Node unterminated.schema,
      unterminated.schema.Reaches unterminatedRoot.id m.id → m.StaysInside := by
    rintro m -
    have member := Array.mem_of_getElem? m.found
    simp only [unterminated, Array.mem_def, List.mem_cons, List.not_mem_nil, or_false] at member
    unfold Node.StaysInside Node.IsScripted Node.kind
    obtain same | same | same := member <;> rw [same] <;> simp
  have confined := structure_confined unterminated place unterminatedRoot 2 3 terminatedLate
    structural spans inside
  obtain ⟨alike, ⟨listed, -⟩, within⟩ := confined
  have fails : ((unterminated.decodeOne 2 (startPlace ⟨0⟩ 1 6) unterminatedRoot).ending
      terminatedLate).1 = .error overlong := by cbv
  have same : terminatedLate.SameWithin 1 4 neverTerminated := by
    refine ⟨⟨rfl, rfl, fun i above below => ?_⟩, rfl, rfl, rfl⟩
    have cases : i = 1 ∨ i = 2 ∨ i = 3 := by omega
    obtain rfl | rfl | rfl := cases <;> rfl
  -- Named runs are put in full first: a projection of the name would be compared with one of the
  -- run by going through the decode.
  have runs : ∀ st, run st =
      (unterminated.decodeOne 2 (startPlace ⟨0⟩ 1 6) unterminatedRoot).ending st := fun _ => rfl
  have lists : listing = (unterminated.traced.decodeOne 2 (startPlace ⟨0⟩ 1 6)
      unterminatedRoot).ending terminatedLate.traced := rfl
  rw [runs, runs, lists]
  exact ⟨spans, fails, (alike _ same).1.symm.trans fails, listed.trans fails, within⟩

end Decoder

end BinaryTemplate
