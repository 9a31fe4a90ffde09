import BinaryTemplate.Proofs.ElementSimulation
import BinaryTemplate.Proofs.Serving

/-!
# Sources that can be exchanged

Without scripts, a decode gives the same over a slice and over a device that serves its bytes: the
same value and warnings or the same error, the same events, and a cursor in the same place. The two
sources answer a decode alike because it asks nothing of them that they would answer differently: it
checks what it wants to read against the end of a frame, and so against the end of the data, also
where it wants nothing.
-/

namespace BinaryTemplate

open DecodeM Simulation

variable {ρ : Type} [Reader ρ] {R : Slice → ρ → Prop} {s : Slice} {r : ρ}

/-! ## The two sources -/

namespace Reader

/-- A slice over some bytes and a device that serves it, read within these bytes. -/
def serving (R : Slice → ρ → Prop) (data : Array UInt8) : Simulation Slice ρ where
  source s r := R s r ∧ s.data = data ∧ s.cursor < positionLimit
  sameEvents := True
  excuses _ := False
  moves position := position < positionLimit
  high := some data.size
  follows := true
  fatal := Simulation.fatal_of_never

variable {data : Array UInt8}

omit [Reader ρ] in
theorem covers_serving {stop : Nat} : (serving R data).Covers stop ↔ stop ≤ data.size := by
  simp [Covers, serving]

omit [Reader ρ] in
theorem roams_serving (small : data.size < positionLimit) : (serving R data).Roams where
  sides _ covers := covers.sides rfl
  moves _ covers := Nat.lt_of_le_of_lt (covers_serving.mp covers) small

omit [Reader ρ] in
/-- An operation over the device that ends as one over the slice. -/
theorem answers_of_ends {α : Type} {operation : SourceM Slice α} {operation' : SourceM ρ α}
    {answer : Except InputError α} {after : Slice} (ended : operation s = (answer, after))
    (ends : Ends R operation' r answer after) (kept : after.data = data)
    (position : after.cursor < positionLimit) :
    (serving R data).Answers (operation s) (operation' r) := by
  obtain ⟨r', ended', related⟩ := ends
  unfold Answers
  rw [ended, ended']
  exact ⟨rfl, related, kept, position⟩

theorem size_answers (serves : Serves R) (small : data.size < positionLimit)
    (related : (serving R data).source s r) :
    (serving R data).Answers ((ByteSource.size : SourceM Slice Nat) s)
      ((ByteSource.size : SourceM ρ Nat) r) := by
  obtain ⟨served, rfl, position⟩ := related
  exact answers_of_ends rfl (size_ends serves served ⟨position, small⟩) rfl position

theorem respects_serving (serves : Serves R) (small : data.size < positionLimit) :
    (serving R data).Respects where
  moves _ _ related := related.2.2
  onward _ _ _ _ covers := Nat.lt_of_le_of_lt (covers_serving.mp covers) small
  tell := by
    rintro s r ⟨related, rfl, position⟩
    exact answers_of_ends rfl (tell_ends serves related ⟨position, small⟩) rfl position
  seek := by
    rintro target s r position ⟨related, rfl, -⟩
    exact answers_of_ends rfl (seekTo_start_ends serves related target) rfl position
  readExact := by
    rintro count s r covers ⟨related, rfl, position⟩
    -- The bytes wanted are there, so not even an empty read starts behind the end.
    have inside : s.cursor + count ≤ s.data.size := covers_serving.mp covers
    have solid : ¬ s.Hollow count s.cursor := fun hollow => by
      have behind := hollow.2
      omega
    have ends := readExact_ends serves related ⟨position, small⟩ count
    rw [← Slice.bytesAt_of_not_hollow solid] at ends
    refine answers_of_ends (Slice.readExact_eq s count) ends rfl ?_
    show s.cursor + min count s.left < positionLimit
    omega

end Reader

/-! ## The decode -/

namespace Decoder

/-- The same decoder over sources of another type, with a host for these. -/
@[reducible] def onDevice {σ : Type} (d : Decoder σ) (host : Option (ScriptHost ρ)) :
    Decoder ρ where
  schema := d.schema
  evaluator := d.evaluator
  encodings := d.encodings
  scripts := host
  options := d.options

variable {d : Decoder Slice} {host : Option (ScriptHost ρ)} {n : Node d.schema}

/-- Steps that end with the same result, in states that are related. -/
def Agrees (R : Simulation Slice ρ) {α : Type} (left : DecodeM Slice α) (right : DecodeM ρ α) :
    Prop :=
  ∀ st st', R.Related st st' →
    (left.ending st).1 = (right.ending st').1 ∧ R.Related (left.ending st).2 (right.ending st').2

section Agreement

variable {S : Simulation Slice ρ} {α β : Type}

omit [Reader ρ]

theorem Agrees.of_simulates {left : DecodeM Slice α} {right : DecodeM ρ α}
    (simulates : S.Simulates Eq left right) (strict : ∀ e, ¬ S.excuses e) :
    Agrees S left right :=
  fun st st' related => (simulates st st' related).agree strict

theorem Agrees.pure (a : α) : Agrees S (Pure.pure a) (Pure.pure a) :=
  fun _ _ related => ⟨rfl, related⟩

theorem Agrees.throw (e : DecodeError) :
    Agrees S (MonadExcept.throw e : DecodeM Slice α) (MonadExcept.throw e) :=
  fun _ _ related => ⟨rfl, related⟩

/-- The rest of two sequences has to agree after what the first parts return. -/
theorem Agrees.bind {left : DecodeM Slice α} {right : DecodeM ρ α} {next : α → DecodeM Slice β}
    {next' : α → DecodeM ρ β} (first : Agrees S left right)
    (rest : ∀ st st' a mid, S.Related st st' → Returns left st a mid →
      Agrees S (next a) (next' a)) : Agrees S (left >>= next) (right >>= next') := by
  intro st st' related
  obtain ⟨same, between⟩ := first st st' related
  rw [ending_bind, ending_bind]
  rcases ended : left.ending st with ⟨e | a, mid⟩ <;> rw [ended] at same between
  all_goals
    generalize right.ending st' = ended' at same between ⊢
    obtain ⟨_, mid'⟩ := ended'
    cases same
  · exact ⟨rfl, between⟩
  · exact rest st st' a mid related ended mid mid' between

/-- Whether a finished tree is found to be in order depends on the tree only. -/
theorem checkTree_agrees (v : Value) :
    Agrees S (d.checkTree n v) ((d.onDevice host).checkTree n v) := by
  unfold checkTree
  by_cases checked : d.options.validate = true
  · rw [if_pos checked, if_pos checked]
    rcases v.validate d.schema with e | ⟨⟩
    · exact .throw _
    · exact .pure ()
  · rw [if_neg checked, if_neg checked]
    exact .pure ()

theorem node_agrees_onDevice (id : ElementId) (offset : Nat) :
    Agrees S (d.node id offset) ((d.onDevice host).node id offset) := by
  unfold node
  rcases d.schema.node? id with none | n
  · exact .throw _
  · exact .pure n

end Agreement

section Whole

variable {data : Array UInt8} (serves : Reader.Serves R) (small : data.size < positionLimit)
  (none : ∀ script, ¬ d.schema.HasScript script)

include serves small none

theorem decodeOne_serves (depth : Nat) (p : Place) (limit : p.limit ≤ data.size)
    (sides : p.dataStop ≤ data.size) :
    Agrees (Reader.serving R data) (d.decodeOne depth p n)
      ((d.onDevice host).decodeOne depth p n) := by
  have kin : d.Counterpart (d.onDevice host) := ⟨.refl d.schema, fun _ _ => rfl, rfl, rfl, rfl, rfl⟩
  have keeps := Reader.respects_serving serves small
  have simulates := decodeOne_sims_roaming kin rfl keeps (Reader.roams_serving small)
    (fun twins _ id _ => decodeScripted_sims_of_scriptless kin twins keeps none id) depth n.id
  refine .of_simulates (simulates p n n rfl ((Schema.Counterpart.refl _).twins rfl) ?_) fun _ => id
  exact covers_reach.mpr
    ⟨Reader.covers_serving.mpr limit, fun _ => Reader.covers_serving.mpr sides⟩

theorem decodeWhole_serves (element : ElementId) :
    Agrees (Reader.serving R data) (d.decodeWhole element)
      ((d.onDevice host).decodeWhole element) := by
  have keeps := Reader.respects_serving serves small
  refine .bind (node_agrees_onDevice element 0) fun _ _ n _ _ _ => ?_
  refine .bind (.of_simulates (tell_sims ⟨rfl, rfl⟩ keeps) fun _ => id) fun _ _ start _ _ _ => ?_
  have sizes : (Reader.serving R data).Simulates Eq (onSource n start ByteSource.size)
      (onSource (s := (d.onDevice host).schema) n start ByteSource.size) :=
    fun _ _ related => onSource_ends ⟨rfl, rfl⟩ related
      (Reader.size_answers serves small related.source)
  refine .bind (.of_simulates sizes fun _ => id) fun st st' dataStop mid related sized => ?_
  -- The frame of the decode ends with the data, and nothing behind it is read.
  have all : dataStop = data.size := by
    rw [← related.source.2.1]
    exact (size_returns sized).1
  have within := Nat.le_of_eq all
  refine .bind (decodeOne_serves serves small none _ _ within within) fun _ _ v _ _ _ => ?_
  exact .bind (checkTree_agrees v) fun _ _ _ _ _ _ => .pure v

end Whole

/-- A decode does not depend on the source. Without scripts, from any element and any position a
decode over a device that serves the bytes of a slice gives what it gives over the slice itself: the
same value and warnings or the same error, after the same events, with the cursor at the same
place. -/
theorem decodeElement_serves (d : Decoder Slice) (host : Option (ScriptHost ρ))
    (none : ∀ script, ¬ d.schema.HasScript script) (serves : Reader.Serves R) (related : R s r)
    (addressable : s.Addressable) (element : ElementId) :
    let overSlice := d.decodeElement element s
    let overDevice := (d.onDevice host).decodeElement element r
    overDevice.result = overSlice.result ∧ overDevice.events = overSlice.events ∧
      ((ByteSource.tell : SourceM ρ Nat) overDevice.source).1 = .ok overSlice.source.cursor ∧
      R overSlice.source overDevice.source := by
  intro overSlice overDevice
  have agrees : Agrees (Reader.serving R s.data) (d.decodeWhole element)
      ((d.onDevice host).decodeWhole element) :=
    decodeWhole_serves serves addressable.size none element
  obtain ⟨same, after⟩ := agrees { source := s } { source := r }
    ⟨⟨related, rfl, addressable.cursor⟩, rfl, rfl, fun _ => rfl⟩
  obtain ⟨served, kept, position⟩ := after.source
  have addressable' : overSlice.source.Addressable := ⟨position, kept ▸ addressable.size⟩
  obtain ⟨r', told, -⟩ := Reader.tell_ends serves served addressable'
  have reports : overSlice = _ := decodeElement_eq d element s
  have reports' : overDevice = _ := decodeElement_eq (d.onDevice host) element r
  refine ⟨?_, ?_, congrArg Prod.fst told, served⟩
  · rw [reports, reports', same, after.warnings]
  · rw [reports, reports', after.events trivial]

/-- A structure of a pointer to a number, two bytes, and as many further numbers as there are. -/
def mixed : Decoder Slice where
  schema :=
    { elements := #[
        ⟨{}, .structure { children := [⟨1⟩, ⟨2⟩, ⟨3⟩] }⟩,
        ⟨{}, .offset { extent := { length := some (.literal 1) }, references := some ⟨4⟩ }⟩,
        ⟨{}, .binary { extent := { length := some (.literal 2) } }⟩,
        ⟨{ repeatMin := some (.literal 0), repeatMax := some (.literal (-1)) },
          .number { extent := { length := some (.literal 2) } }⟩,
        ⟨{}, .number { extent := { length := some (.literal 2) }, maxVal := some (.literal 7) }⟩]
      root := ⟨0⟩ }
  options := { maxDepth := 3, maxRepeat := 8, strict := false }

/-- The last byte is no number by itself; it belongs to the number that the pointer references. -/
def mixedBytes : Paced where
  slice := ⟨#[4, 8, 9, 1, 2, 3], 0⟩
  turns := [.pause, .give 0, .pause, .pause, .give 1, .give 0, .pause]

def mixedValue : Value :=
  let side : Value := ⟨⟨4⟩, 4, 2, some .little, .number (.unsigned 770) none [] none, []⟩
  ⟨⟨0⟩, 0, 5, none, .none,
    [⟨⟨1⟩, 0, 1, some .little, .offset 4 (some 4) (some side), []⟩,
      ⟨⟨2⟩, 1, 2, none, .binary none, []⟩,
      ⟨⟨3⟩, 3, 2, some .little, .number (.unsigned 513) none [] none, []⟩]⟩

set_option maxRecDepth 8000 in
theorem decodeElement_serves_mixed :
    (∀ script, ¬ mixed.schema.HasScript script) ∧
      Reader.Serves (fun s (p : Paced) => p.slice = s) ∧ mixedBytes.slice.Addressable ∧
      ((mixed.onDevice none).decodeElement ⟨0⟩ mixedBytes).result =
        .ok (mixedValue, [⟨⟨4⟩, "number#4", 4, .range "770" none (some 7)⟩]) ∧
      ((mixed.onDevice none).decodeElement ⟨0⟩ mixedBytes).source.slice.cursor = 5 := by
  have scriptless : ∀ script, ¬ mixed.schema.HasScript script := by
    simp [Schema.HasScript, mixed]
  have addressable : mixedBytes.slice.Addressable := ⟨by decide, by decide⟩
  obtain ⟨same, -, -, served⟩ := decodeElement_serves mixed none scriptless Paced.serves
    (s := mixedBytes.slice) rfl addressable ⟨0⟩
  have decodes : (mixed.decodeElement ⟨0⟩ mixedBytes.slice).result =
      .ok (mixedValue, [⟨⟨4⟩, "number#4", 4, .range "770" none (some 7)⟩]) := by cbv
  have ends : (mixed.decodeElement ⟨0⟩ mixedBytes.slice).source.cursor = 5 := by cbv
  exact ⟨scriptless, Paced.serves, addressable, same.trans decodes,
    (congrArg Slice.cursor served).trans ends⟩

end Decoder

end BinaryTemplate
