import BinaryTemplate.Proofs.ElementSimulation

/-!
# The decoder and itself

A decoder is its own counterpart, whether finished trees are validated or not. So two runs of it
agree for every relation between sources that the operations of the source and the scripts respect:
what a decode gives does not depend on the events, what scripts and sources keep is kept, and only
the check of the finished tree can find a fault in it.
-/

namespace BinaryTemplate

namespace DecodeM

variable {σ α : Type} {R : Likeness σ} {left right : DecodeM σ α}

/-- Runs that are alike, wherever they read and without any excuse. -/
def Likeness.simulation (R : Likeness σ) : Simulation σ σ where
  source := R.source
  sameEvents := R.sameEvents
  excuses _ := False
  high := none
  fatal := Simulation.fatal_of_never

theorem Likeness.whole (R : Likeness σ) : R.simulation.Whole := ⟨rfl, rfl⟩

theorem agree_of_simulates (simulates : R.simulation.Simulates Eq left right) :
    Agree R left right := by
  intro st st' alike
  have ends := simulates st st' ⟨alike.source, alike.pending, alike.warnings, alike.events⟩
  generalize left.ending st = l at ends ⊢
  generalize right.ending st' = r at ends ⊢
  cases ends with
  | returned same related =>
    subst same
    exact .returned ⟨related.source, related.pending, related.warnings, related.events⟩
  | threw related sound =>
    exact .threw ⟨related.source, related.pending, related.warnings, related.events⟩ sound
  | excused excuse => exact excuse.elim

end DecodeM

namespace Decoder

open DecodeM

variable {σ : Type} {d : Decoder σ} {b : Bool} {R : Likeness σ} {p : Place} {n : Node d.schema}
  {offset : Nat}

/-- The decoder that validates its finished trees if `b` says so. -/
@[reducible] def validating (d : Decoder σ) (b : Bool) : Decoder σ :=
  { d with options := { d.options with validate := b } }

theorem node_agrees (id : ElementId) :
    Agree R (d.node id offset) ((d.validating b).node id offset) := by
  simp only [node]
  cases d.schema.node? id with
  | some m => exact .pure m
  | none => exact .throw (by rintro ⟨_, same⟩; cases same)

/-- Two ways to decode instances agree. -/
def AgreeChild (R : Likeness σ) (child : d.DecodeChild) (child' : (d.validating b).DecodeChild) :
    Prop :=
  ∀ p n, Agree R (child p n) (child' p n)

section Agreement

variable [ByteSource σ] (keeps : d.Respects R)

include keeps

theorem tell_agrees : Agree R (tell n) (tell n) := .onSource keeps.tell

variable [SliceLike σ]

theorem Respects.simulation : R.simulation.Respects where
  moves _ _ _ := trivial
  onward _ _ _ _ _ := trivial
  tell := keeps.tell
  seek position l r _ := keeps.seek (.start position) l r
  readExact count l r _ := keeps.readExact count l r

/-- An instance decodes alike from states that are alike, whether finished trees are validated or
not, and never fails with a fault of the tree. -/
theorem decodeOne_agrees (depth : Nat) :
    AgreeChild R (d.decodeOne depth) ((d.validating b).decodeOne depth) := by
  have kin : d.Counterpart (d.validating b) :=
    ⟨.refl d.schema, fun _ _ => rfl, rfl, rfl, rfl, rfl⟩
  have hosts : Option.Rel (SameHost R.simulation d (d.validating b)) d.scripts d.scripts := by
    cases hosted : d.scripts with
    | none => exact .none
    | some host =>
      refine .some fun script defined element start length? limit frames l r related => ?_
      exact keeps.script host hosted script defined _ l r related
  intro p n
  refine agree_of_simulates ?_
  exact decodeOne_sims_whole kin rfl keeps.simulation R.whole hosts depth n.id p n n rfl
    ((Schema.Counterpart.refl _).twins rfl) (R.whole.covers _)

end Agreement

/-! ## What is kept -/

section Kept

variable [ByteSource σ]

/-- From one and the same source, everything answers alike. -/
theorem respects_eq (d : Decoder σ) (sameEvents : Prop) : d.Respects ⟨Eq, sameEvents⟩ where
  seek := by rintro _ left _ rfl; exact ⟨rfl, rfl⟩
  tell := by rintro left _ rfl; exact ⟨rfl, rfl⟩
  size := by rintro left _ rfl; exact ⟨rfl, rfl⟩
  readExact := by rintro _ left _ rfl; exact ⟨rfl, rfl⟩
  script := by rintro _ _ _ _ _ left _ rfl; exact ⟨rfl, rfl⟩

variable [SliceLike σ]

/-- The scripts of a decoder can read the bytes of the source and cannot change them. -/
def ScriptsOnlyRead (d : Decoder σ) : Prop :=
  ∀ host ∈ d.scripts, ∀ script, d.schema.HasScript script → ∀ call source,
    (SliceLike.slice (host.run script call source).2).data = (SliceLike.slice source).data

theorem scriptsOnlyRead_of_scriptless (none : ∀ script, ¬ d.schema.HasScript script) :
    d.ScriptsOnlyRead :=
  fun _ _ script defined => absurd defined (none script)

/-- One and the same source over some bytes. -/
def overBytes (data : Array UInt8) : Likeness σ :=
  ⟨fun left right => left = right ∧ (SliceLike.slice left).data = data, False⟩

/-- Nothing changes the bytes of the source. -/
theorem ScriptsOnlyRead.respects (scripts : d.ScriptsOnlyRead) (data : Array UInt8) :
    d.Respects (overBytes data) := by
  -- An operation does to the slice what that of the slice does, and none of those changes bytes.
  have kept : ∀ {α : Type} {operation : SourceM σ α} {ofSlice : SourceM Slice α},
      (∀ source, Prod.map id SliceLike.slice (operation source) =
        ofSlice (SliceLike.slice source)) →
      (∀ s, (ofSlice s).2.data = s.data) →
      Keeps (overBytes data : Likeness σ).source fun source => operation source := by
    rintro α operation ofSlice behaves keeps left _ ⟨rfl, rfl⟩
    exact ⟨rfl, rfl, SliceLike.data_kept behaves keeps left⟩
  constructor
  · exact fun target => kept (SliceLike.seek_slice target) (Slice.data_seek · target)
  · exact kept SliceLike.tell_slice fun _ => rfl
  · exact kept SliceLike.size_slice fun _ => rfl
  · exact fun count => kept (SliceLike.readExact_slice count) (Slice.data_readExact · count)
  · rintro host hosted script defined call left _ ⟨rfl, rfl⟩
    exact ⟨rfl, rfl, scripts host hosted script defined call left⟩

/-- An instance that decodes leaves the bytes as they are. -/
theorem decodeOne_returns_data (scripts : d.ScriptsOnlyRead) {depth : Nat}
    {st st' : DecodeState σ} {v : Value} (h : Returns (d.decodeOne depth p n) st v st') :
    st'.reading.data = st.reading.data := by
  have agrees := decodeOne_agrees (b := d.options.validate) (scripts.respects st.reading.data)
    depth p n
  obtain ⟨_, _, alike⟩ := agrees.returns ⟨⟨rfl, rfl⟩, rfl, rfl, nofun⟩ h
  exact alike.source.2

/-- Attempts that fail leave the bytes as they are. -/
def FailuresKeepData (child : d.DecodeChild) : Prop :=
  ∀ {p : Place} {n : Node d.schema} {st : DecodeState σ} {e : DecodeError} {st' : DecodeState σ},
    Throws (child p n) st e st' → st'.reading.data = st.reading.data

theorem decodeOne_throws_data (scripts : d.ScriptsOnlyRead) (depth : Nat) :
    FailuresKeepData (d.decodeOne depth) := by
  intro p n st e st' h
  have agrees := decodeOne_agrees (b := d.options.validate) (scripts.respects st.reading.data)
    depth p n
  obtain ⟨-, _, _, alike⟩ := agrees.throws ⟨⟨rfl, rfl⟩, rfl, rfl, nofun⟩ h
  exact alike.source.2

/-! ## Warnings -/

/-- A run behind some warnings and the same run without them. -/
def behind (σ : Type) (earlier : List DecodeError) : Simulation σ σ where
  source := Eq
  warnings l r := l = r ++ earlier
  sameEvents := False
  excuses _ := False
  high := none
  fatal := Simulation.fatal_of_never
  tolerated := by
    rintro e _ r rfl
    rfl

/-- The warnings of a decode come on top of those before it, also if it fails: it does not look at
those, so it does the same behind them as without them. -/
theorem decodeOne_warnings (depth : Nat) (st : DecodeState σ) :
    ∃ more, ((d.decodeOne depth p n).ending st).2.warnings = more ++ st.warnings := by
  have whole : (behind σ st.warnings).Whole := ⟨rfl, rfl⟩
  have simulates := decodeOne_sims_whole ⟨.refl d.schema, fun _ _ => rfl, rfl, rfl, rfl, rfl⟩ rfl
    (Simulation.respects_of_eq rfl rfl) whole (sameHosts_of_eq rfl) depth n.id p n n rfl
    ((Schema.Counterpart.refl _).twins rfl) (whole.covers _)
  have ends := simulates st { st with warnings := [] } ⟨rfl, rfl, rfl, nofun⟩
  exact ⟨_, (ends.agree fun _ => id).2.warnings⟩

end Kept

end Decoder

end BinaryTemplate
