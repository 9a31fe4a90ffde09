import BinaryTemplate.Proofs.Container
import BinaryTemplate.Proofs.Independence

/-!
# Attempts made again

What an attempt comes to depends only on the bytes, the cursor, the unread bits and the warnings. A
rejected attempt puts all of them back, so it is rejected again from the state that it leaves, and
the instances that a choice takes are determined by the state from which it takes them.
-/

namespace BinaryTemplate.Decoder

open DecodeM

variable {σ : Type} [ByteSource σ] [SliceLike σ] {d : Decoder σ} {child : d.DecodeChild}
  {p : Place} {n : Node d.schema} {st st' : DecodeState σ}

/-! ## Sources with the same slice -/

/-- States whose sources have the same slice behind them, whatever happened before. -/
def sameSlice : Likeness σ :=
  ⟨fun left right => SliceLike.slice left = SliceLike.slice right, False⟩

/-- The scripts of a decoder see no more of a source than the slice behind it. -/
def ScriptsSeeSlice (d : Decoder σ) : Prop :=
  ∀ host ∈ d.scripts, ∀ script, d.schema.HasScript script → ∀ call,
    Keeps (sameSlice : Likeness σ).source fun source => host.run script call source

theorem scriptsSeeSlice_of_scriptless (none : ∀ script, ¬ d.schema.HasScript script) :
    d.ScriptsSeeSlice :=
  fun _ _ script defined => absurd defined (none script)

theorem keeps_sameSlice {α : Type} {operation : SourceM σ α} {ofSlice : SourceM Slice α}
    (behaves : ∀ source, Prod.map id SliceLike.slice (operation source) =
      ofSlice (SliceLike.slice source)) :
    Keeps (sameSlice : Likeness σ).source fun source => operation source := by
  intro left right same
  have ends : Prod.map id SliceLike.slice (operation left) =
      Prod.map id SliceLike.slice (operation right) := by
    rw [behaves, behaves, same]
  have answer := congrArg Prod.fst ends
  have source := congrArg Prod.snd ends
  exact ⟨answer, source⟩

theorem ScriptsSeeSlice.respects (scripts : d.ScriptsSeeSlice) : d.Respects sameSlice where
  seek target := keeps_sameSlice (SliceLike.seek_slice target)
  tell := keeps_sameSlice SliceLike.tell_slice
  size := keeps_sameSlice SliceLike.size_slice
  readExact count := keeps_sameSlice (SliceLike.readExact_slice count)
  script := scripts

theorem alike_of_resumes (h : st.Resumes st') : Alike sameSlice st st' :=
  ⟨DecodeState.slice_eq_of_reading h.reading.symm, (congrArg Reading.pending h.reading).symm,
    h.warnings.symm, nofun⟩

theorem resumes_of_alike (h : Alike sameSlice st st') : st.Resumes st' := by
  have source : SliceLike.slice st.source = SliceLike.slice st'.source := h.source
  refine ⟨?_, h.warnings.symm⟩
  unfold DecodeState.reading SliceLike.reading
  rw [source, h.pending]

/-! ## Attempts -/

/-- Attempts at instances come to the same from states that go on alike, and leave the bytes as they
are. -/
structure Repeatable (child : d.DecodeChild) : Prop where
  agrees : AgreeChild sameSlice child (child : (d.validating d.options.validate).DecodeChild)
  failuresKeep : FailuresKeepData child
  returnsKeep : ∀ {p : Place} {n : Node d.schema} {st : DecodeState σ} {v : Value}
    {st' : DecodeState σ}, Returns (child p n) st v st' → st'.reading.data = st.reading.data

theorem decodeOne_repeatable (reads : d.ScriptsOnlyRead) (sees : d.ScriptsSeeSlice) (depth : Nat) :
    Repeatable (d.decodeOne depth) :=
  ⟨decodeOne_agrees sees.respects depth, decodeOne_throws_data reads depth,
    decodeOne_returns_data reads⟩

/-- An attempt at an instance of an element fails with a mismatch. -/
def Mismatches (child : d.DecodeChild) (p : Place) (n : Node d.schema) (st : DecodeState σ) :
    Prop :=
  ∃ e st', Throws (child p n) st e st' ∧ e.isMismatch = true

theorem Takes.unique (again : Repeatable child) {v w : Value} {a b : DecodeState σ}
    (first : Takes child p n st v a) (second : Takes child p n st' w b) (same : st.Resumes st') :
    v = w ∧ a.Resumes b := by
  obtain ⟨resumes, decoded⟩ := first
  obtain ⟨resumes', decoded'⟩ := second
  have alike := alike_of_resumes ((resumes.symm.trans same).trans resumes')
  obtain ⟨after, returned, ended⟩ := (again.agrees p n).returns alike decoded
  obtain ⟨rfl, rfl⟩ := returned.unique decoded'
  exact ⟨rfl, resumes_of_alike ended⟩

/-- A rejected attempt leaves a state that goes on as the one before it. -/
theorem Rejects.still (again : Repeatable child) (h : Rejects child p n st st') :
    st.Resumes st' := by
  obtain ⟨resumes, failure, -, rewound⟩ := h
  refine ⟨?_, rewound.warnings⟩
  rw [rewound.reading, again.failuresKeep failure, resumes.reading]

theorem Rejects.mismatches (again : Repeatable child) {after : DecodeState σ}
    (h : Rejects child p n st after) (same : st.Resumes st') : Mismatches child p n st' := by
  obtain ⟨resumes, failure, mismatch, -⟩ := h
  have alike := alike_of_resumes (resumes.symm.trans same)
  obtain ⟨-, ended, thrown, -⟩ := (again.agrees p n).throws alike failure
  exact ⟨_, ended, thrown, mismatch⟩

theorem Takes.not_mismatches (again : Repeatable child) {v : Value} {after : DecodeState σ}
    (h : Takes child p n st v after) (same : st.Resumes st') : ¬ Mismatches child p n st' := by
  obtain ⟨resumes, decoded⟩ := h
  rintro ⟨e, failed, thrown, -⟩
  have alike := alike_of_resumes (resumes.symm.trans same)
  obtain ⟨ended, returned, -⟩ := (again.agrees p n).returns alike decoded
  exact returned.not_throws thrown

theorem Takes.not_rejects (again : Repeatable child) {v : Value} {after after' : DecodeState σ}
    (h : Takes child p n st v after) (same : st.Resumes st') : ¬ Rejects child p n st' after' :=
  fun rejects => h.not_mismatches again same (rejects.mismatches again (.refl _))

/-! ## Choices -/

/-- Where no definition takes an instance, every one that is not full fails with a mismatch, there
and in the state that is left. -/
theorem NonePicks.mismatches (again : Repeatable child) {ts : List (Tally d.schema)}
    (h : NonePicks child p st ts st') :
    st.Resumes st' ∧ ∀ t ∈ ts, t.alternative.isFull = false →
      ∀ {back : DecodeState σ}, st.Resumes back → Mismatches child p t.node back := by
  induction h with
  | nil =>
    refine ⟨.refl _, ?_⟩
    intro t member
    cases member
  | full full _ inductionHypothesis =>
    obtain ⟨same, others⟩ := inductionHypothesis
    refine ⟨same, ?_⟩
    intro t member free
    cases member with
    | head => cases full.symm.trans free
    | tail _ member => exact others t member free
  | rejected _ attempt _ inductionHypothesis =>
    obtain ⟨same, others⟩ := inductionHypothesis
    have still := attempt.still again
    refine ⟨still.trans same, ?_⟩
    intro t member free back resumes
    cases member with
    | head => exact attempt.mismatches again resumes
    | tail _ member => exact others t member free (still.symm.trans resumes)

/-- A choice takes the same instance from states that go on alike. -/
theorem Picks.unique (again : Repeatable child) {v w : Value} {ts ts₁ ts₂ : List (Tally d.schema)}
    {a b : DecodeState σ} (first : Picks child p v st ts ts₁ a)
    (second : Picks child p w st' ts ts₂ b) (same : st.Resumes st') :
    v = w ∧ ts₁ = ts₂ ∧ a.Resumes b := by
  induction first generalizing ts₂ st' with
  | here free attempt =>
    cases second with
    | here _ attempt' =>
      obtain ⟨rfl, alike⟩ := attempt.unique again attempt' same
      exact ⟨rfl, rfl, alike⟩
    | full full _ => cases full.symm.trans free
    | rejected _ attempt' _ => exact absurd attempt' (attempt.not_rejects again same)
  | full full _ inductionHypothesis =>
    cases second with
    | here free _ => cases full.symm.trans free
    | full _ rest' =>
      obtain ⟨rfl, rfl, alike⟩ := inductionHypothesis rest' same
      exact ⟨rfl, rfl, alike⟩
    | rejected free _ _ => cases full.symm.trans free
  | rejected free attempt _ inductionHypothesis =>
    cases second with
    | here _ attempt' => exact absurd attempt (attempt'.not_rejects again same.symm)
    | full full _ => cases full.symm.trans free
    | rejected _ attempt' rest' =>
      -- Both choices go on from where the rejected attempts have left them, which is back.
      have back := ((attempt.still again).symm.trans same).trans (attempt'.still again)
      obtain ⟨rfl, rfl, alike⟩ := inductionHypothesis rest' back
      exact ⟨rfl, rfl, alike⟩

end BinaryTemplate.Decoder
