import BinaryTemplate.Proofs.MachineRefinement
import BinaryTemplate.Proofs.Pruning

/-!
# Failed attempts leave no trace

The machine remembers little of what an attempt may change, and cuts rather than puts back. It is
enough: an attempt that fails with a mismatch has closed the frames that it has opened, has come
back up as far as it has gone down, and has only added warnings. So what is taken back is the
machine as it was, except for the events.

Therefore an alternative that never fits has no influence on what is decoded around it.
-/

namespace BinaryTemplate

namespace Machine

open DecodeM (Throws)

/-- The machine after other events. -/
def logged (m : Machine Slice) (events : List Event) : Machine Slice := { m with events := events }

def mark (m : Machine Slice) : Checkpoint := ⟨m.source.cursor, m.bits, m.warnings.length⟩

/-- The machine with its cursor, the unread bits of its innermost frame and the number of its
warnings as they were. -/
def rewound (m : Machine Slice) (c : Checkpoint) : Machine Slice :=
  { m with
    source := { m.source with cursor := c.position }
    bits := c.bits
    warnings := m.warnings.drop (m.warnings.length - c.warnings) }

variable {s : Schema} {d : Decoder Slice} {m : Machine Slice}

theorem ending_checkpoint (n : Node s) : ending (checkpoint n) m = (.ok m.mark, m) := rfl

theorem ending_rewind (n : Node s) (c : Checkpoint) :
    ending (rewind n c) m = (.ok (), m.rewound c) :=
  rfl

/-- Where the decoder fails, the machine is where it was, but for what a mark remembers. -/
theorem ending_threw {fuel : Nat} {n : Node d.schema} {e : DecodeError} {failed : Machine Slice}
    (fails : ending (decodeWithin d id fuel n) m = (.error e, failed))
    (mismatch : e.isMismatch = true) :
    ∃ st, Throws (d.decodeOne (min fuel (d.options.maxDepth - m.depth)) m.place n) m.state e st ∧
      failed = m.resume st := by
  have mirrors := decodeWithin_mirrors d fuel m n
  rw [fails] at mirrors
  generalize ended : (d.decodeOne (min fuel (d.options.maxDepth - m.depth)) m.place n).ending
    m.state = l at mirrors
  cases mirrors with
  | threw kept balanced =>
    refine ⟨_, ended, ?_⟩
    rw [kept, balanced mismatch]
    rfl

theorem rewound_of_mismatch (reads : d.ScriptsOnlyRead) {fuel : Nat} {n : Node d.schema}
    {e : DecodeError} {failed : Machine Slice}
    (fails : ending (decodeWithin d id fuel n) m = (.error e, failed))
    (mismatch : e.isMismatch = true) :
    failed.rewound m.mark = m.logged failed.events := by
  obtain ⟨st, thrown, rfl⟩ := ending_threw fails mismatch
  have data : st.source.data = m.source.data := Decoder.decodeOne_throws_data reads _ thrown
  obtain ⟨more, warned⟩ := Decoder.decodeOne_warnings (d := d) (p := m.place) (n := n)
    (min fuel (d.options.maxDepth - m.depth)) m.state
  rw [thrown] at warned
  have warnings : st.warnings.drop (st.warnings.length - m.warnings.length) = m.warnings := by
    rw [show st.warnings = more ++ m.warnings from warned, List.length_append, Nat.add_sub_cancel,
      List.drop_left]
  have source : (⟨st.source.data, m.source.cursor⟩ : Slice) = m.source :=
    congrArg (Slice.mk · m.source.cursor) data
  show { m.resume st with
      source := ⟨st.source.data, m.source.cursor⟩
      bits := m.bits
      warnings := st.warnings.drop (st.warnings.length - m.warnings.length) } =
    { m with events := st.events }
  rw [warnings, source]
  rfl

end Machine

namespace Decoder

open DecodeM

/-- A failed attempt leaves no trace.

The machine, which keeps its frames, its depth and the offsets that it follows in its state, decodes
as the decoder does. The mark that it takes before its attempts does not depend on the events; after
an attempt that has failed with a mismatch, it is again where it was when it took the mark, however
deep the failure was.

And in a template without scripts an alternative that needs no instance and does not fit wherever
it is tried can be left out: a decode that succeeds gives the same value and the same warnings
without it, and ends at the same cursor. -/
theorem failed_attempt_leaves_no_trace (d : Decoder Slice) (reads : d.ScriptsOnlyRead) :
    (∀ fuel (m : Machine Slice) n, let run := Machine.ending (Machine.decodeWithin d id fuel n) m
      (run.1, run.2.state) =
        (d.decodeOne (min fuel (d.options.maxDepth - m.depth)) m.place n).ending m.state) ∧
    (∀ fuel (m : Machine Slice) (loop n : Node d.schema), ∃ mark,
      (∀ log, Machine.ending (Machine.checkpoint loop) (m.logged log) = (.ok mark, m.logged log)) ∧
      ∀ before e failed, e.isMismatch = true →
        Machine.ending (Machine.decodeWithin d id fuel n) (m.logged before) = (.error e, failed) →
        ∀ after, Machine.ending (Machine.rewind loop mark) (failed.logged after) =
          (.ok (), m.logged after)) ∧
    (d.evaluator = .standard → d.scripts = none →
      ∀ within alternative : Node d.schema, within.order = .ok .anyOf →
      (∀ p min max, d.Bounds p alternative min max → min = 0) →
      ∀ depth p n st v st', Returns (d.decodeOne depth p n) st v st' →
      (∃ w after, Returns (decodeWatched d within.id alternative.id depth p n) st w after) →
      ∃ n' : Node (d.without within.id alternative.id).schema, n'.id = n.id ∧
        ∃ after, Returns ((d.without within.id alternative.id).decodeOne depth p n') st v after ∧
          after.warnings = st'.warnings ∧ after.reading = st'.reading) := by
  refine ⟨fun fuel m n => Machine.ending_decodeWithin fuel n, ?_, ?_⟩
  · intro fuel m loop n
    refine ⟨m.mark, fun log => Machine.ending_checkpoint loop, ?_⟩
    intro before e failed mismatch fails after
    have undone := Machine.rewound_of_mismatch reads (m := m.logged before) fails mismatch
    have back : (failed.logged after).rewound m.mark = m.logged after :=
      congrArg (Machine.logged · after) undone
    rw [Machine.ending_rewind, back]
  · intro standard hostless within alternative order optional depth p n st v st' decodes rejects
    exact decodeOne_without d standard hostless within alternative order optional depth p n st st' v
      decodes rejects

/-! ## A record that never fits -/

/-- A byte in any order with records of two bytes. -/
def records : Decoder Slice where
  schema :=
    { elements := #[
        ⟨{}, .structure { children := [⟨1⟩, ⟨2⟩], order := some .anyOf }⟩,
        ⟨{ repeatMin := some (.literal 0) }, .structure { children := [⟨3⟩, ⟨4⟩] }⟩,
        ⟨{}, .number { extent := { length := some (.literal 1) } }⟩,
        ⟨{}, .number { extent := { length := some (.literal 1) } }⟩,
        ⟨{}, .number { extent := { length := some (.literal 1) } }⟩]
      root := ⟨0⟩ }
  options := { maxDepth := 3, maxRepeat := 4 }

def recordsRoot : Node records.schema := ⟨⟨0⟩, _, rfl⟩

def recordsRecord : Node records.schema := ⟨⟨1⟩, _, rfl⟩

/-- One byte, which is too few for a record. -/
def oneByte : Slice := ⟨#[7], 0⟩

/-- The machine one level deep, in the structure, where it starts with the data. -/
def recordsMachine : Machine Slice :=
  ⟨oneByte, .container ⟨0⟩ none 0 1, [], [(.scope ⟨0⟩ 0 1, [])], 1, 1, [], [], []⟩

def recordsValue : Value :=
  ⟨⟨0⟩, 0, 1, none, .none,
    [⟨⟨2⟩, 0, 1, some .little, .number (.unsigned 7) none [] none, []⟩]⟩

set_option maxRecDepth 8000 in
theorem failed_attempt_leaves_no_trace_record :
    let place := startPlace ⟨0⟩ 0 1
    let attempt := Machine.ending (Machine.decodeWithin records id 2 recordsRecord) recordsMachine
    attempt.1 = .error ⟨⟨4⟩, "number#4", 1, .shortRead 1 0⟩ ∧ attempt.2.source.cursor = 1 ∧
      (∃ mark, Machine.ending (Machine.checkpoint recordsRoot) recordsMachine =
          (.ok mark, recordsMachine) ∧
        Machine.ending (Machine.rewind recordsRoot mark) (attempt.2.logged []) =
          (.ok (), recordsMachine)) ∧
      ∃ n' : Node (records.without ⟨0⟩ ⟨1⟩).schema, n'.id = ⟨0⟩ ∧ ∃ after,
        Returns ((records.without ⟨0⟩ ⟨1⟩).decodeOne 3 place n') { source := oneByte }
          recordsValue after ∧ after.warnings = [] ∧ after.reading = ⟨#[7], 1, []⟩ := by
  intro place attempt
  have scriptless (script : ScriptBody) : ¬ records.schema.HasScript script := by
    simp [Schema.HasScript, records]
  obtain ⟨-, undone, unneeded⟩ := failed_attempt_leaves_no_trace records
    (scriptsOnlyRead_of_scriptless scriptless)
  have fails : (Machine.ending (Machine.decodeWithin records id 2 recordsRecord) recordsMachine).1 =
      .error ⟨⟨4⟩, "number#4", 1, .shortRead 1 0⟩ := by cbv
  have moved : (Machine.ending (Machine.decodeWithin records id 2 recordsRecord)
      recordsMachine).2.source.cursor = 1 := by cbv
  refine ⟨fails, moved, ?_, ?_⟩
  · obtain ⟨mark, marks, rewinds⟩ := undone 2 recordsMachine recordsRoot recordsRecord
    exact ⟨mark, marks [], rewinds [] _ attempt.2 rfl (Prod.ext fails rfl) []⟩
  · have optional : ∀ p min max, records.Bounds p recordsRecord min max → min = 0 := by
      rintro p min max ⟨least, -, kmin, -, isLeast, -, evaluates, -, value, -⟩
      have zero : recordsRecord.repeatMin = .ok (.literal 0) := by cbv
      cases zero.symm.trans isLeast
      have literal : kmin = 0 := evaluates
      rw [literal] at value
      exact (Int.ofNat.inj value).symm
    have decodes : Returns (records.decodeOne 3 place recordsRoot) { source := oneByte }
      recordsValue _ := Prod.ext (by cbv) rfl
    have rejects : Returns (decodeWatched records ⟨0⟩ ⟨1⟩ 3 place recordsRoot)
      { source := oneByte } recordsValue _ := Prod.ext (by cbv) rfl
    obtain ⟨n', same, after, decodes', warnings, reading⟩ := unneeded rfl rfl recordsRoot
      recordsRecord (by cbv) optional 3 place recordsRoot _ recordsValue _ decodes ⟨_, _, rejects⟩
    refine ⟨n', same, after, decodes', warnings.trans (by cbv), reading.trans (by cbv)⟩

end Decoder

end BinaryTemplate
