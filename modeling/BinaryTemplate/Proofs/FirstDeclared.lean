import BinaryTemplate.Proofs.Attempts
import BinaryTemplate.Proofs.Opening
import BinaryTemplate.Proofs.Passing
import BinaryTemplate.Proofs.RepeatCounts

/-!
# The first definition that fits

Where any of the definitions of a structure may come next, the one that is declared first has the
choice: a value is of a definition only if those before it have all they may have, or do not decode
from the state from which the value was decoded. That an attempt is rejected only says so of the
state at which it was made; but a rejected attempt leaves a state that goes on alike, so it says so
of the state at which the value starts as well. An attempt that fails with any other error is no
choice, and the structure fails with it.
-/

namespace BinaryTemplate.Decoder

open DecodeM

variable {σ : Type} [ByteSource σ] [SliceLike σ] {d : Decoder σ} {child : d.DecodeChild}
  {p : Place} {n : Node d.schema} {st st' : DecodeState σ} {e : DecodeError} {v : Value}
  {vs : List Value} {ts ts' : List (Tally d.schema)}

/-! ## Histories -/

/-- The history of a choice in which the first definition that fits is taken: each value is decoded
for a definition that is not full, and every definition before it that is not full fails with a
mismatch from the same state. -/
inductive FirstDeclared (child : d.DecodeChild) : Place → DecodeState σ → List (Tally d.schema) →
    List Value → List (Tally d.schema) → DecodeState σ → Prop
  | nil {p : Place} {ts : List (Tally d.schema)} {st st' : DecodeState σ}
      (resumes : st.Resumes st') : FirstDeclared child p st ts [] ts st'
  | cons {p : Place} {pre post ts' : List (Tally d.schema)} {t : Tally d.schema}
      {st mid st' : DecodeState σ} {v : Value} {vs : List Value}
      (earlier : ∀ u ∈ pre, u.alternative.isFull = false → Mismatches child p u.node st)
      (free : t.alternative.isFull = false) (decoded : Returns (child p t.node) st v mid)
      (rest : FirstDeclared child (p.complete v) mid (pre ++ t.add v :: post) vs ts' st') :
      FirstDeclared child p st (pre ++ t :: post) (v :: vs) ts' st'

theorem returns_resumed (again : Repeatable child) {mid after : DecodeState σ}
    (h : Returns (child p n) mid v after) (same : st.Resumes mid) :
    ∃ after', Returns (child p n) st v after' ∧ after'.Resumes after := by
  obtain ⟨after', returned, alike⟩ :=
    (again.agrees p n).returns (alike_of_resumes same.symm) h
  exact ⟨after', returned, (resumes_of_alike alike).symm⟩

theorem throws_resumed (again : Repeatable child) {mid after : DecodeState σ}
    (h : Throws (child p n) mid e after) (same : st.Resumes mid) :
    ∃ after', Throws (child p n) st e after' ∧ after'.Resumes after := by
  obtain ⟨-, after', thrown, alike⟩ :=
    (again.agrees p n).throws (alike_of_resumes same.symm) h
  exact ⟨after', thrown, (resumes_of_alike alike).symm⟩

omit [ByteSource σ] [SliceLike σ] in
/-- Whether an attempt fails with a mismatch can be tried out. -/
theorem mismatches_iff :
    Mismatches child p n st ↔
      (match ((child p n).ending st).1 with
        | .ok _ => false
        | .error e => e.isMismatch) = true := by
  rcases ended : (child p n).ending st with ⟨e | v, after⟩
  · refine ⟨?_, fun mismatch => ⟨e, after, ended, mismatch⟩⟩
    rintro ⟨e', after', thrown, mismatch⟩
    cases ended.symm.trans thrown
    exact mismatch
  · refine ⟨?_, nofun⟩
    rintro ⟨e, after', thrown, -⟩
    exact absurd thrown (Returns.not_throws ended)

theorem Mismatches.resumed (again : Repeatable child) {mid : DecodeState σ}
    (h : Mismatches child p n mid) (same : st.Resumes mid) : Mismatches child p n st := by
  obtain ⟨e, after, failure, mismatch⟩ := h
  obtain ⟨after', failure', -⟩ := throws_resumed again failure same
  exact ⟨e, after', failure', mismatch⟩

theorem FirstDeclared.resumed (again : Repeatable child) {mid : DecodeState σ}
    (h : FirstDeclared child p mid ts vs ts' st') (same : st.Resumes mid) :
    FirstDeclared child p st ts vs ts' st' := by
  induction h generalizing st with
  | nil resumes => exact .nil (same.trans resumes)
  | cons earlier free decoded _ inductionHypothesis =>
    obtain ⟨after, decoded', resumes⟩ := returns_resumed again decoded same
    exact .cons (fun u member open_ => (earlier u member open_).resumed again same) free decoded'
      (inductionHypothesis resumes)

/-- What is picked is a value of the first definition that fits. -/
theorem Picks.firstDeclared (again : Repeatable child) (h : Picks child p v st ts ts' st') :
    ∃ pre t post after, ts = pre ++ t :: post ∧ ts' = pre ++ t.add v :: post ∧
      (∀ u ∈ pre, u.alternative.isFull = false → Mismatches child p u.node st) ∧
      t.alternative.isFull = false ∧ Returns (child p t.node) st v after ∧ after.Resumes st' := by
  induction h with
  | @here t ts st st' free attempt =>
    obtain ⟨resumes, decoded⟩ := attempt
    obtain ⟨after, returned, same⟩ := returns_resumed again decoded resumes
    exact ⟨[], t, ts, after, rfl, rfl, List.forall_mem_nil _, free, returned, same⟩
  | @full t _ _ _ _ full _ inductionHypothesis =>
    obtain ⟨pre, u, post, after, rfl, rfl, earlier, picked⟩ := inductionHypothesis
    refine ⟨t :: pre, u, post, after, rfl, rfl, List.forall_mem_cons.mpr ⟨?_, earlier⟩, picked⟩
    exact fun free => absurd (full.symm.trans free) (by decide)
  | @rejected t _ _ st mid _ _ attempt _ inductionHypothesis =>
    obtain ⟨pre, u, post, after, rfl, rfl, earlier, free, decoded, same⟩ := inductionHypothesis
    -- The later attempts are made behind a rejected one, from where the choice goes on alike.
    have still := attempt.still again
    obtain ⟨after', returned, same'⟩ := returns_resumed again decoded still
    refine ⟨t :: pre, u, post, after', rfl, rfl, List.forall_mem_cons.mpr ⟨fun _ => ?_, ?_⟩, free,
      returned, same'.trans same⟩
    · exact attempt.mismatches again (.refl st)
    · exact fun w member notFull => (earlier w member notFull).resumed again still

theorem Rounds.firstDeclared (again : Repeatable child) (h : Rounds child p st ts vs ts' st') :
    FirstDeclared child p st ts vs ts' st' := by
  induction h with
  | spent _ resumes => exact .nil resumes
  | unmatched resumes unmatched => exact .nil (resumes.trans (unmatched.mismatches again).1)
  | empty resumes picks _ =>
    obtain ⟨pre, t, post, after, rfl, rfl, earlier, free, decoded, same⟩ :=
      picks.firstDeclared again
    exact (FirstDeclared.cons earlier free decoded (.nil same)).resumed again resumes
  | more resumes picks _ _ inductionHypothesis =>
    obtain ⟨pre, t, post, after, rfl, rfl, earlier, free, decoded, same⟩ :=
      picks.firstDeclared again
    exact (FirstDeclared.cons earlier free decoded
      (inductionHypothesis.resumed again same)).resumed again resumes

/-! ## One round -/

/-- A definition that is full, or that fails with a mismatch, is passed over. -/
theorem firstMatch_passed (again : Repeatable child) {mark : Mark} (marked : Marked mark st)
    {t : Tally d.schema}
    (passed : t.alternative.isFull = false → Mismatches child p t.node st)
    (rest : List (Alternative d.schema)) :
    ∃ back, st.Resumes back ∧ Marked mark back ∧
      (d.firstMatch child p n mark (t.alternative :: rest)).ending st =
        (d.firstMatch child p n mark rest >>= fun found =>
          pure (found.map fun (v, rest) => (v, t.alternative :: rest))).ending back := by
  by_cases full : t.alternative.isFull = true
  · refine ⟨st, .refl st, marked, ?_⟩
    rw [firstMatch, if_pos full]
  · obtain ⟨e, failed, thrown, mismatch⟩ := passed (by simpa using full)
    let noted : DecodeState σ :=
      { failed with events := .rejected t.node.label mark.position e :: failed.events }
    obtain ⟨⟨⟩, back, rewinds⟩ | ⟨_, _, impossible⟩ := returns_or_throws (mark.rewind n) noted
    · obtain ⟨rewound, marked'⟩ := marked.rewound rewinds
      have attempt : Rejects child p t.node st back :=
        ⟨.refl st, thrown, mismatch, ⟨rewound.reading, rewound.warnings⟩⟩
      refine ⟨back, attempt.still again, marked', ?_⟩
      have tried : Returns (outcome (child p t.alternative.node)) st (.error e) failed :=
        returns_outcome.mpr (.inr ⟨e, rfl, thrown⟩)
      rw [firstMatch, if_neg full, ending_behind tried]
      dsimp only
      rw [if_neg (by simp [mismatch]), ending_behind (returns_record (u := ()).mpr rfl)]
      exact ending_behind rewinds
    · exact absurd impossible Mark.not_rewind_throws

/-- The search comes to the first definition that is neither full nor fails with a mismatch. -/
theorem firstMatch_reaches (again : Repeatable child) (n : Node d.schema) {mark : Mark}
    (marked : Marked mark st)
    {pre : List (Tally d.schema)}
    (earlier : ∀ u ∈ pre, u.alternative.isFull = false → Mismatches child p u.node st)
    (rest : List (Alternative d.schema)) :
    ∃ back, st.Resumes back ∧
      (d.firstMatch child p n mark (pre.map Tally.alternative ++ rest)).ending st =
        (d.firstMatch child p n mark rest >>= fun found =>
          pure (found.map fun (v, rest) =>
            (v, pre.map Tally.alternative ++ rest))).ending back := by
  induction pre generalizing st with
  | nil =>
    refine ⟨st, .refl st, ?_⟩
    simp
  | cons u pre inductionHypothesis =>
    obtain ⟨here, others⟩ := List.forall_mem_cons.mp earlier
    obtain ⟨back, still, marked', passes⟩ :=
      firstMatch_passed again marked here (pre.map Tally.alternative ++ rest)
    obtain ⟨back', still', reaches⟩ := inductionHypothesis marked' fun w member notFull =>
      (others w member notFull).resumed again still.symm
    refine ⟨back', still.trans still', ?_⟩
    rw [List.map_cons, List.cons_append, passes, ending_bind_of_eq reaches, bind_assoc]
    simp only [pure_bind, Option.map_map]
    rfl

section Attempted

variable {pre : List (Tally d.schema)} {t : Tally d.schema}

/-- The first definition that fits is the one that the search finds. -/
theorem firstMatch_finds (again : Repeatable child) (n : Node d.schema)
    (post : List (Tally d.schema)) {mark : Mark} {mid : DecodeState σ} (marked : Marked mark st)
    (earlier : ∀ u ∈ pre, u.alternative.isFull = false → Mismatches child p u.node st)
    (free : t.alternative.isFull = false) (decoded : Returns (child p t.node) st v mid) :
    ∃ after, mid.Resumes after ∧
      Returns (d.firstMatch child p n mark ((pre ++ t :: post).map Tally.alternative)) st
        (some (v, (pre ++ t.add v :: post).map Tally.alternative)) after := by
  obtain ⟨back, still, reaches⟩ :=
    firstMatch_reaches again n marked earlier ((t :: post).map Tally.alternative)
  obtain ⟨after, decoded', same⟩ := returns_resumed again decoded still.symm
  refine ⟨after, same.symm, ?_⟩
  rw [List.map_append]
  refine reaches.trans (returns_bind.mpr ⟨some (v, (t.add v :: post).map Tally.alternative), after,
    ?_, returns_pure.mpr ⟨?_, rfl⟩⟩)
  · rw [List.map_cons, firstMatch, if_neg (by simp [free])]
    refine returns_bind.mpr ⟨.ok v, after, returns_outcome.mpr (.inl ⟨v, rfl, decoded'⟩), ?_⟩
    exact returns_pure.mpr ⟨by simp, rfl⟩
  · simp

/-- An attempt that fails with no mismatch ends the search. -/
theorem firstMatch_fails (again : Repeatable child) (n : Node d.schema)
    (post : List (Tally d.schema)) {mark : Mark} {mid : DecodeState σ} (marked : Marked mark st)
    (earlier : ∀ u ∈ pre, u.alternative.isFull = false → Mismatches child p u.node st)
    (free : t.alternative.isFull = false) (failed : Throws (child p t.node) st e mid)
    (fatal : e.isMismatch = false) :
    ∃ after, Throws (d.firstMatch child p n mark ((pre ++ t :: post).map Tally.alternative)) st e
      after := by
  obtain ⟨back, still, reaches⟩ :=
    firstMatch_reaches again n marked earlier ((t :: post).map Tally.alternative)
  obtain ⟨after, failed', -⟩ := throws_resumed again failed still.symm
  refine ⟨after, ?_⟩
  rw [List.map_append]
  refine reaches.trans (throws_bind.mpr (.inl ?_))
  rw [List.map_cons, firstMatch, if_neg (by simp [free])]
  have tried : Returns (outcome (child p t.alternative.node)) back (.error e) after :=
    returns_outcome.mpr (.inr ⟨e, rfl, failed'⟩)
  refine (throws_behind tried).mpr ?_
  dsimp only
  rw [if_pos (by simp [fatal])]
  exact throws_bind.mpr (.inl (throws_throw.mpr ⟨rfl, rfl⟩))

/-- A round that begins where something is left comes to the search. -/
theorem decodeChoices_searches (child : d.DecodeChild) (room : Nat) (left : ¬ Spent p st)
    (n : Node d.schema)
    (choices : List (Alternative d.schema)) :
    ∃ mark start, Marked mark start ∧ st.Resumes start ∧
      (d.decodeChoices child n room p choices).ending st =
        (do
          match ← d.firstMatch child p n mark choices with
          | none => return (p, choices)
          | some (v, choices) =>
            if v.len = 0 then return (p.complete v, choices)
            match room with
            | 0 => fail n mark.position (.repeatLimit d.options.maxRepeat)
            | room + 1 => d.decodeChoices child n room (p.complete v) choices).ending start := by
  obtain ⟨mark, start, takes, marked, resumes⟩ := take_succeeds n st
  have unspent : ¬ Spent p start := fun spent => left (spent_of_resumes resumes spent)
  refine ⟨mark, start, marked, resumes, ?_⟩
  rw [decodeChoices.eq_def, ending_behind takes]
  refine (ending_behind (exhausted_returns.mpr ⟨rfl, rfl⟩)).trans ?_
  exact congrArg (ending · start) (if_neg (mt marked.spent.mp unspent))

/-- A round that takes an instance with a length goes on behind it, if there is room. -/
theorem decodeChoices_takes (again : Repeatable child) {mid : DecodeState σ} (room : Nat)
    (n : Node d.schema) (post : List (Tally d.schema)) (left : ¬ Spent p st)
    (earlier : ∀ u ∈ pre, u.alternative.isFull = false → Mismatches child p u.node st)
    (free : t.alternative.isFull = false) (decoded : Returns (child p t.node) st v mid)
    (progress : v.len ≠ 0) :
    ∃ after, mid.Resumes after ∧
      (d.decodeChoices child n room p ((pre ++ t :: post).map Tally.alternative)).ending st =
        (match room with
          | 0 => fail n st.reading.cursor (.repeatLimit d.options.maxRepeat)
          | room + 1 => d.decodeChoices child n room (p.complete v)
              ((pre ++ t.add v :: post).map Tally.alternative)).ending after := by
  obtain ⟨mark, start, marked, resumes, searches⟩ :=
    decodeChoices_searches child room left n
      ((pre ++ t :: post).map Tally.alternative)
  obtain ⟨mid', decoded', same⟩ := returns_resumed again decoded resumes.symm
  obtain ⟨after, same', finds⟩ := firstMatch_finds again n post marked
    (fun u member notFull => (earlier u member notFull).resumed again resumes.symm) free decoded'
  refine ⟨after, same.symm.trans same', searches.trans ?_⟩
  rw [ending_behind finds]
  dsimp only
  rw [if_neg progress, marked.position, resumes.reading]

/-- A round ends with the error of an attempt that fails with no mismatch. -/
theorem decodeChoices_fails (again : Repeatable child) {mid : DecodeState σ} (room : Nat)
    (n : Node d.schema) (post : List (Tally d.schema)) (left : ¬ Spent p st)
    (earlier : ∀ u ∈ pre, u.alternative.isFull = false → Mismatches child p u.node st)
    (free : t.alternative.isFull = false) (failed : Throws (child p t.node) st e mid)
    (fatal : e.isMismatch = false) :
    ∃ after, Throws (d.decodeChoices child n room p ((pre ++ t :: post).map Tally.alternative)) st
      e after := by
  obtain ⟨mark, start, marked, resumes, searches⟩ :=
    decodeChoices_searches child room left n
      ((pre ++ t :: post).map Tally.alternative)
  obtain ⟨mid', failed', -⟩ := throws_resumed again failed resumes.symm
  obtain ⟨after, fails⟩ := firstMatch_fails again n post marked
    (fun u member notFull => (earlier u member notFull).resumed again resumes.symm) free failed'
    fatal
  exact ⟨after, searches.trans (throws_bind.mpr (.inl fails))⟩

/-- A frame in which an instance with a length is decoded is not spent where the instance starts:
the instance ends within the frame. -/
theorem not_spent_of_returns (child : d.DecodeChild) (n : Node d.schema)
    (passes : PassesAll child) (fits : FitsAll child) (decoded : Returns (child p n) st v st')
    (progress : v.len ≠ 0) : ¬ Spent p st := by
  rintro ⟨full, -⟩
  have moved := (passes decoded).cursor
  have ended := fits decoded (by omega)
  omega

end Attempted

/-! ## Attempts that fail -/

/-- A choice makes an attempt at an instance of a definition: there is room behind the values before
it, all of which have a length, and something is left; the definition is not full, and those before
it are full or fail with a mismatch. -/
structure Tries (child : d.DecodeChild) (room : Nat) (p : Place) (st : DecodeState σ)
    (ts : List (Tally d.schema)) (vs : List Value) (t : Tally d.schema) (mid : DecodeState σ) :
    Prop where
  reached : ∃ pre post, FirstDeclared child p st ts vs (pre ++ t :: post) mid ∧
    ∀ u ∈ pre, u.alternative.isFull = false → Mismatches child (p.completeAll vs) u.node mid
  progress : ∀ v ∈ vs, v.len ≠ 0
  rooms : vs.length ≤ room
  left : ¬ Spent (p.completeAll vs) mid
  free : t.alternative.isFull = false

theorem FirstDeclared.throws (again : Repeatable child) (passes : PassesAll child)
    (fits : FitsAll child) (n : Node d.schema) {room : Nat} {pre post : List (Tally d.schema)}
    {t : Tally d.schema} {start mid failed : DecodeState σ}
    (h : FirstDeclared child p st ts vs (pre ++ t :: post) mid) (same : st.Resumes start)
    (earlier : ∀ u ∈ pre, u.alternative.isFull = false →
      Mismatches child (p.completeAll vs) u.node mid)
    (progress : ∀ v ∈ vs, v.len ≠ 0) (rooms : vs.length ≤ room)
    (left : ¬ Spent (p.completeAll vs) mid) (free : t.alternative.isFull = false)
    (fails : Throws (child (p.completeAll vs) t.node) mid e failed) (fatal : e.isMismatch = false) :
    ∃ after, Throws (d.decodeChoices child n room p (ts.map Tally.alternative)) start e after := by
  generalize ended : pre ++ t :: post = reached at h
  induction h generalizing room start with
  | nil resumes =>
    subst ended
    have back := resumes.symm.trans same
    obtain ⟨after, fails', -⟩ := throws_resumed again fails back.symm
    exact decodeChoices_fails again room n _ (fun spent => left (spent_of_resumes back spent))
      (fun u member notFull => (earlier u member notFull).resumed again back.symm) free fails' fatal
  | @cons p _ _ _ _ st mid' _ v vs earlier' free' decoded _ inductionHypothesis =>
    obtain ⟨here, others⟩ := List.forall_mem_cons.mp progress
    obtain ⟨mid'', decoded', same'⟩ := returns_resumed again decoded same.symm
    have unspent : ¬ Spent p start :=
      not_spent_of_returns child _ passes fits decoded' here
    obtain ⟨behind, same'', round⟩ := decodeChoices_takes again room n _ unspent
      (fun u member notFull => (earlier' u member notFull).resumed again same.symm) free' decoded'
      here
    cases room with
    | zero => cases rooms
    | succ room =>
      obtain ⟨after, thrown⟩ := inductionHypothesis (same'.symm.trans same'') earlier others
        (Nat.le_of_succ_le_succ rooms) left fails ended
      exact ⟨after, round.trans thrown⟩

omit [ByteSource σ] [SliceLike σ] in
theorem alternatives_of_offered {ids : List ElementId} (offset : Nat) (st : DecodeState σ)
    (h : Offered d p ids ts) :
    Returns (d.alternatives p offset ids) st (ts.map Tally.alternative) st := by
  induction h with
  | nil => exact returns_pure.mpr ⟨rfl, rfl⟩
  | off found off _ inductionHypothesis =>
    refine returns_bind.mpr ⟨_, st, node_returns.mpr ⟨found, rfl⟩, ?_⟩
    refine returns_bind.mpr ⟨true, st, isDisabled_returns.mpr ⟨off, rfl⟩, ?_⟩
    rw [if_pos rfl]
    exact inductionHypothesis
  | @on _ _ t _ found on bounds none _ inductionHypothesis =>
    refine returns_bind.mpr ⟨_, st, node_returns.mpr ⟨found, rfl⟩, ?_⟩
    refine returns_bind.mpr ⟨false, st, isDisabled_returns.mpr ⟨on, rfl⟩, ?_⟩
    rw [if_neg (by decide)]
    refine returns_bind.mpr ⟨_, st, repeatBounds_returns.mpr ⟨⟨_, bounds, rfl⟩, rfl⟩, ?_⟩
    refine returns_bind.mpr ⟨_, st, inductionHypothesis, returns_pure.mpr ⟨?_, rfl⟩⟩
    simp [Tally.alternative, none]

/-- The content of a choice fails with the error of an attempt if that is no mismatch. -/
theorem Tries.throws (again : Repeatable child) (passes : PassesAll child) (fits : FitsAll child)
    (n : Node d.schema) {ids : List ElementId} {t : Tally d.schema}
    {start mid failed : DecodeState σ} (offers : Offered d p ids ts) (same : st.Resumes start)
    (h : Tries child (d.options.maxRepeat - 1) p st ts vs t mid)
    (fails : Throws (child (p.completeAll vs) t.node) mid e failed) (fatal : e.isMismatch = false) :
    ∃ after, Throws (d.decodeAnyOf child n ids p) start e after := by
  obtain ⟨⟨pre, post, history, earlier⟩, progress, rooms, left, free⟩ := h
  obtain ⟨told, tells, resumes⟩ := tell_succeeds n start
  obtain ⟨after, thrown⟩ := history.throws again passes fits n (same.trans resumes) earlier progress
    rooms left free fails fatal
  refine ⟨after, ?_⟩
  rw [decodeAnyOf, throws_behind tells,
    throws_behind (alternatives_of_offered start.reading.cursor told offers)]
  exact throws_bind.mpr (.inl thrown)

/-! ## Structures -/

/-- A structure in which any of its definitions may come next has, where each of its values starts,
none declared before that of the value that is not full and does not fail with a mismatch there. It
has as many values of every definition as the bounds allow. An attempt that fails with another error
fails the structure with it. -/
theorem first_declared_wins (d : Decoder σ) (reads : d.ScriptsOnlyRead) (sees : d.ScriptsSeeSlice)
    (depth : Nat) (p : Place) (n : Node d.schema) (definition : Option ElementId)
    (ids : List ElementId) (st : DecodeState σ) (contains : Contains n definition ids .anyOf) :
    (∀ v st', Returns (d.decodeOne (depth + 1) p n) st v st' →
      ∃ declared opened closed offered ts, d.Spans p n declared ∧
        opened.reading = st.reading.afterBytes 0 ∧ opened.warnings = st.warnings ∧
        Offered d (inside p n definition st.reading.cursor declared) ids offered ∧
        FirstDeclared (d.decodeOne depth) (inside p n definition st.reading.cursor declared) opened
          offered v.children ts closed ∧
        Enabled ids (ts.map Tally.node) ∧ v.children.Perm (ts.flatMap Tally.values) ∧
        ∀ t ∈ ts, d.Bounds (inside p n definition st.reading.cursor declared) t.node t.min t.max ∧
          (∀ max, t.max = some max → t.values.length ≤ max) ∧
          required t.min t.max ≤ t.values.length) ∧
    ∀ declared opened offered vs t mid e failed, d.Spans p n declared →
      (inside p n definition st.reading.cursor declared).limit ≤ p.limit →
      opened.reading = st.reading.afterBytes 0 → opened.warnings = st.warnings →
      Offered d (inside p n definition st.reading.cursor declared) ids offered →
      Tries (d.decodeOne depth) (d.options.maxRepeat - 1)
        (inside p n definition st.reading.cursor declared) opened offered vs t mid →
      Throws (d.decodeOne depth
        ((inside p n definition st.reading.cursor declared).completeAll vs) t.node) mid e failed →
      e.isMismatch = false → ∃ st', Throws (d.decodeOne (depth + 1) p n) st e st' := by
  have again := decodeOne_repeatable reads sees depth
  have structural : n.IsStructural := by
    cases contains with
    | «structure» kind => exact .inl ⟨_, kind⟩
    | structRef kind => exact .inr ⟨_, kind⟩
  constructor
  · intro v st' h
    obtain ⟨declared, spans, fits⟩ := decodeOne_spans contains structural h
    obtain ⟨opened, opens⟩ := decodeOne_opens depth st contains structural spans fits
    obtain ⟨q, closed, filled, children⟩ := opens.returned h
    obtain ⟨ts, vs, rfl, history⟩ := decodeAnyOf_returns filled
    obtain ⟨enabled, values, counted⟩ := history.counted
    obtain ⟨offers, resumes, rounds, enough⟩ := history
    have all : v.children = vs := by
      rw [children, Place.children_completeAll]
      rfl
    rw [all]
    refine ⟨declared, opened, closed, _, ts, spans, opens.reading, opens.warnings, offers,
      (rounds.firstDeclared again).resumed again resumes, enabled, values, fun t member => ?_⟩
    obtain ⟨bounds, most, -⟩ := counted t member
    exact ⟨bounds, fun max bound => (most.bounded max bound).2, enough t member⟩
  · intro declared opened offered vs t mid e failed spans fits reading warnings offers tries fails
      fatal
    obtain ⟨start, opens⟩ := decodeOne_opens depth st contains structural spans fits
    have same : opened.Resumes start :=
      ⟨opens.reading.trans reading.symm, opens.warnings.trans warnings.symm⟩
    obtain ⟨after, failed'⟩ := tries.throws again (decodeOne_passes depth) (decodeOne_fits depth) n
      offers same fails fatal
    obtain ⟨st', thrown⟩ := opens.throws failed'
    rw [contentFailure_of_fatal fatal] at thrown
    exact ⟨st', thrown⟩

/-! ## A choice of numbers -/

/-- A number of one byte that has to be the given one, any number of times. -/
def pickyNumber (name : String) (value : Int64) : Element :=
  ⟨{ repeatMin := some (.literal 0), repeatMax := some (.literal (-1)) },
    .number
      { extent := { length := some (.literal 1) }
        mustMatch := some true
        values := some [⟨name, value⟩] }⟩

/-- Ones and twos in any order, and a number without a length, which is no number. -/
def picky : Decoder Slice where
  schema :=
    { elements := #[
        ⟨{}, .structure { order := some .anyOf, children := [⟨1⟩, ⟨2⟩, ⟨3⟩] }⟩,
        pickyNumber "one" 1, pickyNumber "two" 2,
        ⟨{ repeatMin := some (.literal 0), repeatMax := some (.literal (-1)) }, .number {}⟩]
      root := ⟨0⟩ }
  options := { maxDepth := 2, maxRepeat := 4 }

def pickyRoot : Node picky.schema := ⟨⟨0⟩, _, rfl⟩

def pickyOne : Node picky.schema := ⟨⟨1⟩, _, rfl⟩

def pickyTwo : Node picky.schema := ⟨⟨2⟩, _, rfl⟩

def pickyOther : Node picky.schema := ⟨⟨3⟩, _, rfl⟩

/-- The value of a two at the start of the data. -/
def pickyValue : Value := ⟨⟨2⟩, 0, 1, some .little, .number (.unsigned 2) (some "two") [] none, []⟩

/-- Inside the structure, where it starts with data of some size. -/
def pickyPlace (size : Nat) : Place := inside (startPlace ⟨0⟩ 0 size) pickyRoot none 0 none

def pickyStart : DecodeState Slice := { source := ⟨#[2, 3], 0⟩ }

/-- Behind a two. -/
def pickyBehind : DecodeState Slice :=
  ((picky.decodeOne 1 (pickyPlace 2) pickyTwo).ending pickyStart).2

def pickyTally (n : Node picky.schema) : Tally picky.schema := ⟨n, 0, none, []⟩

theorem picky_scriptless (script : ScriptBody) : ¬ picky.schema.HasScript script := by
  simp [Schema.HasScript, picky, pickyNumber]

theorem picky_bounds (p : Place) (n : Node picky.schema)
    (plain : n.repeatMin = .ok (.literal 0) ∧ n.repeatMax = .ok (.literal (-1))) :
    picky.Bounds p n 0 none :=
  ⟨.literal 0, .literal (-1), 0, -1, plain.1, plain.2, rfl, rfl, by decide, by decide⟩

theorem picky_offered (p : Place) :
    Offered picky p [⟨1⟩, ⟨2⟩, ⟨3⟩] [pickyTally pickyOne, pickyTally pickyTwo,
      pickyTally pickyOther] := by
  refine .on (by rfl) rfl (picky_bounds p _ ⟨by cbv, by cbv⟩) rfl ?_
  refine .on (by rfl) rfl (picky_bounds p _ ⟨by cbv, by cbv⟩) rfl ?_
  exact .on (by rfl) rfl (picky_bounds p _ ⟨by cbv, by cbv⟩) rfl .nil

set_option maxRecDepth 8000 in
theorem first_declared_wins_picky :
    (∃ st', Returns (picky.decodeOne 2 (startPlace ⟨0⟩ 0 1) pickyRoot) { source := ⟨#[2], 0⟩ }
        ⟨⟨0⟩, 0, 1, none, .none, [pickyValue]⟩ st' ∧
      ∃ declared opened closed offered ts, picky.Spans (startPlace ⟨0⟩ 0 1) pickyRoot declared ∧
        FirstDeclared (picky.decodeOne 1) (inside (startPlace ⟨0⟩ 0 1) pickyRoot none 0 declared)
          opened offered [pickyValue] ts closed) ∧
    ∃ st', Throws (picky.decodeOne 2 (startPlace ⟨0⟩ 0 2) pickyRoot) { source := ⟨#[2, 3], 0⟩ }
      ⟨⟨3⟩, "number#3", 1, .unsupported .noNumberLength⟩ st' := by
  have reads := scriptsOnlyRead_of_scriptless picky_scriptless
  have sees := scriptsSeeSlice_of_scriptless picky_scriptless
  have contains : Contains pickyRoot none [⟨1⟩, ⟨2⟩, ⟨3⟩] .anyOf := .structure rfl (by cbv)
  constructor
  · have returned : Returns (picky.decodeOne 2 (startPlace ⟨0⟩ 0 1) pickyRoot)
        { source := ⟨#[2], 0⟩ } ⟨⟨0⟩, 0, 1, none, .none, [pickyValue]⟩ _ := Prod.ext (by cbv) rfl
    obtain ⟨declared, opened, closed, offered, ts, spans, -, -, -, history, -⟩ :=
      (first_declared_wins picky reads sees 1 (startPlace ⟨0⟩ 0 1) pickyRoot none _ _
        contains).1 _ _ returned
    exact ⟨_, returned, declared, opened, closed, offered, ts, spans, history⟩
  · have two : Returns (picky.decodeOne 1 (pickyPlace 2) pickyTwo) pickyStart pickyValue
        pickyBehind := Prod.ext (by cbv) rfl
    have other : Throws (picky.decodeOne 1 ((pickyPlace 2).completeAll [pickyValue]) pickyOther)
        pickyBehind ⟨⟨3⟩, "number#3", 1, .unsupported .noNumberLength⟩ _ := Prod.ext (by cbv) rfl
    have history : FirstDeclared (picky.decodeOne 1) (pickyPlace 2) pickyStart
        ([pickyTally pickyOne] ++ pickyTally pickyTwo :: [pickyTally pickyOther]) [pickyValue]
        ([pickyTally pickyOne] ++ (pickyTally pickyTwo).add pickyValue :: [pickyTally pickyOther])
        pickyBehind :=
      .cons (List.forall_mem_singleton.mpr fun _ => mismatches_iff.mpr (by cbv)) rfl two
        (.nil (.refl pickyBehind))
    have earlier : ∀ u ∈ [pickyTally pickyOne, (pickyTally pickyTwo).add pickyValue],
        u.alternative.isFull = false → Mismatches (picky.decodeOne 1)
          ((pickyPlace 2).completeAll [pickyValue]) u.node pickyBehind :=
      List.forall_mem_cons.mpr ⟨fun _ => mismatches_iff.mpr (by cbv),
        List.forall_mem_singleton.mpr fun _ => mismatches_iff.mpr (by cbv)⟩
    have left : ¬ Spent ((pickyPlace 2).completeAll [pickyValue]) pickyBehind := by
      rintro ⟨full, -⟩
      have cursor : pickyBehind.reading.cursor = 1 := by cbv
      rw [cursor] at full
      exact absurd full (by decide)
    have tries : Tries (picky.decodeOne 1) 3 (pickyPlace 2) pickyStart
        [pickyTally pickyOne, pickyTally pickyTwo, pickyTally pickyOther] [pickyValue]
        (pickyTally pickyOther) pickyBehind :=
      ⟨⟨[pickyTally pickyOne, (pickyTally pickyTwo).add pickyValue], [], history, earlier⟩,
        List.forall_mem_singleton.mpr (by decide), by decide, left, rfl⟩
    exact (first_declared_wins picky reads sees 1 (startPlace ⟨0⟩ 0 2) pickyRoot none _ pickyStart
      contains).2 none pickyStart _ _ _ pickyBehind _ _ (by cbv) (by decide) rfl rfl
        (picky_offered _) tries other rfl

end BinaryTemplate.Decoder
