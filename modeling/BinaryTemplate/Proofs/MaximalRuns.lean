import Mathlib
import BinaryTemplate.Proofs.Attempts
import BinaryTemplate.Proofs.Passing

/-!
# How far open-ended runs go

An open-ended run, like a choice, goes on until nothing is left, no further instance fits, or the
last instance has taken nothing. There is one exception: an instance that lies inside a byte of
which bits are unread has no length, so the loop ends behind it although it has taken bits. The run
is then cut short, exactly if something is left there and a further instance does not fail with a
mismatch. A run of one element is the choice that has no other.
-/

namespace BinaryTemplate.Decoder

open DecodeM

variable {σ : Type} [ByteSource σ] [SliceLike σ] {d : Decoder σ} {child : d.DecodeChild}
  {p : Place} {n : Node d.schema} {st st' : DecodeState σ}

/-! ## Histories -/

/-- The history of a choice up to some state, however it goes on from there. -/
inductive Course (child : d.DecodeChild) : Place → DecodeState σ → List (Tally d.schema) →
    List Value → List (Tally d.schema) → DecodeState σ → Prop
  | nil {p : Place} {ts : List (Tally d.schema)} {st st' : DecodeState σ}
      (resumes : st.Resumes st') : Course child p st ts [] ts st'
  | cons {p : Place} {ts ts' ts'' : List (Tally d.schema)} {st start mid st' : DecodeState σ}
      {v : Value} {vs : List Value} (resumes : st.Resumes start)
      (picks : Picks child p v start ts ts' mid)
      (rest : Course child (p.complete v) mid ts' vs ts'' st') :
      Course child p st ts (v :: vs) ts'' st'

theorem Course.unique (again : Repeatable child) {vs : List Value}
    {ts ts₁ ts₂ : List (Tally d.schema)} {a b : DecodeState σ}
    (first : Course child p st ts vs ts₁ a) (second : Course child p st' ts vs ts₂ b)
    (same : st.Resumes st') : ts₁ = ts₂ ∧ a.Resumes b := by
  induction first generalizing st' with
  | nil resumes =>
    cases second with
    | nil resumes' => exact ⟨rfl, (resumes.symm.trans same).trans resumes'⟩
  | cons resumes picks _ inductionHypothesis =>
    cases second with
    | cons resumes' picks' rest' =>
      have start := (resumes.symm.trans same).trans resumes'
      obtain ⟨-, rfl, mid⟩ := picks.unique again picks' start
      exact inductionHypothesis rest' mid

/-- The reading from which the last value of a history was taken. -/
def LastStarts (child : d.DecodeChild) (p : Place) (st : DecodeState σ) (ts : List (Tally d.schema))
    (vs : List Value) (before : Reading) : Prop :=
  ∃ init v ts' mid, vs = init ++ [v] ∧ Course child p st ts init ts' mid ∧ mid.reading = before

theorem LastStarts.unique (again : Repeatable child) {ts : List (Tally d.schema)} {vs : List Value}
    {a b : Reading} (first : LastStarts child p st ts vs a)
    (second : LastStarts child p st ts vs b) : a = b := by
  obtain ⟨init, v, ts₁, mid, rfl, course, rfl⟩ := first
  obtain ⟨init', v', ts₂, mid', split, course', rfl⟩ := second
  -- Both take the values before the last one, and those are the same.
  have earlier : init = init' := (List.append_inj' split rfl).1
  rw [← earlier] at course'
  obtain ⟨-, same⟩ := course.unique again course' (.refl _)
  exact same.reading.symm

theorem LastStarts.cons {ts ts' : List (Tally d.schema)} {v : Value} {vs : List Value}
    {start mid : DecodeState σ} {before : Reading} (resumes : st.Resumes start)
    (picks : Picks child p v start ts ts' mid)
    (last : LastStarts child (p.complete v) mid ts' vs before) :
    LastStarts child p st ts (v :: vs) before := by
  obtain ⟨init, w, ts₁, reached, rfl, course, rfl⟩ := last
  exact ⟨v :: init, w, ts₁, reached, rfl, .cons resumes picks course, rfl⟩

theorem Course.resumed {ts ts' : List (Tally d.schema)} {vs : List Value} {mid : DecodeState σ}
    (resumes : st.Resumes mid) (h : Course child p mid ts vs ts' st') :
    Course child p st ts vs ts' st' := by
  cases h with
  | nil more => exact .nil (resumes.trans more)
  | cons more picks rest => exact .cons (resumes.trans more) picks rest

/-! ## Ends -/

/-- A history ends as it should: nothing is left in the frame, every definition that is not full
fails with a mismatch, or the last instance has taken neither a byte nor a bit. -/
inductive Maximal (child : d.DecodeChild) (p : Place) (st : DecodeState σ)
    (ts : List (Tally d.schema)) (vs : List Value) (ts' : List (Tally d.schema))
    (st' : DecodeState σ) : Prop
  | spent (spent : Spent (p.completeAll vs) st')
  | unmatched (mismatches : ∀ t ∈ ts', t.alternative.isFull = false →
      Mismatches child (p.completeAll vs) t.node st')
  | still (starts : LastStarts child p st ts vs st'.reading)

/-- A history ends inside a byte: behind an instance that has taken only bits that were unread,
where something is left and a further instance does not fail with a mismatch. -/
structure CutShort (child : d.DecodeChild) (p : Place) (st : DecodeState σ)
    (ts : List (Tally d.schema)) (vs : List Value) (ts' : List (Tally d.schema))
    (st' : DecodeState σ) : Prop where
  inside : ∃ before, LastStarts child p st ts vs before ∧
    st'.reading.cursor = before.cursor ∧ st'.reading.pending.length < before.pending.length
  left : ¬ Spent (p.completeAll vs) st'
  fits : ∃ t ∈ ts', t.alternative.isFull = false ∧
    ¬ Mismatches child (p.completeAll vs) t.node st'

theorem CutShort.not_maximal (again : Repeatable child) {ts ts' : List (Tally d.schema)}
    {vs : List Value} (h : CutShort child p st ts vs ts' st') :
    ¬ Maximal child p st ts vs ts' st' := by
  intro maximal
  obtain ⟨⟨before, starts, -, fewer⟩, left, t, member, free, fits⟩ := h
  cases maximal with
  | spent spent => exact left spent
  | unmatched mismatches => exact fits (mismatches t member free)
  | still starts' =>
    obtain rfl := starts.unique again starts'
    exact absurd fewer (Nat.lt_irrefl _)

theorem Picks.passes (again : Repeatable child) (passes : PassesAll child) {v : Value}
    {ts ts' : List (Tally d.schema)} (h : Picks child p v st ts ts' st') :
    st.reading.Passes v.len st'.reading ∧ st'.reading.data = st.reading.data := by
  induction h with
  | here _ attempt =>
    obtain ⟨resumes, decoded⟩ := attempt
    rw [← resumes.reading]
    exact ⟨passes decoded, again.returnsKeep decoded⟩
  | full _ _ inductionHypothesis => exact inductionHypothesis
  | rejected _ attempt _ inductionHypothesis =>
    rw [← (attempt.still again).reading]
    exact inductionHypothesis

/-- The three ways in which the loop ends. Behind an instance without length, the reading is where
it was or still inside the byte in which the instance starts. -/
theorem Rounds.ends (again : Repeatable child) (passes : PassesAll child)
    {ts ts' : List (Tally d.schema)} {vs : List Value} (h : Rounds child p st ts vs ts' st') :
    Course child p st ts vs ts' st' ∧
      (Spent (p.completeAll vs) st' ∨
        (∀ t ∈ ts', t.alternative.isFull = false →
          Mismatches child (p.completeAll vs) t.node st') ∨
        ∃ before, LastStarts child p st ts vs before ∧
          (st'.reading = before ∨ st'.reading.cursor = before.cursor ∧
            st'.reading.pending.length < before.pending.length)) := by
  induction h with
  | spent spent resumes => exact ⟨.nil resumes, .inl (spent_of_resumes resumes.symm spent)⟩
  | unmatched resumes unmatched =>
    obtain ⟨same, mismatches⟩ := unmatched.mismatches again
    refine ⟨.nil (resumes.trans same), .inr (.inl ?_)⟩
    intro t member free
    exact mismatches t member free same
  | @empty p ts ts' st start st' v resumes picks empty =>
    -- The loop only sees that no byte was taken; whether a bit was is in the reading.
    obtain ⟨passed, kept⟩ := picks.passes again passes
    rw [empty] at passed
    refine ⟨.cons resumes picks (.nil (.refl _)), .inr (.inr ⟨start.reading, ?_, ?_⟩)⟩
    · exact ⟨[], v, ts, start, rfl, .nil resumes, rfl⟩
    · exact passed.still_or_inside kept
  | more resumes picks _ _ inductionHypothesis =>
    obtain ⟨course, ended⟩ := inductionHypothesis
    refine ⟨.cons resumes picks course, ?_⟩
    obtain spent | mismatches | ⟨before, starts, moved⟩ := ended
    · exact .inl spent
    · exact .inr (.inl mismatches)
    · exact .inr (.inr ⟨before, starts.cons resumes picks, moved⟩)

theorem Rounds.maximal_iff (again : Repeatable child) (passes : PassesAll child)
    {ts ts' : List (Tally d.schema)} {vs : List Value} (h : Rounds child p st ts vs ts' st') :
    Maximal child p st ts vs ts' st' ↔ ¬ CutShort child p st ts vs ts' st' := by
  constructor
  · intro maximal cut
    exact cut.not_maximal again maximal
  · intro whole
    obtain ⟨-, spent | mismatches | ⟨before, starts, rfl | inside⟩⟩ := h.ends again passes
    · exact .spent spent
    · exact .unmatched mismatches
    · exact .still starts
    -- Inside a byte the history may still be maximal, if it could not have gone on anyway.
    · by_cases spent : Spent (p.completeAll vs) st'
      · exact .spent spent
      · apply Maximal.unmatched
        intro t member free
        by_cases fails : Mismatches child (p.completeAll vs) t.node st'
        · exact fails
        · exact absurd ⟨⟨before, starts, inside⟩, spent, t, member, free, fails⟩ whole

/-! ## Runs of one element -/

/-- A run of an element is open-ended: its greatest number evaluates to a negative one. -/
def OpenEnded (d : Decoder σ) (p : Place) (n : Node d.schema) : Prop :=
  ∃ most k, n.repeatMax = .ok most ∧ d.Evaluates p most k ∧ k.toInt < 0

omit [ByteSource σ] [SliceLike σ] in
theorem OpenEnded.bounds {min : Nat} {max : Option Nat} (h : d.OpenEnded p n)
    (bounds : d.Bounds p n min max) : max = none := by
  obtain ⟨most, k, found, evaluates, negative⟩ := h
  obtain ⟨_, most', _, k', -, found', -, evaluates', -, rfl⟩ := bounds
  cases found.symm.trans found'
  obtain rfl := evaluates.unique evaluates'
  exact if_pos negative

theorem Rounds.resumed {ts ts' : List (Tally d.schema)} {vs : List Value} {mid : DecodeState σ}
    (resumes : st.Resumes mid) (h : Rounds child p mid ts vs ts' st') :
    Rounds child p st ts vs ts' st' := by
  cases h with
  | spent spent more => exact .spent (spent_of_resumes resumes spent) (resumes.trans more)
  | unmatched more unmatched => exact .unmatched (resumes.trans more) unmatched
  | empty more picks empty => exact .empty (resumes.trans more) picks empty
  | more more picks progress rest => exact .more (resumes.trans more) picks progress rest

/-- An open-ended run is the history of a choice that has only one definition. -/
theorem Run.rounds {min least count : Nat} {vs ws : List Value}
    (h : Run child n least none count p st vs st') :
    Rounds child p st [⟨n, min, none, ws⟩] vs [⟨n, min, none, ws ++ vs⟩] st' := by
  induction h generalizing ws with
  | full full => cases full
  | spent _ spent resumes =>
    rw [List.append_nil]
    exact .spent spent resumes
  | rejected _ _ attempt =>
    rw [List.append_nil]
    exact .unmatched (.refl _) (.rejected rfl attempt .nil)
  | empty _ attempt empty => exact .empty (.refl _) (.here rfl attempt) empty
  | @more count p st mid st' v vs _ attempt progress _ inductionHypothesis =>
    have rest : Rounds child (p.complete v) mid [⟨n, min, none, ws ++ [v]⟩] vs
        [⟨n, min, none, ws ++ (v :: vs)⟩] st' := by
      rw [List.append_cons ws v vs]
      exact inductionHypothesis
    exact .more (.refl _) (.here rfl attempt) (progress rfl) rest

/-- Open-ended runs, and the loop of every choice, are maximal unless they are cut short inside a
byte. -/
theorem open_ended_maximal (d : Decoder σ) (reads : d.ScriptsOnlyRead) (sees : d.ScriptsSeeSlice)
    (depth : Nat) (p p' : Place) (n : Node d.schema) (st st' : DecodeState σ) :
    (d.OpenEnded p n → Returns (d.decodeRepeated (d.decodeOne depth) p n) st p' st' →
      ∃ min vs, d.Bounds p n min none ∧ p' = p.completeAll vs ∧
        Course (d.decodeOne depth) p st [⟨n, min, none, []⟩] vs [⟨n, min, none, vs⟩] st' ∧
        (Maximal (d.decodeOne depth) p st [⟨n, min, none, []⟩] vs [⟨n, min, none, vs⟩] st' ↔
          ¬ CutShort (d.decodeOne depth) p st [⟨n, min, none, []⟩] vs [⟨n, min, none, vs⟩] st')) ∧
    ∀ (ids : List ElementId) (offset room : Nat) (choices choices' : List (Alternative d.schema))
      (start : DecodeState σ), Returns (d.alternatives p offset ids) start choices st →
      Returns (d.decodeChoices (d.decodeOne depth) n room p choices) st (p', choices') st' →
      ∃ ts vs ts', Offered d p ids ts ∧ choices = ts.map Tally.alternative ∧
        p' = p.completeAll vs ∧ choices' = ts'.map Tally.alternative ∧
        Course (d.decodeOne depth) p st ts vs ts' st' ∧
        (Maximal (d.decodeOne depth) p st ts vs ts' st' ↔
          ¬ CutShort (d.decodeOne depth) p st ts vs ts' st') := by
  have again := decodeOne_repeatable reads sees depth
  have passes : PassesAll (d.decodeOne depth) := decodeOne_passes depth
  constructor
  · intro openEnded repeats
    obtain ⟨min, max, vs, start, bounds, resumes, rfl, run⟩ := decodeRepeated_returns repeats
    obtain rfl := openEnded.bounds bounds
    have rounds : Rounds (d.decodeOne depth) p st [⟨n, min, none, []⟩] vs [⟨n, min, none, vs⟩]
        st' := run.rounds.resumed resumes
    exact ⟨min, vs, bounds, rfl, (rounds.ends again passes).1, rounds.maximal_iff again passes⟩
  · intro ids offset room choices choices' start offers loop
    obtain ⟨⟨ts, rfl, offered⟩, rfl⟩ := alternatives_returns offers
    obtain ⟨vs, ts', rfl, rfl, rounds⟩ := decodeChoices_returns loop
    exact ⟨ts, vs, ts', offered, rfl, rfl, rfl, (rounds.ends again passes).1,
      rounds.maximal_iff again passes⟩

/-! ## A run of single bits -/

/-- A structure of as many single bits as there are. -/
def bitwise : Decoder Slice where
  schema :=
    { elements := #[
        ⟨{}, .structure { children := [⟨1⟩] }⟩,
        ⟨{ repeatMin := some (.literal 0), repeatMax := some (.literal (-1)) },
          .number { extent := { length := some (.literal 1), unit := some .bit } }⟩]
      root := ⟨0⟩ }
  options := { maxDepth := 2, maxRepeat := 8 }

def bitwiseRoot : Node bitwise.schema := ⟨⟨0⟩, _, rfl⟩

def bitwiseChild : Node bitwise.schema := ⟨⟨1⟩, _, rfl⟩

/-- Inside the structure, where it starts with the data. -/
def bitwisePlace : Place := inside (startPlace ⟨0⟩ 0 1) bitwiseRoot none 0 none

def bitwiseStart : DecodeState Slice := { source := ⟨#[0xff], 0⟩ }

/-- The value of a bit that is set: where it starts, its length in bytes, and its number. -/
def setBit (offset len first : Nat) : Value :=
  ⟨⟨1⟩, offset, len, some .little, .number (.unsigned 1) none [] (some ⟨first, 1⟩), []⟩

theorem bitwise_openEnded : bitwise.OpenEnded bitwisePlace bitwiseChild :=
  ⟨.literal (-1), -1, by cbv, rfl, by decide⟩

theorem bitwise_scriptless (script : ScriptBody) : ¬ bitwise.schema.HasScript script := by
  simp [Schema.HasScript, bitwise]

theorem bitwise_reads : bitwise.ScriptsOnlyRead := scriptsOnlyRead_of_scriptless bitwise_scriptless

theorem bitwise_sees : bitwise.ScriptsSeeSlice := scriptsSeeSlice_of_scriptless bitwise_scriptless

set_option maxRecDepth 8000 in
theorem open_ended_maximal_bitwise :
    bitwise.OpenEnded bitwisePlace bitwiseChild ∧
    (∃ st', Returns (bitwise.decodeRepeated (bitwise.decodeOne 1) bitwisePlace bitwiseChild)
        bitwiseStart (bitwisePlace.completeAll [setBit 0 1 0, setBit 1 0 1]) st' ∧
      ∃ min vs, bitwise.Bounds bitwisePlace bitwiseChild min none ∧
        (Maximal (bitwise.decodeOne 1) bitwisePlace bitwiseStart [⟨bitwiseChild, min, none, []⟩] vs
            [⟨bitwiseChild, min, none, vs⟩] st' ↔
          ¬ CutShort (bitwise.decodeOne 1) bitwisePlace bitwiseStart
            [⟨bitwiseChild, min, none, []⟩] vs [⟨bitwiseChild, min, none, vs⟩] st')) ∧
    ∃ st', Returns (bitwise.decodeChoices (bitwise.decodeOne 1) bitwiseRoot 7 bitwisePlace
        [⟨bitwiseChild, 0, none, 0⟩]) bitwiseStart
        (bitwisePlace.completeAll [setBit 0 1 0, setBit 1 0 1], [⟨bitwiseChild, 0, none, 2⟩]) st' ∧
      ∃ ts vs ts', Offered bitwise bitwisePlace [⟨1⟩] ts ∧
        (Maximal (bitwise.decodeOne 1) bitwisePlace bitwiseStart ts vs ts' st' ↔
          ¬ CutShort (bitwise.decodeOne 1) bitwisePlace bitwiseStart ts vs ts' st') := by
  refine ⟨bitwise_openEnded, ?_, ?_⟩
  · have returned : Returns
        (bitwise.decodeRepeated (bitwise.decodeOne 1) bitwisePlace bitwiseChild) bitwiseStart
        (bitwisePlace.completeAll [setBit 0 1 0, setBit 1 0 1]) _ := Prod.ext (by cbv) rfl
    obtain ⟨min, vs, bounds, -, -, maximal⟩ :=
      (open_ended_maximal bitwise bitwise_reads bitwise_sees 1 bitwisePlace _ bitwiseChild
        bitwiseStart _).1 bitwise_openEnded returned
    exact ⟨_, returned, min, vs, bounds, maximal⟩
  · have offers : Returns (bitwise.alternatives bitwisePlace 0 [⟨1⟩]) bitwiseStart
        [⟨bitwiseChild, 0, none, 0⟩] bitwiseStart := Prod.ext (by cbv) (by cbv)
    have loop : Returns (bitwise.decodeChoices (bitwise.decodeOne 1) bitwiseRoot 7 bitwisePlace
        [⟨bitwiseChild, 0, none, 0⟩]) bitwiseStart
        (bitwisePlace.completeAll [setBit 0 1 0, setBit 1 0 1], [⟨bitwiseChild, 0, none, 2⟩]) _ :=
      Prod.ext (by cbv) rfl
    obtain ⟨ts, vs, ts', offered, -, -, -, -, maximal⟩ :=
      (open_ended_maximal bitwise bitwise_reads bitwise_sees 1 bitwisePlace _ bitwiseRoot
        bitwiseStart _).2 [⟨1⟩] 0 7 _ _ bitwiseStart offers loop
    exact ⟨_, loop, ts, vs, ts', offered, maximal⟩

set_option maxRecDepth 8000 in
/-- Of the eight bits of a byte only two are taken: the second is the first without length. -/
theorem bits_cut_short :
    (bitwise.decodeElement ⟨0⟩ ⟨#[0xff], 0⟩).result =
        .ok (⟨⟨0⟩, 0, 1, none, .none, [setBit 0 1 0, setBit 1 0 1]⟩, []) ∧
      bitwise.OpenEnded bitwisePlace bitwiseChild ∧
      ∃ st', Returns (bitwise.decodeRepeated (bitwise.decodeOne 1) bitwisePlace bitwiseChild)
          bitwiseStart (bitwisePlace.completeAll [setBit 0 1 0, setBit 1 0 1]) st' ∧
        ¬ Maximal (bitwise.decodeOne 1) bitwisePlace bitwiseStart [⟨bitwiseChild, 0, none, []⟩]
          [setBit 0 1 0, setBit 1 0 1]
          [⟨bitwiseChild, 0, none, [setBit 0 1 0, setBit 1 0 1]⟩] st' := by
  refine ⟨by cbv, bitwise_openEnded, _, Prod.ext (by cbv) rfl, ?_⟩
  have first : Returns (bitwise.decodeOne 1 bitwisePlace bitwiseChild) bitwiseStart
      (setBit 0 1 0) _ := Prod.ext (by cbv) rfl
  -- From where the run has stopped, a further bit decodes.
  have third : Returns (bitwise.decodeOne 1
      (bitwisePlace.completeAll [setBit 0 1 0, setBit 1 0 1]) bitwiseChild)
      ((bitwise.decodeRepeated (bitwise.decodeOne 1) bitwisePlace bitwiseChild).ending
        bitwiseStart).2 (setBit 1 0 2) _ := Prod.ext (by cbv) rfl
  have second : LastStarts (bitwise.decodeOne 1) bitwisePlace bitwiseStart
      [⟨bitwiseChild, 0, none, []⟩] [setBit 0 1 0, setBit 1 0 1]
      ((bitwise.decodeOne 1 bitwisePlace bitwiseChild).ending bitwiseStart).2.reading :=
    ⟨[setBit 0 1 0], setBit 1 0 1, _, _, rfl,
      .cons (.refl _) (.here rfl ⟨.refl _, first⟩) (.nil (.refl _)), rfl⟩
  apply CutShort.not_maximal (decodeOne_repeatable bitwise_reads bitwise_sees 1)
  refine ⟨⟨_, second, by cbv, by cbv⟩, ?_, ⟨_, List.mem_singleton_self _, rfl, ?_⟩⟩
  · rintro ⟨-, none⟩
    have unread : ((bitwise.decodeRepeated (bitwise.decodeOne 1) bitwisePlace bitwiseChild).ending
        bitwiseStart).2.reading.pending.length = 6 := by cbv
    rw [none] at unread
    cases unread
  · rintro ⟨e, after, thrown, -⟩
    exact third.not_throws thrown

end BinaryTemplate.Decoder
