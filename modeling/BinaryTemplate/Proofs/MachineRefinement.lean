import BinaryTemplate.Proofs.Machine
import BinaryTemplate.Proofs.Attempts

/-!
# The machine does what the decoder does

From every state, a step of the machine ends as the step of the decoder that it mirrors: with the
same value or error, and in the same state of the decode. The stack is then what it was, but for
the innermost frame of a container while its content is decoded. Only the count of levels may be
wrong after an error, and never after one that lets something else be tried.

The lemmas go through the functions of the machine in their order.
-/

namespace BinaryTemplate.Machine

open DecodeM (Returns Throws fail record resolved align tell tellAt seek returns_or_throws)

variable {σ α β α' β' γ : Type} {m : Machine σ} {st : DecodeState σ}

/-- The machine in another state, with another innermost frame and at another depth. -/
def at_ (m : Machine σ) (st : DecodeState σ) (f : Frame) (depth : Nat) : Machine σ :=
  { m.resume st with inner := f, depth := depth }

/-- How a step of the machine ends, beside the step of the decoder that it mirrors. What comes back
is related by `Q`, together with the innermost frame; after an error that frame is one of `K`. -/
inductive Mirrors (m : Machine σ) (Q : α → β → Frame → Prop) (K : Frame → Prop) :
    Except DecodeError α × DecodeState σ → Except DecodeError β × Machine σ → Prop
  | returned {a : α} {b : β} {st : DecodeState σ} {f : Frame} (same : Q a b f) :
      Mirrors m Q K (.ok a, st) (.ok b, m.at_ st f m.depth)
  | threw {e : DecodeError} {st : DecodeState σ} {f : Frame} {depth : Nat} (kept : K f)
      (balanced : e.isMismatch = true → depth = m.depth) :
      Mirrors m Q K (.error e, st) (.error e, m.at_ st f depth)

/-- The same value, with the innermost frame of the machine untouched. -/
def Untouched (m : Machine σ) (a b : α) (f : Frame) : Prop := a = b ∧ f = m.inner

variable {Q : α → β → Frame → Prop} {Q' : α' → β' → Frame → Prop} {K K' : Frame → Prop}

/-! ## Sequences -/

theorem ending_bind {step : MachineM σ α} {next : α → MachineM σ β} :
    ending (step >>= next) m =
      match ending step m with
      | (.ok a, m') => ending (next a) m'
      | (.error e, m') => (.error e, m') := by
  rcases ended : ending step m with ⟨e | a, m'⟩
  · exact bind_of_error ended
  · exact bind_of_ok ended

theorem ending_atPlace {step : Place → DecodeM σ α} :
    ending (atPlace step) m =
      (((step m.place).ending m.state).1, m.resume ((step m.place).ending m.state).2) :=
  rfl

theorem enter_bind {f : Frame} {next : Unit → MachineM σ β} :
    ending (enter id f >>= next) m = ending (next ()) (m.push f) :=
  rfl

/-- Nobody watches when an attempt begins. -/
theorem Mirrors.unwatched {next : Unit → MachineM σ β} {l : Except DecodeError α × DecodeState σ}
    (rest : Mirrors m Q K l (ending (next ()) m)) :
    Mirrors m Q K l (ending (beginAttempt id >>= next) m) :=
  rest

/-- What a step leaves behind is the same stack, so the next step may be seen from before it. -/
theorem Mirrors.of_at {f : Frame} {l : Except DecodeError α × DecodeState σ}
    {r : Except DecodeError β × Machine σ} (h : Mirrors (m.at_ st f m.depth) Q K l r) :
    Mirrors m Q K l r := by
  cases h with
  | returned same => exact .returned same
  | threw kept balanced => exact .threw kept balanced

theorem Mirrors.of_resume (st : DecodeState σ) {l : Except DecodeError α × DecodeState σ}
    {r : Except DecodeError β × Machine σ} (h : Mirrors (m.resume st) Q K l r) :
    Mirrors m Q K l r :=
  Mirrors.of_at (f := m.inner) h

theorem Mirrors.bind {left : DecodeM σ α} {right : MachineM σ β} {next : α → DecodeM σ α'}
    {next' : β → MachineM σ β'} (first : Mirrors m Q K (left.ending st) (ending right m))
    (rest : ∀ a b st' f, Returns left st a st' → Q a b f →
      Mirrors (m.at_ st' f m.depth) Q' K' ((next a).ending st')
        (ending (next' b) (m.at_ st' f m.depth)))
    (keeps : ∀ f, K f → K' f) :
    Mirrors m Q' K' ((left >>= next).ending st) (ending (right >>= next') m) := by
  rw [DecodeM.ending_bind, ending_bind]
  generalize ended : left.ending st = l at first ⊢
  generalize ending right m = r at first ⊢
  cases first with
  | returned same => exact (rest _ _ _ _ ended same).of_at
  | threw kept balanced => exact .threw (keeps _ kept) balanced

theorem Mirrors.outcome_bind {left : DecodeM σ α} {right : MachineM σ β}
    {next : Except DecodeError α → DecodeM σ α'} {next' : Except DecodeError β → MachineM σ β'}
    (first : Mirrors m Q K (left.ending st) (ending right m))
    (ok : ∀ a b st' f, Returns left st a st' → Q a b f →
      Mirrors (m.at_ st' f m.depth) Q' K' ((next (.ok a)).ending st')
        (ending (next' (.ok b)) (m.at_ st' f m.depth)))
    (error : ∀ e st' f depth, Throws left st e st' → K f →
      (e.isMismatch = true → depth = m.depth) →
      Mirrors m Q' K' ((next (.error e)).ending st')
        (ending (next' (.error e)) (m.at_ st' f depth))) :
    Mirrors m Q' K' ((DecodeM.outcome left >>= next).ending st)
      (ending (outcome right >>= next') m) := by
  have leftEnds : ∀ {γ : Type} (step : DecodeM σ γ), (DecodeM.outcome step).ending st =
      (.ok (step.ending st).1, (step.ending st).2) := fun _ => rfl
  have rightEnds : ∀ {γ : Type} (step : MachineM σ γ), ending (outcome step) m =
      (.ok (ending step m).1, (ending step m).2) := fun _ => rfl
  rw [DecodeM.ending_bind, ending_bind, leftEnds, rightEnds]
  generalize ended : left.ending st = l at first ⊢
  generalize ending right m = r at first ⊢
  cases first with
  | returned same => exact (ok _ _ _ _ ended same).of_at
  | threw kept balanced => exact error _ _ _ _ ended kept balanced

/-- A failure that leaves the stack alone. -/
theorem Mirrors.failed {e : DecodeError} (kept : K m.inner) :
    Mirrors m Q K (.error e, st) (.error e, m.resume st) := by
  show Mirrors m Q K (.error e, st) (.error e, m.at_ st m.inner m.depth)
  exact .threw kept fun _ => rfl

/-- Something that the decoder alone does to its value. -/
theorem Mirrors.map_left {left : DecodeM σ α} {g : α → α'} {P : α' → β → Frame → Prop}
    {r : Except DecodeError β × Machine σ} (h : Mirrors m Q K (left.ending st) r)
    (implies : ∀ a b f, Q a b f → P (g a) b f) :
    Mirrors m P K ((left >>= fun a => Pure.pure (g a)).ending st) r := by
  rw [DecodeM.ending_bind]
  generalize left.ending st = l at h
  cases h with
  | returned same => exact .returned (implies _ _ _ same)
  | threw kept balanced => exact .threw kept balanced

/-- A step inside a frame of its own. However it ends, the frame is closed again, and the bits that
were unread before are unread again. -/
theorem Mirrors.framed {m' : Machine σ} {close : MachineM σ γ} {frame : Frame → γ}
    {left : DecodeM σ α} {right : MachineM σ β} {next : Except DecodeError α → DecodeM σ α'}
    {next' : Except DecodeError β → γ → MachineM σ β'} (level : m'.depth = m.depth)
    (closes : ∀ (st : DecodeState σ) f k, ending close (m'.at_ st f k) =
      (.ok (frame f), m.at_ { st with pending := m.bits } m.inner k))
    (first : Mirrors m' Q K (left.ending st) (ending right m'))
    (ok : ∀ a b (st' : DecodeState σ) f, Q a b f →
      Mirrors (m.resume { st' with pending := m.bits }) Q' K'
        ((next (.ok a)).ending { st' with pending := m.bits })
        (ending (next' (.ok b) (frame f)) (m.resume { st' with pending := m.bits })))
    (error : ∀ e (st' : DecodeState σ) f k, (e.isMismatch = true → k = m.depth) →
      Mirrors m Q' K' ((next (.error e)).ending { st' with pending := m.bits })
        (ending (next' (.error e) (frame f)) (m.at_ { st' with pending := m.bits } m.inner k))) :
    Mirrors m Q' K' ((DecodeM.outcome left >>= fun r => DecodeM.setPending m.bits >>= fun _ =>
      next r).ending st) (ending (outcome right >>= fun r => close >>= fun f => next' r f) m') := by
  have leftEnds : ∀ {γ : Type} (step : DecodeM σ γ), (DecodeM.outcome step).ending st =
      (.ok (step.ending st).1, (step.ending st).2) := fun _ => rfl
  have rightEnds : ∀ {γ : Type} (step : MachineM σ γ), ending (outcome step) m' =
      (.ok (ending step m').1, (ending step m').2) := fun _ => rfl
  have setting : ∀ st' : DecodeState σ, (DecodeM.setPending m.bits).ending st' =
      (.ok (), { st' with pending := m.bits }) := fun _ => rfl
  rw [DecodeM.ending_bind, ending_bind, leftEnds, rightEnds]
  generalize left.ending st = l at first ⊢
  generalize ending right m' = r at first ⊢
  cases first with
  | @returned a b st' f same =>
    dsimp only
    rw [DecodeM.ending_bind, ending_bind, setting, closes, level]
    exact .of_resume _ (ok a b st' f same)
  | @threw e st' f k kept balanced =>
    dsimp only
    rw [DecodeM.ending_bind, ending_bind, setting, closes]
    exact error e st' f k fun mismatch => (balanced mismatch).trans level

/-- A step of the decoder at the place of the machine, in front of others. -/
theorem Mirrors.atPlace_bind (step : Place → DecodeM σ γ) {next : γ → DecodeM σ α}
    {next' : γ → MachineM σ β}
    (rest : ∀ a st', Returns (step m.place) m.state a st' →
      Mirrors (m.resume st') Q K ((next a).ending st') (ending (next' a) (m.resume st')))
    (kept : K m.inner) :
    Mirrors m Q K ((step m.place >>= next).ending m.state) (ending (atPlace step >>= next') m) := by
  rw [DecodeM.ending_bind, ending_bind, ending_atPlace]
  rcases ended : (step m.place).ending m.state with ⟨e | a, st'⟩
  · exact .failed kept
  · exact (rest a st' ended).of_at

/-- Something that is done to a value alone. -/
theorem Mirrors.map {left : DecodeM σ α} {right : MachineM σ α} (g : α → γ)
    (h : Mirrors m (Untouched m) K (left.ending st) (ending right m)) :
    Mirrors m (Untouched m) K ((left >>= fun a => Pure.pure (g a)).ending st)
      (ending (right >>= fun a => Pure.pure (g a)) m) :=
  h.bind (fun _ _ _ _ _ same => .returned ⟨congrArg g same.1, same.2⟩) fun _ => id

theorem Mirrors.atPlace {Q : α → α → Frame → Prop} (step : Place → DecodeM σ α)
    (same : ∀ a, Q a a m.inner) (kept : K m.inner) :
    Mirrors m Q K ((step m.place).ending m.state) (ending (Machine.atPlace step) m) := by
  rw [ending_atPlace]
  rcases (step m.place).ending m.state with ⟨e | a, st'⟩
  · exact .failed kept
  · exact .returned (same a)

theorem Mirrors.pure {a : α} {b : β} (same : Q a b m.inner) :
    Mirrors m Q K ((Pure.pure a : DecodeM σ α).ending m.state) (ending (Pure.pure b) m) :=
  .returned same

/-- A step that fails, in front of others. -/
theorem Mirrors.fails {s : Schema} {n : Node s} {offset : Nat} {failure : Failure}
    (kept : K m.inner) :
    Mirrors m Q K ((fail n offset failure : DecodeM σ α).ending m.state)
      (ending (Machine.atPlace fun _ => fail n offset failure : MachineM σ β) m) :=
  .failed kept

theorem Mirrors.ite {m' : Machine σ} {c : Prop} [Decidable c] {yes no : DecodeM σ α}
    {yes' no' : MachineM σ β}
    (holds : c → Mirrors m Q K (yes.ending st) (ending yes' m'))
    (fails : ¬ c → Mirrors m Q K (no.ending st) (ending no' m')) :
    Mirrors m Q K ((if c then yes else no).ending st) (ending (if c then yes' else no') m') := by
  by_cases h : c
  · rw [if_pos h, if_pos h]
    exact holds h
  · rw [if_neg h, if_neg h]
    exact fails h

/-- A value that is completed belongs to the place of the steps after it. -/
theorem Mirrors.complete_bind {v : Value} {left : DecodeM σ α} {next : Unit → MachineM σ β}
    (rest : Mirrors (m.at_ m.state (m.inner.complete v) m.depth) Q K (left.ending m.state)
      (ending (next ()) (m.at_ m.state (m.inner.complete v) m.depth))) :
    Mirrors m Q K (left.ending m.state) (ending (complete v >>= next) m) :=
  rest.of_at

/-! ## What an attempt is taken back to -/

/-- What the machine remembers of a mark. -/
def checkpointOf (mark : Mark) : Checkpoint := ⟨mark.position, mark.pending, mark.warnings.length⟩

section Checkpoints

variable [ByteSource σ] {s : Schema} {n : Node s}

theorem checkpoint_mirrors :
    Mirrors m (fun mark c f => c = checkpointOf mark ∧ f = m.inner) (· = m.inner)
      ((Mark.take n).ending m.state) (ending (checkpoint n) m) :=
  .atPlace_bind (fun _ => tell n) (fun _ _ _ => .returned ⟨rfl, rfl⟩) rfl

/-- To cut the warnings to their number is to put those back that there were, if there are only
more of them now. -/
theorem rewind_mirrors {mark : Mark} (grown : ∃ more, m.warnings = more ++ mark.warnings) :
    Mirrors m (Untouched m) (· = m.inner) ((mark.rewind n).ending m.state)
      (ending (rewind n (checkpointOf mark)) m) := by
  refine .atPlace_bind (fun _ => seek n mark.position mark.position) ?_ rfl
  intro _ st' moved
  have kept : st'.warnings = m.warnings := by
    simp only [seek, DecodeM.returns_bind, DecodeM.returns_pure, DecodeM.returns_onSource] at moved
    obtain ⟨_, _, ⟨source, -, rfl⟩, -, rfl⟩ := moved
    rfl
  obtain ⟨more, grown⟩ := grown
  have cut : st'.warnings.drop (st'.warnings.length - mark.warnings.length) = mark.warnings := by
    rw [kept, grown, List.length_append, Nat.add_sub_cancel, List.drop_left]
  show Mirrors (m.resume st') (Untouched m) (· = m.inner)
    (.ok (), { st' with pending := mark.pending, warnings := mark.warnings })
    (.ok (), { m.resume st' with
      bits := mark.pending
      warnings := st'.warnings.drop (st'.warnings.length - mark.warnings.length) })
  rw [cut]
  exact .returned ⟨rfl, rfl⟩

end Checkpoints

/-! ## Containers -/

open Decoder (Alternative exhausted)

variable [ByteSource σ] [SliceLike σ] {d : Decoder σ} {child : d.DecodeChild}
  {attempt : Node d.schema → MachineM σ Value} {depth : Nat}

/-- From the depth given, attempts at instances end on the machine as in the decoder. -/
def MirrorsChild (child : d.DecodeChild) (attempt : Node d.schema → MachineM σ Value)
    (depth : Nat) : Prop :=
  ∀ (m : Machine σ) n, m.depth = depth →
    Mirrors m (Untouched m) (· = m.inner) ((child m.place n).ending m.state) (ending (attempt n) m)

/-- Attempts only add to the warnings. -/
def OnlyWarns (child : d.DecodeChild) : Prop :=
  ∀ p n st, ∃ more, ((child p n).ending st).2.warnings = more ++ st.warnings

omit [ByteSource σ] [SliceLike σ] in
theorem OnlyWarns.grown (warns : OnlyWarns child) {p : Place} {n : Node d.schema}
    {st st' : DecodeState σ} {e : DecodeError} (failed : Throws (child p n) st e st') :
    ∃ more, st'.warnings = more ++ st.warnings := by
  obtain ⟨more, grown⟩ := warns p n st
  rw [failed] at grown
  exact ⟨more, grown⟩

/-- The place that comes back is that of the machine, as its content is decoded. -/
def Moved (m : Machine σ) (p : Place) (_ : Unit) (f : Frame) : Prop :=
  p = { m.place with inner := f }

omit [ByteSource σ] [SliceLike σ] in
theorem Mirrors.exhausted_bind {position : Nat} {next : Bool → DecodeM σ α}
    {next' : Bool → MachineM σ β}
    (rest : ∀ spent, Mirrors m Q K ((next spent).ending m.state) (ending (next' spent) m))
    (kept : K m.inner) :
    Mirrors m Q K ((exhausted m.place position >>= next).ending m.state)
      (ending (Machine.atPlace (fun p => exhausted p position) >>= next') m) := by
  refine .atPlace_bind (fun p => exhausted p position) ?_ kept
  intro spent st looked
  obtain ⟨-, rfl⟩ := Decoder.exhausted_returns.mp looked
  exact rest spent

section Containers

variable (mirrors : MirrorsChild child attempt depth) (warns : OnlyWarns child)

include mirrors warns

theorem repeatFrom_mirrors (n : Node d.schema) (min : Nat) (max : Option Nat) (room count : Nat)
    (deep : m.depth = depth) :
    Mirrors m (Moved m) (fun _ => True)
      ((d.repeatFrom child n min max room count m.place).ending m.state)
      (ending (repeatFrom d attempt n min max room count) m) := by
  induction room using Nat.strongRecOn generalizing m count with
  | ind room inductionHypothesis =>
    rw [repeatFrom.eq_def, Decoder.repeatFrom.eq_def]
    refine .ite (fun _ => .pure rfl) fun _ => ?_
    refine .bind checkpoint_mirrors ?_ fun _ _ => trivial
    rintro mark _ st _ taken ⟨rfl, rfl⟩
    obtain ⟨-, -, warned, -, still⟩ := Mark.take_returns taken
    refine .ite (fun _ => .exhausted_bind (m := m.resume st) (fun _ =>
      .ite (fun _ => .pure rfl) fun _ => ?_) trivial) (fun _ => ?_)
    -- One more instance is tried alike with and without the minimum.
    all_goals
      cases room with
      | zero => exact .fails trivial
      | succ room =>
        refine .outcome_bind (mirrors (m.resume st) n deep) ?_ ?_
        · rintro v _ st' _ - ⟨rfl, rfl⟩
          refine Mirrors.complete_bind (m := m.resume st') ?_
          refine .ite (fun _ => .pure rfl) fun _ => ?_
          exact inductionHypothesis room (Nat.lt_succ_self room) _ deep
        · rintro e st' _ k failed rfl balanced
          refine .ite (fun ends => ?_) fun _ => .threw trivial balanced
          simp only [Bool.and_eq_true] at ends
          obtain rfl := balanced ends.2
          have grown := warns.grown failed
          refine .of_resume st' (.atPlace_bind (m := m.resume st')
            (fun _ => record (.runEnded n.label count e)) ?_ trivial)
          intro _ st'' logged
          obtain rfl := DecodeM.returns_record.mp logged
          refine .bind (rewind_mirrors ?_) ?_ fun _ _ => trivial
          · rw [warned, ← still]
            exact grown
          · rintro _ _ last _ - ⟨-, rfl⟩
            exact .returned rfl

theorem decodeRepeated_mirrors (n : Node d.schema) (deep : m.depth = depth) :
    Mirrors m (Moved m) (fun _ => True) ((d.decodeRepeated child m.place n).ending m.state)
      (ending (decodeRepeated d attempt n) m) := by
  refine .atPlace_bind (fun _ => tell n) (fun offset st _ => ?_) trivial
  refine .atPlace_bind (m := m.resume st) (fun p => d.repeatBounds p n offset)
    (fun bounds st' _ => ?_) trivial
  exact repeatFrom_mirrors (m := m.resume st') mirrors warns n _ _ _ _ deep

theorem decodeDeclared_mirrors (ids : List ElementId) (deep : m.depth = depth) :
    Mirrors m (Moved m) (fun _ => True) ((d.decodeDeclared child ids m.place).ending m.state)
      (ending (decodeDeclared d attempt ids) m) := by
  induction ids generalizing m with
  | nil => exact .pure rfl
  | cons id rest inductionHypothesis =>
    simp only [decodeDeclared, Decoder.decodeDeclared]
    refine .atPlace_bind (fun p => d.node id p.inner.start) (fun n st _ => ?_) trivial
    refine .atPlace_bind (m := m.resume st) (fun _ => d.isDisabled n) (fun off st _ => ?_) trivial
    refine .ite (fun _ => ?_) fun _ => ?_
    · refine .atPlace_bind (m := m.resume st) (fun _ => record (.disabled n.label))
        (fun _ st _ => ?_) trivial
      exact inductionHypothesis (m := m.resume st) deep
    · refine .bind (decodeRepeated_mirrors (m := m.resume st) mirrors warns n deep) ?_ fun _ _ =>
        trivial
      rintro p _ st f - rfl
      exact inductionHypothesis (m := m.at_ st f m.depth) deep

theorem firstMatch_mirrors (n : Node d.schema) (mark : Mark) (choices : List (Alternative d.schema))
    (deep : m.depth = depth) (warned : m.warnings = mark.warnings) :
    Mirrors m (Untouched m) (· = m.inner)
      ((d.firstMatch child m.place n mark choices).ending m.state)
      (ending (firstMatch d attempt n (checkpointOf mark) choices) m) := by
  induction choices generalizing m with
  | nil => exact .pure ⟨rfl, rfl⟩
  | cons a rest inductionHypothesis =>
    simp only [firstMatch, Decoder.firstMatch]
    refine .ite (fun _ => (inductionHypothesis deep warned).map _) fun _ => ?_
    refine .outcome_bind (mirrors m a.node deep) ?_ ?_
    · rintro v _ st _ - ⟨rfl, rfl⟩
      exact .returned ⟨rfl, rfl⟩
    · rintro e st _ k failed rfl balanced
      cases mismatch : e.isMismatch with
      | false =>
        simp only [mismatch, Bool.not_false, if_true]
        exact .threw rfl balanced
      | true =>
        simp only [mismatch, Bool.not_true, Bool.false_eq_true, if_false]
        obtain rfl := balanced mismatch
        have grown := warns.grown failed
        rw [show m.state.warnings = mark.warnings from warned] at grown
        refine .of_resume st (.atPlace_bind (m := m.resume st)
          (fun _ => record (.rejected a.node.label mark.position e)) ?_ rfl)
        intro _ st' logged
        obtain rfl := DecodeM.returns_record.mp logged
        refine .bind (rewind_mirrors grown) ?_ fun _ => id
        rintro _ _ last _ rewound ⟨-, rfl⟩
        exact (inductionHypothesis (m := m.resume last) deep (Mark.rewind_returns rewound).2).map _

theorem decodeChoices_mirrors (n : Node d.schema) (room : Nat)
    (choices : List (Alternative d.schema)) (deep : m.depth = depth) :
    Mirrors m (fun x choices f => x.2 = choices ∧ x.1 = { m.place with inner := f }) (fun _ => True)
      ((d.decodeChoices child n room m.place choices).ending m.state)
      (ending (decodeChoices d attempt n room choices) m) := by
  induction room using Nat.strongRecOn generalizing m choices with
  | ind room inductionHypothesis =>
    rw [decodeChoices.eq_def, Decoder.decodeChoices.eq_def]
    refine .bind checkpoint_mirrors ?_ fun _ _ => trivial
    rintro mark _ st _ taken ⟨rfl, rfl⟩
    obtain ⟨-, -, warned, -, still⟩ := Mark.take_returns taken
    refine .exhausted_bind (m := m.resume st)
      (fun _ => .ite (fun _ => .pure ⟨rfl, rfl⟩) fun _ => ?_) trivial
    refine .bind (firstMatch_mirrors (m := m.resume st) mirrors warns n mark choices deep
      (still.trans warned.symm)) ?_ fun _ _ => trivial
    rintro found _ st' _ - ⟨rfl, rfl⟩
    cases found with
    | none => exact .returned ⟨rfl, rfl⟩
    | some x =>
      refine Mirrors.complete_bind (m := m.resume st') ?_
      refine .ite (fun _ => .pure ⟨rfl, rfl⟩) fun _ => ?_
      cases room with
      | zero => exact .fails trivial
      | succ room => exact inductionHypothesis room (Nat.lt_succ_self room) _ deep

theorem decodeAnyOf_mirrors (n : Node d.schema) (children : List ElementId)
    (deep : m.depth = depth) :
    Mirrors m (Moved m) (fun _ => True) ((d.decodeAnyOf child n children m.place).ending m.state)
      (ending (decodeAnyOf d attempt n children) m) := by
  refine .atPlace_bind (fun _ => tell n) (fun offset st _ => ?_) trivial
  refine .atPlace_bind (m := m.resume st) (fun p => d.alternatives p offset children)
    (fun choices st _ => ?_) trivial
  refine .bind (decodeChoices_mirrors (m := m.resume st) mirrors warns n _ choices deep) ?_
    fun _ _ => trivial
  rintro ⟨p, choices⟩ _ st f - ⟨rfl, rfl⟩
  have checked := Mirrors.atPlace (Q := fun _ _ f' => f' = f) (K := fun _ => True)
    (m := m.at_ st f m.depth) (fun _ => d.checkMinimums offset choices) (fun _ => rfl) trivial
  refine checked.map_left ?_
  rintro _ _ _ rfl
  rfl

theorem decodeContent_mirrors (n : Node d.schema) (children : List ElementId) (order : ChildOrder)
    (deep : m.depth = depth) :
    Mirrors m (Moved m) (fun _ => True)
      ((d.decodeContent child n children order m.place).ending m.state)
      (ending (decodeContent d attempt n children order) m) := by
  cases order with
  | declared => exact decodeDeclared_mirrors mirrors warns children deep
  | anyOf => exact decodeAnyOf_mirrors mirrors warns n children deep

theorem decodeContainer_mirrors (n : Node d.schema) (definition : Option ElementId)
    (children : List ElementId) (order : ChildOrder) (declared : Option Nat)
    (deep : m.depth = depth) :
    Mirrors m (Untouched m) (· = m.inner)
      ((d.decodeContainer child m.place n definition children order declared).ending m.state)
      (ending (decodeContainer d id attempt n definition children order declared) m) := by
  refine .atPlace_bind (fun _ => align) (fun _ begun aligned => ?_) rfl
  refine .atPlace_bind (m := m.resume begun) (fun _ => tell n) (fun start told tells => ?_) rfl
  refine .atPlace_bind (m := m.resume told) (fun p => d.containerStop p n start declared)
    (fun stop opened stops => ?_) rfl
  refine .atPlace_bind (m := m.resume opened) (fun _ => record (.opened n.label start stop))
    (fun _ st logged => ?_) rfl
  have cleared : st.pending = [] := by
    obtain rfl := DecodeM.returns_align.mp aligned
    obtain ⟨-, still⟩ := DecodeM.tell_returns tells
    obtain ⟨-, -, rfl⟩ := Decoder.containerStop_returns.mp stops
    obtain rfl := DecodeM.returns_record.mp logged
    exact congrArg Reading.pending still
  have lets : (align : DecodeM σ Unit) = DecodeM.setPending (m.resume st).bits := by
    show DecodeM.setPending [] = DecodeM.setPending st.pending
    rw [cleared]
  have state : ((m.resume st).push (.container n.id definition start stop)).state = st := by
    show DecodeState.mk st.source [] st.warnings st.events = st
    rw [← cleared]
  have content := decodeContent_mirrors (m := (m.resume st).push (.container n.id definition start
    stop)) mirrors warns n children order deep
  rw [state] at content
  rw [enter_bind, lets]
  refine .framed (m := m.resume st) rfl (fun _ _ _ => rfl) content ?_ ?_
  · rintro _ _ st' f rfl
    refine .atPlace_bind (m := m.resume { st' with pending := st.pending })
      (fun _ => tellAt n start) (fun position last _ => ?_) rfl
    refine .atPlace_bind (m := m.resume last)
      (fun _ => d.containerLength n start (position - start) declared) (fun len last _ => ?_) rfl
    exact .returned ⟨rfl, rfl⟩
  · intro e st' f k balanced
    refine .threw rfl fun mismatch => balanced ?_
    -- A cause that fails the whole decode passes through a container as it is.
    cases fatal : e.isMismatch with
    | true => rfl
    | false =>
      rw [Decoder.contentFailure_of_fatal fatal, fatal] at mismatch
      exact mismatch

theorem decodeStructure_mirrors (n definition : Node d.schema) (deep : m.depth = depth) :
    Mirrors m (Untouched m) (· = m.inner)
      ((d.decodeStructure child m.place n definition).ending m.state)
      (ending (decodeStructure d id attempt n definition) m) := by
  refine .atPlace_bind (fun _ => align) (fun _ st _ => ?_) rfl
  refine .atPlace_bind (m := m.resume st) (fun _ => tell n) (fun offset st _ => ?_) rfl
  refine .atPlace_bind (m := m.resume st) (fun _ => resolved n offset n.order)
    (fun order st _ => ?_) rfl
  refine .atPlace_bind (m := m.resume st) (fun p => d.structureLength p n offset)
    (fun declared st _ => ?_) rfl
  exact decodeContainer_mirrors (m := m.resume st) mirrors warns n _ _ order declared deep

omit [ByteSource σ] [SliceLike σ] warns in
theorem decodeGrammarRef_mirrors (n : Node d.schema) (offset : Nat) (deep : m.depth = depth) :
    Mirrors m (Untouched m) (· = m.inner)
      ((d.decodeGrammarRef child m.place n offset).ending m.state)
      (ending (decodeGrammarRef d attempt n offset) m) := by
  refine .atPlace_bind (fun _ => resolved n offset n.disabled) (fun off st _ => ?_) rfl
  refine .ite (fun _ => .pure ⟨rfl, rfl⟩) fun _ => ?_
  refine .atPlace_bind (m := m.resume st) (fun _ => resolved n offset (n.lookup .grammar))
    (fun target st _ => ?_) rfl
  cases target with
  | none => exact .fails (m := m.resume st) rfl
  | some target =>
    refine .atPlace_bind (m := m.resume st) (fun _ => d.node target offset) (fun grammar st _ => ?_)
      rfl
    cases kind : grammar.kind with
    | grammar => exact mirrors (m.resume st) grammar deep
    | _ => exact .fails (m := m.resume st) rfl

end Containers

/-! ## Offsets -/

section Offsets

variable (mirrors : MirrorsChild child attempt depth)

include mirrors

theorem follow_mirrors (n : Node d.schema) (offset target : Nat) (element : ElementId)
    (deep : m.depth = depth) :
    Mirrors m (Untouched m) (· = m.inner)
      ((d.follow child m.place n offset target element).ending m.state)
      (ending (follow d id attempt n offset target element) m) := by
  refine .ite (fun _ => .atPlace_bind (fun _ => fail n offset (.pointerLoop target))
    (fun _ _ h => absurd h DecodeM.returns_fail) rfl) fun _ => ?_
  refine .atPlace_bind (fun _ => d.node element offset) (fun referenced st _ => ?_) rfl
  refine .atPlace_bind (m := m.resume st) (fun p => d.referencedSize? p n offset)
    (fun size st _ => ?_) rfl
  refine .atPlace_bind (m := m.resume st) (fun p => d.regionStop p n offset target size)
    (fun stop st _ => ?_) rfl
  refine .atPlace_bind (m := m.resume st) (fun _ => tellAt n offset) (fun back st _ => ?_) rfl
  refine .atPlace_bind (m := m.resume st)
    (fun _ => record (.followed n.label referenced.label target)) (fun _ st _ => ?_) rfl
  refine .atPlace_bind (m := m.resume st) (fun _ => seek n offset target) (fun _ st _ => ?_) rfl
  -- The side tree starts on a byte in the decoder as well, and in a frame of its own here.
  have side := mirrors { (m.resume st).push (.scope element target stop) with
    following := (target, element) :: m.following } referenced deep
  show Mirrors (m.resume st) (Untouched m) (· = m.inner)
    ((DecodeM.outcome (child (Decoder.sidePlace m.place element target stop) referenced) >>=
      fun r => DecodeM.setPending (m.resume st).bits >>= fun _ =>
        seek n offset back >>= fun _ => liftExcept r).ending { st with pending := [] })
    (ending (outcome (attempt referenced) >>= fun r => leaveSide id >>= fun _ =>
      atPlace (fun _ => seek n offset back) >>= fun _ => liftExcept r)
      { (m.resume st).push (.scope element target stop) with
        following := (target, element) :: m.following })
  refine .framed (m := m.resume st) rfl (fun _ _ _ => rfl) side ?_ ?_
  · rintro v _ st' _ ⟨rfl, rfl⟩
    refine .atPlace_bind (m := m.resume { st' with pending := st.pending })
      (fun _ => seek n offset back) (fun _ last _ => ?_) rfl
    exact .returned ⟨rfl, rfl⟩
  · intro e st' f k balanced
    -- The cursor is put back at any depth.
    obtain ⟨last, sought⟩ :=
      DecodeM.seek_succeeds n offset back { st' with pending := (m.resume st).bits }
    have left : (seek n offset back).ending { st' with pending := (m.resume st).bits } =
        (.ok (), last) := sought
    have right : (seek n offset back).ending ((m.resume st).at_
        { st' with pending := (m.resume st).bits } (m.resume st).inner k).state = (.ok (), last) :=
      sought
    rw [DecodeM.ending_bind, ending_bind, ending_atPlace, left, right]
    exact .threw rfl balanced

theorem followTarget_mirrors (n : Node d.schema) (offset : Nat) (target : Option Nat)
    (deep : m.depth = depth) :
    Mirrors m (Untouched m) (· = m.inner)
      ((d.followTarget child m.place n offset target).ending m.state)
      (ending (followTarget d id attempt n offset target) m) := by
  refine .atPlace_bind (fun _ => resolved n offset (n.lookup .references))
    (fun element st _ => ?_) rfl
  cases target with
  | none => exact .pure (m := m.resume st) ⟨rfl, rfl⟩
  | some target =>
    cases element with
    | none => exact .pure (m := m.resume st) ⟨rfl, rfl⟩
    | some element =>
      exact (follow_mirrors (m := m.resume st) mirrors n offset target element deep).map some

theorem decodeOffset_mirrors (n : Node d.schema) (deep : m.depth = depth) :
    Mirrors m (Untouched m) (· = m.inner) ((d.decodeOffset child m.place n).ending m.state)
      (ending (decodeOffset d id attempt n) m) := by
  refine .atPlace_bind (fun _ => tell n) (fun position st _ => ?_) rfl
  refine .atPlace_bind (m := m.resume st) (fun _ => resolved n position n.byteOrder)
    (fun order st _ => ?_) rfl
  refine .atPlace_bind (m := m.resume st) (fun p => d.readRaw p n order) (fun r st _ => ?_) rfl
  refine .atPlace_bind (m := m.resume st) (fun p => d.targetAddress p n r.offset r.raw)
    (fun target st _ => ?_) rfl
  exact (followTarget_mirrors (m := m.resume st) mirrors n r.offset target deep).map _

end Offsets

/-! ## Elements -/

/-- The machine one level deeper. -/
def deeper (m : Machine σ) : Machine σ := { m with depth := m.depth + 1 }

omit [ByteSource σ] [SliceLike σ] in
theorem settled_mirrors {left : Except DecodeError α × DecodeState σ} {step : MachineM σ β}
    (h : Mirrors m.deeper Q K left (ending step m.deeper)) :
    Mirrors m Q K left (ending (settled step) m.deeper) := by
  have ends : ending (outcome step) m.deeper =
      (.ok (ending step m.deeper).1, (ending step m.deeper).2) := rfl
  rw [settled, ending_bind, ends]
  generalize ending step m.deeper = r at h
  cases h with
  | returned same => exact .returned same
  | threw kept balanced =>
    refine .threw kept fun mismatch => ?_
    rw [balanced mismatch]
    rfl

omit [ByteSource σ] [SliceLike σ] in
/-- A step from which an attempt does not come back up, if it fails, and which may do so because it
fails only in ways that end the whole decode. -/
theorem Mirrors.early_bind (step : DecodeM σ γ) {next : γ → DecodeM σ α} {next' : γ → MachineM σ β}
    (fatal : ∀ {e st'}, Throws step m.state e st' → e.isMismatch = false)
    (rest : ∀ a st', Returns step m.state a st' →
      Mirrors (m.resume st') Q K ((next a).ending st') (ending (next' a) (m.resume st').deeper))
    (kept : K m.inner) :
    Mirrors m Q K ((step >>= next).ending m.state)
      (ending (Machine.atPlace (fun _ => step) >>= next') m.deeper) := by
  have ends : ending (Machine.atPlace fun _ => step) m.deeper =
      ((step.ending m.state).1, (m.resume (step.ending m.state).2).deeper) := rfl
  rw [DecodeM.ending_bind, ending_bind, ends]
  rcases ended : step.ending m.state with ⟨e | a, st'⟩
  · refine .threw (m := m) kept fun mismatch => ?_
    rw [fatal ended] at mismatch
    cases mismatch
  · exact .of_resume st' (rest a st' ended)

section Elements

variable (warns : OnlyWarns child)

include warns

theorem decodeKind_mirrors (n : Node d.schema) (offset : Nat)
    (mirrors : MirrorsChild child attempt (m.depth + 1)) :
    Mirrors m (Untouched m) (· = m.inner) ((d.decodeKind child m.place n offset).ending m.state)
      (ending (decodeKind d id attempt n offset) m.deeper) := by
  unfold decodeKind Decoder.decodeKind
  cases kind : n.kind with
  | grammar body =>
    exact settled_mirrors (decodeContainer_mirrors (m := m.deeper) mirrors warns n _ _ _ _ rfl)
  | grammarRef =>
    exact settled_mirrors (decodeGrammarRef_mirrors (m := m.deeper) mirrors n offset rfl)
  | «structure» =>
    exact settled_mirrors (decodeStructure_mirrors (m := m.deeper) mirrors warns n n rfl)
  | structRef =>
    refine .early_bind (resolved n offset (n.lookup .structure?)) Decoder.resolved_throws
      (fun target st _ => ?_) rfl
    cases target with
    | none => exact .threw (m := m.resume st) rfl nofun
    | some target =>
      refine .early_bind (m := m.resume st) (d.node target offset) Decoder.node_throws
        (fun definition st _ => ?_) rfl
      cases defines : definition.kind with
      | «structure» =>
        refine settled_mirrors (m := m.resume st) ?_
        exact decodeStructure_mirrors (m := (m.resume st).deeper) mirrors warns n definition rfl
      | _ => exact settled_mirrors (m := m.resume st) (.fails rfl)
  | number =>
    exact settled_mirrors (.atPlace (m := m.deeper) (fun p => d.decodeNumber p n)
      (fun _ => ⟨rfl, rfl⟩) rfl)
  | string =>
    exact settled_mirrors (.atPlace (m := m.deeper) (fun p => d.decodeString p n)
      (fun _ => ⟨rfl, rfl⟩) rfl)
  | binary =>
    exact settled_mirrors (.atPlace (m := m.deeper) (fun p => d.decodeBinary p n)
      (fun _ => ⟨rfl, rfl⟩) rfl)
  | custom =>
    refine .early_bind (resolved n offset (n.lookup .script)) Decoder.resolved_throws
      (fun script st _ => ?_) rfl
    cases script with
    | none => exact settled_mirrors (m := m.resume st) (.fails rfl)
    | some script =>
      exact settled_mirrors (m := m.resume st) (.atPlace (m := (m.resume st).deeper)
        (fun p => d.decodeScripted p n script) (fun _ => ⟨rfl, rfl⟩) rfl)
  | offset =>
    exact settled_mirrors (decodeOffset_mirrors (m := m.deeper) mirrors n rfl)
  | script =>
    exact settled_mirrors (.atPlace (m := m.deeper) (fun p => d.decodeScripted p n n.id)
      (fun _ => ⟨rfl, rfl⟩) rfl)

end Elements

/-- The machine goes as deep as it has fuel for and the limit lets it go, and on the way it does
what the decoder does. -/
theorem decodeWithin_mirrors (d : Decoder σ) (fuel : Nat) (m : Machine σ) (n : Node d.schema) :
    Mirrors m (Untouched m) (· = m.inner)
      ((d.decodeOne (min fuel (d.options.maxDepth - m.depth)) m.place n).ending m.state)
      (ending (decodeWithin d id fuel n) m) := by
  induction fuel generalizing m n with
  | zero =>
    rw [Nat.zero_min]
    refine .unwatched (.atPlace_bind (fun _ => record (.tried n.kind.name)) (fun _ st _ => ?_) rfl)
    refine .atPlace_bind (m := m.resume st) (fun _ => tell n) (fun offset st _ => ?_) rfl
    exact .fails (m := m.resume st) rfl
  | succ fuel inductionHypothesis =>
    by_cases limit : d.options.maxDepth ≤ m.depth
    · rw [Nat.sub_eq_zero_of_le limit, Nat.min_zero]
      refine .unwatched
        (.atPlace_bind (fun _ => record (.tried n.kind.name)) (fun _ st _ => ?_) rfl)
      refine .atPlace_bind (m := m.resume st) (fun _ => tell n) (fun offset st _ => ?_) rfl
      show Mirrors (m.resume st) _ _ _
        (ending (if d.options.maxDepth ≤ m.depth then _ else _) (m.resume st))
      rw [if_pos limit]
      exact .fails (m := m.resume st) rfl
    · have left : min (fuel + 1) (d.options.maxDepth - m.depth) =
          min fuel (d.options.maxDepth - (m.depth + 1)) + 1 := by omega
      have children : MirrorsChild (d.decodeOne (min fuel (d.options.maxDepth - (m.depth + 1))))
          (decodeWithin d id fuel) (m.depth + 1) := by
        intro m' n' level
        rw [← level]
        exact inductionHypothesis m' n'
      have warns : OnlyWarns (d.decodeOne (min fuel (d.options.maxDepth - (m.depth + 1)))) :=
        fun _ _ st => Decoder.decodeOne_warnings _ st
      rw [left]
      refine .unwatched
        (.atPlace_bind (fun _ => record (.tried n.kind.name)) (fun _ st _ => ?_) rfl)
      refine .atPlace_bind (m := m.resume st) (fun _ => tell n) (fun offset st _ => ?_) rfl
      show Mirrors (m.resume st) _ _ _
        (ending (if d.options.maxDepth ≤ m.depth then _ else _) (m.resume st))
      rw [if_neg limit]
      exact decodeKind_mirrors (m := m.resume st) warns n offset children

/-- The machine ends as the decoder does. -/
theorem ending_decodeWithin (fuel : Nat) (n : Node d.schema) :
    ((ending (decodeWithin d id fuel n) m).1, (ending (decodeWithin d id fuel n) m).2.state) =
      (d.decodeOne (min fuel (d.options.maxDepth - m.depth)) m.place n).ending m.state := by
  have mirrors := decodeWithin_mirrors d fuel m n
  generalize (d.decodeOne (min fuel (d.options.maxDepth - m.depth)) m.place n).ending m.state = l
    at mirrors ⊢
  generalize ending (decodeWithin d id fuel n) m = r at mirrors ⊢
  cases mirrors with
  | returned same => rw [same.1]; rfl
  | threw => rfl

/-- However an attempt ends, the stack is what it was, but for the unread bits of the innermost
frame. -/
theorem stack_decodeWithin (fuel : Nat) (n : Node d.schema) :
    (ending (decodeWithin d id fuel n) m).2.inner = m.inner ∧
      (ending (decodeWithin d id fuel n) m).2.outer = m.outer := by
  have mirrors := decodeWithin_mirrors d fuel m n
  generalize (d.decodeOne (min fuel (d.options.maxDepth - m.depth)) m.place n).ending m.state = l
    at mirrors
  generalize ending (decodeWithin d id fuel n) m = r at mirrors ⊢
  cases mirrors with
  | returned same => exact ⟨same.2, rfl⟩
  | threw kept => exact ⟨kept, rfl⟩

end BinaryTemplate.Machine
