import BinaryTemplate.Proofs.Attempts
import BinaryTemplate.Proofs.Detached
import BinaryTemplate.Proofs.ElementCongruence

/-!
# Shadowed runs

A run of the detached template is followed along a run of the template that succeeds. It echoes each
step of that run from a state with the same reading, or it is stopped at an offset: the reference of
an offset may hide a cycle of links behind it, and with the reference taken out the lookup runs into
that cycle. Which of the two happens can be seen in the tree that the run of the template comes to.

The rules below are about the ways in which a decoder puts steps together.
-/

namespace BinaryTemplate

open DecodeM

namespace Schema

/-- The element is an offset that looks for its reference along a cycle of links once it has none of
its own. -/
structure Strands (s : Schema) (id : ElementId) (cause : CycleError) : Prop where
  offset : ∃ n : Node s, n.id = id ∧ ∃ body, n.kind = .offset body
  cycle : s.detached.lookup .references id = .error cause

/-- The element is no offset, or the lookup of its reference goes through without it. -/
def Safe (s : Schema) (id : ElementId) : Prop := ∀ cause, ¬ s.Strands id cause

theorem safe_of_kind {s : Schema} {n : Node s} (plain : ∀ body, n.kind ≠ .offset body) :
    s.Safe n.id := by
  rintro cause ⟨⟨m, same, body, kind⟩, -⟩
  obtain rfl := Node.eq_of_id same
  exact plain body kind

/-- The error with which an offset fails whose reference is looked for along a cycle. -/
def Stranded (s : Schema) (e : DecodeError) : Prop :=
  ∃ cause, s.Strands e.element cause ∧ e.failure = .cycle cause

theorem Stranded.fatal {s : Schema} {e : DecodeError} (stranded : s.Stranded e) :
    e.isMismatch = false := by
  obtain ⟨cause, -, cycle⟩ := stranded
  rw [DecodeError.isMismatch, cycle]
  rfl

end Schema

/-- A value of the element is in the tree, side trees left out. -/
def Value.Shows (v : Value) (id : ElementId) : Prop := ∃ w : Value, w.Under v ∧ w.element = id

/-- A value completed in the innermost frame shows the element. -/
def Place.Shows (p : Place) (id : ElementId) : Prop := ∃ v ∈ p.inner.completed, v.Shows id

theorem Value.shows_iff {v : Value} {id : ElementId} :
    v.Shows id ↔ id = v.element ∨ ∃ c ∈ v.children, c.Shows id := by
  constructor
  · rintro ⟨w, under, rfl⟩
    cases under with
    | self => exact .inl rfl
    | child member under => exact .inr ⟨_, member, w, under, rfl⟩
  · rintro (rfl | ⟨c, member, w, under, rfl⟩)
    · exact ⟨v, .self, rfl⟩
    · exact ⟨w, .child member under, rfl⟩

/-- A value without children shows its own element alone. -/
theorem Value.Shows.of_leaf {v : Value} {id : ElementId} (h : v.Shows id)
    (leaf : v.children = []) : id = v.element := by
  obtain same | ⟨c, member, -⟩ := shows_iff.mp h
  · exact same
  · rw [leaf] at member
    cases member

namespace Place

variable {p : Place} {id : ElementId}

theorem shows_complete_iff {v : Value} : (p.complete v).Shows id ↔ v.Shows id ∨ p.Shows id := by
  show (∃ w ∈ v :: p.inner.completed, w.Shows id) ↔ _
  simp only [List.mem_cons, exists_eq_or_imp]
  rfl

theorem Shows.completeAll (h : p.Shows id) (vs : List Value) : (p.completeAll vs).Shows id := by
  induction vs generalizing p with
  | nil => exact h
  | cons v rest inductionHypothesis =>
    exact inductionHypothesis (shows_complete_iff.mpr (.inr h))

/-- The children of the innermost frame show what the place shows. -/
theorem shows_iff_children : p.Shows id ↔ ∃ c ∈ p.inner.children, c.Shows id := by
  simp only [Shows, Frame.children, List.mem_reverse]

end Place

/-! ## Runs from the same reading -/

section Reading

variable {σ : Type} [ByteSource σ] [SliceLike σ]

/-- Two runs of one decoder that only have the reading in common. -/
def sameReading : Simulation σ σ where
  source left right := SliceLike.slice left = SliceLike.slice right
  warnings _ _ := True
  sameEvents := False
  excuses _ := False
  high := none
  fatal := Simulation.fatal_of_never
  tolerated _ _ _ _ := trivial

theorem related_sameReading {st st' : DecodeState σ} :
    sameReading.Related st st' ↔ st.reading = st'.reading := by
  constructor
  · rintro ⟨source, pending, -, -⟩
    have source : SliceLike.slice st.source = SliceLike.slice st'.source := source
    rw [DecodeState.reading, DecodeState.reading, SliceLike.reading, SliceLike.reading, source,
      pending]
  · intro same
    exact ⟨DecodeState.slice_eq_of_reading same, congrArg Reading.pending same, trivial, False.elim⟩

theorem whole_sameReading : (sameReading : Simulation σ σ).Whole := ⟨rfl, rfl⟩

theorem respects_sameReading : (sameReading : Simulation σ σ).Respects where
  moves _ _ _ := trivial
  onward _ _ _ _ _ := trivial
  tell := Decoder.keeps_sameSlice SliceLike.tell_slice
  seek position l r _ := Decoder.keeps_sameSlice (SliceLike.seek_slice (.start position)) l r
  readExact count l r _ := Decoder.keeps_sameSlice (SliceLike.readExact_slice count) l r

end Reading

/-! ## Shadowed runs -/

section Steps

variable {σ α β γ δ : Type} [ByteSource σ] [SliceLike σ]

/-- Where the left step returns, the right one returns a value that is related, from every state
with the same reading, and the readings are the same afterwards. -/
def Echoes (Q : α → β → Prop) (left : DecodeM σ α) (right : DecodeM σ β) : Prop :=
  ∀ st a after st₁, Returns left st a after → st.reading = st₁.reading →
    ∃ b after₁, Returns right st₁ b after₁ ∧ Q a b ∧ after.reading = after₁.reading

/-- Where the left step returns, the right one returns the image of the value, if the value shows no
offset that strands, and is stopped at one otherwise. -/
def Shadows (s : Schema) (image : α → β) (shows : α → ElementId → Prop) (left : DecodeM σ α)
    (right : DecodeM σ β) : Prop :=
  ∀ st a after st₁, Returns left st a after → st.reading = st₁.reading →
    (∃ after₁, Returns right st₁ (image a) after₁ ∧ after.reading = after₁.reading ∧
      ∀ id, shows a id → s.Safe id) ∨
      ∃ e after₁, Throws right st₁ e after₁ ∧ s.Stranded e ∧ shows a e.element

omit [ByteSource σ] [SliceLike σ] in
theorem closing_align_returns {reword : DecodeError → DecodeError} {step : DecodeM σ α} {a : α}
    {st after : DecodeState σ} :
    Returns (closing align reword step) st a after ↔
      ∃ mid, Returns step st a mid ∧ after = { mid with pending := [] } := by
  unfold closing
  simp only [returns_bind, returns_outcome, returns_align]
  constructor
  · rintro ⟨r, mid, ⟨b, rfl, inner⟩ | ⟨e, rfl, -⟩, -, _, rfl, h⟩
    · obtain ⟨rfl, rfl⟩ := returns_pure.mp h
      exact ⟨mid, inner, rfl⟩
    · exact absurd h returns_throw
  · rintro ⟨mid, inner, rfl⟩
    exact ⟨.ok a, mid, .inl ⟨a, rfl, inner⟩, (), _, rfl, returns_pure.mpr ⟨rfl, rfl⟩⟩

variable {s : Schema} {Q : α → β → Prop} {image : α → β} {shows : α → ElementId → Prop}
  {image' : γ → δ} {shows' : γ → ElementId → Prop}

namespace Echoes

theorem of_sims {left : DecodeM σ α} {right : DecodeM σ β}
    (sims : sameReading.Simulates Q left right) : Echoes Q left right := by
  intro st a after st₁ returned same
  obtain ⟨b, after₁, returned₁, alike, related⟩ :=
    (sims st st₁ (related_sameReading.mpr same)).of_returns returned
  exact ⟨b, after₁, returned₁, alike, related_sameReading.mp related⟩

/-- A step is echoed by one and the same step. -/
theorem of_eq {left right right' : DecodeM σ α} (sims : sameReading.Simulates Eq left right)
    (same : right' = right) : Echoes Eq left right' :=
  same ▸ of_sims sims

theorem imp {P : α → β → Prop} {left : DecodeM σ α} {right : DecodeM σ β}
    (echoes : Echoes P left right) (implies : ∀ {a b}, P a b → Q a b) : Echoes Q left right := by
  intro st a after st₁ returned same
  obtain ⟨b, after₁, returned₁, alike, still⟩ := echoes _ _ _ _ returned same
  exact ⟨b, after₁, returned₁, implies alike, still⟩

theorem shadows {left : DecodeM σ α} {right : DecodeM σ β} (echoes : Echoes Q left right)
    (same : ∀ {st a after b}, Returns left st a after → Q a b → b = image a)
    (safe : ∀ {st a after id}, Returns left st a after → shows a id → s.Safe id) :
    Shadows s image shows left right := by
  intro st a after st₁ returned reading
  obtain ⟨b, after₁, returned₁, alike, still⟩ := echoes _ _ _ _ returned reading
  obtain rfl := same returned alike
  exact .inl ⟨after₁, returned₁, still, fun _ => safe returned⟩

theorem bind_of_returns {left : DecodeM σ α} {right : DecodeM σ β} {next : α → DecodeM σ γ}
    {next' : β → DecodeM σ δ} (first : Echoes Q left right)
    (rest : ∀ {st a after b}, Returns left st a after → Q a b →
      Shadows s image' shows' (next a) (next' b)) :
    Shadows s image' shows' (left >>= next) (right >>= next') := by
  intro st c after st₁ returned same
  obtain ⟨a, mid, begun, ended⟩ := returns_bind.mp returned
  obtain ⟨b, mid₁, begun₁, alike, between⟩ := first _ _ _ _ begun same
  obtain ⟨after₁, ended₁, still, safe⟩ | ⟨e, after₁, thrown, stranded⟩ :=
    rest begun alike _ _ _ _ ended between
  · exact .inl ⟨after₁, returns_bind.mpr ⟨b, mid₁, begun₁, ended₁⟩, still, safe⟩
  · exact .inr ⟨e, after₁, throws_bind.mpr (.inr ⟨b, mid₁, begun₁, thrown⟩), stranded⟩

theorem bind {left right : DecodeM σ α} {next : α → DecodeM σ γ} {next' : α → DecodeM σ δ}
    (first : Echoes Eq left right) (rest : ∀ a, Shadows s image' shows' (next a) (next' a)) :
    Shadows s image' shows' (left >>= next) (right >>= next') := by
  refine first.bind_of_returns ?_
  rintro st a after _ - rfl
  exact rest a

end Echoes

namespace Shadows

theorem pure {a : α} (safe : ∀ id, shows a id → s.Safe id) :
    Shadows (σ := σ) s image shows (pure a) (pure (image a)) := by
  intro st b after st₁ returned same
  obtain ⟨rfl, rfl⟩ := returns_pure.mp returned
  exact .inl ⟨st₁, returns_pure.mpr ⟨rfl, rfl⟩, same, safe⟩

/-- A step that fails has no shadow to be found. -/
theorem of_fails {left : DecodeM σ α} {right : DecodeM σ β}
    (fails : ∀ {st a after}, ¬ Returns left st a after) : Shadows s image shows left right :=
  fun _ _ _ _ returned => absurd returned fails

theorem ite {c : Prop} [Decidable c] {yes no : DecodeM σ α} {yes' no' : DecodeM σ β}
    (holds : c → Shadows s image shows yes yes') (fails : ¬ c → Shadows s image shows no no') :
    Shadows s image shows (if c then yes else no) (if c then yes' else no') := by
  by_cases h : c
  · rw [if_pos h, if_pos h]
    exact holds h
  · rw [if_neg h, if_neg h]
    exact fails h

/-- In sequence, if what the first value shows is in all that comes of it. -/
theorem bind {left : DecodeM σ α} {right : DecodeM σ β} {next : α → DecodeM σ γ}
    {next' : β → DecodeM σ δ} (first : Shadows s image shows left right)
    (rest : ∀ a, (∀ id, shows a id → s.Safe id) →
      Shadows s image' shows' (next a) (next' (image a)))
    (shown : ∀ {a st c after id}, Returns (next a) st c after → shows a id → shows' c id) :
    Shadows s image' shows' (left >>= next) (right >>= next') := by
  intro st c after st₁ returned same
  obtain ⟨a, mid, begun, ended⟩ := returns_bind.mp returned
  obtain ⟨mid₁, begun₁, between, safe⟩ | ⟨e, after₁, thrown, stranded, inFirst⟩ :=
    first _ _ _ _ begun same
  · obtain ⟨after₁, ended₁, still, safe⟩ | ⟨e, after₁, thrown, stranded⟩ :=
      rest a safe _ _ _ _ ended between
    · exact .inl ⟨after₁, returns_bind.mpr ⟨_, mid₁, begun₁, ended₁⟩, still, safe⟩
    · exact .inr ⟨e, after₁, throws_bind.mpr (.inr ⟨_, mid₁, begun₁, thrown⟩), stranded⟩
  · exact .inr ⟨e, after₁, throws_bind.mpr (.inl thrown), stranded, shown ended inFirst⟩

/-- An attempt whose failure is passed on in any case. -/
theorem passedOn {left : DecodeM σ α} {right : DecodeM σ β}
    {next : Except DecodeError α → DecodeM σ γ} {next' : Except DecodeError β → DecodeM σ δ}
    (first : Shadows s image shows left right) (passes : ∀ e, next (.error e) = throw e)
    (passes' : ∀ e, next' (.error e) = throw e)
    (rest : ∀ a, (∀ id, shows a id → s.Safe id) →
      Shadows s image' shows' (next (.ok a)) (next' (.ok (image a))))
    (shown : ∀ {a st c after id}, Returns (next (.ok a)) st c after → shows a id → shows' c id) :
    Shadows s image' shows' (outcome left >>= next) (outcome right >>= next') := by
  rw [outcome_bind_of_throws passes, outcome_bind_of_throws passes']
  exact first.bind rest shown

/-- The error of a stranded offset is not reworded. -/
theorem closing {left : DecodeM σ α} {right : DecodeM σ β} {reword' : DecodeError → DecodeError}
    (first : Shadows s image shows left right) (reword : DecodeError → DecodeError)
    (rewords : Rewords reword') :
    Shadows s image shows (closing align reword left) (closing align reword' right) := by
  intro st a after st₁ returned same
  obtain ⟨mid, inner, rfl⟩ := closing_align_returns.mp returned
  obtain ⟨mid₁, inner₁, between, safe⟩ | ⟨e, mid₁, thrown, stranded, shown⟩ :=
    first _ _ _ _ inner same
  · refine .inl ⟨_, closing_align_returns.mpr ⟨mid₁, inner₁, rfl⟩, ?_, safe⟩
    exact congrArg (fun r : Reading => { r with pending := [] }) between
  · have reworded : e = reword' e := (rewords.eq_of_fatal stranded.fatal).symm
    have closed := closing_throws.mpr
      (.inr ⟨e, mid₁, thrown, (returns_align (u := ())).mpr rfl, reworded⟩)
    exact .inr ⟨e, _, closed, stranded, shown⟩

end Shadows

end Steps

end BinaryTemplate
