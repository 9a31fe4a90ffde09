import BinaryTemplate.Proofs.Container

/-!
# What instances pass

A value moves the cursor by its length, whatever is inside it. Its length is counted in whole bytes,
so a value of length zero may still have taken bits: then it ends in the byte in which it starts,
with fewer bits unread.
-/

namespace BinaryTemplate

/-- The reading has passed a value of some length: the cursor moves by that length, and without any
length only unread bits are taken. -/
structure Reading.Passes (before : Reading) (len : Nat) (after : Reading) : Prop where
  cursor : after.cursor = before.cursor + len
  unread : len = 0 → after.pending <:+ before.pending

namespace Reading

theorem passes_refl (r : Reading) : r.Passes 0 r := ⟨rfl, fun _ => List.suffix_refl _⟩

theorem passes_of_aligned {before after : Reading} {len : Nat}
    (cursor : after.cursor = before.cursor + len) (aligned : after.pending = []) :
    before.Passes len after := by
  refine ⟨cursor, fun _ => ?_⟩
  rw [aligned]
  exact List.nil_suffix

/-- A value without length leaves the reading as it is, or it ends inside the byte in which it
starts and fewer bits are unread behind it. -/
theorem Passes.still_or_inside {before after : Reading} (h : before.Passes 0 after)
    (kept : after.data = before.data) :
    after = before ∨
      after.cursor = before.cursor ∧ after.pending.length < before.pending.length := by
  have cursor : after.cursor = before.cursor := h.cursor
  have suffix := h.unread rfl
  by_cases shorter : after.pending.length < before.pending.length
  · exact .inr ⟨cursor, shorter⟩
  · have pending := suffix.eq_of_length_le (by omega)
    left
    cases before
    cases after
    cases kept
    cases cursor
    cases pending
    rfl

end Reading

namespace Decoder

open DecodeM

variable {σ : Type} [ByteSource σ] [SliceLike σ] {d : Decoder σ} {child : d.DecodeChild}
  {p : Place} {n : Node d.schema} {st st' : DecodeState σ}

omit [ByteSource σ] [SliceLike σ] in
theorem RawRead.passes {limit width : Nat} {order : ByteOrder} {unit : LengthUnit}
    {before after : Reading} {r : RawNumber} (h : RawRead limit order width before unit r after) :
    before.Passes r.len after := by
  cases h with
  | bits =>
    refine ⟨rfl, fun none => ?_⟩
    have none : before.bytesFor width = 0 := none
    -- No further byte is read, so the bits come from those that were unread.
    have upcoming : before.upcoming width = before.pending := by
      unfold Reading.upcoming
      rw [none, window_zero, List.flatMap_nil, List.append_nil]
    show (before.upcoming width).drop width <:+ before.pending
    rw [upcoming]
    exact List.drop_suffix width before.pending
  | bytes => exact Reading.passes_of_aligned rfl rfl

omit [ByteSource σ] [SliceLike σ] in
theorem NumberDecoded.passes {v : Value} {before after : Reading}
    (h : NumberDecoded d p n before v after) : before.Passes v.len after := by
  cases h with
  | read _ _ _ _ raw _ => exact raw.passes
  | computed => exact before.passes_refl
  | skipped => exact Reading.passes_of_aligned rfl rfl

omit [ByteSource σ] [SliceLike σ] in
theorem WholeDecoded.passes {v : Value} {before after : Reading}
    (h : WholeDecoded d p n before v after) : before.Passes v.len after :=
  Reading.passes_of_aligned h.cursor h.aligned

theorem OffsetDecoded.passes {v : Value} {before after : Reading}
    (h : OffsetDecoded child p n before v after) : before.Passes v.len after := by
  cases h with
  | read _ _ raw references =>
    have passed := raw.passes
    cases references with
    | nothing => exact passed
    | side => exact ⟨passed.cursor, passed.unread⟩

/-- Every value that an element decodes to is passed. -/
def PassesAll (child : d.DecodeChild) : Prop :=
  ∀ {p : Place} {n : Node d.schema} {st : DecodeState σ} {v : Value} {st' : DecodeState σ},
    Returns (child p n) st v st' → st.reading.Passes v.len st'.reading

theorem Fills.forward {vs : List Value} (h : Fills child p st vs st') (passes : PassesAll child) :
    st.reading.cursor ≤ st'.reading.cursor := by
  induction h with
  | nil resumes => exact Nat.le_of_eq (congrArg Reading.cursor resumes.reading).symm
  | rejected attempt _ inductionHypothesis =>
    obtain ⟨-, -, -, rewound⟩ := attempt
    -- A rejected attempt leaves the cursor where it was.
    have back := congrArg Reading.cursor rewound.reading
    dsimp only at back
    omega
  | took attempt _ inductionHypothesis =>
    obtain ⟨resumes, decoded⟩ := attempt
    have moved := (passes decoded).cursor
    rw [resumes.reading] at moved
    omega

theorem KindDecoded.passes {v : Value} (h : KindDecoded child p n st v st')
    (passes : PassesAll child) : st.reading.Passes v.len st'.reading := by
  cases h with
  | number _ decoded => exact decoded.passes
  | whole _ decoded => exact decoded.passes
  | offset _ decoded => exact decoded.passes
  | disabled _ _ still =>
    rw [still]
    exact st.reading.passes_refl
  | grammar _ _ _ _ _ resumes decoded =>
    rw [← resumes.reading]
    exact passes decoded
  | container _ decoded =>
    generalize st'.reading = after at decoded
    cases decoded with
    | mk _ opens content _ =>
      -- The length is a difference of cursors, which is only theirs if the later one is no less.
      have forward := content.fills.forward passes
      have begins := congrArg Reading.cursor opens
      change _ = st.reading.cursor at begins
      refine Reading.passes_of_aligned ?_ rfl
      dsimp only [Reading.afterBytes]
      omega

theorem decodeOne_passes (depth : Nat) : PassesAll (d.decodeOne depth) := by
  intro p n st v st' h
  refine decodeOne_induction (fun inner resumes decoded => ?_) h
  rw [← resumes.reading]
  exact decoded.passes inner

/-! ## The start -/

/-- Every value that an element decodes to starts where the cursor is. -/
def StartsAll (child : d.DecodeChild) : Prop :=
  ∀ {p : Place} {n : Node d.schema} {st : DecodeState σ} {v : Value} {st' : DecodeState σ},
    Returns (child p n) st v st' → v.offset = st.reading.cursor

omit [ByteSource σ] [SliceLike σ] in
theorem RawRead.starts {limit width : Nat} {order : ByteOrder} {unit : LengthUnit}
    {before after : Reading} {r : RawNumber} (h : RawRead limit order width before unit r after) :
    r.offset = before.cursor := by
  cases h with
  | bits => rfl
  | bytes => rfl

theorem KindDecoded.starts {v : Value} (h : KindDecoded child p n st v st')
    (starts : StartsAll child) : v.offset = st.reading.cursor := by
  cases h with
  | number _ decoded =>
    generalize st'.reading = after at decoded
    cases decoded with
    | read _ _ _ _ raw _ => exact raw.starts
    | computed => rfl
    | skipped => rfl
  | whole _ decoded => exact decoded.offset
  | offset _ decoded =>
    generalize st'.reading = after at decoded
    cases decoded with
    | read _ _ raw _ => exact raw.starts
  | disabled => rfl
  | grammar _ _ _ _ _ resumes decoded =>
    rw [← resumes.reading]
    exact starts decoded
  | container _ decoded =>
    generalize st'.reading = after at decoded
    cases decoded with
    | mk => rfl

theorem decodeOne_starts (depth : Nat) : StartsAll (d.decodeOne depth) := by
  intro p n st v st' h
  refine decodeOne_induction (fun inner resumes decoded => ?_) h
  rw [← resumes.reading]
  exact decoded.starts inner

/-! ## The frame -/

/-- An instance that has a length ends within its frame. -/
def FitsAll (child : d.DecodeChild) : Prop :=
  ∀ {p : Place} {n : Node d.schema} {st : DecodeState σ} {v : Value} {st' : DecodeState σ},
    Returns (child p n) st v st' → 0 < v.len → st'.reading.cursor ≤ p.limit

/-- An instance that starts within its frame ends within it. -/
def StaysAll (child : d.DecodeChild) : Prop :=
  ∀ {p : Place} {n : Node d.schema} {st : DecodeState σ} {v : Value} {st' : DecodeState σ},
    Returns (child p n) st v st' → st.reading.cursor ≤ p.limit → st'.reading.cursor ≤ p.limit

omit [ByteSource σ] [SliceLike σ] in
theorem RawRead.ends_within {limit width : Nat} {order : ByteOrder} {unit : LengthUnit}
    {before after : Reading} {r : RawNumber} (h : RawRead limit order width before unit r after)
    (some : 0 < r.len) : after.cursor ≤ limit := by
  cases h with
  | bits holds => exact (holds some).1
  | bytes holds => exact holds.1

/-- Values that have a length altogether end within the frame, since the last one of them that has
a length does. -/
theorem Fills.fits {vs : List Value} (h : Fills child p st vs st') (passes : PassesAll child)
    (fits : FitsAll child) (moved : st.reading.cursor < st'.reading.cursor) :
    st'.reading.cursor ≤ p.limit := by
  induction h with
  | nil resumes =>
    rw [resumes.reading] at moved
    exact absurd moved (Nat.lt_irrefl _)
  | rejected attempt _ inductionHypothesis =>
    obtain ⟨-, -, -, rewound⟩ := attempt
    refine inductionHypothesis ?_
    rw [rewound.reading]
    exact moved
  | @took p n st mid st' v vs attempt rest inductionHypothesis =>
    obtain ⟨resumes, decoded⟩ := attempt
    by_cases further : mid.reading.cursor < st'.reading.cursor
    · exact inductionHypothesis further
    · have forward := rest.forward passes
      have passed := (passes decoded).cursor
      rw [resumes.reading] at passed
      have ended := fits decoded (by omega)
      omega

theorem Fills.stays {vs : List Value} (h : Fills child p st vs st') (stays : StaysAll child)
    (within : st.reading.cursor ≤ p.limit) : st'.reading.cursor ≤ p.limit := by
  induction h with
  | nil resumes =>
    rw [resumes.reading]
    exact within
  | rejected attempt _ inductionHypothesis =>
    obtain ⟨-, -, -, rewound⟩ := attempt
    refine inductionHypothesis ?_
    rw [rewound.reading]
    exact within
  | took attempt _ inductionHypothesis =>
    obtain ⟨resumes, decoded⟩ := attempt
    rw [← resumes.reading] at within
    -- The frame of the place after the value is the same.
    have ended := stays decoded within
    exact inductionHypothesis ended

theorem KindDecoded.fits {v : Value} (h : KindDecoded child p n st v st')
    (passes : PassesAll child) (fits : FitsAll child) (some : 0 < v.len) :
    st'.reading.cursor ≤ p.limit := by
  cases h with
  | number _ decoded =>
    generalize st'.reading = after at decoded ⊢
    cases decoded with
    | read _ _ _ _ raw _ => exact raw.ends_within some
    | computed => exact absurd some (Nat.lt_irrefl 0)
    | skipped _ _ within => exact within
  | whole _ decoded =>
    rw [decoded.cursor]
    exact decoded.within some
  | offset _ decoded =>
    generalize st'.reading = after at decoded ⊢
    cases decoded with
    | read _ _ raw references =>
      rw [references.cursor]
      exact raw.ends_within some
  | disabled => exact absurd some (Nat.lt_irrefl 0)
  | grammar _ _ _ _ _ _ decoded => exact fits decoded some
  | container _ decoded =>
    generalize st'.reading = after at decoded ⊢
    cases decoded with
    | @mk ts vs opened closed within opens content _ =>
      have some : 0 < closed.reading.cursor - st.reading.cursor := some
      have begins := congrArg Reading.cursor opens
      change opened.reading.cursor = st.reading.cursor at begins
      exact Nat.le_trans (content.fills.fits passes fits (by omega)) within

theorem decodeOne_fits (depth : Nat) : FitsAll (d.decodeOne depth) := by
  intro p n st v st' h
  refine decodeOne_induction (fun {rest} _ _ _ _ _ _ inner _ decoded some => ?_) h
  exact decoded.fits (decodeOne_passes rest) inner some

theorem decodeOne_stays (depth : Nat) : StaysAll (d.decodeOne depth) := by
  intro p n st v st' h within
  have passed := (decodeOne_passes depth h).cursor
  by_cases some : 0 < v.len
  · exact decodeOne_fits depth h some
  · omega

end Decoder

end BinaryTemplate
