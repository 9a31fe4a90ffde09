import BinaryTemplate.Proofs.Deciding

/-!
# Overruns and the end of the data

A field that needs bytes beyond the end of a structure overruns it, and the structure fails with a
length mismatch if the frame around it goes on. Only the error of the field tells, by its offset and
the number of bytes that it wants, and it does not always tell where the field would have ended. A
bit field that has had some bytes of its frame seems to end too early, and so does a string in a
slot. An offset that cannot be followed fails with an error from elsewhere, which may look as if it
came from a field of the structure.
-/

namespace BinaryTemplate.Decoder

open DecodeM

variable {d : Decoder Slice} {depth rest : Nat} {a b : Attempt d.schema} {es : List Enclosure}
  {e : DecodeError}

/-- The failure of an attempt is decided by that of another one inside it, through any number of
containers. The enclosures between them are listed from the innermost one outwards. -/
inductive Decides (d : Decoder Slice) :
    Nat → Attempt d.schema → List Enclosure → Nat → Attempt d.schema → Prop
  | itself {depth : Nat} {a : Attempt d.schema} : Decides d depth a [] depth a
  | inside {depth rest : Nat} {a b c : Attempt d.schema} {own : Option Enclosure}
      {es : List Enclosure} (passes : PassesOn (d.decodeOne depth) a own b)
      (decides : Decides d depth b es rest c) : Decides d (depth + 1) a (es ++ own.toList) rest c

theorem Decides.fails (h : d.Decides depth a es rest b) (failed : d.Fails rest b e) :
    d.Fails depth a (Enclosure.settleAll es e) := by
  induction h with
  | itself => exact failed
  | inside passes _ inductionHypothesis =>
    rw [Enclosure.settleAll_append]
    exact passes.fails (inductionHypothesis failed)

theorem decodeOne_zero_quiet {p : Place} {n : Node d.schema} : Quiet (d.decodeOne 0 p n) :=
  .bind (.record _) fun _ => .bind .tell fun _ => .fail rfl

/-- A short read is decided by an attempt that is short itself or cannot be followed. -/
theorem exists_decides (short : e.isShort = true) : ∀ {depth : Nat} {a : Attempt d.schema},
    a.state.reading.cursor ≤ a.place.limit → d.Fails depth a e →
    ∃ es rest b, d.Decides depth a es rest b ∧ d.Fails rest b e ∧
      (Shortage d b.place b.node b.state.reading e ∨ d.FollowFails rest b e) := by
  intro depth
  induction depth with
  | zero =>
    intro a within failed
    obtain ⟨st', failed⟩ := failed
    exact decodeOne_zero_quiet.absurd short failed
  | succ depth inductionHypothesis =>
    intro a within failed
    have ⟨st', thrown⟩ := failed
    obtain own | ⟨own, b, passes, failed⟩ :=
      shortage_of_throws short within (decodeOne_throws.mp thrown)
    · exact ⟨[], depth + 1, a, .itself, failed, own⟩
    · obtain ⟨nests, -⟩ := passes.nests within
      obtain ⟨es, rest, c, decides, failed, cause⟩ := inductionHypothesis nests.inside failed
      exact ⟨_, rest, c, .inside passes decides, failed, cause⟩

/-! ## Which structure is overrun -/

/-- The structures around a deciding attempt end no earlier than its frame. -/
theorem Decides.nests (h : d.Decides depth a es rest b)
    (within : a.state.reading.cursor ≤ a.place.limit) :
    Nests a b ∧ ∀ x ∈ es, b.place.limit ≤ x.stop ∧ x.limit ≤ a.place.limit := by
  induction h with
  | itself => exact ⟨⟨Nat.le_refl _, Nat.le_refl _, within⟩, nofun⟩
  | @inside depth rest a b c own es passes decides inductionHypothesis =>
    obtain ⟨first, -, between⟩ := passes.nests within
    obtain ⟨second, inner⟩ := inductionHypothesis first.inside
    refine ⟨first.trans second, ?_⟩
    intro x member
    obtain member | member := List.mem_append.mp member
    · obtain ⟨ends, limit⟩ := inner x member
      exact ⟨ends, Nat.le_trans limit first.narrower⟩
    · have encloses := between x (Option.mem_toList.mp member)
      rw [encloses.stop, encloses.limit]
      exact ⟨second.narrower, Nat.le_refl _⟩

/-- What wants only bytes of its own frame overruns nothing. -/
theorem Decides.settleAll_of_within (h : d.Decides depth a es rest b)
    (within : a.state.reading.cursor ≤ a.place.limit) {offset count : Nat}
    (wants : e.Wants offset count) (held : offset + count ≤ b.place.limit) :
    Enclosure.settleAll es e = e := by
  refine Enclosure.settleAll_of_unclaimed ?_
  intro x member reach claims
  obtain ⟨ends, -⟩ := (h.nests within).2 x member
  have same := wants.shortReadStop.symm.trans claims.short
  have beyond := claims.beyond
  cases same
  omega

/-- Structures that end with the frame around them overrun with it. -/
theorem Decides.settleAll_of_level (h : d.Decides depth a es rest b)
    (within : a.state.reading.cursor ≤ a.place.limit) (level : a.place.limit ≤ b.place.limit) :
    Enclosure.settleAll es e = e := by
  refine Enclosure.settleAll_of_unclaimed ?_
  intro x member reach claims
  obtain ⟨ends, limit⟩ := (h.nests within).2 x member
  have goesOn := claims.goesOn
  omega

/-- What wants bytes beyond its frame overruns the structure that its frame ends with, if the frame
around that one goes on. -/
theorem Decides.overruns (h : d.Decides depth a es rest b)
    (within : a.state.reading.cursor ≤ a.place.limit) (positions : a.place.limit < positionLimit)
    (narrower : b.place.limit < a.place.limit) {offset count : Nat} (wants : e.Wants offset count)
    (behind : b.state.reading.cursor ≤ offset) (inside : offset ≤ b.place.limit)
    (beyond : b.place.limit < offset + count) :
    ∃ x ∈ es, x.stop = b.place.limit ∧ x.stop < x.limit ∧
      Enclosure.settleAll es e = x.mismatch (min (offset + count) (positionLimit - 1)) := by
  induction h with
  | itself => exact absurd narrower (Nat.lt_irrefl _)
  | @inside depth rest a b c own es passes decides inductionHypothesis =>
    obtain ⟨first, same, between⟩ := passes.nests within
    rw [Enclosure.settleAll_append]
    by_cases deeper : c.place.limit < b.place.limit
    · obtain ⟨x, member, stop, goesOn, settled⟩ :=
        inductionHypothesis first.inside (Nat.lt_of_le_of_lt first.narrower positions) deeper behind
          inside beyond
      rw [settled, Enclosure.settleAll_mismatch]
      exact ⟨x, List.mem_append_left _ member, stop, goesOn, rfl⟩
    -- The frame of the inner attempt is that of the content, so the container itself is overrun.
    · obtain ⟨second, -⟩ := decides.nests first.inside
      have level : b.place.limit = c.place.limit :=
        Nat.le_antisymm (Nat.le_of_not_lt deeper) second.narrower
      rw [decides.settleAll_of_level first.inside (Nat.le_of_eq level)]
      cases own with
      | none => exact absurd narrower (by rw [← level, same rfl]; exact Nat.lt_irrefl _)
      | some x =>
        have encloses := between x rfl
        have starts := encloses.start
        have stops := encloses.stop.trans level
        have limit := encloses.limit
        have starting := second.behind
        have started := first.behind
        have claims : x.Claims e (min (offset + count) (positionLimit - 1)) :=
          ⟨wants.shortReadStop, by omega, by rw [wants.1]; omega, by rw [wants.1]; omega, by omega⟩
        exact ⟨x, List.mem_append_right _ List.mem_cons_self, stops, claims.goesOn, claims.settle⟩

/-! ## Structures with a declared length -/

/-- An attempt fails with the length mismatch of a structure around the one that decides it. The
structure ends at `stop`, before the frame around it does, and would have to reach further. -/
def Overruns (d : Decoder Slice) (depth : Nat) (a : Attempt d.schema) (es : List Enclosure)
    (stop reach : Nat) : Prop :=
  ∃ x ∈ es, x.stop = stop ∧ x.stop < x.limit ∧ d.Fails depth a (x.mismatch reach)

/-- What becomes of the error of an attempt that decides how a structure of `len` bytes fails. -/
structure Tells (d : Decoder Slice) (depth : Nat) (a : Attempt d.schema) (len : Nat)
    (es : List Enclosure) (rest : Nat) (b : Attempt d.schema) (e : DecodeError) : Prop where
  /-- A short read comes from a field that is short or from an offset that cannot be followed, which
  is the attempt itself or inside it. -/
  cause : e.isShort = true → ∃ es' rest' c, d.Decides rest b es' rest' c ∧ d.Fails rest' c e ∧
    (Shortage d c.place c.node c.state.reading e ∨ d.FollowFails rest' c e)
  /-- A field that wants what its frame does not have overruns the structure with which the frame
  ends, up to where the field would have ended; the structure itself if the frame ends with that. -/
  whole : ∀ stop, d.WantsWhole b.place b.node b.state.reading e stop →
    d.Overruns depth a es b.place.limit (min stop (positionLimit - 1)) ∧
      (b.place.limit = a.state.reading.cursor + len → d.Fails depth a
        ⟨a.node.id, a.node.label, a.state.reading.cursor, .lengthMismatch len
          (min stop (positionLimit - 1) - a.state.reading.cursor)⟩)
  /-- A string in a slot is counted only up to the end of the piece that it reads. -/
  piece : ∀ reach, d.WantsPiece b.place b.node b.state.reading e reach →
    d.Overruns depth a es b.place.limit (min reach (positionLimit - 1))
  /-- A bit field that has had some bytes of its frame is counted as if it had none of them, so it
  overruns only if more bytes than these are still wanted. Otherwise the read is short. -/
  bits : ∀ taken wanted, d.WantsRest b.place b.node b.state.reading e taken wanted →
    (taken < wanted → d.Overruns depth a es b.place.limit
      (min (b.state.reading.cursor + wanted) (positionLimit - 1))) ∧
      (wanted ≤ taken → d.Fails depth a e)
  /-- Where the data ends, the read is short. -/
  data : DataEnds b.place b.state.reading e → d.Fails depth a e
  /-- The failure to follow an offset is passed on unless some structure claims it. -/
  offset : d.FollowFails rest b e →
    (∀ x ∈ es, ∀ reach, ¬ x.Claims e reach) ∧ d.Fails depth a e ∨
      ∃ x ∈ es, ∃ reach, x.Claims e reach ∧ d.Fails depth a (x.mismatch reach)

theorem Overruns.not_short {stop reach : Nat} (h : d.Overruns depth a es stop reach)
    (failed : d.Fails depth a e) : e.isShort = false := by
  obtain ⟨x, -, -, -, mismatch⟩ := h
  rw [failed.unique mismatch]
  rfl

section Structure

variable {p : Place} {n : Node d.schema} {st : DecodeState Slice} {len : Nat}
  (structural : n.IsStructural) (spans : d.Spans p n (some len))
  (before : st.reading.cursor + len < p.limit) (positions : p.limit < positionLimit)

include structural spans

/-- A structure encloses what it attempts. -/
theorem PassesOn.of_structure {own : Option Enclosure}
    (h : PassesOn (d.decodeOne depth) ⟨p, n, st⟩ own b) :
    own = some ⟨n.id, n.label, st.reading.cursor, len, p.limit⟩ := by
  cases h with
  | content _ sized =>
    cases sized with
    | grammar kind => obtain ⟨_, other⟩ | ⟨_, other⟩ := structural <;> cases kind.symm.trans other
    | structural _ spans' =>
      obtain rfl := spans.unique spans'
      rfl
  | grammar kind => obtain ⟨_, other⟩ | ⟨_, other⟩ := structural <;> cases kind.symm.trans other

include before

/-- Frames inside a structure end no later than it does, and it is the only structure that overruns
where it ends. -/
theorem Decides.of_structure (h : d.Decides depth ⟨p, n, st⟩ es rest b) (inner : es ≠ []) :
    b.place.limit ≤ st.reading.cursor + len ∧ ∀ x ∈ es, x.stop < x.limit →
      x.stop = st.reading.cursor + len → x = ⟨n.id, n.label, st.reading.cursor, len, p.limit⟩ := by
  have within : st.reading.cursor ≤ p.limit := by omega
  cases h with
  | itself => exact absurd rfl inner
  | inside passes decides =>
    obtain ⟨first, -, between⟩ := passes.nests within
    obtain ⟨second, others⟩ := decides.nests first.inside
    have encloses := passes.of_structure structural spans
    have stop := (between _ encloses).stop
    have narrower := second.narrower
    change st.reading.cursor + len = _ at stop
    refine ⟨by omega, ?_⟩
    intro x member goesOn ends
    obtain member | member := List.mem_append.mp member
    · obtain ⟨-, limit⟩ := others x member
      omega
    · exact Option.some.inj ((Option.mem_toList.mp member).symm.trans encloses)

include positions

theorem Decides.overruns_structure (h : d.Decides depth ⟨p, n, st⟩ es rest b) (inner : es ≠ [])
    (failed : d.Fails rest b e) {offset count : Nat} (wants : e.Wants offset count)
    (behind : b.state.reading.cursor ≤ offset) (held : offset ≤ b.place.limit)
    (beyond : b.place.limit < offset + count) :
    d.Overruns depth ⟨p, n, st⟩ es b.place.limit (min (offset + count) (positionLimit - 1)) ∧
      (b.place.limit = st.reading.cursor + len → d.Fails depth ⟨p, n, st⟩
        ⟨n.id, n.label, st.reading.cursor,
          .lengthMismatch len (min (offset + count) (positionLimit - 1) - st.reading.cursor)⟩) := by
  have within : st.reading.cursor ≤ p.limit := by omega
  obtain ⟨ends, own⟩ := h.of_structure structural spans before inner
  obtain ⟨x, member, stop, goesOn, settled⟩ := h.overruns within positions
    (Nat.lt_of_le_of_lt ends before) wants behind held beyond
  have fails := h.fails failed
  rw [settled] at fails
  refine ⟨⟨x, member, stop, goesOn, fails⟩, ?_⟩
  intro direct
  rw [own x member goesOn (stop.trans direct)] at fails
  exact fails

theorem Decides.tells (h : d.Decides depth ⟨p, n, st⟩ es rest b) (inner : es ≠ [])
    (failed : d.Fails rest b e) : d.Tells depth ⟨p, n, st⟩ len es rest b e := by
  have within : st.reading.cursor ≤ p.limit := by omega
  have passed := h.fails failed
  -- What wants no more than its frame has is passed on as it is.
  have kept {offset count : Nat} (wants : e.Wants offset count)
      (held : offset + count ≤ b.place.limit) : d.Fails depth ⟨p, n, st⟩ e := by
    rw [h.settleAll_of_within within wants held] at passed
    exact passed
  refine ⟨?_, ?_, ?_, ?_, ?_, ?_⟩
  · intro short
    exact exists_decides short (h.nests within).1.inside failed
  · intro stop whole
    obtain ⟨offset, wants, behind, held⟩ := whole.wants
    have beyond := whole.beyond
    have reach : offset + (stop - offset) = stop := by omega
    rw [← reach] at beyond
    have overruns := h.overruns_structure structural spans before positions inner failed wants
      behind held beyond
    rw [reach] at overruns
    exact overruns
  · intro reach piece
    obtain ⟨offset, count, wants, rfl, behind, held⟩ := piece.wants
    exact (h.overruns_structure structural spans before positions inner failed wants behind held
      piece.beyond).1
  · intro taken wanted bits
    have frame := bits.frame
    refine ⟨fun further => ?_, fun enough => kept bits.wants (by omega)⟩
    exact (h.overruns_structure structural spans before positions inner failed bits.wants
      (Nat.le_refl _) (by omega) (by omega)).1
  · intro data
    obtain ⟨offset, count, wants, held⟩ := data.wants
    exact kept wants held
  · intro _
    obtain ⟨unclaimed, same⟩ | ⟨x, member, reach, claims, becomes⟩ :=
      Enclosure.settleAll_cases es e
    · rw [same] at passed
      exact .inl ⟨unclaimed, passed⟩
    · rw [becomes] at passed
      exact .inr ⟨x, member, reach, claims, passed⟩

omit positions in
/-- A structure that is short is so because of an attempt in it. -/
theorem exists_decides_structure (short : e.isShort = true)
    (failed : d.Fails depth ⟨p, n, st⟩ e) :
    ∃ es rest b, d.Decides depth ⟨p, n, st⟩ es rest b ∧ es ≠ [] ∧ d.Fails rest b e ∧
      (Shortage d b.place b.node b.state.reading e ∨ d.FollowFails rest b e) := by
  have within : st.reading.cursor ≤ p.limit := by omega
  cases depth with
  | zero =>
    obtain ⟨st', failed⟩ := failed
    exact decodeOne_zero_quiet.absurd short failed
  | succ depth =>
    obtain ⟨st', failed⟩ := failed
    obtain ⟨len', spans', -, beyond⟩ | ⟨own, b, passes, failed⟩ :=
      structural_misses short structural (decodeOne_throws.mp failed)
    · cases spans.unique spans'
      exact absurd beyond (Nat.not_lt_of_lt before)
    · obtain ⟨nests, -⟩ := passes.nests within
      obtain ⟨es, rest, c, decides, failed, cause⟩ := exists_decides short nests.inside failed
      refine ⟨_, rest, c, .inside passes decides, ?_, failed, cause⟩
      rw [passes.of_structure structural spans]
      exact List.append_ne_nil_of_right_ne_nil es (List.cons_ne_nil _ _)

end Structure

/-! ## Telling them apart -/

/-- Overruns and the end of the data are told apart, as far as the errors tell them apart: a
structure that ends before the frame around it overruns where a field in it does, and a short read
of it is one of the data, of a bit field that has been begun or of an offset that is followed. -/
theorem overrun_told_apart (d : Decoder Slice) {depth len : Nat} {p : Place} {n : Node d.schema}
    {st : DecodeState Slice} (structural : n.IsStructural) (spans : d.Spans p n (some len))
    (before : st.reading.cursor + len < p.limit) (positions : p.limit < positionLimit) :
    (∀ {es rest b e}, d.Decides depth ⟨p, n, st⟩ es rest b → es ≠ [] → d.Fails rest b e →
      d.Tells depth ⟨p, n, st⟩ len es rest b e) ∧
    ∀ {e}, d.Fails depth ⟨p, n, st⟩ e → e.isShort = true →
      ∃ es rest b, d.Decides depth ⟨p, n, st⟩ es rest b ∧ es ≠ [] ∧ d.Fails rest b e ∧
        (DataEnds b.place b.state.reading e ∨
          (∃ taken wanted, d.WantsRest b.place b.node b.state.reading e taken wanted ∧
            wanted ≤ taken) ∨
          d.FollowFails rest b e ∧ ∀ x ∈ es, ∀ reach, ¬ x.Claims e reach) := by
  have forward : ∀ {es rest b e}, d.Decides depth ⟨p, n, st⟩ es rest b → es ≠ [] →
      d.Fails rest b e → d.Tells depth ⟨p, n, st⟩ len es rest b e := fun decides inner failed =>
    decides.tells structural spans before positions inner failed
  refine ⟨forward, ?_⟩
  intro e failed short
  obtain ⟨es, rest, b, decides, inner, failed', cause⟩ :=
    exists_decides_structure structural spans before short failed
  refine ⟨es, rest, b, decides, inner, failed', ?_⟩
  have tells := forward decides inner failed'
  obtain shortage | follows := cause
  · cases shortage with
    | whole h => cases ((tells.whole _ h).1.not_short failed).symm.trans short
    | piece h => cases ((tells.piece _ h).not_short failed).symm.trans short
    | data h => exact .inl h
    | @rest taken wanted h =>
      by_cases further : taken < wanted
      · cases (((tells.bits _ _ h).1 further).not_short failed).symm.trans short
      · exact .inr (.inl ⟨taken, wanted, h, Nat.le_of_not_lt further⟩)
  · obtain ⟨unclaimed, -⟩ | ⟨x, -, reach, -, mismatch⟩ := tells.offset follows
    · exact .inr (.inr ⟨follows, unclaimed⟩)
    · rw [failed.unique mismatch] at short
      cases short

/-! ## A number that is too long for its structure -/

/-- A structure of one byte with a number in it. -/
def overfull (number : NumberBody) : Decoder Slice where
  schema :=
    { elements := #[
        ⟨{}, .structure { children := [⟨1⟩], extent := { length := some (.literal 1) } }⟩,
        ⟨{}, .number number⟩]
      root := ⟨0⟩ }
  options := { maxDepth := 2, maxRepeat := 1 }

/-- The number takes two bytes. -/
def twoBytes : Decoder Slice := overfull { extent := { length := some (.literal 2) } }

def twoBytesRoot : Node twoBytes.schema := ⟨⟨0⟩, _, rfl⟩

def twoBytesNumber : Node twoBytes.schema := ⟨⟨1⟩, _, rfl⟩

/-- Two more bytes follow behind the structure. -/
def threeBytes : DecodeState Slice := { source := ⟨#[0xaa, 0xbb, 0xcc], 0⟩ }

/-- The attempt at the number, in the structure. -/
def twoBytesInside : Attempt twoBytes.schema where
  place := inside (startPlace ⟨0⟩ 0 3) twoBytesRoot none 0 (some 1)
  node := twoBytesNumber
  state := opened (startPlace ⟨0⟩ 0 3) twoBytesRoot (some 1) (begun twoBytesRoot threeBytes)

theorem overrun_told_apart_number :
    let place := startPlace ⟨0⟩ 0 3
    let whole : Attempt twoBytes.schema := ⟨place, twoBytesRoot, threeBytes⟩
    twoBytes.Spans place twoBytesRoot (some 1) ∧
      twoBytes.Decides 2 whole [⟨⟨0⟩, "structure#0", 0, 1, 3⟩] 1 twoBytesInside ∧
      twoBytes.Fails 1 twoBytesInside ⟨⟨1⟩, "number#1", 0, .shortRead 2 1⟩ ∧
      twoBytes.Fails 2 whole ⟨⟨0⟩, "structure#0", 0, .lengthMismatch 1 2⟩ := by
  intro place whole
  have structural : twoBytesRoot.IsStructural := .inl ⟨_, rfl⟩
  have spans : twoBytes.Spans place twoBytesRoot (some 1) :=
    ⟨.literal 1, 1, none, 1, .byte, by cbv, ⟨1, rfl, rfl⟩, by cbv, rfl, by cbv, rfl, by decide⟩
  have bounds : twoBytes.Bounds twoBytesInside.place twoBytesNumber 1 (some 1) :=
    ⟨.literal 1, .literal 1, 1, 1, by cbv, by cbv, rfl, rfl, rfl, by decide⟩
  have run : RunDecides (twoBytes.decodeOne 1) twoBytesNumber 1 (some 1) 1 0 twoBytesInside.place
      twoBytesInside.state twoBytesInside :=
    .here rfl (fun enough => absurd enough (by decide)) (by decide)
  have turn : TurnDecides (twoBytes.decodeOne 1) [⟨1⟩] twoBytesInside.place twoBytesInside.state
      twoBytesInside :=
    .here rfl rfl bounds run
  have contains : Contains twoBytesRoot none [⟨1⟩] .declared := .structure rfl (by cbv)
  have fits : (inside place twoBytesRoot none threeBytes.reading.cursor (some 1)).limit ≤
      place.limit := by decide
  have label : twoBytesRoot.label = "structure#0" := by cbv
  have passes : PassesOn (twoBytes.decodeOne 1) whole
      (some ⟨⟨0⟩, "structure#0", 0, 1, 3⟩) twoBytesInside := by
    rw [← label]
    exact .content contains (.structural structural spans) fits turn
  have decides : twoBytes.Decides 2 whole [⟨⟨0⟩, "structure#0", 0, 1, 3⟩] 1 twoBytesInside :=
    .inside passes .itself
  have failed : twoBytes.Fails 1 twoBytesInside ⟨⟨1⟩, "number#1", 0, .shortRead 2 1⟩ :=
    ⟨_, Prod.ext (by cbv) rfl⟩
  have wide : twoBytes.HasWidth twoBytesInside.place twoBytesNumber .byte 16 :=
    ⟨.literal 2, 2, by cbv, by cbv, ⟨2, rfl, rfl⟩, rfl, by decide, by decide⟩
  have ends : twoBytes.WouldEnd twoBytesInside.place twoBytesNumber
      twoBytesInside.state.reading 2 :=
    .bytes (.inr ⟨⟨_, rfl⟩, by cbv⟩) wide
  have told := (overrun_told_apart twoBytes structural spans (by decide) (by decide)).1 decides
    (List.cons_ne_nil _ _) failed
  obtain ⟨-, fails⟩ := told.whole 2 ⟨ends, ⟨0, ⟨rfl, 1, rfl⟩, Nat.le_refl _, by decide⟩, by decide⟩
  have fails := fails rfl
  rw [label] at fails
  exact ⟨spans, decides, failed, fails⟩

/-- A structure of two bytes: the size of a region, and an offset that references the region. -/
def pointingOut : Decoder Slice where
  schema :=
    { elements := #[
        ⟨{}, .structure { children := [⟨1⟩, ⟨2⟩], extent := { length := some (.literal 2) } }⟩,
        ⟨{}, .number { extent := { length := some (.literal 1) } }⟩,
        ⟨{}, .offset
          { extent := { length := some (.literal 1) }, references := some ⟨3⟩,
            referencedSize := some ⟨1⟩ }⟩,
        ⟨{}, .binary {}⟩]
      root := ⟨0⟩ }
  options := { maxDepth := 2, maxRepeat := 1 }

/-- Errors that mislead a structure. As a bit field the same number has had its first byte and
wants the second at the offset where it starts, which seems to fit. A region of sixteen bytes that
the data does not have is wanted at the offset of its pointer, as if it were a field there. -/
theorem misleading_errors :
    ((overfull { extent := { length := some (.literal 16), unit := some .bit } }).decodeElement
        ⟨0⟩ ⟨#[0xaa, 0xbb, 0xcc], 0⟩).result = .error ⟨⟨1⟩, "number#1", 0, .shortRead 1 0⟩ ∧
      (pointingOut.decodeElement ⟨0⟩ ⟨#[16, 1, 0, 0], 0⟩).result =
        .error ⟨⟨0⟩, "structure#0", 0, .lengthMismatch 2 17⟩ := by
  constructor <;> cbv

end BinaryTemplate.Decoder
