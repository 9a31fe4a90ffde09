import BinaryTemplate.Proofs.Container

/-!
# Bounded runs

A run with a greatest number of instances ends in two ways only: it has the greatest number, or it
has the least number and nothing is left in the frame. It has no other way out, so every failure of
an instance is the failure of the run, whatever it is and however many instances came before. How
many instances there are is counted by the loop itself; the count is that of the values which the
run completes.
-/

namespace BinaryTemplate.Decoder

open DecodeM

variable {σ : Type} [ByteSource σ] {d : Decoder σ} {child : d.DecodeChild} {p : Place}
  {n : Node d.schema} {st st' : DecodeState σ}

/-! ## Counting -/

/-- The instances of a run after the first `count`, as `repeatFrom` decodes them, with the number
that the run has counted in the end. -/
def repeatCounted (d : Decoder σ) (child : d.DecodeChild) (n : Node d.schema) (min : Nat)
    (max : Option Nat) : (room count : Nat) → Place → DecodeM σ (Place × Nat)
  | room, count, p => do
    if max.any (· ≤ count) then return (p, count)
    let mark ← Mark.take n
    if min ≤ count then
      if ← exhausted p mark.position then return (p, count)
    match room with
    | 0 => fail n mark.position (.repeatLimit d.options.maxRepeat)
    | room + 1 =>
      match ← outcome (child p n) with
      | .ok v =>
        if v.len = 0 ∧ max.isNone then return (p.complete v, count + 1)
        repeatCounted d child n min max room (count + 1) (p.complete v)
      | .error e =>
        if max.isNone && min ≤ count && e.isMismatch then
          record (.runEnded n.label count e)
          mark.rewind n
          return (p, count)
        throw e

/-- A run with the number of its instances. -/
def decodeCounted (d : Decoder σ) (child : d.DecodeChild) (p : Place) (n : Node d.schema) :
    DecodeM σ (Place × Nat) := do
  let offset ← tell n
  let (min, max) ← d.repeatBounds p n offset
  d.repeatCounted child n min max d.options.maxRepeat 0 p

theorem fst_repeatCounted (min : Nat) (max : Option Nat) (room count : Nat) (p : Place) :
    Prod.fst <$> d.repeatCounted child n min max room count p =
      d.repeatFrom child n min max room count p := by
  have failed (offset : Nat) (failure : Failure) :
      Prod.fst <$> (fail n offset failure : DecodeM σ (Place × Nat)) = fail n offset failure := rfl
  have thrown (e : DecodeError) :
      Prod.fst <$> (throw e : DecodeM σ (Place × Nat)) = throw e := rfl
  induction room generalizing count p with
  | zero =>
    rw [repeatFrom.eq_def, repeatCounted.eq_def]
    simp only [apply_ite (Prod.fst <$> ·), map_bind, map_pure, failed]
  | succ room inductionHypothesis =>
    rw [repeatFrom.eq_def, repeatCounted.eq_def]
    simp only [apply_ite (Prod.fst <$> ·), map_bind, map_pure]
    refine ite_congr rfl (fun _ => rfl) fun _ => bind_congr fun mark => ?_
    -- With the minimum or without it, one more instance is tried.
    refine ite_congr rfl (fun _ => bind_congr fun spent => ite_congr rfl (fun _ => rfl) fun _ => ?_)
      fun _ => ?_
    all_goals
      refine bind_congr fun result => ?_
      cases result <;>
        simp only [apply_ite (Prod.fst <$> ·), map_bind, map_pure, thrown, inductionHypothesis]

/-- The run is the one that is counted. -/
theorem fst_decodeCounted :
    Prod.fst <$> d.decodeCounted child p n = d.decodeRepeated child p n := by
  simp only [decodeCounted, decodeRepeated, map_bind, fst_repeatCounted]

/-! ## Rounds -/

/-- Asked for its cursor, the source tells one at which nothing is left in the innermost frame, and
no bits are unread. -/
def FoundSpent (p : Place) (n : Node d.schema) (st st' : DecodeState σ) : Prop :=
  ∃ position, Returns (tell n) st position st' ∧ p.limit ≤ position ∧ st'.pending = []

/-- A run with `count` instances behind it goes on to an attempt at one more: it has not yet the
greatest number, and where it has the least number, something is left in the frame. -/
structure GoesOn (p : Place) (n : Node d.schema) (least most count : Nat)
    (st start : DecodeState σ) : Prop where
  below : count < most
  told : ∃ position, Returns (tell n) st position start
  left : least ≤ count → ¬ FoundSpent p n st start

theorem take_iff {mark : Mark} :
    Returns (Mark.take n) st mark st' ↔
      Returns (tell n) st mark.position st' ∧ mark.pending = st'.pending ∧
        mark.warnings = st'.warnings := by
  simp only [Mark.take, returns_bind, returns_get, returns_pure]
  constructor
  · rintro ⟨position, _, tells, _, _, ⟨rfl, rfl⟩, rfl, rfl⟩
    exact ⟨tells, rfl, rfl⟩
  · rintro ⟨tells, pending, warnings⟩
    refine ⟨_, st', tells, st', st', ⟨rfl, rfl⟩, ?_, rfl⟩
    rw [← pending, ← warnings]

/-- Whether the frame is spent at the mark is what the source tells of its cursor. -/
theorem foundSpent_iff {mark : Mark} (takes : Returns (Mark.take n) st mark st') :
    FoundSpent p n st st' ↔ (decide (p.limit ≤ mark.position) && st'.pending.isEmpty) = true := by
  have tells := (take_iff.mp takes).1
  simp only [FoundSpent, Bool.and_eq_true, decide_eq_true_eq, List.isEmpty_iff]
  constructor
  · rintro ⟨position, told, spent⟩
    obtain ⟨rfl, -⟩ := tells.unique told
    exact spent
  · intro spent
    exact ⟨mark.position, tells, spent⟩

/-- A bounded run that goes on ends as the attempt at the next instance does: it goes on behind the
instance, and it has no use for the failure of the attempt but to pass it on. -/
theorem repeatCounted_attempts {least most room count : Nat} {start : DecodeState σ}
    (goes : GoesOn p n least most count st start) :
    (d.repeatCounted child n least (some most) (room + 1) count p).ending st =
      match (child p n).ending start with
      | (.ok v, mid) =>
        (d.repeatCounted child n least (some most) room (count + 1) (p.complete v)).ending mid
      | (.error e, failed) => (.error e, failed) := by
  obtain ⟨position, tells⟩ := goes.told
  have takes : Returns (Mark.take n) st ⟨position, start.pending, start.warnings⟩ start :=
    take_iff.mpr ⟨tells, rfl, rfl⟩
  have below : (some most).any (· ≤ count) = false := by simpa using goes.below
  rw [repeatCounted.eq_def]
  simp only [below, Bool.false_eq_true, if_false]
  rw [ending_behind takes]
  -- Both ways come to the attempt: the frame is only looked at behind the least number.
  have attempt : (do
      match ← outcome (child p n) with
      | .ok v =>
        if v.len = 0 ∧ (some most).isNone then return (p.complete v, count + 1)
        d.repeatCounted child n least (some most) room (count + 1) (p.complete v)
      | .error e =>
        if (some most).isNone && least ≤ count && e.isMismatch then
          record (.runEnded n.label count e)
          Mark.rewind n ⟨position, start.pending, start.warnings⟩
          return (p, count)
        throw e : DecodeM σ (Place × Nat)).ending start =
      match (child p n).ending start with
      | (.ok v, mid) =>
        (d.repeatCounted child n least (some most) room (count + 1) (p.complete v)).ending mid
      | (.error e, failed) => (.error e, failed) := by
    rcases ended : (child p n).ending start with ⟨e | v, after⟩
    · rw [ending_behind (returns_outcome.mpr (.inr ⟨e, rfl, ended⟩))]
      rfl
    · rw [ending_behind (returns_outcome.mpr (.inl ⟨v, rfl, ended⟩))]
      exact congrArg (ending · after) (if_neg (not_and_of_not_right _ Bool.false_ne_true))
  by_cases enough : least ≤ count
  · have unspent := mt (foundSpent_iff (p := p) takes).mpr (goes.left enough)
    rw [if_pos enough, ending_behind (exhausted_returns.mpr ⟨rfl, rfl⟩), if_neg unspent]
    exact attempt
  · rw [if_neg enough]
    exact attempt

/-- One round of a bounded run that returns: it ends with its greatest number or where the frame is
found spent, or it goes on behind one more instance. -/
theorem repeatCounted_round {least most room count total : Nat} {p' : Place}
    (h : Returns (d.repeatCounted child n least (some most) room count p) st (p', total) st') :
    (p' = p ∧ total = count ∧
      (most ≤ count ∧ st' = st ∨ count < most ∧ least ≤ count ∧ FoundSpent p n st st')) ∨
      ∃ start v mid rest, room = rest + 1 ∧ GoesOn p n least most count st start ∧
        Returns (child p n) start v mid ∧
        Returns (d.repeatCounted child n least (some most) rest (count + 1) (p.complete v)) mid
          (p', total) st' := by
  have whole := h
  rw [repeatCounted.eq_def] at h
  simp only [returns_ite, returns_bind, returns_pure, exhausted_returns, Prod.mk.injEq,
    Option.any_some, decide_eq_true_eq] at h
  obtain ⟨full, ⟨rfl, rfl⟩, rfl⟩ | ⟨free, mark, start, takes, h⟩ := h
  · exact .inl ⟨rfl, rfl, .inl ⟨full, rfl⟩⟩
  have below : count < most := Nat.lt_of_not_le free
  have told : ∃ position, Returns (tell n) st position start := ⟨_, (take_iff.mp takes).1⟩
  -- A run that goes on with room for an instance has not ended with the attempt.
  have further (goes : GoesOn p n least most count st start) (rooms : room ≠ 0) :
      ∃ start v mid rest, room = rest + 1 ∧ GoesOn p n least most count st start ∧
        Returns (child p n) start v mid ∧
        Returns (d.repeatCounted child n least (some most) rest (count + 1) (p.complete v)) mid
          (p', total) st' := by
    obtain ⟨rest, rfl⟩ := Nat.exists_eq_succ_of_ne_zero rooms
    have ended := (repeatCounted_attempts goes).symm.trans whole
    rcases decoded : (child p n).ending start with ⟨e | v, mid⟩
    · rw [decoded] at ended
      cases ended
    · rw [decoded] at ended
      exact ⟨start, v, mid, rest, rfl, goes, decoded, ended⟩
  obtain ⟨enough, _, _, ⟨rfl, rfl⟩, ⟨spent, ⟨rfl, rfl⟩, rfl⟩ | ⟨unspent, h⟩⟩ | ⟨few, h⟩ := h
  · exact .inl ⟨rfl, rfl, .inr ⟨below, enough, (foundSpent_iff takes).mpr spent⟩⟩
  · refine .inr (further ⟨below, told, fun _ => mt (foundSpent_iff takes).mp unspent⟩ ?_)
    rintro rfl
    exact returns_fail h
  · refine .inr (further ⟨below, told, fun enough => absurd enough few⟩ ?_)
    rintro rfl
    exact returns_fail h

/-! ## Runs -/

/-- The instances of a bounded run, one behind the other: at each of them the run goes on. -/
inductive Instances (child : d.DecodeChild) (n : Node d.schema) (least most : Nat) :
    (count : Nat) → Place → DecodeState σ → List Value → DecodeState σ → Prop
  | nil {count : Nat} {p : Place} {st : DecodeState σ} :
      Instances child n least most count p st [] st
  | cons {count : Nat} {p : Place} {st start mid st' : DecodeState σ} {v : Value} {vs : List Value}
      (goes : GoesOn p n least most count st start) (decoded : Returns (child p n) start v mid)
      (rest : Instances child n least most (count + 1) (p.complete v) mid vs st') :
      Instances child n least most count p st (v :: vs) st'

/-- A bounded run returns with its greatest number, or behind its least number where the frame is
found spent; what it has counted are the instances that it has completed. -/
theorem repeatCounted_returns {least most room count total : Nat} {p' : Place}
    (below : count ≤ most)
    (h : Returns (d.repeatCounted child n least (some most) room count p) st (p', total) st') :
    ∃ vs mid, total = count + vs.length ∧ p' = p.completeAll vs ∧
      Instances child n least most count p st vs mid ∧
      (total = most ∧ st' = mid ∨ total < most ∧ least ≤ total ∧ FoundSpent p' n mid st') := by
  induction room generalizing count p st with
  | zero =>
    obtain ⟨rfl, rfl, ⟨full, rfl⟩ | ⟨free, enough, spent⟩⟩ | ⟨_, _, _, _, impossible, -⟩ :=
      repeatCounted_round h
    · exact ⟨[], _, rfl, rfl, .nil, .inl ⟨Nat.le_antisymm below full, rfl⟩⟩
    · exact ⟨[], _, rfl, rfl, .nil, .inr ⟨free, enough, spent⟩⟩
    · cases impossible
  | succ room inductionHypothesis =>
    obtain ⟨rfl, rfl, ⟨full, rfl⟩ | ⟨free, enough, spent⟩⟩ |
      ⟨start, v, mid, rest, same, goes, decoded, others⟩ := repeatCounted_round h
    · exact ⟨[], _, rfl, rfl, .nil, .inl ⟨Nat.le_antisymm below full, rfl⟩⟩
    · exact ⟨[], _, rfl, rfl, .nil, .inr ⟨free, enough, spent⟩⟩
    · obtain rfl : room = rest := Nat.succ.inj same
      obtain ⟨vs, last, counted, completed, instances, ended⟩ :=
        inductionHypothesis goes.below others
      refine ⟨v :: vs, last, ?_, completed, .cons goes decoded instances, ended⟩
      rw [counted, List.length_cons]
      omega

/-- Whatever the failure of an attempt is and however many instances came before, it is the failure
of the run. -/
theorem Instances.throws {least most count room : Nat} {mid start failed : DecodeState σ}
    {vs : List Value} {e : DecodeError} (h : Instances child n least most count p st vs mid)
    (rooms : vs.length < room)
    (goes : GoesOn (p.completeAll vs) n least most (count + vs.length) mid start)
    (fails : Throws (child (p.completeAll vs) n) start e failed) :
    Throws (d.repeatCounted child n least (some most) room count p) st e failed := by
  induction h generalizing room with
  | nil =>
    obtain ⟨room, rfl⟩ := Nat.exists_eq_succ_of_ne_zero (Nat.ne_of_gt rooms)
    refine (repeatCounted_attempts goes).trans ?_
    rw [show (child _ n).ending start = (.error e, failed) from fails]
  | @cons count _ _ _ _ _ v vs here decoded rest inductionHypothesis =>
    cases room with
    | zero => exact absurd rooms (Nat.not_lt_zero _)
    | succ room =>
      refine (repeatCounted_attempts here).trans ?_
      rw [show (child _ n).ending _ = (.ok v, _) from decoded]
      refine inductionHypothesis (Nat.lt_of_succ_lt_succ rooms) ?_ fails
      rw [Nat.add_assoc, Nat.add_comm 1 vs.length]
      exact goes

/-! ## The run of an element -/

/-- A bounded run swallows nothing: it returns with its greatest number of instances, or behind its
least where the frame is found spent, and has completed as many values as it has counted; and the
failure of an instance, whatever it is and however many came before, is its own failure. -/
theorem bounded_run_swallows_nothing (d : Decoder σ) (child : d.DecodeChild) (p : Place)
    (n : Node d.schema) (min most : Nat) (st : DecodeState σ)
    (bounds : d.Bounds p n min (some most)) :
    Prod.fst <$> d.decodeCounted child p n = d.decodeRepeated child p n ∧
      (∀ p' count st', Returns (d.decodeCounted child p n) st (p', count) st' →
        ∃ position start vs last, Returns (tell n) st position start ∧
          Instances child n (Nat.min min most) most 0 p start vs last ∧
          count = vs.length ∧ p' = p.completeAll vs ∧
          p'.inner.children = p.inner.children ++ vs ∧
          (count = most ∧ st' = last ∨
            Nat.min min most ≤ count ∧ count < most ∧ FoundSpent p' n last st')) ∧
      ∀ position start vs last begun e failed, Returns (tell n) st position start →
        Instances child n (Nat.min min most) most 0 p start vs last →
        vs.length < d.options.maxRepeat →
        GoesOn (p.completeAll vs) n (Nat.min min most) most vs.length last begun →
        Throws (child (p.completeAll vs) n) begun e failed →
        Throws (d.decodeRepeated child p n) st e failed := by
  have bounded (offset : Nat) (at_ : DecodeState σ) :
      Returns (d.repeatBounds p n offset) at_ (Nat.min min most, some most) at_ :=
    repeatBounds_returns.mpr ⟨⟨min, bounds, rfl⟩, rfl⟩
  refine ⟨fst_decodeCounted, ?_, ?_⟩
  · intro p' count st' returned
    obtain ⟨position, start, tells, returned⟩ := returns_bind.mp returned
    obtain ⟨_, _, found, returned⟩ := returns_bind.mp returned
    obtain ⟨rfl, rfl⟩ := (bounded position start).unique found
    obtain ⟨vs, last, counted, rfl, instances, ended⟩ :=
      repeatCounted_returns (Nat.zero_le most) returned
    rw [Nat.zero_add] at counted
    refine ⟨position, start, vs, last, tells, instances, counted, rfl,
      Place.children_completeAll p vs, ?_⟩
    obtain full | ⟨below, enough, spent⟩ := ended
    · exact .inl full
    · exact .inr ⟨enough, below, spent⟩
  · intro position start vs last begun e failed tells instances room goes fails
    rw [← Nat.zero_add vs.length] at goes
    have counted : Throws (d.decodeCounted child p n) st e failed := by
      rw [decodeCounted, throws_behind tells, throws_behind (bounded position start)]
      exact instances.throws room goes fails
    rw [← fst_decodeCounted, map_eq_pure_bind]
    exact throws_bind.mpr (.inl counted)

/-- A structure of one to three tags; a tag is a byte with the value one. -/
def tags : Decoder Slice where
  schema :=
    { elements := #[
        ⟨{}, .structure { children := [⟨1⟩] }⟩,
        ⟨{ repeatMax := some (.literal 3) },
          .number { extent := { length := some (.literal 1) }, values := some [⟨"one", 1⟩] }⟩]
      root := ⟨0⟩ }

def tagsRoot : Node tags.schema := ⟨⟨0⟩, _, rfl⟩

def tagNode : Node tags.schema := ⟨⟨1⟩, _, rfl⟩

/-- The frame of the structure over so many bytes. -/
def tagFrame (size : Nat) : Place := inside (startPlace ⟨0⟩ 0 size) tagsRoot none 0 none

/-- The tag at a position. -/
def tagAt (position : Nat) : Value :=
  ⟨⟨1⟩, position, 1, some .little, .number (.unsigned 1) (some "one") [] none, []⟩

/-- Behind the first of some bytes. -/
def behindTag (bytes : Array UInt8) : DecodeState Slice :=
  ((tags.decodeOne 1 (tagFrame bytes.size) tagNode).ending { source := ⟨bytes, 0⟩ }).2

/-- Where the second of some bytes, which is no tag, is rejected. -/
def rejectedTag (bytes : Array UInt8) : DecodeState Slice :=
  ((tags.decodeOne 1 ((tagFrame bytes.size).complete (tagAt 0)) tagNode).ending
    (behindTag bytes)).2

theorem tags_bounds (p : Place) : tags.Bounds p tagNode 1 (some 3) :=
  ⟨.literal 1, .literal 3, 1, 3, by cbv, by cbv, rfl, rfl, by decide, by decide⟩

/-- The end of the frame ends the run behind one tag; a byte that is no tag does not. -/
theorem bounded_run_of_tags :
    (∃ p' last st', Returns (tags.decodeCounted (tags.decodeOne 1) (tagFrame 1) tagNode)
        { source := ⟨#[1], 0⟩ } (p', 1) st' ∧ FoundSpent p' tagNode last st') ∧
      Throws (tags.decodeRepeated (tags.decodeOne 1) (tagFrame 2) tagNode)
        { source := ⟨#[1, 2], 0⟩ }
        ⟨⟨1⟩, "number#1", 1, .mustMatch "2" ["one=1"]⟩ (rejectedTag #[1, 2]) := by
  constructor
  · have run := (bounded_run_swallows_nothing tags (tags.decodeOne 1) (tagFrame 1) tagNode 1 3
      { source := ⟨#[1], 0⟩ } (tags_bounds _)).2.1
    have returned : Returns (tags.decodeCounted (tags.decodeOne 1) (tagFrame 1) tagNode)
        { source := ⟨#[1], 0⟩ } ((tagFrame 1).complete (tagAt 0), 1)
        ((tags.decodeCounted (tags.decodeOne 1) (tagFrame 1) tagNode).ending
          { source := ⟨#[1], 0⟩ }).2 := Prod.ext (by cbv) rfl
    obtain ⟨-, -, -, last, -, -, -, -, -, full | ⟨-, -, spent⟩⟩ := run _ _ _ returned
    · cases full.1
    · exact ⟨_, last, _, returned, spent⟩
  · have run := (bounded_run_swallows_nothing tags (tags.decodeOne 1) (tagFrame 2) tagNode 1 3
      { source := ⟨#[1, 2], 0⟩ } (tags_bounds _)).2.2
    have goes (p : Place) (count position : Nat) (st : DecodeState Slice) (below : count < 3)
        (left : position < p.limit) (told : Returns (DecodeM.tell tagNode) st position st) :
        GoesOn p tagNode 1 3 count st st := by
      refine ⟨below, ⟨position, told⟩, fun _ => ?_⟩
      rintro ⟨position', told', spent, -⟩
      obtain ⟨rfl, -⟩ := told.unique told'
      omega
    exact run 0 { source := ⟨#[1, 2], 0⟩ } [tagAt 0] (behindTag #[1, 2]) (behindTag #[1, 2]) _ _
      (Prod.ext (by cbv) (by cbv))
      (.cons (goes _ _ 0 _ (by decide) (by decide) (Prod.ext (by cbv) (by cbv)))
        (Prod.ext (by cbv) rfl) .nil)
      (by decide) (goes _ _ 1 _ (by decide) (by decide) (Prod.ext (by cbv) (by cbv)))
      (Prod.ext (by cbv) rfl)

end BinaryTemplate.Decoder
