import BinaryTemplate.Proofs.Number
import BinaryTemplate.Source.Cursor

/-!
# Devices that serve bytes

A device serves the bytes of a slice if it moves its cursor as the slice does and gives, request by
request, the bytes that are next in the slice. How many it gives at a time is its own affair, as
long as there is one among them before the end of the bytes; and so is how often it is interrupted
before it gives any.

The source over such a device answers and moves as the slice does. There is one exception: nothing
is read from behind the end of the bytes without complaint by the source over a device, while a
slice calls even that a short read.
-/

namespace BinaryTemplate

namespace Slice

/-- The number of bytes from the cursor to the end. -/
def left (s : Slice) : Nat := s.data.size - s.cursor

/-- The slice behind so many more of its bytes. -/
def skip (s : Slice) (count : Nat) : Slice := { s with cursor := s.cursor + count }

@[simp] theorem data_skip (s : Slice) (count : Nat) : (s.skip count).data = s.data := rfl

@[simp] theorem cursor_skip (s : Slice) (count : Nat) :
    (s.skip count).cursor = s.cursor + count := rfl

@[simp] theorem skip_zero (s : Slice) : s.skip 0 = s := rfl

@[simp] theorem skip_skip (s : Slice) (first more : Nat) :
    (s.skip first).skip more = s.skip (first + more) := by
  simp [skip, Nat.add_assoc]

theorem left_skip (s : Slice) (count : Nat) : (s.skip count).left = s.left - count := by
  simp only [left, data_skip, cursor_skip]
  omega

/-- The cursor and the number of bytes are positions that the devices of this library can tell. -/
structure Addressable (s : Slice) : Prop where
  cursor : s.cursor < positionLimit
  size : s.data.size < positionLimit

end Slice

theorem SeekTarget.within?_natCast {position : Nat} (small : position < positionLimit) :
    SeekTarget.resolve?.within? position = some position := by
  unfold SeekTarget.resolve?.within?
  rw [if_pos ⟨Int.natCast_nonneg position, Int.ofNat_lt.mpr small⟩, Int.toNat_natCast]

/-- As many bytes of a window as there are. -/
theorem length_window_eq (data : Array UInt8) (start count : Nat) :
    (window data start count).length = min count (data.size - start) := by
  simp only [window, Array.length_toList, Array.size_extract]
  omega

/-- A window ends with the data. -/
theorem window_min (data : Array UInt8) (start count : Nat) :
    window data start (min count (data.size - start)) = window data start count := by
  unfold window
  congr 1
  by_cases inside : start + count ≤ data.size
  · rw [Nat.min_eq_left (by omega)]
  · rw [Array.extract_eq_extract_right]
    omega

/-- A window that reaches the end of the data does not depend on how far it would reach. -/
theorem window_of_short {data : Array UInt8} {start count more : Nat}
    (short : data.size - start ≤ count) (short' : data.size - start ≤ more) :
    window data start count = window data start more := by
  rw [← window_min data start count, ← window_min data start more, Nat.min_eq_right short,
    Nat.min_eq_right short']

/-- A window has no bytes only if it wants none or starts behind the data. -/
theorem window_eq_nil_iff {data : Array UInt8} {start count : Nat} :
    window data start count = [] ↔ min count (data.size - start) = 0 := by
  rw [← List.length_eq_zero_iff, length_window_eq]

namespace Slice

/-- All of `count` bytes at `offset`, where no bytes at all can be had anywhere. -/
def wholeAt (s : Slice) (count offset : Nat) : Except InputError (List UInt8) :=
  if s.data.size - offset < count then
    .error (.shortRead offset count (window s.data offset count))
  else .ok (window s.data offset count)

/-- An empty read behind the end of the bytes. -/
def Hollow (s : Slice) (count offset : Nat) : Prop := count = 0 ∧ s.data.size < offset

instance (s : Slice) (count offset : Nat) : Decidable (s.Hollow count offset) :=
  inferInstanceAs (Decidable (_ ∧ _))

/-- Only empty reads behind the end are answered as if there were bytes missing. -/
theorem bytesAt_of_not_hollow {s : Slice} {count offset : Nat}
    (solid : ¬ s.Hollow count offset) : s.bytesAt count offset = s.wholeAt count offset := by
  unfold Hollow at solid
  unfold bytesAt wholeAt
  by_cases short : s.data.size < offset + count
  · rw [if_pos short, if_pos (by omega),
      @window_of_short s.data offset s.data.size count (by omega) (by omega)]
  · rw [if_neg short, if_neg (by omega)]

theorem bytesAt_of_hollow {s : Slice} {count offset : Nat} (hollow : s.Hollow count offset) :
    s.bytesAt count offset = .error (.shortRead offset 0 []) := by
  obtain ⟨rfl, behind⟩ := hollow
  unfold bytesAt
  rw [if_pos (Nat.lt_of_lt_of_eq behind (Nat.add_zero offset).symm), window_eq_nil_iff.mpr]
  omega

theorem wholeAt_of_hollow {s : Slice} {count offset : Nat} (hollow : s.Hollow count offset) :
    s.wholeAt count offset = .ok [] := by
  obtain ⟨rfl, -⟩ := hollow
  unfold wholeAt
  rw [if_neg (Nat.not_lt_zero _), window_eq_nil_iff.mpr (Nat.zero_min _)]

/-- A read at the cursor answers like one at an offset, and moves over the bytes there are. -/
theorem readExact_eq (s : Slice) (count : Nat) :
    (ByteSource.readExact count : SourceM Slice (List UInt8)) s =
      (s.bytesAt count s.cursor, s.skip (min count s.left)) := by
  rw [readExact_apply, bytesAt]
  unfold left
  by_cases short : s.data.size < s.cursor + count
  · rw [if_pos short]
    have moved : max s.cursor s.data.size = s.cursor + min count (s.data.size - s.cursor) := by
      omega
    show (_, { s with cursor := max s.cursor s.data.size }) = _
    rw [moved]
    rfl
  · rw [if_neg short]
    have all : min count (s.data.size - s.cursor) = count := by omega
    rw [all]
    rfl

theorem readExactAt_eq (s : Slice) (count offset : Nat) :
    (ByteSource.readExactAt count offset : SourceM Slice (List UInt8)) s =
      (s.bytesAt count offset, s) := by
  show (liftExcept (s.bytesAt count offset) : SourceM Slice (List UInt8)) s = _
  cases s.bytesAt count offset with
  | ok bytes => rfl
  | error e => rfl

end Slice

namespace Reader

variable {ρ : Type} [Reader ρ]

/-- Where `R s r` holds, the device `r` serves the bytes of the slice `s` from its cursor on. -/
structure Serves (R : Slice → ρ → Prop) : Prop where
  seek : ∀ {s : Slice} {r : ρ} {target : SeekTarget} {position : Nat}, R s r →
    target.resolve? s.cursor s.data.size = some position →
    ∃ r', Reader.seek target r = (.ok position, r') ∧ R { s with cursor := position } r'
  refuse : ∀ {s : Slice} {r : ρ} {target : SeekTarget}, R s r →
    target.resolve? s.cursor s.data.size = none →
    ∃ r', Reader.seek target r = (.error .invalidSeek, r') ∧ R s r'
  /-- A request is interrupted, or it gives some of the bytes wanted; none only at the end. -/
  read : ∀ {s : Slice} {r : ρ} {wanted : Nat}, R s r → 0 < wanted →
    (∃ r', Reader.read wanted r = (.interrupted, r') ∧ R s r') ∨
    ∃ count r', Reader.read wanted r = (.bytes (window s.data s.cursor count), r') ∧
      count ≤ min wanted s.left ∧ (0 < s.left → 0 < count) ∧ R (s.skip count) r'

variable {R : Slice → ρ → Prop} {s s' : Slice} {r : ρ}

namespace Serves

variable {wanted : Nat} {r' : ρ} (serves : Serves R) (related : R s r) (wants : 0 < wanted)

include serves related wants

/-- What a request gives is next in the slice. -/
theorem gives {got : List UInt8} (given : Reader.read wanted r = (.bytes got, r')) :
    got = window s.data s.cursor got.length ∧ got.length ≤ min wanted s.left ∧
      (0 < s.left → 0 < got.length) ∧ R (s.skip got.length) r' := by
  obtain ⟨_, interrupted, -⟩ | ⟨count, _, gave, small, more, behind⟩ := serves.read related wants
  · cases given.symm.trans interrupted
  · cases given.symm.trans gave
    have length : (window s.data s.cursor count).length = count := by
      rw [length_window_eq]
      unfold Slice.left at small
      omega
    rw [length]
    exact ⟨rfl, small, more, behind⟩

theorem waits (interrupted : Reader.read wanted r = (.interrupted, r')) : R s r' := by
  obtain ⟨_, again, still⟩ | ⟨_, _, given, -⟩ := serves.read related wants
  · cases interrupted.symm.trans again
    exact still
  · cases interrupted.symm.trans given

theorem not_failed {fault : DeviceFault} : Reader.read wanted r ≠ (.failed fault, r') := by
  intro failed
  obtain ⟨_, interrupted, -⟩ | ⟨_, _, given, -⟩ := serves.read related wants
  · cases failed.symm.trans interrupted
  · cases failed.symm.trans given

end Serves

/-! ## One request after another -/

section Requests

variable {wanted : Nat} {r' : ρ} (wants : wanted ≠ 0)

include wants

theorem fill_of_end (ended : Reader.read wanted r = (.bytes [], r')) :
    fill wanted r = (.ok [], r') := by
  rw [fill, if_neg wants]
  split <;> rename_i outcome <;> cases ended.symm.trans outcome
  rfl

theorem fill_of_interrupted (interrupted : Reader.read wanted r = (.interrupted, r')) :
    fill wanted r = fill wanted r' := by
  rw [fill, if_neg wants]
  split <;> rename_i outcome <;> cases interrupted.symm.trans outcome
  rfl

theorem fill_of_bytes {b : UInt8} {more rest : List UInt8} {r'' : ρ}
    (given : Reader.read wanted r = (.bytes (b :: more), r'))
    (filled : fill (wanted - (more.length + 1)) r' = (.ok rest, r'')) :
    fill wanted r = (.ok (b :: more ++ rest), r'') := by
  rw [fill, if_neg wants]
  split <;> rename_i outcome <;> cases given.symm.trans outcome
  rw [filled]

end Requests

/-- A request that gives bytes leaves fewer to be wanted. -/
theorem fill_more (serves : Serves R) (related : R s r) {wanted : Nat} {r' : ρ} {b : UInt8}
    {bytes : List UInt8} (wants : wanted ≠ 0)
    (given : Reader.read wanted r = (.bytes (b :: bytes), r'))
    (rest : ∀ {s' : Slice}, R s' r' →
      ∃ r'', fill (wanted - (bytes.length + 1)) r' =
          (.ok (window s'.data s'.cursor (wanted - (bytes.length + 1))), r'') ∧
        R (s'.skip (min (wanted - (bytes.length + 1)) s'.left)) r'') :
    ∃ r'', fill wanted r = (.ok (window s.data s.cursor wanted), r'') ∧
      R (s.skip (min wanted s.left)) r'' := by
  obtain ⟨next, small, -, behind⟩ := serves.gives related (Nat.pos_of_ne_zero wants) given
  rw [List.length_cons] at next small behind
  obtain ⟨r'', filled, last⟩ := rest behind
  have all : bytes.length + 1 + (wanted - (bytes.length + 1)) = wanted := by omega
  have total : bytes.length + 1 + min (wanted - (bytes.length + 1))
      (s.left - (bytes.length + 1)) = min wanted s.left := by omega
  refine ⟨r'', ?_, ?_⟩
  · rw [fill_of_bytes wants given filled, next, Slice.data_skip, Slice.cursor_skip,
      Decoder.window_add, all]
  · rw [Slice.skip_skip, Slice.left_skip, total] at last
    exact last

/-- However the bytes come, as many are read as wanted or as there are. -/
theorem fill_serves (serves : Serves R) (wanted : Nat) (related : R s r) :
    ∃ r', fill wanted r = (.ok (window s.data s.cursor wanted), r') ∧
      R (s.skip (min wanted s.left)) r' := by
  induction wanted, r using fill.induct generalizing s with
  | case1 r =>
    refine ⟨r, ?_, by simpa using related⟩
    rw [fill, if_pos rfl, window_eq_nil_iff.mpr (Nat.zero_min _)]
  | case2 wanted r wants r' ended =>
    obtain ⟨-, -, none, behind⟩ := serves.gives related (Nat.pos_of_ne_zero wants) ended
    have atEnd : min wanted s.left = 0 := by
      have none := Nat.eq_zero_of_not_pos (mt none (Nat.lt_irrefl 0))
      rw [none, Nat.min_zero]
    rw [fill_of_end wants ended, window_eq_nil_iff.mpr atEnd, atEnd]
    exact ⟨r', rfl, behind⟩
  | case3 wanted r wants b bytes r' given rest r'' filled inductionHypothesis =>
    exact fill_more serves related wants given inductionHypothesis
  | case4 wanted r wants b bytes r' given fault r'' failed inductionHypothesis =>
    exact fill_more serves related wants given inductionHypothesis
  | case5 wanted r wants r' interrupted inductionHypothesis =>
    rw [fill_of_interrupted wants interrupted]
    exact inductionHypothesis (serves.waits related (Nat.pos_of_ne_zero wants) interrupted)
  | case6 wanted r wants fault r' failed =>
    exact absurd failed (serves.not_failed related (Nat.pos_of_ne_zero wants))

/-! ## The source over a device -/

section Answers

variable {α β : Type}

/-- The operation answers so, and leaves a device that serves the slice `s`. -/
def Ends (R : Slice → ρ → Prop) (operation : SourceM ρ α) (r : ρ) (answer : Except InputError α)
    (s : Slice) : Prop :=
  ∃ r', operation r = (answer, r') ∧ R s r'

omit [Reader ρ]

theorem Ends.of_related (related : R s r) (answer : Except InputError α) :
    Ends R (fun r => (answer, r)) r answer s :=
  ⟨r, rfl, related⟩

theorem Ends.bind {operation : SourceM ρ α} {next : α → SourceM ρ β} {a : α}
    {answer : Except InputError β} (first : Ends R operation r (.ok a) s)
    (rest : ∀ r', R s r' → Ends R (next a) r' answer s') :
    Ends R (operation >>= next) r answer s' := by
  obtain ⟨r', ended, related⟩ := first
  obtain ⟨r'', ended', related'⟩ := rest r' related
  exact ⟨r'', (bind_of_ok ended).trans ended', related'⟩

/-- What fails fails as a whole. -/
theorem Ends.bind_error {operation : SourceM ρ α} {next : α → SourceM ρ β} {e : InputError}
    (first : Ends R operation r (.error e) s) : Ends R (operation >>= next) r (.error e) s := by
  obtain ⟨r', ended, related⟩ := first
  exact ⟨r', bind_of_error ended, related⟩

/-- What is done to the answer of an operation is done to its outcome. -/
theorem Ends.map {operation : SourceM ρ α} {answer : Except InputError α}
    (ends : Ends R operation r answer s) (f : α → β) :
    Ends R (do return f (← operation)) r (answer.map f) s := by
  cases answer with
  | ok a => exact ends.bind fun _ related => .of_related related _
  | error e => exact ends.bind_error

end Answers

section Operations

variable (serves : Serves R) (related : R s r)

include serves related

/-- Where the slice moves its cursor, the device does; where the slice refuses, so does it. -/
theorem seek_ends (target : SeekTarget) :
    let moved := (ByteSource.seek target : SourceM Slice Nat) s
    Ends R (ByteSource.seek target) r moved.1 moved.2 := by
  intro moved
  cases resolved : target.resolve? s.cursor s.data.size with
  | some position =>
    obtain ⟨r', sought, behind⟩ := serves.seek related resolved
    have moves : moved = (.ok position, { s with cursor := position }) := by
      show (ByteSource.seek target : SourceM Slice Nat) s = _
      rw [Slice.seek_apply, resolved]
      rfl
    rw [moves]
    refine ⟨r', ?_, behind⟩
    show lift (Reader.seek target) r = _
    rw [lift, sought]
  | none =>
    obtain ⟨r', refused, still⟩ := serves.refuse related resolved
    have stays : moved = (.error (.device .invalidSeek), s) := by
      show (ByteSource.seek target : SourceM Slice Nat) s = _
      rw [Slice.seek_apply, resolved]
      rfl
    rw [stays]
    refine ⟨r', ?_, still⟩
    show lift (Reader.seek target) r = _
    rw [lift, refused]

theorem seekTo_start_ends (position : Nat) :
    Ends R (seekTo (.start position)) r (.ok position) { s with cursor := position } :=
  seek_ends serves related (.start position)

theorem fill_ends (wanted : Nat) :
    Ends R (lift (fill wanted)) r (.ok (window s.data s.cursor wanted))
      (s.skip (min wanted s.left)) := by
  obtain ⟨r', filled, behind⟩ := fill_serves serves wanted related
  refine ⟨r', ?_, behind⟩
  rw [lift, filled]

theorem attempt_fill_ends (wanted : Nat) :
    Ends R (instByteSource.attempt (fill wanted)) r (.ok (.ok (window s.data s.cursor wanted)))
      (s.skip (min wanted s.left)) := by
  obtain ⟨r', filled, behind⟩ := fill_serves serves wanted related
  refine ⟨r', ?_, behind⟩
  rw [instByteSource.attempt, filled]

omit serves [Reader ρ] in
theorem complete_ends {data : Array UInt8} {start count : Nat} (here : s.data = data) :
    Ends R (complete count start (window data start count)) r (s.wholeAt count start) s := by
  subst here
  unfold complete Slice.wholeAt
  rw [length_window_eq]
  by_cases short : s.data.size - start < count
  · rw [if_pos (by omega), if_pos short]
    exact .of_related related _
  · rw [if_neg (by omega), if_neg short]
    exact .of_related related _

variable (addressable : s.Addressable)

include addressable

theorem tell_ends : Ends R (ByteSource.tell : SourceM ρ Nat) r (.ok s.cursor) s := by
  have resolved : (SeekTarget.current 0).resolve? s.cursor s.data.size = some s.cursor := by
    rw [SeekTarget.resolve?, Int.add_zero, SeekTarget.within?_natCast addressable.cursor]
  have moved := seek_ends serves related (.current 0)
  rw [Slice.seek_apply, resolved] at moved
  exact moved

theorem size_ends : Ends R (ByteSource.size : SourceM ρ Nat) r (.ok s.data.size) s := by
  have resolved : (SeekTarget.stop 0).resolve? s.cursor s.data.size = some s.data.size := by
    rw [SeekTarget.resolve?, Int.add_zero, SeekTarget.within?_natCast addressable.size]
  refine (tell_ends serves related addressable).bind fun r' here => ?_
  have moved := seek_ends serves here (.stop 0)
  rw [Slice.seek_apply, resolved] at moved
  refine Ends.bind (s := { s with cursor := s.data.size }) moved fun r'' there => ?_
  exact (seekTo_start_ends serves there s.cursor).bind fun _ back => .of_related back _

theorem readExact_ends (count : Nat) :
    Ends R (ByteSource.readExact count) r (s.wholeAt count s.cursor)
      (s.skip (min count s.left)) := by
  refine (tell_ends serves related addressable).bind fun r' here => ?_
  refine (fill_ends serves here count).bind fun r'' behind => ?_
  exact complete_ends behind rfl

theorem readExactAt_ends (count offset : Nat) :
    Ends R (ByteSource.readExactAt count offset) r (s.wholeAt count offset) s := by
  refine (tell_ends serves related addressable).bind fun r' here => ?_
  refine (seekTo_start_ends serves here offset).bind fun r'' there => ?_
  refine (attempt_fill_ends serves there count).bind fun _ behind => ?_
  refine (seekTo_start_ends serves behind s.cursor).bind fun _ back => ?_
  refine Ends.bind (.of_related back _) fun _ back => ?_
  exact complete_ends back rfl

end Operations

end Reader

/-! ## Devices -/

/-- Reads and seeks of a device never fail by themselves, and every request gives some byte. -/
structure Faults.Harmless (f : Faults) : Prop where
  reads : f.failRead = none
  seeks : f.failSeek = none
  gives : f.chunk ≠ some 0

namespace Cursor

/-- A harmless device over the bytes of the slice, with its cursor at the same place. -/
structure StandsFor (s : Slice) (c : Cursor) : Prop where
  data : c.data = s.data
  position : c.position = s.cursor
  harmless : c.faults.Harmless

/-- The most that a request gives is what it wants or a chunk. -/
theorem allowance_of_harmless {c : Cursor} (harmless : c.faults.Harmless) {wanted : Nat}
    (wants : 0 < wanted) : c.allowance wanted ≤ wanted ∧ 0 < c.allowance wanted := by
  have gives := harmless.gives
  rw [allowance, harmless.reads]
  cases chunk : c.faults.chunk with
  | none => exact ⟨Nat.le_refl wanted, wants⟩
  | some most =>
    rw [chunk] at gives
    have positive : 0 < most := Nat.pos_of_ne_zero fun none => gives (congrArg some none)
    simp only [Option.map_some, Option.getD_some, Option.map_none, Option.getD_none]
    omega

/-- What a request gives that is not interrupted. -/
theorem read_of_harmless {c : Cursor} (harmless : c.faults.Harmless) (wanted : Nat)
    (answered : (c.faults.interrupts && !c.wasInterrupted) = false) :
    let count := min (c.allowance wanted) (c.data.size - c.position)
    c.read wanted = (.bytes (window c.data c.position count),
      { c with wasInterrupted := false, position := c.position + count }) := by
  intro count
  rw [read, answered, if_neg Bool.false_ne_true]
  dsimp only
  rw [harmless.reads, window_min]
  show (ReadOutcome.bytes (window c.data c.position (c.allowance wanted)), { c with
    wasInterrupted := false
    position := c.position + (window c.data c.position (c.allowance wanted)).length }) = _
  rw [length_window_eq]

theorem serves : Reader.Serves StandsFor where
  seek := by
    intro s c target position stands resolved
    refine ⟨{ c with position := position }, ?_, stands.data, rfl, stands.harmless⟩
    show Cursor.seek target c = _
    rw [Cursor.seek, stands.position, stands.data, resolved]
    dsimp only
    rw [stands.harmless.seeks]
    rfl
  refuse := by
    intro s c target stands resolved
    refine ⟨c, ?_, stands⟩
    show Cursor.seek target c = _
    rw [Cursor.seek, stands.position, stands.data, resolved]
  read := by
    intro s c wanted stands wants
    cases interrupted : c.faults.interrupts && !c.wasInterrupted with
    | true =>
      refine .inl ⟨{ c with wasInterrupted := true }, ?_, stands.data, stands.position,
        stands.harmless⟩
      show Cursor.read wanted c = _
      rw [Cursor.read, interrupted, if_pos rfl]
    | false =>
      obtain ⟨small, gives⟩ := allowance_of_harmless stands.harmless wants
      have answer := read_of_harmless stands.harmless wanted interrupted
      rw [stands.data, stands.position] at answer
      exact .inr ⟨min (c.allowance wanted) s.left, _, answer, by omega, by omega, rfl, rfl,
        stands.harmless⟩

end Cursor

/-- One answer of a device to a request: an interruption, or at most so many bytes and one more. -/
inductive Turn where
  | pause
  | give (most : Nat)
deriving DecidableEq, Repr

/-- A device over bytes in memory that answers its requests as its turns say, and gives all that is
wanted once they are used up. -/
structure Paced where
  slice : Slice
  turns : List Turn := []
deriving DecidableEq, Repr

namespace Paced

def seek (target : SeekTarget) (p : Paced) : Except DeviceFault Nat × Paced :=
  match target.resolve? p.slice.cursor p.slice.data.size with
  | some position => (.ok position, { p with slice := { p.slice with cursor := position } })
  | none => (.error .invalidSeek, p)

def give (count : Nat) (p : Paced) : ReadOutcome × Paced :=
  let count := min count p.slice.left
  (.bytes (window p.slice.data p.slice.cursor count), { p with slice := p.slice.skip count })

def read (wanted : Nat) (p : Paced) : ReadOutcome × Paced :=
  match p.turns with
  | [] => p.give wanted
  | .pause :: rest => (.interrupted, { p with turns := rest })
  | .give most :: rest => { p with turns := rest }.give (min wanted (most + 1))

instance : Reader Paced where
  seek := seek
  read := read
  patience p := p.turns.length
  patience_read_lt wanted p h := by
    unfold read at h ⊢
    split at h
    · cases h
    · next rest turns =>
      rw [turns]
      exact Nat.lt_succ_self _
    · cases h

/-- Whatever its turns are, the device serves its bytes. -/
theorem serves : Reader.Serves fun s (p : Paced) => p.slice = s where
  seek := by
    rintro _ p target position rfl resolved
    refine ⟨{ p with slice := { p.slice with cursor := position } }, ?_, rfl⟩
    show Paced.seek target p = _
    rw [Paced.seek, resolved]
  refuse := by
    rintro _ p target rfl resolved
    refine ⟨p, ?_, rfl⟩
    show Paced.seek target p = _
    rw [Paced.seek, resolved]
  read := by
    rintro _ p wanted rfl wants
    show (∃ p', p.read wanted = _ ∧ _) ∨ ∃ count p', p.read wanted = _ ∧ _
    unfold read
    cases p.turns with
    | nil => exact .inr ⟨_, _, rfl, by omega, by omega, rfl⟩
    | cons turn rest =>
      cases turn with
      | pause => exact .inl ⟨_, rfl, rfl⟩
      | give most =>
        refine .inr ⟨min (min wanted (most + 1)) p.slice.left, _, rfl, ?_, ?_, rfl⟩ <;> omega

end Paced

end BinaryTemplate
