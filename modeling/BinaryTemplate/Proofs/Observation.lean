import BinaryTemplate.Proofs.Serving

/-!
# What a client sees of a source

A client of a source moves its cursor, asks for it, and reads. Of each operation it sees the answer
and where the cursor is afterwards. A slice and the source over a device that serves its bytes look
the same, however the device cuts its answers into pieces: the one thing that tells them apart is an
empty read behind the end of the bytes, which a slice takes for a short one.
-/

namespace BinaryTemplate

/-- Where a client moves the cursor, in positions and distances of 64 bits. -/
inductive Whence where
  | start (position : UInt64)
  | current (distance : Int64)
  | stop (distance : Int64)
deriving DecidableEq, Repr

def Whence.target : Whence → SeekTarget
  | start position => .start position.toNat
  | current distance => .current distance.toInt
  | stop distance => .stop distance.toInt

/-- What a client may ask of a source. -/
inductive Operation where
  | seek (whence : Whence)
  | tell
  | size
  | readByte
  | readExact (count : Nat)
  | readExactAt (count : Nat) (offset : UInt64)
deriving DecidableEq, Repr

inductive Answer where
  | position (n : Nat)
  | byte (b : UInt8)
  | bytes (got : List UInt8)
deriving DecidableEq, Repr

/-- What a client sees of one operation: the answer to it, and what the cursor is told to be. -/
structure Sight where
  answer : Except InputError Answer
  cursor : Except InputError Nat

namespace Operation

variable {σ : Type} [ByteSource σ]

def perform : Operation → SourceM σ Answer
  | seek whence => return .position (← ByteSource.seek whence.target)
  | tell => return .position (← ByteSource.tell)
  | size => return .position (← ByteSource.size)
  | readByte => return .byte (← ByteSource.readByte)
  | readExact count => return .bytes (← ByteSource.readExact count)
  | readExactAt count offset => return .bytes (← ByteSource.readExactAt count offset.toNat)

def observe (o : Operation) (source : σ) : Sight × σ :=
  let (answer, source) := o.perform source
  let (cursor, source) := (ByteSource.tell : SourceM σ Nat) source
  (⟨answer, cursor⟩, source)

/-- All that a client sees of one operation after another. -/
def watch : List Operation → σ → List Sight
  | [], _ => []
  | o :: rest, source =>
    let (sight, source) := o.observe source
    sight :: watch rest source

/-- Reads nothing from behind the end of the bytes. -/
def Hollow (s : Slice) : Operation → Prop
  | readExact count => s.Hollow count s.cursor
  | readExactAt count offset => s.Hollow count offset.toNat
  | _ => False

/-- None of the operations, each on the slice that the ones before it leave, reads nothing from
behind the end. -/
def Solid : List Operation → Slice → Prop
  | [], _ => True
  | o :: rest, s => ¬ o.Hollow s ∧ Solid rest (o.observe s).2

end Operation

/-- The answer with no bytes where it was that no bytes are missing. -/
def Answer.mended : Except InputError Answer → Except InputError Answer
  | .error (.shortRead _ 0 _) => .ok (.bytes [])
  | answer => answer

def Sight.mended (x : Sight) : Sight := { x with answer := Answer.mended x.answer }

/-! ## The answers of a slice -/

namespace Slice

variable {s : Slice}

/-- Mended, a slice reads nothing from anywhere. -/
theorem mended_bytesAt (count offset : Nat) :
    Answer.mended ((s.bytesAt count offset).map .bytes) =
      (s.wholeAt count offset).map .bytes := by
  by_cases hollow : s.Hollow count offset
  · rw [bytesAt_of_hollow hollow, wholeAt_of_hollow hollow]
    rfl
  · rw [bytesAt_of_not_hollow hollow]
    unfold wholeAt
    split
    · next short =>
      cases count with
      | zero => exact absurd short (Nat.not_lt_zero _)
      | succ count => rfl
    · rfl

theorem mended_bytesAt_iff {count offset : Nat} :
    Answer.mended ((s.bytesAt count offset).map .bytes) = (s.bytesAt count offset).map .bytes ↔
      ¬ s.Hollow count offset := by
  constructor
  · intro same hollow
    rw [bytesAt_of_hollow hollow] at same
    cases same
  · intro solid
    rw [mended_bytesAt, bytesAt_of_not_hollow solid]

/-- A single byte is never nothing. -/
theorem mended_byteAt (offset : Nat) (f : List UInt8 → Answer) :
    Answer.mended ((s.bytesAt 1 offset).map f) = (s.wholeAt 1 offset).map f := by
  rw [bytesAt_of_not_hollow fun hollow => Nat.one_ne_zero hollow.1]
  unfold wholeAt
  split <;> rfl

/-- A slice goes to a position or refuses to, and neither answer has to be mended. -/
theorem mended_seek (target : SeekTarget) :
    Answer.mended (((ByteSource.seek target : SourceM Slice Nat) s).1.map .position) =
      ((ByteSource.seek target : SourceM Slice Nat) s).1.map .position := by
  rw [seek_apply]
  cases target.resolve? s.cursor s.data.size with
  | some position => rfl
  | none => rfl

theorem Addressable.skip (addressable : s.Addressable) (count : Nat) :
    (s.skip (min count s.left)).Addressable := by
  refine ⟨?_, addressable.size⟩
  have cursor := addressable.cursor
  have size := addressable.size
  rw [cursor_skip]
  unfold left
  omega

/-- A seek goes to a position of 64 bits. -/
theorem Addressable.seek (addressable : s.Addressable) (whence : Whence) :
    ((ByteSource.seek whence.target : SourceM Slice Nat) s).2.Addressable := by
  have within : ∀ {n : Int} {position : Nat},
      SeekTarget.resolve?.within? n = some position → position < positionLimit := by
    intro n position inside
    unfold SeekTarget.resolve?.within? at inside
    split at inside
    · next bounds =>
      cases inside
      exact (Int.toNat_lt bounds.1).mpr bounds.2
    · cases inside
  rw [seek_apply]
  cases resolved : whence.target.resolve? s.cursor s.data.size with
  | none => exact addressable
  | some position =>
    refine ⟨?_, addressable.size⟩
    cases whence with
    | start place =>
      cases resolved
      exact place.toNat_lt
    | current distance => exact within resolved
    | stop distance => exact within resolved

end Slice

/-! ## One operation -/

namespace Operation

/-- What is done to the answer of an operation is done to its outcome. -/
theorem map_apply {σ α β : Type} (operation : SourceM σ α) (f : α → β) (source : σ) :
    (do return f (← operation) : SourceM σ β) source =
      ((operation source).1.map f, (operation source).2) := by
  simp only [bind, ExceptT.bind, ExceptT.mk, StateT.bind]
  rcases operation source with ⟨e | a, after⟩ <;> rfl

section Slices

variable (s : Slice)

theorem perform_seek (whence : Whence) :
    (seek whence).perform s = (((ByteSource.seek whence.target : SourceM Slice Nat) s).1.map
      .position, ((ByteSource.seek whence.target : SourceM Slice Nat) s).2) :=
  map_apply ..

theorem perform_readByte :
    readByte.perform s =
      ((s.bytesAt 1 s.cursor).map fun bytes => .byte (bytes.headD 0), s.skip (min 1 s.left)) := by
  rw [perform, map_apply, ByteSource.readByte, map_apply, Slice.readExact_eq]
  cases s.bytesAt 1 s.cursor with
  | ok bytes => rfl
  | error e => rfl

theorem perform_readExact (count : Nat) :
    (readExact count).perform s =
      ((s.bytesAt count s.cursor).map .bytes, s.skip (min count s.left)) := by
  rw [perform, map_apply, Slice.readExact_eq]

theorem perform_readExactAt (count : Nat) (offset : UInt64) :
    (readExactAt count offset).perform s = ((s.bytesAt count offset.toNat).map .bytes, s) := by
  rw [perform, map_apply, Slice.readExactAt_eq]

end Slices

variable {s : Slice}

/-- A slice stays one with positions of 64 bits. -/
theorem perform_addressable (o : Operation) (addressable : s.Addressable) :
    (o.perform s).2.Addressable := by
  cases o with
  | seek whence =>
    rw [perform_seek]
    exact addressable.seek whence
  | tell => exact addressable
  | size => exact addressable
  | readByte =>
    rw [perform_readByte]
    exact addressable.skip 1
  | readExact count =>
    rw [perform_readExact]
    exact addressable.skip count
  | readExactAt count offset =>
    rw [perform_readExactAt]
    exact addressable

/-- Only the answer to an empty read behind the end has to be mended. -/
theorem mended_perform_iff (o : Operation) :
    Answer.mended (o.perform s).1 = (o.perform s).1 ↔ ¬ o.Hollow s := by
  cases o with
  | seek whence =>
    rw [perform_seek]
    exact iff_of_true (Slice.mended_seek _) id
  | tell => exact iff_of_true rfl id
  | size => exact iff_of_true rfl id
  | readByte =>
    rw [perform_readByte]
    refine iff_of_true ?_ id
    rw [Slice.mended_byteAt, Slice.bytesAt_of_not_hollow fun hollow => Nat.one_ne_zero hollow.1]
  | readExact count =>
    rw [perform_readExact]
    exact Slice.mended_bytesAt_iff
  | readExactAt count offset =>
    rw [perform_readExactAt]
    exact Slice.mended_bytesAt_iff

section Devices

variable {ρ : Type} [Reader ρ] {R : Slice → ρ → Prop} {r : ρ} (serves : Reader.Serves R)
  (related : R s r) (addressable : s.Addressable)

include serves related addressable

/-- The source over a device answers as the slice does once that is mended. -/
theorem perform_serves (o : Operation) :
    Reader.Ends R o.perform r (Answer.mended (o.perform s).1) (o.perform s).2 := by
  cases o with
  | seek whence =>
    rw [perform_seek, Slice.mended_seek]
    exact (Reader.seek_ends serves related whence.target).map _
  | tell => exact (Reader.tell_ends serves related addressable).map _
  | size => exact (Reader.size_ends serves related addressable).map _
  | readByte =>
    rw [perform_readByte, Slice.mended_byteAt]
    have ends := ((Reader.readExact_ends serves related addressable 1).map (·.headD 0)).map
      Answer.byte
    generalize s.wholeAt 1 s.cursor = answer at ends ⊢
    cases answer with
    | ok bytes => exact ends
    | error e => exact ends
  | readExact count =>
    rw [perform_readExact, Slice.mended_bytesAt]
    exact (Reader.readExact_ends serves related addressable count).map _
  | readExactAt count offset =>
    rw [perform_readExactAt, Slice.mended_bytesAt]
    exact (Reader.readExactAt_ends serves related addressable count offset.toNat).map _

/-- The client sees the same, but for what is mended. -/
theorem observe_serves (o : Operation) :
    ∃ r', o.observe r = ((o.observe s).1.mended, r') ∧ R (o.observe s).2 r' := by
  obtain ⟨r', ended, behind⟩ := perform_serves serves related addressable o
  obtain ⟨r'', told, still⟩ :=
    Reader.tell_ends serves behind (perform_addressable o addressable)
  refine ⟨r'', ?_, still⟩
  unfold observe
  rw [ended]
  dsimp only
  rw [told]
  rfl

/-! ## One operation after another -/

theorem watch_serves (ops : List Operation) : watch ops r = (watch ops s).map Sight.mended := by
  induction ops generalizing s r with
  | nil => rfl
  | cons o rest inductionHypothesis =>
    obtain ⟨r', seen, behind⟩ := observe_serves serves related addressable o
    simp only [watch, List.map_cons]
    rw [seen, inductionHypothesis behind (perform_addressable o addressable)]

end Devices

/-- What a client sees of a slice has to be mended only where it reads nothing from behind the
end. -/
theorem mended_watch_iff (ops : List Operation) :
    (watch ops s).map Sight.mended = watch ops s ↔ Solid ops s := by
  induction ops generalizing s with
  | nil => exact iff_of_true rfl trivial
  | cons o rest inductionHypothesis =>
    have first : (o.observe s).1.mended = (o.observe s).1 ↔ ¬ o.Hollow s := by
      rw [← mended_perform_iff]
      exact ⟨congrArg Sight.answer, congrArg fun answer => Sight.mk answer _⟩
    simp only [watch, List.map_cons, List.cons.injEq, Solid]
    rw [first, inductionHypothesis]

/-- A slice and the source over a device that serves its bytes look alike. Whatever the operations
are, their cursors are told to be in the same places, and their answers are the same, once a slice
no longer takes an empty read behind its end for a short one. As things are, exactly such a read
tells the two apart. -/
theorem sights_alike {ρ : Type} [Reader ρ] {R : Slice → ρ → Prop} {r : ρ}
    (serves : Reader.Serves R) (related : R s r) (addressable : s.Addressable)
    (ops : List Operation) :
    watch ops r = (watch ops s).map Sight.mended ∧
      (watch ops r).map Sight.cursor = (watch ops s).map Sight.cursor ∧
      (watch ops r = watch ops s ↔ Solid ops s) := by
  have same : watch ops r = (watch ops s).map Sight.mended :=
    watch_serves serves related addressable ops
  refine ⟨same, ?_, ?_⟩
  · rw [same, List.map_map]
    rfl
  · rw [same]
    exact mended_watch_iff ops

/-- Six bytes from a device that is interrupted now and then and gives one byte or two at a time. -/
def hesitant : Paced where
  slice := ⟨#[10, 11, 12, 13, 14, 15], 0⟩
  turns := [.pause, .give 0, .pause, .pause, .give 1, .give 0, .pause, .give 4]

/-- A tour of all operations, behind the end as well. -/
def tour : List Operation :=
  [.size, .readExact 3, .seek (.current (-1)), .readByte, .readExactAt 2 4, .seek (.stop 1), .tell,
    .readExact 2, .readExactAt 0 9, .seek (.current (-100)), .seek (.start 4), .readExact 5]

theorem sights_alike_hesitant :
    Reader.Serves (fun s (p : Paced) => p.slice = s) ∧ hesitant.slice.Addressable ∧
      watch tour hesitant = [
        ⟨.ok (.position 6), .ok 0⟩, ⟨.ok (.bytes [10, 11, 12]), .ok 3⟩, ⟨.ok (.position 2), .ok 2⟩,
        ⟨.ok (.byte 12), .ok 3⟩, ⟨.ok (.bytes [14, 15]), .ok 3⟩, ⟨.ok (.position 7), .ok 7⟩,
        ⟨.ok (.position 7), .ok 7⟩, ⟨.error (.shortRead 7 2 []), .ok 7⟩, ⟨.ok (.bytes []), .ok 7⟩,
        ⟨.error (.device .invalidSeek), .ok 7⟩, ⟨.ok (.position 4), .ok 4⟩,
        ⟨.error (.shortRead 4 5 [14, 15]), .ok 6⟩] := by
  have addressable : hesitant.slice.Addressable := ⟨by decide, by decide⟩
  obtain ⟨same, -, -⟩ := sights_alike Paced.serves (s := hesitant.slice) rfl addressable tour
  refine ⟨Paced.serves, addressable, ?_⟩
  rw [same]
  rfl

/-- An empty read behind the end of three bytes is short for the slice, and is none for the source
over a device. -/
theorem empty_read_told_apart :
    let ops := [.seek (.start 5), .readExact 0]
    let slice : Slice := ⟨#[1, 2, 3], 0⟩
    let device : Cursor := { data := #[1, 2, 3] }
    watch ops slice = [⟨.ok (.position 5), .ok 5⟩, ⟨.error (.shortRead 5 0 []), .ok 5⟩] ∧
      watch ops device = [⟨.ok (.position 5), .ok 5⟩, ⟨.ok (.bytes []), .ok 5⟩] ∧
      watch ops device ≠ watch ops slice := by
  intro ops slice device
  have harmless : device.faults.Harmless := ⟨rfl, rfl, nofun⟩
  have same : watch ops device = (watch ops slice).map Sight.mended :=
    watch_serves Cursor.serves ⟨rfl, rfl, harmless⟩ ⟨by decide, by decide⟩ ops
  have short : watch ops slice =
      [⟨.ok (.position 5), .ok 5⟩, ⟨.error (.shortRead 5 0 []), .ok 5⟩] := rfl
  have none : watch ops device = [⟨.ok (.position 5), .ok 5⟩, ⟨.ok (.bytes []), .ok 5⟩] := by
    rw [same, short]
    rfl
  refine ⟨short, none, ?_⟩
  rw [short, none]
  intro equal
  cases equal

end Operation

end BinaryTemplate
