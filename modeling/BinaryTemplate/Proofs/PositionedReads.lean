import BinaryTemplate.Proofs.Serving

/-!
# Coming back to the cursor

A source over a device reads at an offset, and finds its size, by an excursion: it asks the device
for its cursor, goes elsewhere, does something there and goes back. Each step may fail, and what is
done there may be interrupted, come in pieces or break off anywhere. Whatever it comes to, the
cursor is afterwards where it was, unless a seek fails: the one back, or the one away, after which
none is made back, so that the cursor stays where the device has left it.
-/

namespace BinaryTemplate.Reader

variable {ρ : Type} [Reader ρ]

/-- The device holds the bytes of a slice and has its cursor. It moves and reads as it says it does,
but it may refuse to, and then its cursor may be anywhere, unless it was only interrupted. -/
structure Holds (view : ρ → Slice) : Prop where
  moved : ∀ {target : SeekTarget} {r r' : ρ} {position : Nat},
    Reader.seek target r = (.ok position, r') →
      target.resolve? (view r).cursor (view r).data.size = some position ∧
        view r' = { view r with cursor := position }
  refused : ∀ {target : SeekTarget} {r r' : ρ} {fault : DeviceFault},
    Reader.seek target r = (.error fault, r') → (view r').data = (view r).data
  gave : ∀ {wanted : Nat} {r r' : ρ} {got : List UInt8}, 0 < wanted →
    Reader.read wanted r = (.bytes got, r') →
      got = window (view r).data (view r).cursor got.length ∧ got.length ≤ wanted ∧
        view r' = (view r).skip got.length
  waited : ∀ {wanted : Nat} {r r' : ρ}, 0 < wanted →
    Reader.read wanted r = (.interrupted, r') → view r' = view r
  broke : ∀ {wanted : Nat} {r r' : ρ} {fault : DeviceFault}, 0 < wanted →
    Reader.read wanted r = (.failed fault, r') → (view r').data = (view r).data

/-! ## Filling -/

section Requests

variable {wanted : Nat} {r r' : ρ} (wants : wanted ≠ 0)

include wants

theorem fill_of_failed {fault : DeviceFault} (failed : Reader.read wanted r = (.failed fault, r')) :
    fill wanted r = (.error fault, r') := by
  rw [fill, if_neg wants]
  split <;> rename_i outcome <;> cases failed.symm.trans outcome
  rfl

theorem fill_of_bytes_error {b : UInt8} {more : List UInt8} {r'' : ρ} {fault : DeviceFault}
    (given : Reader.read wanted r = (.bytes (b :: more), r'))
    (failed : fill (wanted - (more.length + 1)) r' = (.error fault, r'')) :
    fill wanted r = (.error fault, r'') := by
  rw [fill, if_neg wants]
  split <;> rename_i outcome <;> cases given.symm.trans outcome
  rw [failed]

end Requests

/-- What is read are bytes from the cursor on, and no more than wanted. -/
structure Filled (view : ρ → Slice) (wanted : Nat) (r : ρ)
    (ended : Except DeviceFault (List UInt8) × ρ) : Prop where
  data : (view ended.2).data = (view r).data
  bytes : ∀ got, ended.1 = .ok got →
    got = window (view r).data (view r).cursor got.length ∧ got.length ≤ wanted

theorem fill_filled {view : ρ → Slice} (device : Holds view) (wanted : Nat) (r : ρ) :
    Filled view wanted r (fill wanted r) := by
  induction wanted, r using fill.induct with
  | case1 r =>
    rw [fill, if_pos rfl]
    refine ⟨rfl, ?_⟩
    rintro _ ⟨⟩
    exact ⟨(window_eq_nil_iff.mpr (Nat.zero_min _)).symm, Nat.le_refl 0⟩
  | case2 wanted r wants r' ended =>
    obtain ⟨next, small, behind⟩ := device.gave (Nat.pos_of_ne_zero wants) ended
    rw [fill_of_end wants ended]
    refine ⟨by rw [behind, Slice.data_skip], ?_⟩
    rintro _ ⟨⟩
    exact ⟨next, small⟩
  | case3 wanted r wants b bytes r' given rest r'' filled inductionHypothesis =>
    obtain ⟨next, small, behind⟩ := device.gave (Nat.pos_of_ne_zero wants) given
    rw [filled] at inductionHypothesis
    obtain ⟨data, last⟩ := inductionHypothesis
    obtain ⟨further, room⟩ := last rest rfl
    rw [behind, Slice.data_skip] at data further
    rw [Slice.cursor_skip] at further
    rw [List.length_cons] at small
    rw [fill_of_bytes wants given filled]
    refine ⟨data, ?_⟩
    rintro _ ⟨⟩
    rw [List.length_append]
    constructor
    · rw [← Decoder.window_add, ← next, ← further]
    · rw [List.length_cons]
      omega
  | case4 wanted r wants b bytes r' given fault r'' failed inductionHypothesis =>
    obtain ⟨-, -, behind⟩ := device.gave (Nat.pos_of_ne_zero wants) given
    rw [failed] at inductionHypothesis
    rw [fill_of_bytes_error wants given failed]
    refine ⟨by rw [inductionHypothesis.data, behind, Slice.data_skip], ?_⟩
    rintro _ ⟨⟩
  | case5 wanted r wants r' interrupted inductionHypothesis =>
    have still := device.waited (Nat.pos_of_ne_zero wants) interrupted
    rw [fill_of_interrupted wants interrupted]
    refine ⟨by rw [inductionHypothesis.data, still], ?_⟩
    rw [← still]
    exact inductionHypothesis.bytes
  | case6 wanted r wants fault r' failed =>
    rw [fill_of_failed wants failed]
    refine ⟨device.broke (Nat.pos_of_ne_zero wants) failed, ?_⟩
    rintro _ ⟨⟩

/-! ## Excursions -/

section Excursions

variable {α : Type}

/-- What always comes to an end, as a step. -/
def always (there : ρ → α × ρ) : SourceM ρ α := fun r => (.ok (there r).1, (there r).2)

/-- Goes to `target`, does there what always comes to an end, and goes back. -/
def excursion (target : SeekTarget) (there : Nat → ρ → α × ρ) : SourceM ρ α := do
  let here ← position
  let reached ← seekTo target
  let outcome ← always (there reached)
  let _ ← seekTo (.start here)
  return outcome

/-- A size is found by going to the end. -/
theorem size_eq : (ByteSource.size : SourceM ρ Nat) = excursion (.stop 0) fun stop r => (stop, r) :=
  rfl

/-- Bytes are read at an offset by going there; what was read is looked at after the way back. -/
theorem readExactAt_eq_excursion (count offset : Nat) :
    (ByteSource.readExactAt count offset : SourceM ρ (List UInt8)) =
      (excursion (.start offset) fun _ => fill count) >>= fun outcome =>
        (lift fun r => (outcome, r)) >>= complete count offset := by
  unfold excursion
  simp only [bind_assoc, pure_bind]
  rfl

theorem seekTo_of_ok {target : SeekTarget} {r r' : ρ} {reached : Nat}
    (sought : Reader.seek target r = (.ok reached, r')) : seekTo target r = (.ok reached, r') := by
  rw [seekTo, lift, sought]

theorem seekTo_of_error {target : SeekTarget} {r r' : ρ} {fault : DeviceFault}
    (sought : Reader.seek target r = (.error fault, r')) :
    seekTo target r = (.error (.device fault), r') := by
  rw [seekTo, lift, sought]

/-- The device cannot say where it is, or cannot go to `target`. The seek that fails is the last one
made, and it leaves the device as `after`. -/
inductive Strands (target : SeekTarget) (r : ρ) (fault : DeviceFault) (after : ρ) : Prop
  | unplaced (asking : Reader.seek (.current 0) r = (.error fault, after))
  | unreached {here : Nat} {asked : ρ} (asking : Reader.seek (.current 0) r = (.ok here, asked))
      (leaving : Reader.seek target asked = (.error fault, after))

/-- The device cannot go back from where it was sent, after something was done `there`. -/
inductive CutOff (target : SeekTarget) (there : Nat → ρ → ρ) (r : ρ) (fault : DeviceFault)
    (after : ρ) : Prop
  | mk {here reached : Nat} {asked left : ρ}
      (asking : Reader.seek (.current 0) r = (.ok here, asked))
      (leaving : Reader.seek target asked = (.ok reached, left))
      (returning : Reader.seek (.start here) (there reached left) = (.error fault, after))

variable {target : SeekTarget} {there : Nat → ρ → α × ρ} {r after : ρ} {fault : DeviceFault}

/-- Where the way there fails, no way back is tried. -/
theorem excursion_of_strands (strands : Strands target r fault after) :
    excursion target there r = (.error (.device fault), after) := by
  cases strands with
  | unplaced asking => exact bind_of_error (seekTo_of_error asking)
  | unreached asking leaving =>
    rw [excursion, position, bind_of_ok (seekTo_of_ok asking)]
    exact bind_of_error (seekTo_of_error leaving)

variable {view : ρ → Slice} (device : Holds view)

include device

/-- The position that a device tells is that of its cursor, which stays. -/
theorem Holds.told {here : Nat} (asking : Reader.seek (.current 0) r = (.ok here, after)) :
    here = (view r).cursor ∧ view after = view r := by
  obtain ⟨resolved, moved⟩ := device.moved asking
  obtain ⟨-, rfl⟩ : _ ∧ (view r).cursor = here := by
    simpa [SeekTarget.resolve?, SeekTarget.resolve?.within?] using resolved
  exact ⟨rfl, moved⟩

/-- An excursion that gets there either comes back to the cursor or is cut off from it. -/
theorem excursion_ends (target : SeekTarget) (there : Nat → ρ → α × ρ)
    (keeps : ∀ position r, (view (there position r).2).data = (view r).data) (r : ρ) :
    let ended := excursion target there r
    (∃ reached left, target.resolve? (view r).cursor (view r).data.size = some reached ∧
      view left = { view r with cursor := reached } ∧ ended.1 = .ok (there reached left).1 ∧
      view ended.2 = view r) ∨
    ∃ fault, ended.1 = .error (.device fault) ∧
      (CutOff target (fun reached r => (there reached r).2) r fault ended.2 ∨
        Strands target r fault ended.2) := by
  intro ended
  rcases asking : Reader.seek (.current 0) r with ⟨fault | here, asked⟩
  · have strands : Strands target r fault asked := .unplaced asking
    have failed : ended = _ := excursion_of_strands strands
    rw [failed]
    exact .inr ⟨fault, rfl, .inr strands⟩
  obtain ⟨rfl, still⟩ := device.told asking
  rcases leaving : Reader.seek target asked with ⟨fault | reached, left⟩
  · have strands : Strands target r fault left := .unreached asking leaving
    have failed : ended = _ := excursion_of_strands strands
    rw [failed]
    exact .inr ⟨fault, rfl, .inr strands⟩
  obtain ⟨resolved, moved⟩ := device.moved leaving
  rw [still] at resolved moved
  have unchanged : (view (there reached left).2).data = (view r).data := by
    rw [keeps, moved]
  have done : always (there reached) left =
      (.ok (there reached left).1, (there reached left).2) := rfl
  have onward : ended = _ := (bind_of_ok (seekTo_of_ok asking)).trans
    ((bind_of_ok (seekTo_of_ok leaving)).trans (bind_of_ok done))
  rcases returning : Reader.seek (.start (view r).cursor) (there reached left).2 with
    ⟨fault | again, back⟩
  · have failed : ended = (.error (.device fault), back) :=
      onward.trans (bind_of_error (seekTo_of_error returning))
    rw [failed]
    exact .inr ⟨fault, rfl, .inl ⟨asking, leaving, returning⟩⟩
  · have succeeded : ended = (.ok (there reached left).1, back) :=
      onward.trans (bind_of_ok (seekTo_of_ok returning))
    obtain ⟨landed, home⟩ := device.moved returning
    cases landed
    have same : view back = view r := by
      rw [home]
      dsimp only
      rw [unchanged]
    rw [succeeded]
    exact .inl ⟨reached, left, resolved, moved, rfl, same⟩

end Excursions

/-! ## Positioned reads and sizes -/

section Reads

omit [Reader ρ] in
theorem complete_apply (count offset : Nat) (got : List UInt8) (r : ρ) :
    complete count offset got r =
      (if got.length < count then .error (.shortRead offset count got) else .ok got, r) := by
  unfold complete
  split <;> rfl

variable {view : ρ → Slice} (device : Holds view)

/-- If the device strands on its way to an offset, that is how the read there ends. -/
theorem readExactAt_of_strands {count offset : Nat} {r after : ρ} {fault : DeviceFault}
    (strands : Strands (.start offset) r fault after) :
    (ByteSource.readExactAt count offset : SourceM ρ (List UInt8)) r =
      (.error (.device fault), after) := by
  rw [readExactAt_eq_excursion]
  exact bind_of_error (excursion_of_strands strands)

include device

/-- A read at an offset that gets there and back answers with what it has filled. -/
theorem readExactAt_ends_home {count offset : Nat} {r after : ρ}
    {answer : Except InputError (List UInt8)}
    (ended : (ByteSource.readExactAt count offset : SourceM ρ (List UInt8)) r = (answer, after)) :
    (view after = view r ∧
      ((∃ fault, answer = .error (.device fault)) ∨
        ∃ got, got = window (view r).data offset got.length ∧ got.length ≤ count ∧
          answer = if got.length < count then .error (.shortRead offset count got) else .ok got)) ∨
    ∃ fault, answer = .error (.device fault) ∧
      (CutOff (.start offset) (fun _ r => (fill count r).2) r fault after ∨
        Strands (.start offset) r fault after) := by
  rw [readExactAt_eq_excursion] at ended
  have goes := excursion_ends device (.start offset) (fun _ => fill count)
    (fun _ r => (fill_filled device count r).data) r
  rcases went : excursion (.start offset) (fun _ => fill count) r with ⟨outcome, home⟩
  rw [went] at goes
  obtain ⟨reached, left, resolved, moved, rfl, same⟩ | ⟨fault, rfl, lost⟩ := goes
  · cases resolved
    have bytes := (fill_filled device count left).bytes
    rw [moved] at bytes
    rw [bind_of_ok went] at ended
    -- A read that broke off is only reported now.
    rcases filled : (fill count left).1 with fault | got
    · rw [bind_of_error (e := .device fault) (by rw [lift, filled])] at ended
      cases ended
      exact .inl ⟨same, .inl ⟨fault, rfl⟩⟩
    · rw [bind_of_ok (a := got) (by rw [lift, filled]), complete_apply] at ended
      cases ended
      obtain ⟨next, small⟩ := bytes got filled
      exact .inl ⟨same, .inr ⟨got, next, small, rfl⟩⟩
  · rw [bind_of_error went] at ended
    cases ended
    exact .inr ⟨fault, rfl, lost⟩

/-- A size that is found is that of the bytes, and the device is back at its cursor. -/
theorem size_ends_home {r after : ρ} {answer : Except InputError Nat}
    (ended : (ByteSource.size : SourceM ρ Nat) r = (answer, after)) :
    (view after = view r ∧ answer = .ok (view r).data.size) ∨
    ∃ fault, answer = .error (.device fault) ∧
      (CutOff (.stop 0) (fun _ r => r) r fault after ∨ Strands (.stop 0) r fault after) := by
  rw [size_eq] at ended
  have goes := excursion_ends device (.stop 0) (fun stop r => (stop, r)) (fun _ _ => rfl) r
  rw [ended] at goes
  obtain ⟨reached, left, resolved, -, answered, same⟩ | lost := goes
  · obtain ⟨-, rfl⟩ : _ ∧ (view r).data.size = reached := by
      simpa [SeekTarget.resolve?, SeekTarget.resolve?.within?] using resolved
    exact .inl ⟨same, answered⟩
  · exact .inr lost

/-- The cursor is put back. Whatever a device does that moves and reads as it says, its cursor is
where it was after a read at an offset that succeeds, that comes up short or that the device breaks
off, and the bytes are those at the offset; so it is after the size is found. Otherwise a seek has
failed. If it is the one back, nothing is left to do. If it is the first, which asks for the cursor,
or the one away, none is made back: the device stays as that seek has left it, and so at its cursor
if the seek has not moved it. -/
theorem cursor_is_put_back (r : ρ) :
    (∀ count offset answer after,
      (ByteSource.readExactAt count offset : SourceM ρ (List UInt8)) r = (answer, after) →
      (∀ bytes, answer = .ok bytes →
        view after = view r ∧ bytes = window (view r).data offset count ∧ bytes.length = count) ∧
      (∀ start wanted got, answer = .error (.shortRead start wanted got) →
        view after = view r ∧ start = offset ∧ wanted = count ∧ got.length < count ∧
          got = window (view r).data offset got.length) ∧
      (∀ fault, answer = .error (.device fault) → view after = view r ∨
        CutOff (.start offset) (fun _ r => (fill count r).2) r fault after ∨
        Strands (.start offset) r fault after)) ∧
    (∀ answer after, (ByteSource.size : SourceM ρ Nat) r = (answer, after) →
      (∀ size, answer = .ok size → view after = view r ∧ size = (view r).data.size) ∧
      (∀ e, answer = .error e → ∃ fault, e = .device fault ∧
        (CutOff (.stop 0) (fun _ r => r) r fault after ∨ Strands (.stop 0) r fault after))) ∧
    (∀ fault after,
      (∀ count offset, Strands (.start offset) r fault after →
        (ByteSource.readExactAt count offset : SourceM ρ (List UInt8)) r =
          (.error (.device fault), after)) ∧
      (Strands (.stop 0) r fault after →
        (ByteSource.size : SourceM ρ Nat) r = (.error (.device fault), after))) ∧
    ((∀ {target r r' fault}, Reader.seek target r = (.error fault, r') → view r' = view r) →
      ∀ target fault after, Strands target r fault after → view after = view r) := by
  refine ⟨fun count offset answer after ended => ?_, fun answer after ended => ?_,
    fun fault after => ⟨?_, ?_⟩, fun steady target fault after strands => ?_⟩
  · obtain ⟨same, ⟨fault, rfl⟩ | ⟨got, next, small, rfl⟩⟩ | ⟨fault, rfl, lost⟩ :=
      readExactAt_ends_home device ended
    · exact ⟨nofun, nofun, fun _ _ => .inl same⟩
    · by_cases short : got.length < count
      · rw [if_pos short]
        refine ⟨nofun, ?_, nofun⟩
        rintro _ _ _ ⟨⟩
        exact ⟨same, rfl, rfl, short, next⟩
      · have all : got.length = count := by omega
        rw [if_neg short]
        refine ⟨?_, nofun, nofun⟩
        rintro _ ⟨⟩
        exact ⟨same, all ▸ next, all⟩
    · refine ⟨nofun, nofun, ?_⟩
      rintro _ ⟨⟩
      exact .inr lost
  · obtain ⟨same, rfl⟩ | ⟨fault, rfl, lost⟩ := size_ends_home device ended
    · refine ⟨?_, nofun⟩
      rintro _ ⟨⟩
      exact ⟨same, rfl⟩
    · refine ⟨nofun, ?_⟩
      rintro _ ⟨⟩
      exact ⟨fault, rfl, lost⟩
  · exact fun count offset strands => readExactAt_of_strands strands
  · intro strands
    rw [size_eq]
    exact excursion_of_strands strands
  · cases strands with
    | unplaced asking => exact steady asking
    | unreached asking leaving => exact (steady leaving).trans (device.told asking).2

end Reads

end BinaryTemplate.Reader

/-! ## A device that fails -/

namespace BinaryTemplate.Cursor

/-- The bytes of a device and its cursor. -/
def view (c : Cursor) : Slice := ⟨c.data, c.position⟩

theorem allowance_le (c : Cursor) (wanted : Nat) : c.allowance wanted ≤ wanted := by
  have chunk : (c.faults.chunk.map (min wanted)).getD wanted ≤ wanted := by
    cases c.faults.chunk with
    | none => exact Nat.le_refl wanted
    | some most => exact Nat.min_le_left wanted most
  unfold allowance
  cases c.faults.failRead with
  | none => exact chunk
  | some limit => exact Nat.le_trans (Nat.min_le_left _ _) chunk

/-- However it fails, a device over bytes in memory moves and reads as it says. -/
theorem holds : Reader.Holds view where
  moved := by
    intro target c c' position sought
    change Cursor.seek target c = _ at sought
    unfold Cursor.seek at sought
    change target.resolve? c.position c.data.size = _ ∧ _
    split at sought
    · cases sought
    · next resolved =>
      split at sought
      · cases sought
      · cases sought
        exact ⟨resolved, rfl⟩
  refused := by
    intro target c c' fault sought
    change Cursor.seek target c = _ at sought
    unfold Cursor.seek at sought
    split at sought
    · cases sought
      rfl
    · split at sought
      · cases sought
        rfl
      · cases sought
  gave := by
    intro wanted c c' got _ given
    change Cursor.read wanted c = _ at given
    unfold Cursor.read at given
    split at given
    · cases given
    · dsimp only at given
      split at given
      · cases given
      · cases given
        refine ⟨?_, ?_, rfl⟩
        · rw [length_window_eq]
          exact (window_min ..).symm
        · rw [length_window_eq]
          exact Nat.le_trans (Nat.min_le_left _ _) (allowance_le _ wanted)
  waited := by
    intro wanted c c' _ interrupted
    change Cursor.read wanted c = _ at interrupted
    unfold Cursor.read at interrupted
    split at interrupted
    · cases interrupted
      rfl
    · dsimp only at interrupted
      split at interrupted <;> cases interrupted
  broke := by
    intro wanted c c' fault _ failed
    change Cursor.read wanted c = _ at failed
    unfold Cursor.read at failed
    split at failed
    · cases failed
    · dsimp only at failed
      split at failed
      · cases failed
        rfl
      · cases failed

/-- A device that is interrupted all the time, gives single bytes and fails to go beyond its end. -/
def hesitant : Cursor where
  data := #[1, 2, 3, 4, 5]
  position := 1
  faults := { chunk := some 1, interrupts := true, failSeek := some 6 }

theorem cursor_is_put_back_hesitant :
    ((ByteSource.readExactAt 2 3 : SourceM Cursor (List UInt8)) hesitant).1 = .ok [4, 5] ∧
      ((ByteSource.readExactAt 2 3 : SourceM Cursor (List UInt8)) hesitant).2.position = 1 ∧
      ((ByteSource.readExactAt 9 3 : SourceM Cursor (List UInt8)) hesitant).1 =
        .error (.shortRead 3 9 [4, 5]) ∧
      ((ByteSource.readExactAt 9 3 : SourceM Cursor (List UInt8)) hesitant).2.position = 1 := by
  obtain ⟨reads, -⟩ := Reader.cursor_is_put_back holds hesitant
  have whole : ((ByteSource.readExactAt 2 3 : SourceM Cursor (List UInt8)) hesitant).1 =
      .ok [4, 5] := by cbv
  have short : ((ByteSource.readExactAt 9 3 : SourceM Cursor (List UInt8)) hesitant).1 =
      .error (.shortRead 3 9 [4, 5]) := by cbv
  refine ⟨whole, ?_, short, ?_⟩
  · exact congrArg Slice.cursor ((reads 2 3 _ _ Prod.mk.eta.symm).1 _ whole).1
  · exact congrArg Slice.cursor ((reads 9 3 _ _ Prod.mk.eta.symm).2.1 _ _ _ short).1

/-- A seek that moves the cursor and then fails leaves it where it is, though the way back is open:
a read at an offset and the search for the size end away from the cursor. -/
theorem failed_seek_strands_cursor :
    let c : Cursor := { data := #[1, 2, 3], faults := { failSeek := some 3 } }
    let read := (ByteSource.readExactAt 1 7 : SourceM Cursor (List UInt8)) c
    let size := (ByteSource.size : SourceM Cursor Nat) c
    c.position = 0 ∧ read.1 = .error (.device (.other "seek failure")) ∧ read.2.position = 7 ∧
      (Reader.seek (.start 0) read.2).1 = .ok 0 ∧
      size.1 = .error (.device (.other "seek failure")) ∧ size.2.position = 3 ∧
      (Reader.seek (.start 0) size.2).1 = .ok 0 := by
  decide

end BinaryTemplate.Cursor
