import BinaryTemplate.Proofs.MachineRefinement
import BinaryTemplate.Proofs.Passing
import BinaryTemplate.Proofs.Warnings

/-!
# Offsets and their side trees

An offset lands where it points: its target is the exact sum that `Targets` says, and its side tree
starts there and ends within the region that is referenced. Behind the excursion everything is as
before it, also where it has failed: the cursor, the unread bits, the frames and the offsets that
are being followed.
-/

namespace BinaryTemplate

/-! ## The size of patterns -/

theorem Bits.toNat_lt (bits : List Bool) : toNat bits < 2 ^ bits.length := by
  induction bits with
  | nil => decide
  | cons bit rest inductionHypothesis =>
    have one := Bool.toNat_le bit
    rw [toNat, List.length_cons, Nat.pow_succ]
    omega

theorem Bytes.toNatLittle_lt (bytes : List UInt8) : toNatLittle bytes < 256 ^ bytes.length := by
  induction bytes with
  | nil => decide
  | cons b rest inductionHypothesis =>
    have one := b.toNat_lt
    rw [toNatLittle, List.length_cons, Nat.pow_succ]
    omega

theorem Bytes.toNatIn_lt (order : ByteOrder) (bytes : List UInt8) :
    toNatIn order bytes < 256 ^ bytes.length := by
  cases order with
  | little => exact toNatLittle_lt bytes
  | big =>
    have reversed := toNatLittle_lt bytes.reverse
    rw [List.length_reverse] at reversed
    exact reversed

/-- A pattern of at most 64 bits is kept as it is. -/
theorem Bits.toNat_word {raw width : Nat} (fits : raw < 2 ^ width) (most : width ≤ 64) :
    (UInt64.ofNat raw).toNat = raw :=
  UInt64.toNat_ofNat_of_lt' (fits.trans_le (Nat.pow_le_pow_right (by decide) most))

namespace Decoder

open DecodeM

/-- A pattern has no more bits than were read for it. -/
theorem RawRead.raw_lt {limit width : Nat} {order : ByteOrder} {unit : LengthUnit}
    {before after : Reading} {r : RawNumber} (h : RawRead limit order width before unit r after) :
    r.raw < 2 ^ width := by
  cases h with
  | bits =>
    exact Nat.lt_of_lt_of_le (Bits.toNat_lt _)
      (Nat.pow_le_pow_right Nat.two_pos (List.length_take_le _ _))
  | bytes =>
    have taken : (window before.data before.cursor (width / 8)).length ≤ width / 8 := by
      simp only [window, Array.length_toList, Array.size_extract]
      omega
    have bits : 256 ^ (width / 8) = 2 ^ (8 * (width / 8)) := (Nat.pow_mul 2 8 (width / 8)).symm
    calc Bytes.toNatIn order (window before.data before.cursor (width / 8))
        < 256 ^ (window before.data before.cursor (width / 8)).length := Bytes.toNatIn_lt _ _
      _ ≤ 256 ^ (width / 8) := Nat.pow_le_pow_right (by decide) taken
      _ = 2 ^ (8 * (width / 8)) := bits
      _ ≤ 2 ^ width := Nat.pow_le_pow_right Nat.two_pos (Nat.mul_div_le width 8)

theorem RawRead.width_eq {limit width : Nat} {order : ByteOrder} {unit : LengthUnit}
    {before after : Reading} {r : RawNumber} (h : RawRead limit order width before unit r after) :
    r.width = width := by
  cases h <;> rfl

/-- A pattern of at most 64 bits is a pointer of 64 bits. -/
theorem RawRead.fits {limit width : Nat} {order : ByteOrder} {unit : LengthUnit}
    {before after : Reading} {r : RawNumber} (h : RawRead limit order width before unit r after)
    (wide : width ≤ 64) : (UInt64.ofNat r.raw).toNat = r.raw :=
  Bits.toNat_word h.raw_lt wide

/-! ## Where an offset lands -/

/-- What an offset points to and what is decoded there: nothing without a target or without an
element that is referenced, and otherwise a side tree that starts at the target and ends within the
data and within the referenced region. -/
inductive Lands {σ : Type} (d : Decoder σ) (p : Place) (n : Node d.schema) (offset : Nat)
    (pointer : UInt64) : Option Nat → Option Value → Prop
  | nowhere (null : d.Targets p n offset pointer.toNat none) : Lands d p n offset pointer none none
  | unreferenced {target : Nat} (targets : d.Targets p n offset pointer.toNat (some target))
      (unset : n.lookup .references = .ok none) : Lands d p n offset pointer (some target) none
  | side {target : Nat} {element : ElementId} {size : Option Nat} {v : Value}
      (targets : d.Targets p n offset pointer.toNat (some target))
      (references : n.lookup .references = .ok (some element)) (starts : v.offset = target)
      (inData : v.offset + v.len ≤ p.dataStop) (sized : d.RegionSize p n size)
      (inRegion : ∀ count, size = some count → v.offset + v.len ≤ target + count) :
      Lands d p n offset pointer (some target) (some v)

variable {σ : Type} [ByteSource σ] [SliceLike σ] {d : Decoder σ} {p : Place} {n : Node d.schema}
  {offset depth : Nat} {st st' : DecodeState σ}

/-- A side tree starts at the target and ends within its region. -/
theorem Followed.lands {target : Nat} {element : ElementId} {v : Value}
    (h : Followed (d.decodeOne depth) p n offset target element st v st') :
    v.offset = target ∧ ∃ size stop, d.RegionSize p n size ∧ Region p target size stop ∧
      v.offset + v.len ≤ stop := by
  cases h with
  | @mk _ size stop _ _ moved ended _ _ _ _ sized region _ seeks decoded _ =>
    have there : moved.reading.cursor = target := congrArg Reading.cursor (seek_returns seeks)
    have begins := decodeOne_starts depth decoded
    have starts : v.offset = moved.reading.cursor := begins
    have passes : ended.reading.cursor = moved.reading.cursor + v.len :=
      (decodeOne_passes depth decoded).cursor
    have stays : ended.reading.cursor ≤ stop :=
      decodeOne_stays depth decoded (there.symm ▸ region.behind)
    refine ⟨starts.trans there, size, stop, sized, region, ?_⟩
    rw [starts, ← passes]
    exact stays

theorem decodeOffset_lands {v : Value} {pointer : UInt64} {target : Option Nat}
    {side : Option Value} (payload : v.payload = .offset pointer target side)
    (h : Returns (d.decodeOffset (d.decodeOne depth) p n) st v st') :
    d.Lands p n v.offset pointer target side := by
  obtain ⟨start, told, order, r, read, target, side, -, -, reads, targets, leads, rfl⟩ :=
    decodeOffset_steps h
  cases payload
  obtain ⟨unit, width, ⟨_, _, _, _, _, _, _, wide⟩, raw⟩ := readRaw_returns reads
  rw [← raw.fits wide] at targets
  cases leads with
  | nowhere => exact .nowhere targets
  | unreferenced unset => exact .unreferenced targets unset
  | side references followed =>
    obtain ⟨starts, size, stop, sized, region, ends⟩ := followed.lands
    refine .side targets references starts (Nat.le_trans ends region.within) sized ?_
    rintro count rfl
    cases region
    exact ends

/-- Only an offset decodes to the value of an offset. -/
theorem decodeOne_pointer {v : Value} {pointer : UInt64} {target : Option Nat}
    {side : Option Value} (payload : v.payload = .offset pointer target side)
    (h : Returns (d.decodeOne depth p n) st v st') : ∃ body, n.kind = .offset body := by
  have container : ∀ {rest : Nat} {n : Node d.schema} {definition : Option ElementId}
      {ids : List ElementId} {order : ChildOrder} {declared : Option Nat} {before after : Reading},
      ¬ ContainerDecoded (d.decodeOne rest) p n definition ids order declared before v after := by
    rintro rest n definition ids order declared before after ⟨⟩
    cases payload
  obtain ⟨rest, start, rfl, resumes, decoded⟩ := decodeOne_returns h
  cases decoded with
  | number _ decoded =>
    generalize st'.reading = after at decoded
    cases decoded <;> cases payload
  | whole _ decoded => exact absurd payload (decoded.plain _ _ _)
  | offset kind _ => exact ⟨_, kind⟩
  | disabled => cases payload
  | grammar _ _ _ _ defines _ decoded =>
    obtain ⟨_, _, _, _, _, _, decoded⟩ := decodeOne_container (by rw [defines]; rfl) decoded
    exact absurd decoded container
  | container _ decoded => exact absurd decoded container

theorem decodeOne_offset {v : Value} {body : OffsetBody} (kind : n.kind = .offset body)
    (h : Returns (d.decodeOne depth p n) st v st') :
    ∃ rest start, Returns (d.decodeOffset (d.decodeOne rest) p n) start v st' := by
  obtain ⟨rest, start, -, -, decoded⟩ := decodeOne_kinds h
  simp only [decodeKind, kind] at decoded
  exact ⟨rest, start, decoded⟩

/-- An offset that was decoded somewhere lands where it points. -/
theorem Decodes.lands {x : Visit d.schema} {pointer : UInt64} {target : Option Nat}
    {side : Option Value} (h : d.Decodes x)
    (payload : x.value.payload = .offset pointer target side) :
    d.Lands x.place x.node x.value.offset pointer target side := by
  obtain ⟨depth, st, st', h⟩ := h
  obtain ⟨body, kind⟩ := decodeOne_pointer payload h
  obtain ⟨_, _, decoded⟩ := decodeOne_offset kind h
  exact decodeOffset_lands payload decoded

/-- Every offset decodes to the value of an offset. -/
theorem Decodes.pointer {x : Visit d.schema} {body : OffsetBody} (h : d.Decodes x)
    (kind : x.node.kind = .offset body) :
    ∃ pointer target side, x.value.payload = .offset pointer target side := by
  obtain ⟨depth, st, st', h⟩ := h
  obtain ⟨_, _, decoded⟩ := decodeOne_offset kind h
  obtain ⟨_, _, _, r, _, target, side, -, -, -, -, -, same⟩ := decodeOffset_steps decoded
  rw [same]
  exact ⟨_, target, side, rfl⟩

/-! ## Behind the excursion

What `follow` looks up before it moves leaves the state alone when it fails (`node_still`,
`referencedSize_still`, `regionStop_still`). From the first seek on only the child can fail, and the
second seek comes before its failure is passed on. -/

omit [ByteSource σ] [SliceLike σ] in
/-- An element that is missing is told with the state as it was. -/
theorem node_still {id : ElementId} {e : DecodeError} (h : Throws (d.node id offset) st e st') :
    st' = st := by
  unfold node at h
  cases found : d.schema.node? id with
  | some m =>
    rw [found] at h
    exact absurd h throws_pure
  | none =>
    rw [found] at h
    exact (throws_throw.mp h).2

omit [ByteSource σ] [SliceLike σ] in
theorem referencedSize_still {e : DecodeError}
    (h : Throws (d.referencedSize? p n offset) st e st') : st' = st := by
  simp only [referencedSize?, throws_bind, throws_resolved, returns_resolved] at h
  obtain ⟨_, -, -, rfl⟩ | ⟨declared, _, ⟨-, rfl⟩, h⟩ := h
  · rfl
  cases declared with
  | none => exact absurd h throws_pure
  | some element =>
    rcases found : (p.context d.schema).find? element with _ | w
    · simp only [found] at h
      exact (throws_fail.mp h).2
    rcases integer : w.toInt? with _ | k
    · simp only [found, integer] at h
      exact (throws_fail.mp h).2
    · simp only [found, integer, throws_ite, throws_pure, and_false, false_or] at h
      exact (throws_fail.mp h.2).2

omit [ByteSource σ] [SliceLike σ] in
theorem regionStop_still {target : Nat} {size : Option Nat} {e : DecodeError}
    (h : Throws (d.regionStop p n offset target size) st e st') : st' = st := by
  simp only [regionStop, throws_ite, throws_pure, throws_fail, and_false, false_or] at h
  exact h.2.2

/-- Whatever happens between the two seeks of an excursion, it ends where it began. -/
theorem excursion_restores {target resume : Nat} {events : List Event}
    {told moved ended last : DecodeState σ} (tells : Returns (tellAt n offset) st resume told)
    (seeks : Returns (seek n offset target) { told with events := events } () moved)
    (returns : Returns (seek n offset resume) { ended with pending := moved.pending } () last) :
    last.reading.cursor = st.reading.cursor ∧ last.pending = st.pending := by
  obtain ⟨rfl, same⟩ := tellAt_returns tells
  have there : moved.pending = told.pending := congrArg Reading.pending (seek_returns seeks)
  have unread : told.pending = st.pending := congrArg Reading.pending same
  have here := seek_returns returns
  have back : last.reading.cursor = st.reading.cursor := by rw [here]
  have kept : last.pending = moved.pending := congrArg Reading.pending here
  exact ⟨back, kept.trans (there.trans unread)⟩

/-- However an offset is followed, the cursor and the unread bits are as before it. -/
theorem follow_restores (child : d.DecodeChild) (target : Nat) (element : ElementId) :
    let after := ((d.follow child p n offset target element).ending st).2
    after.reading.cursor = st.reading.cursor ∧ after.pending = st.pending := by
  intro after
  rcases returns_or_throws (d.follow child p n offset target element) st with
    ⟨v, last, returned⟩ | ⟨e, last, thrown⟩
  · obtain rfl : after = last := congrArg Prod.snd returned
    cases follow_followed returned with
    | mk _ _ _ _ tells seeks _ returns => exact excursion_restores tells seeks returns
  · obtain rfl : after = last := congrArg Prod.snd thrown
    simp only [follow, throws_guard_bind, throws_bind, node_returns, referencedSize_returns,
      regionStop_returns, throws_record, returns_record, throws_get, returns_get,
      throws_setPending, returns_setPending, throws_outcome, throws_liftExcept, false_or,
      not_tellAt_throws, not_seek_throws] at thrown
    -- Before the excursion a failure changes nothing, and within it only the child can fail.
    obtain ⟨-, -, same⟩ | ⟨-, missing | ⟨_, _, ⟨-, rfl⟩, unsized | ⟨_, _, ⟨-, rfl⟩, outside |
      ⟨stop, _, ⟨-, rfl⟩, resume, told, tells, _, _, rfl, _, moved, seeks, _, _, ⟨rfl, rfl⟩, _, _,
        rfl, _, ended, -, _, _, rfl, _, _, returns, -, rfl⟩⟩⟩⟩ := thrown
    · rw [same]
      exact ⟨rfl, rfl⟩
    · rw [node_still missing]
      exact ⟨rfl, rfl⟩
    · rw [referencedSize_still unsized]
      exact ⟨rfl, rfl⟩
    · rw [regionStop_still outside]
      exact ⟨rfl, rfl⟩
    · exact excursion_restores tells seeks returns

end Decoder

/-- The machine follows an offset as the decoder does, and its stack is then what it was. -/
theorem Machine.follow_balanced {σ : Type} [ByteSource σ] [SliceLike σ] (d : Decoder σ)
    (fuel : Nat) (m : Machine σ) (n : Node d.schema) (offset target : Nat) (element : ElementId) :
    let decoded := (d.follow (d.decodeOne (min fuel (d.options.maxDepth - m.depth))) m.place n
      offset target element).ending m.state
    let after := ending (follow d id (decodeWithin d id fuel) n offset target element) m
    after.1 = decoded.1 ∧ after.2.state = decoded.2 ∧ after.2.inner = m.inner ∧
      after.2.outer = m.outer ∧ after.2.following = m.following := by
  have children : MirrorsChild (d.decodeOne (min fuel (d.options.maxDepth - m.depth)))
      (decodeWithin d id fuel) m.depth := by
    intro m' n' level
    rw [← level]
    exact decodeWithin_mirrors d fuel m' n'
  have mirrored := follow_mirrors children n offset target element rfl
  intro decoded after
  change Mirrors m (Untouched m) (· = m.inner) decoded after at mirrored
  clear_value decoded after
  cases mirrored with
  | returned same =>
    obtain ⟨rfl, rfl⟩ := same
    exact ⟨rfl, rfl, rfl, rfl, rfl⟩
  | threw kept =>
    cases kept
    exact ⟨rfl, rfl, rfl, rfl, rfl⟩

namespace Decoder

variable {σ : Type} [ByteSource σ] [SliceLike σ]

/-- Offsets decode where they point and disturb nothing. In the tree of a decode and in its side
trees, every offset has a pointer, the target that this means, and, where it references an element,
a side tree that starts there and ends within the data and the referenced region. And however an
offset is followed, the cursor is back afterwards, and so are the frames with their unread bits and
the offsets that are being followed, which the machine keeps as its state. -/
theorem offsets_land (d : Decoder σ) :
    (∀ (element : ElementId) (source : σ) (v : Value) (warnings : List DecodeError),
      (d.decodeElement element source).result = .ok (v, warnings) →
      let bytes := SliceLike.slice source
      ∃ visits, d.Visits (startPlace element bytes.cursor bytes.data.size) [v] visits ∧
        visits.map (·.value) = v.preorder ∧
        ∀ x ∈ visits, x.place.dataStop = bytes.data.size ∧
          (∀ body, x.node.kind = .offset body →
            ∃ pointer target side, x.value.payload = .offset pointer target side) ∧
          ∀ pointer target side, x.value.payload = .offset pointer target side →
            d.Lands x.place x.node x.value.offset pointer target side) ∧
    ∀ (fuel : Nat) (m : Machine σ) (n : Node d.schema) (offset target : Nat)
      (element : ElementId),
      let decoded := (d.follow (d.decodeOne (min fuel (d.options.maxDepth - m.depth))) m.place n
        offset target element).ending m.state
      let after := Machine.ending
        (Machine.follow d id (Machine.decodeWithin d id fuel) n offset target element) m
      after.1 = decoded.1 ∧ after.2.state = decoded.2 ∧
        (SliceLike.slice after.2.source).cursor = (SliceLike.slice m.source).cursor ∧
        after.2.inner = m.inner ∧ after.2.bits = m.bits ∧ after.2.outer = m.outer ∧
        after.2.following = m.following := by
  constructor
  · intro element source v warnings ok bytes
    obtain ⟨n, start, after, -, -, decoded, -⟩ := decodeElement_returns ok
    obtain ⟨visits, tree, -⟩ := decodeOne_yields _ decoded
    refine ⟨visits, tree, ?_, ?_⟩
    · rw [tree.values]
      simp [Value.preorderIn]
    · intro x visited
      have decodes := (tree.decodes x visited).1
      exact ⟨tree.dataStop x visited, fun _ kind => decodes.pointer kind,
        fun _ _ _ payload => decodes.lands payload⟩
  · intro fuel m n offset target element decoded after
    obtain ⟨answer, state, inner, outer, following⟩ :=
      Machine.follow_balanced d fuel m n offset target element
    have restored : decoded.2.reading.cursor = m.state.reading.cursor ∧
        decoded.2.pending = m.state.pending := follow_restores _ target element
    rw [← state] at restored
    exact ⟨answer, state, restored.1, inner, restored.2, outer, following⟩

/-! ## A pointer with a base and a size -/

/-- A size and a pointer that is counted from the structure around it, to a region of that size
which begins with a pointer of its own. -/
def sized : Decoder Slice where
  schema :=
    { elements := #[
        ⟨{}, .structure { children := [⟨1⟩, ⟨2⟩] }⟩,
        ⟨{}, .number { extent := { length := some (.literal 1) } }⟩,
        ⟨{}, .offset
          { extent := { length := some (.literal 1) }
            references := some ⟨3⟩
            referencedSize := some ⟨1⟩
            relativeTo := some ⟨0⟩
            additional := some (.literal 1) }⟩,
        ⟨{}, .structure { children := [⟨4⟩, ⟨5⟩] }⟩,
        ⟨{}, .offset { extent := { length := some (.literal 1) }, references := some ⟨5⟩ }⟩,
        ⟨{}, .number { extent := { length := some (.literal 1) } }⟩]
      root := ⟨0⟩ }
  options := { maxDepth := 4, maxRepeat := 2 }

/-- The structure starts at one, so its pointer means the address three; the pointer there is
null. -/
def sizedBytes : Slice := ⟨#[9, 2, 1, 0, 7], 1⟩

def sizedValue : Value :=
  let side : Value := ⟨⟨3⟩, 3, 2, none, .none,
    [⟨⟨4⟩, 3, 1, some .little, .offset 0 none none, []⟩,
      ⟨⟨5⟩, 4, 1, some .little, .number (.unsigned 7) none [] none, []⟩]⟩
  ⟨⟨0⟩, 1, 2, none, .none,
    [⟨⟨1⟩, 1, 1, some .little, .number (.unsigned 2) none [] none, []⟩,
      ⟨⟨2⟩, 2, 1, some .little, .offset 1 (some 3) (some side), []⟩]⟩

set_option maxRecDepth 8000 in
theorem offsets_land_sized :
    (sized.decodeElement ⟨0⟩ sizedBytes).result = .ok (sizedValue, []) ∧
      ∃ visits, sized.Visits (startPlace ⟨0⟩ 1 5) [sizedValue] visits ∧
        visits.map (·.value) = sizedValue.preorder ∧
        ∀ x ∈ visits, x.place.dataStop = 5 ∧
          (∀ body, x.node.kind = .offset body →
            ∃ pointer target side, x.value.payload = .offset pointer target side) ∧
          ∀ pointer target side, x.value.payload = .offset pointer target side →
            sized.Lands x.place x.node x.value.offset pointer target side := by
  have decodes : (sized.decodeElement ⟨0⟩ sizedBytes).result = .ok (sizedValue, []) := by cbv
  exact ⟨decodes, (offsets_land sized).1 ⟨0⟩ sizedBytes sizedValue [] decodes⟩

end Decoder

end BinaryTemplate
