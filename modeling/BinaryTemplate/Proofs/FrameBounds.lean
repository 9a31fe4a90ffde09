import BinaryTemplate.Proofs.FrameNotes

/-!
# Frame bounds nest and guard every read

A container ends where the frame around it does or before, by the check of its declared length. A
side tree starts anew: its scope ends with the data or before, however little is left of the frames
below it. So no frame ever reaches behind the data, and as every read is checked against the
innermost frame, none does.

The lemmas go through the functions of the machine in their order, and show of each that it keeps
the notes right. What a step of the decoder does with the source is left to the walk of two runs
through fields.
-/

namespace BinaryTemplate.Machine

open DecodeM (Returns)
open Decoder (Alternative)
open Simulation (noted_respects noted_covers)

variable {σ α : Type} [ByteSource σ] [SliceLike σ] {whole : Prop} {s : Schema} {d : Decoder σ}

/-! ## Steps that leave the stack alone -/

theorem twins_self (n : Node s) : n.Twins n := (Schema.Counterpart.refl s).twins rfl

omit [ByteSource σ] [SliceLike σ] in
theorem twins_noted (n : Node d.schema) : @Node.Twins d.schema d.noted.schema n n := twins_self n

omit [ByteSource σ] [SliceLike σ] in
theorem counterpart_noted (d : Decoder σ) : d.Counterpart d.noted :=
  ⟨.refl d.schema, fun _ _ => rfl, rfl, rfl, rfl, rfl⟩

section Shared

variable {R : Simulation σ (Noted σ)}

omit [ByteSource σ] [SliceLike σ] in
/-- Both decoders have the same elements. -/
theorem node_sims_noted (id : ElementId) (offset : Nat) :
    R.Simulates Eq (d.node id offset) (d.noted.node id offset) := by
  unfold Decoder.node
  cases d.schema.node? id with
  | none => exact .throw (R.usual _ rfl)
  | some n => exact .pure rfl

omit [ByteSource σ] [SliceLike σ] in
theorem alternatives_sims_noted (p : Place) (offset : Nat) (ids : List ElementId) :
    R.Simulates Eq (d.alternatives p offset ids) (d.noted.alternatives p offset ids) := by
  induction ids with
  | nil => exact .pure rfl
  | cons id rest inductionHypothesis =>
    refine .bind (node_sims_noted id offset) fun n => ?_
    refine .bind (Decoder.isDisabled_sims (twins_self n)) fun _ =>
      .ite (fun _ => inductionHypothesis) fun _ => ?_
    exact .bind (Decoder.repeatBounds_sims (counterpart_noted d) (twins_self n)) fun _ =>
      .bind inductionHypothesis fun _ => .pure rfl

omit [ByteSource σ] [SliceLike σ] in
theorem checkMinimums_sims_noted (offset : Nat) (choices : List (Alternative d.schema)) :
    R.Simulates Eq (d.checkMinimums offset choices) (d.noted.checkMinimums offset choices) := by
  induction choices with
  | nil => exact .pure rfl
  | cons a rest inductionHypothesis =>
    exact .guard (twins_self a.node).toNamesakes rfl fun _ => inductionHypothesis

end Shared

namespace Keeps

theorem record (e : Event) :
    Keeps whole (Machine.atPlace fun _ => DecodeM.record e : MachineM σ Unit)
      (Machine.atPlace fun _ => DecodeM.record e) :=
  .atPlace fun _ _ => .record e

theorem resolved (n : Node s) (offset : Nat) (r : Except CycleError α) :
    Keeps whole (Machine.atPlace fun _ => DecodeM.resolved n offset r : MachineM σ α)
      (Machine.atPlace fun _ => DecodeM.resolved n offset r) :=
  .atPlace fun _ _ => .resolved (twins_self n).toNamesakes rfl

theorem tellAt (n : Node s) (offset : Nat) :
    Keeps whole (Machine.atPlace fun _ => DecodeM.tellAt n offset : MachineM σ Nat)
      (Machine.atPlace fun _ => DecodeM.tellAt n offset) :=
  .atPlace fun _ within => Simulation.tellAt_sims (twins_self n).toNamesakes (noted_respects within)

theorem seek (n : Node s) (offset position : Nat) :
    Keeps whole (Machine.atPlace fun _ => DecodeM.seek n offset position : MachineM σ Unit)
      (Machine.atPlace fun _ => DecodeM.seek n offset position) :=
  .atPlace fun _ within =>
    Simulation.seek_sims (twins_self n).toNamesakes (noted_respects within) trivial

theorem align :
    Keeps whole (Machine.atPlace fun _ => DecodeM.align : MachineM σ Unit)
      (Machine.atPlace fun _ => DecodeM.align) :=
  .atPlace fun _ _ => .align

theorem fail (n : Node s) (offset : Nat) (failure : Failure) :
    Keeps whole (Machine.atPlace fun _ => DecodeM.fail n offset failure : MachineM σ α)
      (Machine.atPlace fun _ => DecodeM.fail n offset failure) :=
  .atPlace fun _ _ => .throw trivial

/-- What comes after a failure does not matter. -/
theorem fail_bind {β : Type} (n : Node s) (offset : Nat) (failure : Failure)
    {next : α → MachineM σ β} {next' : α → MachineM (Noted σ) β} :
    Keeps whole ((Machine.atPlace fun _ => DecodeM.fail n offset failure) >>= next)
      ((Machine.atPlace fun _ => DecodeM.fail n offset failure) >>= next') :=
  fun m good => ⟨rfl, rfl, good, .refl m⟩

theorem node (id : ElementId) (offset : Nat) :
    Keeps whole (Machine.atPlace fun _ => d.node id offset)
      (Machine.atPlace fun _ => d.noted.node id offset) :=
  .atPlace fun _ _ => node_sims_noted id offset

theorem exhausted (position : Nat) :
    Keeps whole (Machine.atPlace fun p => Decoder.exhausted p position : MachineM σ Bool)
      (Machine.atPlace fun p => Decoder.exhausted p position) :=
  .atPlace fun _ _ => Decoder.exhausted_sims position

theorem checkpoint (n : Node s) :
    Keeps whole (Machine.checkpoint n : MachineM σ Checkpoint) (Machine.checkpoint n) :=
  .bind (.tellAt n 0) fun _ m good => ⟨rfl, rfl, good, .refl m⟩

theorem rewind (n : Node s) (c : Checkpoint) :
    Keeps whole (Machine.rewind n c : MachineM σ Unit) (Machine.rewind n c) := by
  unfold Machine.rewind
  refine .bind (.seek n c.position c.position) fun _ => .modify ?_ ?_ ?_
  · exact fun _ => rfl
  · exact fun _ => rfl
  · exact fun _ => ⟨rfl, rfl, rfl, rfl⟩

end Keeps

/-! ## Containers -/

variable {attempt : Node d.schema → MachineM σ Value}
  {attempt' : Node d.schema → MachineM (Noted σ) Value}
  (attempts : ∀ n, Keeps whole (attempt n) (attempt' n))

omit [ByteSource σ] [SliceLike σ] in
theorem returns_of_atPlace {step : Place → DecodeM σ α} {m m' : Machine σ} {a : α}
    (ended : ending (atPlace step) m = (.ok a, m')) :
    ∃ st, Returns (step m.place) m.state a st := by
  rw [ending_atPlace] at ended
  exact ⟨_, Prod.ext (Prod.mk.inj ended).1 rfl⟩

section Containers

include attempts

theorem repeatFrom_keeps (n : Node d.schema) (min : Nat) (max : Option Nat) (room count : Nat) :
    Keeps whole (repeatFrom d attempt n min max room count)
      (repeatFrom d.noted attempt' n min max room count) := by
  induction room using Nat.strongRecOn generalizing count with
  | ind room inductionHypothesis =>
    rw [repeatFrom.eq_def, repeatFrom.eq_def]
    refine .ite (fun _ => .pure ()) fun _ => ?_
    refine .bind (.checkpoint n) fun mark => ?_
    refine .ite (fun _ => .bind (.exhausted mark.position) fun _ => .ite (fun _ => .pure ())
      fun _ => ?_) (fun _ => ?_)
    -- One more instance is tried alike with and without the minimum.
    all_goals
      cases room with
      | zero => exact .fail n _ _
      | succ room =>
        refine .bind (attempts n).outcome fun result => ?_
        cases result with
        | ok v =>
          refine .bind (.complete v) fun _ => .ite (fun _ => .pure ()) fun _ => ?_
          exact inductionHypothesis room (Nat.lt_succ_self room) (count + 1)
        | error e =>
          refine .ite (fun _ => ?_) fun _ => .throw e
          exact .bind (.record _) fun _ => .bind (.rewind n mark) fun _ => .pure ()

theorem decodeRepeated_keeps (n : Node d.schema) :
    Keeps whole (decodeRepeated d attempt n) (decodeRepeated d.noted attempt' n) := by
  refine .bind (.tellAt n 0) fun offset => .bind (.atPlace fun _ _ => ?_) fun bounds => ?_
  · exact Decoder.repeatBounds_sims (counterpart_noted d) (twins_noted n)
  · exact repeatFrom_keeps attempts n _ _ _ _

theorem decodeDeclared_keeps (ids : List ElementId) :
    Keeps whole (decodeDeclared d attempt ids) (decodeDeclared d.noted attempt' ids) := by
  induction ids with
  | nil => exact .pure ()
  | cons id rest inductionHypothesis =>
    simp only [decodeDeclared]
    refine .bind (.atPlace fun _ _ => node_sims_noted id _) fun n => ?_
    refine .bind (.atPlace fun _ _ => Decoder.isDisabled_sims (twins_noted n)) fun off => ?_
    refine .ite (fun _ => .bind (.record _) fun _ => inductionHypothesis) fun _ => ?_
    exact .bind (decodeRepeated_keeps attempts n) fun _ => inductionHypothesis

theorem firstMatch_keeps (n : Node d.schema) (mark : Checkpoint)
    (choices : List (Alternative d.schema)) :
    Keeps whole (firstMatch d attempt n mark choices)
      (firstMatch d.noted attempt' n mark choices) := by
  induction choices with
  | nil => exact .pure none
  | cons a rest inductionHypothesis =>
    simp only [firstMatch]
    refine .ite (fun _ => .bind inductionHypothesis fun _ => .pure _) fun _ => ?_
    refine .bind (attempts a.node).outcome fun result => ?_
    cases result with
    | ok v => exact .pure _
    | error e =>
      refine .ite (fun _ m good => ⟨rfl, rfl, good, .refl m⟩) fun _ => ?_
      exact .bind (.record _) fun _ => .bind (.rewind n mark) fun _ =>
        .bind inductionHypothesis fun _ => .pure _

theorem decodeChoices_keeps (n : Node d.schema) (room : Nat)
    (choices : List (Alternative d.schema)) :
    Keeps whole (decodeChoices d attempt n room choices)
      (decodeChoices d.noted attempt' n room choices) := by
  induction room using Nat.strongRecOn generalizing choices with
  | ind room inductionHypothesis =>
    rw [decodeChoices.eq_def, decodeChoices.eq_def]
    refine .bind (.checkpoint n) fun mark => .bind (.exhausted mark.position) fun _ =>
      .ite (fun _ => .pure _) fun _ => ?_
    refine .bind (firstMatch_keeps attempts n mark choices) fun found => ?_
    cases found with
    | none => exact .pure _
    | some x =>
      refine .bind (.complete x.1) fun _ => .ite (fun _ => .pure _) fun _ => ?_
      cases room with
      | zero => exact .fail n _ _
      | succ room => exact inductionHypothesis room (Nat.lt_succ_self room) x.2

theorem decodeAnyOf_keeps (n : Node d.schema) (children : List ElementId) :
    Keeps whole (decodeAnyOf d attempt n children) (decodeAnyOf d.noted attempt' n children) := by
  refine .bind (.tellAt n 0) fun offset => .bind (.atPlace fun p _ => ?_) fun choices => ?_
  · exact alternatives_sims_noted p offset children
  refine .bind (decodeChoices_keeps attempts n _ choices) fun choices => .atPlace fun _ _ => ?_
  exact checkMinimums_sims_noted offset choices

theorem decodeContent_keeps (n : Node d.schema) (children : List ElementId) (order : ChildOrder) :
    Keeps whole (decodeContent d attempt n children order)
      (decodeContent d.noted attempt' n children order) := by
  cases order with
  | declared => exact decodeDeclared_keeps attempts children
  | anyOf => exact decodeAnyOf_keeps attempts n children

theorem decodeContainer_keeps (n : Node d.schema) (definition : Option ElementId)
    (children : List ElementId) (order : ChildOrder) (declared : Option Nat) :
    Keeps whole (decodeContainer d id attempt n definition children order declared)
      (decodeContainer d.noted noteFrames attempt' n definition children order declared) := by
  refine .bind .align fun _ => .bind (.tellAt n 0) fun start => ?_
  have stops : Keeps whole (atPlace fun p => d.containerStop p n start declared)
      (atPlace fun p => d.noted.containerStop p n start declared) := by
    refine .atPlace fun _ _ => Decoder.containerStop_sims ?_ start declared
    exact twins_noted n
  intro m good
  refine (stops m good).bind (fun stop m₁ ended good₁ same₁ => ?_) fun _ _ _ => id
  have below : stop ≤ m.inner.stop := by
    obtain ⟨st, returned⟩ := returns_of_atPlace ended
    exact (Decoder.containerStop_returns.mp returned).2.1
  refine ((Keeps.record _ m₁ good₁).of_same same₁).bind (fun _ m₂ _ good₂ same₂ => ?_)
    fun _ _ _ => id
  rw [← same₂.stop] at below
  have within : stop ≤ m₂.dataStop :=
    Nat.le_trans below (good₂.nest.within _ List.mem_cons_self)
  refine Ends.of_same ?_ same₂
  have opened := Ends.enter (f := .container n.id definition start stop) good₂ within fun _ => below
  refine opened.framed (fun _ _ => nofun) (decodeContent_keeps attempts n children order)
    (fun _ good same => .leave good good₂.nest same) fun result frame => ?_
  cases result with
  | error e =>
    refine .atPlace fun _ _ => Decoder.contentFailure_sims ?_ trivial
    exact twins_noted n
  | ok =>
    refine .bind (.tellAt n start) fun position => .bind (.atPlace fun _ _ => ?_) fun _ => .pure _
    refine Decoder.containerLength_sims ?_ start (position - start) declared
    exact twins_noted n

theorem decodeStructure_keeps (n definition : Node d.schema) :
    Keeps whole (decodeStructure d id attempt n definition)
      (decodeStructure d.noted noteFrames attempt' n definition) := by
  refine .bind .align fun _ => .bind (.tellAt n 0) fun offset => ?_
  refine .bind (.resolved n offset n.order) fun order => ?_
  refine .bind (.atPlace fun _ _ => ?_) fun declared => ?_
  · exact Decoder.structureLength_sims (counterpart_noted d) (twins_noted n)
  · exact decodeContainer_keeps attempts n _ _ order declared

theorem decodeGrammarRef_keeps (n : Node d.schema) (offset : Nat) :
    Keeps whole (decodeGrammarRef d attempt n offset)
      (decodeGrammarRef d.noted attempt' n offset) := by
  refine .bind (.resolved n offset n.disabled) fun _ => .ite (fun _ => .pure _) fun _ => ?_
  refine .bind (.resolved n offset (n.lookup .grammar)) fun target => ?_
  cases target with
  | none => exact .fail n offset _
  | some target =>
    refine .bind (.node target offset) fun grammar => ?_
    cases kind : grammar.kind with
    | grammar => exact attempts grammar
    | _ => exact .fail n offset _

end Containers

/-! ## Offsets -/

section Offsets

include attempts

theorem follow_keeps (n : Node d.schema) (offset target : Nat) (element : ElementId) :
    Keeps whole (follow d id attempt n offset target element)
      (follow d.noted noteFrames attempt' n offset target element) := by
  intro m good
  show Ends whole (SameStack m)
    (ending (if (target, element) ∈ m.following then _ else _) m.plain)
    (ending (if (target, element) ∈ m.following then _ else _) m)
  refine Keeps.ite (fun _ => .fail_bind n offset _) (fun _ => ?_) m good
  refine .bind (.node element offset) fun referenced => ?_
  refine .bind (.atPlace fun _ _ => Decoder.referencedSize_sims ?_) fun size => ?_
  · exact twins_noted n
  have stops : Keeps whole (atPlace fun p => d.regionStop p n offset target size)
      (atPlace fun p => d.noted.regionStop p n offset target size) := by
    refine .atPlace fun _ _ => Decoder.regionStop_sims ?_ target size
    exact twins_noted n
  intro m good
  refine (stops m good).bind (fun stop m₁ ended good₁ same₁ => ?_) fun _ _ _ => id
  -- The region may reach behind the frame of the offset, but not behind the data.
  have below : stop ≤ m.dataStop := by
    obtain ⟨st, returned⟩ := returns_of_atPlace ended
    exact (Decoder.regionStop_returns.mp returned).1.within
  refine ((Keeps.tellAt n offset m₁ good₁).of_same same₁).bind
    (fun resume m₂ _ good₂ same₂ => ?_) fun _ _ _ => id
  refine ((Keeps.record _ m₂ good₂).of_same same₂).bind (fun _ m₃ _ good₃ same₃ => ?_)
    fun _ _ _ => id
  refine ((Keeps.seek n offset target m₃ good₃).of_same same₃).bind
    (fun _ m₄ _ good₄ same₄ => ?_) fun _ _ _ => id
  rw [← same₄.dataStop] at below
  refine Ends.of_same ?_ same₄
  refine (Ends.enterSide good₄ below).framed (fun _ _ => nofun) (attempts referenced)
    (fun _ good same => .leaveSide good good₄.nest same) fun result _ => ?_
  exact .bind (.seek n offset resume) fun _ => .liftExcept result

theorem followTarget_keeps (n : Node d.schema) (offset : Nat) (target : Option Nat) :
    Keeps whole (followTarget d id attempt n offset target)
      (followTarget d.noted noteFrames attempt' n offset target) := by
  refine .bind (.resolved n offset (n.lookup .references)) fun element => ?_
  cases target with
  | none => exact .pure none
  | some target =>
    cases element with
    | none => exact .pure none
    | some element =>
      exact .bind (follow_keeps attempts n offset target element) fun _ => .pure _

theorem decodeOffset_keeps (n : Node d.schema) :
    Keeps whole (decodeOffset d id attempt n) (decodeOffset d.noted noteFrames attempt' n) := by
  refine .bind (.tellAt n 0) fun position => ?_
  refine .bind (.resolved n position n.byteOrder) fun order => ?_
  have reads : Keeps whole (atPlace fun p => d.readRaw p n order)
      (atPlace fun p => d.noted.readRaw p n order) :=
    .atPlace fun _ within => Decoder.readRaw_sims (counterpart_noted d) (twins_noted n)
      (noted_respects within) noted_covers order
  refine .bind reads fun r => .bind (.atPlace fun _ _ => ?_) fun target => ?_
  · exact Decoder.targetAddress_sims (counterpart_noted d) (twins_noted n) r.raw
  · exact .bind (followTarget_keeps attempts n r.offset target) fun _ => .pure _

end Offsets

/-! ## Elements -/

section Elements

variable (reads : whole → d.ScriptsOnlyRead)

include reads

theorem decodeScripted_keeps (n : Node d.schema) (id : ElementId) :
    Keeps whole (atPlace fun p => d.decodeScripted p n id)
      (atPlace fun p => d.noted.decodeScripted p n id) := by
  refine .atPlace fun p within => ?_
  have keeps : (Simulation.noted σ whole p.limit p.dataStop).Respects := noted_respects within
  refine Decoder.decodeScripted_sims_of (counterpart_noted d) (twins_noted n) keeps
    (fun offset script defined => ?_) id
  exact Decoder.decodeByScript_sims (counterpart_noted d) (twins_noted n) keeps
    (fun _ _ => trivial) noted_covers (Simulation.noted_hosts d reads) defined

include attempts

theorem decodeKind_keeps (n : Node d.schema) (offset : Nat) :
    Keeps whole (decodeKind d id attempt n offset)
      (decodeKind d.noted noteFrames attempt' n offset) := by
  unfold decodeKind
  cases kind : n.kind with
  | grammar body => exact .settled (decodeContainer_keeps attempts n _ _ _ _)
  | grammarRef => exact .settled (decodeGrammarRef_keeps attempts n offset)
  | «structure» => exact .settled (decodeStructure_keeps attempts n n)
  | structRef =>
    refine .bind (.resolved n offset (n.lookup .structure?)) fun target => ?_
    cases target with
    | none => exact .fail n offset _
    | some target =>
      refine .bind (.node target offset) fun definition => ?_
      cases defines : definition.kind with
      | «structure» => exact .settled (decodeStructure_keeps attempts n definition)
      | _ => exact .settled (.fail n offset _)
  | number =>
    refine .settled (.atPlace fun _ within => ?_)
    exact Decoder.decodeNumber_sims (counterpart_noted d) (twins_noted n) (noted_respects within)
      noted_covers
  | string =>
    refine .settled (.atPlace fun _ within => ?_)
    exact Decoder.decodeString_sims (counterpart_noted d) (twins_noted n) (noted_respects within)
      noted_covers
  | binary =>
    refine .settled (.atPlace fun _ within => ?_)
    exact Decoder.decodeBinary_sims (counterpart_noted d) (twins_noted n) (noted_respects within)
      noted_covers
  | custom =>
    refine .bind (.resolved n offset (n.lookup .script)) fun script => ?_
    cases script with
    | some script => exact .settled (decodeScripted_keeps reads n script)
    | none => exact .settled (.fail n offset _)
  | offset => exact .settled (decodeOffset_keeps attempts n)
  | script => exact .settled (decodeScripted_keeps reads n n.id)

end Elements

theorem decodeWithin_keeps (reads : whole → d.ScriptsOnlyRead) (fuel : Nat) (n : Node d.schema) :
    Keeps whole (decodeWithin d id fuel n) (decodeWithin d.noted noteFrames fuel n) := by
  induction fuel generalizing n with
  | zero =>
    exact .watched (.bind (.record _) fun _ => .bind (.tellAt n 0) fun offset => .fail n offset _)
  | succ fuel inductionHypothesis =>
    refine .watched (.bind (.record _) fun _ => .bind (.tellAt n 0) fun offset => ?_)
    intro m good
    show Ends whole (SameStack m) (ending (if d.options.maxDepth ≤ m.depth then _ else _) m.plain)
      (ending (if d.options.maxDepth ≤ m.depth then _ else _) m)
    refine Keeps.ite (fun _ => .fail n offset _) (fun _ => .bind (.modify ?_ ?_ ?_) fun _ => ?_)
      m good
    · exact fun _ => rfl
    · exact fun _ => rfl
    · exact fun _ => ⟨rfl, rfl, rfl, rfl⟩
    · exact decodeKind_keeps inductionHypothesis reads n offset

/-! ## From the start of a decode -/

/-- The machine that decodes an element from the cursor of a source. -/
def opening (element : ElementId) (source : σ) : Machine σ :=
  let slice := SliceLike.slice source
  { source := source
    inner := .scope element slice.cursor slice.data.size
    bits := []
    outer := []
    dataStop := slice.data.size
    depth := 0
    following := []
    warnings := []
    events := [] }

theorem good_opening (element : ElementId) (source : σ) :
    Good whole (opening element source).noted := by
  let f := (opening element source).inner
  have nest : FramesNest (opening element source).dataStop [f] := by
    refine ⟨List.cons_ne_nil _ _, fun g member => ?_, List.isChain_singleton f⟩
    rw [List.mem_singleton.mp member]
    exact Nat.le_refl _
  have none : Note.Sound whole (opening element source).dataStop [] := ⟨nofun, trivial, nofun⟩
  exact ⟨nest, rfl, none.frames nest, fun _ => rfl⟩

/-- Frame bounds nest and guard every read.

From any cursor of any bytes, the machine decodes an element as the decoder does, and it does so as
well if it notes how its stack stands and what it reads. Whenever the stack changes there is an
innermost frame, no frame reaches behind the data, and no container behind the frame around it.
Every read ends where the innermost frame of that time does or before, and so within the data.
Unless a script changes the bytes, each gets all that it wants: where a decode fails with a short
read, that is what a check of its own found. And an attempt leaves every machine with the stack that
it found, whether it fails or not, but for the unread bits of the innermost frame. -/
theorem frame_bounds_guard_reads (d : Decoder σ) (n : Node d.schema) (source : σ) :
    let slice := SliceLike.slice source
    let run := ending (decodeOne d id n) (opening n.id source)
    let noting := ending (decodeOne d.noted noteFrames n) (opening n.id source).noted
    let notes := noting.2.source.notes
    (run.1, run.2.state) =
        (d.decodeOne d.options.maxDepth (Decoder.startPlace n.id slice.cursor slice.data.size)
          n).ending { source := source } ∧
      (noting.1 = run.1 ∧ noting.2.plain = run.2) ∧
      (∀ stack, .frames stack ∈ notes → FramesNest slice.data.size stack) ∧
      Note.Guarded notes ∧
      (∀ start count answered, .read start count answered ∈ notes →
        start + count ≤ slice.data.size ∧ (d.ScriptsOnlyRead → answered = true)) ∧
      ∀ fuel (m : Machine σ) n, let after := (ending (decodeWithin d id fuel n) m).2
        after.inner = m.inner ∧ after.outer = m.outer := by
  intro slice run noting notes
  have keeps : Keeps d.ScriptsOnlyRead (decodeOne d id n) (decodeOne d.noted noteFrames n) :=
    decodeWithin_keeps id d.options.maxDepth n
  have ends := keeps _ (good_opening n.id source)
  have mirrors := ending_decodeWithin (d := d) (m := opening n.id source) d.options.maxDepth n
  have fuel : min d.options.maxDepth (d.options.maxDepth - (opening n.id source).depth) =
      d.options.maxDepth := by
    rw [show (opening n.id source).depth = 0 from rfl, Nat.sub_zero, Nat.min_self]
  rw [fuel] at mirrors
  have sound : Note.Sound d.ScriptsOnlyRead slice.data.size notes := by
    have dataStop : noting.2.dataStop = slice.data.size := ends.kept.dataStop
    rw [← dataStop]
    exact ends.good.sound
  refine ⟨mirrors, ⟨ends.answer, ends.plain⟩, sound.nest, sound.guarded, ?_, ?_⟩
  · intro start count answered member
    exact ⟨sound.read_le member, fun reads => sound.answered reads start count answered member⟩
  · exact fun fuel m n => stack_decodeWithin fuel n

/-! ## Bytes that are not all there -/

/-- A structure of one byte, which is a pointer to a number of two bytes. -/
def cutShort : Decoder Slice where
  schema :=
    { elements := #[
        ⟨{}, .structure { children := [⟨1⟩], extent := { length := some (.literal 1) } }⟩,
        ⟨{}, .offset { extent := { length := some (.literal 1) }, references := some ⟨2⟩ }⟩,
        ⟨{}, .number { extent := { length := some (.literal 2) } }⟩]
      root := ⟨0⟩ }
  options := { maxDepth := 3, maxRepeat := 2 }

def cutShortRoot : Node cutShort.schema := ⟨⟨0⟩, _, rfl⟩

/-- One byte in front of the structure, which points at the last byte of the file. -/
def cutShortBytes : Slice := ⟨#[9, 3, 8, 6], 1⟩

def cutShortRun : Except DecodeError Value × Machine (Noted Slice) :=
  ending (decodeOne cutShort.noted noteFrames cutShortRoot) (opening ⟨0⟩ cutShortBytes).noted

set_option maxRecDepth 8000 in
/-- The side tree goes on behind the structure, and its number is found to be short before any of
it is read. -/
theorem frame_bounds_guard_reads_cut_short :
    cutShortRun.1 = .error ⟨⟨2⟩, "number#2", 3, .shortRead 2 1⟩ ∧
      (cutShortRun.2.source.notes.filterMap fun
        | .read start count answered => some (start, count, answered)
        | .frames _ => none) = [(1, 1, true)] ∧
      (∀ start count answered, .read start count answered ∈ cutShortRun.2.source.notes →
        start + count ≤ 4 ∧ answered = true) ∧
      (∀ stack, .frames stack ∈ cutShortRun.2.source.notes → FramesNest 4 stack) := by
  have ran : (cutShortRun.1, cutShortRun.2.source.notes.filterMap fun
      | .read start count answered => some (start, count, answered)
      | .frames _ => none) =
      (.error ⟨⟨2⟩, "number#2", 3, .shortRead 2 1⟩, [(1, 1, true)]) := by cbv
  refine ⟨congrArg Prod.fst ran, congrArg Prod.snd ran, ?_⟩
  have scriptless (script : ScriptBody) : ¬ cutShort.schema.HasScript script := by
    simp [Schema.HasScript, cutShort]
  obtain ⟨-, -, nest, -, bounded, -⟩ := frame_bounds_guard_reads cutShort cutShortRoot cutShortBytes
  unfold cutShortRun
  refine ⟨fun start count answered member => ?_, nest⟩
  obtain ⟨within, answers⟩ := bounded start count answered member
  exact ⟨within, answers (Decoder.scriptsOnlyRead_of_scriptless scriptless)⟩

end BinaryTemplate.Machine
