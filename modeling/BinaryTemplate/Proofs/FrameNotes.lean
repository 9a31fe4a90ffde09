import BinaryTemplate.Proofs.MachineRefinement
import BinaryTemplate.Proofs.Independence

/-!
# A decode with its frames and reads noted

To say something of every state that a decode goes through, the machine is watched: it notes how its
stack stands whenever that changes, and its source notes every read. The notes are kept beside the
source, where no step of a decode looks at them.

What the notes say is an invariant: the frames nest, and a read ends before the innermost frame
does. It is proved together with the equality of the two machines, by a rule for each way to join
steps.
-/

namespace BinaryTemplate

/-- How the stack of a decode stands, the innermost frame first; or a read: where it begins, how
many bytes it wants, and whether the source gave them. -/
inductive Note where
  | frames (stack : List Frame)
  | read (start count : Nat) (answered : Bool)

/-- A source with what was noted so far, the latest note first. -/
structure Noted (σ : Type) where
  source : σ
  notes : List Note

namespace Noted

variable {σ ε α : Type}

/-- An operation of the source of which nothing is noted. -/
def unnoted (operation : ExceptT ε (StateM σ) α) : ExceptT ε (StateM (Noted σ)) α :=
  fun t => let (answer, source) := operation t.source; (answer, ⟨source, t.notes⟩)

/-- A read of `count` bytes from `start` on. -/
def noting (start count : Nat) (operation : SourceM σ α) : SourceM (Noted σ) α :=
  fun t =>
    let (answer, source) := operation t.source
    (answer, ⟨source, .read start count answer.isOk :: t.notes⟩)

variable [ByteSource σ] [SliceLike σ]

instance : ByteSource (Noted σ) where
  seek target := unnoted (ByteSource.seek target)
  tell := unnoted ByteSource.tell
  size := unnoted ByteSource.size
  readExact count := fun t =>
    noting (SliceLike.slice t.source).cursor count (ByteSource.readExact count) t
  readExactAt count offset := noting offset count (ByteSource.readExactAt count offset)

end Noted

/-- The same decoder over a source with notes. -/
@[reducible] def Decoder.noted {σ : Type} (d : Decoder σ) : Decoder (Noted σ) where
  schema := d.schema
  evaluator := d.evaluator
  encodings := d.encodings
  scripts := d.scripts.map fun host => ⟨fun script call => Noted.unnoted (host.run script call)⟩
  options := d.options

/-! ## What the notes say -/

/-- There is an innermost frame, no frame reaches behind the data, and no container reaches behind
the frame around it. -/
structure FramesNest (dataStop : Nat) (stack : List Frame) : Prop where
  nonempty : stack ≠ []
  within : ∀ f ∈ stack, f.stop ≤ dataStop
  nested : stack.IsChain fun inner outer => inner.isScope = false → inner.stop ≤ outer.stop

namespace Note

/-- Where the innermost frame ends, as noted last. -/
def guard? : List Note → Option Nat
  | [] => none
  | .frames stack :: _ => stack.head?.map Frame.stop
  | .read .. :: earlier => guard? earlier

/-- Every read ends where the innermost frame does at that time, or earlier. -/
def Guarded : List Note → Prop
  | [] => True
  | .frames _ :: earlier => Guarded earlier
  | .read start count _ :: earlier =>
    (∃ stop, guard? earlier = some stop ∧ start + count ≤ stop) ∧ Guarded earlier

/-- The notes of a decode whose frames nest and guard its reads. If the data stays `whole`, the
source gives all that it is asked for. -/
structure Sound (whole : Prop) (dataStop : Nat) (notes : List Note) : Prop where
  nest : ∀ stack, .frames stack ∈ notes → FramesNest dataStop stack
  guarded : Guarded notes
  answered : whole → ∀ start count answered, .read start count answered ∈ notes → answered = true

variable {whole : Prop} {dataStop : Nat} {notes : List Note}

theorem guard?_le (nest : ∀ stack, .frames stack ∈ notes → FramesNest dataStop stack) {stop : Nat}
    (guards : guard? notes = some stop) : stop ≤ dataStop := by
  induction notes with
  | nil => cases guards
  | cons note earlier inductionHypothesis =>
    cases note with
    | frames stack =>
      obtain ⟨f, first, rfl⟩ := Option.map_eq_some_iff.mp guards
      exact (nest stack List.mem_cons_self).within f (List.mem_of_mem_head? first)
    | read =>
      exact inductionHypothesis (fun stack member => nest stack (List.mem_cons_of_mem _ member))
        guards

/-- No read reaches behind the data. -/
theorem Sound.read_le (sound : Sound whole dataStop notes) {start count : Nat} {answered : Bool}
    (member : .read start count answered ∈ notes) : start + count ≤ dataStop := by
  have nest := sound.nest
  have guarded := sound.guarded
  clear sound
  induction notes with
  | nil => cases member
  | cons note earlier inductionHypothesis =>
    have before : ∀ stack, .frames stack ∈ earlier → FramesNest dataStop stack :=
      fun stack member => nest stack (List.mem_cons_of_mem _ member)
    cases note with
    | frames =>
      obtain same | member := List.mem_cons.mp member
      · cases same
      · exact inductionHypothesis member before guarded
    | read =>
      obtain ⟨⟨stop, guards, ends⟩, guarded⟩ := guarded
      obtain same | member := List.mem_cons.mp member
      · cases same
        exact Nat.le_trans ends (guard?_le before guards)
      · exact inductionHypothesis member before guarded

theorem Sound.frames (sound : Sound whole dataStop notes) {stack : List Frame}
    (nest : FramesNest dataStop stack) : Sound whole dataStop (.frames stack :: notes) where
  nest := by
    intro stack' member
    obtain same | member := List.mem_cons.mp member
    · cases same
      exact nest
    · exact sound.nest stack' member
  guarded := sound.guarded
  answered := by
    intro keeps start count answered member
    obtain same | member := List.mem_cons.mp member
    · cases same
    · exact sound.answered keeps start count answered member

theorem Sound.read (sound : Sound whole dataStop notes) {start count stop : Nat} {answered : Bool}
    (guards : guard? notes = some stop) (ends : start + count ≤ stop)
    (gives : whole → answered = true) :
    Sound whole dataStop (.read start count answered :: notes) where
  nest := by
    intro stack member
    obtain same | member := List.mem_cons.mp member
    · cases same
    · exact sound.nest stack member
  guarded := ⟨⟨stop, guards, ends⟩, sound.guarded⟩
  answered := by
    intro keeps start count answered member
    obtain same | member := List.mem_cons.mp member
    · cases same
      exact gives keeps
    · exact sound.answered keeps start count answered member

end Note

/-! ## The noting machine -/

namespace Machine

variable {σ α β : Type}

def frames (m : Machine σ) : List Frame := m.inner :: m.outer.map Prod.fst

/-- The machine without what it has noted. -/
def plain (m : Machine (Noted σ)) : Machine σ :=
  ⟨m.source.source, m.inner, m.bits, m.outer, m.dataStop, m.depth, m.following, m.warnings,
    m.events⟩

def noteFrames (m : Machine (Noted σ)) : Machine (Noted σ) :=
  { m with source := ⟨m.source.source, .frames m.frames :: m.source.notes⟩ }

/-- The machine from which a decode is noted. The first note is how its stack stands. -/
def noted (m : Machine σ) : Machine (Noted σ) :=
  noteFrames ⟨⟨m.source, []⟩, m.inner, m.bits, m.outer, m.dataStop, m.depth, m.following,
    m.warnings, m.events⟩

/-! ## The invariant -/

variable {whole : Prop} {m m' : Machine (Noted σ)} {K K' : Machine (Noted σ) → Prop} {f : Frame}

/-- The same frames, but for the values that are completed in the innermost one. -/
structure SameStack (m m' : Machine (Noted σ)) : Prop where
  outer : m'.outer = m.outer
  dataStop : m'.dataStop = m.dataStop
  stop : m'.inner.stop = m.inner.stop
  isScope : m'.inner.isScope = m.inner.isScope

theorem SameStack.refl (m : Machine (Noted σ)) : SameStack m m := ⟨rfl, rfl, rfl, rfl⟩

theorem SameStack.trans {m'' : Machine (Noted σ)} (first : SameStack m m')
    (second : SameStack m' m'') : SameStack m m'' :=
  ⟨second.outer.trans first.outer, second.dataStop.trans first.dataStop,
    second.stop.trans first.stop, second.isScope.trans first.isScope⟩

theorem SameStack.nest (same : SameStack m m') (nest : FramesNest m.dataStop m.frames) :
    FramesNest m'.dataStop m'.frames := by
  obtain ⟨-, within, nested⟩ := nest
  obtain ⟨first, others⟩ := List.isChain_cons.mp nested
  rw [same.dataStop]
  refine ⟨List.cons_ne_nil _ _, ?_, ?_⟩
  · rw [frames, same.outer]
    intro f member
    obtain rfl | member := List.mem_cons.mp member
    · rw [same.stop]
      exact within _ List.mem_cons_self
    · exact within f (List.mem_cons_of_mem _ member)
  · rw [frames, same.outer]
    refine List.isChain_cons.mpr ⟨fun outer member => ?_, others⟩
    rw [same.stop, same.isScope]
    exact first outer member

theorem nest_push (nest : FramesNest m.dataStop m.frames) (within : f.stop ≤ m.dataStop)
    (nested : f.isScope = false → f.stop ≤ m.inner.stop) :
    FramesNest m.dataStop (m.push f).frames where
  nonempty := List.cons_ne_nil _ _
  within := by
    intro f' member
    obtain rfl | member := List.mem_cons.mp member
    · exact within
    · exact nest.within f' member
  nested := by
    refine List.isChain_cons.mpr ⟨fun outer member => ?_, nest.nested⟩
    obtain rfl : m.inner = outer := Option.some.inj member
    exact nested

theorem plain_pop (m : Machine (Noted σ)) : m.plain.pop = m.pop.plain := by
  unfold pop
  cases outer : m.outer with
  | nil => simp only [plain, outer]
  | cons f rest => simp only [plain, outer]

/-- The frames around the one that is closed are what they were. -/
theorem SameStack.pop (same : SameStack (m.push f).noteFrames m') :
    m'.pop = { m' with inner := m.inner, bits := m.bits, outer := m.outer } := by
  have outer : m'.outer = (m.inner, m.bits) :: m.outer := same.outer
  unfold Machine.pop
  rw [outer]

theorem outcome_total {p p' : Machine σ} {step : MachineM σ α} {e : DecodeError} :
    ending (outcome step) p ≠ (.error e, p') := by
  show (Except.ok _, _) ≠ _
  exact nofun

variable [ByteSource σ] [SliceLike σ]

/-- The frames nest, now and in the notes, and the innermost one is the one noted last. -/
structure Good (whole : Prop) (m : Machine (Noted σ)) : Prop where
  nest : FramesNest m.dataStop m.frames
  guards : Note.guard? m.source.notes = some m.inner.stop
  sound : Note.Sound whole m.dataStop m.source.notes
  size : whole → (SliceLike.slice m.source.source).data.size = m.dataStop

theorem Good.of_same (good : Good whole m) (source : m'.source = m.source)
    (same : SameStack m m') : Good whole m' where
  nest := same.nest good.nest
  guards := by
    rw [source, same.stop]
    exact good.guards
  sound := by
    rw [source, same.dataStop]
    exact good.sound
  size := by
    rw [source, same.dataStop]
    exact good.size

theorem Good.noteFrames (good : Good whole m) : Good whole m.noteFrames :=
  ⟨good.nest, rfl, good.sound.frames good.nest, good.size⟩

theorem Good.push (good : Good whole m) (within : f.stop ≤ m.dataStop)
    (nested : f.isScope = false → f.stop ≤ m.inner.stop) :
    Good whole (m.push f).noteFrames := by
  have nest : FramesNest m.dataStop (m.push f).frames :=
    nest_push good.nest within nested
  exact ⟨nest, rfl, good.sound.frames nest, good.size⟩

theorem Good.pop (good : Good whole m') (before : FramesNest m.dataStop m.frames)
    (same : SameStack (m.push f).noteFrames m') :
    Good whole m'.pop.noteFrames ∧ SameStack m m'.pop.noteFrames := by
  have dataStop : m'.dataStop = m.dataStop := same.dataStop
  rw [same.pop]
  have nest : FramesNest m'.dataStop m.frames := by
    rw [dataStop]
    exact before
  exact ⟨⟨nest, rfl, good.sound.frames nest, good.size⟩, rfl, dataStop, rfl, rfl⟩

/-- The noting machine ends as the machine itself does, with notes that are right. -/
structure Ends (whole : Prop) (K : Machine (Noted σ) → Prop)
    (l : Except DecodeError α × Machine σ) (r : Except DecodeError α × Machine (Noted σ)) :
    Prop where
  answer : r.1 = l.1
  plain : r.2.plain = l.2
  good : Good whole r.2
  kept : K r.2

/-- With right notes before it, a step ends as its noting counterpart does, on the same stack. -/
def Keeps (whole : Prop) (step : MachineM σ α) (noting : MachineM (Noted σ) α) : Prop :=
  ∀ m, Good whole m → Ends whole (SameStack m) (ending step m.plain) (ending noting m)

/-! ## Sequences -/

variable {step : MachineM σ α} {noting : MachineM (Noted σ) α} {next : α → MachineM σ β}
  {next' : α → MachineM (Noted σ) β}

/-- Where the first step fails, the rest is not gone through. -/
theorem Ends.bind (first : Ends whole K (ending step m.plain) (ending noting m))
    (rest : ∀ a m', ending step m.plain = (.ok a, m'.plain) → Good whole m' → K m' →
      Ends whole K' (ending (next a) m'.plain) (ending (next' a) m'))
    (failed : ∀ e m', ending step m.plain = (.error e, m'.plain) → K m' → K' m') :
    Ends whole K' (ending (step >>= next) m.plain) (ending (noting >>= next') m) := by
  obtain ⟨answer, plain, good, kept⟩ := first
  rw [ending_bind, ending_bind]
  rcases ended : ending step m.plain with ⟨e | a, p⟩
  all_goals
    rcases noted : ending noting m with ⟨answer', m'⟩
    rw [ended, noted] at answer plain
    rw [noted] at good kept
    obtain rfl : answer' = _ := answer
    obtain rfl : m'.plain = p := plain
  · exact ⟨rfl, rfl, good, failed e m' ended kept⟩
  · exact rest a m' ended good kept

theorem Ends.of_same {l : Except DecodeError α × Machine σ}
    {r : Except DecodeError α × Machine (Noted σ)} (ends : Ends whole (SameStack m') l r)
    (same : SameStack m m') : Ends whole (SameStack m) l r :=
  { ends with kept := same.trans ends.kept }

theorem Keeps.bind (first : Keeps whole step noting) (rest : ∀ a, Keeps whole (next a) (next' a)) :
    Keeps whole (step >>= next) (noting >>= next') := by
  intro m good
  refine (first m good).bind ?_ fun _ _ _ => id
  intro a m' _ good' same
  exact (rest a m' good').of_same same

theorem Keeps.pure (a : α) :
    Keeps whole (Pure.pure a : MachineM σ α) (Pure.pure a : MachineM (Noted σ) α) :=
  fun m good => ⟨rfl, rfl, good, .refl m⟩

theorem Keeps.throw (e : DecodeError) :
    Keeps whole (throw e : MachineM σ α) (throw e : MachineM (Noted σ) α) :=
  fun m good => ⟨rfl, rfl, good, .refl m⟩

theorem Keeps.liftExcept (r : Except DecodeError α) :
    Keeps whole (liftExcept r : MachineM σ α) (liftExcept r : MachineM (Noted σ) α) := by
  cases r with
  | ok a => exact .pure a
  | error e => exact .throw e

theorem Keeps.ite {c : Prop} [Decidable c] {yes no : MachineM σ α}
    {yes' no' : MachineM (Noted σ) α} (holds : c → Keeps whole yes yes')
    (fails : ¬ c → Keeps whole no no') :
    Keeps whole (if c then yes else no) (if c then yes' else no') := by
  by_cases h : c
  · rw [if_pos h, if_pos h]
    exact holds h
  · rw [if_neg h, if_neg h]
    exact fails h

theorem Keeps.outcome (keeps : Keeps whole step noting) :
    Keeps whole (outcome step) (outcome noting) := by
  intro m good
  obtain ⟨answer, plain, good', kept⟩ := keeps m good
  exact ⟨congrArg Except.ok answer, plain, good', kept⟩

/-- A change of the machine that is the same on both sides and leaves the source and the frames as
they are. -/
theorem Keeps.modify {change : Machine σ → Machine σ}
    {change' : Machine (Noted σ) → Machine (Noted σ)}
    (same : ∀ m, (change' m).plain = change m.plain) (source : ∀ m, (change' m).source = m.source)
    (stack : ∀ m, SameStack m (change' m)) :
    Keeps whole (modify change : MachineM σ Unit) (modify change' : MachineM (Noted σ) Unit) :=
  fun m good => ⟨rfl, same m, good.of_same (source m) (stack m), stack m⟩

theorem Keeps.complete (v : Value) :
    Keeps whole (complete v : MachineM σ Unit) (complete v : MachineM (Noted σ) Unit) :=
  .modify (fun _ => rfl) (fun _ => rfl) fun _ => ⟨rfl, rfl, rfl, rfl⟩

theorem Keeps.settled (keeps : Keeps whole step noting) :
    Keeps whole (settled step) (settled noting) := by
  unfold Machine.settled
  refine .bind keeps.outcome fun r => .bind (.modify ?_ ?_ ?_) fun _ => .liftExcept r
  · exact fun _ => rfl
  · exact fun _ => rfl
  · exact fun _ => ⟨rfl, rfl, rfl, rfl⟩

/-! ## Frames -/

theorem Ends.enter (good : Good whole m) (within : f.stop ≤ m.dataStop)
    (nested : f.isScope = false → f.stop ≤ m.inner.stop) :
    Ends whole (SameStack (m.push f).noteFrames) (ending (Machine.enter id f) m.plain)
      (ending (Machine.enter Machine.noteFrames f) m) :=
  ⟨rfl, rfl, good.push within nested, .refl _⟩

theorem Ends.leave (good : Good whole m') (before : FramesNest m.dataStop m.frames)
    (same : SameStack (m.push f).noteFrames m') :
    Ends whole (SameStack m) (ending (Machine.leave id) m'.plain)
      (ending (Machine.leave Machine.noteFrames) m') := by
  obtain ⟨good', same'⟩ := good.pop before same
  exact ⟨rfl, (plain_pop m').symm, good', same'⟩

theorem Ends.enterSide {element : ElementId} {target stop : Nat} (good : Good whole m)
    (within : stop ≤ m.dataStop) :
    Ends whole (SameStack (m.push (.scope element target stop)).noteFrames)
      (ending (Machine.enterSide id element target stop) m.plain)
      (ending (Machine.enterSide Machine.noteFrames element target stop) m) := by
  have pushed := good.push (f := .scope element target stop) within nofun
  exact ⟨rfl, rfl, ⟨pushed.nest, pushed.guards, pushed.sound, pushed.size⟩, rfl, rfl, rfl, rfl⟩

theorem Ends.leaveSide (good : Good whole m') (before : FramesNest m.dataStop m.frames)
    (same : SameStack (m.push f).noteFrames m') :
    Ends whole (SameStack m) (ending (Machine.leaveSide id) m'.plain)
      (ending (Machine.leaveSide Machine.noteFrames) m') := by
  obtain ⟨⟨nest, guards, sound, size⟩, same'⟩ := good.pop before same
  have plain := congrArg (fun p : Machine σ => { p with following := m'.following.tail })
    (plain_pop m').symm
  exact ⟨rfl, plain, ⟨nest, guards, sound, size⟩, same'.outer, same'.dataStop, same'.stop,
    same'.isScope⟩

/-- A step inside a frame of its own, which is closed again however the step ends. -/
theorem Ends.framed {γ δ : Type} {opens : MachineM σ Unit} {opens' : MachineM (Noted σ) Unit}
    {close : MachineM σ γ} {close' : MachineM (Noted σ) γ}
    {next : Except DecodeError α → γ → MachineM σ δ}
    {next' : Except DecodeError α → γ → MachineM (Noted σ) δ}
    (opened : Ends whole (SameStack (m.push f).noteFrames) (ending opens m.plain) (ending opens' m))
    (always : ∀ e p, ending opens m.plain ≠ (.error e, p)) (content : Keeps whole step noting)
    (closed : ∀ m', Good whole m' → SameStack (m.push f).noteFrames m' →
      Ends whole (SameStack m) (ending close m'.plain) (ending close' m'))
    (rest : ∀ r c, Keeps whole (next r c) (next' r c)) :
    Ends whole (SameStack m)
      (ending (opens >>= fun _ => outcome step >>= fun r => close >>= next r) m.plain)
      (ending (opens' >>= fun _ => outcome noting >>= fun r => close' >>= next' r) m) := by
  refine opened.bind (fun _ m₁ _ good₁ same₁ => ?_) fun e m' ended => absurd ended (always e _)
  refine ((content.outcome m₁ good₁).of_same same₁).bind (fun r m₂ _ good₂ same₂ => ?_)
    fun _ _ ended => absurd ended outcome_total
  refine (closed m₂ good₂ same₂).bind (fun c m₃ _ good₃ same₃ => ?_) fun _ _ _ => id
  exact (rest r c m₃ good₃).of_same same₃

/-- What is noted when an attempt begins changes nothing else. -/
theorem Keeps.watched {next : Unit → MachineM σ β} {next' : Unit → MachineM (Noted σ) β}
    (rest : Keeps whole (next ()) (next' ())) :
    Keeps whole (beginAttempt id >>= next) (beginAttempt Machine.noteFrames >>= next') :=
  fun m good => (rest m.noteFrames good.noteFrames).of_same ⟨rfl, rfl, rfl, rfl⟩

end Machine

/-! ## Steps of the decoder -/

section Steps

variable {σ α : Type} [ByteSource σ] [SliceLike σ] {whole : Prop} {stop dataStop : Nat}

namespace Simulation

/-- A run inside a frame that ends at `stop`, and the same run with its reads noted. -/
def noted (σ : Type) [ByteSource σ] [SliceLike σ] (whole : Prop) (stop dataStop : Nat) :
    Simulation σ (Noted σ) where
  source l r := r.source = l ∧ Note.guard? r.notes = some stop ∧
    Note.Sound whole dataStop r.notes ∧
    (whole → (SliceLike.slice r.source).data.size = dataStop)
  sameEvents := True
  excuses _ := False
  high := some stop
  fatal := Simulation.fatal_of_never
  admits _ := True
  usual _ _ := trivial
  unindexed _ _ _ _ _ := trivial

theorem noted_covers : (noted σ whole stop dataStop).Covers stop := by
  rintro _ ⟨⟩
  exact Nat.le_refl stop

theorem noted_answers {operation : SourceM σ α} {ofSlice : SourceM Slice α}
    (behaves : ∀ source, Prod.map id SliceLike.slice (operation source) =
      ofSlice (SliceLike.slice source)) (keeps : ∀ s, (ofSlice s).2.data = s.data) {r : Noted σ}
    (related : (noted σ whole stop dataStop).source r.source r) :
    (noted σ whole stop dataStop).Answers (operation r.source) (Noted.unnoted operation r) := by
  obtain ⟨-, guards, sound, size⟩ := related
  have data := SliceLike.data_kept behaves keeps r.source
  exact ⟨rfl, rfl, guards, sound, fun holds => (congrArg Array.size data).trans (size holds)⟩

/-- Enough bytes are given. -/
theorem isOk_readExact {source : σ} {count : Nat}
    (there : (SliceLike.slice source).cursor + count ≤ (SliceLike.slice source).data.size) :
    ((ByteSource.readExact count : SourceM σ (List UInt8)) source).1.isOk = true := by
  have same := congrArg (fun ending => ending.1.isOk) (SliceLike.readExact_slice count source)
  refine Eq.trans same ?_
  rw [Slice.readExact_apply, Slice.bytesAt, if_neg (Nat.not_lt.mpr there)]
  rfl

theorem noted_respects (within : stop ≤ dataStop) : (noted σ whole stop dataStop).Respects where
  moves _ _ _ := trivial
  onward _ _ _ _ _ := trivial
  tell := by
    rintro _ r ⟨rfl, related⟩
    exact noted_answers SliceLike.tell_slice (fun _ => rfl) ⟨rfl, related⟩
  seek position := by
    rintro _ r - ⟨rfl, related⟩
    exact noted_answers (SliceLike.seek_slice (.start position))
      (Slice.data_seek · (.start position)) ⟨rfl, related⟩
  readExact count := by
    rintro _ r covered ⟨rfl, guards, sound, size⟩
    have ends := covered stop rfl
    have data := SliceLike.data_kept (SliceLike.readExact_slice count)
      (Slice.data_readExact · count) r.source
    refine ⟨rfl, rfl, guards, sound.read guards ends fun holds => isOk_readExact ?_,
      fun holds => (congrArg Array.size data).trans (size holds)⟩
    rw [size holds]
    exact Nat.le_trans ends within

/-- Two hosts answer alike, and a script leaves as many bytes as there were. -/
theorem noted_hosts (d : Decoder σ) (reads : whole → d.ScriptsOnlyRead) :
    Option.Rel (Decoder.SameHost (noted σ whole stop dataStop) d d.noted) d.scripts
      d.noted.scripts := by
  unfold Decoder.noted
  cases hosted : d.scripts with
  | none => exact .none
  | some host =>
    refine .some ?_
    rintro script defined element start length? limit frames _ r ⟨rfl, guards, sound, size⟩
    refine ⟨rfl, rfl, guards, sound, fun holds => ?_⟩
    have data := reads holds host hosted script defined
      ⟨element, start, length?, limit, ⟨d.schema, frames⟩⟩ r.source
    exact (congrArg Array.size data).trans (size holds)

theorem plain_resume {m : Machine (Noted σ)} {st : DecodeState σ} {st' : DecodeState (Noted σ)}
    (related : (noted σ whole stop dataStop).Related st st') :
    (m.resume st').plain = m.plain.resume st := by
  obtain ⟨source, pending, warnings, events⟩ := st
  obtain ⟨same, -⟩ := related.source
  unfold Machine.resume Machine.plain
  rw [same, ← related.pending, ← related.warnings, ← related.events trivial]

end Simulation

/-- A step of the decoder that keeps to its frame. -/
theorem Machine.Keeps.atPlace {step : Place → DecodeM σ α} {step' : Place → DecodeM (Noted σ) α}
    (alike : ∀ p, p.limit ≤ p.dataStop →
      (Simulation.noted σ whole p.limit p.dataStop).Simulates Eq (step p) (step' p)) :
    Keeps whole (atPlace step) (atPlace step') := by
  intro m good
  have within : m.inner.stop ≤ m.dataStop := good.nest.within _ List.mem_cons_self
  have ends := alike m.place within m.plain.state m.state
    ⟨⟨rfl, good.guards, good.sound, good.size⟩, rfl, rfl, fun _ => rfl⟩
  obtain ⟨answer, related⟩ := ends.agree fun _ => id
  obtain ⟨-, guards, sound, size⟩ := related.source
  rw [ending_atPlace, ending_atPlace]
  exact ⟨answer.symm, Simulation.plain_resume related, ⟨good.nest, guards, sound, size⟩, rfl, rfl,
    rfl, rfl⟩

end Steps

end BinaryTemplate
