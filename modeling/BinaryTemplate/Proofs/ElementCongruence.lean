import BinaryTemplate.Proofs.FieldCongruence
import BinaryTemplate.Proofs.Runs

/-!
# Congruence of elements

A congruence holds between the containers, side trees and elements of a decoder and those of the
decoder with other options, if it is kept where attempts are given up or if the schema never gives
one up. Runs and nesting end by the room that is left, which may differ between the two where
nothing is said about what follows a limit.
-/

namespace BinaryTemplate

open DecodeM

namespace Decoder

variable {σ : Type} {d : Decoder σ} {p : Place} {n : Node d.schema} {start : Nat}
  {declared : Option Nat}

/-- An overrun takes the place of a short read, and no other failure of the content is changed. -/
theorem contentFailure_rewords (stop : Nat) :
    Rewords (d.contentFailure p n start stop declared) := by
  rintro ⟨element, name, offset, failure⟩
  unfold contentFailure DecodeError.shortReadStop?
  cases declared with
  | none => exact .inl rfl
  | some len =>
    cases failure with
    | shortRead wanted available =>
      dsimp only
      split
      · exact .inr ⟨⟨wanted, available, rfl⟩, _, _, rfl⟩
      · exact .inl rfl
    | _ => exact .inl rfl

variable [ByteSource σ] {child : d.DecodeChild}

/-- A container lets go of unread bits after its content in any case. -/
theorem decodeContainer_eq_closing {definition : Option ElementId} {ids : List ElementId}
    {order : ChildOrder} :
    d.decodeContainer child p n definition ids order declared = (do
      align
      let start ← tell n
      let stop ← d.containerStop p n start declared
      record (.opened n.label start stop)
      let inside ← closing align (d.contentFailure p n start stop declared)
        (d.decodeContent child n ids order (p.enter (.container n.id definition start stop)))
      let position ← tellAt n start
      let len ← d.containerLength n start (position - start) declared
      return { Value.empty n.id start len with children := inside.inner.children }) := by
  unfold decodeContainer closing
  simp only [bind_assoc]
  refine bind_congr fun _ => bind_congr fun _ => bind_congr fun _ => bind_congr fun _ =>
    bind_congr fun result => bind_congr fun _ => ?_
  cases result <;> rfl

/-- The cursor and the unread bits are put back after a side tree in any case. -/
theorem resume_eq_closing {offset resume : Nat} {pending : List Bool} {step : DecodeM σ Value} :
    (do
      let result ← outcome step
      setPending pending
      seek n offset resume
      liftExcept result) =
      closing (do setPending pending; seek n offset resume) id step := by
  unfold closing
  simp only [bind_assoc]
  refine bind_congr fun result => bind_congr fun _ => bind_congr fun _ => ?_
  cases result <;> rfl

end Decoder

/-- Every run of a straight template has a greatest number. -/
theorem Schema.Straight.most {σ : Type} {d : Decoder σ} (straight : d.schema.Straight) {p : Place}
    {n : Node d.schema} {offset min : Nat} {max : Option Nat} {st after : DecodeState σ}
    (h : Returns (d.repeatBounds p n offset) st (min, max) after) : ∃ most, max = some most := by
  obtain ⟨⟨_, ⟨_, greatest, _, kmax, -, set, -, evaluates, -, bound⟩, -⟩, -⟩ :=
    Decoder.repeatBounds_returns.mp h
  obtain ⟨k, rfl, nonnegative⟩ := straight.bounded n greatest set
  cases evaluates
  rw [if_neg (by omega)] at bound
  exact ⟨_, bound⟩

namespace Congruence

variable {σ : Type} [ByteSource σ] {d : Decoder σ} {o : DecodeOptions} (C : Congruence d o)
  {p : Place} {n : Node d.schema} {offset : Nat} {child : d.DecodeChild}
  {child' : (d.withOptions o).DecodeChild}

/-- Instances are decoded in the relation. -/
def RelatesChild (child : d.DecodeChild) (child' : (d.withOptions o).DecodeChild) : Prop :=
  ∀ p n, C.rel (child p n) (child' p n)

/-- The relation is kept where attempts are given up, or none is. -/
def Suits (s : Schema) : Prop := C.givesUp ∨ s.Straight

/-! ## Repeats -/

theorem repeatBounds :
    C.rel (d.repeatBounds p n offset) ((d.withOptions o).repeatBounds p n offset) :=
  C.bind (C.lookupD _ _) fun least => C.bind (C.evalInteger least) fun _ =>
    C.bind (C.lookupD _ _) fun most => C.bind (C.evalInteger most) fun _ =>
    C.guard rfl fun _ => C.ite (fun _ => C.pure _) fun _ => C.pure _

theorem exhausted (position : Nat) :
    C.rel (Decoder.exhausted p position : DecodeM σ Bool) (Decoder.exhausted p position) :=
  C.get_bind fun _ => C.pure _

variable {C}

/-- A run is open-ended only where attempts may be given up. -/
theorem Suits.open_ended (suits : C.Suits d.schema) {min : Nat} {st after : DecodeState σ}
    (h : Returns (d.repeatBounds p n offset) st (min, none) after) : C.givesUp := by
  refine suits.resolve_right fun straight => ?_
  obtain ⟨_, ⟨⟩⟩ := straight.most h

variable (relates : C.RelatesChild child child') (suits : C.Suits d.schema)

include relates

theorem repeatFrom {min : Nat} {max : Option Nat} (openEnded : max = none → C.givesUp)
    {room room' : Nat} (rooms : Room C.cutsOff room room') (count : Nat) :
    C.rel (d.repeatFrom child n min max room count p)
      ((d.withOptions o).repeatFrom child' n min max room' count p) := by
  induction room generalizing room' count p with
  | zero =>
    rw [Decoder.repeatFrom.eq_def, Decoder.repeatFrom.eq_def]
    refine C.ite (fun _ => C.pure _) fun _ => C.bind C.take fun mark => C.ite
      (fun _ => C.bind (C.exhausted _) fun _ => C.ite (fun _ => C.pure _) fun _ => ?_) fun _ => ?_
    all_goals
      cases room' with
      | zero => exact C.atLimit .repeats fun cuts => by rw [C.maxRepeat.eq cuts]
      | succ more => exact C.atLimit .repeats fun cuts => absurd rooms.cutsOff_of_zero cuts
  | succ room inductionHypothesis =>
    obtain ⟨less, rfl, fewer⟩ := rooms.of_succ
    rw [Decoder.repeatFrom.eq_def, Decoder.repeatFrom.eq_def]
    refine C.ite (fun _ => C.pure _) fun _ => C.bind C.take fun mark => C.ite
      (fun _ => C.bind (C.exhausted _) fun _ => C.ite (fun _ => C.pure _) fun _ => ?_) fun _ => ?_
    all_goals
      cases max with
      | none =>
        refine C.attempt (openEnded rfl) (relates p n) (fun v => ?_) (fun e mismatch => ?_) ?_
        · exact C.ite (fun _ => C.pure _) fun _ => inductionHypothesis fewer _
        · exact C.ite (fun _ => C.bind (C.record _) fun _ =>
              C.bind (C.rewind (openEnded rfl) mark n) fun _ => C.pure _)
            fun _ => C.plain (.throw (Failure.not_isCycle_of_isMismatch mismatch))
        · intro e fatal
          simp [fatal]
      | some most =>
        refine C.passedOn (relates p n) (fun v => ?_) fun e => ⟨rfl, rfl⟩
        exact C.ite (fun _ => C.pure _) fun _ => inductionHypothesis fewer _

include suits

theorem decodeRepeated :
    C.rel (d.decodeRepeated child p n) ((d.withOptions o).decodeRepeated child' p n) := by
  refine C.bind C.tell fun start => C.bind_of_returns C.repeatBounds ?_
  rintro ⟨min, max⟩ st after bounded
  refine repeatFrom relates ?_ C.maxRepeat 0
  rintro rfl
  exact suits.open_ended bounded

/-! ## Children in their turn -/

omit relates suits in
theorem isDisabled : C.rel (d.isDisabled n) ((d.withOptions o).isDisabled n) := by
  unfold Decoder.isDisabled
  cases n.kind <;> first | exact C.lookupD _ _ | exact C.pure _

theorem decodeDeclared (ids : List ElementId) :
    C.rel (d.decodeDeclared child ids p) ((d.withOptions o).decodeDeclared child' ids p) := by
  induction ids generalizing p with
  | nil => exact C.pure p
  | cons id rest inductionHypothesis =>
    simp only [Decoder.decodeDeclared]
    exact C.bind (C.node id) fun n => C.bind isDisabled fun _ => C.ite
      (fun _ => C.bind (C.record _) fun _ => inductionHypothesis)
      fun _ => C.bind (decodeRepeated relates suits) fun _ => inductionHypothesis

/-! ## Any of the children -/

omit relates suits in
theorem alternatives (ids : List ElementId) :
    C.rel (d.alternatives p offset ids) ((d.withOptions o).alternatives p offset ids) := by
  induction ids with
  | nil => exact C.pure []
  | cons id rest inductionHypothesis =>
    simp only [Decoder.alternatives]
    exact C.bind (C.node id) fun n => C.bind isDisabled fun _ => C.ite
      (fun _ => inductionHypothesis)
      fun _ => C.bind C.repeatBounds fun _ => C.bind inductionHypothesis fun _ => C.pure _

omit suits in
theorem firstMatch (givesUp : C.givesUp) (mark : Mark)
    (choices : List (Decoder.Alternative d.schema)) :
    C.rel (d.firstMatch child p n mark choices)
      ((d.withOptions o).firstMatch child' p n mark choices) := by
  induction choices with
  | nil => exact C.pure none
  | cons a rest inductionHypothesis =>
    simp only [Decoder.firstMatch]
    refine C.ite (fun _ => C.bind inductionHypothesis fun _ => C.pure _) fun _ => ?_
    refine C.attempt givesUp (relates p a.node) (fun v => C.pure _) (fun e mismatch => ?_) ?_
    · simp only [mismatch, Bool.not_true, Bool.false_eq_true, if_false]
      exact C.bind (C.record _) fun _ => C.bind (C.rewind givesUp mark n) fun _ =>
        C.bind inductionHypothesis fun _ => C.pure _
    · intro e fatal
      simp only [fatal, Bool.not_false, if_true]
      exact ⟨rfl, rfl⟩

omit suits in
theorem decodeChoices (givesUp : C.givesUp) {room room' : Nat}
    (rooms : Room C.cutsOff room room') (choices : List (Decoder.Alternative d.schema)) :
    C.rel (d.decodeChoices child n room p choices)
      ((d.withOptions o).decodeChoices child' n room' p choices) := by
  induction room generalizing room' p choices with
  | zero =>
    rw [Decoder.decodeChoices.eq_def, Decoder.decodeChoices.eq_def]
    refine C.bind C.take fun mark => C.bind (C.exhausted _) fun _ => C.ite (fun _ => C.pure _)
      fun _ => C.bind (firstMatch relates givesUp mark choices) fun found => ?_
    cases found with
    | none => exact C.pure _
    | some found =>
      refine C.ite (fun _ => C.pure _) fun _ => ?_
      cases room' with
      | zero => exact C.atLimit .repeats fun cuts => by rw [C.maxRepeat.eq cuts]
      | succ more => exact C.atLimit .repeats fun cuts => absurd rooms.cutsOff_of_zero cuts
  | succ room inductionHypothesis =>
    obtain ⟨less, rfl, fewer⟩ := rooms.of_succ
    rw [Decoder.decodeChoices.eq_def, Decoder.decodeChoices.eq_def]
    refine C.bind C.take fun mark => C.bind (C.exhausted _) fun _ => C.ite (fun _ => C.pure _)
      fun _ => C.bind (firstMatch relates givesUp mark choices) fun found => ?_
    cases found with
    | none => exact C.pure _
    | some found => exact C.ite (fun _ => C.pure _) fun _ => inductionHypothesis fewer _

omit relates suits in
theorem checkMinimums (choices : List (Decoder.Alternative d.schema)) :
    C.rel (d.checkMinimums offset choices) ((d.withOptions o).checkMinimums offset choices) := by
  induction choices with
  | nil => exact C.pure ()
  | cons a rest inductionHypothesis =>
    simp only [Decoder.checkMinimums]
    exact C.guard rfl fun _ => inductionHypothesis

omit suits in
theorem decodeAnyOf (givesUp : C.givesUp) (ids : List ElementId) :
    C.rel (d.decodeAnyOf child n ids p) ((d.withOptions o).decodeAnyOf child' n ids p) :=
  C.bind C.tell fun _ => C.bind (alternatives ids) fun choices =>
    C.bind (decodeChoices relates givesUp C.maxRepeat.pred choices) fun _ =>
    C.bind (checkMinimums _) fun _ => C.pure _

/-! ## Containers -/

omit relates suits in
theorem containerStop (start : Nat) (declared : Option Nat) :
    C.rel (d.containerStop p n start declared)
      ((d.withOptions o).containerStop p n start declared) := by
  cases declared with
  | none => exact C.pure _
  | some len => exact C.ite (fun _ => C.pure _) fun _ => C.fail rfl

omit relates suits in
theorem containerLength (start consumed : Nat) (declared : Option Nat) :
    C.rel (d.containerLength n start consumed declared)
      ((d.withOptions o).containerLength n start consumed declared) := by
  cases declared with
  | none => exact C.pure _
  | some len => exact C.ite (fun _ => C.pure _) fun _ => C.fail rfl

theorem decodeContent (ids : List ElementId) {order : ChildOrder}
    (anyOf : order = .anyOf → C.givesUp) :
    C.rel (d.decodeContent child n ids order p)
      ((d.withOptions o).decodeContent child' n ids order p) := by
  cases order with
  | declared => exact decodeDeclared relates suits ids
  | anyOf => exact decodeAnyOf relates (anyOf rfl) ids

theorem decodeContainer {definition : Option ElementId} {ids : List ElementId}
    {order : ChildOrder} {declared : Option Nat} (anyOf : order = .anyOf → C.givesUp) :
    C.rel (d.decodeContainer child p n definition ids order declared)
      ((d.withOptions o).decodeContainer child' p n definition ids order declared) := by
  rw [Decoder.decodeContainer_eq_closing, Decoder.decodeContainer_eq_closing]
  refine C.bind C.align fun _ => C.bind C.tell fun start => C.bind (containerStop _ _) fun stop =>
    C.bind (C.record _) fun _ => C.bind ?_ fun inside => C.bind C.tellAt fun _ =>
    C.bind (containerLength _ _ _) fun _ => C.pure _
  exact C.closing .align (Decoder.contentFailure_rewords stop)
      (decodeContent relates suits ids anyOf)

omit relates suits in
theorem structureLength :
    C.rel (d.structureLength p n offset) ((d.withOptions o).structureLength p n offset) := by
  refine C.bind (C.lookup n offset _) fun length => ?_
  cases length with
  | none => exact C.pure none
  | some length =>
    exact C.bind (C.evalCount length) fun _ => C.bind (C.evalAttribute _) fun _ =>
      C.bind (C.asCount _) fun _ => C.bind (C.lookupD _ _) fun _ => C.bind (C.toBytes _ _)
      fun _ => C.pure _

theorem decodeStructure (definition : Node d.schema) :
    C.rel (d.decodeStructure child p n definition)
      ((d.withOptions o).decodeStructure child' p n definition) := by
  refine C.bind C.align fun _ => C.bind C.tell fun start => C.bind_of_returns (C.lookupD _ _) ?_
  intro order st after ordered
  obtain ⟨known, -⟩ := returns_resolved.mp ordered
  refine C.bind structureLength fun _ => decodeContainer relates suits ?_
  rintro rfl
  exact suits.resolve_right fun straight => nomatch straight.declared n _ known

theorem decodeStructRef :
    C.rel (d.decodeStructRef child p n offset)
      ((d.withOptions o).decodeStructRef child' p n offset) := by
  refine C.bind (C.lookup n offset _) fun target => ?_
  cases target with
  | none => exact C.fail rfl
  | some target =>
    refine C.bind (C.node target) fun definition => ?_
    dsimp only
    split
    · exact decodeStructure relates suits definition
    · exact C.fail rfl

omit suits in
theorem decodeGrammarRef :
    C.rel (d.decodeGrammarRef child p n offset)
      ((d.withOptions o).decodeGrammarRef child' p n offset) := by
  refine C.bind (C.lookupD _ _) fun _ => C.ite (fun _ => C.pure _) fun _ =>
    C.bind (C.lookup n offset _) fun target => ?_
  cases target with
  | none => exact C.fail rfl
  | some target =>
    refine C.bind (C.node target) fun grammar => ?_
    dsimp only
    split
    · exact relates p grammar
    · exact C.fail rfl

/-! ## Offsets -/

omit relates suits in
theorem baseAddress (base : ElementId) :
    C.rel (d.baseAddress p n offset base) ((d.withOptions o).baseAddress p n offset base) := by
  refine C.ite (fun _ => C.pure _) fun _ => ?_
  dsimp only
  split
  · exact C.pure _
  · exact C.fail rfl

omit relates suits in
theorem targetAddress (pointer : Nat) :
    C.rel (d.targetAddress p n offset pointer)
      ((d.withOptions o).targetAddress p n offset pointer) := by
  refine C.ite (fun _ => C.bind (C.lookupD _ _) fun _ => C.ite (fun _ => C.pure none)
    fun _ => ?_) fun _ => ?_
  -- The address is worked out alike for null pointers that are followed and for all others.
  all_goals
    refine C.bind (C.lookup n offset _) fun base => ?_
    cases base with
    | none =>
      exact C.bind (C.pure 0) fun _ => C.bind (C.evalAttribute _) fun _ =>
        C.ite (fun _ => C.pure _) fun _ => C.fail rfl
    | some base =>
      exact C.bind (baseAddress base) fun _ => C.bind (C.evalAttribute _) fun _ =>
        C.ite (fun _ => C.pure _) fun _ => C.fail rfl

omit relates suits in
theorem referencedSize? :
    C.rel (d.referencedSize? p n offset) ((d.withOptions o).referencedSize? p n offset) := by
  refine C.bind (C.lookup n offset _) fun sizeId => ?_
  cases sizeId with
  | none => exact C.pure none
  | some sizeId =>
    dsimp only
    split
    · exact C.fail rfl
    · split
      · exact C.ite (fun _ => C.pure _) fun _ => C.fail rfl
      · exact C.fail rfl

omit relates suits in
theorem regionStop (target : Nat) (size : Option Nat) :
    C.rel (d.regionStop p n offset target size)
      ((d.withOptions o).regionStop p n offset target size) :=
  C.ite (fun _ => C.pure _) fun _ => C.fail rfl

omit suits in
theorem follow (target : Nat) (element : ElementId) :
    C.rel (d.follow child p n offset target element)
      ((d.withOptions o).follow child' p n offset target element) := by
  refine C.guard rfl fun _ => C.bind (C.node element) fun referenced =>
    C.bind referencedSize? fun _ => C.bind (regionStop _ _) fun _ => C.bind C.tellAt fun resume =>
    C.bind (C.record _) fun _ => C.bind (C.seek _) fun _ => C.get_bind fun st =>
    C.bind (C.setPending _) fun _ => ?_
  rw [Decoder.resume_eq_closing, Decoder.resume_eq_closing]
  exact C.closing (.resume n offset resume st.pending) rewords_id (relates _ referenced)

omit suits in
theorem followTarget (target : Option Nat) :
    C.rel (d.followTarget child p n offset target)
      ((d.withOptions o).followTarget child' p n offset target) := by
  refine C.bind (C.lookup n offset _) fun element => ?_
  cases target with
  | none => exact C.pure none
  | some target =>
    cases element with
    | none => exact C.pure none
    | some element => exact C.bind (follow relates target element) fun _ => C.pure _

omit suits in
theorem decodeOffset :
    C.rel (d.decodeOffset child p n) ((d.withOptions o).decodeOffset child' p n) :=
  C.bind C.tell fun _ => C.bind (C.lookupD _ _) fun order => C.bind (C.readRaw order) fun _ =>
    C.bind (targetAddress _) fun _ => C.bind (followTarget relates _) fun _ => C.pure _

/-! ## Elements -/

theorem decodeKind :
    C.rel (d.decodeKind child p n offset) ((d.withOptions o).decodeKind child' p n offset) := by
  unfold Decoder.decodeKind
  cases n.kind with
  | grammar body => exact decodeContainer relates suits nofun
  | grammarRef => exact decodeGrammarRef relates
  | «structure» => exact decodeStructure relates suits n
  | structRef => exact decodeStructRef relates suits
  | number => exact C.decodeNumber
  | string => exact C.decodeString
  | binary => exact C.decodeBinary
  | custom =>
    refine C.bind (C.lookup n offset _) fun script => ?_
    cases script with
    | none => exact C.fail rfl
    | some script => exact C.decodeScripted script
  | offset => exact decodeOffset relates
  | script => exact C.decodeScripted n.id

omit relates in
theorem decodeOne {depth depth' : Nat} (depths : Room C.cutsOff depth depth') :
    C.RelatesChild (d.decodeOne depth) ((d.withOptions o).decodeOne depth') := by
  induction depth generalizing depth' with
  | zero =>
    intro p n
    cases depth' with
    | zero =>
      exact C.bind (C.record _) fun _ => C.bind C.tell fun _ =>
        C.atLimit .depth fun cuts => by rw [C.maxDepth.eq cuts]
    | succ more =>
      exact C.bind (C.record _) fun _ => C.bind C.tell fun _ =>
        C.atLimit .depth fun cuts => absurd depths.cutsOff_of_zero cuts
  | succ depth inductionHypothesis =>
    obtain ⟨less, rfl, fewer⟩ := depths.of_succ
    intro p n
    exact C.bind (C.record _) fun _ => C.bind C.tell fun _ =>
      decodeKind (inductionHypothesis fewer) suits

omit relates suits in
theorem checkTree (v : Value) : C.rel (d.checkTree n v) ((d.withOptions o).checkTree n v) := by
  unfold Decoder.checkTree
  rw [C.validate]
  refine C.ite (fun _ => ?_) fun _ => C.pure ()
  rcases v.validate d.schema with e | ⟨⟩
  · exact C.fail rfl
  · exact C.pure ()

omit relates in
/-- The relation holds between whole decodes. -/
theorem decodeWhole (element : ElementId) :
    C.rel (d.decodeWhole element) ((d.withOptions o).decodeWhole element) :=
  C.bind (C.node element) fun n => C.bind C.tell fun _ => C.bind (C.onSource _) fun _ =>
    C.bind (decodeOne suits C.maxDepth _ n) fun v => C.bind (checkTree v) fun _ => C.pure v

end Congruence

end BinaryTemplate
