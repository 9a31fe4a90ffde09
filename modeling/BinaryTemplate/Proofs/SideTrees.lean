import BinaryTemplate.Proofs.DetachedFields
import BinaryTemplate.Proofs.Shadows

/-!
# Side trees do not shape the layout

What an offset references is decoded elsewhere in the file, and everything that later elements are
decoded from is as before afterwards. So the detached template decodes to the same tree without its
side trees, and the cursor ends at the same place. The one thing in the way is an offset that is
stranded without its reference; the decode then fails there.
-/

namespace BinaryTemplate

open DecodeM

/-! ## Fields -/

namespace Decoder

variable {σ : Type} [ByteSource σ] [SliceLike σ] {d : Decoder σ} {p : Place} {n : Node d.schema}
  {offset : Nat}

section Steps

theorem tellAt_echoes (n : Node d.schema) (offset : Nat) :
    Echoes (σ := σ) Eq (tellAt n offset) (tellAt n.detached offset) :=
  .of_eq (Simulation.tellAt_sims (Node.Twins.refl n).toNamesakes respects_sameReading)
    (tellAt_detached n offset)

theorem tell_echoes (n : Node d.schema) : Echoes (σ := σ) Eq (tell n) (tell n.detached) :=
  tellAt_echoes n 0

theorem size_echoes (n : Node d.schema) (offset : Nat) :
    Echoes (σ := σ) Eq (onSource n offset ByteSource.size)
      (onSource n.detached offset ByteSource.size) := by
  refine .of_eq (fun st st' related => ?_) (onSource_detached n offset _)
  exact Simulation.onSource_ends (Node.Twins.refl n).toNamesakes related
    (keeps_sameSlice SliceLike.size_slice _ _ related.source)

/-- A valid tree is valid without its side trees. -/
theorem checkTree_echoes (n : Node d.schema) (v : Value) :
    Echoes Eq (d.checkTree n v) (d.detached.checkTree n.detached v.detached) := by
  intro st u after st₁ checked same
  have still := checkTree_returns checked
  refine ⟨u, st₁, ?_, rfl, still ▸ same⟩
  unfold checkTree at checked ⊢
  by_cases validates : d.options.validate = true
  · rw [if_pos validates] at checked ⊢
    cases valid : v.validate d.schema with
    | error e =>
      rw [valid] at checked
      exact absurd checked returns_fail
    | ok =>
      rw [v.validate_detached valid]
      exact returns_pure.mpr ⟨rfl, rfl⟩
  · rw [if_neg validates]
    exact returns_pure.mpr ⟨rfl, rfl⟩

theorem resolved_echoes {α : Type} {r r' : Except CycleError α} (same : r' = r) :
    Echoes (σ := σ) Eq (resolved n offset r) (resolved n.detached offset r') := by
  subst same
  exact .of_eq (.resolved (Node.Twins.refl n).toNamesakes rfl) (resolved_detached n offset r')

theorem align_echoes : Echoes (σ := σ) Eq align align := .of_sims .align

theorem record_echoes (e : Event) : Echoes (σ := σ) Eq (record e) (record e) :=
  .of_sims (.record e)

theorem node_echoes (id : ElementId) :
    Echoes (fun m m' => m' = m.detached) (d.node id offset) (d.detached.node id offset) := by
  intro st m after st₁ found same
  obtain ⟨known, rfl⟩ := node_returns.mp found
  have known' : d.detached.schema.node? id = some m.detached := by
    show d.schema.detached.node? id = _
    rw [d.schema.node?_detached, known]
    rfl
  exact ⟨m.detached, st₁, node_returns.mpr ⟨known', rfl⟩, rfl, same⟩

end Steps

/-- The instances of an element in the detached template shadow those in the template. -/
def ShadowsChild (child : d.DecodeChild) (child' : d.detached.DecodeChild) : Prop :=
  ∀ p n, Shadows d.schema Value.detached Value.Shows (child p n) (child' p.detached n.detached)

omit [ByteSource σ] [SliceLike σ] in
theorem NumberDecoded.plain {before after : Reading} {v : Value}
    (h : NumberDecoded d p n before v after) :
    v.element = n.id ∧ v.children = [] ∧
      ∀ pointer target side, v.payload ≠ .offset pointer target side := by
  cases h <;> exact ⟨rfl, rfl, nofun⟩

/-- A field that is no offset has nothing below it. -/
theorem field_shadows {left right : DecodeM σ Value} (echoes : Echoes Eq left right)
    (safe : d.schema.Safe n.id)
    (plain : ∀ {st v after}, Returns left st v after → v.element = n.id ∧ v.children = [] ∧
      ∀ pointer target side, v.payload ≠ .offset pointer target side) :
    Shadows d.schema Value.detached Value.Shows left right := by
  refine echoes.shadows ?_ ?_
  · rintro st v after _ returned rfl
    obtain ⟨-, leaf, content⟩ := plain returned
    exact (Value.detached_of_plain leaf content).symm
  · intro st v after id returned shown
    obtain ⟨element, leaf, -⟩ := plain returned
    obtain rfl := shown.of_leaf leaf
    rwa [element]

variable {child : d.DecodeChild} {child' : d.detached.DecodeChild}
  (standard : d.evaluator = .standard)

include standard

theorem decodeNumber_shadows (safe : d.schema.Safe n.id) :
    Shadows d.schema Value.detached Value.Shows (d.decodeNumber p n)
      (d.detached.decodeNumber p.detached n.detached) := by
  have echoes := Echoes.of_eq (decodeNumber_sims (.refl d) (.refl n) respects_sameReading
    (whole_sameReading.covers p.limit)) (decodeNumber_detached standard)
  exact field_shadows echoes safe fun returned => (decodeNumber_returns returned).plain

theorem decodeString_shadows (safe : d.schema.Safe n.id) :
    Shadows d.schema Value.detached Value.Shows (d.decodeString p n)
      (d.detached.decodeString p.detached n.detached) := by
  have echoes := Echoes.of_eq (decodeString_sims (.refl d) (.refl n) respects_sameReading
    (whole_sameReading.covers p.limit)) (decodeString_detached standard)
  refine field_shadows echoes safe fun returned => ?_
  have decoded := decodeString_returns returned
  exact ⟨decoded.element, decoded.children, decoded.plain⟩

theorem decodeBinary_shadows (safe : d.schema.Safe n.id) :
    Shadows d.schema Value.detached Value.Shows (d.decodeBinary p n)
      (d.detached.decodeBinary p.detached n.detached) := by
  have echoes := Echoes.of_eq (decodeBinary_sims (.refl d) (.refl n) respects_sameReading
    (whole_sameReading.covers p.limit)) (decodeBinary_detached standard)
  refine field_shadows echoes safe fun returned => ?_
  have decoded := decodeBinary_returns returned
  exact ⟨decoded.element, decoded.children, decoded.plain⟩

/-! ## Offsets -/

omit standard in
/-- Once a side tree is decoded, everything is as it was behind the pointer. -/
theorem Referenced.restores {before after : Reading} {target : Option Nat} {side : Option Value}
    (h : Referenced child p before target side after)
    (keepsData : ∀ {p n st v st'}, Returns (child p n) st v st' →
      st'.reading.data = st.reading.data) : after = before := by
  cases h with
  | nothing => rfl
  | side _ _ start decoded =>
    rw [keepsData decoded, start]

omit standard in
/-- Past its pointer an offset leaves everything as it was, whether it is followed or not. Without
its reference it is not followed. -/
theorem followTarget_shadows {target : Option Nat} (isOffset : ∃ body, n.kind = .offset body)
    (keepsData : ∀ {p n st v st'}, Returns (child p n) st v st' →
      st'.reading.data = st.reading.data)
    (positions : ∀ address, target = some address → address < positionLimit) :
    Shadows d.schema (fun _ => none) (fun _ id => id = n.id)
      (d.followTarget child p n offset target)
      (d.detached.followTarget child' p.detached n.detached offset target) := by
  intro st side after st₁ returned same
  have restored := ((followTarget_dereferenced returned).referenced positions).restores keepsData
  rw [followTarget, resolved_detached]
  cases asked : n.detached.lookup .references with
  | error cause =>
    have strands : d.schema.Strands n.id cause := ⟨⟨n, rfl, isOffset⟩, asked⟩
    refine .inr ⟨_, st₁, throws_bind.mpr (.inl (throws_fail.mpr ⟨rfl, rfl⟩)), ?_, rfl⟩
    exact ⟨cause, strands, rfl⟩
  | ok found =>
    obtain rfl := Schema.references_detached asked
    refine .inl ⟨st₁, ?_, restored.trans same, ?_⟩
    · cases target <;> exact returns_pure.mpr ⟨rfl, rfl⟩
    · rintro _ rfl cause strands
      cases asked.symm.trans strands.cycle

theorem decodeOffset_shadows (isOffset : ∃ body, n.kind = .offset body)
    (keepsData : ∀ {p n st v st'}, Returns (child p n) st v st' →
      st'.reading.data = st.reading.data) :
    Shadows d.schema Value.detached Value.Shows (d.decodeOffset child p n)
      (d.detached.decodeOffset child' p.detached n.detached) := by
  refine (tell_echoes n).bind fun position => ?_
  refine (resolved_echoes (n.lookupD_detached (a := .byteOrder) rfl _)).bind fun order => ?_
  have reads := readRaw_sims (.refl d) (.refl n) respects_sameReading
    (whole_sameReading.covers p.limit) order
  refine (Echoes.of_eq reads (readRaw_detached standard order)).bind fun r => ?_
  have leads : sameReading.Simulates Eq (d.targetAddress p n r.offset r.raw)
      (d.targetAddress p n r.offset r.raw) := targetAddress_sims (.refl d) (.refl n) r.raw
  refine (Echoes.of_eq leads (targetAddress_detached standard r.raw)).bind_of_returns ?_
  rintro st target after _ addressed rfl
  obtain ⟨targets, -⟩ := targetAddress_returns.mp addressed
  have positions : ∀ address, target = some address → address < positionLimit := by
    rintro address rfl
    exact targets.position
  refine (followTarget_shadows isOffset keepsData positions).bind
    (fun side safe => .pure fun id shown => ?_) ?_
  · exact safe id (shown.of_leaf rfl)
  · rintro side st v after _ returned rfl
    obtain ⟨rfl, -⟩ := returns_pure.mp returned
    exact Value.shows_iff.mpr (.inl rfl)

/-! ## Containers -/

section Containers

variable (shadows : ShadowsChild child child')

omit standard in
theorem take_echoes (n : Node d.schema) :
    Echoes (σ := σ) (fun mark mark' => mark'.position = mark.position) (Mark.take n)
      (Mark.take n.detached) := by
  have same : (Mark.take n.detached : DecodeM σ Mark) = Mark.take n := by
    rw [Mark.take, Mark.take, tell_detached]
  rw [same]
  refine (Echoes.of_sims (Simulation.markTake_sims (Node.Twins.refl n).toNamesakes
    respects_sameReading)).imp fun marks => marks.position.symm

omit standard in
include shadows in
/-- In a bounded run every failure is passed on, so no attempt is ever taken back. -/
theorem repeatFrom_shadows (min most room count : Nat) {p : Place}
    (safe : ∀ id, p.Shows id → d.schema.Safe id) :
    Shadows d.schema Place.detached Place.Shows
      (d.repeatFrom child n min (some most) room count p)
      (d.detached.repeatFrom child' n.detached min (some most) room count p.detached) := by
  -- Only an open-ended run stops at an empty instance.
  have goesOn : ∀ len : Nat, ¬ (len = 0 ∧ (some most).isNone = true) :=
    fun _ both => nomatch both.2
  induction room using Nat.strongRecOn generalizing count p with
  | ind room inductionHypothesis =>
    rw [repeatFrom.eq_def, repeatFrom.eq_def]
    refine .ite (fun _ => .pure safe) fun _ => (take_echoes n).bind_of_returns ?_
    rintro st mark after mark' - same
    rw [same]
    have exhausts : Echoes (σ := σ) Eq (exhausted p mark.position)
        (exhausted p.detached mark.position) := .of_eq (exhausted_sims _) rfl
    refine .ite (fun _ => exhausts.bind fun spent => .ite (fun _ => .pure safe) fun _ => ?_)
      fun _ => ?_
    all_goals
      cases room with
      | zero => exact .of_fails returns_fail
      | succ room =>
        refine (shadows p n).passedOn (fun _ => rfl) (fun _ => rfl) (fun v known => ?_) ?_
        · dsimp only
          rw [if_neg (goesOn _), if_neg (goesOn _)]
          refine inductionHypothesis room (Nat.lt_succ_self room) (count + 1) (p := p.complete v) ?_
          exact fun id shown => (Place.shows_complete_iff.mp shown).elim (known id) (safe id)
        · intro v st q after id returned shown
          dsimp only at returned
          rw [if_neg (goesOn _)] at returned
          obtain ⟨vs, rfl, -⟩ := repeatFrom_returns returned
          exact (Place.shows_complete_iff.mpr (.inl shown)).completeAll vs

include standard shadows

variable (straight : d.schema.Straight)

include straight

theorem decodeRepeated_shadows {p : Place} (safe : ∀ id, p.Shows id → d.schema.Safe id) :
    Shadows d.schema Place.detached Place.Shows (d.decodeRepeated child p n)
      (d.detached.decodeRepeated child' p.detached n.detached) := by
  refine (tell_echoes n).bind fun start => ?_
  have bounds : sameReading.Simulates Eq (d.repeatBounds p n start) (d.repeatBounds p n start) :=
    repeatBounds_sims (.refl d) (.refl n)
  refine (Echoes.of_eq bounds (repeatBounds_detached standard)).bind_of_returns ?_
  rintro st ⟨least, max⟩ after _ bounded rfl
  obtain ⟨most, rfl⟩ := straight.most bounded
  exact repeatFrom_shadows shadows least most _ 0 safe

theorem decodeDeclared_shadows (ids : List ElementId) {p : Place}
    (safe : ∀ id, p.Shows id → d.schema.Safe id) :
    Shadows d.schema Place.detached Place.Shows (d.decodeDeclared child ids p)
      (d.detached.decodeDeclared child' ids p.detached) := by
  induction ids generalizing p with
  | nil => exact .pure safe
  | cons id rest inductionHypothesis =>
    simp only [decodeDeclared]
    refine (node_echoes id).bind_of_returns ?_
    rintro st n after _ - rfl
    have off := isDisabled_sims (R := sameReading (σ := σ)) (Node.Twins.refl n)
    refine (Echoes.of_eq off isDisabled_detached).bind fun disabled =>
      .ite (fun _ => ?_) fun _ => ?_
    · rw [n.label_detached]
      exact (record_echoes _).bind fun _ => inductionHypothesis safe
    · refine (decodeRepeated_shadows standard shadows straight safe).bind
        (fun p known => inductionHypothesis known) ?_
      intro p st q after id returned shown
      obtain ⟨ts, rfl, -⟩ := decodeDeclared_returns returned
      exact shown.completeAll _

theorem decodeContainer_shadows (safe : d.schema.Safe n.id) (definition : Option ElementId)
    (ids : List ElementId) (declared : Option Nat) :
    Shadows d.schema Value.detached Value.Shows
      (d.decodeContainer child p n definition ids .declared declared)
      (d.detached.decodeContainer child' p.detached n.detached definition ids .declared
        declared) := by
  rw [decodeContainer_eq_closing, decodeContainer_eq_closing]
  refine align_echoes.bind fun _ => (tell_echoes n).bind fun start => ?_
  have stops := containerStop_sims (p := p) (R := sameReading (σ := σ)) (Node.Twins.refl n) start
    declared
  refine (Echoes.of_eq stops (containerStop_detached start declared)).bind fun stop => ?_
  rw [n.label_detached]
  refine (record_echoes _).bind fun _ => ?_
  have rewords : Rewords (d.detached.contentFailure p.detached n.detached start stop declared) :=
    contentFailure_rewords stop
  -- Nothing is completed in the frame of the container yet.
  have content := decodeDeclared_shadows standard shadows straight ids
    (p := p.enter (.container n.id definition start stop)) nofun
  refine (content.closing (d.contentFailure p n start stop declared) rewords).bind
    (fun inside known => ?_) ?_
  · refine (tellAt_echoes n start).bind fun position => ?_
    have sizes := containerLength_sims (R := sameReading (σ := σ)) (Node.Twins.refl n) start
      (position - start) declared
    refine (Echoes.of_eq sizes (containerLength_detached start (position - start) declared)).bind
      fun len => ?_
    rw [Place.children_detached]
    have built : ({ Value.empty n.id start len with children := inside.inner.children } :
        Value).detached = { Value.empty n.id start len with
          children := inside.inner.children.map Value.detached } := by
      rw [← Value.detachedIn_eq_map]
      rfl
    rw [n.id_detached, ← built]
    refine .pure fun id shown => ?_
    obtain rfl | below := Value.shows_iff.mp shown
    · exact safe
    · exact known id (Place.shows_iff_children.mpr below)
  · intro inside st v after id returned shown
    simp only [returns_bind, returns_pure] at returned
    obtain ⟨_, _, -, _, _, -, rfl, -⟩ := returned
    exact Value.shows_iff.mpr (.inr (Place.shows_iff_children.mp shown))

theorem decodeStructure_shadows (safe : d.schema.Safe n.id) (definition : Node d.schema) :
    Shadows d.schema Value.detached Value.Shows (d.decodeStructure child p n definition)
      (d.detached.decodeStructure child' p.detached n.detached definition.detached) := by
  refine align_echoes.bind fun _ => (tell_echoes n).bind fun start => ?_
  refine (resolved_echoes (n.lookupD_detached (a := .order) rfl _)).bind_of_returns ?_
  rintro st order after _ ordered rfl
  obtain rfl := straight.declared n order (returns_resolved.mp ordered).1
  have sizes : sameReading.Simulates Eq (d.structureLength p n start)
      (d.structureLength p n start) := structureLength_sims (.refl d) (.refl n)
  refine (Echoes.of_eq sizes (structureLength_detached standard)).bind fun declared => ?_
  rw [definition.kind_detached, Kind.children_detached]
  exact decodeContainer_shadows standard shadows straight safe _ _ declared

theorem decodeStructRef_shadows (safe : d.schema.Safe n.id) :
    Shadows d.schema Value.detached Value.Shows (d.decodeStructRef child p n offset)
      (d.detached.decodeStructRef child' p.detached n.detached offset) := by
  refine (resolved_echoes (n.lookup_detached (a := .structure?) rfl)).bind fun target => ?_
  cases target with
  | none => exact .of_fails returns_fail
  | some target =>
    refine (node_echoes target).bind_of_returns ?_
    rintro st definition after _ - rfl
    dsimp only
    rw [definition.kind_detached]
    cases definition.kind with
    | «structure» => exact decodeStructure_shadows standard shadows straight safe definition
    | _ => exact .of_fails returns_fail

omit standard straight in
theorem decodeGrammarRef_shadows (safe : d.schema.Safe n.id) :
    Shadows d.schema Value.detached Value.Shows (d.decodeGrammarRef child p n offset)
      (d.detached.decodeGrammarRef child' p.detached n.detached offset) := by
  refine (resolved_echoes (n.lookupD_detached (a := .disabled) rfl _)).bind fun disabled => ?_
  refine .ite (fun _ => ?_) fun _ => ?_
  · have empty : ∀ id, (Value.empty n.id offset 0).Shows id → d.schema.Safe id := by
      intro id shown
      obtain rfl := shown.of_leaf rfl
      exact safe
    exact .pure empty
  refine (resolved_echoes (n.lookup_detached (a := .grammar) rfl)).bind fun target => ?_
  cases target with
  | none => exact .of_fails returns_fail
  | some target =>
    refine (node_echoes target).bind_of_returns ?_
    rintro st grammar after _ - rfl
    dsimp only
    rw [grammar.kind_detached]
    cases grammar.kind with
    | grammar => exact shadows p grammar
    | _ => exact .of_fails returns_fail

end Containers

/-! ## Elements -/

section Elements

omit [SliceLike σ] standard in
/-- Without scripts, what is decoded by one is not decoded at all. -/
theorem not_decodeScripted_returns (scriptless : ∀ script, ¬ d.schema.HasScript script)
    {id : ElementId} {st after : DecodeState σ} {v : Value} :
    ¬ Returns (d.decodeScripted p n id) st v after := by
  intro returned
  simp only [decodeScripted, returns_bind] at returned
  obtain ⟨_, _, -, start, _, -, script, _, -, byScript⟩ := returned
  cases kind : script.kind with
  | script body => exact scriptless body (Node.hasScript kind)
  | _ =>
    rw [kind] at byScript
    exact returns_fail byScript

variable (straight : d.schema.Straight) (scriptless : ∀ script, ¬ d.schema.HasScript script)

include straight scriptless

theorem decodeKind_shadows (shadows : ShadowsChild child child')
    (keepsData : ∀ {p n st v st'}, Returns (child p n) st v st' →
      st'.reading.data = st.reading.data) :
    Shadows d.schema Value.detached Value.Shows (d.decodeKind child p n offset)
      (d.detached.decodeKind child' p.detached n.detached offset) := by
  unfold decodeKind
  rw [n.kind_detached]
  have safe : (∀ body, n.kind ≠ .offset body) → d.schema.Safe n.id := Schema.safe_of_kind
  generalize kind : n.kind = own at safe ⊢
  cases own with
  | grammar body =>
    exact decodeContainer_shadows standard shadows straight (safe (by rintro _ ⟨⟩)) _ _ _
  | grammarRef => exact decodeGrammarRef_shadows shadows (safe (by rintro _ ⟨⟩))
  | «structure» =>
    exact decodeStructure_shadows standard shadows straight (safe (by rintro _ ⟨⟩)) n
  | structRef => exact decodeStructRef_shadows standard shadows straight (safe (by rintro _ ⟨⟩))
  | number => exact decodeNumber_shadows standard (safe (by rintro _ ⟨⟩))
  | string => exact decodeString_shadows standard (safe (by rintro _ ⟨⟩))
  | binary => exact decodeBinary_shadows standard (safe (by rintro _ ⟨⟩))
  | custom =>
    refine (resolved_echoes (n.lookup_detached (a := .script) rfl)).bind fun script => ?_
    cases script with
    | none => exact .of_fails returns_fail
    | some script => exact .of_fails (not_decodeScripted_returns scriptless)
  | offset body => exact decodeOffset_shadows standard ⟨body, kind⟩ keepsData
  | script => exact .of_fails (not_decodeScripted_returns scriptless)

theorem decodeOne_shadows (depth : Nat) :
    ShadowsChild (d.decodeOne depth) (d.detached.decodeOne depth) := by
  induction depth with
  | zero =>
    intro p n
    refine .of_fails ?_
    intro st v after returned
    simp only [decodeOne, returns_bind, returns_fail, and_false, exists_false] at returned
  | succ depth inductionHypothesis =>
    intro p n
    have kinds : n.detached.kind.name = n.kind.name := by
      rw [n.kind_detached, Kind.name_detached]
    simp only [decodeOne, kinds]
    refine (record_echoes _).bind fun _ => (tell_echoes n).bind fun start => ?_
    exact decodeKind_shadows standard straight scriptless inductionHypothesis
      (decodeOne_returns_data (scriptsOnlyRead_of_scriptless scriptless))

theorem decodeWhole_shadows (element : ElementId) :
    Shadows d.schema Value.detached Value.Shows (d.decodeWhole element)
      (d.detached.decodeWhole element) := by
  refine (node_echoes element).bind_of_returns ?_
  rintro st n after _ - rfl
  refine (tell_echoes n).bind fun start => (size_echoes n start).bind fun dataStop => ?_
  have one := decodeOne_shadows standard straight scriptless d.options.maxDepth
    (startPlace element start dataStop) n
  refine one.bind (fun v safe => ?_) ?_
  · exact (checkTree_echoes n v).bind fun _ => .pure safe
  · intro v st w after id returned shown
    simp only [returns_bind, returns_pure] at returned
    obtain ⟨_, _, -, rfl, -⟩ := returned
    exact shown

end Elements

end Decoder

/-! ## Whole decodes -/

theorem Node.lookupD_of_unset {s : Schema} {α : Type} {a : Attribute α}
    (unset : ∀ e ∈ s.elements, a.own e = none) {n : Node s} {fallback found : α}
    (set : n.lookupD a fallback = .ok found) : found = fallback := by
  rw [Node.lookupD] at set
  cases looked : n.lookup a with
  | error cycle =>
    rw [looked] at set
    cases set
  | ok own =>
    rw [looked, Schema.lookup_of_unset unset looked] at set
    cases set
    rfl

/-- Where no element sets a bound or an order, every run is of one instance, and every container
has its children in order. -/
theorem Schema.straight_of_unset {s : Schema}
    (bounds : ∀ e ∈ s.elements, Attribute.repeatMax.own e = none)
    (orders : ∀ e ∈ s.elements, Attribute.order.own e = none) : s.Straight := by
  constructor
  · intro n r set
    exact ⟨1, Node.lookupD_of_unset bounds set, by decide⟩
  · intro n order set
    exact Node.lookupD_of_unset orders set

namespace Decoder

variable {σ : Type} [ByteSource σ] [SliceLike σ]

/-- If a template without scripts, whose runs are all bounded and whose containers all have their
children in order, decodes to a tree, then the detached template decodes to that tree without its
side trees, and the source is left at the same place. Only if the tree shows an offset that strands
without its reference, the detached template does not decode and fails at such an offset. -/
theorem decode_without_side_trees (d : Decoder σ) (standard : d.evaluator = .standard)
    (scriptless : ∀ script, ¬ d.schema.HasScript script) (straight : d.schema.Straight)
    {element : ElementId} {source : σ} {v : Value} {warnings : List DecodeError}
    (h : (d.decodeElement element source).result = .ok (v, warnings)) :
    ((∀ id, v.Shows id → d.schema.Safe id) ∧
      (∃ warnings', (d.detached.decodeElement element source).result =
        .ok (v.detached, warnings')) ∧
      SliceLike.slice (d.detached.decodeElement element source).source =
        SliceLike.slice (d.decodeElement element source).source) ∨
    ∃ e, v.Shows e.element ∧ d.schema.Stranded e ∧
      (d.detached.decodeElement element source).result = .error e := by
  rw [decodeElement_eq] at h
  rw [decodeElement_eq, decodeElement_eq]
  rcases ended : (d.decodeWhole element).ending { source := source } with ⟨e | v', after⟩
  · rw [ended] at h
    cases h
  · rw [ended] at h
    cases h
    have shadows := decodeWhole_shadows standard straight scriptless element
    obtain ⟨after₁, returned, same, safe⟩ | ⟨e, after₁, thrown, stranded, shown⟩ :=
      shadows _ _ _ { source := source } ended rfl
    · rw [returned]
      exact .inl ⟨safe, ⟨_, rfl⟩, (DecodeState.slice_eq_of_reading same).symm⟩
    · rw [thrown]
      exact .inr ⟨e, shown, stranded, rfl⟩

/-- A structure of a pointer to the last byte of the file, and a byte. -/
def linked : Decoder Slice where
  schema :=
    { elements := #[
        ⟨{}, .structure { children := [⟨1⟩, ⟨2⟩] }⟩,
        ⟨{}, .offset { extent := { length := some (.literal 1) }, references := some ⟨2⟩ }⟩,
        ⟨{}, .number { extent := { length := some (.literal 1) } }⟩]
      root := ⟨0⟩ }
  options := { maxDepth := 3, maxRepeat := 2 }

def linkedValue : Value :=
  let byte (offset : Nat) (value : UInt64) : Value :=
    ⟨⟨2⟩, offset, 1, some .little, .number (.unsigned value) none [] none, []⟩
  ⟨⟨0⟩, 0, 2, none, .none,
    [⟨⟨1⟩, 0, 1, some .little, .offset 2 (some 2) (some (byte 2 7)), []⟩, byte 1 5]⟩

set_option maxRecDepth 8000 in
theorem decode_without_side_trees_linked :
    (linked.decodeElement ⟨0⟩ ⟨#[2, 5, 7], 0⟩).result = .ok (linkedValue, []) ∧
      (∀ id, linkedValue.Shows id → linked.schema.Safe id) ∧
      (∃ warnings', (linked.detached.decodeElement ⟨0⟩ ⟨#[2, 5, 7], 0⟩).result =
        .ok (linkedValue.detached, warnings')) ∧
      (linked.detached.decodeElement ⟨0⟩ ⟨#[2, 5, 7], 0⟩).source =
        (linked.decodeElement ⟨0⟩ ⟨#[2, 5, 7], 0⟩).source := by
  have decodes : (linked.decodeElement ⟨0⟩ ⟨#[2, 5, 7], 0⟩).result = .ok (linkedValue, []) := by
    cbv
  have scriptless : ∀ script, ¬ linked.schema.HasScript script := by
    simp [Schema.HasScript, linked]
  have straight : linked.schema.Straight := Schema.straight_of_unset (by decide) (by decide)
  refine ⟨decodes, ?_⟩
  obtain succeeds | ⟨e, -, -, fails⟩ :=
    decode_without_side_trees linked rfl scriptless straight decodes
  · exact succeeds
  · have detaches : (linked.detached.decodeElement ⟨0⟩ ⟨#[2, 5, 7], 0⟩).result =
        .ok (linkedValue.detached, []) := by
      cbv
    cases detaches.symm.trans fails

/-- An offset that extends itself, and whose reference keeps lookups from finding that out. -/
def selfExtending : Decoder Slice where
  schema :=
    { elements := #[
        ⟨{ name := some "o", template := some ⟨0⟩ }, .offset {
          extent := { length := some (.literal 1), unit := some .byte }
          byteOrder := some .little
          radix := some .hex
          references := some ⟨1⟩
          followNull := some false }⟩,
        ⟨{}, .structure {}⟩]
      root := ⟨0⟩ }

set_option maxRecDepth 8000 in
/-- Without its reference, an offset that extends itself no longer decodes. -/
theorem not_decode_without_side_trees :
    ¬ ∀ (d : Decoder Slice), d.evaluator = .standard → (∀ script, ¬ d.schema.HasScript script) →
      d.schema.Straight → ∀ (element : ElementId) (source : Slice) (v : Value)
        (warnings : List DecodeError),
      (d.decodeElement element source).result = .ok (v, warnings) →
      ∃ warnings', (d.detached.decodeElement element source).result =
          .ok (v.detached, warnings') ∧
        (d.detached.decodeElement element source).source.cursor =
          (d.decodeElement element source).source.cursor := by
  intro always
  have scriptless : ∀ script, ¬ selfExtending.schema.HasScript script := by
    simp [Schema.HasScript, selfExtending]
  have straight : selfExtending.schema.Straight := Schema.straight_of_unset (by decide) (by decide)
  have decodes : (selfExtending.decodeElement ⟨0⟩ ⟨#[0], 0⟩).result =
      .ok (⟨⟨0⟩, 0, 1, some .little, .offset 0 none none, []⟩, []) := by
    cbv
  have fails : (selfExtending.detached.decodeElement ⟨0⟩ ⟨#[0], 0⟩).result =
      .error ⟨⟨0⟩, "offset:o", 0, .cycle ⟨"references", ⟨0⟩, 1⟩⟩ := by
    cbv
  obtain ⟨warnings', succeeds, -⟩ := always selfExtending rfl scriptless straight ⟨0⟩ _ _ _ decodes
  cases succeeds.symm.trans fails

end Decoder

end BinaryTemplate
