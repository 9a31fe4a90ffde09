import BinaryTemplate.Proofs.Abreast
import BinaryTemplate.Proofs.ElementCongruence

/-!
# Elements at places that are alike

The walk through the containers, references and offsets of a decoder at two places that are alike.
Runs and choices leave places that are alike again. A pointer asks for the frame of the element that
it counts from, so none may count from the element in which the places differ; and a script is given
the frames themselves, so no element on the way may be decoded by one.
-/

namespace BinaryTemplate

namespace Decoder

open DecodeM Simulation

variable {σ : Type} {d : Decoder σ} {base : ElementId} {p p' : Place} {n : Node d.schema}
  {offset : Nat} {child : d.DecodeChild}

/-- Instances of an element decode alike at places that are alike. -/
def AlikeChild (base : ElementId) (child : d.DecodeChild) (id : ElementId) : Prop :=
  ∀ p p' (n : Node d.schema), n.id = id → p.Like base p' →
    (abreast σ).Simulates Eq (child p n) (child p' n)

variable (standard : d.evaluator = .standard) (like : p.Like base p')

/-! ## Runs -/

section Runs

include standard like

theorem repeatBounds_like :
    (abreast σ).Simulates Eq (d.repeatBounds p n offset) (d.repeatBounds p' n offset) :=
  .bind (.resolved_same _) fun least => .bind (evalInteger_like standard like least) fun _ =>
    .bind (.resolved_same _) fun most => .bind (evalInteger_like standard like most) fun _ =>
    .guard_same rfl fun _ => .ite (fun _ => .pure rfl) fun _ => .pure rfl

omit standard in
theorem exhausted_like (position : Nat) :
    (abreast σ).Simulates Eq (exhausted p position) (exhausted p' position) := by
  refine .get_bind fun st st' pending _ => ?_
  rw [pending, like.limit]
  exact .pure rfl

variable [ByteSource σ]

omit standard in
theorem repeatFrom_like (alike : AlikeChild base child n.id) {min : Nat} {max : Option Nat}
    (room count : Nat) :
    (abreast σ).Simulates (Place.Like base) (d.repeatFrom child n min max room count p)
      (d.repeatFrom child n min max room count p') := by
  induction room generalizing count p p' with
  | zero =>
    rw [repeatFrom.eq_def, repeatFrom.eq_def]
    exact .ite (fun _ => .pure like) fun _ => .bind .take fun mark => .ite
      (fun _ => .bind (exhausted_like like _) fun _ => .ite (fun _ => .pure like)
        fun _ => .fail_same rfl)
      fun _ => .fail_same rfl
  | succ room inductionHypothesis =>
    rw [repeatFrom.eq_def, repeatFrom.eq_def]
    refine .ite (fun _ => .pure like) fun _ => .bind .take fun mark => .ite
      (fun _ => .bind (exhausted_like like _) fun _ => .ite (fun _ => .pure like) fun _ => ?_)
      fun _ => ?_
    -- The next attempt is the same one below the minimum and from there on.
    all_goals
      refine .attempt (alike p p' n rfl like) (fun v => ?_) fun e sound => ?_
      · exact .ite (fun _ => .pure (like.complete v)) fun _ =>
          inductionHypothesis (like.complete v) _
      · exact .ite (fun _ => .bind (.record _) fun _ => .bind (.rewind mark) fun _ => .pure like)
          fun _ => .throw sound

theorem decodeRepeated_like (alike : AlikeChild base child n.id) :
    (abreast σ).Simulates (Place.Like base) (d.decodeRepeated child p n)
      (d.decodeRepeated child p' n) :=
  .bind .tell fun _ => .bind (repeatBounds_like standard like) fun _ =>
    repeatFrom_like like alike _ _

end Runs

/-! ## Children -/

section Children

variable [ByteSource σ]

include standard

theorem decodeDeclared_like {ids : List ElementId}
    (alike : ∀ id ∈ ids, AlikeChild base child id) (like : p.Like base p') :
    (abreast σ).Simulates (Place.Like base) (d.decodeDeclared child ids p)
      (d.decodeDeclared child ids p') := by
  induction ids generalizing p p' with
  | nil => exact .pure like
  | cons id rest inductionHypothesis =>
    have others := fun {p p' : Place} (like : p.Like base p') =>
      inductionHypothesis (fun id member => alike id (List.mem_cons_of_mem _ member)) like
    simp only [decodeDeclared]
    rw [like.inner.start]
    refine node_bind_like fun m same => .bind (isDisabled_sims (.refl m)) fun _ => .ite
      (fun _ => .bind (.record _) fun _ => others like) fun _ => ?_
    have here : AlikeChild base child m.id := same ▸ alike id List.mem_cons_self
    exact .bind_of (decodeRepeated_like standard like here) fun _ _ like => others like

omit [ByteSource σ] in
theorem alternatives_like {ids : List ElementId} (alike : ∀ id ∈ ids, AlikeChild base child id)
    (like : p.Like base p') :
    (abreast σ).Simulates
      (fun choices choices' => choices = choices' ∧ ∀ a ∈ choices, AlikeChild base child a.node.id)
      (d.alternatives p offset ids) (d.alternatives p' offset ids) := by
  induction ids with
  | nil => exact .pure ⟨rfl, List.forall_mem_nil _⟩
  | cons id rest inductionHypothesis =>
    have others := inductionHypothesis fun id member => alike id (List.mem_cons_of_mem _ member)
    simp only [alternatives]
    refine node_bind_like fun m same => .bind (isDisabled_sims (.refl m)) fun _ => .ite
      (fun _ => others) fun _ => .bind (repeatBounds_like standard like) ?_
    rintro ⟨least, most⟩
    refine .bind_of others ?_
    rintro choices _ ⟨rfl, each⟩
    refine .pure ⟨rfl, fun a member => ?_⟩
    rcases List.mem_cons.mp member with rfl | member
    · exact same ▸ alike id List.mem_cons_self
    · exact each a member

/-- Two choices that have found the same and leave alternatives that all decode alike. -/
structure SameFound (base : ElementId) (child : d.DecodeChild)
    (found found' : Option (Value × List (Alternative d.schema))) : Prop where
  same : found = found'
  alike : ∀ v rest, found = some (v, rest) → ∀ a ∈ rest, AlikeChild base child a.node.id

omit standard [ByteSource σ] in
/-- An alternative is put back in front of those that the rest leaves. -/
theorem SameFound.skip {a : Alternative d.schema} (here : AlikeChild base child a.node.id)
    {found found' : Option (Value × List (Alternative d.schema))}
    (rest : SameFound base child found found') :
    SameFound base child (found.map fun (v, rest) => (v, a :: rest))
      (found'.map fun (v, rest) => (v, a :: rest)) := by
  obtain ⟨rfl, each⟩ := rest
  refine ⟨rfl, fun v left same b member => ?_⟩
  obtain ⟨⟨_, others⟩, rfl, ⟨⟩⟩ := Option.map_eq_some_iff.mp same
  rcases List.mem_cons.mp member with rfl | member
  · exact here
  · exact each _ _ rfl b member

omit standard [ByteSource σ] in
/-- The alternative that is taken is left with one instance more. -/
theorem SameFound.take {a : Alternative d.schema} {rest : List (Alternative d.schema)} (v : Value)
    (alike : ∀ b ∈ a :: rest, AlikeChild base child b.node.id) :
    SameFound base child (some (v, { a with count := a.count + 1 } :: rest))
      (some (v, { a with count := a.count + 1 } :: rest)) := by
  refine ⟨rfl, ?_⟩
  rintro _ _ ⟨⟩ b member
  rcases List.mem_cons.mp member with rfl | member
  · exact alike a List.mem_cons_self
  · exact alike b (List.mem_cons_of_mem _ member)

omit standard in
theorem firstMatch_like (like : p.Like base p') (mark : Mark)
    {choices : List (Alternative d.schema)}
    (alike : ∀ a ∈ choices, AlikeChild base child a.node.id) :
    (abreast σ).Simulates (SameFound base child) (d.firstMatch child p n mark choices)
      (d.firstMatch child p' n mark choices) := by
  induction choices with
  | nil => exact .pure ⟨rfl, nofun⟩
  | cons a rest inductionHypothesis =>
    have here := alike a List.mem_cons_self
    have others := inductionHypothesis fun b member => alike b (List.mem_cons_of_mem _ member)
    have behind : (abreast σ).Simulates (SameFound base child) _ _ :=
      others.bind_of fun _ _ found => .pure (found.skip here)
    simp only [firstMatch]
    refine .ite (fun _ => behind) fun _ => ?_
    refine .attempt (here p p' a.node rfl like) (fun v => .pure (.take v alike)) fun e sound => ?_
    exact .ite (fun _ => .bind_of (Simulates.throw (Q := fun _ _ => False) sound)
        fun _ _ never => never.elim)
      fun _ => .bind (.record _) fun _ => .bind (.rewind mark) fun _ => behind

omit standard in
theorem decodeChoices_like (like : p.Like base p') (room : Nat)
    {choices : List (Alternative d.schema)}
    (alike : ∀ a ∈ choices, AlikeChild base child a.node.id) :
    (abreast σ).Simulates (fun left right => left.1.Like base right.1 ∧ left.2 = right.2)
      (d.decodeChoices child n room p choices) (d.decodeChoices child n room p' choices) := by
  induction room generalizing p p' choices with
  | zero =>
    rw [decodeChoices.eq_def, decodeChoices.eq_def]
    refine .bind .take fun mark => .bind (exhausted_like like _) fun _ => .ite
      (fun _ => .pure ⟨like, rfl⟩) fun _ => .bind_of (firstMatch_like like mark alike) ?_
    rintro found _ ⟨rfl, each⟩
    cases found with
    | none => exact .pure ⟨like, rfl⟩
    | some found =>
      exact .ite (fun _ => .pure ⟨like.complete _, rfl⟩) fun _ => .fail_same rfl
  | succ room inductionHypothesis =>
    rw [decodeChoices.eq_def, decodeChoices.eq_def]
    refine .bind .take fun mark => .bind (exhausted_like like _) fun _ => .ite
      (fun _ => .pure ⟨like, rfl⟩) fun _ => .bind_of (firstMatch_like like mark alike) ?_
    rintro found _ ⟨rfl, each⟩
    cases found with
    | none => exact .pure ⟨like, rfl⟩
    | some found =>
      exact .ite (fun _ => .pure ⟨like.complete _, rfl⟩) fun _ =>
        inductionHypothesis (like.complete _) (each _ _ rfl)

omit standard [ByteSource σ] in
theorem checkMinimums_like (choices : List (Alternative d.schema)) :
    (abreast σ).Simulates Eq (d.checkMinimums offset choices) (d.checkMinimums offset choices) := by
  induction choices with
  | nil => exact .pure rfl
  | cons a rest inductionHypothesis => exact .guard_same rfl fun _ => inductionHypothesis

theorem decodeContent_like {ids : List ElementId} {order : ChildOrder}
    (alike : ∀ id ∈ ids, AlikeChild base child id) (like : p.Like base p') :
    (abreast σ).Simulates (Place.Like base) (d.decodeContent child n ids order p)
      (d.decodeContent child n ids order p') := by
  cases order with
  | declared => exact decodeDeclared_like standard alike like
  | anyOf =>
    refine .bind .tell fun _ => .bind_of (alternatives_like standard alike like) ?_
    rintro choices _ ⟨rfl, each⟩
    refine .bind_of (decodeChoices_like like _ each) ?_
    rintro ⟨inside, left⟩ ⟨inside', _⟩ ⟨within, rfl⟩
    exact .bind (checkMinimums_like _) fun _ => .pure within

end Children

/-! ## Containers -/

section Containers

include like

theorem containerStop_like (start : Nat) (declared : Option Nat) :
    (abreast σ).Simulates Eq (d.containerStop p n start declared)
      (d.containerStop p' n start declared) := by
  unfold containerStop
  rw [like.limit]
  cases declared with
  | none => exact .pure rfl
  | some len => exact .ite (fun _ => .pure rfl) fun _ => .fail_same rfl

include standard

theorem structureLength_like :
    (abreast σ).Simulates Eq (d.structureLength p n offset) (d.structureLength p' n offset) := by
  refine .bind (.resolved_same _) fun length => ?_
  cases length with
  | none => exact .pure rfl
  | some length =>
    exact .bind (evalCount_like standard like length) fun _ =>
      .bind (evalAttribute_like standard like _) fun _ => .bind (asCount_sims (.refl n) _) fun _ =>
      .bind (.resolved_same _) fun _ => .bind (toBytes_sims (.refl n) _ _) fun _ => .pure rfl

variable [ByteSource σ]

theorem decodeContainer_like {definition : Option ElementId} {ids : List ElementId}
    {order : ChildOrder} {declared : Option Nat} (alike : ∀ id ∈ ids, AlikeChild base child id) :
    (abreast σ).Simulates Eq (d.decodeContainer child p n definition ids order declared)
      (d.decodeContainer child p' n definition ids order declared) := by
  have words (start stop : Nat) (e : DecodeError) :
      d.contentFailure p n start stop declared e =
        d.contentFailure p' n start stop declared e := by
    unfold contentFailure
    rw [like.limit]
  refine .bind .align fun _ => .bind .tell fun start => .bind (containerStop_like like _ _)
    fun stop => .bind (.record _) fun _ => ?_
  have content : (abreast σ).Simulates (Place.Like base)
      (d.decodeContent child n ids order (p.enter (.container n.id definition start stop)))
      (d.decodeContent child n ids order (p'.enter (.container n.id definition start stop))) :=
    decodeContent_like standard alike (like.enter (.refl base _))
  refine .outcome_bind content (fun inside inside' within => ?_) (fun e sound => ?_)
    fun _ _ never => never.elim
  · have same : inside.inner.children = inside'.inner.children :=
      congrArg List.reverse within.inner.completed
    refine .bind .align fun _ => .bind .tellAt fun _ =>
      .bind (containerLength_sims (.refl n) _ _ _) fun _ => ?_
    rw [same]
    exact .pure rfl
  · dsimp only
    rw [words]
    refine .bind .align fun _ => .throw ?_
    have rewords : Rewords (d.contentFailure p' n start stop declared) :=
      d.contentFailure_rewords stop
    rcases rewords e with same | ⟨-, _, _, overrun⟩
    · rwa [same]
    · refine (abreast σ).usual _ ?_
      rw [overrun]
      rfl

theorem decodeStructure_like {definition : Node d.schema}
    (alike : ∀ id ∈ definition.kind.children, AlikeChild base child id) :
    (abreast σ).Simulates Eq (d.decodeStructure child p n definition)
      (d.decodeStructure child p' n definition) :=
  .bind .align fun _ => .bind .tell fun _ => .bind (.resolved_same _) fun _ =>
    .bind (structureLength_like standard like) fun _ => decodeContainer_like standard like alike

end Containers

/-! ## References and offsets -/

section References

variable (children : ∀ id, n.Leads id → AlikeChild base child id)

include like children

theorem decodeGrammarRef_like {body : GrammarRefBody} (kind : n.kind = .grammarRef body) :
    (abreast σ).Simulates Eq (d.decodeGrammarRef child p n offset)
      (d.decodeGrammarRef child p' n offset) := by
  refine .bind (.resolved_same _) fun _ => .ite (fun _ => .pure rfl) fun _ =>
    .resolved_bind fun target named => ?_
  cases target with
  | none => exact .fail_same rfl
  | some target =>
    refine node_bind_like fun grammar same => ?_
    split
    · exact children target (.grammar kind named) p p' grammar same like
    · exact .fail_same rfl

variable [ByteSource σ]

theorem decodeStructRef_like (standard : d.evaluator = .standard) {body : StructRefBody}
    (kind : n.kind = .structRef body) :
    (abreast σ).Simulates Eq (d.decodeStructRef child p n offset)
      (d.decodeStructRef child p' n offset) := by
  refine .resolved_bind fun target named => ?_
  cases target with
  | none => exact .fail_same rfl
  | some target =>
    refine node_bind_like fun definition same => ?_
    split
    · rename_i defines
      have found : d.schema.node? target = some definition := same ▸ Schema.node?_of_id definition
      exact decodeStructure_like standard like fun id member =>
        children id (.child (.named kind named found defines) member)
    · exact .fail_same rfl

omit children [ByteSource σ] in
theorem baseAddress_like {id : ElementId} (other : id ≠ base) :
    (abreast σ).Simulates Eq (d.baseAddress p n offset id) (d.baseAddress p' n offset id) := by
  have opened : (p.context d.schema).containerStart? id =
      (p'.context d.schema).containerStart? id :=
    Context.containerStart?_eq_of_like like.frames other
  have found : (p.context d.schema).find? id = (p'.context d.schema).find? id :=
    Context.find?_eq_of_like like.frames id
  refine .ite (fun _ => .pure rfl) fun _ => ?_
  dsimp only
  rw [opened, found]
  split
  · exact .pure rfl
  · exact .fail_same rfl

omit children [ByteSource σ] in
theorem targetAddress_like (standard : d.evaluator = .standard)
    (other : n.lookup .relativeTo ≠ .ok (some base)) (pointer : Nat) :
    (abreast σ).Simulates Eq (d.targetAddress p n offset pointer)
      (d.targetAddress p' n offset pointer) := by
  refine .ite (fun _ => .bind (.resolved_same _) fun _ => .ite (fun _ => .pure rfl) fun _ => ?_)
    fun _ => ?_
  -- The address is worked out alike for null pointers that are followed and for all others.
  all_goals
    refine .resolved_bind fun relative named => ?_
    cases relative with
    | none =>
      exact .bind (.pure rfl) fun _ => .bind (evalAttribute_like standard like _) fun _ =>
        .ite (fun _ => .pure rfl) fun _ => .fail_same rfl
    | some id =>
      have differs : id ≠ base := by
        rintro rfl
        exact other named
      exact .bind (baseAddress_like like differs) fun _ =>
        .bind (evalAttribute_like standard like _) fun _ => .ite (fun _ => .pure rfl) fun _ =>
        .fail_same rfl

omit children [ByteSource σ] in
theorem referencedSize_like :
    (abreast σ).Simulates Eq (d.referencedSize? p n offset) (d.referencedSize? p' n offset) := by
  refine .bind (.resolved_same _) fun size => ?_
  cases size with
  | none => exact .pure rfl
  | some id =>
    have found : (p.context d.schema).find? id = (p'.context d.schema).find? id :=
      Context.find?_eq_of_like like.frames id
    dsimp only
    rw [found]
    split
    · exact .fail_same rfl
    · split
      · exact .ite (fun _ => .pure rfl) fun _ => .fail_same rfl
      · exact .fail_same rfl

omit children in
theorem follow_like {element : ElementId} (alike : AlikeChild base child element) (target : Nat) :
    (abreast σ).Simulates Eq (d.follow child p n offset target element)
      (d.follow child p' n offset target element) := by
  have region (size : Option Nat) : (abreast σ).Simulates Eq (d.regionStop p n offset target size)
      (d.regionStop p' n offset target size) := by
    unfold regionStop
    rw [like.dataStop]
    exact .ite (fun _ => .pure rfl) fun _ => .fail_same rfl
  unfold follow
  rw [like.following]
  refine .guard_same rfl fun _ => node_bind_like fun referenced same =>
    .bind (referencedSize_like like) fun size => .bind (region size) fun stop =>
    .bind .tellAt fun resume => .bind (.record _) fun _ => .bind (.seek _) fun _ =>
    .get_bind fun st st' pending _ => ?_
  rw [pending]
  refine .bind (.setPending _) fun _ =>
    .attempt (alike _ _ referenced same (like.sidePlace element target stop)) (fun v => ?_)
      fun e sound => ?_
  · exact .bind (.setPending _) fun _ => .bind (.seek _) fun _ => .liftExcept _ nofun
  · refine .bind (.setPending _) fun _ => .bind (.seek _) fun _ => .liftExcept _ ?_
    rintro _ ⟨⟩
    exact sound

theorem decodeOffset_like (standard : d.evaluator = .standard) {body : OffsetBody}
    (kind : n.kind = .offset body) (other : n.lookup .relativeTo ≠ .ok (some base)) :
    (abreast σ).Simulates Eq (d.decodeOffset child p n) (d.decodeOffset child p' n) := by
  have following (offset : Nat) (target : Option Nat) :
      (abreast σ).Simulates Eq (d.followTarget child p n offset target)
        (d.followTarget child p' n offset target) := by
    refine .resolved_bind fun element named => ?_
    cases target with
    | none => exact .pure rfl
    | some target =>
      cases element with
      | none => exact .pure rfl
      | some element =>
        exact .bind (follow_like like (children element (.referenced kind named)) target)
          fun _ => .pure rfl
  exact .bind .tell fun _ => .bind (.resolved_same _) fun order =>
    .bind (readRaw_like standard like order) fun _ =>
    .bind (targetAddress_like like standard other _) fun _ => .bind (following _ _) fun _ =>
    .pure rfl

end References

/-! ## Elements -/

section Elements

variable [ByteSource σ]

include standard

/-- An element that no script decodes, and no pointer that counts from `base`. -/
theorem decodeKind_like (like : p.Like base p')
    (children : ∀ id, n.Leads id → AlikeChild base child id) (unscripted : ¬ n.IsScripted)
    (other : (∃ body, n.kind = .offset body) → n.lookup .relativeTo ≠ .ok (some base)) :
    (abreast σ).Simulates Eq (d.decodeKind child p n offset) (d.decodeKind child p' n offset) := by
  unfold decodeKind
  cases kind : n.kind with
  | grammar body =>
    refine decodeContainer_like standard like fun id member => ?_
    cases first : body.start with
    | none =>
      rw [first] at member
      exact children id (.listed kind first member)
    | some start =>
      rw [first] at member
      obtain rfl := List.mem_singleton.mp member
      exact children id (.start kind first)
  | grammarRef => exact decodeGrammarRef_like like children kind
  | «structure» =>
    exact decodeStructure_like standard like fun id member =>
      children id (.child (.own kind) member)
  | structRef => exact decodeStructRef_like like children standard kind
  | number => exact decodeNumber_like standard like
  | string => exact decodeString_like standard like
  | binary => exact decodeBinary_like standard like
  | custom => exact absurd (.inl ⟨_, kind⟩) unscripted
  | offset => exact decodeOffset_like like children standard kind (other ⟨_, kind⟩)
  | script => exact absurd (.inr ⟨_, kind⟩) unscripted

/-- In a set of elements that is closed under what elements lead to, none of which a script decodes,
all decode alike at places that are told apart only by a container that no pointer counts from. -/
theorem decodeOne_like (among : ElementId → Prop)
    (closed : ∀ {n : Node d.schema} {id : ElementId}, among n.id → n.Leads id → among id)
    (unscripted : ∀ n : Node d.schema, among n.id → ¬ n.IsScripted)
    (other : ∀ n : Node d.schema, (∃ body, n.kind = .offset body) →
      n.lookup .relativeTo ≠ .ok (some base))
    (depth : Nat) {id : ElementId} (member : among id) :
    AlikeChild base (d.decodeOne depth) id := by
  induction depth generalizing id with
  | zero =>
    exact fun _ _ n _ _ => .bind (.record _) fun _ => .bind .tell fun _ => .fail_same rfl
  | succ depth inductionHypothesis =>
    rintro p p' n rfl like
    exact .bind (.record _) fun _ => .bind .tell fun _ => decodeKind_like standard like
      (fun id leads => inductionHypothesis (closed member leads)) (unscripted n member) (other n)

end Elements

end Decoder

end BinaryTemplate
