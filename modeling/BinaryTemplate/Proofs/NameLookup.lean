import BinaryTemplate.Proofs.CompletionOrder

/-!
# What a name means

A name means the most recent value that has it. The values at the top of a frame come before all
that is inside them, and those of an inner frame before those of the frames around it. If no frame
has such a value at its top, the name means the value that was completed last: the search takes a
tree apart in exactly the reverse of the order in which its values were completed. Each further name
of a path is settled by the children of the value before it alone.
-/

namespace BinaryTemplate

namespace Value

variable {s : Schema} {name : String} {v w : Value} {vs : List Value}

theorem hasName_iff : v.hasName s name = true ↔ v.name s = .ok name := by
  rw [hasName]
  cases v.name s <;> simp

/-- The last of several values that have a name. -/
structure LastNamed (s : Schema) (name : String) (vs : List Value) (v : Value) : Prop where
  named : v.name s = .ok name
  last : ∃ earlier later, vs = earlier ++ v :: later ∧ ∀ w ∈ later, w.name s ≠ .ok name

/-- A search from the last value on ends at the last one with the name. -/
theorem find?_reverse_eq_some_iff :
    vs.reverse.find? (hasName s name) = some v ↔ LastNamed s name vs v := by
  rw [List.find?_eq_some_iff_append, hasName_iff]
  constructor
  · rintro ⟨named, later, earlier, split, without⟩
    refine ⟨named, earlier.reverse, later.reverse, ?_, fun w inLater own => ?_⟩
    · rw [← List.reverse_reverse vs, split, List.reverse_append, List.reverse_cons,
        List.append_assoc, List.singleton_append]
    · have passed := without w (List.mem_reverse.mp inLater)
      rw [hasName_iff.mpr own] at passed
      cases passed
  · rintro ⟨named, earlier, later, rfl, without⟩
    refine ⟨named, later.reverse, earlier.reverse, by simp, fun w inLater => ?_⟩
    rw [Bool.not_eq_true', Bool.eq_false_iff, ne_eq, hasName_iff]
    exact without w (List.mem_reverse.mp inLater)

theorem find?_reverse_eq_none_iff :
    vs.reverse.find? (hasName s name) = none ↔ ∀ w ∈ vs, w.name s ≠ .ok name := by
  simp only [List.find?_eq_none, List.mem_reverse, hasName_iff, ne_eq]

theorem childNamed?_eq_some_iff :
    v.childNamed? s name = some w ↔ LastNamed s name v.children w :=
  find?_reverse_eq_some_iff

mutual

/-- A value comes before its children in the search as it comes after them in the order of
completion. -/
theorem findNamed?_eq (s : Schema) (name : String) :
    ∀ v : Value, v.findNamed? s name = v.completions.reverse.find? (hasName s name)
  | ⟨element, offset, len, order, payload, children⟩ => by
    rw [findNamed?, completions, List.reverse_append, List.reverse_singleton,
      List.singleton_append, List.find?_cons, findNamedIn?_eq s name children]
    cases hasName s name ⟨element, offset, len, order, payload, children⟩ <;> rfl

theorem findNamedIn?_eq (s : Schema) (name : String) :
    ∀ vs : List Value, findNamedIn? s name vs = (completionsIn vs).reverse.find? (hasName s name)
  | [] => rfl
  | v :: rest => by
    rw [findNamedIn?, completionsIn, List.reverse_append, List.find?_append,
      findNamed?_eq s name v, findNamedIn?_eq s name rest]

end

/-- A container is completed after its children. -/
theorem completions_eq (v : Value) : v.completions = completionsIn v.children ++ [v] := by
  cases v
  rfl

end Value

namespace Context

open Value (LastNamed completionsIn)

variable {c : Context} {s : Schema} {name first : String} {rest : List String} {v w : Value}

/-- No value at the top of a frame has the name. -/
def Without (s : Schema) (name : String) (f : Frame) : Prop :=
  ∀ w ∈ f.children, w.name s ≠ .ok name

/-- The value that a name means: in the innermost frame with a value so named at its top the last
of these, and without such a frame the value so named that was completed last. -/
inductive Means (c : Context) (name : String) (v : Value) : Prop where
  | sibling {inner f outer} (split : c.frames = inner ++ f :: outer)
      (skipped : ∀ g ∈ inner, Without c.schema name g)
      (last : LastNamed c.schema name f.children v)
  | descendant (without : ∀ f ∈ c.frames, Without c.schema name f)
      (last : LastNamed c.schema name c.completions v)

theorem sibling?_eq_some_iff :
    c.sibling? name = some v ↔ ∃ inner f outer, c.frames = inner ++ f :: outer ∧
      (∀ g ∈ inner, Without c.schema name g) ∧ LastNamed c.schema name f.children v := by
  have top (f : Frame) : f.completed = f.children.reverse := (List.reverse_reverse _).symm
  simp only [sibling?, List.findSome?_eq_some_iff, top, Value.find?_reverse_eq_some_iff,
    Value.find?_reverse_eq_none_iff, Without]
  constructor
  · rintro ⟨inner, f, outer, split, last, skipped⟩
    exact ⟨inner, f, outer, split, skipped, last⟩
  · rintro ⟨inner, f, outer, split, skipped, last⟩
    exact ⟨inner, f, outer, split, last, skipped⟩

theorem sibling?_eq_none_iff :
    c.sibling? name = none ↔ ∀ f ∈ c.frames, Without c.schema name f := by
  have top (f : Frame) : f.completed = f.children.reverse := (List.reverse_reverse _).symm
  simp only [sibling?, List.findSome?_eq_none_iff, top, Value.find?_reverse_eq_none_iff, Without]

/-- The search below the tops of the frames goes back in the order of completion. -/
theorem descendant?_eq :
    c.descendant? name = c.completions.reverse.find? (Value.hasName c.schema name) := by
  rw [descendant?, findSome?_frames, completions]
  induction c.trees with
  | nil => rfl
  | cons t rest inductionHypothesis =>
    rw [List.findSome?_cons, inductionHypothesis, List.reverse_cons, Value.completionsIn_append,
      List.reverse_append, List.find?_append, Value.findNamed?_eq, completionsIn, completionsIn,
      List.append_nil]
    cases t.completions.reverse.find? (Value.hasName c.schema name) <;> rfl

/-- What is at the top of a frame is among the values that were completed. -/
theorem mem_completions {f : Frame} (isOpen : f ∈ c.frames) (member : v ∈ f.children) :
    v ∈ c.completions := by
  have tree : v ∈ c.trees.reverse := List.mem_reverse.mpr
    (List.mem_flatMap.mpr ⟨f, isOpen, List.mem_reverse.mp member⟩)
  obtain ⟨before, after, split⟩ := List.append_of_mem tree
  rw [completions, split, Value.completionsIn_append, completionsIn, v.completions_eq]
  simp

theorem lookup_first_eq :
    c.lookup [first] = (c.sibling? first).or (c.descendant? first) := by
  rw [lookup]
  cases (c.sibling? first).or (c.descendant? first) <;> rfl

theorem lookup_first_eq_some_iff : c.lookup [name] = some v ↔ c.Means name v := by
  rw [lookup_first_eq, Option.or_eq_some_iff, sibling?_eq_some_iff, sibling?_eq_none_iff,
    descendant?_eq, Value.find?_reverse_eq_some_iff]
  constructor
  · rintro (⟨inner, f, outer, split, skipped, last⟩ | ⟨without, last⟩)
    · exact .sibling split skipped last
    · exact .descendant without last
  · rintro (⟨split, skipped, last⟩ | ⟨without, last⟩)
    · exact .inl ⟨_, _, _, split, skipped, last⟩
    · exact .inr ⟨without, last⟩

theorem lookup_first_eq_none_iff :
    c.lookup [name] = none ↔ ∀ w ∈ c.completions, w.name c.schema ≠ .ok name := by
  rw [lookup_first_eq, Option.or_eq_none_iff, sibling?_eq_none_iff, descendant?_eq,
    Value.find?_reverse_eq_none_iff]
  refine ⟨fun missing => missing.2, fun missing => ⟨fun f isOpen w member => ?_, missing⟩⟩
  exact missing w (mem_completions isOpen member)

/-- A longer path goes on from the value of the shorter one. -/
theorem lookup_concat :
    c.lookup (first :: rest ++ [name]) =
      (c.lookup (first :: rest)).bind (·.childNamed? c.schema name) := by
  rw [List.cons_append, lookup, lookup]
  cases (c.sibling? first).or (c.descendant? first) with
  | none => rfl
  | some v => simp [List.foldlM_append]

theorem lookup_concat_eq_some_iff :
    c.lookup (first :: rest ++ [name]) = some v ↔
      ∃ w, c.lookup (first :: rest) = some w ∧ LastNamed c.schema name w.children v := by
  rw [lookup_concat, Option.bind_eq_some_iff]
  simp only [Value.childNamed?_eq_some_iff]

/-! ## The order of completion over the frames -/

/-- The values of an inner frame are completed after those of the frames around it. -/
theorem completions_enter (p : Place) (f : Frame) :
    ((p.enter f).context s).completions =
      (p.context s).completions ++ completionsIn f.children := by
  have trees : ((p.enter f).context s).trees = f.completed ++ (p.context s).trees := by
    simp [Context.trees, Place.context, Place.enter]
  rw [completions, trees, List.reverse_append, Value.completionsIn_append]
  rfl

/-- One more value comes behind all values before it, and behind what is inside it. -/
theorem completions_complete (p : Place) (v : Value) :
    ((p.complete v).context s).completions =
      (p.context s).completions ++ completionsIn v.children ++ [v] := by
  have trees : ((p.complete v).context s).trees = v :: (p.context s).trees := rfl
  rw [completions, trees, List.reverse_cons, Value.completionsIn_append, completionsIn,
    completionsIn, List.append_nil, v.completions_eq, List.append_assoc]
  rfl

/-- A name means its most recent value and is missing only where no value has it. A longer path goes
on from the one value that the shorter path leads to, with its last child of the next name. The
order of completion is that of a decode: a frame opens without values, and a container is completed
behind the values of the frame that it leaves. -/
theorem most_recent_named (c : Context) (first : String) (rest : List String) (name : String)
    (v : Value) :
    (c.lookup [name] = some v ↔ c.Means name v) ∧
    (c.lookup [name] = none ↔ ∀ w ∈ c.completions, w.name c.schema ≠ .ok name) ∧
    (c.lookup (first :: rest ++ [name]) = some v ↔
      ∃ w, c.lookup (first :: rest) = some w ∧ LastNamed c.schema name w.children v) ∧
    ∀ (p : Place) (f : Frame) (s : Schema),
      (f.completed = [] → ((p.enter f).context s).completions = (p.context s).completions) ∧
      (v.children = f.children →
        ((p.complete v).context s).completions = ((p.enter f).context s).completions ++ [v]) := by
  refine ⟨lookup_first_eq_some_iff, lookup_first_eq_none_iff, lookup_concat_eq_some_iff,
    fun p f s => ⟨fun fresh => ?_, fun own => ?_⟩⟩
  · rw [completions_enter, Frame.children, fresh]
    exact List.append_nil _
  · rw [completions_complete, completions_enter, own]

/-- A header with a count, and a count of its own beside it. -/
def counted : Schema where
  elements := #[
    ⟨{ name := some "g" }, .grammar {}⟩,
    ⟨{ name := some "header" }, .structure { children := [⟨2⟩] }⟩,
    ⟨{ name := some "count" }, .number { extent := { length := some (.literal 4) } }⟩]
  root := ⟨0⟩

def countedNumber (offset value : Nat) : Value :=
  ⟨⟨2⟩, offset, 4, some .little, .number (.unsigned (.ofNat value)) none [] none, []⟩

def countedHeader : Value := ⟨⟨1⟩, 0, 4, none, .none, [countedNumber 0 2]⟩

/-- The frame of the header before it is completed, and that of the grammar. -/
def countedFrame : Frame := ⟨⟨1⟩, none, 0, 64, [countedNumber 0 2], false⟩

def countedPlace : Place := Decoder.startPlace ⟨0⟩ 0 64

/-- Two counts in a structure behind the completed header. -/
def countedInside : Place :=
  (countedPlace.complete countedHeader).enter
    ⟨⟨1⟩, none, 4, 64, [countedNumber 8 5, countedNumber 4 3], false⟩

theorem countedNumber_name (offset value : Nat) :
    (countedNumber offset value).name counted = .ok "count" := by
  cbv

theorem countedHeader_name : countedHeader.name counted = .ok "header" := by
  cbv

theorem most_recent_named_count :
    (countedInside.context counted).lookup ["count"] = some (countedNumber 8 5) ∧
      (countedInside.context counted).lookup ["header", "count"] = some (countedNumber 0 2) ∧
      (countedInside.context counted).lookup ["g"] = none ∧
      ((countedPlace.complete countedHeader).context counted).completions =
        [countedNumber 0 2, countedHeader] := by
  let c := countedInside.context counted
  have inner : Without counted "header" countedInside.inner := by
    intro w member
    have known : w ∈ [countedNumber 4 3, countedNumber 8 5] := member
    simp only [List.mem_cons, List.not_mem_nil, or_false] at known
    obtain rfl | rfl := known <;> simp [countedNumber_name]
  have nowhere : ∀ w ∈ c.completions, w.name counted ≠ .ok "g" := by
    intro w member
    have known : w ∈ [countedNumber 0 2, countedHeader, countedNumber 4 3, countedNumber 8 5] :=
      member
    simp only [List.mem_cons, List.not_mem_nil, or_false] at known
    obtain rfl | rfl | rfl | rfl := known <;> simp [countedNumber_name, countedHeader_name]
  let top := (countedPlace.complete countedHeader).inner
  have innermost : c.frames = [] ++ countedInside.inner :: [top] := rfl
  have outermost : c.frames = [countedInside.inner] ++ top :: [] := rfl
  have count := (most_recent_named c "count" [] "count" (countedNumber 8 5)).1.mpr
    (.sibling innermost (List.forall_mem_nil _)
      ⟨countedNumber_name 8 5, [countedNumber 4 3], [], rfl, by simp⟩)
  have header := (most_recent_named c "header" [] "header" countedHeader).1.mpr
    (.sibling outermost (fun g member => List.mem_singleton.mp member ▸ inner)
      ⟨countedHeader_name, [], [], rfl, by simp⟩)
  have inHeader := (most_recent_named c "header" [] "count" (countedNumber 0 2)).2.2.1.mpr
    ⟨countedHeader, header, countedNumber_name 0 2, [], [], rfl, by simp⟩
  have missing := (most_recent_named c "g" [] "g" countedHeader).2.1.mpr nowhere
  have closed := ((most_recent_named c "" [] "" countedHeader).2.2.2 countedPlace countedFrame
    counted).2 rfl
  exact ⟨count, inHeader, missing, closed⟩

end Context

end BinaryTemplate
