import SourcePages.FileTree.Seen
import SourcePages.Proofs.Path.Steps

namespace SourcePages

namespace Path

theorem filter_idle {segments : List (List Char)} (idle : ∀ segment ∈ segments, isIdle segment) :
    segments.filter (!isIdle ·) = [] := by
  apply List.filter_eq_nil_iff.mpr
  intro segment member
  simp [idle segment member]

theorem exists_last_segment {p : Path} {names : List String} {last : String}
    (steps : p.steps = names ++ [last]) :
    ∃ before dropped, p.body = before ++ last.toList :: dropped ∧
      dropEndWhile isIdle p.body = before ++ [last.toList] ∧
      (before.filter (!isIdle ·)).map String.ofList = names := by
  obtain ⟨dropped, parts, idle, ends⟩ := dropEndWhile_cases isIdle p.body
  rw [steps_eq, parts, List.filter_append, filter_idle idle, List.append_nil] at steps
  rcases ends with nothing | ⟨before, segment, kept, named⟩
  · rw [nothing] at steps
    simp at steps
  · rw [kept, List.filter_append, List.map_append] at steps
    have single : [segment].filter (!isIdle ·) = [segment] := by simp [named]
    rw [single] at steps
    obtain ⟨others, same⟩ := List.append_inj' steps rfl
    have spelled : segment = last.toList := by
      rw [← ofList_eq_iff]
      exact (List.cons.inj same).1
    subst spelled
    refine ⟨before, dropped, ?_, kept, others⟩
    rw [parts, kept]
    simp

theorem endsIn_of_body {q : Path} {before : List (List Char)} {name : String}
    (body : q.body = before ++ [name.toList]) (named : isIdle name.toList = false) :
    q.EndsIn name := by
  rcases q.split_text with ⟨pieces, -⟩ | ⟨pieces, -⟩ | ⟨more, begins, pieces, -⟩
  · exact ⟨before, pieces.trans body⟩
  · exact ⟨[] :: before, by rw [pieces, body, List.cons_append]⟩
  · rw [body] at begins
    cases before with
    | nil =>
      rw [(List.cons.inj begins).1] at named
      cases named
    | cons piece others =>
      refine ⟨['.'] :: others, ?_⟩
      rw [pieces, ← (List.cons.inj begins).2]
      rfl

theorem exists_parent {p : Path} {names : List String} {last : String}
    (steps : p.steps = names ++ [last]) :
    ∃ q, p.parent? = some q ∧ q.anchor = p.anchor ∧ q.steps = names ∧
      ∀ before name, names = before ++ [name] → q.EndsIn name := by
  obtain ⟨before, dropped, body, kept, names_eq⟩ := exists_last_segment steps
  obtain ⟨idleTail, parts, idle, ends⟩ := dropEndWhile_cases isIdle before
  have whole : p.body = dropEndWhile isIdle before ++ (idleTail ++ last.toList :: dropped) := by
    rw [body, ← List.append_assoc, ← parts]
  obtain ⟨anchor, cut⟩ := withBody_spec whole ends
  have stepsCut : (p.withBody (dropEndWhile isIdle before)).steps = names := by
    have filtered : (p.withBody (dropEndWhile isIdle before)).body.filter (!isIdle ·) =
        before.filter (!isIdle ·) := by
      conv => rhs; rw [parts, List.filter_append, filter_idle idle, List.append_nil]
      rcases cut with same | ⟨nothing, same⟩
      · rw [same]
      · rw [same, nothing]
        rfl
    rw [steps_eq, filtered, names_eq]
  refine ⟨_, ?_, anchor, stepsCut, ?_⟩
  · rw [parent?, kept]
    simp
  · intro front name split
    rcases ends with nothing | ⟨others, segment, filled, named⟩
    · rw [parts, nothing, List.nil_append, filter_idle idle] at names_eq
      rw [← names_eq] at split
      simp at split
    · have lastName : segment = name.toList := by
        rw [parts, filled, List.filter_append, filter_idle idle, List.append_nil,
          List.filter_append] at names_eq
        have single : [segment].filter (!isIdle ·) = [segment] := by simp [named]
        rw [single, List.map_append, split] at names_eq
        rw [← ofList_eq_iff]
        exact (List.cons.inj (List.append_inj' names_eq rfl).2).1
      subst lastName
      rcases cut with same | ⟨nothing, -⟩
      · exact endsIn_of_body (same.trans filled) named
      · rw [nothing] at filled
        simp at filled

theorem join_of_empty {p : Path} (empty : p.text = "") (q : Path) : p.join q = q := by
  unfold join
  split
  · rfl
  · simp [empty]

theorem text_join {p q : Path} (filled : p.text ≠ "") (relative : q.isAbsolute = false) :
    ∃ front, (p.join q).text.toList = front ++ '/' :: q.text.toList ∧
      (p.text.toList = front ∨ p.text.toList = front ++ ['/']) := by
  unfold join
  rw [if_neg (by simp [relative])]
  split
  · rename_i ends
    simp only [Bool.or_eq_true, decide_eq_true_eq] at ends
    have last := ends.resolve_left filled
    obtain ⟨front, text⟩ := List.getLast?_eq_some_iff.mp last
    exact ⟨front, by simp [text], .inr text⟩
  · exact ⟨p.text.toList, by simp, .inl rfl⟩

theorem split_join_text {p q : Path} (filled : p.text ≠ "") (relative : q.isAbsolute = false) :
    ∃ front, Text.split '/' (p.join q).text.toList = front ++ Text.split '/' q.text.toList ∧
      front.filter (!isIdle ·) = (Text.split '/' p.text.toList).filter (!isIdle ·) := by
  obtain ⟨front, joined, text⟩ := text_join filled relative
  refine ⟨Text.split '/' front, by rw [joined, Text.split_append_separator], ?_⟩
  rcases text with text | text
  · rw [text]
  · have slash : Text.split '/' (front ++ ['/']) = Text.split '/' front ++ [[]] :=
      Text.split_append_separator '/' front []
    rw [text, slash, List.filter_append]
    simp [isIdle]

theorem steps_join {p q : Path} (filled : p.text ≠ "") (relative : q.isAbsolute = false) :
    (p.join q).steps = p.steps ++ q.steps := by
  obtain ⟨front, joined, same⟩ := split_join_text filled relative
  rw [steps_eq_segments, steps_eq_segments, steps_eq_segments, joined, List.filter_append,
    List.map_append, same]

theorem anchor_of_slash {p q : Path} {front rest : List Char} (filled : front ≠ [])
    (slashed : p.text.toList = front ++ '/' :: rest) (text : q.text.toList = front) :
    p.anchor = q.anchor := by
  rcases front with _ | ⟨c, _ | ⟨d, more⟩⟩
  · exact absurd rfl filled
  · by_cases slash : c = '/'
    · simp [anchor, slashed, text, slash]
    · by_cases dot : c = '.' <;> simp [anchor, slashed, text, slash, dot]
  · by_cases slash : c = '/'
    · simp [anchor, slashed, text, slash]
    · by_cases dot : c = '.'
      · by_cases next : d = '/' <;> simp [anchor, slashed, text, dot, next]
      · simp [anchor, slashed, text, slash, dot]

theorem anchor_join {p q : Path} (filled : p.text ≠ "") (relative : q.isAbsolute = false) :
    (p.join q).anchor = p.anchor := by
  obtain ⟨front, joined, text⟩ := text_join filled relative
  rcases text with text | text
  · exact anchor_of_slash (by simpa [← text] using filled) joined text
  · cases front with
    | nil => simp [anchor, joined, text]
    | cons c more =>
      have cut : (⟨String.ofList (c :: more)⟩ : Path).text.toList = c :: more :=
        String.toList_ofList
      rw [anchor_of_slash (List.cons_ne_nil _ _) joined cut,
        anchor_of_slash (List.cons_ne_nil _ _) text cut]

theorem isAbsolute_eq (p : Path) : p.isAbsolute = decide (p.anchor = ['/']) := by
  rcases p.anchor_cases with ⟨rest, text, anchor⟩ | ⟨text, anchor⟩ | ⟨rest, text, anchor⟩ |
    ⟨anchor, named⟩
  · simp [isAbsolute, text, anchor]
  · simp [isAbsolute, text, anchor]
  · simp [isAbsolute, text, anchor]
  · rcases named with empty | ⟨first, rest, pieces, idle⟩
    · simp [isAbsolute, empty, anchor]
    · cases text : p.text.toList with
      | nil => simp [isAbsolute, text, anchor]
      | cons c more =>
        have noSlash : c ≠ '/' := by
          rintro rfl
          rw [text, Text.split, if_pos rfl] at pieces
          rw [← (List.cons.inj pieces).1] at idle
          cases idle
        simp [isAbsolute, text, anchor, noSlash]

theorem join_plain {p q : Path} (plain : q.anchor = []) :
    (p.join q).anchor = p.anchor ∧ (p.join q).steps = p.steps ++ q.steps := by
  have relative : q.isAbsolute = false := by
    rw [isAbsolute_eq, plain]
    rfl
  by_cases filled : p.text = ""
  · have nothing : p.anchor = [] ∧ p.steps = [] := by
      rw [steps_eq_segments]
      simp [anchor, filled, Text.split, isIdle]
    rw [join_of_empty filled, nothing.1, nothing.2]
    exact ⟨plain, rfl⟩
  · exact ⟨anchor_join filled relative, steps_join filled relative⟩

theorem fileName?_of_steps {p : Path} {names : List String} {last : String}
    (steps : p.steps = names ++ [last]) :
    p.fileName? = if last = ".." then none else some last := by
  unfold fileName?
  rw [components_eq, steps, List.map_append, ← List.append_assoc, List.map_singleton,
    List.getLast?_concat, stepComponent]
  by_cases up : last = ".."
  · rw [if_pos up, if_pos up]
  · rw [if_neg up, if_neg up]

theorem stepComponent_injective (a b : String) (same : stepComponent a = stepComponent b) : a = b := by
  unfold stepComponent at same
  split at same
  · rename_i up
    split at same
    · rename_i alsoUp
      rw [up, alsoUp]
    · cases same
  · split at same
    · cases same
    · exact Component.normal.inj same

def anchorOf : Option Component → List Char
  | some .root => ['/']
  | some .current => ['.']
  | _ => []

theorem anchor_eq_components (p : Path) : p.anchor = anchorOf p.components.head? := by
  rw [components_eq]
  rcases p.split_text with ⟨-, anchor⟩ | ⟨-, anchor⟩ | ⟨more, -, -, anchor⟩
  · cases p.steps with
    | nil => simp [anchorComponents, anchor, anchorOf]
    | cons name rest =>
      by_cases up : name = ".." <;> simp [anchorComponents, anchor, anchorOf, stepComponent, up]
  · simp [anchorComponents, anchor, anchorOf]
  · simp [anchorComponents, anchor, anchorOf]

theorem same_iff {p q : Path} : p.same q = true ↔ p.components = q.components := beq_iff_eq

theorem same_iff_steps {p q : Path} : p.same q = true ↔ p.anchor = q.anchor ∧ p.steps = q.steps := by
  rw [same_iff]
  constructor
  · intro components
    have anchor : p.anchor = q.anchor := by
      rw [anchor_eq_components, anchor_eq_components, components]
    rw [components_eq, components_eq, anchorComponents, anchorComponents, anchor] at components
    exact ⟨anchor, (List.map_inj_right stepComponent_injective).mp
      (List.append_cancel_left components)⟩
  · rintro ⟨anchor, steps⟩
    rw [components_eq, components_eq, anchorComponents, anchorComponents, anchor, steps]

theorem components_prefix_iff {p q : Path} (same : p.anchor = q.anchor) :
    p.components <+: q.components ↔ p.steps <+: q.steps := by
  rw [components_eq, components_eq, anchorComponents, anchorComponents, same,
    List.prefix_append_right_inj, List.prefix_map_iff]
  constructor
  · rintro ⟨names, inside, equal⟩
    rwa [(List.map_inj_right stepComponent_injective).mp equal]
  · exact fun inside => ⟨_, inside, rfl⟩

theorem EndsIn.join {p q : Path} {name : String} (filled : p.text ≠ "")
    (relative : q.isAbsolute = false) (h : q.EndsIn name) : (p.join q).EndsIn name := by
  obtain ⟨front, joined, -⟩ := split_join_text filled relative
  obtain ⟨before, pieces⟩ := h
  exact ⟨front ++ before, by rw [joined, pieces, List.append_assoc]⟩

end Path

instance (name : String) : Decidable (IsName name) :=
  inferInstanceAs (Decidable (name ≠ "" ∧ name ≠ "." ∧ name ≠ ".." ∧ '/' ∉ name.toList))

theorem IsName.named {name : String} (h : IsName name) : Path.isIdle name.toList = false := by
  apply Bool.eq_false_iff.mpr
  intro idle
  rcases Path.isIdle_iff.mp idle with empty | dot
  · exact h.1 (String.toList_inj.mp empty)
  · exact h.2.1 (String.toList_inj.mp (dot.trans (by decide)))

theorem IsName.not_up {name : String} (h : IsName name) : name ≠ ".." := h.2.2.1

theorem Path.name_of_mem_steps {p : Path} {name : String} (member : name ∈ p.steps)
    (notUp : name ≠ "..") : IsName name := by
  have dot : ".".toList = ['.'] := by decide
  rw [Path.steps_eq_segments] at member
  obtain ⟨segment, inside, rfl⟩ := List.mem_map.mp member
  obtain ⟨piece, named⟩ := List.mem_filter.mp inside
  refine ⟨?_, ?_, notUp, ?_⟩
  · intro empty
    rw [Path.ofList_eq_iff.mp empty] at named
    cases named
  · intro same
    rw [Path.ofList_eq_iff.mp same, dot] at named
    cases named
  · rw [String.toList_ofList]
    exact Text.not_mem_of_mem_split piece

theorem toList_joinWith_slash (names : List String) :
    (Text.joinWith "/" names).toList = Text.join ['/'] (names.map String.toList) :=
  String.toList_ofList

theorem anchor_path (location : Location) : location.path.anchor = ['/'] := by
  have text : location.path.text.toList = '/' :: Text.join ['/'] (location.map String.toList) :=
    String.toList_ofList
  simp [Path.anchor, text]

section

variable {names : List String} (proper : ∀ name ∈ names, IsName name)

include proper

theorem filter_names : (names.map String.toList).filter (!Path.isIdle ·) = names.map String.toList := by
  apply List.filter_eq_self.mpr
  intro piece member
  obtain ⟨name, inside, rfl⟩ := List.mem_map.mp member
  simp [(proper name inside).named]

theorem split_names (filled : names ≠ []) :
    Text.split '/' (Text.join ['/'] (names.map String.toList)) = names.map String.toList := by
  apply Path.split_join_of_plain
  · intro piece member
    obtain ⟨name, inside, rfl⟩ := List.mem_map.mp member
    exact (proper name inside).2.2.2
  · simpa using filled

theorem steps_path : (Location.path names).steps = names := by
  rw [Path.steps_eq_segments]
  by_cases empty : names = []
  · subst empty
    decide
  · have text : (Location.path names).text.toList = '/' :: Text.join ['/'] (names.map String.toList) :=
      String.toList_ofList
    have slash : ([] : List Char) :: names.map String.toList = [[]] ++ names.map String.toList := rfl
    rw [text, Text.split, if_pos rfl, split_names proper empty, slash, List.filter_append,
      filter_names proper]
    simp [Path.isIdle]

theorem steps_joined (filled : names ≠ []) :
    (⟨Text.joinWith "/" names⟩ : Path).steps = names := by
  rw [Path.steps_eq_segments]
  simp only [toList_joinWith_slash]
  rw [split_names proper filled, filter_names proper]
  simp

theorem anchor_names (filled : names ≠ []) : (⟨Text.joinWith "/" names⟩ : Path).anchor = [] := by
  obtain ⟨name, rest, rfl⟩ := List.exists_cons_of_ne_nil filled
  have pieces := split_names proper filled
  rw [← toList_joinWith_slash] at pieces
  exact (Path.anchor_of_named pieces (proper name List.mem_cons_self).named).1

theorem relative_joined (filled : names ≠ []) :
    (⟨Text.joinWith "/" names⟩ : Path).isAbsolute = false := by
  rw [Path.isAbsolute_eq, anchor_names proper filled]
  rfl

theorem endsIn_joined {before : List String} {last : String} (split : names = before ++ [last]) :
    (⟨Text.joinWith "/" names⟩ : Path).EndsIn last := by
  refine ⟨before.map String.toList, ?_⟩
  rw [toList_joinWith_slash, split_names proper (by simp [split]), split, List.map_append]
  rfl

end

theorem Location.path_injective {a b : Location} (left : ∀ name ∈ a, IsName name)
    (right : ∀ name ∈ b, IsName name) (same : a.path = b.path) : a = b := by
  rw [← steps_path left, ← steps_path right, same]

end SourcePages
