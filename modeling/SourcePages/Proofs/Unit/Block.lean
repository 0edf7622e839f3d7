import SourcePages.Unit.Segment

namespace SourcePages

theorem split_at_first {α : Type} {test : α → Prop} {before other : List α} {last final : α}
    {rest tail : List α} (absent : ∀ a ∈ before, ¬ test a) (absentOther : ∀ a ∈ other, ¬ test a)
    (found : test last) (foundOther : test final)
    (same : before ++ last :: rest = other ++ final :: tail) :
    before = other ∧ last = final ∧ rest = tail := by
  induction before generalizing other with
  | nil =>
    cases other with
    | nil => exact ⟨rfl, List.cons.inj same⟩
    | cons a other =>
      obtain ⟨rfl, -⟩ := List.cons.inj same
      exact absurd found (absentOther _ List.mem_cons_self)
  | cons a before ih =>
    cases other with
    | nil =>
      obtain ⟨rfl, -⟩ := List.cons.inj same
      exact absurd foundOther (absent _ List.mem_cons_self)
    | cons b other =>
      obtain ⟨rfl, further⟩ := List.cons.inj same
      have later := ih (fun c member => absent c (List.mem_cons_of_mem _ member))
        (fun c member => absentOther c (List.mem_cons_of_mem _ member)) further
      exact ⟨by rw [later.1], later.2⟩

namespace Content

def opened? (line : String) : Option Content :=
  if opensDoc line then some .comment
  else if opensType line then some (.declaration .type)
  else if opensFunction line then some (.declaration .function)
  else none

theorem opens_of_opened {content : Content} {line : String} (h : opened? line = some content) :
    content.opens line := by
  unfold opened? at h
  split at h
  · cases h
    assumption
  · split at h
    · cases h
      assumption
    · split at h
      · cases h
        assumption
      · cases h

theorem not_opens_of_not_opened {line : String} (h : opened? line = none) (content : Content) :
    ¬ content.opens line := by
  unfold opened? at h
  split at h
  · cases h
  · split at h
    · cases h
    · split at h
      · cases h
      · rcases content with _ | ⟨_ | _⟩ <;> assumption

theorem searched_append (content : Content) {lines : List String} (filled : lines ≠ [])
    (more : List String) : content.searched (lines ++ more) = content.searched lines ++ more := by
  cases content with
  | comment => exact List.tail_append_of_ne_nil filled
  | declaration kind => rfl

theorem not_opens_empty (content : Content) : ¬ content.opens "" := by
  rcases content with _ | ⟨_ | _⟩ <;> decide

end Content

namespace Block

theorem Begins.ne_nil {b : Block} (h : b.Begins) : b.lines ≠ [] := by
  obtain ⟨first, rest, lines, -⟩ := h
  simp [lines]

theorem Begins.content_eq {a b : Block} (ha : a.Begins) (hb : b.Begins) {r s : List String}
    (same : a.lines ++ r = b.lines ++ s) : a.content = b.content := by
  obtain ⟨first, rest, lines, opens⟩ := ha
  obtain ⟨head, tail, otherLines, otherOpens⟩ := hb
  rw [lines, otherLines] at same
  obtain ⟨rfl, -⟩ := List.cons.inj same
  exact Content.opens_unique opens otherOpens

theorem eq_of_lines_eq {a b : Block} (ha : a.Begins) (hb : b.Begins)
    (same : a.lines = b.lines) : a = b := by
  have content : a.content = b.content := ha.content_eq hb (r := []) (s := []) (by rw [same])
  cases a
  cases b
  subst content same
  rfl

theorem Closed.eq_of_append_eq {a b : Block} (ha : a.Closed) (hb : b.Closed) {r s : List String}
    (same : a.lines ++ r = b.lines ++ s) : a = b ∧ r = s := by
  obtain ⟨begins, before, last, searched, closes, none⟩ := ha
  obtain ⟨otherBegins, other, final, otherSearched, otherCloses, otherNone⟩ := hb
  have content := begins.content_eq otherBegins same
  rw [← content] at otherSearched otherCloses otherNone
  have further : before ++ last :: r = other ++ final :: s := by
    have both := congrArg a.content.searched same
    rw [Content.searched_append _ begins.ne_nil, Content.searched_append _ otherBegins.ne_nil,
      searched, otherSearched] at both
    simpa using both
  obtain ⟨rfl, rfl, rfl⟩ := split_at_first none otherNone closes otherCloses further
  exact ⟨eq_of_lines_eq begins otherBegins (List.append_cancel_right same), rfl⟩

theorem Unclosed.ne_append {a b : Block} (ha : a.Closed) (hb : b.Unclosed) (r : List String) :
    b.lines ≠ a.lines ++ r := by
  intro same
  obtain ⟨begins, before, last, searched, closes, -⟩ := ha
  have content := hb.1.content_eq begins (r := []) (by rw [List.append_nil, same])
  apply hb.2 last
  · rw [content, same, Content.searched_append _ begins.ne_nil, searched]
    simp
  · rw [content]
    exact closes

def ends (b : Block) : Bool :=
  match (b.content.searched b.lines).getLast? with
  | some last => b.content.closes last
  | none => false

def add (b : Block) (line : String) : Block := ⟨b.content, b.lines ++ [line]⟩

theorem Begins.add {b : Block} (h : b.Begins) (line : String) : (b.add line).Begins := by
  obtain ⟨first, rest, lines, opens⟩ := h
  exact ⟨first, rest ++ [line], by simp [Block.add, lines], opens⟩

theorem ends_add {b : Block} (h : b.Begins) (line : String) :
    (b.add line).ends = b.content.closes line := by
  simp [ends, add, Content.searched_append _ h.ne_nil]

theorem Unclosed.add {b : Block} (h : b.Unclosed) {line : String}
    (goes : b.content.closes line = false) : (b.add line).Unclosed := by
  refine ⟨h.1.add line, fun other member => ?_⟩
  rw [Block.add, Content.searched_append _ h.1.ne_nil] at member
  rcases List.mem_append.mp member with member | member
  · exact h.2 other member
  · rw [List.mem_singleton.mp member]
    simp [Block.add, goes]

theorem Unclosed.close {b : Block} (h : b.Unclosed) {line : String}
    (closes : b.content.closes line = true) : (b.add line).Closed := by
  refine ⟨h.1.add line, b.content.searched b.lines, line, ?_, closes, h.2⟩
  exact Content.searched_append _ h.1.ne_nil _

def start (content : Content) (line : String) : Block := ⟨content, [line]⟩

theorem begins_start {content : Content} {line : String} (h : content.opens line) :
    (start content line).Begins := ⟨line, [], rfl, h⟩

theorem closed_start {content : Content} {line : String} (h : content.opens line)
    (ends : (start content line).ends = true) : (start content line).Closed := by
  refine ⟨begins_start h, [], line, ?_⟩
  cases content with
  | comment => cases ends
  | declaration kind => exact ⟨rfl, ends, by simp⟩

theorem unclosed_start {content : Content} {line : String} (h : content.opens line)
    (goes : (start content line).ends = false) : (start content line).Unclosed := by
  refine ⟨begins_start h, fun other member => ?_⟩
  cases content with
  | comment => cases member
  | declaration kind =>
    rw [List.mem_singleton.mp member]
    exact Bool.not_eq_true _ |>.mpr goes

end Block

end SourcePages
