namespace SourcePages.Text

def split {α : Type} [DecidableEq α] (separator : α) : List α → List (List α)
  | [] => [[]]
  | a :: rest =>
    if a = separator then [] :: split separator rest
    else
      match split separator rest with
      | [] => [[a]]
      | piece :: pieces => (a :: piece) :: pieces

def join {α : Type} (separator : List α) : List (List α) → List α
  | [] => []
  | [piece] => piece
  | piece :: pieces => piece ++ separator ++ join separator pieces

theorem split_ne_nil {α : Type} [DecidableEq α] (separator : α) (s : List α) :
    split separator s ≠ [] := by
  cases s with
  | nil => simp [split]
  | cons a rest =>
    simp only [split]
    split
    · simp
    · split <;> simp

theorem join_split {α : Type} [DecidableEq α] (separator : α) (s : List α) :
    join [separator] (split separator s) = s := by
  induction s with
  | nil => rfl
  | cons a rest ih =>
    simp only [split]
    have filled := split_ne_nil separator rest
    revert ih filled
    cases split separator rest with
    | nil => simp
    | cons piece pieces =>
      intro ih _
      by_cases h : a = separator
      · simp [h, join, ih]
      · cases pieces <;> simp_all [join]

theorem split_append_separator {α : Type} [DecidableEq α] (separator : α) (a b : List α) :
    split separator (a ++ separator :: b) = split separator a ++ split separator b := by
  induction a with
  | nil => simp [split]
  | cons c rest ih =>
    by_cases h : c = separator
    · simp [split, h, ih]
    · have filled := split_ne_nil separator rest
      revert ih filled
      cases hr : split separator rest with
      | nil => simp
      | cons piece pieces => intro ih _; simp [split, h, ih, hr]

/-- The lines of a text: what stands between line feeds. Nothing else ends a line. -/
def lines (text : String) : List String :=
  (split '\n' text.toList).map String.ofList

def joinWith (separator : String) (texts : List String) : String :=
  String.ofList (join separator.toList (texts.map String.toList))

def segments (text : String) : List String :=
  (split '/' text.toList).map String.ofList

theorem joinWith_lines (text : String) : joinWith "\n" (lines text) = text := by
  have unwrap : (lines text).map String.toList = split '\n' text.toList := by
    simp [lines, Function.comp_def]
  rw [joinWith, unwrap]
  change String.ofList (join ['\n'] _) = text
  rw [join_split, String.ofList_toList]

theorem lines_append (a b : String) : lines (a ++ "\n" ++ b) = lines a ++ lines b := by
  simp [lines, split_append_separator]

end SourcePages.Text
