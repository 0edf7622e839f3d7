namespace SourcePages

inductive Kind where
  | type
  | function
  deriving DecidableEq, Repr

/-- Line numbers from the first line of a signature to its last, both counted from zero. -/
structure Span where
  start : Nat
  stop : Nat
  deriving DecidableEq, Repr

structure ExportedUnit where
  kind : Kind
  signature : List String
  docs : List String
  span : Span
  deriving DecidableEq, Repr

def ExportedUnit.firstLine (u : ExportedUnit) : String :=
  u.signature.headD ""

def countKind (kind : Kind) (units : List ExportedUnit) : Nat :=
  (units.filter (·.kind = kind)).length

theorem countKind_add (units : List ExportedUnit) :
    countKind .type units + countKind .function units = units.length := by
  induction units with
  | nil => rfl
  | cons u rest ih =>
    cases h : u.kind <;> simp [countKind, h] at ih ⊢ <;> omega

end SourcePages
