import SourcePages.Glob.Reading

/-!
What patterns are matched by. They are compiled before, each on its own or many in a set, and that
may go beyond what the engine can do although all of them are well-formed.
-/

namespace SourcePages

def dependencyDirectories : List String :=
  ["node_modules", ".git", "dist", "build", "target"]

def dependencyPatterns : List String :=
  dependencyDirectories.map fun name => "**/" ++ name ++ "/**"

namespace Glob

/-- An engine has limits of its own, on how deep groups are nested and how much a set amounts to. The
empty set and that of dependencies are within the limits of all engines. -/
class Engine where
  takesAlone : Pattern → Bool
  objection? : List Pattern → Option String
  takesNone : objection? [] = none
  takesDependencies : ∀ patterns, dependencyPatterns.mapM (read false) = .ok patterns →
    objection? patterns = none

/-- The engine without limits, where no other one is given. -/
instance (priority := low) Engine.boundless : Engine where
  takesAlone _ := true
  objection? _ := none
  takesNone := rfl
  takesDependencies _ _ := rfl

def readAlone [Engine] (text : String) : Except Refusal Pattern := do
  let pattern ← read false text
  if Engine.takesAlone pattern then return pattern else throw .abort

def together [Engine] (patterns : List Pattern) : Except Refusal Unit :=
  match Engine.objection? patterns with
  | none => .ok ()
  | some cause => .error (.limit cause)

theorem readAlone_ok_iff [Engine] {text : String} {p : Pattern} :
    readAlone text = .ok p ↔ read false text = .ok p ∧ Engine.takesAlone p = true := by
  rw [readAlone]
  cases read false text with
  | error e => exact ⟨nofun, nofun⟩
  | ok q =>
    change (if Engine.takesAlone q then Except.ok q else .error Refusal.abort) = .ok p ↔ _
    split
    · rename_i taken
      exact ⟨fun same => ⟨same, Except.ok.inj same ▸ taken⟩, And.left⟩
    · rename_i left
      exact ⟨nofun, fun ⟨same, taken⟩ => absurd (Except.ok.inj same ▸ taken) left⟩

theorem together_ok_iff [Engine] {patterns : List Pattern} :
    together patterns = .ok () ↔ Engine.objection? patterns = none := by
  unfold together
  split <;> simp_all

end Glob

end SourcePages
