import SourcePages.Filter.Ignore
import SourcePages.Proofs.Glob.Reading
import SourcePages.Proofs.Outcome

namespace SourcePages

def belowName (name : String) : Glob.Pattern :=
  ⟨.leading :: name.toList.map .literal ++ [.trailing], false⟩

theorem segmentTokens_plain {segment : List Char} (single : '*' ∉ segment) :
    Glob.segmentTokens segment = segment.map .literal := by
  refine List.map_congr_left fun c member => if_neg ?_
  rintro rfl
  exact single member

theorem read_belowName {name : String} (starred : IsStarred name.toList)
    (single : '*' ∉ name.toList) :
    Glob.read false ("**/" ++ name ++ "/**") = .ok (belowName name) := by
  have spelled : ∀ segment ∈ [anySegments, name.toList, anySegments], Glob.IsSpelled segment := by
    simp [Glob.IsSpelled, starred]
  have text : ("**/" ++ name ++ "/**").toList =
      Text.join ['/'] [anySegments, name.toList, anySegments] := by
    simp [Text.join, anySegments]
  have other : name.toList ≠ anySegments := by
    intro same
    rw [same] at single
    exact single (by decide)
  rw [Glob.read, text, Glob.tokens_join false (by simp) spelled, Glob.tokensBehind_double,
    Glob.tokensBehind_segment true other, Glob.tokensBehind_double, segmentTokens_plain single]
  rfl

theorem read_dependencyPatterns : dependencyPatterns.mapM (Glob.read false) =
    .ok (dependencyDirectories.map belowName) := by
  have plain : ∀ name ∈ dependencyDirectories, IsStarred name.toList ∧ '*' ∉ name.toList := by
    decide
  rw [dependencyPatterns, List.mapM_map]
  exact mapM_ok fun name member => read_belowName (plain name member).1 (plain name member).2

def skippedPatterns (skip : Bool) : List Glob.Pattern :=
  if skip then dependencyDirectories.map belowName else []

theorem readIgnores_skipped [Glob.Engine] (skip : Bool) :
    readIgnores (if skip then dependencyPatterns else []) = .ok (skippedPatterns skip) := by
  cases skip with
  | false =>
    have taken := Glob.together_ok_iff.mpr Glob.Engine.takesNone
    exact congrArg (· >>= fun _ => Except.ok []) taken
  | true =>
    have taken := Glob.together_ok_iff.mpr (Glob.Engine.takesDependencies _ read_dependencyPatterns)
    rw [readIgnores, if_pos rfl, read_dependencyPatterns, ok_bind, taken]
    rfl

namespace Glob

mutual

def Token.depth : Token → Nat
  | .either branches => branchesDepth branches + 1
  | _ => 0

def branchesDepth : List (List Token) → Nat
  | [] => 0
  | branch :: rest => max (depth branch) (branchesDepth rest)

def depth : List Token → Nat
  | [] => 0
  | t :: rest => max t.depth (depth rest)

end

theorem depth_belowName (name : String) : depth (belowName name).tokens = 0 := by
  have flat : ∀ cs : List Char, depth (cs.map .literal ++ [.trailing]) = 0 := by
    intro cs
    induction cs with
    | nil => rfl
    | cons c rest ih => simpa [depth, Token.depth] using ih
  simpa [belowName, depth, Token.depth] using flat name.toList

/-- An engine that takes groups up to some depth. -/
@[reducible]
def Engine.nested (deepest : Nat) : Engine where
  takesAlone p := depth p.tokens ≤ deepest
  objection? patterns :=
    if patterns.all fun p => depth p.tokens ≤ deepest then none else some "exceeds the nest limit"
  takesNone := rfl
  takesDependencies patterns read := by
    obtain rfl := Except.ok.inj (read_dependencyPatterns.symm.trans read)
    have within : (dependencyDirectories.map belowName).all (depth ·.tokens ≤ deepest) = true := by
      simp [depth_belowName]
    rw [if_pos within]

end Glob

end SourcePages
