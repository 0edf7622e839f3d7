import SourcePages.Command.Run
import SourcePages.Proofs.Outcome

namespace SourcePages.Command

def Flag.tells : Flag → Bool
  | .strict => true
  | .verbose => true
  | _ => false

namespace Arguments

def quiet (a : Arguments) : Arguments :=
  { a with flags := a.flags.filter (!·.tells), report := none }

theorem has_quiet (a : Arguments) {f : Flag} (acts : f.tells = false) :
    a.quiet.has f = a.has f := by
  rw [Bool.eq_iff_iff]
  simp [has, quiet, acts]

theorem toConfig_quiet (a : Arguments) : a.quiet.toConfig = a.toConfig := by
  simp only [toConfig, a.has_quiet (f := .skipDeps) rfl, a.has_quiet (f := .respectGitignore) rfl,
    a.has_quiet (f := .dryRun) rfl]
  rfl

def raise (a : Arguments) (f : Flag) : Arguments := { a with flags := a.flags ++ [f] }

def put (a : Arguments) (x : Setting) (value : String) : Arguments :=
  match x with
  | .config => { a with config := ⟨value⟩ }
  | .package => { a with package := ⟨value⟩ }
  | .outDir => { a with outDir := ⟨value⟩ }
  | .include => { a with includes := a.includes ++ [value] }
  | .ignore => { a with ignores := a.ignores ++ [value] }
  | .report => { a with report := ReportFormat.named? value }
  | .threads => { a with threads := (count? value).getD a.threads }

theorem quiet_raise (a : Arguments) (f : Flag) : (a.raise f).quiet = (a.quiet.raise f).quiet := by
  simp [quiet, raise]

theorem quiet_raise_telling (a : Arguments) {f : Flag} (tells : f.tells = true) :
    (a.raise f).quiet = a.quiet := by
  simp [quiet, raise, tells]

theorem quiet_put (a : Arguments) (x : Setting) (value : String) :
    (a.put x value).quiet = (a.quiet.put x value).quiet := by
  cases x <;> simp [quiet, put]

theorem quiet_put_report (a : Arguments) (value : String) :
    (a.put .report value).quiet = a.quiet := rfl

end Arguments

namespace Reading

variable {r r' s s' : Reading}

theorem pathValue_ok {value : String} {p : Path} (made : pathValue value = .ok p) :
    p = ⟨value⟩ := by
  unfold pathValue at made
  split at made
  · cases made
  · cases made
    rfl

theorem settle_ok {x : Setting} (made : r.settle x = .ok s) :
    s = { r with settled := x :: r.settled } := by
  unfold settle at made
  split at made
  · cases made
  · cases made
    rfl

theorem setPath_ok {value : String} (made : r.setPath value = .ok s) :
    s = { r with given.path := ⟨value⟩, hasPath := true } := by
  unfold setPath at made
  split at made
  · cases made
  obtain ⟨path, read, made⟩ := bind_ok made
  cases made
  rw [pathValue_ok read]

theorem raise_ok {f : Flag} (made : r.raise f = .ok s) :
    s = { r with given := r.given.raise f } := by
  unfold raise at made
  split at made
  · cases made
  · cases made
    rfl

theorem set_ok {x : Setting} {value : String} (made : r.set x value = .ok s) :
    ∃ settled, s = { r with
      given := r.given.put x value, awaiting := none, settled := settled } := by
  cases x with
  | «include» | ignore =>
    cases made
    exact ⟨_, rfl⟩
  | config | package | outDir =>
    obtain ⟨path, read, made⟩ := bind_ok made
    obtain ⟨t, settled, made⟩ := bind_ok made
    cases made
    rw [settle_ok settled, pathValue_ok read]
    exact ⟨_, rfl⟩
  | report | threads =>
    unfold set at made
    dsimp only at made
    split at made
    · rename_i found
      obtain ⟨t, settled, made⟩ := bind_ok made
      cases made
      rw [settle_ok settled, Arguments.put, found]
      exact ⟨_, rfl⟩
    · cases made

def quiet (r : Reading) : Reading := { r with given := r.given.quiet, settled := [] }

theorem quiet_eq_iff : r.quiet = r'.quiet ↔ r.given.quiet = r'.given.quiet ∧
    r.hasPath = r'.hasPath ∧ r.awaiting = r'.awaiting ∧ r.onlyPaths = r'.onlyPaths := by
  simp [quiet]

/-- Whether what counts for the run after a step follows from what counts before it, if the step can
be made, and whether the step still lets options follow. -/
structure Steady (step : Reading → Except Stop Reading) : Prop where
  quiet : ∀ {r r' s s'}, step r = .ok s → step r' = .ok s' → r.quiet = r'.quiet → s.quiet = s'.quiet
  onlyPaths : ∀ {r s}, step r = .ok s → s.onlyPaths = r.onlyPaths

theorem steady_setPath (value : String) : Steady (setPath · value) where
  quiet made made' same := by
    rw [setPath_ok made, setPath_ok made']
    obtain ⟨given, -, awaiting, onlyPaths⟩ := quiet_eq_iff.mp same
    have path := congrArg (fun a : Arguments => { a with path := ⟨value⟩ }) given
    exact quiet_eq_iff.mpr ⟨path, rfl, awaiting, onlyPaths⟩
  onlyPaths made := by rw [setPath_ok made]

theorem steady_raise (f : Flag) : Steady (raise · f) where
  quiet made made' same := by
    rw [raise_ok made, raise_ok made']
    obtain ⟨given, others⟩ := quiet_eq_iff.mp same
    exact quiet_eq_iff.mpr ⟨by rw [Arguments.quiet_raise, given, ← Arguments.quiet_raise], others⟩
  onlyPaths made := by rw [raise_ok made]

theorem steady_set (x : Setting) (value : String) : Steady (set · x value) where
  quiet made made' same := by
    obtain ⟨_, rfl⟩ := set_ok made
    obtain ⟨_, rfl⟩ := set_ok made'
    obtain ⟨given, hasPath, -, onlyPaths⟩ := quiet_eq_iff.mp same
    refine quiet_eq_iff.mpr ⟨?_, hasPath, rfl, onlyPaths⟩
    rw [Arguments.quiet_put, given, ← Arguments.quiet_put]
  onlyPaths made := by
    obtain ⟨_, rfl⟩ := set_ok made
    rfl

theorem steady_await (x : Setting) : Steady fun r => .ok { r with awaiting := some x } where
  quiet := by
    rintro r r' _ _ ⟨⟩ ⟨⟩ same
    obtain ⟨given, hasPath, -, onlyPaths⟩ := quiet_eq_iff.mp same
    exact quiet_eq_iff.mpr ⟨given, hasPath, rfl, onlyPaths⟩
  onlyPaths := by
    rintro r _ ⟨⟩
    rfl

theorem steady_stop (why : Stop) : Steady fun _ => .error why where
  quiet made := by cases made
  onlyPaths made := by cases made

theorem steady_next {first next : Reading → Except Stop Reading} (one : Steady first)
    (other : Steady next) : Steady fun r =>
      match first r with
      | .ok r => next r
      | .error e => .error e where
  quiet := by
    intro r r' s s' made made' same
    split at made
    · split at made'
      · rename_i _ m made₁ _ m' made₁'
        exact other.quiet made made' (one.quiet made₁ made₁' same)
      · cases made'
    · cases made
  onlyPaths := by
    intro r s made
    split at made
    · rename_i m made₁
      rw [other.onlyPaths made, one.onlyPaths made₁]
    · cases made

theorem steady_long (text : List Char) : Steady (long · text) := by
  cases setting : Setting.named? (String.ofList (text.takeWhile (· ≠ '='))) with
  | some x =>
    cases rest : text.dropWhile (· ≠ '=') with
    | nil => simpa only [long, setting, rest] using steady_await x
    | cons _ value => simpa only [long, setting, rest] using steady_set x (String.ofList value)
  | none =>
    cases rest : text.dropWhile (· ≠ '=') with
    | nil =>
      simp only [long, setting, rest]
      split
      · exact steady_stop .help
      split
      · exact steady_stop .version
      split
      · exact steady_raise _
      · exact steady_stop .usage
    | cons _ value => simpa only [long, setting, rest] using steady_stop .usage

theorem steady_attached (x : Setting) (value : List Char) : Steady (attached · x value) := by
  unfold attached
  split
  · exact steady_await x
  · exact steady_set x _
  · exact steady_set x _

theorem steady_letters (text : List Char) : Steady (letters · text) := by
  induction text with
  | nil =>
    constructor
    · rintro r r' _ _ ⟨⟩ ⟨⟩ same
      exact same
    · rintro r _ ⟨⟩
      rfl
  | cons c rest ih =>
    unfold letters
    split
    · exact steady_attached .outDir rest
    · exact steady_attached .report rest
    · exact steady_stop .help
    · exact steady_stop .version
    · exact steady_next (steady_raise .verbose) ih
    · exact steady_stop .usage

theorem exists_steady (arg : String) (awaiting : Option Setting) (onlyPaths : Bool) :
    (∃ f, Steady f ∧ ∀ r, r.awaiting = awaiting → r.onlyPaths = onlyPaths → r.step arg = f r) ∨
      arg = "--" ∧ awaiting = none ∧ onlyPaths = false := by
  -- How an argument is read is settled by what is awaited and whether options may follow. Only the
  -- two dashes that end the options are not steady.
  cases onlyPaths with
  | true => exact .inl ⟨_, steady_setPath arg, fun r _ only => by rw [step, if_pos only]⟩
  | false =>
    have options : ∀ {r : Reading}, r.onlyPaths = false → ¬ r.onlyPaths = true := by simp
    cases awaiting with
    | some x =>
      left
      by_cases option : arg.toList.head? = some '-' ∧ arg.toList.length ≠ 1
      · refine ⟨_, steady_stop .usage, fun r awaits only => ?_⟩
        rw [step, if_neg (options only), awaits]
        simp [option]
      · refine ⟨_, steady_set x arg, fun r awaits only => ?_⟩
        rw [step, if_neg (options only), awaits]
        simp [option]
    | none =>
      by_cases option : ∃ c rest, arg.toList = '-' :: c :: rest
      · obtain ⟨c, rest, spelled⟩ := option
        by_cases long : c = '-'
        · subst long
          cases rest with
          | nil => exact .inr ⟨String.toList_injective spelled, rfl, rfl⟩
          | cons d more =>
            refine .inl ⟨_, steady_long (d :: more), fun r awaits only => ?_⟩
            simp only [step, if_neg (options only), awaits, spelled]
        · refine .inl ⟨_, steady_letters (c :: rest), fun r awaits only => ?_⟩
          rw [step, if_neg (options only), awaits, spelled]
          split <;> simp_all
      · refine .inl ⟨_, steady_setPath arg, fun r awaits only => ?_⟩
        rw [step, if_neg (options only), awaits]
        split <;> simp_all

theorem step_quiet {arg : String} (made : r.step arg = .ok s) (made' : r'.step arg = .ok s')
    (same : r.quiet = r'.quiet) : s.quiet = s'.quiet := by
  obtain ⟨given, hasPath, awaiting, onlyPaths⟩ := quiet_eq_iff.mp same
  rcases exists_steady arg r.awaiting r.onlyPaths with ⟨f, steady, eq⟩ | ⟨rfl, awaits, only⟩
  · rw [eq r rfl rfl] at made
    rw [eq r' awaiting.symm onlyPaths.symm] at made'
    exact steady.quiet made made' same
  · have ends : ∀ r : Reading, r.awaiting = none → r.onlyPaths = false →
        r.step "--" = .ok { r with onlyPaths := true } := by
      intro r awaits only
      simp [step, awaits, only]
    rw [ends r awaits only] at made
    rw [ends r' (awaiting ▸ awaits) (onlyPaths ▸ only)] at made'
    cases made
    cases made'
    exact quiet_eq_iff.mpr ⟨given, hasPath, awaiting, rfl⟩

theorem step_onlyPaths {arg : String} (made : r.step arg = .ok s) (option : arg ≠ "--") :
    s.onlyPaths = r.onlyPaths := by
  rcases exists_steady arg r.awaiting r.onlyPaths with ⟨f, steady, eq⟩ | ⟨ends, -⟩
  · rw [eq r rfl rfl] at made
    exact steady.onlyPaths made
  · exact absurd ends option

theorem steps_quiet {args : List String} (made : args.foldlM step r = .ok s)
    (made' : args.foldlM step r' = .ok s') (same : r.quiet = r'.quiet) : s.quiet = s'.quiet := by
  induction args generalizing r r' with
  | nil =>
    cases made
    cases made'
    exact same
  | cons arg rest ih =>
    obtain ⟨m, first, made⟩ := bind_ok (by simpa only [List.foldlM_cons] using made)
    obtain ⟨m', first', made'⟩ := bind_ok (by simpa only [List.foldlM_cons] using made')
    exact ih made made' (step_quiet first first' same)

theorem steps_onlyPaths {args : List String} (made : args.foldlM step r = .ok s)
    (options : "--" ∉ args) : s.onlyPaths = r.onlyPaths := by
  induction args generalizing r with
  | nil =>
    cases made
    rfl
  | cons arg rest ih =>
    obtain ⟨m, first, made⟩ := bind_ok (by simpa only [List.foldlM_cons] using made)
    obtain ⟨other, others⟩ := List.ne_and_not_mem_of_not_mem_cons options
    rw [ih made others, step_onlyPaths first other.symm]

end Reading

inductive Telling : List String → Prop where
  | flag {f : Flag} (tells : f.tells = true) : Telling ["--" ++ f.name]
  | report (format : String) : Telling ["--report=" ++ format]
  | reportThen (format : String) : Telling ["--report", format]
  | letters {verbose : List Char} (filled : verbose ≠ []) (all : ∀ c ∈ verbose, c = 'v') :
      Telling [String.ofList ('-' :: verbose)]
  | lettersReport {verbose value : List Char} (all : ∀ c ∈ verbose, c = 'v') (filled : value ≠ []) :
      Telling [String.ofList ('-' :: (verbose ++ 'r' :: value))]
  | lettersReportThen {verbose : List Char} (all : ∀ c ∈ verbose, c = 'v') (format : String) :
      Telling [String.ofList ('-' :: (verbose ++ ['r'])), format]

namespace Reading

variable {r s : Reading}

theorem quiet_raised {f : Flag} (tells : f.tells = true) (made : r.raise f = .ok s) :
    s.quiet = r.quiet := by
  rw [raise_ok made]
  exact quiet_eq_iff.mpr ⟨Arguments.quiet_raise_telling _ tells, rfl, rfl, rfl⟩

theorem quiet_reported {value : String} (awaits : r.awaiting = none)
    (made : r.set .report value = .ok s) : s.quiet = r.quiet := by
  obtain ⟨_, rfl⟩ := set_ok made
  exact quiet_eq_iff.mpr ⟨Arguments.quiet_put_report _ _, rfl, awaits.symm, rfl⟩

theorem quiet_awaited {format : String} (awaits : r.awaiting = none) (options : r.onlyPaths = false)
    (made : step { r with awaiting := some .report } format = .ok s) : s.quiet = r.quiet := by
  simp only [step, options, Bool.false_eq_true, if_false] at made
  split at made
  · cases made
  · obtain ⟨_, rfl⟩ := set_ok made
    exact quiet_eq_iff.mpr ⟨Arguments.quiet_put_report _ _, rfl, awaits.symm, options.symm⟩

theorem letters_verbose {verbose rest : List Char} (all : ∀ c ∈ verbose, c = 'v')
    (made : r.letters (verbose ++ rest) = .ok s) :
    ∃ m : Reading, m.quiet = r.quiet ∧ m.letters rest = .ok s := by
  induction verbose generalizing r with
  | nil => exact ⟨r, rfl, made⟩
  | cons c more ih =>
    obtain ⟨rfl, others⟩ := List.forall_mem_cons.mp all
    simp only [List.cons_append, letters] at made
    split at made
    · rename_i raised
      obtain ⟨m, same, made⟩ := ih others made
      exact ⟨m, same.trans (quiet_raised rfl raised), made⟩
    · cases made

theorem step_option {c : Char} {rest : List Char} (awaits : r.awaiting = none)
    (options : r.onlyPaths = false) (letter : c ≠ '-') :
    r.step (String.ofList ('-' :: c :: rest)) = r.letters (c :: rest) := by
  simp only [step, options, Bool.false_eq_true, if_false, awaits, String.toList_ofList]
  split <;> simp_all

theorem step_letters {verbose : List Char} {rest : List Char} (awaits : r.awaiting = none)
    (options : r.onlyPaths = false) (all : ∀ c ∈ verbose, c = 'v') (filled : verbose ++ rest ≠ [])
    (letter : rest.head? ≠ some '-') :
    r.step (String.ofList ('-' :: (verbose ++ rest))) = r.letters (verbose ++ rest) := by
  cases verbose with
  | nil =>
    cases rest with
    | nil => exact absurd rfl filled
    | cons c more => exact step_option awaits options (by simpa using letter)
  | cons c more =>
    obtain ⟨rfl, -⟩ := List.forall_mem_cons.mp all
    exact step_option awaits options (by decide)

theorem step_long {text : List Char} (awaits : r.awaiting = none) (options : r.onlyPaths = false)
    (filled : text ≠ []) : r.step (String.ofList ('-' :: '-' :: text)) = r.long text := by
  obtain ⟨c, more, rfl⟩ := List.exists_cons_of_ne_nil filled
  simp only [step, options, Bool.false_eq_true, if_false, awaits, String.toList_ofList]

theorem quiet_attached {value : List Char} (awaits : r.awaiting = none) (filled : value ≠ [])
    (made : r.attached .report value = .ok s) : s.quiet = r.quiet := by
  unfold attached at made
  split at made
  · exact absurd rfl filled
  · exact quiet_reported awaits made
  · exact quiet_reported awaits made

theorem steps_one {arg : String} (made : [arg].foldlM step r = .ok s) : r.step arg = .ok s := by
  rw [List.foldlM_cons] at made
  obtain ⟨m, made, ⟨⟩⟩ := bind_ok made
  exact made

theorem quiet_telling {piece : List String} (telling : Telling piece) (awaits : r.awaiting = none)
    (options : r.onlyPaths = false) (made : piece.foldlM step r = .ok s) : s.quiet = r.quiet := by
  cases telling with
  | @flag f tells =>
    have raised : r.step ("--" ++ f.name) = r.raise f := by
      cases f
      case strict => exact @step_long r "strict".toList awaits options (by decide)
      case verbose => exact @step_long r "verbose".toList awaits options (by decide)
      all_goals cases tells
    exact quiet_raised tells (raised.symm.trans (steps_one made))
  | report format =>
    have spelled : "--report=" ++ format =
        String.ofList ('-' :: '-' :: ("report=".toList ++ format.toList)) := by
      rw [← String.toList_inj]
      simp
    have reported : r.step ("--report=" ++ format) = r.set .report format := by
      rw [spelled, step_long awaits options (by simp)]
      simp [long, Setting.named?, Setting.name]
    exact quiet_reported awaits (reported.symm.trans (steps_one made))
  | reportThen format =>
    have awaited : r.step "--report" = .ok { r with awaiting := some .report } :=
      @step_long r "report".toList awaits options (by decide)
    rw [List.foldlM_cons, awaited] at made
    exact quiet_awaited awaits options (steps_one made)
  | @letters verbose filled all =>
    have read := @step_letters r verbose [] awaits options all (by simpa using filled) (by decide)
    rw [List.append_nil] at read
    obtain ⟨m, same, ⟨⟩⟩ := @letters_verbose r s verbose [] all
      ((List.append_nil verbose).symm ▸ read.symm.trans (steps_one made))
    exact same
  | @lettersReport verbose value all filled =>
    have read := @step_letters r verbose ('r' :: value) awaits options all (by simp) (by simp)
    obtain ⟨m, same, made⟩ := letters_verbose all (read.symm.trans (steps_one made))
    obtain ⟨-, -, awaits', -⟩ := quiet_eq_iff.mp same
    exact (quiet_attached (awaits'.trans awaits) filled made).trans same
  | @lettersReportThen verbose all format =>
    have read := @step_letters r verbose ['r'] awaits options all (by simp) (by decide)
    rw [List.foldlM_cons, read] at made
    obtain ⟨awaited, first, made⟩ := bind_ok made
    obtain ⟨m, same, ⟨⟩⟩ := letters_verbose all first
    obtain ⟨-, -, awaits', options'⟩ := quiet_eq_iff.mp same
    have steady := quiet_awaited (awaits'.trans awaits) (options'.trans options) (steps_one made)
    exact steady.trans same

end Reading

theorem Telling.begins {piece : List String} (telling : Telling piece) :
    ∃ arg rest, piece = arg :: rest ∧ arg.toList.head? = some '-' ∧ arg.toList.length ≠ 1 := by
  cases telling with
  | @flag f tells => exact ⟨_, [], rfl, by simp, by simp⟩
  | report format => exact ⟨_, [], rfl, by simp, by simp⟩
  | reportThen format => exact ⟨_, [format], rfl, by decide, by decide⟩
  | letters filled all => exact ⟨_, [], rfl, by simp, by simpa using filled⟩
  | lettersReport all filled => exact ⟨_, [], rfl, by simp, by simp⟩
  | lettersReportThen all format => exact ⟨_, [format], rfl, by simp, by simp⟩

theorem Telling.awaits {piece : List String} (telling : Telling piece) {r s : Reading}
    (options : r.onlyPaths = false) (made : piece.foldlM Reading.step r = .ok s) :
    r.awaiting = none := by
  -- What begins with a dash is not taken as the value of a setting.
  obtain ⟨arg, rest, rfl, dash, long⟩ := telling.begins
  rw [List.foldlM_cons] at made
  obtain ⟨m, first, -⟩ := bind_ok made
  cases awaits : r.awaiting with
  | none => rfl
  | some x =>
    rw [Reading.step, if_neg (by simp [options]), awaits] at first
    simp [dash, long] at first

theorem readArguments_ok {args : List String} {a : Arguments} (read : readArguments args = .ok a) :
    ∃ r : Reading, args.foldlM Reading.step {} = .ok r ∧ r.given = a := by
  obtain ⟨r, made, read⟩ := bind_ok read
  split at read
  · cases read
  · cases read
    exact ⟨r, made, rfl⟩

/-- Whether the second arguments are the first ones with an option more that only changes what is
told. Behind two dashes there are no options. -/
inductive Adds : List String → List String → Prop where
  | intro {before piece after : List String} (telling : Telling piece) (options : "--" ∉ before) :
      Adds (before ++ after) (before ++ piece ++ after)

theorem Adds.quiet_eq {args args' : List String} {a a' : Arguments} (adds : Adds args args')
    (read : readArguments args = .ok a) (read' : readArguments args' = .ok a') :
    a'.quiet = a.quiet := by
  cases adds with
  | @intro before piece after telling options =>
    obtain ⟨r, made, rfl⟩ := readArguments_ok read
    obtain ⟨r', made', rfl⟩ := readArguments_ok read'
    rw [List.foldlM_append] at made
    rw [List.append_assoc, List.foldlM_append] at made'
    obtain ⟨m, front, made⟩ := bind_ok made
    obtain ⟨m', front', made'⟩ := bind_ok made'
    cases front.symm.trans front'
    rw [List.foldlM_append] at made'
    obtain ⟨n, middle, made'⟩ := bind_ok made'
    have only : m.onlyPaths = false := Reading.steps_onlyPaths front options
    have same := Reading.quiet_telling telling (telling.awaits only middle) only middle
    exact (Reading.quiet_eq_iff.mp (Reading.steps_quiet made' made same)).1

end SourcePages.Command
