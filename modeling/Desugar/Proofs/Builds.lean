import Desugar.Preprocess.Build
import Desugar.Proofs.Jobs
import Desugar.Proofs.Renaming
import Desugar.Proofs.Sources

/-!
# How a build ends

A build stages the project, runs the preprocessor, gives the result its name and, if an interpreter
is named, runs it and removes the staging directory.  Nothing is known of the two programs: a
`Launcher` may change the files in any way, and fail to start a program or see it end in any way.

`Build.Course` follows a build through these steps.  Each step is taken in the world that the step
before it left, and where a step fails, that world and that failure are what the build ends with, so
no later program can have been started.
-/

namespace Desugar

namespace Build

open Job (outcome)

variable {launch : Launcher} {build : Build} {world after : World}

/-! ## Running programs -/

/-- How a program that did not end well is reported. -/
inductive BadEnd (program : String) : Except SystemError Ending → PreprocessError → Prop where
  | unstarted (cause : SystemError) : BadEnd program (.error cause) (.spawn program cause)
  | exited (code : Nat) (hcode : code ≠ 0) :
      BadEnd program (.ok (.exited code)) (.failed program (some code))
  | killed : BadEnd program (.ok .killed) (.failed program none)

theorem good_or_bad (program : String) (ended : Except SystemError Ending) :
    ended = .ok (.exited 0) ∨ ∃ error, BadEnd program ended error := by
  cases ended with
  | error cause => exact .inr ⟨_, .unstarted cause⟩
  | ok ending =>
    cases ending with
    | killed => exact .inr ⟨_, .killed⟩
    | exited code =>
      by_cases hcode : code = 0
      · exact .inl (by rw [hcode])
      · exact .inr ⟨_, .exited code hcode⟩

section runProgram

variable {program : String} {args : List String} {ended : Except SystemError Ending}

theorem runProgram_of_good (h : (launch program args).outcome world = (.ok (.exited 0), after)) :
    (runProgram launch program args).outcome world = (.ok (), after) := by
  rw [runProgram, Job.outcome_bind, Job.outcome_orFail, h, Job.mapError_eq_ok_iff.mpr rfl]
  rfl

theorem runProgram_of_bad {error : PreprocessError}
    (h : (launch program args).outcome world = (ended, after)) (hbad : BadEnd program ended error) :
    (runProgram launch program args).outcome world = (.error error, after) := by
  rw [runProgram, Job.outcome_bind, Job.outcome_orFail, h]
  cases hbad with
  | unstarted cause => rfl
  | exited code hcode =>
    obtain ⟨code, rfl⟩ := Nat.exists_eq_succ_of_ne_zero hcode
    rfl
  | killed => rfl

/-- A program is run once, and its end is reported. -/
theorem runProgram_cases (h : (launch program args).outcome world = (ended, after)) :
    ended = .ok (.exited 0) ∧ (runProgram launch program args).outcome world = (.ok (), after) ∨
      ∃ error, BadEnd program ended error ∧
        (runProgram launch program args).outcome world = (.error error, after) := by
  rcases good_or_bad program ended with rfl | ⟨error, hbad⟩
  · exact .inl ⟨rfl, runProgram_of_good h⟩
  · exact .inr ⟨error, hbad, runProgram_of_bad h hbad⟩

end runProgram

/-! ## The steps of a build -/

/-- The arguments that the preprocessor gets. -/
def preprocessorArgs (build : Build) : List String :=
  build.settings.args ++ [build.mainFile.text, "-o", build.expanded.text]

/-- The project has been staged, and the preprocessor has ended well and left this world. -/
def Expands (launch : Launcher) (build : Build) (world after : World) : Prop :=
  ∃ paths staged, (build.staging.stage build.root).outcome world = (.ok paths, staged) ∧
    (launch build.compiler build.preprocessorArgs).outcome staged = (.ok (.exited 0), after)

theorem preprocess_of_staged {paths : List Path} {staged : World}
    (h : (build.staging.stage build.root).outcome world = (.ok paths, staged)) :
    (preprocess launch build).outcome world =
      (do
        runProgram launch build.compiler build.preprocessorArgs
        Job.orFail (Job.change (FileTree.rename · · build.expanded build.script))
          (.io build.expanded) : Job PreprocessError Unit).outcome staged := by
  rw [preprocess, Job.outcome_bind, h]
  rfl

theorem preprocess_of_expands (h : Expands launch build world after) :
    (preprocess launch build).outcome world =
      (Job.orFail (Job.change (FileTree.rename · · build.expanded build.script))
        (.io build.expanded)).outcome after := by
  obtain ⟨paths, staged, hstaged, hlaunched⟩ := h
  rw [preprocess_of_staged hstaged, Job.outcome_bind, runProgram_of_good hlaunched]

theorem run_of_preprocess_error {error : PreprocessError}
    (h : (preprocess launch build).outcome world = (.error error, after)) :
    (run launch build).outcome world = (.error error, after) := by
  rw [run, Job.outcome_bind, h]

theorem preprocess_of_rename {tree : FileTree} (h : Expands launch build world after)
    (hrename : after.tree.rename after.cwd build.expanded build.script = .ok tree) :
    (preprocess launch build).outcome world = (.ok (), { after with tree }) := by
  rw [preprocess_of_expands h, Job.outcome_orFail, Job.outcome_change, hrename,
    Job.mapError_eq_ok_iff.mpr rfl]

/-- If preprocessing succeeds, each of its steps has. -/
theorem expands_of_preprocess (h : (preprocess launch build).outcome world = (.ok (), after)) :
    ∃ left tree, Expands launch build world left ∧
      left.tree.rename left.cwd build.expanded build.script = .ok tree ∧
      after = { left with tree } := by
  rcases hstaged : (build.staging.stage build.root).outcome world with ⟨error | paths, staged⟩
  · rw [preprocess, Job.outcome_bind, hstaged] at h
    exact absurd (Prod.mk.inj h).1 (by simp)
  rw [preprocess_of_staged hstaged] at h
  rcases hended : (launch build.compiler build.preprocessorArgs).outcome staged with ⟨ended, left⟩
  rcases runProgram_cases hended with ⟨rfl, hran⟩ | ⟨error, -, hran⟩
  · rw [Job.outcome_bind, hran] at h
    obtain ⟨tree, hrename, rfl⟩ := Job.of_change_ok h
    exact ⟨left, tree, ⟨paths, staged, hstaged, hended⟩, hrename, rfl⟩
  · rw [Job.outcome_bind, hran] at h
    exact absurd (Prod.mk.inj h).1 (by simp)

theorem run_of_preprocess (hinterpreter : build.interpreter = none)
    (h : (preprocess launch build).outcome world = (.ok (), after)) :
    (run launch build).outcome world = (.ok ⟨build.script, true⟩, after) := by
  rw [run, Job.outcome_bind, h, hinterpreter]
  rfl

theorem preprocess_of_run {outcome : Outcome} (hinterpreter : build.interpreter = none)
    (h : (run launch build).outcome world = (.ok outcome, after)) :
    (preprocess launch build).outcome world = (.ok (), after) := by
  rw [run, hinterpreter] at h
  rcases Job.bind_cases h with ⟨error, -, herror⟩ | ⟨_, middle, hpreprocess, hrest⟩
  · exact absurd herror (by simp)
  · rw [Job.outcome_pure] at hrest
    rw [hpreprocess, (Prod.mk.inj hrest).2]

/-- The staging directory is removed once the interpreter has come to its end, and its own end is
reported if that succeeds. -/
theorem interpret_of_removeAll {interpreter : String} {result : Except PreprocessError Unit}
    {removal : Except SystemError Unit} {tree : FileTree}
    (hran : (runProgram launch interpreter (build.script.text :: build.args)).outcome world =
      (result, after))
    (hremoved : after.tree.removeAll after.cwd build.dir = (removal, tree)) :
    (interpret launch build interpreter).outcome world =
      ((removal.mapError (.io build.dir)).bind fun _ => result, { after with tree }) := by
  rw [interpret, Job.outcome_bind, Job.outcome_attempt, hran]
  simp only [Job.outcome_bind, Job.outcome_orFail, Job.outcome_changeAll, hremoved]
  cases removal <;> rfl

theorem run_of_interpret {interpreter : String} {result : Except PreprocessError Unit}
    {renamed : World} (hpreprocess : (preprocess launch build).outcome world = (.ok (), renamed))
    (hinterpreter : build.interpreter = some interpreter)
    (hinterpret : (interpret launch build interpreter).outcome renamed = (result, after)) :
    (run launch build).outcome world = (result.map fun _ => ⟨build.script, false⟩, after) := by
  rw [run, Job.outcome_bind, hpreprocess]
  simp only [hinterpreter, Job.outcome_bind, hinterpret]
  cases result <;> rfl

/-! ## The course of a build -/

/-- How a build goes, step by step. -/
structure Course (launch : Launcher) (build : Build) (world : World) : Prop where
  /-- If staging fails, the build ends there, with any launcher: no program is started. -/
  unstaged : ∀ error staged,
    (build.staging.stage build.root).outcome world = (.error error, staged) →
    (run launch build).outcome world = (.error error, staged)
  /-- If the preprocessor ends badly, the build ends in the world it has left, and says so: no
  interpreter is started, and the staging directory is not touched. -/
  unexpanded : ∀ paths staged ended left error,
    (build.staging.stage build.root).outcome world = (.ok paths, staged) →
    (launch build.compiler build.preprocessorArgs).outcome staged = (ended, left) →
    BadEnd build.compiler ended error →
    (run launch build).outcome world = (.error error, left)
  /-- If the result cannot be given its name, the build ends there too. -/
  unnamed : ∀ left cause, Expands launch build world left →
    left.tree.rename left.cwd build.expanded build.script = .error cause →
    (run launch build).outcome world = (.error (.io build.expanded cause), left)
  /-- Without an interpreter the build ends with the result, which is what the preprocessor has
  written. -/
  kept : ∀ left tree, Expands launch build world left →
    left.tree.rename left.cwd build.expanded build.script = .ok tree → build.interpreter = none →
    (run launch build).outcome world = (.ok ⟨build.script, true⟩, { left with tree }) ∧
      (left.tree.Connected →
        (∀ rest, tree.node? (build.script.target left.cwd ++ rest) =
          left.tree.node? (build.expanded.target left.cwd ++ rest)) ∧
        ∀ content, left.tree.node? (build.expanded.target left.cwd) = some (.file content) →
          tree.read left.cwd build.script = .ok content)
  /-- With an interpreter, the staging directory is removed once, in the world that the interpreter
  has left, whether it could be started or not.  A failure to do so is reported first. -/
  unremoved : ∀ left tree interpreter ended last cause rest, Expands launch build world left →
    left.tree.rename left.cwd build.expanded build.script = .ok tree →
    build.interpreter = some interpreter →
    (launch interpreter (build.script.text :: build.args)).outcome { left with tree } =
      (ended, last) →
    last.tree.removeAll last.cwd build.dir = (.error cause, rest) →
    (run launch build).outcome world = (.error (.io build.dir cause), { last with tree := rest })
  /-- If it is removed, the build reports how the interpreter ended.  The path of the staging
  directory leads nowhere then, and nothing is left below it; the directory itself is gone unless
  its path went through something below it. -/
  removed : ∀ left tree interpreter ended last rest, Expands launch build world left →
    left.tree.rename left.cwd build.expanded build.script = .ok tree →
    build.interpreter = some interpreter →
    (launch interpreter (build.script.text :: build.args)).outcome { left with tree } =
      (ended, last) →
    last.tree.removeAll last.cwd build.dir = (.ok (), rest) →
    (ended = .ok (.exited 0) ∧ (run launch build).outcome world =
        (.ok ⟨build.script, false⟩, { last with tree := rest }) ∨
      ∃ error, BadEnd interpreter ended error ∧
        (run launch build).outcome world = (.error error, { last with tree := rest })) ∧
    rest.pathExists last.cwd build.dir = false ∧
    (∀ below, below ≠ [] → rest.node? (build.dir.target last.cwd ++ below) = none) ∧
    (rest.node? (build.dir.target last.cwd) = none ↔
      ∀ passed ∈ build.dir.way last.cwd, build.dir.target last.cwd <+: passed →
        passed = build.dir.target last.cwd)

/-- Every build takes this course, whatever its programs do. -/
theorem run_course (launch : Launcher) (build : Build) (world : World) :
    build.Course launch world where
  unstaged error staged hstaged := by
    apply run_of_preprocess_error
    rw [preprocess, Job.outcome_bind, hstaged]
  unexpanded paths staged ended left error hstaged hlaunched hbad := by
    apply run_of_preprocess_error
    rw [preprocess_of_staged hstaged, Job.outcome_bind, runProgram_of_bad hlaunched hbad]
  unnamed left cause hexpands hrename := by
    apply run_of_preprocess_error
    rw [preprocess_of_expands hexpands, Job.outcome_orFail, Job.outcome_change, hrename]
    rfl
  kept left tree hexpands hrename hinterpreter := by
    refine ⟨run_of_preprocess hinterpreter (preprocess_of_rename hexpands hrename), ?_⟩
    intro hconnected
    have hrenamed := FileTree.renamed_of_rename hrename
    exact ⟨hrenamed.node?_append hconnected, fun content => hrenamed.read_eq hconnected⟩
  unremoved left tree interpreter ended last cause rest hexpands hrename hinterpreter hended
      hremoved := by
    obtain ⟨result, hran⟩ : ∃ result, (runProgram launch interpreter
        (build.script.text :: build.args)).outcome { left with tree } = (result, last) := by
      rcases runProgram_cases hended with ⟨-, hran⟩ | ⟨error, -, hran⟩ <;> exact ⟨_, hran⟩
    exact run_of_interpret (preprocess_of_rename hexpands hrename) hinterpreter
      (interpret_of_removeAll hran hremoved)
  removed left tree interpreter ended last rest hexpands hrename hinterpreter hended hremoved := by
    refine ⟨?_, FileTree.pathExists_of_removeAll hremoved,
      fun below => FileTree.node?_below_of_removeAll hremoved,
      FileTree.node?_target_of_removeAll_iff hremoved⟩
    rcases runProgram_cases hended with ⟨hgood, hran⟩ | ⟨error, hbad, hran⟩
    · exact .inl ⟨hgood, run_of_interpret (preprocess_of_rename hexpands hrename) hinterpreter
        (interpret_of_removeAll hran hremoved)⟩
    · exact .inr ⟨error, hbad, run_of_interpret (preprocess_of_rename hexpands hrename) hinterpreter
        (interpret_of_removeAll hran hremoved)⟩

/-! ## A directory that stays -/

def copy (source target : Path) : Job SystemError Unit := do
  let content ← Job.look (FileTree.read · · source)
  Job.write target content

/-- A preprocessor that copies its input.  Any other program does nothing. -/
def copier : Launcher := fun _ args =>
  match args with
  | [source, _, target] => do
    let copied ← Job.attempt (copy ⟨source⟩ ⟨target⟩)
    return .exited (if copied.isOk then 0 else 1)
  | _ => return .exited 0

/-- A project with two sources, `main.rb` and `_main.rb`, some directories and, in `out`, some
files. -/
def twoSources (directories : List Place) (files : List (String × String)) : World where
  tree :=
    ⟨[(["p"], .directory), (["p", "_main.rb"], .file "puts 2\n".toUTF8),
      (["p", "main.rb"], .file "puts 1\n".toUTF8)] ++
      directories.map (·, .directory) ++
      files.map fun (name, text) => (["p", "out", name], .file text.toUTF8)⟩
  cwd := ["p"]
  stdout := .empty
  stderr := .empty

/-- A build of the project in the given staging directory. -/
def buildIn (dir : String) (interpreter : Option String) : Build where
  settings := ⟨⟨"#pre", "#endpre"⟩, ⟨dir⟩, ["rb"], [], []⟩
  root := ⟨"."⟩
  input := "main"
  output := "app"
  compiler := "cp"
  interpreter := interpreter
  args := []

/-- The two sources are staged, and `_main.rb` is then written anew.  The listing is sorted by a
recursion that does not compute, so the steps are taken one by one. -/
theorem expands_buildIn {dir : String} {interpreter : Option String} {directories : List Place}
    {paths : List Path}
    (hclear : (Staging.clear (buildIn dir interpreter).dir).outcome (twoSources [] []) =
      (.ok (), twoSources directories []))
    (hlist : (twoSources directories []).tree.list ["p"] ⟨"."⟩ = .ok ["_main.rb", "main.rb", "out"])
    (hfiles : (["_main.rb", "main.rb", "out"].filter fun name =>
      (twoSources directories []).tree.isFileAt ["p"] (Path.child ⟨"."⟩ name)) =
        ["_main.rb", "main.rb"])
    (hstaged : ((buildIn dir interpreter).staging.stageFiles ⟨"."⟩ ["_main.rb", "main.rb"]).outcome
      (twoSources directories []) =
        (.ok paths, twoSources directories [("_main.rb", "puts 2\n"), ("main.rb", "puts 1\n")]))
    (hlaunched : (copier "cp" (buildIn dir interpreter).preprocessorArgs).outcome
      (twoSources directories [("_main.rb", "puts 2\n"), ("main.rb", "puts 1\n")]) =
        (.ok (.exited 0),
          twoSources directories [("main.rb", "puts 1\n"), ("_main.rb", "puts 1\n")])) :
    Expands copier (buildIn dir interpreter) (twoSources [] [])
      (twoSources directories [("main.rb", "puts 1\n"), ("_main.rb", "puts 1\n")]) := by
  have hsorted := Staging.filesIn_of_sorted _ hlist hfiles (by decide)
  have hstage := Staging.stage_of_filesIn hclear hsorted
  exact ⟨paths, _, hstage.trans hstaged, hlaunched⟩

/-- The project is staged in `out`, by way of `sub`. -/
def roundabout : Build :=
  buildIn "out/sub/.." (some "sh")

/-- The project with the staging directory, which has these files in it. -/
def stagedBySub (files : List (String × String)) : World :=
  twoSources [["p", "out"], ["p", "out", "sub"]] files

/-- The build ends well and has removed the staging directory, but `out` is still there. -/
theorem run_course_roundabout :
    ∃ after, (run copier roundabout).outcome (twoSources [] []) =
        (.ok ⟨⟨"./out/sub/../app.rb"⟩, false⟩, after) ∧
      after.tree.node? ["p", "out"] ≠ none := by
  have hexpands : Expands copier roundabout (twoSources [] [])
      (stagedBySub [("main.rb", "puts 1\n"), ("_main.rb", "puts 1\n")]) :=
    expands_buildIn rfl (by decide +kernel) (by decide +kernel) rfl rfl
  have hrename : (stagedBySub [("main.rb", "puts 1\n"), ("_main.rb", "puts 1\n")]).tree.rename
      ["p"] roundabout.expanded roundabout.script =
        .ok (stagedBySub [("main.rb", "puts 1\n"), ("app.rb", "puts 1\n")]).tree := rfl
  have hremoved : (stagedBySub [("main.rb", "puts 1\n"), ("app.rb", "puts 1\n")]).tree.removeAll
      ["p"] roundabout.dir = (.ok (), (twoSources [["p", "out"]] []).tree) := rfl
  obtain ⟨hrun, -, -, hgone⟩ := (run_course copier roundabout (twoSources [] [])).removed _ _
    "sh" (.ok (.exited 0)) (stagedBySub [("main.rb", "puts 1\n"), ("app.rb", "puts 1\n")]) _
    hexpands hrename rfl rfl hremoved
  refine ⟨_, (hrun.resolve_right ?_).2, mt hgone.mp ?_⟩
  · rintro ⟨error, hbad, -⟩
    cases hbad with
    | exited code hcode => exact hcode rfl
  · -- the path goes through `sub`
    intro hpassed
    exact absurd (hpassed ["p", "out", "sub"] (by decide) (by decide)) (by decide)

end Build

end Desugar
