import Desugar.Proofs.Builds
import Desugar.Proofs.SourceFiles

/-!
# Which staged sources survive a build

The preprocessor writes its output next to the staged sources, as `_input.rb`, and this file is then
renamed to `output.rb`.  A source called `output.rb` is not staged, so the result takes no source's
place.  Nothing of the kind is done for the other name: a source called `_input.rb` is staged,
written anew by the preprocessor and renamed away.

`Build.staged_source_survives` says that it is the only one that gets lost, if the preprocessor
changes nothing but its output.
-/

namespace Desugar

/-- To run this program with these arguments changes nothing but what is at one path. -/
def Launcher.ChangesOnly (launch : Launcher) (program : String) (args : List String)
    (path : Path) : Prop :=
  ∀ world ended after, (launch program args).outcome world = (ended, after) →
    after.cwd = world.cwd ∧
      ∀ place, place ≠ path.target world.cwd → after.tree.node? place = world.tree.node? place

namespace Build

open Job (outcome)

variable {launch : Launcher} {build : Build} {world after : World} {name : String}

theorem ne_output_of_selects (h : build.staging.selects name = true) :
    name ≠ build.output ++ ".rb" := by
  rintro rfl
  simp [Staging.selects, staging, Staging.excluding] at h

/-- What ends in `.rb` names a file. -/
theorem target_child_rb {stem : String} (hstem : '/' ∉ stem.toList) (base : Path) (cwd : Place) :
    (base.child (stem ++ ".rb")).target cwd = base.target cwd ++ [stem ++ ".rb"] := by
  have hne : ∀ {other : String}, other.toList.getLast? ≠ some 'b' → stem ++ ".rb" ≠ other := by
    rintro _ hother rfl
    exact hother (by simp)
  apply Path.target_child_of_not_mem ⟨hne (by decide), hne (by decide), hne (by decide)⟩
  simpa using hstem

theorem target_expanded (hinput : '/' ∉ build.input.toList) (cwd : Place) :
    build.expanded.target cwd = build.dir.target cwd ++ ["_" ++ build.input ++ ".rb"] := by
  apply target_child_rb
  simpa using hinput

/-- After a build without an interpreter that ends well, the filtered text of a selected source is
in the staging directory, unless it had the name of the preprocessor's output: then nothing has that
name. -/
theorem staged_source_survives {outcome : Outcome} {content : ByteArray}
    (hwellNamed : world.tree.WellNamed) (hdir : Path.isName build.settings.dir.text = true)
    (hinput : '/' ∉ build.input.toList) (houtput : '/' ∉ build.output.toList)
    (hinterpreter : build.interpreter = none)
    (hpreprocessor :
      Launcher.ChangesOnly launch build.compiler build.preprocessorArgs build.expanded)
    (h : (run launch build).outcome world = (.ok outcome, after))
    (hsource : world.tree.node? (build.root.target world.cwd ++ [name]) = some (.file content))
    (hselects : build.staging.selects name = true) (hfits : (build.root.child name).fits = true)
    (hdevice : ∀ device, world.tree.node? (build.dir.target world.cwd ++ [name]) ≠
      some (.device device)) :
    ∃ text, content = text.toUTF8 ∧
      after.tree.node? (build.dir.target world.cwd ++ [name]) =
        if name = "_" ++ build.input ++ ".rb" then none
        else some (.file (build.settings.markers.filter text).toUTF8) := by
  obtain ⟨left, tree, ⟨paths, staged, hstaged, hlaunched⟩, hrename, rfl⟩ :=
    expands_of_preprocess (preprocess_of_run hinterpreter h)
  -- staging puts the filtered text into a directory of its own
  have hplace : build.dir.target world.cwd ≠ build.root.target world.cwd := by
    have hchild : build.dir.target world.cwd =
        build.root.target world.cwd ++ [build.settings.dir.text] :=
      Path.target_child hdir world.cwd
    simp [hchild]
  obtain ⟨text, rfl, hput⟩ :=
    Staging.stage_delivers hwellNamed hstaged hplace hsource hselects hfits hdevice
  -- the preprocessor leaves it there, unless it is where its output goes
  obtain ⟨hcwd, hframe⟩ := hpreprocessor staged _ left hlaunched
  rw [Staging.cwd_of_stage hwellNamed hstaged] at hcwd hframe
  rw [target_expanded hinput] at hframe
  -- and so does the renaming
  have hrenamed := FileTree.renamed_of_rename hrename
  rw [hcwd] at hrenamed
  refine ⟨text, rfl, ?_⟩
  rw [hrenamed.node?_concat (target_expanded hinput _) (target_child_rb houtput _ _)
    (ne_output_of_selects hselects)]
  split
  case isTrue => rfl
  case isFalse hname =>
    rw [hframe]
    · exact hput
    · exact fun hsame => hname (List.singleton_inj.mp (List.append_cancel_left hsame))

/-- The copying preprocessor changes nothing but the file that it copies to. -/
theorem copier_changesOnly (program source flag target : String) :
    Launcher.ChangesOnly copier program [source, flag, target] ⟨target⟩ := by
  intro world ended after h
  have hcopy : ∃ copied, (copy ⟨source⟩ ⟨target⟩).outcome world = (copied, after) := by
    rcases Job.bind_cases h with ⟨error, hfailed, -⟩ | ⟨copied, middle, hcopied, hend⟩
    · exact absurd hfailed (by simp)
    · rw [Job.outcome_attempt] at hcopied
      rw [Job.outcome_pure] at hend
      exact ⟨_, Prod.ext rfl ((Prod.mk.inj hcopied).2.trans (Prod.mk.inj hend).2)⟩
  obtain ⟨copied, hcopy⟩ := hcopy
  rcases Job.bind_cases hcopy with ⟨error, hread, -⟩ | ⟨content, middle, hread, hwrite⟩
  · rw [Job.outcome_look] at hread
    obtain ⟨-, rfl⟩ := Prod.mk.inj hread
    exact ⟨rfl, fun _ _ => rfl⟩
  rw [Job.outcome_look] at hread
  obtain ⟨-, rfl⟩ := Prod.mk.inj hread
  rcases Job.outcome_write world ⟨target⟩ content with
    ⟨error, hfailed, -⟩ | ⟨written, hwritten, htree, hcwd⟩
  · obtain ⟨-, rfl⟩ := Prod.mk.inj (hfailed.symm.trans hwrite)
    exact ⟨rfl, fun _ _ => rfl⟩
  · obtain ⟨-, rfl⟩ := Prod.mk.inj (hwritten.symm.trans hwrite)
    refine ⟨hcwd, fun place hplace => ?_⟩
    exact (FileTree.node?_of_write htree place).resolve_right fun hsame => hplace hsame.1

/-- Of the two sources of a project, `main.rb` is there after the build and `_main.rb` is not. -/
theorem staged_source_survives_twoSources :
    ∃ outcome after, (run copier (buildIn "out" none)).outcome (twoSources [] []) =
        (.ok outcome, after) ∧
      after.tree.node? ["p", "out", "main.rb"] = some (.file "puts 1\n".toUTF8) ∧
      after.tree.node? ["p", "out", "_main.rb"] = none := by
  have hexpands : Expands copier (buildIn "out" none) (twoSources [] [])
      (twoSources [["p", "out"]] [("main.rb", "puts 1\n"), ("_main.rb", "puts 1\n")]) :=
    expands_buildIn rfl (by decide +kernel) (by decide +kernel) rfl rfl
  have hrename : (twoSources [["p", "out"]]
      [("main.rb", "puts 1\n"), ("_main.rb", "puts 1\n")]).tree.rename ["p"]
        (buildIn "out" none).expanded (buildIn "out" none).script =
      .ok (twoSources [["p", "out"]] [("main.rb", "puts 1\n"), ("app.rb", "puts 1\n")]).tree := rfl
  have hrun := run_of_preprocess rfl (preprocess_of_rename hexpands hrename)
  have hwellNamed : (twoSources [] []).tree.WellNamed := ⟨by decide, by decide⟩
  have hdevice : ∀ name device, (twoSources [] []).tree.node? (["p", "out"] ++ [name]) ≠
      some (.device device) := by
    intro name device
    simp [twoSources, FileTree.node?, List.lookup_cons]
  have hsource : (twoSources [] []).tree.node? ((buildIn "out" none).root.target ["p"] ++
      ["main.rb"]) = some (.file "puts 1\n".toUTF8) := rfl
  have hsource' : (twoSources [] []).tree.node? ((buildIn "out" none).root.target ["p"] ++
      ["_main.rb"]) = some (.file "puts 2\n".toUTF8) := rfl
  obtain ⟨text, htext, hmain⟩ := staged_source_survives hwellNamed (by decide) (by decide)
    (by decide) rfl (copier_changesOnly _ _ _ _) hrun hsource (by decide) (by decide) (hdevice _)
  obtain ⟨_, -, hlost⟩ := staged_source_survives hwellNamed (by decide) (by decide)
    (by decide) rfl (copier_changesOnly _ _ _ _) hrun hsource' (by decide) (by decide) (hdevice _)
  have hdecoded := congrArg String.fromUTF8? htext
  rw [FileTree.fromUTF8?_toUTF8, FileTree.fromUTF8?_toUTF8] at hdecoded
  obtain rfl := Option.some.inj hdecoded
  exact ⟨_, _, hrun, hmain, hlost⟩

end Build

end Desugar
