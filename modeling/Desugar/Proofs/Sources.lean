import Desugar.Proofs.Staging

/-!
# What becomes of the sources

Staging reads the files of the project and writes to the staging directory.  Where the two are
different directories, every source is afterwards what it was, however staging ends, and if it goes
well its filtered text is in the staging directory.

Nothing keeps the settings from naming the project directory itself as the staging directory, as `.`
or `sub/..` do.  Clearing it then takes the sources away before any of them is read
(`Staging.Consumes`).  `Staging.stage_keeps_source_iff` says that this is the only way for a source
to get lost.
-/

namespace Desugar

namespace Staging

open Job (outcome)

variable {world after : World} {dir root : Path} {names : List String} {name : String}

/-! ## Clearing a directory that is there -/

theorem filesIn_succeeds (hdir : world.tree.isDirectoryAt world.cwd dir = true) :
    ∃ names, (filesIn dir).outcome world = (.ok names, world) := by
  obtain ⟨hresolve, hplace⟩ := FileTree.resolve_of_isDirectoryAt hdir
  have hlist : world.tree.list world.cwd dir =
      .ok (world.tree.childNames (dir.target world.cwd)) := by
    rw [FileTree.list, hresolve]
    exact if_pos hplace
  rw [filesIn, Job.outcome_bind, Job.outcome_orFail, Job.outcome_look, hlist,
    Job.mapError_eq_ok_iff.mpr rfl]
  exact ⟨_, rfl⟩

/-- Files that are there can be removed one after the other. -/
theorem removeFiles_succeeds (hdir : world.tree.isDirectoryAt world.cwd dir = true)
    (hnodup : names.Nodup) (hfiles : ∀ name ∈ names, Path.isName name = true ∧
      world.tree.isFile (dir.target world.cwd ++ [name]) = true ∧ (dir.child name).fits = true) :
    ∃ after, (removeFiles dir names).outcome world = (.ok (), after) := by
  induction names generalizing world with
  | nil => exact ⟨world, rfl⟩
  | cons name names ih =>
    rw [List.nodup_cons] at hnodup
    rw [List.forall_mem_cons] at hfiles
    obtain ⟨⟨hname, hfile, hfits⟩, hothers⟩ := hfiles
    have hremove : world.tree.removeFile world.cwd (dir.child name) =
        .ok (world.tree.erase (dir.target world.cwd ++ [name])) := by
      obtain ⟨content, hcontent⟩ := FileTree.isFile_iff.mp hfile
      rw [FileTree.removeFile, FileTree.resolve_child hdir hname, if_pos hfits, hcontent]
      exact if_pos hfile
    have hsame := FileTree.sameButFiles_erase hfile
    let middle : World := { world with tree := world.tree.erase (dir.target world.cwd ++ [name]) }
    have hdir' : middle.tree.isDirectoryAt middle.cwd dir = true := hsame.isDirectoryAt hdir
    have hothers' : ∀ other ∈ names, Path.isName other = true ∧
        middle.tree.isFile (dir.target middle.cwd ++ [other]) = true ∧
        (dir.child other).fits = true := by
      intro other hother
      obtain ⟨hname', hfile', hfits'⟩ := hothers other hother
      refine ⟨hname', ?_, hfits'⟩
      rw [FileTree.isFile, hsame.node?_of_not_mem, ← FileTree.isFile]
      · exact hfile'
      · rw [List.mem_singleton]
        rintro rfl
        exact hnodup.1 hother
    obtain ⟨after, hrest⟩ := ih hdir' hnodup.2 hothers'
    refine ⟨after, ?_⟩
    rw [removeFiles, Job.outcome_bind, Job.outcome_orFail, Job.outcome_change, hremove,
      Job.mapError_eq_ok_iff.mpr rfl]
    exact hrest

/-- Clearing a directory takes a file out of it if the directory is there and the path of the file
is not too long, and otherwise leaves the file as it is. -/
theorem node?_of_clear {result : Except PreprocessError Unit} {content : ByteArray}
    (hwellNamed : world.tree.WellNamed) (h : (clear dir).outcome world = (result, after))
    (hfile : world.tree.node? (dir.target world.cwd ++ [name]) = some (.file content)) :
    after.tree.node? (dir.target world.cwd ++ [name]) =
      if world.tree.isDirectoryAt world.cwd dir && (dir.child name).fits then none
      else some (.file content) := by
  rw [clear, Job.outcome_get_bind] at h
  split at h
  case isTrue hexists =>
    by_cases hdir : world.tree.isDirectoryAt world.cwd dir = true
    · obtain ⟨names, hlisted⟩ := filesIn_succeeds hdir
      obtain ⟨-, hsorted, hmem⟩ := (filesIn_outcome hwellNamed hlisted).2 names rfl
      rw [Job.outcome_bind, hlisted] at h
      simp only at h
      have hnames : ∀ name ∈ names, Path.isName name = true :=
        fun name hname => hwellNamed.isName_of_isFile ((hmem name).mp hname).1
      obtain ⟨cleared, hremoved⟩ := removeFiles_succeeds hdir (hsorted.imp ne_of_lt)
        fun name hname => ⟨hnames name hname, (hmem name).mp hname⟩
      obtain ⟨rfl, rfl⟩ := Prod.mk.inj (hremoved.symm.trans h)
      obtain ⟨-, hsame, hgone⟩ := removeFiles_outcome hremoved hdir hnames
      rw [hdir, Bool.true_and]
      by_cases hfits : (dir.child name).fits = true
      · rw [if_pos hfits]
        exact hgone rfl name ((hmem name).mpr ⟨FileTree.isFile_iff.mpr ⟨content, hfile⟩, hfits⟩)
      · rw [if_neg hfits, hsame.node?_of_not_mem, hfile]
        exact fun hname => hfits ((hmem name).mp hname).2
    · rw [Bool.eq_false_iff.mpr hdir, Bool.false_and, if_neg Bool.false_ne_true]
      rcases Job.bind_cases h with ⟨error, hfailed, rfl⟩ | ⟨names, middle, hlisted, -⟩
      · rw [(filesIn_outcome hwellNamed hfailed).1, hfile]
      · exact absurd ((filesIn_outcome hwellNamed hlisted).2 names rfl).1 hdir
  case isFalse hexists =>
    have hdir : world.tree.isDirectoryAt world.cwd dir = false := by
      rw [Bool.eq_false_iff]
      intro hdir
      rw [FileTree.pathExists, (FileTree.resolve_of_isDirectoryAt hdir).1] at hexists
      exact hexists rfl
    rw [Job.outcome_orFail, Job.outcome_changeAll] at h
    obtain ⟨-, rfl⟩ := Prod.mk.inj h
    rw [hdir, Bool.false_and, if_neg Bool.false_ne_true]
    rcases (FileTree.createAll_grows world.tree world.cwd dir).node?
      (dir.target world.cwd ++ [name]) with hsame | ⟨hfree, -⟩
    · rw [← hfile]
      exact hsame
    · exact absurd (hfile.symm.trans hfree) (by simp)

/-! ## Staging step by step -/

/-- Files that are found in order need not be sorted. -/
theorem filesIn_of_sorted (listed : List String)
    (hlist : world.tree.list world.cwd dir = .ok listed)
    (hfiles : (listed.filter fun name => world.tree.isFileAt world.cwd (dir.child name)) = names)
    (hsorted : names.Pairwise fun a b => decide (a ≤ b) = true) :
    (filesIn dir).outcome world = (.ok names, world) := by
  rw [filesIn, Job.outcome_bind, Job.outcome_orFail, Job.outcome_look, hlist,
    Job.mapError_eq_ok_iff.mpr rfl]
  simp only
  rw [Job.outcome_get_bind, hfiles, List.mergeSort_of_pairwise hsorted, Job.outcome_pure]

theorem stage_of_filesIn {staging : Staging} {cleared : World}
    (hclear : (clear (staging.dirIn root)).outcome world = (.ok (), cleared))
    (hfiles : (filesIn root).outcome cleared = (.ok names, cleared)) :
    (staging.stage root).outcome world =
      (staging.stageFiles root (names.filter staging.selects)).outcome cleared := by
  rw [stage, Job.outcome_bind, hclear]
  simp only
  rw [Job.outcome_bind, hfiles]

/-! ## What staging puts where -/

section Puts

variable {staging : Staging}

/-- From one tree to the other, files of these names in the staging directory have been given the
filtered texts of their sources, and nothing else has changed. -/
def Puts (staging : Staging) (root : Path) (cwd : Place) (before after : FileTree)
    (names : List String) : Prop :=
  ∀ place, after.node? place = before.node? place ∨
    ∃ name ∈ names, place = (staging.dirIn root).target cwd ++ [name] ∧
      ∃ text, before.node? (root.target cwd ++ [name]) = some (.file text.toUTF8) ∧
        after.node? place = some (.file (staging.markers.filter text).toUTF8)

theorem Puts.node?_of_not_mem {cwd : Place} {before after : FileTree}
    (h : staging.Puts root cwd before after names) (hname : name ∉ names) (place : Place) :
    after.node? (place ++ [name]) = before.node? (place ++ [name]) := by
  rcases h (place ++ [name]) with hsame | ⟨other, hother, hplace, -⟩
  · exact hsame
  · have := List.singleton_inj.mp (List.append_inj' hplace rfl).2
    exact absurd (this ▸ hother) hname

/-- What is put first stays, and does not get in the way of what is put after it. -/
theorem Puts.trans {cwd : Place} {before middle after : FileTree}
    (hfirst : staging.Puts root cwd before middle [name])
    (hrest : staging.Puts root cwd middle after names) (hname : name ∉ names) :
    staging.Puts root cwd before after (name :: names) := by
  intro place
  rcases hrest place with hsame | ⟨other, hother, hplace, text, htext, hafter⟩
  · rw [hsame]
    rcases hfirst place with hsame' | ⟨other, hother, hput⟩
    · exact .inl hsame'
    · rw [List.mem_singleton.mp hother] at hput
      exact .inr ⟨name, List.mem_cons_self, hput⟩
  · refine .inr ⟨other, List.mem_cons_of_mem name hother, hplace, text, ?_, hafter⟩
    rw [← htext, hfirst.node?_of_not_mem]
    rw [List.mem_singleton]
    rintro rfl
    exact hname hother

theorem stageFile_puts {result : Except PreprocessError Path} (hname : Path.isName name = true)
    (hfile : world.tree.isFile (root.target world.cwd ++ [name]) = true)
    (h : (staging.stageFile root name).outcome world = (result, after)) :
    after.cwd = world.cwd ∧ staging.Puts root world.cwd world.tree after.tree [name] := by
  rcases stageFile_cases hname hfile h with
    ⟨-, rfl⟩ | ⟨-, hcwd, -, text, htext, ⟨-, htree⟩ | ⟨-, htree⟩⟩
  · exact ⟨rfl, fun _ => .inl rfl⟩
  · refine ⟨hcwd, fun _ => .inl ?_⟩
    rw [htree]
  · refine ⟨hcwd, fun place => ?_⟩
    rw [htree, FileTree.node?_insert (by simp)]
    split
    case isTrue hplace =>
      exact .inr ⟨name, List.mem_singleton_self name, hplace, text, htext, rfl⟩
    case isFalse => exact .inl rfl

/-- Staging files one after the other puts some of them in place, and does nothing else, however it
ends. -/
theorem stageFiles_puts {result : Except PreprocessError (List Path)} (hnodup : names.Nodup)
    (hnames : ∀ name ∈ names, Path.isName name = true)
    (hfiles : ∀ name ∈ names, world.tree.isFile (root.target world.cwd ++ [name]) = true)
    (h : (staging.stageFiles root names).outcome world = (result, after)) :
    staging.Puts root world.cwd world.tree after.tree names := by
  induction names generalizing world result with
  | nil =>
    obtain ⟨-, rfl⟩ := Prod.mk.inj h
    exact fun _ => .inl rfl
  | cons name names ih =>
    rw [List.nodup_cons] at hnodup
    rw [List.forall_mem_cons] at hnames hfiles
    rw [stageFiles] at h
    rcases Job.bind_cases h with ⟨error, hfailed, -⟩ | ⟨path, middle, hstep, h⟩
    · exact (stageFile_puts hnames.1 hfiles.1 hfailed).2.trans (fun _ => .inl rfl) hnodup.1
    obtain ⟨hcwd, hfirst⟩ := stageFile_puts hnames.1 hfiles.1 hstep
    have hfiles' : ∀ other ∈ names,
        middle.tree.isFile (root.target middle.cwd ++ [other]) = true := by
      intro other hother
      rw [hcwd, FileTree.isFile, hfirst.node?_of_not_mem, ← FileTree.isFile]
      · exact hfiles.2 other hother
      · rw [List.mem_singleton]
        rintro rfl
        exact hnodup.1 hother
    -- what comes after the rest of the files does not matter to the tree
    obtain ⟨result', hrest⟩ : ∃ result',
        (staging.stageFiles root names).outcome middle = (result', after) := by
      rcases Job.bind_cases h with ⟨error, hfailed, -⟩ | ⟨paths, last, hrest, hlast⟩
      · exact ⟨_, hfailed⟩
      · rw [Job.outcome_pure] at hlast
        obtain ⟨-, rfl⟩ := Prod.mk.inj hlast
        exact ⟨_, hrest⟩
    have hputs := ih hnodup.2 hnames.2 hfiles' hrest
    rw [hcwd] at hputs
    exact hfirst.trans hputs hnodup.1

end Puts

/-! ## The phases of staging -/

/-- Staging fails when it clears the staging directory, or when it lists the project, or goes on to
stage the selected files that the project has once the staging directory is cleared. -/
theorem stage_cases {staging : Staging} {result : Except PreprocessError (List Path)}
    (hwellNamed : world.tree.WellNamed) (h : (staging.stage root).outcome world = (result, after)) :
    ∃ cleared outcome, (clear (staging.dirIn root)).outcome world = (outcome, cleared) ∧
      cleared.cwd = world.cwd ∧
      ((∃ error, result = .error error) ∧ after = cleared ∨
        ∃ names : List String, names.Nodup ∧ (∀ name ∈ names, Path.isName name = true) ∧
          (∀ name ∈ names, cleared.tree.isFile (root.target cleared.cwd ++ [name]) = true) ∧
          (∀ name, name ∈ names ↔
            cleared.tree.isFile (root.target cleared.cwd ++ [name]) = true ∧
              (root.child name).fits = true ∧ staging.selects name = true) ∧
          cleared.tree.isDirectoryAt cleared.cwd (staging.dirIn root) = true ∧
          (staging.stageFiles root names).outcome cleared = (result, after)) := by
  rw [stage] at h
  rcases Job.bind_cases h with ⟨error, hfailed, rfl⟩ | ⟨_, cleared, hclear, h⟩
  · obtain ⟨hcwd, -⟩ := clear_outcome hwellNamed hfailed
    exact ⟨after, _, hfailed, hcwd, .inl ⟨⟨error, rfl⟩, rfl⟩⟩
  obtain ⟨hcwd, hwellNamed', -, hcleared⟩ := clear_outcome hwellNamed hclear
  refine ⟨cleared, _, hclear, hcwd, ?_⟩
  rcases Job.bind_cases h with ⟨error, hfailed, rfl⟩ | ⟨listed, middle, hlisted, hstaged⟩
  · exact .inl ⟨⟨error, rfl⟩, (filesIn_outcome hwellNamed' hfailed).1⟩
  obtain ⟨rfl, hfiles⟩ := filesIn_outcome hwellNamed' hlisted
  obtain ⟨hroot, hsorted, hmem⟩ := hfiles listed rfl
  have hnames : ∀ name, name ∈ listed.filter staging.selects ↔
      middle.tree.isFile (root.target middle.cwd ++ [name]) = true ∧
        (root.child name).fits = true ∧ staging.selects name = true := by
    intro name
    rw [List.mem_filter, hmem, and_assoc]
  have hisFile : ∀ name ∈ listed.filter staging.selects,
      middle.tree.isFile (root.target middle.cwd ++ [name]) = true :=
    fun name hname => ((hnames name).mp hname).1
  refine .inr ⟨_, (hsorted.filter _).imp ne_of_lt, ?_, hisFile, hnames, ?_, hstaged⟩
  · exact fun name hname => hwellNamed'.isName_of_isFile (hisFile name hname)
  · -- the project directory could be listed, so its path is not empty
    rw [hcwd]
    apply (hcleared rfl).1
    apply text_dirIn_ne_empty
    exact (FileTree.checkPath_eq_ok_iff.mp (FileTree.isDirectoryAt_iff.mp hroot).1).2.1

theorem cwd_of_stage {staging : Staging} {result : Except PreprocessError (List Path)}
    (hwellNamed : world.tree.WellNamed) (h : (staging.stage root).outcome world = (result, after)) :
    after.cwd = world.cwd := by
  obtain ⟨cleared, _, -, hcwd, hrest⟩ := stage_cases hwellNamed h
  rcases hrest with ⟨-, rfl⟩ | ⟨names, hnodup, hnames, hfiles, -, hdir, hstaged⟩
  · exact hcwd
  · exact (stageFiles_outcome hdir hnodup hnames hfiles hstaged).1.trans hcwd

section source

variable {staging : Staging} {content : ByteArray}

/-- The staging directory is the project directory and is there already, so clearing it takes the
source of this name with it. -/
def Consumes (staging : Staging) (root : Path) (world : World) (name : String) : Prop :=
  (staging.dirIn root).target world.cwd = root.target world.cwd ∧
    world.tree.isDirectoryAt world.cwd (staging.dirIn root) = true ∧
    ((staging.dirIn root).child name).fits = true

/-- Clearing the staging directory consumes a source or leaves it as it is. -/
theorem node?_source_of_clear {result : Except PreprocessError Unit}
    (hwellNamed : world.tree.WellNamed)
    (h : (clear (staging.dirIn root)).outcome world = (result, after))
    (hsource : world.tree.node? (root.target world.cwd ++ [name]) = some (.file content)) :
    staging.Consumes root world name ∧ after.tree.node? (root.target world.cwd ++ [name]) = none ∨
      ¬ staging.Consumes root world name ∧
        after.tree.node? (root.target world.cwd ++ [name]) = some (.file content) := by
  by_cases hplace : (staging.dirIn root).target world.cwd = root.target world.cwd
  · have hcleared := node?_of_clear hwellNamed h (hplace ▸ hsource)
    rw [hplace] at hcleared
    rw [hcleared, Consumes, ← Bool.and_eq_true]
    split
    case isTrue htaken => exact .inl ⟨⟨hplace, htaken⟩, rfl⟩
    case isFalse hspared => exact .inr ⟨fun hconsumes => hspared hconsumes.2, rfl⟩
  · obtain ⟨-, -, houtside, -⟩ := clear_outcome hwellNamed h
    exact .inr ⟨fun hconsumes => hplace hconsumes.1, houtside.node?_of_file hplace hsource⟩

/-- What becomes of a source: it is consumed, or it stays, or it is replaced by its own filtered
text where the staging directory has turned out to be the project directory. -/
theorem stage_source_cases {result : Except PreprocessError (List Path)}
    (hwellNamed : world.tree.WellNamed) (h : (staging.stage root).outcome world = (result, after))
    (hsource : world.tree.node? (root.target world.cwd ++ [name]) = some (.file content)) :
    staging.Consumes root world name ∧ after.tree.node? (root.target world.cwd ++ [name]) = none ∨
      ¬ staging.Consumes root world name ∧
        (after.tree.node? (root.target world.cwd ++ [name]) = some (.file content) ∨
          (staging.dirIn root).target world.cwd = root.target world.cwd ∧
            staging.selects name = true ∧ ∃ text, content = text.toUTF8 ∧
              after.tree.node? (root.target world.cwd ++ [name]) =
                some (.file (staging.markers.filter text).toUTF8)) := by
  obtain ⟨cleared, _, hclear, hcwd, hrest⟩ := stage_cases hwellNamed h
  have hcleared := node?_source_of_clear hwellNamed hclear hsource
  rcases hrest with ⟨-, rfl⟩ | ⟨names, hnodup, hnames, hfiles, hmem, -, hstaged⟩
  · exact hcleared.imp_right (And.imp_right .inl)
  have hputs := stageFiles_puts hnodup hnames hfiles hstaged
  rw [hcwd] at hputs
  rcases hputs (root.target world.cwd ++ [name]) with
    hsame | ⟨other, hother, hplace, text, htext, hput⟩
  · rw [hsame]
    exact hcleared.imp_right (And.imp_right .inl)
  · obtain ⟨hdir, hname⟩ := List.append_inj' hplace rfl
    rw [← List.singleton_inj.mp hname] at htext hother
    -- the source was still there to be read, so it was not consumed
    rcases hcleared with ⟨-, hgone⟩ | ⟨hspared, hkept⟩
    · exact absurd (htext.symm.trans hgone) (by simp)
    · have hcontent := Node.file.inj (Option.some.inj (hkept.symm.trans htext))
      exact .inr ⟨hspared, .inr ⟨hdir.symm, ((hmem name).mp hother).2.2, text, hcontent, hput⟩⟩

/-- A selected source in a directory of its own is staged if all goes well. -/
theorem stage_delivers {paths : List Path} (hwellNamed : world.tree.WellNamed)
    (h : (staging.stage root).outcome world = (.ok paths, after))
    (hplace : (staging.dirIn root).target world.cwd ≠ root.target world.cwd)
    (hsource : world.tree.node? (root.target world.cwd ++ [name]) = some (.file content))
    (hselects : staging.selects name = true) (hfits : (root.child name).fits = true)
    (hdevice : ∀ device, world.tree.node? ((staging.dirIn root).target world.cwd ++ [name]) ≠
      some (.device device)) :
    ∃ text, content = text.toUTF8 ∧
      after.tree.node? ((staging.dirIn root).target world.cwd ++ [name]) =
        some (.file (staging.markers.filter text).toUTF8) := by
  obtain ⟨cleared, _, hclear, hcwd, hrest⟩ := stage_cases hwellNamed h
  rcases hrest with ⟨⟨error, herror⟩, -⟩ | ⟨names, hnodup, hnames, hfiles, hmem, hdir, hstaged⟩
  · exact absurd herror (by simp)
  obtain ⟨-, -, houtside, -⟩ := clear_outcome hwellNamed hclear
  have hkept := houtside.node?_of_file hplace hsource
  have hname : name ∈ names := by
    rw [hmem, hcwd]
    exact ⟨FileTree.isFile_iff.mpr ⟨content, hkept⟩, hfits, hselects⟩
  obtain ⟨-, -, hdelivers⟩ := stageFiles_outcome hdir hnodup hnames hfiles hstaged
  obtain ⟨-, text, htext, hput⟩ := (hdelivers paths rfl).2 name hname
  rw [hcwd] at htext hput
  refine ⟨text, Node.file.inj (Option.some.inj (hkept.symm.trans htext)), ?_⟩
  rcases hput with ⟨device, hdevice'⟩ | hput
  · exact absurd (houtside.node?_of_device hdevice') (hdevice device)
  · exact hput

/-- A source is still there after staging, however it ends, unless the staging directory is the
project directory and is there already.  If they are two directories, the source is as it was, and
staging that goes well has put its filtered text into the staging directory; if they turn out to be
one, the source may have been replaced by its filtered text. -/
theorem stage_keeps_source_iff {result : Except PreprocessError (List Path)}
    (hwellNamed : world.tree.WellNamed) (h : (staging.stage root).outcome world = (result, after))
    (hsource : world.tree.node? (root.target world.cwd ++ [name]) = some (.file content)) :
    (after.tree.isFile (root.target world.cwd ++ [name]) = true ↔
        ¬ staging.Consumes root world name) ∧
      ((staging.dirIn root).target world.cwd ≠ root.target world.cwd →
        after.tree.node? (root.target world.cwd ++ [name]) = some (.file content) ∧
          ∀ paths, result = .ok paths → staging.selects name = true →
            (root.child name).fits = true →
            (∀ device, world.tree.node? ((staging.dirIn root).target world.cwd ++ [name]) ≠
              some (.device device)) →
            ∃ text, content = text.toUTF8 ∧
              after.tree.node? ((staging.dirIn root).target world.cwd ++ [name]) =
                some (.file (staging.markers.filter text).toUTF8)) ∧
      (¬ staging.Consumes root world name →
        after.tree.node? (root.target world.cwd ++ [name]) = some (.file content) ∨
          (staging.dirIn root).target world.cwd = root.target world.cwd ∧
            staging.selects name = true ∧ ∃ text, content = text.toUTF8 ∧
              after.tree.node? (root.target world.cwd ++ [name]) =
                some (.file (staging.markers.filter text).toUTF8)) := by
  have hcases := stage_source_cases hwellNamed h hsource
  refine ⟨?_, fun hplace => ⟨?_, ?_⟩, fun hspared => ?_⟩
  · rw [FileTree.isFile_iff]
    rcases hcases with ⟨hconsumes, hgone⟩ | ⟨hspared, hkept | ⟨-, -, text, -, hput⟩⟩
    · simp [hgone, hconsumes]
    · simp [hkept, hspared]
    · simp [hput, hspared]
  · rcases hcases with ⟨hconsumes, -⟩ | ⟨-, hkept | ⟨hsame, -⟩⟩
    · exact absurd hconsumes.1 hplace
    · exact hkept
    · exact absurd hsame hplace
  · rintro paths rfl hselects hfits hdevice
    exact stage_delivers hwellNamed h hplace hsource hselects hfits hdevice
  · exact (hcases.resolve_left fun hconsumed => hspared hconsumed.1).2

/-- Sources are staged in the project directory itself. -/
def inPlace : Staging :=
  { roundabout with dir := ⟨"."⟩ }

/-- The source of the project is lost when it is staged in place. -/
theorem stage_keeps_source_iff_inPlace :
    ∃ result after, (inPlace.stage ⟨"."⟩).outcome staleProject = (result, after) ∧
      staleProject.tree.isFile ["p", "a.rb"] = true ∧
      after.tree.isFile ["p", "a.rb"] = false := by
  rcases h : (inPlace.stage ⟨"."⟩).outcome staleProject with ⟨result, after⟩
  have hwellNamed : staleProject.tree.WellNamed := ⟨by decide, by decide⟩
  have htarget : (⟨"."⟩ : Path).target staleProject.cwd = ["p"] := by decide
  have hsource : staleProject.tree.node? ((⟨"."⟩ : Path).target staleProject.cwd ++ ["a.rb"]) =
      some (.file "# a\nputs 1\n".toUTF8) := by
    rw [htarget]
    rfl
  have hconsumes : inPlace.Consumes ⟨"."⟩ staleProject "a.rb" :=
    ⟨by decide, by decide +kernel, by decide⟩
  have hlost := (stage_keeps_source_iff hwellNamed h hsource).1.not.mpr (not_not.mpr hconsumes)
  rw [htarget] at hlost
  exact ⟨result, after, rfl, by decide +kernel, Bool.eq_false_iff.mpr hlost⟩

end source

end Staging

end Desugar
