import Desugar.Preprocess.Staging
import Desugar.Proofs.Directories
import Desugar.Proofs.Jobs
import Mathlib.Data.String.Basic

/-!
# The result of staging

Staging clears the staging directory and then filters the selected files of the project into it, one
after the other.  Each of these steps changes files directly inside the staging directory and
nothing else, apart from directories on the way to it that were missing.  The main statement,
`Staging.stage_result`, says so for every way staging can end, and what there is to find in the
staging directory when it went well.

The staging directory is not always empty when the first file is put into it (`Staging.Spares`).  A
path that leads nowhere yet is taken for that of a new directory, but `out/new/..` leads to `out`
once `new` has been made, and the files in `out` stay.  A file whose own path is too long to be
looked up is not seen as a file, and stays too.
-/

namespace Desugar

namespace Staging

open Job (outcome)

variable {world after : World} {dir root : Path} {names : List String}

/-! ## Removing files -/

/-- Removing files takes away nothing but files of those names. -/
theorem removeFiles_outcome {result : Except PreprocessError Unit}
    (h : (removeFiles dir names).outcome world = (result, after))
    (hdir : world.tree.isDirectoryAt world.cwd dir = true)
    (hnames : ∀ name ∈ names, Path.isName name = true) :
    after.cwd = world.cwd ∧ world.tree.SameButFiles after.tree (dir.target world.cwd) names ∧
      (result = .ok () →
        ∀ name ∈ names, after.tree.node? (dir.target world.cwd ++ [name]) = none) := by
  induction names generalizing world with
  | nil =>
    obtain ⟨-, rfl⟩ := Prod.mk.inj h
    exact ⟨rfl, .refl _ _ _, fun _ _ hname => absurd hname List.not_mem_nil⟩
  | cons name names ih =>
    rw [List.forall_mem_cons] at hnames
    rw [removeFiles] at h
    rcases Job.bind_cases h with ⟨error, hfailed, rfl⟩ | ⟨_, middle, hremoved, hrest⟩
    · obtain rfl := Job.of_change_error hfailed
      exact ⟨rfl, .refl _ _ _, fun hok => absurd hok (by simp)⟩
    · obtain ⟨tree, hremove, rfl⟩ := Job.of_change_ok hremoved
      obtain ⟨hfile, htree⟩ := FileTree.of_removeFile hremove
      rw [Path.target_child hnames.1] at hfile htree
      have hfirst : world.tree.SameButFiles tree (dir.target world.cwd) [name] := by
        rw [htree]
        exact FileTree.sameButFiles_erase hfile
      obtain ⟨hcwd, hsame, hgone⟩ := ih hrest (hfirst.isDirectoryAt hdir) hnames.2
      refine ⟨hcwd, (hfirst.mono (by simp)).trans (hsame.mono (by simp)), ?_⟩
      intro hok other hother
      by_cases hmem : other ∈ names
      · exact hgone hok other hmem
      · -- the file that went first is not put back by what follows
        rw [hsame.node?_of_not_mem hmem, htree, FileTree.node?_erase (by simp)]
        rcases List.mem_cons.mp hother with rfl | hother
        · exact if_pos rfl
        · exact absurd hother hmem

/-! ## Listing files -/

theorem pairwise_lt_mergeSort (hnodup : names.Nodup) :
    (names.mergeSort (fun a b => decide (a ≤ b))).Pairwise (· < ·) := by
  have hsorted : (names.mergeSort (fun a b => decide (a ≤ b))).Pairwise
      (fun a b => decide (a ≤ b) = true) := by
    apply List.pairwise_mergeSort
    · intro a b c hab hbc
      rw [decide_eq_true_eq] at hab hbc ⊢
      exact String.le_trans hab hbc
    · intro a b
      simpa using String.le_total a b
  have hnodup' : (names.mergeSort (fun a b => decide (a ≤ b))).Nodup :=
    (List.mergeSort_perm names _).nodup_iff.mpr hnodup
  apply (hsorted.and hnodup').imp
  rintro a b ⟨hle, hne⟩
  exact lt_of_le_of_ne (of_decide_eq_true hle) hne

/-- The files of a directory are listed in order, once each. -/
theorem filesIn_outcome {result : Except PreprocessError (List String)}
    (hwellNamed : world.tree.WellNamed) (h : (filesIn dir).outcome world = (result, after)) :
    after = world ∧ ∀ names, result = .ok names →
      world.tree.isDirectoryAt world.cwd dir = true ∧ names.Pairwise (· < ·) ∧
      ∀ name, name ∈ names ↔
        world.tree.isFile (dir.target world.cwd ++ [name]) = true ∧
          (dir.child name).fits = true := by
  rw [filesIn] at h
  rcases Job.bind_cases h with ⟨error, hfailed, rfl⟩ | ⟨listed, middle, hlisted, hrest⟩
  · obtain rfl := Job.of_look_error hfailed
    exact ⟨rfl, fun names hok => absurd hok (by simp)⟩
  · obtain ⟨hlist, rfl⟩ := Job.of_look_ok hlisted
    rw [Job.outcome_get_bind, Job.outcome_pure] at hrest
    obtain ⟨rfl, rfl⟩ := Prod.mk.inj hrest
    refine ⟨rfl, ?_⟩
    intro names hok
    obtain ⟨hdir, rfl⟩ := FileTree.of_list hlist
    have hnames := Except.ok.inj hok
    refine ⟨hdir, ?_, ?_⟩
    · rw [← hnames]
      exact pairwise_lt_mergeSort (hwellNamed.nodup_childNames.filter _)
    · intro name
      rw [← hnames, List.mem_mergeSort, List.mem_filter, FileTree.mem_childNames_iff]
      constructor
      · rintro ⟨hnode, hfile⟩
        have hname := hwellNamed.isName_of_mem hnode
          (List.mem_append_right _ (List.mem_singleton_self name))
        rw [FileTree.isFileAt_child hdir hname, Bool.and_eq_true] at hfile
        exact hfile.symm
      · rintro ⟨hfile, hfits⟩
        rw [FileTree.isFileAt_child hdir (hwellNamed.isName_of_isFile hfile), hfits, hfile]
        obtain ⟨content, hcontent⟩ := FileTree.isFile_iff.mp hfile
        exact ⟨by rw [hcontent, Option.isSome_some], rfl⟩

/-! ## Clearing a directory -/

/-- The files directly inside a directory that clearing it leaves there: all of them when the path
does not lead to the directory yet, and otherwise those whose own path is too long. -/
def Spares (dir : Path) (world : World) (name : String) : Prop :=
  world.tree.isFile (dir.target world.cwd ++ [name]) = true ∧
    (world.tree.pathExists world.cwd dir = false ∨ (dir.child name).fits = false)

/-- Clearing a directory leaves all outside of it alone.  If it goes well, the directory is there
and has no files but those that are spared. -/
theorem clear_outcome {result : Except PreprocessError Unit}
    (hwellNamed : world.tree.WellNamed) (h : (clear dir).outcome world = (result, after)) :
    after.cwd = world.cwd ∧ after.tree.WellNamed ∧
      world.tree.SameOutside after.tree world.cwd dir ∧
      (result = .ok () →
        (dir.text ≠ "" → after.tree.isDirectoryAt world.cwd dir = true) ∧
        ∀ name, after.tree.isFile (dir.target world.cwd ++ [name]) = true ↔
          Spares dir world name) := by
  rw [clear, Job.outcome_get_bind] at h
  split at h
  case isTrue hexists =>
    rcases Job.bind_cases h with ⟨error, hfailed, rfl⟩ | ⟨names, middle, hlisted, hremoved⟩
    · obtain ⟨rfl, -⟩ := filesIn_outcome hwellNamed hfailed
      exact ⟨rfl, hwellNamed, fun _ => .inl rfl, fun hok => absurd hok (by simp)⟩
    · obtain ⟨rfl, hfiles⟩ := filesIn_outcome hwellNamed hlisted
      obtain ⟨hdir, -, hmem⟩ := hfiles names rfl
      have hnames : ∀ name ∈ names, Path.isName name = true :=
        fun name hname => hwellNamed.isName_of_isFile ((hmem name).mp hname).1
      obtain ⟨hcwd, hsame, hgone⟩ := removeFiles_outcome hremoved hdir hnames
      refine ⟨hcwd, hsame.wellNamed hwellNamed, hsame.sameOutside, fun hok => ?_⟩
      refine ⟨fun _ => hsame.isDirectoryAt hdir, fun name => ?_⟩
      rw [Spares, hexists]
      by_cases hname : name ∈ names
      · have hfits := ((hmem name).mp hname).2
        simp [FileTree.isFile_iff, hgone hok name hname, hfits]
      · -- a file that was not listed has a path that is too long
        rw [FileTree.isFile, hsame.node?_of_not_mem hname, ← FileTree.isFile]
        rw [hmem] at hname
        constructor
        · intro hfile
          exact ⟨hfile, .inr (by simpa [hfile] using hname)⟩
        · exact And.left
  case isFalse hexists =>
    rw [Job.outcome_orFail, Job.outcome_changeAll] at h
    obtain ⟨rfl, rfl⟩ := Prod.mk.inj h
    have hgrows := FileTree.createAll_grows world.tree world.cwd dir
    refine ⟨rfl, hgrows.wellNamed hwellNamed, hgrows.sameOutside, fun hok => ⟨fun htext => ?_, ?_⟩⟩
    · exact FileTree.isDirectoryAt_of_createAll htext (Job.mapError_eq_ok_iff.mp hok)
    · intro name
      rw [Spares, hgrows.isFile]
      exact ⟨fun hfile => ⟨hfile, .inl (by simpa using hexists)⟩, And.left⟩

/-! ## Staging files -/

section stageFiles

variable {staging : Staging} {name : String}

/-- The text of a file of the project, filtered, is in the file of that name in the staging
directory, or has gone to a device of that name. -/
def Delivers (staging : Staging) (root : Path) (cwd : Place) (before after : FileTree)
    (name : String) : Prop :=
  ((staging.dirIn root).child name).fits = true ∧
    ∃ text, before.node? (root.target cwd ++ [name]) = some (.file text.toUTF8) ∧
      ((∃ device, before.node? ((staging.dirIn root).target cwd ++ [name]) =
          some (.device device)) ∨
        after.node? ((staging.dirIn root).target cwd ++ [name]) =
          some (.file (staging.markers.filter text).toUTF8))

/-- Staging a file fails and changes nothing, or puts the filtered text of the source in its place
in the staging directory, unless a device takes it. -/
theorem stageFile_cases {result : Except PreprocessError Path} (hname : Path.isName name = true)
    (hfile : world.tree.isFile (root.target world.cwd ++ [name]) = true)
    (h : (staging.stageFile root name).outcome world = (result, after)) :
    (∃ error, result = .error error) ∧ after = world ∨
      result = .ok ((staging.dirIn root).child name) ∧ after.cwd = world.cwd ∧
        ((staging.dirIn root).child name).fits = true ∧
        ∃ text, world.tree.node? (root.target world.cwd ++ [name]) = some (.file text.toUTF8) ∧
          ((∃ device, world.tree.node? ((staging.dirIn root).target world.cwd ++ [name]) =
              some (.device device)) ∧ after.tree = world.tree ∨
            world.tree.AtMostFile ((staging.dirIn root).target world.cwd ++ [name]) ∧
              after.tree = world.tree.insert ((staging.dirIn root).target world.cwd ++ [name])
                (.file (staging.markers.filter text).toUTF8)) := by
  rw [stageFile] at h
  rcases Job.bind_cases h with ⟨error, hfailed, rfl⟩ | ⟨text, middle, hlooked, hrest⟩
  · exact .inl ⟨⟨error, rfl⟩, Job.of_look_error hfailed⟩
  obtain ⟨hread, rfl⟩ := Job.of_look_ok hlooked
  rcases Job.bind_cases hrest with ⟨error, hfailed, rfl⟩ | ⟨_, written, hwritten, hlast⟩
  · exact .inl ⟨⟨error, rfl⟩, Job.of_write_error hfailed⟩
  obtain ⟨hwrite, hcwd⟩ := Job.of_write_ok hwritten
  rw [Job.outcome_pure] at hlast
  obtain ⟨rfl, rfl⟩ := Prod.mk.inj hlast
  rw [← Path.target_child hname] at hfile
  have hnode := FileTree.node?_of_readText hfile hread
  obtain ⟨hfits, hwrite'⟩ := FileTree.of_write hwrite
  rw [Path.target_child hname] at hnode hwrite'
  exact .inr ⟨rfl, hcwd, hfits, text, hnode, hwrite'⟩

/-- Staging a file changes no other file. -/
theorem stageFile_outcome {result : Except PreprocessError Path}
    (hdir : world.tree.isDirectoryAt world.cwd (staging.dirIn root) = true)
    (hname : Path.isName name = true)
    (hfile : world.tree.isFile (root.target world.cwd ++ [name]) = true)
    (h : (staging.stageFile root name).outcome world = (result, after)) :
    after.cwd = world.cwd ∧
      world.tree.SameButFiles after.tree ((staging.dirIn root).target world.cwd) [name] ∧
      ∀ path, result = .ok path → path = (staging.dirIn root).child name ∧
        staging.Delivers root world.cwd world.tree after.tree name := by
  have hplace := (FileTree.resolve_of_isDirectoryAt hdir).2
  rcases stageFile_cases hname hfile h with
    ⟨⟨error, rfl⟩, rfl⟩ | ⟨rfl, hcwd, hfits, text, hnode, hput⟩
  · exact ⟨rfl, .refl _ _ _, fun path hok => absurd hok (by simp)⟩
  refine ⟨hcwd, ?_⟩
  obtain ⟨hdevice, htree⟩ | ⟨hold, htree⟩ := hput
  · rw [htree]
    refine ⟨.refl _ _ _, fun path hok => ⟨(Except.ok.inj hok).symm, hfits, text, hnode, ?_⟩⟩
    exact .inl hdevice
  · rw [htree]
    refine ⟨FileTree.sameButFiles_insert hplace hname hold,
      fun path hok => ⟨(Except.ok.inj hok).symm, hfits, text, hnode, .inr ?_⟩⟩
    rw [FileTree.node?_insert (by simp), if_pos rfl]

/-- Staging files one after the other changes no others, and each is staged from the text it had at
the start: no file that is still to be read is written before. -/
theorem stageFiles_outcome {result : Except PreprocessError (List Path)}
    (hdir : world.tree.isDirectoryAt world.cwd (staging.dirIn root) = true)
    (hnodup : names.Nodup) (hnames : ∀ name ∈ names, Path.isName name = true)
    (hfiles : ∀ name ∈ names, world.tree.isFile (root.target world.cwd ++ [name]) = true)
    (h : (staging.stageFiles root names).outcome world = (result, after)) :
    after.cwd = world.cwd ∧
      world.tree.SameButFiles after.tree ((staging.dirIn root).target world.cwd) names ∧
      ∀ paths, result = .ok paths → paths = names.map (staging.dirIn root).child ∧
        ∀ name ∈ names, staging.Delivers root world.cwd world.tree after.tree name := by
  induction names generalizing world after result with
  | nil =>
    obtain ⟨rfl, rfl⟩ := Prod.mk.inj h
    refine ⟨rfl, .refl _ _ _, fun paths hok => ⟨(Except.ok.inj hok).symm, ?_⟩⟩
    exact fun name hname => absurd hname List.not_mem_nil
  | cons name names ih =>
    rw [List.nodup_cons] at hnodup
    rw [List.forall_mem_cons] at hnames hfiles
    rw [stageFiles] at h
    rcases Job.bind_cases h with ⟨error, hfailed, rfl⟩ | ⟨path, middle, hstep, h⟩
    · obtain ⟨hcwd, hsame, -⟩ := stageFile_outcome hdir hnames.1 hfiles.1 hfailed
      exact ⟨hcwd, hsame.mono (by simp), fun paths hok => absurd hok (by simp)⟩
    obtain ⟨hcwd, hsame, hfirst⟩ := stageFile_outcome hdir hnames.1 hfiles.1 hstep
    obtain ⟨rfl, hdelivers⟩ := hfirst path rfl
    -- the files that follow have other names, so they are still what they were, in the project and
    -- in the staging directory, even if the two are one
    have hlater : ∀ other ∈ names, ∀ place,
        middle.tree.node? (place ++ [other]) = world.tree.node? (place ++ [other]) := by
      intro other hother place
      apply hsame.node?_of_not_mem
      rw [List.mem_singleton]
      rintro rfl
      exact hnodup.1 hother
    have hdir' : middle.tree.isDirectoryAt middle.cwd (staging.dirIn root) = true := by
      rw [hcwd]
      exact hsame.isDirectoryAt hdir
    have hfiles' : ∀ other ∈ names,
        middle.tree.isFile (root.target middle.cwd ++ [other]) = true := by
      intro other hother
      rw [hcwd, FileTree.isFile, hlater other hother, ← FileTree.isFile]
      exact hfiles.2 other hother
    have hsubset := List.subset_cons_self name names
    rcases Job.bind_cases h with ⟨error, hfailed, rfl⟩ | ⟨paths, last, hrest, h⟩
    · obtain ⟨hcwd', hsame', -⟩ := ih hdir' hnodup.2 hnames.2 hfiles' hfailed
      rw [hcwd] at hcwd' hsame'
      exact ⟨hcwd', (hsame.mono (by simp)).trans (hsame'.mono hsubset),
        fun paths hok => absurd hok (by simp)⟩
    · obtain ⟨hcwd', hsame', hrest'⟩ := ih hdir' hnodup.2 hnames.2 hfiles' hrest
      rw [hcwd] at hcwd' hsame' hrest'
      rw [Job.outcome_pure] at h
      obtain ⟨rfl, rfl⟩ := Prod.mk.inj h
      obtain ⟨rfl, hdelivers'⟩ := hrest' paths rfl
      refine ⟨hcwd', (hsame.mono (by simp)).trans (hsame'.mono hsubset),
        fun paths hok => ⟨(Except.ok.inj hok).symm, ?_⟩⟩
      rw [List.forall_mem_cons]
      constructor
      · rw [Delivers, hsame'.node?_of_not_mem hnodup.1]
        exact hdelivers
      · intro other hother
        rw [Delivers, ← hlater other hother, ← hlater other hother]
        exact hdelivers' other hother

end stageFiles

/-! ## Staging a project -/

theorem text_dirIn_ne_empty (staging : Staging) (hroot : root.text ≠ "") :
    (staging.dirIn root).text ≠ "" := by
  rw [dirIn, Path.join]
  split
  case isTrue habsolute =>
    intro hempty
    simp [Path.isAbsolute, hempty] at habsolute
  case isFalse =>
    split <;> simp [hroot]

/-- What has become of a project whose files `names` have been staged as `paths`. -/
structure Staged (staging : Staging) (root : Path) (before cleared after : World)
    (names : List String) (paths : List Path) : Prop where
  /-- The staging directory was cleared first. -/
  clear : (clear (staging.dirIn root)).outcome before = (.ok (), cleared)
  /-- The staging directory is there. -/
  isDirectoryAt : after.tree.isDirectoryAt before.cwd (staging.dirIn root) = true
  /-- The names are those of the files in the project directory, once the staging directory was
  cleared, that are selected and whose path is not too long. -/
  mem_iff : ∀ name, name ∈ names ↔
    cleared.tree.isFile (root.target before.cwd ++ [name]) = true ∧
      (root.child name).fits = true ∧
      (Path.extension? name).getD "" ∈ staging.extensions ∧ name ∉ staging.exclude
  /-- The names are in order, without repetition. -/
  sorted : names.Pairwise (· < ·)
  /-- The paths are those of the files with these names in the staging directory. -/
  paths_eq : paths = names.map (staging.dirIn root).child
  /-- The paths are in order, name by name, without repetition. -/
  paths_sorted : paths.Pairwise fun path path' => path.names < path'.names
  /-- The files in the staging directory are those with these names, and those that were spared. -/
  isFile_iff : ∀ name,
    after.tree.isFile ((staging.dirIn root).target before.cwd ++ [name]) = true ↔
      name ∈ names ∨ Spares (staging.dirIn root) before name
  /-- Each path leads to its file, which holds the text of the source, filtered. -/
  content : ∀ name ∈ names, ∃ text,
    cleared.tree.node? (root.target before.cwd ++ [name]) = some (.file text.toUTF8) ∧
      after.tree.resolve before.cwd ((staging.dirIn root).child name) =
        .ok ((staging.dirIn root).target before.cwd ++ [name]) ∧
      after.tree.node? ((staging.dirIn root).target before.cwd ++ [name]) =
        some (.file (staging.markers.filter text).toUTF8)

theorem pairwise_child (dir : Path) (hnames : ∀ name ∈ names, Path.isName name = true)
    (hsorted : names.Pairwise (· < ·)) :
    (names.map dir.child).Pairwise fun path path' => path.names < path'.names := by
  rw [List.pairwise_map]
  apply hsorted.imp_of_mem
  intro name name' hname hname' hlt
  rw [Path.names_child (hnames name hname), Path.names_child (hnames name' hname')]
  apply List.append_left_lt
  exact List.cons_lt_cons_iff.mpr (.inl hlt)

/-- However staging ends, nothing has changed but files directly inside the staging directory and
missing directories on the way to it.  If it goes well, the selected files of the project are in the
staging directory with their filtered texts, next to no other files than those that were spared. -/
theorem stage_result {staging : Staging} {result : Except PreprocessError (List Path)}
    (hwellNamed : world.tree.WellNamed)
    (hdevice : ∀ name device,
      world.tree.node? ((staging.dirIn root).target world.cwd ++ [name]) ≠ some (.device device))
    (h : (staging.stage root).outcome world = (result, after)) :
    after.cwd = world.cwd ∧
      world.tree.SameOutside after.tree world.cwd (staging.dirIn root) ∧
      ∀ paths, result = .ok paths →
        ∃ cleared names, staging.Staged root world cleared after names paths := by
  rw [stage] at h
  rcases Job.bind_cases h with ⟨error, hfailed, rfl⟩ | ⟨_, cleared, hclear, h⟩
  · obtain ⟨hcwd, -, houtside, -⟩ := clear_outcome hwellNamed hfailed
    exact ⟨hcwd, houtside, fun paths hok => absurd hok (by simp)⟩
  obtain ⟨hcwd, hwellNamed', houtside, hcleared⟩ := clear_outcome hwellNamed hclear
  rcases Job.bind_cases h with ⟨error, hfailed, rfl⟩ | ⟨listed, middle, hfiles, hstaged⟩
  · obtain ⟨rfl, -⟩ := filesIn_outcome hwellNamed' hfailed
    exact ⟨hcwd, houtside, fun paths hok => absurd hok (by simp)⟩
  obtain ⟨hmiddle, hlisted⟩ := filesIn_outcome hwellNamed' hfiles
  obtain ⟨hroot, hsorted, hmem⟩ := hlisted listed rfl
  rw [hmiddle] at hstaged
  have hsorted' : (listed.filter staging.selects).Pairwise (· < ·) := hsorted.filter _
  have hsources : ∀ name ∈ listed.filter staging.selects,
      cleared.tree.isFile (root.target cleared.cwd ++ [name]) = true :=
    fun name hname => ((hmem name).mp (List.mem_of_mem_filter hname)).1
  have hnames : ∀ name ∈ listed.filter staging.selects, Path.isName name = true :=
    fun name hname => hwellNamed'.isName_of_isFile (hsources name hname)
  -- the project directory could be listed, so its path is not empty, nor is that of the staging
  -- directory
  have hdir : cleared.tree.isDirectoryAt cleared.cwd (staging.dirIn root) = true := by
    rw [hcwd]
    apply (hcleared rfl).1
    apply text_dirIn_ne_empty
    exact (FileTree.checkPath_eq_ok_iff.mp (FileTree.isDirectoryAt_iff.mp hroot).1).2.1
  obtain ⟨hcwd', hsame, hpaths⟩ :=
    stageFiles_outcome hdir (hsorted'.imp ne_of_lt) hnames hsources hstaged
  rw [hcwd] at hsame hpaths hmem hdir
  refine ⟨hcwd'.trans hcwd, houtside.trans_sameButFiles hsame, ?_⟩
  intro paths hok
  obtain ⟨rfl, hdelivers⟩ := hpaths paths hok
  -- no device has come into the staging directory, so what was delivered is in a file there
  have hcontent : ∀ name ∈ listed.filter staging.selects, ∃ text,
      cleared.tree.node? (root.target world.cwd ++ [name]) = some (.file text.toUTF8) ∧
        after.tree.node? ((staging.dirIn root).target world.cwd ++ [name]) =
          some (.file (staging.markers.filter text).toUTF8) := by
    intro name hname
    obtain ⟨-, text, htext, ⟨device, hdevice'⟩ | hafter⟩ := hdelivers name hname
    · exact absurd (houtside.node?_of_device hdevice') (hdevice name device)
    · exact ⟨text, htext, hafter⟩
  refine ⟨cleared, listed.filter staging.selects, hclear, hsame.isDirectoryAt hdir, ?_, hsorted',
    rfl, pairwise_child _ hnames hsorted', ?_, ?_⟩
  · intro name
    rw [List.mem_filter, hmem, and_assoc, selects]
    simp
  · intro name
    by_cases hname : name ∈ listed.filter staging.selects
    · obtain ⟨text, -, hafter⟩ := hcontent name hname
      simp [FileTree.isFile_iff, hafter, hname]
    · rw [FileTree.isFile, hsame.node?_of_not_mem hname, ← FileTree.isFile, (hcleared rfl).2]
      simp [hname]
  · intro name hname
    obtain ⟨text, htext, hafter⟩ := hcontent name hname
    refine ⟨text, htext, ?_, hafter⟩
    rw [FileTree.resolve_child (hsame.isDirectoryAt hdir) (hnames name hname),
      (hdelivers name hname).1, hafter]
    rfl

/-- A project with a file left over from before in `out`. -/
def staleProject : World where
  tree :=
    ⟨[(["p"], .directory), (["p", "a.rb"], .file "# a\nputs 1\n".toUTF8),
      (["p", "out"], .directory), (["p", "out", "old.rb"], .file "old\n".toUTF8)]⟩
  cwd := ["p"]
  stdout := .empty
  stderr := .empty

/-- The project with the missing directory on the roundabout way. -/
def clearedProject : World :=
  { staleProject with tree := staleProject.tree.insert ["p", "out", "new"] .directory }

/-- The staging directory of the project, reached through a directory that is missing. -/
def roundabout : Staging where
  dir := ⟨"out/new/.."⟩
  extensions := ["rb"]
  exclude := []
  markers := ⟨"#pre", "#endpre"⟩

/-- Nothing is taken out of `out` on the way through `new`: the file from before is still there. -/
theorem stage_result_roundabout :
    ∃ after cleared names,
      (roundabout.stage ⟨"."⟩).outcome staleProject = (.ok [⟨"./out/new/../a.rb"⟩], after) ∧
        roundabout.Staged ⟨"."⟩ staleProject cleared after names [⟨"./out/new/../a.rb"⟩] ∧
        after.tree.isFile ["p", "out", "old.rb"] = true ∧ "old.rb" ∉ names := by
  have htarget : (roundabout.dirIn ⟨"."⟩).target staleProject.cwd = ["p", "out"] := by decide
  have hwellNamed : staleProject.tree.WellNamed := ⟨by decide, by decide⟩
  have hdevice : ∀ name device, staleProject.tree.node?
      ((roundabout.dirIn ⟨"."⟩).target staleProject.cwd ++ [name]) ≠ some (.device device) := by
    intro name device
    rw [htarget]
    simp only [staleProject, FileTree.node?, List.lookup_cons, List.cons_append, List.nil_append]
    cases hname : name == "old.rb" <;> simp [hname]
  have hclear : (clear (roundabout.dirIn ⟨"."⟩)).outcome staleProject = (.ok (), clearedProject) :=
    rfl
  -- the listing is sorted by a recursion that does not compute, so its steps are taken one by one
  have hfiles : (filesIn ⟨"."⟩).outcome clearedProject = (.ok ["a.rb"], clearedProject) := by
    have hlist : clearedProject.tree.list clearedProject.cwd ⟨"."⟩ = .ok ["a.rb", "out"] := by
      decide +kernel
    have hkept : (["a.rb", "out"].filter fun name =>
        clearedProject.tree.isFileAt clearedProject.cwd (Path.child ⟨"."⟩ name)) = ["a.rb"] := by
      decide +kernel
    rw [filesIn, Job.outcome_bind, Job.outcome_orFail, Job.outcome_look, hlist,
      Job.mapError_eq_ok_iff.mpr rfl]
    simp only
    rw [Job.outcome_get_bind, hkept, List.mergeSort_singleton, Job.outcome_pure]
  have hselected : ["a.rb"].filter roundabout.selects = ["a.rb"] := by decide
  have hstaged : ((roundabout.stageFiles ⟨"."⟩ ["a.rb"]).outcome clearedProject).1 =
      .ok [⟨"./out/new/../a.rb"⟩] := by
    decide +kernel
  obtain ⟨after, houtcome⟩ : ∃ after, (roundabout.stage ⟨"."⟩).outcome staleProject =
      (.ok [⟨"./out/new/../a.rb"⟩], after) := by
    refine ⟨((roundabout.stageFiles ⟨"."⟩ ["a.rb"]).outcome clearedProject).2, ?_⟩
    rw [stage, Job.outcome_bind, hclear]
    simp only
    rw [Job.outcome_bind, hfiles]
    simp only
    rw [hselected, ← hstaged]
  obtain ⟨-, -, hresult⟩ := stage_result hwellNamed hdevice houtcome
  obtain ⟨cleared, names, hresult⟩ := hresult _ rfl
  have hspared : Spares (roundabout.dirIn ⟨"."⟩) staleProject "old.rb" :=
    ⟨by decide +kernel, .inl (by decide +kernel)⟩
  refine ⟨after, cleared, names, houtcome, hresult, ?_, ?_⟩
  · have hfile := (hresult.isFile_iff "old.rb").mpr (.inr hspared)
    rwa [htarget] at hfile
  · intro hmem
    have hpath := List.mem_map_of_mem (f := (roundabout.dirIn ⟨"."⟩).child) hmem
    rw [← hresult.paths_eq, List.mem_singleton] at hpath
    exact absurd hpath (by decide)

end Staging

end Desugar
