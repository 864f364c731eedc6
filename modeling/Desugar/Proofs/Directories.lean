import Desugar.Proofs.Places
import Mathlib.Data.List.Nodup

/-!
# What file operations leave alone

Two relations say how far a tree is changed.  `FileTree.Grows` allows new directories at given
places and nothing else; `FileTree.SameButFiles` allows files of given names to come, go and change
inside one directory and nothing else.  Both leave every directory where it is, so paths that lead
to a directory go on leading there.

Making a directory with all that are missing above it only lets the tree grow on the way of the
path (`FileTree.createAll_grows`), even when it fails half way.
-/

namespace Desugar

namespace FileTree

variable {tree : FileTree} {cwd place : Place}

/-! ## The view of a changed tree -/

/-- Leaving out entries by their place. -/
theorem lookup_filter (keep : Place → Bool) (nodes : List (Place × Node)) :
    (nodes.filter fun entry => keep entry.1).lookup place =
      if keep place then nodes.lookup place else none := by
  induction nodes with
  | nil => simp
  | cons entry nodes ih =>
    obtain ⟨key, node⟩ := entry
    rw [List.filter_cons]
    by_cases hplace : place = key
    · subst hplace
      cases hkeep : keep place <;> simp [hkeep, ih]
    · have hkey : (place == key) = false := beq_eq_false_iff_ne.mpr hplace
      cases keep key <;> simp [List.lookup_cons, hkey, ih]

theorem node?_insert {node : Node} (hplace : place ≠ []) (other : Place) :
    (tree.insert place node).node? other =
      if other = place then some node else tree.node? other := by
  rw [node?, node?, insert, List.lookup_append, lookup_filter (fun other => other ≠ place)]
  by_cases hother : other = place
  · simp [hother, hplace]
  · have : (other == place) = false := by simpa using hother
    simp [hother, List.lookup_cons, this]

theorem node?_erase (hplace : place ≠ []) (other : Place) :
    (tree.erase place).node? other = if other = place then none else tree.node? other := by
  rw [node?, node?, erase, lookup_filter (fun other => other ≠ place)]
  by_cases hother : other = place
  · simp [hother, hplace]
  · simp [hother]

theorem isSome_node?_iff (hplace : place ≠ []) :
    (tree.node? place).isSome = true ↔ place ∈ tree.nodes.map Prod.fst := by
  rw [node?, if_neg hplace, List.lookup_isSome_iff, List.mem_map]
  constructor
  · rintro ⟨entry, hentry, hkey⟩
    exact ⟨entry, hentry, (eq_of_beq hkey).symm⟩
  · rintro ⟨entry, hentry, rfl⟩
    exact ⟨entry, hentry, beq_self_eq_true _⟩

/-- The names inside a directory, from the places alone. -/
theorem childNames_eq :
    tree.childNames place = (tree.nodes.map Prod.fst).filterMap fun other =>
      if other.dropLast = place then other.getLast? else none := by
  rw [childNames, List.filterMap_map]
  rfl

theorem dropLast_getLast?_iff {other : Place} {name : String} :
    (if other.dropLast = place then other.getLast? else none) = some name ↔
      other = place ++ [name] := by
  constructor
  · intro h
    split at h
    · rename_i hplace
      rw [List.getLast?_eq_some_iff] at h
      obtain ⟨front, rfl⟩ := h
      rw [← hplace, List.dropLast_concat]
    · exact absurd h (by simp)
  · rintro rfl
    simp

theorem mem_childNames_iff {name : String} :
    name ∈ tree.childNames place ↔ (tree.node? (place ++ [name])).isSome = true := by
  rw [childNames_eq, List.mem_filterMap, isSome_node?_iff (by simp)]
  simp only [dropLast_getLast?_iff, exists_eq_right]

/-! ## Trees with proper names -/

/-- No place of the tree has two nodes, and the names of its places are names. -/
structure WellNamed (tree : FileTree) : Prop where
  nodup : (tree.nodes.map Prod.fst).Nodup
  isName : ∀ entry ∈ tree.nodes, ∀ name ∈ entry.1, Path.isName name = true

namespace WellNamed

theorem nodup_childNames (h : tree.WellNamed) : (tree.childNames place).Nodup := by
  rw [childNames_eq]
  refine List.Nodup.filterMap ?_ h.nodup
  intro other other' name hother hother'
  rw [Option.mem_def, dropLast_getLast?_iff] at hother hother'
  rw [hother, hother']

theorem isName_of_mem (h : tree.WellNamed) (hplace : (tree.node? place).isSome = true)
    {name : String} (hname : name ∈ place) : Path.isName name = true := by
  have hplace' := (isSome_node?_iff (List.ne_nil_of_mem hname)).mp hplace
  obtain ⟨entry, hentry, rfl⟩ := List.mem_map.mp hplace'
  exact h.isName entry hentry name hname

theorem isName_of_isFile (h : tree.WellNamed) {name : String}
    (hfile : tree.isFile (place ++ [name]) = true) : Path.isName name = true := by
  obtain ⟨content, hcontent⟩ := isFile_iff.mp hfile
  apply h.isName_of_mem (by rw [hcontent, Option.isSome_some])
  exact List.mem_append_right place List.mem_cons_self

theorem erase (h : tree.WellNamed) : (tree.erase place).WellNamed where
  nodup := h.nodup.sublist (List.filter_sublist.map Prod.fst)
  isName entry hentry := h.isName entry (List.mem_of_mem_filter hentry)

theorem insert (h : tree.WellNamed) {directory : Place} {name : String} {node : Node}
    (hdirectory : tree.isDirectory directory = true) (hname : Path.isName name = true) :
    (tree.insert (directory ++ [name]) node).WellNamed where
  nodup := by
    rw [FileTree.insert, List.map_append, List.map_cons, List.map_nil, List.nodup_append]
    refine ⟨h.erase.nodup, by simp, ?_⟩
    intro other hother last hlast hsame
    rw [List.mem_singleton] at hlast
    obtain ⟨entry, hentry, rfl⟩ := List.mem_map.mp hother
    have := List.of_mem_filter hentry
    simp_all
  isName entry hentry := by
    rw [FileTree.insert, List.mem_append, List.mem_singleton] at hentry
    rcases hentry with hentry | rfl
    · exact h.isName entry (List.mem_of_mem_filter hentry)
    · intro other hother
      rcases List.mem_append.mp hother with hother | hother
      · exact h.isName_of_mem (isSome_of_isDirectory hdirectory) hother
      · rwa [List.mem_singleton.mp hother]

end WellNamed

/-! ## Growing trees -/

/-- From one tree to the other, directories have come to be at places that were free, and nothing
else has changed. -/
structure Grows (before after : FileTree) (places : List Place) : Prop where
  node? : ∀ place, after.node? place = before.node? place ∨
    before.node? place = none ∧ after.node? place = some .directory ∧ place ∈ places
  wellNamed : before.WellNamed → after.WellNamed

namespace Grows

variable {before middle after : FileTree} {places : List Place}

theorem refl (tree : FileTree) (places : List Place) : tree.Grows tree places :=
  ⟨fun _ => .inl rfl, id⟩

theorem trans (hfirst : before.Grows middle places) (hsecond : middle.Grows after places) :
    before.Grows after places where
  node? place := by
    rcases hfirst.node? place with hsame | ⟨hfree, hdirectory, hplace⟩
    · rw [← hsame]
      exact hsecond.node? place
    · rcases hsecond.node? place with hsame | ⟨hfree', -, -⟩
      · exact .inr ⟨hfree, hsame.trans hdirectory, hplace⟩
      · exact absurd hfree' (by simp [hdirectory])
  wellNamed h := hsecond.wellNamed (hfirst.wellNamed h)

theorem isDirectory (h : before.Grows after places) (hplace : before.isDirectory place = true) :
    after.isDirectory place = true := by
  rw [FileTree.isDirectory, decide_eq_true_eq] at hplace ⊢
  rcases h.node? place with hsame | ⟨-, hdirectory, -⟩
  · rw [hsame, hplace]
  · exact hdirectory

theorem isFile (h : before.Grows after places) (place : Place) :
    after.isFile place = before.isFile place := by
  rw [FileTree.isFile, FileTree.isFile]
  rcases h.node? place with hsame | ⟨hfree, hdirectory, -⟩
  · rw [hsame]
  · rw [hfree, hdirectory]

end Grows

/-- Directories that stay where they are keep names leading to a directory. -/
theorem walk_mono {before after : FileTree} {here : Place} {names : List String}
    (hmono : ∀ place, before.isDirectory place = true → after.isDirectory place = true)
    (hwalk : before.walk here names = .ok place) (hplace : before.isDirectory place = true) :
    after.walk here names = .ok place := by
  obtain ⟨htarget, hpassed, hshort⟩ := walk_directory_iff.mp ⟨hwalk, hplace⟩
  exact (walk_directory_iff.mpr
    ⟨htarget, fun passed hmem => hmono passed (hpassed passed hmem), hshort⟩).1

/-- Directories that stay where they are keep paths working. -/
theorem isDirectoryAt_mono {before after : FileTree} {path : Path}
    (hmono : ∀ place, before.isDirectory place = true → after.isDirectory place = true)
    (h : before.isDirectoryAt cwd path = true) : after.isDirectoryAt cwd path = true := by
  obtain ⟨hcheck, hpassed, hnames⟩ := isDirectoryAt_iff.mp h
  exact isDirectoryAt_iff.mpr
    ⟨hcheck, fun place hplace => hmono place (hpassed place hplace), hnames⟩

/-! ## Making directories -/

section create

variable {path : Path} {tree' : FileTree}

/-- A name of a path that can be looked up is a name, or one of the two that mean no file. -/
theorem isName_of_mem_names {name : String} (hcheck : checkPath path = .ok ())
    (hmem : name ∈ path.names) (hdot : name ≠ "." ∧ name ≠ "..")
    (hshort : isLongName name = false) :
    Path.isName name = true := by
  obtain ⟨hempty, hslash, hchars⟩ := Path.of_mem_names hmem
  exact Path.isName_iff.mpr ⟨hempty, hdot.1, hdot.2, hslash,
    fun hnull => (checkPath_eq_ok_iff.mp hcheck).1 (hchars _ hnull), hshort⟩

/-- Names that lead to a directory, with the name of something in it behind them, lead there. -/
theorem walk_concat {here directory : Place} {front : List String} {name : String}
    (hwalk : tree.walk here front = .ok directory) (hdirectory : tree.isDirectory directory = true)
    (hname : Path.isName name = true) (hnode : (tree.node? (directory ++ [name])).isSome = true) :
    tree.walk here (front ++ [name]) = .ok (directory ++ [name]) := by
  have hshort := (Path.isName_iff.mp hname).2.2.2.2.2
  have hadvance := Place.advance_of_isName hname directory
  rw [walk_append hwalk hdirectory, walk_cons hdirectory hshort (by rwa [hadvance]), hadvance, walk]

/-- A path whose last name is that of a directory leads there. -/
theorem isDirectoryAt_of_walk {front : List String} {directory : Place} {name : String}
    (hcheck : checkPath path = .ok ()) (hnames : path.names = front ++ [name])
    (hwalk : tree.walk (origin cwd path) front = .ok directory)
    (hdirectory : tree.isDirectory directory = true) (hname : Path.isName name = true)
    (hplace : tree.isDirectory (directory ++ [name]) = true) :
    tree.isDirectoryAt cwd path = true := by
  have hnext := walk_concat hwalk hdirectory hname (isSome_of_isDirectory hplace)
  rw [← hnames] at hnext
  exact isDirectoryAt_eq_true_iff.mpr
    ⟨_, resolve_eq_ok_iff.mpr ⟨hcheck, hnext, fun _ => hplace⟩, hplace⟩

/-- A path whose last name stood in a directory leads to what has come to be there, if directories
have stayed where they were. -/
theorem resolve_of_resolveLast {after : FileTree} {directory : Place} {name : String}
    (h : tree.resolveLast cwd path = .ok (directory, some name))
    (hshort : isLongName name = false) (hends : path.endsInSlash = false)
    (hmono : ∀ place, tree.isDirectory place = true → after.isDirectory place = true)
    (hnode : (after.node? (directory ++ [name])).isSome = true) :
    after.resolve cwd path = .ok (directory ++ [name]) := by
  obtain ⟨hcheck, hdirectory, hdot, hdots, -, front, hnames, hwalk⟩ := of_resolveLast h
  have hname : Path.isName name = true :=
    isName_of_mem_names hcheck (by simp [hnames]) ⟨hdot, hdots⟩ hshort
  have hnext := walk_concat (walk_mono hmono hwalk hdirectory) (hmono _ hdirectory) hname hnode
  rw [← hnames] at hnext
  exact resolve_eq_ok_iff.mpr ⟨hcheck, hnext, by simp [hends]⟩

/-- A directory that is made is a new name in an existing directory. -/
theorem of_create (h : tree.create cwd path = .ok tree') :
    ∃ directory name, path.target cwd = directory ++ [name] ∧ Path.isName name = true ∧
      tree.isDirectory directory = true ∧ tree.node? (directory ++ [name]) = none ∧
      tree' = tree.insert (directory ++ [name]) .directory ∧
      tree'.isDirectoryAt cwd path = true := by
  rw [create, bind_eq_ok_iff] at h
  obtain ⟨⟨directory, name?⟩, hlast, hmade⟩ := h
  cases name? with
  | none => exact absurd hmade (by simp)
  | some name =>
    obtain ⟨hcheck, hdirectory, hdot, hdots, htarget, front, hnames, hwalk⟩ := of_resolveLast hlast
    simp only at hmade
    split at hmade
    case isTrue => exact absurd hmade (by simp)
    case isFalse hshort =>
      split at hmade
      case isTrue => exact absurd hmade (by simp)
      case isFalse hfree =>
        rw [Except.ok.injEq] at hmade
        have hname : Path.isName name = true :=
          isName_of_mem_names hcheck (by simp [hnames]) ⟨hdot, hdots⟩ (by simpa using hshort)
        have hmono : ∀ place, tree.isDirectory place = true → tree'.isDirectory place = true := by
          intro place hplace
          rw [isDirectory, decide_eq_true_eq] at hplace ⊢
          rw [← hmade, node?_insert (by simp), hplace, ite_self]
        -- the way to the directory above is as before, as all on it are still directories
        have hwalk' := walk_mono hmono hwalk hdirectory
        refine ⟨directory, name, htarget, hname, hdirectory, by simpa using hfree, hmade.symm, ?_⟩
        apply isDirectoryAt_of_walk hcheck hnames hwalk' (hmono _ hdirectory) hname
        rw [isDirectory, ← hmade, node?_insert (by simp), if_pos rfl]
        rfl

theorem grows_of_create {places : List Place} (hplace : path.target cwd ∈ places)
    (h : tree.create cwd path = .ok tree') : tree.Grows tree' places := by
  obtain ⟨directory, name, htarget, hname, hdirectory, hfree, rfl, -⟩ := of_create h
  constructor
  case node? =>
    intro place
    rw [node?_insert (by simp)]
    split
    case isTrue hsame =>
      rw [hsame, ← htarget]
      exact .inr ⟨htarget ▸ hfree, rfl, hplace⟩
    case isFalse => exact .inl rfl
  case wellNamed => exact fun hwellNamed => hwellNamed.insert hdirectory hname

/-- Whether the attempt went well or not, the tree has at most grown by the directory. -/
theorem created_grows {places : List Place} (hplace : path.target cwd ∈ places) :
    tree.Grows (tree.created cwd path (tree.create cwd path)).2 places := by
  cases h : tree.create cwd path with
  | ok tree' => exact grows_of_create hplace h
  | error error => exact Grows.refl tree places

theorem isDirectoryAt_of_created
    (h : (tree.created cwd path (tree.create cwd path)).1 = .ok ()) :
    (tree.created cwd path (tree.create cwd path)).2.isDirectoryAt cwd path = true := by
  cases hmade : tree.create cwd path with
  | ok tree' =>
    obtain ⟨_, _, -, -, -, -, -, hdirectory⟩ := of_create hmade
    exact hdirectory
  | error error =>
    rw [hmade, created] at h
    simp only at h
    split at h
    · assumption
    · exact absurd h (by simp)

theorem createNames_grows {absolute : Bool} {names : List String} {places : List Place}
    (hnames : ∀ name ∈ names, name ≠ "" ∧ '/' ∉ name.toList)
    (hplaces : ∀ front, front <+: names.reverse →
      front.foldl Place.advance (if absolute then [] else cwd) ∈ places) :
    tree.Grows (createNames cwd absolute tree names).2 places := by
  -- the names come last first, so the induction goes from a directory to the one above it
  induction names with
  | nil => exact Grows.refl tree places
  | cons name above ih =>
    have hplace : (Path.ofNames absolute (name :: above).reverse).target cwd ∈ places := by
      rw [Path.target, origin, Path.isAbsolute_ofNames, Path.names_ofNames]
      · exact hplaces _ List.prefix_rfl
      all_goals
        intro other hother
        exact hnames other (List.mem_reverse.mp hother)
    have habove : tree.Grows (createNames cwd absolute tree above).2 places := by
      apply ih fun other hother => hnames other (List.mem_cons_of_mem name hother)
      intro front hfront
      apply hplaces front
      rw [List.reverse_cons]
      exact hfront.trans (List.prefix_append _ _)
    rw [createNames]
    split
    · split
      case h_1 grown hgrown =>
        rw [hgrown] at habove
        exact habove.trans (created_grows hplace)
      case h_2 => exact habove
    · exact created_grows hplace

/-- The places that the significant names of a path lead to are passed by the path. -/
theorem foldl_filter_mem_scanl {here : Place} {names front : List String}
    (hfront : front <+: names.filter (· ≠ ".")) :
    front.foldl Place.advance here ∈ names.scanl Place.advance here := by
  induction names generalizing here front with
  | nil =>
    rw [List.filter_nil, List.prefix_nil] at hfront
    rw [hfront]
    exact mem_scanl_self _ _ _
  | cons name names ih =>
    rw [List.scanl_cons]
    by_cases hdot : name = "."
    · -- a `.` is passed without going anywhere
      rw [List.filter_cons_of_neg (by simpa using hdot)] at hfront
      rw [Place.advance, if_pos hdot]
      exact List.mem_cons_of_mem here (ih hfront)
    · rw [List.filter_cons_of_pos (by simpa using hdot), List.prefix_cons_iff] at hfront
      rcases hfront with rfl | ⟨front, rfl, hfront⟩
      · exact List.mem_cons_self
      · exact List.mem_cons_of_mem here (ih hfront)

theorem foldl_significantNames_mem_way {front : List String}
    (hfront : front <+: path.significantNames) :
    front.foldl Place.advance (origin cwd path) ∈ path.way cwd := by
  rw [Path.significantNames] at hfront
  rw [Path.way]
  split at hfront
  case h_1 hnames =>
    rw [List.prefix_nil.mp hfront]
    exact mem_scanl_self _ _ _
  case h_2 name names hnames =>
    rw [hnames]
    split at hfront
    case isTrue hdot =>
      have hdot : name = "." := by simp_all
      apply foldl_filter_mem_scanl
      rwa [List.filter_cons_of_neg (by simpa using hdot)]
    case isFalse =>
      rw [List.singleton_append, List.prefix_cons_iff] at hfront
      rcases hfront with rfl | ⟨front, rfl, hfront⟩
      · exact mem_scanl_self _ _ _
      · rw [List.scanl_cons, List.foldl_cons]
        exact List.mem_cons_of_mem _ (foldl_filter_mem_scanl hfront)

theorem mem_names_of_mem_significantNames {name : String} (h : name ∈ path.significantNames) :
    name ∈ path.names := by
  rw [Path.significantNames] at h
  split at h
  · exact absurd h List.not_mem_nil
  · rename_i first names hnames
    rw [hnames, List.mem_cons]
    rcases List.mem_append.mp h with h | h
    · split at h
      · exact absurd h List.not_mem_nil
      · exact .inl (List.mem_singleton.mp h)
    · exact .inr (List.mem_of_mem_filter h)

/-- Making a directory with all that are missing above it makes directories on the way of the path,
whether it goes well or not. -/
theorem createAll_grows (tree : FileTree) (cwd : Place) (path : Path) :
    tree.Grows (tree.createAll cwd path).2 (path.way cwd) := by
  have hplace : path.target cwd ∈ path.way cwd := foldl_mem_scanl _ _ _
  have habove : tree.Grows
      (createNames cwd path.isAbsolute tree path.significantNames.reverse.tail).2
      (path.way cwd) := by
    apply createNames_grows
    · intro name hname
      have hmem := List.mem_reverse.mp (List.mem_of_mem_tail hname)
      obtain ⟨hempty, hslash, -⟩ := Path.of_mem_names (mem_names_of_mem_significantNames hmem)
      exact ⟨hempty, hslash⟩
    · intro front hfront
      apply foldl_significantNames_mem_way
      rw [List.tail_reverse, List.reverse_reverse] at hfront
      exact hfront.trans (List.dropLast_prefix _)
  rw [createAll]
  split
  · exact Grows.refl tree _
  · split
    · split
      case h_1 grown hgrown =>
        rw [hgrown] at habove
        exact habove.trans (created_grows hplace)
      case h_2 => exact habove
    · exact created_grows hplace

theorem isDirectoryAt_of_createAll (htext : path.text ≠ "")
    (h : (tree.createAll cwd path).1 = .ok ()) :
    (tree.createAll cwd path).2.isDirectoryAt cwd path = true := by
  revert h
  rw [createAll, if_neg htext]
  split
  · split
    · exact isDirectoryAt_of_created
    · rename_i hfailed
      intro h
      exact (hfailed _ (Prod.ext h rfl)).elim
  · exact isDirectoryAt_of_created

end create

/-! ## Trees that differ in files -/

/-- From one tree to the other, nothing has changed but files with these names directly inside a
place, which may have come or gone. -/
structure SameButFiles (before after : FileTree) (place : Place) (names : List String) : Prop where
  node? : ∀ other, after.node? other = before.node? other ∨
    (∃ name ∈ names, other = place ++ [name]) ∧ before.AtMostFile other ∧ after.AtMostFile other
  wellNamed : before.WellNamed → after.WellNamed

namespace SameButFiles

variable {before middle after : FileTree} {names : List String}

theorem refl (tree : FileTree) (place : Place) (names : List String) :
    tree.SameButFiles tree place names :=
  ⟨fun _ => .inl rfl, id⟩

theorem trans (hfirst : before.SameButFiles middle place names)
    (hsecond : middle.SameButFiles after place names) : before.SameButFiles after place names where
  node? other := by
    rcases hfirst.node? other with hsame | ⟨hname, hbefore, hmiddle⟩
    · rcases hsecond.node? other with hsame' | ⟨hname, hmiddle, hafter⟩
      · exact .inl (hsame'.trans hsame)
      · refine .inr ⟨hname, ?_, hafter⟩
        rwa [AtMostFile, ← hsame]
    · rcases hsecond.node? other with hsame | ⟨-, -, hafter⟩
      · refine .inr ⟨hname, hbefore, ?_⟩
        rwa [AtMostFile, hsame]
      · exact .inr ⟨hname, hbefore, hafter⟩
  wellNamed h := hsecond.wellNamed (hfirst.wellNamed h)

theorem mono {more : List String} (h : before.SameButFiles after place names)
    (hsubset : names ⊆ more) : before.SameButFiles after place more where
  node? other := by
    rcases h.node? other with hsame | ⟨⟨name, hname, hother⟩, hrest⟩
    · exact .inl hsame
    · exact .inr ⟨⟨name, hsubset hname, hother⟩, hrest⟩
  wellNamed := h.wellNamed

theorem isDirectory (h : before.SameButFiles after place names) (other : Place) :
    after.isDirectory other = before.isDirectory other := by
  have hnot : ∀ {tree : FileTree}, tree.AtMostFile other → tree.isDirectory other = false := by
    intro tree hfile
    rw [FileTree.isDirectory, decide_eq_false_iff_not]
    intro hdirectory
    obtain ⟨content, hcontent⟩ := hfile _ hdirectory
    exact absurd hcontent (by simp)
  rcases h.node? other with hsame | ⟨-, hbefore, hafter⟩
  · rw [FileTree.isDirectory, FileTree.isDirectory, hsame]
  · rw [hnot hbefore, hnot hafter]

theorem isDirectoryAt (h : before.SameButFiles after place names) {path : Path}
    (hpath : before.isDirectoryAt cwd path = true) : after.isDirectoryAt cwd path = true :=
  isDirectoryAt_mono (fun other hother => (h.isDirectory other).trans hother) hpath

/-- Nothing changes at the place of a file that is not among the names. -/
theorem node?_of_not_mem (h : before.SameButFiles after place names) {name : String}
    (hname : name ∉ names) (other : Place) :
    after.node? (other ++ [name]) = before.node? (other ++ [name]) := by
  rcases h.node? (other ++ [name]) with hsame | ⟨⟨name', hname', hother⟩, -⟩
  · exact hsame
  · have := (List.append_inj' hother rfl).2
    exact absurd (List.singleton_inj.mp this ▸ hname') hname

end SameButFiles

theorem sameButFiles_insert {name : String} {content : ByteArray}
    (hplace : tree.isDirectory place = true) (hname : Path.isName name = true)
    (hfile : tree.AtMostFile (place ++ [name])) :
    tree.SameButFiles (tree.insert (place ++ [name]) (.file content)) place [name] where
  node? other := by
    rw [AtMostFile, AtMostFile, node?_insert (by simp)]
    split
    case isTrue hother =>
      rw [hother]
      exact .inr ⟨⟨name, List.mem_singleton_self name, rfl⟩, hfile, by simp⟩
    case isFalse => exact .inl rfl
  wellNamed h := h.insert hplace hname

theorem sameButFiles_erase {name : String} (hfile : tree.isFile (place ++ [name]) = true) :
    tree.SameButFiles (tree.erase (place ++ [name])) place [name] where
  node? other := by
    rw [AtMostFile, AtMostFile, node?_erase (by simp)]
    split
    case isTrue hother =>
      rw [hother]
      refine .inr ⟨⟨name, List.mem_singleton_self name, rfl⟩, ?_, by simp⟩
      intro node hnode
      obtain ⟨content, hcontent⟩ := isFile_iff.mp hfile
      exact ⟨content, Option.some.inj (hnode.symm.trans hcontent)⟩
    case isFalse => exact .inl rfl
  wellNamed h := h.erase

/-! ## Trees that differ around one directory -/

/-- From one tree to the other, nothing has changed but files directly inside the directory that a
path leads to, and directories on the way of the path that were missing and have been made. -/
def SameOutside (before after : FileTree) (cwd : Place) (path : Path) : Prop :=
  ∀ place, after.node? place = before.node? place ∨
    (∃ name, place = path.target cwd ++ [name]) ∧ before.AtMostFile place ∧
      after.AtMostFile place ∨
    before.node? place = none ∧ after.node? place = some .directory ∧ place ∈ path.way cwd

section SameOutside

variable {before middle after : FileTree} {path : Path} {names : List String}

theorem SameButFiles.sameOutside (h : before.SameButFiles after (path.target cwd) names) :
    before.SameOutside after cwd path := by
  intro place
  rcases h.node? place with hsame | ⟨⟨name, -, hplace⟩, hfiles⟩
  · exact .inl hsame
  · exact .inr (.inl ⟨⟨name, hplace⟩, hfiles⟩)

theorem Grows.sameOutside (h : before.Grows after (path.way cwd)) :
    before.SameOutside after cwd path := by
  intro place
  rcases h.node? place with hsame | hmade
  · exact .inl hsame
  · exact .inr (.inr hmade)

/-- No device comes to be. -/
theorem SameOutside.node?_of_device (h : before.SameOutside after cwd path) {device : Device}
    (hdevice : after.node? place = some (.device device)) :
    before.node? place = some (.device device) := by
  rcases h place with hsame | ⟨-, -, hafter⟩ | ⟨-, hdirectory, -⟩
  · rw [← hsame, hdevice]
  · obtain ⟨content, hcontent⟩ := hafter _ hdevice
    exact absurd hcontent (by simp)
  · exact absurd (hdirectory.symm.trans hdevice) (by simp)

/-- A file in another directory stays as it is. -/
theorem SameOutside.node?_of_file (h : before.SameOutside after cwd path)
    (hplace : path.target cwd ≠ place) {name : String} {content : ByteArray}
    (hfile : before.node? (place ++ [name]) = some (.file content)) :
    after.node? (place ++ [name]) = some (.file content) := by
  rcases h (place ++ [name]) with hsame | ⟨⟨other, hother⟩, -⟩ | ⟨hfree, -⟩
  · rw [hsame, hfile]
  · exact absurd (List.append_inj' hother rfl).1.symm hplace
  · exact absurd (hfile.symm.trans hfree) (by simp)

theorem SameOutside.trans_sameButFiles (hfirst : before.SameOutside middle cwd path)
    (hsecond : middle.SameButFiles after (path.target cwd) names) :
    before.SameOutside after cwd path := by
  intro place
  rcases hsecond.node? place with hsame | ⟨⟨name, -, hplace⟩, hmiddle, hafter⟩
  · rw [AtMostFile, AtMostFile, hsame]
    exact hfirst place
  · rcases hfirst place with hsame | ⟨-, hbefore, -⟩ | ⟨-, hdirectory, -⟩
    · rw [AtMostFile, hsame] at hmiddle
      exact .inr (.inl ⟨⟨name, hplace⟩, hmiddle, hafter⟩)
    · exact .inr (.inl ⟨⟨name, hplace⟩, hbefore, hafter⟩)
    · -- a directory that has been made is not replaced by a file
      obtain ⟨content, hcontent⟩ := hmiddle _ hdirectory
      exact absurd hcontent (by simp)

end SameOutside

end FileTree

end Desugar
