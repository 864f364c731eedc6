import Desugar.Proofs.Directories

/-!
# Renaming and removing directories

What the two operations that reach below a place do to the view of a tree.  Renaming takes what is
at and below a place to another place (`FileTree.node?_move`); it never takes anything into itself
or away with what it replaces, as long as every node of the tree is in a directory
(`FileTree.Connected`).

Removing a directory with all that is below it ends well only if its path leads nowhere afterwards
(`FileTree.pathExists_of_removeAll`).  The directory itself is not always gone: a path such as
`out/sub/..` leads nowhere as soon as `sub` is, and `out` is then left behind, empty.
`FileTree.node?_target_of_removeAll_iff` says that this is the only way it can stay.
-/

namespace Desugar

/-! ## Moving a part of a tree -/

/-- Where a place is once what is at and below `source` has been moved to `target`. -/
def Place.moved (source target place : Place) : Place :=
  if source.isPrefixOf place then target ++ place.drop source.length else place

namespace Place

variable {source target place rest : Place}

theorem moved_append (source target rest : Place) :
    moved source target (source ++ rest) = target ++ rest := by
  simp [moved]

theorem moved_of_not_below (h : ¬ source <+: place) : moved source target place = place := by
  rw [← List.isPrefixOf_iff_prefix] at h
  rw [moved, if_neg h]

/-- What comes to be below the target was below the source, if it was not there before. -/
theorem moved_eq_append_iff (hplace : ¬ target <+: place) :
    moved source target place = target ++ rest ↔ place = source ++ rest := by
  by_cases hsource : source <+: place
  · obtain ⟨rest', rfl⟩ := hsource
    rw [moved_append, List.append_cancel_left_eq, List.append_cancel_left_eq]
  · rw [moved_of_not_below hsource]
    constructor
    · rintro rfl
      exact absurd (List.prefix_append target rest) hplace
    · rintro rfl
      exact absurd (List.prefix_append source rest) hsource

/-- What is not below the target afterwards has not been moved. -/
theorem moved_eq_iff {other : Place} (hother : ¬ target <+: other) :
    moved source target place = other ↔ ¬ source <+: place ∧ place = other := by
  by_cases hsource : source <+: place
  · obtain ⟨rest, rfl⟩ := hsource
    rw [moved_append]
    constructor
    · rintro rfl
      exact absurd (List.prefix_append target rest) hother
    · rintro ⟨hnot, -⟩
      exact absurd (List.prefix_append source rest) hnot
  · rw [moved_of_not_below hsource]
    exact ⟨fun h => ⟨hsource, h⟩, And.right⟩

end Place

namespace FileTree

variable {tree tree' : FileTree} {cwd place source target : Place}

/-- Looking up a place among entries that have been given other places. -/
theorem lookup_map_place {move : Place → Place} {nodes : List (Place × Node)} {other : Place}
    (h : ∀ entry ∈ nodes, move entry.1 = place ↔ entry.1 = other) :
    (nodes.map fun entry => (move entry.1, entry.2)).lookup place = nodes.lookup other := by
  induction nodes with
  | nil => rfl
  | cons entry nodes ih =>
    obtain ⟨key, node⟩ := entry
    rw [List.forall_mem_cons] at h
    rw [List.map_cons, List.lookup_cons, List.lookup_cons, ih h.2]
    by_cases hkey : key = other
    · simp [hkey, (h.1.mpr hkey).symm]
    · have hmove : move key ≠ place := fun hmove => hkey (h.1.mp hmove)
      simp [beq_eq_false_iff_ne.mpr (Ne.symm hkey), beq_eq_false_iff_ne.mpr (Ne.symm hmove)]

theorem nodes_move (tree : FileTree) (source target : Place) :
    (tree.move source target).nodes = (tree.eraseAll target).nodes.map fun entry =>
      (Place.moved source target entry.1, entry.2) := by
  rw [move]
  refine List.map_congr_left fun entry _ => ?_
  rw [Place.moved]
  split <;> rfl

theorem lookup_eraseAll_of_not_below (h : ¬ target <+: place) :
    (tree.eraseAll target).nodes.lookup place = tree.nodes.lookup place := by
  rw [← List.isPrefixOf_iff_prefix, Bool.not_eq_true] at h
  rw [eraseAll, lookup_filter fun other => !target.isPrefixOf other, h, Bool.not_false, if_pos rfl]

theorem not_below_of_mem_eraseAll {entry : Place × Node}
    (h : entry ∈ (tree.eraseAll target).nodes) : ¬ target <+: entry.1 := by
  rw [← List.isPrefixOf_iff_prefix, Bool.not_eq_true]
  simpa using List.of_mem_filter h

/-- Moving takes all that is at and below one place to another place, and leaves all else alone but
what was at and below that place. -/
theorem node?_move (hsource : ¬ source <+: target) (htarget : ¬ target <+: source) :
    (tree.move source target).node? place =
      if target <+: place then tree.node? (source ++ place.drop target.length)
      else if source <+: place then none
      else tree.node? place := by
  have hsource' : source ≠ [] := fun h => hsource (h ▸ List.nil_prefix)
  have htarget' : target ≠ [] := fun h => htarget (h ▸ List.nil_prefix)
  by_cases hempty : place = []
  · simp [hempty, hsource', htarget', node?]
  rw [node?, if_neg hempty, nodes_move]
  split
  case isTrue hplace =>
    obtain ⟨rest, rfl⟩ := hplace
    have hunder : ¬ target <+: source ++ rest := by
      intro hunder
      rcases List.prefix_or_prefix_of_prefix hunder (List.prefix_append source rest) with h | h
      · exact htarget h
      · exact hsource h
    rw [lookup_map_place fun entry hentry =>
        Place.moved_eq_append_iff (not_below_of_mem_eraseAll hentry),
      lookup_eraseAll_of_not_below hunder, List.drop_left, node?, if_neg (by simp [hsource'])]
  case isFalse hplace =>
    split
    case isTrue hbelow =>
      rw [List.lookup_eq_none_iff]
      intro entry hentry
      obtain ⟨entry, -, rfl⟩ := List.mem_map.mp hentry
      rw [bne_iff_ne]
      intro hsame
      obtain ⟨hnot, rfl⟩ := (Place.moved_eq_iff hplace).mp hsame.symm
      exact hnot hbelow
    case isFalse hbelow =>
      have hsame : ∀ entry ∈ (tree.eraseAll target).nodes,
          Place.moved source target entry.1 = place ↔ entry.1 = place := by
        intro entry hentry
        rw [Place.moved_eq_iff hplace]
        constructor
        · exact And.right
        · rintro rfl
          exact ⟨hbelow, rfl⟩
      rw [lookup_map_place hsame, lookup_eraseAll_of_not_below hplace, node?, if_neg hempty]

/-! ## Renaming -/

/-- Every node of the tree is in a directory. -/
def Connected (tree : FileTree) : Prop :=
  ∀ place name, (tree.node? (place ++ [name])).isSome = true → tree.isDirectory place = true

theorem Connected.isDirectory_above {below : Place} (h : tree.Connected)
    (hbelow : (tree.node? below).isSome = true) (hunder : place <+: below) (hne : place ≠ below) :
    tree.isDirectory place = true := by
  obtain ⟨rest, rfl⟩ := hunder
  -- from what is below up to the place, one directory after the other
  induction rest using List.reverseRecOn with
  | nil => exact absurd (List.append_nil place).symm hne
  | append_singleton rest name ih =>
    rw [← List.append_assoc] at hbelow
    have hdirectory := h _ name hbelow
    by_cases hrest : rest = []
    · rwa [hrest, List.append_nil] at hdirectory
    · exact ih (isSome_of_isDirectory hdirectory) (by simpa using hrest)

/-- How a file or directory comes to have another path. -/
structure Renamed (tree : FileTree) (cwd : Place) (source target : Path) (tree' : FileTree) :
    Prop where
  /-- There is something to rename. -/
  isSome : (tree.node? (source.target cwd)).isSome = true
  /-- The new name stands in a directory. -/
  last : ∃ directory name, tree.resolveLast cwd target = .ok (directory, some name) ∧
    isLongName name = false
  /-- It is moved, unless it has that name already. -/
  tree_eq : tree' = if source.target cwd = target.target cwd then tree
    else tree.move (source.target cwd) (target.target cwd)
  of_directory : tree.isDirectory (source.target cwd) = true →
    source.target cwd ≠ target.target cwd →
      ¬ source.target cwd <+: target.target cwd ∧ tree.childNames (target.target cwd) = []
  of_file : tree.isDirectory (source.target cwd) = false → target.endsInSlash = false ∧
    (source.target cwd ≠ target.target cwd → ¬ target.target cwd <+: source.target cwd ∧
      tree.isDirectory (target.target cwd) = false)

theorem renamed_of_rename {source target : Path} (h : tree.rename cwd source target = .ok tree') :
    tree.Renamed cwd source target tree' := by
  simp only [rename, bind_eq_ok_iff] at h
  obtain ⟨⟨sourceDirectory, sourceName?⟩, hsource, ⟨targetDirectory, targetName?⟩, htarget, h⟩ := h
  cases sourceName? with
  | none => exact absurd h (by simp)
  | some sourceName =>
  cases targetName? with
  | none => exact absurd h (by simp)
  | some targetName =>
    have hsource' := (of_resolveLast hsource).2.2.2.2.1
    have htarget' := (of_resolveLast htarget).2.2.2.2.1
    simp only [← hsource', ← htarget'] at h
    simp only [Bool.or_eq_true] at h
    split at h
    case h_1 => exact absurd h (by simp)
    case h_2 hnode =>
      have hdirectory : tree.isDirectory (source.target cwd) = true := by
        simp [isDirectory, hnode]
      split at h
      case isTrue => exact absurd h (by simp)
      case isFalse hshort =>
        rw [not_or, Bool.not_eq_true, Bool.not_eq_true] at hshort
        refine ⟨by simp [hnode], ⟨_, _, htarget, hshort.2⟩, ?_, ?_, by simp [hdirectory]⟩
        · grind
        · grind
    case h_3 node hne hnode =>
      have hdirectory : tree.isDirectory (source.target cwd) = false := by
        simpa [isDirectory, hnode] using hne
      split at h
      case isTrue => exact absurd h (by simp)
      case isFalse hshort =>
        rw [not_or, Bool.not_eq_true, Bool.not_eq_true] at hshort
        refine ⟨by simp [hnode], ⟨_, _, htarget, hshort.2⟩, ?_, by simp [hdirectory], ?_⟩
        · grind
        · grind

namespace Renamed

variable {source target : Path} (h : tree.Renamed cwd source target tree')
include h

/-- Nothing is moved into itself, nor into the place of what it is in. -/
theorem apart (hconnected : tree.Connected) (hne : source.target cwd ≠ target.target cwd) :
    ¬ source.target cwd <+: target.target cwd ∧ ¬ target.target cwd <+: source.target cwd := by
  by_cases hsource : tree.isDirectory (source.target cwd) = true
  · obtain ⟨hinto, hempty⟩ := h.of_directory hsource hne
    refine ⟨hinto, ?_⟩
    rintro ⟨rest, hrest⟩
    cases rest with
    | nil => exact hne (by rw [← hrest, List.append_nil])
    | cons name rest =>
      -- the first name on the way down to the source is in the directory that it would replace
      have hchild : (tree.node? (target.target cwd ++ [name])).isSome = true := by
        by_cases hlast : rest = []
        · rw [← hlast, hrest]
          exact h.isSome
        · apply isSome_of_isDirectory
          apply hconnected.isDirectory_above h.isSome
          · exact ⟨rest, by rw [← hrest, List.append_assoc]; rfl⟩
          · rw [← hrest]
            simpa using Ne.symm hlast
      rw [← mem_childNames_iff, hempty] at hchild
      exact absurd hchild List.not_mem_nil
  · rw [Bool.not_eq_true] at hsource
    obtain ⟨hout, -⟩ := (h.of_file hsource).2 hne
    refine ⟨?_, hout⟩
    intro hinto
    -- the new name stands in a directory, so the file is not on the way to it
    obtain ⟨directory, name, hlast, -⟩ := h.last
    obtain ⟨-, hdirectory, -, -, htarget, -⟩ := of_resolveLast hlast
    rw [htarget, List.prefix_concat_iff, ← htarget] at hinto
    have habove := hinto.resolve_left hne
    by_cases hsame : source.target cwd = directory
    · rw [hsame, hdirectory] at hsource
      exact Bool.noConfusion hsource
    · rw [hconnected.isDirectory_above (isSome_of_isDirectory hdirectory) habove hsame] at hsource
      exact Bool.noConfusion hsource

/-- What was at and below the old path is at and below the new one. -/
theorem node?_append (hconnected : tree.Connected) (rest : Place) :
    tree'.node? (target.target cwd ++ rest) = tree.node? (source.target cwd ++ rest) := by
  rw [h.tree_eq]
  split
  case isTrue hsame => rw [hsame]
  case isFalse hne =>
    obtain ⟨hinto, hout⟩ := h.apart hconnected hne
    rw [node?_move hinto hout, if_pos (List.prefix_append _ _), List.drop_left]

/-- A new name in the same directory does not matter to the other files there, but to one that had
that name already. -/
theorem node?_concat {directory : Place} {old new name : String}
    (hsource : source.target cwd = directory ++ [old])
    (htarget : target.target cwd = directory ++ [new]) (hname : name ≠ new) :
    tree'.node? (directory ++ [name]) =
      if name = old then none else tree.node? (directory ++ [name]) := by
  have hunder : ∀ {a b : String}, directory ++ [a] <+: directory ++ [b] ↔ b = a := by
    intro a b
    rw [List.prefix_append_right_inj, List.cons_prefix_cons, eq_comm]
    simp
  rw [h.tree_eq, hsource, htarget]
  split
  case isTrue hsame =>
    have hold : old = new := List.singleton_inj.mp (List.append_cancel_left hsame)
    rw [if_neg (hold ▸ hname)]
  case isFalse hne =>
    have hold : old ≠ new := fun hold => hne (by rw [hold])
    rw [node?_move (mt hunder.mp hold.symm) (mt hunder.mp hold), if_neg (mt hunder.mp hname)]
    simp only [hunder]

/-- A file that is renamed leaves all directories where they are. -/
theorem isDirectory_of_file (hconnected : tree.Connected)
    (hfile : tree.isDirectory (source.target cwd) = false)
    (hplace : tree.isDirectory place = true) : tree'.isDirectory place = true := by
  rw [h.tree_eq]
  split
  case isTrue => exact hplace
  case isFalse hne =>
    obtain ⟨hinto, hout⟩ := h.apart hconnected hne
    have hbelow : ∀ {other : Place}, tree.isDirectory other = false → ¬ other <+: place := by
      intro other hother hunder
      by_cases hsame : other = place
      · rw [hsame, hplace] at hother
        exact Bool.noConfusion hother
      · rw [hconnected.isDirectory_above (isSome_of_isDirectory hplace) hunder hsame] at hother
        exact Bool.noConfusion hother
    rw [isDirectory, node?_move hinto hout, if_neg (hbelow ((h.of_file hfile).2 hne).2),
      if_neg (hbelow hfile), ← isDirectory]
    exact hplace

/-- The content of a file that is renamed is read from its new path. -/
theorem read_eq (hconnected : tree.Connected) {content : ByteArray}
    (hnode : tree.node? (source.target cwd) = some (.file content)) :
    tree'.read cwd target = .ok content := by
  have hfile : tree.isDirectory (source.target cwd) = false := by simp [isDirectory, hnode]
  have hmoved := h.node?_append hconnected []
  rw [List.append_nil, List.append_nil, hnode] at hmoved
  obtain ⟨directory, name, hlast, hshort⟩ := h.last
  have htarget := (of_resolveLast hlast).2.2.2.2.1
  have hresolve := resolve_of_resolveLast hlast hshort (h.of_file hfile).1
    (fun _ => h.isDirectory_of_file hconnected hfile) (by rw [← htarget, hmoved]; rfl)
  rw [read, hresolve, ← htarget]
  simp [bind, Except.bind, hmoved]

end Renamed

/-! ## Removing a directory with all below it -/

theorem node?_eraseBelow (other : Place) :
    (tree.eraseBelow place).node? other =
      if place <+: other ∧ other ≠ place then none else tree.node? other := by
  by_cases hempty : other = []
  · have hsame : ¬ (place <+: other ∧ other ≠ place) := by
      rintro ⟨hunder, hne⟩
      rw [hempty, List.prefix_nil] at hunder
      exact hne (hempty.trans hunder.symm)
    rw [if_neg hsame, hempty]
    rfl
  · rw [node?, node?, if_neg hempty, if_neg hempty, eraseBelow,
      lookup_filter fun other => !(place.isPrefixOf other && other ≠ place)]
    by_cases hbelow : place <+: other ∧ other ≠ place
    · rw [if_pos hbelow, if_neg (by simpa using hbelow)]
    · have hkept : (place.isPrefixOf other && other ≠ place) = false := by
        rw [Bool.eq_false_iff]
        simpa using hbelow
      rw [if_neg hbelow, hkept, Bool.not_false, if_pos rfl]

/-- A path without a name leads to the top. -/
theorem names_ne_nil {path : Path} (hcheck : checkPath path = .ok ())
    (htop : path.target cwd ≠ []) : path.names ≠ [] := by
  cases hlist : path.text.toList with
  | nil => exact absurd (by simpa using hlist) (checkPath_eq_ok_iff.mp hcheck).2.1
  | cons c cs =>
    by_cases hslash : c = '/'
    · intro hnames
      have habsolute : path.isAbsolute = true := by simp [Path.isAbsolute, hlist, hslash]
      exact htop (by rw [Path.target, hnames, List.foldl_nil, origin, if_pos habsolute])
    · rw [Path.names, hlist, Path.splitSlashes, if_neg hslash]
      split <;> simp

/-- What the last name of a path leads to is looked at, unless that is `.` or `..`. -/
theorem isSome_of_walk_concat {here : Place} {front : List String} {name : String}
    (hname : name ≠ "." ∧ name ≠ "..") (h : tree.walk here (front ++ [name]) = .ok place) :
    (tree.node? place).isSome = true := by
  induction front generalizing here with
  | nil =>
    rw [List.nil_append, walk, if_neg hname.1, if_neg hname.2] at h
    split at h
    · exact absurd h (by simp)
    · split at h
      · exact absurd h (by simp)
      · split at h
        case isTrue hnode =>
          rw [walk, Except.ok.injEq] at h
          rwa [← h]
        case isFalse => exact absurd h (by simp)
  | cons first front ih => exact ih (of_walk_cons_eq_ok h).2.2

theorem of_removeDirectory {path : Path} (h : tree.removeDirectory cwd path = .ok tree') :
    tree.isDirectoryAt cwd path = true ∧ path.target cwd ≠ [] ∧
      path.names.getLast? ≠ some "." ∧ path.names.getLast? ≠ some ".." ∧
      tree' = tree.erase (path.target cwd) := by
  rw [removeDirectory, bind_eq_ok_iff] at h
  obtain ⟨place, hplace, h⟩ := h
  rw [target_of_resolve hplace]
  rw [isDirectoryAt, hplace]
  grind

theorem pathExists_eq_false {path : Path} (h : ∀ place, tree.resolve cwd path ≠ .ok place) :
    tree.pathExists cwd path = false := by
  rw [pathExists]
  cases hresolve : tree.resolve cwd path with
  | error error => rfl
  | ok place => exact absurd hresolve (h place)

theorem pathExists_of_noEntry {path : Path} (h : tree.removeDirectory cwd path = .error .noEntry) :
    tree.pathExists cwd path = false := by
  refine pathExists_eq_false fun place hresolve => ?_
  rw [removeDirectory, hresolve] at h
  simp only [bind, Except.bind] at h
  grind

/-- A directory that has been removed has no path any more. -/
theorem pathExists_of_removeDirectory {path : Path}
    (h : tree.removeDirectory cwd path = .ok tree') : tree'.pathExists cwd path = false := by
  obtain ⟨hdirectory, htop, hdot, hdots, rfl⟩ := of_removeDirectory h
  refine pathExists_eq_false fun place hresolve => ?_
  obtain ⟨hcheck, hwalk, -⟩ := resolve_eq_ok_iff.mp hresolve
  rw [← target_of_resolve hresolve] at hwalk
  -- the last name is looked at and is not there
  obtain ⟨front, name, hnames⟩ :=
    (List.eq_nil_or_concat path.names).resolve_left (names_ne_nil hcheck htop)
  rw [List.concat_eq_append] at hnames
  rw [hnames, List.getLast?_concat] at hdot hdots
  rw [hnames] at hwalk
  have hnode := isSome_of_walk_concat
    ⟨fun h => hdot (congrArg some h), fun h => hdots (congrArg some h)⟩ hwalk
  rw [node?_erase htop, if_pos rfl] at hnode
  exact absurd hnode (by simp)

/-- How a directory is removed with all below it: it is taken away once it is empty, or its path
leads nowhere as soon as what was below it is gone. -/
theorem removeAll_cases {path : Path} (h : tree.removeAll cwd path = (.ok (), tree')) :
    tree.isDirectoryAt cwd path = true ∧
      ((tree.eraseBelow (path.target cwd)).removeDirectory cwd path = .ok tree' ∨
        (tree.eraseBelow (path.target cwd)).pathExists cwd path = false ∧
          tree' = tree.eraseBelow (path.target cwd)) := by
  rw [removeAll] at h
  split at h
  case h_1 => exact absurd h (by simp)
  case h_2 place hplace =>
    obtain rfl := target_of_resolve hplace
    split at h
    case isFalse => exact absurd h (by simp)
    case isTrue hdirectory =>
      refine ⟨isDirectoryAt_eq_true_iff.mpr ⟨_, hplace, hdirectory⟩, ?_⟩
      simp only at h
      split at h
      case h_1 hremoved =>
        rw [hremoved, (Prod.mk.inj h).2]
        exact .inl rfl
      case h_2 hgone =>
        refine .inr ⟨?_, (Prod.mk.inj h).2.symm⟩
        exact pathExists_of_noEntry hgone
      case h_3 => exact absurd h (by simp)

section removeAll

variable {path : Path} (h : tree.removeAll cwd path = (.ok (), tree'))
include h

/-- The path of a directory that has been removed with all below it leads nowhere. -/
theorem pathExists_of_removeAll : tree'.pathExists cwd path = false := by
  obtain ⟨-, hremoved | ⟨hgone, rfl⟩⟩ := removeAll_cases h
  · exact pathExists_of_removeDirectory hremoved
  · exact hgone

/-- Nothing is left below it. -/
theorem node?_below_of_removeAll {rest : Place} (hrest : rest ≠ []) :
    tree'.node? (path.target cwd ++ rest) = none := by
  have hemptied : (tree.eraseBelow (path.target cwd)).node? (path.target cwd ++ rest) = none := by
    rw [node?_eraseBelow, if_pos ⟨List.prefix_append _ _, by simpa using hrest⟩]
  obtain ⟨-, hremoved | ⟨-, rfl⟩⟩ := removeAll_cases h
  · obtain ⟨-, htop, -, -, rfl⟩ := of_removeDirectory hremoved
    rw [node?_erase htop, hemptied, ite_self]
  · exact hemptied

/-- The directory itself is gone if and only if its path did not pass anything below it. -/
theorem node?_target_of_removeAll_iff :
    tree'.node? (path.target cwd) = none ↔
      ∀ passed ∈ path.way cwd, path.target cwd <+: passed → passed = path.target cwd := by
  obtain ⟨hdirectory, hremoved | ⟨hgone, rfl⟩⟩ := removeAll_cases h
  · obtain ⟨hemptied, htop, -, -, rfl⟩ := of_removeDirectory hremoved
    rw [node?_erase htop, if_pos rfl, eq_self_iff_true, true_iff]
    -- once it is empty its path still leads to it, so there is nothing below it on the way
    intro passed hpassed hunder
    have hstill := (isDirectoryAt_iff.mp hemptied).2.1 passed hpassed
    by_contra hne
    rw [isDirectory, node?_eraseBelow, if_pos ⟨hunder, hne⟩] at hstill
    exact absurd hstill (by simp)
  · have hplace := (resolve_of_isDirectoryAt hdirectory).2
    rw [isDirectory, decide_eq_true_eq] at hplace
    rw [node?_eraseBelow, if_neg (fun hbelow => hbelow.2 rfl), hplace, iff_false_left (by simp)]
    intro hway
    -- otherwise all on the way would still be there
    have hstill : (tree.eraseBelow (path.target cwd)).isDirectoryAt cwd path = true := by
      obtain ⟨hcheck, hpassed, hshort⟩ := isDirectoryAt_iff.mp hdirectory
      refine isDirectoryAt_iff.mpr ⟨hcheck, fun passed hmem => ?_, hshort⟩
      have hkept : ¬ (path.target cwd <+: passed ∧ passed ≠ path.target cwd) :=
        fun hbelow => hbelow.2 (hway passed hmem hbelow.1)
      rw [isDirectory, node?_eraseBelow, if_neg hkept, ← isDirectory]
      exact hpassed passed hmem
    rw [pathExists, (resolve_of_isDirectoryAt hstill).1] at hgone
    exact Bool.noConfusion hgone

end removeAll

end FileTree

end Desugar
