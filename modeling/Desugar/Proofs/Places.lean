import Desugar.Files.Calls
import Mathlib.Data.List.Basic
import Mathlib.Data.List.Infix

/-!
# Where paths lead

A file tree has no links, so the place that a path leads to can be told from its names alone:
`Path.target` is that place, and `Path.way` the places that are passed on the way to it.  Whether
the path does lead there is then a matter of what the tree has at those places, which is what
`FileTree.isDirectoryAt_iff` says.

Reading, writing and removing see and change nothing but the target of the path they are given, and
the target of a file `dir/name` is that of the directory with `name` put behind it.
-/

namespace Desugar

namespace Path

/-! ## The names of a path -/

theorem splitSlashes_ne_nil (cs : List Char) : splitSlashes cs ≠ [] := by
  cases cs with
  | nil => simp [splitSlashes]
  | cons c cs =>
    rw [splitSlashes]
    split
    · exact List.cons_ne_nil _ _
    · split <;> exact List.cons_ne_nil _ _

theorem splitSlashes_append_slash (front back : List Char) :
    splitSlashes (front ++ '/' :: back) = splitSlashes front ++ splitSlashes back := by
  induction front with
  | nil => simp [splitSlashes]
  | cons c front ih =>
    rw [List.cons_append, splitSlashes, splitSlashes, ih]
    split
    · rfl
    · cases hparts : splitSlashes front with
      | nil => exact absurd hparts (splitSlashes_ne_nil front)
      | cons part parts => rfl

theorem splitSlashes_of_not_mem {cs : List Char} (h : '/' ∉ cs) : splitSlashes cs = [cs] := by
  induction cs with
  | nil => rfl
  | cons c cs ih =>
    rw [List.mem_cons, not_or] at h
    rw [splitSlashes, if_neg (Ne.symm h.1), ih h.2]

/-- The parts hold nothing but characters of the text, and no slash. -/
theorem of_mem_splitSlashes {cs part : List Char} {c : Char} (hpart : part ∈ splitSlashes cs)
    (hc : c ∈ part) : c ∈ cs ∧ c ≠ '/' := by
  induction cs generalizing part with
  | nil =>
    rw [splitSlashes, List.mem_singleton] at hpart
    rw [hpart] at hc
    exact absurd hc List.not_mem_nil
  | cons d cs ih =>
    rw [splitSlashes] at hpart
    split at hpart
    case isTrue hslash =>
      rcases List.mem_cons.mp hpart with rfl | hpart
      · exact absurd hc List.not_mem_nil
      · exact ⟨List.mem_cons_of_mem d (ih hpart hc).1, (ih hpart hc).2⟩
    case isFalse hslash =>
      cases hparts : splitSlashes cs with
      | nil => exact absurd hparts (splitSlashes_ne_nil cs)
      | cons first parts =>
        rw [hparts] at hpart ih
        rcases List.mem_cons.mp hpart with rfl | hpart
        · rcases List.mem_cons.mp hc with rfl | hc
          · exact ⟨List.mem_cons_self, hslash⟩
          · have := ih List.mem_cons_self hc
            exact ⟨List.mem_cons_of_mem d this.1, this.2⟩
        · have := ih (List.mem_cons_of_mem first hpart) hc
          exact ⟨List.mem_cons_of_mem d this.1, this.2⟩

/-- The names of a path are not empty, and hold nothing but characters of the path and no slash. -/
theorem of_mem_names {path : Path} {name : String} (h : name ∈ path.names) :
    name ≠ "" ∧ '/' ∉ name.toList ∧ ∀ c ∈ name.toList, c ∈ path.text.toList := by
  rw [names, List.mem_map] at h
  obtain ⟨part, hpart, rfl⟩ := h
  rw [List.mem_filter, decide_eq_true_eq] at hpart
  rw [String.toList_ofList]
  refine ⟨fun hempty => hpart.2 ?_, fun hslash => (of_mem_splitSlashes hpart.1 hslash).2 rfl,
    fun c hc => (of_mem_splitSlashes hpart.1 hc).1⟩
  simpa using congrArg String.toList hempty

@[simp] theorem names_empty : (⟨""⟩ : Path).names = [] := by
  decide

theorem names_append_slash (front back : String) :
    (⟨front ++ "/" ++ back⟩ : Path).names = (⟨front⟩ : Path).names ++ (⟨back⟩ : Path).names := by
  have htext : (front ++ "/" ++ back).toList = front.toList ++ '/' :: back.toList := by simp
  simp only [names, htext, splitSlashes_append_slash, List.filter_append, List.map_append]

theorem names_of_not_mem {name : String} (hempty : name ≠ "") (hslash : '/' ∉ name.toList) :
    (⟨name⟩ : Path).names = [name] := by
  have hlist : name.toList ≠ [] := fun h => hempty (by simpa using h)
  simp [names, splitSlashes_of_not_mem hslash, hlist]

section ofNames

variable {names : List String} (hnames : ∀ name ∈ names, name ≠ "" ∧ '/' ∉ name.toList)
include hnames

theorem names_ofNames (absolute : Bool) : (ofNames absolute names).names = names := by
  have hjoined : (⟨"/".intercalate names⟩ : Path).names = names := by
    induction names with
    | nil => exact names_empty
    | cons name names ih =>
      have hname := hnames name List.mem_cons_self
      cases names with
      | nil =>
        rw [String.intercalate_singleton]
        exact names_of_not_mem hname.1 hname.2
      | cons next names =>
        rw [String.intercalate_cons_cons, names_append_slash, names_of_not_mem hname.1 hname.2,
          ih fun other hother => hnames other (List.mem_cons_of_mem name hother)]
        rfl
  cases absolute with
  | false => simpa [ofNames] using hjoined
  | true =>
    have hslash := names_append_slash "" ("/".intercalate names)
    rw [names_empty, hjoined, List.nil_append, String.empty_append] at hslash
    exact hslash

theorem isAbsolute_ofNames (absolute : Bool) : (ofNames absolute names).isAbsolute = absolute := by
  cases absolute with
  | true => simp [ofNames, isAbsolute]
  | false =>
    rw [isAbsolute, decide_eq_false_iff_not, ofNames]
    cases names with
    | nil => decide
    | cons name names =>
      obtain ⟨hempty, hslash⟩ := hnames name List.mem_cons_self
      have hlist : name.toList ≠ [] := fun h => hempty (by simpa using h)
      have hhead : name.toList.head? ≠ some '/' := fun h => hslash (List.mem_of_head? h)
      cases names with
      | nil => simpa using hhead
      | cons next names =>
        simpa [String.intercalate_cons_cons, List.head?_append_of_ne_nil _ hlist] using hhead

end ofNames

/-- Whether a file or directory can have this name. -/
def isName (name : String) : Bool :=
  name ≠ "" && name ≠ "." && name ≠ ".." && !name.toList.contains '/' &&
    !name.toList.contains '\x00' && !FileTree.isLongName name

theorem isName_iff {name : String} :
    isName name = true ↔ name ≠ "" ∧ name ≠ "." ∧ name ≠ ".." ∧ '/' ∉ name.toList ∧
      '\x00' ∉ name.toList ∧ FileTree.isLongName name = false := by
  simp [isName, and_assoc]

/-- Whether a path is short enough to be looked up. -/
def fits (path : Path) : Bool :=
  path.text.utf8ByteSize < 4096

/-! ## Files inside a directory -/

section child

variable {base : Path} {name : String}

/-- How the path of a file inside a directory is written. -/
theorem text_child (base : Path) {name : String} (hslash : '/' ∉ name.toList) :
    base.text = "" ∧ (base.child name).text = name ∨
      (∃ front, base.text = front ++ "/" ∧ (base.child name).text = front ++ "/" ++ name) ∨
      base.text ≠ "" ∧ (base.child name).text = base.text ++ "/" ++ name := by
  have habsolute : (⟨name⟩ : Path).isAbsolute = false := by
    rw [isAbsolute, decide_eq_false_iff_not]
    intro hhead
    exact hslash (List.mem_of_head? hhead)
  rw [child, join, habsolute, if_neg Bool.false_ne_true]
  by_cases hempty : base.text = ""
  · left
    simp [hempty]
  · by_cases hends : base.endsInSlash = true
    · right
      left
      rw [endsInSlash, decide_eq_true_eq, List.getLast?_eq_some_iff] at hends
      obtain ⟨front, hfront⟩ := hends
      have htext : base.text = String.ofList front ++ "/" := by
        apply String.ext
        simpa using hfront
      refine ⟨String.ofList front, htext, ?_⟩
      simp [endsInSlash, htext]
    · right
      right
      simp [hempty, hends]

theorem names_child_of_not_mem (hempty : name ≠ "") (hslash : '/' ∉ name.toList) :
    (base.child name).names = base.names ++ [name] := by
  have hnames := names_of_not_mem hempty hslash
  change (⟨(base.child name).text⟩ : Path).names = (⟨base.text⟩ : Path).names ++ [name]
  rcases text_child base hslash with ⟨hbase, htext⟩ | ⟨front, hbase, htext⟩ | ⟨-, htext⟩
  · rw [htext, hbase, hnames, names_empty, List.nil_append]
  · -- the slash at the end of the directory makes no name of its own
    have hfront : (⟨base.text⟩ : Path).names = (⟨front⟩ : Path).names := by
      rw [hbase, ← String.append_empty (s := front ++ "/"), names_append_slash, names_empty,
        List.append_nil]
    rw [htext, names_append_slash, hnames, hfront]
  · rw [htext, names_append_slash, hnames]

theorem isAbsolute_child_of_not_mem (hslash : '/' ∉ name.toList) :
    (base.child name).isAbsolute = base.isAbsolute := by
  rw [isAbsolute, isAbsolute]
  rcases text_child base hslash with ⟨hbase, htext⟩ | ⟨front, hbase, htext⟩ | ⟨hbase, htext⟩
  · have hhead : name.toList.head? ≠ some '/' := fun h => hslash (List.mem_of_head? h)
    simp [htext, hbase, hhead]
  · simp [htext, hbase]
  · have hlist : base.text.toList ≠ [] := fun h => hbase (by simpa using h)
    simp [htext, List.head?_append_of_ne_nil _ hlist]

theorem names_child (hname : isName name = true) :
    (base.child name).names = base.names ++ [name] := by
  obtain ⟨hempty, -, -, hslash, -⟩ := isName_iff.mp hname
  exact names_child_of_not_mem hempty hslash

theorem isAbsolute_child (hname : isName name = true) :
    (base.child name).isAbsolute = base.isAbsolute := by
  obtain ⟨-, -, -, hslash, -⟩ := isName_iff.mp hname
  exact isAbsolute_child_of_not_mem hslash

theorem endsInSlash_child (hname : isName name = true) : (base.child name).endsInSlash = false := by
  obtain ⟨hempty, -, -, hslash, -⟩ := isName_iff.mp hname
  have hlist : name.toList ≠ [] := fun h => hempty (by simpa using h)
  have hlast : ∀ stem : List Char, (stem ++ name.toList).getLast? ≠ some '/' := by
    intro stem h
    rw [List.getLast?_append_of_ne_nil _ hlist] at h
    exact hslash (List.mem_of_getLast? h)
  rw [endsInSlash, decide_eq_false_iff_not]
  rcases text_child base hslash with ⟨-, htext⟩ | ⟨front, -, htext⟩ | ⟨-, htext⟩
  · rw [htext]
    exact hlast []
  all_goals
    rw [htext, String.toList_append]
    exact hlast _

end child

end Path

/-! ## Looking paths up -/

/-- The place that a name leads to from a place. -/
def Place.advance (here : Place) (name : String) : Place :=
  if name = "." then here else if name = ".." then here.dropLast else here ++ [name]

theorem Place.advance_of_isName {name : String} (hname : Path.isName name = true) (here : Place) :
    advance here name = here ++ [name] := by
  obtain ⟨-, hdot, hdots, -⟩ := Path.isName_iff.mp hname
  rw [advance, if_neg hdot, if_neg hdots]

namespace Path

/-- The place that a path leads to, whether there is something or not. -/
def target (cwd : Place) (path : Path) : Place :=
  path.names.foldl Place.advance (FileTree.origin cwd path)

/-- The places that a path passes, from where its lookup starts to its target. -/
def way (cwd : Place) (path : Path) : List Place :=
  path.names.scanl Place.advance (FileTree.origin cwd path)

theorem origin_child {base : Path} {name : String} (hname : isName name = true) (cwd : Place) :
    FileTree.origin cwd (base.child name) = FileTree.origin cwd base := by
  rw [FileTree.origin, FileTree.origin, isAbsolute_child hname]

theorem target_child_of_not_mem {base : Path} {name : String}
    (hname : name ≠ "" ∧ name ≠ "." ∧ name ≠ "..") (hslash : '/' ∉ name.toList) (cwd : Place) :
    (base.child name).target cwd = base.target cwd ++ [name] := by
  rw [target, target, FileTree.origin, isAbsolute_child_of_not_mem hslash,
    names_child_of_not_mem hname.1 hslash, List.foldl_append, List.foldl_cons, List.foldl_nil,
    Place.advance, if_neg hname.2.1, if_neg hname.2.2]
  rfl

theorem target_child {base : Path} {name : String} (hname : isName name = true) (cwd : Place) :
    (base.child name).target cwd = base.target cwd ++ [name] := by
  obtain ⟨hempty, hdot, hdots, hslash, -⟩ := isName_iff.mp hname
  exact target_child_of_not_mem ⟨hempty, hdot, hdots⟩ hslash cwd

end Path

namespace FileTree

variable {tree : FileTree} {cwd : Place}

/-- A computation in two steps succeeds if and only if both steps do. -/
theorem bind_eq_ok_iff {ε α β : Type} {first : Except ε α} {second : α → Except ε β} {b : β} :
    first >>= second = .ok b ↔ ∃ a, first = .ok a ∧ second a = .ok b := by
  cases first <;> simp [bind, Except.bind]

theorem checkPath_eq_ok_iff {path : Path} :
    checkPath path = .ok () ↔
      '\x00' ∉ path.text.toList ∧ path.text ≠ "" ∧ path.fits = true := by
  rw [checkPath, Path.fits, decide_eq_true_eq]
  by_cases hnull : '\x00' ∈ path.text.toList
  · simp [hnull]
  · by_cases hempty : path.text = ""
    · simp [hempty]
    · by_cases hlong : path.text.utf8ByteSize ≥ 4096
      · simp [hnull, hempty, hlong]
      · simp [hnull, hempty, hlong, Nat.lt_of_not_le hlong]

theorem checkPath_child {base : Path} {name : String} (hbase : checkPath base = .ok ())
    (hname : Path.isName name = true) :
    checkPath (base.child name) =
      if (base.child name).fits then .ok () else .error .nameTooLong := by
  obtain ⟨hempty, -, -, hslash, hnull, -⟩ := Path.isName_iff.mp hname
  have hnull' : '\x00' ∉ (base.child name).text.toList := by
    have := (checkPath_eq_ok_iff.mp hbase).1
    rcases Path.text_child base hslash with ⟨-, htext⟩ | ⟨front, hbase, htext⟩ | ⟨-, htext⟩
    · rwa [htext]
    · rw [hbase] at this
      rw [htext]
      simp_all
    · rw [htext]
      simp_all
  have hempty' : (base.child name).text ≠ "" := by
    rcases Path.text_child base hslash with ⟨-, htext⟩ | ⟨front, -, htext⟩ | ⟨-, htext⟩ <;>
      simp [htext, hempty]
  by_cases hfits : (base.child name).fits = true
  · rw [if_pos hfits, checkPath_eq_ok_iff]
    exact ⟨hnull', hempty', hfits⟩
  · rw [if_neg hfits]
    rw [Path.fits, decide_eq_true_eq, Nat.not_lt] at hfits
    rw [← List.contains_iff_mem] at hnull'
    rw [checkPath, if_neg hnull', if_neg hempty', if_pos hfits]

/-- What a first name must meet for the walk to go on. -/
theorem of_walk_cons_eq_ok {here place : Place} {name : String} {names : List String}
    (h : tree.walk here (name :: names) = .ok place) :
    tree.isDirectory here = true ∧ isLongName name = false ∧
      tree.walk (Place.advance here name) names = .ok place := by
  rw [walk] at h
  by_cases hhere : tree.isDirectory here = true
  · rw [hhere, Bool.not_true, if_neg Bool.false_ne_true] at h
    refine ⟨hhere, ?_⟩
    rw [Place.advance]
    -- what `.` and `..` lead to is not looked at, and they are short
    by_cases hdot : name = "."
    · rw [if_pos hdot] at h ⊢
      exact ⟨by rw [hdot]; decide, h⟩
    · rw [if_neg hdot] at h ⊢
      by_cases hdots : name = ".."
      · rw [if_pos hdots] at h ⊢
        exact ⟨by rw [hdots]; decide, h⟩
      · rw [if_neg hdots] at h ⊢
        split at h
        · exact absurd h (by simp)
        · split at h
          · exact ⟨by simp_all, h⟩
          · exact absurd h (by simp)
  · simp [hhere] at h

/-- A walk goes on through directories. -/
theorem walk_cons {here : Place} {name : String} {names : List String}
    (hhere : tree.isDirectory here = true) (hname : isLongName name = false)
    (hnext : (tree.node? (Place.advance here name)).isSome = true) :
    tree.walk here (name :: names) = tree.walk (Place.advance here name) names := by
  rw [walk, hhere, Bool.not_true, if_neg Bool.false_ne_true, hname, if_neg Bool.false_ne_true]
  rw [Place.advance] at hnext ⊢
  by_cases hdot : name = "."
  · rw [if_pos hdot, if_pos hdot]
  · rw [if_neg hdot] at hnext ⊢
    rw [if_neg hdot]
    by_cases hdots : name = ".."
    · rw [if_pos hdots, if_pos hdots]
    · rw [if_neg hdots] at hnext ⊢
      rw [if_neg hdots, if_pos hnext]

theorem foldl_advance_of_walk {here place : Place} {names : List String}
    (h : tree.walk here names = .ok place) : names.foldl Place.advance here = place := by
  induction names generalizing here with
  | nil => exact Except.ok.inj h
  | cons name names ih => exact ih (of_walk_cons_eq_ok h).2.2

theorem isSome_of_isDirectory {place : Place} (h : tree.isDirectory place = true) :
    (tree.node? place).isSome = true := by
  rw [isDirectory, decide_eq_true_eq] at h
  rw [h, Option.isSome_some]

theorem isFile_iff {place : Place} :
    tree.isFile place = true ↔ ∃ content, tree.node? place = some (.file content) := by
  rw [isFile]
  rcases tree.node? place with _ | _ | _ | _ <;> simp

theorem mem_scanl_self {α β : Type} (f : β → α → β) (b : β) (l : List α) : b ∈ l.scanl f b := by
  cases l <;> simp

theorem foldl_mem_scanl {α β : Type} (f : β → α → β) (b : β) (l : List α) :
    l.foldl f b ∈ l.scanl f b := by
  induction l generalizing b with
  | nil => simp
  | cons a l ih =>
    rw [List.foldl_cons, List.scanl_cons]
    exact List.mem_cons_of_mem b (ih (f b a))

/-- Names lead to a directory if and only if all that they pass are directories. -/
theorem walk_directory_iff {here place : Place} {names : List String} :
    tree.walk here names = .ok place ∧ tree.isDirectory place = true ↔
      names.foldl Place.advance here = place ∧
        (∀ passed ∈ names.scanl Place.advance here, tree.isDirectory passed = true) ∧
        ∀ name ∈ names, isLongName name = false := by
  induction names generalizing here with
  | nil =>
    simp only [walk, List.foldl_nil, List.scanl_nil, List.mem_singleton, Except.ok.injEq]
    constructor
    · rintro ⟨rfl, h⟩
      simpa using h
    · rintro ⟨rfl, h, -⟩
      exact ⟨rfl, h _ rfl⟩
  | cons name names ih =>
    simp only [List.scanl_cons, List.foldl_cons, List.forall_mem_cons]
    constructor
    · rintro ⟨hwalk, hplace⟩
      obtain ⟨hhere, hname, hwalk⟩ := of_walk_cons_eq_ok hwalk
      obtain ⟨htarget, hpassed, hnames⟩ := ih.mp ⟨hwalk, hplace⟩
      exact ⟨htarget, ⟨hhere, hpassed⟩, hname, hnames⟩
    · rintro ⟨htarget, ⟨hhere, hpassed⟩, hname, hnames⟩
      -- the place behind the first name is where the rest of the way starts
      have hnext : tree.isDirectory (Place.advance here name) = true :=
        hpassed _ (mem_scanl_self _ _ _)
      rw [walk_cons hhere hname (isSome_of_isDirectory hnext)]
      exact ih.mpr ⟨htarget, hpassed, hnames⟩

theorem walk_append {here place : Place} {front back : List String}
    (hwalk : tree.walk here front = .ok place) (hplace : tree.isDirectory place = true) :
    tree.walk here (front ++ back) = tree.walk place back := by
  induction front generalizing here with
  | nil => rw [List.nil_append, Except.ok.inj hwalk]
  | cons name front ih =>
    obtain ⟨hhere, hname, hwalk⟩ := of_walk_cons_eq_ok hwalk
    have hnext : tree.isDirectory (Place.advance here name) = true :=
      (walk_directory_iff.mp ⟨hwalk, hplace⟩).2.1 _ (mem_scanl_self _ _ _)
    rw [List.cons_append, walk_cons hhere hname (isSome_of_isDirectory hnext), ih hwalk]

theorem resolve_eq_ok_iff {path : Path} {place : Place} :
    tree.resolve cwd path = .ok place ↔
      checkPath path = .ok () ∧ tree.walk (origin cwd path) path.names = .ok place ∧
        (path.endsInSlash = true → tree.isDirectory place = true) := by
  simp only [resolve, bind_eq_ok_iff]
  constructor
  · rintro ⟨_, hcheck, found, hwalk, hfound⟩
    split at hfound
    · exact absurd hfound (by simp)
    · rename_i hends
      rw [Except.ok.injEq] at hfound
      subst hfound
      exact ⟨hcheck, hwalk, by simpa using hends⟩
  · rintro ⟨hcheck, hwalk, hends⟩
    refine ⟨(), hcheck, place, hwalk, if_neg ?_⟩
    simpa using hends

/-- A path that is looked up successfully leads to its target. -/
theorem target_of_resolve {path : Path} {place : Place} (h : tree.resolve cwd path = .ok place) :
    path.target cwd = place :=
  foldl_advance_of_walk (resolve_eq_ok_iff.mp h).2.1

theorem isDirectoryAt_eq_true_iff {path : Path} :
    tree.isDirectoryAt cwd path = true ↔
      ∃ place, tree.resolve cwd path = .ok place ∧ tree.isDirectory place = true := by
  rw [isDirectoryAt]
  cases tree.resolve cwd path <;> simp

/-- A path leads to a directory if and only if all that it passes are directories. -/
theorem isDirectoryAt_iff {path : Path} :
    tree.isDirectoryAt cwd path = true ↔
      checkPath path = .ok () ∧ (∀ place ∈ path.way cwd, tree.isDirectory place = true) ∧
        ∀ name ∈ path.names, isLongName name = false := by
  rw [isDirectoryAt_eq_true_iff]
  constructor
  · rintro ⟨place, hresolve, hplace⟩
    obtain ⟨hcheck, hwalk, -⟩ := resolve_eq_ok_iff.mp hresolve
    exact ⟨hcheck, (walk_directory_iff.mp ⟨hwalk, hplace⟩).2⟩
  · rintro ⟨hcheck, hpassed, hnames⟩
    obtain ⟨hwalk, hplace⟩ := walk_directory_iff.mpr ⟨rfl, hpassed, hnames⟩
    exact ⟨_, resolve_eq_ok_iff.mpr ⟨hcheck, hwalk, fun _ => hplace⟩, hplace⟩

theorem resolve_of_isDirectoryAt {path : Path} (h : tree.isDirectoryAt cwd path = true) :
    tree.resolve cwd path = .ok (path.target cwd) ∧
      tree.isDirectory (path.target cwd) = true := by
  obtain ⟨place, hresolve, hplace⟩ := isDirectoryAt_eq_true_iff.mp h
  rw [target_of_resolve hresolve]
  exact ⟨hresolve, hplace⟩

/-- Listing a directory gives the names inside its target. -/
theorem of_list {path : Path} {names : List String} (h : tree.list cwd path = .ok names) :
    tree.isDirectoryAt cwd path = true ∧ names = tree.childNames (path.target cwd) := by
  rw [list, bind_eq_ok_iff] at h
  obtain ⟨place, hresolve, hnames⟩ := h
  rw [target_of_resolve hresolve]
  split at hnames
  case isTrue hplace =>
    exact ⟨isDirectoryAt_eq_true_iff.mpr ⟨place, hresolve, hplace⟩, (Except.ok.inj hnames).symm⟩
  case isFalse => exact absurd hnames (by simp)

/-- What the last name of a path stands in. -/
theorem of_resolveLast {path : Path} {directory : Place} {name : String}
    (h : tree.resolveLast cwd path = .ok (directory, some name)) :
    checkPath path = .ok () ∧ tree.isDirectory directory = true ∧ name ≠ "." ∧ name ≠ ".." ∧
      path.target cwd = directory ++ [name] ∧
      ∃ front, path.names = front ++ [name] ∧
        tree.walk (origin cwd path) front = .ok directory := by
  simp only [resolveLast, bind_eq_ok_iff] at h
  obtain ⟨_, hcheck, place, hwalk, hplace⟩ := h
  split at hplace
  case isFalse => exact absurd hplace (by simp)
  case isTrue hdirectory =>
    obtain ⟨rfl, hfilter⟩ := Prod.mk.inj (Except.ok.inj hplace)
    rw [Option.filter_eq_some_iff, List.getLast?_eq_some_iff] at hfilter
    obtain ⟨⟨front, hnames⟩, hname⟩ := hfilter
    rw [hnames, List.dropLast_concat] at hwalk
    rw [Bool.and_eq_true, decide_eq_true_eq, decide_eq_true_eq] at hname
    refine ⟨hcheck, hdirectory, hname.1, hname.2, ?_, front, hnames, hwalk⟩
    rw [Path.target, hnames, List.foldl_append, foldl_advance_of_walk hwalk, List.foldl_cons,
      List.foldl_nil, Place.advance, if_neg hname.1, if_neg hname.2]

/-! ## Reading, writing and removing -/

/-- There is a file at a place, or nothing. -/
def AtMostFile (tree : FileTree) (place : Place) : Prop :=
  ∀ node, tree.node? place = some node → ∃ content, node = .file content

/-- What is written to is a name in a directory, and not that of a directory. -/
theorem resolveLast_of_writePlace {path : Path} {place : Place}
    (h : tree.writePlace cwd path = .ok place) :
    ∃ directory name, tree.resolveLast cwd path = .ok (directory, some name) ∧
      isLongName name = false ∧ path.endsInSlash = false ∧ place = directory ++ [name] ∧
      tree.isDirectory place = false := by
  rw [writePlace, bind_eq_ok_iff] at h
  obtain ⟨⟨directory, name?⟩, hlast, hplace⟩ := h
  cases name? with
  | none => exact absurd hplace (by simp)
  | some name =>
    simp only at hplace
    split at hplace
    case isTrue => exact absurd hplace (by simp)
    case isFalse hdirectory =>
      split at hplace
      case isTrue => exact absurd hplace (by simp)
      case isFalse hshort =>
        rw [Except.ok.injEq] at hplace
        rw [Bool.or_eq_true, not_or, Bool.not_eq_true, Bool.not_eq_true, hplace] at hdirectory
        exact ⟨directory, name, hlast, Bool.eq_false_iff.mpr hshort, hdirectory.1, hplace.symm,
          hdirectory.2⟩

/-- What is written to is the target of the path, and no directory. -/
theorem of_writePlace {path : Path} {place : Place} (h : tree.writePlace cwd path = .ok place) :
    path.fits = true ∧ path.target cwd = place ∧ tree.isDirectory place = false := by
  obtain ⟨directory, name, hlast, -, -, rfl, hdirectory⟩ := resolveLast_of_writePlace h
  obtain ⟨hcheck, -, -, -, htarget, -⟩ := of_resolveLast hlast
  exact ⟨(checkPath_eq_ok_iff.mp hcheck).2.2, htarget, hdirectory⟩

/-- Writing puts a file at the target of the path, unless there is a device. -/
theorem of_write {path : Path} {content : ByteArray} {tree' : FileTree}
    (h : tree.write cwd path content = .ok tree') :
    path.fits = true ∧
      ((∃ device, tree.node? (path.target cwd) = some (.device device)) ∧ tree' = tree ∨
        tree.AtMostFile (path.target cwd) ∧
          tree' = tree.insert (path.target cwd) (.file content)) := by
  rw [write, bind_eq_ok_iff] at h
  obtain ⟨place, hplace, hnode⟩ := h
  obtain ⟨hfits, rfl, hdirectory⟩ := of_writePlace hplace
  refine ⟨hfits, ?_⟩
  cases hold : tree.node? (path.target cwd) with
  | none =>
    rw [hold] at hnode
    exact .inr ⟨by simp [AtMostFile, hold], (Except.ok.inj hnode).symm⟩
  | some node =>
    rw [hold] at hnode
    cases node with
    | file old => exact .inr ⟨by simp [AtMostFile, hold], (Except.ok.inj hnode).symm⟩
    | directory => simp [isDirectory, hold] at hdirectory
    | device device =>
      refine .inl ⟨⟨device, rfl⟩, ?_⟩
      cases device with
      | full =>
        simp only at hnode
        split at hnode
        · exact (Except.ok.inj hnode).symm
        · exact absurd hnode (by simp)
      | null | stdin | stdout | stderr => exact (Except.ok.inj hnode).symm

/-- What is read from a file is what is at the target of the path. -/
theorem node?_of_readText {path : Path} {text : String}
    (hfile : tree.isFile (path.target cwd) = true) (hread : tree.readText cwd path = .ok text) :
    tree.node? (path.target cwd) = some (.file text.toUTF8) := by
  rw [readText, bind_eq_ok_iff] at hread
  obtain ⟨content, hcontent, htext⟩ := hread
  rw [read, bind_eq_ok_iff] at hcontent
  obtain ⟨place, hplace, hnode⟩ := hcontent
  obtain ⟨bytes, hbytes⟩ := isFile_iff.mp hfile
  rw [← target_of_resolve hplace, hbytes] at hnode
  rw [hbytes, Except.ok.inj hnode]
  split at htext
  case h_2 => exact absurd htext (by simp)
  case h_1 read hread =>
    rw [← Except.ok.inj htext]
    rw [String.fromUTF8?] at hread
    split at hread
    · rw [← Option.some.inj hread]
      rfl
    · exact absurd hread (by simp)

/-- Removing takes a file away from the target of the path. -/
theorem of_removeFile {path : Path} {tree' : FileTree}
    (h : tree.removeFile cwd path = .ok tree') :
    tree.isFile (path.target cwd) = true ∧ tree' = tree.erase (path.target cwd) := by
  rw [removeFile, bind_eq_ok_iff] at h
  obtain ⟨place, hplace, herase⟩ := h
  rw [← target_of_resolve hplace] at herase
  split at herase
  case isTrue hfile => exact ⟨hfile, (Except.ok.inj herase).symm⟩
  case isFalse => exact absurd herase (by simp)

/-! ## Looking up a file inside a directory -/

section child

variable {base : Path} {name : String}

theorem resolve_child (hbase : tree.isDirectoryAt cwd base = true)
    (hname : Path.isName name = true) :
    tree.resolve cwd (base.child name) =
      if (base.child name).fits then
        if (tree.node? (base.target cwd ++ [name])).isSome then .ok (base.target cwd ++ [name])
        else .error .noEntry
      else .error .nameTooLong := by
  obtain ⟨hcheck, hwalk, -⟩ := resolve_eq_ok_iff.mp (resolve_of_isDirectoryAt hbase).1
  have hplace := (resolve_of_isDirectoryAt hbase).2
  obtain ⟨-, hdot, hdots, -, -, hshort⟩ := Path.isName_iff.mp hname
  rw [resolve, checkPath_child hcheck hname, Path.names_child hname, Path.origin_child hname,
    walk_append hwalk hplace, Path.endsInSlash_child hname]
  by_cases hfits : (base.child name).fits = true
  · simp only [hfits, walk, hplace, hdot, hdots, hshort]
    by_cases hnode : (tree.node? (base.target cwd ++ [name])).isSome = true
    · simp [hnode, bind, Except.bind]
    · simp [hnode, bind, Except.bind]
  · simp [hfits, bind, Except.bind]

theorem isFileAt_child (hbase : tree.isDirectoryAt cwd base = true)
    (hname : Path.isName name = true) :
    tree.isFileAt cwd (base.child name) =
      ((base.child name).fits && tree.isFile (base.target cwd ++ [name])) := by
  rw [isFileAt, resolve_child hbase hname]
  by_cases hfits : (base.child name).fits = true
  · by_cases hnode : (tree.node? (base.target cwd ++ [name])).isSome = true
    · simp [hfits, hnode]
    · simp_all [isFile]
  · simp [hfits]

end child

end FileTree

end Desugar
