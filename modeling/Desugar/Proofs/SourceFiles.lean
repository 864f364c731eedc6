import Desugar.Proofs.Directories
import Desugar.Proofs.Jobs
import Desugar.SourceFile

/-!
# Desugaring files: all or nothing

Reading, desugaring and writing can each fail, and the writing comes last, so whatever fails does so
before anything has changed.  If nothing fails, the file at the output path is the only thing that
has changed, and it holds the Ruby text of what the input file held before, even if the two are one
file.
-/

namespace Desugar

namespace FileTree

variable {tree tree' : FileTree} {cwd : Place} {path : Path}

theorem fromUTF8?_toUTF8 (text : String) : String.fromUTF8? text.toUTF8 = some text := by
  rw [String.fromUTF8?, String.toUTF8_eq_toByteArray, dif_pos text.isValidUTF8]
  rfl

/-- Writing changes nothing but the file at the path, which comes to hold what is written. -/
theorem node?_of_write {content : ByteArray} (h : tree.write cwd path content = .ok tree')
    (place : Place) :
    tree'.node? place = tree.node? place ∨
      place = path.target cwd ∧ tree'.node? place = some (.file content) := by
  obtain ⟨target, htarget, -⟩ := bind_eq_ok_iff.mp h
  obtain ⟨directory, name, hlast, -, -, hplace, -⟩ := resolveLast_of_writePlace htarget
  have hnonempty : path.target cwd ≠ [] := by
    rw [(of_resolveLast hlast).2.2.2.2.1]
    simp
  obtain ⟨-, ⟨-, rfl⟩ | ⟨-, rfl⟩⟩ := of_write h
  · exact .inl rfl
  · rw [node?_insert hnonempty]
    split
    case isTrue hsame => exact .inr ⟨hsame, rfl⟩
    case isFalse => exact .inl rfl

/-- Text that is read from a path that leads to no device is that of a file. -/
theorem isFile_of_readText {text : String} (h : tree.readText cwd path = .ok text)
    (hdevice : ∀ device, tree.node? (path.target cwd) ≠ some (.device device)) :
    tree.isFile (path.target cwd) = true := by
  obtain ⟨content, hcontent, -⟩ := bind_eq_ok_iff.mp h
  obtain ⟨place, hplace, hread⟩ := bind_eq_ok_iff.mp hcontent
  rw [← target_of_resolve hplace] at hread
  cases hnode : tree.node? (path.target cwd) with
  | none =>
    rw [hnode] at hread
    exact absurd hread (by simp)
  | some node =>
    cases node with
    | file content => rw [isFile, hnode]
    | directory =>
      rw [hnode] at hread
      exact absurd hread (by simp)
    | device device => exact absurd hnode (hdevice device)

/-- What has been written to a path that leads to no device is read from it. -/
theorem readText_of_write {text : String} (h : tree.write cwd path text.toUTF8 = .ok tree')
    (hdevice : ∀ device, tree.node? (path.target cwd) ≠ some (.device device)) :
    tree'.readText cwd path = .ok text := by
  obtain ⟨target, htarget, -⟩ := bind_eq_ok_iff.mp h
  obtain ⟨directory, name, hlast, hshort, hends, rfl, hplace⟩ := resolveLast_of_writePlace htarget
  have hpath := (of_resolveLast hlast).2.2.2.2.1
  obtain ⟨-, ⟨⟨device, hnode⟩, -⟩ | ⟨-, htree⟩⟩ := of_write h
  · exact absurd hnode (hdevice device)
  have hnode : tree'.node? (directory ++ [name]) = some (.file text.toUTF8) := by
    rw [htree, hpath, node?_insert (by simp), if_pos rfl]
  have hmono : ∀ other, tree.isDirectory other = true → tree'.isDirectory other = true := by
    intro other hother
    rw [htree, isDirectory, hpath, node?_insert (by simp), if_neg, ← isDirectory]
    · exact hother
    · rintro rfl
      rw [hplace] at hother
      exact Bool.noConfusion hother
  have hresolve := resolve_of_resolveLast hlast hshort hends hmono (by rw [hnode]; rfl)
  rw [readText, read, hresolve]
  simp only [bind, Except.bind, hnode, fromUTF8?_toUTF8]

end FileTree

/-- Why nothing comes of desugaring a file: it cannot be read, it has a fault, or the output cannot
be written. -/
inductive DesugarFailure (world : World) (input output : Path) : FileError → Prop where
  | unreadable (cause : SystemError) (hread : world.tree.readText world.cwd input = .error cause) :
      DesugarFailure world input output (.io input cause)
  | faulty (source : String) (cause : Diagnostic)
      (hread : world.tree.readText world.cwd input = .ok source)
      (hfault : desugar source Parser.defaultLimit = .error cause) :
      DesugarFailure world input output (.fault input cause)
  | unwritable (source ruby : String) (cause : SystemError)
      (hread : world.tree.readText world.cwd input = .ok source)
      (hruby : desugar source Parser.defaultLimit = .ok ruby)
      (hwrite : world.tree.write world.cwd output ruby.toUTF8 = .error cause) :
      DesugarFailure world input output (.io output cause)

/-- Desugaring a file fails for one of three reasons and leaves the world as it was, or changes
nothing but the output, which then holds the Ruby text of what the input held before. -/
theorem desugarFile_allOrNothing (world : World) (input output : Path) :
    (∃ error, DesugarFailure world input output error ∧
      (desugarFile input output).outcome world = (.error error, world)) ∨
    ∃ source ruby after, world.tree.readText world.cwd input = .ok source ∧
      ((∀ device, world.tree.node? (input.target world.cwd) ≠ some (.device device)) →
        world.tree.node? (input.target world.cwd) = some (.file source.toUTF8)) ∧
      desugar source Parser.defaultLimit = .ok ruby ∧
      (desugarFile input output).outcome world = (.ok (), after) ∧ after.cwd = world.cwd ∧
      (∀ place, after.tree.node? place = world.tree.node? place ∨
        place = output.target world.cwd ∧ after.tree.node? place = some (.file ruby.toUTF8)) ∧
      ((∀ device, world.tree.node? (output.target world.cwd) ≠ some (.device device)) →
        after.tree.readText world.cwd output = .ok ruby) := by
  rw [desugarFile, Job.outcome_bind, Job.outcome_orFail, Job.outcome_look]
  cases hread : world.tree.readText world.cwd input with
  | error cause => exact .inl ⟨_, .unreadable cause hread, rfl⟩
  | ok source =>
    rw [Job.mapError_eq_ok_iff.mpr rfl]
    simp only [Job.outcome_bind, Job.outcome_mk]
    cases hruby : desugar source Parser.defaultLimit with
    | error cause => exact .inl ⟨_, .faulty source cause hread hruby, rfl⟩
    | ok ruby =>
      rw [Job.mapError_eq_ok_iff.mpr rfl]
      simp only [Job.outcome_orFail]
      rcases Job.outcome_write world output ruby.toUTF8 with
        ⟨cause, hfailed, hwrite⟩ | ⟨after, hwritten, hwrite, hcwd⟩
      · rw [hfailed]
        exact .inl ⟨_, .unwritable source ruby cause hread hruby hwrite, rfl⟩
      · rw [hwritten]
        have hsource := fun hdevice =>
          FileTree.node?_of_readText (FileTree.isFile_of_readText hread hdevice) hread
        exact .inr ⟨source, ruby, after, rfl, hsource, hruby, rfl, hcwd,
          FileTree.node?_of_write hwrite, FileTree.readText_of_write hwrite⟩

end Desugar
