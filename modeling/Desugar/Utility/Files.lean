import Desugar.Utility.Basic

/-!
# Programs on files

Copying, moving, removing and listing files, and taking paths apart.
-/

namespace Desugar.Utility

open Shell Sh

/-- The last part of a path. -/
def baseName (path : String) : String :=
  match (Path.mk path).names.getLast? with
  | some name => name
  | none => if path = "" then "" else "/"

/-- All of a path but its last part. -/
def dirName (path : String) : String :=
  let isSlash (c : Char) : Bool := c = '/'
  let reversed := path.toList.reverse.dropWhile isSlash
  let above := (reversed.dropWhile (!isSlash ·)).dropWhile isSlash
  if !above.isEmpty then String.ofList above.reverse
  else if path.toList.head? = some '/' then "/"
  else "."

/-- A line with its characters made visible as the options of `cat` say. -/
def visible (tabs others : Bool) (line : String) : String :=
  String.join (line.toList.map fun c =>
    let code := c.toNat
    let low (code : Nat) : String :=
      if code < 32 then "^" ++ String.singleton (Char.ofNat (code + 64))
      else if code = 127 then "^?"
      else String.singleton (Char.ofNat code)
    if c = '\t' then (if tabs then "^I" else "\t")
    else if !others then String.singleton c
    else if code ≥ 128 then "M-" ++ low (code - 128)
    else low code)

/-- The lines of a text with numbers in front, as many as are wanted. -/
def numberLines (skipBlank : Bool) : Nat → List String → List String
  | _, [] => []
  | number, line :: lines =>
    if skipBlank && line = "" then
      line :: numberLines skipBlank number lines
    else
      let digits := Nat.repr number
      (String.ofList (List.replicate (6 - digits.length) ' ') ++ digits ++ "\t" ++ line) ::
        numberLines skipBlank (number + 1) lines

/-- Leaves of several empty lines in a row only one. -/
def squeezeBlank : List String → List String
  | "" :: "" :: lines => squeezeBlank ("" :: lines)
  | line :: lines => line :: squeezeBlank lines
  | [] => []

/-- What `cat` makes of a text. -/
def catText (args : Arguments) (text : String) : String :=
  let plain := !(["A", "b", "e", "E", "n", "s", "t", "T", "v"].any fun letter =>
    args.has (letter.toList.headD ' '))
  if plain then
    text
  else
    let lines := linesOf text
    let lines := if args.has 's' then squeezeBlank lines else lines
    let tabs := args.has 't' || args.has 'T' || args.has 'A'
    let others := args.has 'v' || args.has 'e' || args.has 't' || args.has 'A'
    let ends := args.has 'e' || args.has 'E' || args.has 'A'
    let lines := lines.map (visible tabs others)
    let lines :=
      if args.has 'b' then numberLines true 1 lines
      else if args.has 'n' then numberLines false 1 lines
      else lines
    let cut := isCutOff text
    let whole := lines.map fun line => line ++ (if ends then "$" else "") ++ "\n"
    let shown := String.join whole
    if cut then
      String.ofList (shown.toList.take (shown.length - (if ends then 2 else 1)))
    else
      shown

/-- The place that a descriptor writes to, if it is a file. -/
def writingTo (descriptor : Nat) : Sh (Option Place) := do
  match ← streamNumber? descriptor with
  | none => return none
  | some number =>
    match (← get).streams[number]? with
    | some (.file place _ _) => return some place
    | _ => return none

def cat : Program := withOptions "cat" 1
    { flags := "AbeEnstTuv",
      long := [("number", 'n'), ("show-all", 'A'), ("squeeze-blank", 's'), ("show-ends", 'E')] }
    fun args => do
  let target ← writingTo 1
  let mut texts := ""
  let mut status := 0
  for operand in (if args.operands.isEmpty then ["-"] else args.operands) do
    let source ← look fun tree cwd => (tree.resolve cwd (pathOf operand)).toOption
    let content ← look fun tree _ => source.bind tree.node?
    let isOutput := operand ≠ "-" && target.isSome && source = target && (match content with
      | some (.file content) => content.size ≠ 0
      | _ => false)
    if isOutput then
      complain "cat" (operand ++ ": input file is output file")
      status := 1
    else
      match ← readOperand "cat" operand with
      | some text => texts := texts ++ text
      | none => status := 1
  match ← emit 1 (catText args texts) with
  | .ok () => return status
  | .error error =>
    complain "cat" ("write error: " ++ error.reason)
    return 1

/-- Where a file lands that is copied or moved to a target: inside it, if the target is a
directory. -/
def landing (source target : String) : Sh String := do
  let isDirectory ← look fun tree cwd => tree.isDirectoryAt cwd (pathOf target)
  return if isDirectory then ((Path.mk target).child (baseName source)).text else target

/-- Whether to go on with a step.  Where the step is in doubt, this is asked, and only an answer
that starts with a y is a yes. -/
def confirm (inDoubt : Bool) (name question : String) : Sh Bool := do
  if inDoubt then
    let _ ← emit 2 (name ++ ": " ++ question ++ "? ")
    match ← readLine 0 '\n' with
    | .ok (answer, _) => return answer.startsWith "y" || answer.startsWith "Y"
    | .error _ => return false
  else
    return true

/-- Copies a place and all below it. -/
def copyTree (tree : FileTree) (source target : Place) : FileTree :=
  (tree.nodes.filter fun entry => source.isPrefixOf entry.1).foldl
    (fun tree entry => tree.insert (target ++ entry.1.drop source.length) entry.2) tree

/-- The content of what is at a place, for a copy. -/
def contentAt (place : Place) (path : String) : Sh (Except SystemError ByteArray) := do
  match ← look fun tree _ => tree.node? place with
  | some (.file content) => return .ok content
  | _ => return (← readFile path).map Octets.toBytes

/-- Copies a directory and all below it. -/
def copyDirectory (source path : String) (place : Place) : Sh Nat := do
  match ← look fun tree cwd => tree.resolveLast cwd (pathOf path) with
  | .error error =>
    complain "cp" ("cannot create directory " ++ quotedName path ++ ": " ++ error.reason)
    return 1
  | .ok (directory, name?) =>
    let landed := directory ++ name?.toList
    if place.isPrefixOf landed then
      if place = landed then
        complain "cp" (quotedName source ++ " and " ++ quotedName path ++ " are the same file")
      else
        let _ ← change fun tree _ => .ok (copyTree tree place landed)
        complain "cp"
          ("cannot copy a directory, " ++ quotedName source ++ ", into itself, " ++ quotedName path)
      return 1
    else if ← look fun tree _ => tree.isFile landed then
      complain "cp"
        ("cannot overwrite non-directory " ++ quotedName path ++ " with directory " ++
          quotedName source)
      return 1
    else
      let _ ← change fun tree _ => .ok (copyTree tree place landed)
      return 0

def copyOne (args : Arguments) (target source : String) : Sh Nat := do
  let recursive := args.has 'r' || args.has 'R' || args.has 'a'
  match ← look fun tree cwd => tree.resolve cwd (pathOf source) with
  | .error error =>
    complain "cp" ("cannot stat " ++ quotedName source ++ ": " ++ error.reason)
    return 1
  | .ok place =>
    let path ← if args.has 'T' then pure target else landing source target
    if ← look fun tree _ => tree.isDirectory place then
      if recursive then
        copyDirectory source path place
      else
        complain "cp" ("-r not specified; omitting directory " ++ quotedName source)
        return 1
    else
      match ← look fun tree cwd => tree.writePlace cwd (pathOf path) with
      | .error error =>
        if ← look fun tree cwd => tree.isDirectoryAt cwd (pathOf path) then
          complain "cp" ("cannot overwrite directory " ++ quotedName path ++ " with non-directory")
        else
          complain "cp" ("cannot create regular file " ++ quotedName path ++ ": " ++
            (if error = .isDirectory then "Not a directory" else error.reason))
        return 1
      | .ok landed =>
        if landed = place then
          complain "cp" (quotedName source ++ " and " ++ quotedName path ++ " are the same file")
          return 1
        let isTaken ← look fun tree _ => (tree.node? landed).isSome
        if args.has 'n' && isTaken then
          return 0
        else if !(← confirm (args.has 'i' && isTaken) "cp" ("overwrite " ++ quotedName path)) then
          return 1
        else
          match ← contentAt place source with
          | .error error =>
            complain "cp" ("error reading " ++ quotedName source ++ ": " ++ error.reason)
            return 1
          | .ok content =>
            match ← openWrite .write path with
            | .error error =>
              complain "cp"
                ("cannot create regular file " ++ quotedName path ++ ": " ++ error.reason)
              return 1
            | .ok number =>
              let isRunnable := (← get).executables.contains place
              if isRunnable then
                modify fun state => { state with executables := landed :: state.executables }
              match ← emitTo number content with
              | .ok () =>
                if args.has 'v' then
                  say (quotedName source ++ " -> " ++ quotedName path ++ "\n")
                return 0
              | .error error =>
                complain "cp" ("error writing " ++ quotedName path ++ ": " ++ error.reason)
                return 1

/-- Runs an action for a target and sources, which a program was given in one of several ways. -/
def toTarget (name : String) (args : Arguments) (action : String → String → Sh Nat) : Sh Nat := do
  match args.value? 't', args.operands.reverse with
  | some target, _ =>
    if ← look fun tree cwd => tree.isDirectoryAt cwd (pathOf target) then
      forAll (action target) args.operands
    else
      complain name ("target directory " ++ quotedName target ++ ": No such file or directory")
      return 1
  | none, [] => refuse name "missing file operand" 1
  | none, [source] =>
    refuse name ("missing destination file operand after " ++ quotedName source) 1
  | none, [target, source] => action target source
  | none, target :: sources =>
    if args.has 'T' then
      refuse name ("extra operand " ++ quotedName (sources.reverse[2]?.getD target)) 1
    else if ← look fun tree cwd => tree.isDirectoryAt cwd (pathOf target) then
      forAll (action target) sources.reverse
    else
      let reason := match ← look fun tree cwd => tree.resolve cwd (pathOf target) with
        | .error error => error.reason
        | .ok _ => "Not a directory"
      complain name ("target " ++ quotedName target ++ ": " ++ reason)
      return 1

def cp : Program := withOptions "cp" 1
    { flags := "abdfHilLnPprRsuvxTZ", valued := "tS",
      long := [("recursive", 'r'), ("force", 'f'), ("archive", 'a'), ("no-clobber", 'n'),
        ("verbose", 'v'), ("target-directory", 't'), ("preserve", 'p')] }
    fun args => toTarget "cp" args (copyOne args)

def moveOne (args : Arguments) (target source : String) : Sh Nat := do
  match ← look fun tree cwd => tree.resolve cwd (pathOf source) with
  | .error error =>
    complain "mv" ("cannot stat " ++ quotedName source ++ ": " ++ error.reason)
    return 1
  | .ok place =>
    let path ← if args.has 'T' then pure target else landing source target
    let landed ← look fun tree cwd => (tree.resolve cwd (pathOf path)).toOption
    let isDirectory ← look fun tree _ => tree.isDirectory place
    let ontoDirectory ← look fun tree _ => landed.any tree.isDirectory
    if landed = some place then
      complain "mv" (quotedName source ++ " and " ++ quotedName path ++ " are the same file")
      return 1
    else if args.has 'n' && landed.isSome then
      return 0
    else if !(← confirm (args.has 'i' && landed.isSome) "mv" ("overwrite " ++ quotedName path)) then
      return 1
    else if isDirectory && landed.isSome && !ontoDirectory then
      complain "mv"
        ("cannot overwrite non-directory " ++ quotedName path ++ " with directory " ++
          quotedName source)
      return 1
    else if !isDirectory && ontoDirectory then
      complain "mv" ("cannot overwrite directory " ++ quotedName path ++ " with non-directory")
      return 1
    else
      match ← change fun tree cwd => tree.rename cwd (pathOf source) (pathOf path) with
      | .ok () =>
        if (← get).executables.contains place then
          match ← look fun tree cwd => tree.resolve cwd (pathOf path) with
          | .ok moved =>
            modify fun state => { state with
              executables := moved :: state.executables.filter (· ≠ place) }
          | .error _ => pure ()
        if args.has 'v' then
          say ("renamed " ++ quotedName source ++ " -> " ++ quotedName path ++ "\n")
        return 0
      | .error .invalid =>
        complain "mv"
          ("cannot move " ++ quotedName source ++ " to a subdirectory of itself, " ++
            quotedName path)
        return 1
      | .error error =>
        complain "mv"
          ("cannot move " ++ quotedName source ++ " to " ++ quotedName path ++ ": " ++ error.reason)
        return 1

def mv : Program := withOptions "mv" 1
    { flags := "bfinuvTZ", valued := "tS",
      long := [("force", 'f'), ("no-clobber", 'n'), ("verbose", 'v')] }
    fun args => toTarget "mv" args (moveOne args)

def removeOne (args : Arguments) (operand : String) : Sh Nat := do
  let recursive := args.has 'r' || args.has 'R'
  let complainAbout (reason : String) : Sh Nat := do
    complain "rm" ("cannot remove " ++ quotedName operand ++ ": " ++ reason)
    return 1
  match ← look fun tree cwd => tree.resolve cwd (pathOf operand) with
  | .error error =>
    if args.has 'f' && (error = .noEntry || error = .notDirectory) then return 0
    else complainAbout error.reason
  | .ok place =>
    let last := (pathOf operand).names.getLast?
    if ← look fun tree _ => tree.isDirectory place then
      if recursive && (last = some "." || last = some "..") then
        complain "rm" ("refusing to remove '.' or '..' directory: skipping " ++ quotedName operand)
        return 1
      else if recursive && place = [] then
        complain "rm" "it is dangerous to operate recursively on '/'"
        complain "rm" "use --no-preserve-root to override this failsafe"
        return 1
      else if recursive then
        let _ ← change fun tree _ => .ok (tree.eraseAll place)
        return 0
      else if args.has 'd' then
        match ← change fun tree cwd => tree.removeDirectory cwd (pathOf operand) with
        | .ok () => return 0
        | .error error => complainAbout error.reason
      else
        complainAbout SystemError.isDirectory.reason
    else
      let isEmpty := match ← look fun tree _ => tree.node? place with
        | some (.file content) => content.isEmpty
        | _ => false
      let kind := if isEmpty then "regular empty file " else "regular file "
      let inDoubt := args.has 'i' && !args.has 'f'
      unless ← confirm inDoubt "rm" ("remove " ++ kind ++ quotedName operand) do
        return 0
      let _ ← change fun tree _ => .ok (tree.erase place)
      if args.has 'v' then
        say ("removed " ++ quotedName operand ++ "\n")
      return 0

def rm : Program := withOptions "rm" 1
    { flags := "dfiIrRv", long := [("recursive", 'r'), ("force", 'f'), ("verbose", 'v')] }
    fun args => do
  if args.operands.isEmpty && !args.has 'f' then
    refuse "rm" "missing operand" 1
  else
    forAll (removeOne args) args.operands

def makeOne (args : Arguments) (operand : String) : Sh Nat := do
  let existed ← look fun tree cwd => tree.pathExists cwd (pathOf operand)
  let result ←
    if args.has 'p' then do
      let state ← get
      let (result, tree) := state.world.tree.createAll state.world.cwd (pathOf operand)
      set { state with world := { state.world with tree := tree } }
      pure (if operand = "" then .error .noEntry else result)
    else
      change fun tree cwd => tree.create cwd (pathOf operand)
  match result with
  | .ok () =>
    if args.has 'v' && !existed then
      say ("mkdir: created directory " ++ quotedName operand ++ "\n")
    return 0
  | .error error =>
    complain "mkdir" ("cannot create directory " ++ quote operand ++ ": " ++ error.reason)
    return 1

def mkdir : Program := withOptions "mkdir" 1
    { flags := "pvZ", valued := "m", long := [("parents", 'p'), ("verbose", 'v'), ("mode", 'm')] }
    fun args => do
  if args.operands.isEmpty then refuse "mkdir" "missing operand" 1
  else forAll (makeOne args) args.operands

/-- Removes a directory and, if wanted, those above it that become empty. -/
def removeDirectories (parents : Bool) : (bound : Nat) → String → Sh Nat
  | 0, _ => return 0
  | bound + 1, path => do
    match ← change fun tree cwd => tree.removeDirectory cwd (pathOf path) with
    | .error error =>
      complain "rmdir" ("failed to remove " ++ quotedName path ++ ": " ++ error.reason)
      return 1
    | .ok () =>
      let above := dirName path
      if parents && above ≠ "." && above ≠ "/" then removeDirectories parents bound above
      else return 0

def rmdir : Program := withOptions "rmdir" 1
    { flags := "pv", long := [("parents", 'p'), ("ignore-fail-on-non-empty", 'i')] }
    fun args => do
  if args.operands.isEmpty then refuse "rmdir" "missing operand" 1
  else forAll (fun path => removeDirectories (args.has 'p') (path.length + 1) path) args.operands

def touch : Program := withOptions "touch" 1
    { flags := "acfhm", valued := "drt", long := [("no-create", 'c'), ("date", 'd')] }
    fun args => do
  if args.operands.isEmpty then
    refuse "touch" "missing file operand" 1
  else
    forAll (fun operand => do
      if args.has 'c' || (← look fun tree cwd => tree.pathExists cwd (pathOf operand)) then
        return 0
      match ← change fun tree cwd => tree.write cwd (pathOf operand) .empty with
      | .ok () => return 0
      | .error error =>
        complain "touch" ("cannot touch " ++ quotedName operand ++ ": " ++ error.reason)
        return 1) args.operands

/-- Makes another file with the content of one. -/
def linkOne (args : Arguments) (target source : String) : Sh Nat := do
  match ← look fun tree cwd => tree.resolve cwd (pathOf source) with
  | .error error =>
    complain "ln" ("failed to access " ++ quotedName source ++ ": " ++ error.reason)
    return 1
  | .ok place =>
    if ← look fun tree _ => tree.isDirectory place then
      complain "ln" (source ++ ": hard link not allowed for directory")
      return 1
    else
      let path ← landing source target
      if !args.has 'f' && (← look fun tree cwd => tree.pathExists cwd (pathOf path)) then
        complain "ln" ("failed to create hard link " ++ quotedName path ++ ": File exists")
        return 1
      else
        match ← contentAt place source with
        | .error _ => return 1
        | .ok content =>
          match ← change fun tree cwd => tree.write cwd (pathOf path) content with
          | .ok () => return 0
          | .error error =>
            complain "ln" ("failed to create hard link " ++ quotedName path ++ " => " ++
              quotedName source ++ ": " ++ error.reason)
            return 1

def ln : Program := withOptions "ln" 1
    { flags := "bdfFiLnPrsTv", valued := "tS", long := [("symbolic", 's'), ("force", 'f')] }
    fun args => do
  match args.operands with
  | [source] => linkOne args "." source
  | _ => toTarget "ln" args (linkOne args)

/-- Whether a mode lets a file be run, takes that away, or says nothing about it. -/
def modeRuns? (mode : String) : Option Bool :=
  match mode.toList with
  | [] => none
  | cs =>
    if cs.all Char.isDigit then
      some (cs.any fun c => (c.toNat - '0'.toNat) % 2 = 1)
    else if !cs.contains 'x' then
      none
    else if cs.contains '+' || cs.contains '=' then
      some true
    else
      some false

def chmod : Program := fun args => do
  let isOption (argument : String) : Bool :=
    ["-R", "-v", "-f", "-c", "--recursive", "--"].contains argument
  match args.dropWhile isOption with
  | [] => refuse "chmod" "missing operand" 1
  | [mode] => refuse "chmod" ("missing operand after " ++ quotedName mode) 1
  | mode :: operands =>
    forAll (fun operand => do
      match ← look fun tree cwd => tree.resolve cwd (pathOf operand) with
      | .error error =>
        complain "chmod" ("cannot access " ++ quotedName operand ++ ": " ++ error.reason)
        return 1
      | .ok place =>
        modify fun state =>
          let others := state.executables.filter (· ≠ place)
          match modeRuns? mode with
          | some true => { state with executables := place :: others }
          | some false => { state with executables := others }
          | none => state
        return 0) operands

/-- The names in a directory as `ls` shows them, in order. -/
def listedNames (args : Arguments) (names : List String) : List String :=
  let shown := (names.map Octets.encode).filter fun name =>
    args.has 'a' || args.has 'A' || name.toList.head? ≠ some '.'
  let shown := if args.has 'a' then "." :: ".." :: shown else shown
  let sorted := shown.mergeSort (fun a b => decide (a ≤ b))
  if args.has 'r' then sorted.reverse else sorted

/-- A name as `ls` shows it, with a mark for what it is if that is wanted. -/
def listedName (args : Arguments) (path name : String) : Sh String := do
  let isDirectory ← look fun tree cwd => tree.isDirectoryAt cwd (pathOf path)
  let place ← look fun tree cwd => (tree.resolve cwd (pathOf path)).toOption
  let runnable := place.any (← get).executables.contains
  if isDirectory && (args.has 'p' || args.has 'F') then return name ++ "/"
  else if args.has 'F' && runnable then return name ++ "*"
  else return name

/-- The lines for a directory and, if wanted, those below it. -/
def listDirectory (args : Arguments) (header : Bool) : (bound : Nat) → String → Sh (List String)
  | 0, _ => return []
  | bound + 1, path => do
    match ← look fun tree cwd => tree.list cwd (pathOf path) with
    | .error _ => return []
    | .ok names =>
      let names := listedNames args names
      let mut lines := if header then [path ++ ":"] else []
      for name in names do
        lines := lines ++ [← listedName args (path ++ "/" ++ name) name]
      if args.has 'R' then
        for name in names do
          let inner := if path.endsWith "/" then path ++ name else path ++ "/" ++ name
          if name ≠ "." && name ≠ ".." &&
              (← look fun tree cwd => tree.isDirectoryAt cwd (pathOf inner)) then
            lines := lines ++ "" :: (← listDirectory args true bound inner)
      return lines

def ls : Program := withOptions "ls" 2
    { flags := "aAbBcCdDfFgGhHiklLmnNopqQrRsStuUvxXZ1", valued := "ITw",
      long := [("all", 'a'), ("almost-all", 'A'), ("recursive", 'R'), ("reverse", 'r'),
        ("color", 'G')] }
    fun args => do
  let operands := if args.operands.isEmpty then ["."] else args.operands
  let mut found := []
  let mut status := 0
  for operand in operands do
    match ← look fun tree cwd => tree.resolve cwd (pathOf operand) with
    | .error error =>
      complain "ls" ("cannot access " ++ quotedName operand ++ ": " ++ error.reason)
      status := 2
    | .ok place => found := found ++ [(operand, place)]
  let sorted := found.mergeSort fun a b => decide (a.1 ≤ b.1)
  let mut files := []
  let mut directories := []
  for (operand, place) in (if args.has 'r' then sorted.reverse else sorted) do
    if !args.has 'd' && (← look fun tree _ => tree.isDirectory place) then
      directories := directories ++ [operand]
    else
      files := files ++ [← listedName args operand operand]
  let mut lines := files
  let header := args.has 'R' || operands.length > 1
  for directory in directories do
    unless lines.isEmpty do
      lines := lines ++ [""]
    lines := lines ++ (← listDirectory args header 1000 directory)
  if args.has 'm' then
    say (", ".intercalate lines ++ "\n")
  else
    say (unlines lines)
  return status

def dirname : Program := withOptions "dirname" 1 { flags := "z" } fun args => do
  if args.operands.isEmpty then
    refuse "dirname" "missing operand" 1
  else
    say (unlines (args.operands.map dirName))
    return 0

/-- A name without an ending, unless that is all of it. -/
def dropEnding (name ending : String) : String :=
  let shorter := name.toList.take (name.length - ending.length)
  if ending.toList.isSuffixOf name.toList && !shorter.isEmpty then String.ofList shorter else name

def basename : Program := withOptions "basename" 1
    { flags := "az", valued := "s", long := [("multiple", 'a'), ("suffix", 's')] }
    fun args => do
  match args.has 'a' || args.has 's', args.operands with
  | _, [] => refuse "basename" "missing operand" 1
  | true, paths =>
    let ending := (args.value? 's').getD ""
    say (unlines (paths.map fun path => dropEnding (baseName path) ending))
    return 0
  | false, [path] =>
    say (baseName path ++ "\n")
    return 0
  | false, [path, ending] =>
    say (dropEnding (baseName path) ending ++ "\n")
    return 0
  | false, _ :: _ :: extra :: _ => refuse "basename" ("extra operand " ++ quotedName extra) 1

/-- The place of a path in full, where its last name need not lead to anything. -/
def realpath : Program := withOptions "realpath" 1 { flags := "efmLPqsz" } fun args => do
  if args.operands.isEmpty then
    refuse "realpath" "missing operand" 1
  else
    forAll (fun operand => do
      match ← look fun tree cwd => tree.resolve cwd (pathOf operand) with
      | .ok place =>
        say (placeText place ++ "\n")
        return 0
      | .error error =>
        match ← look fun tree cwd => tree.resolveLast cwd (pathOf operand) with
        | .ok (directory, some name) =>
          if args.has 'e' || error ≠ .noEntry then
            complain "realpath" (shownName operand ++ ": " ++ error.reason)
            return 1
          else
            say (placeText (directory ++ [name]) ++ "\n")
            return 0
        | _ =>
          complain "realpath" (shownName operand ++ ": " ++ error.reason)
          return 1) args.operands

/-- The programs on files by their names. -/
def filePrograms : List (String × Program) :=
  [("cat", cat), ("cp", cp), ("mv", mv), ("rm", rm), ("mkdir", mkdir), ("rmdir", rmdir),
   ("touch", touch), ("ln", ln), ("chmod", chmod), ("ls", ls), ("dirname", dirname),
   ("basename", basename), ("realpath", realpath)]

end Desugar.Utility
