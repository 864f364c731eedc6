import Desugar.Shell.Glob
import Desugar.Shell.Parameters
import Desugar.Shell.Reader
import Desugar.Shell.Search
import Desugar.Shell.Subshell

/-!
# Running shell scripts

What a script does to the world.  Every function that can go around in a loop takes a bound; a
script that exceeds it is stopped as if by a signal.

The commands of a pipeline run one after the other, each on all that the one before it wrote, and a
command that nobody waits for runs at once.
-/

namespace Desugar.Shell

/-- Whether the status of a command is asked for, so that a failure does not end the script. -/
abbrev Tested := Bool

namespace Sh

/-- Shows a command before it is run, if that is wanted. -/
def trace (descriptors : List (Nat × Nat)) (words : List String) : Sh Unit := do
  if ← isOn 'x' then
    match descriptors.lookup 2 with
    | some number =>
      let start := (← value? "PS4").getD ""
      let _ ← emitTo number (Octets.toBytes (start ++ " ".intercalate words ++ "\n"))
    | none => return

/-- Stops the script when a failure that nobody asks about is to end it. -/
def checkFailure (tested : Tested) (status : Nat) : Sh Nat := do
  if status ≠ 0 && !tested && (← isOn 'e') then
    throw (.exited status)
  else
    return status

/-- Reports a mistake on the line that the reader has come to. -/
def failWhereRead {α : Type} (message : String) : Sh α := do
  modify fun state => { state with line := state.readingLine }
  fail message

/-- Records the status of a command. -/
def setStatus (status : Nat) : Sh Nat := do
  modify fun state => { state with status := status }
  return status

/-- The commands in front of which assignments are kept whole when they are arguments. -/
def takesAssignments (words : List Word) : Bool :=
  match words.map Word.plain? with
  | some "command" :: some name :: _ | some name :: _ =>
    ["export", "readonly", "local"].contains name
  | _ => false

/-- Whether a call of `command` only asks what a name is. -/
def describesCommand (args : List String) : Bool :=
  args.head? = some "-v" || args.head? = some "-V"

/-- What a call of `command` is for. -/
def dropCommandOptions : List String → Except Char (List String)
  | "-p" :: args => dropCommandOptions args
  | "--" :: args => .ok args
  | args =>
    match args.head?.map String.toList with
    | some ('-' :: letter :: _) => .error letter
    | _ => .ok args

/-- How a round of a loop ended. -/
inductive Round where
  /-- The loop is at its end. -/
  | done
  /-- The commands ended with a status. -/
  | next (status : Nat)
  /-- The loop was left. -/
  | left

/-- Runs a round of a loop, which gives nothing where the loop is at its end. -/
def loopRound (action : Sh (Option Nat)) : Sh Round := do
  match ← attempt action with
  | .ok none => return .done
  | .ok (some status) => return .next status
  | .error (.breaking levels) =>
    if levels ≤ 1 then return .left else throw (.breaking (levels - 1))
  | .error (.continuing levels) =>
    if levels ≤ 1 then return .next 0 else throw (.continuing (levels - 1))
  | .error halt => throw halt

/-- Runs an action that commands can leave as a loop. -/
def inLoop {α : Type} (action : Sh α) : Sh α := do
  let depth := (← get).loopDepth
  modify fun state => { state with loopDepth := depth + 1 }
  andFinally action (modify fun state => { state with loopDepth := depth })

mutual

/-- The pieces that a part of a word expands to.  Where `whole` holds nothing is split, and where
`loose` holds text outside quotes may be. -/
def expandPart (whole loose : Bool) (part : Part) : (bound : Nat) → Sh (List Piece)
  | 0 => throw (.killed 9)
  | bound + 1 => do
    match part with
    | .text content =>
      return if loose && !whole then Piece.ofSplittable content else Piece.ofText content false
    | .quoted content => return Piece.ofText content true
    | .param name inQuotes => paramPieces inQuotes whole name
    | .length name inQuotes =>
      return valuePieces inQuotes whole (Nat.repr (← demandParam name).length)
    | .malformed => fail "Bad substitution"
    | .capture script inQuotes =>
      return valuePieces inQuotes whole (← capture script bound)
    | .arithmetic expression inQuotes =>
      let text ← expandText expression bound
      return valuePieces inQuotes whole (← evaluate text)
    | .altered name inQuotes alteration operand =>
      let value? ← param? name
      let present (orEmpty : Bool) : Bool :=
        match value? with
        | some value => !(orEmpty && value = "")
        | none => false
      match alteration with
      | .fallback orEmpty =>
        if present orEmpty then paramPieces inQuotes whole name
        else expandParts whole (!inQuotes) operand bound
      | .assign orEmpty =>
        if present orEmpty then
          paramPieces inQuotes whole name
        else
          let value ← expandText operand bound
          Builtin.checkName name
          assign name value
          return valuePieces inQuotes whole value
      | .demand orEmpty =>
        if present orEmpty then
          paramPieces inQuotes whole name
        else
          let message ← expandText operand bound
          let unset := if orEmpty then "parameter not set or null" else "parameter not set"
          fail (name ++ ": " ++ (if operand.isEmpty then unset else message))
      | .replace orEmpty =>
        if present orEmpty then expandParts whole (!inQuotes) operand bound
        else return valuePieces inQuotes whole ""
      | .dropStart longest =>
        let value ← demandParam name
        let pattern := Pattern.ofMarks (← expandMarks operand bound)
        return valuePieces inQuotes whole
          (String.ofList (pattern.dropStart longest value.toList))
      | .dropEnd longest =>
        let value ← demandParam name
        let pattern := Pattern.ofMarks (← expandMarks operand bound)
        return valuePieces inQuotes whole
          (String.ofList (pattern.dropEnd longest value.toList))
termination_by structural bound => bound

/-- The pieces that parts of a word expand to. -/
def expandParts (whole loose : Bool) (word : Word) : (bound : Nat) → Sh (List Piece)
  | 0 => throw (.killed 9)
  | bound + 1 => do
    match word with
    | [] => return []
    | part :: parts =>
      let first ← expandPart whole loose part bound
      return first ++ (← expandParts whole loose parts bound)
termination_by structural bound => bound

/-- The marks that a word expands to where it is not split. -/
def expandMarks (word : Word) : (bound : Nat) → Sh (List Mark)
  | 0 => throw (.killed 9)
  | bound + 1 => do
    return Piece.wholeMarks (← expandParts true false (← expandTilde word) bound)
termination_by structural bound => bound

/-- The text that a word expands to where it is not split. -/
def expandText (word : Word) : (bound : Nat) → Sh String
  | 0 => throw (.killed 9)
  | bound + 1 => do
    return fieldText (← expandMarks word bound)
termination_by structural bound => bound

/-- The arguments that a word expands to. -/
def expandWord (word : Word) : (bound : Nat) → Sh (List String)
  | 0 => throw (.killed 9)
  | bound + 1 => do
    let pieces ← expandParts false false (← expandTilde word) bound
    let fields := Fields.split (← separators) pieces
    if ← isOn 'f' then
      return fields.map fieldText
    else
      look fun tree cwd => fields.flatMap (Glob.expand tree cwd)
termination_by structural bound => bound

/-- The arguments that words expand to.  Where `keepAssignments` holds, those that are assignments
stay whole. -/
def expandWords (keepAssignments : Bool) (words : List Word) : (bound : Nat) → Sh (List String)
  | 0 => throw (.killed 9)
  | bound + 1 => do
    match words with
    | [] => return []
    | word :: others =>
      let first ← match (if keepAssignments then word.assignment? else none) with
        | some (name, value) =>
          let text ← expandText value bound
          pure [name ++ "=" ++ text]
        | none => expandWord word bound
      return first ++ (← expandWords keepAssignments others bound)
termination_by structural bound => bound

/-- What commands write to their output. -/
def capture (script : List Command) : (bound : Nat) → Sh String
  | 0 => throw (.killed 9)
  | bound + 1 => do
    let number ← openStream (.pipe .empty 0)
    let status ← inSubshell
      (do
        connect 1 (some number)
        runAll false script bound)
      (fun text => runText false text bound)
    modify fun state => { state with captureStatus := some status }
    match (← get).streams[number]? with
    | some (.pipe content _) =>
      modify fun state => { state with
        streams := state.streams.setIfInBounds number (.pipe .empty 0) }
      let octets := Octets.ofBytes content
      return stripNewlines (String.ofList (octets.toList.filter (· ≠ '\x00')))
    | _ => return ""
termination_by structural bound => bound

/-- Carries out a redirection.  The error is the message. -/
def redirect (redirection : Redirect) : (bound : Nat) → Sh (Except String Unit)
  | 0 => throw (.killed 9)
  | bound + 1 => do
    match redirection with
    | .file descriptor access target =>
      let path ← expandText target bound
      match ← openFor access path with
      | .ok number =>
        connect descriptor (some number)
        return .ok ()
      | .error message => return .error message
    | .duplicate descriptor source =>
      let text ← expandText source bound
      match text.toList with
      | ['-'] =>
        connect descriptor none
        return .ok ()
      | [c] =>
        if !c.isDigit then
          failWhereRead "Syntax error: Bad fd number"
        match ← streamNumber? (c.toNat - '0'.toNat) with
        | some number =>
          connect descriptor (some number)
          return .ok ()
        | none => return .error (text ++ ": Bad file descriptor")
      | _ => failWhereRead "Syntax error: Bad fd number"
    | .document descriptor number =>
      let word := ((← get).documents.lookup number).getD []
      let pieces ← expandParts true false word bound
      let text := fieldText (Piece.wholeMarks pieces)
      let stream ← openStream (.pipe (Octets.toBytes text) 0)
      connect descriptor (some stream)
      return .ok ()
termination_by structural bound => bound

/-- Carries out redirections up to the first one that fails, which is complained about. -/
def redirectAll (redirections : List Redirect) : (bound : Nat) → Sh Bool
  | 0 => throw (.killed 9)
  | bound + 1 => do
    match redirections with
    | [] => return true
    | redirection :: others =>
      match ← redirect redirection bound with
      | .ok () => redirectAll others bound
      | .error message =>
        warn message
        return false
termination_by structural bound => bound

/-- Runs commands one after the other. -/
def runAll (tested : Tested) (body : List Command) : (bound : Nat) → Sh Nat
  | 0 => throw (.killed 9)
  | bound + 1 => do
    match body with
    | [] => return (← get).status
    | command :: others =>
      let _ ← run tested command bound
      runAll tested others bound
termination_by structural bound => bound

/-- Runs one command and gives its status. -/
def run (tested : Tested) (command : Command) : (bound : Nat) → Sh Nat
  | 0 => throw (.killed 9)
  | bound + 1 => do
    if ← isOn 'n' then
      return 0
    let status ← runPlain tested command bound
    let _ ← setStatus status
    runTraps bound
    match command with
    | .simple _ _ _ _ | .subshell _ _ | .background _ | .pipeline _
    | .redirected _ (.subshell _ _) _ => checkFailure tested status
    | _ => return status
termination_by structural bound => bound

/-- Runs what was arranged for the signals that have come. -/
def runTraps : (bound : Nat) → Sh Unit
  | 0 => throw (.killed 9)
  | bound + 1 => do
    match (← get).pending with
    | [] => return
    | signal :: others =>
      modify fun state => { state with pending := others }
      let status := (← get).status
      match ← trapAction? signal with
      | some text =>
        let _ ← runText false text bound
        let _ ← setStatus status
      | none => pure ()
      runTraps bound
termination_by structural bound => bound

/-- Runs one command, and leaves it to the caller what becomes of its status. -/
def runPlain (tested : Tested) (command : Command) : (bound : Nat) → Sh Nat
  | 0 => throw (.killed 9)
  | bound + 1 => do
    match command with
    | .simple line assignments words redirects =>
      modify fun state => { state with line := line, captureStatus := none }
      runSimple tested assignments words redirects bound
    | .redirected line inner redirects =>
      modify fun state => { state with line := line }
      keepingDescriptors do
        if ← redirectAll redirects bound then run tested inner bound else return 2
    | .subshell _ body =>
      inSubshell (runAll tested body bound) (fun text => runText false text bound)
    | .group body => runAll tested body bound
    | .background inner =>
      let process := ((← get).background.getD (← get).process) + 1
      let input ← openStream (.device .null)
      let status ← inSubshell
        (do
          connect 0 (some input)
          run false inner bound)
        (fun text => runText false text bound)
      modify fun state => { state with background := some process, backgroundStatus := status }
      return 0
    | .pipeline commands => runPipeline tested none commands bound
    | .negated inner =>
      let status ← run true inner bound
      return if status = 0 then 1 else 0
    | .both first second =>
      let status ← run true first bound
      if status = 0 then run tested second bound else return status
    | .either first second =>
      let status ← run true first bound
      if status = 0 then return status else run tested second bound
    | .choice branches otherwise => runChoice tested branches otherwise bound
    | .loop negated condition body =>
      inLoop (runLoop tested negated condition body 0 bound)
    | .each line name words body =>
      modify fun state => { state with line := line }
      let values ← match words with
        | some words => expandWords false words bound
        | none => pure (← get).params
      inLoop (runEach tested name values body 0 bound)
    | .select line subject cases =>
      modify fun state => { state with line := line }
      let text ← expandText subject bound
      runSelect tested text.toList cases bound
    | .define name body =>
      modify fun state => { state with
        functions := (name, body) :: state.functions.filter (·.1 ≠ name) }
      return 0
termination_by structural bound => bound

/-- Runs the first branch whose condition succeeds. -/
def runChoice (tested : Tested) (branches : List (List Command × List Command))
    (otherwise : List Command) : (bound : Nat) → Sh Nat
  | 0 => throw (.killed 9)
  | bound + 1 => do
    match branches with
    | [] => if otherwise.isEmpty then return 0 else runAll tested otherwise bound
    | (condition, body) :: others =>
      let status ← runAll true condition bound
      if status = 0 then runAll tested body bound
      else runChoice tested others otherwise bound
termination_by structural bound => bound

/-- Runs a loop, whose body ended with `status` the last time. -/
def runLoop (tested : Tested) (negated : Bool) (condition body : List Command) (status : Nat) :
    (bound : Nat) → Sh Nat
  | 0 => throw (.killed 9)
  | bound + 1 => do
    match ← loopRound (do
        let condition ← runAll true condition bound
        if (condition = 0) = negated then return none
        else some <$> runAll tested body bound) with
    | .done => return status
    | .next status => runLoop tested negated condition body status bound
    | .left => return 0
termination_by structural bound => bound

/-- Runs commands for each of the values of a variable. -/
def runEach (tested : Tested) (name : String) (values : List String) (body : List Command)
    (status : Nat) : (bound : Nat) → Sh Nat
  | 0 => throw (.killed 9)
  | bound + 1 => do
    match values with
    | [] => return status
    | value :: others =>
      assign name value
      match ← loopRound (some <$> runAll tested body bound) with
      | .done => return status
      | .next status => runEach tested name others body status bound
      | .left => return 0
termination_by structural bound => bound

/-- Runs the commands under the first pattern that matches. -/
def runSelect (tested : Tested) (subject : List Char)
    (cases : List (List Word × List Command)) : (bound : Nat) → Sh Nat
  | 0 => throw (.killed 9)
  | bound + 1 => do
    match cases with
    | [] => return 0
    | (patterns, body) :: others =>
      if ← matchesAny subject patterns bound then
        if body.isEmpty then return 0 else runAll tested body bound
      else
        runSelect tested subject others bound
termination_by structural bound => bound

/-- Whether one of some patterns matches. -/
def matchesAny (subject : List Char) (patterns : List Word) : (bound : Nat) → Sh Bool
  | 0 => throw (.killed 9)
  | bound + 1 => do
    match patterns with
    | [] => return false
    | pattern :: others =>
      let marks ← expandMarks pattern bound
      if (Pattern.ofMarks marks).matchesText subject then return true
      else matchesAny subject others bound
termination_by structural bound => bound

/-- Runs the commands of a pipeline, the first of them on the stream of a number if there is one,
and the others each on the output of the one before it. -/
def runPipeline (tested : Tested) (input : Option Nat) (commands : List Command) :
    (bound : Nat) → Sh Nat
  | 0 => throw (.killed 9)
  | bound + 1 => do
    match commands with
    | [] => return 0
    | command :: others =>
      let output ← if others.isEmpty then pure none else some <$> openStream (.pipe .empty 0)
      let status ← inSubshell
        (do
          match input with
          | some number => connect 0 (some number)
          | none => pure ()
          match output with
          | some number => connect 1 (some number)
          | none => pure ()
          run tested command bound)
        (fun text => runText false text bound)
      match output with
      | some number => runPipeline tested (some number) others bound
      | none => return status
termination_by structural bound => bound

/-- Sets variables to the values of words, and gives them as they are shown. -/
def assignAll (exported : Bool) (assignments : List (String × Word)) :
    (bound : Nat) → Sh (List String)
  | 0 => throw (.killed 9)
  | bound + 1 => do
    match assignments with
    | [] => return []
    | (name, word) :: others =>
      let value ← expandText word bound
      assign name value
      if exported then
        setVariable name ((← findVar? name).map fun entry => { entry with exported := true })
      return (name ++ "=" ++ value) :: (← assignAll exported others bound)
termination_by structural bound => bound

/-- Runs a simple command. -/
def runSimple (tested : Tested) (assignments : List (String × Word)) (words : List Word)
    (redirects : List Redirect) : (bound : Nat) → Sh Nat
  | 0 => throw (.killed 9)
  | bound + 1 => do
    let arguments ← expandWords (takesAssignments words) words bound
    let descriptors := (← get).descriptors
    let restore : Sh Unit := modify fun state => { state with descriptors := descriptors }
    let name := arguments.head?.getD ""
    let isSpecial := specialCommands.contains name
    let isOpen ← match ← attempt (redirectAll redirects bound) with
      | .ok isOpen => pure isOpen
      | .error halt => do
        restore
        throw halt
    if !isOpen then
      restore
      if isSpecial then throw (.failed 2) else return 2
    else
      match arguments with
      | [] =>
        andFinally
          (do
            let shown ← assignAll false assignments bound
            unless shown.isEmpty do
              trace descriptors shown)
          restore
        return (← get).captureStatus.getD 0
      | name :: args =>
        if isSpecial then
          let shown ← assignAll false assignments bound
          trace descriptors (shown ++ arguments)
          if name = "exec" && args.isEmpty then
            return 0
          else
            andFinally (call tested true name args bound) restore
        else
          andFinally
            (keepingVars (assignments.map Prod.fst) do
              let shown ← assignAll true assignments bound
              trace descriptors (shown ++ arguments)
              call tested true name args bound)
            restore
termination_by structural bound => bound

/-- Runs a function, a command of the shell or a program. -/
def call (tested : Tested) (withFunctions : Bool) (name : String) (args : List String) :
    (bound : Nat) → Sh Nat
  | 0 => throw (.killed 9)
  | bound + 1 => do
    let functions := (← get).functions
    match (if withFunctions then functions.lookup name else none) with
    | some body => callFunction tested body args bound
    | none =>
      if name = "command" && !describesCommand args then
        match dropCommandOptions args with
        | .ok (name :: args) => call tested false name args bound
        | .ok [] => return 0
        | .error letter =>
          warn ("command: Illegal option -" ++ String.singleton letter)
          return 2
      else if Builtin.isBuiltin name then
        let saved := (← get).commandName
        modify fun state => { state with commandName := some name }
        let result ← attempt (callBuiltin tested name args bound)
        modify fun state => { state with commandName := saved }
        match result with
        | .error (.failed status) =>
          if withFunctions && specialCommands.contains name then throw (.failed status)
          else return status
        | _ => ExceptT.mk (pure result)
      else
        callProgram name args bound
termination_by structural bound => bound

/-- Runs the body of a function with parameters of its own. -/
def callFunction (tested : Tested) (body : Command) (args : List String) :
    (bound : Nat) → Sh Nat
  | 0 => throw (.killed 9)
  | bound + 1 => do
    let saved ← get
    modify fun state => { state with params := args, loopDepth := 0, locals := [] :: state.locals }
    let result ← attempt (run tested body bound)
    let kept := (← get).locals.head?.getD []
    for (name, var?) in kept do
      setVariable name var?
    modify fun state => { state with
      params := saved.params, loopDepth := saved.loopDepth, locals := saved.locals }
    match result with
    | .error (.returning status) => return status
    | _ => ExceptT.mk (pure result)
termination_by structural bound => bound

/-- Runs a command of the shell. -/
def callBuiltin (tested : Tested) (name : String) (args : List String) :
    (bound : Nat) → Sh Nat
  | 0 => throw (.killed 9)
  | bound + 1 => do
    match name with
    | "eval" =>
      if args.isEmpty then return 0 else runText tested (" ".intercalate args) bound
    | "." => runDot args bound
    | "type" => describeAll true args
    | "command" =>
      describeAll (args.head? = some "-V") (args.tail.take 1)
    | "exec" =>
      match (if args.head? = some "--" then args.tail else args) with
      | [] => return 0
      | name :: args =>
        let status ← callProgram name args bound
        modify fun state => { state with traps := state.traps.filter (·.1 ≠ 0) }
        throw (.exited status)
    | _ =>
      match Builtin.all.lookup name with
      | some program => program args
      | none => return 127
termination_by structural bound => bound

/-- Runs the script in a file in this shell. -/
def runDot (args : List String) : (bound : Nat) → Sh Nat
  | 0 => throw (.killed 9)
  | bound + 1 => do
    match (if args.head? = some "--" then args.tail else args) with
    | [] => fail "filename argument required"
    | path :: _ =>
      if !path.toList.contains '/' then
        fail (path ++ ": not found")
      match ← openFor .read path with
      | .error message => fail message
      | .ok number =>
        let state ← get
        let content := match state.streams[number]?.map (·.unread state.world) with
          | some (.ok (bytes, _)) => Octets.ofBytes bytes
          | _ => ""
        let saved := state.commandName
        modify fun state => { state with commandName := none }
        let result ← attempt (runText false content bound)
        modify fun state => { state with commandName := saved }
        match result with
        | .error (.returning status) => return status
        | _ => ExceptT.mk (pure result)
termination_by structural bound => bound

/-- Runs a program. -/
def callProgram (name : String) (args : List String) : (bound : Nat) → Sh Nat
  | 0 => throw (.killed 9)
  | bound + 1 => do
    match ← findProgram name with
    | .program program _ => waitFor (runProgram program args bound)
    | .script path => waitFor (runFile path args bound)
    | .missing =>
      warn (name ++ ": not found")
      return 127
    | .denied =>
      warn (name ++ ": Permission denied")
      return if name.toList.contains '/' then 126 else 127
termination_by structural bound => bound

/-- Runs an installed program. -/
def runProgram (name : String) (args : List String) : (bound : Nat) → Sh Nat
  | 0 => throw (.killed 9)
  | bound + 1 => do
    match Utility.programs.lookup name, Utility.wrappers.lookup name with
    | some program, _ => keepingDescriptors (program args)
    | none, some wrapper =>
      keepingDescriptors (wrapper (fun words => callWords words bound) args)
    | none, none =>
      inNewShell
        (do
          modify fun state => { state with name := name }
          startShell args bound)
        (fun text => runText false text bound)
termination_by structural bound => bound

/-- Runs a program for another program. -/
def callWords (words : List String) : (bound : Nat) → Sh Nat
  | 0 => throw (.killed 9)
  | bound + 1 => do
    match words with
    | [] => return 0
    | name :: args =>
      match ← findProgram name with
      | .program program _ => runProgram program args bound
      | .script path => runFile path args bound
      | .missing => throw (.failed 127)
      | .denied => throw (.failed 126)
termination_by structural bound => bound

/-- Runs a file that can be run.  Its first line may name the program for it. -/
def runFile (path : String) (args : List String) : (bound : Nat) → Sh Nat
  | 0 => throw (.killed 9)
  | bound + 1 => do
    match ← readFile path with
    | .error _ => return 126
    | .ok content =>
      match content.toList with
      | '#' :: '!' :: rest =>
        let line := String.ofList (rest.takeWhile (· ≠ '\n'))
        match (line.splitOn " ").filter (· ≠ "") with
        | [] => runProgram "sh" (path :: args) bound
        | program :: more => callProgram program (more ++ path :: args) bound
      | _ => runProgram "sh" (path :: args) bound
termination_by structural bound => bound

/-- Runs a shell with arguments, in a state that is its own. -/
def startShell (args : List String) : (bound : Nat) → Sh Nat
  | 0 => throw (.killed 9)
  | bound + 1 => do
    let (inline, _, operands) ← Options.parse true args
    if inline then
      match operands with
      | [] => fail "-c requires an argument"
      | text :: operands =>
        modify fun state => { state with
          name := operands.head?.getD state.name, params := operands.tail }
        runText false text bound
    else
      match operands, ← isOn 's' with
      | [], _ | _, true =>
        modify fun state => { state with params := operands }
        match ← readAll 0 with
        | .ok text => runText false text bound
        | .error _ => return 0
      | path :: params, false =>
        match ← openFor .read path with
        | .error message => fail message
        | .ok number =>
          let state ← get
          let content := match state.streams[number]?.map (·.unread state.world) with
            | some (.ok (bytes, _)) => Octets.ofBytes bytes
            | _ => ""
          modify fun state => { state with name := path, params := params }
          runText false content bound
termination_by structural bound => bound

/-- Runs the text of a script. -/
def runText (tested : Tested) (text : String) : (bound : Nat) → Sh Nat
  | 0 => throw (.killed 9)
  | bound + 1 => do
    let saved ← get
    let status ← runScript tested { rest := text.toList } 0 bound
    modify fun state => { state with line := saved.line, readingLine := saved.readingLine }
    return status
termination_by structural bound => bound

/-- Runs what is left of a script, a line at a time.  The last line ended with `status`. -/
def runScript (tested : Tested) (cursor : Cursor) (status : Nat) : (bound : Nat) → Sh Nat
  | 0 => throw (.killed 9)
  | bound + 1 => do
    let start := { cursor with documents := [], nextDocument := (← get).nextDocument }
    match Reader.nextCommands.run start with
    | .error mistake =>
      modify fun state => { state with line := mistake.line }
      fail mistake.message
    | .ok (commands?, cursor) =>
      modify fun state => { state with
        documents := cursor.documents ++ state.documents, nextDocument := cursor.nextDocument
        readingLine := cursor.line }
      if ← isOn 'v' then
        let shown := start.rest.take (start.rest.length - cursor.rest.length)
        let _ ← emit 2 (String.ofList shown)
      match commands? with
      | none => return status
      | some [] => runScript tested cursor status bound
      | some commands =>
        let status ← runAll tested commands bound
        runScript tested cursor status bound
termination_by structural bound => bound

end

end Sh

end Desugar.Shell
