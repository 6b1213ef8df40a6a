import InlineMacro.Host
import InlineMacro.Machine.Script.Arithmetic
import InlineMacro.Machine.Script.Reader
import InlineMacro.Machine.Shell.BuiltIn

/-!
# Running shell scripts

A shell over files in memory, with the commands that small scripts use. Every step of a run that
leads deeper takes from a budget, and a run that has used it up ends as if it had been killed, so
every script has a result.
-/

set_option autoImplicit false

namespace InlineMacro.Machine

namespace Shell

/-! ## Words -/

def withoutFinalNewlines (text : String) : String :=
  String.ofList (text.toList.reverse.dropWhile (· == '\n')).reverse

def extremeLength? (isLongest : Bool) (limit : Nat) (condition : Nat → Bool) : Option Nat :=
  let lengths := List.range (limit + 1)
  (if isLongest then lengths.reverse else lengths).find? condition

def withoutStart (isLongest : Bool) (pattern : List Wildcard.Item) (text : String) : String :=
  let characters := text.toList
  let fits (length : Nat) : Bool := Wildcard.hasForm pattern (characters.take length)
  String.ofList (characters.drop ((extremeLength? isLongest characters.length fits).getD 0))

def withoutEnd (isLongest : Bool) (pattern : List Wildcard.Item) (text : String) : String :=
  let characters := text.toList
  let fits (length : Nat) : Bool :=
    Wildcard.hasForm pattern (characters.drop (characters.length - length))
  let length := (extremeLength? isLongest characters.length fits).getD 0
  String.ofList (characters.take (characters.length - length))

/-- What a parameter yields in double quotes that is a list of arguments in one text. -/
def joinedArguments (shell : Shell) : String :=
  let separator := match shell.bindings.find? "IFS" with
    | some text => (text.take 1).toString
    | none => " "
  Text.join separator shell.arguments

/-- The value of a parameter as expansions use it; the arguments count as unset if there are none.
-/
def usedValue? (shell : Shell) (name : String) : Option String :=
  if name = "@" || name = "*" then
    if shell.arguments.isEmpty then none else some (joinedArguments shell)
  else shell.parameter? name

def isGiven (countsEmpty : Bool) (value : Option String) : Bool :=
  value.any fun text => !(countsEmpty && text.isEmpty)

/-- Whether an expansion yields the word behind the parameter. -/
def yieldsArgument (shell : Shell) (name : String) : Use → Bool
  | .standIn countsEmpty => !isGiven countsEmpty (usedValue? shell name)
  | .replaced countsEmpty => isGiven countsEmpty (usedValue? shell name)
  | _ => false

/-! ## Programs -/

def shellPaths : List String :=
  ["/bin/sh", "/usr/bin/sh", "/bin/dash", "/usr/bin/dash", "/bin/bash", "/usr/bin/bash"]

/-- The options that the first line of a script gives to the shell; or why the script cannot be run,
because the line names nothing or something else. -/
def firstLineOptions (line : List Char) : Except Refusal (List Char) :=
  let isBlank (character : Char) : Bool := character = ' ' || character = '\t'
  let line := (line.dropWhile isBlank).reverse.dropWhile isBlank |>.reverse
  let program := line.takeWhile (!isBlank ·)
  let argument := (line.drop program.length).dropWhile isBlank
  if program.isEmpty then .error .badFormat
  else if shellPaths.contains (String.ofList program) then
    match argument with
    | '-' :: letters => .ok letters
    | _ => .ok []
  else if String.ofList program = "/usr/bin/env" &&
      ["sh", "dash", "bash"].contains (String.ofList argument) then .ok []
  else .error .noEntry

/-- Why a path cannot be run, or the script it holds with the options for the shell. A script
without a line that names the shell can only be run by a shell. -/
def scriptAt (files : Files) (byShell : Bool) (path : String) :
    Except Refusal (String × List Char) := do
  if !path.toList.contains '/' then .error .noEntry
  match ← files.find path with
  | (_, none) => .error .noEntry
  | (_, some .directory) => .error .denied
  | (_, some (.file bytes isExecutable)) =>
    let content := Text.Utf8.decode bytes
    if !isExecutable then .error .denied
    else
      let options :=
        if content.startsWith "#!" then
          firstLineOptions ((content.toList.drop 2).takeWhile (· != '\n'))
        else .error .badFormat
      match options with
      | .ok options => .ok (content, options)
      | .error .badFormat => if byShell then .ok (content, []) else .error .badFormat
      | .error refusal => .error refusal

def ownPrograms : List String := ["cat", "chmod"]

def ownDirectories : List String := ["/bin", "/usr/bin"]

def standardSearch : String := "/usr/local/sbin:/usr/local/bin:/usr/sbin:/usr/bin:/sbin:/bin"

/-- The path in a directory under which a program is found. -/
def programIn? (files : Files) (name directory : String) : Option String :=
  let path := Path.join directory name
  if ownPrograms.contains name && ownDirectories.contains directory ||
      files.hasFile path && Condition.canRun files path then some path
  else none

def programPath? (shell : Shell) (name : String) : Option String :=
  if name.toList.contains '/' then some name
  else
    let search := (shell.bindings.find? "PATH").getD standardSearch
    let directories := (Text.splitBy (· = ':') search.toList).map fun directory =>
      if directory.isEmpty then "." else String.ofList directory
    directories.findSome? (programIn? shell.files name)

/-- What is said about a program that a signal killed. -/
def obituary? : Nat → Option String
  | 1 => some "Hangup"
  | 3 => some "Quit"
  | 4 => some "Illegal instruction"
  | 6 => some "Aborted"
  | 7 => some "Bus error"
  | 8 => some "Floating point exception"
  | 9 => some "Killed"
  | 10 => some "User defined signal 1"
  | 11 => some "Segmentation fault"
  | 12 => some "User defined signal 2"
  | 14 => some "Alarm clock"
  | 15 => some "Terminated"
  | _ => none

/-- The shell that runs a script as a program of its own: it knows the variables that are exported.
-/
def forProgram (shell : Shell) (name : String) (arguments : List String) (options : List Char) :
    Shell :=
  { files := shell.files
    name := name
    arguments := arguments
    bindings := shell.bindings.filter fun binding => shell.exported.contains binding.1
    exported := shell.exported
    options := options.foldl (fun options letter => (withOption? options letter true).getD options) {}
    input := shell.input
    streams := shell.streams
    sinks := shell.sinks }

def afterOther (shell other : Shell) : Shell :=
  { shell with
    files := other.files, status := other.status, input := other.input, streams := other.streams }

/-- Takes redirections back. What was read from the input is gone if it was not redirected. -/
def closeAll (before : Shell) (redirections : List Redirection) : ShellRun Unit :=
  let isReading := redirections.any fun redirection => redirection.descriptor = 0
  modify fun shell =>
    { shell with
      sinks := before.sinks, input := if isReading then before.input else shell.input }

/-- A shell without the variables that were assigned for one command only. -/
def withoutPassing (before : Shell) (names : List String) (shell : Shell) : Shell :=
  { shell with
    bindings := names.foldl (fun bindings name =>
      restoreVariable bindings name (before.bindings.find? name)) shell.bindings
    exported := shell.exported.filter fun name =>
      before.exported.contains name || !names.contains name }

/-- Shows a command that is about to be run. -/
def trace (sink : Option Sink) (texts : List String) : ShellRun Unit := do
  match sink with
  | some sink => emitTo sink ("+ " ++ Text.join " " texts ++ "\n").toUTF8
  | none => pure ()

def endsOnStatus (shell : Shell) : Bool :=
  shell.options.endsOnFailure && !shell.isTested && shell.status != 0

def checkStatus : ShellRun Unit := do
  if endsOnStatus (← get) then throw .exited

/-! ## Running -/

mutual

def expanded : Nat → Piece → ShellRun String
  | 0, _ => throw .exhausted
  | _, .text content _ => pure content
  | budget + 1, .command line script _ => captured budget (Script.ofText line script)
  | budget + 1, .arithmetic expression _ => do
    let source ← textOf budget expression
    let shell ← get
    match Arithmetic.evaluate source shell.bindings with
    | .ok (value, bindings) =>
      set { shell with bindings := bindings }
      return toString value
    | .error complaint => abort complaint
  | budget + 1, .parameter name use argument _ => do
    used budget name use argument (usedValue? (← get) name)

def used : Nat → String → Use → Word → Option String → ShellRun String
  | 0, _, _, _, _ => throw .exhausted
  | budget + 1, name, use, argument, value => do
    let present : ShellRun String := do
      match value with
      | some text => return text
      | none =>
        if (← get).options.refusesUnset && name != "@" && name != "*" then
          abort (name ++ ": parameter not set")
        return ""
    match use with
    | .value => present
    | .length => return toString (← present).utf8ByteSize
    | .standIn countsEmpty => if isGiven countsEmpty value then present else textOf budget argument
    | .assigned countsEmpty =>
      if isGiven countsEmpty value then present
      else do
        let text ← textOf budget argument
        setVariable name text
        return text
    | .required countsEmpty =>
      if isGiven countsEmpty value then present
      else do
        let text ← textOf budget argument
        let reason :=
          if !text.isEmpty then text
          else if countsEmpty then "parameter not set or null"
          else "parameter not set"
        abort (name ++ ": " ++ reason)
    | .replaced countsEmpty => if isGiven countsEmpty value then textOf budget argument else return ""
    | .withoutStart isLongest => do
      let text ← present
      return withoutStart isLongest (← patternOf budget argument) text
    | .withoutEnd isLongest => do
      let text ← present
      return withoutEnd isLongest (← patternOf budget argument) text
    | .malformed => abort "Bad substitution"

/-- What a script writes, without the line ends at its end. -/
def captured : Nat → Script → ShellRun String
  | 0, _ => throw .exhausted
  | budget + 1, script => do
    let status := (← get).status
    let output ← collected budget (runScript budget script)
    modify fun shell => { shell with substitutionStatus := shell.status, status := status }
    return withoutFinalNewlines
      (String.ofList ((Text.Utf8.decode output).toList.filter (· != '\x00')))

/-- What a part of a script writes that cannot change the shell. -/
def collected : Nat → ShellRun Unit → ShellRun ByteArray
  | 0, _ => throw .exhausted
  | budget + 1, body => do
    let shell ← get
    let index := shell.streams.length
    set { shell with streams := shell.streams ++ [ByteArray.empty] }
    redirect 1 (some (.stream index))
    inSubshell budget body
    let output := (← get).streams[index]?.getD ByteArray.empty
    modify fun inner =>
      { inner with streams := inner.streams.take index, sinks := shell.sinks }
    return output

/-- Runs a part of a script that can only end itself and cannot change the shell. -/
def inSubshell : Nat → ShellRun Unit → ShellRun Unit
  | 0, _ => throw .exhausted
  | budget + 1, body => do
    let shell ← get
    set { shell with traps := shell.traps.filter fun trap => trap.2.isEmpty }
    toEnd budget body
    modify (afterOther shell)

/-- Runs a body up to its end, however it comes about, and what is to be done then. -/
def toEnd : Nat → ShellRun Unit → ShellRun Unit
  | 0, _ => throw .exhausted
  | budget + 1, body => do
    try
      body
    catch
      | .killed signal => throw (.killed signal)
      | _ => pure ()
    let shell ← get
    match shell.traps.find? (trapName 0) with
    | none => pure ()
    | some action => do
      set { shell with traps := shell.traps.erase (trapName 0) }
      try
        runScript budget (Script.ofText 1 action)
        setStatus shell.status
      catch
        | .killed signal => throw (.killed signal)
        | _ => pure ()

def runScript : Nat → Script → ShellRun Unit
  | 0, _ => throw .exhausted
  | budget + 1, script => do
    for command in script.commands do run budget command
    match script.fault with
    | none => pure ()
    | some fault => do
      modify fun shell => { shell with line := fault.line }
      abort ("Syntax error: " ++ fault.message)

def addPiece : Nat → Fields → Piece → ShellRun Fields
  | 0, _, _ => throw .exhausted
  | _, fields, .text content isQuoted => pure (fields.addText content isQuoted)
  | budget + 1, fields, .parameter name use argument isQuoted => do
    let shell ← get
    let separators := shell.separators
    if use = .value && name = "@" && isQuoted then
      return fields.addArguments (fun fields text => fields.addText text true) shell.arguments
    else if use = .value && (name = "@" || name = "*") && !isQuoted then
      return fields.addArguments (fun fields text => fields.addSplit separators text) shell.arguments
    else if !isQuoted && yieldsArgument shell name use then
      argument.foldlM (fun fields piece =>
        match piece with
        | .text content false => pure (fields.addSplit separators content)
        | _ => addPiece budget fields piece) fields
    else
      let value ← expanded budget (.parameter name use argument isQuoted)
      return if isQuoted then fields.addText value true else fields.addSplit separators value
  | budget + 1, fields, piece => do
    let value ← expanded budget piece
    let separators := (← get).separators
    return if piece.isQuoted then fields.addText value true else fields.addSplit separators value

def fieldsOf : Nat → List Word → ShellRun (List String)
  | 0, _ => throw .exhausted
  | _, [] => pure []
  | budget + 1, word :: words => do
    let fields ← word.foldlM (addPiece budget) {}
    let shell ← get
    let texts := fields.toList.flatMap fun field =>
      if shell.options.ignoresPatterns then [field.text] else field.paths shell.files
    return texts ++ (← fieldsOf budget words)

def textOf : Nat → Word → ShellRun String
  | 0, _ => throw .exhausted
  | budget + 1, word => do
    return Text.join "" (← word.mapM (expanded budget))

def patternOf : Nat → Word → ShellRun (List Wildcard.Item)
  | 0, _ => throw .exhausted
  | budget + 1, word => do
    let parts ← word.mapM fun piece => do
      return (← expanded budget piece).toList.map fun character => (character, piece.isQuoted)
    return Wildcard.ofCharacters parts.flatten

def choose : Nat → String → List (List Word × Command) → ShellRun Unit
  | 0, _, _ => throw .exhausted
  | _, _, [] => setStatus 0
  | budget + 1, subject, (patterns, body) :: arms => do
    let forms ← patterns.mapM (patternOf budget)
    if forms.any fun pattern => Wildcard.hasForm pattern subject.toList then
      setStatus 0
      run budget body
    else choose budget subject arms

def round : Nat → ShellRun Unit → ShellRun Bool
  | 0, _ => throw .exhausted
  | _ + 1, body => do
    let shell ← get
    set { shell with loopDepth := shell.loopDepth + 1 }
    try
      body
      modify fun inner => { inner with loopDepth := shell.loopDepth }
      return true
    catch
      | .left loops goesOn => do
        modify fun inner =>
          { inner with
            loopDepth := shell.loopDepth, isTested := shell.isTested, origin := shell.origin }
        if loops > 1 then throw (.left (loops - 1) goesOn)
        return goesOn
      | stop => throw stop

def forEach : Nat → String → List String → Command → ShellRun Unit
  | 0, _, _, _ => throw .exhausted
  | _, _, [], _ => pure ()
  | budget + 1, name, value :: values, body => do
    setVariable name value
    if ← round budget (run budget body) then forEach budget name values body

/-- Runs a body as long as a condition says so. In the end, the status is that of the last round,
which is given along. -/
def repeated : Nat → Bool → Command → Command → Nat → ShellRun Unit
  | 0, _, _, _, _ => throw .exhausted
  | budget + 1, isUntil, condition, body, status => do
    let goesOn ← round budget (tested budget condition)
    if goesOn && ((← get).status = 0) != isUntil then
      if ← round budget (run budget body) then
        repeated budget isUntil condition body (← get).status
    else setStatus status

def tested : Nat → Command → ShellRun Unit
  | 0, _ => throw .exhausted
  | budget + 1, command => do
    let outer := (← get).isTested
    modify fun shell => { shell with isTested := true }
    run budget command
    modify fun shell => { shell with isTested := outer }

/-- Opens redirections in order; the answer is whether all succeed. -/
def openAll : Nat → List Redirection → ShellRun Bool
  | 0, _ => throw .exhausted
  | _, [] => pure true
  | budget + 1, redirection :: redirections => do
    let target ← textOf budget redirection.target
    if ← openTarget redirection.descriptor redirection.direction target then
      openAll budget redirections
    else return false

/-- Runs a script as a program in a shell of its own; if it cannot be run, the answer is the status
and the reason. A signal that kills the program kills this shell as well only if the program takes
its place. -/
def runFile (takesPlace : Bool) : Nat → String → List String → ShellRun (Option (Nat × String))
  | 0, _, _ => throw .exhausted
  | budget + 1, path, arguments => do
    let shell ← get
    match scriptAt shell.files true path with
    | .error refusal =>
      return some (if isMissing refusal then (127, "not found") else (126, refusal.description))
    | .ok (content, options) =>
      set (forProgram shell path arguments options)
      try
        toEnd budget (runScript budget (Script.ofText 1 content))
        modify (afterOther shell)
      catch
        | .killed signal => do
          if takesPlace then throw (.killed signal)
          modify (afterOther shell)
          setStatus (128 + signal)
          match obituary? signal with
          | some text => complain text
          | none => pure ()
        | stop => throw stop
      return none

/-- Runs a program; if that is not possible, the answer is the status and the reason. -/
def runProgram (takesPlace : Bool) :
    Nat → String → List String → ShellRun (Option (Nat × String))
  | 0, _, _ => throw .exhausted
  | budget + 1, name, arguments => do
    match programPath? (← get) name with
    | none => return some (127, "not found")
    | some path =>
      if path = "/bin/cat" || path = "/usr/bin/cat" then
        cat arguments
        return none
      else if path = "/bin/chmod" || path = "/usr/bin/chmod" then
        chmod arguments
        return none
      else runFile takesPlace budget path arguments

def call : Nat → Command → List String → ShellRun Unit
  | 0, _, _ => throw .exhausted
  | budget + 1, body, arguments => do
    let shell ← get
    set { shell with arguments := arguments, locals := some [], loopDepth := 0 }
    try
      run budget body
    catch
      | .returned => pure ()
      | stop => throw stop
    modify fun inner =>
      { inner with
        bindings := (inner.locals.getD []).foldl
          (fun bindings binding => restoreVariable bindings binding.1 binding.2) inner.bindings
        arguments := shell.arguments, locals := shell.locals
        loopDepth := shell.loopDepth, isTested := shell.isTested, origin := shell.origin }

def runHere : Nat → String → ShellRun Unit
  | 0, _ => throw .exhausted
  | budget + 1, path => do
    if !path.toList.contains '/' then abortFor "." (path ++ ": not found")
    let shell ← get
    match shell.files.read path with
    | .error _ => abortFor "." ("cannot open " ++ path ++ ": No such file")
    | .ok bytes =>
      set { shell with origin := path, status := 0 }
      try
        runScript budget (Script.ofText 1 (Text.Utf8.decode bytes))
      catch
        | .returned => pure ()
        | stop => throw stop
      modify fun inner => { inner with origin := shell.origin }

def runFields : Nat → List String → ShellRun Unit
  | 0, _ => throw .exhausted
  | _, [] => pure ()
  | _, ["exec"] => setStatus 0
  | budget + 1, "exec" :: name :: arguments => do
    match ← runProgram true budget name arguments with
    | none => pure ()
    | some (status, reason) => failFor status "exec" (name ++ ": " ++ reason)
    modify fun shell => { shell with traps := [] }
    throw .exited
  | budget + 1, "eval" :: texts => do
    let shell ← get
    set { shell with origin := "eval", status := 0 }
    runScript budget (Script.ofText 1 (Text.join " " texts))
    modify fun inner => { inner with origin := shell.origin }
  | budget + 1, "." :: path :: _ => runHere budget path
  | budget + 1, name :: arguments => do
    if ← special name arguments then return
    match (← get).functions.find? name with
    | some body => call budget body arguments
    | none => runOther budget (name :: arguments)

def runOther : Nat → List String → ShellRun Unit
  | 0, _ => throw .exhausted
  | _, [] => setStatus 0
  | budget + 1, "command" :: fields => runCommand budget fields
  | budget + 1, "kill" :: arguments => do
    match ← kill arguments with
    | none => pure ()
    | some action => do
      let status := (← get).status
      runScript budget (Script.ofText 1 action)
      setStatus status
  | budget + 1, name :: arguments => do
    if ← regular name arguments then return
    match ← runProgram false budget name arguments with
    | none => pure ()
    | some (status, reason) => failHere status (name ++ ": " ++ reason)

def runCommand : Nat → List String → ShellRun Unit
  | 0, _ => throw .exhausted
  | _, [] => setStatus 0
  | _, ["-v"] => setStatus 0
  | _, "-v" :: name :: _ => do
    let shell ← get
    if (specialNames ++ regularNames).contains name || shell.functions.contains name then
      emit (name ++ "\n").toUTF8
      setStatus 0
    else
      match programPath? shell name with
      | some path => do
        emit (path ++ "\n").toUTF8
        setStatus 0
      | none => setStatus 127
  | budget + 1, name :: arguments => do
    if !(← special name arguments) then runOther budget (name :: arguments)

def assign : Nat → List (String × Word) → ShellRun (List (String × String))
  | 0, _ => throw .exhausted
  | _, [] => pure []
  | budget + 1, (name, word) :: others => do
    let value ← textOf budget word
    setVariable name value
    return (name, value) :: (← assign budget others)

/-- Runs a simple command: its words are expanded, its redirections opened and its variables
assigned. The variables keep their values only if there is no command, or one whose failure ends the
script. -/
def runSimple : Nat → List Word → List Redirection → ShellRun Unit
  | 0, _, _ => throw .exhausted
  | budget + 1, words, redirections => do
    modify fun shell => { shell with substitutionStatus := 0 }
    let assignments := words.takeWhile fun word => (Word.assignment? word).isSome
    let fields ← fieldsOf budget (words.drop assignments.length)
    let before ← get
    let isSpecial := fields.head?.any specialNames.contains
    if !(← openAll budget redirections) then
      closeAll before redirections
      setStatus 2
      if isSpecial then throw .exited
      return
    let values ← assign budget (assignments.filterMap Word.assignment?)
    let names := values.map Prod.fst
    if before.options.traces then
      trace (before.sinks.lookup 2) (values.map (fun value => value.1 ++ "=" ++ value.2) ++ fields)
    if fields.isEmpty then
      modify fun shell => { shell with status := shell.substitutionStatus }
    else if isSpecial then runFields budget fields
    else
      modify fun shell => { shell with exported := names ++ shell.exported }
      runFields budget fields
      modify (withoutPassing before names)
    if fields != ["exec"] then closeAll before redirections

def run : Nat → Command → ShellRun Unit
  | 0, _ => throw .exhausted
  | _, .nothing => pure ()
  | budget + 1, .simple line words redirections => do
    modify fun shell => { shell with line := line }
    runSimple budget words redirections
    checkStatus
  | budget + 1, .redirected line command redirections => do
    modify fun shell => { shell with line := line }
    let shell ← get
    if ← openAll budget redirections then run budget command else setStatus 2
    closeAll shell redirections
  | _ + 1, .definition name body =>
    modify fun shell =>
      { shell with functions := shell.functions.insert name body, status := 0 }
  | budget + 1, .sequence first second => do
    run budget first
    run budget second
  | budget + 1, .background command => do
    let input := (← get).input
    modify fun shell => { shell with input := ByteArray.empty }
    inSubshell budget (run budget command)
    modify fun shell => { shell with input := input, status := 0 }
  | budget + 1, .both first second => do
    tested budget first
    if (← get).status = 0 then run budget second
  | budget + 1, .either first second => do
    tested budget first
    if (← get).status ≠ 0 then run budget second
  | budget + 1, .negation command => do
    tested budget command
    setStatus (statusOf ((← get).status ≠ 0))
  | budget + 1, .pipe first second => do
    let input := (← get).input
    let passed ← collected budget (run budget first)
    modify fun shell => { shell with input := passed }
    inSubshell budget (run budget second)
    modify fun shell => { shell with input := input }
    checkStatus
  | budget + 1, .subshell command => do
    inSubshell budget (run budget command)
    checkStatus
  | budget + 1, .conditional condition thenPart elsePart => do
    tested budget condition
    if (← get).status = 0 then run budget thenPart
    else if elsePart matches .nothing then setStatus 0
    else run budget elsePart
  | budget + 1, .forEach line name words body => do
    modify fun shell => { shell with line := line }
    let values ← match words with
      | some words => fieldsOf budget words
      | none => do pure (← get).arguments
    setStatus 0
    forEach budget name values body
  | budget + 1, .repeated isUntil condition body => repeated budget isUntil condition body 0
  | budget + 1, .choice line subject arms => do
    modify fun shell => { shell with line := line }
    choose budget (← textOf budget subject) arms

end

/-! ## Programs of the host -/

def stepLimit : Nat := 20000

def launch (files : Files) (path : String) (arguments : List String) (input : ByteArray) :
    Except Refusal ProgramResult × Files :=
  let script := if (path :: arguments).any fun text => text.toList.contains '\x00'
    then .error .nulArgument
    else scriptAt files false path
  match script with
  | .error refusal => (.error refusal, files)
  | .ok (content, options) =>
    let shell := forProgram { files := files, input := input } path arguments options
    let body := toEnd stepLimit (runScript stepLimit (Script.ofText 1 content))
    let (ending, shell) := match body.run shell with
      | .ok () shell => (Ending.status shell.status, shell)
      | .error _ shell => (Ending.signal, shell)
    let stream (index : Nat) : ByteArray := shell.streams[index]?.getD ByteArray.empty
    (.ok ⟨ending, stream 0, stream 1⟩, shell.files)

end Shell

end InlineMacro.Machine
