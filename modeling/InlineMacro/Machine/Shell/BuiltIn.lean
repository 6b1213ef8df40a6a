import InlineMacro.Machine.Format
import InlineMacro.Machine.Shell.Condition
import InlineMacro.Machine.Shell.Field

/-!
# Commands of the shell

The commands that the shell knows by itself, and the few programs that are there besides scripts.
Those that run other commands are not among them.
-/

set_option autoImplicit false

namespace InlineMacro.Machine.Shell

/-! ## Output -/

/-- Writes bytes to the output for a command, which fails if the output is closed. -/
def emitFor (command : String) (bytes : ByteArray) : ShellRun Unit := do
  match (← get).sinks.lookup 1 with
  | some sink => emitTo sink bytes
  | none => if bytes.size > 0 then failFor 1 command (command ++ ": I/O error")

def echo (arguments : List String) : ShellRun Unit := do
  setStatus 0
  emitFor "echo" (Format.echo arguments)

/-- Writes arguments in the form that a format gives. -/
def printfIn (format : String) (arguments : List String) : ShellRun Unit := do
  let progress := Format.printf format arguments
  setStatus progress.status
  emitFor "printf" progress.bytes
  for complaint in progress.complaints do complainFor "printf" complaint

/-- Writes the arguments of `printf` in the form that the first of them gives, which may be told
apart from options by two dashes. -/
def printf : List String → ShellRun Unit
  | [] | ["--"] => failFor 2 "printf" "usage: printf format [arg ...]"
  | "--" :: format :: arguments => printfIn format arguments
  | format :: arguments =>
    match format.toList with
    | '-' :: letter :: _ => failFor 2 "printf" ("Illegal option -" ++ letter.toString)
    | _ => printfIn format arguments

/-- A name as programs show it: in quotes if a shell would take its characters for signs. -/
def shownName (name : String) : String :=
  let characters := name.toList
  let isSign (character : Char) : Bool := " !\"$&()*;<=>[^\x60|'?\\:\t\n".toList.contains character
  if characters.isEmpty || characters.any isSign || ['#', '~'].any (characters.head? = some ·) then
    "'" ++ name.replace "'" "'\\''" ++ "'"
  else name

/-- Whether a path leads to the file that the output goes to the end of, and the file is not empty.
-/
def isOutput (shell : Shell) (path : String) : Bool :=
  match shell.sinks.lookup 1 with
  | some (.file target) =>
    Condition.hasContent shell.files path &&
      (shell.files.locate path).toOption = (shell.files.locate target).toOption
  | _ => false

/-- Writes files, or the input where a dash stands, one after another. -/
def catFiles : List String → ShellRun Unit
  | [] => pure ()
  | path :: paths => do
    let fail (reason : String) : ShellRun Unit := do
      complain ("cat: " ++ shownName path ++ ": " ++ reason)
      setStatus 1
    if path != "-" && isOutput (← get) path then fail "input file is output file"
    else
      match ← readPath (if path = "-" then "/dev/stdin" else path) with
      | .ok bytes => emit bytes
      | .error refusal => fail refusal.description
    catFiles paths

def cat (arguments : List String) : ShellRun Unit := do
  let paths := match arguments with
    | "--" :: paths => paths
    | _ => arguments
  if ((← get).sinks.lookup 1).isNone then
    complain "cat: standard output: Bad file descriptor"
    setStatus 1
  else
    setStatus 0
    catFiles (if paths.isEmpty then ["-"] else paths)

/-! ## Conditions -/

/-- Answers the question of `test`, under the name that it was asked by. -/
def test (command : String) (arguments : List String) : ShellRun Unit := do
  match Condition.test (← get).files arguments with
  | .ok answer => setStatus (statusOf answer)
  | .error complaint => failFor 2 command complaint

def bracket (arguments : List String) : ShellRun Unit :=
  if arguments.getLast? = some "]" then test "[" arguments.dropLast
  else failFor 2 "[" "missing ]"

/-! ## Parameters -/

/-- The name and the value of a text that assigns; without a value if it does not. -/
def binding (text : String) : String × Option String :=
  let name := text.toList.takeWhile (· != '=')
  let value := text.toList.drop name.length
  (String.ofList name, if value.isEmpty then none else some (String.ofList value.tail))

/-- Takes the arguments of a command that declares variables: each gets its value, if it has one,
and is declared. -/
def declare (command : String) (mark : String → Shell → Shell) : List String → ShellRun Unit
  | [] => setStatus 0
  | "-p" :: _ => setStatus 0
  | argument :: arguments => do
    let (name, value) := binding argument
    if !isName name then abortFor command (name ++ ": bad variable name")
    match value with
    | some value => setVariable name value
    | none => pure ()
    modify (mark name)
    declare command mark arguments

def exportNames : List String → ShellRun Unit :=
  declare "export" fun name shell => { shell with exported := name :: shell.exported }

def fixNames : List String → ShellRun Unit :=
  declare "readonly" fun name shell => { shell with fixed := name :: shell.fixed }

/-- Declares variables of the function at work. -/
def localNames : List String → ShellRun Unit
  | [] => setStatus 0
  | argument :: arguments => do
    let (name, value) := binding argument
    let shell ← get
    match shell.locals with
    | none => abortFor "local" "not in a function"
    | some locals =>
      set { shell with locals := some ((name, shell.bindings.find? name) :: locals) }
      match value with
      | some value => setVariable name value
      | none => pure ()
      localNames arguments

def unset : List String → ShellRun Unit
  | "-f" :: names =>
    modify fun shell => { shell with functions := names.foldl .erase shell.functions, status := 0 }
  | "-v" :: names | names =>
    modify fun shell => { shell with bindings := names.foldl .erase shell.bindings, status := 0 }

/-- The number that a command is given, which has no sign. -/
def count (command text : String) : ShellRun Nat := do
  match (Text.decimal? text.toList).filter (· < Nat.pow 2 31) with
  | some value => return value
  | none => abortFor command ("Illegal number: " ++ text)

/-- Drops the first arguments of the script. -/
def shift (arguments : List String) : ShellRun Unit := do
  let dropped ← match arguments with
    | [] => pure 1
    | text :: _ => count "shift" text
  let shell ← get
  if dropped > shell.arguments.length then abortFor "shift" "can't shift that many"
  set { shell with arguments := shell.arguments.drop dropped, status := 0 }

def withOption? (options : Options) (letter : Char) (value : Bool) : Option Options :=
  match letter with
  | 'e' => some { options with endsOnFailure := value }
  | 'u' => some { options with refusesUnset := value }
  | 'x' => some { options with traces := value }
  | 'f' => some { options with ignoresPatterns := value }
  | _ => if "abChImnvVEsi".toList.contains letter then some options else none

def withNamedOption? (options : Options) (name : String) (value : Bool) : Option Options :=
  match name with
  | "errexit" => withOption? options 'e' value
  | "nounset" => withOption? options 'u' value
  | "xtrace" => withOption? options 'x' value
  | "noglob" => withOption? options 'f' value
  | _ =>
    if ["ignoreeof", "interactive", "monitor", "noexec", "stdin", "verbose", "vi", "emacs",
        "noclobber", "allexport", "notify", "nolog", "debug"].contains name then some options
    else none

def setLetters (sign : String) (value : Bool) : List Char → ShellRun Unit
  | [] => pure ()
  | letter :: letters => do
    let shell ← get
    match withOption? shell.options letter value with
    | some options => set { shell with options := options }
    | none => abortFor "set" ("Illegal option " ++ sign ++ letter.toString)
    setLetters sign value letters

def setNamed (sign : String) (value : Bool) (name : String) : ShellRun Unit := do
  let shell ← get
  match withNamedOption? shell.options name value with
  | some options => set { shell with options := options }
  | none => abortFor "set" ("Illegal option " ++ sign ++ "o " ++ name)

def setArguments : List String → ShellRun Unit
  | [] => setStatus 0
  | ["-o"] | ["+o"] => setStatus 0
  | "-o" :: name :: others => do
    setNamed "-" true name
    setArguments others
  | "+o" :: name :: others => do
    setNamed "+" false name
    setArguments others
  | "--" :: arguments => modify fun shell => { shell with arguments := arguments, status := 0 }
  | word :: others => do
    match word.toList with
    | '-' :: letters => do
      setLetters "-" true letters
      setArguments others
    | '+' :: letters => do
      setLetters "+" false letters
      setArguments others
    | _ => modify fun shell => { shell with arguments := word :: others, status := 0 }

/-! ## Reading lines -/

/-- The line at the front of characters, each with whether a backslash stands before it, what
follows the line, and whether it is complete. A backslash joins lines. -/
def inputLine (isRaw : Bool) : List Char → List Wildcard.Character × List Char × Bool
  | [] => ([], [], false)
  | '\n' :: rest => ([], rest, true)
  | '\\' :: next :: rest =>
    if isRaw then
      let (line, after, isComplete) := inputLine isRaw (next :: rest)
      (('\\', false) :: line, after, isComplete)
    else
      let (line, after, isComplete) := inputLine isRaw rest
      (if next = '\n' then line else (next, true) :: line, after, isComplete)
  | character :: rest =>
    let (line, after, isComplete) := inputLine isRaw rest
    ((character, false) :: line, after, isComplete)

def isBlankSeparator (separators : List Char) (character : Wildcard.Character) : Bool :=
  !character.2 && separators.contains character.1 && [' ', '\t', '\n'].contains character.1

def withoutBlankEnd (separators : List Char) (line : List Wildcard.Character) :
    List Wildcard.Character :=
  (line.reverse.dropWhile (isBlankSeparator separators)).reverse

/-- Gives the names the values of a line; the last takes all that is left. -/
def assignLine (separators : List Char) : List String → List Wildcard.Character → ShellRun Unit
  | [], _ => pure ()
  | [name], line =>
    let value := withoutBlankEnd separators (line.dropWhile (isBlankSeparator separators))
    setVariable name (Field.text value)
  | name :: names, line => do
    let line := line.dropWhile (isBlankSeparator separators)
    let value := line.takeWhile fun character => character.2 || !separators.contains character.1
    let rest := (line.drop value.length).dropWhile (isBlankSeparator separators)
    let rest := match rest with
      | character :: others => if !character.2 && separators.contains character.1 then others else rest
      | [] => []
    setVariable name (Field.text value)
    assignLine separators names rest

def readLine (isRaw : Bool) : List String → ShellRun Unit
  | "-r" :: names => readLine true names
  | "-p" :: _ :: names => readLine isRaw names
  | [] => failFor 2 "read" "arg count"
  | names => do
    match names.find? fun name => !isName name with
    | some name => failFor 2 "read" (name ++ ": bad variable name")
    | none =>
      let shell ← get
      let (line, rest, isComplete) := inputLine isRaw (Text.Utf8.decode shell.input).toList
      set { shell with input := (String.ofList rest).toUTF8 }
      assignLine shell.separators names line
      setStatus (statusOf isComplete)

/-! ## Programs -/

/-- What a clause of a mode makes of a file that can be run, or not; none if it is no clause. -/
def clause? (isExecutable : Bool) (characters : List Char) : Option Bool :=
  let classes := characters.takeWhile ['u', 'g', 'o', 'a'].contains
  let isForOwner := classes.isEmpty || classes.contains 'u' || classes.contains 'a'
  match characters.drop classes.length with
  | [] => none
  | sign :: letters =>
    let named := letters.contains 'x'
    if !letters.all ['r', 'w', 'x', 'X', 's', 't'].contains then none
    else
      match sign with
      | '+' => some (isExecutable || named)
      | '-' => some (isExecutable && !(named && isForOwner))
      | '=' => some (named || isExecutable && !isForOwner)
      | _ => none

/-- Whether a mode makes a file executable that may be so already; none if it is no mode. -/
def mode? (text : String) (isExecutable : Bool) : Option Bool :=
  let characters := text.toList
  if characters.isEmpty then none
  else if characters.all Format.isOctal then
    let value := characters.foldl (fun value digit => 8 * value + Text.digitValue digit) 0
    if value < Nat.pow 8 4 then some ((characters.reverse.take 3).any fun digit => digit.toNat % 2 = 1)
    else none
  else
    (Text.splitBy (· = ',') characters).foldlM clause? isExecutable

def changeModes (mode : String) : List String → ShellRun Unit
  | [] => pure ()
  | path :: paths => do
    let files := (← get).files
    let isExecutable := (mode? mode (files.hasFile path && Condition.canRun files path)).getD false
    match files.setExecutable path isExecutable with
    | .ok files => modify fun shell => { shell with files := files }
    | .error refusal =>
      complain ("chmod: cannot access '" ++ path ++ "': " ++ refusal.description)
      setStatus 1
    changeModes mode paths

def chmod (arguments : List String) : ShellRun Unit := do
  let refuse (message : String) : ShellRun Unit := do
    complain ("chmod: " ++ message)
    complain "Try 'chmod --help' for more information."
    setStatus 1
  match arguments with
  | [] => refuse "missing operand"
  | mode :: paths =>
    if (mode? mode false).isNone then refuse ("invalid mode: '" ++ mode ++ "'")
    else if paths.isEmpty then refuse ("missing operand after '" ++ mode ++ "'")
    else
      setStatus 0
      changeModes mode paths

/-! ## Signals -/

/-- The names of signals with their numbers. -/
def signals : List (String × Nat) :=
  [("EXIT", 0), ("HUP", 1), ("INT", 2), ("QUIT", 3), ("ILL", 4), ("TRAP", 5), ("ABRT", 6),
    ("BUS", 7), ("FPE", 8), ("KILL", 9), ("USR1", 10), ("SEGV", 11), ("USR2", 12), ("PIPE", 13),
    ("ALRM", 14), ("TERM", 15), ("STKFLT", 16), ("CHLD", 17), ("CONT", 18), ("STOP", 19),
    ("TSTP", 20), ("TTIN", 21), ("TTOU", 22), ("URG", 23), ("XCPU", 24), ("XFSZ", 25),
    ("VTALRM", 26), ("PROF", 27), ("WINCH", 28), ("IO", 29), ("PWR", 30), ("SYS", 31)]

def harmless : List Nat := [0, 17, 18, 19, 20, 21, 22, 23, 28]

/-- The number of a signal that is named or numbered. -/
def signal? (text : String) : Option Nat :=
  match Text.decimal? text.toList with
  | some number => if number ≤ 64 then some number else none
  | none => signals.lookup text.toUpper

def trapName (signal : Nat) : String := toString signal

def sendTo (signal : Nat) : List String → ShellRun (Option String)
  | [] => do
    setStatus 0
    return none
  | process :: others => do
    let shell ← get
    if process != "1000" && process != "0" then
      if (Text.decimal? process.toList).isNone then
        failFor 2 "kill" ("Illegal number: " ++ process)
      else
        complainFor "kill" "No such process"
        complain ""
        setStatus 1
      return none
    match shell.traps.find? (trapName signal) with
    | some action =>
      if signal != 0 && signal != 9 then
        setStatus 0
        return some action
      if harmless.contains signal then sendTo signal others else throw (.killed signal)
    | none => if harmless.contains signal then sendTo signal others else throw (.killed signal)

def killUsage : ShellRun (Option String) := do
  complainFor "kill" "Usage: kill [-s sigspec | -signum | -sigspec] [pid | job]... or"
  complain "kill -l [exitstatus]"
  setStatus 2
  return none

/-- Sends the signal of a name to processes; the answer is the action that a trap has for it. -/
def sendNamed (name : String) (processes : List String) : ShellRun (Option String) := do
  match signal? name with
  | none => do
    failFor 2 "kill" ("Illegal option -" ++ (name.take 1).toString)
    return none
  | some signal => if processes.isEmpty then killUsage else sendTo signal processes

/-- Sends the signal that arguments ask for; the answer is the action that a trap has for it. -/
def kill : List String → ShellRun (Option String)
  | [] => killUsage
  | ["-s"] => do
    failFor 2 "kill" "No arg for -s option"
    return none
  | "-s" :: name :: processes => sendNamed name processes
  | first :: rest =>
    match first.toList with
    | '-' :: name => sendNamed (String.ofList name) rest
    | _ => sendTo 15 (first :: rest)

def keepTrap (action : Option String) : List String → ShellRun Unit
  | [] => setStatus 0
  | name :: names => do
    match signal? name with
    | none => failFor 1 "trap" (name ++ ": bad trap")
    | some signal =>
      modify fun shell =>
        { shell with traps := restoreVariable shell.traps (trapName signal) action }
      keepTrap action names

/-- Keeps the action that stands first for the signals behind it. -/
def trap : List String → ShellRun Unit
  | "--" :: arguments => trap arguments
  | [] => setStatus 0
  | [name] => keepTrap none [name]
  | action :: names => keepTrap (if action = "-" then none else some action) names

/-! ## Ends -/

def setGivenStatus (command : String) (arguments : List String) : ShellRun Unit := do
  match arguments with
  | [] => pure ()
  | text :: _ => setStatus (← count command text)

/-- Leaves loops, or goes on with their next round. -/
def leave (command : String) (goesOn : Bool) (arguments : List String) : ShellRun Unit := do
  let loops ← match arguments with
    | [] => pure 1
    | text :: _ => do
      let loops ← count command text
      if loops = 0 then abortFor command ("Illegal number: " ++ text)
      pure loops
  setStatus 0
  let depth := (← get).loopDepth
  if depth > 0 then throw (.left (min loops depth) goesOn)

/-- Runs a command whose failure ends the script; the answer is whether there is one of the name. -/
def special (name : String) (arguments : List String) : ShellRun Bool := do
  match name with
  | ":" => setStatus 0; return true
  | "break" => leave name false arguments; return true
  | "continue" => leave name true arguments; return true
  | "exit" => setGivenStatus name arguments; throw .exited
  | "return" => setGivenStatus name arguments; throw .returned
  | "export" => exportNames arguments; return true
  | "readonly" => fixNames arguments; return true
  | "set" => setArguments arguments; return true
  | "shift" => shift arguments; return true
  | "trap" => trap arguments; return true
  | "unset" => unset arguments; return true
  | _ => return false

def regular (name : String) (arguments : List String) : ShellRun Bool := do
  match name with
  | "true" => setStatus 0; return true
  | "false" => setStatus 1; return true
  | "echo" => echo arguments; return true
  | "printf" => printf arguments; return true
  | "test" => test name arguments; return true
  | "[" => bracket arguments; return true
  | "read" => readLine false arguments; return true
  | "local" => localNames arguments; return true
  | "wait" | "umask" | "hash" => setStatus 0; return true
  | _ => return false

def specialNames : List String :=
  [":", ".", "break", "continue", "eval", "exec", "exit", "export", "readonly", "return", "set",
    "shift", "times", "trap", "unset"]

def regularNames : List String :=
  ["true", "false", "echo", "printf", "test", "[", "read", "local", "wait", "umask", "hash", "kill",
    "command"]

end InlineMacro.Machine.Shell
