import InlineMacro.Host
import InlineMacro.Text.Decimal
import InlineMacro.Text.Lines

/-!
# Command lines

What a program understands on its command line, how arguments are read by it, and the help that it
gives. An option has a long name, a letter, or both; its value stands in the next argument, or in the
same one, behind an equals sign or right behind the letter. Two dashes end the options.
-/

set_option autoImplicit false

namespace InlineMacro.CommandLine

/-- The value of an option. -/
structure ValueForm where
  name : String
  isRepeated : Bool := false
  acceptsDashes : Bool := false
  accepts : String → Bool := fun _ => true
  standard : Option String := none

/-- An option; without a value it is a flag. -/
structure OptionForm where
  key : String
  letter : Option Char := none
  long : Option String := none
  value : Option ValueForm := none
  help : String := ""

/-- The arguments that are no options. -/
structure PositionalForm where
  name : String
  isRepeated : Bool := false
  isRequired : Bool := true
  accepts : String → Bool := fun _ => true
  help : String := ""

/-- What a program understands. Only a form with a long account of itself has a long help. -/
structure Form where
  name : String
  about : String
  longAbout : Option String := none
  offersHelp : Bool := true
  version : Option String := none
  options : List OptionForm := []
  positional : Option PositionalForm := none
  commands : List (String × String) := []

/-- What was found on a command line. -/
structure Matches where
  flags : List String := []
  values : List (String × String) := []
  positionals : List String := []
deriving Inhabited, Repr

namespace Matches

def hasFlag (found : Matches) (key : String) : Bool := found.flags.contains key

def value? (found : Matches) (key : String) : Option String := found.values.lookup key

def valuesOf (found : Matches) (key : String) : List String :=
  (found.values.filter fun entry => entry.1 == key).map Prod.snd

end Matches

/-- Why a command line is not carried out. -/
inductive Stop where
  | help (isLong : Bool)
  | helpFor (commands : List String)
  | version
  | misuse
deriving DecidableEq, Inhabited, Repr

def acceptsPath (value : String) : Bool := !value.isEmpty

def acceptsNumber (bound : Nat) (value : String) : Bool :=
  (Text.boundedDecimal? bound value.toList).isSome

def wordBound : Nat := 18446744073709551616

/-! ## Reading -/

/-- The state of reading: an option that waits for its value, whether a run of positional arguments is
being read, and whether options have ended. -/
structure Reading where
  found : Matches := {}
  pending : Option OptionForm := none
  inPositionals : Bool := false
  optionsEnded : Bool := false
deriving Inhabited

namespace Reading

/-- Takes in a flag; it can be given once. -/
def flag (reading : Reading) (option : OptionForm) : Except Stop Reading :=
  if reading.found.hasFlag option.key then .error .misuse
  else
    .ok { reading with
      found := { reading.found with flags := reading.found.flags ++ [option.key] }
      inPositionals := false }

def value (reading : Reading) (option : OptionForm) (content : String) : Except Stop Reading :=
  match option.value with
  | none => .error .misuse
  | some form =>
    if !form.accepts content then .error .misuse
    else if !form.isRepeated && (reading.found.value? option.key).isSome then .error .misuse
    else
      .ok { reading with
        found := { reading.found with values := reading.found.values ++ [(option.key, content)] }
        pending := none
        inPositionals := false }

/-- Takes in an argument that is no option. -/
def positional (form : Form) (reading : Reading) (argument : String) : Except Stop Reading :=
  match form.positional with
  | none => .error .misuse
  | some wanted =>
    if !wanted.accepts argument then .error .misuse
    else if !wanted.isRepeated && !reading.found.positionals.isEmpty then .error .misuse
    else
      .ok { reading with
        found :=
          { reading.found with positionals := reading.found.positionals ++ [argument] }
        inPositionals := wanted.isRepeated }

def bare (reading : Reading) (option : OptionForm) : Except Stop Reading :=
  if option.value.isNone then reading.flag option
  else .ok { reading with pending := some option, inPositionals := false }

/-- Takes in a long option, written without its dashes. -/
def long (form : Form) (reading : Reading) (content : List Char) : Except Stop Reading :=
  let name := String.ofList (content.takeWhile (· != '='))
  let attached := match content.dropWhile (· != '=') with
    | _ :: value => some (String.ofList value)
    | [] => none
  match form.options.find? fun option => option.long == some name, attached with
  | some option, some value => reading.value option value
  | some option, none => reading.bare option
  | none, none =>
    if name = "help" then .error (.help true)
    else if name = "version" && form.version.isSome then .error .version
    else .error .misuse
  | none, some _ => .error .misuse

/-- Takes in letters behind a dash: flags, and at the end perhaps an option with its value. -/
def letters (form : Form) (reading : Reading) : List Char → Except Stop Reading
  | [] => .ok reading
  | letter :: rest =>
    match form.options.find? fun option => option.letter == some letter with
    | some option =>
      if option.value.isNone then do letters form (← reading.flag option) rest
      else
        match rest with
        | [] => reading.bare option
        | '=' :: value => reading.value option (String.ofList value)
        | value => reading.value option (String.ofList value)
    | none =>
      if letter = 'h' then .error (.help false)
      else if letter = 'V' && form.version.isSome then .error .version
      else .error .misuse

def looksLikeOption (argument : String) : Bool :=
  argument.startsWith "-" && argument != "-"

/-- Takes in an argument where no value is waited for. -/
def argument (form : Form) (reading : Reading) (argument : String) : Except Stop Reading :=
  match argument.toList with
  | ['-', '-'] => .ok { reading with optionsEnded := true }
  | '-' :: '-' :: content => reading.long form content
  | '-' :: first :: rest => reading.letters form (first :: rest)
  | _ => reading.positional form argument

/-- The result at the end of the arguments: nothing may be missing. -/
def finish (form : Form) (reading : Reading) : Except Stop Matches :=
  let lacksPositional :=
    form.positional.any fun wanted => wanted.isRequired && reading.found.positionals.isEmpty
  if reading.pending.isSome || lacksPositional then .error .misuse else .ok reading.found

/-- Reads arguments. A command ends them; it is returned with the arguments behind it. It is not looked
for among the values of options and right behind a positional argument. -/
def arguments (form : Form) (reading : Reading) :
    List String → Except Stop (Matches × Option (String × List String))
  | [] => do return (← reading.finish form, none)
  | argument :: rest => do
    if reading.optionsEnded then
      arguments form (← reading.positional form argument) rest
    else
      match reading.pending with
      | some option =>
        if looksLikeOption argument && !(option.value.any (·.acceptsDashes)) then throw .misuse
        arguments form (← reading.value option argument) rest
      | none =>
        if !reading.inPositionals && (form.commands.lookup argument).isSome then
          return (reading.found, some (argument, rest))
        else if !reading.inPositionals && !form.commands.isEmpty && argument = "help" then
          throw (.helpFor rest)
        else arguments form (← reading.argument form argument) rest

end Reading

def Form.read (form : Form) (arguments : List String) :
    Except Stop (Matches × Option (String × List String)) :=
  ({} : Reading).arguments form arguments

/-! ## Help -/

def bracketed (name : String) : String := "<" ++ name ++ ">"

/-- The left side of an option's line. -/
def OptionForm.usage (option : OptionForm) : String :=
  let value := match option.value with
    | some form => " " ++ bracketed form.name
    | none => ""
  match option.letter, option.long with
  | some letter, some long => "-" ++ letter.toString ++ ", --" ++ long ++ value
  | some letter, none => "-" ++ letter.toString ++ value
  | none, some long => "    --" ++ long ++ value
  | none, none => value

def descriptionIndent : String := Text.repeated " " 10

/-- The description of an option, its default behind the help or, in a long help, below it. -/
def OptionForm.description (isLong : Bool) (option : OptionForm) : String :=
  match option.value.bind ValueForm.standard with
  | some standard =>
    let separator := if isLong then "\n" ++ descriptionIndent ++ "\n" ++ descriptionIndent else " "
    option.help ++ separator ++ "[default: " ++ standard ++ "]"
  | none => option.help

def PositionalForm.usage (positional : PositionalForm) : String :=
  (if positional.isRequired then bracketed positional.name else "[" ++ positional.name ++ "]") ++
    (if positional.isRepeated then "..." else "")

def columns (rows : List (String × String)) : String :=
  let width := rows.foldl (fun width row => max width row.1.length) 0
  Text.join "" (rows.map fun row =>
    "  " ++ row.1 ++ Text.repeated " " (width - row.1.length + 2) ++ row.2 ++ "\n")

def spacedRows (rows : List (String × String)) : String :=
  Text.join "\n" (rows.map fun row => "  " ++ row.1 ++ "\n" ++ descriptionIndent ++ row.2 ++ "\n")

def helpPart (title : String) (write : List (String × String) → String)
    (rows : List (String × String)) : List String :=
  if rows.isEmpty then [] else [title ++ ":\n" ++ write rows]

def Form.commonOptions (form : Form) (isLong : Bool) : List OptionForm :=
  let hint :=
    if form.longAbout.isNone then ""
    else if isLong then " (see a summary with '-h')"
    else " (see more with '--help')"
  let help : OptionForm :=
    { key := "help", letter := some 'h', long := some "help", help := "Print help" ++ hint }
  let version : OptionForm :=
    { key := "version", letter := some 'V', long := some "version", help := "Print version" }
  (if form.offersHelp then [help] else []) ++ (if form.version.isSome then [version] else [])

/-- The usage of a program in one line. -/
def Form.usage (form : Form) : String :=
  let optionHint := if form.options.isEmpty then [] else ["[OPTIONS]"]
  let commandHint := if form.commands.isEmpty then [] else ["[COMMAND]"]
  "Usage: " ++ Text.join " "
    ([form.name] ++ optionHint ++ (form.positional.map (·.usage)).toList ++ commandHint) ++ "\n"

def helpCommand : String × String :=
  ("help", "Print this message or the help of the given subcommand(s)")

/-- The help of a program. The long one differs if the program has a long account of itself. -/
def Form.helpText (form : Form) (wantsLong : Bool) : String :=
  let isLong := wantsLong && form.longAbout.isSome
  let about := if isLong then form.longAbout.getD form.about else form.about
  let commandRows := if form.commands.isEmpty then [] else form.commands ++ [helpCommand]
  let write := if isLong then spacedRows else columns
  Text.join "\n" ([about ++ "\n", form.usage] ++
    helpPart "Commands" columns commandRows ++
    helpPart "Arguments" write
      (form.positional.map fun wanted => (wanted.usage, wanted.help)).toList ++
    helpPart "Options" write ((form.options ++ form.commonOptions isLong).map fun option =>
      (option.usage, option.description isLong)))

/-! ## Carrying out -/

section CarryingOut

variable {m : Type → Type} [Monad m] [Host m]

def Form.showHelp (form : Form) (isLong : Bool) : m Nat := do
  Host.print (form.helpText isLong)
  pure 0

/-- The exit status of a command line that is not carried out, after what there is to say. The commands
that help can be given for are found by their names. -/
def Form.stop (form : Form) (stop : Stop) (command? : List String → Option Form := fun _ => none) :
    m Nat := do
  let refuse : m Nat := do
    Host.printErrorLine ("error: the arguments of " ++ form.name ++ " were not understood\n")
    Host.printErrorLine "For more information, try '--help'."
    pure 2
  match stop with
  | .help isLong => form.showHelp isLong
  | .version =>
    Host.printLine (form.name ++ " " ++ form.version.getD "")
    pure 0
  | .helpFor names =>
    match command? names with
    | some command => command.showHelp true
    | none => refuse
  | .misuse => refuse

end CarryingOut

end InlineMacro.CommandLine
