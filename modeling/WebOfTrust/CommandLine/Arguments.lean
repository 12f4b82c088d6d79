import WebOfTrust.Text.Digits
import WebOfTrust.Text.Split

/-!
# `WebOfTrust.CommandLine.Arguments`: what the program is asked to do

The first argument names a command, the others are its options. A value follows its option, or is
joined to it by an equals sign. Each option is given at most once.

- `Invocation.parse`: the arguments read.
-/

set_option autoImplicit false

namespace WebOfTrust

/-! ### Commands -/

/-- The options of the commands that read a configuration. `none` leaves what the configuration
says. -/
structure RunOptions where
  configuration : String := "wot.toml"
  dataDirectory : Option String := none
  logLevel : Option String := none
  deriving DecidableEq, Repr, Inhabited

/-- What the program can do. `Invocation.parse` gives one, and `execute` carries it out. -/
inductive Command where
  /-- Writes a configuration. -/
  | setUp (configuration : String) (dataDirectory : Option String) (force : Bool)
  /-- Makes the artifacts of a dump. -/
  | resolve (options : RunOptions)
  /-- Makes the report of artifacts. -/
  | analyze (options : RunOptions) (workers : Option UInt64)
  /-- Makes the artifacts of a dump and their report. -/
  | run (options : RunOptions) (workers : Option UInt64)
  deriving DecidableEq, Repr

/-- What the program is asked to do. `help` and `version` need no configuration. -/
inductive Invocation where
  | command (c : Command)
  /-- Tells how the program is used. -/
  | help
  | version
  deriving DecidableEq, Repr

/-- Arguments that the program does not understand. All but `noCommand` quote what was given. -/
inductive UsageError where
  | noCommand
  | unknownCommand (name : String)
  | unexpected (argument : String)
  | missingValue (option : String)
  | invalidValue (option value : String)
  | repeated (option : String)
  deriving DecidableEq, Repr

/-- The message of an error, which is printed before the usage. `execute` puts `error: ` in front of
it. -/
def UsageError.message : UsageError → String
  | noCommand => "a command is required"
  | unknownCommand name => "no such command: " ++ name
  | unexpected argument => "unexpected argument: " ++ argument
  | missingValue option => "a value is required for --" ++ option
  | invalidValue option value => "invalid value for --" ++ option ++ ": " ++ value
  | repeated option => "given more than once: --" ++ option

/-! ### Options -/

/-- The options that there are. Which of them a command knows is in `commandTable`. -/
inductive OptionName where
  | config
  | dataDir
  | logLevel
  | workers
  | force
  | help
  deriving DecidableEq, Repr

namespace OptionName

/-- The name of an option behind two hyphens. `Argument.long` is compared with it. -/
def long : OptionName → String
  | config => "config"
  | dataDir => "data-dir"
  | logLevel => "log-level"
  | workers => "workers"
  | force => "force"
  | help => "help"

/-- The letter that stands for an option. Options without a letter have `none`. -/
def short : OptionName → Option Char
  | config => some 'c'
  | help => some 'h'
  | _ => none

/-- Whether a value belongs to an option. Only the others can stand without one. `readOptions` asks
for it when an option is found. -/
def takesValue : OptionName → Bool
  | force => false
  | help => false
  | _ => true

/-- Whether a value is one that the option can have. Paths are not empty, and a number of workers is
a number. A value that is refused is a `UsageError`. -/
def accepts : OptionName → String → Bool
  | config, value => value ≠ ""
  | dataDir, value => value ≠ ""
  | workers, value => (Text.readWord64 value).isSome
  | _, _ => true

end OptionName

/-- The options that are given, with their values. They are in the order of the arguments, and none
is in it twice. -/
abbrev GivenOptions := List (OptionName × String)

/-- An argument, by its form. `Argument.ofString` tells the forms apart, without knowing the
options. -/
inductive Argument where
  /-- Nothing but values follows. -/
  | separator
  /-- An option by its name, and the value that is joined to it. -/
  | long (name : String) (value : Option String)
  /-- An option by its letter, and the characters behind it. -/
  | short (letter : Char) (behind : List Char)
  | plain (text : String)

/-- The form of an argument. A hyphen alone is a plain one, and so is the empty text. `splitFirst`
finds the value that is joined by an equals sign. -/
def Argument.ofString (s : String) : Argument :=
  match s.toList with
  | ['-', '-'] => .separator
  | '-' :: '-' :: cs =>
    match Text.splitFirst '=' cs with
    | some (name, value) => .long (String.ofList name) (some (String.ofList value))
    | none => .long (String.ofList cs) none
  | '-' :: c :: cs => .short c cs
  | _ => .plain s

/-- The value that is joined to the letter of an option. `none` means that the value is the next
argument. -/
def joinedValue : List Char → Option String
  | [] => none
  | '=' :: cs => some (String.ofList cs)
  | cs => some (String.ofList cs)

/-- The option that an argument names, with the value that is joined to it. `none` stands for an
option that is not in `known`. -/
def Argument.option? (known : List OptionName) : Argument → Option (OptionName × Option String)
  | .long name value => (known.find? fun o => o.long = name).map fun o => (o, value)
  | .short letter behind =>
    (known.find? fun o => o.short = some letter).map fun o =>
      (o, if o.takesValue then joinedValue behind else none)
  | _ => none

/-- Adds an option to those given. A value is looked at by `accepts`. -/
def addOption (given : GivenOptions) (o : OptionName) (value : String) :
    Except UsageError GivenOptions :=
  if given.any fun g => g.1 = o then .error (.repeated o.long)
  else if o.accepts value then .ok (given ++ [(o, value)])
  else .error (.invalidValue o.long value)

/-- Reads the options among the arguments of a command, up to a request for help. The recursion is
on the arguments, of which an option may take two. -/
def readOptions (known : List OptionName) (given : GivenOptions) :
    List String → Except UsageError GivenOptions
  | [] => .ok given
  | argument :: rest =>
    match Argument.ofString argument with
    | .separator =>
      match rest with
      | [] => .ok given
      | further :: _ => .error (.unexpected further)
    | form =>
      match form.option? known with
      | none => .error (.unexpected argument)
      | some (o, some value) =>
        if o.takesValue then do readOptions known (← addOption given o value) rest
        else .error (.unexpected argument)
      | some (o, none) =>
        if o = .help then .ok (given ++ [(.help, "")])
        else if o.takesValue then
          match rest with
          | [] => .error (.missingValue o.long)
          | value :: rest =>
            match Argument.ofString value with
            | .plain value => do readOptions known (← addOption given o value) rest
            | _ => .error (.missingValue o.long)
        else do readOptions known (← addOption given o "") rest

/-! ### Invocations -/

/-- The options of the commands that read a configuration, among those given. A configuration that
is not named is `wot.toml`. -/
def RunOptions.ofGiven (given : GivenOptions) : RunOptions :=
  { configuration := (given.lookup .config).getD "wot.toml"
    dataDirectory := given.lookup .dataDir
    logLevel := given.lookup .logLevel }

/-- The number of workers among the options given. `accepts` has made sure that it is a number. -/
def givenWorkers (given : GivenOptions) : Option UInt64 :=
  (given.lookup .workers).bind Text.readWord64

/-- The options of the commands, and the command that given ones make. `ofCommand` looks the name up
in it, and `ofHelp` asks whether it is there. -/
def commandTable : List (String × List OptionName × (GivenOptions → Command)) :=
  [("init", [.config, .dataDir, .force, .help], fun given =>
      .setUp ((given.lookup .config).getD "wot.toml") (given.lookup .dataDir)
        (given.lookup .force).isSome),
    ("resolve", [.config, .dataDir, .logLevel, .help], fun given => .resolve (.ofGiven given)),
    ("analyze", [.config, .dataDir, .logLevel, .workers, .help], fun given =>
      .analyze (.ofGiven given) (givenWorkers given)),
    ("run", [.config, .dataDir, .logLevel, .workers, .help], fun given =>
      .run (.ofGiven given) (givenWorkers given))]

namespace Invocation

/-- Reads the arguments behind the name of a command. A request for help among them wins over
everything behind it. -/
def ofCommand (name : String) (arguments : List String) : Except UsageError Invocation :=
  match commandTable.lookup name with
  | none => .error (.unknownCommand name)
  | some (known, make) => do
    let given ← readOptions known [] arguments
    return if (given.lookup .help).isSome then .help else .command (make given)

/-- Reads what help is asked for: the program, or one of its commands. `help` is itself such a
name. -/
def ofHelp : List String → Except UsageError Invocation
  | [] => .ok .help
  | [name] =>
    if name = "help" ∨ (commandTable.lookup name).isSome then .ok .help
    else .error (.unknownCommand name)
  | _ :: further :: _ => .error (.unexpected further)

/-- Reads the arguments of the program. The first one is a command or one of the options that need
none. `ofCommand` and `ofHelp` read the rest. -/
def parse : List String → Except UsageError Invocation
  | [] => .error .noCommand
  | first :: rest =>
    match Argument.ofString first with
    | .long "help" none => .ok .help
    | .long "version" none => .ok .version
    | .short 'h' _ => .ok .help
    | .short 'V' _ => .ok .version
    | .plain "help" => ofHelp rest
    | .plain name => ofCommand name rest
    | _ => .error (.unexpected first)

end Invocation

end WebOfTrust
