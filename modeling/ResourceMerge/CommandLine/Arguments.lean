import ResourceMerge.Settings.Basic

/-! The arguments of the program. Options may stand before and behind the command, as words of their
    own (`--name value`, `--name=value`) or as letters (`-o value`, `-ovalue`, `-o=value`), and
    letters without a value may share one hyphen. Behind two hyphens alone every word is an input.
    An option with a value, and a switch other than the one for more messages, may be given once.
    Asking for the version or for help ends the reading at once, and so does the first mistake. -/

namespace ResourceMerge.CommandLine

/-- What the program is asked to do. -/
inductive Command where
  | merge (request : MergeRequest) (settingsFile : Option String) (summary : Bool)
  | inspect (path : String) (asTable : Bool)
  deriving DecidableEq

/-- Why there is no command. -/
inductive Stop where
  | version
  | help
  | misuse
  deriving DecidableEq

/-- Switches, which have no value. -/
inductive Switch where
  | verbose
  | quiet
  | version
  | help
  | summary
  | table
  deriving DecidableEq

/-- Options with a value. -/
inductive Setting where
  | output
  | filter
  | className
  | threshold
  | settingsFile
  deriving DecidableEq

/-- The parts of the program that have options of their own. -/
inductive Level where
  | program
  | merge
  | inspect
  deriving DecidableEq

/-- An option. -/
inductive Opt where
  | switch (s : Switch)
  | setting (s : Setting)

/-- What an option is called by a word. -/
def Level.long? (level : Level) (name : String) : Option Opt :=
  match level, name with
  | _, "verbose" => some (.switch .verbose)
  | _, "quiet" => some (.switch .quiet)
  | _, "help" => some (.switch .help)
  | .program, "version" => some (.switch .version)
  | .merge, "out" => some (.setting .output)
  | .merge, "filter" => some (.setting .filter)
  | .merge, "class" => some (.setting .className)
  | .merge, "threshold" => some (.setting .threshold)
  | .merge, "config" => some (.setting .settingsFile)
  | .merge, "summary" => some (.switch .summary)
  | .inspect, "table" => some (.switch .table)
  | _, _ => none

/-- What an option is called by a letter. -/
def Level.short? (level : Level) (letter : Char) : Option Opt :=
  match level, letter with
  | _, 'v' => some (.switch .verbose)
  | _, 'q' => some (.switch .quiet)
  | _, 'h' => some (.switch .help)
  | .program, 'V' => some (.switch .version)
  | .merge, 'o' => some (.setting .output)
  | _, _ => none

/-- How many inputs a level takes at most. -/
def Level.admits (level : Level) (inputs : Nat) : Bool :=
  match level with
  | .program => inputs == 0
  | .merge => true
  | .inspect => inputs ≤ 1

/-- What has been read of the arguments of one level, the latest first. -/
structure Given where
  switches : List Switch
  settings : List (Setting × String)
  inputs : List String

namespace Given

/-- Nothing. -/
def none : Given := ⟨[], [], []⟩

/-- A number as an argument: digits, with a plus sign in front or without. -/
def number? (text : String) : Option Nat :=
  let digits := match text.toList with
    | '+' :: rest => rest
    | cs => cs
  if digits.isEmpty || !digits.all Char.isDigit then Option.none
  else
    let n := digits.foldl (fun n c => n * 10 + (c.toNat - 48)) 0
    if n ≤ 18446744073709551615 then some n else Option.none

/-- One more switch. -/
def addSwitch (given : Given) (switch : Switch) : Except Stop Given :=
  match switch with
  | .version => .error .version
  | .help => .error .help
  | .verbose => .ok { given with switches := .verbose :: given.switches }
  | switch =>
    if given.switches.contains switch then .error .misuse
    else .ok { given with switches := switch :: given.switches }

/-- The value of an option, if it has been given. -/
def value? (given : Given) (setting : Setting) : Option String := given.settings.lookup setting

/-- One more option with its value. -/
def addSetting (given : Given) (setting : Setting) (value : String) : Except Stop Given :=
  if (given.value? setting).isSome then .error .misuse
  else if setting = .threshold ∧ number? value = Option.none then .error .misuse
  else .ok { given with settings := (setting, value) :: given.settings }

/-- One more input. -/
def addInput (given : Given) (level : Level) (input : String) : Except Stop Given :=
  if level.admits (given.inputs.length + 1) then .ok { given with inputs := input :: given.inputs }
  else .error .misuse

/-- The letters behind one hyphen; the option whose value is the next argument, if there is one. -/
def addLetters (given : Given) (level : Level) : List Char → Except Stop (Given × Option Setting)
  | [] => .ok (given, Option.none)
  | letter :: rest =>
    match level.short? letter with
    | Option.none => .error .misuse
    | some (.switch switch) =>
      match given.addSwitch switch with
      | .ok given => addLetters given level rest
      | .error stop => .error stop
    | some (.setting setting) =>
      match rest with
      | [] => .ok (given, some setting)
      | '=' :: value => (given.addSetting setting (String.ofList value)).map (·, Option.none)
      | value => (given.addSetting setting (String.ofList value)).map (·, Option.none)

/-- The word behind two hyphens; the option whose value is the next argument, if there is one. -/
def addWord (given : Given) (level : Level) (word : List Char) :
    Except Stop (Given × Option Setting) :=
  let name := String.ofList (word.takeWhile (· ≠ '='))
  let value := match word.dropWhile (· ≠ '=') with
    | '=' :: value => some (String.ofList value)
    | _ => Option.none
  match level.long? name, value with
  | some (.switch switch), Option.none => (given.addSwitch switch).map (·, Option.none)
  | some (.setting setting), some value => (given.addSetting setting value).map (·, Option.none)
  | some (.setting setting), Option.none => .ok (given, some setting)
  | _, _ => .error .misuse

end Given

/-- Can an argument be the value of the option before it? -/
def isValue (argument : String) : Bool :=
  match argument.toList with
  | ['-'] => true
  | '-' :: _ => false
  | _ => true

/-- One argument that is not the value of an option: what has been read with it, and the option
    whose value comes next, if there is one. -/
def addArgument (level : Level) (given : Given) (argument : String) :
    Except Stop (Given × Option Setting) :=
  match argument.toList with
  | '-' :: '-' :: word => given.addWord level word
  | '-' :: letter :: letters => given.addLetters level (letter :: letters)
  | _ => (given.addInput level argument).map (·, none)

/-- Reads the arguments of one level to their end; behind two hyphens alone, `plain` holds and every
    argument is an input. -/
def readLevel (level : Level) (given : Given) (awaiting : Option Setting) (plain : Bool) :
    List String → Except Stop Given
  | [] => if awaiting.isSome then .error .misuse else .ok given
  | argument :: rest =>
    match awaiting with
    | some setting =>
      if isValue argument then
        match given.addSetting setting argument with
        | .ok given => readLevel level given none plain rest
        | .error stop => .error stop
      else .error .misuse
    | none =>
      if plain then
        match given.addInput level argument with
        | .ok given => readLevel level given none plain rest
        | .error stop => .error stop
      else if argument = "--" then readLevel level given none true rest
      else
        match addArgument level given argument with
        | .ok (given, awaiting) => readLevel level given awaiting plain rest
        | .error stop => .error stop

/-- The merge that has been asked for; it needs inputs and an output directory. -/
def mergeCommand (given : Given) : Except Stop Command :=
  match given.value? .output with
  | none => .error .misuse
  | some output =>
    if given.inputs.isEmpty then .error .misuse
    else
      let request : MergeRequest :=
        { inputs := given.inputs.reverse
          outputDirectory := output
          filter := given.value? .filter
          className := given.value? .className
          parallelThreshold := (given.value? .threshold).bind Given.number? }
      .ok (.merge request (given.value? .settingsFile) (given.switches.contains .summary))

/-- The look into a class that has been asked for; it needs the path of one. -/
def inspectCommand (given : Given) : Except Stop Command :=
  match given.inputs with
  | [path] => .ok (.inspect path (given.switches.contains .table))
  | _ => .error .misuse

/-- Help on the program, or on one of its commands. -/
def helpOn : List String → Stop
  | [] | ["merge"] | ["dump"] | ["help"] => .help
  | _ => .misuse

/-- Reads the arguments behind the name of a command. -/
def readCommand (name : String) (rest : List String) : Except Stop Command :=
  match name with
  | "merge" => (readLevel .merge .none none false rest).bind mergeCommand
  | "dump" => (readLevel .inspect .none none false rest).bind inspectCommand
  | "help" => .error (helpOn rest)
  | _ => .error .misuse

/-- Reads arguments up to the name of a command, and on from there. -/
def readProgram (given : Given) : List String → Except Stop Command
  | [] => .error .misuse
  | argument :: rest =>
    if argument = "--" then .error .misuse
    else
      match argument.toList with
      | '-' :: _ :: _ =>
        match addArgument .program given argument with
        | .ok (given, _) => readProgram given rest
        | .error stop => .error stop
      | _ => readCommand argument rest

/-- The command that arguments ask for. -/
def read (arguments : List String) : Except Stop Command := readProgram .none arguments

/-- How much the program reports while it works. -/
def messageLevel (verbose : Nat) (quiet : Bool) : String :=
  if quiet then "error"
  else
    match verbose with
    | 0 => "warn"
    | 1 => "info"
    | 2 => "debug"
    | _ => "trace"

end ResourceMerge.CommandLine
