import StagedLoad.CommandLine.ExitCode
import StagedLoad.Duration.Reader

/-!
# Command line arguments

The program runs a load profile or only looks whether it is valid.  Words that start with a
dash are flags and options, until two dashes stand alone; the value of an option follows it
as a word of its own or behind an equals sign.

The value of an option is looked at when the next flag, option or value is found, so that
of two faults the one that is found first is reported.

## Main definitions

* `Arguments` — what the program is asked to do.
* `Refusal` — why it does nothing.
* `Arguments.parse` — reading the arguments.
-/

namespace StagedLoad

/-- The forms in which a run reports. -/
inductive OutputFormat
  /-- For people. -/
  | human
  /-- For programs. -/
  | json
  deriving DecidableEq, Repr, Inhabited

/-- The name of a form. -/
def OutputFormat.name : OutputFormat → String
  | human => "human-readable"
  | json => "json"

/-- The form with a name. -/
def OutputFormat.named? (s : String) : Option OutputFormat :=
  [human, json].find? fun f => f.name == s

/-- How a profile is run. -/
structure RunArguments where
  /-- The path of the profile. -/
  config : String
  /-- Where the requests go, in place of what the profile says. -/
  baseUrl : Option String := none
  /-- How long users pause, in place of what the profile says. -/
  thinkTime : Option Duration := none
  /-- The form of the reports. -/
  output : OutputFormat := .human
  /-- Whether nothing is told before the end. -/
  noProgress : Bool := false
  /-- Whether the log has every detail. -/
  verbose : Bool := false
  deriving Inhabited

/-- How a profile is looked at. -/
structure ValidateArguments where
  /-- The path of the profile. -/
  config : String
  /-- Whether the log has every detail. -/
  verbose : Bool := false
  deriving Inhabited

/-- What the program is asked to do. -/
inductive Arguments
  /-- To run a profile. -/
  | run (arguments : RunArguments)
  /-- To look whether a profile is valid. -/
  | validate (arguments : ValidateArguments)
  deriving Inhabited

/-- Why the program does nothing. -/
inductive Refusal
  /-- It is asked for help. -/
  | helpWanted
  /-- It is asked for its version. -/
  | versionWanted
  /-- It is asked for nothing. -/
  | nothingWanted
  /-- There is no such command. -/
  | unknownCommand
  /-- There is no such flag or option, or there is a word too many. -/
  | unknownArgument
  /-- The path of the profile is missing. -/
  | missingArgument
  /-- A value is missing, or is none of those that are possible. -/
  | invalidValue
  /-- A value cannot be read. -/
  | refusedValue
  /-- A flag has a value. -/
  | surplusValue
  /-- A flag or an option stands twice. -/
  | repeated
  /-- Reading a value ends the program. -/
  | crash (cause : Duration.Crash)
  deriving DecidableEq, Repr

/-- Who asks for help or the version gets it. -/
def Refusal.exitCode : Refusal → ExitCode
  | helpWanted | versionWanted => .success
  | _ => .invalidInput

namespace Arguments

/-! ### Flags and options -/

/-- The flags. -/
inductive Flag
  /-- Nothing is told before the end. -/
  | noProgress
  /-- The log has every detail. -/
  | verbose
  deriving DecidableEq, Repr

/-- The options. -/
inductive ValueOption
  /-- Where the requests go. -/
  | baseUrl
  /-- How long users pause. -/
  | thinkTime
  /-- The form of the reports. -/
  | output
  deriving DecidableEq, Repr

/-- What a word that starts with a dash may name. -/
inductive Named
  /-- The wish for help. -/
  | help
  /-- A flag. -/
  | flag (f : Flag)
  /-- An option. -/
  | option (o : ValueOption)
  deriving DecidableEq, Repr

/-- What can be said to the commands. -/
inductive Command
  /-- `run`. -/
  | run
  /-- `validate`. -/
  | validate
  deriving DecidableEq, Repr

/-- The long names that a command knows. -/
def Command.names : Command → List (String × Named)
  | run => [("base-url", .option .baseUrl), ("think-time", .option .thinkTime),
      ("output", .option .output), ("no-progress", .flag .noProgress),
      ("verbose", .flag .verbose), ("help", .help)]
  | validate => [("verbose", .flag .verbose), ("help", .help)]

/-- The letters that every command knows. -/
def letters : List (Char × Named) := [('v', .flag .verbose), ('h', .help)]

/-- What is known under a key. -/
def find? {κ α : Type} [BEq κ] (k : κ) (l : List (κ × α)) : Option α :=
  (l.find? fun e => e.1 == k).map Prod.snd

/-- A word behind two dashes: its name, and the value behind an equals sign. -/
def splitValue (cs : List Char) : String × Option String :=
  let value := match cs.dropWhile (· != '=') with
    | [] => none
    | _ :: rest => some (String.ofList rest)
  (String.ofList (cs.takeWhile (· != '=')), value)

/-! ### The words behind a command -/

/-- What a value is for. -/
inductive Slot
  /-- The path of the profile. -/
  | config
  /-- An option. -/
  | option (o : ValueOption)
  deriving DecidableEq, Repr

/-- The arguments found so far. -/
structure Found where
  /-- The command. -/
  command : Command
  /-- What waits for its value, or has one that has not been looked at. -/
  pending : Option (Slot × Option String) := none
  /-- Whether a word was taken for the path of the profile. -/
  hasConfig : Bool := false
  /-- The path of the profile. -/
  config : Option String := none
  /-- Where the requests go. -/
  baseUrl : Option String := none
  /-- How long users pause. -/
  thinkTime : Option Duration := none
  /-- The form of the reports. -/
  output : Option OutputFormat := none
  /-- The flags. -/
  flags : List Flag := []
  /-- Whether all further words are values. -/
  plain : Bool := false

namespace Found

/-- Reads a pause. -/
def readPause (text : String) : Except Refusal Duration :=
  match Duration.parse text with
  | .ok d => .ok d
  | .error (.crash c) => .error (.crash c)
  | .error _ => .error .refusedValue

/-- Gives an option its value, which it must not have already. -/
def setOption (a : Found) (o : ValueOption) (text : String) : Except Refusal Found :=
  match o with
  | .baseUrl =>
    if a.baseUrl.isSome then .error .repeated else .ok { a with baseUrl := some text }
  | .thinkTime =>
    if a.thinkTime.isSome then .error .repeated
    else (readPause text).map fun d => { a with thinkTime := some d }
  | .output =>
    if a.output.isSome then .error .repeated
    else
      match OutputFormat.named? text with
      | some f => .ok { a with output := some f }
      | none => .error .invalidValue

/-- Gives a slot its value.  The path of the profile is not empty. -/
def setSlot (a : Found) (s : Slot) (text : String) : Except Refusal Found :=
  match s with
  | .option o => a.setOption o text
  | .config => if text.isEmpty then .error .invalidValue else .ok { a with config := some text }

/-- Looks at what is pending. -/
def settle (a : Found) : Except Refusal Found :=
  match a.pending with
  | none => .ok a
  | some (_, none) => .error .invalidValue
  | some (s, some text) => { a with pending := none }.setSlot s text

/-- Raises a flag, which must not be raised already. -/
def setFlag (a : Found) (f : Flag) : Except Refusal Found := do
  let a ← a.settle
  if a.flags.contains f then throw .repeated
  return { a with flags := f :: a.flags }

/-- What is named without a value. -/
def name (a : Found) : Named → Except Refusal Found
  | .help => a.settle.bind fun _ => .error .helpWanted
  | .flag f => a.setFlag f
  | .option o => a.settle.map fun a => { a with pending := some (.option o, none) }

/-- What is named with a value. -/
def nameWith (a : Found) (text : String) : Named → Except Refusal Found
  | .option o => a.settle.bind fun a => a.setOption o text
  | _ => .error .surplusValue

/-- A word behind two dashes. -/
def long (a : Found) (cs : List Char) : Except Refusal Found :=
  let (key, value) := splitValue cs
  match find? key a.command.names, value with
  | none, _ => .error .unknownArgument
  | some n, none => a.name n
  | some n, some text => a.nameWith text n

/-- Letters behind a dash. -/
def short (a : Found) : List Char → Except Refusal Found
  | [] => .ok a
  | c :: cs =>
    match find? c letters with
    | none => .error .unknownArgument
    | some n => (a.name n).bind fun a => a.short cs

/-- A word that belongs to no option.  Only the path of the profile does not. -/
def word (a : Found) (text : String) : Except Refusal Found :=
  if a.hasConfig then .error .unknownArgument
  else a.settle.map fun a => { a with pending := some (.config, some text), hasConfig := true }

/-- A word that is a value. -/
def value (a : Found) (text : String) : Except Refusal Found :=
  match a.pending with
  -- an option that waits for its value takes the word
  | some (s, none) => .ok { a with pending := some (s, some text) }
  | _ => a.word text

/-- The next word. -/
def next (a : Found) (text : String) : Except Refusal Found :=
  if a.plain then a.word text
  else
    match text.toList with
    | ['-', '-'] => .ok { a with plain := true }
    | '-' :: '-' :: cs => a.long cs
    | '-' :: c :: cs => a.short (c :: cs)
    | _ => a.value text

/-- What the program is asked to do once all words are found. -/
def finish (a : Found) : Except Refusal Arguments := do
  let a ← a.settle
  let some config := a.config | throw .missingArgument
  let verbose := a.flags.contains .verbose
  match a.command with
  | .run => return .run {
      config
      baseUrl := a.baseUrl
      thinkTime := a.thinkTime
      output := a.output.getD .human
      noProgress := a.flags.contains .noProgress
      verbose }
  | .validate => return .validate { config, verbose }

end Found

/-- Reads the words behind a command. -/
def ofWords (c : Command) (words : List String) : Except Refusal Arguments := do
  (← words.foldlM Found.next { command := c }).finish

/-! ### The words before a command -/

/-- What a word may be before a command. -/
inductive Topic
  /-- A command. -/
  | command (c : Command)
  /-- The command that helps. -/
  | help
  deriving DecidableEq, Repr

/-- The words that are commands. -/
def topics : List (String × Topic) :=
  [("run", .command .run), ("validate", .command .validate), ("help", .help)]

/-- The refusals that are asked for by long names. -/
def wishes : List (String × Refusal) :=
  [("help", .helpWanted), ("version", .versionWanted)]

/-- The refusals that are asked for by letters. -/
def letterWishes : List (Char × Refusal) := [('h', .helpWanted), ('V', .versionWanted)]

/-- Why a word behind two dashes stands before no command. -/
def longWish (cs : List Char) : Refusal :=
  match splitValue cs with
  | (key, none) => (find? key wishes).getD .unknownArgument
  | (key, some _) => if (find? key wishes).isSome then .surplusValue else .unknownArgument

/-- Help on the words behind the command that helps: nothing, or one command. -/
def helpOn : List String → Refusal
  | [] => .helpWanted
  | [word] => if (find? word topics).isSome then .helpWanted else .unknownCommand
  | _ => .unknownCommand

/-- Why a word is no command behind two dashes that stand alone: it would be one before
them, or it is none. -/
def misplaced (word : String) : Refusal :=
  if (find? word topics).isSome then .unknownArgument else .unknownCommand

/-- Reads the arguments of the program. -/
def parse : List String → Except Refusal Arguments
  | [] => .error .nothingWanted
  | word :: rest =>
    match find? word topics with
    | some (.command c) => ofWords c rest
    | some .help => .error (helpOn rest)
    | none =>
      match word.toList with
      | ['-', '-'] => .error ((rest.head?.map misplaced).getD .nothingWanted)
      | '-' :: '-' :: cs => .error (longWish cs)
      | '-' :: c :: _ => .error ((find? c letterWishes).getD .unknownArgument)
      | _ => .error .unknownCommand

end Arguments

end StagedLoad
