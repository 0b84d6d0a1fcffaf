import Backtest.Number.Integer
import Backtest.Time.Reader

/-!
# Arguments

The grammar of the command line. An option is `--name`, and one that takes a value has it behind
an equals sign or as the next argument, which then must not look like an option itself. Arguments
are read from the left, so a request for help counts only when everything before it is in order.
-/
namespace Backtest

/-- What an option takes. -/
inductive OptionKind where
  /-- No value; at most once. -/
  | flag
  /-- A value of a form; at most once. -/
  | single (accepts : String → Bool)
  /-- Any value; any number of times. -/
  | many

/-- An option by its long name. -/
structure OptionSpec where
  name : String
  kind : OptionKind

/-- A subject of help. -/
inductive HelpTopic where
  | all
  | run
  | windows
  | backtest
deriving Repr, DecidableEq

/-- The options of a walk-forward run. -/
structure RunOptions where
  config : String
  data : String
  threads : Option Nat
  outputDir : String
  save : Bool
  report : Bool
deriving Repr, DecidableEq

/-- The options of a single replay. -/
structure BacktestOptions where
  data : String
  params : List String
  start : Option Instant
  stop : Option Instant
  initialBalance : Float
  leverage : Float
  feeRate : Float

/-- What the command line asks for. -/
inductive Command where
  | run (options : RunOptions)
  | windows (config : String)
  | backtest (options : BacktestOptions)
  | help (topic : HelpTopic)

namespace Command

/-- The values that options were given; a flag has the empty text. -/
abbrev Given := List (String × String)

/-- The result of reading options: a request for help, the first argument that is no option with
what follows it, or the end. -/
inductive OptionsRead where
  | help
  | word (given : Given) (word : String) (rest : List String)
  | finished (given : Given)

/-- Whether an argument has the look of an option. -/
def looksLikeOption (arg : String) : Bool :=
  match arg.toList with
  | '-' :: _ :: _ => true
  | _ => false

/-- A flag given once more, if it was not given before. -/
def addFlag? (given : Given) (name : String) : Option Given :=
  if given.any (·.1 == name) then none else some (given ++ [(name, "")])

/-- A value given to an option, if the option takes it. -/
def addValue? (given : Given) (spec : OptionSpec) (value : String) : Option Given :=
  match spec.kind with
  | .flag => none
  | .single accepts =>
    if accepts value && !given.any (·.1 == spec.name) then some (given ++ [(spec.name, value)])
    else none
  | .many => some (given ++ [(spec.name, value)])

/-- The short flags of one argument. The first `h` asks for help; nothing when a letter is none. -/
def addShort? : Given → List Char → Option (Option Given)
  | given, [] => some (some given)
  | given, 'v' :: rest =>
    match addFlag? given "verbose" with
    | some given => addShort? given rest
    | none => none
  | _, 'h' :: _ => some none
  | _, _ :: _ => none

/-- A long option's name, and its value behind an equals sign. -/
def splitLong (body : List Char) : String × Option String :=
  match body.span (· != '=') with
  | (name, '=' :: value) => (String.ofList name, some (String.ofList value))
  | (name, _) => (String.ofList name, none)

/-- Reads options from the left. -/
def readOptions? (specs : List OptionSpec) : Given → List String → Option OptionsRead
  | given, [] => some (.finished given)
  | given, arg :: rest =>
    match arg.toList with
    | ['-', '-'] => if rest.isEmpty then some (.finished given) else none
    | '-' :: '-' :: body =>
      let (name, value) := splitLong body
      if name == "help" then (if value.isNone then some .help else none)
      else
        match specs.find? (·.name == name), value with
        | none, _ => none
        | some spec, some value =>
          match addValue? given spec value with
          | some given => readOptions? specs given rest
          | none => none
        | some ⟨_, .flag⟩, none =>
          match addFlag? given name with
          | some given => readOptions? specs given rest
          | none => none
        | some spec, none =>
          match rest with
          | [] => none
          | value :: rest =>
            if looksLikeOption value then none
            else
              match addValue? given spec value with
              | some given => readOptions? specs given rest
              | none => none
    | '-' :: c :: flags =>
      match addShort? given (c :: flags) with
      | some (some given) => readOptions? specs given rest
      | some none => some .help
      | none => none
    | _ => some (.word given arg rest)

/-- A path has at least one character. -/
def isPathText (s : String) : Bool := !s.isEmpty

/-- The option that every command has. -/
def verboseSpec : OptionSpec := ⟨"verbose", .flag⟩

/-- The options of a walk-forward run. -/
def runSpecs : List OptionSpec :=
  [verboseSpec, ⟨"config", .single isPathText⟩, ⟨"data", .single isPathText⟩,
    ⟨"threads", .single fun s => (readCount? s).isSome⟩, ⟨"output-dir", .single isPathText⟩,
    ⟨"no-save", .flag⟩, ⟨"report", .flag⟩]

/-- The options of a preview. -/
def windowsSpecs : List OptionSpec := [verboseSpec, ⟨"config", .single isPathText⟩]

/-- The options of a single replay. -/
def backtestSpecs : List OptionSpec :=
  let isNumber (s : String) : Bool := (Binary64.read? s).isSome
  let isTime (s : String) : Bool := (Instant.readRelaxed? s).isSome
  [verboseSpec, ⟨"data", .single isPathText⟩, ⟨"param", .many⟩, ⟨"start", .single isTime⟩,
    ⟨"end", .single isTime⟩, ⟨"initial-balance", .single isNumber⟩,
    ⟨"leverage", .single isNumber⟩, ⟨"fee-rate", .single isNumber⟩]

/-- The value of an option. -/
def value? (given : Given) (name : String) : Option String :=
  (given.find? (·.1 == name)).map (·.2)

/-- The walk-forward run of given options. -/
def run? (given : Given) : Option Command := do
  some (.run {
    config := ← value? given "config"
    data := ← value? given "data"
    threads := (value? given "threads").bind readCount?
    outputDir := (value? given "output-dir").getD "results"
    save := (value? given "no-save").isNone
    report := (value? given "report").isSome })

/-- The preview of given options. -/
def windows? (given : Given) : Option Command := do
  some (.windows (← value? given "config"))

/-- The single replay of given options. -/
def backtest? (given : Given) : Option Command := do
  let number (name : String) (default : Float) : Float :=
    ((value? given name).bind Binary64.read?).getD default
  some (.backtest {
    data := ← value? given "data"
    params := (given.filter (·.1 == "param")).map (·.2)
    start := (value? given "start").bind Instant.readRelaxed?
    stop := (value? given "end").bind Instant.readRelaxed?
    initialBalance := number "initial-balance" 10000
    leverage := number "leverage" 1
    feeRate := number "fee-rate" 0.0004 })

/-- A command from the options behind its name. -/
def ofOptions? (topic : HelpTopic) (specs : List OptionSpec) (command? : Given → Option Command)
    (args : List String) : Option Command :=
  match readOptions? specs [] args with
  | some .help => some (.help topic)
  | some (.finished given) => command? given
  | _ => none

/-- The subject that `help` is asked for. -/
def helpTopic? : List String → Option HelpTopic
  | [] => some .all
  | ["run"] => some .run
  | ["windows"] => some .windows
  | ["backtest"] => some .backtest
  | _ => none

/-- The command of a command line, unless its usage is wrong. -/
def ofArguments? (args : List String) : Option Command :=
  match readOptions? [verboseSpec] [] args with
  | some .help => some (.help .all)
  | some (.word _ "run" rest) => ofOptions? .run runSpecs run? rest
  | some (.word _ "windows" rest) => ofOptions? .windows windowsSpecs windows? rest
  | some (.word _ "backtest" rest) => ofOptions? .backtest backtestSpecs backtest? rest
  | some (.word _ "help" rest) => (helpTopic? rest).map .help
  | _ => none

end Command
end Backtest
