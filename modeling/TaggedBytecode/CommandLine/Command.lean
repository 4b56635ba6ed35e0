import TaggedBytecode.CommandLine.Arguments
import TaggedBytecode.Config.Basic

/-!
# Commands

The arguments of the program are options that every command takes, the name of a command, and
the command's own options and words, among which the common options may also stand. A common
option that is given in both places counts as it is given behind the name.

## Main definitions

* `CommonOptions`, `Command`, `Invocation` — what the program is asked to do.
* `Invocation.ofArguments` — reads the arguments.
-/

namespace TaggedBytecode

/-- Options that go before what the configuration says. -/
structure CommonOptions where
  /-- The file of the configuration. -/
  config : Option String := none
  digits : Option String := none
  base : Option Nat := none
  chars : Option CharMode := none
  stringPool : Bool := false
  deriving DecidableEq, Repr

/-- The configuration with the options put in. -/
def CommonOptions.override (options : CommonOptions) (config : Config) : Config :=
  { config with
    digits := options.digits.getD config.digits
    base := options.base.getD config.base
    chars := options.chars.getD config.chars
    stringPool := config.stringPool || options.stringPool }

/-- What is to be done. -/
inductive Command where
  /-- Decodes a stream into a dump or a container. -/
  | decode (input : String) (output : Option String) (container : Bool)
  /-- Encodes a program into a stream. -/
  | encode (input : String) (output : Option String)
  /-- Lists the instructions of a program. -/
  | disassemble (input : String) (opcodes : Option String) (limit : Nat)
      (output : Option String) (top : Nat)
  /-- Runs a program. -/
  | run (input : String) (opcodes trace : Option String) (traceLimit maxSteps : Option Nat)
  /-- Counts the slot values of a program. -/
  | stats (input : String) (opcodes : Option String) (top : Nat)
  deriving DecidableEq, Repr

/-- A command with the options common to all. -/
structure Invocation where
  options : CommonOptions
  command : Command
  deriving DecidableEq, Repr

/-! ### Rules -/

namespace OptionRule

def path (name : String) (short : Option Char := none) : OptionRule :=
  { name, short, kind := .value Path.isConfined }

def number (name : String) : OptionRule :=
  { name, kind := .value fun s => (Text.nat64? s.toList).toBool }

def text (name : String) : OptionRule := { name, kind := .value fun _ => true }

def flag (name : String) : OptionRule := { name, kind := .flag }

def help : OptionRule := { name := "help", short := some 'h', kind := .stop .help }

def version : OptionRule := { name := "version", short := some 'V', kind := .stop .version }

/-- The options of every command. -/
def common : List OptionRule :=
  [path "config", text "alphabet", number "base",
    { name := "chars", kind := .value fun s => (CharMode.ofName? s).isSome },
    flag "string-pool", help]

end OptionRule

/-- The commands. -/
inductive CommandName where
  | decode
  | encode
  | disasm
  | run
  | stats
  deriving DecidableEq, Repr

namespace CommandName

def ofText? : String → Option CommandName
  | "decode" => some decode
  | "encode" => some encode
  | "disasm" => some disasm
  | "run" => some run
  | "stats" => some stats
  | _ => none

/-- The options that a command has of its own. -/
def rules : CommandName → List OptionRule
  | decode => [.path "output" (some 'o'), .flag "module"]
  | encode => [.path "output" (some 'o')]
  | disasm => [.path "opcodes", .number "limit", .path "output" (some 'o'), .number "top"]
  | run => [.path "opcodes", .path "trace", .number "trace-limit", .number "max-steps"]
  | stats => [.path "opcodes", .number "top"]

/-- How many instructions are listed where nothing is said. -/
def defaultLimit : Nat := 500

/-- How many slot values are shown where nothing is said. -/
def defaultTop : Nat := 20

/-- The command on an input with its options. A container needs a file to go to. -/
def command (name : CommandName) (input : String) (given : Given) : Except Stop Command :=
  let output := given.lookup "output"
  let opcodes := given.lookup "opcodes"
  let top := (given.nat? "top").getD defaultTop
  match name with
  | decode =>
    if given.has "module" && output.isNone then .error .usage
    else .ok (.decode input output (given.has "module"))
  | encode => .ok (.encode input output)
  | disasm =>
    .ok (.disassemble input opcodes ((given.nat? "limit").getD defaultLimit) output top)
  | run =>
    .ok (.run input opcodes (given.lookup "trace") (given.nat? "trace-limit")
      (given.nat? "max-steps"))
  | stats => .ok (.stats input opcodes top)

end CommandName

/-! ### Invocations -/

/-- The common options among those given behind and before the name of a command. -/
def CommonOptions.ofGiven (behind before : Given) : CommonOptions :=
  let given := behind ++ before
  { config := given.lookup "config"
    digits := given.lookup "alphabet"
    base := given.nat? "base"
    chars := (given.lookup "chars").bind CharMode.ofName?
    stringPool := given.has "string-pool" }

/-- Reads the arguments of the program. -/
def Invocation.ofArguments (args : List String) : Except Stop Invocation := do
  let before ← Argument.scan (.version :: OptionRule.common) .firstWord {} args
  let [word] := before.words | .error .usage
  match CommandName.ofText? word with
  | none => .error (if word = "help" then .help else .usage)
  | some name =>
    let behind ← Argument.scan (name.rules ++ OptionRule.common) .all {} before.rest
    let [input] := behind.words | .error .usage
    if Path.isConfined input then
      return {
        options := .ofGiven behind.given before.given
        command := ← name.command input behind.given }
    else .error .usage

end TaggedBytecode
