import TaggedBytecode.CommandLine.Path
import TaggedBytecode.Constant.CharMode
import TaggedBytecode.Text.Integer

/-!
# Arguments

The arguments of a program are **options** and words. An option is written with two dashes and
its name, or with one dash and a letter. Its value follows an equals sign, or follows the
letter directly, or is the next argument, which then does not start with a dash. Behind two
dashes alone every argument is a word. No option may be given twice.

Arguments are taken one after the other. The first that is wrong, or that asks for help or for
the version, ends it all.

## Main definitions

* `OptionRule` — what an option takes.
* `Given` — the options that were given.
* `Argument.scan` — takes arguments.
-/

namespace TaggedBytecode

/-- Why the arguments lead to no command. -/
inductive Stop where
  | usage
  | help
  | version
  deriving DecidableEq, Repr

/-- What an option does. -/
inductive OptionKind where
  | flag
  /-- It takes a value, of those that are accepted. -/
  | value (accepts : String → Bool)
  | stop (stop : Stop)

/-- An option. -/
structure OptionRule where
  name : String
  short : Option Char := none
  kind : OptionKind

/-- The options that were given, with their values. A flag has the empty value. -/
abbrev Given := List (String × String)

namespace Given

/-- Adds an option that was not given before. -/
def add (given : Given) (name value : String) : Except Stop Given :=
  if (given.lookup name).isSome then .error .usage else .ok (given ++ [(name, value)])

def has (given : Given) (name : String) : Bool := (given.lookup name).isSome

/-- The value of an option as a number. -/
def nat? (given : Given) (name : String) : Option Nat :=
  (given.lookup name).bind fun s => (Text.nat64? s.toList).toOption

end Given

/-- What one argument is. -/
inductive Argument where
  | word (text : String)
  /-- From here on there are words only. -/
  | words
  | flag (name : String)
  | assigned (rule : OptionRule) (value : String)
  /-- An option whose value is the next argument. -/
  | awaiting (rule : OptionRule)
  | stop (stop : Stop)

namespace Argument

/-- An option with the text that is attached to it, if there is any. -/
def ofRule (rule : OptionRule) (attached : Option String) : Argument :=
  match rule.kind, attached with
  | .flag, none => flag rule.name
  | .flag, some _ => stop .usage
  | .value _, some value => assigned rule value
  | .value _, none => awaiting rule
  | .stop s, none => stop s
  | .stop _, some _ => stop .usage

/-- Recognises an option by its name. -/
def ofLong (rules : List OptionRule) (cs : List Char) : Argument :=
  let name := String.ofList (cs.takeWhile (· != '='))
  let attached :=
    match cs.dropWhile (· != '=') with
    | _ :: value => some (String.ofList value)
    | [] => none
  match rules.find? fun r => r.name == name with
  | some rule => ofRule rule attached
  | none => stop .usage

/-- Recognises an option by its letter. -/
def ofShort (rules : List OptionRule) (letter : Char) (cs : List Char) : Argument :=
  match rules.find? fun r => r.short == some letter with
  | none => stop .usage
  | some rule =>
    match rule.kind, cs with
    | .stop s, _ => stop s
    | _, [] => ofRule rule none
    | _, '=' :: value => ofRule rule (some (String.ofList value))
    | _, value => ofRule rule (some (String.ofList value))

/-- Recognises an argument. A dash alone is a word. -/
def ofText (rules : List OptionRule) (text : String) : Argument :=
  match text.toList with
  | ['-', '-'] => words
  | '-' :: '-' :: cs => ofLong rules cs
  | '-' :: letter :: cs => ofShort rules letter cs
  | _ => word text

/-- Whether an argument can be the value of the option in front of it. -/
def isValue (text : String) : Bool :=
  match text.toList with
  | '-' :: _ :: _ => false
  | _ => true

end Argument

/-- What was taken from some arguments. -/
structure Scanned where
  given : Given := []
  words : List String := []
  /-- The arguments that were left. -/
  rest : List String := []

/-- Where to stop taking arguments. -/
inductive ScanMode where
  /-- After the first word. -/
  | firstWord
  | all
  deriving DecidableEq

namespace Argument

/-- Gives an option a value, if it takes it. -/
def assign (rule : OptionRule) (value : String) (given : Given) : Except Stop Given :=
  match rule.kind with
  | .value accepts => if accepts value then given.add rule.name value else .error .usage
  | _ => .error .usage

/-- Takes arguments. -/
def scan (rules : List OptionRule) (mode : ScanMode) (taken : Scanned) :
    List String → Except Stop Scanned
  | [] => .ok taken
  | text :: rest =>
    match ofText rules text with
    | .word w =>
      let taken := { taken with words := taken.words ++ [w] }
      match mode with
      | .firstWord => .ok { taken with rest }
      | .all => scan rules mode taken rest
    | .words =>
      match mode with
      | .firstWord => .error .usage
      | .all => .ok { taken with words := taken.words ++ rest }
    | .flag name =>
      match taken.given.add name "" with
      | .ok given => scan rules mode { taken with given } rest
      | .error s => .error s
    | .assigned rule value =>
      match assign rule value taken.given with
      | .ok given => scan rules mode { taken with given } rest
      | .error s => .error s
    | .awaiting rule =>
      match rest with
      | [] => .error .usage
      | value :: rest =>
        if isValue value then
          match assign rule value taken.given with
          | .ok given => scan rules mode { taken with given } rest
          | .error s => .error s
        else .error .usage
    | .stop s => .error s

end Argument

end TaggedBytecode
