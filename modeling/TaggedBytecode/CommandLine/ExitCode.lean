import TaggedBytecode.CommandLine.Perform

/-!
# Reports and Exit Codes

The program ends with a code: zero if all went well, one after a failure, which is reported
with its causes, and two if the arguments lead to no command.

## Main definitions

* `Failure.report` — the report of a failure.
* `ExitCode` — how the program ended.
* `runProgram` — the whole program: from arguments to an exit code.
-/

namespace TaggedBytecode

/-- A text with every line after the first indented. -/
def hangLines (indent text : String) : String :=
  String.ofList (text.toList.flatMap fun c => if c = '\n' then '\n' :: indent.toList else [c])

/-- The lines of the causes of a failure, numbered from `n` on. -/
def numberedCauses (n : Nat) : List String → String
  | [] => ""
  | cause :: rest =>
    "\n" ++ Text.alignRight 5 (toString n) ++ ": " ++ hangLines "       " cause ++
      numberedCauses (n + 1) rest

/-- The report of a failure: the outermost note, and the causes below it. They are numbered if
there are several. -/
def Failure.report (f : Failure) : String :=
  let causes :=
    match f.links.drop 1 with
    | [] => ""
    | [cause] => "\n\nCaused by:\n    " ++ hangLines "    " cause
    | causes => "\n\nCaused by:" ++ numberedCauses 0 causes
  "Error: " ++ f.links.headD "" ++ causes ++ "\n"

/-- The name and the version of the program. -/
def versionLine : String := "tagvm 0.1.0\n"

/-- How the program is called. -/
def usageLine : String := "Usage: tagvm [OPTIONS] <COMMAND>\n"

/-- The exit codes of the program. -/
inductive ExitCode where
  | success
  | failure
  | usage
  | aborted
  deriving DecidableEq, Repr

def ExitCode.value : ExitCode → UInt8
  | success => 0
  | failure => 1
  | usage => 2
  | aborted => 101

section

variable {m : Type → Type} [Monad m]

/-- Carries an invocation out. -/
def Invocation.perform (i : Invocation) : TerminalM m Unit := do
  i.command.perform (← TerminalM.config i.options)

/-- The whole program. -/
def runProgram (t : Terminal m) (args : List String) : m ExitCode := do
  match Invocation.ofArguments args with
  | .error .version =>
    t.print versionLine
    return .success
  | .error .help =>
    t.print usageLine
    return .success
  | .error .usage =>
    t.report usageLine
    return .usage
  | .ok invocation =>
    match ← (invocation.perform t).run with
    | .ok () => return .success
    | .error (.failure f) =>
      t.report f.report
      return .failure
    | .error (.aborted message) =>
      t.report (message ++ "\n")
      return .aborted

end

end TaggedBytecode
