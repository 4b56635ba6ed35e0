import TaggedBytecode.CommandLine.Interaction
import TaggedBytecode.Disassembly.ValueStats
import TaggedBytecode.Host.Standard
import TaggedBytecode.Json.Writer
import TaggedBytecode.Machine.Run

/-!
# Carrying out Commands

A command reads its inputs, does its work, and writes the result to a file or prints it.

## Main definitions

* `Command.perform` — carries a command out.
* `Command.machine` — the machine that runs a prepared program.
-/

namespace TaggedBytecode

namespace Command

variable {m : Type → Type} [Monad m]

open TerminalM

/-- The stream of a text. -/
def decodeStream (config : Config) (text : String) : Except Failure Program :=
  faulting do
    let alphabet ← config.alphabet
    return (← alphabet.decode (Text.trim text)).toArray

def performDecode (config : Config) (input : String) (output : Option String)
    (container : Bool) : TerminalM m Unit := do
  let text ← readText ("Failed to read encoded stream " ++ input) input
  let program ← ofExcept (decodeStream config text)
  match container, output with
  | true, some path =>
    let bytes ← ofExcept (config.pack program input).encode
    writeBytes path bytes
    report
      ("Emitted module to " ++ path ++ " (" ++ toString bytes.length ++ " bytes)\n")
  | _, _ => writeText output (ProgramDump.of program).toJson.indented

def performEncode (config : Config) (input : String) (output : Option String) :
    TerminalM m Unit := do
  let loaded ← load config input
  let stream ← ofExcept <| faulting do
    let alphabet ← config.alphabet
    alphabet.encode loaded.program.toList
  writeText output stream

/-- What is reported of a disassembly. -/
def disassemblySummary (d : Disassembly) : String :=
  "Disassembled " ++ toString d.instructions.length ++ " instructions from " ++
    toString d.total ++ " slots (" ++ toString d.skipped ++ " positions skipped, " ++
    toString d.decodeErrors ++ " decode errors)\n"

def performDisassemble (config : Config) (input : String) (opcodeFile : Option String)
    (limit : Nat) (output : Option String) (top : Nat) : TerminalM m Unit := do
  let prepared ← prepare config input
  let map ← opcodes opcodeFile
  let disassembler : Disassembler := {
    program := prepared.program, opcodes := map, decoder := prepared.decoder
    limit := some limit }
  let disassembly := disassembler.disassemble
  report (disassemblySummary disassembly)
  match output with
  | some path => writeText (some path) disassembly.toJson.indented
  | none =>
    let stats := ValueStats.of prepared.program top map prepared.config.markers
    print
      (disassembly.listing ++ "\n" ++ disassembly.histogram.text ++ "\n" ++ stats.text)

/-- The machine of a prepared program with the standard host. -/
def machine (prepared : PreparedProgram) (map : OpcodeMap) (maxSteps : Option Nat) :
    Except Fault Machine := do
  let table ← HandlerTable.bind map Reference.registry
  return {
    program := prepared.program, decoder := prepared.decoder, host := .standard
    maxCallDepth := prepared.config.maxCallDepth, table, maxSteps }

/-- The recording of a run. -/
def recording (limit : Nat) : Option Sink → TraceRecorder
  | some (.recorder r) => r
  | _ => { limit }

def performRun (config : Config) (input : String) (opcodeFile trace : Option String)
    (traceLimit maxSteps : Option Nat) : TerminalM m Unit := do
  let prepared ← prepare config input
  let map ← opcodes opcodeFile
  let maxSteps := maxSteps.or prepared.config.maxSteps
  let machine ← ofExcept (faulting (machine prepared map maxSteps))
  let limit := traceLimit.getD prepared.config.traceLimit
  let sink := trace.map fun _ => Sink.recorder { limit }
  let world : World := { clock := ← terminal (·.clock) }
  let run := (machine.start world sink).finish machine
  let outcome := run.outcome
  if let .aborted message := outcome.state then throw (.aborted message)
  if let some path := trace then
    writeText (some path) (recording limit run.exec.sink).toJson.indented
  let ending := if outcome.fault?.isSome then "Faulted" else "Halted"
  report (ending ++ " after " ++ toString outcome.steps ++ " steps\n")
  match outcome.fault? with
  | some fault => throw (.failure (.ofFault fault))
  | none =>
    if let some result := outcome.result then print (result.text ++ "\n")

/-- The lines about the length and the bounds of a program. -/
def statsSummary (s : ProgramStats) : String :=
  let range :=
    match s.min, s.max with
    | some min, some max =>
      "Range: " ++ toString min.toInt ++ "..=" ++ toString max.toInt ++ "\n"
    | _, _ => ""
  "Length: " ++ toString s.length ++ "\nUnique values: " ++ toString s.unique ++ "\n" ++ range

def performStats (config : Config) (input : String) (opcodeFile : Option String) (top : Nat) :
    TerminalM m Unit := do
  let prepared ← prepare config input
  let map ← opcodes opcodeFile
  let stats := ValueStats.of prepared.program top map prepared.config.markers
  print (statsSummary (ProgramStats.of prepared.program) ++ "\n" ++ stats.text)

/-- Carries a command out. -/
def perform (config : Config) : Command → TerminalM m Unit
  | decode input output container => performDecode config input output container
  | encode input output => performEncode config input output
  | disassemble input opcodes limit output top =>
    performDisassemble config input opcodes limit output top
  | run input opcodes trace traceLimit maxSteps =>
    performRun config input opcodes trace traceLimit maxSteps
  | stats input opcodes top => performStats config input opcodes top

end Command

end TaggedBytecode
