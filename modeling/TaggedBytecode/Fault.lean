import TaggedBytecode.Constant.Basic
import TaggedBytecode.Constant.Marker

/-!
# Faults

A **fault** ends what was being done: reading a stream, decoding a constant, preparing a
program or running it. Every fault states its cause as data; `Fault.message` is the only place
where causes become text. What a running instruction **throws** is a fault, an exception that
the program may catch, or the order to halt.

## Main definitions

* `StreamError`, `ConstantError`, `ConfigError` — the causes.
* `Fault` — a cause with the place where it arose.
* `Thrown` — how an instruction fails.
* `Fault.kind`, `Fault.message`, `Thrown.message` — their texts.
-/

namespace TaggedBytecode

/-- Why an encoded stream, or its alphabet, is refused. -/
inductive StreamError where
  | baseOutOfRange (base length : Nat)
  | duplicateDigit (c : Char)
  | unknownDigit (c : Char)
  | unfinishedNumber
  | radixAboveBase (radix base : Nat)
  deriving DecidableEq, Repr

namespace StreamError

def message : StreamError → String
  | baseOutOfRange base length =>
    "base " ++ toString base ++ " must be in 1.." ++ toString length ++ " for this alphabet"
  | duplicateDigit c => "duplicate alphabet character " ++ Text.quoteChar c
  | unknownDigit c => "character " ++ Text.quoteChar c ++ " not in alphabet"
  | unfinishedNumber => "input ended inside a continued number"
  | radixAboveBase radix base =>
    "cannot encode with radix " ++ toString radix ++ " above base " ++ toString base

end StreamError

/-- What a decoder was about to read when the program ended. -/
inductive Awaited where
  | constant
  | floatHigh
  | floatLow
  | stringLength
  | poolOffset
  | destination
  deriving DecidableEq, Repr

namespace Awaited

def name : Awaited → String
  | constant => "a constant"
  | floatHigh => "float high word"
  | floatLow => "float low word"
  | stringLength => "string length"
  | poolOffset => "string pool offset"
  | destination => "a destination slot"

end Awaited

/-- Why an operand cannot be read, or is not of the kind that an instruction needs. -/
inductive ConstantError where
  | ended (awaited : Awaited)
  | negativeLength (length : Int32)
  | insideString (length : Nat)
  | poolSlice (offset length : Int32) (poolLength : Nat)
  | negativeReference (raw : Int32)
  | notAddress (operand : Constant)
  | notVariable (operand : Constant)
  deriving DecidableEq, Repr

namespace ConstantError

def message : ConstantError → String
  | ended awaited => "program ended while reading " ++ awaited.name
  | negativeLength length => "negative string length " ++ toString length.toInt
  | insideString length => "program ended inside string of length " ++ toString length
  | poolSlice offset length poolLength =>
    "string pool slice " ++ toString offset.toInt ++ "+" ++ toString length.toInt ++
      " outside pool of " ++ toString poolLength
  | negativeReference raw => "negative variable reference " ++ toString raw.toInt
  | notAddress operand => "jump target " ++ operand.text ++ " is not an address"
  | notVariable operand => operand.text ++ " is not a variable"

end ConstantError

/-- Why a configuration does not fit itself, the program or the opcode set. -/
inductive ConfigError where
  | oddMarker (marker : Marker) (value : Int32)
  | sharedMarker (first second : Marker) (value : Int32)
  | emptyPoolProgram
  | poolOffset (offset : Int)
  | poolOverrun (count : Int) (offset : Nat)
  | poolNotString (found : Constant)
  | noOpcodes
  deriving DecidableEq, Repr

namespace ConfigError

def message : ConfigError → String
  | oddMarker marker value =>
    "tag marker " ++ marker.name ++ " = " ++ toString value.toInt ++ " must be even"
  | sharedMarker first second value =>
    "tag markers " ++ first.name ++ " and " ++ second.name ++ " share value " ++
      toString value.toInt
  | emptyPoolProgram => "cannot extract a string pool from an empty program"
  | poolOffset offset => "string pool offset " ++ toString offset ++ " outside program"
  | poolOverrun count offset =>
    "string pool region of " ++ toString count ++ " slots at " ++ toString offset ++
      " overruns program"
  | poolNotString found =>
    "string pool region decoded as " ++ found.text ++ " instead of a string"
  | noOpcodes => "handler table has no assigned opcodes"

end ConfigError

/-- The failure that ends a decode, a preparation or a run. -/
inductive Fault where
  /-- The encoded stream is wrong at a character position. -/
  | stream (position : Nat) (cause : StreamError)
  /-- An operand is wrong at a program slot. -/
  | constant (position : Nat) (cause : ConstantError)
  /-- An opcode without a handler was fetched. -/
  | unknownOpcode (address : Nat) (opcode : Int32)
  /-- The instruction pointer or a jump target lies outside the program. -/
  | outOfBounds (address length : Nat)
  /-- An exception that no frame caught. -/
  | unhandled (exception : Val)
  | config (cause : ConfigError)
  /-- The budget of instructions is spent. -/
  | stepLimit (limit : Nat)
  deriving Inhabited

namespace Fault

/-- The name of a fault's kind. -/
def kind : Fault → String
  | stream .. => "DecodeFault"
  | constant .. => "ConstantTagFault"
  | unknownOpcode .. => "UnknownOpcodeFault"
  | outOfBounds .. => "OperandBoundsFault"
  | unhandled _ => "UnhandledRuntimeException"
  | config _ => "ConfigFault"
  | stepLimit _ => "StepLimitFault"

/-- What a fault says beside its kind. -/
def detail : Fault → String
  | stream position cause => cause.message ++ " at input position " ++ toString position
  | constant position cause => cause.message ++ " at program slot " ++ toString position
  | unknownOpcode address opcode =>
    "opcode " ++ toString opcode.toInt ++ " at address " ++ toString address ++
      " has no handler"
  | outOfBounds address length =>
    "address " ++ toString address ++ " outside program of length " ++ toString length
  | unhandled exception => exception.text
  | config cause => cause.message
  | stepLimit limit => "instruction budget of " ++ toString limit ++ " steps exhausted"

/-- The text of a fault. -/
def message (fault : Fault) : String :=
  fault.kind ++ ": " ++ fault.detail

end Fault

/-- How an instruction fails. -/
inductive Thrown where
  /-- Offered to the frames, any of which may catch it. -/
  | exception (value : Val)
  /-- Ends the run; no frame can catch it. -/
  | fault (fault : Fault)
  /-- A callee ended the run in good order. -/
  | halt
  deriving Inhabited

namespace Thrown

/-- An exception whose value is a message. -/
def error (message : String) : Thrown := exception (.str message)

/-- The exception for a slot that no frame binds. -/
def unbound (slot : Nat) : Thrown :=
  error ("ReferenceError: v" ++ toString slot ++ " is not defined")

def message : Thrown → String
  | exception value => "uncaught " ++ value.text
  | fault f => f.message
  | halt => "halt"

end Thrown

end TaggedBytecode
