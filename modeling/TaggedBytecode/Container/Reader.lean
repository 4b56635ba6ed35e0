import TaggedBytecode.Container.Writer

/-!
# Reading Containers

Reading goes through the sections in order. A section that has a meaning occurs at most once,
and the program has to be there. The first thing that is wrong is reported.

## Main definitions

* `Container.decode` — the container of some bytes.
-/

namespace TaggedBytecode

/-- A container error as a failure. -/
def ContainerError.failure (e : ContainerError) : Failure := .ofMessage e.message

/-- A section that was read. -/
structure Section where
  tag : List UInt8
  payload : Payload
  deriving DecidableEq

namespace Section

/-- Reads a section from the front of some bytes. -/
def read (bytes : List UInt8) : Except ContainerError (Section × List UInt8) :=
  if bytes.length < 4 then .error (.endOfBytes .sectionName)
  else
    match Bytes.word? (bytes.drop 4) with
    | none => .error (.endOfBytes .word)
    | some (length, rest) =>
      if rest.length < length.toNat then .error .sectionTooLong
      else .ok (⟨bytes.take 4, rest.take length.toNat⟩, rest.drop length.toNat)

/-- The meaning of a section, if it has one. -/
def kind? (s : Section) : Option SectionKind :=
  [SectionKind.program, .markers, .provenance].find? fun kind => kind.tag == s.tag

end Section

/-- What the sections so far hold. -/
structure SectionContents where
  program : Option Program := none
  markers : Option Markers := none
  provenance : Option Provenance := none

namespace SectionContents

/-- Refuses a second section of a kind. -/
def once (kind : SectionKind) (earlier : Option α) : Except Failure Unit :=
  if earlier.isSome then .error (ContainerError.repeated kind).failure else .ok ()

/-- Takes the content of a section in. -/
def absorb (contents : SectionContents) (s : Section) : Except Failure SectionContents :=
  match s.kind? with
  | some .program => do
    once .program contents.program
    let program ← (Payload.program s.payload).mapError ContainerError.failure
    return { contents with program := some program }
  | some .markers => do
    once .markers contents.markers
    return { contents with markers := some (← Payload.markers s.payload) }
  | some .provenance => do
    once .provenance contents.provenance
    return { contents with provenance := some (← Payload.provenance s.payload) }
  | none => .ok contents

/-- Takes the contents of all sections in. Every section takes more than one byte, so that
there are no more sections than bytes. -/
def absorbAll (contents : SectionContents) :
    (fuel : Nat) → List UInt8 → Except Failure SectionContents
  | _, [] => .ok contents
  | 0, _ => .ok contents
  | fuel + 1, bytes => do
    let (s, rest) ← (Section.read bytes).mapError ContainerError.failure
    absorbAll (← contents.absorb s) fuel rest

end SectionContents

namespace Container

/-- The version and the flags in a header, with the bytes of the sections. -/
def readHeader (bytes : List UInt8) :
    Except ContainerError (UInt16 × ContainerFlags × List UInt8) :=
  if bytes.length < 12 then .error .tooSmall
  else if bytes.take 4 ≠ containerMagic then .error .wrongMagic
  else
    match Bytes.half? (bytes.drop 4), Bytes.word? (bytes.drop 8) with
    | some (version, _), some (flags, sections) =>
      if containerVersion < version then .error (.unsupported version)
      else .ok (version, ⟨flags⟩, sections)
    | _, _ => .error .tooSmall

/-- The container of some bytes. -/
def decode (bytes : List UInt8) : Except Failure Container := do
  let (version, flags, sections) ← (readHeader bytes).mapError ContainerError.failure
  let contents ← SectionContents.absorbAll {} sections.length sections
  match contents.program with
  | none => .error ContainerError.noProgram.failure
  | some program =>
    return {
      version, flags, program
      markers := contents.markers
      provenance := contents.provenance }

end Container

end TaggedBytecode
