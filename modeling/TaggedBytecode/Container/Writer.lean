import TaggedBytecode.Container.Payload

/-!
# Writing Containers

A container is written with its program first, then the marker table and the provenance where
there are any. A provenance in which nothing is known is not written. Counts and lengths have
to fit four bytes.

## Main definitions

* `Container.encode` — the bytes of a container.
-/

namespace TaggedBytecode

/-- The magic bytes at the head of a container. -/
def containerMagic : List UInt8 := Bytes.ofAscii "TGVB"

/-- The bytes of a section's name. -/
def SectionKind.tag (kind : SectionKind) : List UInt8 := Bytes.ofAscii kind.name

/-- The number of values of a four-byte number. -/
def wordBound : Nat := 0x100000000

/-- What is said of a number that does not fit its field. -/
def outOfField (note : String) : Failure :=
  Failure.note note (.ofMessage "out of range integral type conversion attempted")

namespace Container

/-- The bytes of a section. -/
def encodeSection (kind : SectionKind) (payload : Payload) : Except Failure (List UInt8) :=
  if payload.length < wordBound then
    .ok (kind.tag ++ Bytes.ofWord (UInt32.ofNat payload.length) ++ payload)
  else .error (outOfField "section too large")

/-- The bytes of a section that may be absent. -/
def encodeOptional (kind : SectionKind) (payload : Option Payload) :
    Except Failure (List UInt8) :=
  match payload with
  | some payload => encodeSection kind payload
  | none => .ok []

/-- The provenance of a container, if anything is known. -/
def knownProvenance (c : Container) : Option Provenance :=
  c.provenance.filter fun p => !p.isEmpty

/-- The bytes in front of the sections. -/
def header (c : Container) : List UInt8 :=
  containerMagic ++ Bytes.ofHalf c.version ++ Bytes.ofHalf 0 ++ Bytes.ofWord c.flags.bits

/-- The bytes of a container. -/
def encode (c : Container) : Except Failure (List UInt8) :=
  if c.program.size < wordBound then do
    let program ← encodeSection .program (Payload.ofProgram c.program)
    let markers ← encodeOptional .markers (c.markers.map Payload.ofMarkers)
    let provenance ← encodeOptional .provenance (c.knownProvenance.map Payload.ofProvenance)
    return c.header ++ program ++ markers ++ provenance
  else .error (outOfField "program too large for TGVB")

end Container

end TaggedBytecode
