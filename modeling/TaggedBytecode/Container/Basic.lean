import TaggedBytecode.Collection.Assoc
import TaggedBytecode.Constant.Decoder

/-!
# Containers

A **container** is a program in binary form with what is needed to run it elsewhere: flags,
the marker table if it is not the reference one, and where the program comes from.

In bytes it is a header — the magic `TGVB`, a version of two bytes, two reserved bytes and
flags of four bytes — and then **sections**, each a name of four bytes, a length of four bytes
and as many bytes of payload. All numbers are little-endian.

## Main definitions

* `Container` — the content of a container.
* `ContainerError` — why some bytes are none.
-/

namespace TaggedBytecode

/-- The bits that qualify the program of a container. -/
structure ContainerFlags where
  bits : UInt32 := 0
  deriving DecidableEq, Repr

namespace ContainerFlags

/-- The program still carries its string pool. -/
def pooled : ContainerFlags := ⟨1⟩

/-- Whether all bits of `other` are set. -/
def contains (flags other : ContainerFlags) : Bool :=
  flags.bits &&& other.bits == other.bits

/-- Sets all bits of `other`. -/
def insert (flags other : ContainerFlags) : ContainerFlags :=
  ⟨flags.bits ||| other.bits⟩

end ContainerFlags

/-- Where a program comes from. -/
structure Provenance where
  source : Option String := none
  /-- Notes by name, in ascending order. -/
  tags : List (String × String) := []
  deriving DecidableEq, Repr

namespace Provenance

/-- Whether nothing is known. -/
def isEmpty (p : Provenance) : Bool := p.source.isNone && p.tags.isEmpty

end Provenance

/-- The version that is written and the latest that can be read. -/
def containerVersion : UInt16 := 1

/-- The content of a container. -/
structure Container where
  version : UInt16 := containerVersion
  flags : ContainerFlags := {}
  program : Program
  markers : Option Markers := none
  provenance : Option Provenance := none
  deriving DecidableEq

/-- The sections that have a meaning. Others are skipped. -/
inductive SectionKind where
  | program
  | markers
  | provenance
  deriving DecidableEq, Repr

namespace SectionKind

/-- The name of a section in containers. -/
def name : SectionKind → String
  | program => "PROG"
  | markers => "TAGS"
  | provenance => "META"

end SectionKind

/-- What was being read when the bytes ran out. -/
inductive ContainerField where
  | half
  | word
  | sectionName
  deriving DecidableEq, Repr

/-- Why bytes are no container. -/
inductive ContainerError where
  | tooSmall
  | wrongMagic
  | unsupported (version : UInt16)
  | endOfBytes (field : ContainerField)
  | sectionTooLong
  | repeated (kind : SectionKind)
  /-- The program section says that it holds `declared` slots, but holds `carried` bytes. -/
  | slotCount (declared carried : Nat)
  | noProgram
  deriving DecidableEq, Repr

namespace ContainerError

def message : ContainerError → String
  | tooSmall => "module too small"
  | wrongMagic => "invalid TGVB magic"
  | unsupported version =>
    "unsupported TGVB version " ++ toString version.toNat ++ " (reader supports <= " ++
      toString containerVersion.toNat ++ ")"
  | endOfBytes .half => "unexpected EOF reading u16"
  | endOfBytes .word => "unexpected EOF reading u32"
  | endOfBytes .sectionName => "unexpected EOF reading section tag"
  | sectionTooLong => "section overruns payload"
  | repeated kind => "duplicate " ++ kind.name ++ " section"
  | slotCount declared carried =>
    "PROG section declares " ++ toString declared ++ " slots but carries " ++ toString carried ++
      " bytes"
  | noProgram => "missing PROG section"

end ContainerError

end TaggedBytecode
