import TaggedBytecode.Constant.Decoder

/-!
# Pool Extraction

A program may carry its string pool as one inline string constant. The last slot of the
program locates it: the **offset** of the constant is that slot, exclusive-or the program's
length plus four. Extraction cuts the constant out of the program and makes its units the pool.

## Main definitions

* `StringPool.extract` — the program without its pool, and the pool.
-/

namespace TaggedBytecode.StringPool

/-- Cuts the embedded string pool out of a program. -/
def extract (program : Program) (markers : Markers) (chars : CharMode) :
    Except Fault (Program × StringPool) := do
  let some last := program.back? | throw (.config .emptyPoolProgram)
  let offset := (last ^^^ Int32.ofNat (program.size + 4)).toInt
  if offset < 0 then throw (.config (.poolOffset offset))
  let start := offset.toNat
  let some length := program[start + 1]? | throw (.config (.poolOffset offset))
  let count := length.toInt + 2
  if count < 2 ∨ (program.size : Int) < start + count then
    throw (.config (.poolOverrun count start))
  let stop := start + count.toNat
  let decoder : Decoder := { markers, chars }
  let (found, _) ← decoder.constant (program.extract start stop) 0
  match found with
  | .str text =>
    return (program.extract 0 start ++ program.extract stop program.size, ofText text)
  | other => throw (.config (.poolNotString other))

end TaggedBytecode.StringPool
