import Mathlib.Data.Nat.Notation
import Mathlib.Tactic.Common

/-!
# The reflected CRC32

## Main definitions

* `Crc32.shift` : the rounds that take the lowest bits out of the register.
-/

namespace Crc32

/-- Take `n` bits out of the register. -/
def shift : ℕ → UInt32 → UInt32
  | 0, crc => crc
  | n + 1, crc => shift n ((crc >>> 1) ^^^ if crc &&& 1 = 1 then 0xedb88320 else 0)

end Crc32
