import FsRover.Lib.Lz

/-!
# The plain LZ77 stream

Words of 32 flags, each flag before a literal byte or a match of two bytes with thirteen bits of
offset and three of length. A length that does not fit goes on in a nibble, a byte, two bytes and
four bytes. Two nibbles share a byte, however far apart their matches are.

## Main definitions

* `Xca.length` : the length of a match.
* `Xca.items` : the items of a stream, and whether it ends well.
* `Xca.decode` : the expansion up to a limit.
-/

namespace Xca

open Lz

/-- A little endian number. -/
def le : List UInt8 → ℕ
  | [] => 0
  | b :: bs => b.toNat + 2 ^ 8 * le bs

/-- A number of `n` bytes, and what follows it. -/
def field (n : ℕ) (src : List UInt8) : Option (ℕ × List UInt8) :=
  if n ≤ src.length then some (le (src.take n), src.drop n) else none

/-- The length of a match behind the nibble 15. -/
def longLength (src : List UInt8) : Option (ℕ × List UInt8) := do
  let (b, src) ← field 1 src
  if b < 255 then some (3 + 7 + 15 + b, src)
  else do
    let (v, src) ← field 2 src
    let (v, src) ← if v = 0 then field 4 src else some (v, src)
    if v < 15 + 7 then none else some (3 + v, src)

/-- The length of a match with three bits of length; `half` is a byte whose upper nibble is left. -/
def length (bits : ℕ) (half : Option UInt8) (src : List UInt8) :
    Option (ℕ × Option UInt8 × List UInt8) :=
  if bits < 7 then some (3 + bits, half, src)
  else
    match half, src with
    | some b, src =>
      if b.toNat / 16 < 15 then some (3 + 7 + b.toNat / 16, none, src)
      else (longLength src).map fun (len, src) => (len, none, src)
    | none, [] => none
    | none, b :: src =>
      if b.toNat % 16 < 15 then some (3 + 7 + b.toNat % 16, some b, src)
      else (longLength src).map fun (len, src) => (len, some b, src)

/-- The next flag is number `n - 1` of `flags`, or the first of the next word. -/
def nextFlag (src : List UInt8) (flags n : ℕ) : Option (List UInt8 × ℕ × ℕ) :=
  if n = 0 then (field 4 src).map fun (flags, src) => (src, flags, 31) else some (src, flags, n - 1)

/-- The items of a stream, and whether it ends between two of them. An item takes a byte at least, so
the length of the stream bounds their number. -/
def items : ℕ → List UInt8 → Option UInt8 → ℕ → ℕ → List Item × Bool
  | 0, _, _, _, _ => ([], true)
  | fuel + 1, src, half, flags, n =>
    match nextFlag src flags n with
    | none => ([], true)
    | some (src, flags, n) =>
      if flags.testBit n = false then
        match src with
        | [] => ([], true)
        | b :: src =>
          let (ts, good) := items fuel src half flags n
          (.literal b :: ts, good)
      else if src = [] then ([], true)
      else
        match field 2 src with
        | none => ([], false)
        | some (m, src) =>
          match length (m % 8) half src with
          | none => ([], false)
          | some (len, half, src) =>
            let (ts, good) := items fuel src half flags n
            (.copy (m / 8 + 1) len :: ts, good)

/-- The items of the stream `src`. -/
def streamItems (src : List UInt8) : List Item × Bool := items (src.length + 1) src none 0 0

/-- The stream `src` expanded up to `limit` bytes. -/
def decode (limit : ℕ) (src : List UInt8) : Outcome :=
  expand limit (streamItems src).2 (streamItems src).1 []

end Xca
