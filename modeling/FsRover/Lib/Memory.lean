import FsRover.Lib.Outcome

/-!
# Memory with checked accesses

A buffer of a given length. An access outside it is the outcome `fault`.

## Main definitions

* `Memory.Mem` : a buffer.
* `Memory.Mem.field`, `Memory.Mem.testBit`, `Memory.Mem.setBit`, `Memory.Mem.put`, `Memory.Mem.fill` :
  accesses.

## Main results

* `Memory.field_of_le`, `Memory.testBit_of_lt`, `Memory.setBit_of_lt`, `Memory.fill_of_le` : an access
  inside the buffer returns.
-/

namespace Memory

open Outcome

/-- A buffer of `len` bytes. -/
structure Mem where
  len : ℕ
  byte : ℕ → UInt8

/-- A fresh buffer of zeros. -/
def Mem.zeroed (len : ℕ) : Mem := ⟨len, fun _ => 0⟩

variable {ε : Type} (m : Mem)

/-- The byte at `i`. -/
def Mem.get (i : ℕ) : Outcome ε UInt8 := inside (i < m.len) (m.byte i)

/-- The `n` bytes from `i` on. -/
def Mem.field (i n : ℕ) : Outcome ε (ℕ → UInt8) := inside (i + n ≤ m.len) fun k => m.byte (i + k)

/-- Change the byte at `i`. -/
def Mem.modify (i : ℕ) (f : UInt8 → UInt8) : Outcome ε Mem :=
  inside (i < m.len) { m with byte := fun j => if j = i then f (m.byte i) else m.byte j }

/-- Set a bit, counted from the lowest bit of the first byte on. -/
def Mem.setBit (bit : ℕ) : Outcome ε Mem :=
  m.modify (bit / 8) (· ||| 1 <<< UInt8.ofNat (bit % 8))

/-- Whether a bit is set. -/
def Mem.testBit (bit : ℕ) : Outcome ε Bool := do
  let b ← m.get (bit / 8)
  done (b.toNat.testBit (bit % 8))

/-- Write `bytes` from `i` on. -/
def Mem.put (i : ℕ) (bytes : List UInt8) : Outcome ε Mem :=
  inside (i + bytes.length ≤ m.len) { m with byte := fun j =>
    if i ≤ j ∧ j < i + bytes.length then bytes.getD (j - i) 0 else m.byte j }

/-- Write the first `n` bytes. -/
def Mem.fill (n : ℕ) (src : ℕ → UInt8) : Outcome ε Mem :=
  inside (n ≤ m.len) { m with byte := fun j => if j < n then src j else m.byte j }

variable {m}

theorem get_of_lt {i : ℕ} (h : i < m.len) : (m.get i : Outcome ε UInt8) = done (m.byte i) :=
  inside_pos h

theorem field_of_le {i n : ℕ} (h : i + n ≤ m.len) :
    (m.field i n : Outcome ε (ℕ → UInt8)) = done fun k => m.byte (i + k) :=
  inside_pos h

theorem field_of_lt {i n : ℕ} (h : m.len < i + n) :
    (m.field i n : Outcome ε (ℕ → UInt8)) = fault :=
  if_neg (Nat.not_le_of_lt h)

theorem modify_of_lt {i : ℕ} {f : UInt8 → UInt8} (h : i < m.len) :
    ∃ m', (m.modify i f : Outcome ε Mem) = done m' ∧ m'.len = m.len :=
  ⟨_, inside_pos h, rfl⟩

theorem setBit_of_lt {bit : ℕ} (h : bit / 8 < m.len) :
    ∃ m', (m.setBit bit : Outcome ε Mem) = done m' ∧ m'.len = m.len :=
  modify_of_lt h

theorem testBit_of_lt {bit : ℕ} (h : bit / 8 < m.len) :
    (m.testBit bit : Outcome ε Bool) = done ((m.byte (bit / 8)).toNat.testBit (bit % 8)) := by
  rw [Mem.testBit, get_of_lt h, done_bind]

theorem testBit_of_le {bit : ℕ} (h : m.len ≤ bit / 8) : (m.testBit bit : Outcome ε Bool) = fault := by
  rw [Mem.testBit, Mem.get, inside, if_neg (Nat.not_lt_of_le h), fault_bind]

theorem fill_of_le {n : ℕ} {src : ℕ → UInt8} (h : n ≤ m.len) :
    ∃ m', (m.fill n src : Outcome ε Mem) = done m' ∧ m'.len = m.len :=
  ⟨_, inside_pos h, rfl⟩

end Memory
