import Mathlib.Algebra.GroupWithZero.Nat
import Mathlib.Data.Nat.Notation
import Mathlib.Tactic.Common

/-!
# Machine words and byte buffers

Sixty-four bit offsets are natural numbers; an operation of the source that can leave the range
is followed by `u64`. A buffer is a function from the index to the byte, and the accessors of
`lostint.h` read little and big endian fields out of it.

## Main definitions

* `FsRover.u64`, `FsRover.sub64` : unsigned 64-bit wrap-around.
* `FsRover.u32`, `FsRover.add32`, `FsRover.sub32` : the same with 32 bits.
* `FsRover.Buf`, `FsRover.bytesAt` : buffers and `grub_memcmp` against fixed bytes.
* `FsRover.lostLe16` … `FsRover.lostBe64` : the field accessors.
-/

namespace FsRover

/-- The value an unsigned 64-bit variable holds after it is assigned `n`. -/
def u64 (n : ℕ) : ℕ := n % 2 ^ 64

/-- Unsigned 64-bit subtraction. -/
def sub64 (a b : ℕ) : ℕ := u64 (a + 2 ^ 64 - b)

theorem u64_lt (n : ℕ) : u64 n < 2 ^ 64 := Nat.mod_lt _ (by decide)

theorem u64_le (n : ℕ) : u64 n ≤ n := Nat.mod_le _ _

theorem u64_of_lt {n : ℕ} (h : n < 2 ^ 64) : u64 n = n := Nat.mod_eq_of_lt h

theorem sub64_of_le {a b : ℕ} (hb : b ≤ a) (ha : a < 2 ^ 64) : sub64 a b = a - b := by
  unfold sub64 u64
  omega

/-- The value an unsigned 32-bit variable holds after it is assigned `n`. -/
def u32 (n : ℕ) : ℕ := n % 2 ^ 32

/-- Unsigned 32-bit addition and subtraction. -/
def add32 (a b : ℕ) : ℕ := (a + b) % 2 ^ 32
def sub32 (a b : ℕ) : ℕ := (a + 2 ^ 32 - b) % 2 ^ 32

theorem u32_of_lt {n : ℕ} (h : n < 2 ^ 32) : u32 n = n := Nat.mod_eq_of_lt h

theorem sub32_of_le {a b : ℕ} (hb : b ≤ a) (ha : a < 2 ^ 32) : sub32 a b = a - b := by
  unfold sub32
  omega

/-- Bytes by index. What lies past the end of the buffer a caller hands over is never used for a
decision that the caller relies on, so the index is not bounded. -/
abbrev Buf := ℕ → UInt8

/-- The buffer that starts `i` bytes into `p`. -/
def Buf.from (p : Buf) (i : ℕ) : Buf := fun k => p (i + k)

@[simp] theorem Buf.from_apply (p : Buf) (i k : ℕ) : p.from i k = p (i + k) := rfl

theorem Buf.from_zero (p : Buf) : p.from 0 = p := funext fun k => by simp

/-- The `n` bytes from `i` on. -/
def Buf.list (p : Buf) (i n : ℕ) : List UInt8 := (List.range' i n).map p

@[simp] theorem Buf.length_list (p : Buf) (i n : ℕ) : (p.list i n).length = n := by
  simp [Buf.list]

@[simp] theorem Buf.getElem_list (p : Buf) (i n : ℕ) {k : ℕ} (hk : k < (p.list i n).length) :
    (p.list i n)[k] = p (i + k) := by
  simp [Buf.list]

theorem Buf.getD_list (p : Buf) (i n k : ℕ) :
    (p.list i n).getD k 0 = if k < n then p (i + k) else 0 := by
  rw [List.getD_eq_getElem?_getD, Buf.list]
  by_cases hk : k < n
  · simp [hk]
  · simp [hk]

theorem Buf.list_from (p : Buf) (i n : ℕ) : (p.from i).list 0 n = p.list i n :=
  List.ext_getElem (by simp) fun k _ _ => by simp

/-- `grub_memcmp (p + i, bytes, …) == 0`. -/
def bytesAt (p : Buf) (i : ℕ) : List UInt8 → Bool
  | [] => true
  | b :: bs => p i == b && bytesAt p (i + 1) bs

/-- The `n` bytes from `i` on are all zero. -/
def zerosAt (p : Buf) (i : ℕ) : ℕ → Bool
  | 0 => true
  | n + 1 => p i == 0 && zerosAt p (i + 1) n

/-- The buffer that is zero but for these fields, each given with its offset. -/
def Buf.ofFields : List (ℕ × List UInt8) → Buf
  | [] => fun _ => 0
  | (offset, bytes) :: fields => fun i =>
    if offset ≤ i ∧ i - offset < bytes.length then bytes.getD (i - offset) 0
    else Buf.ofFields fields i

theorem Buf.ofFields_eq_zero {fields : List (ℕ × List UInt8)} {i : ℕ}
    (h : ∀ field ∈ fields, i < field.1 ∨ field.1 + field.2.length ≤ i) :
    Buf.ofFields fields i = 0 := by
  induction fields with
  | nil => rfl
  | cons field fields ih =>
    have hfield := h field List.mem_cons_self
    rw [Buf.ofFields]
    exact (if_neg (by omega)).trans (ih fun f hf => h f (List.mem_cons_of_mem field hf))

/-! ### Little and big endian fields -/

/-- The byte at `i` as a number. -/
def byteAt (p : Buf) (i : ℕ) : ℕ := (p i).toNat

/-- `lost_le16`; the bytes do not overlap, so the source's `|` is a sum. -/
def lostLe16 (p : Buf) (i : ℕ) : ℕ := byteAt p i + 2 ^ 8 * byteAt p (i + 1)

/-- `lost_le32`. -/
def lostLe32 (p : Buf) (i : ℕ) : ℕ := lostLe16 p i + 2 ^ 16 * lostLe16 p (i + 2)

/-- `lost_le64`. -/
def lostLe64 (p : Buf) (i : ℕ) : ℕ := lostLe32 p i + 2 ^ 32 * lostLe32 p (i + 4)

/-- `lost_be16`. -/
def lostBe16 (p : Buf) (i : ℕ) : ℕ := 2 ^ 8 * byteAt p i + byteAt p (i + 1)

/-- `lost_be32`. -/
def lostBe32 (p : Buf) (i : ℕ) : ℕ := 2 ^ 16 * lostBe16 p i + lostBe16 p (i + 2)

/-- `lost_be64`. -/
def lostBe64 (p : Buf) (i : ℕ) : ℕ := 2 ^ 32 * lostBe32 p i + lostBe32 p (i + 4)

theorem byteAt_lt (p : Buf) (i : ℕ) : byteAt p i < 2 ^ 8 := UInt8.toNat_lt _

theorem lostLe16_lt (p : Buf) (i : ℕ) : lostLe16 p i < 2 ^ 16 := by
  have h₀ := byteAt_lt p i
  have h₁ := byteAt_lt p (i + 1)
  unfold lostLe16
  omega

theorem lostLe32_lt (p : Buf) (i : ℕ) : lostLe32 p i < 2 ^ 32 := by
  have h₀ := lostLe16_lt p i
  have h₁ := lostLe16_lt p (i + 2)
  unfold lostLe32
  omega

theorem lostLe64_lt (p : Buf) (i : ℕ) : lostLe64 p i < 2 ^ 64 := by
  have h₀ := lostLe32_lt p i
  have h₁ := lostLe32_lt p (i + 4)
  unfold lostLe64
  omega

theorem lostBe16_lt (p : Buf) (i : ℕ) : lostBe16 p i < 2 ^ 16 := by
  have h₀ := byteAt_lt p i
  have h₁ := byteAt_lt p (i + 1)
  unfold lostBe16
  omega

theorem lostBe32_lt (p : Buf) (i : ℕ) : lostBe32 p i < 2 ^ 32 := by
  have h₀ := lostBe16_lt p i
  have h₁ := lostBe16_lt p (i + 2)
  unfold lostBe32
  omega

theorem lostBe64_lt (p : Buf) (i : ℕ) : lostBe64 p i < 2 ^ 64 := by
  have h₀ := lostBe32_lt p i
  have h₁ := lostBe32_lt p (i + 4)
  unfold lostBe64
  omega

/-! ### Arithmetic helpers -/

/-- A step that stays in one unit of `m`. -/
theorem div_mod_add_of_lt {m n d : ℕ} (h : n % m + d < m) :
    (n + d) / m = n / m ∧ (n + d) % m = n % m + d := by
  have hn := Nat.div_add_mod n m
  have hsum : n + d = m * (n / m) + (n % m + d) := by omega
  rw [hsum, Nat.mul_add_div (by omega), Nat.mul_add_mod, Nat.div_eq_of_lt h, Nat.mod_eq_of_lt h]
  exact ⟨rfl, rfl⟩

/-- `lost_is_pow2`. -/
def lostIsPow2 (v : ℕ) : Bool := v ≠ 0 && v &&& (v - 1) = 0

/-- `lost_round_up`: the sum is taken in 64 bits before the division. -/
def lostRoundUp (v align : ℕ) : ℕ := u64 (v + align - 1) / align * align

/-- Rounding up never passes a multiple at or after the value, even where the sum wraps. -/
theorem lostRoundUp_le {v align k : ℕ} (halign : 0 < align) (h : v ≤ k * align) :
    lostRoundUp v align ≤ k * align := by
  have hsum : u64 (v + align - 1) < (k + 1) * align := by
    have hle := u64_le (v + align - 1)
    rw [Nat.add_mul, Nat.one_mul]
    omega
  exact Nat.mul_le_mul_right _ (Nat.lt_succ_iff.mp (Nat.div_lt_of_lt_mul (by
    rwa [Nat.mul_comm] at hsum)))

theorem le_lostRoundUp {v align : ℕ} (halign : 0 < align) (h : v + align ≤ 2 ^ 64) :
    v ≤ lostRoundUp v align := by
  unfold lostRoundUp
  rw [u64_of_lt (by omega)]
  have hmod := Nat.mod_lt (v + align - 1) halign
  have hdiv := Nat.div_add_mod (v + align - 1) align
  rw [Nat.mul_comm] at hdiv
  omega

end FsRover
