import Mathlib.Data.Nat.Count

/-!
# Rank of a bit

The number of set bits below a bit of a byte array, from samples of the count taken once for every
`group` bytes.

## Main definitions

* `Rank.bit`, `Rank.setBit`, `Rank.ones` : the bits of the array, and the number of set bits below a
  place.
* `Rank.popcount8` : the set bits of a byte, by adding neighbouring fields in parallel.
* `Rank.clearing` : the set bits of a number, by clearing the lowest one again and again.
* `Rank.lookup` : the rank of a bit from the samples.
* `Rank.sampleBits` : one pass over the array that takes the samples.

## Main results

* `Rank.lookup_eq_ones` : with exact samples the lookup is exact.
* `Rank.sampleBits_spec` : the pass takes exact samples.
* `Rank.clearing_eq_count` : clearing counts the set bits.
-/

namespace Rank

/-! ### One byte -/

/-- Add neighbouring bits, then pairs, then nibbles. -/
def popcount8 (v : UInt8) : ℕ :=
  let pairs : UInt8 := v - (v >>> (1 : UInt8) &&& 0x55)
  let nibbles : UInt8 := (pairs &&& 0x33) + (pairs >>> (2 : UInt8) &&& 0x33)
  ((nibbles + nibbles >>> (4 : UInt8)) &&& 0x0f).toNat

/-- The byte with only its lowest `k` bits. -/
def low (v : UInt8) (k : ℕ) : UInt8 := v &&& UInt8.ofNat (2 ^ k - 1)

theorem popcount8_low (v : UInt8) {k : ℕ} (hk : k ≤ 8) :
    popcount8 (low v k) = Nat.count (fun i => v.toNat.testBit i = true) k := by
  have hall : ∀ n < 256, ∀ k < 9, popcount8 (low (UInt8.ofNat n) k)
      = Nat.count (fun i => n.testBit i = true) k := by decide +kernel
  have h := hall v.toNat (UInt8.toNat_lt v) k (Nat.lt_succ_of_le hk)
  rwa [UInt8.ofNat_toNat] at h

theorem popcount8_eq (v : UInt8) :
    popcount8 v = Nat.count (fun i => v.toNat.testBit i = true) 8 := by
  have hall : ∀ n < 256, low (UInt8.ofNat n) 8 = UInt8.ofNat n := by decide +kernel
  have h := hall v.toNat (UInt8.toNat_lt v)
  rw [UInt8.ofNat_toNat] at h
  rw [← popcount8_low v (Nat.le_refl 8), h]

/-! ### Numbers -/

/-- Clear the lowest set bit until there is none left; at most `fuel` bits are cleared. -/
def clearing : ℕ → ℕ → ℕ
  | 0, _ => 0
  | fuel + 1, v => if v = 0 then 0 else clearing fuel (v &&& (v - 1)) + 1

theorem land_pred_double (m : ℕ) :
    2 * m &&& (2 * m - 1) = 2 * (m &&& (m - 1)) := by
  apply Nat.eq_of_testBit_eq
  rintro (_ | i)
  · simp
  · have hbit : ∀ x : ℕ, x.testBit (i + 1) = (x / 2).testBit i := fun x => Nat.testBit_succ x i
    have hhalf : (2 * m - 1) / 2 = m - 1 := by omega
    rw [Nat.testBit_and, hbit, hbit, hbit, hhalf]
    simp

theorem land_pred_double_add_one (m : ℕ) : (2 * m + 1) &&& (2 * m) = 2 * m := by
  apply Nat.eq_of_testBit_eq
  rintro (_ | i)
  · simp
  · have hbit : ∀ x : ℕ, x.testBit (i + 1) = (x / 2).testBit i := fun x => Nat.testBit_succ x i
    have hhalf : (2 * m + 1) / 2 = m := by omega
    rw [Nat.testBit_and, hbit, hbit, hhalf]
    simp

theorem clearing_double (fuel m : ℕ) : clearing fuel (2 * m) = clearing fuel m := by
  induction fuel generalizing m with
  | zero => rfl
  | succ fuel ih =>
    by_cases hm : m = 0
    · simp [hm]
    · rw [clearing, clearing, if_neg (by omega), if_neg hm, land_pred_double, ih]

/-- A number of `w` bits takes at most `w` rounds. -/
theorem clearing_eq_count {w v fuel : ℕ} (hv : v < 2 ^ w) (hfuel : w ≤ fuel) :
    clearing fuel v = Nat.count (fun i => v.testBit i = true) w := by
  induction w generalizing v fuel with
  | zero =>
    obtain rfl : v = 0 := by omega
    cases fuel <;> simp [clearing]
  | succ w ih =>
    have hshift : ∀ i, v.testBit (i + 1) = (v / 2).testBit i := fun i => Nat.testBit_succ v i
    have hhalf : v / 2 < 2 ^ w := by
      rw [Nat.pow_succ] at hv
      omega
    rw [Nat.count_succ']
    simp only [hshift]
    obtain ⟨m, rfl | rfl⟩ : ∃ m, v = 2 * m ∨ v = 2 * m + 1 := ⟨v / 2, by omega⟩
    · rw [clearing_double, show 2 * m / 2 = m by omega] at *
      rw [ih hhalf (by omega)]
      simp
    · obtain ⟨fuel, rfl⟩ : ∃ k, fuel = k + 1 := ⟨fuel - 1, by omega⟩
      rw [show (2 * m + 1) / 2 = m by omega] at *
      rw [clearing, if_neg (by omega), Nat.add_sub_cancel, land_pred_double_add_one,
        clearing_double, ih hhalf (by omega)]
      simp

theorem count_congr {p q : ℕ → Prop} [DecidablePred p] [DecidablePred q] {n : ℕ}
    (h : ∀ i < n, (p i ↔ q i)) : Nat.count p n = Nat.count q n := by
  induction n with
  | zero => simp
  | succ n ih =>
    rw [Nat.count_succ, Nat.count_succ, ih fun i hi => h i (by omega)]
    simp [h n (Nat.lt_succ_self n)]

/-- The set bits below bit `k`. -/
theorem clearing_low {v k fuel : ℕ} (hk : k ≤ fuel) :
    clearing fuel (v &&& (1 <<< k - 1)) = Nat.count (fun i => v.testBit i = true) k := by
  have hlow : v &&& (1 <<< k - 1) = v % 2 ^ k := by
    rw [Nat.one_shiftLeft, Nat.and_two_pow_sub_one_eq_mod]
  rw [hlow, clearing_eq_count (Nat.mod_lt _ (Nat.two_pow_pos k)) hk]
  refine count_congr fun i hi => ?_
  simp [Nat.testBit_mod_two_pow, hi]

/-! ### Bits of an array -/

variable (b : ℕ → UInt8)

/-- Bit `i` of the array. -/
def bit (i : ℕ) : Bool := (b (i / 8)).toNat.testBit (i % 8)

/-- The number of set bits below bit `i`. -/
def ones (i : ℕ) : ℕ := Nat.count (fun k => bit b k = true) i

@[simp] theorem ones_zero : ones b 0 = 0 := Nat.count_zero _

theorem ones_succ (i : ℕ) : ones b (i + 1) = ones b i + if bit b i then 1 else 0 :=
  Nat.count_succ _ i

theorem ones_lt {i j : ℕ} (hbit : bit b i = true) (h : i < j) : ones b i < ones b j :=
  Nat.count_strict_mono hbit h

/-- The set bits of the first `k` bits of a byte. -/
theorem ones_byte (byte : ℕ) {k : ℕ} (hk : k ≤ 8) :
    ones b (8 * byte + k)
      = ones b (8 * byte) + Nat.count (fun i => (b byte).toNat.testBit i = true) k := by
  induction k with
  | zero => rw [Nat.count_zero, Nat.add_zero, Nat.add_zero]
  | succ k ih =>
    have hbit : bit b (8 * byte + k) = (b byte).toNat.testBit k := by
      rw [bit, show (8 * byte + k) / 8 = byte by omega, show (8 * byte + k) % 8 = k by omega]
    rw [← Nat.add_assoc, ones_succ, ih (by omega), Nat.count_succ, hbit, Nat.add_assoc]

/-- The array with bit `i` set. -/
def setBit (i : ℕ) : ℕ → UInt8 :=
  fun k => if k = i / 8 then b k ||| UInt8.ofNat (2 ^ (i % 8)) else b k

theorem bit_setBit (i j : ℕ) : bit (setBit b i) j = (bit b j || decide (j = i)) := by
  have hpow : 2 ^ (i % 8) < 2 ^ 8 := Nat.pow_lt_pow_right (by decide) (by omega)
  by_cases hbyte : j / 8 = i / 8
  · have hplace : decide (i % 8 = j % 8) = decide (j = i) := by
      by_cases h : j = i
      · simp [h]
      · simp [h, show ¬ i % 8 = j % 8 by omega]
    rw [bit, setBit, if_pos hbyte, UInt8.toNat_or, Nat.testBit_or, UInt8.toNat_ofNat_of_lt' hpow,
      Nat.testBit_two_pow, hplace, bit]
  · have hne : j ≠ i := fun h => hbyte (h ▸ rfl)
    rw [bit, setBit, if_neg hbyte, bit, decide_eq_false hne, Bool.or_false]

/-- The sum of the counts of `n` bytes. -/
def sumBytes : ℕ → ℕ → ℕ
  | 0, _ => 0
  | n + 1, byte => popcount8 (b byte) + sumBytes n (byte + 1)

theorem ones_add_sumBytes (n byte : ℕ) :
    ones b (8 * byte) + sumBytes b n byte = ones b (8 * (byte + n)) := by
  induction n generalizing byte with
  | zero => rfl
  | succ n ih =>
    have hnext := ones_byte b byte (Nat.le_refl 8)
    rw [← popcount8_eq, show 8 * byte + 8 = 8 * (byte + 1) by omega] at hnext
    rw [sumBytes, ← Nat.add_assoc, ← hnext, ih, Nat.add_assoc, Nat.add_comm 1 n]

/-! ### Lookup -/

variable (group : ℕ)

/-- Start at the sample for the group of bit `i`, add the bytes up to the one that holds the bit,
and the bits before it in there. -/
def lookup (sample : ℕ → ℕ) (i : ℕ) : ℕ :=
  sample (i / (8 * group))
    + sumBytes b (i / 8 - i / (8 * group) * group) (i / (8 * group) * group)
    + if i % 8 ≠ 0 then popcount8 (low (b (i / 8)) (i % 8)) else 0

theorem lookup_eq_ones {sample : ℕ → ℕ} {i : ℕ}
    (h : sample (i / (8 * group)) = ones b (8 * (i / (8 * group) * group))) :
    lookup b group sample i = ones b i := by
  have hstart : i / (8 * group) * group ≤ i / 8 := by
    rw [← Nat.div_div_eq_div_mul]
    exact Nat.div_mul_le_self _ _
  have hbits : (if i % 8 ≠ 0 then popcount8 (low (b (i / 8)) (i % 8)) else 0)
      = Nat.count (fun k => (b (i / 8)).toNat.testBit k = true) (i % 8) := by
    by_cases hzero : i % 8 = 0
    · rw [if_neg (not_not.mpr hzero), hzero, Nat.count_zero]
    · rw [if_pos hzero, popcount8_low _ (by omega)]
  rw [lookup, h, ones_add_sumBytes, hbits, Nat.add_sub_cancel' hstart, ← ones_byte b _ (by omega),
    Nat.div_add_mod]

/-! ### Samples -/

/-- Note `used` as the sample for `g`. -/
def note (sample : ℕ → ℕ) (g used : ℕ) : ℕ → ℕ := fun k => if k = g then used else sample k

/-- Count the bits `[i, i + n)`, and note the count at each multiple of `period`. -/
def sampleBits (period : ℕ) : ℕ → ℕ → ℕ → (ℕ → ℕ) → ℕ × (ℕ → ℕ)
  | 0, _, used, sample => (used, sample)
  | n + 1, i, used, sample =>
    sampleBits period n (i + 1) (used + if bit b i then 1 else 0)
      (if i % period = 0 then note sample (i / period) used else sample)

/-- The samples of the groups that begin before `i` are the counts `f`. -/
def Exact (f : ℕ → ℕ) (period i : ℕ) (sample : ℕ → ℕ) : Prop :=
  ∀ g, g * period < i → sample g = f (g * period)

theorem Exact.step {f : ℕ → ℕ} {period i : ℕ} {sample : ℕ → ℕ} (h : Exact f period i sample)
    (hperiod : 0 < period) :
    Exact f period (i + 1) (if i % period = 0 then note sample (i / period) (f i) else sample) := by
  intro g hg
  have hdiv := Nat.div_add_mod i period
  rw [Nat.mul_comm] at hdiv
  by_cases hi : i % period = 0
  · rw [if_pos hi, note]
    by_cases hgi : g = i / period
    · rw [if_pos hgi, hgi, show i / period * period = i by omega]
    · rw [if_neg hgi]
      refine h g (Nat.lt_of_le_of_ne (Nat.lt_succ_iff.mp hg) fun heq => hgi ?_)
      rw [← heq, Nat.mul_div_cancel _ hperiod]
  · rw [if_neg hi]
    refine h g (Nat.lt_of_le_of_ne (Nat.lt_succ_iff.mp hg) fun heq => hi ?_)
    rw [← heq, Nat.mul_mod_left]

theorem sampleBits_exact {period : ℕ} (hperiod : 0 < period) :
    ∀ {n i : ℕ} {sample : ℕ → ℕ}, Exact (ones b) period i sample →
      (sampleBits b period n i (ones b i) sample).1 = ones b (i + n)
        ∧ Exact (ones b) period (i + n) (sampleBits b period n i (ones b i) sample).2
  | 0, i, sample, h => ⟨rfl, h⟩
  | n + 1, i, sample, h => by
    have hrec := sampleBits_exact hperiod (n := n) (h.step hperiod)
    rwa [ones_succ, Nat.add_right_comm, Nat.add_assoc] at hrec

/-- The pass over bits counts all of them and takes exact samples. -/
theorem sampleBits_spec {period : ℕ} (hperiod : 0 < period) (n : ℕ) (sample : ℕ → ℕ) :
    (sampleBits b period n 0 0 sample).1 = ones b n
      ∧ Exact (ones b) period n (sampleBits b period n 0 0 sample).2 := by
  have h := @sampleBits_exact b _ hperiod n 0 sample
    fun g hg => absurd hg (Nat.not_lt_zero _)
  rwa [ones_zero, Nat.zero_add] at h

end Rank
