import Mathlib.Data.Nat.BitIndices
import Mathlib.NumberTheory.Padics.PadicVal.Basic
import Mathlib.Tactic.Common

/-!
# Skip lists by trailing zeros

Block `k` of such a list begins with one pointer for each `j` from `0` to the number of trailing
zeros of `k`, to the block `2 ^ j` before it; block `0` holds none. What is left of a block holds
data.

## Main definitions

* `CtzList.popc`, `CtzList.ctz` : set bits and trailing zeros.
* `CtzList.pointers`, `CtzList.before` : the bytes of a block that pointers take, and the data in
  the blocks before one.
* `CtzList.Place` : the block of a position and the offset in it.

## Main results

* `CtzList.popc_succ` : one more sets one bit for the ones that it clears.
* `CtzList.before_succ_eq` : the data before a block in closed form.
* `CtzList.place_corrected`, `CtzList.Place.unique` : the place of a position, by one division that
  is corrected once.
-/

namespace CtzList

/-! ### Bits -/

/-- The number of set bits. -/
def popc (n : ℕ) : ℕ := n.bitIndices.length

/-- The number of trailing zeros. -/
def ctz (n : ℕ) : ℕ := padicValNat 2 n

theorem popc_double (n : ℕ) : popc (2 * n) = popc n := by
  rw [popc, Nat.bitIndices_two_mul, List.length_map, popc]

theorem popc_double_succ (n : ℕ) : popc (2 * n + 1) = popc n + 1 := by
  rw [popc, Nat.bitIndices_two_mul_add_one, List.length_cons, List.length_map, popc]

@[simp] theorem popc_zero : popc 0 = 0 := by rw [popc, Nat.bitIndices_zero, List.length_nil]

theorem ctz_double {n : ℕ} (hn : n ≠ 0) : ctz (2 * n) = ctz n + 1 := by
  rw [ctz, padicValNat.mul (Nat.succ_ne_zero 1) hn, padicValNat.self Nat.one_lt_two, ctz,
    Nat.add_comm]

theorem ctz_double_succ (n : ℕ) : ctz (2 * n + 1) = 0 :=
  padicValNat.eq_zero_of_not_dvd (by omega)

theorem two_pow_ctz_dvd (n : ℕ) : 2 ^ ctz n ∣ n := pow_padicValNat_dvd

theorem two_pow_ctz_le {n : ℕ} (hn : n ≠ 0) : 2 ^ ctz n ≤ n :=
  Nat.le_of_dvd (Nat.pos_of_ne_zero hn) (two_pow_ctz_dvd n)

theorem popc_half (n : ℕ) : popc n = n % 2 + popc (n / 2) := by
  rcases Nat.mod_two_eq_zero_or_one n with h | h
  · have hn : n = 2 * (n / 2) := by omega
    rw [h, Nat.zero_add]
    exact (congrArg popc hn).trans (popc_double _)
  · have hn : n = 2 * (n / 2) + 1 := by omega
    rw [h, Nat.add_comm]
    exact (congrArg popc hn).trans (popc_double_succ _)

/-- One more sets one bit and clears the trailing ones, which are the trailing zeros after it. -/
theorem popc_succ (n : ℕ) : popc (n + 1) + ctz (n + 1) = popc n + 1 := by
  induction n using Nat.strongRecOn with
  | ind n ih =>
    rcases Nat.mod_two_eq_zero_or_one n with h | h
    · obtain ⟨k, rfl⟩ : ∃ k, n = 2 * k := ⟨n / 2, by omega⟩
      rw [popc_double_succ, ctz_double_succ, popc_double, Nat.add_zero]
    · obtain ⟨k, rfl⟩ : ∃ k, n = 2 * k + 1 := ⟨n / 2, by omega⟩
      have hk := ih k (by omega)
      have hnext : 2 * k + 1 + 1 = 2 * (k + 1) := by omega
      rw [hnext, popc_double, popc_double_succ, ctz_double k.succ_ne_zero, ← Nat.add_assoc]
      exact congrArg (· + 1) hk

theorem popc_le {n k : ℕ} (h : n < 2 ^ k) : popc n ≤ k := by
  induction k generalizing n with
  | zero =>
    rw [show n = 0 by omega, popc_zero]
  | succ k ih =>
    have hhalf := ih (n := n / 2) (by rw [Nat.pow_succ] at h; omega)
    rw [popc_half]
    omega

theorem ctz_lt {n k : ℕ} (hn : n ≠ 0) (h : n < 2 ^ k) : ctz n < k := by
  by_contra hle
  have hpow := Nat.pow_le_pow_right Nat.two_pos (Nat.le_of_not_lt hle)
  have hctz := two_pow_ctz_le hn
  omega

/-- The set bits of a number whose lower part has `k` bits. -/
theorem popc_split (n k : ℕ) : popc n = popc (n % 2 ^ k) + popc (n / 2 ^ k) := by
  induction k generalizing n with
  | zero => rw [Nat.pow_zero, Nat.mod_one, Nat.div_one, popc_zero, Nat.zero_add]
  | succ k ih =>
    have hmod : n % 2 ^ (k + 1) % 2 = n % 2 := by
      rw [Nat.pow_succ, Nat.mod_mul_left_mod]
    have hhalf : n % 2 ^ (k + 1) / 2 = n / 2 % 2 ^ k := by
      rw [Nat.pow_succ', Nat.mod_mul_right_div_self]
    rw [popc_half n, ih (n / 2), popc_half (n % 2 ^ (k + 1)), hmod, hhalf, Nat.div_div_eq_div_mul,
      ← Nat.pow_succ', Nat.add_assoc]

/-! ### Blocks -/

/-- The bytes that the pointers of block `k` take. -/
def pointers (k : ℕ) : ℕ := if k = 0 then 0 else 4 * (ctz k + 1)

/-- The data in the blocks before block `k`. -/
def before (size : ℕ) : ℕ → ℕ
  | 0 => 0
  | k + 1 => before size k + (size - pointers k)

/-- Byte `p` of the data is the byte at `off` of block `i`. -/
structure Place (size p i off : ℕ) : Prop where
  pointers_le : pointers i ≤ off
  off_lt : off < size
  eq_before : p = before size i + (off - pointers i)

variable {size : ℕ}

theorem before_mono {i j : ℕ} (h : i ≤ j) : before size i ≤ before size j := by
  induction h with
  | refl => exact Nat.le_refl _
  | step _ ih => exact Nat.le_trans ih (Nat.le_add_right _ _)

theorem Place.before_le {p i off : ℕ} (h : Place size p i off) : before size i ≤ p := by
  rw [h.eq_before]
  exact Nat.le_add_right _ _

theorem Place.lt_before {p i off : ℕ} (h : Place size p i off) : p < before size (i + 1) := by
  have hpointers := h.pointers_le
  have hoff := h.off_lt
  rw [h.eq_before, before]
  omega

theorem Place.le_of_le {p q i j off off' : ℕ} (h : Place size p i off) (h' : Place size q j off')
    (hle : p ≤ q) : i ≤ j := by
  by_contra hgt
  have hmono : before size (j + 1) ≤ before size i := before_mono (Nat.lt_of_not_le hgt)
  have hlt := h'.lt_before
  have hbefore := h.before_le
  omega

/-- A position lies in one block only. -/
theorem Place.unique {p i j off off' : ℕ} (h : Place size p i off) (h' : Place size p j off') :
    i = j ∧ off = off' := by
  have hij : i = j := Nat.le_antisymm (h.le_of_le h' (Nat.le_refl p)) (h'.le_of_le h (Nat.le_refl p))
  subst hij
  have heq := h.eq_before
  have heq' := h'.eq_before
  have hle := h.pointers_le
  have hle' := h'.pointers_le
  omega

theorem pointers_le_of_lt {k n : ℕ} (hk : k < 2 ^ n) : pointers k ≤ 4 * n := by
  rw [pointers]
  split_ifs with h
  · exact Nat.zero_le _
  · have hctz := ctz_lt h hk
    omega

/-- The data before a block in closed form, while the pointers leave room in each block. -/
theorem before_succ_eq {k n : ℕ} (hk : k < 2 ^ n) (hsize : 4 * n ≤ size) (h8 : 8 ≤ size) :
    before size (k + 1) = (size - 8) * (k + 1) + 8 + 4 * popc k := by
  induction k with
  | zero =>
    rw [before, before, pointers, if_pos rfl, popc_zero]
    omega
  | succ k ih =>
    have hle := pointers_le_of_lt hk
    have hpopc := popc_succ k
    rw [before, ih (Nat.lt_of_succ_lt hk), Nat.mul_succ (size - 8) (k + 1)]
    rw [pointers, if_neg (Nat.succ_ne_zero k)] at hle ⊢
    omega

/-- The block of position `p`, from the block that its quotient by `b` names. -/
def corrected (b p : ℕ) : ℕ := (p - 4 * (popc (p / b - 1) + 2)) / b

theorem place_first {p : ℕ} (hsize : 8 < size) (h : p / (size - 8) = 0) : Place size p 0 p where
  pointers_le := Nat.zero_le p
  off_lt := by
    have hlt := (Nat.div_eq_zero_iff_lt (by omega)).mp h
    omega
  eq_before := by rw [before, pointers, if_pos rfl, Nat.sub_zero, Nat.zero_add]

/-- A position between the closed forms of a block and the next one. -/
theorem place_of_bounds {b p k n : ℕ} (hk : k + 1 < 2 ^ n) (hb : 4 * n ≤ b)
    (hle : b * (k + 1) + 8 + 4 * popc k ≤ p)
    (hlt : p < b * (k + 1) + b + 8 + 4 * popc (k + 1)) :
    b * (k + 1) + 4 * popc (k + 1) ≤ p
      ∧ Place (b + 8) p (k + 1) (p - b * (k + 1) - 4 * popc (k + 1)) := by
  have hpopc := popc_succ k
  have hbefore : before (b + 8) (k + 1) = (b + 8 - 8) * (k + 1) + 8 + 4 * popc k :=
    before_succ_eq (Nat.lt_of_succ_lt hk) (by omega) (by omega)
  rw [Nat.add_sub_cancel] at hbefore
  have hpointers : pointers (k + 1) = 4 * (ctz (k + 1) + 1) := if_neg k.succ_ne_zero
  generalize b * (k + 1) = m at *
  refine ⟨by omega, ⟨?_, by omega, ?_⟩⟩
  · rw [hpointers]
    omega
  · rw [hpointers, hbefore]
    omega

/-- The quotient by the common size of the blocks names the block of a position or the one behind
it, and the corrected quotient names the block. -/
theorem place_corrected {b p n : ℕ} (hn : p / b < 2 ^ n) (hb : 4 * n + 12 ≤ b) (h : p / b ≠ 0) :
    4 * (popc (p / b - 1) + 2) ≤ p ∧ b * corrected b p + 4 * popc (corrected b p) ≤ p
      ∧ Place (b + 8) p (corrected b p) (p - b * corrected b p - 4 * popc (corrected b p)) := by
  obtain ⟨k, hk⟩ : ∃ k, p / b = k + 1 := Nat.exists_eq_succ_of_ne_zero h
  have hk' : k + 1 < 2 ^ n := hk ▸ hn
  have hpopc : popc k ≤ n := popc_le (Nat.lt_of_succ_lt hk')
  have hle : b * (k + 1) ≤ p := hk ▸ Nat.mul_div_le p b
  have hlt : p < b * (k + 1) + b := by
    rw [← hk, ← Nat.mul_succ]
    exact Nat.lt_mul_div_succ p (by omega)
  have hsub : 4 * (popc k + 2) ≤ p := by
    have hmul : b ≤ b * (k + 1) := Nat.le_mul_of_pos_right b k.succ_pos
    omega
  rw [corrected, hk, Nat.add_sub_cancel]
  refine ⟨hsub, ?_⟩
  by_cases hbehind : b * (k + 1) + 8 + 4 * popc k ≤ p
  · -- the quotient names the block itself
    have hquot : (p - 4 * (popc k + 2)) / b = k + 1 := by
      refine Nat.div_eq_of_lt_le ?_ ?_
      · rw [Nat.mul_comm (k + 1) b]
        omega
      · rw [Nat.succ_mul (k + 1), Nat.mul_comm (k + 1) b]
        omega
    rw [hquot]
    exact place_of_bounds hk' (by omega) hbehind (by omega)
  · -- the pointers before push the position into the block before
    have hquot : (p - 4 * (popc k + 2)) / b = k := by
      refine Nat.div_eq_of_lt_le ?_ ?_
      · rw [Nat.mul_succ] at hle
        rw [Nat.mul_comm k b]
        omega
      · rw [Nat.mul_comm (k + 1) b]
        omega
    rw [hquot]
    cases k with
    | zero =>
      rw [popc_zero, Nat.mul_zero, Nat.mul_zero, Nat.sub_zero, Nat.sub_zero]
      rw [popc_zero, Nat.zero_add, Nat.mul_one] at hbehind
      refine ⟨Nat.zero_le p, ⟨Nat.zero_le p, by omega, ?_⟩⟩
      rw [before, pointers, if_pos rfl, Nat.sub_zero, Nat.zero_add]
    | succ k =>
      have hprev : popc k ≤ n := popc_le (by omega)
      have hstep := popc_succ k
      rw [Nat.mul_succ] at hle hbehind
      exact place_of_bounds (Nat.lt_of_succ_lt hk') (by omega) (by omega) (by omega)

end CtzList
