import FsRover.Fs.LittlefsDir
import FsRover.Lib.CtzList
import FsRover.Lib.History
import FsRover.Lib.Loop

/-!
# Files of several blocks

A file that does not fit into its pair is a skip list: each block but the first begins with pointers
to blocks before it, and the directory names the last one. The block of a position comes from a
division that is corrected by a count of bits; the pointers lead to it from the last block.

## Main definitions

* `FsRover.littlefsPopc`, `FsRover.littlefsNpw2`, `FsRover.littlefsCtz` : bits of 32-bit numbers.
* `FsRover.LittlefsCtzFile` : a file whose blocks hold the pointers of the format.

## Main results

* `FsRover.littlefs_ctz_exact` : the index is exact, and reads give the bytes of the file.
-/

namespace FsRover

def LITTLEFS_MIN_BLOCK_SIZE : ℕ := 128
def LITTLEFS_MAX_BLOCK_SIZE : ℕ := 8 * 2 ^ 20

theorem littlefs_file_max_lt : LITTLEFS_FILE_MAX < 2 ^ 32 := by
  rw [LITTLEFS_FILE_MAX]
  omega

theorem littlefs_block_size_le : LITTLEFS_MAX_BLOCK_SIZE ≤ 2 ^ 31 := by
  rw [LITTLEFS_MAX_BLOCK_SIZE]
  omega

/-! ### Bits -/

/-- `littlefs_popc`. -/
def littlefsPopc (a : ℕ) : ℕ :=
  let a := sub32 a (a / 2 &&& 0x55555555)
  let a := u32 ((a &&& 0x33333333) + (a / 4 &&& 0x33333333))
  u32 ((u32 (a + a / 16) &&& 0x0f0f0f0f) * 0x01010101) / 2 ^ 24

/-- `littlefs_npw2`. -/
def littlefsNpw2 (a : ℕ) : ℕ :=
  let a := sub32 a 1
  let s := if 0xffff < a then 16 else 0
  let r := s
  let a := a / 2 ^ s
  let s := if 0xff < a then 8 else 0
  let r := r ||| s
  let a := a / 2 ^ s
  let s := if 0xf < a then 4 else 0
  let r := r ||| s
  let a := a / 2 ^ s
  let s := if 0x3 < a then 2 else 0
  let r := r ||| s
  let a := a / 2 ^ s
  u32 ((r ||| a / 2) + 1)

/-- `littlefs_ctz`. -/
def littlefsCtz (a : ℕ) : ℕ :=
  sub32 (littlefsNpw2 (u32 ((a &&& u32 (2 ^ 32 - 1 - a + 1)) + 1))) 1

/-- Four bytes as a number of 32 bits. -/
def word (a b c d : ℕ) : ℕ := a + 256 * (b + 256 * (c + 256 * d))

theorem land_split (x y t : ℕ) :
    x &&& y = (x % 2 ^ t &&& y % 2 ^ t) + 2 ^ t * (x / 2 ^ t &&& y / 2 ^ t) := by
  rw [← Nat.and_mod_two_pow, ← Nat.and_div_two_pow, Nat.mod_add_div]

theorem land_byte {a b c d : ℕ} (ha : a < 256) (hc : c < 256) :
    a + 256 * b &&& c + 256 * d = (a &&& c) + 256 * (b &&& d) := by
  have hab : (a + 256 * b) % 2 ^ 8 = a ∧ (a + 256 * b) / 2 ^ 8 = b := by omega
  have hcd : (c + 256 * d) % 2 ^ 8 = c ∧ (c + 256 * d) / 2 ^ 8 = d := by omega
  rw [land_split _ _ 8, hab.1, hab.2, hcd.1, hcd.2, show 2 ^ 8 = 256 from rfl]

theorem land_word {a b c d m : ℕ} (ha : a < 256) (hb : b < 256) (hc : c < 256) (hm : m < 256) :
    word a b c d &&& word m m m m = word (a &&& m) (b &&& m) (c &&& m) (d &&& m) := by
  rw [word, word, land_byte ha hm, land_byte hb hm, land_byte hc hm, word]

theorem word_add (a b c d a' b' c' d' : ℕ) :
    word a b c d + word a' b' c' d' = word (a + a') (b + b') (c + c') (d + d') := by
  rw [word, word, word]
  omega

theorem word_lt {a b c d : ℕ} (ha : a < 256) (hb : b < 256) (hc : c < 256) (hd : d < 256) :
    word a b c d < 2 ^ 32 := by
  rw [word]
  omega

theorem word_sixteenth (a b c d b' c' d' : ℕ) {a' : ℕ} (ha' : a' < 16) :
    word (16 * a + a') (16 * b + b') (16 * c + c') (16 * d + d') / 16
      = word (a + 16 * b') (b + 16 * c') (c + 16 * d') d := by
  have hword : word (16 * a + a') (16 * b + b') (16 * c + c') (16 * d + d')
      = 16 * word (a + 16 * b') (b + 16 * c') (c + 16 * d') d + a' := by
    rw [word, word]
    omega
  rw [hword, Nat.mul_add_div (by decide), Nat.div_eq_of_lt ha', Nat.add_zero]

theorem exists_word {a : ℕ} (ha : a < 2 ^ 32) : ∃ b0 b1 b2 b3, b0 < 256 ∧ b1 < 256 ∧ b2 < 256
    ∧ b3 < 256 ∧ a = word b0 b1 b2 b3 := by
  refine ⟨a % 256, a / 256 % 256, a / 65536 % 256, a / 16777216, by omega, by omega, by omega,
    by omega, ?_⟩
  rw [word]
  omega

/-- The bits that a shift brings in from the next byte are masked. -/
theorem byte_masks : ∀ x < 256, ∀ c < 4,
    (x / 2 + 128 * (c % 2) &&& 0x55) = (x / 2 &&& 0x55)
    ∧ (x / 4 + 64 * c &&& 0x33) = (x / 4 &&& 0x33)
    ∧ x / 2 + 128 * (c % 2) < 256 ∧ x / 4 + 64 * c < 256 := by
  decide +kernel

/-- The three steps on one byte. -/
def bytePairs (x : ℕ) : ℕ := x - (x / 2 &&& 0x55)
def byteNibbles (x : ℕ) : ℕ := (bytePairs x &&& 0x33) + (bytePairs x / 4 &&& 0x33)
def byteOnes (x : ℕ) : ℕ := byteNibbles x + byteNibbles x / 16 &&& 0x0f

theorem byte_steps : ∀ x < 256, (x / 2 &&& 0x55) ≤ x
    ∧ (byteNibbles x / 16 ≤ 4 ∧ byteNibbles x % 16 ≤ 4)
    ∧ byteOnes x = x % 2 + (x / 2 % 2 + (x / 2 / 2 % 2 + (x / 2 / 2 / 2 % 2
      + (x / 2 / 2 / 2 / 2 % 2 + (x / 2 / 2 / 2 / 2 / 2 % 2 + (x / 2 / 2 / 2 / 2 / 2 / 2 % 2
      + (x / 2 / 2 / 2 / 2 / 2 / 2 / 2 % 2 + 0)))))))
    ∧ x / 2 / 2 / 2 / 2 / 2 / 2 / 2 / 2 = 0 ∧ byteOnes x ≤ 8 := by
  decide +kernel

/-- The high nibble of a sum of nibbles is masked, whatever the next byte brings in. -/
theorem nibble_masks : ∀ x < 0x45, ∀ c < 5,
    (x + x / 16 + 16 * c &&& 0x0f) = (x + x / 16 &&& 0x0f) ∧ x + x / 16 + 16 * c < 256 := by
  decide

section Word

variable {b0 b1 b2 b3 : ℕ} (h0 : b0 < 256) (h1 : b1 < 256) (h2 : b2 < 256) (h3 : b3 < 256)

include h0 h1 h2 h3

theorem word_half_land : word b0 b1 b2 b3 / 2 &&& 0x55555555
    = word (b0 / 2 &&& 0x55) (b1 / 2 &&& 0x55) (b2 / 2 &&& 0x55) (b3 / 2 &&& 0x55) := by
  have hmask : (0x55555555 : ℕ) = word 0x55 0x55 0x55 0x55 := rfl
  have hhalf : word b0 b1 b2 b3 / 2 = word (b0 / 2 + 128 * (b1 % 4 % 2))
      (b1 / 2 + 128 * (b2 % 4 % 2)) (b2 / 2 + 128 * (b3 % 4 % 2)) (b3 / 2 + 128 * (0 % 2)) := by
    rw [word, word]
    omega
  obtain ⟨hm0, -, hl0, -⟩ := byte_masks b0 h0 (b1 % 4) (by omega)
  obtain ⟨hm1, -, hl1, -⟩ := byte_masks b1 h1 (b2 % 4) (by omega)
  obtain ⟨hm2, -, hl2, -⟩ := byte_masks b2 h2 (b3 % 4) (by omega)
  obtain ⟨hm3, -⟩ := byte_masks b3 h3 0 (by omega)
  rw [hmask, hhalf, land_word hl0 hl1 hl2 (by omega), hm0, hm1, hm2, hm3]

theorem word_quarter_land : word b0 b1 b2 b3 / 4 &&& 0x33333333
    = word (b0 / 4 &&& 0x33) (b1 / 4 &&& 0x33) (b2 / 4 &&& 0x33) (b3 / 4 &&& 0x33) := by
  have hmask : (0x33333333 : ℕ) = word 0x33 0x33 0x33 0x33 := rfl
  have hquarter : word b0 b1 b2 b3 / 4 = word (b0 / 4 + 64 * (b1 % 4)) (b1 / 4 + 64 * (b2 % 4))
      (b2 / 4 + 64 * (b3 % 4)) (b3 / 4 + 64 * 0) := by
    rw [word, word]
    omega
  obtain ⟨-, hm0, -, hl0⟩ := byte_masks b0 h0 (b1 % 4) (by omega)
  obtain ⟨-, hm1, -, hl1⟩ := byte_masks b1 h1 (b2 % 4) (by omega)
  obtain ⟨-, hm2, -, hl2⟩ := byte_masks b2 h2 (b3 % 4) (by omega)
  obtain ⟨-, hm3, -⟩ := byte_masks b3 h3 0 (by omega)
  rw [hmask, hquarter, land_word hl0 hl1 hl2 (by omega), hm0, hm1, hm2, hm3]

theorem word_pairs : sub32 (word b0 b1 b2 b3) (word b0 b1 b2 b3 / 2 &&& 0x55555555)
    = word (bytePairs b0) (bytePairs b1) (bytePairs b2) (bytePairs b3) := by
  obtain ⟨hle0, -⟩ := byte_steps b0 h0
  obtain ⟨hle1, -⟩ := byte_steps b1 h1
  obtain ⟨hle2, -⟩ := byte_steps b2 h2
  obtain ⟨hle3, -⟩ := byte_steps b3 h3
  rw [word_half_land h0 h1 h2 h3, bytePairs, bytePairs, bytePairs, bytePairs]
  generalize (b0 / 2 &&& 0x55) = e0 at *
  generalize (b1 / 2 &&& 0x55) = e1 at *
  generalize (b2 / 2 &&& 0x55) = e2 at *
  generalize (b3 / 2 &&& 0x55) = e3 at *
  rw [sub32_of_le (by rw [word, word]; omega) (by rw [word]; omega), word, word, word]
  omega

theorem word_nibbles : u32 ((word (bytePairs b0) (bytePairs b1) (bytePairs b2) (bytePairs b3)
      &&& 0x33333333)
      + (word (bytePairs b0) (bytePairs b1) (bytePairs b2) (bytePairs b3) / 4 &&& 0x33333333))
    = word (byteNibbles b0) (byteNibbles b1) (byteNibbles b2) (byteNibbles b3) := by
  have hmask : (0x33333333 : ℕ) = word 0x33 0x33 0x33 0x33 := rfl
  have hlt : ∀ b < 256, bytePairs b < 256 := fun b hb => Nat.lt_of_le_of_lt (Nat.sub_le _ _) hb
  obtain ⟨-, hn0, -⟩ := byte_steps b0 h0
  obtain ⟨-, hn1, -⟩ := byte_steps b1 h1
  obtain ⟨-, hn2, -⟩ := byte_steps b2 h2
  obtain ⟨-, hn3, -⟩ := byte_steps b3 h3
  rw [word_quarter_land (hlt b0 h0) (hlt b1 h1) (hlt b2 h2) (hlt b3 h3), hmask,
    land_word (hlt b0 h0) (hlt b1 h1) (hlt b2 h2) (by omega)]
  rw [byteNibbles] at hn0 hn1 hn2 hn3
  rw [u32_of_lt (by rw [word, word]; omega), word, word, word, byteNibbles, byteNibbles,
    byteNibbles, byteNibbles]
  omega

theorem word_ones : u32 (word (byteNibbles b0) (byteNibbles b1) (byteNibbles b2) (byteNibbles b3)
      + word (byteNibbles b0) (byteNibbles b1) (byteNibbles b2) (byteNibbles b3) / 16)
      &&& 0x0f0f0f0f
    = word (byteOnes b0) (byteOnes b1) (byteOnes b2) (byteOnes b3) := by
  have hmask : (0x0f0f0f0f : ℕ) = word 0x0f 0x0f 0x0f 0x0f := rfl
  obtain ⟨-, hn0, -⟩ := byte_steps b0 h0
  obtain ⟨-, hn1, -⟩ := byte_steps b1 h1
  obtain ⟨-, hn2, -⟩ := byte_steps b2 h2
  obtain ⟨-, hn3, -⟩ := byte_steps b3 h3
  rw [byteOnes, byteOnes, byteOnes, byteOnes]
  generalize byteNibbles b0 = q0 at *
  generalize byteNibbles b1 = q1 at *
  generalize byteNibbles b2 = q2 at *
  generalize byteNibbles b3 = q3 at *
  have hshift := word_sixteenth (q0 / 16) (q1 / 16) (q2 / 16) (q3 / 16) (q1 % 16) (q2 % 16)
    (q3 % 16) (Nat.mod_lt q0 (by decide : 0 < 16))
  rw [Nat.div_add_mod, Nat.div_add_mod, Nat.div_add_mod, Nat.div_add_mod] at hshift
  have hsum : u32 (word q0 q1 q2 q3 + word q0 q1 q2 q3 / 16)
      = word (q0 + q0 / 16 + 16 * (q1 % 16)) (q1 + q1 / 16 + 16 * (q2 % 16))
        (q2 + q2 / 16 + 16 * (q3 % 16)) (q3 + q3 / 16 + 16 * 0) := by
    rw [hshift, word_add]
    refine (u32_of_lt ?_).trans ?_
    · refine word_lt ?_ ?_ ?_ ?_ <;> omega
    · congr 1 <;> omega
  obtain ⟨hm0, hl0⟩ := nibble_masks q0 (by omega) (q1 % 16) (by omega)
  obtain ⟨hm1, hl1⟩ := nibble_masks q1 (by omega) (q2 % 16) (by omega)
  obtain ⟨hm2, hl2⟩ := nibble_masks q2 (by omega) (q3 % 16) (by omega)
  obtain ⟨hm3, -⟩ := nibble_masks q3 (by omega) 0 (by omega)
  rw [hsum, hmask, land_word hl0 hl1 hl2 (by omega), hm0, hm1, hm2, hm3]

end Word

theorem popc_byte {x : ℕ} (hx : x < 256) : CtzList.popc x = byteOnes x := by
  obtain ⟨-, -, hones, hzero, -⟩ := byte_steps x hx
  rw [hones, CtzList.popc_half, CtzList.popc_half (x / 2), CtzList.popc_half (x / 2 / 2),
    CtzList.popc_half (x / 2 / 2 / 2), CtzList.popc_half (x / 2 / 2 / 2 / 2),
    CtzList.popc_half (x / 2 / 2 / 2 / 2 / 2), CtzList.popc_half (x / 2 / 2 / 2 / 2 / 2 / 2),
    CtzList.popc_half (x / 2 / 2 / 2 / 2 / 2 / 2 / 2), hzero, CtzList.popc_zero]

theorem popc_word {b0 b1 b2 b3 : ℕ} (h0 : b0 < 256) (h1 : b1 < 256) (h2 : b2 < 256) :
    CtzList.popc (word b0 b1 b2 b3)
      = CtzList.popc b0 + (CtzList.popc b1 + (CtzList.popc b2 + CtzList.popc b3)) := by
  have hsplit : ∀ a < 256, ∀ b, CtzList.popc (a + 256 * b) = CtzList.popc a + CtzList.popc b := by
    intro a ha b
    have hmod : (a + 256 * b) % 2 ^ 8 = a := by omega
    have hdiv : (a + 256 * b) / 2 ^ 8 = b := by omega
    rw [CtzList.popc_split _ 8, hmod, hdiv]
  rw [word, hsplit b0 h0, hsplit b1 h1, hsplit b2 h2]

/-- `littlefs_popc` counts the set bits; its product drops all but the sum of the bytes. -/
theorem littlefsPopc_eq {a : ℕ} (ha : a < 2 ^ 32) : littlefsPopc a = CtzList.popc a := by
  obtain ⟨b0, b1, b2, b3, h0, h1, h2, h3, rfl⟩ := exists_word ha
  rw [littlefsPopc, word_pairs h0 h1 h2 h3, word_nibbles h0 h1 h2 h3, word_ones h0 h1 h2 h3, popc_word h0 h1 h2,
    popc_byte h0, popc_byte h1, popc_byte h2, popc_byte h3]
  obtain ⟨-, -, -, -, hle0⟩ := byte_steps b0 h0
  obtain ⟨-, -, -, -, hle1⟩ := byte_steps b1 h1
  obtain ⟨-, -, -, -, hle2⟩ := byte_steps b2 h2
  obtain ⟨-, -, -, -, hle3⟩ := byte_steps b3 h3
  generalize byteOnes b0 = r0 at *
  generalize byteOnes b1 = r1 at *
  generalize byteOnes b2 = r2 at *
  generalize byteOnes b3 = r3 at *
  have hproduct : word r0 r1 r2 r3 * 0x01010101
      = 2 ^ 32 * (r1 + r2 + r3 + 256 * (r2 + r3 + 256 * r3))
        + (2 ^ 24 * (r0 + (r1 + (r2 + r3))) + (r0 + 256 * (r0 + r1 + 256 * (r0 + r1 + r2)))) := by
    rw [word]
    omega
  rw [hproduct, u32, Nat.mul_add_mod, Nat.mod_eq_of_lt (by omega), Nat.mul_add_div (by decide),
    Nat.div_eq_of_lt (by omega), Nat.add_zero]

/-! ### Logarithms -/

/-- The shift of one step of `littlefs_npw2`, and what it leaves. -/
def npw2Shift (k a : ℕ) : ℕ := if 2 ^ k - 1 < a then k else 0
def npw2Rest (k a : ℕ) : ℕ := a / 2 ^ npw2Shift k a

theorem npw2Shift_cases (k a : ℕ) : npw2Shift k a = 0 ∨ npw2Shift k a = k := by
  rw [npw2Shift]
  split_ifs
  · exact .inr rfl
  · exact .inl rfl

theorem npw2Rest_ne_zero {a : ℕ} (k : ℕ) (ha : a ≠ 0) : npw2Rest k a ≠ 0 := by
  rw [npw2Rest, npw2Shift]
  split_ifs with h
  · exact Nat.ne_of_gt (Nat.div_pos (Nat.le_of_pred_lt h) (Nat.two_pow_pos k))
  · rwa [Nat.pow_zero, Nat.div_one]

theorem log2_shift {a : ℕ} (k : ℕ) (ha : a ≠ 0) :
    a.log2 = npw2Shift k a + (npw2Rest k a).log2 := by
  have hne := npw2Rest_ne_zero k ha
  have hpos := Nat.two_pow_pos (npw2Shift k a)
  obtain ⟨hlow, hhigh⟩ := (Nat.log2_eq_iff hne).mp rfl
  rw [Nat.log2_eq_iff ha, Nat.add_assoc, Nat.pow_add, Nat.pow_add, Nat.mul_comm,
    Nat.mul_comm (2 ^ npw2Shift k a) (2 ^ (_ + 1))]
  exact ⟨(Nat.le_div_iff_mul_le hpos).mp hlow, (Nat.div_lt_iff_lt_mul hpos).mp hhigh⟩

theorem npw2Rest_lt {k a : ℕ} (h : a < 2 ^ (k + k)) : npw2Rest k a < 2 ^ k := by
  have hpos := Nat.two_pow_pos k
  rw [npw2Rest, npw2Shift]
  split_ifs with hlt
  · rw [Nat.div_lt_iff_lt_mul hpos, ← Nat.pow_add]
    exact h
  · rw [Nat.pow_zero, Nat.div_one]
    omega

theorem lor_shifts {s t u v w : ℕ} (hs : s = 0 ∨ s = 16) (ht : t = 0 ∨ t = 8) (hu : u = 0 ∨ u = 4)
    (hv : v = 0 ∨ v = 2) (hw : w = 0 ∨ w = 1) : (((s ||| t) ||| u) ||| v) ||| w = s + (t + (u + (v + w))) := by
  rcases hs with rfl | rfl <;> rcases ht with rfl | rfl <;> rcases hu with rfl | rfl <;>
    rcases hv with rfl | rfl <;> rcases hw with rfl | rfl <;> rfl

theorem littlefsNpw2_shifts {n : ℕ} (hn : n < 2 ^ 32) : littlefsNpw2 (u32 (n + 1))
    = u32 ((npw2Shift 16 n ||| npw2Shift 8 (npw2Rest 16 n)
      ||| npw2Shift 4 (npw2Rest 8 (npw2Rest 16 n))
      ||| npw2Shift 2 (npw2Rest 4 (npw2Rest 8 (npw2Rest 16 n)))
      ||| npw2Rest 2 (npw2Rest 4 (npw2Rest 8 (npw2Rest 16 n))) / 2) + 1) := by
  have hpred : sub32 (u32 (n + 1)) 1 = n := by
    rw [sub32, u32]
    omega
  rw [littlefsNpw2, hpred]
  rfl

/-- `littlefs_npw2` of one more than `n` is one more than the logarithm of `n`. -/
theorem littlefsNpw2_eq {n : ℕ} (hpos : n ≠ 0) (hn : n < 2 ^ 32) :
    littlefsNpw2 (u32 (n + 1)) = n.log2 + 1 := by
  have hlast : ∀ a < 4, a ≠ 0 → a.log2 = a / 2 ∧ (a / 2 = 0 ∨ a / 2 = 1) := by decide
  have hlog := log2_shift 16 hpos
  have hlt : npw2Rest 16 n < 2 ^ 16 := npw2Rest_lt hn
  rw [littlefsNpw2_shifts hn, hlog, log2_shift 8 (npw2Rest_ne_zero 16 hpos)]
  have hne := npw2Rest_ne_zero 8 (npw2Rest_ne_zero 16 hpos)
  have hlt8 : npw2Rest 8 (npw2Rest 16 n) < 2 ^ 8 := npw2Rest_lt hlt
  generalize npw2Rest 8 (npw2Rest 16 n) = a at *
  have hlt4 : npw2Rest 4 a < 2 ^ 4 := npw2Rest_lt hlt8
  have hlt2 : npw2Rest 2 (npw2Rest 4 a) < 2 ^ 2 := npw2Rest_lt hlt4
  have hne2 := npw2Rest_ne_zero 2 (npw2Rest_ne_zero 4 hne)
  obtain ⟨hhalf, hbit⟩ := hlast _ hlt2 hne2
  rw [log2_shift 4 hne, log2_shift 2 (npw2Rest_ne_zero 4 hne), hhalf,
    lor_shifts (npw2Shift_cases 16 n) (npw2Shift_cases 8 _) (npw2Shift_cases 4 _)
      (npw2Shift_cases 2 _) hbit]
  refine u32_of_lt ?_
  have h16 := npw2Shift_cases 16 n
  have h8 := npw2Shift_cases 8 (npw2Rest 16 n)
  have h4 := npw2Shift_cases 4 a
  have h2 := npw2Shift_cases 2 (npw2Rest 4 a)
  omega

theorem land_complement {k q : ℕ} (hq : q < 2 ^ k) : q &&& (2 ^ k - 1 - q) = 0 := by
  induction k generalizing q with
  | zero =>
    rw [show q = 0 by omega, Nat.zero_and]
  | succ k ih =>
    rw [Nat.pow_succ] at hq ⊢
    have hhalf : (2 ^ k * 2 - 1 - q) / 2 = 2 ^ k - 1 - q / 2 := by omega
    rw [land_split _ _ 1, Nat.pow_one, hhalf, ih (by omega), Nat.mul_zero, Nat.add_zero]
    rcases Nat.mod_two_eq_zero_or_one q with h | h
    · rw [h, Nat.zero_and]
    · rw [show (2 ^ k * 2 - 1 - q) % 2 = 0 by omega, Nat.and_zero]

/-- A number and its negation share the lowest set bit only. -/
theorem land_neg {k a : ℕ} (ha : a ≠ 0) (hlt : a < 2 ^ k) : a &&& (2 ^ k - a) = 2 ^ CtzList.ctz a := by
  induction k generalizing a with
  | zero => omega
  | succ k ih =>
    rw [Nat.pow_succ] at hlt ⊢
    rcases Nat.mod_two_eq_zero_or_one a with h | h
    · obtain ⟨b, rfl⟩ : ∃ b, a = 2 * b := ⟨a / 2, by omega⟩
      have hhalf : (2 ^ k * 2 - 2 * b) / 2 = 2 ^ k - b := by omega
      rw [land_split _ _ 1, Nat.pow_one, h, Nat.zero_and, hhalf, Nat.mul_div_cancel_left _ Nat.two_pos,
        ih (by omega) (by omega), CtzList.ctz_double (by omega), Nat.pow_succ, Nat.zero_add,
        Nat.mul_comm]
    · obtain ⟨q, rfl⟩ : ∃ q, a = 2 * q + 1 := ⟨a / 2, by omega⟩
      have hhalf : (2 ^ k * 2 - (2 * q + 1)) / 2 = 2 ^ k - 1 - q := by omega
      have hodd : (2 ^ k * 2 - (2 * q + 1)) % 2 = 1 := by omega
      have hq : (2 * q + 1) / 2 = q := by omega
      rw [land_split _ _ 1, Nat.pow_one, h, hodd, hhalf, hq, land_complement (by omega),
        CtzList.ctz_double_succ, Nat.mul_zero, Nat.and_self, Nat.pow_zero]

/-- `littlefs_ctz` counts the trailing zeros. -/
theorem littlefsCtz_eq {a : ℕ} (ha : a ≠ 0) (hlt : a < 2 ^ 32) : littlefsCtz a = CtzList.ctz a := by
  have hctz := CtzList.ctz_lt ha hlt
  have hpow : 2 ^ CtzList.ctz a < 2 ^ 32 := Nat.pow_lt_pow_right Nat.one_lt_two hctz
  have hneg : u32 (2 ^ 32 - 1 - a + 1) = 2 ^ 32 - a := by
    rw [u32]
    omega
  rw [littlefsCtz, hneg, land_neg ha hlt, littlefsNpw2_eq (Nat.ne_of_gt (Nat.two_pow_pos _)) hpow,
    Nat.log2_two_pow, sub32_of_le (by omega) (by omega), Nat.add_sub_cancel]

/-! ### The index -/

/-- `littlefs_ctz_index`: the block of a position, and the offset in it. -/
def littlefsCtzIndex (blockSize off : ℕ) : ℕ × ℕ :=
  let b := sub32 blockSize (2 * 4)
  let i := off / b
  if i = 0 then (0, off)
  else
    let i := sub32 off (u32 (4 * u32 (littlefsPopc (sub32 i 1) + 2))) / b
    (i, sub32 (sub32 off (u32 (b * i))) (u32 (4 * littlefsPopc i)))

/-- No step of `littlefs_ctz_index` leaves the 32 bits or goes below zero. -/
def LittlefsCtzFits (blockSize off : ℕ) : Prop :=
  let b := blockSize - 2 * 4
  let i := CtzList.corrected b off
  2 * 4 < blockSize ∧ (off / b ≠ 0 → 4 * (littlefsPopc (off / b - 1) + 2) ≤ off
    ∧ b * i + 4 * littlefsPopc i ≤ off)

section Index

variable {blockSize p : ℕ} (hmin : LITTLEFS_MIN_BLOCK_SIZE ≤ blockSize)
  (hmax : blockSize ≤ LITTLEFS_MAX_BLOCK_SIZE) (hp : p < LITTLEFS_FILE_MAX)

include hmin hp

theorem littlefs_div_lt : p / (blockSize - 8) < 2 ^ 25 := by
  rw [LITTLEFS_MIN_BLOCK_SIZE] at hmin
  rw [LITTLEFS_FILE_MAX] at hp
  rw [Nat.div_lt_iff_lt_mul (by omega)]
  omega

theorem littlefsCtzFits : LittlefsCtzFits blockSize p := by
  have hdiv := littlefs_div_lt hmin hp
  have hmin' := hmin
  rw [LITTLEFS_MIN_BLOCK_SIZE] at hmin'
  refine ⟨by omega, fun h0 => ?_⟩
  obtain ⟨hsub, hfit, -⟩ := CtzList.place_corrected hdiv (by omega) h0
  have hle : CtzList.corrected (blockSize - 8) p ≤ p :=
    Nat.le_trans (Nat.div_le_self _ _) (Nat.sub_le _ _)
  rw [LITTLEFS_FILE_MAX] at hp
  have hprev : littlefsPopc (p / (blockSize - 8) - 1) = CtzList.popc (p / (blockSize - 8) - 1) :=
    littlefsPopc_eq (Nat.lt_of_le_of_lt (Nat.sub_le _ 1) (Nat.lt_trans hdiv (by decide)))
  have hhere : littlefsPopc (CtzList.corrected (blockSize - 8) p)
      = CtzList.popc (CtzList.corrected (blockSize - 8) p) :=
    littlefsPopc_eq (Nat.lt_of_le_of_lt hle (Nat.lt_trans hp (by decide)))
  rw [hprev, hhere]
  exact ⟨hsub, hfit⟩

include hmax

/-- The index is computed without a wrap, and is the corrected quotient. -/
theorem littlefsCtzIndex_eq : littlefsCtzIndex blockSize p
    = if p / (blockSize - 8) = 0 then (0, p)
      else (CtzList.corrected (blockSize - 8) p, p - (blockSize - 8)
        * CtzList.corrected (blockSize - 8) p
        - 4 * CtzList.popc (CtzList.corrected (blockSize - 8) p)) := by
  have hdiv := littlefs_div_lt hmin hp
  rw [LITTLEFS_MIN_BLOCK_SIZE] at hmin
  rw [LITTLEFS_MAX_BLOCK_SIZE] at hmax
  rw [LITTLEFS_FILE_MAX] at hp
  have hb : sub32 blockSize (2 * 4) = blockSize - 8 := sub32_of_le (by omega) (by omega)
  rw [littlefsCtzIndex, hb]
  by_cases h0 : p / (blockSize - 8) = 0
  · rw [if_pos h0, if_pos h0]
  · rw [if_neg h0, if_neg h0]
    obtain ⟨hsub, hfit, -⟩ := CtzList.place_corrected hdiv (by omega) h0
    have hpopc : CtzList.popc (p / (blockSize - 8) - 1) ≤ 25 :=
      CtzList.popc_le (Nat.lt_of_le_of_lt (Nat.sub_le _ 1) hdiv)
    have hprev : sub32 (p / (blockSize - 8)) 1 = p / (blockSize - 8) - 1 :=
      sub32_of_le (Nat.pos_of_ne_zero h0) (Nat.lt_trans hdiv (by decide))
    have hcorrected : sub32 p (u32 (4 * u32 (littlefsPopc (sub32 (p / (blockSize - 8)) 1) + 2)))
        / (blockSize - 8) = CtzList.corrected (blockSize - 8) p := by
      rw [hprev, littlefsPopc_eq (Nat.lt_of_le_of_lt (Nat.sub_le _ 1)
        (Nat.lt_trans hdiv (by decide)))]
      have hsum : u32 (CtzList.popc (p / (blockSize - 8) - 1) + 2)
          = CtzList.popc (p / (blockSize - 8) - 1) + 2 := u32_of_lt (by omega)
      rw [hsum, u32_of_lt (by omega), sub32_of_le hsub (by omega), CtzList.corrected]
    have hle : CtzList.corrected (blockSize - 8) p ≤ p :=
      Nat.le_trans (Nat.div_le_self _ _) (Nat.sub_le _ _)
    have hpopc' : littlefsPopc (CtzList.corrected (blockSize - 8) p)
        = CtzList.popc (CtzList.corrected (blockSize - 8) p) := littlefsPopc_eq (by omega)
    dsimp only
    rw [hcorrected, hpopc']
    generalize CtzList.corrected (blockSize - 8) p = i at *
    generalize (blockSize - 8) * i = m at *
    have hrest : sub32 p m = p - m := sub32_of_le (by omega) (by omega)
    rw [u32_of_lt (by omega), hrest, u32_of_lt (by omega), sub32_of_le (by omega) (by omega)]

theorem littlefsCtzIndex_place :
    CtzList.Place blockSize p (littlefsCtzIndex blockSize p).1 (littlefsCtzIndex blockSize p).2 := by
  have hdiv := littlefs_div_lt hmin hp
  rw [littlefsCtzIndex_eq hmin hmax hp]
  rw [LITTLEFS_MIN_BLOCK_SIZE] at hmin
  by_cases h0 : p / (blockSize - 8) = 0
  · rw [if_pos h0]
    exact CtzList.place_first (by omega) h0
  · rw [if_neg h0]
    have hplace := (CtzList.place_corrected hdiv (by omega) h0).2.2
    rwa [Nat.sub_add_cancel (by omega)] at hplace

theorem littlefsPlace_lt {i off : ℕ} (h : CtzList.Place blockSize p i off) : i < 2 ^ 25 := by
  have hdiv := littlefs_div_lt hmin hp
  have hplace := littlefsCtzIndex_place hmin hmax hp
  rw [(h.unique hplace).1, littlefsCtzIndex_eq hmin hmax hp]
  by_cases h0 : p / (blockSize - 8) = 0
  · rw [if_pos h0]
    exact Nat.two_pow_pos 25
  · rw [if_neg h0]
    exact Nat.lt_of_le_of_lt (Nat.div_le_div_right (Nat.sub_le _ _)) hdiv

end Index

/-! ### The pointers -/

/-- The file system with the bytes under it; `read` is `grub_disk_read` of some bytes at a byte
position. -/
structure LittlefsDisk extends LittlefsData where
  read : ℕ → ℕ → Except GrubError Buf

/-- `littlefs_disk_read`. -/
def littlefsDiskRead (data : LittlefsDisk) (block off size : ℕ) : Except GrubError Buf :=
  if data.blockCount ≤ block ∨ data.blockSize < off ∨ data.blockSize - off < size then
    .error ⟨.badFs, "littlefs: read outside block"⟩
  else data.read (block * data.blockSize + off) size

theorem littlefsLe32_congr {p q : Buf} {off : ℕ} (h : ∀ i < 4, p i = q (off + i)) :
    lostLe32 p 0 = lostLe32 q off := by
  have h0 := h 0 (by omega)
  rw [Nat.add_zero] at h0
  rw [lostLe32, lostLe16, lostLe16, byteAt, byteAt, byteAt, byteAt, h0, h 1 (by omega),
    h 2 (by omega), h 3 (by omega)]
  rfl

/-- One round of the loop of `littlefs_ctz_find`, at `(head, current)`. -/
def littlefsCtzStep (data : LittlefsDisk) (target : ℕ) (s : ℕ × ℕ) :
    (ℕ × ℕ) ⊕ Except GrubError ℕ :=
  if s.2 ≤ target then .inr (.ok s.1)
  else
    let reach := sub32 (littlefsNpw2 (u32 (sub32 s.2 target + 1))) 1
    let have_ := littlefsCtz s.2
    let skip := if reach < have_ then reach else have_
    match littlefsDiskRead data s.1 (u32 (4 * skip)) 4 with
    | .error e => .inr (.error e)
    | .ok next => .inl (lostLe32 next 0, sub32 s.2 (u32 (2 ^ skip)))

/-- `littlefs_ctz_find`, with at most `rounds` rounds. -/
def littlefsCtzFind (data : LittlefsDisk) (rounds head size pos : ℕ) :
    Option (Except GrubError (ℕ × ℕ)) :=
  let current := (littlefsCtzIndex data.blockSize (sub32 size 1)).1
  let target := littlefsCtzIndex data.blockSize pos
  (FuelLoop.run (littlefsCtzStep data target.1) rounds (head, current)).map fun
    | .error e => .error e
    | .ok head =>
      if data.blockCount ≤ head ∨ data.blockSize ≤ target.2 then
        .error ⟨.badFs, "littlefs: bad CTZ skip-list pointer"⟩
      else .ok (head, target.2)

/-- What a loop gives that has no rounds left; none gets there. -/
def littlefsStuck : GrubError := ⟨.badFs, "littlefs: no rounds left"⟩

/-- The read of one round of the loop of `littlefs_read_data`: no further than the block goes. -/
def littlefsReadBlock (data : LittlefsDisk) (block boff len : ℕ) : Except GrubError (List UInt8) :=
  let rest := sub32 data.blockSize boff
  let diff := if len < rest then len else rest
  (littlefsDiskRead data block boff diff).map fun buf => buf.list 0 diff

/-- One round of the loop of `littlefs_read_data`, with `len` bytes still to read from `pos` on. -/
def littlefsReadPiece (data : LittlefsDisk) (rounds head size pos len : ℕ) :
    Except GrubError (List UInt8) :=
  match littlefsCtzFind data rounds head size (u32 pos) with
  | none => .error littlefsStuck
  | some (.error e) => .error e
  | some (.ok place) => littlefsReadBlock data place.1 place.2 len

/-- `littlefs_read_data`. -/
def littlefsReadData (data : LittlefsDisk) (rounds : ℕ) (node : LittlefsNode) (pos len : ℕ) :
    Except GrubError (List UInt8) :=
  if node.size ≤ pos then .ok []
  else
    let len := if node.size - pos < len then node.size - pos else len
    if node.isinline then
      match littlefsReadInline data.toLittlefsData node pos len with
      | .ok bytes => .ok bytes
      | .err e => .error e
      | .noent => .error ⟨.badFs, "littlefs: inline data disappeared"⟩
    else
      (History.readAll littlefsStuck (fun (_ : Unit) pos len =>
        (littlefsReadPiece data rounds node.head node.size pos len, ())) len () pos len).1

theorem littlefsReadPiece_of_find {data : LittlefsDisk} {rounds head size pos len : ℕ}
    {block boff : ℕ}
    (h : littlefsCtzFind data rounds head size (u32 pos) = some (.ok (block, boff))) :
    littlefsReadPiece data rounds head size pos len = littlefsReadBlock data block boff len := by
  rw [littlefsReadPiece, h]

section Jump

variable {target current : ℕ} (htarget : target < current) (hcurrent : current < 2 ^ 32)

include htarget

theorem littlefs_jump_le : 2 ^ min (current - target).log2 (CtzList.ctz current)
    ≤ current - target :=
  Nat.le_trans (Nat.pow_le_pow_right Nat.two_pos (Nat.min_le_left _ _))
    (Nat.log2_self_le (Nat.sub_ne_zero_of_lt htarget))

include hcurrent

/-- A jump goes as far as the distance and the block allow. -/
theorem littlefsCtzStep_eq (data : LittlefsDisk) (head : ℕ) :
    littlefsCtzStep data target (head, current)
      = match littlefsDiskRead data head
          (4 * min (current - target).log2 (CtzList.ctz current)) 4 with
        | .error e => .inr (.error e)
        | .ok next => .inl (lostLe32 next 0,
          current - 2 ^ min (current - target).log2 (CtzList.ctz current)) := by
  have hne : current - target ≠ 0 := Nat.sub_ne_zero_of_lt htarget
  have hdistance : sub32 current target = current - target :=
    sub32_of_le (Nat.le_of_lt htarget) hcurrent
  have hlog : (current - target).log2 < 32 := (Nat.log2_lt hne).mpr (by omega)
  have hreach : sub32 (littlefsNpw2 (u32 (sub32 current target + 1))) 1
      = (current - target).log2 := by
    rw [hdistance, littlefsNpw2_eq hne (by omega), sub32_of_le (Nat.le_add_left 1 _) (by omega),
      Nat.add_sub_cancel]
  have hctz : littlefsCtz current = CtzList.ctz current :=
    littlefsCtz_eq (Nat.ne_of_gt (Nat.zero_lt_of_lt htarget)) hcurrent
  have hskip : (if (current - target).log2 < CtzList.ctz current then (current - target).log2
      else CtzList.ctz current) = min (current - target).log2 (CtzList.ctz current) := by
    rw [Nat.min_def]
    split_ifs <;> omega
  rw [littlefsCtzStep, if_neg (Nat.not_le.mpr htarget)]
  dsimp only
  rw [hreach, hctz, hskip]
  have hmin : min (current - target).log2 (CtzList.ctz current) < 32 :=
    Nat.lt_of_le_of_lt (Nat.min_le_left _ _) hlog
  have hpow : 2 ^ min (current - target).log2 (CtzList.ctz current) ≤ current := by
    refine Nat.le_trans (Nat.pow_le_pow_right Nat.two_pos (Nat.min_le_left _ _)) ?_
    exact Nat.le_trans (Nat.log2_self_le hne) (Nat.sub_le _ _)
  generalize min (current - target).log2 (CtzList.ctz current) = skip at *
  rw [u32_of_lt (by omega), u32_of_lt (Nat.lt_of_le_of_lt hpow hcurrent), sub32_of_le hpow hcurrent]

end Jump

/-- Every round goes down, so the loop ends whatever the blocks hold. -/
theorem littlefsCtzLoop_ends (data : LittlefsDisk) (target : ℕ) {current fuel : ℕ}
    (hfuel : current < fuel) (hlt : current < 2 ^ 32) (head : ℕ) :
    ∃ r, FuelLoop.run (littlefsCtzStep data target) fuel (head, current) = some r := by
  induction fuel generalizing head current with
  | zero => exact absurd hfuel (Nat.not_lt_zero _)
  | succ fuel ih =>
    by_cases hle : current ≤ target
    · exact ⟨.ok head, FuelLoop.run_succ_inr (if_pos hle)⟩
    · have htarget := Nat.lt_of_not_le hle
      have hstep := littlefsCtzStep_eq htarget hlt data head
      cases hread : littlefsDiskRead data head
          (4 * min (current - target).log2 (CtzList.ctz current)) 4 with
      | error e =>
        rw [hread] at hstep
        exact ⟨.error e, FuelLoop.run_succ_inr hstep⟩
      | ok next =>
        rw [hread] at hstep
        rw [FuelLoop.run_succ_inl hstep]
        have hpos := Nat.two_pow_pos (min (current - target).log2 (CtzList.ctz current))
        have hjump := littlefs_jump_le htarget
        exact ih (by omega) (by omega) _

theorem sub32_lt (a b : ℕ) : sub32 a b < 2 ^ 32 := Nat.mod_lt _ (by decide)

theorem littlefsCtzIndex_lt (blockSize off : ℕ) : (littlefsCtzIndex blockSize off).1 < 2 ^ 32 := by
  rw [littlefsCtzIndex]
  by_cases h0 : off / sub32 blockSize (2 * 4) = 0
  · rw [if_pos h0]
    dsimp only
    omega
  · rw [if_neg h0]
    exact Nat.lt_of_le_of_lt (Nat.div_le_self _ _) (sub32_lt _ _)

theorem littlefsCtzFind_ends (data : LittlefsDisk) {rounds : ℕ} (hrounds : 2 ^ 32 ≤ rounds)
    (head size pos : ℕ) : ∃ r, littlefsCtzFind data rounds head size pos = some r := by
  have hlt := littlefsCtzIndex_lt data.blockSize (sub32 size 1)
  obtain ⟨r, hr⟩ := littlefsCtzLoop_ends data (littlefsCtzIndex data.blockSize pos).1
    (Nat.lt_of_lt_of_le hlt hrounds) hlt head
  rw [littlefsCtzFind, hr]
  exact ⟨_, rfl⟩

/-! ### Files -/

/-- A file of `size` bytes whose blocks hold the pointers of the format: its block `k` is the block
`blocks k` of the disk, which reads as `image k`, and the directory names the last one. -/
structure LittlefsCtzFile (data : LittlefsDisk) (head size : ℕ) (blocks : ℕ → ℕ) (image : ℕ → Buf)
    (content : Buf) : Prop where
  head_eq : ∀ k, CtzList.before data.blockSize k < size →
    size ≤ CtzList.before data.blockSize (k + 1) → blocks k = head
  block_lt : ∀ k, CtzList.before data.blockSize k < size → blocks k < data.blockCount
  read_eq : ∀ k off len, CtzList.before data.blockSize k < size → off + len ≤ data.blockSize →
    ∃ buf, data.read (blocks k * data.blockSize + off) len = .ok buf
      ∧ ∀ i < len, buf i = image k (off + i)
  pointer : ∀ k j, k ≠ 0 → CtzList.before data.blockSize k < size → j ≤ CtzList.ctz k →
    lostLe32 (image k) (4 * j) = blocks (k - 2 ^ j)
  byte : ∀ p i off, p < size → CtzList.Place data.blockSize p i off → image i off = content p

section File

variable {data : LittlefsDisk} {head size : ℕ} {blocks : ℕ → ℕ} {image : ℕ → Buf} {content : Buf}
  (hfile : LittlefsCtzFile data head size blocks image content)
  (hmin : LITTLEFS_MIN_BLOCK_SIZE ≤ data.blockSize)

include hfile

theorem LittlefsCtzFile.diskRead {k : ℕ} (off len : ℕ)
    (hk : CtzList.before data.blockSize k < size) (hle : off + len ≤ data.blockSize) : ∃ buf, littlefsDiskRead data (blocks k) off len = .ok buf
      ∧ ∀ i < len, buf i = image k (off + i) := by
  have hlt := hfile.block_lt k hk
  rw [littlefsDiskRead, if_neg (by omega)]
  exact hfile.read_eq k off len hk hle

/-- A read at the place of a position gives bytes of the file. -/
theorem LittlefsCtzFile.readBlock (hword : data.blockSize ≤ 2 ^ 31) {i boff pos len : ℕ}
    (hplace : CtzList.Place data.blockSize pos i boff) (hlen : 0 < len) (hend : pos + len ≤ size) :
    ∃ bs, littlefsReadBlock data (blocks i) boff len = .ok bs ∧ 0 < bs.length ∧ bs.length ≤ len
      ∧ bs = History.slice content pos bs.length := by
  have hoff := hplace.off_lt
  have hpointers := hplace.pointers_le
  have hrest : sub32 data.blockSize boff = data.blockSize - boff :=
    sub32_of_le (Nat.le_of_lt hoff) (by omega)
  rw [littlefsReadBlock, hrest]
  generalize hdiff : (if len < data.blockSize - boff then len else data.blockSize - boff) = diff
  have hdiffs : 0 < diff ∧ diff ≤ len ∧ boff + diff ≤ data.blockSize := by
    rw [← hdiff]
    split_ifs <;> omega
  obtain ⟨buf, hread, hbuf⟩ := hfile.diskRead boff diff
    (Nat.lt_of_le_of_lt hplace.before_le (by omega)) hdiffs.2.2
  rw [hread]
  refine ⟨buf.list 0 diff, rfl, ?_⟩
  rw [Buf.length_list]
  refine ⟨hdiffs.1, hdiffs.2.1, List.ext_getElem ?_ fun k hk _ => ?_⟩
  · rw [Buf.length_list, History.length_slice]
  · rw [Buf.length_list] at hk
    rw [Buf.getElem_list, History.getElem_slice, Nat.zero_add, hbuf k hk]
    -- the bytes behind the position follow it in its block
    have heq := hplace.eq_before
    exact hfile.byte (pos + k) i (boff + k) (by omega) ⟨by omega, by omega, by omega⟩

include hmin

/-- The loop goes from any block of the file to the block that it looks for. -/
theorem LittlefsCtzFile.loop {target : ℕ} {current fuel : ℕ} (hfuel : current < fuel)
    (hle : target ≤ current) (hlt : current < 2 ^ 25)
    (hk : CtzList.before data.blockSize current < size) :
    FuelLoop.run (littlefsCtzStep data target) fuel (blocks current, current)
      = some (.ok (blocks target)) := by
  rw [LITTLEFS_MIN_BLOCK_SIZE] at hmin
  induction fuel generalizing current with
  | zero => exact absurd hfuel (Nat.not_lt_zero _)
  | succ fuel ih =>
    rcases Nat.lt_or_eq_of_le hle with htarget | rfl
    · have hlt' : current < 2 ^ 32 := Nat.lt_trans hlt (by decide)
      have hne : current ≠ 0 := Nat.ne_of_gt (Nat.zero_lt_of_lt htarget)
      have hctz := CtzList.ctz_lt hne hlt
      have hstep := littlefsCtzStep_eq htarget hlt' data (blocks current)
      have hjump := littlefs_jump_le htarget
      have hskip : min (current - target).log2 (CtzList.ctz current) ≤ CtzList.ctz current :=
        Nat.min_le_right _ _
      generalize min (current - target).log2 (CtzList.ctz current) = skip at *
      obtain ⟨buf, hread, hbuf⟩ := hfile.diskRead (4 * skip) 4 hk (by omega)
      have hnext : lostLe32 buf 0 = blocks (current - 2 ^ skip) := by
        rw [← hfile.pointer current skip hne hk hskip]
        exact littlefsLe32_congr hbuf
      rw [hread] at hstep
      rw [FuelLoop.run_succ_inl hstep, hnext]
      have hpos := Nat.two_pow_pos skip
      exact ih (by omega) (by omega) (by omega)
        (Nat.lt_of_le_of_lt (CtzList.before_mono (Nat.sub_le _ _)) hk)
    · exact FuelLoop.run_succ_inr (if_pos (Nat.le_refl _))

variable (hmax : data.blockSize ≤ LITTLEFS_MAX_BLOCK_SIZE) (hsize : size ≤ LITTLEFS_FILE_MAX)

include hmax hsize

/-- `littlefs_ctz_find` ends at the block of the position. -/
theorem LittlefsCtzFile.find {rounds pos : ℕ} (hrounds : 2 ^ 32 ≤ rounds) (hpos : pos < size) :
    littlefsCtzFind data rounds head size pos = some (.ok
      (blocks (littlefsCtzIndex data.blockSize pos).1, (littlefsCtzIndex data.blockSize pos).2)) := by
  have hlast : size - 1 < LITTLEFS_FILE_MAX := by omega
  have hposlt : pos < LITTLEFS_FILE_MAX := by omega
  have hplace := littlefsCtzIndex_place hmin hmax hposlt
  have hend := littlefsCtzIndex_place hmin hmax hlast
  have hsub : sub32 size 1 = size - 1 := by
    rw [LITTLEFS_FILE_MAX] at hsize
    exact sub32_of_le (by omega) (by omega)
  have hcurrent := littlefsPlace_lt hmin hmax hlast hend
  have htarget := littlefsPlace_lt hmin hmax hposlt hplace
  have hbefore := hend.before_le
  have hbehind := hend.lt_before
  have hle := hplace.le_of_le hend (by omega)
  have hhead := hfile.head_eq (littlefsCtzIndex data.blockSize (size - 1)).1 (by omega) (by omega)
  have hloop := hfile.loop hmin
    (Nat.lt_of_lt_of_le (Nat.lt_trans hcurrent (by decide)) hrounds) hle hcurrent (by omega)
  have hblock := hfile.block_lt (littlefsCtzIndex data.blockSize pos).1
    (Nat.lt_of_le_of_lt hplace.before_le hpos)
  have hoff := hplace.off_lt
  rw [littlefsCtzFind, hsub, ← hhead, hloop, Option.map_some]
  dsimp only
  rw [if_neg (by omega)]

/-- One round of `littlefs_read_data` gives bytes of the file. -/
theorem LittlefsCtzFile.piece {rounds pos len : ℕ} (hrounds : 2 ^ 32 ≤ rounds) (hlen : 0 < len)
    (hend : pos + len ≤ size) : ∃ bs, littlefsReadPiece data rounds head size pos len = .ok bs
      ∧ 0 < bs.length ∧ bs.length ≤ len ∧ bs = History.slice content pos bs.length := by
  have hpos : pos < size := by omega
  have hposlt : pos < LITTLEFS_FILE_MAX := Nat.lt_of_lt_of_le hpos hsize
  have hword : u32 pos = pos := u32_of_lt (Nat.lt_trans hposlt littlefs_file_max_lt)
  have hfind : littlefsCtzFind data rounds head size (u32 pos) = some (.ok
      (blocks (littlefsCtzIndex data.blockSize pos).1, (littlefsCtzIndex data.blockSize pos).2)) := by
    rw [hword]
    exact hfile.find hmin hmax hsize hrounds hpos
  rw [littlefsReadPiece_of_find hfind]
  exact hfile.readBlock (Nat.le_trans hmax littlefs_block_size_le) (littlefsCtzIndex_place hmin hmax hposlt)
    hlen hend

/-- `littlefs_read_data` returns the bytes of the file. -/
theorem LittlefsCtzFile.readData {rounds : ℕ} (hrounds : 2 ^ 32 ≤ rounds) {node : LittlefsNode}
    (hinline : node.isinline = false) (hhead : node.head = head) (hnode : node.size = size)
    (pos len : ℕ) : littlefsReadData data rounds node pos len
      = .ok (History.slice content pos (min len (size - pos))) := by
  rw [littlefsReadData, hnode, hhead]
  by_cases hpos : size ≤ pos
  · rw [if_pos hpos, Nat.sub_eq_zero_of_le hpos, Nat.min_zero]
    rfl
  · have hmin' : (if size - pos < len then size - pos else len) = min len (size - pos) := by
      rw [Nat.min_def]
      split_ifs <;> omega
    rw [if_neg hpos]
    dsimp only
    rw [hmin', if_neg (by rw [hinline]; decide)]
    have hend : pos + min len (size - pos) ≤ size := by omega
    generalize min len (size - pos) = n at *
    have hok : ∀ off len k, off + len ≤ size → k ≤ len → off + k + (len - k) ≤ size := by
      intro off len k hle hk
      omega
    have hread : ∀ (s : Unit) off len, True → off + len ≤ size → 0 < len →
        ∃ bs, littlefsReadPiece data rounds head size off len = .ok bs ∧ 0 < bs.length
          ∧ bs.length ≤ len ∧ bs = History.slice content off bs.length ∧ True := by
      intro _ off len _ hle hlen
      obtain ⟨bs, hpiece, hpos, hle, hslice⟩ := hfile.piece hmin hmax hsize hrounds hlen hle
      exact ⟨bs, hpiece, hpos, hle, hslice, trivial⟩
    exact @History.readAll_eq_slice Unit UInt8 GrubError littlefsStuck _ (fun _ => True) content
      (fun off len => off + len ≤ size) hok hread n () pos n trivial hend (Nat.le_refl n)

end File

/-- **The skip-list arithmetic is exact.** For every block size that is mounted and every position a
file can have, the index is the one place of the position and nothing wraps. On a file whose blocks
hold the pointers of the format the walk ends at that block, and reads return the bytes of the file.
Whatever the blocks hold, the walk ends. -/
theorem littlefs_ctz_exact :
    (∀ blockSize p, LITTLEFS_MIN_BLOCK_SIZE ≤ blockSize → blockSize ≤ LITTLEFS_MAX_BLOCK_SIZE →
      p < LITTLEFS_FILE_MAX →
      CtzList.Place blockSize p (littlefsCtzIndex blockSize p).1 (littlefsCtzIndex blockSize p).2
      ∧ (∀ i off, CtzList.Place blockSize p i off → (i, off) = littlefsCtzIndex blockSize p)
      ∧ LittlefsCtzFits blockSize p)
    ∧ (∀ (data : LittlefsDisk) head size blocks image content rounds,
      LittlefsCtzFile data head size blocks image content →
      LITTLEFS_MIN_BLOCK_SIZE ≤ data.blockSize → data.blockSize ≤ LITTLEFS_MAX_BLOCK_SIZE →
      size ≤ LITTLEFS_FILE_MAX → 2 ^ 32 ≤ rounds →
      (∀ pos < size, littlefsCtzFind data rounds head size pos = some (.ok
        (blocks (littlefsCtzIndex data.blockSize pos).1, (littlefsCtzIndex data.blockSize pos).2)))
      ∧ ∀ (node : LittlefsNode) pos len, node.isinline = false → node.head = head →
        node.size = size → littlefsReadData data rounds node pos len
          = .ok (History.slice content pos (min len (size - pos))))
    ∧ ∀ data head size pos rounds, 2 ^ 32 ≤ rounds →
      ∃ r, littlefsCtzFind data rounds head size pos = some r := by
  refine ⟨fun blockSize p hmin hmax hp => ⟨littlefsCtzIndex_place hmin hmax hp, fun i off h => ?_,
    littlefsCtzFits hmin hp⟩, fun data head size blocks image content rounds hfile hmin hmax hsize
    hrounds => ⟨fun pos hpos => hfile.find hmin hmax hsize hrounds hpos,
    fun node pos len hinline hhead hnode =>
      hfile.readData hmin hmax hsize hrounds hinline hhead hnode pos len⟩,
    fun data head size pos rounds hrounds => littlefsCtzFind_ends data hrounds head size pos⟩
  have hplace := littlefsCtzIndex_place hmin hmax hp
  exact Prod.ext (h.unique hplace).1 (h.unique hplace).2

end FsRover
