import Mathlib.Algebra.BigOperators.Intervals
import Mathlib.Algebra.Order.BigOperators.Group.Finset
import Mathlib.Data.List.Infix

/-!
# Canonical codes from the longest length down

The code words of one length are consecutive numbers. Those of the longest length start at zero, and
each shorter length starts where the length above it ends, with the surplus bits shifted out. What is
shifted out is lost, so the words are prefix free exactly when it is nothing: when the longer words
fill a whole number of words of each length in use.

## Main definitions

* `Canonical.word` : a number as bits, most significant first.
* `Canonical.Assigned` : the first words of all lengths.
* `Canonical.Whole` : the longer words fill whole words.

## Main results

* `Canonical.word_prefix_iff` : a word is a prefix of a longer one that shifts down to it.
* `Canonical.prefixFree_iff` : the words are prefix free if and only if they fill whole words.
-/

namespace Canonical

/-! ### Words -/

/-- The low `n` bits of `a`, most significant first. -/
def word (a : ℕ) : ℕ → List Bool
  | 0 => []
  | n + 1 => a.testBit n :: word a n

@[simp] theorem length_word (a n : ℕ) : (word a n).length = n := by
  induction n with
  | zero => rfl
  | succ n ih => rw [word, List.length_cons, ih]

theorem getElem_word {a n i : ℕ} (hi : i < (word a n).length) :
    (word a n)[i] = a.testBit (n - 1 - i) := by
  induction n generalizing i with
  | zero => exact absurd hi (Nat.not_lt_zero i)
  | succ n ih =>
    cases i with
    | zero => rfl
    | succ i =>
      have hi' : i < (word a n).length := by simpa [word] using hi
      simp only [word, List.getElem_cons_succ, ih hi']
      congr 1
      omega

theorem take_word {b n k : ℕ} (hk : k ≤ n) : (word b n).take k = word (b / 2 ^ (n - k)) k := by
  refine List.ext_getElem (by simp [hk]) fun i hi hi' => ?_
  rw [length_word] at hi'
  rw [List.getElem_take, getElem_word, getElem_word, Nat.testBit_div_two_pow]
  congr 1
  omega

theorem word_inj {a b n : ℕ} (ha : a < 2 ^ n) (hb : b < 2 ^ n) (h : word a n = word b n) : a = b := by
  refine Nat.eq_of_testBit_eq fun i => ?_
  rcases Nat.lt_or_ge i n with hi | hi
  · have hget : (word a n)[n - 1 - i]? = (word b n)[n - 1 - i]? := by rw [h]
    rw [List.getElem?_eq_getElem (by simp; omega), List.getElem?_eq_getElem (by simp; omega),
      Option.some.injEq, getElem_word, getElem_word] at hget
    have hindex : n - 1 - (n - 1 - i) = i := by omega
    rwa [hindex] at hget
  · have hpow := Nat.pow_le_pow_right Nat.two_pos hi
    rw [Nat.testBit_lt_two_pow (by omega), Nat.testBit_lt_two_pow (by omega)]

/-- A word is a prefix of another when that is no shorter and shifts down to it. -/
theorem word_prefix_iff {a b k n : ℕ} (ha : a < 2 ^ k) (hb : b < 2 ^ n) :
    word a k <+: word b n ↔ k ≤ n ∧ b / 2 ^ (n - k) = a := by
  rw [List.prefix_iff_eq_take, length_word]
  constructor
  · intro h
    have hk : k ≤ n := by
      have hlen := congrArg List.length h
      rw [length_word, List.length_take, length_word] at hlen
      omega
    refine ⟨hk, ?_⟩
    rw [take_word hk] at h
    have hlt : b / 2 ^ (n - k) < 2 ^ k := by
      rw [Nat.div_lt_iff_lt_mul (Nat.two_pow_pos _), ← Nat.pow_add]
      rwa [Nat.add_sub_cancel' hk]
    exact (word_inj ha hlt h).symm
  · rintro ⟨hk, rfl⟩
    exact (take_word hk).symm

/-! ### Lengths -/

variable (cnt first : ℕ → ℕ) (top : ℕ)

/-- `m` is the next longer length in use. -/
def Next (l m : ℕ) : Prop := l < m ∧ m ≤ top ∧ cnt m ≠ 0 ∧ ∀ k, l < k → k < m → cnt k = 0

/-- The first words of all lengths in use, from the longest down. -/
structure Assigned : Prop where
  fits : ∀ l, 1 ≤ l → l ≤ top → cnt l ≠ 0 → first l + cnt l ≤ 2 ^ l
  step : ∀ l m, 1 ≤ l → cnt l ≠ 0 → Next cnt top l m → first l = (first m + cnt m) / 2 ^ (m - l)
  start : ∀ l, 1 ≤ l → l ≤ top → cnt l ≠ 0 → (∀ k, l < k → k ≤ top → cnt k = 0) → first l = 0

/-- What the words longer than `l` take up, in words of the greatest length. -/
def longer (l : ℕ) : ℕ := ∑ m ∈ Finset.Ioc l top, cnt m * 2 ^ (top - m)

/-- The longer words fill a whole number of words of each length in use. -/
def Whole : Prop := ∀ l, 1 ≤ l → l ≤ top → cnt l ≠ 0 → 2 ^ (top - l) ∣ longer cnt top l

/-- Word number `k` of length `l` is one of the code. -/
def IsWord (l k : ℕ) : Prop := 1 ≤ l ∧ l ≤ top ∧ k < cnt l

variable {cnt first top} {l m : ℕ}

theorem exists_next (h : ¬ ∀ k, l < k → k ≤ top → cnt k = 0) : ∃ m, Next cnt top l m := by
  have hex : ∃ m, l < m ∧ m ≤ top ∧ cnt m ≠ 0 := by
    by_contra hnone
    exact h fun k hlk hk => by
      by_contra hne
      exact hnone ⟨k, hlk, hk, hne⟩
  classical
  obtain ⟨hlt, hle, hne⟩ := Nat.find_spec hex
  refine ⟨Nat.find hex, hlt, hle, hne, fun k hlk hk => ?_⟩
  by_contra hne'
  exact Nat.find_min hex hk ⟨hlk, by omega, hne'⟩

theorem longer_eq_zero (h : ∀ k, l < k → k ≤ top → cnt k = 0) : longer cnt top l = 0 := by
  refine Finset.sum_eq_zero fun k hk => ?_
  rw [Finset.mem_Ioc] at hk
  rw [h k hk.1 hk.2, Nat.zero_mul]

theorem longer_split (hlm : l ≤ m) (hm : m ≤ top) :
    longer cnt top l = (∑ k ∈ Finset.Ioc l m, cnt k * 2 ^ (top - k)) + longer cnt top m :=
  (Finset.sum_Ioc_consecutive _ hlm hm).symm

theorem longer_of_next (h : Next cnt top l m) :
    longer cnt top l = cnt m * 2 ^ (top - m) + longer cnt top m := by
  obtain ⟨hlt, hle, -, hbetween⟩ := h
  rw [longer_split hlt.le hle, Finset.sum_eq_single m]
  · intro k hk hne
    rw [Finset.mem_Ioc] at hk
    rw [hbetween k hk.1 (by omega), Nat.zero_mul]
  · intro hm
    exact absurd (Finset.mem_Ioc.mpr ⟨hlt, Nat.le_refl m⟩) hm

theorem longer_ge (hlm : l < m) (hm : m ≤ top) :
    cnt m * 2 ^ (top - m) + longer cnt top m ≤ longer cnt top l := by
  rw [longer_split hlm.le hm]
  refine Nat.add_le_add_right ?_ _
  exact Finset.single_le_sum (f := fun k => cnt k * 2 ^ (top - k)) (fun _ _ => Nat.zero_le _)
    (Finset.mem_Ioc.mpr ⟨hlm, Nat.le_refl m⟩)

theorem pow_split (hlm : l ≤ m) (hm : m ≤ top) : 2 ^ (top - l) = 2 ^ (m - l) * 2 ^ (top - m) := by
  rw [← Nat.pow_add]
  congr 1
  omega

/-- Nothing is lost from a length on when nothing is lost above it and on the way down to it. -/
theorem Assigned.exact_step (h : Assigned cnt first top) (hl : 1 ≤ l) (hcnt : cnt l ≠ 0)
    (hnext : Next cnt top l m) (hm : first m * 2 ^ (top - m) = longer cnt top m)
    (hdvd : 2 ^ (m - l) ∣ first m + cnt m) : first l * 2 ^ (top - l) = longer cnt top l := by
  rw [longer_of_next hnext, ← hm, ← Nat.add_mul, Nat.add_comm (cnt m),
    pow_split hnext.1.le hnext.2.1, ← Nat.mul_assoc, h.step l m hl hcnt hnext,
    Nat.div_mul_cancel hdvd]

/-- On the way down to a length nothing is lost when the words above it are whole. -/
theorem dvd_of_whole (hw : 2 ^ (top - l) ∣ longer cnt top l) (hnext : Next cnt top l m)
    (hm : first m * 2 ^ (top - m) = longer cnt top m) : 2 ^ (m - l) ∣ first m + cnt m := by
  rw [longer_of_next hnext, ← hm, ← Nat.add_mul, Nat.add_comm (cnt m),
    pow_split hnext.1.le hnext.2.1] at hw
  exact Nat.dvd_of_mul_dvd_mul_right (Nat.two_pow_pos _) hw

/-- Nothing is lost at a length in use if nothing is lost between two lengths. The induction is on the
lengths above. -/
theorem Assigned.exact_of_dvd (h : Assigned cnt first top)
    (hdvd : ∀ l m, 1 ≤ l → cnt l ≠ 0 → Next cnt top l m → first m * 2 ^ (top - m) = longer cnt top m →
      2 ^ (m - l) ∣ first m + cnt m) :
    ∀ n l, top - l = n → 1 ≤ l → l ≤ top → cnt l ≠ 0 →
      first l * 2 ^ (top - l) = longer cnt top l := by
  intro n
  induction n using Nat.strong_induction_on with
  | _ n ih =>
    intro l hn hl hle hcnt
    by_cases hnone : ∀ k, l < k → k ≤ top → cnt k = 0
    · rw [longer_eq_zero hnone, h.start l hl hle hcnt hnone, Nat.zero_mul]
    · obtain ⟨m, hnext⟩ := exists_next hnone
      have hlt := hnext.1
      have hm := ih (top - m) (by have := hnext.2.1; omega) m rfl (by omega) hnext.2.1 hnext.2.2.1
      exact h.exact_step hl hcnt hnext hm (hdvd l m hl hcnt hnext hm)

theorem Assigned.exact_of_whole (h : Assigned cnt first top) (hw : Whole cnt top) (hl : 1 ≤ l)
    (hle : l ≤ top) (hcnt : cnt l ≠ 0) : first l * 2 ^ (top - l) = longer cnt top l :=
  h.exact_of_dvd (fun l m hl hcnt hnext hm =>
    dvd_of_whole (hw l hl (by have := hnext.1; have := hnext.2.1; omega) hcnt) hnext hm) _ l rfl hl hle
    hcnt

theorem Assigned.word_lt (h : Assigned cnt first top) {k : ℕ} (hk : IsWord cnt top l k) :
    first l + k < 2 ^ l := by
  obtain ⟨hl, hle, hlt⟩ := hk
  have := h.fits l hl hle (by omega)
  omega

/-- Below a number that the divisor does not divide the quotient is the same. -/
theorem pred_div_of_not_dvd {n d : ℕ} (hn : 0 < n) (h : ¬ d ∣ n) : (n - 1) / d = n / d := by
  obtain ⟨k, rfl⟩ : ∃ k, n = k + 1 := ⟨n - 1, by omega⟩
  rw [Nat.succ_div, if_neg h, Nat.add_sub_cancel, Nat.add_zero]

/-- The words are prefix free if and only if they fill whole words. -/
theorem prefixFree_iff (h : Assigned cnt first top) :
    (∀ l k l' k', IsWord cnt top l k → IsWord cnt top l' k' →
      word (first l + k) l <+: word (first l' + k') l' → l = l' ∧ k = k') ↔ Whole cnt top := by
  constructor
  · intro hfree
    have hdvd : ∀ l m, 1 ≤ l → cnt l ≠ 0 → Next cnt top l m →
        first m * 2 ^ (top - m) = longer cnt top m → 2 ^ (m - l) ∣ first m + cnt m := by
      intro l m hl hcnt hnext _
      obtain ⟨hlt, hle, hm, hbetween⟩ := hnext
      by_contra hnot
      -- the first word of the shorter length is a prefix of the last word of the longer one
      have hshort : IsWord cnt top l 0 := ⟨hl, by omega, by omega⟩
      have hlong : IsWord cnt top m (cnt m - 1) := ⟨by omega, hle, by omega⟩
      have hlast : first m + (cnt m - 1) = first m + cnt m - 1 := by omega
      have hprefix : word (first l + 0) l <+: word (first m + (cnt m - 1)) m := by
        rw [word_prefix_iff (h.word_lt hshort) (h.word_lt hlong), hlast,
          pred_div_of_not_dvd (by omega) hnot, h.step l m hl hcnt ⟨hlt, hle, hm, hbetween⟩]
        exact ⟨hlt.le, rfl⟩
      have := (hfree l 0 m _ hshort hlong hprefix).1
      omega
    intro l hl hle hcnt
    exact ⟨first l, by rw [Nat.mul_comm, h.exact_of_dvd hdvd _ l rfl hl hle hcnt]⟩
  · intro hw l k l' k' hk hk' hprefix
    rw [word_prefix_iff (h.word_lt hk) (h.word_lt hk')] at hprefix
    obtain ⟨hle, hdiv⟩ := hprefix
    rcases Nat.eq_or_lt_of_le hle with rfl | hlt
    · rw [Nat.sub_self, Nat.pow_zero, Nat.div_one] at hdiv
      exact ⟨rfl, by omega⟩
    · -- the words of the shorter length begin behind all the longer ones
      exfalso
      obtain ⟨hl, hltop, hkl⟩ := hk
      obtain ⟨hl', hltop', hkl'⟩ := hk'
      have hexact := h.exact_of_whole hw hl hltop (by omega)
      have hexact' := h.exact_of_whole hw hl' hltop' (by omega)
      have hge : cnt l' * 2 ^ (top - l') + longer cnt top l' ≤ longer cnt top l := longer_ge hlt hltop'
      rw [← hexact, ← hexact', pow_split hle hltop', ← Nat.add_mul, ← Nat.mul_assoc] at hge
      have hend : cnt l' + first l' ≤ first l * 2 ^ (l' - l) :=
        Nat.le_of_mul_le_mul_right hge (Nat.two_pow_pos _)
      have hstart : (first l + k) * 2 ^ (l' - l) ≤ first l' + k' := by
        rw [← hdiv]
        exact Nat.div_mul_le_self _ _
      have hmul : first l * 2 ^ (l' - l) ≤ (first l + k) * 2 ^ (l' - l) :=
        Nat.mul_le_mul_right _ (Nat.le_add_right _ _)
      omega

end Canonical
