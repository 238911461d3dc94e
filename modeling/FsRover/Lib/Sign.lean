import Mathlib.Data.List.Lex
import Mathlib.Data.Prod.Lex

/-!
# The sign of a comparison

What a comparison function returns for two values of a linear order: `-1`, `0` or `1`.

## Main results

* `Sign.sign_swap`, `Sign.sign_eq_zero_iff`, `Sign.sign_trans` : the laws of a strict total order.
* `Sign.sign_cons`, `Sign.sign_lex` : lists and pairs are compared from the front.
-/

namespace Sign

variable {α β : Type*} [LinearOrder α] [LinearOrder β]

/-- The sign of the comparison of `a` with `b`. -/
def sign (a b : α) : ℤ := if a < b then -1 else if b < a then 1 else 0

theorem sign_of_lt {a b : α} (h : a < b) : sign a b = -1 := if_pos h

theorem sign_of_gt {a b : α} (h : b < a) : sign a b = 1 := by
  rw [sign, if_neg h.asymm, if_pos h]

@[simp] theorem sign_self (a : α) : sign a a = 0 := by
  rw [sign, if_neg (lt_irrefl a), if_neg (lt_irrefl a)]

theorem sign_of_ne {a b : α} (h : a ≠ b) : sign a b = if a < b then -1 else 1 := by
  rcases lt_or_gt_of_ne h with hlt | hgt
  · rw [sign_of_lt hlt, if_pos hlt]
  · rw [sign_of_gt hgt, if_neg hgt.asymm]

theorem sign_eq_zero_iff {a b : α} : sign a b = 0 ↔ a = b := by
  refine ⟨fun h => ?_, fun h => h ▸ sign_self a⟩
  by_contra hne
  rw [sign_of_ne hne] at h
  split_ifs at h
  omega

theorem sign_neg_iff {a b : α} : sign a b < 0 ↔ a < b := by
  rcases lt_trichotomy a b with h | rfl | h
  · simp [sign_of_lt h, h]
  · simp
  · simp [sign_of_gt h, h.le]

theorem sign_swap (a b : α) : sign a b = -sign b a := by
  rcases lt_trichotomy a b with h | rfl | h
  · rw [sign_of_lt h, sign_of_gt h]
  · rw [sign_self, Int.neg_zero]
  · rw [sign_of_gt h, sign_of_lt h, Int.neg_neg]

theorem sign_trans {a b c : α} (hab : sign a b < 0) (hbc : sign b c < 0) : sign a c < 0 := by
  rw [sign_neg_iff] at hab hbc ⊢
  exact hab.trans hbc

theorem sign_congr {a b : α} {c d : β} (hlt : a < b ↔ c < d) (hgt : b < a ↔ d < c) :
    sign a b = sign c d := by
  simp only [sign, hlt, hgt]

@[simp] theorem sign_nil_cons (b : α) (bs : List α) : sign [] (b :: bs) = -1 :=
  sign_of_lt (List.nil_lt_cons b bs)

@[simp] theorem sign_cons_nil (a : α) (as : List α) : sign (a :: as) [] = 1 :=
  sign_of_gt (List.nil_lt_cons a as)

/-- Lists are compared at the first place where they differ. -/
theorem sign_cons (a b : α) (as bs : List α) :
    sign (a :: as) (b :: bs) = if a = b then sign as bs else sign a b := by
  by_cases h : a = b
  · subst h
    rw [if_pos rfl]
    exact sign_congr (by simp) (by simp)
  · rw [if_neg h]
    exact sign_congr (by simp [List.cons_lt_cons_iff, h]) (by simp [List.cons_lt_cons_iff, Ne.symm h])

/-- Pairs are compared by what comes first, and by the second where that is equal. -/
theorem sign_lex (a c : α) (b d : β) :
    sign (toLex (a, b)) (toLex (c, d)) = if a = c then sign b d else sign a c := by
  by_cases h : a = c
  · subst h
    rw [if_pos rfl]
    exact sign_congr (by simp [Prod.Lex.toLex_lt_toLex]) (by simp [Prod.Lex.toLex_lt_toLex])
  · rw [if_neg h]
    exact sign_congr (by simp [Prod.Lex.toLex_lt_toLex, h])
      (by simp [Prod.Lex.toLex_lt_toLex, Ne.symm h])

end Sign
