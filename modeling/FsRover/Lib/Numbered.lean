import Mathlib.Data.List.Nodup
import Mathlib.Data.List.Perm.Subperm
import Mathlib.Data.Nat.Digits.Defs

/-!
# Numbered names

A base name, a separator and a number make a name; the first number whose name is not taken is
looked for. Names are compared by an image of theirs, such as their lower case.

## Main definitions

* `Numbered.decimal` : the digits of a number.
* `Numbered.firstFree` : the first number from `k` on that is not taken.

## Main results

* `Numbered.split_inj` : a name that ends in a separator and digits has one base and one number.
* `Numbered.firstFree_spec`, `Numbered.firstFree_isSome` : the number found is free and the first
  such, and among finitely many taken names one is found.
-/

namespace Numbered

/-! ### Digits -/

/-- The decimal digits of a positive number. -/
def decimal (n : ℕ) : List UInt8 := (Nat.digits 10 n).reverse.map fun d => UInt8.ofNat (48 + d)

theorem mem_decimal {n : ℕ} {b : UInt8} (h : b ∈ decimal n) : 48 ≤ b.toNat ∧ b.toNat < 58 := by
  obtain ⟨d, hd, rfl⟩ := List.mem_map.mp h
  have hlt : d < 10 := Nat.digits_lt_base (by decide) (List.mem_reverse.mp hd)
  rw [UInt8.toNat_ofNat_of_lt' (Nat.lt_of_lt_of_le (Nat.add_lt_add_left hlt 48) (by decide))]
  omega

theorem map_decimal (n : ℕ) :
    (decimal n).map (fun b => b.toNat - 48) = (Nat.digits 10 n).reverse := by
  have hdigit : ∀ d ∈ (Nat.digits 10 n).reverse, (UInt8.ofNat (48 + d)).toNat - 48 = d := by
    intro d hd
    have hlt : d < 10 := Nat.digits_lt_base (by decide) (List.mem_reverse.mp hd)
    rw [UInt8.toNat_ofNat_of_lt' (Nat.lt_of_lt_of_le (Nat.add_lt_add_left hlt 48) (by decide)),
      Nat.add_sub_cancel_left]
  rw [decimal, List.map_map]
  exact (List.map_congr_left hdigit).trans (List.map_id _)

theorem decimal_inj {m n : ℕ} (h : decimal m = decimal n) : m = n := by
  have hmap := congrArg (List.map fun b : UInt8 => b.toNat - 48) h
  rw [map_decimal, map_decimal] at hmap
  exact Nat.digits.injective 10 (List.reverse_injective hmap)

/-- The last separator splits a name. -/
theorem split_inj {α : Type*} {x y p q : List α} {sep : α} (hp : sep ∉ p) (hq : sep ∉ q)
    (h : x ++ sep :: p = y ++ sep :: q) : x = y ∧ p = q := by
  induction x generalizing y with
  | nil =>
    cases y with
    | nil => exact ⟨rfl, (List.cons.inj h).2⟩
    | cons b y =>
      have hmem : sep ∈ p := by
        rw [(List.cons.inj h).2]
        exact List.mem_append_right _ List.mem_cons_self
      exact absurd hmem hp
  | cons a x ih =>
    cases y with
    | nil =>
      have hmem : sep ∈ q := by
        rw [← (List.cons.inj h).2]
        exact List.mem_append_right _ List.mem_cons_self
      exact absurd hmem hq
    | cons b y =>
      obtain ⟨hab, hrest⟩ := List.cons.inj h
      obtain ⟨rfl, rfl⟩ := ih hrest
      exact ⟨by rw [hab], rfl⟩

/-! ### Search -/

/-- The first number from `k` on that is not taken; `fuel` bounds the number of tries. -/
def firstFree (taken : ℕ → Bool) : ℕ → ℕ → Option ℕ
  | 0, _ => none
  | fuel + 1, k => if taken k then firstFree taken fuel (k + 1) else some k

variable {taken : ℕ → Bool}

theorem firstFree_spec {fuel k n : ℕ} (h : firstFree taken fuel k = some n) :
    k ≤ n ∧ taken n = false ∧ ∀ j, k ≤ j → j < n → taken j = true := by
  induction fuel generalizing k with
  | zero => cases h
  | succ fuel ih =>
    rw [firstFree] at h
    split_ifs at h with hk
    · obtain ⟨hle, hfree, hbelow⟩ := ih h
      refine ⟨by omega, hfree, fun j hj hjn => ?_⟩
      rcases Nat.eq_or_lt_of_le hj with rfl | hlt
      · exact hk
      · exact hbelow j hlt hjn
    · obtain rfl := Option.some.inj h
      exact ⟨Nat.le_refl _, by simpa using hk, fun j hj hjn => absurd hj (by omega)⟩

theorem firstFree_eq_none {fuel k : ℕ} (h : firstFree taken fuel k = none) :
    ∀ j < fuel, taken (k + j) = true := by
  induction fuel generalizing k with
  | zero => exact fun j hj => absurd hj (Nat.not_lt_zero j)
  | succ fuel ih =>
    rw [firstFree] at h
    split_ifs at h with hk
    · rintro (_ | j) hj
      · exact hk
      · rw [show k + (j + 1) = k + 1 + j by omega]
        exact ih h j (by omega)

/-- Names that differ from number to number cannot all be taken. -/
theorem firstFree_isSome {α : Type*} {name : ℕ → α} {names : List α} {k : ℕ}
    (hinj : ∀ i j, k ≤ i → k ≤ j → name i = name j → i = j)
    (htaken : ∀ j, taken j = true → name j ∈ names) :
    ∃ n, firstFree taken (names.length + 1) k = some n := by
  cases h : firstFree taken (names.length + 1) k with
  | some n => exact ⟨n, rfl⟩
  | none =>
    have hall := firstFree_eq_none h
    have hnodup : ((List.range (names.length + 1)).map fun j => name (k + j)).Nodup := by
      refine List.Nodup.map_on (fun i _ j _ heq => ?_) List.nodup_range
      have hij := hinj (k + i) (k + j) (by omega) (by omega) heq
      omega
    have hsub : ((List.range (names.length + 1)).map fun j => name (k + j)) ⊆ names := by
      intro a ha
      obtain ⟨j, hj, rfl⟩ := List.mem_map.mp ha
      exact htaken _ (hall j (List.mem_range.mp hj))
    have hle := (hnodup.subperm hsub).length_le
    rw [List.length_map, List.length_range] at hle
    omega

end Numbered
