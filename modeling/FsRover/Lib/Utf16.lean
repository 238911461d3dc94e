import Mathlib.Data.List.Chain

/-!
# Texts in UTF-16

A text as a list of units, where a character beyond the basic plane is a pair of surrogates.

## Main definitions

* `Utf16.encode` : the units of a list of characters.
* `Utf16.Paired` : each high surrogate is followed by a low one, and each low one follows a high one.

## Main results

* `Utf16.Paired.append`, `Utf16.Paired.of_append` : texts are put together and taken apart between
  characters.
* `Utf16.Paired.take`, `Utf16.Paired.dropLast_take` : what is left of a text that is cut.
-/

namespace Utf16

/-- A high surrogate. -/
def IsHigh (c : ℕ) : Prop := 0xd800 ≤ c ∧ c ≤ 0xdbff

/-- A low surrogate. -/
def IsLow (c : ℕ) : Prop := 0xdc00 ≤ c ∧ c ≤ 0xdfff

instance (c : ℕ) : Decidable (IsHigh c) := inferInstanceAs (Decidable (_ ∧ _))

instance (c : ℕ) : Decidable (IsLow c) := inferInstanceAs (Decidable (_ ∧ _))

theorem IsHigh.not_isLow {c : ℕ} (h : IsHigh c) : ¬ IsLow c := fun hlow =>
  Nat.not_le.mpr (Nat.lt_of_lt_of_le (by decide : 0xdbff < 0xdc00) hlow.1) h.2

/-- The units of a character. -/
def units (c : Char) : List ℕ :=
  if c.toNat < 0x10000 then [c.toNat]
  else [0xd800 + (c.toNat - 0x10000) / 0x400, 0xdc00 + (c.toNat - 0x10000) % 0x400]

/-- The units of a text. -/
def encode (text : List Char) : List ℕ := text.flatMap units

/-- No surrogate is without the other one of its pair. -/
structure Paired (l : List ℕ) : Prop where
  chain : l.IsChain fun a b => IsHigh a ↔ IsLow b
  head : ∀ c ∈ l.head?, ¬ IsLow c
  last : ∀ c ∈ l.getLast?, ¬ IsHigh c

namespace Paired

variable {l m : List ℕ}

theorem nil : Paired [] where
  chain := .nil
  head := fun _ h => by cases h
  last := fun _ h => by cases h

theorem singleton {c : ℕ} (hhigh : ¬ IsHigh c) (hlow : ¬ IsLow c) : Paired [c] :=
  ⟨.singleton c, fun _ h => Option.some.inj h ▸ hlow, fun _ h => Option.some.inj h ▸ hhigh⟩

theorem append (hl : Paired l) (hm : Paired m) : Paired (l ++ m) where
  chain := List.isChain_append.mpr ⟨hl.chain, hm.chain, fun a ha b hb =>
    iff_of_false (hl.last a ha) (hm.head b hb)⟩
  head := by
    intro c hc
    rw [List.head?_append] at hc
    cases l with
    | nil => exact hm.head c hc
    | cons d l => exact hl.head c hc
  last := by
    intro c hc
    rw [List.getLast?_append] at hc
    cases hm' : m.getLast? with
    | none =>
      rw [hm', Option.none_or] at hc
      exact hl.last c hc
    | some d =>
      rw [hm', Option.some_or] at hc
      exact hm.last c (hm' ▸ hc)

/-- A text is taken apart in front of a unit that is no low surrogate. -/
theorem of_append (h : Paired (l ++ m)) (hm : ∀ c ∈ m.head?, ¬ IsLow c) : Paired l ∧ Paired m := by
  obtain ⟨hl, hm', hbetween⟩ := List.isChain_append.mp h.chain
  refine ⟨⟨hl, fun c hc => h.head c ?_, fun c hc hhigh => ?_⟩,
    ⟨hm', hm, fun c hc => h.last c ?_⟩⟩
  · rw [List.head?_append, Option.mem_def.mp hc]
    rfl
  · cases hhead : m.head? with
    | none =>
      rw [List.head?_eq_none_iff.mp hhead, List.append_nil] at h
      exact h.last c hc hhigh
    | some d => exact hm d hhead ((hbetween c hc d hhead).mp hhigh)
  · rw [List.getLast?_append, Option.mem_def.mp hc]
    rfl

theorem take (h : Paired l) {k : ℕ} (hlast : ∀ c ∈ (l.take k).getLast?, ¬ IsHigh c) :
    Paired (l.take k) where
  chain := h.chain.take k
  head := by
    intro c hc
    cases k with
    | zero => cases hc
    | succ k =>
      cases l with
      | nil => cases hc
      | cons d l => exact h.head c hc
  last := hlast

/-- A cut behind a high surrogate is repaired by taking it away. -/
theorem dropLast_take (h : Paired l) {k c : ℕ} (hlast : (l.take k).getLast? = some c)
    (hhigh : IsHigh c) : Paired (l.take k).dropLast := by
  have hsplit : (l.take k).dropLast ++ [c] = l.take k := by
    have hne : l.take k ≠ [] := by
      rintro heq
      rw [heq] at hlast
      cases hlast
    rw [List.getLast?_eq_some_getLast hne] at hlast
    rw [← Option.some.inj hlast]
    exact List.dropLast_append_getLast hne
  have hchain := h.chain.take k
  rw [← hsplit] at hchain
  obtain ⟨hfront, -, hbetween⟩ := List.isChain_append.mp hchain
  refine ⟨hfront, fun d hd => ?_, fun d hd hdhigh => ?_⟩
  · have hhead : d ∈ (l.take k).head? := by
      rw [← hsplit, List.head?_append, Option.mem_def.mp hd]
      rfl
    cases k with
    | zero => cases hlast
    | succ k =>
      cases l with
      | nil => cases hlast
      | cons e l => exact h.head d hhead
  · exact hhigh.not_isLow ((hbetween d hd c rfl).mp hdhigh)

/-- Units may be replaced if surrogates stay what they are. -/
theorem map (h : Paired l) {f : ℕ → ℕ} (hhigh : ∀ c, IsHigh (f c) ↔ IsHigh c)
    (hlow : ∀ c, IsLow (f c) ↔ IsLow c) : Paired (l.map f) where
  chain := (List.isChain_map f).mpr (h.chain.imp fun a b hab => by rwa [hhigh, hlow])
  head := by
    intro c hc
    rw [List.head?_map, Option.mem_def, Option.map_eq_some_iff] at hc
    obtain ⟨d, hd, rfl⟩ := hc
    exact fun hfd => h.head d hd ((hlow d).mp hfd)
  last := by
    intro c hc
    rw [List.getLast?_map, Option.mem_def, Option.map_eq_some_iff] at hc
    obtain ⟨d, hd, rfl⟩ := hc
    exact fun hfd => h.last d hd ((hhigh d).mp hfd)

end Paired

theorem paired_units (c : Char) : Paired (units c) := by
  have hvalid : c.toNat < 0xd800 ∨ 0xdfff < c.toNat ∧ c.toNat < 0x110000 := c.valid
  rw [units]
  split_ifs with hplane
  · refine .singleton (fun h => ?_) fun h => ?_
    · exact hvalid.elim (fun hlt => Nat.not_le.mpr hlt h.1) fun hgt => by
        have hle := h.2
        omega
    · obtain ⟨h1, h2⟩ := h
      omega
  · have hhigh : IsHigh (0xd800 + (c.toNat - 0x10000) / 0x400) := by
      constructor <;> omega
    have hlow : IsLow (0xdc00 + (c.toNat - 0x10000) % 0x400) := by
      constructor <;> omega
    refine ⟨List.isChain_pair.mpr (iff_of_true hhigh hlow), fun d hd => ?_, fun d hd => ?_⟩
    · rw [← Option.some.inj hd]
      exact hhigh.not_isLow
    · rw [← Option.some.inj hd]
      exact fun h => h.not_isLow hlow

theorem paired_encode (text : List Char) : Paired (encode text) := by
  induction text with
  | nil => exact .nil
  | cons c text ih => exact (paired_units c).append ih

end Utf16
