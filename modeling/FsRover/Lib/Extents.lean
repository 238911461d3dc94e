import Mathlib.Data.Nat.Notation
import Mathlib.Tactic.Common

/-!
# Ascending extents

A table of extents, each with a start and a length, in which every extent begins where the one
before it ends, or later.

## Main definitions

* `Extents.Ascending` : the table ascends within two bounds.
* `Extents.IsFirstAfter` : an index is that of the first extent that ends after an offset.

## Main results

* `Extents.IsFirstAfter.not_covered` : no extent covers the offsets before the first one.
-/

namespace Extents

variable {α : Type} (start len : α → ℕ)

/-- The extents ascend from `lo` to `hi`, and none is empty. -/
def Ascending (lo hi : ℕ) : List α → Prop
  | [] => lo ≤ hi
  | e :: es => lo ≤ start e ∧ 0 < len e ∧ Ascending (start e + len e) hi es

/-- The extent covers the offset. -/
def Covers (e : α) (x : ℕ) : Prop := start e ≤ x ∧ x < start e + len e

/-- `nr` is the index of the first extent that ends after `off`, or the length of the table. -/
structure IsFirstAfter (es : List α) (off nr : ℕ) : Prop where
  le_length : nr ≤ es.length
  before : ∀ i e, i < nr → es[i]? = some e → start e + len e ≤ off
  after : ∀ e, es[nr]? = some e → off < start e + len e

variable {start len} {es : List α} {lo hi : ℕ}

theorem Ascending.le (h : Ascending start len lo hi es) : lo ≤ hi := by
  induction es generalizing lo with
  | nil => exact h
  | cons e es ih =>
    have hrest := ih h.2.2
    have hfirst := h.1
    omega

theorem Ascending.mono {lo' hi' : ℕ} (h : Ascending start len lo hi es) (hlo : lo' ≤ lo)
    (hhi : hi ≤ hi') : Ascending start len lo' hi' es := by
  induction es generalizing lo lo' with
  | nil => exact Nat.le_trans hlo (Nat.le_trans h hhi)
  | cons e es ih => exact ⟨Nat.le_trans hlo h.1, h.2.1, ih h.2.2 (Nat.le_refl _)⟩

theorem Ascending.mem (h : Ascending start len lo hi es) {e : α} (he : e ∈ es) :
    lo ≤ start e ∧ 0 < len e ∧ start e + len e ≤ hi := by
  induction es generalizing lo with
  | nil => cases he
  | cons e' es ih =>
    rcases List.mem_cons.mp he with rfl | he
    · exact ⟨h.1, h.2.1, h.2.2.le⟩
    · obtain ⟨hlo, hpos, hhi⟩ := ih h.2.2 he
      have hfirst := h.1
      exact ⟨by omega, hpos, hhi⟩

theorem Ascending.append {mid : ℕ} {es' : List α} (h : Ascending start len lo mid es)
    (h' : Ascending start len mid hi es') : Ascending start len lo hi (es ++ es') := by
  induction es generalizing lo with
  | nil => exact h'.mono h (Nat.le_refl _)
  | cons e es ih => exact ⟨h.1, h.2.1, ih h.2.2⟩

theorem ascending_append_iff {es' : List α} : Ascending start len lo hi (es ++ es') ↔
    ∃ mid, Ascending start len lo mid es ∧ Ascending start len mid hi es' := by
  constructor
  · intro h
    induction es generalizing lo with
    | nil => exact ⟨lo, Nat.le_refl _, h⟩
    | cons e es ih =>
      obtain ⟨mid, hfirst, hrest⟩ := ih h.2.2
      exact ⟨mid, ⟨h.1, h.2.1, hfirst⟩, hrest⟩
  · rintro ⟨mid, h, h'⟩
    exact h.append h'

/-- Of two extents the earlier one ends before the later one starts. -/
theorem Ascending.pairwise (h : Ascending start len lo hi es) :
    es.Pairwise fun a b => start a + len a ≤ start b := by
  induction es generalizing lo with
  | nil => exact List.Pairwise.nil
  | cons e es ih => exact List.pairwise_cons.mpr ⟨fun b hb => (h.2.2.mem hb).1, ih h.2.2⟩

theorem Ascending.end_le (h : Ascending start len lo hi es) {i j : ℕ} {a b : α} (hij : i ≤ j)
    (ha : es[i]? = some a) (hb : es[j]? = some b) : start a + len a ≤ start b + len b := by
  rcases Nat.eq_or_lt_of_le hij with rfl | hlt
  · obtain rfl := Option.some.inj (ha.symm.trans hb)
    exact Nat.le_refl _
  · obtain ⟨hi, rfl⟩ := List.getElem?_eq_some_iff.mp ha
    obtain ⟨hj, rfl⟩ := List.getElem?_eq_some_iff.mp hb
    have hle := List.pairwise_iff_getElem.mp h.pairwise i j hi hj hlt
    omega

theorem Ascending.covers_unique (h : Ascending start len lo hi es) {a b : α} {x : ℕ} (ha : a ∈ es)
    (hb : b ∈ es) (hax : Covers start len a x) (hbx : Covers start len b x) : a = b := by
  obtain ⟨i, hi⟩ := List.mem_iff_getElem?.mp ha
  obtain ⟨j, hj⟩ := List.mem_iff_getElem?.mp hb
  obtain ⟨hil, hi'⟩ := List.getElem?_eq_some_iff.mp hi
  obtain ⟨hjl, hj'⟩ := List.getElem?_eq_some_iff.mp hj
  rcases Nat.lt_trichotomy i j with hlt | rfl | hgt
  · have hle := List.pairwise_iff_getElem.mp h.pairwise i j hil hjl hlt
    rw [hi', hj'] at hle
    have hlast := hax.2
    have hfirst := hbx.1
    omega
  · rw [hi] at hj
    exact Option.some.inj hj
  · have hle := List.pairwise_iff_getElem.mp h.pairwise j i hjl hil hgt
    rw [hi', hj'] at hle
    have hlast := hbx.2
    have hfirst := hax.1
    omega

/-- Up to the start of the first extent after `off` no offset is covered. -/
theorem IsFirstAfter.not_covered {off nr x : ℕ} (h : IsFirstAfter start len es off nr)
    (hasc : Ascending start len lo hi es) (hx : off ≤ x)
    (hgap : ∀ e, es[nr]? = some e → x < start e) {e : α} (he : e ∈ es) :
    ¬ Covers start len e x := by
  rintro ⟨hfirst, hlast⟩
  obtain ⟨i, hi⟩ := List.mem_iff_getElem?.mp he
  rcases Nat.lt_trichotomy i nr with hlt | rfl | hgt
  · have hbefore := h.before i e hlt hi
    omega
  · have hstart := hgap e hi
    omega
  · obtain ⟨hil, hi'⟩ := List.getElem?_eq_some_iff.mp hi
    have hnr := Nat.lt_trans hgt hil
    have hle := List.pairwise_iff_getElem.mp hasc.pairwise nr i hnr hil hgt
    have hstart := hgap es[nr] (List.getElem?_eq_getElem hnr)
    rw [hi'] at hle
    omega

end Extents
