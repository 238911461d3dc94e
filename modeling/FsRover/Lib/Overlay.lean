import Mathlib.Data.List.Nodup
import Mathlib.Data.Prod.Lex
import Mathlib.Order.Basic
import FsRover.Lib.Extents

/-!
# Runs that overlay each other

Runs with a start, a length and a time. Sorted by start, and by time from late to early where the
starts agree, they can be made disjoint in one pass that cuts from each run what the runs before it
cover. A place is then left to the first run of the sorted table that covers it, which is the last
one in time exactly when no run is shadowed: where a later run starts inside an earlier one, a run
that comes before both covers what they share.

## Main definitions

* `Overlay.rank` : the order of the sorted table.
* `Overlay.trim` : the pass.
* `Overlay.Unshadowed` : no run is hidden by one that is older.
* `Overlay.Latest` : what the last run that covers a place has there.

## Main results

* `Overlay.ascending_trim` : what the pass leaves is sorted and disjoint.
* `Overlay.find?_trim` : it leaves each place to the first run that covers it.
* `Overlay.first_is_last_iff` : the first run is the last in time when no run is shadowed.
* `Overlay.trim_latest_iff` : the pass leaves the latest of everything when no run is shadowed.
-/

namespace Overlay

open Extents

variable {α : Type} (start len time : α → ℕ) (cut : α → ℕ → α)

/-- By start, and where the starts agree the later run first. -/
def rank (a : α) : ℕ ×ₗ ℕᵒᵈ := toLex (start a, OrderDual.toDual (time a))

instance (a : α) (x : ℕ) : Decidable (Covers start len a x) := inferInstanceAs (Decidable (_ ∧ _))

/-- The first run that covers a place. -/
def find (es : List α) (x : ℕ) : Option α := es.find? fun e => decide (Covers start len e x)

/-- Cut from each run what lies below `covered`, the end of the runs before it. -/
def trim : ℕ → List α → List α
  | _, [] => []
  | covered, e :: es =>
    if start e < covered then
      if len e ≤ covered - start e then trim covered es
      else
        cut e (covered - start e)
          :: trim (start (cut e (covered - start e)) + len (cut e (covered - start e))) es
    else e :: trim (start e + len e) es

/-- Where an older run hides a younger one that starts in it, a run before both covers the place. -/
def Unshadowed (es : List α) : Prop :=
  ∀ a ∈ es, ∀ b ∈ es, ∀ x, Covers start len a x → Covers start len b x → start a < start b →
    time a < time b → ∃ g ∈ es, Covers start len g x ∧ rank start time g < rank start time a

/-- The last run in time that covers `x` has the value `v` there. -/
def Latest {β : Type} (value : α → ℕ → β) (es : List α) (x : ℕ) (v : β) : Prop :=
  ∃ a ∈ es, Covers start len a x ∧ value a x = v ∧ ∀ b ∈ es, Covers start len b x → time b ≤ time a

variable {start len time cut}

theorem rank_lt_iff {a b : α} : rank start time a < rank start time b ↔
    start a < start b ∨ start a = start b ∧ time b < time a := by
  rw [rank, rank, Prod.Lex.toLex_lt_toLex]
  rfl

theorem rank_le_iff {a b : α} : rank start time a ≤ rank start time b ↔
    start a < start b ∨ start a = start b ∧ time b ≤ time a := by
  rw [rank, rank, Prod.Lex.toLex_le_toLex]
  rfl

theorem find_cons_of_covers {e : α} {es : List α} {x : ℕ} (h : Covers start len e x) :
    find start len (e :: es) x = some e :=
  List.find?_cons_of_pos (decide_eq_true h)

theorem find_cons_of_not {e : α} {es : List α} {x : ℕ} (h : ¬ Covers start len e x) :
    find start len (e :: es) x = find start len es x :=
  List.find?_cons_of_neg (by simpa using h)

theorem find_eq_none_iff {es : List α} {x : ℕ} :
    find start len es x = none ↔ ∀ e ∈ es, ¬ Covers start len e x := by
  simp [find]

theorem find_mem {es : List α} {x : ℕ} {e : α} (h : find start len es x = some e) :
    e ∈ es ∧ Covers start len e x :=
  ⟨List.mem_of_find?_eq_some h, of_decide_eq_true (List.find?_some h :)⟩

theorem exists_find_iff {es : List α} {x : ℕ} :
    (∃ e, find start len es x = some e) ↔ ∃ e ∈ es, Covers start len e x := by
  constructor
  · rintro ⟨e, he⟩
    obtain ⟨hmem, hcov⟩ := find_mem he
    exact ⟨e, hmem, hcov⟩
  · rintro ⟨e, hmem, hcov⟩
    cases hfind : find start len es x with
    | some f => exact ⟨f, rfl⟩
    | none => exact absurd hcov (find_eq_none_iff.mp hfind e hmem)

/-- In a table without overlaps any run that covers a place is found. -/
theorem find_of_ascending {es : List α} {lo hi x : ℕ} (hasc : Ascending start len lo hi es) {e : α}
    (he : e ∈ es) (hcov : Covers start len e x) : find start len es x = some e := by
  obtain ⟨f, hf⟩ := exists_find_iff.mpr ⟨e, he, hcov⟩
  obtain ⟨hmem, hfx⟩ := find_mem hf
  rw [hf, hasc.covers_unique hmem he hfx hcov]

theorem find_eq_none_of_lt {es : List α} {x lo : ℕ} (h : ∀ e ∈ es, lo ≤ start e) (hx : x < lo) :
    find start len es x = none := by
  refine find_eq_none_iff.mpr fun e he hcov => ?_
  have hle := h e he
  have hstart := hcov.1
  omega

section Trim

variable (hstart : ∀ e k, k < len e → start (cut e k) = start e + k)
  (hlen : ∀ e k, k < len e → len (cut e k) = len e - k)
include hstart hlen

/-- What the pass leaves is sorted and disjoint. -/
theorem ascending_trim {hi : ℕ} : ∀ {es : List α} {covered : ℕ}, covered ≤ hi →
    (∀ e ∈ es, 0 < len e ∧ start e + len e ≤ hi) →
      Ascending start len covered hi (trim start len cut covered es)
  | [], covered, hle, _ => hle
  | e :: es, covered, hle, h => by
    have hrest : ∀ e ∈ es, 0 < len e ∧ start e + len e ≤ hi := fun e he =>
      h e (List.mem_cons_of_mem _ he)
    obtain ⟨hpos, hend⟩ := h e List.mem_cons_self
    rw [trim]
    split_ifs with hlt hskip
    · exact ascending_trim hle hrest
    · rw [Nat.not_le] at hskip
      have hs := hstart e _ hskip
      have hl := hlen e _ hskip
      exact ⟨by omega, by omega, ascending_trim (by omega) hrest⟩
    · exact ⟨by omega, hpos, ascending_trim hend hrest⟩

/-- The pass leaves a place to the first run that covers it, moved by the cut, and leaves out the
places below the bound. -/
theorem find?_trim {β : Type} {value : α → ℕ → β}
    (hvalue : ∀ e k x, k < len e → start e + k ≤ x → value (cut e k) x = value e x) {x : ℕ} :
    ∀ {es : List α} {covered : ℕ}, es.Pairwise (fun a b => start a ≤ start b) →
      (find start len (trim start len cut covered es) x).map (value · x)
        = if x < covered then none else (find start len es x).map (value · x)
  | [], covered, _ => by simp [trim, find]
  | e :: es, covered, hsorted => by
    obtain ⟨hfirst, hrest⟩ := List.pairwise_cons.mp hsorted
    rw [trim]
    split_ifs with hlt hskip hx hx hx
    · rw [find?_trim hvalue hrest, if_pos hx]
    · -- the run ends below the bound
      have hnot : ¬ Covers start len e x := fun hcov => by
        have := hcov.2
        omega
      rw [find?_trim hvalue hrest, if_neg hx, find_cons_of_not hnot]
    · rw [Nat.not_le] at hskip
      have hs := hstart e _ hskip
      have hl := hlen e _ hskip
      have hnot : ¬ Covers start len (cut e (covered - start e)) x := fun hcov => by
        have := hcov.1
        omega
      rw [find_cons_of_not hnot, find?_trim hvalue hrest, if_pos (by omega)]
    · -- the rest of the run begins at the bound
      rw [Nat.not_le] at hskip
      have hs := hstart e _ hskip
      have hl := hlen e _ hskip
      by_cases hcov : x < start e + len e
      · rw [find_cons_of_covers (e := cut e (covered - start e)) ⟨by omega, by omega⟩,
          find_cons_of_covers (e := e) ⟨by omega, hcov⟩, Option.map_some, Option.map_some,
          hvalue e _ x hskip (by omega)]
      · rw [find_cons_of_not (e := cut e (covered - start e)) fun h => by have := h.2; omega,
          find_cons_of_not (e := e) fun h => hcov h.2, find?_trim hvalue hrest, if_neg (by omega)]
    · have hnot : ¬ Covers start len e x := fun hcov => by
        have := hcov.1
        omega
      rw [find_cons_of_not hnot, find?_trim hvalue hrest, if_pos (by omega)]
    · by_cases hcov : Covers start len e x
      · rw [find_cons_of_covers hcov, find_cons_of_covers hcov]
      · rw [find_cons_of_not hcov, find_cons_of_not hcov, find?_trim hvalue hrest]
        split_ifs with hend
        · have hbefore : x < start e := by
            by_contra hge
            exact hcov ⟨by omega, hend⟩
          rw [find_eq_none_of_lt hfirst hbefore, Option.map_none]
        · rfl

theorem exists_covers_trim_iff {es : List α} (hsorted : es.Pairwise fun a b => start a ≤ start b)
    {x : ℕ} : (∃ e ∈ trim start len cut 0 es, Covers start len e x) ↔ ∃ e ∈ es, Covers start len e x := by
  have hfind : (find start len (trim start len cut 0 es) x).map (fun _ => ())
      = if x < 0 then none else (find start len es x).map fun _ => () :=
    @find?_trim α start len cut hstart hlen Unit (fun _ _ => ()) (fun _ _ _ _ _ => rfl) x es 0 hsorted
  rw [if_neg (Nat.not_lt_zero x)] at hfind
  rw [← exists_find_iff, ← exists_find_iff]
  cases htrim : find start len (trim start len cut 0 es) x <;> cases hes : find start len es x <;>
    simp_all

end Trim

/-- In a table sorted by rank the first run that covers a place has the least rank of them. -/
theorem find_rank_le {es : List α}
    (hsorted : es.Pairwise fun a b => rank start time a ≤ rank start time b) {x : ℕ} {a b : α}
    (ha : find start len es x = some a) (hb : b ∈ es) (hcov : Covers start len b x) :
    rank start time a ≤ rank start time b := by
  induction es with
  | nil => cases hb
  | cons e es ih =>
    obtain ⟨hfirst, hrest⟩ := List.pairwise_cons.mp hsorted
    by_cases he : Covers start len e x
    · rw [find_cons_of_covers he] at ha
      obtain rfl := Option.some.inj ha
      rcases List.mem_cons.mp hb with rfl | hb
      · exact le_rfl
      · exact hfirst b hb
    · rw [find_cons_of_not he] at ha
      rcases List.mem_cons.mp hb with rfl | hb
      · exact absurd hcov he
      · exact ih hrest ha hb

/-- In the sorted table the first run that covers a place is the last of them in time, for every
place, if and only if no run is shadowed. -/
theorem first_is_last_iff {es sorted : List α} (hperm : sorted.Perm es)
    (hsorted : sorted.Pairwise fun a b => rank start time a ≤ rank start time b) :
    (∀ x a, find start len sorted x = some a → ∀ b ∈ es, Covers start len b x → time b ≤ time a)
      ↔ Unshadowed start len time es := by
  constructor
  · intro h a ha b hb x hax hbx hstart htimes
    obtain ⟨f, hf⟩ : ∃ f, find start len sorted x = some f := by
      cases hfind : find start len sorted x with
      | some f => exact ⟨f, rfl⟩
      | none => exact absurd hax (find_eq_none_iff.mp hfind a (hperm.mem_iff.mpr ha))
    obtain ⟨hmem, hcov⟩ := find_mem hf
    refine ⟨f, hperm.mem_iff.mp hmem, hcov, ?_⟩
    have hle := find_rank_le hsorted hf (hperm.mem_iff.mpr ha) hax
    have hlast := h x f hf b hb hbx
    -- the first run is younger than `a`, so it is not `a`
    rcases rank_le_iff.mp hle with hlt | ⟨heq, hge⟩
    · exact rank_lt_iff.mpr (.inl hlt)
    · exact rank_lt_iff.mpr (.inr ⟨heq, by omega⟩)
  · intro h x a ha b hb hcov
    by_contra hgt
    rw [Nat.not_le] at hgt
    obtain ⟨hmem, hax⟩ := find_mem ha
    have hstart : start a < start b := by
      rcases rank_le_iff.mp (find_rank_le hsorted ha (hperm.mem_iff.mpr hb) hcov) with hlt | ⟨-, hge⟩
      · exact hlt
      · omega
    obtain ⟨g, hg, hgx, hlt⟩ := h a (hperm.mem_iff.mp hmem) b hb x hax hcov hstart hgt
    exact absurd (find_rank_le hsorted ha (hperm.mem_iff.mpr hg) hgx) (not_le_of_gt hlt)

/-- After sort and pass every place has its latest value, and the other places have none, if and only
if no run is shadowed. -/
theorem trim_latest_iff {β : Type} {value : α → ℕ → β} {es sorted : List α}
    (hstart : ∀ e k, k < len e → start (cut e k) = start e + k)
    (hlen : ∀ e k, k < len e → len (cut e k) = len e - k)
    (hvalue : ∀ e k x, k < len e → start e + k ≤ x → value (cut e k) x = value e x)
    (hperm : sorted.Perm es)
    (hsorted : sorted.Pairwise fun a b => rank start time a ≤ rank start time b)
    (htime : ∀ a ∈ es, ∀ b ∈ es, time a = time b → a = b)
    (hinj : ∀ a ∈ es, ∀ b ∈ es, ∀ x, Covers start len a x → Covers start len b x →
      value a x = value b x → a = b) :
    (∀ x v, (find start len (trim start len cut 0 sorted) x).map (value · x) = some v
        ↔ Latest start len time value es x v) ↔ Unshadowed start len time es := by
  have hstarts : sorted.Pairwise fun a b => start a ≤ start b := hsorted.imp fun h => by
    rcases rank_le_iff.mp h with hlt | ⟨heq, -⟩ <;> omega
  have htrim : ∀ x, (find start len (trim start len cut 0 sorted) x).map (value · x)
      = (find start len sorted x).map (value · x) := fun x => by
    rw [find?_trim hstart hlen hvalue hstarts, if_neg (Nat.not_lt_zero x)]
  rw [← first_is_last_iff hperm hsorted]
  simp only [htrim, Option.map_eq_some_iff]
  constructor
  · intro h x a ha
    obtain ⟨hmem, hax⟩ := find_mem ha
    obtain ⟨a', ha', hax', hv, hlast⟩ := (h x (value a x)).mp ⟨a, ha, rfl⟩
    obtain rfl := hinj a' ha' a (hperm.mem_iff.mp hmem) x hax' hax hv
    exact hlast
  · intro h x v
    constructor
    · rintro ⟨a, ha, rfl⟩
      obtain ⟨hmem, hax⟩ := find_mem ha
      exact ⟨a, hperm.mem_iff.mp hmem, hax, rfl, h x a ha⟩
    · rintro ⟨a, ha, hax, rfl, hlast⟩
      cases hfind : find start len sorted x with
      | none => exact absurd hax (find_eq_none_iff.mp hfind a (hperm.mem_iff.mpr ha))
      | some f =>
        obtain ⟨hmem, hfx⟩ := find_mem hfind
        have hle := h x f hfind a ha hax
        have hge := hlast f (hperm.mem_iff.mp hmem) hfx
        obtain rfl := htime f (hperm.mem_iff.mp hmem) a ha (Nat.le_antisymm hge hle)
        exact ⟨f, rfl, rfl⟩

theorem unshadowed_of_ascending {es : List α} {lo hi : ℕ} (h : Ascending start len lo hi es) :
    Unshadowed start len time es := by
  intro a ha b hb x hax hbx hlt
  obtain rfl := h.covers_unique ha hb hax hbx
  exact absurd hlt (Nat.lt_irrefl _)

end Overlay
