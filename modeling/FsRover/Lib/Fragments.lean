import FsRover.Lib.Extents

/-!
# Files rebuilt from a log of writes

A file is a list of ascending fragments, each with a tag that tells which write it is left of. A
write replaces what it covers, and a size below the one before cuts the file off.

## Main definitions

* `Fragments.Frag` : a fragment.
* `Fragments.below`, `Fragments.above` : what lies below, and above, a place.
* `Fragments.overwrite`, `Fragments.step`, `Fragments.replay` : one write, one entry of the log, and
  the whole log.
* `Fragments.Shown` : a place lies in a fragment with the tag.
* `Fragments.Untouched` : what the entries of a log leave alone.

## Main results

* `Fragments.ascending_overwrite`, `Fragments.shown_overwrite` : the rule of one write.
* `Fragments.shown_replay` : a place shows the last write that covers it, if it is not cut off.
-/

namespace Fragments

variable {τ : Type}

structure Frag (τ : Type) where
  start : ℕ
  len : ℕ
  tag : τ
  deriving DecidableEq

/-- The fragments ascend from `lo` to `hi`. -/
abbrev Ascending (lo hi : ℕ) (l : List (Frag τ)) : Prop :=
  Extents.Ascending Frag.start Frag.len lo hi l

abbrev Covers (f : Frag τ) (x : ℕ) : Prop := Extents.Covers Frag.start Frag.len f x

/-- The place `x` lies in a fragment with tag `t`. -/
def Shown (l : List (Frag τ)) (x : ℕ) (t : τ) : Prop := ∃ f ∈ l, Covers f x ∧ f.tag = t

/-- What lies below `a`. -/
def below (a : ℕ) : List (Frag τ) → List (Frag τ)
  | [] => []
  | f :: l =>
    if f.start + f.len ≤ a then f :: below a l
    else if f.start < a then [{ f with len := a - f.start }] else []

/-- What lies at `b` and above. -/
def above (b : ℕ) : List (Frag τ) → List (Frag τ)
  | [] => []
  | f :: l =>
    if f.start < b then
      if b < f.start + f.len then { f with start := b, len := f.start + f.len - b } :: l
      else above b l
    else f :: l

/-- Replace what `g` covers. -/
def overwrite (g : Frag τ) (l : List (Frag τ)) : List (Frag τ) :=
  below g.start l ++ g :: above (g.start + g.len) l

variable {l : List (Frag τ)} {lo hi a b x : ℕ} {t : τ}

@[simp] theorem shown_nil : ¬ Shown ([] : List (Frag τ)) x t := by simp [Shown]

@[simp] theorem shown_cons {f : Frag τ} :
    Shown (f :: l) x t ↔ (Covers f x ∧ f.tag = t) ∨ Shown l x t := by simp [Shown]

@[simp] theorem shown_append {l' : List (Frag τ)} :
    Shown (l ++ l') x t ↔ Shown l x t ∨ Shown l' x t := by
  simp only [Shown, List.mem_append, or_and_right, exists_or]

theorem Shown.bounds (h : Ascending lo hi l) (hx : Shown l x t) : lo ≤ x ∧ x < hi := by
  obtain ⟨f, hmem, hcov, -⟩ := hx
  have hf := h.mem hmem
  unfold Covers Extents.Covers at hcov
  omega

theorem ascending_below (h : Ascending lo hi l) (ha : lo ≤ a) :
    Ascending lo (min hi a) (below a l) := by
  induction l generalizing lo with
  | nil => exact Nat.le_min.mpr ⟨h, ha⟩
  | cons f l ih =>
    obtain ⟨hlo, hpos, hrest⟩ := h
    have hhi := hrest.le
    rw [below]
    split_ifs with hstop hstart
    · exact ⟨hlo, hpos, ih hrest hstop⟩
    · refine ⟨hlo, by simp only; omega, ?_⟩
      change f.start + (a - f.start) ≤ min hi a
      omega
    · change lo ≤ min hi a
      omega

theorem shown_below (h : Ascending lo hi l) : Shown (below a l) x t ↔ x < a ∧ Shown l x t := by
  induction l generalizing lo with
  | nil => simp [below]
  | cons f l ih =>
    obtain ⟨-, -, hrest⟩ := h
    have hlater : Shown l x t → f.start + f.len ≤ x := fun hx => (hx.bounds hrest).1
    rw [below]
    split_ifs with hstop hstart
    · rw [shown_cons, ih hrest, shown_cons]
      unfold Covers Extents.Covers
      constructor
      · rintro (⟨hcov, htag⟩ | ⟨hlt, hx⟩)
        · exact ⟨by omega, .inl ⟨hcov, htag⟩⟩
        · exact ⟨hlt, .inr hx⟩
      · rintro ⟨hlt, hcov | hx⟩
        · exact .inl hcov
        · exact .inr ⟨hlt, hx⟩
    · rw [shown_cons, shown_cons]
      simp only [shown_nil, or_false, Extents.Covers]
      constructor
      · rintro ⟨hcov, htag⟩
        exact ⟨by omega, .inl ⟨by omega, htag⟩⟩
      · rintro ⟨hlt, ⟨hcov, htag⟩ | hx⟩
        · exact ⟨by omega, htag⟩
        · have := hlater hx
          omega
    · rw [shown_cons]
      simp only [shown_nil, Extents.Covers, false_iff, not_and]
      rintro hlt (⟨hcov, -⟩ | hx)
      · omega
      · have := hlater hx
        omega

theorem ascending_above (h : Ascending lo hi l) : Ascending (max lo b) (max hi b) (above b l) := by
  induction l generalizing lo with
  | nil =>
    change max lo b ≤ max hi b
    have hle : lo ≤ hi := h
    omega
  | cons f l ih =>
    obtain ⟨hlo, hpos, hrest⟩ := h
    rw [above]
    split_ifs with hstart hstop
    · refine ⟨by simp only; omega, by simp only; omega, ?_⟩
      have hend : b + (f.start + f.len - b) = f.start + f.len := by omega
      rw [hend]
      exact hrest.mono (Nat.le_refl _) (Nat.le_max_left _ _)
    · exact (ih hrest).mono (by omega) (Nat.le_refl _)
    · exact ⟨by omega, hpos, hrest.mono (Nat.le_refl _) (Nat.le_max_left _ _)⟩

theorem shown_above (h : Ascending lo hi l) : Shown (above b l) x t ↔ b ≤ x ∧ Shown l x t := by
  induction l generalizing lo with
  | nil => simp [above]
  | cons f l ih =>
    obtain ⟨-, hpos, hrest⟩ := h
    have hlater : Shown l x t → f.start + f.len ≤ x := fun hx => (hx.bounds hrest).1
    rw [above]
    split_ifs with hstart hstop
    · rw [shown_cons, shown_cons]
      simp only [Extents.Covers]
      constructor
      · rintro (⟨hcov, htag⟩ | hx)
        · exact ⟨by omega, .inl ⟨by omega, htag⟩⟩
        · have := hlater hx
          exact ⟨by omega, .inr hx⟩
      · rintro ⟨hle, ⟨hcov, htag⟩ | hx⟩
        · exact .inl ⟨by omega, htag⟩
        · exact .inr hx
    · rw [ih hrest, shown_cons]
      simp only [Extents.Covers]
      constructor
      · rintro ⟨hle, hx⟩
        exact ⟨hle, .inr hx⟩
      · rintro ⟨hle, ⟨hcov, -⟩ | hx⟩
        · omega
        · exact ⟨hle, hx⟩
    · refine ⟨fun hx => ⟨?_, hx⟩, fun hx => hx.2⟩
      rcases shown_cons.mp hx with ⟨hcov, -⟩ | hx
      · unfold Covers Extents.Covers at hcov
        omega
      · have := hlater hx
        omega

/-- What ends by `a` lies below `a`. -/
theorem below_append {l' : List (Frag τ)} (h : ∀ f ∈ l, f.start + f.len ≤ a) :
    below a (l ++ l') = l ++ below a l' := by
  induction l with
  | nil => rfl
  | cons f l ih =>
    rw [List.cons_append, below, if_pos (h f List.mem_cons_self),
      ih fun g hg => h g (List.mem_cons_of_mem _ hg), List.cons_append]

/-- A last fragment from `a` on is dropped. -/
theorem below_concat {f : Frag τ} (hpos : 0 < f.len) (h : a ≤ f.start) :
    below a (l ++ [f]) = below a l := by
  induction l with
  | nil =>
    have hstop : ¬ f.start + f.len ≤ a := by omega
    simp [below, hstop, Nat.not_lt.mpr h]
  | cons g l ih => rw [List.cons_append, below, below, ih]

/-- What ends by `b` is not above `b`. -/
theorem above_append {l' : List (Frag τ)} (h : ∀ f ∈ l, f.start < b ∧ f.start + f.len ≤ b) :
    above b (l ++ l') = above b l' := by
  induction l with
  | nil => rfl
  | cons f l ih =>
    have hf := h f List.mem_cons_self
    rw [List.cons_append, above, if_pos hf.1, if_neg (Nat.not_lt.mpr hf.2),
      ih fun g hg => h g (List.mem_cons_of_mem _ hg)]

/-- A write leaves the fragments ascending. -/
theorem ascending_overwrite {g : Frag τ} (h : Ascending 0 hi l) (hg : 0 < g.len) :
    Ascending 0 (max hi (g.start + g.len)) (overwrite g l) := by
  refine Extents.Ascending.append ((ascending_below h (Nat.zero_le g.start)).mono
    (Nat.le_refl 0) (Nat.min_le_right _ _)) ⟨Nat.le_refl _, hg, ?_⟩
  exact (ascending_above h).mono (Nat.le_max_right _ _) (Nat.le_refl _)

/-- A write shows where it covers, and what was there shows elsewhere. -/
theorem shown_overwrite {g : Frag τ} (h : Ascending 0 hi l) :
    Shown (overwrite g l) x t ↔ (Covers g x ∧ g.tag = t) ∨ (¬ Covers g x ∧ Shown l x t) := by
  rw [overwrite, shown_append, shown_cons, shown_below h, shown_above h]
  simp only [Extents.Covers]
  constructor
  · rintro (⟨hlt, hx⟩ | hg | ⟨hle, hx⟩)
    · exact .inr ⟨by omega, hx⟩
    · exact .inl hg
    · exact .inr ⟨by omega, hx⟩
  · rintro (hg | ⟨hnot, hx⟩)
    · exact .inr (.inl hg)
    · rcases Nat.lt_or_ge x g.start with hlt | hge
      · exact .inl ⟨hlt, hx⟩
      · exact .inr (.inr ⟨by omega, hx⟩)

/-! ### Logs -/

/-- An entry of a log: the size of the file, and what is written, which may be nothing. -/
structure Entry (τ : Type) where
  size : ℕ
  write : Frag τ

/-- The effect of an entry on a file with the size of the entry before. -/
def step (s : ℕ × List (Frag τ)) (e : Entry τ) : ℕ × List (Frag τ) :=
  let kept := if e.size < s.1 then below e.size s.2 else s.2
  (e.size, if e.write.len = 0 then kept else overwrite e.write kept)

/-- The entries of a log on a file, in their order. -/
def replay (s : ℕ × List (Frag τ)) (log : List (Entry τ)) : ℕ × List (Frag τ) := log.foldl step s

/-- No entry covers `x`, and none takes the size, `size` at first, down to `x` or less. -/
def Untouched (x : ℕ) : ℕ → List (Entry τ) → Prop
  | _, [] => True
  | size, e :: log =>
    ¬ Covers e.write x ∧ ¬ (e.size < size ∧ e.size ≤ x) ∧ Untouched x e.size log

variable {s : ℕ × List (Frag τ)}

/-- An entry leaves the fragments ascending, up to a bound that its write keeps. -/
theorem ascending_step (h : Ascending 0 hi s.2) {e : Entry τ}
    (he : e.write.start + e.write.len ≤ hi) : Ascending 0 hi (step s e).2 := by
  have hkept : Ascending 0 hi (if e.size < s.1 then below e.size s.2 else s.2) := by
    split_ifs
    · exact (ascending_below h (Nat.zero_le _)).mono (Nat.le_refl _) (Nat.min_le_left _ _)
    · exact h
  simp only [step]
  by_cases hlen : e.write.len = 0
  · rw [if_pos hlen]
    exact hkept
  · rw [if_neg hlen]
    exact (ascending_overwrite hkept (Nat.pos_of_ne_zero hlen)).mono (Nat.le_refl _)
      (Nat.max_le.mpr ⟨Nat.le_refl _, he⟩)

/-- What shows after an entry: what it writes, or what it leaves alone. -/
theorem shown_step (h : Ascending 0 hi s.2) (e : Entry τ) :
    Shown (step s e).2 x t ↔ (Covers e.write x ∧ e.write.tag = t)
      ∨ (¬ Covers e.write x ∧ ¬ (e.size < s.1 ∧ e.size ≤ x) ∧ Shown s.2 x t) := by
  have hkept : Ascending 0 hi (if e.size < s.1 then below e.size s.2 else s.2) := by
    split_ifs
    · exact (ascending_below h (Nat.zero_le _)).mono (Nat.le_refl _) (Nat.min_le_left _ _)
    · exact h
  have hshown : Shown (if e.size < s.1 then below e.size s.2 else s.2) x t
      ↔ ¬ (e.size < s.1 ∧ e.size ≤ x) ∧ Shown s.2 x t := by
    split_ifs with hcut
    · rw [shown_below h]
      simp [hcut]
    · simp [hcut]
  simp only [step]
  by_cases hlen : e.write.len = 0
  · have hcov : ¬ Covers e.write x := by
      unfold Covers Extents.Covers
      omega
    rw [if_pos hlen, hshown]
    simp [hcov]
  · rw [if_neg hlen, shown_overwrite hkept, hshown]

theorem ascending_replay (h : Ascending 0 hi s.2) {log : List (Entry τ)}
    (hlog : ∀ e ∈ log, e.write.start + e.write.len ≤ hi) : Ascending 0 hi (replay s log).2 := by
  induction log generalizing s with
  | nil => exact h
  | cons e log ih =>
    exact ih (ascending_step h (hlog e List.mem_cons_self))
      fun e' hmem => hlog e' (List.mem_cons_of_mem _ hmem)

/-- After a log a place shows the last write that covers it, or what it showed before, unless it is
cut off later. -/
theorem shown_replay (h : Ascending 0 hi s.2) {log : List (Entry τ)}
    (hlog : ∀ e ∈ log, e.write.start + e.write.len ≤ hi) :
    Shown (replay s log).2 x t ↔ (Shown s.2 x t ∧ Untouched x s.1 log)
      ∨ ∃ pre e post, log = pre ++ e :: post ∧ Covers e.write x ∧ e.write.tag = t
        ∧ Untouched x e.size post := by
  induction log generalizing s with
  | nil => simp [replay, Untouched]
  | cons e log ih =>
    have hstep := ascending_step h (hlog e List.mem_cons_self)
    have hrec := ih hstep fun e' hmem => hlog e' (List.mem_cons_of_mem _ hmem)
    rw [replay, List.foldl_cons, ← replay, hrec, shown_step h e, Untouched]
    constructor
    · rintro (⟨⟨hcov, htag⟩ | ⟨hnot, hcut, hx⟩, hrest⟩ | ⟨pre, e', post, rfl, hlast⟩)
      · exact .inr ⟨[], e, log, rfl, hcov, htag, hrest⟩
      · exact .inl ⟨hx, hnot, hcut, hrest⟩
      · exact .inr ⟨e :: pre, e', post, rfl, hlast⟩
    · rintro (⟨hx, hnot, hcut, hrest⟩ | ⟨pre, e', post, hsplit, hlast⟩)
      · exact .inl ⟨.inr ⟨hnot, hcut, hx⟩, hrest⟩
      · cases pre with
        | nil =>
          obtain ⟨rfl, rfl⟩ := List.cons.inj hsplit
          exact .inl ⟨.inl ⟨hlast.1, hlast.2.1⟩, hlast.2.2⟩
        | cons e'' pre =>
          obtain ⟨rfl, rfl⟩ := List.cons.inj hsplit
          exact .inr ⟨pre, e', post, rfl, hlast⟩

theorem replay_fst (s : ℕ × List (Frag τ)) (log : List (Entry τ)) :
    (replay s log).1 = (log.getLast?.map (·.size)).getD s.1 := by
  induction log generalizing s with
  | nil => rfl
  | cons e log ih =>
    rw [replay, List.foldl_cons, ← replay, ih]
    cases log with
    | nil => rfl
    | cons e' log => simp [List.getLast?_cons]

end Fragments
