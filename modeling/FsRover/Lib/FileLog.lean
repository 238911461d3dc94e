import Mathlib.Data.Prod.Lex
import Mathlib.Data.List.Induction
import Mathlib.Order.Basic
import Mathlib.Tactic.Common

/-!
# Logs of a file

A file is kept as a log of chunks that are written and sizes that are set; a size below the one
before it discards the chunks that begin at or behind it. The log has its newest entry in front.

## Main definitions

* `FileLog.newest` : the element of the largest key, found by keeping the newer of two.
* `FileLog.Entry`, `FileLog.replay` : logs and the file they make.
* `FileLog.size`, `FileLog.lastWrite` : what the newest entries say on their own.
* `FileLog.Discarded` : a chunk was cut off and not written again.

## Main results

* `FileLog.newest_eq_some_iff` : the order in which elements are seen does not matter.
* `FileLog.replay_size`, `FileLog.replay_chunk` : the newest entries give the file, except for the
  chunks that were cut off.
-/

namespace FileLog

/-! ### The newest element -/

section Newest

variable {α κ : Type*} [LinearOrder κ] (key : α → κ)

/-- The newer of the element kept so far and the next one. -/
def keep : Option α → α → Option α
  | none, a => some a
  | some b, a => if key b < key a then some a else some b

/-- Keep the newer one while going through a list. -/
def newest (l : List α) : Option α := l.foldl (keep key) none

variable {key}

@[simp] theorem newest_nil : newest key [] = none := rfl

theorem newest_concat (l : List α) (a : α) : newest key (l ++ [a]) = keep key (newest key l) a := by
  simp [newest]

theorem newest_spec (l : List α) :
    (newest key l = none ↔ l = [])
      ∧ ∀ m, newest key l = some m → m ∈ l ∧ ∀ a ∈ l, key a ≤ key m := by
  induction l using List.reverseRecOn with
  | nil => simp
  | append_singleton l a ih =>
    rw [newest_concat]
    cases hnew : newest key l with
    | none =>
      obtain rfl := ih.1.mp hnew
      simp [keep]
    | some b =>
      obtain ⟨hmem, hmax⟩ := ih.2 b hnew
      by_cases hlt : key b < key a
      · refine ⟨by simp [keep, hlt], fun m hm => ?_⟩
        obtain rfl : a = m := by simpa [keep, hlt] using hm
        refine ⟨by simp, fun c hc => ?_⟩
        rcases List.mem_append.mp hc with hc | hc
        · exact (hmax c hc).trans hlt.le
        · exact (List.mem_singleton.mp hc ▸ le_rfl)
      · refine ⟨by simp [keep, hlt], fun m hm => ?_⟩
        obtain rfl : b = m := by simpa [keep, hlt] using hm
        refine ⟨List.mem_append_left _ hmem, fun c hc => ?_⟩
        rcases List.mem_append.mp hc with hc | hc
        · exact hmax c hc
        · exact List.mem_singleton.mp hc ▸ not_lt.mp hlt

theorem newest_eq_none_iff {l : List α} : newest key l = none ↔ l = [] := (newest_spec l).1

/-- Where no two elements have one key, the newest is the one of the largest key. -/
theorem newest_eq_some_iff {l : List α} (hinj : ∀ a ∈ l, ∀ b ∈ l, key a = key b → a = b) {m : α} :
    newest key l = some m ↔ m ∈ l ∧ ∀ a ∈ l, key a ≤ key m := by
  constructor
  · exact (newest_spec l).2 m
  · rintro ⟨hmem, hmax⟩
    cases hnew : newest key l with
    | none =>
      rw [newest_eq_none_iff] at hnew
      subst hnew
      cases hmem
    | some b =>
      obtain ⟨hb, hbmax⟩ := (newest_spec l).2 b hnew
      rw [hinj b hb m hmem (le_antisymm (hmax b hb) (hbmax m hmem))]

/-- Elements that are not newer than the first one do not replace it. -/
theorem newest_cons_of_le {l : List α} {m : α} (h : ∀ a ∈ l, key a ≤ key m) :
    newest key (m :: l) = some m := by
  have hfold : ∀ l : List α, (∀ a ∈ l, key a ≤ key m) → l.foldl (keep key) (some m) = some m := by
    intro l
    induction l with
    | nil => exact fun _ => rfl
    | cons a l ih =>
      intro h
      have hle := h a List.mem_cons_self
      rw [List.foldl_cons, keep, if_neg (not_lt.mpr hle)]
      exact ih fun b hb => h b (List.mem_cons_of_mem _ hb)
  exact hfold l h

end Newest

/-! ### Logs -/

/-- An entry: chunk `k` is written, or the size is set. -/
inductive Entry (β : Type*)
  | write (k : ℕ) (v : β)
  | resize (n : ℕ)

/-- A file: its size and its chunks. -/
structure File (β : Type*) where
  size : ℕ
  chunk : ℕ → Option β

variable {β : Type*} (start : ℕ → ℕ)

/-- The effect of an entry on a file whose chunk `k` begins at `start k`. -/
def step (f : File β) : Entry β → File β
  | .write k v => { f with chunk := fun j => if j = k then some v else f.chunk j }
  | .resize n => ⟨n, fun k => if n < f.size ∧ n ≤ start k then none else f.chunk k⟩

/-- The file after a log. -/
def replay : List (Entry β) → File β
  | [] => ⟨0, fun _ => none⟩
  | e :: log => step start (replay log) e

/-- The size that was set last. -/
def size : List (Entry β) → ℕ
  | [] => 0
  | .write _ _ :: log => size log
  | .resize n :: _ => n

/-- What was written to chunk `k` last. -/
def lastWrite (k : ℕ) : List (Entry β) → Option β
  | [] => none
  | .write j v :: log => if j = k then some v else lastWrite k log
  | .resize _ :: log => lastWrite k log

/-- Chunk `k` was written, then a smaller size was set that cuts it off, and it was not written
again. -/
def Discarded (k : ℕ) : List (Entry β) → Prop
  | [] => False
  | .write j _ :: log => j ≠ k ∧ Discarded k log
  | .resize n :: log =>
    ((lastWrite k log).isSome ∧ n < size log ∧ n ≤ start k) ∨ Discarded k log

theorem replay_size (log : List (Entry β)) : (replay start log).size = size log := by
  induction log with
  | nil => rfl
  | cons e log ih =>
    cases e with
    | write k v => exact ih
    | resize n => rfl

/-- A chunk of the file is what was written last, unless it was cut off. -/
theorem replay_chunk (log : List (Entry β)) (k : ℕ) :
    (Discarded start k log → (replay start log).chunk k = none)
      ∧ (¬ Discarded start k log → (replay start log).chunk k = lastWrite k log) := by
  induction log with
  | nil => exact ⟨fun h => h.elim, fun _ => rfl⟩
  | cons e log ih =>
    cases e with
    | write j v =>
      by_cases hjk : j = k
      · simp [Discarded, replay, step, lastWrite, hjk]
      · simp only [Discarded, replay, step, lastWrite, if_neg hjk, if_neg (Ne.symm hjk)]
        exact ⟨fun h => ih.1 h.2, fun h => ih.2 fun hd => h ⟨hjk, hd⟩⟩
    | resize n =>
      simp only [Discarded, replay, step, lastWrite, replay_size]
      by_cases hcut : n < size log ∧ n ≤ start k
      · rw [if_pos hcut]
        refine ⟨fun _ => rfl, fun h => ?_⟩
        cases hlast : lastWrite k log with
        | none => rfl
        | some v => exact absurd (.inl ⟨by simp [hlast], hcut⟩) h
      · rw [if_neg hcut]
        exact ⟨fun h => ih.1 (h.resolve_left fun h => hcut h.2),
          fun h => ih.2 fun hd => h (.inr hd)⟩

end FileLog
