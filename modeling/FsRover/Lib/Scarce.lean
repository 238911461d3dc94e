import Mathlib.Data.List.Basic
import Mathlib.Data.Nat.Notation

/-!
# Computations that can run out of memory

A computation that changes a state, also where it fails, and whose allocations succeed or fail as a
list says that it is given. It is frugal if a failed allocation always makes it fail, with an error
that says so, and if it runs alike with and without a list where none fails.

## Main definitions

* `Scarce` : such computations, with `Scarce.alloc`, `Scarce.allocBoth` and `Scarce.recover`.
* `Scarce.plain` : the run in which all allocations succeed.
* `Scarce.Frugal` : failed allocations are never passed over, and a part of the state is kept.

## Main results

* `Scarce.Frugal.bind`, `Scarce.Frugal.recover` : the rules of composition.
* `Scarce.Frugal.plain_bind` : runs without failed allocations compose.
-/

/-- A state, and what becomes of the next allocations: those behind the end of the list succeed. -/
structure Scarce.St (σ : Type) where
  state : σ
  fates : List Bool

/-- Computations over such states. -/
abbrev Scarce (ε σ : Type) := EStateM ε (Scarce.St σ)

namespace Scarce

variable {ε σ τ α β : Type}

/-- Whether the next allocation succeeds. -/
def tryAlloc : Scarce ε σ Bool := fun s => .ok (s.fates.headD true) ⟨s.state, s.fates.tail⟩

def look : Scarce ε σ σ := fun s => .ok s.state s

def update (f : σ → σ) : Scarce ε σ Unit := fun s => .ok () ⟨f s.state, s.fates⟩

/-- An allocation. -/
def alloc (e : ε) : Scarce ε σ Unit := do
  if ← tryAlloc then pure () else throw e

/-- Two allocations, each with what it changes; only then it is looked whether they succeeded. -/
def allocBoth (e : ε) (first second : σ → σ) : Scarce ε σ Unit := do
  let a ← tryAlloc
  if a then update first
  let b ← tryAlloc
  if b then update second
  if a && b then pure () else throw e

/-- Go on after an error, unless it says that there is no memory. -/
def recover (oom : ε → Bool) (x : Scarce ε σ α) (f : ε → Scarce ε σ α) : Scarce ε σ α := fun s =>
  match x s with
  | .ok a s' => .ok a s'
  | .error e s' => if oom e then .error e s' else f e s'

/-- A result without the list of fates, and with another. -/
def forget : EStateM.Result ε (St σ) α → EStateM.Result ε σ α
  | .ok a s => .ok a s.state
  | .error e s => .error e s.state

def withFates (l : List Bool) : EStateM.Result ε σ α → EStateM.Result ε (St σ) α
  | .ok a s => .ok a ⟨s, l⟩
  | .error e s => .error e ⟨s, l⟩

/-- The run in which all allocations succeed. -/
def plain (x : Scarce ε σ α) (s : σ) : EStateM.Result ε σ α := forget (x ⟨s, []⟩)

/-- The state behind a run. -/
def after : EStateM.Result ε σ α → σ
  | .ok _ s => s
  | .error _ s => s

/-- What holds of a run that was given the fates `l`: it uses some of them; if one of these is a
failure, the run fails for want of memory, and otherwise it is the plain run, which does not. In either
case it keeps `keep`. -/
def FrugalAt (oom : ε → Bool) (keep : σ → τ) (x : Scarce ε σ α) (s : σ) (l : List Bool) : Prop :=
  ∃ used left, l = used ++ left
    ∧ (false ∈ used → ∃ e s', x ⟨s, l⟩ = .error e ⟨s', left⟩ ∧ oom e = true ∧ keep s' = keep s)
    ∧ (false ∉ used → x ⟨s, l⟩ = withFates left (plain x s) ∧ keep (after (plain x s)) = keep s
      ∧ ∀ e s', plain x s = .error e s' → oom e = false)

/-- A failed allocation is never passed over, and `keep` is kept. -/
def Frugal (oom : ε → Bool) (keep : σ → τ) (x : Scarce ε σ α) : Prop := ∀ s l, FrugalAt oom keep x s l

variable {oom : ε → Bool} {keep : σ → τ} {x : Scarce ε σ α}

/-! ### Plain runs -/

theorem bind_apply (x : Scarce ε σ α) (f : α → Scarce ε σ β) (s : St σ) :
    (x >>= f) s = match x s with
      | .ok a s' => f a s'
      | .error e s' => .error e s' := by
  show EStateM.bind x f s = _
  rw [EStateM.bind]
  cases x s <;> rfl

theorem plain_throw (e : ε) (s : σ) : plain (throw e : Scarce ε σ α) s = .error e s := rfl

theorem plain_look_bind (f : σ → Scarce ε σ β) (s : σ) : plain (look >>= f) s = plain (f s) s := rfl

theorem plain_update_bind (g : σ → σ) (f : Unit → Scarce ε σ β) (s : σ) :
    plain (update g >>= f) s = plain (f ()) (g s) := rfl

theorem plain_alloc_bind (e : ε) (f : Unit → Scarce ε σ β) (s : σ) :
    plain (alloc e >>= f) s = plain (f ()) s := rfl

theorem Frugal.eq_plain (h : Frugal oom keep x) (s : σ) : x ⟨s, []⟩ = withFates [] (plain x s) := by
  obtain ⟨used, left, hl, -, hplain⟩ := h s []
  obtain ⟨rfl, rfl⟩ := List.append_eq_nil_iff.mp hl.symm
  exact (hplain List.not_mem_nil).1

theorem Frugal.keep_after (h : Frugal oom keep x) (s : σ) : keep (after (plain x s)) = keep s := by
  obtain ⟨used, left, hl, -, hplain⟩ := h s []
  obtain ⟨rfl, rfl⟩ := List.append_eq_nil_iff.mp hl.symm
  exact (hplain List.not_mem_nil).2.1

theorem Frugal.oom_plain (h : Frugal oom keep x) {s s' : σ} {e : ε} (he : plain x s = .error e s') :
    oom e = false := by
  obtain ⟨used, left, hl, -, hplain⟩ := h s []
  obtain ⟨rfl, rfl⟩ := List.append_eq_nil_iff.mp hl.symm
  exact (hplain List.not_mem_nil).2.2 e s' he

theorem Frugal.plain_bind (h : Frugal oom keep x) (f : α → Scarce ε σ β) (s : σ) :
    plain (x >>= f) s = match plain x s with
      | .ok a s' => plain (f a) s'
      | .error e s' => .error e s' := by
  have hx := h.eq_plain s
  rw [plain, bind_apply, hx]
  cases plain x s with
  | ok a s' => rfl
  | error e s' => rfl

theorem Frugal.plain_recover (h : Frugal oom keep x) (f : ε → Scarce ε σ α) (s : σ) :
    plain (recover oom x f) s = match plain x s with
      | .ok a s' => .ok a s'
      | .error e s' => plain (f e) s' := by
  have hx := h.eq_plain s
  have hoom := fun e s' (he : plain x s = .error e s') => h.oom_plain he
  rw [plain, recover, hx]
  cases hplain : plain x s with
  | ok a s' => rfl
  | error e s' =>
    simp only [withFates]
    rw [hoom e s' hplain]
    rfl

/-! ### Frugal computations -/

theorem frugal_of_plain (hx : ∀ s l, x ⟨s, l⟩ = withFates l (plain x s))
    (hkeep : ∀ s, keep (after (plain x s)) = keep s)
    (hoom : ∀ s e s', plain x s = .error e s' → oom e = false) : Frugal oom keep x := fun s l =>
  ⟨[], l, rfl, fun h => absurd h List.not_mem_nil, fun _ => ⟨hx s l, hkeep s, hoom s⟩⟩

theorem frugal_pure (a : α) : Frugal oom keep (pure a : Scarce ε σ α) :=
  frugal_of_plain (fun _ _ => rfl) (fun _ => rfl) fun _ _ _ h => by cases h

theorem frugal_throw {e : ε} (he : oom e = false) : Frugal oom keep (throw e : Scarce ε σ α) :=
  frugal_of_plain (fun _ _ => rfl) (fun _ => rfl) fun s e' s' h => by
    rw [plain_throw] at h
    cases h
    exact he

theorem frugal_look : Frugal oom keep (look : Scarce ε σ σ) :=
  frugal_of_plain (fun _ _ => rfl) (fun _ => rfl) fun _ _ _ h => by cases h

theorem frugal_update {f : σ → σ} (hf : ∀ s, keep (f s) = keep s) :
    Frugal oom keep (update f : Scarce ε σ Unit) :=
  frugal_of_plain (fun _ _ => rfl) hf fun _ _ _ h => by cases h

theorem frugal_alloc {e : ε} (he : oom e = true) : Frugal oom keep (alloc e : Scarce ε σ Unit) := by
  intro s l
  cases l with
  | nil =>
    exact ⟨[], [], rfl, fun h => absurd h List.not_mem_nil,
      fun _ => ⟨rfl, rfl, fun _ _ h => by cases h⟩⟩
  | cons b l =>
    refine ⟨[b], l, rfl, fun h => ?_, fun h => ?_⟩
    · obtain rfl : false = b := List.mem_singleton.mp h
      exact ⟨e, s, rfl, he, rfl⟩
    · obtain rfl : b = true := by simpa using h
      exact ⟨rfl, rfl, fun _ _ h => by cases h⟩

theorem frugal_allocBoth {e : ε} (he : oom e = true) {first second : σ → σ}
    (hfirst : ∀ s, keep (first s) = keep s) (hsecond : ∀ s, keep (second s) = keep s) :
    Frugal oom keep (allocBoth e first second : Scarce ε σ Unit) := by
  have hplain : ∀ s, plain (allocBoth e first second : Scarce ε σ Unit) s
      = .ok () (second (first s)) := fun _ => rfl
  have hkeep : ∀ s, keep (second (first s)) = keep s := fun s => (hsecond _).trans (hfirst s)
  intro s l
  match l with
  | [] =>
    exact ⟨[], [], rfl, fun h => absurd h List.not_mem_nil,
      fun _ => ⟨rfl, hkeep s, fun _ _ h => by cases h⟩⟩
  | [true] =>
    exact ⟨[true], [], rfl, fun h => by simp at h, fun _ => ⟨rfl, hkeep s, fun _ _ h => by cases h⟩⟩
  | [false] => exact ⟨[false], [], rfl, fun _ => ⟨e, second s, rfl, he, hsecond s⟩, fun h => by simp at h⟩
  | true :: true :: l =>
    exact ⟨[true, true], l, rfl, fun h => by simp at h,
      fun _ => ⟨rfl, hkeep s, fun _ _ h => by cases h⟩⟩
  | true :: false :: l =>
    exact ⟨[true, false], l, rfl, fun _ => ⟨e, first s, rfl, he, hfirst s⟩, fun h => by simp at h⟩
  | false :: true :: l =>
    exact ⟨[false, true], l, rfl, fun _ => ⟨e, second s, rfl, he, hsecond s⟩, fun h => by simp at h⟩
  | false :: false :: l =>
    exact ⟨[false, false], l, rfl, fun _ => ⟨e, s, rfl, he, rfl⟩, fun h => by simp at h⟩

theorem Frugal.bind {f : α → Scarce ε σ β} (hx : Frugal oom keep x)
    (hf : ∀ a, Frugal oom keep (f a)) : Frugal oom keep (x >>= f) := by
  intro s l
  obtain ⟨used, left, rfl, hfailed, hplain⟩ := hx s l
  by_cases hused : false ∈ used
  · obtain ⟨e, s', hrun, he, hkeep⟩ := hfailed hused
    refine ⟨used, left, rfl, fun _ => ⟨e, s', ?_, he, hkeep⟩, fun h => absurd hused h⟩
    rw [bind_apply, hrun]
  obtain ⟨hrun, hkeep, hoom⟩ := hplain hused
  have hboth := hx.plain_bind f s
  cases hx' : plain x s with
  | error e s' =>
    -- the first part fails, and not for want of memory
    rw [hx'] at hrun hkeep hboth
    refine ⟨used, left, rfl, fun h => absurd h hused, fun _ => ⟨?_, ?_, fun e' s'' h => ?_⟩⟩
    · rw [bind_apply, hrun, hboth]
      rfl
    · rw [hboth]
      exact hkeep
    · rw [hboth] at h
      cases h
      exact hoom e s' hx'
  | ok a s' =>
    rw [hx'] at hrun hkeep hboth
    obtain ⟨used', left', rfl, hfailed', hplain'⟩ := hf a s' left
    have hrest : (x >>= f) ⟨s, used ++ (used' ++ left')⟩ = f a ⟨s', used' ++ left'⟩ := by
      rw [bind_apply, hrun]
      rfl
    have hsame : keep s' = keep s := hkeep
    refine ⟨used ++ used', left', (List.append_assoc _ _ _).symm, fun h => ?_, fun h => ?_⟩
    · obtain ⟨e, s'', hrun', he, hkeep'⟩ :=
        hfailed' ((List.mem_append.mp h).resolve_left hused)
      exact ⟨e, s'', hrest.trans hrun', he, hkeep'.trans hsame⟩
    · obtain ⟨hrun', hkeep', hoom'⟩ := hplain' fun h' => h (List.mem_append_right _ h')
      rw [hboth]
      exact ⟨hrest.trans hrun', hkeep'.trans hsame, hoom'⟩

theorem Frugal.recover {f : ε → Scarce ε σ α} (hx : Frugal oom keep x)
    (hf : ∀ e, Frugal oom keep (f e)) : Frugal oom keep (recover oom x f) := by
  intro s l
  obtain ⟨used, left, rfl, hfailed, hplain⟩ := hx s l
  by_cases hused : false ∈ used
  · obtain ⟨e, s', hrun, he, hkeep⟩ := hfailed hused
    refine ⟨used, left, rfl, fun _ => ⟨e, s', ?_, he, hkeep⟩, fun h => absurd hused h⟩
    rw [Scarce.recover, hrun]
    simp only
    rw [he, if_pos rfl]
  obtain ⟨hrun, hkeep, hoom⟩ := hplain hused
  have hboth := hx.plain_recover f s
  cases hx' : plain x s with
  | ok a s' =>
    rw [hx'] at hrun hkeep hboth
    refine ⟨used, left, rfl, fun h => absurd h hused, fun _ => ⟨?_, ?_, fun e' s'' h => ?_⟩⟩
    · rw [Scarce.recover, hrun, hboth]
      rfl
    · rw [hboth]
      exact hkeep
    · rw [hboth] at h
      cases h
  | error e s' =>
    rw [hx'] at hrun hkeep hboth
    obtain ⟨used', left', rfl, hfailed', hplain'⟩ := hf e s' left
    have hrest : Scarce.recover oom x f ⟨s, used ++ (used' ++ left')⟩ = f e ⟨s', used' ++ left'⟩ := by
      rw [Scarce.recover, hrun]
      simp only [withFates]
      rw [hoom e s' hx', if_neg Bool.false_ne_true]
    have hsame : keep s' = keep s := hkeep
    refine ⟨used ++ used', left', (List.append_assoc _ _ _).symm, fun h => ?_, fun h => ?_⟩
    · obtain ⟨e, s'', hrun', he, hkeep'⟩ :=
        hfailed' ((List.mem_append.mp h).resolve_left hused)
      exact ⟨e, s'', hrest.trans hrun', he, hkeep'.trans hsame⟩
    · obtain ⟨hrun', hkeep', hoom'⟩ := hplain' fun h' => h (List.mem_append_right _ h')
      rw [hboth]
      exact ⟨hrest.trans hrun', hkeep'.trans hsame, hoom'⟩

/-- What keeps `keep` keeps everything that is read off it. -/
theorem Frugal.of_keep {υ : Type} (h : Frugal oom keep x) (f : τ → υ) :
    Frugal oom (fun s => f (keep s)) x := by
  intro s l
  obtain ⟨used, left, hl, hfailed, hplain⟩ := h s l
  refine ⟨used, left, hl, fun hused => ?_, fun hused => ?_⟩
  · obtain ⟨e, s', hrun, he, hkeep⟩ := hfailed hused
    exact ⟨e, s', hrun, he, congrArg f hkeep⟩
  · obtain ⟨hrun, hkeep, hoom⟩ := hplain hused
    exact ⟨hrun, congrArg f hkeep, hoom⟩

theorem Frugal.of_id (h : Frugal oom id x) : Frugal oom keep x := h.of_keep keep

theorem frugal_ite {p : Prop} [Decidable p] {y : Scarce ε σ α} (hx : p → Frugal oom keep x)
    (hy : ¬ p → Frugal oom keep y) : Frugal oom keep (if p then x else y) := by
  split_ifs with h
  · exact hx h
  · exact hy h

end Scarce
