import FsRover.Bytes
import FsRover.Lib.Outcome

/-!
# Readers of bytes

A reader goes over the bytes of an input from a cursor on. It returns a value and moves the cursor,
or it gives up with the cursor somewhere.

## Main definitions

* `ByteReader.Input`, `ByteReader.Reader` : the bytes up to an end, and a reader, a monad.
* `ByteReader.Reads` : the reader takes certain bytes for a value, or gives up at them.
* `ByteReader.Stays` : the cursor moves, and does not pass the end.
* `ByteReader.times` : rounds that are counted.

## Main results

* `ByteReader.Reads.bind`, `ByteReader.Stays.bind` : the rules of composition.
-/

namespace ByteReader

open Outcome FsRover

/-- Bytes up to an end. -/
structure Input where
  byte : Buf
  fin : ℕ

/-- What a reader does at a cursor: a value and the cursor behind it, or the cursor where it gave
up. -/
def Reader (α : Type) : Type := ℕ → Outcome ℕ (α × ℕ)

variable {α β σ : Type}

namespace Reader

def pure (a : α) : Reader α := fun p => done (a, p)

def bind (x : Reader α) (f : α → Reader β) : Reader β := fun p => x p >>= fun r => f r.1 r.2

instance : Monad Reader where
  pure := pure
  bind := bind

/-- Give up. -/
def fail : Reader α := failed

theorem bind_done {x : Reader α} {f : α → Reader β} {p q : ℕ} {a : α} (h : x p = done (a, q)) :
    (x >>= f) p = f a q := by
  change (x p >>= fun r => f r.1 r.2) = _
  rw [h, done_bind]

theorem bind_failed {x : Reader α} {f : α → Reader β} {p q : ℕ} (h : x p = failed q) :
    (x >>= f) p = failed q := by
  change (x p >>= fun r => f r.1 r.2) = _
  rw [h, failed_bind]

end Reader

/-- The byte at the cursor. -/
def next (inp : Input) : Reader UInt8 := fun p =>
  if p < inp.fin then done (inp.byte p, p + 1) else failed p

/-- Move the cursor, if there is room. -/
def advance (inp : Input) (n : ℕ) : Reader Unit := fun p =>
  if n ≤ inp.fin - p then done ((), p + n) else failed p

/-- Run `step` `n` times. -/
def times (step : σ → Reader σ) : ℕ → σ → Reader σ
  | 0, s => Reader.pure s
  | n + 1, s => step s >>= times step n

/-! ### What is read -/

/-- The bytes at `p`, before the end. -/
structure Input.Has (inp : Input) (p : ℕ) (bs : List UInt8) : Prop where
  bytes : inp.byte.list p bs.length = bs
  fits : p + bs.length ≤ inp.fin

/-- The reader takes the bytes for a value and goes behind them, or it gives up at them. -/
def Reads (inp : Input) (x : Reader α) (bs : List UInt8) (o : Option α) : Prop :=
  ∀ p, inp.Has p bs →
    match o with
    | some a => x p = done (a, p + bs.length)
    | none => ∃ q, x p = failed q

variable {inp : Input} {x : Reader α} {f : α → Reader β} {bs cs : List UInt8} {a : α} {p : ℕ}

theorem Input.has_append : inp.Has p (bs ++ cs) ↔ inp.Has p bs ∧ inp.Has (p + bs.length) cs := by
  have hlist : inp.byte.list p (bs ++ cs).length
      = inp.byte.list p bs.length ++ inp.byte.list (p + bs.length) cs.length := by
    rw [Buf.list, Buf.list, Buf.list, ← List.map_append, List.range'_append_1, List.length_append]
  constructor
  · rintro ⟨hbytes, hfits⟩
    rw [hlist] at hbytes
    obtain ⟨hfirst, hsecond⟩ := List.append_inj hbytes (by simp)
    rw [List.length_append] at hfits
    exact ⟨⟨hfirst, by omega⟩, ⟨hsecond, by omega⟩⟩
  · rintro ⟨hfirst, hsecond⟩
    refine ⟨by rw [hlist, hfirst.bytes, hsecond.bytes], ?_⟩
    rw [List.length_append]
    have hfits := hsecond.fits
    omega

theorem Reads.bind {o : Option β} (hx : Reads inp x bs (some a)) (hf : Reads inp (f a) cs o) :
    Reads inp (x >>= f) (bs ++ cs) o := by
  intro p hp
  obtain ⟨hfirst, hsecond⟩ := Input.has_append.mp hp
  have hread := hf _ hsecond
  rw [Reader.bind_done (hx p hfirst), List.length_append, ← Nat.add_assoc]
  exact hread

theorem Reads.bind_none (hx : Reads inp x bs none) : Reads inp (x >>= f) (bs ++ cs) none := by
  intro p hp
  obtain ⟨q, hq⟩ := hx p (Input.has_append.mp hp).1
  exact ⟨q, Reader.bind_failed hq⟩

theorem Reads.bind_option {o : Option α} {g : α → Option β} (hx : Reads inp x bs o)
    (hf : ∀ a, o = some a → Reads inp (f a) cs (g a)) :
    Reads inp (x >>= f) (bs ++ cs) (o >>= g) := by
  cases o with
  | none => exact hx.bind_none
  | some a => exact hx.bind (hf a rfl)

theorem reads_pure (a : α) : Reads inp (Reader.pure a) [] (some a) := fun _ _ => rfl

theorem reads_fail : Reads inp (Reader.fail : Reader α) bs none := fun p _ => ⟨p, rfl⟩

theorem Reads.of_fits {o : Option α} (hx : bs.length ≤ inp.fin → Reads inp x bs o) :
    Reads inp x bs o := by
  intro p hp
  have hfits := hp.fits
  exact hx (by omega) p hp

theorem Reads.bind_nil {o : Option β} (hx : Reads inp x bs (some a)) (hf : Reads inp (f a) [] o) :
    Reads inp (x >>= f) bs o := by
  have hread := hx.bind hf
  rwa [List.append_nil] at hread

/-- A last step that reads nothing, after what may give up. -/
theorem Reads.bind_option_nil {o : Option α} {g : α → Option β} (hx : Reads inp x bs o)
    (hf : ∀ a, o = some a → Reads inp (f a) [] (g a)) : Reads inp (x >>= f) bs (o >>= g) := by
  have hread := hx.bind_option hf
  rwa [List.append_nil] at hread

theorem reads_guard {p q : Prop} [Decidable p] [Decidable q] (a : α) (hpq : p ↔ q) :
    Reads inp (if p then Reader.fail else Reader.pure a) [] (if q then none else some a) := by
  by_cases hp : p
  · rw [if_pos hp, if_pos (hpq.mp hp)]
    exact reads_fail
  · rw [if_neg hp, if_neg fun hq => hp (hpq.mpr hq)]
    exact reads_pure a

theorem reads_next (b : UInt8) : Reads inp (next inp) [b] (some b) := by
  intro p hp
  have hbyte : inp.byte p = b := by
    have hbytes := hp.bytes
    simpa [Buf.list] using hbytes
  have hfits : p + 1 ≤ inp.fin := hp.fits
  rw [next, if_pos (by omega), hbyte]
  rfl

theorem reads_advance (bs : List UInt8) : Reads inp (advance inp bs.length) bs (some ()) := by
  intro p hp
  have hfits := hp.fits
  exact if_pos (by omega)

/-- A reader of certain bytes returns a value exactly if it has one for them. -/
theorem reads_done_iff {o : Option α}
    (hx : Reads inp x bs o) (hp : inp.Has p bs) (a : α) :
    (∃ q, x p = done (a, q)) ↔ o = some a := by
  have hread := hx p hp
  cases o with
  | none =>
    obtain ⟨q, hq⟩ := hread
    refine ⟨fun ⟨r, hr⟩ => ?_, fun h => by cases h⟩
    cases hq.symm.trans hr
  | some b =>
    refine ⟨fun ⟨r, hr⟩ => ?_, fun h => ?_⟩
    · cases hread.symm.trans hr
      rfl
    · cases h
      exact ⟨_, hread⟩

/-! ### Where the cursor goes -/

/-- With at most `n` bytes left, the reader returns with the cursor moved by `gap` at least, or gives
up, and the cursor does not pass the end. -/
def Stays (inp : Input) (n gap : ℕ) (x : Reader α) : Prop :=
  ∀ p, p ≤ inp.fin → inp.fin ≤ p + n →
    match x p with
    | done r => p + gap ≤ r.2 ∧ r.2 ≤ inp.fin
    | failed q => q ≤ inp.fin
    | _ => False

variable {n gap : ℕ}

/-- What a reader moves the cursor by, the rest has no longer before it. -/
theorem Stays.bind (hx : Stays inp n gap x) (hf : ∀ a m, m + gap ≤ n → Stays inp m 0 (f a)) :
    Stays inp n gap (x >>= f) := by
  intro p hp hn
  have hread := hx p hp hn
  cases hxp : x p with
  | done r =>
    rw [hxp] at hread
    have hrest := hf r.1 (n - gap) (by omega) r.2 hread.2 (by omega)
    rw [Reader.bind_done hxp]
    cases hfp : f r.1 r.2 with
    | done r' =>
      rw [hfp] at hrest
      exact ⟨Nat.le_trans hread.1 hrest.1, hrest.2⟩
    | failed q =>
      rw [hfp] at hrest
      exact hrest
    | fault =>
      rw [hfp] at hrest
      exact hrest
    | deep =>
      rw [hfp] at hrest
      exact hrest
  | failed q =>
    rw [hxp] at hread
    rw [Reader.bind_failed hxp]
    exact hread
  | fault =>
    rw [hxp] at hread
    exact hread.elim
  | deep =>
    rw [hxp] at hread
    exact hread.elim

theorem Stays.any (hx : Stays inp n gap x) : Stays inp n 0 x := by
  intro p hp hn
  have hread := hx p hp hn
  cases hxp : x p with
  | done r =>
    rw [hxp] at hread
    exact ⟨Nat.le_trans (Nat.le_add_right p gap) hread.1, hread.2⟩
  | failed q =>
    rw [hxp] at hread
    exact hread
  | fault =>
    rw [hxp] at hread
    exact hread
  | deep =>
    rw [hxp] at hread
    exact hread

theorem stays_pure (a : α) : Stays inp n 0 (Reader.pure a) := fun p hp _ => ⟨Nat.le_refl p, hp⟩

theorem stays_fail : Stays inp n gap (Reader.fail : Reader α) := fun _ hp _ => hp

theorem stays_next : Stays inp n 1 (next inp) := by
  intro p hp _
  rw [next]
  split_ifs with hlt
  · exact ⟨Nat.le_refl _, hlt⟩
  · exact hp

theorem stays_advance {k : ℕ} : Stays inp n 0 (advance inp k) := by
  intro p hp _
  rw [advance]
  split_ifs with hle
  · exact ⟨Nat.le_add_right p k, by dsimp only; omega⟩
  · exact hp

theorem stays_times {step : σ → Reader σ} (hstep : ∀ m ≤ n, ∀ s, Stays inp m 0 (step s)) (k : ℕ)
    (s : σ) : Stays inp n 0 (times step k s) := by
  induction k generalizing n s with
  | zero => exact stays_pure s
  | succ k ih =>
    exact (hstep n (Nat.le_refl n) s).bind fun s' m hm =>
      ih (fun l hl => hstep l (by omega)) s'

/-- On any bytes a reader that stays before the end returns or gives up there. -/
theorem stays_cases (hx : Stays inp inp.fin 0 x) (hp : p ≤ inp.fin) :
    (∃ a q, p ≤ q ∧ q ≤ inp.fin ∧ x p = done (a, q)) ∨ ∃ q ≤ inp.fin, x p = failed q := by
  have hread := hx p hp (Nat.le_add_left _ _)
  cases hxp : x p with
  | done r =>
    rw [hxp] at hread
    exact Or.inl ⟨r.1, r.2, hread.1, hread.2, rfl⟩
  | failed q =>
    rw [hxp] at hread
    exact Or.inr ⟨q, hread, rfl⟩
  | fault =>
    rw [hxp] at hread
    exact hread.elim
  | deep =>
    rw [hxp] at hread
    exact hread.elim

end ByteReader
