import Mathlib.Data.List.Basic
import Mathlib.Data.Nat.Notation
import Mathlib.Tactic.Common

/-!
# Histories of requests

A machine that answers requests one after the other, and a reader that hands out a region in
pieces.

## Main definitions

* `History.after`, `History.answers`, `History.AllMeet` : the state after a list of requests, the
  answers, and a condition on every step.
* `History.Agrees`, `History.slice` : the bytes of a piece against a property of each place, and
  against a function of the place.
* `History.readAll` : read in pieces until the length is used up.
* `History.readUntil`, `History.EachPiece` : read in pieces up to a limit, and a condition on every
  piece of it.

## Main results

* `History.after_inv`, `History.AllMeet.inv` : the invariant rules.
* `History.AllMeet.answers_eq`, `History.answers_eq_map` : the simulation rules.
* `History.readAll_agrees`, `History.readUntil_agrees`, `History.readAll_eq_slice` : the pieces
  agree with a view when every piece does.
-/

namespace History

/-! ### Requests -/

section Requests

variable {σ ρ α : Type*} (step : σ → ρ → α × σ)

/-- The state after the requests `rs`. -/
def after (s : σ) : List ρ → σ
  | [] => s
  | r :: rs => after (step s r).2 rs

/-- The answers to the requests `rs`. -/
def answers (s : σ) : List ρ → List α
  | [] => []
  | r :: rs => (step s r).1 :: answers (step s r).2 rs

/-- Every request meets `ok` in the state it is made in. -/
def AllMeet (ok : σ → ρ → Prop) (s : σ) : List ρ → Prop
  | [] => True
  | r :: rs => ok s r ∧ AllMeet ok (step s r).2 rs

variable {step}

/-- What every step that meets the condition keeps holds after a run whose steps all meet it. -/
theorem AllMeet.inv {ok : σ → ρ → Prop} {Inv : σ → Prop}
    (hstep : ∀ s r, Inv s → ok s r → Inv (step s r).2) {s : σ} {rs : List ρ}
    (h : AllMeet step ok s rs) (hs : Inv s) : Inv (after step s rs) := by
  induction rs generalizing s with
  | nil => exact hs
  | cons r rs ih => exact ih h.2 (hstep s r hs h.1)

/-- What every step keeps holds after every run. -/
theorem after_inv {Inv : σ → Prop} (hstep : ∀ s r, Inv s → Inv (step s r).2) {s : σ}
    (hs : Inv s) (rs : List ρ) : Inv (after step s rs) := by
  induction rs generalizing s with
  | nil => exact hs
  | cons r rs ih => exact ih (hstep s r hs)

/-- Two machines that stay related by requests that meet the condition answer alike. -/
theorem AllMeet.answers_eq {τ : Type*} {step' : τ → ρ → α × τ} {ok : σ → ρ → Prop}
    {R : σ → τ → Prop}
    (hstep : ∀ s t r, R s t → ok s r → (step s r).1 = (step' t r).1 ∧ R (step s r).2 (step' t r).2)
    {s : σ} {t : τ} {rs : List ρ} (h : AllMeet step ok s rs) (hr : R s t) :
    answers step s rs = answers step' t rs ∧ R (after step s rs) (after step' t rs) := by
  induction rs generalizing s t with
  | nil => exact ⟨rfl, hr⟩
  | cons r rs ih =>
    obtain ⟨heq, hnext⟩ := hstep s t r hr h.1
    obtain ⟨hanswers, hafter⟩ := ih h.2 hnext
    exact ⟨by rw [answers, answers, heq, hanswers], hafter⟩

/-- A machine whose answers do not depend on the states it can be in. -/
theorem answers_eq_map {f : ρ → α} {Inv : σ → Prop}
    (hstep : ∀ s r, Inv s → (step s r).1 = f r ∧ Inv (step s r).2) {s : σ} {rs : List ρ}
    (hs : Inv s) : answers step s rs = rs.map f := by
  induction rs generalizing s with
  | nil => rfl
  | cons r rs ih =>
    obtain ⟨heq, hnext⟩ := hstep s r hs
    rw [answers, List.map_cons, heq, ih hnext]

end Requests

/-! ### Pieces -/

section Pieces

variable {σ β ε : Type*}

/-- The byte at each place of the piece `bs` from `off` on has the property `P` of its place. -/
def Agrees (P : ℕ → β → Prop) : ℕ → List β → Prop
  | _, [] => True
  | off, b :: bs => P off b ∧ Agrees P (off + 1) bs

/-- The `n` values of `view` from `off` on. -/
def slice (view : ℕ → β) (off n : ℕ) : List β := (List.range' off n).map view

@[simp] theorem length_slice (view : ℕ → β) (off n : ℕ) : (slice view off n).length = n := by
  simp [slice]

@[simp] theorem getElem_slice (view : ℕ → β) (off n : ℕ) {i : ℕ}
  (hi : i < (slice view off n).length) :
    (slice view off n)[i] = view (off + i) := by
  simp [slice]

theorem slice_append (view : ℕ → β) (off m n : ℕ) :
    slice view off m ++ slice view (off + m) n = slice view off (m + n) := by
  rw [slice, slice, slice, ← List.map_append, List.range'_append_1]

theorem agrees_iff_getElem {P : ℕ → β → Prop} {off : ℕ} {bs : List β} :
    Agrees P off bs ↔ ∀ i (hi : i < bs.length), P (off + i) bs[i] := by
  induction bs generalizing off with
  | nil => simp [Agrees]
  | cons b bs ih =>
    constructor
    · rintro ⟨hb, hbs⟩ (_ | i) hi
      · exact hb
      · have hrest := ih.mp hbs i (Nat.lt_of_succ_lt_succ hi)
        rwa [show off + 1 + i = off + (i + 1) by omega] at hrest
    · intro h
      refine ⟨h 0 (Nat.succ_pos _), ih.mpr fun i hi => ?_⟩
      have hrest := h (i + 1) (Nat.succ_lt_succ hi)
      rwa [show off + (i + 1) = off + 1 + i by omega] at hrest

theorem agrees_append {P : ℕ → β → Prop} {off : ℕ} {bs cs : List β} :
    Agrees P off (bs ++ cs) ↔ Agrees P off bs ∧ Agrees P (off + bs.length) cs := by
  induction bs generalizing off with
  | nil => simp [Agrees]
  | cons b bs ih =>
    have hoff : off + 1 + bs.length = off + (bs.length + 1) := by omega
    simp only [List.cons_append, Agrees, ih, List.length_cons, hoff, and_assoc]

theorem agrees_slice {P : ℕ → β → Prop} {view : ℕ → β} {off n : ℕ}
    (h : ∀ x, off ≤ x → x < off + n → P x (view x)) : Agrees P off (slice view off n) := by
  induction n generalizing off with
  | zero => trivial
  | succ n ih => exact ⟨h off (Nat.le_refl _) (by omega), ih fun x hx hlt =>
    h x (by omega) (by omega)⟩

/-- A piece that agrees with a function of the place is a slice of it. -/
theorem Agrees.eq_slice {view : ℕ → β} {off : ℕ} {bs : List β}
    (h : Agrees (fun x b => b = view x) off bs) : bs = slice view off bs.length := by
  induction bs generalizing off with
  | nil => rfl
  | cons b bs ih =>
    rw [List.length_cons, slice, List.range'_succ, List.map_cons, ← slice, ← ih h.2, h.1]

theorem Agrees.of_eq_slice {view : ℕ → β} {off n : ℕ} {bs : List β} (h : bs = slice view off n) :
    Agrees (fun x b => b = view x) off bs := h ▸ agrees_slice fun _ _ _ => rfl

theorem slice_congr {view view' : ℕ → β} {off n : ℕ}
    (h : ∀ x, off ≤ x → x < off + n → view x = view' x) : slice view off n = slice view' off n := by
  refine List.map_congr_left fun x hx => ?_
  rw [List.mem_range'_1] at hx
  exact h x hx.1 hx.2

/-- Call `read` at the place reached until `len` bytes are read, it fails, or it makes no progress.
The length bounds the number of calls. -/
def readAll (stuck : ε) (read : σ → ℕ → ℕ → Except ε (List β) × σ) :
    ℕ → σ → ℕ → ℕ → Except ε (List β) × σ
  | _, s, _, 0 => (.ok [], s)
  | 0, s, _, _ + 1 => (.error stuck, s)
  | fuel + 1, s, off, len + 1 =>
    match read s off (len + 1) with
    | (.error e, s') => (.error e, s')
    | (.ok bs, s') =>
      if bs.length = 0 then (.error stuck, s')
      else if len + 1 ≤ bs.length then (.ok bs, s')
      else
        match readAll stuck read fuel s' (off + bs.length) (len + 1 - bs.length) with
        | (.error e, s'') => (.error e, s'')
        | (.ok rest, s'') => (.ok (bs ++ rest), s'')

variable {stuck : ε} {read : σ → ℕ → ℕ → Except ε (List β) × σ} {Inv : σ → Prop}

theorem readAll_inv (hinv : ∀ s off len, Inv s → Inv (read s off len).2) :
    ∀ fuel s off len, Inv s → Inv (readAll stuck read fuel s off len).2
  | fuel, s, off, 0, hs => by cases fuel <;> exact hs
  | 0, s, off, len + 1, hs => hs
  | fuel + 1, s, off, len + 1, hs => by
    have hs' := hinv s off (len + 1) hs
    simp only [readAll]
    cases hr : read s off (len + 1) with
    | mk r s' =>
      rw [hr] at hs'
      cases r with
      | error e => exact hs'
      | ok bs =>
        simp only
        split_ifs
        · exact hs'
        · exact hs'
        · have hrest := readAll_inv hinv fuel s' (off + bs.length) (len + 1 - bs.length) hs'
          cases hrec : readAll stuck read fuel s' (off + bs.length) (len + 1 - bs.length) with
          | mk r s'' =>
            rw [hrec] at hrest
            cases r <;> exact hrest

/-- If every piece that is read within `ok` agrees with `P` and is no longer than asked for, so is what
the loop returns, and it has the length asked for. -/
theorem readAll_agrees_within {P : ℕ → β → Prop} {ok : ℕ → ℕ → Prop}
    (hok : ∀ off len n, ok off len → n ≤ len → ok (off + n) (len - n))
    (hread : ∀ s off len bs, Inv s → ok off len → 0 < len → (read s off len).1 = .ok bs →
      Inv (read s off len).2 ∧ bs.length ≤ len ∧ Agrees P off bs) :
    ∀ {fuel : ℕ} {s : σ} {off len : ℕ} {bs : List β}, Inv s → ok off len →
      (readAll stuck read fuel s off len).1 = .ok bs → bs.length = len ∧ Agrees P off bs
  | fuel, s, off, 0, bs, _, _, h => by
    cases fuel <;>
    · simp only [readAll, Except.ok.injEq] at h
      subst h
      exact ⟨rfl, trivial⟩
  | 0, s, off, len + 1, bs, _, _, h => by cases h
  | fuel + 1, s, off, len + 1, bs, hs, hin, h => by
    have hpiece := hread s off (len + 1)
    simp only [readAll] at h
    cases hr : read s off (len + 1) with
    | mk r s' =>
      rw [hr] at h hpiece
      cases r with
      | error e => cases h
      | ok cs =>
        obtain ⟨hs', hlen, hcs⟩ := hpiece cs hs hin (Nat.succ_pos len) rfl
        simp only at h
        split_ifs at h with h0 hle
        · obtain rfl := Except.ok.inj h
          exact ⟨by omega, hcs⟩
        · cases hrec : readAll stuck read fuel s' (off + cs.length) (len + 1 - cs.length) with
          | mk r s'' =>
            rw [hrec] at h
            cases r with
            | error e => cases h
            | ok rest =>
              obtain rfl := Except.ok.inj h
              have hrest := readAll_agrees_within hok hread hs' (hok off (len + 1) cs.length hin hlen)
                (congrArg Prod.fst hrec)
              refine ⟨?_, agrees_append.mpr ⟨hcs, hrest.2⟩⟩
              rw [List.length_append, hrest.1]
              omega

/-- If every piece that is read agrees with `P` and is no longer than asked for, so is what the loop
returns, and it has the length asked for. -/
theorem readAll_agrees {P : ℕ → β → Prop}
    (hread : ∀ s off len bs, Inv s → (read s off len).1 = .ok bs →
      Inv (read s off len).2 ∧ bs.length ≤ len ∧ Agrees P off bs)
    {fuel : ℕ} {s : σ} {off len : ℕ} {bs : List β} (hs : Inv s)
    (h : (readAll stuck read fuel s off len).1 = .ok bs) : bs.length = len ∧ Agrees P off bs :=
  @readAll_agrees_within _ _ _ stuck read Inv P (fun _ _ => True) (fun _ _ _ _ _ => trivial)
    (fun s off len bs hs _ _ => hread s off len bs hs) fuel s off len bs hs trivial h

/-- A loop that succeeds has succeeded with its first call. -/
theorem readAll_first {fuel : ℕ} {s : σ} {off len : ℕ} {bs : List β} (hlen : 0 < len)
    (h : (readAll stuck read fuel s off len).1 = .ok bs) : ∃ cs, (read s off len).1 = .ok cs := by
  obtain ⟨len, rfl⟩ : ∃ k, len = k + 1 := ⟨len - 1, by omega⟩
  cases fuel with
  | zero => cases h
  | succ fuel =>
    simp only [readAll] at h
    cases hr : read s off (len + 1) with
    | mk r s' =>
      rw [hr] at h
      cases r with
      | error e => cases h
      | ok cs => exact ⟨cs, rfl⟩

/-- A loop succeeds when no call of it fails or gives nothing. -/
theorem readAll_succeeds {ok : ℕ → ℕ → Prop}
    (hok : ∀ off len n, ok off len → n ≤ len → ok (off + n) (len - n))
    (hread : ∀ s off len, Inv s → ok off len → 0 < len → ∃ bs, (read s off len).1 = .ok bs
      ∧ 0 < bs.length ∧ bs.length ≤ len ∧ Inv (read s off len).2) :
    ∀ {fuel : ℕ} {s : σ} {off len : ℕ}, Inv s → ok off len → len ≤ fuel →
      ∃ bs, (readAll stuck read fuel s off len).1 = .ok bs
  | fuel, s, off, 0, _, _, _ => by cases fuel <;> exact ⟨_, rfl⟩
  | 0, s, off, len + 1, _, _, hfuel => absurd hfuel (Nat.not_succ_le_zero len)
  | fuel + 1, s, off, len + 1, hs, hin, hfuel => by
    obtain ⟨bs, hbs, hpos, hle, hs'⟩ := hread s off (len + 1) hs hin (Nat.succ_pos len)
    simp only [readAll]
    cases hr : read s off (len + 1) with
    | mk r s' =>
      rw [hr] at hbs hs'
      obtain rfl : r = .ok bs := hbs
      simp only
      rw [if_neg (by omega)]
      split_ifs with hall
      · exact ⟨_, rfl⟩
      · obtain ⟨rest, hrest⟩ := readAll_succeeds hok hread hs'
          (hok off (len + 1) bs.length hin hle) (show _ ≤ fuel by omega)
        cases hrec : readAll stuck read fuel s' (off + bs.length) (len + 1 - bs.length) with
        | mk r s'' =>
          rw [hrec] at hrest
          obtain rfl : r = .ok rest := hrest
          exact ⟨_, rfl⟩

/-- A loop of which every piece is a slice of one view gives the slice. -/
theorem readAll_eq_slice {view : ℕ → β} {ok : ℕ → ℕ → Prop}
    (hok : ∀ off len n, ok off len → n ≤ len → ok (off + n) (len - n))
    (hread : ∀ s off len, Inv s → ok off len → 0 < len → ∃ bs, (read s off len).1 = .ok bs
      ∧ 0 < bs.length ∧ bs.length ≤ len ∧ bs = slice view off bs.length
      ∧ Inv (read s off len).2) :
    ∀ {fuel : ℕ} {s : σ} {off len : ℕ}, Inv s → ok off len → len ≤ fuel →
      (readAll stuck read fuel s off len).1 = .ok (slice view off len)
  | fuel, s, off, 0, _, _, _ => by cases fuel <;> rfl
  | 0, s, off, len + 1, _, _, hfuel => absurd hfuel (Nat.not_succ_le_zero len)
  | fuel + 1, s, off, len + 1, hs, hin, hfuel => by
    obtain ⟨bs, hbs, hpos, hle, hslice, hs'⟩ := hread s off (len + 1) hs hin (Nat.succ_pos len)
    simp only [readAll]
    cases hr : read s off (len + 1) with
    | mk r s' =>
      rw [hr] at hbs hs'
      obtain rfl : r = .ok bs := hbs
      simp only
      rw [if_neg (by omega)]
      split_ifs with hall
      · rw [hslice, Nat.le_antisymm hle hall]
      · have hrest := readAll_eq_slice hok hread hs'
          (hok off (len + 1) bs.length hin hle) (show _ ≤ fuel by omega)
        cases hrec : readAll stuck read fuel s' (off + bs.length) (len + 1 - bs.length) with
        | mk r s'' =>
          rw [hrec] at hrest
          obtain rfl : r = .ok (slice view (off + bs.length) (len + 1 - bs.length)) := hrest
          have happend := slice_append view off bs.length (len + 1 - bs.length)
          rw [Nat.add_sub_cancel' hle] at happend
          simp only
          rw [← happend, ← hslice]

/-- Call `piece` at the place reached until `len` bytes are read, `limit` is reached, it fails, or
it makes no progress. The length bounds the number of calls. -/
def readUntil (limit : ℕ) (piece : σ → ℕ → ℕ → Except ε (List β) × σ) :
    ℕ → σ → ℕ → ℕ → Except ε (List β) × σ
  | 0, s, _, _ => (.ok [], s)
  | fuel + 1, s, off, len =>
    if len = 0 ∨ limit ≤ off then (.ok [], s)
    else
      match piece s off len with
      | (.error e, s') => (.error e, s')
      | (.ok bs, s') =>
        if bs.length = 0 then (.ok [], s')
        else
          match readUntil limit piece fuel s' (off + bs.length) (len - bs.length) with
          | (.error e, s'') => (.error e, s'')
          | (.ok rest, s'') => (.ok (bs ++ rest), s'')

/-- Every piece of `readUntil` meets `ok` in the state it is read in. -/
def EachPiece (limit : ℕ) (piece : σ → ℕ → ℕ → Except ε (List β) × σ) (ok : σ → ℕ → Prop) :
    ℕ → σ → ℕ → ℕ → Prop
  | 0, _, _, _ => True
  | fuel + 1, s, off, len =>
    if len = 0 ∨ limit ≤ off then True
    else ok s off ∧
      match piece s off len with
      | (.error _, _) => True
      | (.ok bs, s') => EachPiece limit piece ok fuel s' (off + bs.length) (len - bs.length)

variable {limit : ℕ} {piece : σ → ℕ → ℕ → Except ε (List β) × σ} {ok : σ → ℕ → Prop}

/-- What every piece that meets the condition keeps, the loop keeps. -/
theorem readUntil_inv (hinv : ∀ s off len, Inv s → off < limit → ok s off
  → Inv (piece s off len).2) :
    ∀ {fuel : ℕ} {s : σ} {off len : ℕ}, Inv s → EachPiece limit piece ok fuel s off len →
      Inv (readUntil limit piece fuel s off len).2
  | 0, s, off, len, hs, _ => hs
  | fuel + 1, s, off, len, hs, heach => by
    simp only [readUntil, EachPiece] at heach ⊢
    split_ifs at heach ⊢ with hend
    · exact hs
    · obtain ⟨hok, hrest⟩ := heach
      have hs' := hinv s off len hs (by omega) hok
      cases hp : piece s off len with
      | mk r s' =>
        rw [hp] at hs' hrest
        cases r with
        | error e => exact hs'
        | ok bs =>
          simp only
          split_ifs
          · exact hs'
          · have hrec := readUntil_inv hinv hs' hrest
            cases hr : readUntil limit piece fuel s' (off + bs.length) (len - bs.length) with
            | mk r s'' =>
              rw [hr] at hrec
              cases r <;> exact hrec

/-- If every piece that is read agrees with `P`, is no longer than asked for or than the limit
allows, and is not empty, then so does what the loop returns, and it goes as far as asked for or up
to the limit. -/
theorem readUntil_agrees {P : ℕ → β → Prop}
    (hread : ∀ s off len bs, Inv s → off < limit → 0 < len → (piece s off len).1 = .ok bs →
      Inv (piece s off len).2 ∧ 0 < bs.length ∧ bs.length ≤ min len (limit - off)
        ∧ Agrees P off bs) :
    ∀ {fuel : ℕ} {s : σ} {off len : ℕ} {bs : List β}, Inv s → len ≤ fuel →
      (readUntil limit piece fuel s off len).1 = .ok bs →
        bs.length = min len (limit - off) ∧ Agrees P off bs
  | 0, s, off, len, bs, _, hfuel, h => by
    obtain rfl := Except.ok.inj h
    exact ⟨by rw [List.length_nil]; omega, trivial⟩
  | fuel + 1, s, off, len, bs, hs, hfuel, h => by
    simp only [readUntil] at h
    split_ifs at h with hend
    · obtain rfl := Except.ok.inj h
      exact ⟨by rw [List.length_nil]; omega, trivial⟩
    · have hpiece := hread s off len
      cases hp : piece s off len with
      | mk r s' =>
        rw [hp] at h hpiece
        cases r with
        | error e => cases h
        | ok cs =>
          obtain ⟨hs', hpos, hle, hcs⟩ := hpiece cs hs (by omega) (by omega) rfl
          simp only at h
          rw [if_neg (by omega)] at h
          cases hr : readUntil limit piece fuel s' (off + cs.length) (len - cs.length) with
          | mk r s'' =>
            rw [hr] at h
            cases r with
            | error e => cases h
            | ok rest =>
              obtain rfl := Except.ok.inj h
              have hrec := readUntil_agrees hread hs' (by omega) (congrArg Prod.fst hr)
              refine ⟨?_, agrees_append.mpr ⟨hcs, hrec.2⟩⟩
              rw [List.length_append, hrec.1]
              omega

end Pieces

end History
