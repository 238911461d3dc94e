import FsRover.Grub
import FsRover.Lib.Memory

/-!
# Fast blocks of a Ghost image

A block of tokens, each a literal or a match. A match names a slot of a table of positions that the
decoder fills as the output grows: literals enter it once three of them stand in a row or a match
closes their run, a match enters it when it is copied.

## Main definitions

* `FsRover.FastlzState`, `FsRover.fastlzToken` : the variables of `gho_fastlz`, and one token.
* `FsRover.ghoFastlzBy`, `FsRover.ghoFastlz` : the loop, for any number of tokens in a round, and as
  it stands.
* `FsRover.FastlzReached` : the states in which a token begins.
* `FsRover.FastlzSlots` : every slot in use lies three bytes below the output at least.

## Main results

* `FsRover.fastlz_decodes` : the loop ends inside its buffers, the tokens in a round do not matter,
  and slots stay below the output of a block that a slot can hold the positions of.
* `FsRover.fastlz_slot_wraps` : in a longer block a slot turns negative.
-/

namespace FsRover

open Outcome Memory

def GRUB_GHOST_FASTLZ_HASH_SIZE : ℕ := 4096

/-- The variables of `gho_fastlz`. -/
structure FastlzState where
  sp : ℕ
  out : ℕ
  ctrl : ℕ
  lit : ℕ
  prevLit : ℕ
  hash : ℕ → ℤ
  dst : Mem

/-- `(grub_int32_t)`. -/
def toInt32 (n : ℕ) : ℤ :=
  if n % 2 ^ 32 < 2 ^ 31 then (n % 2 ^ 32 : ℕ) else (n % 2 ^ 32 : ℕ) - (2 ^ 32 : ℕ)

/-- `gho_fastlz_seed`. -/
def ghoFastlzSeed : List UInt8 :=
  [0x31, 0x32, 0x33, 0x34, 0x35, 0x36, 0x37, 0x38, 0x39, 0x30, 0x31, 0x32, 0x33, 0x34, 0x35, 0x36,
    0x37, 0x38]

/-- `gho_fastlz_hash`. -/
def ghoFastlzHash (b0 b1 b2 : UInt8) : ℕ :=
  let v := b2.toNat ^^^ ((b1.toNat ^^^ (b0.toNat * 2 ^ 4)) * 2 ^ 4)
  u32 (0xffff9e5f * v) / 2 ^ 4 % 2 ^ 12

/-! ### Tokens -/

/-- `hash[idx] = (grub_int32_t) pos`. -/
def FastlzState.setSlot (s : FastlzState) (idx pos : ℕ) : Outcome GrubError FastlzState :=
  inside (idx < GRUB_GHOST_FASTLZ_HASH_SIZE)
    { s with hash := fun i => if i = idx then toInt32 pos else s.hash i }

/-- The three bytes at `pos` enter the table. -/
def FastlzState.enter (s : FastlzState) (pos : ℕ) : Outcome GrubError FastlzState := do
  let b0 ← s.dst.get pos
  let b1 ← s.dst.get (pos + 1)
  let b2 ← s.dst.get (pos + 2)
  s.setSlot (ghoFastlzHash b0 b1 b2) pos

/-- `dst[out++] = b`. -/
def FastlzState.put (s : FastlzState) (b : UInt8) : Outcome GrubError FastlzState := do
  let dst ← s.dst.modify s.out fun _ => b
  done { s with dst := dst, out := s.out + 1 }

/-- Byte `j` of a match. -/
def fastlzMatchByte (slot : ℤ) (j : ℕ) (s : FastlzState) : Outcome GrubError UInt8 :=
  if slot < 0 then inside (j < 19) (ghoFastlzSeed.getD j 0)
  else if slot.toNat + j < s.out then s.dst.get (slot.toNat + j)
  else done 0

/-- One round of the loop that copies a match. -/
def fastlzCopy (slot : ℤ) (j : ℕ) (s : FastlzState) : Outcome GrubError FastlzState := do
  let b ← fastlzMatchByte slot j s
  s.put b

/-- A match from `start` on closes the run of literals before it. -/
def fastlzClose (start : ℕ) (s : FastlzState) : Outcome GrubError FastlzState :=
  if 0 < s.lit ∧ s.lit ≤ start then
    if start - s.lit + 2 < s.out then do
      let t ← s.enter (start - s.lit)
      if s.prevLit = 2 ∧ start - s.lit + 3 < s.out then t.enter (start - s.lit + 1) else done t
    else done s
  else done s

/-- No run of literals is open. -/
def fastlzClosed (s : FastlzState) : FastlzState :=
  if 0 < s.lit then { s with lit := 0, prevLit := 0 } else s

/-- A match token; `inr` is `goto done`. -/
def fastlzMatch (src : Mem) (s : FastlzState) : Outcome GrubError (FastlzState ⊕ FastlzState) :=
  if src.len - s.sp < 2 then done (.inr s)
  else do
    let high ← src.get s.sp
    let low ← src.get (s.sp + 1)
    let idx := low.toNat ||| (high.toNat &&& 0xf0) * 2 ^ 4
    let total := 3 + (high.toNat &&& 0x0f)
    let slot ← inside (idx < GRUB_GHOST_FASTLZ_HASH_SIZE) (s.hash idx)
    if s.dst.len - s.out < total then
      failed ⟨.badCompressedData, "overlong match in Ghost block"⟩
    else do
      let t ← forRange (fastlzCopy slot) 0 total { s with sp := s.sp + 2 }
      let t ← fastlzClose s.out t
      let t ← (fastlzClosed t).setSlot idx s.out
      done (.inl t)

/-- One more literal is taken. -/
def fastlzCounted (s : FastlzState) : FastlzState :=
  { s with sp := s.sp + 1, lit := s.lit + 1, prevLit := s.lit + 1 }

/-- A literal token. -/
def fastlzLiteral (src : Mem) (s : FastlzState) : Outcome GrubError FastlzState :=
  if s.dst.len ≤ s.out then failed ⟨.badCompressedData, "overlong Ghost block"⟩
  else do
    let b ← src.get s.sp
    let t ← (fastlzCounted s).put b
    if t.lit = 3 then do
      let t ← t.enter (t.out - 3)
      done { t with lit := 2, prevLit := 2 }
    else done t

/-- The token that the lowest bit of the control word announces. -/
def fastlzTake (src : Mem) (s : FastlzState) : Outcome GrubError (FastlzState ⊕ FastlzState) :=
  if s.ctrl % 2 = 1 then fastlzMatch src s
  else do
    let t ← fastlzLiteral src s
    done (.inl t)

/-- One token and the shift of the control word. -/
def fastlzToken (src : Mem) (s : FastlzState) : Outcome GrubError (FastlzState ⊕ FastlzState) := do
  match ← fastlzTake src s with
  | .inl t => done (.inl { t with ctrl := t.ctrl / 2 })
  | .inr t => done (.inr t)

/-- The next control word if the last one is used up; `none` when there is none. -/
def fastlzLoad (src : Mem) (s : FastlzState) : Outcome GrubError (Option FastlzState) :=
  if s.ctrl = 1 then
    if src.len - s.sp < 2 then done none
    else do
      let low ← src.get s.sp
      let high ← src.get (s.sp + 1)
      done (some { s with
        ctrl := low.toNat ||| high.toNat * 2 ^ 8 ||| 0x10000
        sp := s.sp + 2 })
  else done (some s)

/-! ### The loop -/

/-- The loop over `t`: at most so many tokens, up to the end of the source or of the control
word. -/
def fastlzTokens (src : Mem) :
    ℕ → FastlzState → Outcome GrubError (FastlzState ⊕ FastlzState)
  | 0, s => done (.inl s)
  | t + 1, s =>
    if src.len ≤ s.sp then done (.inl s)
    else do
      match ← fastlzToken src s with
      | .inr s => done (.inr s)
      | .inl s => if s.ctrl = 1 then done (.inl s) else fastlzTokens src t s

/-- The loop of `gho_fastlz` with `tokens rest` tokens in a round that has `rest` bytes left. -/
def fastlzLoop (src : Mem) (tokens : ℕ → ℕ) : ℕ → FastlzState → Outcome GrubError FastlzState
  | 0, _ => deep
  | fuel + 1, s =>
    if src.len ≤ s.sp then done s
    else do
      match ← fastlzLoad src s with
      | none => done s
      | some s =>
        match ← fastlzTokens src (tokens (src.len - s.sp)) s with
        | .inr s => done s
        | .inl s => fastlzLoop src tokens fuel s

/-- The variables at the start. -/
def FastlzState.init (dst : Mem) : FastlzState where
  sp := 0
  out := 0
  ctrl := 1
  lit := 0
  prevLit := 0
  hash _ := -1
  dst := dst

/-- `gho_fastlz` with any number of tokens in a round; each round takes a byte of the source. -/
def ghoFastlzBy (tokens : ℕ → ℕ) (src dst : Mem) : Outcome GrubError FastlzState :=
  fastlzLoop src tokens (src.len + 1) (.init dst)

/-- `gho_fastlz`. -/
def ghoFastlz (src dst : Mem) : Outcome GrubError FastlzState :=
  ghoFastlzBy (fun rest => if rest < 32 then 1 else 16) src dst

/-! ### One token at a time -/

/-- The next control word where one is due, and one token. -/
def fastlzStep (src : Mem) (s : FastlzState) : Outcome GrubError (FastlzState ⊕ FastlzState) :=
  if src.len ≤ s.sp then done (.inr s)
  else do
    match ← fastlzLoad src s with
    | none => done (.inr s)
    | some s => if src.len ≤ s.sp then done (.inl s) else fastlzToken src s

/-- The states that decoding one token at a time goes through. -/
inductive FastlzReached (src dst : Mem) : FastlzState → Prop
  | init : FastlzReached src dst (.init dst)
  | step {s t : FastlzState} : FastlzReached src dst s → fastlzStep src s = done (.inl t) →
    FastlzReached src dst t

/-- Decoding from `s` one token at a time comes to `r`. -/
inductive FastlzRuns (src : Mem) : FastlzState → Outcome GrubError FastlzState → Prop
  | stop {s t : FastlzState} : fastlzStep src s = done (.inr t) → FastlzRuns src s (done t)
  | next {s t : FastlzState} {r : Outcome GrubError FastlzState} :
    fastlzStep src s = done (.inl t) → FastlzRuns src t r → FastlzRuns src s r
  | failed {s : FastlzState} {e : GrubError} : fastlzStep src s = failed e →
    FastlzRuns src s (failed e)

theorem FastlzRuns.unique {src : Mem} {s : FastlzState} {r r' : Outcome GrubError FastlzState}
    (h : FastlzRuns src s r) (h' : FastlzRuns src s r') : r = r' := by
  induction h with
  | stop hstep =>
    cases h' with
    | stop hstep' =>
      rw [hstep] at hstep'
      injection hstep' with hsum
      injection hsum with heq
      rw [heq]
    | next hstep' _ => rw [hstep] at hstep'; cases hstep'
    | failed hstep' => rw [hstep] at hstep'; cases hstep'
  | next hstep _ ih =>
    cases h' with
    | stop hstep' => rw [hstep] at hstep'; cases hstep'
    | next hstep' hrest =>
      rw [hstep] at hstep'
      injection hstep' with hsum
      injection hsum with heq
      exact ih (heq ▸ hrest)
    | failed hstep' => rw [hstep] at hstep'; cases hstep'
  | failed hstep =>
    cases h' with
    | stop hstep' => rw [hstep] at hstep'; cases hstep'
    | next hstep' _ => rw [hstep] at hstep'; cases hstep'
    | failed hstep' =>
      rw [hstep] at hstep'
      injection hstep' with heq
      rw [heq]

/-! ### What a token keeps -/

/-- Every slot in use is a position three bytes below the output at least. -/
def FastlzSlots (s : FastlzState) : Prop :=
  ∀ i, s.hash i = -1 ∨ 0 ≤ s.hash i ∧ s.hash i + 3 ≤ s.out

/-- The longest block of which a slot holds every position that enters the table. -/
def fastlzMax : ℕ := 2 ^ 31 + 2

/-- The variables fit the buffer, and the run of literals fits the output. -/
structure FastlzInv (cap : ℕ) (s : FastlzState) : Prop where
  len_eq : s.dst.len = cap
  out_le : s.out ≤ cap
  lit_le : s.lit ≤ s.out
  slots : cap ≤ fastlzMax → FastlzSlots s

theorem toInt32_of_lt {n : ℕ} (h : n < 2 ^ 31) : toInt32 n = n := by
  rw [toInt32, Nat.mod_eq_of_lt (by omega), if_pos h]

theorem ghoFastlzHash_lt (b0 b1 b2 : UInt8) :
    ghoFastlzHash b0 b1 b2 < GRUB_GHOST_FASTLZ_HASH_SIZE := Nat.mod_lt _ (by decide)

section Keep

variable {cap : ℕ} {s : FastlzState}

/-- A position three bytes below the output enters the table. -/
theorem FastlzSlots.set {idx pos : ℕ} (h : FastlzSlots s) (hpos : pos + 3 ≤ s.out)
    (hlt : pos < 2 ^ 31) :
    FastlzSlots { s with hash := fun i => if i = idx then toInt32 pos else s.hash i } := by
  intro i
  dsimp only
  by_cases hi : i = idx
  · rw [if_pos hi, toInt32_of_lt hlt]
    exact .inr ⟨by omega, by omega⟩
  · rw [if_neg hi]
    exact h i

/-- What `setSlot` changes. -/
def FastlzSame (s t : FastlzState) : Prop :=
  t.sp = s.sp ∧ t.out = s.out ∧ t.ctrl = s.ctrl ∧ t.lit = s.lit ∧ t.prevLit = s.prevLit
    ∧ t.dst = s.dst

theorem FastlzInv.setSlot {idx pos : ℕ} (h : FastlzInv cap s)
    (hidx : idx < GRUB_GHOST_FASTLZ_HASH_SIZE) (hpos : pos + 3 ≤ s.out) :
    (s.setSlot idx pos).Ends fun t => FastlzInv cap t ∧ FastlzSame s t := by
  refine ends_inside hidx ⟨⟨h.len_eq, h.out_le, h.lit_le, fun hcap => ?_⟩,
    rfl, rfl, rfl, rfl, rfl, rfl⟩
  have hout := h.out_le
  rw [fastlzMax] at hcap
  exact (h.slots hcap).set hpos (by omega)

theorem FastlzInv.enter {pos : ℕ} (h : FastlzInv cap s) (hpos : pos + 3 ≤ s.out) :
    (s.enter pos).Ends fun t => FastlzInv cap t ∧ FastlzSame s t := by
  have hlen := h.len_eq
  have hout := h.out_le
  rw [FastlzState.enter, get_of_lt (by omega), get_of_lt (by omega), get_of_lt (by omega),
    done_bind, done_bind, done_bind]
  exact h.setSlot (ghoFastlzHash_lt _ _ _) hpos

theorem put_eq {b : UInt8} (h : s.out < s.dst.len) :
    ∃ dst, s.put b = done { s with dst := dst, out := s.out + 1 } ∧ dst.len = s.dst.len := by
  obtain ⟨dst, hdst, hlen⟩ := @modify_of_lt GrubError s.dst s.out (fun _ => b) h
  exact ⟨dst, by rw [FastlzState.put, hdst, done_bind], hlen⟩

theorem fastlzMatchByte_eq {slot : ℤ} {j : ℕ} (hout : s.out ≤ s.dst.len) (hj : j < 19) :
    ∃ b, fastlzMatchByte slot j s = done b := by
  rw [fastlzMatchByte]
  by_cases hneg : slot < 0
  · exact ⟨_, by rw [if_pos hneg, inside_pos hj]⟩
  · rw [if_neg hneg]
    by_cases hlt : slot.toNat + j < s.out
    · exact ⟨_, by rw [if_pos hlt, get_of_lt (by omega)]⟩
    · exact ⟨0, by rw [if_neg hlt]⟩

/-- A match of `n` bytes that fits is copied. -/
theorem fastlzCopies_eq {slot : ℤ} {j n : ℕ} (hfit : s.out + n ≤ s.dst.len) (hj : j + n ≤ 19) :
    ∃ dst, forRange (fastlzCopy slot) j n s = done { s with dst := dst, out := s.out + n }
      ∧ dst.len = s.dst.len := by
  induction n generalizing s j with
  | zero => exact ⟨s.dst, rfl, rfl⟩
  | succ n ih =>
    obtain ⟨b, hb⟩ := @fastlzMatchByte_eq s slot j (by omega) (by omega)
    obtain ⟨dst, hput, hlen⟩ := @put_eq s b (by omega)
    obtain ⟨dst', hrest, hlen'⟩ := @ih { s with dst := dst, out := s.out + 1 } (j + 1)
      (by dsimp only; omega) (by omega)
    refine ⟨dst', ?_, hlen'.trans hlen⟩
    rw [forRange, fastlzCopy, hb, done_bind, hput, done_bind, hrest, Nat.add_right_comm]
    rfl

theorem FastlzInv.close {start : ℕ} (h : FastlzInv cap s) :
    (fastlzClose start s).Ends fun t => FastlzInv cap t ∧ FastlzSame s t := by
  rw [fastlzClose]
  by_cases hlit : 0 < s.lit ∧ s.lit ≤ start
  · rw [if_pos hlit]
    by_cases hpos : start - s.lit + 2 < s.out
    · rw [if_pos hpos]
      refine (h.enter (by omega)).bind fun t ⟨ht, hsame⟩ => ?_
      by_cases hnext : s.prevLit = 2 ∧ start - s.lit + 3 < s.out
      · rw [if_pos hnext]
        have hout := hsame.2.1
        refine (ht.enter (by omega)).mono fun u ⟨hu, hsame'⟩ => ⟨hu, ?_⟩
        obtain ⟨h1, h2, h3, h4, h5, h6⟩ := hsame
        obtain ⟨h1', h2', h3', h4', h5', h6'⟩ := hsame'
        exact ⟨h1'.trans h1, h2'.trans h2, h3'.trans h3, h4'.trans h4, h5'.trans h5, h6'.trans h6⟩
      · rw [if_neg hnext]
        exact ⟨ht, hsame⟩
    · rw [if_neg hpos]
      exact ⟨h, rfl, rfl, rfl, rfl, rfl, rfl⟩
  · rw [if_neg hlit]
    exact ⟨h, rfl, rfl, rfl, rfl, rfl, rfl⟩

theorem FastlzInv.closed (h : FastlzInv cap s) : FastlzInv cap (fastlzClosed s) := by
  rw [fastlzClosed]
  by_cases hlit : 0 < s.lit
  · rw [if_pos hlit]
    exact ⟨h.len_eq, h.out_le, Nat.zero_le _, h.slots⟩
  · rwa [if_neg hlit]

theorem fastlzClosed_same (s : FastlzState) : (fastlzClosed s).sp = s.sp
    ∧ (fastlzClosed s).out = s.out := by
  rw [fastlzClosed]
  split_ifs <;> exact ⟨rfl, rfl⟩

theorem FastlzInv.grow (h : FastlzInv cap s) (sp : ℕ) {dst : Mem} {n : ℕ} (hdst : dst.len = cap)
    (hn : s.out + n ≤ cap) : FastlzInv cap { s with sp := sp, dst := dst, out := s.out + n } where
  len_eq := hdst
  out_le := hn
  lit_le := Nat.le_trans h.lit_le (Nat.le_add_right _ _)
  slots hcap i := by
    rcases h.slots hcap i with hi | ⟨hpos, hle⟩
    · exact .inl hi
    · exact .inr ⟨hpos, by dsimp only; omega⟩

/-- What a token makes of the state: it goes on behind the bytes that it took, or ends the block. -/
def FastlzNext (src : Mem) (cap : ℕ) (s : FastlzState) : FastlzState ⊕ FastlzState → Prop
  | .inl t => FastlzInv cap t ∧ s.sp < t.sp ∧ t.sp ≤ src.len
  | .inr t => FastlzInv cap t

theorem fastlzMatch_bounds (high low : UInt8) :
    low.toNat ||| (high.toNat &&& 0xf0) * 2 ^ 4 < GRUB_GHOST_FASTLZ_HASH_SIZE
      ∧ 3 ≤ 3 + (high.toNat &&& 0x0f) ∧ 3 + (high.toNat &&& 0x0f) ≤ 18 := by
  have hhigh : (high.toNat &&& 0xf0) ≤ 0xf0 := Nat.and_le_right
  have hlow : (high.toNat &&& 0x0f) ≤ 0x0f := Nat.and_le_right
  have hbyte := UInt8.toNat_lt low
  refine ⟨Nat.or_lt_two_pow (n := 12) (by omega) (by omega), by omega, by omega⟩

theorem FastlzInv.match_ {src : Mem} (h : FastlzInv cap s) :
    (fastlzMatch src s).Ends (FastlzNext src cap s) := by
  have hlen := h.len_eq
  have hout := h.out_le
  rw [fastlzMatch]
  by_cases hend : src.len - s.sp < 2
  · rw [if_pos hend]
    exact h
  · rw [if_neg hend, get_of_lt (by omega), done_bind, get_of_lt (by omega), done_bind]
    obtain ⟨hidx, hmin, hmax⟩ := fastlzMatch_bounds (src.byte s.sp) (src.byte (s.sp + 1))
    dsimp only
    rw [inside_pos hidx, done_bind]
    generalize (src.byte (s.sp + 1)).toNat ||| ((src.byte s.sp).toNat &&& 0xf0) * 2 ^ 4 = idx at *
    generalize 3 + ((src.byte s.sp).toNat &&& 0x0f) = total at *
    by_cases hfit : s.dst.len - s.out < total
    · rw [if_pos hfit]
      trivial
    · obtain ⟨dst, hcopy, hdst⟩ := @fastlzCopies_eq { s with sp := s.sp + 2 } (s.hash idx) 0 total
        (by dsimp only; omega) (by omega)
      rw [if_neg hfit, hcopy, done_bind]
      have hcopied : FastlzInv cap { s with sp := s.sp + 2, dst := dst, out := s.out + total } :=
        h.grow _ (hdst.trans hlen) (by omega)
      refine hcopied.close.bind fun t ⟨ht, hsp, hout', hrest⟩ => ?_
      obtain ⟨hclosedSp, hclosedOut⟩ := fastlzClosed_same t
      dsimp only at hsp hout'
      refine (ht.closed.setSlot hidx (by omega)).bind fun u ⟨hu, husp, huout, _⟩ => ?_
      exact ⟨hu, by omega, by omega⟩

theorem FastlzInv.counted {t : FastlzState} {b : UInt8} (h : FastlzInv cap s)
    (hput : (fastlzCounted s).put b = done t) (hlt : s.out < cap) :
    FastlzInv cap t ∧ t.sp = s.sp + 1 := by
  have hlen := h.len_eq
  have hlit := h.lit_le
  obtain ⟨dst, hdst, hsame⟩ := @put_eq (fastlzCounted s) b (show s.out < s.dst.len by omega)
  rw [hdst] at hput
  injection hput with heq
  have hgrown := h.grow (n := 1) (s.sp + 1) (hsame.trans hlen) (Nat.succ_le_of_lt hlt)
  rw [← heq]
  exact ⟨⟨hgrown.len_eq, hgrown.out_le, Nat.succ_le_succ hlit, hgrown.slots⟩, rfl⟩

theorem FastlzInv.literal {src : Mem} (h : FastlzInv cap s) (hsp : s.sp < src.len) :
    (fastlzLiteral src s).Ends fun t => FastlzInv cap t ∧ s.sp < t.sp ∧ t.sp ≤ src.len := by
  have hlen := h.len_eq
  rw [fastlzLiteral]
  by_cases hfull : s.dst.len ≤ s.out
  · rw [if_pos hfull]
    trivial
  · have hlt : s.out < s.dst.len := Nat.lt_of_not_le hfull
    obtain ⟨dst, hput, -⟩ := @put_eq (fastlzCounted s) (src.byte s.sp) hlt
    obtain ⟨ht, htsp⟩ := h.counted hput (hlen ▸ hlt)
    rw [if_neg hfull, get_of_lt hsp, done_bind, hput, done_bind]
    generalize { fastlzCounted s with dst := dst, out := (fastlzCounted s).out + 1 } = t at *
    by_cases hthree : t.lit = 3
    · -- the run is three long: its first byte enters the table and leaves the run
      rw [if_pos hthree]
      have hlit := ht.lit_le
      refine (ht.enter (by omega)).bind fun u ⟨hu, husp, huout, _⟩ => ?_
      exact ⟨⟨hu.len_eq, hu.out_le, show 2 ≤ u.out by omega, hu.slots⟩,
        show s.sp < u.sp by omega, show u.sp ≤ src.len by omega⟩
    · rw [if_neg hthree]
      exact ⟨ht, by omega, by omega⟩

theorem FastlzInv.token {src : Mem} (h : FastlzInv cap s) (hsp : s.sp < src.len) :
    (fastlzToken src s).Ends (FastlzNext src cap s) := by
  have htake : (fastlzTake src s).Ends (FastlzNext src cap s) := by
    rw [fastlzTake]
    by_cases hbit : s.ctrl % 2 = 1
    · rw [if_pos hbit]
      exact h.match_
    · rw [if_neg hbit]
      exact (h.literal hsp).bind fun t ht => ht
  rw [fastlzToken]
  refine htake.bind fun r hr => ?_
  rcases r with t | t
  · exact ⟨⟨hr.1.len_eq, hr.1.out_le, hr.1.lit_le, hr.1.slots⟩, hr.2⟩
  · exact hr

/-- What a loaded control word leaves. -/
def FastlzLoaded (src : Mem) (cap : ℕ) (s : FastlzState) : Option FastlzState → Prop
  | none => True
  | some t => FastlzInv cap t ∧ t.ctrl ≠ 1 ∧ t.sp ≤ src.len ∧ (s.sp < t.sp ∨ t = s)

theorem FastlzInv.load {src : Mem} (h : FastlzInv cap s) (hsp : s.sp < src.len) :
    (fastlzLoad src s).Ends (FastlzLoaded src cap s) := by
  rw [fastlzLoad]
  by_cases hctrl : s.ctrl = 1
  · rw [if_pos hctrl]
    by_cases hend : src.len - s.sp < 2
    · rw [if_pos hend]
      trivial
    · rw [if_neg hend, get_of_lt hsp, done_bind, get_of_lt (by omega), done_bind]
      have hmark : 0x10000 ≤ (src.byte s.sp).toNat ||| (src.byte (s.sp + 1)).toNat * 2 ^ 8 ||| 0x10000 :=
        Nat.right_le_or
      exact ⟨⟨h.len_eq, h.out_le, h.lit_le, h.slots⟩, Nat.ne_of_gt (by dsimp only; omega),
        show s.sp + 2 ≤ src.len by omega, .inl (show s.sp < s.sp + 2 by omega)⟩
  · rw [if_neg hctrl]
    exact ⟨h, hctrl, Nat.le_of_lt hsp, .inr rfl⟩

theorem FastlzInv.step {src : Mem} (h : FastlzInv cap s) :
    (fastlzStep src s).Ends (FastlzNext src cap s) := by
  rw [fastlzStep]
  by_cases hend : src.len ≤ s.sp
  · rw [if_pos hend]
    exact h
  · rw [if_neg hend]
    refine (h.load (Nat.lt_of_not_le hend)).bind fun r hr => ?_
    rcases r with _ | t
    · exact h
    · obtain ⟨ht, -, hle, hsp⟩ := hr
      dsimp only
      by_cases hlast : src.len ≤ t.sp
      · rw [if_pos hlast]
        exact ⟨ht, by omega, hle⟩
      · rw [if_neg hlast]
        refine (ht.token (Nat.lt_of_not_le hlast)).mono fun u hu => ?_
        rcases u with u | u
        · refine ⟨hu.1, ?_, hu.2.2⟩
          rcases hsp with hlt | rfl
          · exact Nat.lt_trans hlt hu.2.1
          · exact hu.2.1
        · exact hu

theorem FastlzInv.init (dst : Mem) : FastlzInv dst.len (.init dst) :=
  ⟨rfl, Nat.zero_le _, Nat.zero_le _, fun _ _ => .inl rfl⟩

theorem FastlzReached.inv {src dst : Mem} {s : FastlzState} (h : FastlzReached src dst s) :
    FastlzInv dst.len s := by
  induction h with
  | init => exact .init dst
  | step _ hstep ih =>
    have hnext := @FastlzInv.step _ _ src ih
    rw [hstep] at hnext
    exact hnext.1

/-- The tokens of a round; a round with tokens and source left gets on. -/
theorem FastlzInv.tokens {src : Mem} {n : ℕ} (h : FastlzInv cap s) (hsp : s.sp ≤ src.len) :
    (fastlzTokens src n s).Ends fun
      | .inl t => FastlzInv cap t ∧ s.sp ≤ t.sp ∧ t.sp ≤ src.len
        ∧ (0 < n → s.sp < src.len → s.sp < t.sp)
      | .inr t => FastlzInv cap t := by
  induction n generalizing s with
  | zero => exact ⟨h, Nat.le_refl _, hsp, fun hn => absurd hn (Nat.lt_irrefl 0)⟩
  | succ n ih =>
    rw [fastlzTokens]
    by_cases hend : src.len ≤ s.sp
    · rw [if_pos hend]
      exact ⟨h, Nat.le_refl _, hsp, fun _ hlt => absurd hlt (Nat.not_lt.mpr hend)⟩
    · rw [if_neg hend]
      refine (h.token (Nat.lt_of_not_le hend)).bind fun r hr => ?_
      rcases r with t | t
      · obtain ⟨ht, hlt, hle⟩ := hr
        dsimp only
        by_cases hctrl : t.ctrl = 1
        · rw [if_pos hctrl]
          exact ⟨ht, Nat.le_of_lt hlt, hle, fun _ _ => hlt⟩
        · rw [if_neg hctrl]
          refine (ih ht hle).mono fun u hu => ?_
          rcases u with u | u
          · exact ⟨hu.1, by omega, hu.2.2.1, fun _ _ => by omega⟩
          · exact hu
      · exact hr

/-- With a token in every round the loop ends inside its buffers. -/
theorem FastlzInv.loop {src : Mem} {tokens : ℕ → ℕ} (htokens : ∀ rest, 0 < tokens rest) {fuel : ℕ}
    (h : FastlzInv cap s) (hsp : s.sp ≤ src.len) (hfuel : src.len - s.sp < fuel) :
    (fastlzLoop src tokens fuel s).Ends (FastlzInv cap) := by
  induction fuel generalizing s with
  | zero => exact absurd hfuel (Nat.not_lt_zero _)
  | succ fuel ih =>
    rw [fastlzLoop]
    by_cases hend : src.len ≤ s.sp
    · rw [if_pos hend]
      exact h
    · rw [if_neg hend]
      refine (h.load (Nat.lt_of_not_le hend)).bind fun r hr => ?_
      rcases r with _ | t
      · exact h
      · obtain ⟨ht, -, hle, hlt⟩ := hr
        dsimp only
        refine (ht.tokens hle).bind fun u hu => ?_
        rcases u with u | u
        · obtain ⟨hu, hge, hule, hon⟩ := hu
          have hpos := hon (htokens _)
          refine ih hu hule ?_
          rcases hlt with hlt | rfl
          · omega
          · omega
        · exact hu

end Keep

/-! ### The tokens in a round do not matter -/

section Runs

variable {src : Mem} {s : FastlzState}

theorem FastlzRuns.congr {t : FastlzState} {r : Outcome GrubError FastlzState}
    (hstep : fastlzStep src s = fastlzStep src t) (h : FastlzRuns src t r) : FastlzRuns src s r := by
  cases h with
  | stop h => exact .stop (hstep.trans h)
  | next h hrest => exact .next (hstep.trans h) hrest
  | failed h => exact .failed (hstep.trans h)

theorem fastlzStep_of_loaded (hctrl : s.ctrl ≠ 1) (hsp : ¬ src.len ≤ s.sp) :
    fastlzStep src s = fastlzToken src s := by
  rw [fastlzStep, if_neg hsp, fastlzLoad, if_neg hctrl, done_bind]
  dsimp only
  rw [if_neg hsp]

/-- A control word that is loaded carries a mark above its sixteen bits. -/
theorem fastlzLoad_ctrl {t : FastlzState} (h : fastlzLoad src s = done (some t)) : t.ctrl ≠ 1 := by
  rw [fastlzLoad] at h
  by_cases hctrl : s.ctrl = 1
  · rw [if_pos hctrl] at h
    by_cases hend : src.len - s.sp < 2
    · rw [if_pos hend] at h
      cases h
    · rw [if_neg hend, get_of_lt (by omega), done_bind, get_of_lt (by omega), done_bind] at h
      cases h
      have hmark : 0x10000
          ≤ (src.byte s.sp).toNat ||| (src.byte (s.sp + 1)).toNat * 2 ^ 8 ||| 0x10000 :=
        Nat.right_le_or
      exact Nat.ne_of_gt (by dsimp only; omega)
  · rw [if_neg hctrl] at h
    cases h
    exact hctrl

theorem fastlzStep_of_load {t : FastlzState} (hsp : ¬ src.len ≤ s.sp)
    (hload : fastlzLoad src s = done (some t)) :
    fastlzStep src s = if src.len ≤ t.sp then done (.inl t) else fastlzToken src t := by
  rw [fastlzStep, if_neg hsp, hload, done_bind]

theorem FastlzRuns.of_load {t : FastlzState} {r : Outcome GrubError FastlzState}
    (hsp : ¬ src.len ≤ s.sp) (hload : fastlzLoad src s = done (some t)) (hctrl : t.ctrl ≠ 1)
    (h : FastlzRuns src t r) : FastlzRuns src s r := by
  have hstep := fastlzStep_of_load hsp hload
  by_cases hend : src.len ≤ t.sp
  · rw [if_pos hend] at hstep
    exact .next hstep h
  · rw [if_neg hend, ← fastlzStep_of_loaded hctrl hend] at hstep
    exact h.congr hstep

/-- From `s` the tokens of a round come to `x`, and one token at a time does. -/
def FastlzOneByOne (src : Mem) (s : FastlzState) :
    Outcome GrubError (FastlzState ⊕ FastlzState) → Prop
  | done (.inl t) => ∀ r, FastlzRuns src t r → FastlzRuns src s r
  | done (.inr t) => FastlzRuns src s (done t)
  | failed e => FastlzRuns src s (failed e)
  | _ => True

theorem fastlzTokens_oneByOne {n : ℕ} (hctrl : s.ctrl ≠ 1) :
    FastlzOneByOne src s (fastlzTokens src n s) := by
  induction n generalizing s with
  | zero => exact fun r hr => hr
  | succ n ih =>
    rw [fastlzTokens]
    by_cases hend : src.len ≤ s.sp
    · rw [if_pos hend]
      exact fun r hr => hr
    · have hstep := fastlzStep_of_loaded hctrl hend
      rw [if_neg hend]
      cases htoken : fastlzToken src s with
      | done r =>
        rw [htoken] at hstep
        rw [done_bind]
        rcases r with t | t
        · dsimp only
          by_cases hused : t.ctrl = 1
          · rw [if_pos hused]
            exact fun r hr => .next hstep hr
          · rw [if_neg hused]
            have hrest := ih hused
            cases htokens : fastlzTokens src n t with
            | done r =>
              rw [htokens] at hrest
              rcases r with u | u
              · exact fun r hr => .next hstep (hrest r hr)
              · exact .next hstep hrest
            | failed e =>
              rw [htokens] at hrest
              exact .next hstep hrest
            | fault => trivial
            | deep => trivial
        · exact .stop hstep
      | failed e => exact .failed (hstep.trans htoken)
      | fault => trivial
      | deep => trivial

/-- The loop comes to what decoding one token at a time comes to. -/
theorem fastlzLoop_runs {tokens : ℕ → ℕ} {fuel : ℕ} {Q : FastlzState → Prop}
    (h : (fastlzLoop src tokens fuel s).Ends Q) :
    FastlzRuns src s (fastlzLoop src tokens fuel s) := by
  induction fuel generalizing s with
  | zero => exact absurd h id
  | succ fuel ih =>
    rw [fastlzLoop] at h ⊢
    by_cases hend : src.len ≤ s.sp
    · rw [if_pos hend]
      exact .stop (by rw [fastlzStep, if_pos hend])
    · rw [if_neg hend] at h ⊢
      cases hload : fastlzLoad src s with
      | done r =>
        rw [hload, done_bind] at h
        rw [done_bind]
        rcases r with _ | t
        · exact .stop (by rw [fastlzStep, if_neg hend, hload, done_bind])
        · have hctrl := fastlzLoad_ctrl hload
          have hone := @fastlzTokens_oneByOne src t (tokens (src.len - t.sp)) hctrl
          dsimp only at h ⊢
          refine FastlzRuns.of_load hend hload hctrl ?_
          cases htokens : fastlzTokens src (tokens (src.len - t.sp)) t with
          | done r =>
            rw [htokens] at hone
            rw [htokens, done_bind] at h
            rw [done_bind]
            rcases r with u | u
            · exact hone _ (ih h)
            · exact hone
          | failed e =>
            rw [htokens] at hone
            exact hone
          | fault =>
            rw [htokens] at h
            exact absurd h id
          | deep =>
            rw [htokens] at h
            exact absurd h id
      | failed e => exact .failed (by rw [fastlzStep, if_neg hend, hload, failed_bind])
      | fault =>
        rw [hload] at h
        exact absurd h id
      | deep =>
        rw [hload] at h
        exact absurd h id

end Runs

/-- A run ends with a state whose output fits, or with an error. -/
theorem ghoFastlzBy_ends {tokens : ℕ → ℕ} (htokens : ∀ rest, 0 < tokens rest) (src dst : Mem) :
    (ghoFastlzBy tokens src dst).Ends (FastlzInv dst.len) :=
  (FastlzInv.init dst).loop htokens (Nat.zero_le _) (Nat.lt_succ_self _)

theorem ghoFastlzBy_eq {tokens tokens' : ℕ → ℕ} (htokens : ∀ rest, 0 < tokens rest)
    (htokens' : ∀ rest, 0 < tokens' rest) (src dst : Mem) :
    ghoFastlzBy tokens src dst = ghoFastlzBy tokens' src dst :=
  (fastlzLoop_runs (ghoFastlzBy_ends htokens src dst)).unique
    (fastlzLoop_runs (ghoFastlzBy_ends htokens' src dst))

/-- **Fast blocks decode inside their buffers.** For every source and every buffer the loop ends, with
the output inside the buffer or an error, and reads and writes nothing outside the two; rounds of one
or sixteen tokens come to what one token at a time comes to. In a buffer of at most
`2 ^ 31 + 2` bytes every slot in use is a position three bytes below the output at least, in every
state in which a token begins, so every byte that a match copies is there. -/
theorem fastlz_decodes (src dst : Mem) :
    ((∃ t, ghoFastlz src dst = done t ∧ t.out ≤ dst.len) ∨ ∃ e, ghoFastlz src dst = failed e)
    ∧ ghoFastlz src dst = ghoFastlzBy (fun _ => 1) src dst
    ∧ (dst.len ≤ fastlzMax → ∀ s, FastlzReached src dst s → FastlzSlots s
      ∧ ∀ i j, 0 ≤ s.hash i → (s.hash i).toNat + j < s.out + j) := by
  have htokens : ∀ rest, 0 < if rest < 32 then 1 else 16 := by
    intro rest
    split_ifs <;> omega
  refine ⟨?_, ghoFastlzBy_eq htokens (fun _ => Nat.zero_lt_one) src dst,
    fun hcap s hs => ⟨hs.inv.slots hcap, fun i j hpos => ?_⟩⟩
  rotate_left
  · rcases hs.inv.slots hcap i with hi | ⟨-, hle⟩ <;> omega
  rcases (ghoFastlzBy_ends htokens src dst).cases with ⟨t, ht, hinv⟩ | hfailed
  · exact .inl ⟨t, ht, hinv.out_le⟩
  · exact .inr hfailed

/-! ### Longer blocks -/

/-- A source of matches of eighteen bytes, all of the last slot. -/
def fastlzMatches : Mem := ⟨2 ^ 28, fun _ => 0xff⟩

/-- A buffer that takes more than a slot can hold. -/
def fastlzLong : Mem := .zeroed (2 ^ 31 + 2 ^ 10)

/-- The state after `n` of the matches. -/
structure FastlzMatched (n : ℕ) (s : FastlzState) : Prop where
  sp_eq : s.sp = 2 * n + 2 * ((n + 15) / 16)
  out_eq : s.out = 18 * n
  ctrl_eq : s.ctrl = if n % 16 = 0 then 1 else 2 ^ (17 - n % 16) - 1
  lit_eq : s.lit = 0
  len_eq : s.dst.len = fastlzLong.len

/-- The matches that the source and the buffer have room for. -/
def fastlzRoom : ℕ := 119304649

theorem fastlzMatch_matches {s : FastlzState} (hsp : s.sp + 2 ≤ fastlzMatches.len)
    (hout : s.out + 18 ≤ s.dst.len) (hlit : s.lit = 0) :
    ∃ t, fastlzMatch fastlzMatches s = done (.inl t) ∧ t.sp = s.sp + 2 ∧ t.out = s.out + 18
      ∧ t.ctrl = s.ctrl ∧ t.lit = 0 ∧ t.dst.len = s.dst.len ∧ t.hash 0xfff = toInt32 s.out := by
  have hbyte : ∀ i, fastlzMatches.byte i = 0xff := fun _ => rfl
  have hidx : (0xff : UInt8).toNat ||| ((0xff : UInt8).toNat &&& 0xf0) * 2 ^ 4 = 0xfff := by decide
  have htotal : 3 + ((0xff : UInt8).toNat &&& 0x0f) = 18 := by decide
  obtain ⟨dst, hcopy, hdst⟩ := @fastlzCopies_eq { s with sp := s.sp + 2 } (s.hash 0xfff) 0 18
    hout (by omega)
  rw [fastlzMatch, if_neg (by omega), get_of_lt (by omega), done_bind, get_of_lt (by omega),
    done_bind, hbyte, hbyte]
  dsimp only
  rw [hidx, htotal, inside_pos (by decide), done_bind, if_neg (by omega), hcopy, done_bind,
    fastlzClose, if_neg (by dsimp only; omega), done_bind, fastlzClosed,
    if_neg (by dsimp only; omega), FastlzState.setSlot, inside_pos (by decide), done_bind]
  exact ⟨_, rfl, rfl, rfl, rfl, hlit, hdst, by dsimp only; rw [if_pos rfl]⟩

theorem FastlzMatched.token {n : ℕ} {s : FastlzState} (hn : n < fastlzRoom)
    (hsp : s.sp + 2 ≤ fastlzMatches.len) (hctrl : s.ctrl = 2 ^ (17 - n % 16) - 1)
    (hout : s.out = 18 * n) (hlit : s.lit = 0) (hlen : s.dst.len = fastlzLong.len)
    (hnext : s.sp = 2 * n + 2 * ((n + 16) / 16)) :
    ∃ t, fastlzToken fastlzMatches s = done (.inl t) ∧ FastlzMatched (n + 1) t
      ∧ t.hash 0xfff = toInt32 (18 * n) := by
  have hcap : fastlzLong.len = 2 ^ 31 + 2 ^ 10 := rfl
  rw [fastlzRoom] at hn
  obtain ⟨t, ht, htsp, htout, htctrl, htlit, htlen, hslot⟩ :=
    fastlzMatch_matches hsp (by omega) hlit
  have hpow : 2 ^ (17 - n % 16) = 2 * 2 ^ (16 - n % 16) := by
    rw [← Nat.pow_succ']
    congr 1
    omega
  have hpos := Nat.two_pow_pos (16 - n % 16)
  refine ⟨{ t with ctrl := t.ctrl / 2 }, ?_, ⟨?_, ?_, ?_, htlit, htlen.trans hlen⟩, ?_⟩
  · rw [fastlzToken, fastlzTake, if_pos (by omega), ht, done_bind]
  · show t.sp = 2 * (n + 1) + 2 * ((n + 1 + 15) / 16)
    omega
  · show t.out = 18 * (n + 1)
    omega
  · show t.ctrl / 2 = _
    by_cases hlast : (n + 1) % 16 = 0
    · have h15 : n % 16 = 15 := by omega
      rw [if_pos hlast, htctrl, hctrl, h15]
      rfl
    · have hmod : (n + 1) % 16 = n % 16 + 1 := by omega
      have hexp : 17 - (n % 16 + 1) = 16 - n % 16 := by omega
      rw [if_neg hlast, hmod, hexp, htctrl, hctrl, hpow]
      omega
  · rw [← hout]
    exact hslot

theorem FastlzMatched.step {n : ℕ} {s : FastlzState} (h : FastlzMatched n s) (hn : n < fastlzRoom) :
    ∃ t, fastlzStep fastlzMatches s = done (.inl t) ∧ FastlzMatched (n + 1) t
      ∧ t.hash 0xfff = toInt32 (18 * n) := by
  have hlen : fastlzMatches.len = 2 ^ 28 := rfl
  have hsp := h.sp_eq
  have hctrl := h.ctrl_eq
  have hn' := hn
  rw [fastlzRoom] at hn'
  have hbyte : ∀ i, fastlzMatches.byte i = 0xff := fun _ => rfl
  by_cases hfirst : n % 16 = 0
  · -- a new control word, all of whose bits are set
    rw [if_pos hfirst] at hctrl
    have hword : (0xff : UInt8).toNat ||| (0xff : UInt8).toNat * 2 ^ 8 ||| 0x10000 = 2 ^ 17 - 1 := by
      decide
    have hload : fastlzLoad fastlzMatches s
        = done (some { s with ctrl := 2 ^ 17 - 1, sp := s.sp + 2 }) := by
      rw [fastlzLoad, if_pos hctrl, if_neg (by omega), get_of_lt (by omega), done_bind,
        get_of_lt (by omega), done_bind, hbyte, hbyte, hword]
    rw [fastlzStep_of_load (by omega) hload, if_neg (by dsimp only; omega)]
    refine FastlzMatched.token hn (show s.sp + 2 + 2 ≤ fastlzMatches.len by omega) ?_ h.out_eq
      h.lit_eq h.len_eq (show s.sp + 2 = 2 * n + 2 * ((n + 16) / 16) by omega)
    rw [hfirst]
  · rw [if_neg hfirst] at hctrl
    have hne : s.ctrl ≠ 1 := by
      have hpow : 2 ^ 2 ≤ 2 ^ (17 - n % 16) := Nat.pow_le_pow_right Nat.two_pos (by omega)
      omega
    rw [fastlzStep_of_loaded hne (by omega)]
    exact FastlzMatched.token hn (by omega) hctrl h.out_eq h.lit_eq h.len_eq (by omega)

theorem FastlzMatched.reached {n : ℕ} (hn : n ≤ fastlzRoom) :
    ∃ s, FastlzReached fastlzMatches fastlzLong s ∧ FastlzMatched n s := by
  induction n with
  | zero => exact ⟨.init fastlzLong, .init, rfl, rfl, rfl, rfl, rfl⟩
  | succ n ih =>
    obtain ⟨s, hs, hmatched⟩ := ih (Nat.le_of_succ_le hn)
    obtain ⟨t, hstep, ht, -⟩ := hmatched.step hn
    exact ⟨t, hs.step hstep, ht⟩

/-- **In a longer block a slot turns negative.** After more than `2 ^ 31` bytes of output the position
of a match does not fit its slot. -/
theorem fastlz_slot_wraps : ∃ src dst s, FastlzReached src dst s ∧ ¬ FastlzSlots s := by
  obtain ⟨s, hs, hmatched⟩ := FastlzMatched.reached (n := 119304648) (by decide)
  obtain ⟨t, hstep, -, hslot⟩ := hmatched.step (by decide)
  refine ⟨fastlzMatches, fastlzLong, t, hs.step hstep, fun h => ?_⟩
  have hnegative : toInt32 (18 * 119304648) = -2147483632 := by decide
  rw [hnegative] at hslot
  rcases h 0xfff with hfree | ⟨hpos, -⟩
  · rw [hslot] at hfree
    exact absurd hfree (by decide)
  · rw [hslot] at hpos
    exact absurd hpos (by decide)

end FsRover
