import FsRover.Bytes

/-!
# The decompressors of full flash images

Both decompressors of `ffu.c` write their output from the start of the destination on, byte after
byte, and stop at malformed input. What they wrote by then stays in the destination, so a failure
carries it.

## Main results

* `FsRover.ffuDecompress_length` : neither writes past the end of the destination, whether it fails or
  not.
-/

namespace FsRover

def FFU_LZNT1_CHUNK : ℕ := 4096

/-- The bytes written, and whether the input was malformed behind them. -/
abbrev FfuWritten := Except (List UInt8) (List UInt8)

/-- What is in the destination. -/
def FfuWritten.bytes : FfuWritten → List UInt8
  | .ok out => out
  | .error out => out

/-- Append `len` bytes, each the one `back` bytes before the end. -/
def ffuCopyBack (back : ℕ) : ℕ → List UInt8 → List UInt8
  | 0, out => out
  | len + 1, out => ffuCopyBack back len (out ++ [out.getD (out.length - back) 0])

/-- A little endian field of `n` bytes at the head of `src`. -/
def ffuLe (src : List UInt8) : ℕ → ℕ
  | 0 => 0
  | n + 1 => ffuLe src n + 2 ^ (8 * n) * (src.getD n 0).toNat

/-! ### LZNT1 -/

/-- The loop over `i` in `ffu_lznt1_decompress`: the mask and the shift that split a code. -/
def ffuLznt1Split : ℕ → ℕ → ℕ → ℕ → ℕ × ℕ
  | 0, _, lmask, dshift => (lmask, dshift)
  | fuel + 1, i, lmask, dshift =>
    if 0x10 ≤ i then ffuLznt1Split fuel (i / 2) (lmask / 2) (dshift - 1) else (lmask, dshift)

/-- The items of one tag byte, with the input that is left; `bits` of them are still to come. -/
def ffuLznt1Items (climit : ℕ) :
    ℕ → ℕ → List UInt8 → List UInt8 → Except (List UInt8) (List UInt8 × List UInt8)
  | 0, _, p, cbuf => .ok (p, cbuf)
  | _ + 1, _, [], cbuf => .ok ([], cbuf)
  | bits + 1, tag, b :: p, cbuf =>
    if tag % 2 = 0 then
      if climit ≤ cbuf.length then .error cbuf
      else ffuLznt1Items climit bits (tag / 2) p (cbuf ++ [b])
    else
      match p with
      | [] => .error cbuf
      | b' :: p =>
        let code := b.toNat + 2 ^ 8 * b'.toNat
        if cbuf.length = 0 then .error cbuf
        else
          let (lmask, dshift) := ffuLznt1Split 32 (cbuf.length - 1) 0xfff 12
          let delta := code / 2 ^ dshift
          let len := code % (lmask + 1) + 3
          if cbuf.length < delta + 1 ∨ climit - cbuf.length < len then .error cbuf
          else ffuLznt1Items climit bits (tag / 2) p (ffuCopyBack (delta + 1) len cbuf)

/-- A compressed chunk, one tag byte after the other; every one uses up input. -/
def ffuLznt1Chunk (climit : ℕ) : ℕ → List UInt8 → List UInt8 → FfuWritten
  | 0, _, cbuf => .ok cbuf
  | _ + 1, [], cbuf => .ok cbuf
  | fuel + 1, tag :: p, cbuf =>
    match ffuLznt1Items climit 8 tag.toNat p cbuf with
    | .error cbuf => .error cbuf
    | .ok (p, cbuf) => ffuLznt1Chunk climit fuel p cbuf

/-- The chunks of `ffu_lznt1_decompress`; every one uses up input. -/
def ffuLznt1From (dstlen : ℕ) : ℕ → List UInt8 → List UInt8 → FfuWritten
  | 0, _, out => .ok out
  | fuel + 1, src, out =>
    if src.length < 2 ∨ dstlen ≤ out.length then .ok out
    else
      let hdr := ffuLe src 2
      if hdr = 0 then .ok out
      else
        let csize := hdr % 2 ^ 12 + 1
        let src := src.drop 2
        let climit := min (dstlen - out.length) FFU_LZNT1_CHUNK
        if src.length < csize then .error out
        else if hdr < 2 ^ 15 then
          if climit < csize then .error out
          else ffuLznt1From dstlen fuel (src.drop csize) (out ++ src.take csize)
        else
          match ffuLznt1Chunk climit csize (src.take csize) [] with
          | .error cbuf => .error (out ++ cbuf)
          | .ok cbuf => ffuLznt1From dstlen fuel (src.drop csize) (out ++ cbuf)

/-- `ffu_lznt1_decompress`. -/
def ffuLznt1Decompress (src : List UInt8) (dstlen : ℕ) : FfuWritten :=
  ffuLznt1From dstlen src.length src []

/-! ### Plain Xpress -/

/-- The extra length bytes of a match of `ffu_xpress_decompress`, behind the nibble 15. -/
def ffuXpressLong (src : List UInt8) : Option (ℕ × List UInt8) :=
  match src with
  | [] => none
  | b :: src =>
    if b.toNat ≠ 255 then some (b.toNat + 15, src)
    else if src.length < 2 then none
    else
      let (mlen, src) := (ffuLe src 2, src.drop 2)
      if mlen ≠ 0 then if mlen < 15 + 7 then none else some (mlen - (15 + 7) + 15, src)
      else if src.length < 4 then none
      else
        let (mlen, src) := (ffuLe src 4, src.drop 4)
        if mlen < 15 + 7 then none else some (mlen - (15 + 7) + 15, src)

/-- The length of a match whose three bits are 7, before the 7 is added; `half` is the byte whose
upper nibble is still unused. -/
def ffuXpressLength (half : Option UInt8) (src : List UInt8) :
    Option (ℕ × Option UInt8 × List UInt8) :=
  match half, src with
  | none, [] => none
  | none, b :: src =>
    if b.toNat % 16 ≠ 15 then some (b.toNat % 16, some b, src)
    else (ffuXpressLong src).map fun (mlen, src) => (mlen, some b, src)
  | some b, src =>
    if b.toNat / 16 ≠ 15 then some (b.toNat / 16, none, src)
    else (ffuXpressLong src).map fun (mlen, src) => (mlen, none, src)

/-- The loop of `ffu_xpress_decompress`; every round uses up input. -/
def ffuXpressFrom (dstlen : ℕ) :
    ℕ → List UInt8 → Option UInt8 → ℕ → ℕ → List UInt8 → FfuWritten
  | 0, _, _, _, _, out => .ok out
  | fuel + 1, src, half, flags, nflags, out =>
    if dstlen ≤ out.length then .ok out
    else if nflags = 0 ∧ src.length < 4 then .ok out
    else
      let (src, flags, nflags) :=
        if nflags = 0 then (src.drop 4, ffuLe src 4, 31) else (src, flags, nflags - 1)
      if flags / 2 ^ nflags % 2 = 0 then
        match src with
        | [] => .ok out
        | b :: src => ffuXpressFrom dstlen fuel src half flags nflags (out ++ [b])
      else if src.length = 0 then .ok out
      else if src.length < 2 then .error out
      else
        let mbytes := ffuLe src 2
        let src := src.drop 2
        let moff := mbytes / 8 + 1
        let copy (mlen : ℕ) (half : Option UInt8) (src : List UInt8) : FfuWritten :=
          if out.length < moff ∨ dstlen - out.length < mlen then .error out
          else ffuXpressFrom dstlen fuel src half flags nflags (ffuCopyBack moff mlen out)
        if mbytes % 8 ≠ 7 then copy (mbytes % 8 + 3) half src
        else
          match ffuXpressLength half src with
          | none => .error out
          | some (mlen, half, src) => copy ((mlen + 7 + 3) % 2 ^ 32) half src

/-- `ffu_xpress_decompress`. -/
def ffuXpressDecompress (src : List UInt8) (dstlen : ℕ) : FfuWritten :=
  ffuXpressFrom dstlen (src.length + 1) src none 0 0 []

/-! ### Both stay in the destination -/

@[simp] theorem length_ffuCopyBack (back : ℕ) : ∀ len (out : List UInt8),
    (ffuCopyBack back len out).length = out.length + len
  | 0, _ => rfl
  | len + 1, out => by
    rw [ffuCopyBack, length_ffuCopyBack, List.length_append, List.length_singleton]
    omega

theorem ffuLznt1Items_length {climit : ℕ} : ∀ {bits tag : ℕ} {p cbuf : List UInt8},
    cbuf.length ≤ climit →
      (FfuWritten.bytes ((ffuLznt1Items climit bits tag p cbuf).map Prod.snd)).length ≤ climit
  | 0, tag, p, cbuf, h => h
  | bits + 1, tag, [], cbuf, h => h
  | bits + 1, tag, b :: p, cbuf, h => by
    by_cases hliteral : tag % 2 = 0
    · simp only [ffuLznt1Items, hliteral, if_true]
      split_ifs with hfull
      · exact h
      · refine ffuLznt1Items_length ?_
        rw [List.length_append, List.length_singleton]
        omega
    · cases p with
      | nil =>
        simp only [ffuLznt1Items, hliteral, if_false]
        exact h
      | cons b' p =>
        simp only [ffuLznt1Items, hliteral, if_false]
        split_ifs with hempty hbad
        · exact h
        · exact h
        · refine ffuLznt1Items_length ?_
          rw [length_ffuCopyBack]
          omega

theorem ffuLznt1Chunk_length {climit : ℕ} : ∀ {fuel : ℕ} {p cbuf : List UInt8},
    cbuf.length ≤ climit → (ffuLznt1Chunk climit fuel p cbuf).bytes.length ≤ climit
  | 0, p, cbuf, h => h
  | fuel + 1, [], cbuf, h => h
  | fuel + 1, tag :: p, cbuf, h => by
    have hitems := @ffuLznt1Items_length _ 8 tag.toNat p _ h
    simp only [ffuLznt1Chunk]
    cases hr : ffuLznt1Items climit 8 tag.toNat p cbuf with
    | error c =>
      rw [hr] at hitems
      exact hitems
    | ok r =>
      rw [hr] at hitems
      exact ffuLznt1Chunk_length hitems

theorem ffuLznt1From_length {dstlen : ℕ} : ∀ {fuel : ℕ} {src out : List UInt8},
    out.length ≤ dstlen → (ffuLznt1From dstlen fuel src out).bytes.length ≤ dstlen
  | 0, src, out, h => h
  | fuel + 1, src, out, h => by
    simp only [ffuLznt1From]
    split_ifs with hend hzero hshort hstored hfull
    · exact h
    · exact h
    · exact h
    · exact h
    · refine ffuLznt1From_length ?_
      rw [List.length_append, List.length_take]
      omega
    · have hchunk := @ffuLznt1Chunk_length (min (dstlen - out.length) FFU_LZNT1_CHUNK) (ffuLe src 2
        % 2 ^ 12 + 1) ((src.drop 2).take (ffuLe src 2 % 2 ^ 12 + 1)) [] (Nat.zero_le _)
      cases hr : ffuLznt1Chunk (min (dstlen - out.length) FFU_LZNT1_CHUNK)
          (ffuLe src 2 % 2 ^ 12 + 1) ((src.drop 2).take (ffuLe src 2 % 2 ^ 12 + 1)) [] with
      | error c =>
        rw [hr] at hchunk
        have hle : c.length ≤ min (dstlen - out.length) FFU_LZNT1_CHUNK := hchunk
        show (out ++ c).length ≤ dstlen
        rw [List.length_append]
        omega
      | ok c =>
        rw [hr] at hchunk
        have hle : c.length ≤ min (dstlen - out.length) FFU_LZNT1_CHUNK := hchunk
        refine ffuLznt1From_length ?_
        rw [List.length_append]
        omega

theorem ffuXpressFrom_length {dstlen : ℕ} : ∀ {fuel : ℕ} {src : List UInt8} {half : Option UInt8}
    {flags nflags : ℕ} {out : List UInt8}, out.length ≤ dstlen →
      (ffuXpressFrom dstlen fuel src half flags nflags out).bytes.length ≤ dstlen
  | 0, src, half, flags, nflags, out, h => h
  | fuel + 1, src, half, flags, nflags, out, h => by
    -- a match is copied only as far as the destination goes
    have hcopy : ∀ (moff mlen : ℕ) (half : Option UInt8) (src : List UInt8) (flags nflags : ℕ),
        (FfuWritten.bytes (if out.length < moff ∨ dstlen - out.length < mlen then .error out
          else ffuXpressFrom dstlen fuel src half flags nflags (ffuCopyBack moff mlen out))).length
            ≤ dstlen := by
      intro moff mlen half src flags nflags
      split_ifs with hbad
      · exact h
      · refine ffuXpressFrom_length ?_
        rw [length_ffuCopyBack]
        omega
    simp only [ffuXpressFrom]
    by_cases hend : dstlen ≤ out.length
    · rwa [if_pos hend]
    rw [if_neg hend]
    by_cases hflags : nflags = 0 ∧ src.length < 4
    · rwa [if_pos hflags]
    rw [if_neg hflags]
    generalize (if nflags = 0 then (src.drop 4, ffuLe src 4, 31) else (src, flags, nflags - 1)) = r
    obtain ⟨src', flags', nflags'⟩ := r
    simp only
    by_cases hliteral : flags' / 2 ^ nflags' % 2 = 0
    · rw [if_pos hliteral]
      cases src' with
      | nil => exact h
      | cons b src' =>
        refine ffuXpressFrom_length ?_
        rw [List.length_append, List.length_singleton]
        omega
    rw [if_neg hliteral]
    by_cases hempty : src'.length = 0
    · rwa [if_pos hempty]
    rw [if_neg hempty]
    by_cases hshort : src'.length < 2
    · rwa [if_pos hshort]
    rw [if_neg hshort]
    by_cases hlen : ffuLe src' 2 % 8 ≠ 7
    · rw [if_pos hlen]
      exact hcopy _ _ _ _ _ _
    · rw [if_neg hlen]
      cases ffuXpressLength half (src'.drop 2) with
      | none => exact h
      | some r => exact hcopy _ _ _ _ _ _

theorem ffuDecompress_length (src : List UInt8) (dstlen : ℕ) :
    (ffuLznt1Decompress src dstlen).bytes.length ≤ dstlen
      ∧ (ffuXpressDecompress src dstlen).bytes.length ≤ dstlen :=
  ⟨ffuLznt1From_length (Nat.zero_le _), ffuXpressFrom_length (Nat.zero_le _)⟩

end FsRover
