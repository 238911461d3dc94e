import FsRover.Bytes
import FsRover.Lib.Xca

/-!
# Plain Xpress in a full flash image

`ffu_xpress_decompress` of `ffu.c` with every access to its two buffers, and with the 32-bit length
of a match.

## Main definitions

* `FsRover.ffuXpressRun` : the decompressor, which gives nothing when an access leaves its buffer.
* `FsRover.FfuXpressExact` : it does what the stream says, over unbounded integers.
* `FsRover.FfuXpressWrapped` : a match is reached whose length wraps to one that fits.

## Main results

* `FsRover.ffuXpressRun_eq` : no access leaves its buffer, and the run is the expansion of the items
  with their lengths modulo `2 ^ 32`.
* `FsRover.ffuXpress_exact_iff` : it is exact if and only if no such match is reached.
-/

namespace FsRover

open Lz

/-- A little endian field of the input, where all its bytes lie in it. -/
def ffuGet (src : List UInt8) (i n : ℕ) : Option ℕ :=
  if i + n ≤ src.length then some (Xca.le ((src.drop i).take n)) else none

/-- `dst[out++] = b`, where that lies in the destination. -/
def ffuPut (dstlen : ℕ) (out : List UInt8) (b : UInt8) : Option (List UInt8) :=
  if out.length < dstlen then some (out ++ [b]) else none

/-- The copy loop: each byte it reads and writes lies in the destination. -/
def ffuCopy (dstlen moff : ℕ) : ℕ → List UInt8 → Option (List UInt8)
  | 0, out => some out
  | mlen + 1, out =>
    if moff ≤ out.length then
      out[out.length - moff]?.bind fun b => (ffuPut dstlen out b).bind (ffuCopy dstlen moff mlen)
    else none

/-- A length behind the nibble 15, before 7 and 3 are added. Nothing inside means that the input is
malformed. -/
def ffuXpressLongAt (src : List UInt8) (inp : ℕ) : Option (Option (ℕ × ℕ)) :=
  if src.length ≤ inp then some none
  else do
    let mlen ← ffuGet src inp 1
    if mlen ≠ 255 then some (some (mlen + 15, inp + 1))
    else if src.length - (inp + 1) < 2 then some none
    else do
      let mlen ← ffuGet src (inp + 1) 2
      if mlen = 0 then
        if src.length - (inp + 1 + 2) < 4 then some none
        else do
          let mlen ← ffuGet src (inp + 1 + 2) 4
          if mlen < 15 + 7 then some none else some (some (mlen - (15 + 7) + 15, inp + 1 + 2 + 4))
      else if mlen < 15 + 7 then some none
      else some (some (mlen - (15 + 7) + 15, inp + 1 + 2))

/-- The length of a match with the bits `bits`, before the 3 is added, with the place behind it and
the new `half_byte`, which is 1 based. -/
def ffuXpressLengthAt (src : List UInt8) (bits inp half : ℕ) : Option (Option (ℕ × ℕ × ℕ)) :=
  if bits ≠ 7 then some (some (bits, inp, half))
  else if half = 0 then
    if src.length ≤ inp then some none
    else do
      let b ← ffuGet src inp 1
      if b % 16 ≠ 15 then some (some (b % 16 + 7, inp + 1, inp + 1))
      else do
        let r ← ffuXpressLongAt src (inp + 1)
        some (r.map fun (mlen, inp') => (mlen + 7, inp', inp + 1))
  else do
    let b ← ffuGet src (half - 1) 1
    if b / 16 ≠ 15 then some (some (b / 16 + 7, inp, 0))
    else do
      let r ← ffuXpressLongAt src inp
      some (r.map fun (mlen, inp) => (mlen + 7, inp, 0))

/-- The next flag: its word, its number and the place behind. -/
def ffuXpressFlags (src : List UInt8) (inp flags nflags : ℕ) : Option (ℕ × ℕ × ℕ) :=
  if nflags = 0 then (ffuGet src inp 4).map fun flags => (inp + 4, flags, 31)
  else some (inp, flags, nflags - 1)

/-- The loop of `ffu_xpress_decompress`, with the number of literals and matches done. -/
def ffuXpressLoop (src : List UInt8) (dstlen : ℕ) :
    ℕ → ℕ → ℕ → ℕ → ℕ → List UInt8 → Option Outcome
  | 0, _, _, _, _, _ => none
  | fuel + 1, inp, half, flags, nflags, out =>
    if dstlen ≤ out.length then some ⟨0, true, out⟩
    else if nflags = 0 ∧ src.length - inp < 4 then some ⟨0, true, out⟩
    else do
      let (inp, flags, nflags) ← ffuXpressFlags src inp flags nflags
      if flags.testBit nflags = false then
        if src.length ≤ inp then some ⟨0, true, out⟩
        else do
          let b ← src[inp]?
          let out ← ffuPut dstlen out b
          (ffuXpressLoop src dstlen fuel (inp + 1) half flags nflags out).map Outcome.succ
      else if inp = src.length then some ⟨0, true, out⟩
      else if src.length - inp < 2 then some ⟨0, false, out⟩
      else do
        let mbytes ← ffuGet src inp 2
        let moff := mbytes / 8 + 1
        match ← ffuXpressLengthAt src (mbytes % 8) (inp + 2) half with
        | none => some ⟨0, false, out⟩
        | some (mlen, inp, half) =>
          let mlen := u32 (mlen + 3)
          if out.length < moff ∨ dstlen - out.length < mlen then some ⟨0, false, out⟩
          else do
            let out ← ffuCopy dstlen moff mlen out
            (ffuXpressLoop src dstlen fuel inp half flags nflags out).map Outcome.succ

/-- `ffu_xpress_decompress`. Every round uses up a byte of the input. -/
def ffuXpressRun (src : List UInt8) (dstlen : ℕ) : Option Outcome :=
  ffuXpressLoop src dstlen (src.length + 1) 0 0 0 0 []

/-- The decompressor does what the stream says: it expands the same items, fails at the same place or
not at all, and no access leaves the two buffers. -/
def FfuXpressExact (src : List UInt8) (dstlen : ℕ) : Prop :=
  ffuXpressRun src dstlen = some (Xca.decode dstlen src)

/-- A match whose length wraps, where the offset lies in the output and the wrapped length fits. -/
def FfuXpressWrap (dstlen : ℕ) (out : List UInt8) : Item → Prop
  | .literal _ => False
  | .copy off len => 2 ^ 32 ≤ len ∧ off ≤ out.length ∧ len % 2 ^ 32 ≤ dstlen - out.length

/-- The stream comes to such a match before the output is full. -/
def FfuXpressWrapped (src : List UInt8) (dstlen : ℕ) : Prop :=
  Reached dstlen (FfuXpressWrap dstlen) (Xca.streamItems src).1 []

/-- The item with its length in 32 bits. -/
def ffuNarrow : Item → Item
  | .literal b => .literal b
  | .copy off len => .copy off (u32 len)

/-! ### Fields and copies -/

variable {src : List UInt8} {dstlen : ℕ}

theorem ffuGet_one {i : ℕ} {b : UInt8} (h : src[i]? = some b) : ffuGet src i 1 = some b.toNat := by
  obtain ⟨hi, rfl⟩ := List.getElem?_eq_some_iff.mp h
  rw [ffuGet, if_pos (by omega), List.drop_eq_getElem_cons hi, List.take_succ_cons, List.take_zero,
    Xca.le, Xca.le, Nat.mul_zero, Nat.add_zero]

theorem ffuField_cases (src : List UInt8) (i n : ℕ) (hi : i ≤ src.length) :
    (src.length - i < n ∧ Xca.field n (src.drop i) = none)
      ∨ ∃ v, n ≤ src.length - i ∧ ffuGet src i n = some v
        ∧ Xca.field n (src.drop i) = some (v, src.drop (i + n)) := by
  rw [Xca.field, List.length_drop]
  rcases Nat.lt_or_ge (src.length - i) n with hlt | hge
  · exact .inl ⟨hlt, if_neg (by omega)⟩
  · refine .inr ⟨Xca.le ((src.drop i).take n), hge, if_pos (by omega), ?_⟩
    rw [if_pos hge, List.drop_drop]

/-- The copy loop stays in the destination when the match fits. -/
theorem ffuCopy_eq {moff : ℕ} (hoff : 0 < moff) : ∀ {mlen : ℕ} {out : List UInt8},
    moff ≤ out.length → mlen ≤ dstlen - out.length →
      ffuCopy dstlen moff mlen out = some (copyBack moff mlen out)
  | 0, out, _, _ => rfl
  | mlen + 1, out, hle, hfits => by
    have hget : out[out.length - moff]? = some (out.getD (out.length - moff) 0) := by
      rw [List.getD_eq_getElem?_getD, List.getElem?_eq_getElem (by omega), Option.getD_some]
    rw [ffuCopy, if_pos hle, hget, Option.bind_some, ffuPut, if_pos (by omega), Option.bind_some, copyBack]
    exact ffuCopy_eq hoff (by rw [List.length_append]; omega)
      (by rw [List.length_append, List.length_singleton]; omega)

/-! ### Lengths -/

/-- The length that the code reads is the one of the stream, before 7 and 3 are added. -/
theorem ffuXpressLongAt_eq {inp : ℕ} (hinp : inp ≤ src.length) :
    (ffuXpressLongAt src inp = some none ∧ Xca.longLength (src.drop inp) = none)
      ∨ ∃ mlen inp', ffuXpressLongAt src inp = some (some (mlen, inp')) ∧ inp ≤ inp'
        ∧ inp' ≤ src.length ∧ Xca.longLength (src.drop inp) = some (3 + 7 + mlen, src.drop inp') := by
  rw [ffuXpressLongAt, Xca.longLength]
  rcases ffuField_cases src inp 1 hinp with ⟨hlt, hnone⟩ | ⟨b, hle, hget, hfield⟩
  · exact .inl ⟨if_pos (by omega), by rw [hnone]; rfl⟩
  · rw [if_neg (by omega), hget, hfield]
    simp only [Option.bind_eq_bind, Option.bind_some]
    have hb : b < 256 := by
      rw [ffuGet_one (List.getElem?_eq_getElem (show inp < src.length by omega))] at hget
      obtain rfl := Option.some.inj hget
      exact UInt8.toNat_lt _
    by_cases hbyte : b = 255
    · rw [if_neg (not_not.mpr hbyte), if_neg (show ¬ b < 255 by omega)]
      rcases ffuField_cases src (inp + 1) 2 (by omega) with ⟨hlt, hnone⟩ | ⟨v, hle, hget, hfield⟩
      · exact .inl ⟨if_pos (by omega), by rw [hnone]; rfl⟩
      · rw [if_neg (by omega), hget, hfield]
        simp only [Option.bind_some]
        by_cases hv : v = 0
        · rw [if_pos hv, if_pos hv]
          rcases ffuField_cases src (inp + 1 + 2) 4 (by omega) with
            ⟨hlt, hnone⟩ | ⟨w, hle, hget, hfield⟩
          · exact .inl ⟨if_pos (by omega), by rw [hnone]; rfl⟩
          · rw [if_neg (by omega), hget, hfield]
            simp only [Option.bind_some]
            split_ifs with hw
            · exact .inl ⟨rfl, rfl⟩
            · exact .inr ⟨_, _, rfl, by omega, by omega, by congr 2; omega⟩
        · rw [if_neg hv, if_neg hv]
          split_ifs with hw
          · exact .inl ⟨rfl, rfl⟩
          · exact .inr ⟨_, _, rfl, by omega, by omega, by congr 2; omega⟩
    · rw [if_pos hbyte, if_pos (show b < 255 by omega)]
      exact .inr ⟨_, _, rfl, by omega, by omega, by congr 2; omega⟩

/-- The byte whose upper nibble is left. -/
def FfuHalf (src : List UInt8) (half : ℕ) : Option UInt8 → Prop
  | none => half = 0
  | some b => half ≠ 0 ∧ src[half - 1]? = some b

theorem ffuXpressLengthAt_eq {bits inp half : ℕ} {h : Option UInt8} (hinp : inp ≤ src.length)
    (hbits : bits < 8) (hhalf : FfuHalf src half h) :
    (ffuXpressLengthAt src bits inp half = some none ∧ Xca.length bits h (src.drop inp) = none)
      ∨ ∃ mlen inp' half' h', ffuXpressLengthAt src bits inp half = some (some (mlen, inp', half'))
        ∧ inp ≤ inp' ∧ inp' ≤ src.length ∧ FfuHalf src half' h'
        ∧ Xca.length bits h (src.drop inp) = some (3 + mlen, h', src.drop inp') := by
  unfold ffuXpressLengthAt Xca.length
  by_cases hseven : bits = 7
  · rw [if_neg (not_not.mpr hseven), if_neg (show ¬ bits < 7 by omega)]
    cases h with
    | some b =>
      obtain ⟨hne, hb⟩ := hhalf
      have hbyte := b.toNat_lt
      rw [if_neg hne, ffuGet_one hb]
      simp only [Option.bind_eq_bind, Option.bind_some]
      by_cases hlong : b.toNat / 16 = 15
      · rw [if_neg (not_not.mpr hlong), if_neg (show ¬ b.toNat / 16 < 15 by omega)]
        rcases ffuXpressLongAt_eq hinp with ⟨hcode, hstream⟩ | ⟨mlen, inp', hcode, hle, hle', hstream⟩
        · exact .inl ⟨by rw [hcode]; rfl, by rw [hstream]; rfl⟩
        · refine .inr ⟨mlen + 7, inp', 0, none, by rw [hcode]; rfl, hle, hle', rfl, ?_⟩
          rw [hstream, Option.map_some]
          congr 2
          omega
      · rw [if_pos hlong, if_pos (show b.toNat / 16 < 15 by omega)]
        refine .inr ⟨_, _, _, none, rfl, Nat.le_refl _, hinp, rfl, ?_⟩
        congr 2
        omega
    | none =>
      rw [if_pos (show half = 0 from hhalf)]
      rcases Nat.lt_or_ge inp src.length with hlt | hge
      · have hb : src[inp]? = some src[inp] := List.getElem?_eq_getElem hlt
        have hbyte := src[inp].toNat_lt
        rw [if_neg (show ¬ src.length ≤ inp by omega), ffuGet_one hb, List.drop_eq_getElem_cons hlt]
        simp only [Option.bind_eq_bind, Option.bind_some]
        have hhalf' : FfuHalf src (inp + 1) (some src[inp]) := ⟨Nat.succ_ne_zero _, hb⟩
        by_cases hlong : src[inp].toNat % 16 = 15
        · rw [if_neg (not_not.mpr hlong), if_neg (show ¬ src[inp].toNat % 16 < 15 by omega)]
          rcases ffuXpressLongAt_eq (show inp + 1 ≤ src.length by omega) with
            ⟨hcode, hstream⟩ | ⟨mlen, inp', hcode, hle, hle', hstream⟩
          · exact .inl ⟨by rw [hcode]; rfl, by rw [hstream]; rfl⟩
          · refine .inr ⟨mlen + 7, inp', inp + 1, _, by rw [hcode]; rfl, by omega, hle', hhalf', ?_⟩
            rw [hstream, Option.map_some]
            congr 2
            omega
        · rw [if_pos hlong, if_pos (show src[inp].toNat % 16 < 15 by omega)]
          refine .inr ⟨_, _, _, _, rfl, by omega, by omega, hhalf', ?_⟩
          congr 2
          omega
      · rw [if_pos hge, List.drop_eq_nil_of_le hge]
        exact .inl ⟨rfl, rfl⟩
  · rw [if_pos hseven, if_pos (show bits < 7 by omega)]
    exact .inr ⟨_, _, _, h, rfl, Nat.le_refl _, hinp, hhalf, rfl⟩

/-! ### The loop -/

theorem expand_full {good : Bool} {ts : List Item} {out : List UInt8} (h : dstlen ≤ out.length) :
    expand dstlen good ts out = ⟨0, true, out⟩ := by
  cases ts with
  | nil => simp [expand, h]
  | cons t ts => rw [expand, if_pos h]

/-- From any place on, the loop expands the items of the rest of the stream, narrowed. -/
theorem ffuXpressLoop_eq : ∀ {fuel inp half flags nflags : ℕ} {h : Option UInt8} {out : List UInt8},
    inp ≤ src.length → src.length - inp < fuel → FfuHalf src half h →
      ffuXpressLoop src dstlen fuel inp half flags nflags out
        = some (expand dstlen (Xca.items fuel (src.drop inp) h flags nflags).2
            ((Xca.items fuel (src.drop inp) h flags nflags).1.map ffuNarrow) out)
  | 0, _, _, _, _, _, _, _, hfuel, _ => absurd hfuel (Nat.not_lt_zero _)
  | fuel + 1, inp, half, flags, nflags, h, out, hinp, hfuel, hhalf => by
    rw [ffuXpressLoop]
    by_cases hfull : dstlen ≤ out.length
    · rw [if_pos hfull, expand_full hfull]
    rw [if_neg hfull, Xca.items]
    -- the flags
    have hflag : (nflags = 0 ∧ src.length - inp < 4
          ∧ Xca.nextFlag (src.drop inp) flags nflags = none)
        ∨ ∃ inp' flags' nflags', inp ≤ inp' ∧ inp' ≤ src.length
          ∧ ¬ (nflags = 0 ∧ src.length - inp < 4)
          ∧ ffuXpressFlags src inp flags nflags = some (inp', flags', nflags')
          ∧ Xca.nextFlag (src.drop inp) flags nflags = some (src.drop inp', flags', nflags') := by
      rw [ffuXpressFlags, Xca.nextFlag]
      by_cases hzero : nflags = 0
      · rw [if_pos hzero, if_pos hzero]
        rcases ffuField_cases src inp 4 hinp with ⟨hlt, hnone⟩ | ⟨v, hle, hget, hfield⟩
        · exact .inl ⟨hzero, hlt, by rw [hnone]; rfl⟩
        · exact .inr ⟨inp + 4, v, 31, by omega, by omega, by omega, by rw [hget]; rfl, by rw [hfield]; rfl⟩
      · rw [if_neg hzero, if_neg hzero]
        exact .inr ⟨inp, flags, nflags - 1, Nat.le_refl _, hinp, fun h => hzero h.1, rfl, rfl⟩
    rcases hflag with ⟨hzero, hshort, hnone⟩ | ⟨inp', flags', nflags', hle, hinp', hgo, hcode, hstream⟩
    · rw [if_pos ⟨hzero, hshort⟩, hnone]
      simp [expand]
    rw [if_neg hgo, hcode, hstream]
    simp only [Option.bind_eq_bind, Option.bind_some]
    by_cases hbit : flags'.testBit nflags' = false
    · -- a literal
      rw [if_pos hbit, if_pos hbit]
      rcases Nat.lt_or_ge inp' src.length with hlt | hge
      · have hput : ffuPut dstlen out src[inp'] = some (out ++ [src[inp']]) := if_pos (by omega)
        rw [if_neg (by omega), List.getElem?_eq_getElem hlt, List.drop_eq_getElem_cons hlt]
        simp only [Option.bind_some, hput]
        rw [ffuXpressLoop_eq (by omega) (by omega) hhalf, Option.map_some]
        simp only [List.map_cons, ffuNarrow, expand, if_neg hfull]
        rw [if_pos (by trivial)]
        rfl
      · rw [if_pos hge, List.drop_eq_nil_of_le hge]
        simp [expand]
    · rw [if_neg hbit, if_neg hbit]
      by_cases hend : inp' = src.length
      · rw [if_pos hend, if_pos (by rw [hend, List.drop_length])]
        simp [expand]
      · have hne : src.drop inp' ≠ [] := by
          rw [ne_eq, List.drop_eq_nil_iff]
          omega
        rw [if_neg hend, if_neg hne]
        rcases ffuField_cases src inp' 2 hinp' with ⟨hlt, hnone⟩ | ⟨m, hle₂, hget, hfield⟩
        · rw [if_pos hlt, hnone]
          simp [expand, hfull]
        · rw [if_neg (show ¬ src.length - inp' < 2 by omega), hget, hfield]
          simp only [Option.bind_some]
          rcases ffuXpressLengthAt_eq (show inp' + 2 ≤ src.length by omega)
            (Nat.mod_lt m (by decide)) hhalf with ⟨hcode, hstream⟩ |
              ⟨mlen, inp'', half', h', hcode, hle₃, hinp'', hhalf', hstream⟩
          · rw [hcode, hstream]
            simp [expand, hfull]
          · rw [hcode, hstream]
            simp only [Option.bind_some, List.map_cons, ffuNarrow, expand, if_neg hfull,
              Nat.add_comm mlen 3]
            by_cases hbad : out.length < m / 8 + 1 ∨ dstlen - out.length < u32 (3 + mlen)
            · have hnot : ¬ (Item.copy (m / 8 + 1) (u32 (3 + mlen))).Fits dstlen out := fun hfits => by
                have hoff := hfits.1
                have hlen := hfits.2
                omega
              rw [if_pos hbad, if_neg hnot]
            · have hcopy : ffuCopy dstlen (m / 8 + 1) (u32 (3 + mlen)) out
                  = some (copyBack (m / 8 + 1) (u32 (3 + mlen)) out) :=
                ffuCopy_eq (Nat.succ_pos _) (by omega) (by omega)
              have hfits : (Item.copy (m / 8 + 1) (u32 (3 + mlen))).Fits dstlen out :=
                ⟨by omega, by omega⟩
              rw [if_neg hbad, if_pos hfits, hcopy]
              simp only [Option.bind_some]
              rw [ffuXpressLoop_eq hinp'' (by omega) hhalf', Option.map_some]
              rfl

/-- No access leaves its buffer, and the run is the expansion of the narrowed items. -/
theorem ffuXpressRun_eq (src : List UInt8) (dstlen : ℕ) :
    ffuXpressRun src dstlen = some (expand dstlen (Xca.streamItems src).2
      ((Xca.streamItems src).1.map ffuNarrow) []) := by
  have h := @ffuXpressLoop_eq src dstlen (src.length + 1) 0 0 0 0 none [] (Nat.zero_le _) (by omega) rfl
  rwa [List.drop_zero] at h

/-- The decompressor does what the stream says if and only if no match is reached whose length wraps
to one that fits. -/
theorem ffuXpress_exact_iff (src : List UInt8) (dstlen : ℕ) :
    FfuXpressExact src dstlen ↔ ¬ FfuXpressWrapped src dstlen := by
  have hnarrow : ∀ off len, ffuNarrow (.copy off len) ≠ .copy off len ↔ 2 ^ 32 ≤ len := by
    intro off len
    simp only [ffuNarrow, ne_eq, Item.copy.injEq, true_and, u32]
    omega
  rw [FfuXpressExact, ffuXpressRun_eq, Option.some.injEq, Xca.decode, FfuXpressWrapped]
  refine expand_map_iff (P := FfuXpressWrap dstlen) ?_ ?_ ?_ ?_ ?_ _ _
  · rintro (b | ⟨off, len⟩)
    · exact Nat.le_refl _
    · exact Nat.mod_le _ _
  · rintro (b | ⟨off, len⟩) out hsame hwrap
    · exact hwrap
    · exact (hnarrow off len).mpr hwrap.1 hsame
  · rintro (b | ⟨off, len⟩) hne
    · exact absurd rfl hne
    · have hlen := (hnarrow off len).mp hne
      have hlt := Nat.mod_lt len (Nat.two_pow_pos 32)
      simp only [ffuNarrow, Item.size, u32]
      omega
  · rintro (b | ⟨off, len⟩) out hne hroom
    · exact absurd rfl hne
    · have hlen := (hnarrow off len).mp hne
      simp only [FfuXpressWrap, ffuNarrow, Item.Fits, u32, hlen, true_and]
  · rintro (b | ⟨off, len⟩) out hfits
    · exact hfits
    · exact ⟨hfits.1, (Nat.mod_le _ _).trans hfits.2⟩

/-- A literal, and a match one byte back whose 32-bit length is `2 ^ 32 - 3`. -/
def ffuXpressHuge : List UInt8 :=
  [0, 0, 0, 0x40, 0x41, 7, 0, 0x0f, 0xff, 0, 0, 0xfd, 0xff, 0xff, 0xff]

/-- The match of `2 ^ 32` bytes is done as one of none, and the run succeeds. -/
theorem ffuXpress_not_exact : ffuXpressRun ffuXpressHuge 8 = some ⟨2, true, [0x41]⟩
    ∧ ¬ FfuXpressExact ffuXpressHuge 8 := by
  have hrun : ffuXpressRun ffuXpressHuge 8 = some ⟨2, true, [0x41]⟩ := by decide
  have hstream : Xca.decode 8 ffuXpressHuge = ⟨1, false, [0x41]⟩ := by decide
  refine ⟨hrun, fun h => ?_⟩
  rw [FfuXpressExact, hrun, hstream] at h
  exact absurd h (by decide)

end FsRover
