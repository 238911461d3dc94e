import FsRover.Bytes
import FsRover.Grub
import FsRover.Lib.Canonical
import FsRover.Lib.Guards
import Mathlib.Tactic.SplitIfs

/-!
# The Huffman stage of a Drive Snapshot image

`sna.c`, encodings 2 and 3: the code lengths of the 256 symbols come as a bitmap of symbols that
have the length of the one before them, and nibbles for the others. The code words are assigned from
the longest length down. The bits come in 16-bit little endian words, most significant first.

## Main definitions

* `FsRover.snaHuffTable`, `FsRover.snaHuffman` : the table and the decoder.
* `FsRover.SnaHuff.word`, `FsRover.SnaHuff.bits` : the code words of symbols.
* `FsRover.SnaCodec` : the code words are prefix free, and the decoder undoes them.

## Main results

* `FsRover.snaHuffTable_built` : the first code words of the lengths.
* `FsRover.snaHuffman_bits` : where the words are prefix free the decoder undoes them.
* `FsRover.sna_codec_iff` : an accepted table has both when the words of each length begin at a whole
  word.
-/

namespace FsRover

open Guards

/-- `struct sna_huff`. -/
structure SnaHuff where
  len : ℕ → ℕ
  cnt : ℕ → ℕ
  firstCode : ℕ → ℕ
  firstIndex : ℕ → ℕ
  sym : ℕ → ℕ

/-! ### The table -/

/-- Symbol `i` has the length of the one before it. -/
def snaInherits (src : Buf) (i : ℕ) : Bool := (byteAt src (4 + i / 8)).testBit (i % 8)

/-- The number of symbols that have a nibble. -/
def snaExplicitCount (src : Buf) : ℕ := (List.range 256).countP fun i => !snaInherits src i

/-- The lengths of the first `n` symbols, with the last of them and the number of nibbles read. High
nibble first. -/
def snaHuffLens (src : Buf) : ℕ → List ℕ × ℕ × ℕ
  | 0 => ([], 8, 0)
  | i + 1 =>
    let (lens, prev, nibble) := snaHuffLens src i
    if snaInherits src i then (lens ++ [prev], prev, nibble)
    else
      let b := byteAt src (36 + nibble / 2)
      let prev := if nibble % 2 = 1 then b % 16 else b / 16
      (lens ++ [prev], prev, nibble + 1)

/-- The symbols below `n` of one length, ascending. -/
def snaLevel (len : ℕ → ℕ) (n l : ℕ) : List ℕ := (List.range n).filter fun i => len i = l

def snaHuffCnt (len : ℕ → ℕ) (l : ℕ) : ℕ := if l = 0 then 0 else (snaLevel len 256 l).length

/-- The index of the first symbol of a length: the number of symbols with a longer code. -/
def snaHuffFirstIndex (cnt : ℕ → ℕ) (l : ℕ) : ℕ := ((List.range' (l + 1) (15 - l)).map cnt).sum

/-- The loop that fills `sym` with the first `n` symbols; `next` is the place of the next symbol of a
length. -/
def snaHuffSyms (len firstIndex : ℕ → ℕ) : ℕ → (ℕ → ℕ) × (ℕ → ℕ)
  | 0 => (fun _ => 0, firstIndex)
  | i + 1 =>
    let (sym, next) := snaHuffSyms len firstIndex i
    if len i = 0 then (sym, next)
    else
      (fun k => if k = next (len i) then i else sym k,
        fun l => if l = len i then next l + 1 else next l)

/-- The loop that assigns the first codes, from length `len` down. -/
def snaHuffCodes (cnt : ℕ → ℕ) : ℕ → ℕ → ℕ → (ℕ → ℕ) → Except GrubError (ℕ → ℕ)
  | 0, _, _, firstCode => .ok firstCode
  | l + 1, code, plen, firstCode =>
    if cnt (l + 1) = 0 then snaHuffCodes cnt l code plen firstCode
    else
      let code := if plen ≠ 0 then code / 2 ^ (plen - (l + 1)) else code
      let firstCode := fun k => if k = l + 1 then code else firstCode k
      let code := code + cnt (l + 1)
      if 2 ^ (l + 1) < code then .error ⟨.badDevice, "oversubscribed sna huffman table"⟩
      else snaHuffCodes cnt l code (l + 1) firstCode

/-- `sna_huff_table`, with the place where the bits begin. -/
def snaHuffTable (src : Buf) (srclen : ℕ) : Except GrubError (SnaHuff × ℕ) := do
  let nnibbles := (snaExplicitCount src + 1) / 2
  refuseIf (srclen < 36 ∨ srclen - 36 < nnibbles) ⟨.badDevice, "truncated sna huffman table"⟩
  let len := fun i => (snaHuffLens src 256).1.getD i 0
  let cnt := snaHuffCnt len
  let firstIndex := snaHuffFirstIndex cnt
  refuseIf (firstIndex 0 = 0) ⟨.badDevice, "empty sna huffman table"⟩
  let firstCode ← snaHuffCodes cnt 15 0 0 fun _ => 0
  .ok (⟨len, cnt, firstCode, firstIndex, (snaHuffSyms len firstIndex 256).1⟩, 36 + nnibbles)

/-! ### The decoder -/

/-- The bits that are loaded and not used, and the place of the next word. -/
structure SnaBits where
  acc : ℕ
  nbits : ℕ
  p : ℕ

/-- One more word, where one fits and the source has one. -/
def snaLoadWord (src : Buf) (srclen : ℕ) (s : SnaBits) : SnaBits :=
  if s.nbits ≤ 16 ∧ 2 ≤ srclen - s.p then
    ⟨u32 (s.acc * 2 ^ 16) + lostLe16 src s.p, s.nbits + 16, s.p + 2⟩
  else s

/-- The refill loop: no more than two words fit. -/
def snaRefill (src : Buf) (srclen : ℕ) (s : SnaBits) : SnaBits :=
  snaLoadWord src srclen (snaLoadWord src srclen s)

/-- The bit loop of `sna_huffman`, from length `len` on. The fuel is the number of lengths left. -/
def snaSymbol (h : SnaHuff) : ℕ → ℕ → ℕ → SnaBits → Except GrubError (ℕ × SnaBits)
  | 0, _, _, _ => .error ⟨.badDevice, "bad sna huffman code"⟩
  | fuel + 1, len, code, s =>
    if s.nbits = 0 then .error ⟨.badDevice, "truncated sna huffman stream"⟩
    else
      let nbits := s.nbits - 1
      let code := 2 * code + s.acc / 2 ^ nbits % 2
      let s : SnaBits := ⟨s.acc % 2 ^ nbits, nbits, s.p⟩
      if h.cnt len ≠ 0 ∧ sub32 code (h.firstCode len) < h.cnt len then
        .ok (h.sym (h.firstIndex len + sub32 code (h.firstCode len)), s)
      else snaSymbol h fuel (len + 1) code s

/-- The symbol loop of `sna_huffman`. -/
def snaSymbols (h : SnaHuff) (src : Buf) (srclen : ℕ) : ℕ → SnaBits → Except GrubError (List ℕ)
  | 0, _ => .ok []
  | outlen + 1, s =>
    match snaSymbol h 15 1 0 (snaRefill src srclen s) with
    | .error e => .error e
    | .ok (sym, s) => (snaSymbols h src srclen outlen s).map (sym :: ·)

/-- `sna_huffman`. -/
def snaHuffman (src : Buf) (srclen outlen : ℕ) : Except GrubError (List ℕ) := do
  let (h, p) ← snaHuffTable src srclen
  snaSymbols h src srclen outlen ⟨0, 0, p⟩

/-! ### The code -/

/-- The number of a symbol among those of its length. -/
def SnaHuff.rank (h : SnaHuff) (i : ℕ) : ℕ := (snaLevel h.len 256 (h.len i)).idxOf i

/-- The code word of a symbol. -/
def SnaHuff.word (h : SnaHuff) (i : ℕ) : List Bool :=
  Canonical.word (h.firstCode (h.len i) + h.rank i) (h.len i)

/-- The code words of the symbols, one after the other. -/
def SnaHuff.bits (h : SnaHuff) (syms : List ℕ) : List Bool := syms.flatMap h.word

/-- The symbol has a code word. -/
def SnaHuff.Coded (h : SnaHuff) (i : ℕ) : Prop := i < 256 ∧ h.len i ≠ 0

/-- Bit `i` of the words from `p` on, most significant first. -/
def snaStreamBit (src : Buf) (p i : ℕ) : Bool := (lostLe16 src (p + 2 * (i / 16))).testBit (15 - i % 16)

/-- The bits are written into the words from `p` on, and these lie in the source. -/
def SnaWritten (src : Buf) (srclen p : ℕ) (bits : List Bool) : Prop :=
  (∀ i (hi : i < bits.length), snaStreamBit src p i = bits[i])
    ∧ p + 2 * ((bits.length + 15) / 16) ≤ srclen

/-- No code word is a prefix of another symbol's. -/
def SnaHuff.PrefixFree (h : SnaHuff) : Prop :=
  ∀ i j, h.Coded i → h.Coded j → h.word i <+: h.word j → i = j

/-- The code words are prefix free, and the decoder returns the symbols whose words are written behind
the table. -/
def SnaCodec (h : SnaHuff) (p : ℕ) : Prop :=
  h.PrefixFree ∧ ∀ src srclen, snaHuffTable src srclen = .ok (h, p) →
    ∀ syms, (∀ i ∈ syms, h.Coded i) → SnaWritten src srclen p (h.bits syms) →
      snaHuffman src srclen syms.length = .ok syms

/-- The symbols with longer codes fill a whole number of words of each length in use. -/
def SnaWhole (src : Buf) : Prop :=
  Canonical.Whole (snaHuffCnt fun i => (snaHuffLens src 256).1.getD i 0) 15

/-! ### Lengths and levels -/

theorem snaHuffLens_le (src : Buf) : ∀ n,
    (∀ l ∈ (snaHuffLens src n).1, l ≤ 15) ∧ (snaHuffLens src n).2.1 ≤ 15
  | 0 => ⟨fun l hl => (by cases hl), (by decide : 8 ≤ 15)⟩
  | n + 1 => by
    obtain ⟨hlens, hprev⟩ := snaHuffLens_le src n
    have happend : ∀ x ≤ 15, ∀ l ∈ (snaHuffLens src n).1 ++ [x], l ≤ 15 := fun x hx l hl => by
      rcases List.mem_append.mp hl with hl | hl
      · exact hlens l hl
      · exact (List.mem_singleton.mp hl).trans_le hx
    rw [snaHuffLens]
    split_ifs with hinherits
    · exact ⟨happend _ hprev, hprev⟩
    · have hbyte := byteAt_lt src (36 + (snaHuffLens src n).2.2 / 2)
      have hnibble : (if (snaHuffLens src n).2.2 % 2 = 1
          then byteAt src (36 + (snaHuffLens src n).2.2 / 2) % 16
          else byteAt src (36 + (snaHuffLens src n).2.2 / 2) / 16) ≤ 15 := by
        split_ifs <;> omega
      exact ⟨happend _ hnibble, hnibble⟩

theorem snaHuffLens_getD_le (src : Buf) (i : ℕ) : (snaHuffLens src 256).1.getD i 0 ≤ 15 := by
  rw [List.getD_eq_getElem?_getD]
  cases hget : (snaHuffLens src 256).1[i]? with
  | none => exact Nat.zero_le _
  | some l => exact (snaHuffLens_le src 256).1 l (List.mem_of_getElem? hget)

variable {len : ℕ → ℕ}

theorem mem_snaLevel {n l i : ℕ} : i ∈ snaLevel len n l ↔ i < n ∧ len i = l := by
  simp [snaLevel]

theorem nodup_snaLevel (n l : ℕ) : (snaLevel len n l).Nodup := List.nodup_range.filter _

theorem snaLevel_succ (n l : ℕ) :
    snaLevel len (n + 1) l = snaLevel len n l ++ if len n = l then [n] else [] := by
  rw [snaLevel, List.range_succ, List.filter_append, ← snaLevel]
  congr 1
  by_cases h : len n = l <;> simp [h]

theorem length_snaLevel_le {n m : ℕ} (h : n ≤ m) (l : ℕ) :
    (snaLevel len n l).length ≤ (snaLevel len m l).length :=
  ((List.range_sublist.mpr h).filter _).length_le

/-! ### The symbols in order -/

theorem snaHuffFirstIndex_succ (cnt : ℕ → ℕ) {l : ℕ} (h : l < 15) :
    snaHuffFirstIndex cnt l = cnt (l + 1) + snaHuffFirstIndex cnt (l + 1) := by
  obtain ⟨k, hk⟩ : ∃ k, 15 - l = k + 1 := ⟨15 - l - 1, by omega⟩
  have hk' : 15 - (l + 1) = k := by omega
  rw [snaHuffFirstIndex, snaHuffFirstIndex, hk, hk', List.range'_succ, List.map_cons, List.sum_cons]

/-- The symbols of a length lie before those of a shorter one. -/
theorem snaHuffFirstIndex_le (cnt : ℕ → ℕ) {l m : ℕ} (hml : m < l) (hl : l ≤ 15) :
    snaHuffFirstIndex cnt l + cnt l ≤ snaHuffFirstIndex cnt m := by
  obtain ⟨d, rfl⟩ := Nat.exists_eq_add_of_lt hml
  induction d generalizing m with
  | zero =>
    rw [snaHuffFirstIndex_succ cnt (l := m) (by omega)]
    simp only [Nat.add_zero]
    omega
  | succ d ih =>
    have hrec := @ih (m + 1) (by omega) (by omega)
    have hplace : m + 1 + d + 1 = m + (d + 1) + 1 := by omega
    rw [hplace] at hrec
    rw [snaHuffFirstIndex_succ cnt (l := m) (by omega)]
    omega

/-- The loop puts each symbol at its place among those of its length. -/
theorem snaHuffSyms_spec (firstIndex : ℕ → ℕ) (hlen : ∀ i, len i ≤ 15)
    (hdisjoint : ∀ l m, m < l → 1 ≤ m → l ≤ 15 →
      firstIndex l + (snaLevel len 256 l).length ≤ firstIndex m) : ∀ n ≤ 256,
    (∀ l, l ≠ 0 → (snaHuffSyms len firstIndex n).2 l = firstIndex l + (snaLevel len n l).length)
      ∧ ∀ l, 1 ≤ l → l ≤ 15 → ∀ k i, (snaLevel len n l)[k]? = some i →
        (snaHuffSyms len firstIndex n).1 (firstIndex l + k) = i
  | 0, _ => ⟨fun l _ => rfl, fun l _ _ k i h => by cases h⟩
  | n + 1, hn => by
    obtain ⟨hnext, hsym⟩ := snaHuffSyms_spec firstIndex hlen hdisjoint n (by omega)
    rw [snaHuffSyms]
    by_cases hzero : len n = 0
    · simp only [if_pos hzero]
      have hlevel : ∀ l, l ≠ 0 → snaLevel len (n + 1) l = snaLevel len n l := fun l hl => by
        rw [snaLevel_succ, if_neg (by omega), List.append_nil]
      refine ⟨fun l hl => by rw [hlevel l hl, hnext l hl], fun l hl hle k i hi => ?_⟩
      rw [hlevel l (by omega)] at hi
      exact hsym l hl hle k i hi
    · simp only [if_neg hzero]
      have hplace := hnext (len n) hzero
      have hgrown : (snaLevel len (n + 1) (len n)).length = (snaLevel len n (len n)).length + 1 := by
        rw [snaLevel_succ, if_pos rfl, List.length_append, List.length_singleton]
      have hbound : (snaLevel len n (len n)).length < (snaLevel len 256 (len n)).length := by
        have hle : (snaLevel len (n + 1) (len n)).length ≤ (snaLevel len 256 (len n)).length :=
          length_snaLevel_le hn (len n)
        omega
      refine ⟨fun l hl => ?_, fun l hl hle k i hi => ?_⟩
      · split_ifs with heq
        · rw [heq, hplace, hgrown]
          omega
        · rw [snaLevel_succ, if_neg (Ne.symm heq), List.append_nil, hnext l hl]
      · rw [hplace]
        rcases Nat.lt_trichotomy l (len n) with hlt | rfl | hgt
        · rw [snaLevel_succ, if_neg (by omega), List.append_nil] at hi
          have hk := (List.getElem?_eq_some_iff.mp hi).1
          have hd := hdisjoint (len n) l hlt hl (hlen n)
          rw [if_neg (by omega)]
          exact hsym l hl hle k i hi
        · rw [snaLevel_succ, if_pos rfl] at hi
          rcases Nat.lt_or_ge k (snaLevel len n (len n)).length with hk | hk
          · rw [List.getElem?_append_left hk] at hi
            rw [if_neg (by omega)]
            exact hsym _ hl hle k i hi
          · rw [List.getElem?_append_right hk] at hi
            obtain ⟨hk', hi'⟩ := List.getElem?_eq_some_iff.mp hi
            rw [List.length_singleton] at hk'
            rw [if_pos (by omega), ← hi', List.getElem_singleton]
        · rw [snaLevel_succ, if_neg (by omega), List.append_nil] at hi
          have hk := (List.getElem?_eq_some_iff.mp hi).1
          have hk' : (snaLevel len n l).length ≤ (snaLevel len 256 l).length :=
            length_snaLevel_le (by omega) l
          have hd := hdisjoint l (len n) hgt (by omega) hle
          rw [if_neg (by omega)]
          exact hsym l hl hle k i hi

/-! ### The first codes -/

theorem next_unique {cnt : ℕ → ℕ} {top l m m' : ℕ} (h : Canonical.Next cnt top l m)
    (h' : Canonical.Next cnt top l m') : m = m' := by
  obtain ⟨hlt, -, hm, hbetween⟩ := h
  obtain ⟨hlt', -, hm', hbetween'⟩ := h'
  rcases Nat.lt_trichotomy m m' with hmm | rfl | hmm
  · exact absurd (hbetween' m hlt hmm) hm
  · rfl
  · exact absurd (hbetween m' hlt' hmm) hm'

/-- The loop from length `l` down, after it came from the length `plen` in use. -/
theorem snaHuffCodes_spec {cnt : ℕ → ℕ} : ∀ {l code plen : ℕ} {firstCode firstCode' : ℕ → ℕ},
    snaHuffCodes cnt l code plen firstCode = .ok firstCode' → l ≤ 15 →
      (plen = 0 → code = 0 ∧ ∀ k, l < k → k ≤ 15 → cnt k = 0) →
      (plen ≠ 0 → code = firstCode plen + cnt plen ∧ Canonical.Next cnt 15 l plen) →
        (∀ k, l < k → firstCode' k = firstCode k)
          ∧ ∀ k, 1 ≤ k → k ≤ l → cnt k ≠ 0 → firstCode' k + cnt k ≤ 2 ^ k
            ∧ (∀ m, Canonical.Next cnt 15 k m → firstCode' k = (firstCode' m + cnt m) / 2 ^ (m - k))
            ∧ ((∀ j, k < j → j ≤ 15 → cnt j = 0) → firstCode' k = 0)
  | 0, code, plen, firstCode, firstCode', h, _, _, _ => by
    obtain rfl := Except.ok.inj h
    exact ⟨fun _ _ => rfl, fun k hk hk' => by omega⟩
  | l + 1, code, plen, firstCode, firstCode', h, hl, hnone, hsome => by
    rw [snaHuffCodes] at h
    by_cases hcnt : cnt (l + 1) = 0
    · rw [if_pos hcnt] at h
      obtain ⟨hkeep, hrest⟩ := snaHuffCodes_spec h (by omega)
        (fun hp => ⟨(hnone hp).1, fun k hk hk' => by
          rcases Nat.eq_or_lt_of_le (Nat.succ_le_of_lt hk) with rfl | hlt
          · exact hcnt
          · exact (hnone hp).2 k hlt hk'⟩)
        (fun hp => by
          obtain ⟨hcode, hlt, hle, hused, hbetween⟩ := hsome hp
          refine ⟨hcode, by omega, hle, hused, fun k hk hk' => ?_⟩
          rcases Nat.eq_or_lt_of_le (Nat.succ_le_of_lt hk) with rfl | hlt
          · exact hcnt
          · exact hbetween k hlt hk')
      refine ⟨fun k hk => hkeep k (by omega), fun k hk hk' hused => hrest k hk ?_ hused⟩
      by_contra hgt
      obtain rfl : k = l + 1 := by omega
      exact hused hcnt
    · simp only [if_neg hcnt] at h
      generalize hcode₁ : (if plen ≠ 0 then code / 2 ^ (plen - (l + 1)) else code) = code₁ at h
      -- the first code of this length, from the length above it in use
      have hfrom : ∀ m, Canonical.Next cnt 15 (l + 1) m →
          code₁ = (firstCode m + cnt m) / 2 ^ (m - (l + 1)) := by
        intro m hm
        by_cases hp : plen = 0
        · exact absurd ((hnone hp).2 m hm.1 hm.2.1) hm.2.2.1
        · obtain ⟨hcode, hnext⟩ := hsome hp
          obtain rfl := next_unique hm hnext
          rw [← hcode₁, if_pos hp, hcode]
      have hstart : (∀ j, l + 1 < j → j ≤ 15 → cnt j = 0) → code₁ = 0 := by
        intro habove
        by_cases hp : plen = 0
        · rw [← hcode₁, if_neg (not_not.mpr hp), (hnone hp).1]
        · obtain ⟨-, hlt, hle, hused, -⟩ := hsome hp
          exact absurd (habove plen hlt hle) hused
      split_ifs at h with hover
      obtain ⟨hkeep, hrest⟩ := snaHuffCodes_spec h (by omega) (fun hp => by omega)
        (fun _ => ⟨by rw [if_pos rfl], by omega, by omega, hcnt, fun k hk hk' => by omega⟩)
      have hothers : ∀ k, l + 1 < k → firstCode' k = firstCode k := fun k hk => by
        rw [hkeep k (by omega), if_neg (by omega)]
      have hthis : firstCode' (l + 1) = code₁ := by rw [hkeep (l + 1) (by omega), if_pos rfl]
      refine ⟨hothers, fun k hk hk' hused => ?_⟩
      rcases Nat.eq_or_lt_of_le hk' with rfl | hlt
      · refine ⟨by omega, fun m hm => ?_, fun habove => by rw [hthis, hstart habove]⟩
        rw [hthis, hothers m hm.1, hfrom m hm]
      · exact hrest k hk (by omega) hused

theorem snaHuffCodes_assigned {cnt firstCode : ℕ → ℕ}
    (h : snaHuffCodes cnt 15 0 0 (fun _ => 0) = .ok firstCode) :
    Canonical.Assigned cnt firstCode 15 := by
  obtain ⟨-, hspec⟩ := snaHuffCodes_spec h (Nat.le_refl 15) (fun _ => ⟨rfl, fun k hk hk' => by omega⟩)
    fun hp => absurd rfl hp
  exact {
    fits := fun l hl hle hcnt => (hspec l hl hle hcnt).1
    step := fun l m hl hcnt hm => (hspec l hl (hm.1.le.trans hm.2.1) hcnt).2.1 m hm
    start := fun l hl hle hcnt => (hspec l hl hle hcnt).2.2 }

/-- What the table holds. -/
structure SnaHuff.Built (h : SnaHuff) : Prop where
  len_le : ∀ i, h.len i ≤ 15
  cnt_eq : h.cnt = snaHuffCnt h.len
  assigned : Canonical.Assigned h.cnt h.firstCode 15
  sym_eq : ∀ i, h.Coded i → h.sym (h.firstIndex (h.len i) + h.rank i) = i

theorem snaHuffSyms_rank (hlen : ∀ i, len i ≤ 15) {i : ℕ} (hi : i < 256) (hne : len i ≠ 0) :
    (snaHuffSyms len (snaHuffFirstIndex (snaHuffCnt len)) 256).1
      (snaHuffFirstIndex (snaHuffCnt len) (len i) + (snaLevel len 256 (len i)).idxOf i) = i := by
  have hcnt : ∀ l, 1 ≤ l → snaHuffCnt len l = (snaLevel len 256 l).length := fun l hl =>
    if_neg (by omega)
  have hdisjoint : ∀ l m, m < l → 1 ≤ m → l ≤ 15 → snaHuffFirstIndex (snaHuffCnt len) l
      + (snaLevel len 256 l).length ≤ snaHuffFirstIndex (snaHuffCnt len) m := fun l m hml hm hl => by
    rw [← hcnt l (by omega)]
    exact snaHuffFirstIndex_le _ hml hl
  have hsym := (snaHuffSyms_spec _ hlen hdisjoint 256 (Nat.le_refl _)).2
  refine hsym (len i) (Nat.one_le_iff_ne_zero.mpr hne) (hlen i) _ i ?_
  have hmem : i ∈ snaLevel len 256 (len i) := mem_snaLevel.mpr ⟨hi, rfl⟩
  exact List.getElem?_idxOf hmem

theorem snaHuffTable_built {src : Buf} {srclen p : ℕ} {h : SnaHuff}
    (htable : snaHuffTable src srclen = .ok (h, p)) :
    h.Built ∧ h.len = fun i => (snaHuffLens src 256).1.getD i 0 := by
  simp only [snaHuffTable, bind_eq_ok_iff, refuseIf_eq_ok_iff, exists_const] at htable
  obtain ⟨-, -, firstCode, hcodes, htable⟩ := htable
  obtain ⟨len, hdef⟩ : ∃ len : ℕ → ℕ, (fun i => (snaHuffLens src 256).1.getD i 0) = len := ⟨_, rfl⟩
  have hlen : ∀ i, len i ≤ 15 := hdef ▸ snaHuffLens_getD_le src
  rw [hdef] at hcodes htable
  obtain ⟨rfl, -⟩ := Prod.mk.inj (Except.ok.inj htable)
  refine ⟨⟨hlen, rfl, snaHuffCodes_assigned hcodes, fun i hi => ?_⟩, hdef.symm⟩
  obtain ⟨hi, hne⟩ := hi
  simp only [SnaHuff.rank] at hne ⊢
  exact snaHuffSyms_rank hlen hi hne

/-! ### Symbols and words -/

variable {h : SnaHuff} {src : Buf} {srclen p : ℕ}

/-- A symbol with a code has a place among the words of its length. -/
theorem SnaHuff.Built.isWord (hb : h.Built) {i : ℕ} (hi : h.Coded i) :
    Canonical.IsWord h.cnt 15 (h.len i) (h.rank i) := by
  refine ⟨Nat.one_le_iff_ne_zero.mpr hi.2, hb.len_le i, ?_⟩
  rw [hb.cnt_eq, snaHuffCnt, if_neg hi.2, SnaHuff.rank]
  exact List.idxOf_lt_length_of_mem (mem_snaLevel.mpr ⟨hi.1, rfl⟩)

theorem SnaHuff.Built.exists_symbol (hb : h.Built) {l k : ℕ} (hw : Canonical.IsWord h.cnt 15 l k) :
    ∃ i, h.Coded i ∧ h.len i = l ∧ h.rank i = k := by
  obtain ⟨hl, -, hk⟩ := hw
  rw [hb.cnt_eq, snaHuffCnt, if_neg (by omega)] at hk
  obtain ⟨hi, hlen⟩ := mem_snaLevel.mp (List.getElem_mem hk)
  refine ⟨(snaLevel h.len 256 l)[k], ⟨hi, by omega⟩, hlen, ?_⟩
  rw [SnaHuff.rank, hlen]
  exact (nodup_snaLevel 256 l).idxOf_getElem k hk

theorem SnaHuff.Built.symbol_inj (hb : h.Built) {i j : ℕ} (hi : h.Coded i) (hj : h.Coded j)
    (hlen : h.len i = h.len j) (hrank : h.rank i = h.rank j) : i = j := by
  rw [← hb.sym_eq i hi, ← hb.sym_eq j hj, hlen, hrank]

theorem SnaHuff.Built.prefixFree_iff (hb : h.Built) :
    h.PrefixFree ↔ Canonical.Whole h.cnt 15 := by
  rw [← Canonical.prefixFree_iff hb.assigned]
  constructor
  · intro hfree l k l' k' hk hk' hprefix
    obtain ⟨i, hi, rfl, rfl⟩ := hb.exists_symbol hk
    obtain ⟨j, hj, rfl, rfl⟩ := hb.exists_symbol hk'
    obtain rfl := hfree i j hi hj hprefix
    exact ⟨rfl, rfl⟩
  · intro hfree i j hi hj hprefix
    obtain ⟨hlen, hrank⟩ := hfree _ _ _ _ (hb.isWord hi) (hb.isWord hj) hprefix
    exact hb.symbol_inj hi hj hlen hrank

/-! ### Bits -/

/-- The state after `q` bits of the words from `p` on. -/
structure SnaAt (src : Buf) (p q : ℕ) (s : SnaBits) : Prop where
  place : s.nbits + q = 8 * (s.p - p) ∧ p ≤ s.p ∧ (s.p - p) % 2 = 0
  acc_lt : s.acc < 2 ^ s.nbits
  bits : ∀ j < s.nbits, s.acc.testBit (s.nbits - 1 - j) = snaStreamBit src p (q + j)

theorem snaAt_begin : SnaAt src p 0 ⟨0, 0, p⟩ where
  place := ⟨by dsimp only; omega, Nat.le_refl p, by dsimp only; omega⟩
  acc_lt := Nat.one_pos
  bits := fun j hj => absurd hj (Nat.not_lt_zero j)

theorem SnaAt.loadWord {q : ℕ} {s : SnaBits} (hs : SnaAt src p q s) :
    SnaAt src p q (snaLoadWord src srclen s) := by
  rw [snaLoadWord]
  split_ifs with hload
  · obtain ⟨hplace, hp, heven⟩ := hs.place
    have hword := lostLe16_lt src s.p
    have hacc : s.acc * 2 ^ 16 < 2 ^ 32 := by
      have hpow : 2 ^ s.nbits ≤ 2 ^ 16 := Nat.pow_le_pow_right Nat.two_pos hload.1
      have := hs.acc_lt
      omega
    have hu : u32 (s.acc * 2 ^ 16) + lostLe16 src s.p = 2 ^ 16 * s.acc + lostLe16 src s.p := by
      rw [u32_of_lt hacc, Nat.mul_comm]
    refine ⟨⟨by dsimp only; omega, by dsimp only; omega, by dsimp only; omega⟩, ?_, fun j hj => ?_⟩
    · have := hs.acc_lt
      simp only [hu, Nat.pow_add]
      omega
    · simp only [hu]
      dsimp only at hj
      rw [Nat.testBit_two_pow_mul_add _ hword]
      rcases Nat.lt_or_ge j s.nbits with hold | hnew
      · rw [if_neg (by omega), ← hs.bits j hold]
        congr 1
        omega
      · -- a bit of the word that is loaded
        have hdiv : p + 2 * ((q + j) / 16) = s.p := by omega
        rw [if_pos (by omega), snaStreamBit, hdiv]
        congr 1
        omega
  · exact hs

/-- After the refill there are enough bits for a word that is written. -/
theorem SnaAt.refill {q n l : ℕ} {s : SnaBits} (hs : SnaAt src p q s)
    (hend : p + 2 * ((n + 15) / 16) ≤ srclen) (hq : q + l ≤ n) (hl : l ≤ 15) :
    SnaAt src p q (snaRefill src srclen s) ∧ l ≤ (snaRefill src srclen s).nbits := by
  refine ⟨hs.loadWord.loadWord, ?_⟩
  have hgrows : ∀ t, t.nbits ≤ (snaLoadWord src srclen t).nbits := fun t => by
    rw [snaLoadWord]
    split_ifs
    · exact Nat.le_add_right _ _
    · exact Nat.le_refl _
  refine Nat.le_trans ?_ (hgrows _)
  obtain ⟨hplace, hp, heven⟩ := hs.place
  rw [snaLoadWord]
  split_ifs with hload
  · dsimp only
    omega
  · omega

theorem SnaAt.bit {q : ℕ} {s : SnaBits} (hs : SnaAt src p q s) (hpos : s.nbits ≠ 0) :
    s.acc / 2 ^ (s.nbits - 1) % 2 = (snaStreamBit src p q).toNat
      ∧ SnaAt src p (q + 1) ⟨s.acc % 2 ^ (s.nbits - 1), s.nbits - 1, s.p⟩ := by
  have hfirst := hs.bits 0 (by omega)
  obtain ⟨hplace, hp, heven⟩ := hs.place
  refine ⟨?_, ⟨⟨by dsimp only; omega, hp, heven⟩, Nat.mod_lt _ (Nat.two_pow_pos _), fun j hj => ?_⟩⟩
  · rw [← Nat.toNat_testBit, Nat.sub_zero] at *
    rw [hfirst, Nat.add_zero]
  · dsimp only at hj ⊢
    have hnext := hs.bits (j + 1) (by omega)
    rw [Nat.testBit_mod_two_pow, decide_eq_true (by omega), Bool.true_and]
    have hindex : s.nbits - 1 - (j + 1) = s.nbits - 1 - 1 - j := by omega
    have hplace' : q + (j + 1) = q + 1 + j := by omega
    rw [← hplace', ← hnext, hindex]

theorem div_two_pow_step (c r : ℕ) :
    2 * (c / 2 ^ (r + 1)) + (c.testBit r).toNat = c / 2 ^ r := by
  rw [Nat.toNat_testBit, Nat.pow_succ, ← Nat.div_div_eq_div_mul]
  omega

/-- The bit loop finds the symbol whose word comes next, when its last `r` bits are left. -/
theorem snaSymbol_spec (hb : h.Built) (hfree : h.PrefixFree) {i q : ℕ} (hi : h.Coded i)
    (hbits : ∀ t < h.len i, snaStreamBit src p (q + t)
      = (h.firstCode (h.len i) + h.rank i).testBit (h.len i - 1 - t)) :
    ∀ (r fuel : ℕ) {s : SnaBits}, 1 ≤ r → r ≤ h.len i → r ≤ fuel → r ≤ s.nbits →
      SnaAt src p (q + (h.len i - r)) s →
        ∃ s', snaSymbol h fuel (h.len i - r + 1) ((h.firstCode (h.len i) + h.rank i) / 2 ^ r) s
          = .ok (i, s') ∧ SnaAt src p (q + h.len i) s'
  | 0, fuel, s, hr, _, _, _, _ => absurd hr (by decide)
  | r + 1, 0, s, _, _, hfuel, _, _ => absurd hfuel (Nat.not_succ_le_zero r)
  | r + 1, fuel + 1, s, hr, hle, hfuel, hn, hs => by
    obtain ⟨hbit, hs'⟩ := hs.bit (by omega)
    have hword := hb.isWord hi
    have hlt := hb.assigned.word_lt hword
    have hpow : 2 ^ h.len i ≤ 2 ^ 15 := Nat.pow_le_pow_right Nat.two_pos (hb.len_le i)
    have hcode : 2 * ((h.firstCode (h.len i) + h.rank i) / 2 ^ (r + 1))
        + s.acc / 2 ^ (s.nbits - 1) % 2 = (h.firstCode (h.len i) + h.rank i) / 2 ^ r := by
      have hindex : h.len i - 1 - (h.len i - (r + 1)) = r := by omega
      rw [hbit, hbits (h.len i - (r + 1)) (by omega), hindex, div_two_pow_step]
    have hlevel : h.len i - (r + 1) + 1 = h.len i - r := by omega
    have hplace : q + (h.len i - (r + 1)) + 1 = q + (h.len i - r) := by omega
    rw [snaSymbol, if_neg (by omega)]
    simp only [hcode, hlevel]
    rw [hplace] at hs'
    rcases Nat.eq_zero_or_pos r with rfl | hpos
    · -- the word is complete
      have hsub : sub32 (h.firstCode (h.len i) + h.rank i) (h.firstCode (h.len i)) = h.rank i := by
        rw [sub32_of_le (by omega) (by omega), Nat.add_sub_cancel_left]
      have hcnt := hword.2.2
      rw [Nat.pow_zero, Nat.div_one, Nat.sub_zero, hsub, if_pos ⟨by omega, hcnt⟩, hb.sym_eq i hi]
      exact ⟨_, rfl, hs'⟩
    · -- what is read of the word is no word of its own
      rw [if_neg]
      · exact snaSymbol_spec hb hfree hi hbits r fuel (by omega) (by omega) (by omega)
          (by dsimp only; omega) hs'
      · rintro ⟨hused, hhit⟩
        have hfits := hb.assigned.fits (h.len i - r) (by omega) (by have := hb.len_le i; omega) hused
        have hpow' : 2 ^ (h.len i - r) ≤ 2 ^ 15 :=
          Nat.pow_le_pow_right Nat.two_pos (by have := hb.len_le i; omega)
        have hdiv : (h.firstCode (h.len i) + h.rank i) / 2 ^ r ≤ h.firstCode (h.len i) + h.rank i :=
          Nat.div_le_self _ _
        have hge : h.firstCode (h.len i - r) ≤ (h.firstCode (h.len i) + h.rank i) / 2 ^ r := by
          by_contra hlt'
          simp only [sub32] at hhit
          omega
        rw [sub32_of_le hge (by omega)] at hhit
        obtain ⟨j, hj, hlen, hrank⟩ := hb.exists_symbol
          (l := h.len i - r) (k := (h.firstCode (h.len i) + h.rank i) / 2 ^ r - h.firstCode (h.len i - r))
          ⟨by omega, by have := hb.len_le i; omega, hhit⟩
        have hprefix : h.word j <+: h.word i := by
          rw [SnaHuff.word, SnaHuff.word, Canonical.word_prefix_iff (hb.assigned.word_lt (hb.isWord hj)) hlt,
            hlen, hrank]
          have hr' : h.len i - (h.len i - r) = r := by omega
          exact ⟨by omega, by rw [hr']; omega⟩
        have heq := hfree j i hj hi hprefix
        rw [heq] at hlen
        omega

/-- The symbol loop from bit `q` on. -/
theorem snaSymbols_spec (hb : h.Built) (hfree : h.PrefixFree) {n : ℕ}
    (hend : p + 2 * ((n + 15) / 16) ≤ srclen) : ∀ (syms : List ℕ) {q : ℕ} {s : SnaBits},
      (∀ i ∈ syms, h.Coded i) → q + (h.bits syms).length ≤ n →
        (∀ t (ht : t < (h.bits syms).length), snaStreamBit src p (q + t) = (h.bits syms)[t]) →
          SnaAt src p q s → snaSymbols h src srclen syms.length s = .ok syms
  | [], q, s, _, _, _, _ => rfl
  | i :: syms, q, s, hcoded, hn, hbits, hs => by
    have hi := hcoded i List.mem_cons_self
    have hcons : h.bits (i :: syms) = h.word i ++ h.bits syms := rfl
    have hword : (h.word i).length = h.len i := Canonical.length_word _ _
    rw [hcons, List.length_append, hword] at hn
    obtain ⟨hs', henough⟩ := hs.refill hend (l := h.len i) (by omega) (hb.len_le i)
    have hlt := hb.assigned.word_lt (hb.isWord hi)
    have hread : ∀ t < h.len i, snaStreamBit src p (q + t)
        = (h.firstCode (h.len i) + h.rank i).testBit (h.len i - 1 - t) := fun t ht => by
      rw [hbits t (by rw [hcons, List.length_append, hword]; omega)]
      simp only [hcons]
      rw [List.getElem_append_left (by omega)]
      exact Canonical.getElem_word _
    have hzero : (h.firstCode (h.len i) + h.rank i) / 2 ^ h.len i = 0 := Nat.div_eq_of_lt hlt
    obtain ⟨s'', hsymbol, hs''⟩ := snaSymbol_spec hb hfree hi hread (h.len i) 15
      (Nat.one_le_iff_ne_zero.mpr hi.2) (Nat.le_refl _) (hb.len_le i) henough (by simpa using hs')
    rw [Nat.sub_self, hzero] at hsymbol
    rw [List.length_cons, snaSymbols, hsymbol]
    have hrest := snaSymbols_spec hb hfree hend syms (q := q + h.len i)
      (fun j hj => hcoded j (List.mem_cons_of_mem _ hj)) (by omega)
      (fun t ht => by
        have hnext := hbits (h.len i + t) (by rw [hcons, List.length_append, hword]; omega)
        simp only [hcons] at hnext
        rw [List.getElem_append_right (by omega)] at hnext
        rw [Nat.add_assoc, hnext]
        congr 1
        omega) hs''
    simp only [hrest]
    rfl

/-- Where the words are prefix free the decoder returns the symbols whose words are written behind the
table. -/
theorem snaHuffman_bits (htable : snaHuffTable src srclen = .ok (h, p)) (hfree : h.PrefixFree)
    {syms : List ℕ} (hcoded : ∀ i ∈ syms, h.Coded i)
    (hwritten : SnaWritten src srclen p (h.bits syms)) :
    snaHuffman src srclen syms.length = .ok syms := by
  have hb := (snaHuffTable_built htable).1
  simp only [snaHuffman, htable, bind, Except.bind]
  refine snaSymbols_spec hb hfree hwritten.2 syms hcoded (by omega) (fun t ht => ?_) snaAt_begin
  rw [Nat.zero_add]
  exact hwritten.1 t ht

/-- The words of an accepted table are prefix free, and the decoder undoes them, if and only if the
longer words fill a whole number of words of each length in use. -/
theorem sna_codec_iff (htable : snaHuffTable src srclen = .ok (h, p)) :
    SnaCodec h p ↔ SnaWhole src := by
  obtain ⟨hb, hlen⟩ := snaHuffTable_built htable
  have hwhole : SnaWhole src ↔ h.PrefixFree := by
    rw [hb.prefixFree_iff, hb.cnt_eq, hlen, SnaWhole]
  rw [hwhole]
  exact ⟨fun h => h.1, fun hfree => ⟨hfree, fun src srclen htable syms hcoded hwritten =>
    snaHuffman_bits htable hfree hcoded hwritten⟩⟩

/-! ### A table whose words collide -/

/-- Symbol 0 has two bits, symbol 1 one bit, and the others none. -/
def snaTwoLengths : Buf :=
  Buf.ofFields [(4, 0xf8 :: List.replicate 31 0xff), (36, [0x21])]

theorem snaTwoLengths_table : ∃ h p, snaHuffTable snaTwoLengths 38 = .ok (h, p)
    ∧ (h.Coded 0 ∧ h.word 0 = [false, false]) ∧ h.Coded 1 ∧ h.word 1 = [false] := by
  have hok : (snaHuffTable snaTwoLengths 38).toOption.map (fun r =>
      (r.1.len 0, r.1.word 0, r.1.len 1, r.1.word 1)) = some (2, [false, false], 1, [false]) := by
    decide +kernel
  cases htable : snaHuffTable snaTwoLengths 38 with
  | error e =>
    rw [htable] at hok
    cases hok
  | ok r =>
    rw [htable] at hok
    simp only [Except.toOption, Option.map_some, Option.some.injEq, Prod.mk.injEq] at hok
    obtain ⟨hlen₀, hword₀, hlen₁, hword₁⟩ := hok
    exact ⟨r.1, r.2, rfl, ⟨⟨by decide, by omega⟩, hword₀⟩, ⟨by decide, by omega⟩, hword₁⟩

theorem sna_codec_two : ∃ h p, snaHuffTable snaTwoLengths 38 = .ok (h, p)
    ∧ (SnaCodec h p ↔ SnaWhole snaTwoLengths) := by
  obtain ⟨h, p, htable, -⟩ := snaTwoLengths_table
  exact ⟨h, p, htable, sna_codec_iff htable⟩

/-- The word of symbol 1 is a prefix of that of symbol 0. -/
theorem sna_not_codec : ∃ h p, snaHuffTable snaTwoLengths 38 = .ok (h, p) ∧ ¬ SnaCodec h p := by
  obtain ⟨h, p, htable, ⟨hcoded₀, hword₀⟩, hcoded₁, hword₁⟩ := snaTwoLengths_table
  refine ⟨h, p, htable, fun hcodec => ?_⟩
  have hsame := hcodec.1 1 0 hcoded₁ hcoded₀ (by rw [hword₀, hword₁]; decide)
  exact absurd hsame (by decide)

end FsRover
