import FsRover.Bytes
import FsRover.Lib.Memory

/-!
# The sink of the NSIS decoders

The decoders of NSIS hand what they decode to a sink, in chunks of any size. The sink drops the bytes
before a file, takes the length that may stand in front of it, and keeps the bytes of the file in a
buffer that it lets grow.

## Main definitions

* `FsRover.nsisSinkWrite`, `FsRover.nsisSinkWrites` : one chunk, and one after the other.
* `FsRover.nsisKept` : what of a stream is kept.

## Main results

* `FsRover.nsisSinkWrite_live` : one chunk.
* `FsRover.nsisSinkWrites_kept` : the chunks do not matter.
-/

namespace FsRover

open Outcome Memory

/-! ### The sink -/

def NSIS_FILE_MAX : ℕ := 2 ^ 30
def NSIS_IO_SIZE : ℕ := 2 ^ 15

/-- `struct nsis_sink`; `buf` is the buffer with its `cap` bytes, `prefixBytes` the `prefix_size` bytes of
`prefix` that are there. -/
structure NsisSink where
  buf : Mem
  size : ℕ
  skip : ℕ
  target : ℕ
  prefixBytes : List UInt8
  sizePrefix : Bool
  dynamic : Bool
  done : Bool

/-- What a caller sets of a sink. -/
structure NsisConfig where
  skip : ℕ
  target : ℕ
  sizePrefix : Bool
  dynamic : Bool

/-- A sink as a caller hands it to a decoder. -/
def NsisConfig.sink (c : NsisConfig) : NsisSink :=
  ⟨Mem.zeroed 0, 0, c.skip, c.target, [], c.sizePrefix, c.dynamic, false⟩

/-- `nsis_get32`. -/
def nsisGet32 (p : List UInt8) : ℕ := lostLe32 (fun i => p.getD i 0) 0

/-- The loop of `nsis_sink_reserve`. The capacity is never 0 there. -/
def nsisGrow (need cap : ℕ) : ℕ :=
  if 0 < cap ∧ cap < need then
    if NSIS_FILE_MAX / 2 < cap then NSIS_FILE_MAX else nsisGrow need (cap * 2)
  else cap
termination_by need - cap

/-- `nsis_sink_reserve` where there is memory. -/
def nsisSinkReserve (s : NsisSink) (need : ℕ) : Bool × NsisSink :=
  if need ≤ s.buf.len then (true, s)
  else if NSIS_FILE_MAX < need then (false, s)
  else
    let cap := nsisGrow need (if s.buf.len ≠ 0 then s.buf.len else NSIS_IO_SIZE)
    (true, { s with buf := ⟨cap, s.buf.byte⟩ })

/-- The loop of `nsis_sink_write` over the bytes of the length: the bytes that it leaves. -/
def nsisSinkPrefix : NsisSink → List UInt8 → Bool × NsisSink × List UInt8
  | s, [] => (true, s, [])
  | s, b :: buf =>
    if s.sizePrefix ∧ s.prefixBytes.length < 4 then
      let s := { s with prefixBytes := s.prefixBytes ++ [b] }
      if s.prefixBytes.length = 4 then
        let s := { s with target := nsisGet32 s.prefixBytes }
        if NSIS_FILE_MAX < s.target then (false, s, buf)
        else
          match nsisSinkReserve s s.target with
          | (false, s) => (false, s, buf)
          | (true, s) => nsisSinkPrefix { s with done := s.done || s.target == 0 } buf
      else nsisSinkPrefix s buf
    else (true, s, b :: buf)

/-- The bytes that `nsis_sink_write` copies, and what it does then. -/
def nsisSinkStore (s : NsisSink) (bytes : List UInt8) : Outcome Unit (Bool × NsisSink) := do
  let buf ← s.buf.put s.size bytes
  let size := s.size + bytes.length
  done (true, { s with buf, size, done := s.done || (!s.dynamic && size == s.target) })

/-- `nsis_sink_write` after the length. -/
def nsisSinkKeep (s : NsisSink) (buf : List UInt8) : Outcome Unit (Bool × NsisSink) :=
  if s.dynamic then
    if NSIS_FILE_MAX - s.size < buf.length then done (false, s)
    else
      match nsisSinkReserve s (s.size + buf.length) with
      | (false, s) => done (false, s)
      | (true, s) => nsisSinkStore s buf
  else
    let take := min (sub64 s.target s.size) buf.length
    match nsisSinkReserve s s.target with
    | (false, s) => done (false, s)
    | (true, s) => nsisSinkStore s (buf.take take)

/-- `nsis_sink_write`. -/
def nsisSinkWrite (s : NsisSink) (buf : List UInt8) : Outcome Unit (Bool × NsisSink) :=
  if s.done then done (true, s)
  else
    let take := min buf.length s.skip
    match nsisSinkPrefix { s with skip := s.skip - take } (buf.drop take) with
    | (false, s, _) => done (false, s)
    | (true, s, buf) =>
      if s.sizePrefix ∧ s.prefixBytes.length ≠ 4 then done (true, s)
      else if s.done then done (true, s)
      else nsisSinkKeep s buf

/-- Chunks one after the other, up to one that fails. -/
def nsisSinkWrites (s : NsisSink) : List (List UInt8) → Outcome Unit (Bool × NsisSink)
  | [] => done (true, s)
  | chunk :: chunks => do
    let (ok, s) ← nsisSinkWrite s chunk
    if ok then nsisSinkWrites s chunks else done (false, s)

/-- The bytes that a sink has kept. -/
def NsisSink.kept (s : NsisSink) : List UInt8 := Buf.list s.buf.byte 0 s.size

/-! ### What is kept of a stream -/

/-- What is kept of the bytes behind the length, and whether nothing more will be; `none` if they do
not fit. -/
def nsisBody (dynamic : Bool) (target : ℕ) (rest : List UInt8) : Option (List UInt8 × Bool) :=
  if dynamic then if NSIS_FILE_MAX < rest.length then none else some (rest, false)
  else if NSIS_FILE_MAX < target then none
  else some (rest.take target, decide (target ≤ rest.length))

/-- What is kept of a stream, and whether nothing more will be; `none` if it does not fit. -/
def nsisKept (c : NsisConfig) (stream : List UInt8) : Option (List UInt8 × Bool) :=
  let rest := stream.drop c.skip
  if c.sizePrefix then
    if rest.length < 4 then some ([], false)
    else if NSIS_FILE_MAX < nsisGet32 rest then none
    else if nsisGet32 rest = 0 then some ([], true)
    else nsisBody c.dynamic (nsisGet32 rest) (rest.drop 4)
  else nsisBody c.dynamic c.target rest

/-! ### The parts of a write -/

variable {s s' : NsisSink} {c : NsisConfig}

theorem nsisGrow_spec {need cap : ℕ} (hpos : 0 < cap) (hcap : cap ≤ NSIS_FILE_MAX)
    (hneed : need ≤ NSIS_FILE_MAX) :
    need ≤ nsisGrow need cap ∧ cap ≤ nsisGrow need cap ∧ nsisGrow need cap ≤ NSIS_FILE_MAX := by
  fun_induction nsisGrow need cap with
  | case1 cap hlt hhalf => exact ⟨hneed, hcap, Nat.le_refl _⟩
  | case2 cap hlt hhalf ih =>
    have hrec := ih (by omega) (by omega)
    omega
  | case3 cap hge => omega

/-- The capacity stays below the limit, and what is kept lies in the buffer. -/
structure NsisSink.Held (s : NsisSink) : Prop where
  size_le : s.size ≤ s.buf.len
  len_le : s.buf.len ≤ NSIS_FILE_MAX

theorem nsisSinkReserve_spec (h : s.Held) {need : ℕ} (hneed : need ≤ NSIS_FILE_MAX) :
    ∃ cap, nsisSinkReserve s need = (true, { s with buf := ⟨cap, s.buf.byte⟩ })
      ∧ need ≤ cap ∧ s.buf.len ≤ cap ∧ cap ≤ NSIS_FILE_MAX := by
  have hlen := h.len_le
  rw [nsisSinkReserve]
  by_cases hle : need ≤ s.buf.len
  · exact ⟨s.buf.len, if_pos hle, hle, Nat.le_refl _, hlen⟩
  have hgrow := @nsisGrow_spec need (if s.buf.len ≠ 0 then s.buf.len else NSIS_IO_SIZE)
    (by split_ifs <;> first | omega | decide) (by split_ifs <;> first | omega | decide) hneed
  refine ⟨_, by rw [if_neg hle, if_neg (Nat.not_lt.mpr hneed)], hgrow.1, ?_, hgrow.2.2⟩
  by_cases hzero : s.buf.len ≠ 0
  · rw [if_pos hzero] at hgrow ⊢
    exact hgrow.2.1
  · omega

theorem nsisSinkReserve_over (h : s.Held) {need : ℕ} (hneed : NSIS_FILE_MAX < need) :
    nsisSinkReserve s need = (false, s) := by
  have hlen := h.len_le
  rw [nsisSinkReserve, if_neg (by omega), if_pos hneed]

theorem nsisGet32_append {p q : List UInt8} (h : 4 ≤ p.length) :
    nsisGet32 (p ++ q) = nsisGet32 p := by
  have hget : ∀ i < 4, (p ++ q).getD i 0 = p.getD i 0 := fun i hi => by
    rw [List.getD_eq_getElem?_getD, List.getElem?_append_left (by omega),
      List.getD_eq_getElem?_getD]
  simp only [nsisGet32, lostLe32, lostLe16, byteAt]
  rw [hget _ (by decide), hget _ (by decide), hget _ (by decide), hget _ (by decide)]

theorem nsisSinkPrefix_past {buf : List UInt8}
    (h : ¬ (s.sizePrefix ∧ s.prefixBytes.length < 4)) : nsisSinkPrefix s buf = (true, s, buf) := by
  cases buf with
  | nil => rfl
  | cons b buf => rw [nsisSinkPrefix, if_neg h]

theorem nsisSinkPrefix_short {buf : List UInt8} (hp : s.sizePrefix)
    (h : s.prefixBytes.length + buf.length < 4) :
    nsisSinkPrefix s buf = (true, { s with prefixBytes := s.prefixBytes ++ buf }, []) := by
  induction buf generalizing s with
  | nil =>
    rw [List.append_nil]
    rfl
  | cons b buf ih =>
    rw [List.length_cons] at h
    rw [nsisSinkPrefix, if_pos ⟨hp, by omega⟩]
    dsimp only
    have hlen : (s.prefixBytes ++ [b]).length = s.prefixBytes.length + 1 := by simp
    have hrec := @ih { s with prefixBytes := s.prefixBytes ++ [b] } hp (by dsimp only; omega)
    rw [if_neg (by omega), hrec, List.append_assoc]
    rfl

/-- The last byte of the length: it is the target if it fits. -/
theorem nsisSinkPrefix_full {buf : List UInt8} (hheld : s.Held) (hp : s.sizePrefix)
    (hlt : s.prefixBytes.length < 4) (hge : 4 ≤ s.prefixBytes.length + buf.length) :
    let q := s.prefixBytes ++ buf.take (4 - s.prefixBytes.length)
    (NSIS_FILE_MAX < nsisGet32 q → ∃ s' rest, nsisSinkPrefix s buf = (false, s', rest))
      ∧ (nsisGet32 q ≤ NSIS_FILE_MAX → ∃ cap, s.buf.len ≤ cap ∧ cap ≤ NSIS_FILE_MAX
        ∧ nsisSinkPrefix s buf
          = (true, { s with
              buf := ⟨cap, s.buf.byte⟩
              prefixBytes := q
              target := nsisGet32 q
              done := s.done || nsisGet32 q == 0 }, buf.drop (4 - s.prefixBytes.length))) := by
  induction buf generalizing s with
  | nil =>
    rw [List.length_nil] at hge
    omega
  | cons b buf ih =>
    rw [List.length_cons] at hge
    have hlen : (s.prefixBytes ++ [b]).length = s.prefixBytes.length + 1 := by simp
    rw [nsisSinkPrefix, if_pos ⟨hp, hlt⟩]
    dsimp only
    by_cases hlast : (s.prefixBytes ++ [b]).length = 4
    · obtain hfour : 4 - s.prefixBytes.length = 1 := by omega
      rw [if_pos hlast, hfour, List.take_succ_cons, List.take_zero, List.drop_one, List.tail_cons]
      refine ⟨fun hover => ⟨_, _, if_pos hover⟩, fun hfits => ?_⟩
      rw [if_neg (Nat.not_lt.mpr hfits)]
      obtain ⟨cap, hreserve, -, hle, hmax⟩ := @nsisSinkReserve_spec
        { s with prefixBytes := s.prefixBytes ++ [b], target := nsisGet32 (s.prefixBytes ++ [b]) }
        ⟨hheld.size_le, hheld.len_le⟩ _ hfits
      refine ⟨cap, hle, hmax, ?_⟩
      rw [hreserve]
      dsimp only
      rw [nsisSinkPrefix_past fun hboth => by
        have hshort := hboth.2
        dsimp only at hshort
        omega]
    · rw [if_neg hlast]
      have hsub : 4 - s.prefixBytes.length = (4 - (s.prefixBytes ++ [b]).length) + 1 := by omega
      have hrec := @ih { s with prefixBytes := s.prefixBytes ++ [b] }
        ⟨hheld.size_le, hheld.len_le⟩ hp (by dsimp only; omega) (by dsimp only; omega)
      dsimp only at hrec
      rw [hsub, List.take_succ_cons, List.drop_succ_cons]
      rw [List.append_assoc, List.singleton_append] at hrec
      exact hrec

/-! ### Keeping -/

theorem nsisSinkStore_spec {bytes : List UInt8}
    (hroom : s.size + bytes.length ≤ s.buf.len) :
    ∃ buf, nsisSinkStore s bytes = done (true, { s with
        buf
        size := s.size + bytes.length
        done := s.done || (!s.dynamic && s.size + bytes.length == s.target) })
      ∧ buf.len = s.buf.len ∧ Buf.list buf.byte 0 (s.size + bytes.length) = s.kept ++ bytes := by
  rw [nsisSinkStore, Mem.put, inside_pos hroom, done_bind]
  refine ⟨_, rfl, rfl, ?_⟩
  refine List.ext_getElem (by simp [NsisSink.kept]) fun i hi hi' => ?_
  rw [Buf.length_list] at hi
  rw [Buf.getElem_list, Nat.zero_add]
  by_cases hlow : i < s.size
  · have hkept : i < s.kept.length := by rwa [NsisSink.kept, Buf.length_list]
    rw [List.getElem_append_left hkept]
    simp only [NsisSink.kept, Buf.getElem_list, Nat.zero_add]
    exact if_neg (by omega)
  · have hkept : s.kept.length ≤ i := by
      rw [NsisSink.kept, Buf.length_list]
      omega
    have hin : i - s.size < bytes.length := by omega
    rw [List.getElem_append_right hkept]
    simp only [NsisSink.kept, Buf.length_list]
    rw [if_pos (by omega), List.getD_eq_getElem?_getD, List.getElem?_eq_getElem hin,
      Option.getD_some]

theorem nsisSinkKeep_spec {t buf : List UInt8} (hheld : s.Held) (hdone : s.done = false)
    (hkept : s.kept = t) (hfixed : s.dynamic = false → t.length ≤ s.target) :
    ∃ ok s', nsisSinkKeep s buf = done (ok, s')
      ∧ match nsisBody s.dynamic s.target (t ++ buf) with
        | none => ok = false
        | some (k, fin) => ok = true ∧ s'.kept = k ∧ s'.Held
          ∧ ∃ mem size, s' = { s with buf := mem, size, done := fin } := by
  subst hkept
  have hsize : s.size = s.kept.length := by rw [NsisSink.kept, Buf.length_list]
  have hsizeLe := hheld.size_le
  have hlenLe := hheld.len_le
  rw [nsisSinkKeep, nsisBody]
  by_cases hdyn : s.dynamic = true
  · rw [if_pos hdyn, if_pos hdyn, List.length_append]
    by_cases hover : NSIS_FILE_MAX < s.kept.length + buf.length
    · exact ⟨false, s, if_pos (by omega), by rw [if_pos hover]⟩
    obtain ⟨cap, hreserve, hneed, hle, hmax⟩ := @nsisSinkReserve_spec s hheld
      (s.size + buf.length) (by omega)
    obtain ⟨mem, hstore, hmem, hlist⟩ := @nsisSinkStore_spec { s with buf := ⟨cap, s.buf.byte⟩ }
      buf hneed
    rw [if_neg (by omega), hreserve, if_neg hover]
    refine ⟨_, _, hstore, rfl, ?_, ⟨?_, ?_⟩, mem, s.size + buf.length, ?_⟩
    · exact hlist
    · dsimp only
      rw [hmem]
      exact hneed
    · dsimp only
      rw [hmem]
      exact hmax
    · simp [hdone, hdyn]
  · rw [if_neg hdyn, if_neg hdyn]
    have hle := hfixed (Bool.eq_false_iff.mpr hdyn)
    by_cases hover : NSIS_FILE_MAX < s.target
    · refine ⟨false, s, ?_, by rw [if_pos hover]⟩
      rw [nsisSinkReserve_over hheld hover]
    obtain ⟨cap, hreserve, hneed, hgrown, hmax⟩ := @nsisSinkReserve_spec s hheld s.target
      (Nat.not_lt.mp hover)
    have htarget : s.target < 2 ^ 64 := Nat.lt_of_le_of_lt (Nat.not_lt.mp hover) (by decide)
    have htake : (buf.take (min (sub64 s.target s.size) buf.length)) = buf.take (s.target - s.kept.length) := by
      rw [sub64_of_le (by omega) htarget, hsize, ← List.take_eq_take_min]
    obtain ⟨mem, hstore, hmem, hlist⟩ := @nsisSinkStore_spec { s with buf := ⟨cap, s.buf.byte⟩ }
      (buf.take (s.target - s.kept.length)) (by
        dsimp only
        rw [List.length_take]
        omega)
    rw [hreserve, if_neg hover]
    dsimp only
    rw [htake]
    refine ⟨_, _, hstore, rfl, ?_, ⟨?_, ?_⟩, mem,
      s.size + (buf.take (s.target - s.kept.length)).length, ?_⟩
    · have hwhole : (s.kept ++ buf).take s.target = s.kept ++ buf.take (s.target - s.kept.length) := by
        rw [List.take_append, List.take_of_length_le hle]
      rw [hwhole]
      exact hlist
    · dsimp only
      rw [hmem, List.length_take]
      dsimp only
      omega
    · dsimp only
      rw [hmem]
      exact hmax
    · have hfin : (s.size + (buf.take (s.target - s.kept.length)).length == s.target)
          = decide (s.target ≤ (s.kept ++ buf).length) := by
        rw [List.length_take, List.length_append, hsize]
        by_cases hall : s.target ≤ s.kept.length + buf.length
        · rw [decide_eq_true hall, beq_iff_eq]
          omega
        · rw [decide_eq_false hall, beq_eq_false_iff_ne]
          omega
      dsimp only
      rw [hfin, hdone, Bool.eq_false_iff.mpr hdyn, Bool.false_or, Bool.not_false, Bool.true_and]

/-! ### A stream in chunks -/

/-- The bytes of a stream that the sink does not skip. -/
def NsisConfig.rest (c : NsisConfig) (xs : List UInt8) : List UInt8 := xs.drop c.skip

/-- How long the length is. -/
def NsisConfig.lengthSize (c : NsisConfig) : ℕ := if c.sizePrefix then 4 else 0

/-- The sink has taken `xs` and will keep more. -/
structure NsisLive (c : NsisConfig) (xs : List UInt8) (s : NsisSink) : Prop where
  held : s.Held
  notDone : s.done = false
  sizePrefix : s.sizePrefix = c.sizePrefix
  dynamic : s.dynamic = c.dynamic
  skip : s.skip = c.skip - xs.length
  prefixBytes : s.prefixBytes = (c.rest xs).take c.lengthSize
  kept : s.kept = (c.rest xs).drop c.lengthSize
  target_plain : c.sizePrefix = false → s.target = c.target
  target_read : c.sizePrefix = true → 4 ≤ (c.rest xs).length →
    s.target = nsisGet32 (c.rest xs) ∧ s.target ≤ NSIS_FILE_MAX ∧ s.target ≠ 0
  fixed : s.dynamic = false → c.lengthSize ≤ (c.rest xs).length → s.kept.length ≤ s.target

/-- What a sink is after `xs`. -/
def NsisAfter (c : NsisConfig) (xs : List UInt8) (ok : Bool) (s : NsisSink) : Prop :=
  match nsisKept c xs with
  | none => ok = false
  | some (k, fin) => ok = true ∧ s.kept = k ∧ s.done = fin ∧ (fin = false → NsisLive c xs s)

theorem nsisBody_false {dynamic : Bool} {target : ℕ} {rest k : List UInt8}
    (h : nsisBody dynamic target rest = some (k, false)) :
    k = rest ∧ (dynamic = false → rest.length ≤ target) := by
  rw [nsisBody] at h
  split_ifs at h with hdyn
  · obtain ⟨rfl, -⟩ := Prod.mk.inj (Option.some.inj h)
    exact ⟨rfl, fun hfalse => by rw [hfalse] at hdyn; cases hdyn⟩
  · obtain ⟨rfl, hfin⟩ := Prod.mk.inj (Option.some.inj h)
    have hlt := of_decide_eq_false hfin
    exact ⟨List.take_of_length_le (by omega), fun _ => by omega⟩

theorem NsisLive.keep {xs t z : List UInt8} (hheld : s.Held) (hdone : s.done = false)
    (hsize : s.sizePrefix = c.sizePrefix) (hdyn : s.dynamic = c.dynamic)
    (hskip : s.skip = c.skip - xs.length) (hlead : s.prefixBytes = (c.rest xs).take c.lengthSize)
    (hkept : s.kept = t) (hwhole : (c.rest xs).drop c.lengthSize = t ++ z)
    (hplain : c.sizePrefix = false → s.target = c.target)
    (hlength : c.sizePrefix = true → 4 ≤ (c.rest xs).length
      ∧ s.target = nsisGet32 (c.rest xs) ∧ s.target ≤ NSIS_FILE_MAX ∧ s.target ≠ 0)
    (hfixed : s.dynamic = false → t.length ≤ s.target) :
    ∃ ok s', nsisSinkKeep s z = done (ok, s') ∧ NsisAfter c xs ok s' := by
  have hbody : nsisKept c xs = nsisBody s.dynamic s.target (t ++ z) := by
    rw [← hwhole, nsisKept, hdyn]
    cases hp : c.sizePrefix with
    | false =>
      rw [if_neg (by simp), hplain hp, NsisConfig.lengthSize, hp, if_neg (by simp), List.drop_zero]
      rfl
    | true =>
      obtain ⟨hlen, htarget, hmax, hzero⟩ := hlength hp
      rw [htarget] at hmax hzero
      rw [if_pos rfl, ← NsisConfig.rest, if_neg (by omega), if_neg (by omega), if_neg hzero, htarget,
        NsisConfig.lengthSize, hp, if_pos rfl]
  obtain ⟨ok, s', hkeep, hafter⟩ := @nsisSinkKeep_spec s t z hheld hdone hkept hfixed
  refine ⟨ok, s', hkeep, ?_⟩
  rw [NsisAfter, hbody]
  cases hres : nsisBody s.dynamic s.target (t ++ z) with
  | none =>
    rw [hres] at hafter
    exact hafter
  | some res =>
    obtain ⟨k, fin⟩ := res
    rw [hres] at hafter
    obtain ⟨hok, hk, hheld', mem, size, rfl⟩ := hafter
    refine ⟨hok, hk, rfl, fun hfin => ?_⟩
    subst hfin
    obtain ⟨rfl, hle⟩ := nsisBody_false hres
    exact ⟨hheld', rfl, hsize, hdyn, hskip, hlead, hk.trans hwhole.symm, hplain,
      fun hp _ => (hlength hp).2, fun hd _ => by rw [hk]; exact hle hd⟩

/-- One chunk. -/
theorem nsisSinkWrite_live {xs buf : List UInt8} (h : NsisLive c xs s) :
    ∃ ok s', nsisSinkWrite s buf = done (ok, s') ∧ NsisAfter c (xs ++ buf) ok s' := by
  have hrest : c.rest (xs ++ buf) = c.rest xs ++ buf.drop s.skip := by
    rw [h.skip]
    exact List.drop_append
  have hdrop : buf.drop (min buf.length s.skip) = buf.drop s.skip := by
    by_cases hle : s.skip ≤ buf.length
    · rw [Nat.min_eq_right hle]
    · rw [Nat.min_eq_left (by omega), List.drop_length, List.drop_of_length_le (by omega)]
  have hskip : s.skip - min buf.length s.skip = c.skip - (xs ++ buf).length := by
    rw [h.skip, List.length_append]
    omega
  have hdone : ¬ s.done = true := by rw [h.notDone]; simp
  obtain ⟨z, hz⟩ : ∃ z, z = buf.drop s.skip := ⟨_, rfl⟩
  obtain ⟨s₁, hs₁⟩ : ∃ s₁ : NsisSink, s₁ = { s with skip := s.skip - min buf.length s.skip } :=
    ⟨_, rfl⟩
  rw [nsisSinkWrite, if_neg hdone]
  dsimp only
  rw [hdrop, ← hz, ← hs₁]
  rw [← hz] at hrest
  have hheld₁ : s₁.Held := by
    rw [hs₁]
    exact ⟨h.held.size_le, h.held.len_le⟩
  have hfull : s₁.sizePrefix = true → 4 ≤ (c.rest xs).length → s₁.prefixBytes.length = 4 := by
    intro hp hlen
    rw [hs₁] at hp ⊢
    rw [h.sizePrefix] at hp
    rw [h.prefixBytes, NsisConfig.lengthSize, if_pos hp, List.length_take, Nat.min_eq_left hlen]
  by_cases hpast : c.sizePrefix = true → 4 ≤ (c.rest xs).length
  · -- the length is there or not wanted
    have hlengthSize : c.lengthSize ≤ (c.rest xs).length := by
      rw [NsisConfig.lengthSize]
      split_ifs with hp
      · exact hpast hp
      · exact Nat.zero_le _
    have hnot : ¬ (s₁.sizePrefix = true ∧ s₁.prefixBytes.length < 4) := by
      rintro ⟨hp, hlt⟩
      have hfour := hfull hp (hpast (by rw [hs₁, h.sizePrefix] at hp; exact hp))
      omega
    rw [nsisSinkPrefix_past hnot]
    dsimp only
    rw [if_neg (by
      rintro ⟨hp, hne⟩
      exact hne (hfull hp (hpast (by rw [hs₁, h.sizePrefix] at hp; exact hp)))),
      if_neg (by rw [hs₁]; exact hdone)]
    rw [hs₁] at hheld₁ ⊢
    refine NsisLive.keep hheld₁ h.notDone h.sizePrefix h.dynamic hskip ?_ h.kept ?_ h.target_plain
      (fun hp => ?_) fun hd => ?_
    · rw [hrest, List.take_append_of_le_length hlengthSize]
      exact h.prefixBytes
    · rw [hrest, List.drop_append_of_le_length hlengthSize]
    · obtain ⟨htarget, hbounds⟩ := h.target_read hp (hpast hp)
      rw [hrest]
      refine ⟨?_, htarget.trans (nsisGet32_append (hpast hp)).symm, hbounds⟩
      rw [List.length_append]
      have hlen := hpast hp
      omega
    · rw [← h.kept]
      exact h.fixed hd hlengthSize
  · -- the length goes on in this chunk
    obtain ⟨hp, hshort⟩ := Classical.not_imp.mp hpast
    have hfour : c.lengthSize = 4 := by rw [NsisConfig.lengthSize, if_pos hp]
    have hp₁ : s₁.sizePrefix = true := by rw [hs₁]; exact h.sizePrefix.trans hp
    have hlead₁ : s₁.prefixBytes = c.rest xs := by
      rw [hs₁, h.prefixBytes, hfour, List.take_of_length_le (by omega)]
    have hkept : s.kept = [] := by
      rw [h.kept, hfour, List.drop_of_length_le (by omega)]
    by_cases hlt : (c.rest xs).length + z.length < 4
    · rw [nsisSinkPrefix_short hp₁ (by rw [hlead₁]; exact hlt), hlead₁]
      dsimp only
      rw [if_pos ⟨hp₁, by rw [List.length_append]; omega⟩]
      have hnone : nsisKept c (xs ++ buf) = some ([], false) := by
        rw [nsisKept, if_pos hp, ← NsisConfig.rest, hrest, List.length_append, if_pos hlt]
      refine ⟨_, _, rfl, ?_⟩
      rw [NsisAfter, hnone, hs₁]
      refine ⟨rfl, hkept, h.notDone, fun _ => ⟨⟨h.held.size_le, h.held.len_le⟩, h.notDone, h.sizePrefix, h.dynamic, hskip, ?_, ?_,
        h.target_plain, fun _ hlen => ?_, fun _ hlen => ?_⟩⟩
      · rw [hrest, hfour, List.take_of_length_le (by rw [List.length_append]; omega)]
      · rw [hrest, hfour, List.drop_of_length_le (by rw [List.length_append]; omega)]
        exact hkept
      · rw [hrest, List.length_append] at hlen
        omega
      · rw [hrest, hfour, List.length_append] at hlen
        omega
    · obtain ⟨hover, hfits⟩ := @nsisSinkPrefix_full s₁ z hheld₁ hp₁ (by rw [hlead₁]; omega)
        (by rw [hlead₁]; omega)
      rw [hlead₁] at hover hfits
      obtain ⟨q, hq⟩ : ∃ q, q = c.rest xs ++ z.take (4 - (c.rest xs).length) := ⟨_, rfl⟩
      obtain ⟨y, hy⟩ : ∃ y, y = z.drop (4 - (c.rest xs).length) := ⟨_, rfl⟩
      have hqlen : q.length = 4 := by
        rw [hq, List.length_append, List.length_take]
        omega
      have hsplit : c.rest (xs ++ buf) = q ++ y := by
        rw [hrest, hq, hy, List.append_assoc, List.take_append_drop]
      have hget : nsisGet32 (q ++ y) = nsisGet32 q := nsisGet32_append (by omega)
      have hwhole : nsisKept c (xs ++ buf) = if NSIS_FILE_MAX < nsisGet32 q then none
          else if nsisGet32 q = 0 then some ([], true) else nsisBody c.dynamic (nsisGet32 q) y := by
        rw [nsisKept, if_pos hp, ← NsisConfig.rest, hsplit, hget, List.length_append,
          if_neg (by omega), List.drop_left' hqlen]
      rw [← hq] at hover hfits
      by_cases hmax : NSIS_FILE_MAX < nsisGet32 q
      · obtain ⟨s', rest, hrun⟩ := hover hmax
        rw [hrun]
        refine ⟨false, s', rfl, ?_⟩
        rw [NsisAfter, hwhole, if_pos hmax]
      · obtain ⟨cap, hgrown, hcap, hrun⟩ := hfits (Nat.not_lt.mp hmax)
        rw [hrun, ← hy]
        dsimp only
        rw [if_neg (by rintro ⟨-, hne⟩; exact hne hqlen)]
        by_cases hzero : nsisGet32 q = 0
        · rw [if_pos (by simp [hzero])]
          refine ⟨true, _, rfl, ?_⟩
          rw [NsisAfter, hwhole, if_neg hmax, if_pos hzero, hs₁]
          exact ⟨rfl, hkept, by simp [hzero], fun hfin => by cases hfin⟩
        · have hopen : (s₁.done || nsisGet32 q == 0) = false := by
            rw [hs₁]
            simp [h.notDone, hzero]
          rw [hopen, if_neg (by simp), hs₁]
          rw [hs₁] at hgrown
          refine @NsisLive.keep _ c _ [] y ⟨Nat.le_trans h.held.size_le hgrown, hcap⟩ rfl h.sizePrefix
            h.dynamic hskip ?_ hkept ?_ (fun hfalse => by rw [hfalse] at hp; cases hp) (fun _ => ?_)
            fun _ => Nat.zero_le _
          · rw [hsplit, hfour, List.take_left' hqlen]
          · rw [hsplit, hfour, List.drop_left' hqlen, List.nil_append]
          · rw [hsplit, hget, List.length_append]
            exact ⟨by omega, rfl, Nat.not_lt.mp hmax, hzero⟩

theorem nsisKept_true {xs ys k : List UInt8} (h : nsisKept c xs = some (k, true)) :
    nsisKept c (xs ++ ys) = some (k, true) := by
  have hbody : ∀ {d : Bool} {t : ℕ} {rest zs : List UInt8}, nsisBody d t rest = some (k, true) →
      nsisBody d t (rest ++ zs) = some (k, true) := by
    intro d t rest zs hrest
    rw [nsisBody] at hrest ⊢
    split_ifs at hrest ⊢ with hdyn hover
    · simp at hrest
    · simp at hrest
    · obtain ⟨rfl, hfin⟩ := Prod.mk.inj (Option.some.inj hrest)
      have hle := of_decide_eq_true hfin
      rw [List.take_append_of_le_length hle, List.length_append, decide_eq_true (by omega)]
  have hdrop : (xs ++ ys).drop c.skip = xs.drop c.skip ++ ys.drop (c.skip - xs.length) :=
    List.drop_append
  rw [nsisKept] at h ⊢
  rw [hdrop]
  split_ifs at h with hp hshort hmax hzero
  · simp at h
  · have hget : nsisGet32 (xs.drop c.skip ++ ys.drop (c.skip - xs.length)) = nsisGet32 (xs.drop c.skip) :=
      nsisGet32_append (by omega)
    rw [if_pos hp, hget, List.length_append, if_neg (by omega), if_neg hmax, if_pos hzero]
    exact h
  · have hget : nsisGet32 (xs.drop c.skip ++ ys.drop (c.skip - xs.length)) = nsisGet32 (xs.drop c.skip) :=
      nsisGet32_append (by omega)
    rw [if_pos hp, hget, List.length_append, if_neg (by omega), if_neg hmax, if_neg hzero,
      List.drop_append_of_le_length (by omega)]
    exact hbody h
  · rw [if_neg hp]
    exact hbody h

theorem nsisKept_none {xs ys : List UInt8} (h : nsisKept c xs = none) :
    nsisKept c (xs ++ ys) = none := by
  have hbody : ∀ {d : Bool} {t : ℕ} {rest zs : List UInt8}, nsisBody d t rest = none →
      nsisBody d t (rest ++ zs) = none := by
    intro d t rest zs hrest
    rw [nsisBody] at hrest ⊢
    split_ifs at hrest with hdyn hover hover
    · rw [if_pos hdyn, List.length_append, if_pos (by omega)]
    · rw [if_neg hdyn, if_pos hover]
  have hdrop : (xs ++ ys).drop c.skip = xs.drop c.skip ++ ys.drop (c.skip - xs.length) :=
    List.drop_append
  rw [nsisKept] at h ⊢
  rw [hdrop]
  split_ifs at h with hp hshort hmax hzero
  · have hget : nsisGet32 (xs.drop c.skip ++ ys.drop (c.skip - xs.length)) = nsisGet32 (xs.drop c.skip) :=
      nsisGet32_append (by omega)
    rw [if_pos hp, hget, List.length_append, if_neg (by omega), if_pos hmax]
  · have hget : nsisGet32 (xs.drop c.skip ++ ys.drop (c.skip - xs.length)) = nsisGet32 (xs.drop c.skip) :=
      nsisGet32_append (by omega)
    rw [if_pos hp, hget, List.length_append, if_neg (by omega), if_neg hmax, if_neg hzero,
      List.drop_append_of_le_length (by omega)]
    exact hbody h
  · rw [if_neg hp]
    exact hbody h

theorem NsisAfter.write {xs buf : List UInt8} (h : NsisAfter c xs true s) :
    ∃ ok s', nsisSinkWrite s buf = done (ok, s') ∧ NsisAfter c (xs ++ buf) ok s' := by
  rw [NsisAfter] at h
  cases hkept : nsisKept c xs with
  | none =>
    rw [hkept] at h
    cases h
  | some res =>
    obtain ⟨k, fin⟩ := res
    rw [hkept] at h
    obtain ⟨-, hk, hfin, hlive⟩ := h
    cases fin with
    | false => exact nsisSinkWrite_live (hlive rfl)
    | true =>
      refine ⟨true, s, by rw [nsisSinkWrite, if_pos hfin], ?_⟩
      rw [NsisAfter, nsisKept_true hkept]
      exact ⟨rfl, hk, hfin, fun hfalse => by cases hfalse⟩

theorem NsisAfter.writes {xs : List UInt8} {chunks : List (List UInt8)} (h : NsisAfter c xs true s) :
    ∃ ok s', nsisSinkWrites s chunks = done (ok, s') ∧ NsisAfter c (xs ++ chunks.flatten) ok s' := by
  induction chunks generalizing xs s with
  | nil => exact ⟨true, s, rfl, by rwa [List.flatten_nil, List.append_nil]⟩
  | cons chunk chunks ih =>
    obtain ⟨ok, s₁, hwrite, hafter⟩ := @NsisAfter.write _ _ _ chunk h
    rw [nsisSinkWrites, hwrite, done_bind, List.flatten_cons, ← List.append_assoc]
    cases ok with
    | true => exact ih hafter
    | false =>
      refine ⟨false, s₁, rfl, ?_⟩
      have hnone : nsisKept c (xs ++ chunk) = none := by
        rw [NsisAfter] at hafter
        cases hkept : nsisKept c (xs ++ chunk) with
        | none => rfl
        | some res =>
          rw [hkept] at hafter
          cases hafter.1
      rw [NsisAfter, nsisKept_none hnone]

theorem NsisConfig.live (c : NsisConfig) : NsisLive c [] c.sink where
  held := ⟨Nat.le_refl 0, Nat.zero_le _⟩
  notDone := rfl
  sizePrefix := rfl
  dynamic := rfl
  skip := rfl
  prefixBytes := by simp [NsisConfig.rest, NsisConfig.sink]
  kept := by simp [NsisConfig.rest, NsisConfig.sink, NsisSink.kept, Buf.list]
  target_plain := fun _ => rfl
  target_read := fun _ h => by simp [NsisConfig.rest] at h
  fixed := fun _ _ => Nat.zero_le _

/-- However a stream comes in chunks, at least one, the sink stays in its buffer, fails if and only if
the stream does not fit, and otherwise has kept what is to be kept of the stream. -/
theorem nsisSinkWrites_kept (c : NsisConfig) (chunk : List UInt8) (chunks : List (List UInt8)) :
    ∃ ok s, nsisSinkWrites c.sink (chunk :: chunks) = done (ok, s)
      ∧ match nsisKept c (chunk ++ chunks.flatten) with
        | none => ok = false
        | some (k, fin) => ok = true ∧ s.kept = k ∧ s.size = k.length ∧ s.done = fin := by
  obtain ⟨ok, s, hrun, hafter⟩ : ∃ ok s, nsisSinkWrites c.sink (chunk :: chunks) = done (ok, s)
      ∧ NsisAfter c (chunk ++ chunks.flatten) ok s := by
    obtain ⟨ok, s₁, hwrite, hafter⟩ := @nsisSinkWrite_live _ c [] chunk c.live
    rw [List.nil_append] at hafter
    rw [nsisSinkWrites, hwrite, done_bind]
    cases ok with
    | true => exact hafter.writes
    | false =>
      refine ⟨false, s₁, rfl, ?_⟩
      have hnone : nsisKept c chunk = none := by
        rw [NsisAfter] at hafter
        cases hkept : nsisKept c chunk with
        | none => rfl
        | some res =>
          rw [hkept] at hafter
          cases hafter.1
      rw [NsisAfter, nsisKept_none hnone]
  refine ⟨ok, s, hrun, ?_⟩
  rw [NsisAfter] at hafter
  cases hkept : nsisKept c (chunk ++ chunks.flatten) with
  | none =>
    rw [hkept] at hafter
    exact hafter
  | some res =>
    obtain ⟨k, fin⟩ := res
    rw [hkept] at hafter
    obtain ⟨hok, hk, hfin, -⟩ := hafter
    refine ⟨hok, hk, ?_, hfin⟩
    rw [← hk, NsisSink.kept, Buf.length_list]

/-- A stream comes to the same in any chunks, at least one, as in one piece, and that is what is to be
kept of it; of a stream that does not fit, a part may be left in the buffer. -/
theorem nsis_sink_chunks (c : NsisConfig) (chunk : List UInt8) (chunks : List (List UInt8)) :
    ∃ ok s s', nsisSinkWrites c.sink (chunk :: chunks) = done (ok, s)
      ∧ nsisSinkWrites c.sink [chunk ++ chunks.flatten] = done (ok, s')
      ∧ (ok = true → s.kept = s'.kept ∧ s.size = s'.size ∧ s.done = s'.done)
      ∧ match nsisKept c (chunk ++ chunks.flatten) with
        | none => ok = false
        | some (k, fin) => ok = true ∧ s.kept = k ∧ s.size = k.length ∧ s.done = fin := by
  obtain ⟨ok, s, hrun, hspec⟩ := nsisSinkWrites_kept c chunk chunks
  obtain ⟨ok', s', hrun', hspec'⟩ := nsisSinkWrites_kept c (chunk ++ chunks.flatten) []
  rw [List.flatten_nil, List.append_nil] at hspec'
  cases hkept : nsisKept c (chunk ++ chunks.flatten) with
  | none =>
    rw [hkept] at hspec hspec'
    obtain rfl : ok = false := hspec
    obtain rfl : ok' = false := hspec'
    exact ⟨false, s, s', hrun, hrun', fun h => (by cases h), rfl⟩
  | some res =>
    obtain ⟨k, fin⟩ := res
    rw [hkept] at hspec hspec'
    obtain ⟨rfl, hk, hsize, hfin⟩ := hspec
    obtain ⟨rfl, hk', hsize', hfin'⟩ := hspec'
    exact ⟨true, s, s', hrun, hrun', fun _ => ⟨hk.trans hk'.symm, hsize.trans hsize'.symm,
      hfin.trans hfin'.symm⟩, rfl, hk, hsize, hfin⟩

/-! ### What the chunks do matter for -/

/-- A sink that keeps all there is, and one that keeps nothing. -/
def keepAll : NsisConfig := ⟨0, 0, false, true⟩
def keepNone : NsisConfig := ⟨0, 0, false, false⟩

theorem keepAll_refuses {xs ys : List UInt8} (h : NsisLive keepAll xs s)
    (hover : NSIS_FILE_MAX < xs.length + ys.length) :
    ∃ s', nsisSinkWrite s ys = done (false, s') ∧ s'.size = xs.length := by
  have hsize : s.size = xs.length := by
    have hlen := congrArg List.length h.kept
    rwa [NsisSink.kept, Buf.length_list] at hlen
  have hplain : ¬ s.sizePrefix = true := by
    rw [h.sizePrefix]
    simp [keepAll]
  have hskip : s.skip = 0 := h.skip.trans (Nat.zero_sub _)
  obtain ⟨s₁, hs₁⟩ : ∃ s₁ : NsisSink, s₁ = { s with skip := s.skip - min ys.length s.skip } := ⟨_, rfl⟩
  have hrefuse : nsisSinkKeep s₁ ys = done (false, s₁) := by
    rw [nsisSinkKeep, if_pos (by rw [hs₁]; exact h.dynamic), if_pos]
    rw [hs₁]
    have hsizeLe := h.held.size_le
    have hlenLe := h.held.len_le
    show NSIS_FILE_MAX - s.size < _
    omega
  rw [nsisSinkWrite, if_neg (by rw [h.notDone]; simp)]
  dsimp only
  rw [← hs₁, hskip, Nat.min_zero, List.drop_zero, nsisSinkPrefix_past fun hp => hplain (by
    rw [hs₁] at hp
    exact hp.1)]
  dsimp only
  rw [if_neg fun hp => hplain (by rw [hs₁] at hp; exact hp.1), if_neg (by
    rw [hs₁]
    exact fun hd => by rw [h.notDone] at hd; cases hd), hrefuse]
  exact ⟨s₁, rfl, by rw [hs₁]; exact hsize⟩

theorem keepAll_over {big : List UInt8} (hbig : big.length = NSIS_FILE_MAX) :
    (∃ s, nsisSinkWrites keepAll.sink [[0], big] = done (false, s) ∧ s.size = 1)
      ∧ ∃ s, nsisSinkWrites keepAll.sink [[0] ++ big] = done (false, s) ∧ s.size = 0 := by
  refine ⟨?_, ?_⟩
  · obtain ⟨ok, s₁, hwrite, hafter⟩ := @nsisSinkWrite_live _ keepAll [] [0] keepAll.live
    obtain ⟨rfl, -, -, hlive⟩ := hafter
    obtain ⟨s', hrefuse, hsize⟩ := @keepAll_refuses _ [0] big (hlive rfl) (by
      rw [hbig, List.length_singleton]
      omega)
    refine ⟨s', ?_, hsize⟩
    rw [nsisSinkWrites, hwrite, done_bind]
    dsimp only
    rw [if_pos rfl, nsisSinkWrites, hrefuse]
    rfl
  · obtain ⟨s', hrefuse, hsize⟩ := @keepAll_refuses _ [] ([0] ++ big) keepAll.live (by
      rw [List.length_append, hbig, List.length_singleton, List.length_nil]
      omega)
    refine ⟨s', ?_, hsize⟩
    rw [nsisSinkWrites, hrefuse]
    rfl

/-- Of a stream that does not fit, one chunk leaves nothing in the buffer and two leave the first of
them; and no chunk at all does not find out that there is nothing to keep. -/
theorem nsis_sink_partial :
    ((∃ s, nsisSinkWrites keepAll.sink [[0], List.replicate NSIS_FILE_MAX 0] = done (false, s)
        ∧ s.size = 1)
      ∧ ∃ s, nsisSinkWrites keepAll.sink [[0] ++ List.replicate NSIS_FILE_MAX 0] = done (false, s)
        ∧ s.size = 0)
    ∧ (nsisSinkWrites keepNone.sink [] = done (true, keepNone.sink) ∧ keepNone.sink.done = false
      ∧ ∃ s, nsisSinkWrites keepNone.sink [[]] = done (true, s) ∧ s.done = true) := by
  obtain ⟨ok, s, hrun, hspec⟩ := nsisSinkWrites_kept keepNone [] []
  obtain ⟨rfl, -, -, hdone⟩ := hspec
  exact ⟨keepAll_over List.length_replicate, rfl, rfl, s, hrun, hdone⟩

end FsRover
