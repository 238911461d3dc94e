import FsRover.Io.TibxNewest
import Mathlib.Data.List.GetD

/-!
# Reading an archive

A read goes through the table of extents, with the index of the last hit, and through a cache of
segments. Neither shows: what a read returns is what the table and the segments say. Together with
the table this settles which records a read of an archive shows the newest of.

## Main definitions

* `FsRover.tibxPlain` : the contents of a segment.
* `FsRover.TibxByte` : the byte at a place, from the newest record over it.
* `FsRover.TibxState.Sound` : the cache holds contents of segments.
* `FsRover.TibxNewestView` : the table and the reads give every byte to the newest record.
-/

namespace FsRover

open Guards History

/-! ### Segments -/

/-- The image on a file whose reads do not fail. -/
def TibxImage.calm (img : TibxImage) : TibxImage := { img with file := img.file.calm }

/-- The contents of segment `id`. -/
def tibxPlain (img : TibxImage) (id : ℕ) : Except GrubError (List UInt8) :=
  match tibxFindSegment img id with
  | none => .error ⟨.badDevice, s!"tibx segment {id} is not mapped"⟩
  | some seg => tibxLoadSegment img.calm 0 seg.page

theorem tibxPread_calm (img : TibxImage) (call call' off len : ℕ) :
    OkLe (tibxPread img call off len) (tibxPread img.calm call' off len) := by
  intro b hb
  cases hp : img.file.pread call off len ⟨.badDevice, "tibx image truncated"⟩ with
  | error e =>
    simp only [tibxPread, hp] at hb
    cases hb
  | ok b' =>
    simp only [tibxPread, hp] at hb
    obtain rfl := Except.ok.inj hb
    simp only [tibxPread, TibxImage.calm, GrubFile.pread_calm hp call']
    rfl

theorem tibxReadPages_calm (img : TibxImage) (call call' : ℕ) : ∀ fuel page rest,
    OkLe (tibxReadPages img call fuel page rest) (tibxReadPages img.calm call' fuel page rest)
  | fuel, page, 0 => by cases fuel <;> exact OkLe.refl _
  | 0, page, rest + 1 => OkLe.refl _
  | fuel + 1, page, rest + 1 =>
    OkLe.bind (tibxPread_calm img call call' _ _) fun _ =>
      OkLe.bind (tibxReadPages_calm img call call' fuel (page + 1) _) fun _ => OkLe.refl _

theorem tibxReadStored_calm (img : TibxImage) (call call' page zlen : ℕ) :
    OkLe (tibxReadStored img call page zlen) (tibxReadStored img.calm call' page zlen) :=
  OkLe.bind (tibxPread_calm img call call' _ _) fun _ =>
    OkLe.bind (tibxReadPages_calm img call call' _ _ _) fun _ => OkLe.refl _

/-- A segment that loads loads to the same bytes where no read fails. -/
theorem tibxLoadSegment_calm (img : TibxImage) (call call' page : ℕ) :
    OkLe (tibxLoadSegment img call page) (tibxLoadSegment img.calm call' page) :=
  OkLe.bind (OkLe.refl _) fun _ =>
    OkLe.bind (tibxPread_calm img call call' _ _) fun _ =>
      OkLe.bind (OkLe.refl _) fun _ => OkLe.bind (OkLe.refl _) fun _ =>
        OkLe.bind (OkLe.refl _) fun _ =>
          OkLe.bind (tibxReadStored_calm img call call' _ _) fun _ => OkLe.refl _

/-- Every segment in the cache has the contents the archive gives it. -/
def TibxState.Sound (img : TibxImage) (s : TibxState) : Prop :=
  ∀ c, some c ∈ s.cache → tibxPlain img c.id = .ok c.data

theorem TibxState.sound_init (img : TibxImage) : TibxState.init.Sound img := by
  intro c hc
  have hnone := List.eq_of_mem_replicate hc
  cases hnone

/-- Overwriting a slot with a sound segment keeps the cache sound. -/
theorem TibxState.Sound.set {img : TibxImage} {s s' : TibxState} (h : s.Sound img) {i : ℕ}
    {c : TibxCachedSeg} (hc : tibxPlain img c.id = .ok c.data)
    (hs' : s'.cache = s.cache.set i (some c)) : s'.Sound img := by
  intro d hd
  rw [hs'] at hd
  rcases List.mem_or_eq_of_mem_set hd with hd | hd
  · exact h d hd
  · rw [Option.some.inj hd]
    exact hc

theorem tibxCached_mem {id : ℕ} : ∀ {cache : List (Option TibxCachedSeg)} {i j : ℕ}
    {c : TibxCachedSeg}, tibxCached id i cache = some (j, c) → some c ∈ cache ∧ c.id = id
  | [], i, j, c, h => by cases h
  | none :: cs, i, j, c, h => by
    obtain ⟨hmem, hid⟩ := @tibxCached_mem _ cs _ _ _ h
    exact ⟨List.mem_cons_of_mem _ hmem, hid⟩
  | some d :: cs, i, j, c, h => by
    simp only [tibxCached] at h
    split_ifs at h with hd
    · cases h
      exact ⟨List.mem_cons_self, hd⟩
    · obtain ⟨hmem, hid⟩ := @tibxCached_mem _ cs _ _ _ h
      exact ⟨List.mem_cons_of_mem _ hmem, hid⟩

/-- `tibx_segment` keeps the cache sound, returns only what the archive gives, and on a file whose
reads do not fail returns all of it. -/
theorem tibxSegment_spec {img : TibxImage} {s : TibxState} (hs : s.Sound img) (id : ℕ) :
    (tibxSegment img s id).2.Sound img
      ∧ (∀ plain, (tibxSegment img s id).1 = .ok plain → tibxPlain img id = .ok plain)
      ∧ (img.calm = img → ∀ e plain, (tibxSegment img s id).1 = .error e →
        tibxPlain img id ≠ .ok plain) := by
  simp only [tibxSegment]
  cases hc : tibxCached id 0 s.cache with
  | some hit =>
    obtain ⟨i, c⟩ := hit
    obtain ⟨hmem, rfl⟩ := tibxCached_mem hc
    have hplain := hs c hmem
    simp only
    refine ⟨hs.set (i := i) (c := ⟨c.id, c.data, (s.clock + 1) % 2 ^ 32⟩) hplain rfl,
      fun plain h => ?_,
      fun _ e plain h => ?_⟩
    · exact (Except.ok.inj h) ▸ hplain
    · cases h
  | none =>
    simp only
    cases hf : tibxFindSegment img id with
    | none =>
      refine ⟨hs, fun plain h => ?_, fun _ e plain _ h => ?_⟩
      · cases h
      · rw [tibxPlain, hf] at h
        cases h
    | some seg =>
      simp only
      have hplain : tibxPlain img id = tibxLoadSegment img.calm 0 seg.page := by
        rw [tibxPlain, hf]
      cases hl : tibxLoadSegment img s.calls seg.page with
      | error e =>
        refine ⟨hs, fun plain h => ?_, fun hcalm e' plain _ h => ?_⟩
        · cases h
        · -- without failures the load does not depend on the call it is made in
          rw [hplain] at h
          have hok := tibxLoadSegment_calm img.calm 0 s.calls seg.page plain h
          rw [show img.calm.calm = img.calm from rfl, hcalm, hl] at hok
          cases hok
      | ok data =>
        have hdata := tibxLoadSegment_calm img s.calls 0 seg.page data hl
        refine ⟨hs.set (c := ⟨id, data, _⟩) (hplain.trans hdata) rfl, fun plain h => ?_,
          fun _ e plain h => ?_⟩
        · exact (Except.ok.inj h) ▸ hplain.trans hdata
        · cases h

/-! ### The table -/

section Table

variable {img : TibxImage}

theorem TibxImage.extent_mem {k : ℕ} (hk : k < img.ext.length) : img.extent k ∈ img.ext := by
  rw [TibxImage.extent, List.getD_eq_getElem _ _ hk]
  exact List.getElem_mem hk

theorem TibxImage.exists_extent {t : TibxExtent} (ht : t ∈ img.ext) :
    ∃ k < img.ext.length, img.extent k = t := by
  obtain ⟨k, hk, rfl⟩ := List.getElem_of_mem ht
  exact ⟨k, hk, List.getD_eq_getElem _ _ hk⟩

variable (hdisj : img.ext.Pairwise fun a b => a.off + a.len ≤ b.off)
include hdisj

/-- Entries with a smaller index end before the others start. -/
theorem TibxImage.extent_end_le {i j : ℕ} (hij : i < j) (hj : j < img.ext.length) :
    (img.extent i).off + (img.extent i).len ≤ (img.extent j).off := by
  have h := List.pairwise_iff_getElem.mp hdisj i j (by omega) hj hij
  rwa [TibxImage.extent, TibxImage.extent, List.getD_eq_getElem _ _ (by omega),
    List.getD_eq_getElem _ _ hj]

theorem TibxImage.extent_off_le {i j : ℕ} (hij : i ≤ j) (hj : j < img.ext.length) :
    (img.extent i).off ≤ (img.extent j).off := by
  rcases Nat.lt_or_eq_of_le hij with hlt | rfl
  · have h := TibxImage.extent_end_le hdisj hlt hj
    omega
  · exact Nat.le_refl _

/-- `tibx_find_extent` finds the last entry that starts at or before `off`, whatever index it kept
from before, and changes no more than that index. -/
theorem tibxFindExtent_spec (s : TibxState) (off : ℕ) :
    (tibxFindExtent img s off).2.cache = s.cache ∧
    match (tibxFindExtent img s off).1 with
    | none => 0 < img.ext.length → off < (img.extent 0).off
    | some k => k < img.ext.length ∧ (img.extent k).off ≤ off
        ∧ (k + 1 < img.ext.length → off < (img.extent (k + 1)).off) := by
  obtain ⟨p, hp⟩ : ∃ p : ℕ → Bool, p = fun i => decide ((img.extent i).off ≤ off) := ⟨_, rfl⟩
  have hmono : ∀ i j, i ≤ j → j < img.ext.length → p j = true → p i = true := by
    intro i j hij hj h
    have hle := TibxImage.extent_off_le hdisj hij hj
    simp only [hp, decide_eq_true_eq] at h ⊢
    omega
  simp only [tibxFindExtent, ← hp]
  split_ifs with hcur h0
  · exact ⟨rfl, hcur.1, hcur.2.1, fun h => hcur.2.2.resolve_left (by omega)⟩
  · refine ⟨rfl, fun hpos => ?_⟩
    have hnot := Bisect.not_of_le hmono (Nat.le_of_eq h0) hpos
    simpa [hp] using hnot
  · have hle := Bisect.search_le p img.ext.length
    have hpred := Bisect.pred_search (Nat.pos_of_ne_zero h0)
    refine ⟨rfl, by omega, by simpa [hp] using hpred, fun hlt => ?_⟩
    have hnot := Bisect.not_of_le hmono (i := Bisect.search p img.ext.length - 1 + 1) (by omega) hlt
    simpa [hp] using hnot

/-- Between an entry that ends at or before `lo` and its successor no entry holds a byte. -/
theorem TibxImage.hole_after {k lo hi : ℕ} (hk : k < img.ext.length)
    (hlo : (img.extent k).off + (img.extent k).len ≤ lo)
    (hhi : k + 1 < img.ext.length → hi ≤ (img.extent (k + 1)).off) {x : ℕ} (hx : lo ≤ x)
    (hx' : x < hi) : ∀ t ∈ img.ext, ¬ t.Has x := by
  intro t ht
  obtain ⟨j, hj, rfl⟩ := TibxImage.exists_extent ht
  unfold TibxExtent.Has
  rcases Nat.lt_trichotomy j k with hjk | rfl | hkj
  · have hend := TibxImage.extent_end_le hdisj hjk hk
    omega
  · omega
  · have hoff := TibxImage.extent_off_le hdisj (show k + 1 ≤ j from hkj) hj
    have hlt := hhi (by omega)
    omega

end Table

/-! ### The byte at a place -/

/-- `b` is the byte at `x` that the record `e` stands for. -/
def TibxRecordByte (img : TibxImage) (e : TibxExtent) (x : ℕ) (b : UInt8) : Prop :=
  if e.seg = 0 then b = 0
  else ∃ plain, tibxPlain img e.seg = .ok plain ∧ b = plain.getD (e.pos + (x - e.off)) 0

/-- `b` is the byte at `x` of a newest one of the records `es`, or zero where there is none. -/
def TibxNewestByte (img : TibxImage) (es : List TibxExtent) (x : ℕ) (b : UInt8) : Prop :=
  (∃ e, TibxNewest es x e ∧ TibxRecordByte img e x b) ∨ ((∀ e ∈ es, ¬ e.Has x) ∧ b = 0)

/-- The byte at `x` of the rebuilt partition table, where it lies over the archive. -/
def tibxOverlay (img : TibxImage) (x : ℕ) : Option UInt8 :=
  match img.synth with
  | none => none
  | some synth => if img.synthAt ≤ x then synth[x - img.synthAt]? else none

/-- `b` is the byte at `x` of the volume. -/
def TibxByte (img : TibxImage) (es : List TibxExtent) (x : ℕ) (b : UInt8) : Prop :=
  match tibxOverlay img x with
  | some v => b = v
  | none => TibxNewestByte img es x b

/-! ### Reads -/

/-- A table as `tibx_flatten_extents` leaves it: disjoint, with all ends and places in range. -/
structure TibxBounded (ts : List TibxExtent) : Prop where
  disjoint : ts.Pairwise fun a b => a.off + a.len ≤ b.off
  end_lt : ∀ t ∈ ts, t.off + t.len < 2 ^ 64
  pos_lt : ∀ t ∈ ts, t.pos + t.len < 2 ^ 32

theorem tibxTable_bounded {es : List TibxExtent} (hcol : ∀ e ∈ es, e.Collected) :
    TibxBounded (tibxTable es) := by
  have hspec := tibxTable_spec hcol
  refine ⟨hspec.disjoint, fun t ht => ?_, fun t ht => ?_⟩
  · obtain ⟨e, he, hpiece⟩ := hspec.piece t ht
    have hlt := (hcol e (mem_tibxSortExtents.mp he)).end_lt
    have heq := hpiece.end_eq
    omega
  · obtain ⟨e, he, hpiece⟩ := hspec.piece t ht
    have hcol := hcol e (mem_tibxSortExtents.mp he)
    have hlen := hcol.len_lt
    have hpos := hcol.pos_le
    have heq := hpiece.end_eq
    have hoff := hpiece.off_le
    have hat := hpiece.pos
    simp only [TIBX_EXTENT_WHOLE, TIBX_EXTENT_GRAIN] at hpos
    omega

/-- What a read from `off` on of `len` bytes that are not in the rebuilt table may answer. -/
structure TibxAnswers (img : TibxImage) (es : List TibxExtent) (off len : ℕ)
    (r : Except GrubError (List UInt8)) : Prop where
  ok : ∀ bs, r = .ok bs → bs.length ≤ len ∧ Agrees (TibxNewestByte img es) off bs
  progress : ∀ bs, r = .ok bs → img.ext ≠ [] → 0 < len → bs ≠ []
  error : ∀ e, r = .error e → img.calm = img → ∃ a, TibxNewest es off a ∧ a.seg ≠ 0
    ∧ ∀ plain, tibxPlain img a.seg = .ok plain → plain.length < a.pos + (off - a.off)

section Answers

variable {img : TibxImage} {es : List TibxExtent} {off len n : ℕ}

/-- Bytes that agree, as far as asked for and at least one, are an answer. -/
theorem TibxAnswers.of_agrees {bs : List UInt8} (hlen : bs.length ≤ len)
    (hpos : img.ext ≠ [] → 0 < len → 0 < bs.length) (h : Agrees (TibxNewestByte img es) off bs) :
    TibxAnswers img es off len (.ok bs) where
  ok := by
    rintro _ ⟨⟩
    exact ⟨hlen, h⟩
  progress := by
    rintro _ ⟨⟩ hne hlt rfl
    exact absurd (hpos hne hlt) (Nat.lt_irrefl 0)
  error := fun e he => by cases he

theorem TibxAnswers.of_error {e : GrubError} (h : img.calm = img → ∃ a, TibxNewest es off a
  ∧ a.seg ≠ 0
    ∧ ∀ plain, tibxPlain img a.seg = .ok plain → plain.length < a.pos + (off - a.off)) :
    TibxAnswers img es off len (.error e) where
  ok := fun bs h => by cases h
  progress := fun bs h => by cases h
  error := fun _ _ => h

theorem TibxAnswers.zeros (hn : n ≤ len) (hpos : img.ext ≠ [] → 0 < len → 0 < n)
    (h : ∀ x, off ≤ x → x < off + n → TibxNewestByte img es x 0) :
    TibxAnswers img es off len (.ok (List.replicate n 0)) := by
  refine .of_agrees (by simpa using hn) (by simpa using hpos) (agrees_iff_getElem.mpr ?_)
  intro i hi
  rw [List.length_replicate] at hi
  rw [List.getElem_replicate]
  exact h (off + i) (by omega) (by omega)

end Answers

section Extents

variable {img : TibxImage} {es : List TibxExtent} (hb : TibxBounded img.ext)
  (hflat : TibxFlat es img.ext) (hnew : TibxNewestWins es img.ext) (hsize : img.size < 2 ^ 64)
include hb hflat hnew

omit hb hnew in
theorem tibxNewestByte_hole {x : ℕ} (h : ∀ t ∈ img.ext, ¬ t.Has x) : TibxNewestByte img es x 0 :=
  Or.inr ⟨fun e he hx => by
    obtain ⟨t, ht, htx⟩ := (hflat.covers x).mpr ⟨e, he, hx⟩
    exact h t ht htx, rfl⟩

omit hb hflat in
/-- An entry of the table stands for the newest record over each of its bytes. -/
theorem tibxNewestByte_extent {t : TibxExtent} (ht : t ∈ img.ext) {x : ℕ} (hx : t.Has x)
    {b : UInt8} (h : TibxRecordByte img t x b) : TibxNewestByte img es x b := by
  obtain ⟨e, he, hseg, -, hpos⟩ := hnew x t ht hx
  refine Or.inl ⟨e, he, ?_⟩
  unfold TibxRecordByte at h ⊢
  rwa [hseg, hpos] at h

omit hflat in
theorem tibxCopy_spec {s : TibxState} (hs : s.Sound img) {t : TibxExtent} (ht : t ∈ img.ext)
    (hseg : t.seg ≠ 0) {off len n : ℕ} (hoff : t.Has off) (hn : n = min (t.off + t.len - off) len) :
    (tibxCopy img s t off n).2.Sound img
      ∧ TibxAnswers img es off len (tibxCopy img s t off n).1 := by
  obtain ⟨hle, hlt⟩ := hoff
  have hpos := hb.pos_lt t ht
  have hmod : (t.pos + (off - t.off)) % 2 ^ 32 = t.pos + (off - t.off) :=
    Nat.mod_eq_of_lt (by omega)
  -- the bytes of the segment are those of the newest record
  have hbyte : ∀ {plain : List UInt8}, tibxPlain img t.seg = .ok plain → ∀ i < n,
      TibxNewestByte img es (off + i) (plain.getD (t.pos + (off - t.off) + i) 0) := by
    intro plain hplain i hi
    refine tibxNewestByte_extent hnew ht ⟨by omega, by omega⟩ ?_
    rw [TibxRecordByte, if_neg hseg]
    exact ⟨plain, hplain, by rw [show t.pos + (off + i - t.off)
      = t.pos + (off - t.off) + i by omega]⟩
  obtain ⟨hsound, hok, herr⟩ := tibxSegment_spec hs t.seg
  obtain ⟨e, he, hes, -, hepos⟩ := hnew off t ht ⟨hle, hlt⟩
  simp only [tibxCopy]
  cases hr : tibxSegment img s t.seg with
  | mk r s' =>
    rw [hr] at hsound hok herr
    cases r with
    | error err =>
      refine ⟨hsound, .of_error fun hcalm => ?_⟩
      refine ⟨e, he, hes ▸ hseg, fun plain hplain => ?_⟩
      exact absurd (hes ▸ hplain) (herr hcalm err plain rfl)
    | ok seg =>
      have hplain := hok seg rfl
      simp only [hmod]
      split_ifs with hbad hpast
      · -- the entry starts past the end of its segment
        refine ⟨hsound, .of_error fun _ => ?_⟩
        refine ⟨e, he, hes ▸ hseg, fun plain hplain' => ?_⟩
        rw [← hes, hplain] at hplain'
        rw [← Except.ok.inj hplain', ← hepos]
        omega
      · refine ⟨hsound, .zeros (by omega) (by omega) fun x hx hxn => ?_⟩
        have hx' := hbyte hplain (x - off) (by omega)
        rwa [List.getD_eq_default _ _ (by omega), show off + (x - off) = x by omega] at hx'
      · refine ⟨hsound, .of_agrees ?_ ?_ (agrees_iff_getElem.mpr fun i hi => ?_)⟩
        · rw [length_slice]
          omega
        · rw [length_slice]
          omega
        · rw [length_slice] at hi
          rw [getElem_slice]
          exact hbyte hplain i (by omega)

omit hflat hnew in
include hsize in
/-- The gap behind an entry goes no further than its successor, and is not empty. -/
theorem tibxGap_spec {k off : ℕ} (hoff : off < img.size)
    (hnext : k + 1 < img.ext.length → off < (img.extent (k + 1)).off) :
    0 < tibxGap img (some k) off ∧ (k + 1 < img.ext.length →
      off + tibxGap img (some k) off ≤ (img.extent (k + 1)).off) := by
  simp only [tibxGap]
  split_ifs with hlt
  · have hbound := hb.end_lt _ (img.extent_mem hlt)
    have hnext := hnext hlt
    rw [sub64_of_le (Nat.le_of_lt hnext) (by omega)]
    omega
  · rw [sub64_of_le (Nat.le_of_lt hoff) hsize]
    omega

include hsize

/-- `tibx_read` behind the rebuilt partition table: the cache stays sound and the answer comes from
the newest records. -/
theorem tibxReadExtents_spec {s : TibxState} (hs : s.Sound img) {off len : ℕ}
    (hoff : off < img.size) :
    (tibxReadExtents img s off len).2.Sound img
      ∧ TibxAnswers img es off len (tibxReadExtents img s off len).1 := by
  obtain ⟨hcache, hfind⟩ := tibxFindExtent_spec hb.disjoint s off
  simp only [tibxReadExtents]
  generalize tibxFindExtent img s off = found at hcache hfind
  obtain ⟨nr, s'⟩ := found
  simp only at hcache hfind ⊢
  have hs' : s'.Sound img := fun c hc => hs c (hcache ▸ hc)
  cases nr with
  | none =>
    -- in front of the first extent
    refine ⟨hs', .zeros (Nat.min_le_right _ _) (fun hne hlt => ?_) fun x hx hlt => ?_⟩
    · have hpos := List.length_pos_iff.mpr hne
      have hbound := hb.end_lt _ (img.extent_mem hpos)
      have hlt' := hfind hpos
      simp only [tibxGap, sub64_of_le (Nat.le_of_lt hlt') (by omega)]
      omega
    · refine tibxNewestByte_hole hflat fun t ht => ?_
      obtain ⟨j, hj, rfl⟩ := TibxImage.exists_extent ht
      have hbound := hb.end_lt _ (img.extent_mem (k := 0) (by omega))
      have hlt' := hfind (by omega)
      have hle := TibxImage.extent_off_le hb.disjoint (Nat.zero_le j) hj
      simp only [tibxGap, sub64_of_le (Nat.le_of_lt hlt') (by omega)] at hlt
      unfold TibxExtent.Has
      omega
  | some k =>
    obtain ⟨hk, hle, hnext⟩ := hfind
    have hmem := img.extent_mem hk
    have hend := hb.end_lt _ hmem
    have hendAt : (img.extent k).endAt = (img.extent k).off + (img.extent k).len := u64_of_lt hend
    simp only [hendAt]
    split_ifs with hout hseg
    · -- behind the last extent that starts before
      obtain ⟨hpos, hgap⟩ := tibxGap_spec hb hsize hoff hnext
      refine ⟨hs', .zeros (Nat.min_le_right _ _) (fun _ hlt => by omega) fun x hx hlt => ?_⟩
      refine tibxNewestByte_hole hflat ?_
      exact TibxImage.hole_after hb.disjoint hk hout hgap hx (by omega)
    · rw [sub64_of_le (by omega) hend]
      refine ⟨hs', .zeros (Nat.min_le_right _ _) (by omega) fun x hx hlt => ?_⟩
      refine tibxNewestByte_extent hnew hmem ⟨by omega, by omega⟩ ?_
      rw [TibxRecordByte, if_pos hseg]
    · rw [sub64_of_le (by omega) hend]
      exact tibxCopy_spec hb hnew hs' hmem hseg ⟨hle, by omega⟩ rfl

/-! ### The rebuilt partition table over it -/

/-- What a read from `off` on of `len` bytes may answer. An error past the end of the volume says
so; any other one names a segment that cannot be had or ends before the byte. -/
structure TibxReadsAs (img : TibxImage) (es : List TibxExtent) (off len : ℕ)
    (r : Except GrubError (List UInt8)) : Prop where
  ok : ∀ bs, r = .ok bs → bs.length ≤ len ∧ Agrees (TibxByte img es) off bs
  progress : ∀ bs, r = .ok bs → img.ext ≠ [] → 0 < len → bs ≠ []
  error : ∀ e, r = .error e → img.calm = img → off < img.size → ∃ a, TibxNewest es off a ∧ a.seg ≠ 0
    ∧ ∀ plain, tibxPlain img a.seg = .ok plain → plain.length < a.pos + (off - a.off)

omit hb hflat hnew hsize in
/-- Where the rebuilt table does not lie, the archive answers. -/
theorem TibxAnswers.readsAs {off len len' : ℕ} {r : Except GrubError (List UInt8)}
    (h : TibxAnswers img es off len r) (hlen : len ≤ len') (hpos : 0 < len' → 0 < len)
    (hclear : ∀ x, off ≤ x → x < off + len → tibxOverlay img x = none) :
    TibxReadsAs img es off len' r where
  ok := by
    intro bs hbs
    obtain ⟨hbslen, hagree⟩ := h.ok bs hbs
    refine ⟨by omega, agrees_iff_getElem.mpr fun i hi => ?_⟩
    rw [TibxByte, hclear (off + i) (by omega) (by omega)]
    exact agrees_iff_getElem.mp hagree i hi
  progress := fun bs hbs hne hlt => h.progress bs hbs hne (hpos hlt)
  error := fun e he hcalm _ => h.error e he hcalm

/-- `tibx_read` keeps the cache sound and answers with the bytes of the volume. -/
theorem tibxRead_spec {s : TibxState} (hs : s.Sound img) (off len : ℕ) :
    (tibxRead img s off len).2.Sound img ∧ TibxReadsAs img es off len (tibxRead
      img s off len).1 := by
  by_cases hpast : img.size ≤ off
  · simp only [tibxRead, hpast, if_true]
    refine ⟨hs, ⟨fun bs h => ?_, fun bs h => ?_, fun e _ _ hoff => ?_⟩⟩
    · cases h
    · cases h
    · omega
  by_cases hlen : min len (img.size - off) = 0
  · simp only [tibxRead, hpast, hlen, if_true, if_false]
    refine ⟨hs, ⟨?_, ?_, fun e h => ?_⟩⟩
    · rintro _ ⟨⟩
      exact ⟨Nat.zero_le _, trivial⟩
    · rintro _ ⟨⟩ - hlt
      omega
    · cases h
  simp only [tibxRead, hpast, hlen, if_false]
  have hoff : off < img.size := by omega
  have hread : ∀ len', len' ≤ len → 0 < len' →
      (∀ x, off ≤ x → x < off + len' → tibxOverlay img x = none) →
      (tibxReadExtents img s off len').2.Sound img
        ∧ TibxReadsAs img es off len (tibxReadExtents img s off len').1 := by
    intro len' hle hpos hclear
    obtain ⟨hsound, hans⟩ := @tibxReadExtents_spec _ _ hb hflat hnew hsize _ hs _ len' hoff
    exact ⟨hsound, hans.readsAs hle (fun _ => hpos) hclear⟩
  cases hsynth : img.synth with
  | none => exact hread _ (by omega) (by omega) fun x _ _ => by simp [tibxOverlay, hsynth]
  | some synth =>
    simp only
    split_ifs with hbefore hin
    · refine hread _ (by omega) (by omega) fun x _ hx => ?_
      simp only [tibxOverlay, hsynth]
      rw [if_neg (by omega)]
    · refine ⟨hs, ⟨?_, ?_, fun e h => ?_⟩⟩
      · rintro _ ⟨⟩
        rw [length_slice]
        refine ⟨by omega, agrees_iff_getElem.mpr fun i hi => ?_⟩
        rw [length_slice] at hi
        have hlt : off + i - img.synthAt < synth.length := by omega
        rw [getElem_slice, TibxByte, tibxOverlay, hsynth]
        simp only [show img.synthAt ≤ off + i by omega, if_true, List.getElem?_eq_getElem hlt]
        rw [show off - img.synthAt + i = off + i - img.synthAt by omega,
          List.getD_eq_getElem _ _ hlt]
      · rintro _ ⟨⟩ - hlt hnil
        have hzero := congrArg List.length hnil
        rw [length_slice, List.length_nil] at hzero
        omega
      · cases h
    · refine hread _ (by omega) (by omega) fun x hx _ => ?_
      simp only [tibxOverlay, hsynth]
      rw [if_pos (by omega)]
      exact List.getElem?_eq_none (by omega)

end Extents

/-! ### When the newest record shows -/

/-- Everything an archive of the records `es` shows comes from the newest record: the table is
disjoint, covers the records and gives every byte to a newest one, and so do reads, whatever was
read before them. -/
structure TibxNewestView (es : List TibxExtent) : Prop where
  flat : TibxFlat es (tibxTable es)
  newest : TibxNewestWins es (tibxTable es)
  read : ∀ img : TibxImage, img.ext = tibxTable es → img.size < 2 ^ 64 →
    ∀ (rs : List (ℕ × ℕ)) (off len : ℕ), TibxReadsAs img es off len
      (tibxRead img (after (fun s r => tibxRead img s r.1 r.2) .init rs) off len).1
  fsRead : ∀ img : TibxImage, img.ext = tibxTable es → img.size < 2 ^ 64 →
    ∀ (rs : List (ℕ × ℕ)) (off len : ℕ) (bs : List UInt8),
      (grubTibxRead img (after (fun s r => grubTibxRead img s r.1 r.2) .init rs) off len).1
        = .ok bs →
        bs.length = len ∧ Agrees (TibxByte img es) off bs

/-- The first slice states 2048 bytes of ones, the second one 512 bytes of twos inside them. -/
def tibxShadowedSlices : List TibxExtent := [⟨0, 1, 1, 2048, 0⟩, ⟨512, 2, 2, 512, 0⟩]

/-- The header of a stored segment of `256 * n` bytes. -/
def tibxStoredHeader (n : UInt8) : Buf :=
  Buf.ofFields [(0, [TIBX_PAGE_MAGIC, TIBX_PAGE_DATA]), (TIBX_SG_MAGIC, [0x53, 0x47, 0, 1]),
    (TIBX_SG_LEN, [0, 0, n, 0]), (TIBX_SG_ZLEN, [0, 0, n, 0])]

/-- An archive of these two slices, without compression. -/
def tibxShadowedImage : TibxImage where
  file := ⟨2 * TIBX_PAGE_SIZE, fun x =>
    if x < TIBX_SG_PAYLOAD then tibxStoredHeader 8 x
    else if x < TIBX_PAGE_SIZE then 1
    else if x < TIBX_PAGE_SIZE + TIBX_SG_PAYLOAD then tibxStoredHeader 2 (x - TIBX_PAGE_SIZE)
    else 2, fun _ _ => none, by decide⟩
  pages := 2
  size := 2048
  ext := [⟨0, 1, 1, 2048, 0⟩]
  seg := [⟨1, 0⟩, ⟨2, 1⟩]
  synth := none
  synthAt := 0
  zstd := fun _ _ => none

end FsRover
