import FsRover.Io.Tbi
import FsRover.Lib.Extents

/-!
# The view of a TeraByte image

The blocks of a stream, read one after the other, say which bytes of the partition are stored and
where. Opening an image puts them into a table that ascends, and every successful read returns the
bytes they say, whatever was read before and whether or not it failed.

## Main definitions

* `FsRover.TbiStream` : the data blocks of a stream, from a place in it on.
* `FsRover.TbiStreams` : those of the partitions of an image.
* `FsRover.TbiByte` : the byte of the volume or disk.
* `FsRover.TbiState.Sound` : the cached block is that of its key.

## Main results

* `FsRover.tbiScanFrom_spec` : the scan finds the blocks of the stream.
* `FsRover.tbiFindExtent_spec` : the search finds the first extent that ends after the offset.
* `FsRover.tbiOpenImage_view` : every read of an image that opens shows the volume or disk.
-/

namespace FsRover

open Guards History Extents

/-! ### Decoders -/

theorem tbiTbStandardFrom_length {input : List UInt8} {outLen : ℕ} (fuel : ℕ) {bit : ℕ}
    {out : List UInt8} (h : (tbiTbStandardFrom input outLen fuel bit out).2 = true) :
    outLen ≤ (tbiTbStandardFrom input outLen fuel bit out).1.length := by
  induction fuel generalizing bit out with
  | zero => exact of_decide_eq_true h
  | succ fuel ih =>
    rw [tbiTbStandardFrom] at h ⊢
    by_cases hdone : outLen ≤ out.length
    · rw [if_pos hdone] at h ⊢
      exact hdone
    rw [if_neg hdone] at h ⊢
    cases hbit : tbiStdGetBits input bit 1 with
    | none =>
      rw [hbit] at h
      cases h
    | some token =>
      simp only [hbit] at h ⊢
      by_cases htoken : token.1 = 0
      · rw [if_pos htoken] at h ⊢
        cases hcode : tbiStdGetBits input token.2 8 with
        | none =>
          rw [hcode] at h
          cases h
        | some code =>
          simp only [hcode] at h ⊢
          exact ih h
      rw [if_neg htoken] at h ⊢
      cases hcode : tbiStdGamma input token.2 with
      | none =>
        rw [hcode] at h
        cases h
      | some code =>
        simp only [hcode] at h ⊢
        cases hdist : tbiStdDist input (code.1 + 1) code.2 with
        | none =>
          rw [hdist] at h
          cases h
        | some dist =>
          simp only [hdist] at h ⊢
          by_cases hbad : dist.1 = 0 ∨ out.length < dist.1 ∨ outLen - out.length < code.1 + 1
          · rw [if_pos hbad] at h
            cases h
          · rw [if_neg hbad] at h ⊢
            exact ih h

theorem tbiTbFastFrom_length {input : List UInt8} {outLen : ℕ} (fuel : ℕ) {ip : ℕ}
    {out : List UInt8} (h : (tbiTbFastFrom input outLen fuel ip out).2 = none) :
    outLen ≤ (tbiTbFastFrom input outLen fuel ip out).1.length := by
  induction fuel generalizing ip out with
  | zero =>
    rw [tbiTbFastFrom] at h ⊢
    by_cases hdone : outLen ≤ out.length
    · exact hdone
    · rw [if_neg hdone] at h
      cases h
  | succ fuel ih =>
    rw [tbiTbFastFrom] at h ⊢
    simp only at h ⊢
    by_cases hdone : outLen ≤ out.length
    · rw [if_pos hdone] at h ⊢
      exact hdone
    rw [if_neg hdone] at h ⊢
    by_cases hend : input.length ≤ ip
    · rw [if_pos hend] at h
      cases h
    rw [if_neg hend] at h ⊢
    generalize (input.getD ip 0).toNat = token at h ⊢
    by_cases hliteral : token / 2 ^ 7 % 2 = 0
    · rw [if_pos hliteral] at h ⊢
      revert h
      split
      · intro h
        cases h
      next len ip' hfield =>
        intro h
        by_cases hbad : input.length - ip' < len ∨ outLen - out.length < len
        · rw [if_pos hbad] at h
          cases h
        · rw [if_neg hbad] at h ⊢
          exact ih h
    · rw [if_neg hliteral] at h ⊢
      generalize (if token / 2 ^ 5 % 2 = 1 then tbiFastField true input (ip + 1)
        else some (token % 2 ^ 5, ip + 1)) = length at h ⊢
      cases length with
      | none => cases h
      | some length =>
        simp only at h ⊢
        cases hdist : tbiFastField (token / 2 ^ 6 % 2 = 1) input length.2 with
        | none =>
          rw [hdist] at h
          cases h
        | some dist =>
          simp only [hdist] at h ⊢
          by_cases hbad : out.length < dist.1 + 1 ∨ outLen - out.length < length.1 + 4
          · rw [if_pos hbad] at h
            cases h
          · rw [if_neg hbad] at h ⊢
            exact ih h

section Image

variable {inflate zstd : List UInt8 → ℕ → List UInt8 × Bool}

theorem tbiDecode_length {codec : TbiCodec} {stored : List UInt8} {plainLen : ℕ}
    (h : (tbiDecode inflate zstd codec stored plainLen).2 = none) :
    plainLen ≤ (tbiDecode inflate zstd codec stored plainLen).1.length := by
  have hwhole : ∀ {out : List UInt8 × Bool} {message : String},
      (if out.2 = true ∧ out.1.length = plainLen then none else some (tbiBadData message)) = none →
      plainLen ≤ out.1.length := by
    intro out message h
    by_cases hout : out.2 = true ∧ out.1.length = plainLen
    · exact Nat.le_of_eq hout.2.symm
    · rw [if_neg hout] at h
      cases h
  simp only [tbiDecode] at h ⊢
  by_cases hstored : stored.length = plainLen
  · rw [if_pos hstored] at h ⊢
    exact Nat.le_of_eq hstored.symm
  rw [if_neg hstored] at h ⊢
  cases codec with
  | standard =>
    simp only at h ⊢
    refine tbiTbStandardFrom_length plainLen ?_
    by_contra hfail
    have hfail' : ¬ (tbiTbStandard stored plainLen).2 = true := hfail
    rw [if_neg hfail'] at h
    cases h
  | deflate => exact hwhole h
  | tbFast => exact tbiTbFastFrom_length plainLen h
  | zstd => exact hwhole h

/-- What the block at `phys` decodes to. -/
def tbiContent (inflate zstd : List UInt8 → ℕ → List UInt8 × Bool) (img : TbiImage)
    (e : TbiExtent) : Option (List UInt8) :=
  let out := tbiDecode inflate zstd img.codec
    ((img.file.byte.from (e.phys + img.blockHeader)).take e.storedLen) e.len
  if out.2 = none then some out.1 else none

/-! ### Streams -/

/-- The data blocks of a stream from `phys` on, where the partition has come to `logical`. -/
inductive TbiStream (inflate zstd : List UInt8 → ℕ → List UInt8 × Bool) (file : GrubFile)
    (codec : TbiCodec) (blockHeader footer limit targetBase : ℕ) : ℕ → ℕ → List TbiExtent → Prop
  | done {logical : ℕ} : TbiStream inflate zstd file codec blockHeader footer limit targetBase
      footer logical []
  | data {phys logical len stored : ℕ} {es : List TbiExtent}
    (hheader : tbiHeaderLens (file.byte.from phys) = (len, stored)) (hpos : 0 < len)
    (hfit : phys + (blockHeader + stored) ≤ footer) (hsector : len % TBI_SECTOR = 0)
    (hlimit : logical + len ≤ limit)
    (rest : TbiStream inflate zstd file codec blockHeader footer limit targetBase
      (phys + (blockHeader + stored)) (logical + len) es) :
    TbiStream inflate zstd file codec blockHeader footer limit targetBase phys logical
      (⟨targetBase + logical, phys, len, stored⟩ :: es)
  | control {phys logical logical' len stored : ℕ} {es : List TbiExtent}
    (hheader : tbiHeaderLens (file.byte.from phys) = (len, stored))
    (hfit : phys + (blockHeader + stored) ≤ footer) (hsector : len % TBI_SECTOR ≠ 0)
    (hcontrol : tbiControl inflate zstd file.calm codec blockHeader phys len stored limit logical
      = .ok logical')
    (rest : TbiStream inflate zstd file codec blockHeader footer limit targetBase
      (phys + (blockHeader + stored)) logical' es) :
    TbiStream inflate zstd file codec blockHeader footer limit targetBase phys logical es

theorem tbiSparse_le {plain : Buf} {limit n i logical logical' : ℕ}
    (h : tbiSparse plain limit n i logical = .ok logical') (hle : logical ≤ limit) :
    logical ≤ logical' ∧ logical' ≤ limit := by
  induction n generalizing i logical with
  | zero =>
    obtain rfl := Except.ok.inj h
    exact ⟨Nat.le_refl _, hle⟩
  | succ n ih =>
    rw [tbiSparse] at h
    generalize lostLe32 plain i = word at h
    split_ifs at h with hend hbase hlimit
    · obtain rfl := Except.ok.inj h
      exact ⟨Nat.le_refl _, hle⟩
    · have hrest := ih h (by omega)
      omega

theorem tbiControl_le {file : GrubFile} {codec : TbiCodec} {blockHeader phys len stored limit logical
    logical' : ℕ} (h : tbiControl inflate zstd file codec blockHeader phys len stored limit logical
      = .ok logical') (hle : logical ≤ limit) : logical ≤ logical' ∧ logical' ≤ limit := by
  rw [tbiControl] at h
  obtain ⟨-, -, h⟩ := bind_eq_ok_iff.mp h
  rw [refuseIf_bind_eq_ok_iff] at h
  exact tbiSparse_le h.2 hle

/-- A block that can be read is read from the file without failures. -/
theorem tbiReadBlock_calm {file : GrubFile} {codec : TbiCodec} {blockHeader phys len stored : ℕ}
    {s : TbiState}
    (h : (tbiReadBlock inflate zstd file codec blockHeader s phys len stored).1 = .ok ()) :
    tbiReadBlock inflate zstd file.calm codec blockHeader s phys len stored
      = tbiReadBlock inflate zstd file codec blockHeader s phys len stored := by
  simp only [tbiReadBlock] at h ⊢
  cases hread : tbiPread file s.calls (phys + blockHeader) stored with
  | error e =>
    rw [hread] at h
    cases h
  | ok b =>
    have hcalm : tbiPread file.calm s.calls (phys + blockHeader) stored = .ok b :=
      GrubFile.pread_calm hread s.calls
    rw [hcalm]

theorem tbiControl_calm {file : GrubFile} {codec : TbiCodec} {blockHeader phys len stored limit
    logical logical' : ℕ}
    (h : tbiControl inflate zstd file codec blockHeader phys len stored limit logical
      = .ok logical') :
    tbiControl inflate zstd file.calm codec blockHeader phys len stored limit logical
      = .ok logical' := by
  have hcontrol := h
  rw [tbiControl] at hcontrol
  obtain ⟨⟨⟩, hread, -⟩ := bind_eq_ok_iff.mp hcontrol
  rw [tbiControl, tbiReadBlock_calm hread]
  exact h

/-- The scan finds the data blocks of the stream. -/
theorem tbiScanFrom_spec {file : GrubFile} {codec : TbiCodec} {blockHeader footer limit targetBase : ℕ}
    (fuel : ℕ) {phys logical : ℕ} {ext ext' : List TbiExtent} (hle : logical ≤ limit)
    (h : tbiScanFrom inflate zstd file codec blockHeader footer limit targetBase fuel phys logical ext
      = .ok ext') :
    ∃ es, ext' = ext ++ es
      ∧ TbiStream inflate zstd file codec blockHeader footer limit targetBase phys logical es := by
  have hend : ∀ {phys logical : ℕ} {ext : List TbiExtent}, (if phys = footer then
      (.ok ext : Except GrubError _) else .error (tbiBadData "TBI stream does not end at its footer"))
      = .ok ext' → ∃ es, ext' = ext ++ es
      ∧ TbiStream inflate zstd file codec blockHeader footer limit targetBase phys logical es := by
    intro phys logical ext h
    split_ifs at h with hphys
    obtain rfl := Except.ok.inj h
    exact ⟨[], (List.append_nil _).symm, hphys ▸ .done⟩
  induction fuel generalizing phys logical ext with
  | zero => exact hend h
  | succ fuel ih =>
    rw [tbiScanFrom] at h
    by_cases hin : phys < footer
    · rw [if_pos hin] at h
      obtain ⟨⟨len, stored⟩, hheader, h⟩ := bind_eq_ok_iff.mp h
      simp only at h
      rw [tbiReadBlockHeader] at hheader
      obtain ⟨hdr, hread, hheader⟩ := bind_eq_ok_iff.mp hheader
      rw [refuseIf_bind_eq_ok_iff] at hheader
      obtain ⟨hsizes, hlens⟩ := hheader
      obtain ⟨-, rfl⟩ := GrubFile.pread_mapError_eq_ok hread
      have hlens' := Except.ok.inj hlens
      rw [hlens'] at hsizes
      rw [refuseIf_bind_eq_ok_iff] at h
      obtain ⟨hfits, h⟩ := h
      have hfit : phys + (blockHeader + stored) ≤ footer := by omega
      by_cases hsector : len % TBI_SECTOR = 0
      · rw [if_pos hsector, refuseIf_bind_eq_ok_iff] at h
        obtain ⟨hlimit, h⟩ := h
        obtain ⟨added, hadd, h⟩ := bind_eq_ok_iff.mp h
        rw [tbiAddExtent] at hadd
        split_ifs at hadd
        obtain rfl := Except.ok.inj hadd
        obtain ⟨es, rfl, hstream⟩ := ih (by omega) h
        refine ⟨_ :: es, List.append_assoc _ _ _, .data hlens' ?_ hfit hsector ?_ hstream⟩
        · simp only at hsizes
          omega
        · omega
      · rw [if_neg hsector] at h
        obtain ⟨logical', hcontrol, h⟩ := bind_eq_ok_iff.mp h
        obtain ⟨es, rfl, hstream⟩ := ih (tbiControl_le hcontrol hle).2 h
        exact ⟨es, rfl, .control hlens' hfit hsector (tbiControl_calm hcontrol) hstream⟩
    · rw [if_neg hin] at h
      exact hend h

theorem TbiStream.ascending {file : GrubFile} {codec : TbiCodec}
    {blockHeader footer limit targetBase phys logical : ℕ} {es : List TbiExtent}
    (h : TbiStream inflate zstd file codec blockHeader footer limit targetBase phys logical es)
    (hle : logical ≤ limit) :
    Ascending TbiExtent.off TbiExtent.len (targetBase + logical) (targetBase + limit) es := by
  induction h with
  | done => exact Nat.add_le_add_left hle _
  | data hheader hpos hfit hsector hlimit rest ih =>
    refine ⟨Nat.le_refl _, hpos, ?_⟩
    simp only
    rw [Nat.add_assoc]
    exact ih hlimit
  | control hheader hfit hsector hcontrol rest ih =>
    obtain ⟨hlow, hhigh⟩ := tbiControl_le hcontrol hle
    exact (ih hhigh).mono (Nat.add_le_add_left hlow _) (Nat.le_refl _)

/-- An extent has the lengths of the block header, which lies before the footer. -/
theorem TbiStream.mem {file : GrubFile} {codec : TbiCodec}
    {blockHeader footer limit targetBase phys logical : ℕ} {es : List TbiExtent}
    (h : TbiStream inflate zstd file codec blockHeader footer limit targetBase phys logical es)
    (hpos : 0 < blockHeader) {e : TbiExtent} (he : e ∈ es) :
    tbiHeaderLens (file.byte.from e.phys) = (e.len, e.storedLen) ∧ e.phys < footer := by
  induction h with
  | done => cases he
  | data hheader _ hfit hsector hlimit rest ih =>
    rcases List.mem_cons.mp he with rfl | he
    · refine ⟨hheader, ?_⟩
      simp only
      omega
    · exact ih he
  | control hheader hfit hsector hcontrol rest ih => exact ih he

/-- The data blocks of the partitions of a disk. -/
inductive TbiStreams (inflate zstd : List UInt8 → ℕ → List UInt8 × Bool) (file : GrubFile)
    (codec : TbiCodec) (blockHeader : ℕ) : List TbiPart → List TbiExtent → Prop
  | nil : TbiStreams inflate zstd file codec blockHeader [] []
  | cons {part : TbiPart} {parts : List TbiPart} {es rest : List TbiExtent}
    (hfirst : TbiStream inflate zstd file codec blockHeader part.footer part.limit
      (part.firstLba * TBI_SECTOR) (part.streamBase + TBI_STREAM_HEADER) 0 es)
    (hrest : TbiStreams inflate zstd file codec blockHeader parts rest) :
    TbiStreams inflate zstd file codec blockHeader (part :: parts) (es ++ rest)

theorem tbiScanParts_spec {file : GrubFile} {codec : TbiCodec} {blockHeader : ℕ}
    {parts : List TbiPart} {ext ext' : List TbiExtent}
    (h : tbiScanParts inflate zstd file codec blockHeader parts ext = .ok ext') :
    ∃ es, ext' = ext ++ es ∧ TbiStreams inflate zstd file codec blockHeader parts es := by
  induction parts generalizing ext with
  | nil =>
    obtain rfl := Except.ok.inj h
    exact ⟨[], (List.append_nil _).symm, .nil⟩
  | cons part parts ih =>
    obtain ⟨added, hadd, h⟩ := bind_eq_ok_iff.mp h
    obtain ⟨es, rfl, hfirst⟩ := tbiScanFrom_spec _ (Nat.zero_le _) hadd
    obtain ⟨rest, rfl, hrest⟩ := ih h
    exact ⟨es ++ rest, List.append_assoc _ _ _, .cons hfirst hrest⟩

/-- The partitions ascend from `lo`, and their streams lie in the file. -/
def TbiPartsOk (fileSize : ℕ) : ℕ → List TbiPart → Prop
  | _, [] => True
  | lo, part :: parts => lo ≤ part.firstLba ∧ part.firstLba ≤ part.lastLba
    ∧ part.streamBase + TBI_STREAM_HEADER ≤ part.footer ∧ part.footer ≤ fileSize
    ∧ TbiPartsOk fileSize (part.lastLba + 1) parts

theorem tbiCheckParts_spec {fileSize : ℕ} {last : Option TbiPart} {parts : List TbiPart} {lo : ℕ}
    (h : tbiCheckParts fileSize last parts = .ok ())
    (hlo : ∀ part, parts.head? = some part → (∀ q ∈ last, q.lastLba < part.firstLba) →
      lo ≤ part.firstLba) : TbiPartsOk fileSize lo parts := by
  induction parts generalizing last lo with
  | nil => trivial
  | cons part parts ih =>
    rw [tbiCheckParts, refuseIf_bind_eq_ok_iff, refuseIf_bind_eq_ok_iff] at h
    obtain ⟨hpart, hlast, h⟩ := h
    refine ⟨hlo part rfl fun q hq => ?_, by omega, by omega, by omega, ih h fun next _ hnext => ?_⟩
    · exact Nat.not_le.mp fun hle => hlast ⟨q, hq, hle⟩
    · exact hnext part rfl

/-- The bytes of a partition are its sectors where they fit. -/
theorem TbiPart.limit_eq {part : TbiPart} {hi : ℕ} (hlast : part.lastLba < hi)
    (hfits : hi * TBI_SECTOR < 2 ^ 64) :
    part.limit = (part.lastLba - part.firstLba + 1) * TBI_SECTOR := by
  have hle : part.lastLba - part.firstLba + 1 ≤ hi := by omega
  have hsize : (part.lastLba - part.firstLba + 1) * TBI_SECTOR ≤ hi * TBI_SECTOR :=
    Nat.mul_le_mul_right _ hle
  have hsectors : part.lastLba - part.firstLba + 1 < 2 ^ 64 := by
    have hone : (part.lastLba - part.firstLba + 1) * 1
        ≤ (part.lastLba - part.firstLba + 1) * TBI_SECTOR := Nat.mul_le_mul_left _ (by decide)
    omega
  rw [TbiPart.limit, u64_of_lt hsectors, u64_of_lt (Nat.lt_of_le_of_lt hsize hfits)]

theorem TbiStreams.ascending {file : GrubFile} {codec : TbiCodec} {blockHeader : ℕ}
    {parts : List TbiPart} {es : List TbiExtent}
    (h : TbiStreams inflate zstd file codec blockHeader parts es) {fileSize lo hi : ℕ}
    (hparts : TbiPartsOk fileSize lo parts) (hhi : ∀ part ∈ parts, part.lastLba < hi)
    (hle : lo ≤ hi) (hfits : hi * TBI_SECTOR < 2 ^ 64) :
    Ascending TbiExtent.off TbiExtent.len (lo * TBI_SECTOR) (hi * TBI_SECTOR) es := by
  induction h generalizing lo with
  | nil => exact Nat.mul_le_mul_right _ hle
  | @cons part parts es rest hfirst hrest ih =>
    obtain ⟨hlo, hlba, -, -, hnext⟩ := hparts
    have hlast := hhi part List.mem_cons_self
    have hasc := hfirst.ascending (Nat.zero_le _)
    rw [TbiPart.limit_eq hlast hfits, ← Nat.add_mul,
      show part.firstLba + (part.lastLba - part.firstLba + 1) = part.lastLba + 1 by omega,
      Nat.add_zero] at hasc
    exact (hasc.mono (Nat.mul_le_mul_right _ hlo) (Nat.le_refl _)).append
      (ih hnext (fun p hp => hhi p (List.mem_cons_of_mem _ hp)) hlast)

theorem TbiStreams.mem {file : GrubFile} {codec : TbiCodec} {blockHeader : ℕ}
    {parts : List TbiPart} {es : List TbiExtent}
    (h : TbiStreams inflate zstd file codec blockHeader parts es) (hpos : 0 < blockHeader)
    {fileSize lo : ℕ} (hparts : TbiPartsOk fileSize lo parts) {e : TbiExtent} (he : e ∈ es) :
    tbiHeaderLens (file.byte.from e.phys) = (e.len, e.storedLen) ∧ e.phys < fileSize := by
  induction h generalizing lo with
  | nil => cases he
  | cons hfirst hrest ih =>
    obtain ⟨-, -, -, hfooter, hnext⟩ := hparts
    rcases List.mem_append.mp he with he | he
    · obtain ⟨hheader, hphys⟩ := hfirst.mem hpos he
      exact ⟨hheader, Nat.lt_of_lt_of_le hphys hfooter⟩
    · exact ih hnext he

theorem TbiStreams.inside {file : GrubFile} {codec : TbiCodec} {blockHeader : ℕ}
    {parts : List TbiPart} {es : List TbiExtent}
    (h : TbiStreams inflate zstd file codec blockHeader parts es) {e : TbiExtent} (he : e ∈ es) :
    ∃ part ∈ parts, part.firstLba * TBI_SECTOR ≤ e.off
      ∧ e.off + e.len ≤ part.firstLba * TBI_SECTOR + part.limit := by
  induction h with
  | nil => cases he
  | cons hfirst hrest ih =>
    rcases List.mem_append.mp he with he | he
    · obtain ⟨hlow, -, hhigh⟩ := (hfirst.ascending (Nat.zero_le _)).mem he
      rw [Nat.add_zero] at hlow
      exact ⟨_, List.mem_cons_self, hlow, hhigh⟩
    · obtain ⟨part, hpart, hbounds⟩ := ih he
      exact ⟨part, List.mem_cons_of_mem _ hpart, hbounds⟩

/-! ### The search -/

theorem TbiImage.extent_eq {img : TbiImage} {i : ℕ} {e : TbiExtent} (h : img.ext[i]? = some e) :
    img.extent i = e := by
  rw [TbiImage.extent, List.getD_eq_getElem?_getD, h, Option.getD_some]

theorem TbiImage.getElem?_extent {img : TbiImage} {i : ℕ} (h : i < img.ext.length) :
    img.ext[i]? = some (img.extent i) := by
  rw [TbiImage.extent, List.getD_eq_getElem?_getD, List.getElem?_eq_getElem h, Option.getD_some]

/-- With the cursor or without it, the search finds the first extent that ends after the offset. -/
theorem tbiFindExtent_spec {img : TbiImage} {lo hi : ℕ}
    (hasc : Ascending TbiExtent.off TbiExtent.len lo hi img.ext) (cur off : ℕ) :
    IsFirstAfter TbiExtent.off TbiExtent.len img.ext off (tbiFindExtent img cur off) := by
  have hmono : ∀ i j, i ≤ j → j < img.ext.length → (img.extent i).endAt ≤ (img.extent j).endAt :=
    fun i j hij hj => hasc.end_le hij (TbiImage.getElem?_extent (Nat.lt_of_le_of_lt hij hj))
      (TbiImage.getElem?_extent hj)
  -- an index with these two properties is the one
  have hindex : ∀ nr, nr ≤ img.ext.length → (∀ i, i < nr → (img.extent i).endAt ≤ off) →
      (nr < img.ext.length → off < (img.extent nr).endAt) →
      IsFirstAfter TbiExtent.off TbiExtent.len img.ext off nr := by
    intro nr hle hbefore hafter
    refine ⟨hle, fun i e hi he => ?_, fun e he => ?_⟩
    · have hend := hbefore i hi
      rwa [TbiImage.extent_eq he] at hend
    · have hend := hafter (List.getElem?_eq_some_iff.mp he).1
      rwa [TbiImage.extent_eq he] at hend
  have hsearch : IsFirstAfter TbiExtent.off TbiExtent.len img.ext off
      (Bisect.search (fun mid => (img.extent mid).endAt ≤ off) img.ext.length) := by
    refine hindex _ (Bisect.search_le _ _) (fun i hi => ?_) fun hlt => ?_
    · refine of_decide_eq_true (Bisect.pred_of_lt (fun i j hij hj h => ?_) hi)
      exact decide_eq_true (Nat.le_trans (hmono i j hij hj) (of_decide_eq_true h))
    · exact Nat.not_le.mp (of_decide_eq_false (Bisect.not_search hlt))
  rw [tbiFindExtent]
  by_cases hcur : cur < img.ext.length ∧ (img.extent cur).off ≤ off
  · rw [if_pos hcur]
    obtain ⟨hlt, hoff⟩ := hcur
    have hbefore : ∀ i, i < cur → (img.extent i).endAt ≤ off := by
      intro i hi
      have hle := List.pairwise_iff_getElem.mp hasc.pairwise i cur (Nat.lt_trans hi hlt) hlt hi
      have hi' := TbiImage.extent_eq (List.getElem?_eq_getElem (Nat.lt_trans hi hlt))
      have hcur' := TbiImage.extent_eq (List.getElem?_eq_getElem hlt)
      rw [TbiExtent.endAt, hi']
      rw [hcur'] at hoff
      exact Nat.le_trans hle hoff
    by_cases hin : off < (img.extent cur).endAt
    · rw [if_pos hin]
      exact hindex cur (Nat.le_of_lt hlt) hbefore fun _ => hin
    rw [if_neg hin]
    by_cases hnext : cur + 1 = img.ext.length ∨ off < (img.extent (cur + 1)).endAt
    · rw [if_pos hnext]
      refine hindex (cur + 1) hlt (fun i hi => ?_) fun hlt' => ?_
      · rcases Nat.lt_succ_iff_lt_or_eq.mp hi with hi | rfl
        · exact hbefore i hi
        · exact Nat.not_lt.mp hin
      · exact hnext.resolve_left (Nat.ne_of_lt hlt')
    · rw [if_neg hnext]
      exact hsearch
  · rw [if_neg hcur]
    exact hsearch

/-! ### Reading -/

/-- The byte that the block streams say is at `x`: that of the data block that covers it, else
zero. -/
def TbiVolumeByte (inflate zstd : List UInt8 → ℕ → List UInt8 × Bool) (img : TbiImage) (x : ℕ)
    (b : UInt8) : Prop :=
  (∃ e ∈ img.ext, Covers TbiExtent.off TbiExtent.len e x
    ∧ ∃ bs, tbiContent inflate zstd img e = some bs ∧ bs[x - e.off]? = some b)
  ∨ (∀ e ∈ img.ext, ¬ Covers TbiExtent.off TbiExtent.len e x) ∧ b = 0

/-- The byte at `x` of the volume, or of the disk behind its GPT. -/
def TbiByte (inflate zstd : List UInt8 → ℕ → List UInt8 × Bool) (img : TbiImage) (x : ℕ)
    (b : UInt8) : Prop :=
  match img.synth with
  | none => TbiVolumeByte inflate zstd img x b
  | some synth => if x < TBI_SYNTH_LEN then b = synth x else TbiVolumeByte inflate zstd img x b

/-- The table of extents of an image that opens. -/
structure TbiTable (img : TbiImage) : Prop where
  ascending : Ascending TbiExtent.off TbiExtent.len 0 img.size img.ext
  header : ∀ e ∈ img.ext, tbiHeaderLens (img.file.byte.from e.phys) = (e.len, e.storedLen)
  phys_lt : ∀ e ∈ img.ext, e.phys < img.file.size

/-- The buffer holds what the extent decodes to. -/
def TbiHolds (inflate zstd : List UInt8 → ℕ → List UInt8 × Bool) (img : TbiImage) (plain : Buf)
    (e : TbiExtent) : Prop :=
  ∃ bs, tbiContent inflate zstd img e = some bs ∧ ∀ i < e.len, bs[i]? = some (plain i)

/-- The cached block is that of its key. -/
def TbiState.Sound (inflate zstd : List UInt8 → ℕ → List UInt8 × Bool) (img : TbiImage)
    (s : TbiState) : Prop :=
  ∀ e ∈ img.ext, e.phys = s.cachedPhys → TbiHolds inflate zstd img s.plain e

theorem TbiTable.holds_congr {img : TbiImage} (ht : TbiTable img) {plain : Buf} {e e' : TbiExtent}
    (he : e ∈ img.ext) (he' : e' ∈ img.ext) (hphys : e'.phys = e.phys)
    (h : TbiHolds inflate zstd img plain e) : TbiHolds inflate zstd img plain e' := by
  have hheader := ht.header e' he'
  rw [hphys, ht.header e he] at hheader
  obtain ⟨hlen, hstored⟩ := Prod.mk.inj hheader
  obtain ⟨bs, hcontent, hbytes⟩ := h
  refine ⟨bs, ?_, fun i hi => hbytes i (by omega)⟩
  rw [← hcontent, tbiContent, tbiContent, hphys, hlen, hstored]

theorem TbiTable.phys_ne {img : TbiImage} (ht : TbiTable img) {e : TbiExtent} (he : e ∈ img.ext) :
    e.phys ≠ TBI_NO_CACHE := by
  have hlt := ht.phys_lt e he
  have hsize := img.file.size_lt
  rw [TBI_NO_CACHE]
  omega

theorem TbiState.sound_of_no_cache {img : TbiImage} (ht : TbiTable img) {s : TbiState}
    (h : s.cachedPhys = TBI_NO_CACHE) : s.Sound inflate zstd img :=
  fun _ he hphys => absurd (hphys.trans h) (ht.phys_ne he)

/-- A block that is read retires the cached one, and where it decodes the buffer holds it. -/
theorem tbiReadBlock_spec {img : TbiImage} {s : TbiState} {e : TbiExtent} :
    (tbiReadBlock inflate zstd img.file img.codec img.blockHeader s e.phys e.len e.storedLen).2.cachedPhys
        = TBI_NO_CACHE
      ∧ ((tbiReadBlock inflate zstd img.file img.codec img.blockHeader s e.phys e.len e.storedLen).1
          = .ok () →
        TbiHolds inflate zstd img (tbiReadBlock inflate zstd img.file img.codec img.blockHeader s e.phys
          e.len e.storedLen).2.plain e) := by
  simp only [tbiReadBlock]
  cases hread : tbiPread img.file s.calls (e.phys + img.blockHeader) e.storedLen with
  | error err => exact ⟨rfl, fun h => by cases h⟩
  | ok b =>
    refine ⟨rfl, fun h => ?_⟩
    obtain ⟨-, rfl⟩ := GrubFile.pread_eq_ok hread
    simp only at h ⊢
    generalize hout : tbiDecode inflate zstd img.codec
      ((img.file.byte.from (e.phys + img.blockHeader)).take e.storedLen) e.len = out at h ⊢
    have hnone : out.2 = none := by
      cases hdecode : out.2 with
      | none => rfl
      | some err =>
        rw [hdecode] at h
        cases h
    have hlen : e.len ≤ out.1.length := by
      rw [← hout] at hnone ⊢
      exact tbiDecode_length hnone
    refine ⟨out.1, ?_, fun i hi => ?_⟩
    · simp only [tbiContent, hout]
      exact if_pos hnone
    · have hlt : i < out.1.length := by omega
      rw [Buf.write_of_lt hlt, List.getElem?_eq_getElem hlt, List.getD_eq_getElem?_getD,
        List.getElem?_eq_getElem hlt, Option.getD_some]

theorem TbiHolds.agrees {img : TbiImage} {plain : Buf} {e : TbiExtent} (he : e ∈ img.ext)
    (h : TbiHolds inflate zstd img plain e) {off n : ℕ} (hoff : e.off ≤ off)
    (hn : off + n ≤ e.endAt) :
    Agrees (TbiVolumeByte inflate zstd img) off ((plain.from (off - e.off)).take n) := by
  obtain ⟨bs, hcontent, hbytes⟩ := h
  rw [TbiExtent.endAt] at hn
  rw [slice_from]
  refine agrees_iff_getElem.mpr fun i hi => ?_
  rw [length_slice] at hi
  rw [getElem_slice]
  refine .inl ⟨e, he, ⟨by omega, by omega⟩, bs, hcontent, ?_⟩
  rw [show off + i - e.off = off - e.off + i by omega]
  exact hbytes _ (by omega)

/-- The part of `tbi_read` inside an extent keeps the cache sound and returns its bytes. -/
theorem tbiReadExtent_spec {img : TbiImage} (ht : TbiTable img) {s : TbiState}
    (hs : s.Sound inflate zstd img) {nr off : ℕ} {e : TbiExtent} (hnr : img.ext[nr]? = some e)
    (hoff : Covers TbiExtent.off TbiExtent.len e off) (len : ℕ) :
    (tbiReadExtent inflate zstd img s nr off len).2.Sound inflate zstd img
      ∧ ∀ bs, (tbiReadExtent inflate zstd img s nr off len).1 = .ok bs → bs.length ≤ len
        ∧ (0 < len → bs ≠ []) ∧ Agrees (TbiVolumeByte inflate zstd img) off bs := by
  have he : e ∈ img.ext := List.mem_of_getElem? hnr
  obtain ⟨hfirst, hlast⟩ := hoff
  have hcopy : ∀ {plain : Buf}, TbiHolds inflate zstd img plain e → ∀ bs,
      (.ok ((plain.from (off - e.off)).take (min (e.len - (off - e.off)) len)) :
        Except GrubError (List UInt8)) = .ok bs → bs.length ≤ len
        ∧ (0 < len → bs ≠ []) ∧ Agrees (TbiVolumeByte inflate zstd img) off bs := by
    intro plain hholds bs hbs
    obtain rfl := Except.ok.inj hbs
    refine ⟨?_, fun hpos hnil => ?_, hholds.agrees he hfirst ?_⟩
    · rw [Buf.take, length_slice]
      omega
    · have hzero := congrArg List.length hnil
      rw [Buf.take, length_slice, List.length_nil] at hzero
      omega
    · rw [TbiExtent.endAt]
      omega
  simp only [tbiReadExtent, TbiImage.extent_eq hnr]
  by_cases hcached : s.cachedPhys = e.phys
  · rw [if_pos hcached]
    exact ⟨hs, hcopy (hs e he hcached.symm)⟩
  rw [if_neg hcached]
  obtain ⟨hcache, hholds⟩ := @tbiReadBlock_spec inflate zstd img { s with cur := nr } e
  generalize tbiReadBlock inflate zstd img.file img.codec img.blockHeader { s with cur := nr } e.phys
    e.len e.storedLen = r at hcache hholds ⊢
  obtain ⟨_ | ⟨⟩, s'⟩ := r
  · exact ⟨TbiState.sound_of_no_cache ht hcache, fun bs h => by cases h⟩
  · exact ⟨fun e' he' hphys => ht.holds_congr he he' hphys (hholds rfl), hcopy (hholds rfl)⟩

/-- A read behind the generated GPT keeps the cache sound and returns the bytes of the streams. -/
theorem tbiReadVolume_spec {img : TbiImage} (ht : TbiTable img) {s : TbiState}
    (hs : s.Sound inflate zstd img) {off len : ℕ} (hoff : off < img.size) :
    (tbiReadVolume inflate zstd img s off len).2.Sound inflate zstd img
      ∧ ∀ bs, (tbiReadVolume inflate zstd img s off len).1 = .ok bs → bs.length ≤ len
        ∧ (0 < len → bs ≠ []) ∧ Agrees (TbiVolumeByte inflate zstd img) off bs := by
  have hfind := tbiFindExtent_spec ht.ascending s.cur off
  rw [tbiReadVolume]
  generalize tbiFindExtent img s.cur off = nr at hfind
  simp only
  by_cases hgap : nr = img.ext.length ∨ off < (img.extent nr).off
  · -- the offset is in a gap, or behind the last extent
    rw [if_pos hgap]
    refine ⟨hs, fun bs hbs => ?_⟩
    obtain rfl := Except.ok.inj hbs
    have hend : off < if nr < img.ext.length then (img.extent nr).off else img.size := by
      split_ifs with hlt
      · exact hgap.resolve_left (Nat.ne_of_lt hlt)
      · exact hoff
    refine ⟨?_, fun hpos hnil => ?_, agrees_iff_getElem.mpr fun i hi => ?_⟩
    · rw [List.length_replicate]
      omega
    · have hzero := congrArg List.length hnil
      rw [List.length_replicate, List.length_nil] at hzero
      omega
    · rw [List.length_replicate] at hi
      rw [List.getElem_replicate]
      refine .inr ⟨fun e he => hfind.not_covered ht.ascending (Nat.le_add_right off i) ?_ he, rfl⟩
      intro e he
      have hlt := (List.getElem?_eq_some_iff.mp he).1
      rw [if_pos hlt, TbiImage.extent_eq he] at hi
      omega
  · rw [if_neg hgap]
    rw [not_or, Nat.not_lt] at hgap
    have hlt : nr < img.ext.length := Nat.lt_of_le_of_ne hfind.le_length hgap.1
    have hnr := TbiImage.getElem?_extent hlt
    exact tbiReadExtent_spec ht hs hnr ⟨hgap.2, hfind.after _ hnr⟩ len

/-- `tbi_read` keeps the cache sound and returns the bytes of the volume or disk. -/
theorem tbiRead_spec {img : TbiImage} (ht : TbiTable img) {s : TbiState}
    (hs : s.Sound inflate zstd img) (off len : ℕ) :
    (tbiRead inflate zstd img s off len).2.Sound inflate zstd img
      ∧ ∀ bs, (tbiRead inflate zstd img s off len).1 = .ok bs → bs.length ≤ len
        ∧ (0 < len → bs ≠ []) ∧ Agrees (TbiByte inflate zstd img) off bs := by
  rw [tbiRead]
  by_cases hpast : img.size ≤ off
  · rw [if_pos hpast]
    exact ⟨hs, fun bs h => by cases h⟩
  rw [if_neg hpast]
  simp only
  by_cases hlen : min len (img.size - off) = 0
  · rw [if_pos hlen]
    refine ⟨hs, fun bs h => ?_⟩
    obtain rfl := Except.ok.inj h
    exact ⟨Nat.zero_le _, fun hpos => by omega, trivial⟩
  rw [if_neg hlen]
  obtain ⟨hsound, hread⟩ := @tbiReadVolume_spec inflate zstd img ht s hs off
    (min len (img.size - off)) (Nat.not_le.mp hpast)
  have hvolume : (∀ x b, off ≤ x → TbiVolumeByte inflate zstd img x b → TbiByte inflate zstd img x b) →
      ∀ bs, (tbiReadVolume inflate zstd img s off (min len (img.size - off))).1 = .ok bs →
        bs.length ≤ len ∧ (0 < len → bs ≠ []) ∧ Agrees (TbiByte inflate zstd img) off bs := by
    intro hbyte bs hbs
    obtain ⟨hle, hne, hagree⟩ := hread bs hbs
    refine ⟨by omega, fun _ => hne (by omega), agrees_iff_getElem.mpr fun i hi => ?_⟩
    exact hbyte _ _ (Nat.le_add_right off i) (agrees_iff_getElem.mp hagree i hi)
  cases hsynth : img.synth with
  | none =>
    refine ⟨hsound, hvolume fun x b _ hb => ?_⟩
    rw [TbiByte, hsynth]
    exact hb
  | some synth =>
    simp only
    by_cases hgpt : off < TBI_SYNTH_LEN
    · rw [if_pos hgpt]
      refine ⟨hs, fun bs hbs => ?_⟩
      obtain rfl := Except.ok.inj hbs
      rw [slice_from]
      refine ⟨?_, fun hpos hnil => ?_, agrees_iff_getElem.mpr fun i hi => ?_⟩
      · rw [length_slice]
        omega
      · have hzero := congrArg List.length hnil
        rw [length_slice, List.length_nil] at hzero
        omega
      · rw [length_slice] at hi
        rw [TbiByte, hsynth, getElem_slice]
        exact (if_pos (show off + i < TBI_SYNTH_LEN by omega)).mpr rfl
    · rw [if_neg hgpt]
      refine ⟨hsound, hvolume fun x b hx hb => ?_⟩
      rw [TbiByte, hsynth]
      simp only
      rw [if_neg (by omega)]
      exact hb

/-! ### Opening -/

theorem tbiSortPart_perm (part : TbiPart) (parts : List TbiPart) :
    (tbiSortPart part parts).Perm (part :: parts) := by
  induction parts with
  | nil => exact List.Perm.refl _
  | cons q qs ih =>
    rw [tbiSortPart]
    split_ifs
    · exact (List.Perm.cons q ih).trans (List.Perm.swap part q qs)
    · exact List.Perm.refl _

theorem tbiSortParts_perm (parts : List TbiPart) : (tbiSortParts parts).Perm parts := by
  have hfold : ∀ sorted : List TbiPart,
      (parts.foldl (fun sorted part => tbiSortPart part sorted) sorted).Perm (parts ++ sorted) := by
    induction parts with
    | nil => exact fun sorted => List.Perm.refl _
    | cons part parts ih =>
      intro sorted
      refine (ih (tbiSortPart part sorted)).trans ?_
      exact (List.Perm.append_left parts (tbiSortPart_perm part sorted)).trans List.perm_middle
  have hall := hfold []
  rw [List.append_nil] at hall
  exact (List.reverse_perm _).trans hall

/-- What an image that opens describes: one volume, or a disk behind a GPT. -/
structure TbiDescribed (inflate zstd : List UInt8 → ℕ → List UInt8 × Bool) (img : TbiImage) :
    Prop where
  parts : TbiPartsOk img.file.size 0 img.parts
  volume : ∀ part, img.parts = [part] → img.synth = none ∧ img.size = part.limit
    ∧ TbiStream inflate zstd img.file img.codec img.blockHeader part.footer part.limit 0
      (part.streamBase + TBI_STREAM_HEADER) 0 img.ext
  disk : (∀ part, img.parts ≠ [part]) → ∃ last, img.parts.getLast? = some last
    ∧ img.synth = some (tbiBuildGpt img.parts (last.lastLba + TBI_GPT_FIRST_USABLE))
    ∧ img.size = (last.lastLba + TBI_GPT_FIRST_USABLE) * TBI_SECTOR ∧ img.size < 2 ^ 64
    ∧ TbiStreams inflate zstd img.file img.codec img.blockHeader img.parts img.ext
  header : 0 < img.blockHeader

theorem TbiPartsOk.le_last {fileSize lo : ℕ} {parts : List TbiPart} {last : TbiPart}
    (h : TbiPartsOk fileSize lo parts) (hlast : parts.getLast? = some last) :
    ∀ part ∈ parts, part.lastLba ≤ last.lastLba := by
  induction parts generalizing lo with
  | nil => exact fun part hp => by cases hp
  | cons part parts ih =>
    intro p hp
    cases parts with
    | nil =>
      have hsame : part = last := Option.some.inj hlast
      rw [List.mem_singleton.mp hp]
      exact Nat.le_of_eq (congrArg TbiPart.lastLba hsame)
    | cons next rest =>
      have hrest := ih h.2.2.2.2 (by rwa [List.getLast?_cons_cons] at hlast)
      rcases List.mem_cons.mp hp with rfl | hp
      · have hnext := hrest next List.mem_cons_self
        have hstart := h.2.2.2.2.1
        have hlba := h.2.2.2.2.2.1
        omega
      · exact hrest p hp

/-- The table of an image that opens ascends, inside its size. -/
theorem TbiDescribed.table {img : TbiImage} (h : TbiDescribed inflate zstd img) : TbiTable img := by
  by_cases hone : ∃ part, img.parts = [part]
  · obtain ⟨part, hpart⟩ := hone
    obtain ⟨-, hsize, hstream⟩ := h.volume part hpart
    have hparts := h.parts
    rw [hpart] at hparts
    have hasc := hstream.ascending (Nat.zero_le _)
    rw [Nat.add_zero, Nat.zero_add, ← hsize] at hasc
    refine ⟨hasc, fun e he => (hstream.mem h.header he).1, fun e he => ?_⟩
    exact Nat.lt_of_lt_of_le (hstream.mem h.header he).2 hparts.2.2.2.1
  · obtain ⟨last, hlast, -, hsize, hfits, hstreams⟩ := h.disk fun part hp => hone ⟨part, hp⟩
    have hle := h.parts.le_last hlast
    rw [hsize] at hfits
    have hasc := hstreams.ascending h.parts
      (fun part hp => show part.lastLba < last.lastLba + TBI_GPT_FIRST_USABLE by
        have hpart := hle part hp
        rw [TBI_GPT_FIRST_USABLE]
        omega) (Nat.zero_le _) hfits
    rw [Nat.zero_mul, ← hsize] at hasc
    exact ⟨hasc, fun e he => (hstreams.mem h.header h.parts he).1,
      fun e he => (hstreams.mem h.header h.parts he).2⟩

theorem tbiOpenImage_described {file : GrubFile} {img : TbiImage}
    (h : tbiOpenImage inflate zstd file = .ok img) :
    (∃ m, tbiMetaFrom file TBI_META_RECORDS_MAX 0
      { metaLimit := file.size, features := 0, haveHead := false, haveCrypt := false, parts := [] }
        = .ok m ∧ img.parts.Perm m.parts ∧ img.codec = tbiCodecOf m.features)
      ∧ img.file = file ∧ TbiDescribed inflate zstd img := by
  rw [tbiOpenImage] at h
  obtain ⟨m, hm, h⟩ := bind_eq_ok_iff.mp h
  rw [refuseIf_bind_eq_ok_iff, refuseIf_bind_eq_ok_iff] at h
  obtain ⟨hparts, -, h⟩ := h
  obtain ⟨⟨⟩, hcheck, h⟩ := bind_eq_ok_iff.mp h
  have hok : TbiPartsOk file.size 0 (tbiSortParts m.parts) :=
    tbiCheckParts_spec hcheck fun _ _ _ => Nat.zero_le _
  have hne : tbiSortParts m.parts ≠ [] := fun hnil =>
    hparts (.inr (List.Perm.eq_nil ((tbiSortParts_perm m.parts).symm.trans (hnil ▸ List.Perm.refl _))))
  have hperm := tbiSortParts_perm m.parts
  have hheader : 0 < if m.features / 2 ^ 7 % 2 = 1 then 8 else 4 := by
    split_ifs <;> decide
  generalize tbiSortParts m.parts = parts at h hok hne hperm
  cases parts with
  | nil => exact absurd rfl hne
  | cons part rest =>
    cases rest with
    | nil =>
      simp only at h
      rw [refuseIf_bind_eq_ok_iff] at h
      obtain ⟨hsectors, h⟩ := h
      obtain ⟨ext, hext, h⟩ := bind_eq_ok_iff.mp h
      obtain ⟨es, rfl, hstream⟩ := tbiScanFrom_spec _ (Nat.zero_le _) hext
      obtain rfl := Except.ok.inj h
      refine ⟨⟨m, hm, hperm, rfl⟩, rfl, hok, fun part' hpart => ?_, fun hnot => ?_, hheader⟩
      · obtain rfl := List.head_eq_of_cons_eq hpart
        refine ⟨rfl, ?_, hstream⟩
        have hfits : u64 (part.lastLba - part.firstLba + 1) * TBI_SECTOR < 2 ^ 64 := by
          rw [TBI_SECTOR] at hsectors ⊢
          omega
        exact (u64_of_lt hfits).symm
      · exact absurd rfl (hnot part)
    | cons next rest =>
      simp only at h
      rw [refuseIf_bind_eq_ok_iff, refuseIf_bind_eq_ok_iff] at h
      obtain ⟨-, hsectors, h⟩ := h
      obtain ⟨ext, hext, h⟩ := bind_eq_ok_iff.mp h
      obtain ⟨es, rfl, hstreams⟩ := tbiScanParts_spec hext
      obtain rfl := Except.ok.inj h
      obtain ⟨last, hlast⟩ : ∃ last, (part :: next :: rest).getLast? = some last :=
        ⟨_, List.getLast?_eq_some_getLast (List.cons_ne_nil _ _)⟩
      have hlba : ((part :: next :: rest).getLast?.map TbiPart.lastLba).getD 0 = last.lastLba := by
        rw [hlast]
        rfl
      refine ⟨⟨m, hm, hperm, rfl⟩, rfl, hok, fun part' hpart => ?_, fun _ => ?_, hheader⟩
      · cases hpart
      · refine ⟨last, hlast, ?_, ?_, ?_, hstreams⟩
        · simp only [hlba]
        · simp only [hlba]
        · simp only
          rw [TBI_SECTOR] at hsectors ⊢
          omega

/-- Where a partition starts in the volume or on the disk. -/
def TbiImage.base (img : TbiImage) (part : TbiPart) : ℕ :=
  if img.synth.isSome then part.firstLba * TBI_SECTOR else 0

theorem TbiDescribed.inside {img : TbiImage} (h : TbiDescribed inflate zstd img) {e : TbiExtent}
    (he : e ∈ img.ext) : ∃ part ∈ img.parts, img.base part ≤ e.off
      ∧ e.off + e.len ≤ img.base part + part.limit := by
  by_cases hone : ∃ part, img.parts = [part]
  · obtain ⟨part, hpart⟩ := hone
    obtain ⟨hsynth, -, hstream⟩ := h.volume part hpart
    obtain ⟨-, -, hhigh⟩ := (hstream.ascending (Nat.zero_le _)).mem he
    refine ⟨part, hpart ▸ List.mem_singleton_self part, ?_⟩
    rw [TbiImage.base, hsynth, if_neg (by decide)]
    exact ⟨Nat.zero_le _, hhigh⟩
  · obtain ⟨last, -, hsynth, -, -, hstreams⟩ := h.disk fun part hp => hone ⟨part, hp⟩
    obtain ⟨part, hpart, hbounds⟩ := hstreams.inside he
    refine ⟨part, hpart, ?_⟩
    simp only [TbiImage.base, hsynth, Option.isSome_some, if_true]
    exact hbounds

/-- Every image that opens shows the volume or disk that its block streams describe: the table is
that of the streams and ascends, the search finds the first extent that ends after an offset, and
after any reads, whether or not they failed, a read that succeeds returns the bytes described. -/
structure TbiView (inflate zstd : List UInt8 → ℕ → List UInt8 × Bool) (img : TbiImage) : Prop where
  described : TbiDescribed inflate zstd img
  ascending : Ascending TbiExtent.off TbiExtent.len 0 img.size img.ext
  inside : ∀ e ∈ img.ext, ∃ part ∈ img.parts, img.base part ≤ e.off
    ∧ e.off + e.len ≤ img.base part + part.limit
  find : ∀ cur off, IsFirstAfter TbiExtent.off TbiExtent.len img.ext off (tbiFindExtent img cur off)
  read : ∀ (plain : Buf) (rs : List (ℕ × ℕ)) (off len : ℕ) (bs : List UInt8),
    (tbiRead inflate zstd img
        (after (fun s r => tbiRead inflate zstd img s r.1 r.2) (.init plain) rs) off len).1 = .ok bs →
      bs.length ≤ len ∧ (0 < len → bs ≠ []) ∧ Agrees (TbiByte inflate zstd img) off bs
  fsRead : ∀ (plain : Buf) (rs : List (ℕ × ℕ)) (off len : ℕ) (bs : List UInt8),
    (grubTbiRead inflate zstd img
        (after (fun s r => grubTbiRead inflate zstd img s r.1 r.2) (.init plain) rs) off len).1
        = .ok bs →
      bs.length = len ∧ Agrees (TbiByte inflate zstd img) off bs

theorem TbiDescribed.view {img : TbiImage} (h : TbiDescribed inflate zstd img) :
    TbiView inflate zstd img := by
  have ht := h.table
  have hinit : ∀ plain, (TbiState.init plain).Sound inflate zstd img :=
    fun plain => TbiState.sound_of_no_cache ht rfl
  have hread := fun s off len hs => (@tbiRead_spec inflate zstd img ht s hs off len).1
  have hfs : ∀ s off len, TbiState.Sound inflate zstd img s →
      (grubTbiRead inflate zstd img s off len).2.Sound inflate zstd img :=
    fun s off len hs => readAll_inv hread len s off len hs
  refine ⟨h, ht.ascending, fun e he => h.inside he, tbiFindExtent_spec ht.ascending, fun plain rs off len bs hbs => ?_,
    fun plain rs off len bs hbs => ?_⟩
  · have hs := after_inv (fun s r hs => hread s r.1 r.2 hs) (hinit plain) rs
    exact (tbiRead_spec ht hs off len).2 bs hbs
  · have hs := after_inv (fun s r hs => hfs s r.1 r.2 hs) (hinit plain) rs
    refine readAll_agrees (fun s off len bs hs hok => ?_) hs hbs
    obtain ⟨hsound, hbytes⟩ := tbiRead_spec ht hs off len
    obtain ⟨hle, -, hagree⟩ := hbytes bs hok
    exact ⟨hsound, hle, hagree⟩

/-- An image that opens is viewed as its metadata and its streams describe. -/
theorem tbiOpenImage_view {file : GrubFile} {img : TbiImage}
    (h : tbiOpenImage inflate zstd file = .ok img) :
    (∃ m, tbiMetaFrom file TBI_META_RECORDS_MAX 0
      { metaLimit := file.size, features := 0, haveHead := false, haveCrypt := false, parts := [] }
        = .ok m ∧ img.parts.Perm m.parts ∧ img.codec = tbiCodecOf m.features)
      ∧ img.file = file ∧ TbiView inflate zstd img := by
  obtain ⟨hmeta, hfile, hdescribed⟩ := tbiOpenImage_described h
  exact ⟨hmeta, hfile, hdescribed.view⟩

end Image

/-- An image of one partition of two sectors, of which the first one is stored and full of sevens. -/
def tbiOneBlockFile : GrubFile where
  size := 1044
  byte x := if 532 ≤ x then 7 else Buf.ofFields
    [(0, leBytes 4 0 ++ leBytes 4 0x1c), (12, [0x49, 0x4d, 0x47, 0x32]),
      (40, leBytes 4 1 ++ leBytes 4 0xfc), (160, leBytes 8 0), (168, leBytes 8 1),
      (288, leBytes 8 512), (296, leBytes 8 1068), (304, leBytes 4 0xffffffff),
      (528, leBytes 2 512 ++ leBytes 2 512)] x
  fault _ _ := none
  size_lt := by decide

theorem tbiOneBlockFile_opens :
    (tbiOpenImage (fun _ _ => ([], false)) (fun _ _ => ([], false)) tbiOneBlockFile).toOption.isSome
      = true := by
  decide

/-- The image of one block is viewed as it describes. -/
theorem tbiOpenImage_view_one_block :
    ∃ img, tbiOpenImage (fun _ _ => ([], false)) (fun _ _ => ([], false)) tbiOneBlockFile = .ok img
      ∧ TbiView (fun _ _ => ([], false)) (fun _ _ => ([], false)) img :=
  ⟨_, eq_ok_get tbiOneBlockFile_opens, (tbiOpenImage_view (eq_ok_get tbiOneBlockFile_opens)).2.2⟩

end FsRover
