import FsRover.Io.Carrier
import FsRover.Lib.Bisect
import FsRover.Lib.Outcome
import Mathlib.Data.List.Sort

/-!
# The tracks of CD images

The containers that `io/cdimage` opens hand over a table of tracks, each a run of sectors in one of
the files. `grub_cdimage_finish` drops and shortens what its file does not hold, looks at the
sectors for their mode, sorts the tracks and trims what overlaps; a read then serves the 2048 user
bytes of each sector.

## Main definitions

* `FsRover.CdimageTrack`, `FsRover.Cdimage` : a track, and the table with the size exposed.
-/

namespace FsRover

open Outcome

def CD_FRAMESIZE : ℕ := 2048
def CD_FRAMESIZE_RAW : ℕ := 2352
def CD_SYNC_SIZE : ℕ := 12
def CD_HEADER_SIZE : ℕ := 4
def CD_SUBHEADER_SIZE : ℕ := 8
def CD_M1_DATA_OFFSET : ℕ := CD_SYNC_SIZE + CD_HEADER_SIZE
def CD_M2_DATA_OFFSET : ℕ := CD_SYNC_SIZE + CD_HEADER_SIZE + CD_SUBHEADER_SIZE
def CDIMAGE_MAX_LSN : ℕ := 0x02000000

/-- `CDIMAGE_MODE_AUDIO`, `CDIMAGE_MODE_1` and `CDIMAGE_MODE_2`. -/
inductive CdimageMode
  | audio | mode1 | mode2
  deriving DecidableEq, Repr

/-- `struct cdimage_track`. -/
structure CdimageTrack where
  startLsn : ℕ
  nsectors : ℕ
  sectorSize : ℕ
  dataOffset : ℕ
  mode : CdimageMode
  src : GrubFile
  srcOffset : ℕ

/-- `struct cdimage` after `grub_cdimage_finish`. -/
structure Cdimage where
  tracks : List CdimageTrack
  size : ℕ

/-- `track->start_lsn + track->nsectors`, in 32 bits. -/
def CdimageTrack.endLsn (t : CdimageTrack) : ℕ := (t.startLsn + t.nsectors) % 2 ^ 32

/-- `grub_cdimage_pread`. It fails where the file ends before the read does; that this does not
happen is to be shown, so it is a fault here. -/
def cdimagePread (file : GrubFile) (call off len : ℕ) : Outcome GrubError Buf :=
  inside (file.Holds off len) () >>= fun _ =>
    ofExcept ((file.pread call off len
      ⟨.fileReadError, "short read in CD image"⟩).mapError Prod.fst)

def cdimageSync : List UInt8 :=
  [0x00, 0xff, 0xff, 0xff, 0xff, 0xff, 0xff, 0xff, 0xff, 0xff, 0xff, 0x00]

/-- What the header of the first sector makes of a track. -/
def CdimageTrack.withHeader (t : CdimageTrack) (head : Buf) : CdimageTrack :=
  if head.take CD_SYNC_SIZE ≠ cdimageSync then t
  else if head (CD_SYNC_SIZE + 3) = 1 then
    { t with mode := .mode1, dataOffset := CD_M1_DATA_OFFSET }
  else if head (CD_SYNC_SIZE + 3) = 2 then
    { t with mode := .mode2, dataOffset := CD_M2_DATA_OFFSET }
  -- Mode 0 sectors are all zeros
  else { t with mode := .audio }

def cdimageRefineTrack (t : CdimageTrack) : Outcome GrubError CdimageTrack :=
  if t.sectorSize < CD_FRAMESIZE_RAW then done t
  else match cdimagePread t.src 0 t.srcOffset (CD_SYNC_SIZE + CD_HEADER_SIZE) with
    | done head => done (t.withHeader head)
    | failed _ => done t
    | fault => fault
    | deep => deep

/-- What `grub_cdimage_finish` makes of a track with the sectors that its file holds. -/
def cdimageUseTrack (fmt : String) (t : CdimageTrack) : Outcome GrubError CdimageTrack :=
  if CDIMAGE_MAX_LSN < t.startLsn ∨ CDIMAGE_MAX_LSN < t.nsectors
      ∨ CDIMAGE_MAX_LSN < t.endLsn then
    failed ⟨.badFs, fmt ++ " image track out of range"⟩
  else
    (if t.mode = .audio then done t else cdimageRefineTrack t) >>= fun t =>
      done (if t.sectorSize < (t.dataOffset + CD_FRAMESIZE) % 2 ^ 32
        then { t with mode := .audio } else t)

/-- One round of the first loop of `grub_cdimage_finish`: nothing where the track is skipped. -/
def cdimageCheckTrack (fmt : String) (t : CdimageTrack) :
    Outcome GrubError (Option CdimageTrack) :=
  if t.src.size = GRUB_FILE_SIZE_UNKNOWN ∨ t.src.size ≤ t.srcOffset then done none
  else
    let avail := (t.src.size - t.srcOffset) / t.sectorSize
    if avail = 0 then done none
    else cdimageUseTrack fmt
        (if avail < t.nsectors then { t with nsectors := avail % 2 ^ 32 } else t)
      >>= fun t => done (some t)

/-- The first loop of `grub_cdimage_finish`. -/
def cdimageCheckTracks (fmt : String) : List CdimageTrack → Outcome GrubError (List CdimageTrack)
  | [] => done []
  | t :: ts => do
    let kept ← cdimageCheckTrack fmt t
    let rest ← cdimageCheckTracks fmt ts
    done (kept.toList ++ rest)

/-- The insertion sort, on the reversed sorted part: `key` goes left past what starts after it. -/
def cdimageSortTracks (ts : List CdimageTrack) : List CdimageTrack :=
  (ts.foldl (fun sorted key => sorted.orderedInsert (fun a b => b.startLsn ≤ a.startLsn) key)
    []).reverse

/-- The loop over overlapping tracks: each ends where the next one starts. -/
def cdimageTrimTracks : List CdimageTrack → List CdimageTrack
  | t :: next :: ts =>
    (if next.startLsn < t.endLsn then { t with nsectors := next.startLsn - t.startLsn } else t)
      :: cdimageTrimTracks (next :: ts)
  | ts => ts

/-- The end of the last data track. -/
def cdimageEnd (ts : List CdimageTrack) : ℕ :=
  ts.foldl (fun last t => if t.mode = .audio ∨ t.nsectors = 0 then last
    else if last < t.startLsn + t.nsectors then t.startLsn + t.nsectors else last) 0

def grubCdimageFinish (fmt : String) (ts : List CdimageTrack) : Outcome GrubError Cdimage := do
  let kept ← cdimageCheckTracks fmt ts
  if kept = [] then failed ⟨.badFs, "no usable track in " ++ fmt ++ " image"⟩
  else
    let tracks := cdimageTrimTracks (cdimageSortTracks kept)
    if cdimageEnd tracks = 0 then failed ⟨.badFs, "no data track in " ++ fmt ++ " image"⟩
    else done ⟨tracks, cdimageEnd tracks * CD_FRAMESIZE⟩

/-- Where `cdimage_find_track` goes from a track. -/
def CdimageTrack.side (t : CdimageTrack) (lsn : ℕ) : Ordering :=
  if lsn < t.startLsn then .lt else if t.endLsn ≤ lsn then .gt else .eq

/-- Where it goes from the track with the number `i`. -/
def cdimageSide (tracks : List CdimageTrack) (lsn i : ℕ) : Ordering :=
  tracks[i]?.elim .lt fun t => t.side lsn

def cdimageFindTrack (tracks : List CdimageTrack) (lsn : ℕ) : Option CdimageTrack :=
  (Bisect.find (cdimageSide tracks lsn) tracks.length).bind fun i => tracks[i]?

/-- The chunk that a round of `grub_cdimage_read` serves. -/
def cdimageReadChunk (img : Cdimage) (call off len : ℕ) : Outcome GrubError (List UInt8) :=
  let lsn := off / CD_FRAMESIZE % 2 ^ 32
  let within := off % CD_FRAMESIZE
  let chunk := min (CD_FRAMESIZE - within) len
  match cdimageFindTrack img.tracks lsn with
  | none => done (List.replicate chunk 0)
  | some t =>
    if t.mode = .audio then done (List.replicate chunk 0)
    else
      -- runs of cooked sectors are served whole
      let chunk := if t.sectorSize = CD_FRAMESIZE ∧ t.dataOffset = 0 then
          min len ((t.endLsn - lsn) * CD_FRAMESIZE - within)
        else chunk
      cdimagePread t.src call ((t.srcOffset + (lsn - t.startLsn) * t.sectorSize + t.dataOffset
        + within) % 2 ^ 64) chunk >>= fun p => done (p.take chunk)

/-- The loop of `grub_cdimage_read`. -/
def cdimageReadRounds (img : Cdimage) (call : ℕ) : ℕ → ℕ → ℕ → Outcome GrubError (List UInt8)
  | 0, _, _ => deep
  | rounds + 1, off, len =>
    if len = 0 then done []
    else do
      let chunk ← cdimageReadChunk img call off len
      let rest ← cdimageReadRounds img call rounds (off + chunk.length) (len - chunk.length)
      done (chunk ++ rest)

/-- `grub_cdimage_read`, in the call of number `call`. -/
def grubCdimageRead (img : Cdimage) (call off len : ℕ) : Outcome GrubError (List UInt8) :=
  cdimageReadRounds img call (len + 1) off len

end FsRover
