import FsRover.Fs.FshelpMerge
import FsRover.Lib.History

/-!
# The cluster cursor of FAT files

`grub_fat_read_data` keeps in the node where the last read has stopped in the chain of clusters, and
merges clusters that follow each other on the disk into one read. Here it is compared with a node that
finds every cluster by walking from the first one, and reads every cluster on its own.

## Main definitions

* `FsRover.fatFresh` : the read of a fresh node, one cluster at a time.
* `FsRover.FatAt` : the cursor is where the chain has its cluster of that index.

## Main results

* `FsRover.fatMerge_spec` : what merging keeps, however it ends.
* `FsRover.fat_cursor_transparent` : reads return what a fresh node returns.
-/

namespace FsRover

open History

/-- What the reads use of `struct grub_fat_data`, in the ranges that `grub_fat_mount` checks. -/
structure FatData where
  exfat : Bool
  fatSector : ℕ
  fatSize : ℕ
  rootSector : ℕ
  numRootSectors : ℕ
  clusterBits : ℕ
  clusterEofMark : ℕ
  clusterSector : ℕ
  numClusters : ℕ
  clusterBits_le : clusterBits ≤ 31
  numClusters_lt : numClusters < 2 ^ 32

/-- `struct grub_fshelp_node` without the cursor; `validSize` and `isContiguous` are of exFAT. -/
structure FatNode where
  fileCluster : ℕ
  fileSize : ℕ
  validSize : ℕ
  isContiguous : Bool

/-- `cur_cluster_num` and `cur_cluster`. -/
structure FatCursor where
  num : ℕ
  cluster : ℕ

/-- A read of the file, and the sectors of its data that the driver does not deliver this time. -/
structure FatRequest where
  offset : ℕ
  len : ℕ
  torn : ℕ → Bool

/-- The bytes of a cluster. -/
def FatData.clusterSize (data : FatData) : ℕ := 2 ^ (data.clusterBits + 9)

/-- The first sector of a cluster. -/
def FatData.sector (data : FatData) (cluster : ℕ) : ℕ :=
  u64 (data.clusterSector + u64 ((cluster - 2) * 2 ^ data.clusterBits))

/-- The disk during a read. -/
def FshelpDisk.during (disk : FshelpDisk) (torn : ℕ → Bool) : FshelpDisk :=
  { disk with readable := fun sector => disk.readable sector && !torn sector }

variable (disk : FshelpDisk) (data : FatData)

/-! ### The chain -/

/-- An integer from its bytes, the low one first. -/
def fatLe (bytes : List UInt8) : ℕ := bytes.foldr (fun b n => b.toNat + 2 ^ 8 * n) 0

/-- What the entry of a cluster says after the mask of the FAT. -/
def fatMasked (cluster entry : ℕ) : ℕ :=
  if data.fatSize = 32 then (if data.exfat then entry else entry % 2 ^ 28)
  else if data.fatSize = 16 then entry % 2 ^ 16
  else if cluster % 2 = 1 then entry / 2 ^ 4 % 2 ^ 12
  else entry % 2 ^ 12

/-- `grub_fat_next_cluster`; there is none at the end of the chain. -/
def grubFatNextCluster (cluster : ℕ) : Except GrubError (Option ℕ) :=
  let fatOffset :=
    if data.fatSize = 32 then cluster * 4
    else if data.fatSize = 16 then cluster * 2
    else cluster + cluster / 2
  match grubDiskRead disk data.fatSector fatOffset ((data.fatSize + 7) / 8) with
  | .error e => .error e
  | .ok bytes =>
    let next := fatMasked data cluster (fatLe bytes)
    if data.clusterEofMark ≤ next then .ok none
    else if next < 2 ∨ data.numClusters ≤ next ∨ next = cluster then
      .error ⟨.badFs, s!"invalid cluster {next}"⟩
    else .ok (some next)

/-- Go to the next cluster, as both loops of `grub_fat_read_data` do; false at the end of the chain. -/
def fatHop (c : FatCursor) : Except GrubError Bool × FatCursor :=
  match grubFatNextCluster disk data c.cluster with
  | .error e => (.error e, c)
  | .ok none => (.ok false, c)
  | .ok (some next) =>
    -- more hops than clusters exist: the chain is cyclic
    if data.numClusters ≤ c.num + 1 then
      (.error ⟨.badFs, "cyclic FAT cluster chain"⟩, ⟨c.num + 1, next⟩)
    else (.ok true, ⟨c.num + 1, next⟩)

/-- The loop that goes to the cluster `n` hops ahead. -/
def fatWalk : ℕ → FatCursor → Except GrubError Bool × FatCursor
  | 0, c => (.ok true, c)
  | n + 1, c =>
    match fatHop disk data c with
    | (.ok true, c) => fatWalk n c
    | (r, c) => (r, c)

/-! ### Reading -/

variable (maxRead : ℕ)

/-- The loop that merges clusters: the bytes and the clusters of the run. The last cluster of the run
is that of the cursor until a hop leaves the run. -/
def fatMerge (len : ℕ) : ℕ → FatCursor → ℕ → ℕ → Except GrubError (ℕ × ℕ) × FatCursor
  | 0, c, run, clusters => (.ok (run, clusters), c)
  | fuel + 1, c, run, clusters =>
    if len ≤ run then (.ok (run, clusters), c)
    else if maxRead ≠ 0 ∧ maxRead < run + min (len - run) data.clusterSize then
      (.ok (run, clusters), c)
    else
      match fatHop disk data c with
      | (.error e, c') => (.error e, c')
      | (.ok false, c') => (.ok (run, clusters), c')
      | (.ok true, c') =>
        if c'.cluster ≠ c.cluster + 1 then (.ok (run, clusters), c')
        else fatMerge len fuel c' (run + min (len - run) data.clusterSize) (clusters + 1)

/-- The outer loop of `grub_fat_read_data`. Every round reads a byte at least, so `len` rounds are
enough. -/
def fatReadLoop (torn : ℕ → Bool) : ℕ → FatCursor → ℕ → ℕ → ℕ →
    Except GrubError (List UInt8) × FatCursor
  | 0, c, _, _, _ => (.ok [], c)
  | fuel + 1, c, logical, offset, len =>
    if len = 0 then (.ok [], c)
    else
      match fatWalk disk data (logical - c.num) c with
      | (.error e, c) => (.error e, c)
      | (.ok false, c) => (.ok [], c)
      | (.ok true, c) =>
        if c.cluster < 2 ∨ data.numClusters ≤ c.cluster then
          (.error ⟨.badFs, "invalid FAT data range"⟩, c)
        else
          match fatMerge disk data maxRead len fuel c (min (data.clusterSize - offset) len) 1 with
          | (.error e, c') => (.error e, c')
          | (.ok (run, clusters), c') =>
            match grubDiskRead (disk.during torn) (data.sector c.cluster) offset run with
            | .error e => (.error e, c')
            | .ok bytes =>
              match fatReadLoop torn fuel c' (logical + clusters) 0 (len - run) with
              | (.error e, c'') => (.error e, c'')
              | (.ok rest, c'') => (.ok (bytes ++ rest), c'')

variable (node : FatNode)

/-- The reads that do not follow a chain: the root directory of FAT12 and FAT16, and contiguous files
of exFAT. -/
def fatUnchained (r : FatRequest) : Option (Except GrubError (List UInt8)) :=
  if data.exfat = false ∧ node.fileCluster = 2 ^ 32 - 1 then
    some (grubDiskRead (disk.during r.torn) data.rootSector r.offset
      (min (sub64 (u32 (data.numRootSectors * 512)) r.offset) r.len))
  else if data.exfat = true ∧ node.isContiguous = true then
    let remaining := u64 ((data.numClusters - node.fileCluster) * data.clusterSize)
    if node.fileCluster < 2 ∨ data.numClusters ≤ node.fileCluster ∨ remaining < r.offset
        ∨ remaining - r.offset < r.len then
      some (.error ⟨.badFs, "invalid FAT data range"⟩)
    else
      some (grubDiskRead (disk.during r.torn) (u64 (data.sector node.fileCluster + r.offset / 512))
        (r.offset % 512) r.len)
  else none

/-- Where the walk begins: at the cursor, or at the first cluster when that is ahead. -/
def fatBegin (c : FatCursor) (logical : ℕ) : FatCursor :=
  if logical < c.num then ⟨0, node.fileCluster⟩ else c

/-- `grub_fat_read_data`. -/
def grubFatReadData (c : FatCursor) (r : FatRequest) : Except GrubError (List UInt8) × FatCursor :=
  match fatUnchained disk data node r with
  | some result => (result, c)
  | none =>
    let logical := r.offset / data.clusterSize
    if data.numClusters ≤ logical then (.error ⟨.badFs, "invalid FAT data range"⟩, c)
    else
      fatReadLoop disk data maxRead r.torn r.len (fatBegin node c logical) logical
        (r.offset % data.clusterSize) r.len

/-- `grub_fat_read` over a function that reads the data. It also fails, and sets no error, where the
chain of an exFAT file ends early. -/
def fatReadOver {σ : Type} (readData : σ → FatRequest → Except GrubError (List UInt8) × σ) (s : σ)
    (r : FatRequest) : Except (Option GrubError) (List UInt8) × σ :=
  if data.exfat = false then
    ((readData s r).1.mapError some, (readData s r).2)
  else
    let initialized := min r.len (node.validSize - r.offset)
    if node.fileSize < node.validSize then
      (.error (some ⟨.badFs, "invalid exFAT valid data length"⟩), s)
    else if initialized = 0 then (.ok (List.replicate r.len 0), s)
    else
      match readData s { r with len := initialized } with
      | (.error e, s') => (.error (some e), s')
      | (.ok bytes, s') =>
        if bytes.length ≠ initialized then (.error none, s')
        else (.ok (bytes ++ List.replicate (r.len - initialized) 0), s')

/-- `grub_fat_read`. -/
def grubFatRead (c : FatCursor) (r : FatRequest) :
    Except (Option GrubError) (List UInt8) × FatCursor :=
  fatReadOver data node (grubFatReadData disk data maxRead node) c r

/-! ### A fresh node -/

/-- Read from `offset` in the cluster of this index on: walk to it from the first cluster, read what is
wanted of it, and go on with the next one. -/
def fatFreshFrom (torn : ℕ → Bool) : ℕ → ℕ → ℕ → ℕ → Except GrubError (List UInt8)
  | 0, _, _, _ => .ok []
  | fuel + 1, index, offset, len =>
    if len = 0 then .ok []
    else
      match fatWalk disk data index ⟨0, node.fileCluster⟩ with
      | (.error e, _) => .error e
      | (.ok false, _) => .ok []
      | (.ok true, c) =>
        if c.cluster < 2 ∨ data.numClusters ≤ c.cluster then
          .error ⟨.badFs, "invalid FAT data range"⟩
        else do
          let bytes ← grubDiskRead (disk.during torn) (data.sector c.cluster) offset
            (min (data.clusterSize - offset) len)
          let rest ← fatFreshFrom torn fuel (index + 1) 0 (len - min (data.clusterSize - offset) len)
          .ok (bytes ++ rest)

/-- The read of a fresh node. -/
def fatFresh (r : FatRequest) : Except GrubError (List UInt8) :=
  match fatUnchained disk data node r with
  | some result => result
  | none =>
    if data.numClusters ≤ r.offset / data.clusterSize then .error ⟨.badFs, "invalid FAT data range"⟩
    else
      fatFreshFrom disk data node r.torn r.len (r.offset / data.clusterSize)
        (r.offset % data.clusterSize) r.len

/-- A node as it is opened: the cursor is behind every cluster. -/
def fatOpened : FatCursor := ⟨2 ^ 32 - 1, 0⟩

/-- After any reads, a read of the data returns what a fresh node returns, or both fail, and the loops
end by themselves; so does a read of the file. -/
def FatTransparent : Prop :=
  (∀ (rs : List FatRequest) (r : FatRequest),
    let c := after (grubFatReadData disk data maxRead node) fatOpened rs
    (grubFatReadData disk data maxRead node c r).1.toOption = (fatFresh disk data node r).toOption)
  ∧ (∀ (rs : List FatRequest) (r : FatRequest),
    let c := after (grubFatRead disk data maxRead node) fatOpened rs
    (grubFatRead disk data maxRead node c r).1.toOption
      = (fatReadOver data node (fun s r => (fatFresh disk data node r, s)) () r).1.toOption)
  ∧ (∀ (torn : ℕ → Bool) (c : FatCursor) (logical offset len more : ℕ), offset < data.clusterSize →
    fatReadLoop disk data maxRead torn (len + more) c logical offset len
      = fatReadLoop disk data maxRead torn len c logical offset len)

/-! ### The cursor -/

/-- The chain has the cluster of the cursor at the index of the cursor. -/
def FatAt (c : FatCursor) : Prop :=
  fatWalk disk data c.num ⟨0, node.fileCluster⟩ = (.ok true, c)

/-- What holds of the cursor between reads; it may be behind every cluster. -/
def FatInv (c : FatCursor) : Prop := c.num < data.numClusters → FatAt disk data node c

variable {disk data maxRead node}

theorem clusterSize_pos : 0 < data.clusterSize := Nat.two_pow_pos _

theorem clusterSize_eq : data.clusterSize = 2 ^ data.clusterBits * 512 := by
  rw [FatData.clusterSize, Nat.pow_add]

theorem sector_add {cluster n : ℕ} (h : 2 ≤ cluster) :
    u64 (data.sector cluster + n * 2 ^ data.clusterBits) = data.sector (cluster + n) := by
  have hsub : cluster + n - 2 = cluster - 2 + n := by omega
  rw [FatData.sector, FatData.sector, hsub, Nat.add_mul]
  unfold u64
  omega

theorem fatHop_ok {c c' : FatCursor} (h : fatHop disk data c = (.ok true, c')) :
    c'.num = c.num + 1 ∧ c'.num < data.numClusters := by
  rw [fatHop] at h
  split at h
  · cases h
  · cases h
  · split_ifs at h with hcyclic
    · cases h
    · cases h
      exact ⟨rfl, Nat.lt_of_not_le hcyclic⟩

theorem grubFatNextCluster_ok {cluster next : ℕ}
    (h : grubFatNextCluster disk data cluster = .ok (some next)) :
    2 ≤ next ∧ next < data.numClusters := by
  rw [grubFatNextCluster] at h
  dsimp only at h
  split at h
  · cases h
  · split_ifs at h with heof hbad
    · cases h
    · obtain rfl := Option.some.inj (Except.ok.inj h)
      omega

theorem fatHop_cluster {c c' : FatCursor} (h : fatHop disk data c = (.ok true, c')) :
    2 ≤ c'.cluster ∧ c'.cluster < data.numClusters := by
  rw [fatHop] at h
  split at h
  · cases h
  · cases h
  · rename_i next hnext
    split_ifs at h
    · cases h
    · cases h
      exact grubFatNextCluster_ok hnext

theorem fatHop_end {c c' : FatCursor} (h : fatHop disk data c = (.ok false, c')) : c' = c := by
  rw [fatHop] at h
  split at h
  · cases h
  · cases h
    rfl
  · split_ifs at h <;> cases h

/-- A hop that fails leaves the cursor, or leaves it behind every cluster. -/
theorem fatHop_error {c c' : FatCursor} {e : GrubError} (h : fatHop disk data c = (.error e, c')) :
    c' = c ∨ data.numClusters ≤ c'.num := by
  rw [fatHop] at h
  split at h
  · cases h
    exact .inl rfl
  · cases h
  · split_ifs at h with hcyclic
    · cases h
      exact .inr hcyclic
    · cases h

theorem fatWalk_one (c : FatCursor) : fatWalk disk data 1 c = fatHop disk data c := by
  rw [fatWalk]
  rcases fatHop disk data c with ⟨_ | _ | _, c'⟩ <;> rfl

theorem fatWalk_add {m n : ℕ} {c c' : FatCursor} (h : fatWalk disk data m c = (.ok true, c')) :
    fatWalk disk data (m + n) c = fatWalk disk data n c' := by
  induction m generalizing c with
  | zero =>
    cases h
    rw [Nat.zero_add]
  | succ m ih =>
    rw [Nat.add_right_comm, fatWalk]
    rw [fatWalk] at h
    rcases hhop : fatHop disk data c with ⟨_ | _ | _, c₁⟩
    · rw [hhop] at h
      cases h
    · rw [hhop] at h
      cases h
    · rw [hhop] at h
      exact ih h

theorem fatWalk_num {n : ℕ} {c c' : FatCursor} (h : fatWalk disk data n c = (.ok true, c')) :
    c'.num = c.num + n := by
  induction n generalizing c with
  | zero =>
    cases h
    rfl
  | succ n ih =>
    rw [fatWalk] at h
    rcases hhop : fatHop disk data c with ⟨_ | _ | _, c₁⟩
    · rw [hhop] at h
      cases h
    · rw [hhop] at h
      cases h
    · rw [hhop] at h
      have hnum := ih h
      have hone := (fatHop_ok hhop).1
      omega

theorem FatAt.inv {c : FatCursor} (h : FatAt disk data node c) : FatInv disk data node c := fun _ => h

theorem FatAt.start : FatAt disk data node ⟨0, node.fileCluster⟩ := rfl

/-- Walking from a cursor that is in the chain is walking on from the first cluster. -/
theorem FatAt.walk {c : FatCursor} (h : FatAt disk data node c) (n : ℕ) :
    fatWalk disk data (c.num + n) ⟨0, node.fileCluster⟩ = fatWalk disk data n c := fatWalk_add h

theorem FatAt.walk_ok {c c' : FatCursor} {n : ℕ} (h : FatAt disk data node c)
    (hwalk : fatWalk disk data n c = (.ok true, c')) : FatAt disk data node c' := by
  rw [FatAt, fatWalk_num hwalk, h.walk, hwalk]

theorem FatAt.hop {c c' : FatCursor} (h : FatAt disk data node c)
    (hhop : fatHop disk data c = (.ok true, c')) : FatAt disk data node c' :=
  h.walk_ok (n := 1) ((fatWalk_one c).trans hhop)

theorem FatAt.hop_error {c c' : FatCursor} {e : GrubError} (h : FatAt disk data node c)
    (hhop : fatHop disk data c = (.error e, c')) : FatInv disk data node c' := by
  intro hlt
  rcases fatHop_error hhop with rfl | hle
  · exact h
  · omega

/-- However a walk ends, the cursor is good for the next read. -/
theorem FatAt.walk_inv {c : FatCursor} (h : FatAt disk data node c) (n : ℕ) :
    FatInv disk data node (fatWalk disk data n c).2 := by
  induction n generalizing c with
  | zero => exact h.inv
  | succ n ih =>
    rw [fatWalk]
    rcases hhop : fatHop disk data c with ⟨e | _ | _, c₁⟩
    · exact h.hop_error hhop
    · obtain rfl := fatHop_end hhop
      exact h.inv
    · exact ih (h.hop hhop)

/-! ### A run of clusters -/

theorem Except.toOption_bind {ε α β : Type} (x : Except ε α) (f : α → Except ε β) :
    (x >>= f).toOption = x.toOption.bind fun a => (f a).toOption := by
  cases x <;> rfl

theorem Except.toOption_mapError {ε ε' α : Type} (x : Except ε α) (f : ε → ε') :
    (x.mapError f).toOption = x.toOption := by
  cases x <;> rfl

theorem fatFreshFrom_fuel {torn : ℕ → Bool} : ∀ {fuel index offset len : ℕ},
    offset < data.clusterSize → len ≤ fuel →
      fatFreshFrom disk data node torn fuel index offset len
        = fatFreshFrom disk data node torn len index offset len
  | 0, index, offset, len, _, hlen => by rw [Nat.le_zero.mp hlen]
  | fuel + 1, index, offset, 0, _, _ => by
    rw [fatFreshFrom, fatFreshFrom, if_pos rfl]
  | fuel + 1, index, offset, len + 1, hoff, hlen => by
    have hpos : 0 < min (data.clusterSize - offset) (len + 1) := by omega
    have hrest : fatFreshFrom disk data node torn fuel (index + 1) 0
          (len + 1 - min (data.clusterSize - offset) (len + 1))
        = fatFreshFrom disk data node torn len (index + 1) 0
          (len + 1 - min (data.clusterSize - offset) (len + 1)) := by
      rw [fatFreshFrom_fuel clusterSize_pos (by omega),
        @fatFreshFrom_fuel torn len _ _ _ clusterSize_pos (by omega)]
    rw [fatFreshFrom, fatFreshFrom, hrest]

theorem fatFreshFrom_piece {torn : ℕ → Bool} {index offset len : ℕ} {c : FatCursor}
    (hoff : offset < data.clusterSize) (hlen : 0 < len)
    (hwalk : fatWalk disk data index ⟨0, node.fileCluster⟩ = (.ok true, c))
    (hc : 2 ≤ c.cluster ∧ c.cluster < data.numClusters) :
    (fatFreshFrom disk data node torn len index offset len).toOption
      = (grubDiskRead (disk.during torn) (data.sector c.cluster) offset
          (min (data.clusterSize - offset) len)).toOption.bind fun bytes =>
        (fatFreshFrom disk data node torn (len - min (data.clusterSize - offset) len) (index + 1) 0
          (len - min (data.clusterSize - offset) len)).toOption.map (bytes ++ ·) := by
  obtain ⟨len, rfl⟩ : ∃ k, len = k + 1 := ⟨len - 1, by omega⟩
  rw [fatFreshFrom, if_neg (Nat.succ_ne_zero len), hwalk]
  simp only
  rw [if_neg (by omega), Except.toOption_bind]
  congr 1
  funext bytes
  rw [@fatFreshFrom_fuel disk data node torn len (index + 1) 0 _ clusterSize_pos (by omega)]
  exact Except.toOption_map _ _

variable (disk data node) in
/-- A read of `run` bytes from `offset` on in the cluster `first`, and the rest of the `len` bytes as a
fresh node reads them from the cluster of index `index` on. -/
def fatRest (torn : ℕ → Bool) (first offset len run index : ℕ) : Option (List UInt8) :=
  (grubDiskRead (disk.during torn) (data.sector first) offset run).toOption.bind fun bytes =>
    (fatFreshFrom disk data node torn (len - run) index 0 (len - run)).toOption.map (bytes ++ ·)

theorem fatRest_grow {torn : ℕ → Bool} {first offset len run index clusters : ℕ} {c : FatCursor}
    (hfirst : 2 ≤ first) (hoff : offset < data.clusterSize) (hpos : 0 < clusters) (hrun : run < len)
    (hwhole : offset + run = clusters * data.clusterSize)
    (hwalk : fatWalk disk data index ⟨0, node.fileCluster⟩ = (.ok true, c))
    (hc : c.cluster = first + clusters) (hlt : c.cluster < data.numClusters) :
    fatRest disk data node torn first offset len run index
      = fatRest disk data node torn first offset len (run + min (len - run) data.clusterSize)
        (index + 1) := by
  have hsplit := @grubDiskRead_split (disk.during torn) (clusters * 2 ^ data.clusterBits)
    (data.sector first) offset (min (len - run) data.clusterSize)
  have hbytes : clusters * 2 ^ data.clusterBits * 512 = clusters * data.clusterSize := by
    rw [clusterSize_eq, Nat.mul_assoc]
  have hle : data.clusterSize ≤ clusters * data.clusterSize := Nat.le_mul_of_pos_left _ hpos
  have hrunEq : clusters * data.clusterSize - offset = run := by omega
  have hsize := @clusterSize_pos data
  rw [hbytes, hrunEq, sector_add hfirst, ← hc] at hsplit
  have hpiece := @fatFreshFrom_piece disk data node torn index 0 (len - run) c clusterSize_pos
    (by omega) hwalk ⟨by omega, hlt⟩
  rw [Nat.sub_zero, Nat.min_comm] at hpiece
  have hleft : len - run - min (len - run) data.clusterSize
      = len - (run + min (len - run) data.clusterSize) := by omega
  rw [hleft] at hpiece
  rw [fatRest, fatRest, hsplit (by omega) (by omega), Option.bind_assoc]
  congr 1
  funext bytes
  rw [hpiece]
  cases (grubDiskRead (disk.during torn) (data.sector c.cluster) 0
    (min (len - run) data.clusterSize)).toOption with
  | none => rfl
  | some next =>
    simp only [Option.bind_some, Option.map_some, Option.map_map]
    congr 1
    funext rest
    exact (List.append_assoc bytes next rest).symm

/-- However merging ends, the read of the run and the rest of the read give what a fresh node gives,
and the cursor is good. -/
theorem fatMerge_spec {torn : ℕ → Bool} {first offset len logical : ℕ} (hfirst : 2 ≤ first)
    (hoff : offset < data.clusterSize) :
    ∀ {fuel run clusters : ℕ} {c : FatCursor}, FatAt disk data node c → 0 < clusters →
      c.num + 1 = logical + clusters → c.cluster + 1 = first + clusters → 0 < run → run ≤ len →
      (run < len → offset + run = clusters * data.clusterSize) →
      match fatMerge disk data maxRead len fuel c run clusters with
      | (.error _, c') =>
        fatRest disk data node torn first offset len run (logical + clusters) = none
          ∧ FatInv disk data node c'
      | (.ok (run', clusters'), c') =>
        fatRest disk data node torn first offset len run (logical + clusters)
            = fatRest disk data node torn first offset len run' (logical + clusters')
          ∧ 0 < run' ∧ run' ≤ len ∧ FatAt disk data node c' ∧ c'.num ≤ logical + clusters'
  | 0, run, clusters, c, hat, _, hnum, _, hpos, hle, _ => by
    rw [fatMerge]
    exact ⟨rfl, hpos, hle, hat, by omega⟩
  | fuel + 1, run, clusters, c, hat, hclusters, hnum, hcluster, hpos, hle, hwhole => by
    rw [fatMerge]
    by_cases hfull : len ≤ run
    · rw [if_pos hfull]
      exact ⟨rfl, hpos, hle, hat, by omega⟩
    rw [if_neg hfull]
    by_cases hmax : maxRead ≠ 0 ∧ maxRead < run + min (len - run) data.clusterSize
    · rw [if_pos hmax]
      exact ⟨rfl, hpos, hle, hat, by omega⟩
    rw [if_neg hmax]
    have hsize := @clusterSize_pos data
    have hwalk := hat.walk 1
    rw [hnum, fatWalk_one] at hwalk
    rcases hhop : fatHop disk data c with ⟨e | _ | _, c'⟩
    · refine ⟨?_, hat.hop_error hhop⟩
      obtain ⟨k, hk⟩ : ∃ k, len - run = k + 1 := ⟨len - run - 1, by omega⟩
      have hfails : fatFreshFrom disk data node torn (k + 1) (logical + clusters) 0 (k + 1)
          = .error e := by
        rw [fatFreshFrom, if_neg (Nat.succ_ne_zero k), hwalk, hhop]
      rw [fatRest, hk, hfails]
      cases (grubDiskRead (disk.during torn) (data.sector first) offset run).toOption <;> rfl
    · obtain rfl := fatHop_end hhop
      exact ⟨rfl, hpos, hle, hat, by omega⟩
    · obtain ⟨hnext, hlt⟩ := fatHop_ok hhop
      by_cases hgap : c'.cluster ≠ c.cluster + 1
      · simp only [if_pos hgap]
        exact ⟨trivial, hpos, hle, hat.hop hhop, by omega⟩
      · simp only [if_neg hgap]
        have hgrow := @fatRest_grow disk data node torn _ _ _ _ _ _ _ hfirst hoff hclusters
          (Nat.lt_of_not_le hfull) (hwhole (Nat.lt_of_not_le hfull)) (hwalk.trans hhop) (by omega) (fatHop_cluster hhop).2
        rw [hgrow, Nat.add_assoc]
        refine fatMerge_spec hfirst hoff (hat.hop hhop) (by omega) (by omega) (by omega) (by omega)
          (by omega) fun hlt' => ?_
        have hwhole' := hwhole (Nat.lt_of_not_le hfull)
        rw [Nat.add_mul, Nat.one_mul]
        omega

/-! ### The loop -/

/-- The loop from a cursor in the chain returns what a fresh node returns, and leaves a cursor that is
good for the next read. -/
theorem fatReadLoop_spec {torn : ℕ → Bool} : ∀ {fuel logical offset len : ℕ} {c : FatCursor},
    FatAt disk data node c → c.num ≤ logical → offset < data.clusterSize → len ≤ fuel →
      (fatReadLoop disk data maxRead torn fuel c logical offset len).1.toOption
          = (fatFreshFrom disk data node torn len logical offset len).toOption
        ∧ FatInv disk data node (fatReadLoop disk data maxRead torn fuel c logical offset len).2
  | 0, logical, offset, len, c, hat, _, _, hlen => by
    obtain rfl := Nat.le_zero.mp hlen
    exact ⟨rfl, hat.inv⟩
  | fuel + 1, logical, offset, 0, c, hat, _, _, _ => by
    rw [fatReadLoop, if_pos rfl]
    exact ⟨rfl, hat.inv⟩
  | fuel + 1, logical, offset, len + 1, c, hat, hnum, hoff, hlen => by
    have hwalk := hat.walk (logical - c.num)
    have hinv := hat.walk_inv (logical - c.num)
    rw [Nat.add_sub_cancel' hnum] at hwalk
    rw [fatReadLoop, if_neg (Nat.succ_ne_zero len)]
    rcases hreach : fatWalk disk data (logical - c.num) c with ⟨e | _ | _, c₁⟩
    · rw [hreach] at hinv
      rw [fatFreshFrom, if_neg (Nat.succ_ne_zero len), hwalk, hreach]
      exact ⟨rfl, hinv⟩
    · rw [hreach] at hinv
      rw [fatFreshFrom, if_neg (Nat.succ_ne_zero len), hwalk, hreach]
      exact ⟨rfl, hinv⟩
    have hat₁ := hat.walk_ok hreach
    have hnum₁ := fatWalk_num hreach
    rw [hreach] at hwalk
    simp only
    by_cases hbad : c₁.cluster < 2 ∨ data.numClusters ≤ c₁.cluster
    · rw [if_pos hbad, fatFreshFrom, if_neg (Nat.succ_ne_zero len), hwalk]
      dsimp only
      rw [if_pos hbad]
      exact ⟨rfl, hat₁.inv⟩
    rw [if_neg hbad]
    have hpiece : (fatFreshFrom disk data node torn (len + 1) logical offset (len + 1)).toOption
        = fatRest disk data node torn c₁.cluster offset (len + 1)
          (min (data.clusterSize - offset) (len + 1)) (logical + 1) :=
      fatFreshFrom_piece hoff (Nat.succ_pos len) hwalk (by omega)
    rw [hpiece]
    have hmerge := @fatMerge_spec disk data maxRead node torn c₁.cluster offset (len + 1) logical
      (by omega) hoff fuel (min (data.clusterSize - offset) (len + 1)) 1 c₁ hat₁ Nat.one_pos (by omega)
      rfl (by omega) (by omega) (by omega)
    rcases hrun : fatMerge disk data maxRead (len + 1) fuel c₁
      (min (data.clusterSize - offset) (len + 1)) 1 with ⟨e | ⟨run, clusters⟩, c₂⟩
    · rw [hrun] at hmerge
      exact ⟨hmerge.1.symm, hmerge.2⟩
    · rw [hrun] at hmerge
      obtain ⟨hrest, hpos, hle, hat₂, hnum₂⟩ := hmerge
      simp only
      rw [hrest, fatRest]
      cases hread : grubDiskRead (disk.during torn) (data.sector c₁.cluster) offset run with
      | error e => exact ⟨rfl, hat₂.inv⟩
      | ok bytes =>
        obtain ⟨heq, hinv'⟩ := @fatReadLoop_spec torn fuel _ 0 _ c₂ hat₂ hnum₂
          (@clusterSize_pos data) (show len + 1 - run ≤ fuel by omega)
        simp only
        rcases hloop : fatReadLoop disk data maxRead torn fuel c₂ (logical + clusters) 0
          (len + 1 - run) with ⟨e | rest, c₃⟩
        · rw [hloop] at heq hinv'
          exact ⟨by rw [show (Except.ok bytes : Except GrubError _).toOption = some bytes from rfl,
            Option.bind_some, ← heq]; rfl, hinv'⟩
        · rw [hloop] at heq hinv'
          exact ⟨by rw [show (Except.ok bytes : Except GrubError _).toOption = some bytes from rfl,
            Option.bind_some, ← heq]; rfl, hinv'⟩

/-- A read from a cursor that is good returns what a fresh node returns, and leaves one that is. -/
theorem grubFatReadData_spec {c : FatCursor} (hc : FatInv disk data node c) (r : FatRequest) :
    (grubFatReadData disk data maxRead node c r).1.toOption = (fatFresh disk data node r).toOption
      ∧ FatInv disk data node (grubFatReadData disk data maxRead node c r).2 := by
  rw [grubFatReadData, fatFresh]
  cases fatUnchained disk data node r with
  | some result => exact ⟨rfl, hc⟩
  | none =>
    dsimp only
    by_cases hout : data.numClusters ≤ r.offset / data.clusterSize
    · rw [if_pos hout, if_pos hout]
      exact ⟨rfl, hc⟩
    · rw [if_neg hout, if_neg hout]
      have hoff := Nat.mod_lt r.offset (@clusterSize_pos data)
      rw [fatBegin]
      split_ifs with hback
      · exact fatReadLoop_spec FatAt.start (Nat.zero_le _) hoff (Nat.le_refl _)
      · exact fatReadLoop_spec (hc (by omega)) (Nat.le_of_not_lt hback) hoff (Nat.le_refl _)

theorem grubFatRead_spec {c : FatCursor} (hc : FatInv disk data node c) (r : FatRequest) :
    (grubFatRead disk data maxRead node c r).1.toOption
        = (fatReadOver data node (fun s r => (fatFresh disk data node r, s)) () r).1.toOption
      ∧ FatInv disk data node (grubFatRead disk data maxRead node c r).2 := by
  rw [grubFatRead, fatReadOver, fatReadOver]
  by_cases hfat : data.exfat = false
  · obtain ⟨heq, hinv⟩ := @grubFatReadData_spec disk data maxRead node c hc r
    rw [if_pos hfat, if_pos hfat]
    refine ⟨?_, hinv⟩
    rw [Except.toOption_mapError, heq, Except.toOption_mapError]
  rw [if_neg hfat, if_neg hfat]
  dsimp only
  by_cases hbad : node.fileSize < node.validSize
  · rw [if_pos hbad, if_pos hbad]
    exact ⟨rfl, hc⟩
  rw [if_neg hbad, if_neg hbad]
  by_cases hnone : min r.len (node.validSize - r.offset) = 0
  · rw [if_pos hnone, if_pos hnone]
    exact ⟨rfl, hc⟩
  · rw [if_neg hnone, if_neg hnone]
    obtain ⟨heq, hinv⟩ := @grubFatReadData_spec disk data maxRead node c hc
      { r with len := min r.len (node.validSize - r.offset) }
    rcases hread : grubFatReadData disk data maxRead node c
      { r with len := min r.len (node.validSize - r.offset) } with ⟨e | bytes, c'⟩
    · rw [hread] at heq hinv
      cases hfresh : fatFresh disk data node { r with len := min r.len (node.validSize - r.offset) } with
      | error e' => exact ⟨rfl, hinv⟩
      | ok bytes =>
        rw [hfresh] at heq
        cases heq
    · rw [hread] at heq hinv
      cases hfresh : fatFresh disk data node { r with len := min r.len (node.validSize - r.offset) } with
      | error e' =>
        rw [hfresh] at heq
        cases heq
      | ok bytes' =>
        rw [hfresh] at heq
        obtain rfl : bytes = bytes' := Option.some.inj heq
        simp only
        split_ifs
        · exact ⟨rfl, hinv⟩
        · exact ⟨rfl, hinv⟩

/-! ### The end of the loops -/

theorem fatMerge_fuel {len more : ℕ} : ∀ {fuel run clusters : ℕ} {c : FatCursor}, len ≤ fuel + run →
    fatMerge disk data maxRead len (fuel + more) c run clusters
      = fatMerge disk data maxRead len fuel c run clusters
  | 0, run, clusters, c, hlen => by
    rw [Nat.zero_add] at hlen ⊢
    cases more with
    | zero => rfl
    | succ more => rw [fatMerge, fatMerge, if_pos hlen]
  | fuel + 1, run, clusters, c, hlen => by
    rw [Nat.add_right_comm, fatMerge, fatMerge]
    have hsize := @clusterSize_pos data
    by_cases hfull : len ≤ run
    · rw [if_pos hfull, if_pos hfull]
    · rw [if_neg hfull, if_neg hfull]
      have hstep : ∀ c', fatMerge disk data maxRead len (fuel + more) c'
            (run + min (len - run) data.clusterSize) (clusters + 1)
          = fatMerge disk data maxRead len fuel c' (run + min (len - run) data.clusterSize)
            (clusters + 1) := fun c' => fatMerge_fuel (by omega)
      simp only [hstep]

theorem fatMerge_grows {len : ℕ} : ∀ {fuel run clusters run' clusters' : ℕ} {c c' : FatCursor},
    fatMerge disk data maxRead len fuel c run clusters = (.ok (run', clusters'), c') → run ≤ run'
  | 0, run, clusters, run', clusters', c, c', h => by
    cases h
    exact Nat.le_refl _
  | fuel + 1, run, clusters, run', clusters', c, c', h => by
    rw [fatMerge] at h
    split_ifs at h with hfull hmax
    · cases h
      exact Nat.le_refl _
    · cases h
      exact Nat.le_refl _
    · rcases hhop : fatHop disk data c with ⟨e | _ | _, c₁⟩
      · rw [hhop] at h
        cases h
      · rw [hhop] at h
        cases h
        exact Nat.le_refl _
      · rw [hhop] at h
        simp only at h
        split_ifs at h with hgap
        · cases h
          exact Nat.le_refl _
        · have hle := fatMerge_grows h
          omega

theorem fatReadLoop_fuel {torn : ℕ → Bool} {more : ℕ} : ∀ {fuel logical offset len : ℕ} {c : FatCursor},
    offset < data.clusterSize → len ≤ fuel →
      fatReadLoop disk data maxRead torn (fuel + more) c logical offset len
        = fatReadLoop disk data maxRead torn fuel c logical offset len
  | 0, logical, offset, len, c, _, hlen => by
    obtain rfl := Nat.le_zero.mp hlen
    rw [Nat.zero_add]
    cases more with
    | zero => rfl
    | succ more => rw [fatReadLoop, fatReadLoop, if_pos rfl]
  | fuel + 1, logical, offset, len, c, hoff, hlen => by
    rw [Nat.add_right_comm, fatReadLoop, fatReadLoop]
    by_cases hzero : len = 0
    · rw [if_pos hzero, if_pos hzero]
    rw [if_neg hzero, if_neg hzero]
    rcases fatWalk disk data (logical - c.num) c with ⟨e | _ | _, c₁⟩
    · rfl
    · rfl
    simp only
    rw [fatMerge_fuel (by omega)]
    by_cases hbad : c₁.cluster < 2 ∨ data.numClusters ≤ c₁.cluster
    · rw [if_pos hbad, if_pos hbad]
    rw [if_neg hbad, if_neg hbad]
    rcases hrun : fatMerge disk data maxRead len fuel c₁ (min (data.clusterSize - offset) len) 1 with
      ⟨e | ⟨run, clusters⟩, c₂⟩
    · rfl
    · have hgrows := fatMerge_grows hrun
      simp only
      rw [fatReadLoop_fuel clusterSize_pos (by omega)]

/-- The cursor is invisible: reads return what a fresh node returns, after any other reads, also where
these have failed. -/
theorem fat_cursor_transparent : FatTransparent disk data maxRead node := by
  have hopened : FatInv disk data node fatOpened := fun hlt => by
    have hmax := data.numClusters_lt
    have hnum : fatOpened.num = 2 ^ 32 - 1 := rfl
    omega
  refine ⟨fun rs r => ?_, fun rs r => ?_, fun torn c logical offset len more hoff =>
    fatReadLoop_fuel hoff (Nat.le_refl len)⟩
  · have hinv := after_inv (fun c r hc => (@grubFatReadData_spec disk data maxRead node c hc r).2)
      hopened rs
    exact (grubFatReadData_spec hinv r).1
  · have hinv := after_inv (fun c r hc => (@grubFatRead_spec disk data maxRead node c hc r).2)
      hopened rs
    exact (grubFatRead_spec hinv r).1

end FsRover
