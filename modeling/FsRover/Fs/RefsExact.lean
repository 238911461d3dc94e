import FsRover.Fs.Refs
import Mathlib.Data.List.Sort

/-!
# Checkpoints of ReFS leave no trace

Everything that a load changes is cleared by `grub_refs_reset_checkpoint`, wherever the load ends, and
a load that runs out of memory ends the mount.

## Main definitions

* `FsRover.refsMountRun`, `FsRover.refsMountAlone` : the mount as the driver does it, and with a fresh
  structure for each checkpoint.

## Main results

* `FsRover.frugal_refsLoad` : what a load keeps, and that it passes over no failed allocation.
-/

namespace FsRover

open Scarce

variable {α : Type} {disk : RefsDisk} {node : Buf} {refBase : ℕ}

/-- The part of the structure that no checkpoint changes is what a reset leaves of it. -/
abbrev RefsFrugal (x : RefsM α) : Prop := Frugal refsIsOom grubRefsResetCheckpoint x

/-- A computation that only reads. -/
abbrev RefsReads (x : RefsM α) : Prop := Frugal refsIsOom id x

/-! ### Nodes and trees -/

theorem frugal_refsDiskRead (pos len : ℕ) : RefsReads (refsDiskRead disk pos len) := by
  rw [refsDiskRead]
  refine (frugal_alloc rfl).bind fun _ => ?_
  cases hread : disk.read pos len with
  | error e => exact frugal_throw (decide_eq_false (disk.code_ne hread))
  | ok p => exact frugal_pure p

theorem frugal_refsReadChunks (blocks : List ℕ) (identity : Bool) (left i : ℕ) (buf : Buf) :
    RefsReads (refsReadChunks disk blocks identity left i buf) := by
  induction left generalizing i buf with
  | zero => exact frugal_pure buf
  | succ left ih =>
    rw [refsReadChunks]
    refine frugal_look.bind fun data => frugal_ite (fun _ => frugal_throw rfl) fun _ => ?_
    exact (frugal_refsDiskRead _ _).bind fun p => ih _ _

theorem frugal_grubRefsReadNode (blocks : List ℕ) (identity : Bool) (sig : List UInt8) :
    RefsReads (grubRefsReadNode disk blocks identity sig) := by
  rw [grubRefsReadNode]
  refine frugal_ite (fun _ => frugal_throw rfl) fun _ => frugal_look.bind fun data => ?_
  refine (frugal_refsReadChunks _ _ _ _ _).bind fun buf => ?_
  exact frugal_ite (fun _ => frugal_throw rfl) fun _ => frugal_pure buf

theorem frugal_grubRefsWalkPush (w : RefsQueue) (b : List ℕ) : RefsReads (grubRefsWalkPush w b) := by
  rw [grubRefsWalkPush]
  exact frugal_ite (fun _ => (frugal_alloc rfl).bind fun _ => frugal_pure _) fun _ => frugal_pure _

variable {hook : RefsEntry → RefsM Bool}

theorem frugal_refsWalkEntries (hhook : ∀ entry, RefsFrugal (hook entry)) (entries : List RefsEntry)
    (w : RefsQueue) : RefsFrugal (refsWalkEntries hook entries w) := by
  induction entries generalizing w with
  | nil => exact frugal_pure _
  | cons entry entries ih =>
    rw [refsWalkEntries, grubRefsWalkEntry]
    refine Frugal.bind (frugal_ite (fun _ => frugal_look.bind fun data => ?_) fun _ => ?_) fun r => ?_
    · split
      · exact frugal_pure _
      · exact (frugal_grubRefsWalkPush _ _).of_id.bind fun w => frugal_pure _
    · exact (hhook entry).bind fun stop => frugal_pure _
    · exact frugal_ite (fun _ => frugal_pure _) fun _ => ih r.1

theorem refsIsOom_refsTableEntries {data : RefsData} {table : Buf} {avail : ℕ} {e : GrubError}
    (h : refsTableEntries data table avail = .error e) : refsIsOom e = false := by
  rw [refsTableEntries] at h
  split_ifs at h
  all_goals
    cases h
    rfl

theorem frugal_refsWalkLoop (hhook : ∀ entry, RefsFrugal (hook entry)) (nodes : ℕ) (w : RefsQueue) :
    RefsFrugal (refsWalkLoop disk hook nodes w) := by
  obtain ⟨pending, len, cap⟩ := w
  induction nodes generalizing pending len cap with
  | zero =>
    cases pending with
    | nil => exact frugal_pure _
    | cons b pending => exact frugal_throw rfl
  | succ nodes ih =>
    cases pending with
    | nil => exact frugal_pure _
    | cons b pending =>
      rw [refsWalkLoop]
      refine (frugal_grubRefsReadNode _ _ _).of_id.bind fun buf => frugal_look.bind fun data => ?_
      refine frugal_ite (fun _ => frugal_throw rfl) fun _ => ?_
      cases hentries : refsTableEntries data
        (buf.from (data.headerSize + lostLe32 buf data.headerSize))
        (data.blockSize - data.headerSize - lostLe32 buf data.headerSize) with
      | error e =>
        exact frugal_throw (refsIsOom_refsTableEntries hentries)
      | ok entries =>
        refine (frugal_refsWalkEntries hhook entries _).bind fun r => ?_
        exact frugal_ite (fun _ => frugal_pure _) fun _ => ih _ _ _

theorem frugal_refsWalkRoot (hhook : ∀ entry, RefsFrugal (hook entry)) (root : Option (List ℕ)) :
    RefsFrugal (refsWalkRoot disk hook root) := by
  cases root with
  | none => exact frugal_pure _
  | some b =>
    rw [refsWalkRoot, grubRefsWalkTree]
    refine Frugal.bind ?_ fun _ => frugal_pure _
    refine (frugal_alloc rfl).bind fun _ => (frugal_grubRefsWalkPush _ _).of_id.bind fun w => ?_
    exact frugal_refsWalkLoop hhook _ w

/-! ### The hooks -/

theorem frugal_grubRefsMapHook (entry : RefsEntry) : RefsFrugal (grubRefsMapHook entry) := by
  rw [grubRefsMapHook]
  refine frugal_ite (fun _ => frugal_pure _) fun _ => frugal_ite (fun _ => frugal_pure _) fun _ => ?_
  refine Frugal.bind (frugal_alloc rfl) fun _ => ?_
  exact Frugal.bind (frugal_update fun _ => rfl) fun _ => frugal_pure _

theorem frugal_refsCompactMap (i : ℕ) (entry : RefsMapEntry) (value : Buf) (valueSize : ℕ) :
    RefsFrugal (refsCompactMap i entry value valueSize) := by
  rw [refsCompactMap]
  refine frugal_look.bind fun data => frugal_ite (fun _ => frugal_throw rfl) fun _ => ?_
  refine Frugal.bind (frugal_allocBoth rfl (fun _ => rfl) fun _ => rfl) fun _ => ?_
  exact Frugal.bind (frugal_update fun _ => rfl) fun _ => frugal_pure _

theorem frugal_refsCompressionRange (entry : RefsMapEntry) (value : Buf) (valueSize : ℕ) :
    RefsFrugal (refsCompressionRange entry value valueSize) := by
  rw [refsCompressionRange]
  refine frugal_look.bind fun data => frugal_ite (fun _ => frugal_throw rfl) fun _ => ?_
  refine frugal_ite (fun _ => frugal_throw rfl) fun _ => Frugal.bind (frugal_alloc rfl) fun _ => ?_
  refine Frugal.bind ?_ fun _ => ?_
  · rw [refsAllocChecksums]
    exact frugal_ite (fun _ => frugal_alloc rfl) fun _ => frugal_pure _
  refine frugal_ite (fun _ => frugal_throw rfl) fun _ => Frugal.bind (frugal_alloc rfl) fun _ => ?_
  exact Frugal.bind (frugal_update fun _ => rfl) fun _ => frugal_pure _

theorem frugal_grubRefsCompressionHook (entry : RefsEntry) :
    RefsFrugal (grubRefsCompressionHook entry) := by
  rw [grubRefsCompressionHook]
  refine frugal_look.bind fun data => frugal_ite (fun _ => frugal_pure _) fun _ => ?_
  refine frugal_ite (fun _ => frugal_pure _) fun _ => frugal_ite (fun _ => frugal_throw rfl) fun _ => ?_
  split
  · exact frugal_throw rfl
  · exact frugal_ite (fun _ => frugal_refsCompactMap _ _ _ _) fun _ =>
      frugal_refsCompressionRange _ _ _

/-! ### Loading a checkpoint -/

theorem frugal_refsRootAt (i : ℕ) : RefsReads (refsRootAt disk node refBase i) := by
  rw [refsRootAt]
  refine frugal_look.bind fun data => frugal_ite (fun _ => frugal_pure _) fun _ => ?_
  split
  · exact frugal_pure _
  · refine Frugal.recover ?_ fun _ => frugal_pure _
    exact (frugal_grubRefsReadNode _ _ _).bind fun tmp => frugal_pure _

theorem frugal_refsFindContainers (l : List ℕ) :
    RefsFrugal (refsFindContainers disk node refBase l) := by
  induction l with
  | nil => exact frugal_pure _
  | cons i l ih =>
    rw [refsFindContainers]
    refine (frugal_refsRootAt i).of_id.bind fun root => frugal_look.bind fun data => ?_
    cases root with
    | none => exact ih
    | some r =>
      refine frugal_ite (fun _ => ?_) fun _ => ih
      refine Frugal.bind ?_ fun _ => frugal_pure _
      rw [refsSetPolicy]
      exact frugal_ite (fun _ => frugal_update fun _ => rfl) fun _ => frugal_pure _

theorem frugal_refsFindTables (l : List ℕ) (index : Option (List ℕ)) :
    RefsFrugal (refsFindTables disk node refBase l index) := by
  induction l generalizing index with
  | nil => exact frugal_pure _
  | cons i l ih =>
    rw [refsFindTables]
    refine (frugal_refsRootAt i).of_id.bind fun root => frugal_look.bind fun data => ?_
    cases root with
    | none => exact ih index
    | some r =>
      refine frugal_ite (fun _ => ?_) fun _ => frugal_ite (fun _ => ih _) fun _ => ih _
      exact Frugal.bind (frugal_update fun _ => rfl) fun _ => ih _

theorem frugal_refsLoadCompression : RefsFrugal refsLoadCompression := by
  rw [refsLoadCompression]
  refine frugal_look.bind fun data => frugal_ite (fun _ => frugal_pure _) fun _ => ?_
  refine frugal_ite (fun _ => frugal_throw rfl) fun _ => frugal_ite (fun _ => frugal_throw rfl) fun _ => ?_
  exact frugal_allocBoth rfl (fun _ => rfl) fun _ => rfl

theorem frugal_refsLoadContainers (l : List ℕ) :
    RefsFrugal (refsLoadContainers disk node refBase l) := by
  rw [refsLoadContainers]
  refine frugal_look.bind fun data => frugal_ite (fun _ => frugal_pure _) fun _ => ?_
  exact (frugal_refsFindContainers l).bind (frugal_refsWalkRoot frugal_grubRefsMapHook)

theorem frugal_grubRefsLoadCheckpoint (v312 : Bool) :
    RefsFrugal (grubRefsLoadCheckpoint disk node v312) := by
  rw [grubRefsLoadCheckpoint]
  refine frugal_look.bind fun data => frugal_ite (fun _ => frugal_throw rfl) fun _ => ?_
  refine Frugal.bind (frugal_alloc rfl) fun _ => (frugal_refsLoadContainers _).bind fun _ => ?_
  refine (frugal_refsFindTables _ _).bind fun index => ?_
  refine (frugal_refsWalkRoot frugal_grubRefsCompressionHook index).bind fun _ => ?_
  refine frugal_refsLoadCompression.bind fun _ => frugal_look.bind fun data => ?_
  exact frugal_ite (fun _ => frugal_throw rfl) fun _ => frugal_pure _

/-- A load keeps everything that a reset keeps, wherever it ends. -/
theorem frugal_refsLoad (v312 : Bool) (block : ℕ) : RefsFrugal (refsLoad disk v312 block) := by
  rw [refsLoad]
  exact (frugal_grubRefsReadNode _ _ _).of_id.bind fun node => frugal_grubRefsLoadCheckpoint v312

/-! ### The mount -/

theorem frugal_refsCheckpointSeq (block : ℕ) : RefsReads (refsCheckpointSeq disk block) := by
  rw [refsCheckpointSeq]
  refine frugal_ite (fun _ => frugal_pure _) fun _ => Frugal.recover ?_ fun _ => frugal_pure _
  exact (frugal_grubRefsReadNode _ _ _).bind fun node => frugal_look.bind fun data => frugal_pure _

theorem frugal_refsFallback (v312 : Bool) (blocks : List ℕ) :
    RefsFrugal (refsFallback disk v312 blocks) := by
  induction blocks with
  | nil => exact frugal_throw rfl
  | cons block blocks ih =>
    rw [refsFallback]
    refine Frugal.bind (Frugal.recover ?_ fun _ => ?_) fun loaded => ?_
    · exact (frugal_refsLoad v312 block).bind fun _ => frugal_pure _
    · exact Frugal.bind (frugal_update fun _ => rfl) fun _ => frugal_pure _
    · exact frugal_ite (fun _ => frugal_pure _) fun _ => ih

/-- The superblock fills the structure, so it keeps nothing. -/
theorem frugal_refsSuperblock : Frugal refsIsOom (fun _ => ()) (refsSuperblock disk) := by
  rw [refsSuperblock]
  refine (frugal_refsDiskRead _ _).of_id.bind fun bs => frugal_ite (fun _ => frugal_throw rfl) fun _ => ?_
  refine frugal_ite (fun _ => frugal_throw rfl) fun _ => Frugal.bind (frugal_alloc rfl) fun _ => ?_
  refine Frugal.bind (frugal_update fun _ => rfl) fun _ => frugal_look.bind fun data => ?_
  refine Frugal.bind (frugal_alloc rfl) fun _ => (frugal_grubRefsReadNode _ _ _).of_id.bind fun node => ?_
  exact frugal_ite (fun _ => frugal_throw rfl) fun _ => frugal_pure _

theorem frugal_grubRefsMount : Frugal refsIsOom (fun _ => ()) (grubRefsMount disk) := by
  rw [grubRefsMount]
  refine frugal_refsSuperblock.bind fun r => ?_
  refine (frugal_refsCheckpointSeq r.2.1).of_id.bind fun seq => ?_
  refine (frugal_refsCheckpointSeq r.2.2).of_id.bind fun seq' => ?_
  refine Frugal.bind ?_ fun _ => frugal_look
  exact (frugal_refsFallback r.1 _).of_keep fun _ => ()

/-! ### Each checkpoint alone -/

/-- A checkpoint that can be read, with its number. -/
def refsNumbered (disk : RefsDisk) (fresh : RefsData) (block : ℕ) : Option (ℕ × ℕ) :=
  if block = 0 then none
  else
    match plain (grubRefsReadNode disk (refsConsecutive block) true REFS_SIG_CHKP) fresh with
    | .ok node _ => some (block, lostLe64 node (fresh.headerSize + 0x10))
    | .error _ _ => none

/-- Checkpoints by falling numbers; of two with the same number the first one is in front. -/
def refsNewestFirst (numbered : List (ℕ × ℕ)) : List ℕ :=
  (numbered.insertionSort fun a b => b.2 ≤ a.2).map Prod.fst

/-- What a fresh structure becomes when one checkpoint is loaded, if that succeeds. -/
def refsLoadedAlone (disk : RefsDisk) (v312 : Bool) (fresh : RefsData) (block : ℕ) :
    Option RefsData :=
  match plain (refsLoad disk v312 block) fresh with
  | .ok _ data => some data
  | .error _ _ => none

/-- The newest checkpoint that can be loaded into a fresh structure. -/
def refsMountAlone (disk : RefsDisk) : Except GrubError RefsData :=
  match plain (refsSuperblock disk) {} with
  | .error e _ => .error e
  | .ok (v312, l1, l1') fresh =>
    let numbered := [l1, l1'].filterMap (refsNumbered disk fresh)
    match (refsNewestFirst numbered).findSome? (refsLoadedAlone disk v312 fresh) with
    | some data => .ok data
    | none => .error ⟨.badFs, "refs: no valid checkpoint"⟩

/-- The mount with these fates of its allocations, and those that it leaves. -/
def refsMountRun (disk : RefsDisk) (fates : List Bool) : Except GrubError RefsData × List Bool :=
  match grubRefsMount disk ⟨{}, fates⟩ with
  | .ok data s => (.ok data, s.fates)
  | .error e s => (.error e, s.fates)

theorem plain_refsCheckpointSeq (disk : RefsDisk) (fresh : RefsData) (block : ℕ) :
    plain (refsCheckpointSeq disk block) fresh
      = .ok ((refsNumbered disk fresh block).map Prod.snd) fresh := by
  have hread := @frugal_grubRefsReadNode disk (refsConsecutive block) true REFS_SIG_CHKP
  have hkeep := hread.keep_after fresh
  rw [refsCheckpointSeq, refsNumbered]
  split_ifs with hzero
  · rfl
  rw [Frugal.plain_recover (hread.bind fun node => frugal_look.bind fun data => frugal_pure _),
    hread.plain_bind]
  cases hplain : plain (grubRefsReadNode disk (refsConsecutive block) true REFS_SIG_CHKP) fresh with
  | ok node s =>
    rw [hplain] at hkeep
    obtain rfl : s = fresh := hkeep
    rfl
  | error e s =>
    rw [hplain] at hkeep
    obtain rfl : s = fresh := hkeep
    rfl

/-- The order of the source is that of falling numbers. -/
theorem refsOrder_eq {l1 l1' : ℕ} {n n' : Option (ℕ × ℕ)} (hn : ∀ r, n = some r → r.1 = l1)
    (hn' : ∀ r, n' = some r → r.1 = l1') :
    refsOrder (l1, n.map Prod.snd) (l1', n'.map Prod.snd)
      = refsNewestFirst ([n, n'].filterMap id) := by
  cases n with
  | none =>
    cases n' with
    | none => rfl
    | some b => exact congrArg (fun l => [l]) (hn' b rfl).symm
  | some a =>
    cases n' with
    | none => exact congrArg (fun l => [l]) (hn a rfl).symm
    | some b =>
      rw [← hn a rfl, ← hn' b rfl]
      by_cases hlt : a.2 < b.2
      · simp [refsOrder, refsNewestFirst, hlt, Nat.not_le_of_lt hlt]
      · simp [refsOrder, refsNewestFirst, hlt, Nat.le_of_not_lt hlt]

/-- Each checkpoint is tried on a fresh structure, whatever the one before it has left. -/
theorem plain_refsFallback (disk : RefsDisk) (v312 : Bool) {fresh : RefsData}
    (hfresh : grubRefsResetCheckpoint fresh = fresh) (blocks : List ℕ) :
    plain (refsFallback disk v312 blocks) fresh
      = match blocks.findSome? (refsLoadedAlone disk v312 fresh) with
        | some data => .ok () data
        | none => .error ⟨.badFs, "refs: no valid checkpoint"⟩ fresh := by
  induction blocks with
  | nil => rfl
  | cons block blocks ih =>
    have hload := @frugal_refsLoad disk v312 block
    have hkeep := hload.keep_after fresh
    have htry : RefsFrugal (do
        refsLoad disk v312 block
        pure true) := hload.bind fun _ => frugal_pure _
    have hreset : ∀ e : GrubError, RefsFrugal (do
        update grubRefsResetCheckpoint
        pure false) := fun _ => Frugal.bind (frugal_update fun _ => rfl) fun _ => frugal_pure _
    rw [refsFallback, (htry.recover hreset).plain_bind, htry.plain_recover, hload.plain_bind,
      List.findSome?_cons]
    cases hplain : plain (refsLoad disk v312 block) fresh with
    | ok _ data =>
      have halone : refsLoadedAlone disk v312 fresh block = some data := by
        rw [refsLoadedAlone, hplain]
      rw [halone]
      rfl
    | error e s =>
      have halone : refsLoadedAlone disk v312 fresh block = none := by rw [refsLoadedAlone, hplain]
      have hs : grubRefsResetCheckpoint s = fresh := by
        rw [← hfresh, ← hkeep, hplain]
        rfl
      rw [halone, ← ih, ← hs]
      rfl

theorem plain_refsDiskRead (pos len : ℕ) (data : RefsData) :
    plain (refsDiskRead disk pos len) data = match disk.read pos len with
      | .error e => .error e data
      | .ok p => .ok p data := by
  rw [refsDiskRead, plain_alloc_bind]
  cases disk.read pos len <;> rfl

/-- The structure that the superblock leaves has nothing of a checkpoint in it. -/
theorem refsSuperblock_fresh {r : Bool × ℕ × ℕ} {s : RefsData}
    (h : plain (refsSuperblock disk) {} = .ok r s) :
    ∃ bs, disk.read 0 512 = .ok bs ∧ s = refsFresh bs := by
  rw [refsSuperblock, (frugal_refsDiskRead 0 512).plain_bind, plain_refsDiskRead] at h
  cases hbs : disk.read 0 512 with
  | error e =>
    rw [hbs] at h
    cases h
  | ok bs =>
    simp only [hbs] at h
    split_ifs at h
    · cases h
    · cases h
    simp only [plain_alloc_bind, plain_update_bind, plain_look_bind] at h
    have hread := @frugal_grubRefsReadNode disk (refsConsecutive REFS_SUPERBLOCK_BLOCK) true
      REFS_SIG_SUPB
    have hkeep := hread.keep_after (refsFresh bs)
    rw [hread.plain_bind] at h
    cases hplain : plain (grubRefsReadNode disk (refsConsecutive REFS_SUPERBLOCK_BLOCK) true
      REFS_SIG_SUPB) (refsFresh bs) with
    | error e s' =>
      rw [hplain] at h
      cases h
    | ok node s' =>
      rw [hplain] at h hkeep
      obtain rfl : s' = refsFresh bs := hkeep
      simp only at h
      split_ifs at h
      · cases h
      all_goals
        cases h
        exact ⟨bs, rfl, rfl⟩

theorem grubRefsResetCheckpoint_fresh (bs : Buf) :
    grubRefsResetCheckpoint (refsFresh bs) = refsFresh bs := by
  simp only [refsFresh]
  split_ifs <;> rfl

/-- With memory, a mount is that of the newest checkpoint that can be loaded alone. -/
theorem plain_grubRefsMount (disk : RefsDisk) :
    (match plain (grubRefsMount disk) {} with
      | .ok data _ => Except.ok data
      | .error e _ => .error e) = refsMountAlone disk := by
  rw [grubRefsMount, frugal_refsSuperblock.plain_bind, refsMountAlone]
  cases hsuper : plain (refsSuperblock disk) {} with
  | error e s => rfl
  | ok r fresh =>
    obtain ⟨v312, l1, l1'⟩ := r
    obtain ⟨bs, -, rfl⟩ := refsSuperblock_fresh hsuper
    simp only
    rw [(frugal_refsCheckpointSeq l1).plain_bind, plain_refsCheckpointSeq]
    simp only
    rw [(frugal_refsCheckpointSeq l1').plain_bind, plain_refsCheckpointSeq]
    simp only
    have hfst : ∀ block r, refsNumbered disk (refsFresh bs) block = some r → r.1 = block := by
      intro block r h
      rw [refsNumbered] at h
      split_ifs at h
      split at h
      · obtain rfl := Option.some.inj h
        rfl
      · cases h
    rw [refsOrder_eq (hfst l1) (hfst l1'), (frugal_refsFallback v312 _).plain_bind,
      plain_refsFallback disk v312 (grubRefsResetCheckpoint_fresh bs)]
    have hnumbered : [l1, l1'].filterMap (refsNumbered disk (refsFresh bs))
        = [refsNumbered disk (refsFresh bs) l1, refsNumbered disk (refsFresh bs) l1'].filterMap id := by
      simp only [List.filterMap_cons, List.filterMap_nil, id_eq]
    rw [hnumbered]
    cases (refsNewestFirst _).findSome? (refsLoadedAlone disk v312 (refsFresh bs)) <;> rfl

/-- What holds of every mount. -/
structure RefsMountExact (disk : RefsDisk) (fates : List Bool) : Prop where
  mount : ∃ used left, fates = used ++ left
    ∧ (false ∈ used → ∃ e : GrubError, e.code = .outOfMemory
      ∧ refsMountRun disk fates = (.error e, left))
    ∧ (false ∉ used → refsMountRun disk fates = (refsMountAlone disk, left))
  fresh : ∀ r s, plain (refsSuperblock disk) {} = .ok r s →
    ∃ bs, disk.read 0 512 = .ok bs ∧ s = refsFresh bs

/-- A mount ends for want of memory if an allocation fails, and otherwise is the newest checkpoint that
can be loaded, loaded alone. -/
theorem refs_mount_exact (disk : RefsDisk) (fates : List Bool) : RefsMountExact disk fates where
  mount := by
    obtain ⟨used, left, hl, hfailed, hplain⟩ := @frugal_grubRefsMount disk {} fates
    refine ⟨used, left, hl, fun hused => ?_, fun hused => ?_⟩
    · obtain ⟨e, s, hrun, he, -⟩ := hfailed hused
      exact ⟨e, of_decide_eq_true he, by rw [refsMountRun, hrun]⟩
    · rw [refsMountRun, (hplain hused).1, ← plain_grubRefsMount]
      cases plain (grubRefsMount disk) {} <;> rfl
  fresh _ _ h := refsSuperblock_fresh h

end FsRover
