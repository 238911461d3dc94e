import FsRover.Fs.Jffs2
import Mathlib.Data.List.Induction

/-!
# What an open JFFS2 file consists of

As long as no node of the inode ends at `2 ^ 32` or later, the sums of 32 bits are exact and the
fragments are those of the log of writes.

## Main definitions

* `FsRover.Jffs2Before` : the order of the nodes of an inode.
* `FsRover.jffs2Entry` : the entry of the log that a node is.
* `FsRover.Jffs2Rebuilt` : what the fragments of a file should be.

## Main results

* `FsRover.jffs2Scan_spec`, `FsRover.jffs2InoRefs_spec` : the nodes of an inode, in their order.
* `FsRover.jffs2FragInsert_eq`, `FsRover.jffs2FragTruncate_eq` : the operations on exact ends.
-/

namespace FsRover

open Fragments (Untouched)

/-! ### The scan -/

/-- A node as the scan records it. -/
structure Jffs2Recorded (media : Jffs2Media) (ref : Jffs2Ref) : Prop where
  ino_lt : ref.ino < 2 ^ 32
  isize_lt : ref.isize < 2 ^ 32
  dsize_eq : ref.dsize = media.get32 (media.disk.bytes.from ref.off) 52

theorem Jffs2Media.get32_lt (media : Jffs2Media) (p : Buf) (i : ℕ) : media.get32 p i < 2 ^ 32 := by
  rw [Jffs2Media.get32]
  split_ifs
  · exact lostBe32_lt p i
  · exact lostLe32_lt p i

theorem jffs2ScanRef_spec {media : Jffs2Media} {pos totlen : ℕ} {ref : Jffs2Ref}
    (h : jffs2ScanRef media pos totlen = some ref) : ref.off = pos ∧ Jffs2Recorded media ref := by
  simp only [jffs2ScanRef] at h
  split_ifs at h
  obtain rfl := Option.some.inj h
  exact ⟨rfl, Jffs2Media.get32_lt .., Jffs2Media.get32_lt .., rfl⟩

/-- A node of almost `2 ^ 32` bytes is not skipped. -/
theorem jffs2ScanFrom_stuck {media : Jffs2Media} {pos totlen : ℕ}
    (hsize : pos + 12 ≤ media.size) (hnode : jffs2NodeLen media pos = some totlen)
    (hzero : u32 (totlen + 3) / 4 * 4 = 0) (fuel : ℕ) : jffs2ScanFrom media fuel pos = none := by
  induction fuel with
  | zero => rfl
  | succ fuel ih =>
    rw [jffs2ScanFrom, if_pos hsize, hnode]
    simp only
    rw [hzero, Nat.add_zero, ih, Option.map_none]

/-- The scan records nodes in the order of their positions. -/
theorem jffs2Scan_spec {media : Jffs2Media} : ∀ {fuel pos : ℕ} {refs : List Jffs2Ref},
    jffs2ScanFrom media fuel pos = some refs →
      refs.Pairwise (fun a b => a.off < b.off)
        ∧ ∀ ref ∈ refs, pos ≤ ref.off ∧ Jffs2Recorded media ref
  | 0, _, _, h => by cases h
  | fuel + 1, pos, refs, h => by
    have hscan := h
    rw [jffs2ScanFrom] at h
    split_ifs at h with hsize
    · cases hnode : jffs2NodeLen media pos with
      | none =>
        rw [hnode] at h
        obtain ⟨hsorted, hrefs⟩ := jffs2Scan_spec h
        exact ⟨hsorted, fun ref hmem => ⟨by have := (hrefs ref hmem).1; omega, (hrefs ref hmem).2⟩⟩
      | some totlen =>
        have hadvance : 0 < u32 (totlen + 3) / 4 * 4 := by
          by_contra hzero
          rw [jffs2ScanFrom_stuck hsize hnode (by omega)] at hscan
          cases hscan
        rw [hnode] at h
        obtain ⟨rest, hrest, rfl⟩ := Option.map_eq_some_iff.mp h
        obtain ⟨hsorted, hrefs⟩ := jffs2Scan_spec hrest
        have hlater : ∀ ref ∈ rest, pos < ref.off := fun ref hmem => by
          have := (hrefs ref hmem).1
          omega
        cases href : jffs2ScanRef media pos totlen with
        | none =>
          exact ⟨hsorted, fun ref hmem => ⟨Nat.le_of_lt (hlater ref hmem), (hrefs ref hmem).2⟩⟩
        | some first =>
          obtain ⟨hoff, hrecorded⟩ := jffs2ScanRef_spec href
          refine ⟨List.pairwise_cons.mpr ⟨fun ref hmem => hoff ▸ hlater ref hmem, hsorted⟩, ?_⟩
          intro ref hmem
          rcases List.mem_cons.mp hmem with rfl | hmem
          · exact ⟨Nat.le_of_eq hoff.symm, hrecorded⟩
          · exact ⟨Nat.le_of_lt (hlater ref hmem), (hrefs ref hmem).2⟩
    · obtain rfl := Option.some.inj h
      exact ⟨.nil, fun _ hmem => by cases hmem⟩

/-! ### The nodes of an inode -/

/-- The order of the nodes of an inode: by version, and by position where the versions are equal. -/
def Jffs2Before (a b : Jffs2Ref) : Prop :=
  a.version < b.version ∨ (a.version = b.version ∧ a.off < b.off)

theorem jffs2RefLe_iff {a b : Jffs2Ref} :
    jffs2RefLe a b = true ↔ a.ino < b.ino ∨ (a.ino = b.ino ∧ a.version ≤ b.version) := by
  rw [jffs2RefLe]
  split_ifs with h <;> simp <;> omega

theorem jffs2RefLe_trans (a b c : Jffs2Ref) (hab : jffs2RefLe a b) (hbc : jffs2RefLe b c) :
    jffs2RefLe a c := by
  rw [jffs2RefLe_iff] at *
  omega

theorem jffs2RefLe_total (a b : Jffs2Ref) : jffs2RefLe a b || jffs2RefLe b a := by
  rw [Bool.or_eq_true, jffs2RefLe_iff, jffs2RefLe_iff]
  omega

/-- The first node with an inode number from `ino` on. -/
theorem jffs2RefLower_spec {refs : List Jffs2Ref}
    (hsorted : refs.Pairwise (fun a b => jffs2RefLe a b))
    (ino : ℕ) {i : ℕ} {ref : Jffs2Ref} (hi : refs[i]? = some ref) :
    ref.ino < ino ↔ i < jffs2RefLower refs ino := by
  have hmono : ∀ i j, i ≤ j → j < refs.length →
      (refs[j]?.any fun ref => ref.ino < ino) = true →
        (refs[i]?.any fun ref => ref.ino < ino) = true := by
    intro i j hij hj hlt
    have hi : i < refs.length := by omega
    rw [List.getElem?_eq_getElem hj] at hlt
    rw [List.getElem?_eq_getElem hi]
    simp only [Option.any_some, decide_eq_true_eq] at hlt ⊢
    rcases Nat.eq_or_lt_of_le hij with rfl | hij
    · exact hlt
    · have hle := jffs2RefLe_iff.mp (List.pairwise_iff_getElem.mp hsorted i j hi hj hij)
      omega
  obtain ⟨hlen, hget⟩ := List.getElem?_eq_some_iff.mp hi
  constructor
  · intro hlt
    by_contra hge
    have hnot := Bisect.not_of_le hmono (Nat.not_lt.mp hge) hlen
    rw [hi] at hnot
    simp [hlt] at hnot
  · intro hlt
    have hpred := Bisect.pred_of_lt hmono hlt
    rw [hi] at hpred
    simpa using hpred

/-- The elements of a list at the places from `lo` to `hi`, when they are those with a property. -/
theorem filter_eq_slice {α : Type*} {l : List α} {p : α → Bool} {lo hi : ℕ}
    (h : ∀ i a, l[i]? = some a → (p a = true ↔ lo ≤ i ∧ i < hi)) :
    l.filter p = (l.drop lo).take (hi - lo) := by
  induction l generalizing lo hi with
  | nil => simp
  | cons a l ih =>
    have hfirst := h 0 a rfl
    have hrest := fun i b (hb : l[i]? = some b) => h (i + 1) b hb
    cases lo with
    | zero =>
      cases hi with
      | zero =>
        have hnot : ¬ p a = true := by simp [hfirst]
        have hrec := @ih 0 0 fun i b hb => by simpa using hrest i b hb
        simp [hnot, hrec]
      | succ hi =>
        have hpos : p a = true := by simp [hfirst]
        have hrec := @ih 0 hi fun i b hb => by simpa using hrest i b hb
        simp [hpos, hrec]
    | succ lo =>
      have hnot : ¬ p a = true := by simp [hfirst]
      have hrec := @ih lo (hi - 1) fun i b hb => by
        rw [hrest i b hb]
        omega
      rw [List.filter_cons_of_neg hnot, hrec, List.drop_succ_cons]
      congr 1
      omega

/-- The nodes that `grub_jffs2_open_ino` goes through are those of the inode. -/
theorem jffs2InoRefs_eq {refs : List Jffs2Ref} (hsorted : refs.Pairwise (fun a b => jffs2RefLe a b))
    (hlt : ∀ ref ∈ refs, ref.ino < 2 ^ 32) (ino : ℕ) :
    jffs2InoRefs refs ino = refs.filter (·.ino = ino) := by
  refine (filter_eq_slice fun i ref hi => ?_).symm
  have hlo := jffs2RefLower_spec hsorted ino hi
  have hhi := jffs2RefLower_spec hsorted (ino + 1) hi
  have hmax := hlt ref (List.mem_of_getElem? hi)
  obtain ⟨hlen, -⟩ := List.getElem?_eq_some_iff.mp hi
  simp only [decide_eq_true_eq]
  split_ifs <;> omega

/-- The nodes of an inode after the sort, in their order. -/
theorem jffs2InoRefs_spec {refs : List Jffs2Ref} (hoff : refs.Pairwise (fun a b => a.off < b.off))
    (hlt : ∀ ref ∈ refs, ref.ino < 2 ^ 32) (ino : ℕ) :
    (jffs2InoRefs (jffs2SortRefs refs) ino).Perm (refs.filter (·.ino = ino))
      ∧ (jffs2InoRefs (jffs2SortRefs refs) ino).Pairwise Jffs2Before := by
  have hperm : (jffs2SortRefs refs).Perm refs := MergeRuns.sort_perm refs
  have hsorted : (jffs2SortRefs refs).Pairwise (fun a b => jffs2RefLe a b) :=
    MergeRuns.pairwise_sort jffs2RefLe_trans jffs2RefLe_total refs
  rw [jffs2InoRefs_eq hsorted fun ref hmem => hlt ref (hperm.mem_iff.mp hmem)]
  refine ⟨hperm.filter _, List.pairwise_iff_forall_sublist.mpr ?_⟩
  intro a b hsub
  have hpair := List.pairwise_iff_forall_sublist.mp hsorted (hsub.trans List.filter_sublist)
  have hmem : ∀ c ∈ [a, b], c.ino = ino := fun c hc => by
    simpa using (List.mem_filter.mp (hsub.subset hc)).2
  have ha := hmem a (by simp)
  have hb := hmem b (by simp)
  rw [jffs2RefLe_iff] at hpair
  rcases Nat.lt_or_ge a.version b.version with hver | hver
  · exact .inl hver
  · -- nodes of one version are in the order of the media
    refine .inr ⟨by omega, ?_⟩
    let same : Jffs2Ref → Bool := fun c => c.ino = a.ino ∧ c.version = a.version
    have hstable : (jffs2SortRefs refs).filter same = refs.filter same := by
      refine MergeRuns.filter_sort jffs2RefLe_trans jffs2RefLe_total (fun c d hc hd => ?_) refs
      simp only [same, decide_eq_true_eq] at hc hd
      rw [jffs2RefLe_iff]
      omega
    have hsame : [a, b].Sublist ((jffs2SortRefs refs).filter same) := by
      have hfilter := (hsub.trans List.filter_sublist).filter same
      rwa [List.filter_cons_of_pos (by simp [same]), List.filter_cons_of_pos
        (by simp only [same, decide_eq_true_eq]; omega), List.filter_nil] at hfilter
    rw [hstable] at hsame
    exact List.pairwise_iff_forall_sublist.mp (hoff.filter same) hsame

/-! ### Exact ends -/

section Exact

variable {frags : List Jffs2Frag} {lo hi : ℕ}

theorem jffs2Tail_eq (h : Fragments.Ascending lo hi frags) (hhi : hi < 2 ^ 32) {f : Jffs2Frag}
    (hf : f ∈ frags) : jffs2Tail f = f.start + f.len := by
  have hmem := (h.mem hf).2.2
  exact u32_of_lt (by omega)

theorem jffs2FragDrop_eq {stop : ℕ} (h : Fragments.Ascending lo hi frags) (hhi : hi < 2 ^ 32) :
    jffs2FragDrop stop frags = Fragments.above stop frags := by
  induction frags generalizing lo with
  | nil => rfl
  | cons f frags ih =>
    rw [jffs2FragDrop, Fragments.above, jffs2Tail_eq h hhi List.mem_cons_self, ih h.2.2]

/-- Truncation cuts off what lies from the size on. -/
theorem jffs2FragTruncate_eq {isize : ℕ} (h : Fragments.Ascending lo hi frags) (hhi : hi < 2 ^ 32) :
    jffs2FragTruncate frags isize = Fragments.below isize frags := by
  induction frags using List.reverseRecOn with
  | nil => rfl
  | append_singleton frags f ih =>
    have hf := h.mem (List.mem_append_right _ (List.mem_singleton_self f))
    have htail := jffs2Tail_eq h hhi (List.mem_append_right _ (List.mem_singleton_self f))
    have hbefore : ∀ g ∈ frags, g.start + g.len ≤ f.start := fun g hg =>
      (List.pairwise_append.mp h.pairwise).2.2 g hg f (List.mem_singleton_self f)
    have hfrags : Fragments.Ascending lo hi frags := by
      refine Extents.Ascending.mono ?_ (Nat.le_refl lo) (Nat.le_refl hi)
      clear ih htail hbefore hf
      induction frags generalizing lo with
      | nil => exact h.le
      | cons g frags ih => exact ⟨h.1, h.2.1, ih h.2.2⟩
    rw [jffs2FragTruncate, List.reverse_append, List.reverse_singleton, List.singleton_append,
      jffs2TruncateRev, htail]
    split_ifs with hstop hstart
    · rw [Fragments.below_append fun g hg => by have := hbefore g hg; omega, Fragments.below,
        if_pos hstop]
      simp [Fragments.below]
    · rw [Fragments.below_concat hf.2.1 hstart, ← ih hfrags]
      rfl
    · rw [Fragments.below_append fun g hg => by have := hbefore g hg; omega, Fragments.below,
        if_neg hstop, if_pos (by omega)]
      simp

/-- The bisection finds the first fragment that ends after `start`. -/
theorem jffs2FragIndex_spec {start : ℕ} (h : Fragments.Ascending lo hi frags) (hhi : hi < 2 ^ 32)
    {i : ℕ} {f : Jffs2Frag} (hi : frags[i]? = some f) :
    f.start + f.len ≤ start ↔ i < jffs2FragIndex frags start := by
  have hany : ∀ (i : ℕ) f, frags[i]? = some f →
      ((frags[i]?.any fun f => jffs2Tail f ≤ start) = true ↔ f.start + f.len ≤ start) := by
    intro i f hf
    rw [hf, Option.any_some, decide_eq_true_eq, jffs2Tail_eq h hhi (List.mem_of_getElem? hf)]
  have hmono : ∀ i j, i ≤ j → j < frags.length →
      (frags[j]?.any fun f => jffs2Tail f ≤ start) = true →
        (frags[i]?.any fun f => jffs2Tail f ≤ start) = true := by
    intro i j hij hj hle
    have hi : i < frags.length := by omega
    have hend := h.end_le hij (List.getElem?_eq_getElem hi) (List.getElem?_eq_getElem hj)
    rw [hany j _ (List.getElem?_eq_getElem hj)] at hle
    rw [hany i _ (List.getElem?_eq_getElem hi)]
    omega
  obtain ⟨hlen, -⟩ := List.getElem?_eq_some_iff.mp hi
  rw [← hany i f hi]
  constructor
  · intro hle
    by_contra hge
    have hnot := Bisect.not_of_le hmono (Nat.not_lt.mp hge) hlen
    rw [hle] at hnot
    cases hnot
  · exact fun hlt => Bisect.pred_of_lt hmono hlt

/-- An insertion replaces what the node covers. -/
theorem jffs2FragInsert_eq {ref : Jffs2Ref} (h : Fragments.Ascending lo hi frags)
    (hhi : hi < 2 ^ 32) (hpos : 0 < ref.dsize) (hend : ref.foffset + ref.dsize < 2 ^ 32) :
    jffs2FragInsert frags ref = Fragments.overwrite (jffs2NodeFrag ref) frags := by
  set i := jffs2FragIndex frags ref.foffset with hidx
  have hsplit : frags.take i ++ frags.drop i = frags := List.take_append_drop i frags
  have htake : ∀ f ∈ frags.take i, f.start + f.len ≤ ref.foffset := by
    intro f hf
    obtain ⟨k, hk⟩ := List.mem_iff_getElem?.mp hf
    rw [List.getElem?_take] at hk
    split_ifs at hk with hlt
    exact (jffs2FragIndex_spec h hhi hk).mpr hlt
  have hbelow : Fragments.below ref.foffset frags
      = frags.take i ++ Fragments.below ref.foffset (frags.drop i) := by
    conv_lhs => rw [← hsplit]
    exact Fragments.below_append htake
  have habove : Fragments.above (ref.foffset + ref.dsize) frags
      = Fragments.above (ref.foffset + ref.dsize) (frags.drop i) := by
    conv_lhs => rw [← hsplit]
    refine Fragments.above_append fun f hf => ?_
    have hle := htake f hf
    have hflen := (h.mem (List.mem_of_mem_take hf)).2.1
    omega
  rw [Fragments.overwrite, show (jffs2NodeFrag ref).start = ref.foffset from rfl,
    show (jffs2NodeFrag ref).len = ref.dsize from rfl, hbelow, habove, List.append_assoc]
  simp only [jffs2FragInsert, u32_of_lt hend]
  rw [← hidx]
  cases hdrop : frags.drop i with
  | nil => simp [Fragments.below, Fragments.above]
  | cons f rest =>
    have hfi : frags[i]? = some f := by
      rw [← List.head?_drop, hdrop, List.head?_cons]
    have hafter : ref.foffset < f.start + f.len := by
      by_contra hle
      exact Nat.lt_irrefl i ((jffs2FragIndex_spec h hhi hfi).mp (Nat.not_lt.mp hle))
    have hmem : ∀ g ∈ f :: rest, g ∈ frags := fun g hg =>
      List.mem_of_mem_drop (hdrop ▸ hg)
    have htail := jffs2Tail_eq h hhi (hmem f List.mem_cons_self)
    have hdropped : ∀ {l}, l <:+ f :: rest →
        jffs2FragDrop (ref.foffset + ref.dsize) l
          = Fragments.above (ref.foffset + ref.dsize) l := by
      intro l hl
      have hsuffix : l <:+ frags := hl.trans (hdrop ▸ List.drop_suffix i frags)
      obtain ⟨pre, rfl⟩ := hsuffix
      clear hdrop hfi hmem htail hl htake hbelow habove hsplit hidx
      induction pre generalizing lo with
      | nil => exact jffs2FragDrop_eq h hhi
      | cons g pre ih => exact ih h.2.2
    simp only [Fragments.below, if_neg (Nat.not_le.mpr hafter), htail]
    split_ifs with hleft hright
    · rw [jffs2FragDrop, if_neg (Nat.lt_irrefl _), Fragments.above, if_pos (by omega),
        if_pos hright]
      rfl
    · rw [hdropped (List.suffix_cons f rest), Fragments.above, if_pos (by omega), if_neg hright]
      rfl
    · rw [hdropped List.suffix_rfl]
      rfl

end Exact

/-! ### The log -/

/-- The entry of the log that a node is. -/
def jffs2Entry (ref : Jffs2Ref) : Fragments.Entry Jffs2Node := ⟨ref.isize, jffs2NodeFrag ref⟩

/-- What the fragments of an inode with the nodes `log`, in their order, should be. -/
structure Jffs2Rebuilt (log : List Jffs2Ref) (file : Jffs2File) : Prop where
  isize : file.isize = (log.getLast?.map (·.isize)).getD 0
  ascending : Fragments.Ascending 0 file.isize file.frags
  disjoint : file.frags.Pairwise fun a b => a.start + a.len ≤ b.start
  ends : ∀ f ∈ file.frags, f.start + f.len ≤ file.isize
  owned : ∀ f ∈ file.frags, ∃ n ∈ log, f.tag = ⟨n.foffset, n.off⟩
    ∧ n.foffset ≤ f.start ∧ f.start + f.len ≤ n.foffset + n.dsize
  shows : ∀ x < file.isize, ∀ n ∈ log,
    (∃ f ∈ file.frags, (f.start ≤ x ∧ x < f.start + f.len) ∧ f.tag = ⟨n.foffset, n.off⟩)
      ↔ ∃ pre post, log = pre ++ n :: post ∧ (n.foffset ≤ x ∧ x < n.foffset + n.dsize)
        ∧ Untouched x n.isize (post.map jffs2Entry)

/-- The loop of `grub_jffs2_open_ino` replays the log. -/
theorem jffs2Replay_eq {log : List Jffs2Ref} {file : Jffs2File}
    (h : Fragments.Ascending 0 (2 ^ 32 - 1) file.frags)
    (hlog : ∀ ref ∈ log, ref.foffset + ref.dsize < 2 ^ 32) :
    (log.foldl jffs2Replay file).isize
        = (Fragments.replay (file.isize, file.frags) (log.map jffs2Entry)).1
      ∧ (log.foldl jffs2Replay file).frags
        = (Fragments.replay (file.isize, file.frags) (log.map jffs2Entry)).2 := by
  induction log generalizing file with
  | nil => exact ⟨rfl, rfl⟩
  | cons ref log ih =>
    have hend := hlog ref List.mem_cons_self
    have hbound : (jffs2Entry ref).write.start + (jffs2Entry ref).write.len ≤ 2 ^ 32 - 1 := by
      change ref.foffset + ref.dsize ≤ _
      omega
    have hstep : ((jffs2Replay file ref).isize, (jffs2Replay file ref).frags)
        = Fragments.step (file.isize, file.frags) (jffs2Entry ref) := by
      have hkept : (if ref.isize < file.isize then jffs2FragTruncate file.frags ref.isize
          else file.frags) = (if ref.isize < file.isize then Fragments.below ref.isize file.frags
          else file.frags) := by
        rw [jffs2FragTruncate_eq h (by decide)]
      have hkeptAsc : Fragments.Ascending 0 (2 ^ 32 - 1) (if ref.isize < file.isize then
          Fragments.below ref.isize file.frags else file.frags) := by
        split_ifs
        · exact (Fragments.ascending_below h (Nat.zero_le _)).mono (Nat.le_refl _)
            (Nat.min_le_left _ _)
        · exact h
      simp only [jffs2Replay, Fragments.step]
      rw [hkept]
      by_cases hzero : ref.dsize = 0
      · rw [if_neg (by simpa using hzero), if_pos (show (jffs2Entry ref).write.len = 0 from hzero)]
        rfl
      · rw [if_pos hzero, if_neg (show ¬ (jffs2Entry ref).write.len = 0 from hzero),
          jffs2FragInsert_eq hkeptAsc (by decide) (Nat.pos_of_ne_zero hzero) hend]
        rfl
    have hnext : Fragments.Ascending 0 (2 ^ 32 - 1) (jffs2Replay file ref).frags := by
      have hasc := Fragments.ascending_step (s := (file.isize, file.frags)) h hbound
      rwa [← hstep] at hasc
    have hrec := ih hnext fun ref' hmem => hlog ref' (List.mem_cons_of_mem _ hmem)
    rwa [List.foldl_cons, List.map_cons, Fragments.replay, List.foldl_cons, ← hstep,
      ← Fragments.replay]

theorem jffs2_split {log : List Jffs2Ref} {pre post : List (Fragments.Entry Jffs2Node)}
    {e : Fragments.Entry Jffs2Node} (h : log.map jffs2Entry = pre ++ e :: post) :
    ∃ pre' n post', log = pre' ++ n :: post' ∧ e = jffs2Entry n
      ∧ post = post'.map jffs2Entry := by
  obtain ⟨pre', rest, rfl, -, hrest⟩ := List.map_eq_append_iff.mp h
  obtain ⟨n, post', rfl, hn, hpost⟩ := List.map_eq_cons_iff.mp hrest
  exact ⟨pre', n, post', rfl, hn.symm, hpost.symm⟩

/-- If no node of the inode ends at `2 ^ 32` or later, the file consists of what the log leaves. -/
theorem jffs2OpenIno_rebuilt {refs : List Jffs2Ref} {ino : ℕ}
    (hends : ∀ n ∈ jffs2InoRefs refs ino, n.foffset + n.dsize < 2 ^ 32)
    (hinj : ∀ a ∈ jffs2InoRefs refs ino, ∀ b ∈ jffs2InoRefs refs ino, a.off = b.off → a = b) :
    Jffs2Rebuilt (jffs2InoRefs refs ino) (jffs2OpenIno refs ino) := by
  set log := jffs2InoRefs refs ino with hlog
  have hstart : Fragments.Ascending 0 (2 ^ 32 - 1) ([] : List Jffs2Frag) := Nat.zero_le _
  obtain ⟨hsize, hfrags⟩ := @jffs2Replay_eq log ⟨[], 0⟩ hstart hends
  have hbounds : ∀ e ∈ log.map jffs2Entry, e.write.start + e.write.len ≤ 2 ^ 32 - 1 := by
    intro e he
    obtain ⟨n, hn, rfl⟩ := List.mem_map.mp he
    have hend := hends n hn
    change n.foffset + n.dsize ≤ _
    omega
  have hasc := Fragments.ascending_replay (s := (0, [])) hstart hbounds
  have hisize : (jffs2OpenIno refs ino).isize
      = (Fragments.replay (0, []) (log.map jffs2Entry)).1 := hsize
  have hopen : (jffs2OpenIno refs ino).frags = Fragments.below (jffs2OpenIno refs ino).isize
      (Fragments.replay (0, []) (log.map jffs2Entry)).2 := by
    rw [hisize, ← hsize, ← hfrags]
    refine @jffs2FragTruncate_eq _ 0 (2 ^ 32 - 1) _ ?_ (by decide)
    rw [hfrags]
    exact hasc
  have hshown : ∀ x t, Fragments.Shown (jffs2OpenIno refs ino).frags x t
      ↔ x < (jffs2OpenIno refs ino).isize ∧ ∃ pre n post, log = pre ++ n :: post
        ∧ (n.foffset ≤ x ∧ x < n.foffset + n.dsize) ∧ ⟨n.foffset, n.off⟩ = t
        ∧ Untouched x n.isize (post.map jffs2Entry) := by
    intro x t
    rw [hopen, Fragments.shown_below hasc, Fragments.shown_replay (s := (0, [])) hstart hbounds]
    simp only [Fragments.shown_nil, false_and, false_or]
    refine and_congr_right fun _ => ⟨?_, ?_⟩
    · rintro ⟨pre, e, post, hsplit, hcov, htag, hrest⟩
      obtain ⟨pre', n, post', hn, rfl, rfl⟩ := jffs2_split hsplit
      exact ⟨pre', n, post', hn, hcov, htag, hrest⟩
    · rintro ⟨pre, n, post, hsplit, hcov, htag, hrest⟩
      refine ⟨pre.map jffs2Entry, jffs2Entry n, post.map jffs2Entry, ?_, hcov, htag, hrest⟩
      rw [hsplit, List.map_append, List.map_cons]
  have hasc' : Fragments.Ascending 0 (jffs2OpenIno refs ino).isize
      (jffs2OpenIno refs ino).frags := by
    rw [hopen]
    exact (Fragments.ascending_below hasc (Nat.zero_le _)).mono (Nat.le_refl _)
      (Nat.min_le_right _ _)
  refine ⟨?_, hasc', hasc'.pairwise, fun f hf => (hasc'.mem hf).2.2, fun f hf => ?_,
    fun x hx n hn => ?_⟩
  · rw [hisize, Fragments.replay_fst, List.getLast?_map, Option.map_map]
    rfl
  · -- the first and the last byte of a fragment are of one node, since the tag names it
    have hlen := (hasc'.mem hf).2.1
    obtain ⟨-, pre, n, post, hsplit, hcov, htag, -⟩ :=
      (hshown f.start f.tag).mp ⟨f, hf, ⟨Nat.le_refl _, by omega⟩, rfl⟩
    obtain ⟨-, pre', n', post', hsplit', hcov', htag', -⟩ :=
      (hshown (f.start + f.len - 1) f.tag).mp ⟨f, hf, ⟨by omega, by omega⟩, rfl⟩
    have hn : n ∈ log := by simp [hsplit]
    have hn' : n' ∈ log := by simp [hsplit']
    obtain rfl := hinj n hn n' hn' (congrArg Jffs2Node.nodeOff (htag.trans htag'.symm))
    exact ⟨n, hn, htag.symm, hcov.1, by omega⟩
  · refine (hshown x ⟨n.foffset, n.off⟩).trans ⟨?_, ?_⟩
    · rintro ⟨-, pre, n', post, hsplit, hcov, htag, hrest⟩
      have hn' : n' ∈ log := by simp [hsplit]
      obtain rfl := hinj n' hn' n hn (congrArg Jffs2Node.nodeOff htag)
      exact ⟨pre, post, hsplit, hcov, hrest⟩
    · rintro ⟨pre, post, hsplit, hcov, hrest⟩
      exact ⟨hx, pre, n, post, hsplit, hcov, rfl, hrest⟩

end FsRover
