import FsRover.Fs.Jffs2Replay
import FsRover.Lib.Guards
import Mathlib.Data.List.Nodup

/-!
# Reads of JFFS2 files

The fragments of a file are gone through from the start of a read on, and the data of each comes
from its node, or from the node decoded last.

## Main definitions

* `FsRover.jffs2Byte` : the byte at a place of a file.
* `FsRover.jffs2PlainRead` : a read byte by byte, without the node decoded last.

## Main results

* `FsRover.jffs2ReadFrags_eq` : the loop over the fragments, from a place on.
* `FsRover.jffs2_replays` : if no node of the inode ends at `2 ^ 32` or later, the file is what its
  log leaves, and every sequence of reads returns its bytes.
-/

namespace FsRover

open Guards

variable {codec : Jffs2Codec} {media : Jffs2Media}

/-! ### Decoded nodes -/

theorem jffs2Whole_length {dsize : ℕ} {out node : List UInt8}
    (h : jffs2Whole dsize out = .ok node) : node.length = dsize := by
  rw [jffs2Whole] at h
  split_ifs at h with hlen
  rw [← Except.ok.inj h, List.length_take]
  omega

theorem jffs2Unpack_length {compr dsize : ℕ} {cbuf node : List UInt8}
    (h : jffs2Unpack codec compr dsize cbuf = .ok node) : node.length = dsize := by
  rw [jffs2Unpack] at h
  split_ifs at h
  · exact jffs2Whole_length h
  · split at h
    · cases h
    · exact jffs2Whole_length h
  · split at h
    · cases h
    · exact jffs2Whole_length h
  · split at h
    · cases h
    · split_ifs at h with hlen
      rw [← Except.ok.inj h, hlen]

theorem jffs2Decode_length {off : ℕ} {node : List UInt8}
    (h : jffs2Decode codec media off = .ok node) :
    node.length = media.get32 (media.disk.bytes.from off) 52 := by
  rw [jffs2Decode] at h
  obtain ⟨hdr, hread, h⟩ := bind_eq_ok_iff.mp h
  obtain rfl := SizedDisk.read_eq_ok hread
  simp only at h
  by_cases hzero : (media.disk.bytes.from off 56).toNat = 1
  · rw [if_pos hzero] at h
    rw [← Except.ok.inj h, List.length_replicate]
  · rw [if_neg hzero] at h
    obtain ⟨p, -, h⟩ := bind_eq_ok_iff.mp h
    split_ifs at h
    exact jffs2Unpack_length h

/-- The node decoded last is decoded from its place. -/
def Jffs2Cached (codec : Jffs2Codec) (media : Jffs2Media) (cache : Jffs2Cache) : Prop :=
  ∀ off node, cache = some (off, node) → jffs2Decode codec media off = .ok node

theorem jffs2LoadNode_eq {cache : Jffs2Cache} (h : Jffs2Cached codec media cache) (off : ℕ) :
    (jffs2LoadNode codec media cache off).1 = jffs2Decode codec media off
      ∧ Jffs2Cached codec media (jffs2LoadNode codec media cache off).2 := by
  rw [jffs2LoadNode]
  cases hfilter : cache.filter (·.1 = off) with
  | some entry =>
    obtain ⟨hcache, hoff⟩ := Option.filter_eq_some_iff.mp hfilter
    obtain rfl : entry.1 = off := by simpa using hoff
    exact ⟨(h entry.1 entry.2 hcache).symm, h⟩
  | none =>
    simp only
    cases hdecode : jffs2Decode codec media off with
    | error e => exact ⟨rfl, fun _ _ hnone => by cases hnone⟩
    | ok node =>
      refine ⟨rfl, fun off' node' hsome => ?_⟩
      obtain ⟨rfl, rfl⟩ := Prod.mk.inj (Option.some.inj hsome)
      exact hdecode

/-! ### Bytes -/

/-- The byte of a file at `x`: that of the node whose fragment `x` lies in, or zero. -/
def jffs2Byte (codec : Jffs2Codec) (media : Jffs2Media) (frags : List Jffs2Frag) (x : ℕ) :
    Except (Option GrubError) UInt8 :=
  match frags.find? fun f => f.start ≤ x ∧ x < f.start + f.len with
  | none => .ok 0
  | some f =>
    match jffs2Decode codec media f.tag.nodeOff with
    | .error e => .error (some e)
    | .ok node => .ok (node.getD (x - f.tag.nodeStart) 0)

/-- A read, byte by byte. -/
def jffs2PlainRead (codec : Jffs2Codec) (media : Jffs2Media) (file : Jffs2File)
    (request : ℕ × ℕ) : Except (Option GrubError) (List UInt8) :=
  if file.isize ≤ request.1 ∨ file.isize - request.1 < request.2 then .error (some jffs2PastEnd)
  else (List.range' request.1 request.2).mapM (jffs2Byte codec media file.frags)

theorem jffs2Byte_ne_none (frags : List Jffs2Frag) (x : ℕ) :
    jffs2Byte codec media frags x ≠ .error none := by
  rw [jffs2Byte]
  split
  · exact fun h => by cases h
  · split <;> exact fun h => by cases h

section Except

variable {ε β : Type}

theorem except_mapM_ok {f : ℕ → Except ε β} {g : ℕ → β} {l : List ℕ}
    (h : ∀ x ∈ l, f x = .ok (g x)) : l.mapM f = .ok (l.map g) := by
  induction l with
  | nil => rfl
  | cons x l ih =>
    rw [List.mapM_cons, h x List.mem_cons_self, ih fun y hy => h y (List.mem_cons_of_mem _ hy)]
    rfl

theorem except_mapM_congr {f g : ℕ → Except ε β} {l : List ℕ} (h : ∀ x ∈ l, f x = g x) :
    l.mapM f = l.mapM g := by
  induction l with
  | nil => rfl
  | cons x l ih =>
    rw [List.mapM_cons, List.mapM_cons, h x List.mem_cons_self,
      ih fun y hy => h y (List.mem_cons_of_mem _ hy)]

theorem except_mapM_ne {f : ℕ → Except ε β} {e : ε} {l : List ℕ}
    (h : ∀ x ∈ l, f x ≠ .error e) : l.mapM f ≠ .error e := by
  induction l with
  | nil => exact fun h => by cases h
  | cons x l ih =>
    have hx := h x List.mem_cons_self
    have hrest := ih fun y hy => h y (List.mem_cons_of_mem _ hy)
    rw [List.mapM_cons]
    cases hfx : f x with
    | error e' => exact fun heq => hx (hfx.trans (congrArg Except.error (Except.error.inj heq)))
    | ok b =>
      cases hl : l.mapM f with
      | error e' => exact fun heq => hrest (hl.trans (congrArg Except.error (Except.error.inj heq)))
      | ok bs => exact fun heq => by cases heq

end Except

theorem jffs2Byte_cons_of_not {f : Jffs2Frag} {frags : List Jffs2Frag} {x : ℕ}
    (h : ¬ (f.start ≤ x ∧ x < f.start + f.len)) :
    jffs2Byte codec media (f :: frags) x = jffs2Byte codec media frags x := by
  rw [jffs2Byte, jffs2Byte, List.find?_cons_of_neg (by simpa using h)]

theorem jffs2Byte_cons_of_covers {f : Jffs2Frag} {frags : List Jffs2Frag} {x : ℕ}
    (h : f.start ≤ x ∧ x < f.start + f.len) :
    jffs2Byte codec media (f :: frags) x = match jffs2Decode codec media f.tag.nodeOff with
      | .error e => .error (some e)
      | .ok node => .ok (node.getD (x - f.tag.nodeStart) 0) := by
  rw [jffs2Byte, List.find?_cons_of_pos (by simpa using h)]

theorem jffs2Byte_of_lt {frags : List Jffs2Frag} {lo hi x : ℕ}
    (h : Fragments.Ascending lo hi frags) (hx : x < lo) :
    jffs2Byte codec media frags x = .ok 0 := by
  have hnone : frags.find? (fun f => f.start ≤ x ∧ x < f.start + f.len) = none := by
    rw [List.find?_eq_none]
    intro f hf hcov
    have hlo := (h.mem hf).1
    simp only [decide_eq_true_eq] at hcov
    omega
  rw [jffs2Byte, hnone]

/-! ### The loop -/

theorem range'_three {p cs ce stop : ℕ} (hcs : p ≤ cs) (hce : cs ≤ ce) (hstop : ce ≤ stop) :
    List.range' p (stop - p)
      = List.range' p (cs - p) ++ (List.range' cs (ce - cs) ++ List.range' ce (stop - ce)) := by
  have hlast := @List.range'_append_1 cs (ce - cs) (stop - ce)
  have hfirst := @List.range'_append_1 p (cs - p) (stop - cs)
  rw [show cs + (ce - cs) = ce by omega, show ce - cs + (stop - ce) = stop - cs by omega] at hlast
  rw [show p + (cs - p) = cs by omega, show cs - p + (stop - cs) = stop - p by omega] at hfirst
  rw [hlast, hfirst]

/-- The bytes of a node that a fragment shows are a piece of it. -/
theorem jffs2_slice {node : List UInt8} {cs n start : ℕ} (hstart : start ≤ cs)
    (hlen : cs - start + n ≤ node.length) :
    (List.range' cs n).map (fun x => node.getD (x - start) 0)
      = (node.drop (cs - start)).take n := by
  refine List.ext_getElem (by simp; omega) fun i hi hi' => ?_
  have hi : i < n := by simpa using hi
  have hidx : cs + i - start = cs - start + i := by omega
  have hbound : cs - start + i < node.length := by omega
  simp [hidx, List.getElem?_eq_getElem hbound]

theorem jffs2Copy_eq {pre piece : List UInt8} {a n : ℕ} (h : a + piece.length ≤ n) :
    jffs2Copy (pre ++ List.replicate n 0) (pre.length + a) piece
      = pre ++ List.replicate a 0 ++ piece ++ List.replicate (n - a - piece.length) 0 := by
  have hdrop : n - (a + piece.length) = n - a - piece.length := by omega
  rw [jffs2Copy, List.take_length_add_append, Nat.add_assoc, List.drop_length_add_append,
    List.take_replicate, Nat.min_eq_left (by omega), List.drop_replicate, hdrop]

/-- The loop over the fragments, with the bytes before `p` read, returns the bytes from `p` on. -/
theorem jffs2ReadFrags_eq {start stop : ℕ} (hlt : start < stop) (hmax : stop < 2 ^ 32) :
    ∀ {frags : List Jffs2Frag} {lo hi p : ℕ} {cache : Jffs2Cache} {pre : List UInt8},
      Fragments.Ascending lo hi frags → hi < 2 ^ 32 → Jffs2Cached codec media cache →
      (∀ f ∈ frags, ∀ node, jffs2Decode codec media f.tag.nodeOff = .ok node →
        f.tag.nodeStart ≤ f.start ∧ f.start + f.len ≤ f.tag.nodeStart + node.length) →
      start ≤ p → p ≤ stop → p = start ∨ p ≤ lo → pre.length = p - start →
        (jffs2ReadFrags codec media start stop frags cache
            (pre ++ List.replicate (stop - p) 0)).1
          = ((List.range' p (stop - p)).mapM (jffs2Byte codec media frags)).map (pre ++ ·)
        ∧ Jffs2Cached codec media (jffs2ReadFrags codec media start stop frags cache
            (pre ++ List.replicate (stop - p) 0)).2 := by
  intro frags
  induction frags with
  | nil =>
    intro lo hi p cache pre _ _ hcache _ _ _ _ _
    have hzero : ∀ x ∈ List.range' p (stop - p), jffs2Byte codec media [] x = .ok 0 :=
      fun _ _ => rfl
    rw [jffs2ReadFrags, except_mapM_ok hzero, List.map_const', List.length_range']
    exact ⟨rfl, hcache⟩
  | cons f frags ih =>
    intro lo hi p cache pre h hhi hcache hnodes hp hpstop hplo hpre
    obtain ⟨hlo, hlen, hrest⟩ := h
    have hrestHi := hrest.le
    have htail : jffs2Tail f = f.start + f.len := u32_of_lt (by omega)
    have hnodes' := fun g hg => hnodes g (List.mem_cons_of_mem f hg)
    rw [jffs2ReadFrags, htail]
    by_cases hbefore : f.start + f.len ≤ start
    · -- the fragment ends before the read
      have hcongr : ∀ x ∈ List.range' p (stop - p),
          jffs2Byte codec media (f :: frags) x = jffs2Byte codec media frags x := by
        intro x hx
        have hx := (List.mem_range'_1.mp hx).1
        exact jffs2Byte_cons_of_not (by omega)
      rw [if_pos hbefore, except_mapM_congr hcongr]
      exact ih hrest hhi hcache hnodes' hp hpstop (.inl (by omega)) hpre
    rw [if_neg hbefore]
    by_cases hafter : stop ≤ f.start
    · -- the fragment and those behind it are behind the read
      have hasc : Fragments.Ascending f.start hi (f :: frags) := ⟨Nat.le_refl _, hlen, hrest⟩
      have hzero : ∀ x ∈ List.range' p (stop - p),
          jffs2Byte codec media (f :: frags) x = .ok 0 := fun x hx =>
        jffs2Byte_of_lt hasc (by have := (List.mem_range'_1.mp hx).2; omega)
      rw [if_pos hafter, except_mapM_ok hzero, List.map_const', List.length_range']
      exact ⟨rfl, hcache⟩
    · -- zeros up to `cs`, bytes of the node up to `ce`, and what the rest of the loop reads
      rw [if_neg hafter]
      dsimp only
      set cs := if start < f.start then f.start else start with hcs
      set ce := if f.start + f.len < stop then f.start + f.len else stop with hce
      have hcs_bounds : p ≤ cs ∧ f.start ≤ cs ∧ start ≤ cs ∧ (cs = f.start ∨ cs = p) := by
        rw [hcs]
        split_ifs <;> omega
      have hce_bounds : cs < ce ∧ ce ≤ stop ∧ ce ≤ f.start + f.len
          ∧ (ce = f.start + f.len ∨ ce = stop) := by
        rw [hcs, hce]
        split_ifs <;> omega
      have hfirst : ∀ x ∈ List.range' p (cs - p),
          jffs2Byte codec media (f :: frags) x = .ok 0 := fun x hx => by
        have hasc : Fragments.Ascending f.start hi (f :: frags) := ⟨Nat.le_refl _, hlen, hrest⟩
        have hx := List.mem_range'_1.mp hx
        exact jffs2Byte_of_lt hasc (by omega)
      have hlast : ∀ x ∈ List.range' ce (stop - ce),
          jffs2Byte codec media (f :: frags) x = jffs2Byte codec media frags x := fun x hx => by
        have hx := List.mem_range'_1.mp hx
        exact jffs2Byte_cons_of_not (by omega)
      have hcov : ∀ x ∈ List.range' cs (ce - cs), f.start ≤ x ∧ x < f.start + f.len :=
        fun x hx => by
          have hx := List.mem_range'_1.mp hx
          omega
      obtain ⟨hload, hcache'⟩ := jffs2LoadNode_eq hcache f.tag.nodeOff
      rw [range'_three hcs_bounds.1 (Nat.le_of_lt hce_bounds.1) hce_bounds.2.1, List.mapM_append,
        except_mapM_ok hfirst, List.mapM_append, except_mapM_congr hlast]
      rcases hres : jffs2LoadNode codec media cache f.tag.nodeOff with ⟨e | node, cache'⟩
      · -- the first byte of the fragment fails as the node does
        rw [hres] at hload hcache'
        have hhead : jffs2Byte codec media (f :: frags) cs = .error (some e) := by
          rw [jffs2Byte_cons_of_covers (by omega), ← hload]
        obtain ⟨n, hn⟩ : ∃ n, ce - cs = n + 1 := ⟨ce - cs - 1, by omega⟩
        rw [hn, List.range'_succ, List.mapM_cons, hhead]
        exact ⟨rfl, hcache'⟩
      · rw [hres] at hload hcache'
        have hnode := hnodes f List.mem_cons_self node hload.symm
        have hmid : ∀ x ∈ List.range' cs (ce - cs), jffs2Byte codec media (f :: frags) x
            = .ok (node.getD (x - f.tag.nodeStart) 0) := fun x hx => by
          rw [jffs2Byte_cons_of_covers (hcov x hx), ← hload]
        have hsub : sub32 cs f.tag.nodeStart = cs - f.tag.nodeStart :=
          sub32_of_le (by omega) (by omega)
        have hsub' : sub32 ce cs = ce - cs := sub32_of_le (by omega) (by omega)
        have hslice := @jffs2_slice node cs (ce - cs) f.tag.nodeStart (by omega) (by omega)
        have hcopy : jffs2Copy (pre ++ List.replicate (stop - p) 0) (cs - start)
              ((node.drop (cs - f.tag.nodeStart)).take (ce - cs))
            = (pre ++ List.replicate (cs - p) 0
                ++ (node.drop (cs - f.tag.nodeStart)).take (ce - cs))
              ++ List.replicate (stop - ce) 0 := by
          have hlen' : ((node.drop (cs - f.tag.nodeStart)).take (ce - cs)).length = ce - cs := by
            rw [List.length_take, List.length_drop]
            omega
          have hidx : cs - start = pre.length + (cs - p) := by omega
          have hleft : stop - p - (cs - p) - (ce - cs) = stop - ce := by omega
          rw [hidx, jffs2Copy_eq (by omega), hlen', hleft]
        simp only
        rw [hsub, hsub', if_neg (by omega), hcopy, except_mapM_ok hmid, hslice]
        have hpre' : (pre ++ List.replicate (cs - p) 0
            ++ (node.drop (cs - f.tag.nodeStart)).take (ce - cs)).length = ce - start := by
          rw [List.length_append, List.length_append, List.length_replicate, List.length_take,
            List.length_drop]
          omega
        obtain ⟨heq, hnext⟩ := ih hrest hhi hcache' hnodes' (by omega) hce_bounds.2.1
          (.inr hce_bounds.2.2.1) hpre'
        refine ⟨?_, hnext⟩
        rw [heq]
        cases (List.range' ce (stop - ce)).mapM (jffs2Byte codec media frags) with
        | error e => rfl
        | ok bs =>
          simp [Except.map, List.map_const', bind, Except.bind, pure, Except.pure]

/-! ### Files -/

/-- A read returns the bytes of the file, whatever node was decoded last. -/
theorem jffs2ReadFile_eq {file : Jffs2File} {cache : Jffs2Cache}
    (h : Fragments.Ascending 0 file.isize file.frags) (hisize : file.isize < 2 ^ 32)
    (hnodes : ∀ f ∈ file.frags, ∀ node, jffs2Decode codec media f.tag.nodeOff = .ok node →
      f.tag.nodeStart ≤ f.start ∧ f.start + f.len ≤ f.tag.nodeStart + node.length)
    (hcache : Jffs2Cached codec media cache) (request : ℕ × ℕ) :
    (jffs2ReadFile codec media file cache request).1 = jffs2PlainRead codec media file request
      ∧ Jffs2Cached codec media (jffs2ReadFile codec media file cache request).2 := by
  rw [jffs2ReadFile, jffs2PlainRead]
  split_ifs with hrange hzero
  · exact ⟨rfl, hcache⟩
  · rw [hzero]
    exact ⟨rfl, hcache⟩
  · have hread := @jffs2ReadFrags_eq codec media request.1 (request.1 + request.2) (by omega)
      (by omega) file.frags 0 file.isize request.1 cache [] h hisize hcache hnodes
      (Nat.le_refl _) (Nat.le_add_right _ _) (.inl rfl) (by simp)
    rw [Nat.add_sub_cancel_left] at hread
    refine ⟨hread.1.trans ?_, hread.2⟩
    cases (List.range' request.1 request.2).mapM (jffs2Byte codec media file.frags) <;> rfl

/-- If no node of the inode ends at `2 ^ 32` or later, the file is what its log leaves, and every
sequence of reads returns the bytes of the nodes. -/
theorem jffs2_replays (codec : Jffs2Codec) {media : Jffs2Media} {refs : List Jffs2Ref}
    (hscan : jffs2ScanMedia media = some refs) {ino : ℕ}
    (hends : ∀ n ∈ refs, n.ino = ino → n.foffset + n.dsize < 2 ^ 32) :
    let log := jffs2InoRefs (jffs2SortRefs refs) ino
    let file := jffs2OpenIno (jffs2SortRefs refs) ino
    (log.Perm (refs.filter (·.ino = ino)) ∧ log.Pairwise Jffs2Before)
      ∧ Jffs2Rebuilt log file
      ∧ ∀ requests,
        History.answers (jffs2ReadFile codec media file) none requests
            = requests.map (jffs2PlainRead codec media file)
          ∧ ∀ answer ∈ History.answers (jffs2ReadFile codec media file) none requests,
            answer ≠ .error none := by
  intro log file
  obtain ⟨hsorted, hrefs⟩ := jffs2Scan_spec hscan
  obtain ⟨hperm, hbefore⟩ :=
    jffs2InoRefs_spec hsorted (fun ref hmem => (hrefs ref hmem).2.ino_lt) ino
  have hmem : ∀ n ∈ log, n ∈ refs ∧ n.ino = ino := fun n hn => by
    simpa using List.mem_filter.mp (hperm.mem_iff.mp hn)
  have hinj : ∀ a ∈ log, ∀ b ∈ log, a.off = b.off → a = b := by
    intro a ha b hb hoff
    have hnodup : (refs.map (·.off)).Nodup :=
      List.pairwise_map.mpr (hsorted.imp fun hlt => Nat.ne_of_lt hlt)
    exact List.inj_on_of_nodup_map hnodup (hmem a ha).1 (hmem b hb).1 hoff
  have hrebuilt : Jffs2Rebuilt log file :=
    jffs2OpenIno_rebuilt (fun n hn => hends n (hmem n hn).1 (hmem n hn).2) hinj
  have hisize : file.isize < 2 ^ 32 := by
    rw [hrebuilt.isize]
    cases hlast : log.getLast? with
    | none => exact Nat.two_pow_pos 32
    | some n => exact (hrefs n (hmem n (List.mem_of_getLast? hlast)).1).2.isize_lt
  have hnodes : ∀ f ∈ file.frags, ∀ node, jffs2Decode codec media f.tag.nodeOff = .ok node →
      f.tag.nodeStart ≤ f.start ∧ f.start + f.len ≤ f.tag.nodeStart + node.length := by
    intro f hf node hdecode
    obtain ⟨n, hn, htag, hstart, hend⟩ := hrebuilt.owned f hf
    have hlen := jffs2Decode_length hdecode
    rw [htag] at hlen ⊢
    rw [(hrefs n (hmem n hn).1).2.dsize_eq] at hend
    exact ⟨hstart, hlen ▸ hend⟩
  refine ⟨⟨hperm, hbefore⟩, hrebuilt, fun requests => ?_⟩
  have hanswers : History.answers (jffs2ReadFile codec media file) none requests
      = requests.map (jffs2PlainRead codec media file) :=
    History.answers_eq_map (fun cache request hcache =>
      jffs2ReadFile_eq hrebuilt.ascending hisize hnodes hcache request)
      (fun _ _ hnone => by cases hnone)
  refine ⟨hanswers, fun answer hanswer => ?_⟩
  rw [hanswers] at hanswer
  obtain ⟨request, -, rfl⟩ := List.mem_map.mp hanswer
  rw [jffs2PlainRead]
  split_ifs
  · exact fun h => by cases h
  · exact except_mapM_ne fun x _ => jffs2Byte_ne_none _ x

/-! ### A node that ends behind `2 ^ 32` -/

/-- Two nodes of the inode 5: one with the fields `first` of its own, and behind it the node that
writes the byte 7 at 16 and sets the size 32. -/
def jffs2TwoNodes (first : List (ℕ × List UInt8)) : Jffs2Media where
  disk := {
    bytes := Buf.ofFields ([(0, [0x85, 0x19, 0x02, 0xe0, 0x44]),
        (8, [0x1d, 0xfb, 0xf7, 0x98, 0x05]), (16, [0x01]), (52, [0x20]), (56, [0x01])]
      ++ first
      ++ [(68, [0x85, 0x19, 0x02, 0xe0, 0x45]), (76, [0x78, 0x9c, 0x4b, 0x20, 0x05]),
        (84, [0x02]), (96, [0x20]), (112, [0x10]), (116, [0x01]), (120, [0x01]),
        (128, [0xa3, 0x95, 0x64, 0x9e, 0xd5, 0x80, 0xbc, 0x14, 0x07])])
    sectors := some 1 }
  swap := false
  size := 512

/-- The first node writes 32 zeros at 0. -/
def jffs2Plain : Jffs2Media := jffs2TwoNodes [(28, [0x20]), (64, [0x2f, 0xbf, 0x26, 0x9a])]

/-- The first node writes 32 zeros at `2 ^ 32 - 16`, and sets the size `2 ^ 32 - 1`. -/
def jffs2Wrapped : Jffs2Media :=
  jffs2TwoNodes [(28, [0xff, 0xff, 0xff, 0xff]), (44, [0xf0, 0xff, 0xff, 0xff]),
    (64, [0x3f, 0x1b, 0xcf, 0xdb])]

def jffs2NoCodec : Jffs2Codec := ⟨fun _ _ => .error none, fun _ _ => none⟩

theorem jffs2SortRefs_pair {a b : Jffs2Ref} (h : jffs2RefLe a b = true) :
    jffs2SortRefs [a, b] = [a, b] := by
  simp [jffs2SortRefs, MergeRuns.sort, MergeRuns.sortFrom, MergeRuns.pass, h]

theorem jffs2_replays_plain :
    Jffs2Rebuilt (jffs2InoRefs (jffs2SortRefs [⟨0, 5, 1, 0, 32, 32⟩, ⟨68, 5, 2, 16, 1, 32⟩]) 5)
      (jffs2OpenIno (jffs2SortRefs [⟨0, 5, 1, 0, 32, 32⟩, ⟨68, 5, 2, 16, 1, 32⟩]) 5) :=
  (jffs2_replays jffs2NoCodec (by decide +kernel : jffs2ScanMedia jffs2Plain
    = some [⟨0, 5, 1, 0, 32, 32⟩, ⟨68, 5, 2, 16, 1, 32⟩]) (by decide)).2.1

/-- The end of the first node wraps to 16, so it is not cut off by the size 32: the file has a
fragment behind its end, in front of the byte that the second node writes, and a read of both bytes
at 15 and 16 returns zeros. -/
theorem jffs2_wrapped_differs :
    jffs2ScanMedia jffs2Wrapped
        = some [⟨0, 5, 1, 0xfffffff0, 32, 0xffffffff⟩, ⟨68, 5, 2, 16, 1, 32⟩]
      ∧ jffs2OpenIno (jffs2SortRefs
          [⟨0, 5, 1, 0xfffffff0, 32, 0xffffffff⟩, ⟨68, 5, 2, 16, 1, 32⟩]) 5
        = ⟨[⟨0xfffffff0, 32, ⟨0xfffffff0, 0⟩⟩, ⟨16, 1, ⟨16, 68⟩⟩], 32⟩
      ∧ jffs2Decode jffs2NoCodec jffs2Wrapped 68 = .ok [7]
      ∧ (jffs2ReadFile jffs2NoCodec jffs2Wrapped
          ⟨[⟨0xfffffff0, 32, ⟨0xfffffff0, 0⟩⟩, ⟨16, 1, ⟨16, 68⟩⟩], 32⟩ none (15, 2)).1
        = .ok [0, 0]
      ∧ ¬ Jffs2Rebuilt [⟨0, 5, 1, 0xfffffff0, 32, 0xffffffff⟩, ⟨68, 5, 2, 16, 1, 32⟩]
        ⟨[⟨0xfffffff0, 32, ⟨0xfffffff0, 0⟩⟩, ⟨16, 1, ⟨16, 68⟩⟩], 32⟩ := by
  refine ⟨by decide +kernel, ?_, by decide +kernel, by decide +kernel, fun h => ?_⟩
  · rw [jffs2SortRefs_pair rfl]
    decide +kernel
  have hend := h.ends _ List.mem_cons_self
  revert hend
  decide

end FsRover
