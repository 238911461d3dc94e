import FsRover.Fs.Fshelp
import FsRover.Lib.FirstSeen
import FsRover.Lib.Guards
import Mathlib.Data.List.DropRight

/-!
# Packages

`pkghelp.c` shows a flat list of package entries as a tree. Directories are entries of their own, or
only the front of other names.

## Main definitions

* `FsRover.pkgNormName` : a name on its way into the list.
* `FsRover.PkgTree`, `FsRover.PkgTree.add` : the list of entries.
* `FsRover.pkgNameInDir`, `FsRover.pkgDir` : the listing of a directory.
* `FsRover.pkgFindEntry`, `FsRover.pkgOpen` : lookups.

## Main results

* `FsRover.pkgNormName_norm` : the names in the list are joined from plain components.
-/

namespace FsRover

open Guards

def PKG_MAX_ENTRIES : ℕ := 2 ^ 20
def PKG_MAX_NAME : ℕ := 2 ^ 14
def PKG_SEEN_BUCKETS : ℕ := 256

/-- The byte between two components. -/
abbrev pkgSlash : UInt8 := 0x2f

/-! ### Names -/

/-- The loop of `grub_pkg_norm_name` over the components of the raw name; `dst` is what the buffer
holds. -/
def pkgNormLoop : Name → List Name → Name
  | dst, [] => dst
  | dst, comp :: comps =>
    if comp = [0x2e] then pkgNormLoop dst comps
    else if dst ≠ [] then pkgNormLoop (dst ++ pkgSlash :: comp) comps
    else pkgNormLoop comp comps

/-- `grub_pkg_norm_name`. The one empty component is before a slash in front, and is skipped. -/
def pkgNormName (pre : Option Name) (raw : Name) : Except GrubError (Option Name) :=
  if PKG_MAX_NAME < raw.length then .error ⟨.badFs, "file name too long"⟩
  else
    let dst := pkgNormLoop (pre.getD []) (fshelpComponents raw)
    .ok (if dst = [] then none else some dst)

/-- A component of a name in the list. -/
structure PkgComponent (c : Name) : Prop where
  ne_nil : c ≠ []
  slash_notMem : pkgSlash ∉ c
  ne_dot : c ≠ [0x2e]

/-- `dir ++ "/" ++ name`; the root has the empty name. -/
def pkgJoin (dir name : Name) : Name := if dir = [] then name else dir ++ pkgSlash :: name

/-- The name with these components. -/
def pkgJoinAll : List Name → Name
  | [] => []
  | [c] => c
  | c :: cs => c ++ pkgSlash :: pkgJoinAll cs

/-- A name in the list: components joined by slashes. -/
def PkgNorm (name : Name) : Prop :=
  ∃ comps, comps ≠ [] ∧ (∀ c ∈ comps, PkgComponent c) ∧ name = pkgJoinAll comps

theorem pkgJoinAll_append {cs : List Name} (hcs : cs ≠ []) (c : Name) :
    pkgJoinAll (cs ++ [c]) = pkgJoinAll cs ++ pkgSlash :: c := by
  induction cs with
  | nil => exact absurd rfl hcs
  | cons d ds ih =>
    cases ds with
    | nil => rfl
    | cons e es =>
      show d ++ pkgSlash :: pkgJoinAll (e :: es ++ [c]) = d ++ pkgSlash :: pkgJoinAll (e :: es)
        ++ pkgSlash :: c
      rw [ih (List.cons_ne_nil e es), List.append_assoc, List.cons_append]

theorem PkgNorm.ne_nil {name : Name} (h : PkgNorm name) : name ≠ [] := by
  obtain ⟨comps, hne, hcomps, rfl⟩ := h
  cases comps with
  | nil => exact absurd rfl hne
  | cons c cs =>
    have hc := (hcomps c List.mem_cons_self).ne_nil
    cases cs with
    | nil => exact hc
    | cons d ds => exact fun hnil => hc (List.append_eq_nil_iff.mp hnil).1

/-- What is between slashes is not empty and has no slash in it. -/
theorem fshelpSplit_spec {c path : Name} (hc : pkgSlash ∉ c) :
    ∀ d ∈ fshelpSplit c path, d ≠ [] ∧ pkgSlash ∉ d := by
  induction path generalizing c with
  | nil =>
    intro d hd
    rw [fshelpSplit] at hd
    split_ifs at hd with hnil
    · cases hd
    · rw [List.mem_singleton.mp hd]
      exact ⟨hnil, hc⟩
  | cons b path ih =>
    intro d hd
    rw [fshelpSplit] at hd
    split_ifs at hd with hb hnil
    · exact ih List.not_mem_nil d hd
    · rcases List.mem_append.mp hd with hd | hd
      · rw [List.mem_singleton.mp hd]
        exact ⟨hnil, hc⟩
      · exact ih List.not_mem_nil d hd
    · refine ih (fun hmem => ?_) d hd
      rcases List.mem_append.mp hmem with hmem | hmem
      · exact hc hmem
      · exact hb (List.mem_singleton.mp hmem).symm

theorem fshelpSplit_joinAll (c : Name) {d : Name} {ds : List Name}
    (hds : ∀ e ∈ d :: ds, PkgComponent e) :
    fshelpSplit c (pkgJoinAll (d :: ds)) = (c ++ d) :: ds := by
  have hplain : ∀ (x c rest : Name), pkgSlash ∉ x →
      fshelpSplit c (x ++ rest) = fshelpSplit (c ++ x) rest := by
    intro x
    induction x with
    | nil =>
      intro c rest _
      rw [List.nil_append, List.append_nil]
    | cons b x ih =>
      intro c rest hx
      rw [List.mem_cons, not_or] at hx
      rw [List.cons_append, fshelpSplit, if_neg (Ne.symm hx.1), ih _ _ hx.2, List.append_assoc,
        List.singleton_append]
  induction ds generalizing c d with
  | nil =>
    obtain ⟨hne, hslash, -⟩ := hds d List.mem_cons_self
    have h := hplain d c [] hslash
    rw [List.append_nil] at h
    show fshelpSplit c d = _
    rw [h, fshelpSplit, if_neg (fun hnil => hne (List.append_eq_nil_iff.mp hnil).2)]
  | cons e es ih =>
    obtain ⟨hne, hslash, -⟩ := hds d List.mem_cons_self
    show fshelpSplit c (d ++ pkgSlash :: pkgJoinAll (e :: es)) = _
    rw [hplain d c _ hslash, fshelpSplit, if_pos rfl,
      if_neg (fun hnil => hne (List.append_eq_nil_iff.mp hnil).2),
      ih [] fun x hx => hds x (List.mem_cons_of_mem _ hx)]
    rfl

/-- The components of a name in the list are the ones it was joined from. -/
theorem fshelpComponents_joinAll {comps : List Name} (hcomps : ∀ c ∈ comps, PkgComponent c) :
    fshelpComponents (pkgJoinAll comps) = comps := by
  cases comps with
  | nil => rfl
  | cons c cs => exact fshelpSplit_joinAll [] hcomps

theorem pkgNormLoop_eq {dst comps : List Name} (hdst : ∀ c ∈ dst, PkgComponent c)
    (hcomps : ∀ c ∈ comps, c ≠ [] ∧ pkgSlash ∉ c) :
    pkgNormLoop (pkgJoinAll dst) comps = pkgJoinAll (dst ++ comps.filter (· ≠ [0x2e])) := by
  induction comps generalizing dst with
  | nil => rw [pkgNormLoop, List.filter_nil, List.append_nil]
  | cons c cs ih =>
    have hrest : ∀ d ∈ cs, d ≠ [] ∧ pkgSlash ∉ d := fun d hd => hcomps d (List.mem_cons_of_mem _ hd)
    rw [pkgNormLoop]
    by_cases hdot : c = [0x2e]
    · rw [if_pos hdot, ih hdst hrest, List.filter_cons_of_neg (by simpa using hdot)]
    · obtain ⟨hne, hslash⟩ := hcomps c List.mem_cons_self
      have hdst' : ∀ d ∈ dst ++ [c], PkgComponent d := by
        intro d hd
        rcases List.mem_append.mp hd with hd | hd
        · exact hdst d hd
        · rw [List.mem_singleton.mp hd]
          exact ⟨hne, hslash, hdot⟩
      have hnext := ih hdst' hrest
      rw [List.append_assoc, List.singleton_append] at hnext
      rw [if_neg hdot, List.filter_cons_of_pos (by simpa using hdot), ← hnext]
      by_cases hnil : dst = []
      · rw [hnil]
        rfl
      · have hjoin : pkgJoinAll dst ≠ [] := PkgNorm.ne_nil ⟨dst, hnil, hdst, rfl⟩
        rw [if_pos hjoin, pkgJoinAll_append hnil]

theorem pkgNormName_ok_iff {pre : Option Name} {raw out : Name} :
    pkgNormName pre raw = .ok (some out) ↔ raw.length ≤ PKG_MAX_NAME
      ∧ pkgNormLoop (pre.getD []) (fshelpComponents raw) = out ∧ out ≠ [] := by
  rw [pkgNormName]
  by_cases hlen : PKG_MAX_NAME < raw.length
  · rw [if_pos hlen]
    exact ⟨(fun h => by cases h), fun h => absurd h.1 (Nat.not_le.mpr hlen)⟩
  · simp only [if_neg hlen, Except.ok.injEq]
    by_cases hnil : pkgNormLoop (pre.getD []) (fshelpComponents raw) = []
    · rw [if_pos hnil]
      exact ⟨(fun h => by cases h), fun h => absurd (h.2.1.symm.trans hnil) h.2.2⟩
    · rw [if_neg hnil, Option.some.injEq]
      exact ⟨fun h => ⟨Nat.le_of_not_lt hlen, h, h ▸ hnil⟩, fun h => h.2.1⟩

/-- What a name becomes, from a prefix that has the form of the list or is not there. -/
theorem pkgNormName_eq_ok {pre : Option Name} {raw out : Name} (hpre : ∀ p ∈ pre, PkgNorm p)
    (h : pkgNormName pre raw = .ok (some out)) :
    ∃ comps, comps ≠ [] ∧ (∀ c ∈ comps, PkgComponent c) ∧ out = pkgJoinAll comps
      ∧ comps = fshelpComponents (pre.getD []) ++ (fshelpComponents raw).filter (· ≠ [0x2e]) := by
  obtain ⟨-, rfl, hnil⟩ := pkgNormName_ok_iff.mp h
  obtain ⟨ps, hps, hjoin⟩ : ∃ ps, (∀ c ∈ ps, PkgComponent c) ∧ pre.getD [] = pkgJoinAll ps := by
    cases pre with
    | none => exact ⟨[], fun c hc => absurd hc List.not_mem_nil, rfl⟩
    | some p =>
      obtain ⟨ps, -, hps, rfl⟩ := hpre p rfl
      exact ⟨ps, hps, rfl⟩
  have hraw : ∀ c ∈ fshelpComponents raw, c ≠ [] ∧ pkgSlash ∉ c := fshelpSplit_spec List.not_mem_nil
  have hloop := pkgNormLoop_eq hps hraw
  rw [hjoin] at hnil ⊢
  refine ⟨ps ++ (fshelpComponents raw).filter (· ≠ [0x2e]), fun heq => hnil ?_, fun c hc =>
    ?_, hloop,
    ?_⟩
  · rw [hloop, heq]
    rfl
  · rcases List.mem_append.mp hc with hc | hc
    · exact hps c hc
    · obtain ⟨hmem, hdot⟩ := List.mem_filter.mp hc
      exact ⟨(hraw c hmem).1, (hraw c hmem).2, by simpa using hdot⟩
  · rw [fshelpComponents_joinAll hps]

theorem pkgNormName_norm {pre : Option Name} {raw out : Name} (hpre : ∀ p ∈ pre, PkgNorm p)
    (h : pkgNormName pre raw = .ok (some out)) : PkgNorm out := by
  obtain ⟨comps, hne, hcomps, hout, -⟩ := pkgNormName_eq_ok hpre h
  exact ⟨comps, hne, hcomps, hout⟩

/-- The length of the components, with a slash for each. -/
def pkgTotal (comps : List Name) : ℕ := (comps.map fun c => c.length + 1).sum

theorem length_pkgNormLoop_le (dst : Name) (comps : List Name) :
    (pkgNormLoop dst comps).length ≤ dst.length + pkgTotal comps := by
  induction comps generalizing dst with
  | nil => exact Nat.le_refl _
  | cons c cs ih =>
    have htotal : pkgTotal (c :: cs) = c.length + 1 + pkgTotal cs := rfl
    rw [pkgNormLoop, htotal]
    split_ifs with hdot hdst
    · have h := ih dst
      omega
    · have h := ih (dst ++ pkgSlash :: c)
      rw [List.length_append, List.length_cons] at h
      omega
    · have h := ih c
      omega

theorem length_pkgNormLoop_nil_le (comps : List Name) :
    (pkgNormLoop [] comps).length ≤ pkgTotal comps - 1 := by
  induction comps with
  | nil => exact Nat.le_refl _
  | cons c cs ih =>
    have htotal : pkgTotal (c :: cs) = c.length + 1 + pkgTotal cs := rfl
    rw [pkgNormLoop, htotal]
    by_cases hdot : c = [0x2e]
    · rw [if_pos hdot]
      omega
    · have h := length_pkgNormLoop_le c cs
      rw [if_neg hdot, if_neg (not_not.mpr rfl)]
      omega

theorem pkgTotal_fshelpSplit_le (c path : Name) :
    pkgTotal (fshelpSplit c path) ≤ c.length + path.length + 1 := by
  induction path generalizing c with
  | nil =>
    rw [fshelpSplit]
    split_ifs
    · exact Nat.zero_le _
    · exact Nat.le_refl _
  | cons b path ih =>
    rw [fshelpSplit]
    split_ifs
    · have h := ih []
      rw [List.length_nil] at h
      rw [List.nil_append, List.length_cons]
      omega
    · have h := ih []
      have htotal : pkgTotal ([c] ++ fshelpSplit [] path)
          = c.length + 1 + pkgTotal (fshelpSplit [] path) := rfl
      rw [List.length_nil] at h
      rw [htotal, List.length_cons]
      omega
    · have h := ih (c ++ [b])
      rw [List.length_append, List.length_singleton] at h
      rw [List.length_cons]
      omega

theorem pkgNormName_idempotent {raw out : Name} (h : pkgNormName none raw = .ok (some out)) :
    pkgNormName none out = .ok (some out) := by
  obtain ⟨comps, hne, hcomps, hjoin, -⟩ := pkgNormName_eq_ok (fun p hp => by cases hp) h
  have hlen : out.length ≤ PKG_MAX_NAME := by
    obtain ⟨hraw, hout, -⟩ := pkgNormName_ok_iff.mp h
    rw [← hout]
    have hloop := length_pkgNormLoop_nil_le (fshelpComponents raw)
    have hsplit := pkgTotal_fshelpSplit_le [] raw
    rw [List.length_nil] at hsplit
    rw [Option.getD_none]
    rw [fshelpComponents] at hloop ⊢
    omega
  have hraw : ∀ c ∈ comps, c ≠ [] ∧ pkgSlash ∉ c := fun c hc =>
    ⟨(hcomps c hc).ne_nil, (hcomps c hc).slash_notMem⟩
  have hdst : ∀ c ∈ ([] : List Name), PkgComponent c := fun c hc => absurd hc List.not_mem_nil
  have hloop : pkgNormLoop [] comps = pkgJoinAll comps := by
    have heq := pkgNormLoop_eq hdst hraw
    rwa [List.nil_append, List.filter_eq_self.mpr fun c hc => by
      simpa using (hcomps c hc).ne_dot] at heq
  refine pkgNormName_ok_iff.mpr ⟨hlen, ?_, hjoin ▸ PkgNorm.ne_nil ⟨comps, hne, hcomps, rfl⟩⟩
  rw [Option.getD_none, hjoin, fshelpComponents_joinAll hcomps, hloop]

/-! ### The list -/

/-- `struct grub_pkg_entry`. -/
structure PkgEntry where
  name : Name
  target : Option (List UInt8)
  off : ℕ
  plen : ℕ
  size : ℕ
  mtime : ℤ
  stream : ℤ
  codec : ℕ
  isDir : Bool
  isLnk : Bool
  deriving DecidableEq

/-- The entry list of `struct grub_pkg_data` and its payloads. Every name came through
`grub_pkg_norm_name`. -/
structure PkgTree where
  entries : List PkgEntry
  streams : List (ℕ × ℕ)
  norm : ∀ entry ∈ entries, PkgNorm entry.name

def PkgTree.empty (streams : List (ℕ × ℕ)) : PkgTree :=
  ⟨[], streams, fun _ h => absurd h List.not_mem_nil⟩

/-- `grub_pkg_new_entry` with a name of the form of the list, and what the caller fills in. -/
def PkgTree.newEntry (data : PkgTree) (entry : PkgEntry) (hname : PkgNorm entry.name) :
    Except GrubError PkgTree :=
  if PKG_MAX_ENTRIES ≤ data.entries.length then .error ⟨.badFs, "too many files in package"⟩
  else
    .ok {
      data with
      entries := data.entries ++ [entry]
      norm := fun e he => (List.mem_append.mp he).elim (data.norm e) fun h => by
        rwa [List.mem_singleton.mp h] }

/-- `grub_pkg_truncate_entries`. -/
def PkgTree.truncate (data : PkgTree) (num : ℕ) : PkgTree :=
  { data with
    entries := data.entries.take num
    norm := fun e he => data.norm e (List.mem_of_mem_take he) }

/-- An entry by its raw name, below a prefix that has the form of the list: `grub_pkg_norm_name` and
`grub_pkg_new_entry`, with the other fields out of `fields`. A name of which nothing is left is
skipped. -/
def PkgTree.add (data : PkgTree) (pre : Option (Subtype PkgNorm)) (raw : Name)
    (fields : PkgEntry) : Except GrubError PkgTree :=
  match h : pkgNormName (pre.map Subtype.val) raw with
  | .error e => .error e
  | .ok none => .ok data
  | .ok (some name) =>
    data.newEntry { fields with name } <| by
      refine pkgNormName_norm (fun p hp => ?_) h
      obtain ⟨q, -, rfl⟩ := Option.map_eq_some_iff.mp hp
      exact q.2

/-! ### Directories -/

/-- The path without the slashes in front. -/
def pkgSkip (path : Name) : Name := path.dropWhile (· = pkgSlash)

/-- `pkg_norm_path`: what is between the slashes at both ends. -/
def pkgNormPath (path : Name) : Name := (pkgSkip path).rdropWhile (· = pkgSlash)

/-- `pkg_name_in_dir`: the child of `dir` the name lies at or below, and whether it lies below. -/
def pkgNameInDir (name dir : Name) : Option (Name × Bool) :=
  let rest :=
    if dir ≠ [] then
      if name.take dir.length = dir ∧ (name.drop dir.length).head? = some pkgSlash then
        some (name.drop (dir.length + 1))
      else none
    else some name
  match rest with
  | none => none
  | some rest =>
    let child := rest.takeWhile (· ≠ pkgSlash)
    if rest = [] ∨ child = [] then none else some (child, rest.contains pkgSlash)

/-- `pkg_hash_name`. -/
def pkgHashName (str : Name) : ℕ :=
  str.foldl (fun hash c => (hash * 33 + c.toNat) % 2 ^ 32) 5381 % PKG_SEEN_BUCKETS

/-- `pkg_seen_add` for a new name. -/
def pkgSeenAdd (buckets : ℕ → List Name) (name : Name) : ℕ → List Name := fun hash =>
  if hash = pkgHashName name then name :: buckets hash else buckets hash

/-- `struct grub_dirhook_info`, as far as `grub_pkg_dir` fills it in. -/
structure PkgDirInfo where
  dir : Bool
  inode : ℕ
  symlink : Bool
  size : Option ℕ
  mtime : Option ℤ
  deriving DecidableEq

def pkgDirInfo (i : ℕ) (entry : PkgEntry) (childIsDir : Bool) : PkgDirInfo :=
  let dir := childIsDir || entry.isDir
  if childIsDir then { dir, inode := i, symlink := false, size := none, mtime := none }
  else {
    dir
    inode := i
    symlink := entry.isLnk
    size := if dir = false ∧ entry.isLnk = false then some entry.size else none
    mtime := if entry.mtime ≠ 0 then some entry.mtime else none }

/-- The loop of `grub_pkg_dir` over the entries that are left, from index `i` on. -/
def pkgDirLoop (dir : Name) : (ℕ → List Name) → ℕ → List PkgEntry → List (Name × PkgDirInfo)
  | _, _, [] => []
  | buckets, i, entry :: entries =>
    match pkgNameInDir entry.name dir with
    | none => pkgDirLoop dir buckets (i + 1) entries
    | some (name, childIsDir) =>
      if name ∈ buckets (pkgHashName name) then pkgDirLoop dir buckets (i + 1) entries
      else
        (name, pkgDirInfo i entry childIsDir)
          :: pkgDirLoop dir (pkgSeenAdd buckets name) (i + 1) entries

/-- `found` at the end of `grub_pkg_dir`. The name of the directory is compared with the path up to
its terminator, slashes at the end included. -/
def pkgDirFound (data : PkgTree) (path : Name) : Bool :=
  pkgNormPath path = [] || data.entries.any fun entry =>
    (pkgNameInDir entry.name (pkgNormPath path)).isSome || entry.name = pkgSkip path

def pkgNotFound (path : Name) : GrubError :=
  ⟨.fileNotFound, "file `" ++ String.ofList (path.map fun b => Char.ofNat b.toNat) ++ "' not found"⟩

/-- `grub_pkg_dir`: everything a hook gets that does not stop it. -/
def pkgDir (data : PkgTree) (path : Name) : Except GrubError (List (Name × PkgDirInfo)) :=
  if pkgDirFound data path then .ok (pkgDirLoop (pkgNormPath path) (fun _ => []) 0 data.entries)
  else .error (pkgNotFound path)

/-! ### Files -/

/-- `grub_pkg_find_entry`. -/
def pkgFindEntry (data : PkgTree) (path : Name) : Option ℕ :=
  data.entries.findIdx? fun entry => entry.name = pkgNormPath path

/-- `struct pkg_file` of an opened file. -/
structure PkgFile where
  range : ℕ × ℕ
  dataOff : ℕ
  size : ℕ
  mem : Option (List UInt8)
  kind : ℤ
  codec : ℤ
  deriving DecidableEq

/-- What `grub_pkg_open` makes of an entry. -/
def pkgOpenEntry (data : PkgTree) (entry : PkgEntry) : PkgFile :=
  let file : PkgFile := {
    range := (0, 0), dataOff := entry.off, size := entry.size, mem := none, kind := entry.stream,
    codec := -1 }
  if entry.stream = -2 then { file with mem := some (entry.target.getD []) }
  else if entry.stream = -3 then
    { file with range := (entry.off, entry.plen), dataOff := 0, codec := entry.codec }
  else if 0 ≤ entry.stream then { file with range := data.streams.getD entry.stream.toNat (0, 0) }
  else file

/-- `grub_pkg_open`. -/
def pkgOpen (data : PkgTree) (path : Name) : Except GrubError PkgFile :=
  match (pkgFindEntry data path).bind fun i => data.entries[i]? with
  | none => .error (pkgNotFound path)
  | some entry =>
    if entry.isDir then .error ⟨.badFileType, "is a directory"⟩ else .ok (pkgOpenEntry data entry)

end FsRover
