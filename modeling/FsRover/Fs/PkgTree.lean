import FsRover.Fs.Pkghelp
import FsRover.Lib.FirstSeen

/-!
# The tree of a package

A name of a listing stands for the first entry at or below its path. Listing and opening agree on
it; an entry is missed where an earlier one at or below its path, or a file at the path of one of
its directories, comes first.

## Main definitions

* `FsRover.PkgAt` : an entry at or below a path.
* `FsRover.PkgReached` : a chain of listings.
* `FsRover.PkgConsistent` : what a tree of directories and files should do.

## Main results

* `FsRover.pkgNameInDir_eq_some_iff` : the child of a directory an entry lies at or below.
* `FsRover.mem_pkgDir_iff` : what is listed.
* `FsRover.pkgConsistent` : every package is consistent.
-/

namespace FsRover

/-! ### Children -/

theorem takeWhile_slash {child : Name} (hchild : pkgSlash ∉ child) (more : Name) :
    (child ++ pkgSlash :: more).takeWhile (· ≠ pkgSlash) = child := by
  rw [List.takeWhile_append_of_pos, List.takeWhile_cons_of_neg (by simp), List.append_nil]
  intro b hb
  simp only [ne_eq, decide_not, Bool.not_eq_eq_eq_not, Bool.not_true, decide_eq_false_iff_not]
  rintro rfl
  exact hchild hb

/-- The part of a name up to a slash, and whether there is one. -/
theorem slash_split_iff {rest child : Name} {isDir : Bool} :
    rest.takeWhile (· ≠ pkgSlash) = child ∧ rest.contains pkgSlash = isDir
      ↔ pkgSlash ∉ child ∧ ((isDir = false ∧ rest = child)
        ∨ isDir = true ∧ ∃ more, rest = child ++ pkgSlash :: more) := by
  constructor
  · rintro ⟨rfl, rfl⟩
    have hchild : pkgSlash ∉ rest.takeWhile (· ≠ pkgSlash) := by
      intro h
      simpa using List.mem_takeWhile_imp h
    refine ⟨hchild, ?_⟩
    cases hdrop : rest.dropWhile (· ≠ pkgSlash) with
    | nil =>
      have hall := List.takeWhile_append_dropWhile (p := fun b => decide (b ≠ pkgSlash)) (l := rest)
      rw [hdrop, List.append_nil] at hall
      refine .inl ⟨?_, hall.symm⟩
      rw [hall] at hchild
      simpa using hchild
    | cons b more =>
      have hb : b = pkgSlash := by
        have h := List.head?_dropWhile_not (fun b => decide (b ≠ pkgSlash)) rest
        rw [hdrop] at h
        simpa using h
      have hall := List.takeWhile_append_dropWhile (p := fun b => decide (b ≠ pkgSlash)) (l := rest)
      rw [hdrop, hb] at hall
      refine .inr ⟨?_, more, hall.symm⟩
      rw [← hall]
      simp
  · rintro ⟨hchild, ⟨rfl, rfl⟩ | ⟨rfl, more, rfl⟩⟩
    · refine ⟨List.takeWhile_eq_self_iff.mpr fun b hb => ?_, by simpa using hchild⟩
      simp only [ne_eq, decide_not, Bool.not_eq_eq_eq_not, Bool.not_true, decide_eq_false_iff_not]
      rintro rfl
      exact hchild hb
    · exact ⟨takeWhile_slash hchild more, by simp⟩

/-- The name of an entry below `dir`, without the name of `dir`. -/
theorem pkgNameInDir_eq_some_iff {name dir child : Name} {isDir : Bool} :
    pkgNameInDir name dir = some (child, isDir) ↔ child ≠ [] ∧ pkgSlash ∉ child
      ∧ ((isDir = false ∧ name = pkgJoin dir child)
        ∨ isDir = true ∧ ∃ more, name = pkgJoin dir child ++ pkgSlash :: more) := by
  -- the two ways to get at the rest of the name
  have hrest : ∀ rest : Name,
      (if rest = [] ∨ rest.takeWhile (· ≠ pkgSlash) = [] then none
        else some (rest.takeWhile (· ≠ pkgSlash), rest.contains pkgSlash)) = some (child, isDir)
      ↔ child ≠ [] ∧ pkgSlash ∉ child ∧ ((isDir = false ∧ rest = child)
        ∨ isDir = true ∧ ∃ more, rest = child ++ pkgSlash :: more) := by
    intro rest
    rw [← slash_split_iff]
    by_cases hnil : rest = [] ∨ rest.takeWhile (· ≠ pkgSlash) = []
    · rw [if_pos hnil]
      refine ⟨(fun h => by cases h), ?_⟩
      rintro ⟨hne, rfl, -⟩
      rcases hnil with rfl | hnil
      · exact absurd rfl hne
      · exact absurd hnil hne
    · rw [if_neg hnil, Option.some.injEq, Prod.mk.injEq]
      rw [not_or] at hnil
      exact ⟨fun h => ⟨h.1 ▸ hnil.2, h⟩, fun h => h.2⟩
  rw [pkgNameInDir]
  by_cases hdir : dir = []
  · rw [pkgJoin, if_pos hdir, if_neg (not_not.mpr hdir)]
    exact hrest name
  · rw [pkgJoin, if_neg hdir, if_pos hdir]
    by_cases hname : name.take dir.length = dir ∧ (name.drop dir.length).head? = some pkgSlash
    · obtain ⟨more, rfl⟩ : ∃ more, name = dir ++ pkgSlash :: more := by
        obtain ⟨htake, hhead⟩ := hname
        obtain ⟨more, hmore⟩ := List.head?_eq_some_iff.mp hhead
        refine ⟨more, (List.take_append_drop dir.length name).symm.trans ?_⟩
        rw [htake, hmore]
      have hdrop : (dir ++ pkgSlash :: more).drop (dir.length + 1) = more := by simp
      rw [if_pos hname, hdrop]
      refine (hrest more).trans ?_
      simp only [List.append_assoc, List.cons_append, List.append_cancel_left_eq, List.cons.injEq,
        true_and]
    · rw [if_neg hname]
      refine ⟨(fun h => by cases h), ?_⟩
      rintro ⟨-, -, ⟨-, rfl⟩ | ⟨-, more, rfl⟩⟩
      · exact absurd (by simp) hname
      · exact absurd (by simp) hname

/-- The entry is at the path or below it. -/
def PkgAt (path : Name) (entry : PkgEntry) : Prop :=
  entry.name = path ∨ ∃ more, entry.name = path ++ pkgSlash :: more

/-- The child of `dir` an entry lies at or below. -/
def pkgChild (dir : Name) (entry : PkgEntry) : Option Name
  := (pkgNameInDir entry.name dir).map Prod.fst

theorem pkgChild_eq_some_iff {dir child : Name} {entry : PkgEntry} :
    pkgChild dir entry = some child ↔ child ≠ [] ∧ pkgSlash ∉ child
      ∧ PkgAt (pkgJoin dir child) entry := by
  rw [pkgChild, Option.map_eq_some_iff, PkgAt]
  constructor
  · rintro ⟨⟨c, isDir⟩, h, rfl⟩
    obtain ⟨hne, hslash, ⟨-, hname⟩ | ⟨-, hname⟩⟩ := pkgNameInDir_eq_some_iff.mp h
    · exact ⟨hne, hslash, .inl hname⟩
    · exact ⟨hne, hslash, .inr hname⟩
  · rintro ⟨hne, hslash, hname | hname⟩
    · exact ⟨(child, false), pkgNameInDir_eq_some_iff.mpr ⟨hne, hslash, .inl ⟨rfl, hname⟩⟩, rfl⟩
    · exact ⟨(child, true), pkgNameInDir_eq_some_iff.mpr ⟨hne, hslash, .inr ⟨rfl, hname⟩⟩, rfl⟩

/-! ### Listings -/

@[simp] theorem pkgDirInfo_inode (i : ℕ) (entry : PkgEntry) (isDir : Bool) :
    (pkgDirInfo i entry isDir).inode = i := by cases isDir <;> rfl

@[simp] theorem pkgDirInfo_dir (i : ℕ) (entry : PkgEntry) (isDir : Bool) :
    (pkgDirInfo i entry isDir).dir = (isDir || entry.isDir) := by cases isDir <;> rfl

/-- The buckets hold the names that were seen. -/
def PkgSeen (buckets : ℕ → List Name) (seen : List Name) : Prop :=
  ∀ name, name ∈ buckets (pkgHashName name) ↔ name ∈ seen

theorem PkgSeen.add {buckets : ℕ → List Name} {seen : List Name} (h : PkgSeen buckets seen)
    (name : Name) : PkgSeen (pkgSeenAdd buckets name) (name :: seen) := by
  intro other
  rw [pkgSeenAdd, List.mem_cons, ← h other]
  by_cases hhash : pkgHashName other = pkgHashName name
  · rw [if_pos hhash, List.mem_cons]
  · rw [if_neg hhash]
    refine ⟨.inr, fun hmem => hmem.resolve_left ?_⟩
    rintro rfl
    exact hhash rfl

theorem pkgDirLoop_eq_collect {dir : Name} {buckets : ℕ → List Name} {seen : List Name}
    (hseen : PkgSeen buckets seen) (i : ℕ) (entries : List PkgEntry) :
    (pkgDirLoop dir buckets i entries).map (fun item => (item.1, item.2.inode))
      = FirstSeen.collect (pkgChild dir) seen i entries := by
  induction entries generalizing buckets seen i with
  | nil => rfl
  | cons entry entries ih =>
    rw [pkgDirLoop]
    cases hname : pkgNameInDir entry.name dir with
    | none =>
      have hchild : pkgChild dir entry = none := by rw [pkgChild, hname, Option.map_none]
      rw [FirstSeen.collect_cons_none hchild]
      exact ih hseen (i + 1)
    | some child =>
      obtain ⟨name, isDir⟩ := child
      have hchild : pkgChild dir entry = some name := by rw [pkgChild, hname, Option.map_some]
      simp only
      by_cases hmem : name ∈ buckets (pkgHashName name)
      · rw [if_pos hmem, FirstSeen.collect_cons_old hchild ((hseen name).mp hmem)]
        exact ih hseen (i + 1)
      · rw [if_neg hmem, FirstSeen.collect_cons_new hchild (fun h => hmem ((hseen name).mpr h)),
          List.map_cons, pkgDirInfo_inode, ih (hseen.add name)]

theorem mem_pkgDirLoop {dir : Name} {buckets : ℕ → List Name} {i : ℕ} {entries : List PkgEntry}
    {name : Name} {info : PkgDirInfo} (h : (name, info) ∈ pkgDirLoop dir buckets i entries) :
    ∃ m entry isDir, entries[m]? = some entry ∧ pkgNameInDir entry.name dir = some (name, isDir)
      ∧ info = pkgDirInfo (i + m) entry isDir := by
  induction entries generalizing buckets i with
  | nil => cases h
  | cons entry entries ih =>
    have hlater : ∀ {buckets}, (name, info) ∈ pkgDirLoop dir buckets (i + 1) entries →
        ∃ m e isDir, (entry :: entries)[m]? = some e ∧ pkgNameInDir e.name dir = some (name, isDir)
          ∧ info = pkgDirInfo (i + m) e isDir := by
      intro buckets h
      obtain ⟨m, e, isDir, hm, hname, hinfo⟩ := ih h
      exact ⟨m + 1, e, isDir, hm, hname, by rw [hinfo, Nat.add_assoc, Nat.add_comm 1 m]⟩
    rw [pkgDirLoop] at h
    cases hname : pkgNameInDir entry.name dir with
    | none =>
      rw [hname] at h
      exact hlater h
    | some child =>
      obtain ⟨child, isDir⟩ := child
      rw [hname] at h
      simp only at h
      split_ifs at h
      · exact hlater h
      · rcases List.mem_cons.mp h with h | h
        · obtain ⟨rfl, rfl⟩ := Prod.mk.inj h
          exact ⟨0, entry, isDir, rfl, hname, rfl⟩
        · exact hlater h

/-- What a listing that succeeds lists: for each child the first entry at or below it. -/
theorem mem_pkgDir_iff {data : PkgTree} {path : Name} {items : List (Name × PkgDirInfo)}
    (h : pkgDir data path = .ok items) {name : Name} {info : PkgDirInfo} :
    (name, info) ∈ items ↔ ∃ i entry isDir, data.entries[i]? = some entry
      ∧ pkgNameInDir entry.name (pkgNormPath path) = some (name, isDir)
      ∧ FirstSeen.IsFirst (pkgChild (pkgNormPath path)) data.entries name i
      ∧ info = pkgDirInfo i entry isDir := by
  rw [pkgDir] at h
  split_ifs at h
  obtain rfl := Except.ok.inj h
  have hcollect := @pkgDirLoop_eq_collect (pkgNormPath path) (fun _ => []) [] (fun _ => Iff.rfl)
    0 data.entries
  constructor
  · intro hmem
    obtain ⟨m, entry, isDir, hm, hname, hinfo⟩ := mem_pkgDirLoop hmem
    rw [Nat.zero_add] at hinfo
    have hfirst : (name, m) ∈ FirstSeen.collect (pkgChild (pkgNormPath path))
      [] 0 data.entries := by
      rw [← hcollect]
      exact List.mem_map.mpr ⟨(name, info), hmem, by rw [hinfo, pkgDirInfo_inode]⟩
    obtain ⟨-, n, rfl, hn⟩ := FirstSeen.mem_collect_iff.mp hfirst
    rw [Nat.zero_add] at hm hinfo
    exact ⟨n, entry, isDir, hm, hname, hn, hinfo⟩
  · rintro ⟨i, entry, isDir, hi, hname, hfirst, rfl⟩
    have hfound : (name, i) ∈ FirstSeen.collect (pkgChild (pkgNormPath path)) [] 0 data.entries :=
      FirstSeen.mem_collect_iff.mpr ⟨List.not_mem_nil, i, (Nat.zero_add i).symm, hfirst⟩
    rw [← hcollect] at hfound
    obtain ⟨⟨n, info⟩, hmem, heq⟩ := List.mem_map.mp hfound
    obtain ⟨rfl, hinode⟩ := Prod.mk.inj heq
    obtain ⟨m, e, isDir', hm, hname', rfl⟩ := mem_pkgDirLoop hmem
    rw [Nat.zero_add, pkgDirInfo_inode] at hinode
    rw [← hinode, hm, Option.some.injEq] at hi
    rw [← hi, hname', Option.some.injEq, Prod.mk.injEq] at hname
    rwa [Nat.zero_add, hinode, hi, hname.2] at hmem

theorem pkgDir_nodup {data : PkgTree} {path : Name} {items : List (Name × PkgDirInfo)}
    (h : pkgDir data path = .ok items) : (items.map Prod.fst).Nodup := by
  rw [pkgDir] at h
  split_ifs at h
  obtain rfl := Except.ok.inj h
  have hcollect := @pkgDirLoop_eq_collect (pkgNormPath path) (fun _ => []) [] (fun _ => Iff.rfl)
    0 data.entries
  have hnodup := @FirstSeen.collect_nodup _ _ _ (pkgChild (pkgNormPath path)) [] 0 data.entries
  rw [← hcollect, List.map_map] at hnodup
  exact hnodup

/-! ### Paths -/

theorem pkgNormPath_eq_of_skip {s path : Name} (h : pkgSkip s = path)
    (hlast : path.getLast? ≠ some pkgSlash) : pkgNormPath s = path := by
  rw [pkgNormPath, h, List.rdropWhile_eq_self_iff]
  intro hne hslash
  rw [List.getLast?_eq_some_getLast hne] at hlast
  exact hlast (congrArg some (of_decide_eq_true hslash))

theorem getLast_pkgJoin {dir name : Name} (hne : name ≠ []) (hslash : pkgSlash ∉ name) :
    (pkgJoin dir name).getLast? ≠ some pkgSlash := by
  have hname : name.getLast? ≠ some pkgSlash := by
    rw [List.getLast?_eq_some_getLast hne, ne_eq, Option.some.injEq]
    intro h
    exact hslash (h ▸ List.getLast_mem hne)
  rw [pkgJoin]
  split_ifs
  · exact hname
  · rwa [← List.singleton_append, ← List.append_assoc, List.getLast?_append_of_ne_nil _ hne]

/-- The name of an entry is not empty and has no slash in front, and neither has what is behind a
slash in it. -/
theorem PkgNorm.head_ne {name : Name} (h : PkgNorm name) : name.head? ≠ some pkgSlash := by
  obtain ⟨comps, hne, hcomps, rfl⟩ := h
  cases comps with
  | nil => exact absurd rfl hne
  | cons c cs =>
    obtain ⟨hc, hslash, -⟩ := hcomps c List.mem_cons_self
    have hhead : c.head? ≠ some pkgSlash := by
      rw [List.head?_eq_some_head hc, ne_eq, Option.some.injEq]
      intro heq
      exact hslash (heq ▸ List.head_mem hc)
    cases cs with
    | nil => exact hhead
    | cons d ds =>
      rw [List.head?_eq_some_head hc] at hhead
      show (c ++ pkgSlash :: pkgJoinAll (d :: ds)).head? ≠ some pkgSlash
      rwa [List.head?_append_of_ne_nil _ hc, List.head?_eq_some_head hc]

theorem pkgJoinAll_cons {c : Name} {cs : List Name} (hcs : cs ≠ []) :
    pkgJoinAll (c :: cs) = c ++ pkgSlash :: pkgJoinAll cs := by
  cases cs with
  | nil => exact absurd rfl hcs
  | cons d ds => rfl

theorem append_slash_inj {a b x y : Name} (ha : pkgSlash ∉ a)
    (h : a ++ pkgSlash :: x = b ++ pkgSlash :: y) :
    (b = a ∧ y = x) ∨ ∃ b', b = a ++ pkgSlash :: b' ∧ x = b' ++ pkgSlash :: y := by
  induction a generalizing b with
  | nil =>
    cases b with
    | nil => exact .inl ⟨rfl, (List.cons.inj h).2.symm⟩
    | cons d b =>
      obtain ⟨rfl, hrest⟩ := List.cons.inj h
      exact .inr ⟨b, rfl, hrest⟩
  | cons e a ih =>
    rw [List.mem_cons, not_or] at ha
    cases b with
    | nil => exact absurd (List.cons.inj h).1.symm ha.1
    | cons d b =>
      obtain ⟨rfl, hrest⟩ := List.cons.inj h
      rcases ih ha.2 hrest with ⟨rfl, rfl⟩ | ⟨b', rfl, hx⟩
      · exact .inl ⟨rfl, rfl⟩
      · exact .inr ⟨b', rfl, hx⟩

theorem PkgNorm.tail {name pre more : Name} (h : PkgNorm name)
  (heq : name = pre ++ pkgSlash :: more) :
    PkgNorm more := by
  obtain ⟨comps, hne, hcomps, rfl⟩ := h
  induction comps generalizing pre with
  | nil => exact absurd rfl hne
  | cons c cs ih =>
    have hc := hcomps c List.mem_cons_self
    have hcs : ∀ d ∈ cs, PkgComponent d := fun d hd => hcomps d (List.mem_cons_of_mem _ hd)
    cases cs with
    | nil =>
      have hmem : pkgSlash ∈ c := by
        rw [show c = pre ++ pkgSlash :: more from heq]
        exact List.mem_append_right _ List.mem_cons_self
      exact absurd hmem hc.slash_notMem
    | cons d ds =>
      rw [pkgJoinAll_cons (List.cons_ne_nil d ds)] at heq
      rcases append_slash_inj hc.slash_notMem heq with ⟨-, rfl⟩ | ⟨pre', -, hrest⟩
      · exact ⟨d :: ds, List.cons_ne_nil d ds, hcs, rfl⟩
      · exact ih (List.cons_ne_nil d ds) hcs hrest

/-- An entry at a directory or below it makes the directory there. -/
theorem pkgDir_of_at {data : PkgTree} {s path : Name} (hskip : pkgSkip s = path)
    (hlast : path.getLast? ≠ some pkgSlash) {entry : PkgEntry} (hmem : entry ∈ data.entries)
    (hat : PkgAt path entry) : ∃ items, pkgDir data s = .ok items := by
  have hfound : pkgDirFound data s = true := by
    rw [pkgDirFound, Bool.or_eq_true]
    refine .inr (List.any_eq_true.mpr ⟨entry, hmem, ?_⟩)
    rw [Bool.or_eq_true]
    rcases hat with hname | ⟨more, hname⟩
    · exact .inr (decide_eq_true (hname.trans hskip.symm))
    · refine .inl ?_
      have hmore := (data.norm entry hmem).tail hname
      obtain ⟨comps, hne, hcomps, rfl⟩ := hmore
      cases comps with
      | nil => exact absurd rfl hne
      | cons c cs =>
        have hpath : path ≠ [] := by
          rintro rfl
          have hhead := (data.norm entry hmem).head_ne
          rw [hname] at hhead
          exact hhead rfl
        have hc := hcomps c List.mem_cons_self
        have hchild : ∃ isDir, pkgNameInDir entry.name path = some (c, isDir) := by
          cases cs with
          | nil =>
            refine ⟨false, pkgNameInDir_eq_some_iff.mpr
              ⟨hc.ne_nil, hc.slash_notMem, .inl ⟨rfl, ?_⟩⟩⟩
            rw [hname, pkgJoin, if_neg hpath]
            rfl
          | cons d ds =>
            refine ⟨true, pkgNameInDir_eq_some_iff.mpr ⟨hc.ne_nil, hc.slash_notMem,
              .inr ⟨rfl, pkgJoinAll (d :: ds), ?_⟩⟩⟩
            rw [hname, pkgJoin, if_neg hpath, pkgJoinAll_cons (List.cons_ne_nil d ds),
              List.append_assoc, List.cons_append]
        obtain ⟨isDir, hchild⟩ := hchild
        rw [pkgNormPath_eq_of_skip hskip hlast, hchild]
        rfl
  exact ⟨_, if_pos hfound⟩

/-! ### Lookups -/

theorem pkgFindEntry_eq_some {data : PkgTree} {s path : Name} (hs : pkgNormPath s = path) {i : ℕ}
    {entry : PkgEntry} (hi : data.entries[i]? = some entry) (hname : entry.name = path)
    (hfirst : ∀ j < i, ∀ e, data.entries[j]? = some e → e.name ≠ path) :
    pkgFindEntry data s = some i := by
  rw [pkgFindEntry, hs, List.findIdx?_eq_some_iff_getElem]
  obtain ⟨hlt, rfl⟩ := List.getElem?_eq_some_iff.mp hi
  refine ⟨hlt, decide_eq_true hname, fun j hj => ?_⟩
  rw [decide_eq_true_eq]
  exact hfirst j hj _ (List.getElem?_eq_getElem (by omega))

theorem pkgOpenEntry_size (data : PkgTree) (entry : PkgEntry) :
    (pkgOpenEntry data entry).size = entry.size := by
  rw [pkgOpenEntry]
  split_ifs <;> rfl

/-- A name that is listed as a file opens as the entry that is listed. -/
theorem pkgOpen_of_listed {data : PkgTree} {d : Name} {items : List (Name × PkgDirInfo)}
    (hdir : pkgDir data d = .ok items) {name : Name} {info : PkgDirInfo}
      (hmem : (name, info) ∈ items)
    (hfile : info.dir = false) {s : Name} (hs : pkgSkip s = pkgJoin (pkgNormPath d) name) :
    ∃ entry, data.entries[info.inode]? = some entry ∧ entry.isDir = false
      ∧ pkgFindEntry data s = some info.inode ∧ pkgOpen data s = .ok (pkgOpenEntry data entry)
      ∧ info.symlink = entry.isLnk
      ∧ info.size = if entry.isLnk then none else some (pkgOpenEntry data entry).size := by
  obtain ⟨i, entry, isDir, hi, hname, hfirst, rfl⟩ := (mem_pkgDir_iff hdir).mp hmem
  rw [pkgDirInfo_dir, Bool.or_eq_false_iff] at hfile
  obtain ⟨rfl, hnotDir⟩ := hfile
  obtain ⟨hne, hslash, ⟨-, hpath⟩ | ⟨h, -⟩⟩ := pkgNameInDir_eq_some_iff.mp hname
  · have hfind : pkgFindEntry data s = some i := by
      refine pkgFindEntry_eq_some (pkgNormPath_eq_of_skip hs (getLast_pkgJoin hne hslash)) hi hpath
        fun j hj e he heq => hfirst.2 j hj e he ?_
      exact pkgChild_eq_some_iff.mpr ⟨hne, hslash, .inl heq⟩
    rw [pkgDirInfo_inode]
    refine ⟨entry, hi, hnotDir, hfind, ?_, rfl, ?_⟩
    · rw [pkgOpen, hfind, Option.bind_some, hi]
      exact if_neg (by rw [hnotDir]; exact Bool.false_ne_true)
    · rw [pkgDirInfo, pkgOpenEntry_size]
      simp only [hnotDir, Bool.or_false, Bool.false_eq_true, if_false, true_and]
      cases entry.isLnk <;> rfl
  · cases h

theorem pkgDir_of_listed {data : PkgTree} {d : Name} {items : List (Name × PkgDirInfo)}
    (hdir : pkgDir data d = .ok items) {name : Name} {info : PkgDirInfo}
      (hmem : (name, info) ∈ items)
    {s : Name} (hs : pkgSkip s = pkgJoin (pkgNormPath d) name) :
    ∃ items', pkgDir data s = .ok items' := by
  obtain ⟨i, entry, isDir, hi, hname, -, -⟩ := (mem_pkgDir_iff hdir).mp hmem
  have hchild : pkgChild (pkgNormPath d) entry = some name := by rw
    [pkgChild, hname, Option.map_some]
  obtain ⟨hne, hslash, hat⟩ := pkgChild_eq_some_iff.mp hchild
  exact pkgDir_of_at hs (getLast_pkgJoin hne hslash) (List.mem_of_getElem? hi) hat

/-! ### Chains of listings -/

/-- The listings of `dir` and of the directories below it lead along the components to the entry
`i`: each component but the last is listed as a directory, the last as the entry. -/
def PkgReached (data : PkgTree) : Name → List Name → ℕ → Prop
  | _, [], _ => False
  | dir, [c], i => ∃ items info, pkgDir data dir = .ok items ∧ (c, info) ∈ items ∧ info.inode = i
  | dir, c :: cs, i => ∃ items info, pkgDir data dir = .ok items ∧ (c, info) ∈ items
    ∧ info.dir = true ∧ PkgReached data (pkgJoin dir c) cs i

/-- An earlier entry is at or below the path of the entry `i`. -/
def PkgReplaced (data : PkgTree) (i : ℕ) (path : Name) : Prop :=
  ∃ j < i, ∃ e : PkgEntry, data.entries[j]? = some e ∧ PkgAt path e

/-- The first entry at or below the path is a file at the path. -/
def PkgFileFirst (data : PkgTree) (path : Name) : Prop :=
  ∃ (j : ℕ) (e : PkgEntry), data.entries[j]? = some e ∧ e.name = path ∧ e.isDir = false
    ∧ ∀ k < j, ∀ e', data.entries[k]? = some e' → ¬ PkgAt path e'

theorem pkgDir_child {data : PkgTree} {dir c : Name} (hdir : pkgNormPath dir = dir) {n : ℕ}
    {entry : PkgEntry}
    (hn : data.entries[n]? = some entry) (hchild : pkgChild dir entry = some c) :
    ∃ items i, ∃ e : PkgEntry, ∃ isDir, pkgDir data dir = .ok items ∧ i ≤ n
      ∧ data.entries[i]? = some e ∧ pkgNameInDir e.name dir = some (c, isDir)
      ∧ FirstSeen.IsFirst (pkgChild dir) data.entries c i
      ∧ ∀ info, (c, info) ∈ items ↔ info = pkgDirInfo i e isDir := by
  obtain ⟨i, hle, hfirst⟩ := FirstSeen.exists_isFirst hn hchild
  obtain ⟨e, hi, he⟩ := hfirst.1
  obtain ⟨⟨c', isDir⟩, hname, rfl⟩ := Option.map_eq_some_iff.mp he
  obtain ⟨items, hitems⟩ : ∃ items, pkgDir data dir = .ok items := by
    refine ⟨_, if_pos ?_⟩
    rw [pkgDirFound, Bool.or_eq_true, hdir]
    refine .inr (List.any_eq_true.mpr ⟨e, List.mem_of_getElem? hi, ?_⟩)
    rw [hname]
    rfl
  refine ⟨items, i, e, isDir, hitems, hle, hi, hname, hfirst, fun info => ?_⟩
  rw [mem_pkgDir_iff hitems, hdir]
  constructor
  · rintro ⟨j, e', isDir', hj, hname', hfirst', rfl⟩
    obtain rfl := hfirst'.unique hfirst
    rw [hi, Option.some.injEq] at hj
    rw [← hj, hname, Option.some.injEq, Prod.mk.injEq] at hname'
    rw [hj, hname'.2]
  · rintro rfl
    exact ⟨i, e, isDir, hi, hname, hfirst, rfl⟩

theorem pkgFileFirst_iff {data : PkgTree} {dir c : Name} {i : ℕ} {e : PkgEntry} {isDir : Bool}
    (hi : data.entries[i]? = some e) (hname : pkgNameInDir e.name dir = some (c, isDir))
    (hfirst : FirstSeen.IsFirst (pkgChild dir) data.entries c i) :
    PkgFileFirst data (pkgJoin dir c) ↔ (isDir || e.isDir) = false := by
  obtain ⟨hne, hslash, hcase⟩ := pkgNameInDir_eq_some_iff.mp hname
  have hat : ∀ e', PkgAt (pkgJoin dir c) e' ↔ pkgChild dir e' = some c := fun e' =>
    ⟨fun h => pkgChild_eq_some_iff.mpr ⟨hne, hslash, h⟩, fun h => (pkgChild_eq_some_iff.mp h).2.2⟩
  constructor
  · rintro ⟨j, e', hj, hpath, hfile, hbefore⟩
    have hfirst' : FirstSeen.IsFirst (pkgChild dir) data.entries c j :=
      ⟨⟨e', hj, (hat e').mp (.inl hpath)⟩, fun k hk e'' he'' h =>
        hbefore k hk e'' he'' ((hat e'').mpr h)⟩
    obtain rfl := hfirst'.unique hfirst
    rw [hi, Option.some.injEq] at hj
    rw [hj, hfile, Bool.or_false]
    rcases hcase with ⟨hisDir, -⟩ | ⟨-, more, hmore⟩
    · exact hisDir
    · rw [hj, hpath] at hmore
      have hlen := congrArg List.length hmore
      rw [List.length_append, List.length_cons] at hlen
      omega
  · intro h
    obtain ⟨rfl, hfile⟩ := Bool.or_eq_false_iff.mp h
    rcases hcase with ⟨-, hpath⟩ | ⟨h, -⟩
    · exact ⟨i, e, hi, hpath, hfile, fun k hk e' he' h =>
        hfirst.2 k hk e' he' ((hat e').mp h)⟩
    · cases h

/-- The directory of some components of a name. -/
structure PkgPath (dir : Name) : Prop where
  skip_eq : pkgSkip dir = dir
  last_ne : dir.getLast? ≠ some pkgSlash

theorem PkgPath.norm_eq {dir : Name} (h : PkgPath dir) : pkgNormPath dir = dir :=
  pkgNormPath_eq_of_skip h.skip_eq h.last_ne

theorem PkgPath.root : PkgPath [] := ⟨rfl, by simp⟩

theorem PkgPath.join {dir c : Name} (h : PkgPath dir) (hc : PkgComponent c) :
    PkgPath (pkgJoin dir c) := by
  refine ⟨?_, getLast_pkgJoin hc.ne_nil hc.slash_notMem⟩
  have hhead : ∀ name : Name, name.head? ≠ some pkgSlash → pkgSkip name = name := by
    intro name hname
    cases name with
    | nil => rfl
    | cons b name =>
      refine List.dropWhile_cons_of_neg ?_
      rw [decide_eq_true_eq]
      rintro rfl
      exact hname rfl
  refine hhead _ ?_
  rw [pkgJoin]
  by_cases hdir : dir = []
  · rw [if_pos hdir, List.head?_eq_some_head hc.ne_nil, ne_eq, Option.some.injEq]
    intro heq
    exact hc.slash_notMem (heq ▸ List.head_mem hc.ne_nil)
  · rw [if_neg hdir, List.head?_append_of_ne_nil _ hdir]
    intro hslash
    have hskip := h.skip_eq
    cases dir with
    | nil => exact hdir rfl
    | cons b dir =>
      rw [List.head?_cons, Option.some.injEq] at hslash
      rw [pkgSkip, List.dropWhile_cons, if_pos (decide_eq_true hslash)] at hskip
      have hlen := congrArg List.length hskip
      have hle := (List.dropWhile_sublist (fun b => decide (b = pkgSlash)) (l := dir)).length_le
      rw [List.length_cons] at hlen
      omega

theorem pkgJoin_ne_nil {dir c : Name} (hc : c ≠ []) : pkgJoin dir c ≠ [] := by
  rw [pkgJoin]
  split_ifs
  · exact hc
  · simp

theorem pkgJoin_append {dir c x : Name} (hc : c ≠ []) :
    pkgJoin (pkgJoin dir c) x = pkgJoin dir (c ++ pkgSlash :: x) := by
  rw [pkgJoin, if_neg (pkgJoin_ne_nil hc), pkgJoin, pkgJoin]
  split_ifs
  · rfl
  · rw [List.append_assoc, List.cons_append]

/-- The chain of listings from a directory to an entry below it. -/
theorem pkgReached_iff {data : PkgTree} {i : ℕ} {entry : PkgEntry}
  (hi : data.entries[i]? = some entry)
    {cs : List Name} {dir c : Name} (hdir : PkgPath dir) (hcs : ∀ d ∈ c :: cs, PkgComponent d)
    (hname : entry.name = pkgJoin dir (pkgJoinAll (c :: cs))) :
    PkgReached data dir (c :: cs) i ↔ ¬ PkgReplaced data i entry.name
      ∧ ∀ x more, pkgJoinAll (c :: cs) = x ++ pkgSlash :: more
        → ¬ PkgFileFirst data (pkgJoin dir x) := by
  induction cs generalizing dir c with
  | nil =>
    have hc := hcs c List.mem_cons_self
    have hchild : pkgChild dir entry = some c :=
      pkgChild_eq_some_iff.mpr ⟨hc.ne_nil, hc.slash_notMem, .inl hname⟩
    obtain ⟨items, n, e, isDir, hitems, hle, hn, -, hfirst, hmem⟩ :=
      pkgDir_child hdir.norm_eq hi hchild
    have hlast : PkgReached data dir [c] i ↔ n = i := by
      constructor
      · rintro ⟨items', info, hitems', hinfo, rfl⟩
        obtain rfl := Except.ok.inj (hitems.symm.trans hitems')
        rw [(hmem info).mp hinfo, pkgDirInfo_inode]
      · rintro rfl
        exact ⟨items, _, hitems, (hmem _).mpr rfl, pkgDirInfo_inode _ _ _⟩
    have hfree : ∀ x more, c = x ++ pkgSlash :: more → ¬ PkgFileFirst data (pkgJoin dir x) :=
      fun x more heq => absurd (heq ▸ List.mem_append_right _ List.mem_cons_self) hc.slash_notMem
    rw [hlast]
    constructor
    · rintro rfl
      refine ⟨?_, hfree⟩
      rintro ⟨j, hj, e', he', hat⟩
      rw [hname] at hat
      exact hfirst.2 j hj e' he' (pkgChild_eq_some_iff.mpr ⟨hc.ne_nil, hc.slash_notMem, hat⟩)
    · rintro ⟨hnot, -⟩
      refine Nat.le_antisymm hle (Nat.le_of_not_lt fun hlt => hnot ⟨n, hlt, e, hn, ?_⟩)
      obtain ⟨e', he', hkey⟩ := hfirst.1
      rw [hn, Option.some.injEq] at he'
      rw [hname, he']
      exact (pkgChild_eq_some_iff.mp hkey).2.2
  | cons d ds ih =>
    have hc := hcs c List.mem_cons_self
    have hjoin : pkgJoinAll (c :: d :: ds) = c ++ pkgSlash :: pkgJoinAll (d :: ds) :=
      pkgJoinAll_cons (List.cons_ne_nil d ds)
    have hname' : entry.name = pkgJoin (pkgJoin dir c) (pkgJoinAll (d :: ds)) := by
      rw [hname, hjoin, pkgJoin_append hc.ne_nil]
    have hchild : pkgChild dir entry = some c := by
      refine pkgChild_eq_some_iff.mpr ⟨hc.ne_nil, hc.slash_notMem, .inr ⟨pkgJoinAll (d :: ds), ?_⟩⟩
      rw [hname', pkgJoin, if_neg (pkgJoin_ne_nil hc.ne_nil)]
    obtain ⟨items, n, e, isDir, hitems, -, hn, hin, hfirst, hmem⟩ :=
      pkgDir_child hdir.norm_eq hi hchild
    have hfile := pkgFileFirst_iff hn hin hfirst
    have hnext := ih (hdir.join hc) (fun x hx => hcs x (List.mem_cons_of_mem _ hx)) hname'
    -- the first step is a directory, and the rest is a chain
    have hstep : PkgReached data dir (c :: d :: ds) i
        ↔ ¬ PkgFileFirst data (pkgJoin dir c) ∧ PkgReached data (pkgJoin dir c) (d :: ds) i := by
      rw [hfile, Bool.not_eq_false]
      constructor
      · rintro ⟨items', info, hitems', hinfo, hisDir, hrest⟩
        obtain rfl := Except.ok.inj (hitems.symm.trans hitems')
        rw [(hmem info).mp hinfo, pkgDirInfo_dir] at hisDir
        exact ⟨hisDir, hrest⟩
      · rintro ⟨hisDir, hrest⟩
        exact ⟨items, _, hitems, (hmem _).mpr rfl, by rw [pkgDirInfo_dir, hisDir], hrest⟩
    rw [hstep, hnext]
    constructor
    · rintro ⟨hfirstDir, hnot, hrest⟩
      refine ⟨hnot, fun x more heq => ?_⟩
      rw [hjoin] at heq
      rcases append_slash_inj hc.slash_notMem heq with ⟨rfl, -⟩ | ⟨x', rfl, heq'⟩
      · exact hfirstDir
      · rw [← pkgJoin_append hc.ne_nil]
        exact hrest x' more heq'
    · rintro ⟨hnot, hall⟩
      refine ⟨hall c _ hjoin, hnot, fun x more heq => ?_⟩
      rw [pkgJoin_append hc.ne_nil]
      refine hall _ more ?_
      rw [hjoin, heq, List.append_assoc, List.cons_append]

/-! ### Consistency -/

/-- What is promised of the tree of a package. -/
structure PkgConsistent (data : PkgTree) : Prop where
  /-- A listing reports each name once. -/
  names_once : ∀ d items, pkgDir data d = .ok items → (items.map Prod.fst).Nodup
  /-- A file of a listing opens as the entry that is listed, and with the size that is listed. -/
  files_open : ∀ d items name info, pkgDir data d = .ok items → (name, info) ∈ items →
    info.dir = false → ∀ s, pkgSkip s = pkgJoin (pkgNormPath d) name →
      ∃ entry, data.entries[info.inode]? = some entry ∧ entry.isDir = false
        ∧ pkgFindEntry data s = some info.inode ∧ pkgOpen data s = .ok (pkgOpenEntry data entry)
        ∧ info.symlink = entry.isLnk
        ∧ info.size = if entry.isLnk then none else some (pkgOpenEntry data entry).size
  /-- A directory of a listing can be listed. -/
  dirs_list : ∀ d items name info, pkgDir data d = .ok items → (name, info) ∈ items →
    info.dir = true → ∀ s, pkgSkip s = pkgJoin (pkgNormPath d) name →
      ∃ items', pkgDir data s = .ok items'
  /-- An entry is at the end of a chain of listings, unless an earlier one is at or below its path,
  or a file at the path of one of its directories comes first. -/
  reached_iff : ∀ i entry, data.entries[i]? = some entry →
    (PkgReached data [] (fshelpComponents entry.name) i ↔ ¬ PkgReplaced data i entry.name
      ∧ ∀ dir more, entry.name = dir ++ pkgSlash :: more → ¬ PkgFileFirst data dir)

/-- The tree of every package is consistent, and the names in it have their normal form: each is
joined from components that are neither empty nor ".", and normalising it again changes nothing. -/
theorem pkgConsistent (data : PkgTree) :
    PkgConsistent data
      ∧ (∀ pre raw out, (∀ p ∈ pre, PkgNorm p) → pkgNormName pre raw = .ok (some out) → PkgNorm out)
      ∧ (∀ raw out, pkgNormName none raw = .ok (some out) → pkgNormName none out = .ok (some out))
      ∧ ∀ entry ∈ data.entries, ∀ c ∈ fshelpComponents entry.name, PkgComponent c := by
  refine ⟨⟨fun d items h => pkgDir_nodup h, fun d items name info h hmem hfile s hs =>
      pkgOpen_of_listed h hmem hfile hs, fun d items name info h hmem _ s hs =>
      pkgDir_of_listed h hmem hs, fun i entry hi => ?_⟩, fun pre raw out => pkgNormName_norm,
    fun raw out => pkgNormName_idempotent, fun entry hentry c hc => ?_⟩
  · obtain ⟨comps, hne, hcomps, hname⟩ := data.norm entry (List.mem_of_getElem? hi)
    cases comps with
    | nil => exact absurd rfl hne
    | cons c cs =>
      have hiff := pkgReached_iff hi PkgPath.root hcomps (hname.trans (if_pos rfl).symm)
      simp only [pkgJoin, if_true] at hiff
      rw [← hname] at hiff
      rw [hname, fshelpComponents_joinAll hcomps, ← hname]
      exact hiff
  · obtain ⟨comps, -, hcomps, hname⟩ := data.norm entry hentry
    rw [hname, fshelpComponents_joinAll hcomps] at hc
    exact hcomps c hc

/-- The entries "a/b" and "a", both files. -/
def pkgHiddenTree : PkgTree where
  entries :=
    [⟨[0x61, 0x2f, 0x62], none, 0, 0, 1, 0, -1, 0, false, false⟩,
      ⟨[0x61], none, 0, 0, 1, 0, -1, 0, false, false⟩]
  streams := []
  norm := by
    intro entry hentry
    simp only [List.mem_cons, List.not_mem_nil, or_false] at hentry
    rcases hentry with rfl | rfl
    · refine ⟨[[0x61], [0x62]], by decide, fun c hc => ?_, rfl⟩
      simp only [List.mem_cons, List.not_mem_nil, or_false] at hc
      rcases hc with rfl | rfl <;> exact ⟨by decide, by decide, by decide⟩
    · refine ⟨[[0x61]], by decide, fun c hc => ?_, rfl⟩
      rw [List.mem_singleton.mp hc]
      exact ⟨by decide, by decide, by decide⟩

/-- The file "a" is listed nowhere: its name stands for the directory of "a/b". -/
theorem pkgReached_hidden :
    ¬ ∀ (data : PkgTree) (i : ℕ) (entry : PkgEntry), data.entries[i]? = some entry →
      PkgReached data [] (fshelpComponents entry.name) i
        ∨ ∃ j e, j ≠ i ∧ data.entries[j]? = some e ∧ e.name = entry.name := by
  intro h
  rcases h pkgHiddenTree 1 _ rfl with hreached | ⟨j, e, hj, he, hname⟩
  · obtain ⟨items, info, hitems, hmem, hinode⟩ := hreached
    have hlisted : (pkgDir pkgHiddenTree []).toOption
        = some [([0x61], ⟨true, 0, false, none, none⟩)] := by decide
    rw [hitems] at hlisted
    rw [Option.some.inj hlisted, List.mem_singleton, Prod.mk.injEq] at hmem
    rw [hmem.2] at hinode
    cases hinode
  · match j with
    | 0 =>
      rw [← Option.some.inj he] at hname
      revert hname
      decide
    | 1 => exact hj rfl
    | j + 2 => cases he

end FsRover
