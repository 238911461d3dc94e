import FsRover.Fs.Fshelp
import Mathlib.Data.List.DropRight

/-!
# The collection phase of an extraction

`extract` first collects what it is to write: `walk_dir` lists a directory and goes into its
directories, and each entry becomes an item of the work list, which names the item of its directory.

The directory graph is any function from paths to listings, with cycles. A walk is a source and the
positions of entries in the listings of directories, one below the other.

## Main definitions

* `FsRover.DirGraph.node` : what a walk leads to.
* `FsRover.Collected` : what a work list is of the walks of a graph.

## Main results

* `FsRover.walkDir_isSome` : the recursion ends.
* `FsRover.walkDir_spec` : what one directory adds to the work list.
-/

namespace FsRover

/-! ### The graph -/

/-- What a walk reads of `rover_stat_t` and of `dir_entry`, with `none` for what is not set. -/
structure WalkStat where
  isDir : Bool
  isSymlink : Bool
  mtime : Option ℤ
  inode : Option ℕ
  deriving DecidableEq, Repr

/-- `dir_entry`. -/
structure DirEntry extends WalkStat where
  name : Name
  deriving DecidableEq, Repr

/-- What `rover_dir_list` comes to: the entries that it hands over, and the message of an error after
them. -/
structure DirListing where
  entries : List DirEntry
  failure : Option (Option String)

/-- The directories that `rover_dir_list` and `rover_stat` show. -/
structure DirGraph where
  stat : Name → Except (Option String) WalkStat
  list : Name → DirListing

/-- The answers of `opts.cancelled`, in the order of the questions: a flag that stays set. -/
structure ExtractOptions where
  cancelled : ℕ → Bool
  latched : ∀ n, cancelled n = true → cancelled (n + 1) = true

/-- `walk_item`, its parent `none` for `NO_PARENT`. -/
structure WalkItem (α : Type*) where
  src : Name
  component : α
  parent : Option ℕ
  isDir : Bool
  mtime : ℤ
  deriving DecidableEq, Repr

/-- The work list, `links_skipped`, and the number of questions asked. -/
structure WalkState (α : Type*) where
  out : List (WalkItem α)
  links : ℕ
  polls : ℕ

/-- Why a walk stops: a cancellation, or an error with the path it is reported of. -/
inductive WalkStop
  | cancelled
  | error (src : Name) (message : String)
  deriving DecidableEq, Repr

section Walk

variable {α : Type*} (g : DirGraph) (opts : ExtractOptions) (sanitizeComponent : Name → α)

/-- `WALK_MAX_DEPTH`. -/
def WALK_MAX_DEPTH : ℕ := 64

/-- `join_path`. -/
def joinPath (parent name : Name) : Name :=
  if parent.getLast? = some 0x2f then parent ++ name else parent ++ 0x2f :: name

/-- `top_component`. -/
def topComponent (src : Name) : α :=
  let path := src.rdropWhile (· == 0x2f)
  match path.idxOf? 0x29 with
  | none => sanitizeComponent path
  | some close =>
    if path.length ≤ close + 1 then sanitizeComponent ((path.drop 1).take (close - 1))
    else sanitizeComponent (path.rtakeWhile (· != 0x2f))

/-- `chain_has`. -/
def chainHas (chain : List (Option ℕ)) (inode : ℕ) : Bool := chain.any (· == some inode)

/-- The hook of a listing, from a question on: the entries kept, whether it stopped the listing, and
the next question. -/
def collectDirEntry : List DirEntry → ℕ → List DirEntry × Bool × ℕ
  | [], polls => ([], false, polls)
  | entry :: entries, polls =>
    if opts.cancelled polls then ([], true, polls + 1)
    else
      let rest := collectDirEntry entries (polls + 1)
      (entry :: rest.1, rest.2)

/-- The item of an entry. -/
def entryItem (src : Name) (parent : ℕ) (entry : DirEntry) : WalkItem α where
  src := joinPath src entry.name
  component := sanitizeComponent entry.name
  parent := some parent
  isDir := entry.isDir
  mtime := entry.mtime.getD 0

/-- The loop of `walk_dir` over the entries, with `visit` for the call of `walk_dir`. -/
def walkEntries
    (visit : Name → ℕ → List (Option ℕ) → WalkState α → Option (Except WalkStop Unit × WalkState α))
    (src : Name) (parent : ℕ) (chain : List (Option ℕ)) :
    List DirEntry → WalkState α → Option (Except WalkStop Unit × WalkState α)
  | [], st => some (.ok (), st)
  | entry :: entries, st =>
    if opts.cancelled st.polls then some (.error .cancelled, { st with polls := st.polls + 1 })
    else if entry.isSymlink then
      walkEntries visit src parent chain entries
        { st with links := st.links + 1, polls := st.polls + 1 }
    else if entry.isDir && entry.inode.any (chainHas chain) then
      some (.error (.error (joinPath src entry.name) "directory loops back on itself"),
        { st with polls := st.polls + 1 })
    else
      let index := st.out.length
      let pushed : WalkState α := { st with
        out := st.out ++ [entryItem sanitizeComponent src parent entry], polls := st.polls + 1 }
      if entry.isDir then
        match visit (joinPath src entry.name) index (chain ++ [entry.inode]) pushed with
        | none => none
        | some (.error stop, st) => some (.error stop, st)
        | some (.ok (), st) => walkEntries visit src parent chain entries st
      else walkEntries visit src parent chain entries pushed

/-- `walk_dir`, with so many calls inside each other: `none` where they are not enough. -/
def walkDir : ℕ → Name → ℕ → List (Option ℕ) → WalkState α →
    Option (Except WalkStop Unit × WalkState α)
  | 0, _, _, _, _ => none
  | calls + 1, src, parent, chain, st =>
    if opts.cancelled st.polls then some (.error .cancelled, { st with polls := st.polls + 1 })
    else if WALK_MAX_DEPTH ≤ chain.length then
      some (.error (.error src "directory nesting too deep"), { st with polls := st.polls + 1 })
    else
      let listing := g.list src
      let collected := collectDirEntry opts listing.entries (st.polls + 1)
      -- a listing that the hook stops does not fail
      match (if collected.2.1 then none else listing.failure) with
      | some message =>
        some (.error (.error src (message.getD "cannot list directory")),
          { st with polls := collected.2.2 })
      | none =>
        if opts.cancelled collected.2.2 then
          some (.error .cancelled, { st with polls := collected.2.2 + 1 })
        else
          walkEntries opts sanitizeComponent (walkDir calls) src parent chain collected.1
            { st with polls := collected.2.2 + 1 }

/-- The item of a source. -/
def sourceItem (source : Name) (stat : WalkStat) : WalkItem α where
  src := source
  component := topComponent sanitizeComponent source
  parent := none
  isDir := stat.isDir
  mtime := stat.mtime.getD 0

/-- The loop of `extract` over the sources. -/
def extractCollect (calls : ℕ) : List Name → WalkState α →
    Option (Except WalkStop Unit × WalkState α)
  | [], st => some (.ok (), st)
  | source :: sources, st =>
    if opts.cancelled st.polls then some (.error .cancelled, { st with polls := st.polls + 1 })
    else
      match g.stat source with
      | .error message =>
        some (.error (.error source (message.getD "cannot stat source")),
          { st with polls := st.polls + 1 })
      | .ok stat =>
        if opts.cancelled (st.polls + 1) then
          some (.error .cancelled, { st with polls := st.polls + 2 })
        else if stat.isSymlink then
          extractCollect calls sources { st with links := st.links + 1, polls := st.polls + 2 }
        else
          let index := st.out.length
          let pushed : WalkState α := { st with
            out := st.out ++ [sourceItem sanitizeComponent source stat], polls := st.polls + 2 }
          if stat.isDir then
            match walkDir g opts sanitizeComponent calls source index [stat.inode] pushed with
            | none => none
            | some (.error stop, st) => some (.error stop, st)
            | some (.ok (), st) => extractCollect calls sources st
          else extractCollect calls sources pushed

/-! ### The walks of a graph -/

/-- What a walk leads to: a path, its component on the host, and what is known of it. -/
structure WalkNode (α : Type*) where
  src : Name
  component : α
  stat : WalkStat

/-- The node of a source. -/
def sourceNode (source : Name) (stat : WalkStat) : WalkNode α :=
  ⟨source, topComponent sanitizeComponent source, stat⟩

/-- The node of an entry of the directory `src`. -/
def entryNode (src : Name) (entry : DirEntry) : WalkNode α :=
  ⟨joinPath src entry.name, sanitizeComponent entry.name, entry.toWalkStat⟩

/-- The node below `node` to which the positions lead, through directories that are no symlinks. -/
def descend : WalkNode α → List ℕ → Option (WalkNode α)
  | node, [] => some node
  | node, i :: is =>
    if node.stat.isDir && !node.stat.isSymlink then
      (g.list node.src).entries[i]?.bind fun entry =>
        descend (entryNode sanitizeComponent node.src entry) is
    else none

/-- The node to which a walk leads: the position of a source, and those of entries. -/
def DirGraph.node (sources : List Name) (walk : ℕ × List ℕ) : Option (WalkNode α) :=
  sources[walk.1]?.bind fun source =>
    match g.stat source with
    | .error _ => none
    | .ok stat => descend g sanitizeComponent (sourceNode sanitizeComponent source stat) walk.2

/-- The inode that is reported of a node. -/
def walkInode (sources : List Name) (walk : ℕ × List ℕ) : Option ℕ :=
  (g.node sanitizeComponent sources walk).bind fun node => node.stat.inode

/-- A walk reports the inode of a directory above it. -/
def RepeatsInode (sources : List Name) (walk : ℕ × List ℕ) : Prop :=
  ∃ inode, ∃ k < walk.2.length, walkInode g sanitizeComponent sources (walk.1, walk.2.take k)
    = some inode ∧ walkInode g sanitizeComponent sources walk = some inode

/-- What item `k` of a work list is of its walk. -/
structure ItemOk (sources : List Name) (walks : List (ℕ × List ℕ)) (out : List (WalkItem α))
    (k : ℕ) (walk : ℕ × List ℕ) (item : WalkItem α) : Prop where
  node : ∃ node, g.node sanitizeComponent sources walk = some node ∧ node.stat.isSymlink = false
    ∧ item.src = node.src ∧ item.component = node.component ∧ item.isDir = node.stat.isDir
    ∧ item.mtime = node.stat.mtime.getD 0
  parent : walk.2 = [] ∧ item.parent = none
    ∨ walk.2 ≠ [] ∧ ∃ p < k, item.parent = some p ∧ walks[p]? = some (walk.1, walk.2.dropLast)
      ∧ ∃ dir, out[p]? = some dir ∧ dir.isDir = true
  unrepeated : item.isDir = true → ¬ RepeatsInode g sanitizeComponent sources walk
  depth : walk.2.length + 1 ≤ WALK_MAX_DEPTH

/-- A work list has an item for each of the walks. -/
structure Collected (sources : List Name) (walks : List (ℕ × List ℕ)) (out : List (WalkItem α)) :
    Prop where
  length : walks.length = out.length
  item : ∀ k walk, walks[k]? = some walk → ∃ item, out[k]? = some item
    ∧ ItemOk g sanitizeComponent sources walks out k walk item

end Walk

/-! ### Lists of walks -/

/-- The list has what satisfies `P`, each once. -/
def Enumerates {β : Type*} (P : β → Prop) (l : List β) : Prop := l.Nodup ∧ ∀ x, x ∈ l ↔ P x

section Enumerates

variable {β : Type*} {P Q : β → Prop} {l m : List β}

theorem Enumerates.nil (h : ∀ x, ¬ P x) : Enumerates P [] :=
  ⟨List.nodup_nil, fun x => iff_of_false List.not_mem_nil (h x)⟩

theorem Enumerates.append (hl : Enumerates P l) (hm : Enumerates Q m) (h : ∀ x, P x → ¬ Q x) :
    Enumerates (fun x => P x ∨ Q x) (l ++ m) := by
  refine ⟨List.nodup_append.mpr ⟨hl.1, hm.1, ?_⟩, fun x => ?_⟩
  · rintro x hx y hy rfl
    exact h x ((hl.2 x).mp hx) ((hm.2 x).mp hy)
  · rw [List.mem_append, hl.2, hm.2]

theorem Enumerates.cons {a : β} (hl : Enumerates P l) (h : ¬ P a) :
    Enumerates (fun x => x = a ∨ P x) (a :: l) := by
  refine ⟨List.nodup_cons.mpr ⟨fun ha => h ((hl.2 a).mp ha), hl.1⟩, fun x => ?_⟩
  rw [List.mem_cons, hl.2]

theorem Enumerates.congr (hl : Enumerates P l) (h : ∀ x, P x ↔ Q x) : Enumerates Q l :=
  ⟨hl.1, fun x => (hl.2 x).trans (h x)⟩

end Enumerates

section Spec

variable {α : Type*} {g : DirGraph} {opts : ExtractOptions} {sanitizeComponent : Name → α}
  {sources : List Name}

theorem collectDirEntry_spec (opts : ExtractOptions) (entries : List DirEntry) (polls : ℕ) :
    (collectDirEntry opts entries polls).2.1 = false
        ∧ (collectDirEntry opts entries polls).1 = entries
      ∨ opts.cancelled (collectDirEntry opts entries polls).2.2 = true := by
  induction entries generalizing polls with
  | nil => exact .inl ⟨rfl, rfl⟩
  | cons entry entries ih =>
    rw [collectDirEntry]
    by_cases hcancel : opts.cancelled polls = true
    · rw [if_pos hcancel]
      exact .inr (opts.latched polls hcancel)
    · rw [if_neg hcancel]
      rcases ih (polls + 1) with ⟨hrun, hkept⟩ | hstop
      · exact .inl ⟨hrun, congrArg (entry :: ·) hkept⟩
      · exact .inr hstop

theorem descend_append (node : WalkNode α) (is js : List ℕ) :
    descend g sanitizeComponent node (is ++ js)
      = (descend g sanitizeComponent node is).bind fun below =>
          descend g sanitizeComponent below js := by
  induction is generalizing node with
  | nil => rfl
  | cons i is ih =>
    rw [List.cons_append, descend, descend]
    split_ifs
    · cases (g.list node.src).entries[i]? with
      | none => rfl
      | some entry => exact ih _
    · rfl

theorem node_append {s : ℕ} {pre is : List ℕ} :
    g.node sanitizeComponent sources (s, pre ++ is)
      = (g.node sanitizeComponent sources (s, pre)).bind fun node =>
          descend g sanitizeComponent node is := by
  rw [DirGraph.node, DirGraph.node]
  cases sources[s]? with
  | none => rfl
  | some source =>
    simp only [Option.bind_some]
    cases g.stat source with
    | error e => rfl
    | ok stat => exact descend_append _ _ _

/-! ### One directory -/

/-- The walks through entry `j` of a directory and the ones after it, to symlinks or to others. -/
def Through (g : DirGraph) (sanitizeComponent : Name → α) (s : ℕ) (pre : List ℕ) (node : WalkNode α)
    (j : ℕ) (link : Bool) (walk : ℕ × List ℕ) : Prop :=
  ∃ i is below, j ≤ i ∧ walk = (s, pre ++ i :: is)
    ∧ descend g sanitizeComponent node (i :: is) = some below ∧ below.stat.isSymlink = link

/-- A directory that a walk enters. -/
def Entered (node : WalkNode α) : Prop := node.stat.isDir = true ∧ node.stat.isSymlink = false

theorem descend_cons {node : WalkNode α} (h : Entered node) (i : ℕ) (is : List ℕ) :
    descend g sanitizeComponent node (i :: is)
      = (g.list node.src).entries[i]?.bind fun entry =>
          descend g sanitizeComponent (entryNode sanitizeComponent node.src entry) is := by
  rw [descend, if_pos]
  rw [h.1, h.2]
  rfl

theorem not_through_of_not_entered {s : ℕ} {pre : List ℕ} {node : WalkNode α} (h : ¬ Entered node)
    {j : ℕ} {link : Bool} (walk : ℕ × List ℕ) :
    ¬ Through g sanitizeComponent s pre node j link walk := by
  rintro ⟨i, is, below, -, -, hbelow, -⟩
  rw [descend, if_neg] at hbelow
  · cases hbelow
  · rw [Bool.and_eq_true, Bool.not_eq_true']
    exact h

theorem not_through_of_le {s : ℕ} {pre : List ℕ} {node : WalkNode α} (h : Entered node) {j : ℕ}
    (hj : (g.list node.src).entries.length ≤ j) {link : Bool} (walk : ℕ × List ℕ) :
    ¬ Through g sanitizeComponent s pre node j link walk := by
  rintro ⟨i, is, below, hi, -, hbelow, -⟩
  rw [descend_cons h, List.getElem?_eq_none (Nat.le_trans hj hi)] at hbelow
  cases hbelow

/-- The walks through entry `j` and the ones after it are that to the entry, those below it, and
those through the ones after it. -/
theorem through_iff {s : ℕ} {pre : List ℕ} {node : WalkNode α} (h : Entered node) {j : ℕ}
    {entry : DirEntry} (hentry : (g.list node.src).entries[j]? = some entry) {link : Bool}
    (walk : ℕ × List ℕ) :
    Through g sanitizeComponent s pre node j link walk
      ↔ (walk = (s, pre ++ [j]) ∧ entry.isSymlink = link)
        ∨ Through g sanitizeComponent s (pre ++ [j])
          (entryNode sanitizeComponent node.src entry) 0 link walk
        ∨ Through g sanitizeComponent s pre node (j + 1) link walk := by
  constructor
  · rintro ⟨i, is, below, hi, rfl, hbelow, hlink⟩
    rcases Nat.eq_or_lt_of_le hi with rfl | hlt
    · rw [descend_cons h, hentry] at hbelow
      cases is with
      | nil =>
        obtain rfl := Option.some.inj hbelow
        exact .inl ⟨rfl, hlink⟩
      | cons i is =>
        exact .inr (.inl ⟨i, is, below, Nat.zero_le i, by simp, hbelow, hlink⟩)
    · exact .inr (.inr ⟨i, is, below, hlt, rfl, hbelow, hlink⟩)
  · rintro (⟨rfl, hlink⟩ | ⟨i, is, below, -, rfl, hbelow, hlink⟩ | ⟨i, is, below, hi, rfl, hbelow,
      hlink⟩)
    · refine ⟨j, [], entryNode sanitizeComponent node.src entry, Nat.le_refl j, rfl, ?_, hlink⟩
      rw [descend_cons h, hentry]
      rfl
    · refine ⟨j, i :: is, below, Nat.le_refl j, by simp, ?_, hlink⟩
      rw [descend_cons h, hentry]
      exact hbelow
    · exact ⟨i, is, below, Nat.le_of_succ_le hi, rfl, hbelow, hlink⟩

theorem ne_of_through_below {s : ℕ} {pre : List ℕ} {node : WalkNode α} {j : ℕ} {link : Bool}
    {walk : ℕ × List ℕ} (h : Through g sanitizeComponent s (pre ++ [j]) node 0 link walk) :
    walk ≠ (s, pre ++ [j]) := by
  obtain ⟨i, is, -, -, rfl, -⟩ := h
  intro heq
  have hlen := congrArg (fun walk : ℕ × List ℕ => walk.2.length) heq
  simp at hlen

theorem ne_of_through_after {s : ℕ} {pre : List ℕ} {node : WalkNode α} {j : ℕ} {link : Bool}
    {walk : ℕ × List ℕ} (h : Through g sanitizeComponent s pre node (j + 1) link walk) :
    walk ≠ (s, pre ++ [j]) := by
  obtain ⟨i, is, -, hi, rfl, -⟩ := h
  intro heq
  obtain ⟨rfl, -⟩ := List.cons.inj (List.append_cancel_left (Prod.mk.inj heq).2)
  omega

theorem not_through_after {s : ℕ} {pre : List ℕ} {node node' : WalkNode α} {j : ℕ}
    {link link' : Bool} {walk : ℕ × List ℕ}
    (h : Through g sanitizeComponent s (pre ++ [j]) node' 0 link walk) :
    ¬ Through g sanitizeComponent s pre node (j + 1) link' walk := by
  obtain ⟨i, is, -, -, rfl, -⟩ := h
  rintro ⟨i', is', -, hi', heq, -⟩
  rw [Prod.mk.injEq, List.append_assoc] at heq
  obtain ⟨rfl, -⟩ := List.cons.inj (List.append_cancel_left heq.2)
  omega

/-- The inodes of the directories on the way to a walk, and its own. -/
def trail (g : DirGraph) (sanitizeComponent : Name → α) (sources : List Name) (s : ℕ)
    (pre : List ℕ) : List (Option ℕ) :=
  (List.range (pre.length + 1)).map fun k => walkInode g sanitizeComponent sources (s, pre.take k)

theorem trail_append_singleton (s : ℕ) (pre : List ℕ) (i : ℕ) :
    trail g sanitizeComponent sources s (pre ++ [i])
      = trail g sanitizeComponent sources s pre
        ++ [walkInode g sanitizeComponent sources (s, pre ++ [i])] := by
  rw [trail, List.length_append, List.length_singleton, List.range_succ, List.map_append,
    List.map_singleton, List.take_of_length_le (by simp)]
  congr 1
  refine List.map_congr_left fun k hk => ?_
  rw [List.take_append_of_le_length (Nat.le_of_lt_succ (List.mem_range.mp hk))]

theorem chainHas_trail_iff {s : ℕ} {pre : List ℕ} {inode : ℕ} :
    chainHas (trail g sanitizeComponent sources s pre) inode = true
      ↔ ∃ k < pre.length + 1,
        walkInode g sanitizeComponent sources (s, pre.take k) = some inode := by
  simp [chainHas, trail, List.any_eq_true]

theorem ItemOk.append {walks more : List (ℕ × List ℕ)} {out newer : List (WalkItem α)} {k : ℕ}
    {walk : ℕ × List ℕ} {item : WalkItem α}
    (h : ItemOk g sanitizeComponent sources walks out k walk item) :
    ItemOk g sanitizeComponent sources (walks ++ more) (out ++ newer) k walk item where
  node := h.node
  parent := h.parent.imp_right fun ⟨hne, p, hp, hparent, hwalk, dir, hdir, hisDir⟩ =>
    ⟨hne, p, hp, hparent, (List.getElem?_append_left (List.getElem?_eq_some_iff.mp hwalk).1).trans
      hwalk, dir, (List.getElem?_append_left (List.getElem?_eq_some_iff.mp hdir).1).trans hdir,
      hisDir⟩
  unrepeated := h.unrepeated
  depth := h.depth

/-- A work list stays one of its walks when an item is pushed with its walk. -/
theorem Collected.push {walks : List (ℕ × List ℕ)} {out : List (WalkItem α)} {walk : ℕ × List ℕ}
    {item : WalkItem α} (h : Collected g sanitizeComponent sources walks out)
    (hitem : ItemOk g sanitizeComponent sources walks out out.length walk item) :
    Collected g sanitizeComponent sources (walks ++ [walk]) (out ++ [item]) where
  length := by rw [List.length_append, List.length_append, h.length]; rfl
  item := by
    intro k w hw
    rcases Nat.lt_trichotomy k walks.length with hlt | rfl | hgt
    · rw [List.getElem?_append_left hlt] at hw
      obtain ⟨it, hit, hok⟩ := h.item k w hw
      exact ⟨it, (List.getElem?_append_left (h.length ▸ hlt)).trans hit, hok.append⟩
    · rw [List.getElem?_append_right (Nat.le_refl _), Nat.sub_self] at hw
      obtain rfl := Option.some.inj hw
      refine ⟨item, ?_, h.length ▸ hitem.append⟩
      rw [h.length, List.getElem?_append_right (Nat.le_refl _), Nat.sub_self]
      rfl
    · rw [List.getElem?_eq_none (by rw [List.length_append, List.length_singleton]; omega)] at hw
      cases hw

/-- What a call of `walk_dir` does that succeeds: it adds the walks below its directory. -/
def VisitOk (g : DirGraph) (sanitizeComponent : Name → α) (sources : List Name)
    (visit : Name → ℕ → List (Option ℕ) → WalkState α →
      Option (Except WalkStop Unit × WalkState α)) : Prop :=
  ∀ src parent chain st st', visit src parent chain st = some (.ok (), st') →
    ∀ s pre node walks, Collected g sanitizeComponent sources walks st.out →
      walks[parent]? = some (s, pre) →
      g.node sanitizeComponent sources (s, pre) = some node → Entered node → node.src = src →
      chain = trail g sanitizeComponent sources s pre →
      ∃ newer links, Collected g sanitizeComponent sources (walks ++ newer) st'.out
        ∧ Enumerates (Through g sanitizeComponent s pre node 0 false) newer
        ∧ Enumerates (Through g sanitizeComponent s pre node 0 true) links
        ∧ st'.links = st.links + links.length

section Directory

variable {s : ℕ} {pre : List ℕ} {node : WalkNode α} {parent : ℕ}

theorem itemOk_entry {walks : List (ℕ × List ℕ)} {out : List (WalkItem α)}
    (hcollected : Collected g sanitizeComponent sources walks out)
    (hparent : walks[parent]? = some (s, pre))
    (hnode : g.node sanitizeComponent sources (s, pre) = some node) (hentered : Entered node)
    (hdepth : (trail g sanitizeComponent sources s pre).length < WALK_MAX_DEPTH) {j : ℕ}
    {entry : DirEntry} (hentry : (g.list node.src).entries[j]? = some entry)
    (hlink : entry.isSymlink = false)
    (hchain : ¬ (entry.isDir && entry.inode.any
      (chainHas (trail g sanitizeComponent sources s pre))) = true) :
    ItemOk g sanitizeComponent sources walks out out.length (s, pre ++ [j])
      (entryItem sanitizeComponent node.src parent entry) where
  node := by
    refine ⟨entryNode sanitizeComponent node.src entry, ?_, hlink, rfl, rfl, rfl, rfl⟩
    rw [node_append, hnode, Option.bind_some, descend_cons hentered, hentry]
    rfl
  parent := by
    refine .inr ⟨by simp, parent, ?_, rfl, by simpa using hparent, ?_⟩
    · rw [← hcollected.length]
      exact (List.getElem?_eq_some_iff.mp hparent).1
    · obtain ⟨dir, hdir, hok⟩ := hcollected.item parent _ hparent
      obtain ⟨node', hnode', -, -, -, hisDir, -⟩ := hok.node
      rw [hnode] at hnode'
      obtain rfl := Option.some.inj hnode'
      exact ⟨dir, hdir, hisDir.trans hentered.1⟩
  unrepeated := by
    rintro hdir ⟨inode, k, hk, habove, hself⟩
    have hinode : entry.inode = some inode := by
      rw [walkInode, node_append, hnode, Option.bind_some, descend_cons hentered, hentry] at hself
      exact hself
    refine hchain ?_
    have hisDir : entry.isDir = true := hdir
    rw [hisDir, hinode, Bool.true_and, Option.any_some]
    rw [List.length_append, List.length_singleton] at hk
    simp only at habove
    rw [List.take_append_of_le_length (Nat.le_of_lt_succ hk)] at habove
    exact chainHas_trail_iff.mpr ⟨k, hk, habove⟩
  depth := by
    rw [trail, List.length_map, List.length_range] at hdepth
    rw [List.length_append, List.length_singleton]
    exact hdepth

theorem walkEntries_spec {visit : Name → ℕ → List (Option ℕ) → WalkState α →
      Option (Except WalkStop Unit × WalkState α)}
    (hvisit : VisitOk g sanitizeComponent sources visit)
    (hnode : g.node sanitizeComponent sources (s, pre) = some node) (hentered : Entered node)
    (hdepth : (trail g sanitizeComponent sources s pre).length < WALK_MAX_DEPTH) :
    ∀ entries j st st' walks, (g.list node.src).entries.drop j = entries →
      walkEntries opts sanitizeComponent visit node.src parent
        (trail g sanitizeComponent sources s pre) entries st = some (.ok (), st') →
      Collected g sanitizeComponent sources walks st.out → walks[parent]? = some (s, pre) →
      ∃ newer links, Collected g sanitizeComponent sources (walks ++ newer) st'.out
        ∧ Enumerates (Through g sanitizeComponent s pre node j false) newer
        ∧ Enumerates (Through g sanitizeComponent s pre node j true) links
        ∧ st'.links = st.links + links.length := by
  intro entries
  induction entries with
  | nil =>
    intro j st st' walks hdrop hrun hcollected _
    have hle := List.drop_eq_nil_iff.mp hdrop
    rw [walkEntries, Option.some.injEq, Prod.mk.injEq] at hrun
    obtain ⟨-, rfl⟩ := hrun
    exact ⟨[], [], by rwa [List.append_nil], .nil (not_through_of_le hentered hle),
      .nil (not_through_of_le hentered hle), rfl⟩
  | cons entry entries ih =>
    intro j st st' walks hdrop hrun hcollected hparent
    have hentry : (g.list node.src).entries[j]? = some entry := by
      rw [← List.head?_drop, hdrop]
      rfl
    have hrest : (g.list node.src).entries.drop (j + 1) = entries := by
      rw [← List.tail_drop, hdrop]
      rfl
    rw [walkEntries] at hrun
    by_cases hcancel : opts.cancelled st.polls = true
    · rw [if_pos hcancel] at hrun
      cases hrun
    rw [if_neg hcancel] at hrun
    by_cases hlink : entry.isSymlink = true
    · rw [if_pos hlink] at hrun
      obtain ⟨newer, links, hcollected', hnewer, hlinks, hcount⟩ := ih (j + 1) _ st' walks hrest hrun
        hcollected hparent
      have hbelow : ¬ Entered (entryNode sanitizeComponent node.src entry) := fun h =>
        Bool.noConfusion (hlink.symm.trans h.2)
      refine ⟨newer, (s, pre ++ [j]) :: links, hcollected', hnewer.congr fun walk => ?_,
        (hlinks.cons fun h => ne_of_through_after h rfl).congr fun walk => ?_, ?_⟩
      · simp [through_iff hentered hentry (j := j), hlink, not_through_of_not_entered hbelow]
      · simp [through_iff hentered hentry (j := j), hlink, not_through_of_not_entered hbelow]
      · simp only [hcount, List.length_cons]
        omega
    rw [if_neg hlink] at hrun
    have hnolink : entry.isSymlink = false := Bool.eq_false_iff.mpr hlink
    by_cases hchain : (entry.isDir && entry.inode.any
        (chainHas (trail g sanitizeComponent sources s pre))) = true
    · rw [if_pos hchain] at hrun
      cases hrun
    rw [if_neg hchain] at hrun
    have hpushed := hcollected.push (itemOk_entry hcollected hparent hnode hentered hdepth hentry
      hnolink hchain)
    have hparent' : (walks ++ [(s, pre ++ [j])])[parent]? = some (s, pre) :=
      (List.getElem?_append_left (List.getElem?_eq_some_iff.mp hparent).1).trans hparent
    by_cases hdir : entry.isDir = true
    · simp only [if_pos hdir] at hrun
      have hbelow : Entered (entryNode sanitizeComponent node.src entry) := ⟨hdir, hnolink⟩
      have hchild : g.node sanitizeComponent sources (s, pre ++ [j])
          = some (entryNode sanitizeComponent node.src entry) := by
        rw [node_append, hnode, Option.bind_some, descend_cons hentered, hentry]
        rfl
      have htrail : trail g sanitizeComponent sources s pre ++ [entry.inode]
          = trail g sanitizeComponent sources s (pre ++ [j]) := by
        rw [trail_append_singleton, walkInode, hchild]
        rfl
      cases hvis : visit (joinPath node.src entry.name) st.out.length
          (trail g sanitizeComponent sources s pre ++ [entry.inode])
          { st with out := st.out ++ [entryItem sanitizeComponent node.src parent entry],
                    polls := st.polls + 1 } with
      | none =>
        rw [hvis] at hrun
        cases hrun
      | some answer =>
        obtain ⟨answer, st₁⟩ := answer
        rw [hvis] at hrun
        cases answer with
        | error stop => cases hrun
        | ok _ =>
          obtain ⟨below, belowLinks, hcollected₁, hbelows, hbelowLinks, hcount₁⟩ := hvisit _ _ _ _ _
            hvis s (pre ++ [j]) _ _ hpushed (by
              rw [← hcollected.length, List.getElem?_append_right (Nat.le_refl _), Nat.sub_self]
              rfl) hchild hbelow rfl htrail
          obtain ⟨newer, links, hcollected', hnewer, hlinks, hcount⟩ := ih (j + 1) _ st' _ hrest hrun
            hcollected₁ ((List.getElem?_append_left (List.getElem?_eq_some_iff.mp hparent').1).trans
              hparent')
          refine ⟨(s, pre ++ [j]) :: (below ++ newer), belowLinks ++ links, ?_,
            ((hbelows.append hnewer fun _ => not_through_after).cons ?_).congr fun walk => ?_,
            (hbelowLinks.append hlinks fun _ => not_through_after).congr fun walk => ?_, ?_⟩
          · rw [List.append_assoc, List.append_assoc] at hcollected'
            exact hcollected'
          · rintro (h | h)
            · exact ne_of_through_below h rfl
            · exact ne_of_through_after h rfl
          · simp [through_iff hentered hentry (j := j), hnolink]
          · simp [through_iff hentered hentry (j := j), hnolink]
          · simp only [hcount, hcount₁, List.length_append]
            omega
    · simp only [if_neg hdir] at hrun
      have hbelow : ¬ Entered (entryNode sanitizeComponent node.src entry) := fun h => hdir h.1
      obtain ⟨newer, links, hcollected', hnewer, hlinks, hcount⟩ := ih (j + 1) _ st' _ hrest hrun
        hpushed hparent'
      refine ⟨(s, pre ++ [j]) :: newer, links, ?_,
        (hnewer.cons fun h => ne_of_through_after h rfl).congr fun walk => ?_,
        hlinks.congr fun walk => ?_, hcount⟩
      · rw [List.append_assoc] at hcollected'
        exact hcollected'
      · simp [through_iff hentered hentry (j := j), hnolink, not_through_of_not_entered hbelow]
      · simp [through_iff hentered hentry (j := j), hnolink, not_through_of_not_entered hbelow]

end Directory

/-- A call of `walk_dir` that succeeds adds the walks below its directory. -/
theorem walkDir_spec (calls : ℕ) :
    VisitOk g sanitizeComponent sources (walkDir g opts sanitizeComponent calls) := by
  induction calls with
  | zero =>
    intro src parent chain st st' hrun
    cases hrun
  | succ calls ih =>
    intro src parent chain st st' hrun s pre node walks hcollected hparent hnode hentered hsrc hchain
    rw [walkDir] at hrun
    by_cases hcancel : opts.cancelled st.polls = true
    · rw [if_pos hcancel] at hrun
      cases hrun
    rw [if_neg hcancel] at hrun
    by_cases hdeep : WALK_MAX_DEPTH ≤ chain.length
    · rw [if_pos hdeep] at hrun
      cases hrun
    rw [if_neg hdeep] at hrun
    simp only at hrun
    split at hrun
    · cases hrun
    by_cases hlater : opts.cancelled
        (collectDirEntry opts (g.list src).entries (st.polls + 1)).2.2 = true
    · rw [if_pos hlater] at hrun
      cases hrun
    rw [if_neg hlater] at hrun
    rcases collectDirEntry_spec opts (g.list src).entries (st.polls + 1) with
      ⟨-, hkept⟩ | hstop
    · rw [hkept] at hrun
      subst hsrc hchain
      exact walkEntries_spec ih hnode hentered (Nat.lt_of_not_le hdeep) (g.list node.src).entries 0
        ⟨st.out, st.links, (collectDirEntry opts (g.list node.src).entries (st.polls + 1)).2.2 + 1⟩
        st' walks rfl hrun hcollected hparent
    · exact absurd hstop hlater

/-- With as many calls inside each other as there are levels, the recursion of `walk_dir` ends. -/
theorem walkDir_isSome (g : DirGraph) (opts : ExtractOptions) (sanitizeComponent : Name → α)
    (calls : ℕ) : ∀ src parent chain st, 0 < calls →
    WALK_MAX_DEPTH < calls + chain.length →
    (walkDir g opts sanitizeComponent calls src parent chain st).isSome = true := by
  induction calls with
  | zero => exact fun _ _ _ _ h => absurd h (Nat.lt_irrefl 0)
  | succ calls ih =>
    intro src parent chain st _ hdepth
    have hentries : chain.length < WALK_MAX_DEPTH → ∀ entries st,
        (walkEntries opts sanitizeComponent (walkDir g opts sanitizeComponent calls) src parent chain
          entries st).isSome = true := by
      intro hlt entries
      induction entries with
      | nil => exact fun st => rfl
      | cons entry entries ihe =>
        intro st
        rw [walkEntries]
        split_ifs with _ _ _ hdir
        · rfl
        · exact ihe _
        · rfl
        · have hcall := ih (joinPath src entry.name) st.out.length (chain ++ [entry.inode])
            { st with out := st.out ++ [entryItem sanitizeComponent src parent entry],
                      polls := st.polls + 1 } (by omega)
            (by rw [List.length_append, List.length_singleton]; omega)
          obtain ⟨⟨answer, st₁⟩, hanswer⟩ := Option.isSome_iff_exists.mp hcall
          simp only [hanswer]
          cases answer with
          | error stop => rfl
          | ok _ => exact ihe st₁
        · exact ihe _
    rw [walkDir]
    split_ifs with _ hdeep
    · rfl
    · rfl
    · simp only
      split
      · rfl
      · split_ifs
        · rfl
        · exact hentries (Nat.lt_of_not_le hdeep) _ _

/-! ### All sources -/

/-- The walks from source `j` and the ones after it, to symlinks or to others. -/
def FromSource (g : DirGraph) (sanitizeComponent : Name → α) (sources : List Name) (j : ℕ)
    (link : Bool) (walk : ℕ × List ℕ) : Prop :=
  j ≤ walk.1 ∧ ∃ node, g.node sanitizeComponent sources walk = some node
    ∧ node.stat.isSymlink = link

theorem node_source {j : ℕ} {source : Name} (hsource : sources[j]? = some source) {stat : WalkStat}
    (hstat : g.stat source = .ok stat) (is : List ℕ) :
    g.node sanitizeComponent sources (j, is)
      = descend g sanitizeComponent (sourceNode sanitizeComponent source stat) is := by
  rw [DirGraph.node, hsource, Option.bind_some, hstat]

theorem fromSource_iff {j : ℕ} {source : Name} (hsource : sources[j]? = some source)
    {stat : WalkStat} (hstat : g.stat source = .ok stat) {link : Bool} (walk : ℕ × List ℕ) :
    FromSource g sanitizeComponent sources j link walk
      ↔ (walk = (j, []) ∧ stat.isSymlink = link)
        ∨ Through g sanitizeComponent j [] (sourceNode sanitizeComponent source stat) 0 link walk
        ∨ FromSource g sanitizeComponent sources (j + 1) link walk := by
  obtain ⟨k, is⟩ := walk
  constructor
  · rintro ⟨hj, node, hnode, hlink⟩
    rcases Nat.eq_or_lt_of_le hj with rfl | hlt
    · rw [node_source hsource hstat] at hnode
      cases is with
      | nil =>
        obtain rfl := Option.some.inj hnode
        exact .inl ⟨rfl, hlink⟩
      | cons i is => exact .inr (.inl ⟨i, is, node, Nat.zero_le i, rfl, hnode, hlink⟩)
    · exact .inr (.inr ⟨hlt, node, hnode, hlink⟩)
  · rintro (⟨heq, hlink⟩ | ⟨i, is', below, -, heq, hbelow, hlink⟩ | ⟨hj, node, hnode, hlink⟩)
    · obtain ⟨rfl, rfl⟩ := Prod.mk.inj heq
      exact ⟨Nat.le_refl _, _, node_source hsource hstat [], hlink⟩
    · obtain ⟨rfl, rfl⟩ := Prod.mk.inj heq
      exact ⟨Nat.le_refl _, below, (node_source hsource hstat _).trans hbelow, hlink⟩
    · exact ⟨Nat.le_of_succ_le hj, node, hnode, hlink⟩

theorem not_fromSource_of_through {j : ℕ} {node : WalkNode α} {pre : List ℕ} {i : ℕ}
    {link link' : Bool} {walk : ℕ × List ℕ}
    (h : Through g sanitizeComponent j pre node i link walk) :
    ¬ FromSource g sanitizeComponent sources (j + 1) link' walk := by
  obtain ⟨i, is, -, -, rfl, -⟩ := h
  exact fun h => Nat.not_succ_le_self j h.1

theorem not_fromSource_self {j : ℕ} {is : List ℕ} {link : Bool} :
    ¬ FromSource g sanitizeComponent sources (j + 1) link (j, is) :=
  fun h => Nat.not_succ_le_self j h.1

theorem ne_of_through_source {j : ℕ} {node : WalkNode α} {i : ℕ} {link : Bool}
    {walk : ℕ × List ℕ} (h : Through g sanitizeComponent j [] node i link walk) :
    walk ≠ (j, []) := by
  obtain ⟨i, is, -, -, rfl, -⟩ := h
  intro heq
  cases (Prod.mk.inj heq).2

theorem itemOk_source {walks : List (ℕ × List ℕ)} {out : List (WalkItem α)} {j : ℕ} {source : Name}
    (hsource : sources[j]? = some source) {stat : WalkStat} (hstat : g.stat source = .ok stat)
    (hlink : stat.isSymlink = false) :
    ItemOk g sanitizeComponent sources walks out out.length (j, [])
      (sourceItem sanitizeComponent source stat) where
  node := ⟨_, node_source hsource hstat [], hlink, rfl, rfl, rfl, rfl⟩
  parent := .inl ⟨rfl, rfl⟩
  unrepeated := fun _ ⟨_, _, hk, _⟩ => Nat.not_lt_zero _ hk
  depth := Nat.succ_le_of_lt (by decide : 0 < WALK_MAX_DEPTH)

/-- The loop over the sources adds the walks from them. -/
theorem extractCollect_spec {calls : ℕ} :
    ∀ rest j st st' walks, sources.drop j = rest →
      extractCollect g opts sanitizeComponent calls rest st = some (.ok (), st') →
      Collected g sanitizeComponent sources walks st.out →
      ∃ newer links, Collected g sanitizeComponent sources (walks ++ newer) st'.out
        ∧ Enumerates (FromSource g sanitizeComponent sources j false) newer
        ∧ Enumerates (FromSource g sanitizeComponent sources j true) links
        ∧ st'.links = st.links + links.length := by
  intro rest
  induction rest with
  | nil =>
    intro j st st' walks hdrop hrun hcollected
    have hnone : ∀ link walk, ¬ FromSource g sanitizeComponent sources j link walk := by
      rintro link walk ⟨hj, node, hnode, -⟩
      rw [DirGraph.node, List.getElem?_eq_none (Nat.le_trans (List.drop_eq_nil_iff.mp hdrop) hj)]
        at hnode
      cases hnode
    rw [extractCollect, Option.some.injEq, Prod.mk.injEq] at hrun
    obtain ⟨-, rfl⟩ := hrun
    exact ⟨[], [], by rwa [List.append_nil], .nil (hnone false), .nil (hnone true), rfl⟩
  | cons source rest ih =>
    intro j st st' walks hdrop hrun hcollected
    have hsource : sources[j]? = some source := by
      rw [← List.head?_drop, hdrop]
      rfl
    have hrest : sources.drop (j + 1) = rest := by
      rw [← List.tail_drop, hdrop]
      rfl
    rw [extractCollect] at hrun
    by_cases hcancel : opts.cancelled st.polls = true
    · rw [if_pos hcancel] at hrun
      cases hrun
    rw [if_neg hcancel] at hrun
    cases hstat : g.stat source with
    | error message =>
      rw [hstat] at hrun
      cases hrun
    | ok stat =>
      rw [hstat] at hrun
      simp only at hrun
      by_cases hlater : opts.cancelled (st.polls + 1) = true
      · rw [if_pos hlater] at hrun
        cases hrun
      rw [if_neg hlater] at hrun
      by_cases hlink : stat.isSymlink = true
      · rw [if_pos hlink] at hrun
        obtain ⟨newer, links, hcollected', hnewer, hlinks, hcount⟩ := ih (j + 1) _ st' walks hrest
          hrun hcollected
        have hbelow : ¬ Entered (sourceNode sanitizeComponent source stat) := fun h =>
          Bool.noConfusion (hlink.symm.trans h.2)
        refine ⟨newer, (j, []) :: links, hcollected', hnewer.congr fun walk => ?_,
          (hlinks.cons not_fromSource_self).congr fun walk => ?_, ?_⟩
        · simp [fromSource_iff hsource hstat, hlink, not_through_of_not_entered hbelow]
        · simp [fromSource_iff hsource hstat, hlink, not_through_of_not_entered hbelow]
        · simp only [hcount, List.length_cons]
          omega
      rw [if_neg hlink] at hrun
      have hnolink : stat.isSymlink = false := Bool.eq_false_iff.mpr hlink
      have hpushed := hcollected.push (itemOk_source hsource hstat hnolink)
      by_cases hdir : stat.isDir = true
      · simp only [if_pos hdir] at hrun
        have hbelow : Entered (sourceNode sanitizeComponent source stat) := ⟨hdir, hnolink⟩
        have htrail : [stat.inode] = trail g sanitizeComponent sources j [] := by
          rw [trail, List.length_nil, List.range_one, List.map_singleton, walkInode,
            List.take_nil, node_source hsource hstat]
          rfl
        cases hvis : walkDir g opts sanitizeComponent calls source st.out.length [stat.inode]
            { st with out := st.out ++ [sourceItem sanitizeComponent source stat],
                      polls := st.polls + 2 } with
        | none =>
          rw [hvis] at hrun
          cases hrun
        | some answer =>
          obtain ⟨answer, st₁⟩ := answer
          rw [hvis] at hrun
          cases answer with
          | error stop => cases hrun
          | ok _ =>
            obtain ⟨below, belowLinks, hcollected₁, hbelows, hbelowLinks, hcount₁⟩ :=
              walkDir_spec calls _ _ _ _ _ hvis j [] _ _ hpushed (by
                rw [← hcollected.length, List.getElem?_append_right (Nat.le_refl _), Nat.sub_self]
                rfl) (node_source hsource hstat []) hbelow rfl htrail
            obtain ⟨newer, links, hcollected', hnewer, hlinks, hcount⟩ := ih (j + 1) _ st' _ hrest
              hrun hcollected₁
            refine ⟨(j, []) :: (below ++ newer), belowLinks ++ links, ?_,
              ((hbelows.append hnewer fun _ => not_fromSource_of_through).cons ?_).congr
                fun walk => ?_,
              (hbelowLinks.append hlinks fun _ => not_fromSource_of_through).congr
                fun walk => ?_, ?_⟩
            · rw [List.append_assoc, List.append_assoc] at hcollected'
              exact hcollected'
            · rintro (h | h)
              · exact ne_of_through_source h rfl
              · exact not_fromSource_self h
            · simp [fromSource_iff hsource hstat, hnolink]
            · simp [fromSource_iff hsource hstat, hnolink]
            · simp only [hcount, hcount₁, List.length_append]
              omega
      · simp only [if_neg hdir] at hrun
        have hbelow : ¬ Entered (sourceNode sanitizeComponent source stat) := fun h => hdir h.1
        obtain ⟨newer, links, hcollected', hnewer, hlinks, hcount⟩ := ih (j + 1) _ st' _ hrest hrun
          hpushed
        refine ⟨(j, []) :: newer, links, ?_, (hnewer.cons not_fromSource_self).congr fun walk => ?_,
          hlinks.congr fun walk => ?_, hcount⟩
        · rw [List.append_assoc] at hcollected'
          exact hcollected'
        · simp [fromSource_iff hsource hstat, hnolink, not_through_of_not_entered hbelow]
        · simp [fromSource_iff hsource hstat, hnolink, not_through_of_not_entered hbelow]

theorem extractCollect_isSome (g : DirGraph) (opts : ExtractOptions)
    (sanitizeComponent : Name → α) {calls : ℕ} (hcalls : WALK_MAX_DEPTH ≤ calls) :
    ∀ rest st, (extractCollect g opts sanitizeComponent calls rest st).isSome = true := by
  intro rest
  induction rest with
  | nil => exact fun st => rfl
  | cons source rest ih =>
    intro st
    rw [extractCollect]
    by_cases hcancel : opts.cancelled st.polls = true
    · rw [if_pos hcancel]
      rfl
    rw [if_neg hcancel]
    cases g.stat source with
    | error message => rfl
    | ok stat =>
      simp only
      split_ifs with _ _ hdir
      · rfl
      · exact ih _
      · have hcall := walkDir_isSome g opts sanitizeComponent calls source st.out.length [stat.inode]
          { st with out := st.out ++ [sourceItem sanitizeComponent source stat],
                    polls := st.polls + 2 }
          (Nat.lt_of_lt_of_le (by decide : 0 < WALK_MAX_DEPTH) hcalls) (Nat.lt_succ_of_le hcalls)
        obtain ⟨⟨answer, st₁⟩, hanswer⟩ := Option.isSome_iff_exists.mp hcall
        simp only [hanswer]
        cases answer with
        | error stop => rfl
        | ok _ => exact ih st₁
      · exact ih _

/-- The work list that `extract` collects has one item for each walk from a source that does not end
at a symlink: where it leads, what it is, and the item of its directory before it. No directory
reports the inode of one above it, and there are at most `WALK_MAX_DEPTH` levels. The symlinks are
counted. -/
theorem extract_collect (g : DirGraph) (opts : ExtractOptions) (sanitizeComponent : Name → α)
    (sources : List Name) :
    (∀ src parent chain st, (walkDir g opts sanitizeComponent (WALK_MAX_DEPTH + 1) src parent chain
        st).isSome = true)
      ∧ ∃ answer st, extractCollect g opts sanitizeComponent WALK_MAX_DEPTH sources ⟨[], 0, 0⟩
          = some (answer, st)
        ∧ (answer = .ok () → ∃ walks links, Collected g sanitizeComponent sources walks st.out
          ∧ Enumerates (fun walk => ∃ node, g.node sanitizeComponent sources walk = some node
            ∧ node.stat.isSymlink = false) walks
          ∧ Enumerates (fun walk => ∃ node, g.node sanitizeComponent sources walk = some node
            ∧ node.stat.isSymlink = true) links
          ∧ st.links = links.length) := by
  refine ⟨fun src parent chain st => walkDir_isSome g opts sanitizeComponent _ src parent chain st
    (Nat.succ_pos _) (by omega), ?_⟩
  obtain ⟨⟨answer, st⟩, hrun⟩ := Option.isSome_iff_exists.mp (extractCollect_isSome g opts
    sanitizeComponent (Nat.le_refl WALK_MAX_DEPTH) sources ⟨[], 0, 0⟩)
  refine ⟨answer, st, hrun, ?_⟩
  rintro rfl
  obtain ⟨walks, links, hcollected, hwalks, hlinks, hcount⟩ := extractCollect_spec sources 0
    ⟨[], 0, 0⟩ st [] rfl hrun ⟨rfl, fun k walk h => by cases h⟩
  refine ⟨walks, links, hcollected, hwalks.congr fun walk => ?_, hlinks.congr fun walk => ?_,
    hcount.trans (Nat.zero_add _)⟩
  · exact and_iff_right (Nat.zero_le _)
  · exact and_iff_right (Nat.zero_le _)

end Spec

/-- A source `a` with inode 5, and in it a file `f` of which inode 5 is reported too. -/
def fileInodeGraph : DirGraph where
  stat := fun _ => .ok ⟨true, false, none, some 5⟩
  list := fun src =>
    ⟨if src = [0x61] then [⟨⟨false, false, none, some 5⟩, [0x66]⟩] else [], none⟩

/-- Files are not compared with the directories above them. -/
theorem extract_collect_file_inode :
    ∃ st walks, extractCollect fileInodeGraph ⟨fun _ => false, fun _ h => h⟩ id WALK_MAX_DEPTH
        [[0x61]] ⟨[], 0, 0⟩ = some (.ok (), st)
      ∧ Collected fileInodeGraph id [[0x61]] walks st.out
      ∧ ∃ walk ∈ walks, RepeatsInode fileInodeGraph id [[0x61]] walk := by
  obtain ⟨st, hrun⟩ : ∃ st, extractCollect fileInodeGraph ⟨fun _ => false, fun _ h => h⟩ id
      WALK_MAX_DEPTH [[0x61]] ⟨[], 0, 0⟩ = some (.ok (), st) := ⟨_, rfl⟩
  obtain ⟨walks, -, hcollected, hwalks, -⟩ := extractCollect_spec [[0x61]] 0 ⟨[], 0, 0⟩ st [] rfl
    hrun ⟨rfl, fun k walk h => by cases h⟩
  exact ⟨st, walks, hrun, hcollected, (0, [0]), (hwalks.2 _).mpr ⟨Nat.le_refl 0, _, rfl, rfl⟩,
    5, 0, Nat.zero_lt_one, rfl, rfl⟩

end FsRover
