import FsRover.Fs.Fshelp
import FsRover.Lib.History
import FsRover.Lib.Lru
import Mathlib.Data.List.AList

/-!
# The cache of the FUSE adapters

`fusefs.cpp` keeps what it found at a path in a list, the most recently used entry first, and finds
the node of a key with a hash map. The map borrows its keys from the nodes and holds iterators; here
a node has a number, and an iterator is the number of its node.

## Main definitions

* `FsRover.FusefsCache.Linked` : the map leads to the node of each key of the list.
* `FsRover.cacheLedger` : the uses of the keys and the entries put, from requests and answers.

## Main results

* `FsRover.cacheStep_lru` : the two structures together are a cache that drops what was used least
  recently.
-/

namespace FsRover

/-! ### The cache -/

/-- The error of an entry, with the codes that are told apart. -/
inductive FusefsErr
  | none | enoent | enotdir | eloop | enametoolong | other (code : ℕ)
  deriving DecidableEq, Repr

/-- `struct rover_stat`. -/
structure RoverStat where
  isDir : Bool
  isSymlink : Bool
  mtime : Option ℤ
  size : ℕ
  inode : Option ℕ
  deriving DecidableEq, Repr

/-- `fusefs_cache::entry`. -/
structure FusefsEntry where
  err : FusefsErr
  st : RoverStat
  phys : Name
  link : Name
  deriving DecidableEq, Repr

/-- A node of `lru_list`. -/
structure FusefsNode where
  id : ℕ
  key : Name
  entry : FusefsEntry
  deriving DecidableEq, Repr

/-- `struct fusefs_cache`; `next` is the number of the next node. -/
structure FusefsCache where
  max : ℕ
  lru : List FusefsNode
  map : AList fun _ : Name => ℕ
  next : ℕ

/-- The cache that `fusefs_init` makes. -/
def FusefsCache.init (cacheMax : ℕ) : FusefsCache where
  max := if cacheMax ≠ 0 then cacheMax else 1
  lru := []
  map := ∅
  next := 0

/-- `lru.splice (lru.begin (), lru, it)`. -/
def lruSplice (it : ℕ) (lru : List FusefsNode) : List FusefsNode :=
  match lru.find? fun node => node.id = it with
  | some node => node :: lru.filter fun node => node.id ≠ it
  | none => lru

/-- `it->second = ent`. -/
def lruAssign (it : ℕ) (ent : FusefsEntry) (lru : List FusefsNode) : List FusefsNode :=
  lru.map fun node => if node.id = it then { node with entry := ent } else node

/-- What a lookup answers; `dangling` if it goes through an iterator of no node. -/
inductive CacheAnswer
  | miss
  | hit (ent : FusefsEntry)
  | dangling
  | done
  deriving DecidableEq, Repr

/-- `cache_get`. -/
def cacheGet (cache : FusefsCache) (key : Name) : CacheAnswer × FusefsCache :=
  match cache.map.lookup key with
  | none => (.miss, cache)
  | some it =>
    let cache := { cache with lru := lruSplice it cache.lru }
    match cache.lru.find? fun node => node.id = it with
    | some node => (.hit node.entry, cache)
    | none => (.dangling, cache)

/-- The error of an entry that is not kept. -/
def FusefsErr.refused : FusefsErr → Bool
  | .other _ => true
  | _ => false

/-- The node at the end of the list is dropped if the list is full. -/
def FusefsCache.evict (cache : FusefsCache) : FusefsCache :=
  if cache.max ≤ cache.lru.length then
    match cache.lru.getLast? with
    | some back => { cache with map := cache.map.erase back.key, lru := cache.lru.dropLast }
    | none => cache
  else cache

/-- `lru.emplace_front` and `map.emplace`, which keeps the value of a key that is there. -/
def FusefsCache.emplace (cache : FusefsCache) (key : Name) (ent : FusefsEntry) : FusefsCache :=
  { cache with
    lru := ⟨cache.next, key, ent⟩ :: cache.lru
    map := if key ∈ cache.map then cache.map else cache.map.insert key cache.next
    next := cache.next + 1 }

/-- `cache_put`. -/
def cachePut (cache : FusefsCache) (key : Name) (ent : FusefsEntry) : FusefsCache :=
  if ent.err.refused then cache
  else
    match cache.map.lookup key with
    | some it => { cache with lru := lruSplice it (lruAssign it ent cache.lru) }
    | none => cache.evict.emplace key ent

/-- `fusefs_invalidate`. -/
def fusefsInvalidate (cache : FusefsCache) : FusefsCache := { cache with map := ∅, lru := [] }

inductive CacheRequest
  | get (key : Name)
  | put (key : Name) (ent : FusefsEntry)
  | invalidate
  deriving DecidableEq, Repr

def cacheStep (cache : FusefsCache) : CacheRequest → CacheAnswer × FusefsCache
  | .get key => cacheGet cache key
  | .put key ent => (.done, cachePut cache key ent)
  | .invalidate => (.done, fusefsInvalidate cache)

/-! ### The two structures agree -/

/-- The keys of the list, and what it holds under them. -/
def FusefsCache.keys (cache : FusefsCache) : List Name := cache.lru.map FusefsNode.key
def FusefsCache.contents (cache : FusefsCache) : List (Name × FusefsEntry) :=
  cache.lru.map fun node => (node.key, node.entry)

/-- The keys of the list with the numbers of their nodes. -/
def links (lru : List FusefsNode) : List (Name × ℕ) := lru.map fun node => (node.key, node.id)

/-- No two nodes have one key or one number, and the map leads to the node of each key. -/
structure FusefsCache.Linked (cache : FusefsCache) : Prop where
  keys : ((links cache.lru).map Prod.fst).Nodup
  ids : ((links cache.lru).map Prod.snd).Nodup
  fresh : ∀ link ∈ links cache.lru, link.2 < cache.next
  lookup : ∀ key it, cache.map.lookup key = some it ↔ (key, it) ∈ links cache.lru

theorem linked_nil (cache : FusefsCache) : (fusefsInvalidate cache).Linked where
  keys := List.nodup_nil
  ids := List.nodup_nil
  fresh := by simp [fusefsInvalidate, links]
  lookup := by simp [fusefsInvalidate, links]

theorem linked_init (cacheMax : ℕ) : (FusefsCache.init cacheMax).Linked where
  keys := List.nodup_nil
  ids := List.nodup_nil
  fresh := by simp [FusefsCache.init, links]
  lookup := by simp [FusefsCache.init, links]

/-- What a request means for a cache of accepted entries. -/
def CacheRequest.toLru : CacheRequest → Option (Lru.Request Name FusefsEntry)
  | .get key => some (.get key)
  | .put key ent => if ent.err.refused then none else some (.put key ent)
  | .invalidate => some .clear

def CacheAnswer.entry : CacheAnswer → Option FusefsEntry
  | .hit ent => some ent
  | _ => none

section Linked

variable {cache : FusefsCache}

theorem mem_links {lru : List FusefsNode} {key : Name} {it : ℕ} :
    (key, it) ∈ links lru ↔ ∃ node ∈ lru, node.key = key ∧ node.id = it := by
  simp [links]

theorem map_fst_links (lru : List FusefsNode) :
    (links lru).map Prod.fst = lru.map FusefsNode.key := by
  simp [links]

theorem map_snd_links (lru : List FusefsNode) :
    (links lru).map Prod.snd = lru.map FusefsNode.id := by
  simp [links]

/-- The order of the nodes and their entries do not matter to the links. -/
theorem FusefsCache.Linked.of_perm (h : cache.Linked) {lru : List FusefsNode}
    (hperm : (links lru).Perm (links cache.lru)) : { cache with lru := lru : FusefsCache }.Linked where
  keys := (hperm.map Prod.fst).nodup_iff.mpr h.keys
  ids := (hperm.map Prod.snd).nodup_iff.mpr h.ids
  fresh := fun link hlink => h.fresh link (hperm.mem_iff.mp hlink)
  lookup := fun key it => (h.lookup key it).trans hperm.mem_iff.symm

theorem FusefsCache.Linked.exists_node (h : cache.Linked) {key : Name} {it : ℕ}
    (hit : cache.map.lookup key = some it) : ∃ node ∈ cache.lru, node.key = key ∧ node.id = it :=
  mem_links.mp ((h.lookup key it).mp hit)

theorem FusefsCache.Linked.key_notMem (h : cache.Linked) {key : Name}
    (hnone : cache.map.lookup key = none) : key ∉ cache.keys := by
  intro hmem
  obtain ⟨node, hnode, hkey⟩ := List.mem_map.mp hmem
  have hsome := (h.lookup key node.id).mpr (mem_links.mpr ⟨node, hnode, hkey, rfl⟩)
  rw [hnone] at hsome
  cases hsome

theorem FusefsCache.Linked.keys_nodup (h : cache.Linked) : cache.keys.Nodup := by
  rw [FusefsCache.keys, ← map_fst_links]
  exact h.keys

theorem map_fst_contents (cache : FusefsCache) : cache.contents.map Prod.fst = cache.keys := by
  simp [FusefsCache.contents, FusefsCache.keys]

theorem find?_of_nodup_map {α β : Type*} [DecidableEq β] {f : α → β} {l : List α}
    (hl : (l.map f).Nodup) {a : α} (ha : a ∈ l) : l.find? (fun b => f b = f a) = some a := by
  cases hfind : l.find? fun b => f b = f a with
  | none => simpa using List.find?_eq_none.mp hfind a ha
  | some b =>
    have hb : f b = f a := by simpa using List.find?_some hfind
    rw [List.inj_on_of_nodup_map hl (List.mem_of_find?_eq_some hfind) ha hb]

theorem FusefsCache.Linked.find_id (h : cache.Linked) {node : FusefsNode}
    (hnode : node ∈ cache.lru) : cache.lru.find? (fun other => other.id = node.id) = some node :=
  find?_of_nodup_map (map_snd_links cache.lru ▸ h.ids) hnode

/-- A list without the node of a key is the list without the key. -/
theorem FusefsCache.Linked.contents_filter (h : cache.Linked) {node : FusefsNode}
    (hnode : node ∈ cache.lru) :
    (cache.lru.filter fun other => other.id ≠ node.id).map (fun other => (other.key, other.entry))
      = Lru.others node.key cache.contents := by
  rw [Lru.others, FusefsCache.contents, List.filter_map]
  refine congrArg _ (List.filter_congr fun other hother => decide_eq_decide.mpr (not_congr ?_))
  constructor
  · intro heq
    rw [List.inj_on_of_nodup_map (map_snd_links cache.lru ▸ h.ids) hother hnode heq]
  · intro heq
    rw [List.inj_on_of_nodup_map (map_fst_links cache.lru ▸ h.keys) hother hnode heq]

theorem FusefsCache.Linked.splice_eq (h : cache.Linked) {node : FusefsNode}
    (hnode : node ∈ cache.lru) :
    lruSplice node.id cache.lru = node :: cache.lru.filter fun other => other.id ≠ node.id := by
  rw [lruSplice, h.find_id hnode]

theorem FusefsCache.Linked.splice_perm (h : cache.Linked) {node : FusefsNode}
    (hnode : node ∈ cache.lru) :
    (node :: cache.lru.filter fun other => other.id ≠ node.id).Perm cache.lru := by
  have hids : (cache.lru.map FusefsNode.id).Nodup := map_snd_links cache.lru ▸ h.ids
  refine (List.perm_ext_iff_of_nodup ?_ hids.of_map).mpr fun other => ?_
  · exact List.nodup_cons.mpr ⟨by simp, hids.of_map.filter _⟩
  · rw [List.mem_cons, List.mem_filter, decide_eq_true_eq]
    constructor
    · rintro (rfl | ⟨hother, -⟩)
      · exact hnode
      · exact hother
    · intro hother
      by_cases heq : other.id = node.id
      · exact .inl (List.inj_on_of_nodup_map hids hother hnode heq)
      · exact .inr ⟨hother, heq⟩

theorem links_assign (it : ℕ) (ent : FusefsEntry) (lru : List FusefsNode) :
    links (lruAssign it ent lru) = links lru := by
  rw [links, links, lruAssign, List.map_map]
  refine List.map_congr_left fun node _ => ?_
  by_cases hid : node.id = it
  · simp [hid]
  · simp [hid]

theorem filter_assign (it : ℕ) (ent : FusefsEntry) (lru : List FusefsNode) :
    (lruAssign it ent lru).filter (fun node => node.id ≠ it)
      = lru.filter fun node => node.id ≠ it := by
  rw [lruAssign]
  induction lru with
  | nil => rfl
  | cons node lru ih =>
    rw [List.map_cons]
    by_cases hid : node.id = it
    · simpa [hid] using ih
    · simpa [hid] using ih

theorem FusefsCache.Linked.evict (h : cache.Linked) : cache.evict.Linked := by
  rw [FusefsCache.evict]
  split_ifs with hfull
  · cases hlast : cache.lru.getLast? with
    | none => exact h
    | some back =>
      have hlru : cache.lru = cache.lru.dropLast ++ [back] :=
        (List.dropLast_append_getLast? back hlast).symm
      have hlinks : links cache.lru = links cache.lru.dropLast ++ [(back.key, back.id)] := by
        conv_lhs => rw [hlru]
        rw [links, List.map_append]
        rfl
      have hkeys := h.keys
      have hids := h.ids
      rw [hlinks, List.map_append, List.nodup_append] at hkeys hids
      refine ⟨hkeys.1, hids.1, fun link hlink => h.fresh link ?_, fun key it => ?_⟩
      · rw [hlinks]
        exact List.mem_append_left _ hlink
      · by_cases hkey : key = back.key
        · subst hkey
          rw [AList.lookup_erase]
          refine iff_of_false (fun heq => by cases heq) fun hmem => ?_
          exact hkeys.2.2 _ (List.mem_map_of_mem hmem) _ (List.mem_singleton_self _) rfl
        · rw [AList.lookup_erase_ne hkey, h.lookup, hlinks, List.mem_append, List.mem_singleton]
          exact or_iff_left fun heq => hkey (congrArg Prod.fst heq)
  · exact h

theorem evict_contents (cache : FusefsCache) : cache.evict.contents
    = if cache.max ≤ cache.contents.length then cache.contents.dropLast else cache.contents := by
  have hlength : cache.contents.length = cache.lru.length := List.length_map _
  rw [FusefsCache.evict, hlength]
  split_ifs with hfull
  · cases hlast : cache.lru.getLast? with
    | none =>
      have hnil : cache.lru = [] := List.getLast?_eq_none_iff.mp hlast
      simp [FusefsCache.contents, hnil]
    | some back =>
      rw [FusefsCache.contents, FusefsCache.contents, List.map_dropLast]
  · rfl

theorem evict_keys_subset (cache : FusefsCache) : ∀ key ∈ cache.evict.keys, key ∈ cache.keys := by
  intro key hkey
  rw [← map_fst_contents, evict_contents] at hkey
  rw [← map_fst_contents]
  split_ifs at hkey
  · rw [List.map_dropLast] at hkey
    exact (List.dropLast_sublist _).subset hkey
  · exact hkey

theorem FusefsCache.Linked.emplace (h : cache.Linked) {key : Name} (hkey : key ∉ cache.keys)
    (ent : FusefsEntry) : (cache.emplace key ent).Linked := by
  have hmap : key ∉ cache.map := by
    intro hmem
    obtain ⟨it, hit⟩ := Option.isSome_iff_exists.mp (AList.lookup_isSome.mpr hmem)
    obtain ⟨node, hnode, hnodeKey, -⟩ := h.exists_node hit
    exact hkey (List.mem_map.mpr ⟨node, hnode, hnodeKey⟩)
  have hlinks : links (cache.emplace key ent).lru = (key, cache.next) :: links cache.lru := rfl
  refine ⟨?_, ?_, ?_, fun other it => ?_⟩
  · rw [hlinks, List.map_cons, List.nodup_cons, map_fst_links]
    exact ⟨hkey, map_fst_links cache.lru ▸ h.keys⟩
  · rw [hlinks, List.map_cons, List.nodup_cons]
    refine ⟨fun hmem => ?_, h.ids⟩
    obtain ⟨link, hlink, heq⟩ := List.mem_map.mp hmem
    exact absurd (h.fresh link hlink) (by omega)
  · rw [hlinks]
    intro link hlink
    rcases List.mem_cons.mp hlink with rfl | hlink
    · exact Nat.lt_succ_self _
    · exact Nat.lt_succ_of_lt (h.fresh link hlink)
  · rw [hlinks, List.mem_cons, FusefsCache.emplace, if_neg hmap]
    by_cases hother : other = key
    · subst hother
      rw [AList.lookup_insert]
      constructor
      · intro heq
        exact .inl (Prod.ext rfl (Option.some.inj heq).symm)
      · rintro (heq | hmem)
        · exact congrArg some (congrArg Prod.snd heq).symm
        · obtain ⟨node, hnode, hnodeKey, -⟩ := mem_links.mp hmem
          exact absurd (List.mem_map.mpr ⟨node, hnode, hnodeKey⟩) hkey
    · rw [AList.lookup_insert_ne hother, h.lookup]
      exact (or_iff_right fun heq => hother (congrArg Prod.fst heq)).symm

theorem FusefsCache.Linked.find_contents (h : cache.Linked) {node : FusefsNode}
    (hnode : node ∈ cache.lru) :
    cache.contents.find? (fun p => p.1 = node.key) = some (node.key, node.entry) := by
  have hkeys : (cache.contents.map Prod.fst).Nodup := by
    rw [map_fst_contents]
    exact h.keys_nodup
  have hmem : (node.key, node.entry) ∈ cache.contents := List.mem_map.mpr ⟨node, hnode, rfl⟩
  exact find?_of_nodup_map hkeys hmem

theorem cacheGet_spec (h : cache.Linked) (key : Name) :
    (cacheGet cache key).2.Linked ∧ (cacheGet cache key).2.max = cache.max
      ∧ (cacheGet cache key).1 ≠ .dangling
      ∧ Lru.step cache.max cache.contents (.get key)
        = ((cacheGet cache key).1.entry, (cacheGet cache key).2.contents) := by
  rw [cacheGet]
  cases hlookup : cache.map.lookup key with
  | none =>
    have hfind := Lru.find?_eq_none_iff.mpr (map_fst_contents cache ▸ h.key_notMem hlookup)
    refine ⟨h, rfl, by simp, ?_⟩
    rw [Lru.step, hfind]
    rfl
  | some it =>
    obtain ⟨node, hnode, rfl, rfl⟩ := h.exists_node hlookup
    have hfront : (node :: cache.lru.filter fun other => other.id ≠ node.id).find?
        (fun other => other.id = node.id) = some node :=
      List.find?_cons_of_pos (decide_eq_true rfl)
    simp only [h.splice_eq hnode, hfront]
    refine ⟨h.of_perm ((h.splice_perm hnode).map _), trivial, by simp, ?_⟩
    rw [Lru.step, h.find_contents hnode, ← h.contents_filter hnode]
    rfl

theorem cachePut_spec (h : cache.Linked) (key : Name) {ent : FusefsEntry}
    (hent : ent.err.refused = false) :
    (cachePut cache key ent).Linked ∧ (cachePut cache key ent).max = cache.max
      ∧ Lru.step cache.max cache.contents (.put key ent)
        = (none, (cachePut cache key ent).contents) := by
  rw [cachePut, hent, if_neg Bool.false_ne_true]
  cases hlookup : cache.map.lookup key with
  | none =>
    have hkey := h.key_notMem hlookup
    have hfind := Lru.find?_eq_none_iff.mpr (map_fst_contents cache ▸ hkey)
    refine ⟨h.evict.emplace (fun hmem => hkey (evict_keys_subset cache key hmem)) ent, ?_, ?_⟩
    · simp only [FusefsCache.emplace, FusefsCache.evict]
      split_ifs
      · split <;> rfl
      · rfl
    · rw [Lru.step, hfind, ← evict_contents]
      rfl
  | some it =>
    obtain ⟨node, hnode, rfl, rfl⟩ := h.exists_node hlookup
    -- the node with its new entry is in a cache with the same links
    have hassigned : { cache with lru := lruAssign node.id ent cache.lru : FusefsCache }.Linked :=
      h.of_perm (by rw [links_assign])
    have hnode' : { node with entry := ent } ∈ lruAssign node.id ent cache.lru :=
      List.mem_map.mpr ⟨node, hnode, if_pos rfl⟩
    have hsplice := hassigned.splice_eq hnode'
    simp only [filter_assign] at hsplice
    have hperm := (hassigned.splice_perm hnode').map fun other => (other.key, other.id)
    simp only [filter_assign] at hperm
    simp only [hsplice]
    refine ⟨h.of_perm (hperm.trans (by rw [← links, links_assign])), trivial, ?_⟩
    rw [Lru.step, h.find_contents hnode, ← h.contents_filter hnode]
    rfl

/-- The two structures together are a cache that drops what was used least recently; an entry that
is refused changes nothing. -/
theorem cacheStep_lru (h : cache.Linked) (r : CacheRequest) :
    (cacheStep cache r).2.Linked ∧ (cacheStep cache r).2.max = cache.max
      ∧ (cacheStep cache r).1 ≠ .dangling
      ∧ (r.toLru = none ∧ (cacheStep cache r).2 = cache
        ∨ ∃ q, r.toLru = some q ∧ Lru.step cache.max cache.contents q
          = ((cacheStep cache r).1.entry, (cacheStep cache r).2.contents)) := by
  cases r with
  | get key =>
    obtain ⟨hlinked, hmax, hanswer, hstep⟩ := cacheGet_spec h key
    exact ⟨hlinked, hmax, hanswer, .inr ⟨_, rfl, hstep⟩⟩
  | put key ent =>
    by_cases hent : ent.err.refused = true
    · have hput : cachePut cache key ent = cache := by rw [cachePut, if_pos hent]
      rw [cacheStep, hput]
      exact ⟨h, rfl, by simp, .inl ⟨if_pos hent, by simp⟩⟩
    · obtain ⟨hlinked, hmax, hstep⟩ := cachePut_spec h key (by simpa using hent)
      exact ⟨hlinked, hmax, by simp [cacheStep], .inr ⟨_, if_neg hent, hstep⟩⟩
  | invalidate => exact ⟨linked_nil cache, rfl, by simp [cacheStep], .inr ⟨_, rfl, rfl⟩⟩

end Linked

/-! ### Runs -/

/-- What a request and its answer add to the ledger. -/
def cacheNote (g : Lru.Ledger Name FusefsEntry) (exchange : CacheRequest × CacheAnswer) :
    Lru.Ledger Name FusefsEntry :=
  match exchange.1.toLru with
  | some q => g.note (q, exchange.2.entry)
  | none => g

/-- The uses of keys since the last invalidation, a use being a put of an accepted entry or a lookup
that hits, and the last accepted entry put under each key. -/
def cacheLedger (exchanges : List (CacheRequest × CacheAnswer)) : Lru.Ledger Name FusefsEntry :=
  exchanges.foldl cacheNote .empty

/-- The cache is linked and holds what the ledger says. -/
structure FusefsCache.Keeps (cache : FusefsCache) (g : Lru.Ledger Name FusefsEntry) : Prop where
  linked : cache.Linked
  pos : 0 < cache.max
  kept : Lru.Kept cache.max g cache.contents

theorem FusefsCache.Keeps.step {cache : FusefsCache} {g : Lru.Ledger Name FusefsEntry}
    (h : cache.Keeps g) (r : CacheRequest) :
    (cacheStep cache r).2.Keeps (cacheNote g (r, (cacheStep cache r).1))
      ∧ (cacheStep cache r).2.max = cache.max := by
  obtain ⟨hlinked, hmax, -, ⟨hnone, hsame⟩ | ⟨q, hq, hstep⟩⟩ := cacheStep_lru h.linked r
  · rw [cacheNote, hnone, hsame]
    exact ⟨h, rfl⟩
  · have hkept := h.kept.step h.pos q
    rw [hstep] at hkept
    rw [cacheNote, hq]
    exact ⟨⟨hlinked, hmax ▸ h.pos, hmax ▸ hkept⟩, hmax⟩

theorem FusefsCache.Keeps.run (rs : List CacheRequest) : ∀ {cache : FusefsCache}
    {g : Lru.Ledger Name FusefsEntry}, cache.Keeps g →
    (History.after cacheStep cache rs).Keeps
      ((rs.zip (History.answers cacheStep cache rs)).foldl cacheNote g)
      ∧ (History.after cacheStep cache rs).max = cache.max := by
  induction rs with
  | nil => exact fun h => ⟨h, rfl⟩
  | cons r rs ih =>
    intro cache g h
    obtain ⟨hstep, hmax⟩ := h.step r
    obtain ⟨hrest, hmax'⟩ := ih hstep
    exact ⟨hrest, hmax'.trans hmax⟩

theorem init_max (cacheMax : ℕ) : (FusefsCache.init cacheMax).max = max 1 cacheMax := by
  change (if cacheMax ≠ 0 then cacheMax else 1) = max 1 cacheMax
  split_ifs <;> omega

theorem keeps_init (cacheMax : ℕ) : (FusefsCache.init cacheMax).Keeps .empty where
  linked := linked_init cacheMax
  pos := by
    rw [init_max]
    omega
  kept := Lru.kept_empty _

/-- What a lookup answers: the entry put last under a key that is kept. -/
theorem FusefsCache.Keeps.get {cache : FusefsCache} {g : Lru.Ledger Name FusefsEntry}
    (h : cache.Keeps g) (key : Name) :
    (key ∈ cache.keys ∧ ∃ ent, g.last key = some ent ∧ (cacheGet cache key).1 = .hit ent)
      ∨ key ∉ cache.keys ∧ (cacheGet cache key).1 = .miss := by
  cases hlookup : cache.map.lookup key with
  | none => exact .inr ⟨h.linked.key_notMem hlookup, by rw [cacheGet, hlookup]⟩
  | some it =>
    obtain ⟨node, hnode, rfl, rfl⟩ := h.linked.exists_node hlookup
    have hfront : (node :: cache.lru.filter fun other => other.id ≠ node.id).find?
        (fun other => other.id = node.id) = some node :=
      List.find?_cons_of_pos (decide_eq_true rfl)
    refine .inl ⟨List.mem_map_of_mem hnode, node.entry,
      h.kept.last _ (List.mem_map.mpr ⟨node, hnode, rfl⟩), ?_⟩
    simp only [cacheGet, hlookup, h.linked.splice_eq hnode, hfront]

/-- After every run of lookups, puts and invalidations: the map and the list hold the same keys,
each once, and no more than there is room for; a lookup hits exactly on these keys and returns the
entry put last; and the keys are the most recently used ones. -/
theorem fusefsCache_spec (cacheMax : ℕ) (rs : List CacheRequest) :
    let cache := History.after cacheStep (.init cacheMax) rs
    let ledger := cacheLedger (rs.zip (History.answers cacheStep (.init cacheMax) rs))
    cache.keys.Nodup ∧ cache.map.keys.Nodup ∧ (∀ key, key ∈ cache.map.keys ↔ key ∈ cache.keys)
      ∧ cache.lru.length ≤ max 1 cacheMax
      ∧ (∀ key, key ∈ cache.keys ∧ (∃ ent, ledger.last key = some ent
          ∧ (cacheGet cache key).1 = .hit ent)
        ∨ key ∉ cache.keys ∧ (cacheGet cache key).1 = .miss)
      ∧ cache.keys = (Lru.recent ledger.used).take (max 1 cacheMax)
      ∧ ∀ key, key ∈ ledger.used ↔ (ledger.last key).isSome = true := by
  intro cache ledger
  obtain ⟨hkeeps, hmax⟩ := (keeps_init cacheMax).run rs
  have hmax' : cache.max = max 1 cacheMax := hmax.trans (init_max cacheMax)
  have hlength : cache.lru.length ≤ cache.max := by
    rw [← List.length_map fun node : FusefsNode => (node.key, node.entry)]
    exact hkeeps.kept.length_le
  refine ⟨hkeeps.linked.keys_nodup, AList.keys_nodup _, fun key => ?_,
    hmax' ▸ hlength, hkeeps.get, ?_, hkeeps.kept.used_iff⟩
  · rw [← AList.mem_keys, ← AList.lookup_isSome, Option.isSome_iff_exists]
    constructor
    · rintro ⟨it, hit⟩
      obtain ⟨node, hnode, hkey, -⟩ := hkeeps.linked.exists_node hit
      exact List.mem_map.mpr ⟨node, hnode, hkey⟩
    · intro hmem
      obtain ⟨node, hnode, hkey⟩ := List.mem_map.mp hmem
      exact ⟨node.id, (hkeeps.linked.lookup key _).mpr (mem_links.mpr ⟨node, hnode, hkey, rfl⟩)⟩
  · rw [← hmax', ← map_fst_contents]
    exact hkeeps.kept.keys

end FsRover
