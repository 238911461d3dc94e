import FsRover.Fs.UefiCache

/-!
# What the cache of mounted UEFI images changes

The calls answer as without the cache if a device that looks like the cached one, by name, size and
the bytes the key holds, has its bytes. The trees that are not freed are those that are held, in
every run.

## Main definitions

* `FsRover.UefiHonest` : a device that hits the cache has the content of the cached image.
* `FsRover.UefiState.Counted`, `FsRover.UefiRelated` : the counts, and the relation to the calls
  without the cache.

## Main results

* `FsRover.uefiStep_counted`, `FsRover.uefiStep_related` : what one call keeps.
* `FsRover.uefi_cache_invisible` : the answers of runs that meet the condition, and the trees that
  are there in every run.
-/

namespace FsRover

open UefiState

/-- A device that the call looks up in the cache, and finds there, has the bytes of the image the
tree in the cache was parsed from. -/
def UefiHonest (s : UefiState) (call : UefiCall) : Prop :=
  ∀ device total cache, call.device = some device → device.total = some total →
    s.cache = some cache → CacheHit cache device.name total (device.head total) →
      (s.heap.get cache.data).bind (·.bufs.head?) = some (device.content total)

variable {parser : UefiParser} {s s' : UefiState} {t : UefiPlainState}

/-! ### Counts -/

namespace UefiState

/-- The handles the open files and the cache hold. -/
def holders (s : UefiState) : List ℕ :=
  s.files.map (·.data) ++ s.cache.toList.map (·.data)

/-- The counts of the trees are those of the holders. -/
def Counted (s : UefiState) : Prop := Shared.Counts s.heap s.holders

theorem mem_holders_of_file {file : UefiFile} (h : file ∈ s.files) : file.data ∈ s.holders :=
  List.mem_append_left _ (List.mem_map_of_mem h)

theorem mem_holders_of_cache {cache : UefiCache} (h : s.cache = some cache) :
    cache.data ∈ s.holders := by
  simp [holders, h]

@[simp] theorem cache_cacheDrop (s : UefiState) : s.cacheDrop.cache = none := by
  cases hcache : s.cache <;> simp [cacheDrop, hcache]

@[simp] theorem files_cacheDrop (s : UefiState) : s.cacheDrop.files = s.files := by
  cases hcache : s.cache <;> simp [cacheDrop, hcache]

@[simp] theorem nextId_cacheDrop (s : UefiState) : s.cacheDrop.nextId = s.nextId := by
  cases hcache : s.cache <;> simp [cacheDrop, hcache]

namespace Counted

/-- With a cache, its tree is counted once more than the files hold it. -/
theorem cons_of_cache (h : s.Counted) {cache : UefiCache} (hcache : s.cache = some cache) :
    Shared.Counts s.heap (cache.data :: s.files.map (·.data)) := by
  refine Shared.Counts.perm h ?_
  rw [holders, hcache]
  exact List.perm_append_singleton _ _

theorem cacheDrop (h : s.Counted) : s.cacheDrop.Counted := by
  cases hcache : s.cache with
  | none => simpa [UefiState.cacheDrop, hcache] using h
  | some cache =>
    have hput := (h.cons_of_cache hcache).put
    simpa [Counted, holders, UefiState.cacheDrop, hcache] using hput

/-- Letting go of the cached tree leaves those of the files. -/
theorem get_cacheDrop (h : s.Counted) {file : UefiFile} (hmem : file ∈ s.files) :
    s.cacheDrop.heap.get file.data = s.heap.get file.data := by
  cases hcache : s.cache with
  | none => simp [UefiState.cacheDrop, hcache]
  | some cache =>
    simpa [UefiState.cacheDrop, hcache] using
      (h.cons_of_cache hcache).get_put (List.mem_map_of_mem hmem)

theorem cacheStore (h : s.Counted) (hcache : s.cache = none) (name : Name) (size : ℕ)
    (head : List UInt8) (image : UefiImage) : (s.cacheStore name size head image).Counted := by
  refine (Shared.Counts.alloc h image).perm ?_
  rw [holders, holders, hcache, UefiState.cacheStore]
  simpa using (List.perm_append_singleton s.heap.next (s.files.map (·.data))).symm

end Counted

end UefiState

theorem uefiMount_counted (parser : UefiParser) (h : s.Counted) (device : UefiDisk) :
    (uefiMount parser s device).2.Counted := by
  rw [uefiMount]
  cases device.total with
  | none => exact h
  | some total =>
    simp only
    cases s.lookup device.name total (device.head total) with
    | some data => exact h
    | none =>
      simp only
      cases uefiAdmit parser (device.content total) with
      | error e => exact h
      | ok _ =>
        simp only
        cases uefiBuild parser (device.content total) with
        | error e => exact h.cacheDrop
        | ok image => exact h.cacheDrop.cacheStore (cache_cacheDrop s) _ _ _ _

theorem uefiMount_cached {device : UefiDisk} {data : ℕ}
    (h : uefiMount parser s device = (.ok data, s')) :
    ∃ cache, s'.cache = some cache ∧ cache.data = data := by
  rw [uefiMount] at h
  cases htotal : device.total with
  | none => simp [htotal] at h
  | some total =>
    simp only [htotal] at h
    cases hlookup : s.lookup device.name total (device.head total) with
    | some found =>
      simp only [hlookup, Prod.mk.injEq, Except.ok.injEq] at h
      obtain ⟨rfl, rfl⟩ := h
      rw [lookup, Option.bind_eq_some_iff] at hlookup
      obtain ⟨cache, hcache, hhit⟩ := hlookup
      split_ifs at hhit
      exact ⟨cache, hcache, Option.some.inj hhit⟩
    | none =>
      simp only [hlookup] at h
      cases hchecked : uefiAdmit parser (device.content total) with
      | error e => simp [hchecked] at h
      | ok _ =>
        simp only [hchecked] at h
        cases hbuild : uefiBuild parser (device.content total) with
        | error e => simp [hbuild] at h
        | ok image =>
          simp only [hbuild, Prod.mk.injEq, Except.ok.injEq] at h
          obtain ⟨rfl, rfl⟩ := h
          exact ⟨_, rfl, rfl⟩

theorem uefiFiles_perm_eraseP {files : List UefiFile} {id : ℕ} {file : UefiFile}
    (h : files.find? (·.id = id) = some file) :
    files.Perm (file :: files.eraseP (·.id = id)) := by
  induction files with
  | nil => simp at h
  | cons first files ih =>
    by_cases hid : first.id = id
    · simp only [List.find?_cons, hid, decide_true, Option.some.injEq] at h
      rw [List.eraseP_cons_of_pos (by simpa using hid), h]
    · simp only [List.find?_cons, hid, decide_false] at h
      simpa [hid] using ((ih h).cons first).trans (.swap file first _)

/-- The file `id` is let go of, and its handle with it. -/
theorem UefiState.Counted.cons_of_file (h : s.Counted) {id : ℕ} {file : UefiFile}
    (hfind : s.files.find? (·.id = id) = some file) :
    Shared.Counts s.heap
      (file.data :: ((s.files.eraseP (·.id = id)).map (·.data) ++ s.cache.toList.map (·.data))) :=
  Shared.Counts.perm h (((uefiFiles_perm_eraseP hfind).map (·.data)).append_right _)

/-- Each call keeps the counts. -/
theorem uefiStep_counted (parser : UefiParser) (h : s.Counted) (call : UefiCall) :
    (uefiStep parser s call).2.Counted := by
  cases call with
  | dir device path =>
    have hmount := uefiMount_counted parser h device
    rw [uefiStep]
    rcases hm : uefiMount parser s device with ⟨e | data, s'⟩
    · simpa [hm] using hmount
    · rw [hm] at hmount
      simp only
      cases s'.heap.get data <;> exact hmount
  | openFile device path =>
    have hmount := uefiMount_counted parser h device
    rw [uefiStep]
    rcases hm : uefiMount parser s device with ⟨e | data, s'⟩
    · simpa [hm] using hmount
    · rw [hm] at hmount
      obtain ⟨cache, hcache, hdata⟩ := uefiMount_cached hm
      simp only
      cases s'.heap.get data with
      | none => exact hmount
      | some image =>
        simp only
        rcases uefiOpen image path with e | ⟨index, size⟩
        · exact hmount
        · exact Shared.Counts.hold hmount (hdata ▸ mem_holders_of_cache hcache)
  | read id pos len =>
    rw [uefiStep]
    cases s.files.find? (·.id = id) with
    | none => exact h
    | some file =>
      simp only
      cases s.heap.get file.data <;> exact h
  | close id =>
    rw [uefiStep]
    cases hfind : s.files.find? (·.id = id) with
    | none => exact h
    | some file => exact (h.cons_of_file hfind).put

/-! ### The calls without the cache -/

/-- The same open file, with the tree it was opened from. -/
def UefiSame (heap : Shared.Heap UefiImage) (file : UefiFile) (plain : UefiPlainFile) : Prop :=
  file.id = plain.id ∧ file.index = plain.index ∧ heap.get file.data = some plain.image

/-- The same open files, and a cached tree that is what its image is parsed into. -/
structure UefiRelated (parser : UefiParser) (s : UefiState) (t : UefiPlainState) : Prop where
  counted : s.Counted
  files : List.Forall₂ (UefiSame s.heap) s.files t.files
  nextId : s.nextId = t.nextId
  cached : ∀ cache image content, s.cache = some cache → s.heap.get cache.data = some image →
    image.bufs.head? = some content →
      uefiAdmit parser content = .ok () ∧ uefiBuild parser content = .ok image

theorem uefiBuild_head? {content : List UInt8} {image : UefiImage}
    (h : uefiBuild parser content = .ok image) : image.bufs.head? = some content := by
  rw [uefiBuild] at h
  cases hparse : parser.parse content with
  | error e => simp [hparse] at h
  | ok parsed =>
    simp only [hparse] at h
    split_ifs at h
    rw [← Except.ok.inj h]
    rfl

/-- The relation of the files carries over to a heap that has their trees. -/
theorem UefiSame.of_get_eq {heap heap' : Shared.Heap UefiImage} {files : List UefiFile}
    {plain : List UefiPlainFile} (h : List.Forall₂ (UefiSame heap) files plain)
    (hget : ∀ file ∈ files, heap'.get file.data = heap.get file.data) :
    List.Forall₂ (UefiSame heap') files plain := by
  induction h with
  | nil => exact .nil
  | cons hsame _ ih =>
    refine .cons ⟨hsame.1, hsame.2.1, ?_⟩
      (ih fun file hmem => hget file (List.mem_cons_of_mem _ hmem))
    rw [hget _ List.mem_cons_self, hsame.2.2]

namespace UefiRelated

theorem cacheDrop (h : UefiRelated parser s t) : UefiRelated parser s.cacheDrop t where
  counted := h.counted.cacheDrop
  files := by
    rw [files_cacheDrop]
    exact UefiSame.of_get_eq h.files fun file hmem => h.counted.get_cacheDrop hmem
  nextId := by rw [nextId_cacheDrop, h.nextId]
  cached cache _ _ hcache := by simp at hcache

theorem cacheStore (h : UefiRelated parser s t) (hnone : s.cache = none) {content : List UInt8}
    {image : UefiImage} (hchecked : uefiAdmit parser content = .ok ())
    (hbuild : uefiBuild parser content = .ok image) (name : Name) (size : ℕ) (head : List UInt8) :
    UefiRelated parser (s.cacheStore name size head image) t where
  counted := h.counted.cacheStore hnone name size head image
  files := UefiSame.of_get_eq h.files fun file hmem =>
    Shared.Counts.get_alloc h.counted image (mem_holders_of_file hmem)
  nextId := h.nextId
  cached cache image' content' hcache hget hhead := by
    obtain rfl := Option.some.inj hcache
    rw [show (s.cacheStore name size head image).heap = s.heap.alloc image from rfl,
      Shared.Heap.get_alloc_self] at hget
    obtain rfl := Option.some.inj hget
    rw [uefiBuild_head? hbuild] at hhead
    obtain rfl := Option.some.inj hhead
    exact ⟨hchecked, hbuild⟩

/-- A mount of a device that is what it looks like returns the tree parsed from its bytes. -/
theorem mount (h : UefiRelated parser s t) {call : UefiCall} {device : UefiDisk}
    (hcall : call.device = some device) (hhonest : UefiHonest s call) :
    UefiRelated parser (uefiMount parser s device).2 t
      ∧ (uefiMount parser s device).1.map (uefiMount parser s device).2.heap.get
        = (uefiPlainMount parser device).map some := by
  rw [uefiMount, uefiPlainMount]
  cases htotal : device.total with
  | none => exact ⟨h, rfl⟩
  | some total =>
    simp only
    cases hlookup : s.lookup device.name total (device.head total) with
    | some data =>
      -- a hit: the content of the cached image is that of the device
      rw [lookup, Option.bind_eq_some_iff] at hlookup
      obtain ⟨cache, hcache, hhit⟩ := hlookup
      split_ifs at hhit with hhit'
      obtain rfl := Option.some.inj hhit
      obtain ⟨image, hget, hhead⟩ := Option.bind_eq_some_iff.mp
        (hhonest device total cache hcall htotal hcache hhit')
      obtain ⟨hchecked, hbuild⟩ := h.cached cache image _ hcache hget hhead
      simp only [hchecked, hbuild]
      exact ⟨h, congrArg Except.ok hget⟩
    | none =>
      simp only
      cases hchecked : uefiAdmit parser (device.content total) with
      | error e => exact ⟨h, rfl⟩
      | ok _ =>
        simp only
        cases hbuild : uefiBuild parser (device.content total) with
        | error e => exact ⟨h.cacheDrop, rfl⟩
        | ok image =>
          refine ⟨h.cacheDrop.cacheStore (cache_cacheDrop s) hchecked hbuild _ _ _, ?_⟩
          exact congrArg Except.ok (Shared.Heap.get_alloc_self _ image)

end UefiRelated

/-- The same file is found in both lists, and taken out of both. -/
theorem UefiSame.find {heap : Shared.Heap UefiImage} {files : List UefiFile}
    {plain : List UefiPlainFile} (h : List.Forall₂ (UefiSame heap) files plain) (id : ℕ) :
    Option.Rel (UefiSame heap) (files.find? (·.id = id)) (plain.find? (·.id = id))
      ∧ List.Forall₂ (UefiSame heap) (files.eraseP (·.id = id)) (plain.eraseP (·.id = id)) := by
  induction h with
  | nil => exact ⟨.none, .nil⟩
  | @cons file plainFile files plain hsame hrest ih =>
    have hid := hsame.1
    by_cases heq : file.id = id
    · have heq' : plainFile.id = id := hid ▸ heq
      simpa [heq, heq'] using ⟨hsame, hrest⟩
    · have heq' : plainFile.id ≠ id := hid ▸ heq
      simpa [heq, heq'] using ⟨ih.1, hsame, ih.2⟩

/-- A call on devices that are what they look like answers as without the cache. -/
theorem uefiStep_related (h : UefiRelated parser s t) {call : UefiCall}
    (hhonest : UefiHonest s call) :
    (uefiStep parser s call).1 = (uefiPlainStep parser t call).1
      ∧ UefiRelated parser (uefiStep parser s call).2 (uefiPlainStep parser t call).2 := by
  have hcounted := uefiStep_counted parser h.counted call
  cases call with
  | dir device path =>
    obtain ⟨hnext, hmount⟩ := h.mount rfl hhonest
    rw [uefiStep, uefiPlainStep]
    rcases hm : uefiMount parser s device with ⟨e | data, s'⟩ <;> rw [hm] at hmount hnext <;>
      rcases hp : uefiPlainMount parser device with e' | image <;> rw [hp] at hmount
    · obtain rfl := Except.error.inj hmount
      exact ⟨rfl, hnext⟩
    · cases hmount
    · cases hmount
    · have hget : s'.heap.get data = some image := Except.ok.inj hmount
      simp only [hget]
      exact ⟨trivial, hnext⟩
  | openFile device path =>
    obtain ⟨hnext, hmount⟩ := h.mount rfl hhonest
    rw [uefiStep, uefiPlainStep]
    rw [uefiStep] at hcounted
    rcases hm : uefiMount parser s device with ⟨e | data, s'⟩ <;>
      rw [hm] at hmount hnext hcounted <;>
      rcases hp : uefiPlainMount parser device with e' | image <;> rw [hp] at hmount
    · obtain rfl := Except.error.inj hmount
      exact ⟨rfl, hnext⟩
    · cases hmount
    · cases hmount
    · have hget : s'.heap.get data = some image := Except.ok.inj hmount
      simp only [hget] at hcounted ⊢
      rcases hopen : uefiOpen image path with e | ⟨index, size⟩
      · exact ⟨rfl, hnext⟩
      · rw [hopen] at hcounted
        refine ⟨by rw [hnext.nextId], hcounted, .cons ?_ ?_, congrArg (· + 1) hnext.nextId, ?_⟩
        · exact ⟨hnext.nextId, rfl, by rw [Shared.Heap.get_hold, hget]⟩
        · exact UefiSame.of_get_eq hnext.files fun file _ => Shared.Heap.get_hold _ _ _
        · intro cache image' content hcache hget' hhead
          rw [Shared.Heap.get_hold] at hget'
          exact hnext.cached cache image' content hcache hget' hhead
  | read id pos len =>
    obtain ⟨hfind, -⟩ := UefiSame.find h.files id
    rw [uefiStep, uefiPlainStep]
    cases hf : s.files.find? (·.id = id) with
    | none =>
      rw [hf] at hfind
      cases hp : t.files.find? (·.id = id) with
      | none => exact ⟨rfl, h⟩
      | some plain =>
        rw [hp] at hfind
        cases hfind
    | some file =>
      rw [hf] at hfind
      cases hp : t.files.find? (·.id = id) with
      | none =>
        rw [hp] at hfind
        cases hfind
      | some plain =>
        rw [hp] at hfind
        obtain ⟨⟨-, hindex, hget⟩⟩ := hfind
        simp only [hget, hindex]
        exact ⟨trivial, h⟩
  | close id =>
    obtain ⟨hfind, herase⟩ := UefiSame.find h.files id
    rw [uefiStep, uefiPlainStep]
    rw [uefiStep] at hcounted
    cases hf : s.files.find? (·.id = id) with
    | none =>
      rw [hf] at hfind
      cases hp : t.files.find? (·.id = id) with
      | none => exact ⟨rfl, h⟩
      | some plain =>
        rw [hp] at hfind
        cases hfind
    | some file =>
      rw [hf] at hfind hcounted
      cases hp : t.files.find? (·.id = id) with
      | none =>
        rw [hp] at hfind
        cases hfind
      | some plain =>
        refine ⟨rfl, hcounted, UefiSame.of_get_eq herase fun file' hmem => ?_, h.nextId, ?_⟩
        · exact (h.counted.cons_of_file hf).get_put
            (List.mem_append_left _ (List.mem_map_of_mem hmem))
        · intro cache image content hcache hget hhead
          refine h.cached cache image content hcache ?_ hhead
          exact Shared.Heap.get_of_put _ hget

/-- The cache holds what the device mounted last was parsed into. -/
theorem uefiHonest_again (hnone : s.cache = none) {device : UefiDisk} (path : Name)
    {call : UefiCall} (hcall : call.device = some device) :
    UefiHonest (uefiStep parser s (.dir device path)).2 call := by
  intro device' total cache hdevice htotal hcache _
  obtain rfl := Option.some.inj (hcall.symm.trans hdevice)
  have hstate : (uefiStep parser s (.dir device path)).2 = (uefiMount parser s device).2 := by
    rw [uefiStep]
    rcases uefiMount parser s device with ⟨e | data, s'⟩
    · rfl
    · simp only
      cases s'.heap.get data <;> rfl
  have hlookup : s.lookup device.name total (device.head total) = none := by simp [lookup, hnone]
  rw [hstate] at hcache ⊢
  simp only [uefiMount, htotal, hlookup] at hcache ⊢
  cases hchecked : uefiAdmit parser (device.content total) with
  | error e => simp [hchecked, hnone] at hcache
  | ok _ =>
    simp only [hchecked] at hcache ⊢
    cases hbuild : uefiBuild parser (device.content total) with
    | error e => simp [hbuild] at hcache
    | ok image =>
      simp only [hbuild] at hcache ⊢
      obtain rfl := Option.some.inj hcache
      exact (congrArg (·.bind (·.bufs.head?)) (Shared.Heap.get_alloc_self _ image)).trans
        (uefiBuild_head? hbuild)

/-! ### Runs -/

theorem UefiState.counted_init : UefiState.init.Counted := Shared.Counts.empty

theorem UefiRelated.init : UefiRelated parser UefiState.init UefiPlainState.init :=
  ⟨counted_init, .nil, rfl, fun _ _ _ hcache => by cases hcache⟩

/-- In every run on devices that are what they look like, the calls answer as without the cache; and
in every run a tree is there exactly as long as the cache or an open file holds it. -/
theorem uefi_cache_invisible (parser : UefiParser) (calls : List UefiCall) :
    (History.AllMeet (uefiStep parser) UefiHonest .init calls →
      History.answers (uefiStep parser) .init calls
        = History.answers (uefiPlainStep parser) .init calls)
      ∧ ∀ data, ((History.after (uefiStep parser) .init calls).heap.get data).isSome = true
        ↔ data ∈ (History.after (uefiStep parser) .init calls).holders := by
  constructor
  · intro hmeet
    have hstep : ∀ s t call, UefiRelated parser s t → UefiHonest s call →
        (uefiStep parser s call).1 = (uefiPlainStep parser t call).1
          ∧ UefiRelated parser (uefiStep parser s call).2 (uefiPlainStep parser t call).2 :=
      fun _ _ _ hr hok => uefiStep_related hr hok
    exact (hmeet.answers_eq hstep .init).1
  · have hstep : ∀ s call, Counted s → Counted (uefiStep parser s call).2 :=
      fun _ call hs => uefiStep_counted parser hs call
    have hcounted := History.after_inv hstep counted_init calls
    exact fun data => Shared.Counts.get_isSome_iff hcounted data

/-! ### Two images under one name -/

/-- A flash image of 4096 bytes whose only region is the whole image, with a byte behind those that
the key of the cache holds. -/
def uefiFlashDevice (b : UInt8) : UefiDisk where
  name := "hd1".toUTF8.toList
  disk := {
    bytes := Buf.ofFields ([(0x10, [0x5a, 0xa5, 0xf0, 0x0f]), (20, [0, 0, 4, 0]), (600, [b])]
      ++ (List.range' 1 7).map fun i => (0x40 + 4 * i, [0xff, 0x0f, 0, 0]))
    sectors := some 8 }

/-- Open the file of both images, and read the byte of the second one. -/
def uefiFlashCalls (b b' : UInt8) : List UefiCall :=
  [.openFile (uefiFlashDevice b) "Descriptor".toUTF8.toList,
    .openFile (uefiFlashDevice b') "Descriptor".toUTF8.toList, .read 1 600 1]

/-- A listing and an open on one device: the second call hits the cache. -/
theorem uefi_cache_invisible_flash :
    History.answers (uefiStep uefiFlashParser) .init
        [.dir (uefiFlashDevice 7) [],
          .openFile (uefiFlashDevice 7) "Descriptor".toUTF8.toList, .read 0 600 1]
      = History.answers (uefiPlainStep uefiFlashParser) .init
        [.dir (uefiFlashDevice 7) [],
          .openFile (uefiFlashDevice 7) "Descriptor".toUTF8.toList, .read 0 600 1] :=
  (uefi_cache_invisible uefiFlashParser _).1
    ⟨fun _ _ _ _ _ hcache => (by cases hcache), uefiHonest_again rfl [] rfl,
      fun _ _ _ hdevice => (by cases hdevice), trivial⟩

/-- The file opened on the second image returns the byte of the first. -/
theorem uefi_renamed_differs :
    (History.answers (uefiStep uefiFlashParser) .init (uefiFlashCalls 7 8)).getLast?
        = some (.bytes (some [7]))
      ∧ (History.answers (uefiPlainStep uefiFlashParser) .init (uefiFlashCalls 7 8)).getLast?
        = some (.bytes (some [8])) := by
  decide +kernel

end FsRover
