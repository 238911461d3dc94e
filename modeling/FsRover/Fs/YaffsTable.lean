import FsRover.Fs.YaffsScan
import FsRover.Lib.Forest
import Mathlib.Data.List.Nodup

/-!
# The table of objects of a YAFFS image

Objects are found by their ids in a hash table. The scan enters every object once and marks none of
them as shadowed.

## Main definitions

* `FsRover.YaffsTable` : every object is in its bucket, once, and the count is right.
* `FsRover.YaffsScanned` : what a scan leaves.
* `FsRover.YaffsData.mark` : hide some of the objects.

## Main results

* `FsRover.yaffsScan_scanned` : any order of the pages leaves such a table.
* `FsRover.yaffsHidePasses_settled` : as many passes as there are objects are enough.
-/

namespace FsRover

open Guards

/-- All objects, bucket by bucket. -/
def YaffsData.all (data : YaffsData) : List YaffsObject :=
  (List.range YAFFS_OBJECT_BUCKETS).flatMap data.objects

/-- Every object is in the bucket of its id, where no other has this id, and all are counted. -/
structure YaffsTable (data : YaffsData) : Prop where
  bucket : ∀ i, ∀ o ∈ data.objects i, o.id % YAFFS_OBJECT_BUCKETS = i
  nodup : ∀ i, ((data.objects i).map (·.id)).Nodup
  count : data.objectCount = data.all.length

variable {data data' : YaffsData} {o : YaffsObject} {id : ℕ}

theorem YaffsData.ids_eq (data : YaffsData) : data.ids = data.all.map (·.id) := by
  rw [YaffsData.ids, YaffsData.all, List.map_flatMap]

theorem findObject_id (h : data.findObject id = some o) : o.id = id := by
  simpa using List.find?_some h

theorem YaffsData.mem_all_of_find (h : data.findObject id = some o) : o ∈ data.all :=
  List.mem_flatMap.mpr ⟨id % YAFFS_OBJECT_BUCKETS,
    List.mem_range.mpr (Nat.mod_lt _ (by decide)), List.mem_of_find?_eq_some h⟩

theorem YaffsData.mem_ids_of_find (h : data.findObject id = some o) : id ∈ data.ids := by
  rw [data.ids_eq, ← findObject_id h]
  exact List.mem_map_of_mem (YaffsData.mem_all_of_find h)

theorem find?_of_nodup {l : List YaffsObject} (hl : (l.map (·.id)).Nodup) (ho : o ∈ l) :
    l.find? (·.id = o.id) = some o := by
  cases hfind : l.find? (·.id = o.id) with
  | none => exact absurd (List.find?_eq_none.mp hfind o ho) (by simp)
  | some o' =>
    have hid : o'.id = o.id := by simpa using List.find?_some hfind
    rw [List.inj_on_of_nodup_map hl (List.mem_of_find?_eq_some hfind) ho hid]

namespace YaffsTable

theorem find (h : YaffsTable data) (ho : o ∈ data.all) : data.findObject o.id = some o := by
  obtain ⟨i, -, hi⟩ := List.mem_flatMap.mp ho
  rw [YaffsData.findObject, h.bucket i o hi]
  exact find?_of_nodup (h.nodup i) hi

theorem ids_nodup (h : YaffsTable data) : (data.all.map (·.id)).Nodup := by
  rw [YaffsData.all, List.map_flatMap, List.nodup_flatMap]
  refine ⟨fun i _ => h.nodup i, List.nodup_range.pairwise_of_forall_ne fun i _ j _ hne => ?_⟩
  intro id hi hj
  obtain ⟨a, ha, rfl⟩ := List.mem_map.mp hi
  obtain ⟨b, hb, heq⟩ := List.mem_map.mp hj
  apply hne
  rw [← h.bucket i a ha, ← h.bucket j b hb, heq]

end YaffsTable

theorem sum_update (f : ℕ → ℕ) {n j : ℕ} (x : ℕ) (hj : j < n) :
    ((List.range n).map (Function.update f j x)).sum + f j = ((List.range n).map f).sum + x := by
  induction n with
  | zero => exact absurd hj (Nat.not_lt_zero j)
  | succ n ih =>
    simp only [List.range_succ, List.map_append, List.sum_append, List.map_cons, List.map_nil,
      List.sum_cons, List.sum_nil]
    by_cases hlt : j < n
    · have hne : n ≠ j := Nat.ne_of_gt hlt
      rw [Function.update_of_ne hne]
      have := ih hlt
      omega
    · obtain rfl : j = n := by omega
      have hsame : (List.range j).map (Function.update f j x) = (List.range j).map f :=
        List.map_congr_left fun i hi => Function.update_of_ne (Nat.ne_of_lt (List.mem_range.mp hi)) _ _
      rw [Function.update_self, hsame]
      omega

theorem YaffsData.length_all (data : YaffsData) : data.all.length
    = ((List.range YAFFS_OBJECT_BUCKETS).map fun i => (data.objects i).length).sum := by
  rw [YaffsData.all, List.length_flatMap]

theorem YaffsTable.getObject (h : YaffsTable data) (id : ℕ) : YaffsTable (data.getObject id) := by
  rw [YaffsData.getObject]
  cases hfind : data.findObject id with
  | some o => exact h
  | none =>
    refine ⟨fun i o ho => ?_, fun i => ?_, ?_⟩
    · by_cases hi : i = id % YAFFS_OBJECT_BUCKETS
      · subst hi
        simp only [Function.update_self, List.mem_cons] at ho
        rcases ho with rfl | ho
        · rfl
        · exact h.bucket _ o ho
      · simp only [Function.update_of_ne hi] at ho
        exact h.bucket i o ho
    · by_cases hi : i = id % YAFFS_OBJECT_BUCKETS
      · subst hi
        simp only [Function.update_self, List.map_cons, List.nodup_cons]
        refine ⟨fun hmem => ?_, h.nodup _⟩
        obtain ⟨o, ho, hid⟩ := List.mem_map.mp hmem
        exact List.find?_eq_none.mp hfind o ho (by simpa using hid)
      · simp only [Function.update_of_ne hi]
        exact h.nodup i
    · have hlength : (fun i => (Function.update data.objects (id % YAFFS_OBJECT_BUCKETS)
          ({ id := id } :: data.objects (id % YAFFS_OBJECT_BUCKETS)) i).length)
            = Function.update (fun i => (data.objects i).length) (id % YAFFS_OBJECT_BUCKETS)
              ((data.objects (id % YAFFS_OBJECT_BUCKETS)).length + 1) := by
        funext i
        by_cases hi : i = id % YAFFS_OBJECT_BUCKETS
        · subst hi
          simp only [Function.update_self, List.length_cons]
        · simp only [Function.update_of_ne hi]
      have hsum := sum_update (fun i => (data.objects i).length)
        ((data.objects (id % YAFFS_OBJECT_BUCKETS)).length + 1)
        (Nat.mod_lt id (by decide : 0 < YAFFS_OBJECT_BUCKETS))
      have hcount := h.count
      rw [YaffsData.length_all] at hcount ⊢
      simp only [hlength]
      omega

theorem YaffsTable.modifyObject {f : YaffsObject → YaffsObject} (hf : ∀ o, (f o).id = o.id)
    (h : YaffsTable data) (id : ℕ) : YaffsTable (data.modifyObject id f) := by
  have hobjects : ∀ i, (data.modifyObject id f).objects i = if i = id % YAFFS_OBJECT_BUCKETS then
      (data.objects i).map fun o => if o.id = id then f o else o else data.objects i := by
    intro i
    rw [YaffsData.modifyObject]
    by_cases hi : i = id % YAFFS_OBJECT_BUCKETS
    · subst hi
      simp only [Function.update_self, if_true]
    · simp only [Function.update_of_ne hi, if_neg hi]
  have hid : ∀ o : YaffsObject, (if o.id = id then f o else o).id = o.id := fun o => by
    split_ifs
    · exact hf o
    · rfl
  have hids : ∀ i, ((data.modifyObject id f).objects i).map (·.id)
      = (data.objects i).map (·.id) := fun i => by
    rw [hobjects]
    split_ifs
    · rw [List.map_map]
      exact List.map_congr_left fun o _ => hid o
    · rfl
  refine ⟨fun i o ho => ?_, fun i => ?_, ?_⟩
  · have hmem : o.id ∈ (data.objects i).map (·.id) := by
      rw [← hids]
      exact List.mem_map_of_mem ho
    obtain ⟨a, ha, heq⟩ := List.mem_map.mp hmem
    rw [← heq]
    exact h.bucket i a ha
  · rw [hids]
    exact h.nodup i
  · show data.objectCount = _
    rw [h.count, YaffsData.length_all, YaffsData.length_all]
    refine congrArg List.sum (List.map_congr_left fun i _ => ?_)
    simpa using congrArg List.length (hids i).symm

/-! ### The scan -/

/-- An object as the scan leaves it: only a header makes it valid, and nothing hides it. -/
structure YaffsFresh (o : YaffsObject) : Prop where
  id : 0 < o.id ∧ o.id ≤ YAFFS_OBJECT_MAX
  shadowed : o.shadowed = false
  shadows : o.valid = false → o.shadows = 0

/-- What a scan leaves. -/
structure YaffsScanned (data : YaffsData) : Prop where
  table : YaffsTable data
  fresh : ∀ id o, data.findObject id = some o → YaffsFresh o

theorem YaffsScanned.change {f : YaffsObject → YaffsObject} (hf : ∀ o, (f o).id = o.id)
    (hfresh : ∀ o, YaffsFresh o → YaffsFresh (f o)) (h : YaffsScanned data) {id : ℕ}
    (hid : 0 < id ∧ id ≤ YAFFS_OBJECT_MAX) :
    YaffsScanned ((data.getObject id).modifyObject id f) := by
  have hblank : YaffsFresh (data.objectAt id) := by
    rw [YaffsData.objectAt]
    cases hfind : data.findObject id with
    | none => exact ⟨hid, rfl, fun _ => rfl⟩
    | some o => exact h.fresh id o hfind
  refine ⟨(h.table.getObject id).modifyObject hf id, fun id' o ho => ?_⟩
  rw [findObject_modifyObject hf, findObject_getObject] at ho
  by_cases heq : id' = id
  · subst heq
    simp only [if_true, Option.map_some, Option.some.injEq] at ho
    exact ho ▸ hfresh _ hblank
  · rw [if_neg heq, if_neg heq] at ho
    exact h.fresh id' o ho

theorem modifyObject_id (data : YaffsData) (id : ℕ) : data.modifyObject id (fun o => o) = data := by
  simp [YaffsData.modifyObject]

theorem YaffsScanned.getObject (h : YaffsScanned data) {id : ℕ}
    (hid : 0 < id ∧ id ≤ YAFFS_OBJECT_MAX) : YaffsScanned (data.getObject id) := by
  have hchange := h.change (fun _ => rfl) (fun _ ho => ho) hid (f := fun o => o)
  rwa [modifyObject_id] at hchange

theorem yaffsParseTags_object {g : YaffsGeometry} {raw : Buf} {tags : YaffsTags}
    (h : yaffsParseTags g raw = some tags) (hskip : yaffsSkips tags = false) :
    0 < tags.object ∧ tags.object ≤ YAFFS_OBJECT_MAX := by
  simp only [yaffsSkips, Bool.or_eq_false_iff, Bool.not_eq_eq_eq_not, Bool.not_false,
    decide_eq_false_iff_not] at hskip
  obtain ⟨⟨⟨⟨⟨hused, hdeleted⟩, hcheckpoint⟩, hbad⟩, -⟩, -⟩ := hskip
  rw [yaffsParseTags] at h
  split_ifs at h
  · rw [yaffsParseTags1] at h
    split_ifs at h with hff hspare
    · obtain rfl := Option.some.inj h
      cases hused
    · obtain rfl := Option.some.inj h
      cases hused
    · simp only [] at h
      split_ifs at h with hbounds
      obtain rfl := Option.some.inj h
      simp only [not_or] at hbounds
      exact ⟨Nat.pos_of_ne_zero hbounds.1, Nat.le_of_not_lt hbounds.2.1⟩
  · rw [yaffsParseTags2] at h
    split_ifs at h with hff
    · obtain rfl := Option.some.inj h
      cases hused
    · simp only [] at h
      split_ifs at h with hspecial hbounds
      · obtain rfl := Option.some.inj h
        exact (hspecial.elim hcheckpoint hbad).elim
      · obtain rfl := Option.some.inj h
        simp only [not_or] at hbounds
        omega

theorem YaffsFresh.setHeader {g : YaffsGeometry} {tags : YaffsTags} {header : YaffsHeader}
    {page : ℕ} (h : YaffsFresh o) : YaffsFresh (yaffsSetHeader g tags header page o) := by
  rw [yaffsSetHeader]
  by_cases hold : o.valid = true ∧ yaffsNewer g o.headerSequence o.headerPage o.headerSerial
      tags.sequence page tags.serial = false
  · rwa [if_pos hold]
  · rw [if_neg hold]
    exact ⟨h.id, h.shadowed, (fun hvalid => by cases hvalid)⟩

theorem yaffsSetHeader_id {g : YaffsGeometry} {tags : YaffsTags} {header : YaffsHeader}
    {page : ℕ} (o : YaffsObject) : (yaffsSetHeader g tags header page o).id = o.id := by
  rw [yaffsSetHeader]
  split_ifs <;> rfl

theorem yaffsScanPage_scanned {page : ℕ} (h : yaffsScanPage data page = .ok data')
    (hdata : YaffsScanned data) : YaffsScanned data' := by
  rw [yaffsScanPage] at h
  obtain ⟨raw, -, h⟩ := bind_eq_ok_iff.mp h
  cases htags : yaffsParseTags data.geometry raw with
  | none =>
    simp only [htags] at h
    exact Except.ok.inj h ▸ hdata
  | some tags =>
    simp only [htags] at h
    cases hskip : yaffsSkips tags with
    | true =>
      rw [if_pos hskip] at h
      exact Except.ok.inj h ▸ hdata
    | false =>
      have hid := yaffsParseTags_object htags hskip
      rw [if_neg (by rw [hskip]; exact Bool.false_ne_true)] at h
      by_cases hchunk : tags.chunk ≠ 0
      · rw [if_pos hchunk] at h
        obtain rfl := Except.ok.inj h
        refine hdata.change ?_ ?_ hid
        · exact fun _ => rfl
        · exact fun o ho => ⟨ho.id, ho.shadowed, ho.shadows⟩
      · rw [if_neg hchunk] at h
        obtain ⟨raw', -, h⟩ := bind_eq_ok_iff.mp h
        cases hheader : yaffsParseHeader data.geometry raw' tags.object with
        | none =>
          simp only [hheader] at h
          exact Except.ok.inj h ▸ hdata.getObject hid
        | some header =>
          simp only [hheader] at h
          by_cases hmatch : yaffsHeaderMatchesTags tags header = true
          · rw [if_pos hmatch] at h
            have hset := hdata.change yaffsSetHeader_id (fun o ho => ho.setHeader) hid
              (f := yaffsSetHeader data.geometry tags header page)
            exact Except.ok.inj h ▸ ⟨⟨hset.table.bucket, hset.table.nodup, hset.table.count⟩,
              hset.fresh⟩
          · rw [if_neg hmatch] at h
            exact Except.ok.inj h ▸ hdata.getObject hid

theorem yaffsScanPage_medium {page : ℕ} (h : yaffsScanPage data page = .ok data') :
    data.SameMedium data' := by
  rw [yaffsScanPage] at h
  obtain ⟨raw, -, h⟩ := bind_eq_ok_iff.mp h
  cases htags : yaffsParseTags data.geometry raw with
  | none =>
    simp only [htags] at h
    exact Except.ok.inj h ▸ .refl data
  | some tags =>
    have hget := sameMedium_getObject data tags.object
    simp only [htags] at h
    by_cases hskip : yaffsSkips tags = true
    · rw [if_pos hskip] at h
      exact Except.ok.inj h ▸ .refl data
    rw [if_neg hskip] at h
    by_cases hchunk : tags.chunk ≠ 0
    · rw [if_pos hchunk] at h
      exact Except.ok.inj h ▸ hget.trans (sameMedium_modifyObject _ _ _)
    rw [if_neg hchunk] at h
    obtain ⟨raw', -, h⟩ := bind_eq_ok_iff.mp h
    cases hheader : yaffsParseHeader data.geometry raw' tags.object with
    | none =>
      simp only [hheader] at h
      exact Except.ok.inj h ▸ hget
    | some header =>
      simp only [hheader] at h
      by_cases hmatch : yaffsHeaderMatchesTags tags header = true
      · rw [if_pos hmatch] at h
        exact Except.ok.inj h ▸ hget.trans ⟨rfl, rfl, rfl, rfl⟩
      · rw [if_neg hmatch] at h
        exact Except.ok.inj h ▸ hget

/-- All pages, in any order. -/
theorem yaffsScan_scanned {order : List ℕ} (h : yaffsScan order data = .ok data')
    (hdata : YaffsScanned data) : YaffsScanned data' ∧ data.SameMedium data' := by
  induction order generalizing data with
  | nil => exact Except.ok.inj h ▸ ⟨hdata, .refl data⟩
  | cons page order ih =>
    rw [yaffsScan, List.foldlM_cons] at h
    obtain ⟨data₁, hpage, h⟩ := bind_eq_ok_iff.mp h
    obtain ⟨hscanned, hmedium⟩ := ih h (yaffsScanPage_scanned hpage hdata)
    exact ⟨hscanned, (yaffsScanPage_medium hpage).trans hmedium⟩

/-! ### Hiding objects -/

/-- Hide the objects with these ids. -/
def YaffsData.mark (data : YaffsData) (m : ℕ → Bool) : YaffsData :=
  { data with objects := fun i => (data.objects i).map fun o =>
      { o with shadowed := o.shadowed || m o.id } }

variable {m m' : ℕ → Bool}

theorem findObject_mark (data : YaffsData) (m : ℕ → Bool) (id : ℕ) : (data.mark m).findObject id
    = (data.findObject id).map fun o => { o with shadowed := o.shadowed || m o.id } := by
  rw [YaffsData.findObject, YaffsData.mark, YaffsData.findObject, List.find?_map]
  rfl

theorem findObject_mark_of_some (m : ℕ → Bool) (ho : data.findObject id = some o) :
    (data.mark m).findObject id = some { o with shadowed := o.shadowed || m o.id } := by
  rw [findObject_mark, ho, Option.map_some]

@[simp] theorem mark_mark (data : YaffsData) (m m' : ℕ → Bool) :
    (data.mark m).mark m' = data.mark fun id => m id || m' id := by
  simp [YaffsData.mark, Function.comp_def, Bool.or_assoc]

theorem mark_false (data : YaffsData) : data.mark (fun _ => false) = data := by
  simp [YaffsData.mark]

theorem all_mark (data : YaffsData) (m : ℕ → Bool) : (data.mark m).all
    = data.all.map fun o => { o with shadowed := o.shadowed || m o.id } := by
  rw [YaffsData.all, YaffsData.all, List.map_flatMap]
  rfl

theorem YaffsTable.mark (h : YaffsTable data) (m : ℕ → Bool) : YaffsTable (data.mark m) := by
  refine ⟨fun i o ho => ?_, fun i => ?_, ?_⟩
  · obtain ⟨a, ha, rfl⟩ := List.mem_map.mp ho
    exact h.bucket i a ha
  · simpa [YaffsData.mark, Function.comp_def] using h.nodup i
  · show data.objectCount = _
    rw [h.count, all_mark, List.length_map]

theorem yaffsShadow_eq_mark (h : YaffsTable data) (id : ℕ) :
    yaffsShadow data id = data.mark (fun i => i = id) := by
  rw [yaffsShadow, YaffsData.modifyObject, YaffsData.mark]
  congr 1
  funext i
  by_cases hi : i = id % YAFFS_OBJECT_BUCKETS
  · subst hi
    rw [Function.update_self]
    refine List.map_congr_left fun o _ => ?_
    by_cases ho : o.id = id <;> simp [ho]
  · rw [Function.update_of_ne hi]
    refine (List.map_id _).symm.trans (List.map_congr_left fun o ho => ?_)
    have hne : o.id ≠ id := fun heq => hi (by rw [← heq, h.bucket i o ho])
    simp [hne]

/-- The number of objects that are visible. -/
def yaffsVisibleCount (data : YaffsData) : ℕ := data.all.countP yaffsObjectVisible

theorem countP_lt {α : Type} {l : List α} {p q : α → Bool} (h : ∀ x ∈ l, p x = true → q x = true)
    {a : α} (ha : a ∈ l) (hp : p a = false) (hq : q a = true) : l.countP p < l.countP q := by
  obtain ⟨front, back, rfl⟩ := List.append_of_mem ha
  have hfront : front.countP p ≤ front.countP q :=
    List.countP_mono_left fun x hx => h x (List.mem_append_left _ hx)
  have hback : back.countP p ≤ back.countP q :=
    List.countP_mono_left fun x hx => h x (List.mem_append_right _ (List.mem_cons_of_mem _ hx))
  simp only [List.countP_append, List.countP_cons, hp, hq, Bool.false_eq_true, if_false, if_true]
  omega

theorem yaffsVisibleCount_mark_le (data : YaffsData) (m : ℕ → Bool) :
    yaffsVisibleCount (data.mark m) ≤ yaffsVisibleCount data := by
  rw [yaffsVisibleCount, all_mark, List.countP_map]
  refine List.countP_mono_left fun o _ hvisible => ?_
  simp only [Function.comp_apply, yaffsObjectVisible, Bool.and_eq_true, Bool.not_eq_eq_eq_not,
    Bool.not_true, Bool.or_eq_false_iff] at hvisible ⊢
  exact ⟨⟨⟨hvisible.1.1.1, hvisible.1.1.2.1⟩, hvisible.1.2⟩, hvisible.2⟩

theorem yaffsVisibleCount_mark_lt (ho : data.findObject id = some o)
    (hvisible : yaffsObjectVisible o = true) :
    yaffsVisibleCount (data.mark fun i => i = id) < yaffsVisibleCount data := by
  rw [yaffsVisibleCount, all_mark, List.countP_map]
  refine countP_lt (fun o _ hvisible => ?_) (YaffsData.mem_all_of_find ho) ?_ hvisible
  · simp only [Function.comp_apply, yaffsObjectVisible, Bool.and_eq_true, Bool.not_eq_eq_eq_not,
      Bool.not_true, Bool.or_eq_false_iff] at hvisible ⊢
    exact ⟨⟨⟨hvisible.1.1.1, hvisible.1.1.2.1⟩, hvisible.1.2⟩, hvisible.2⟩
  · simp [yaffsObjectVisible, findObject_id ho]

/-! ### Passes over the table -/

theorem yaffsHiddenBelow_eq_true_iff : yaffsHiddenBelow data id = true ↔
    ∃ o p, data.findObject id = some o ∧ yaffsObjectVisible o = true ∧ o.id ≠ YAFFS_OBJECTID_ROOT
      ∧ data.findObject o.parent = some p ∧ p.valid = true ∧ (p.shadowed = true
        ∨ p.parent = YAFFS_OBJECTID_UNLINKED ∨ p.parent = YAFFS_OBJECTID_DELETED) := by
  rw [yaffsHiddenBelow]
  cases ho : data.findObject id with
  | none => simp
  | some o =>
    cases hp : data.findObject o.parent with
    | none =>
      simp only [Option.any_some, hp, Option.any_none, Bool.and_false, Bool.false_eq_true, false_iff]
      rintro ⟨_, p, heq, -, -, hparent, -⟩
      obtain rfl := Option.some.inj heq
      rw [hp] at hparent
      cases hparent
    | some p =>
      simp only [Option.any_some, hp, Bool.and_eq_true, decide_eq_true_eq, ne_eq,
        Bool.or_eq_true, or_assoc, and_assoc]
      constructor
      · exact fun h => ⟨o, p, rfl, h.1, h.2.1, hp, h.2.2⟩
      · rintro ⟨_, _, heq, hvisible, hroot, hparent, h⟩
        obtain rfl := Option.some.inj heq
        obtain rfl := Option.some.inj (hp.symm.trans hparent)
        exact ⟨hvisible, hroot, h⟩

/-- One round of a pass. -/
def yaffsHideRound (s : YaffsData × Bool) (id : ℕ) : YaffsData × Bool :=
  if yaffsHiddenBelow s.1 id then (yaffsShadow s.1 id, true) else s

theorem yaffsHidePass_eq (data : YaffsData) :
    yaffsHidePass data = data.ids.foldl yaffsHideRound (data, false) := rfl

theorem yaffsHidePasses_eq (n : ℕ) (data : YaffsData) :
    yaffsHidePasses n data = Forest.saturate yaffsHidePass n data := by
  induction n generalizing data with
  | zero => rfl
  | succ n ih => simp only [yaffsHidePasses, Forest.saturate, ih]

/-- A pass only hides objects, and fewer are visible after it changed one. -/
theorem yaffsHidePass_mark (h : YaffsTable data) : ∃ m, (yaffsHidePass data).1 = data.mark m
    ∧ ((yaffsHidePass data).2 = true →
      yaffsVisibleCount (yaffsHidePass data).1 < yaffsVisibleCount data) := by
  rw [yaffsHidePass_eq]
  refine List.foldlRecOn (motive := fun s : YaffsData × Bool => ∃ m, s.1 = data.mark m
    ∧ (s.2 = true → yaffsVisibleCount s.1 < yaffsVisibleCount data)) data.ids yaffsHideRound
      ⟨fun _ => false, (mark_false data).symm, (fun h => by cases h)⟩ ?_
  rintro ⟨d, changed⟩ ⟨m, rfl : d = data.mark m, hcount⟩ id -
  rw [yaffsHideRound]
  by_cases hbelow : yaffsHiddenBelow (data.mark m) id = true
  · obtain ⟨o, -, ho, hvisible, -⟩ := yaffsHiddenBelow_eq_true_iff.mp hbelow
    rw [if_pos hbelow, yaffsShadow_eq_mark (h.mark m)]
    refine ⟨fun i => m i || decide (i = id), mark_mark data m fun i => decide (i = id),
      fun _ => ?_⟩
    exact Nat.lt_of_lt_of_le (yaffsVisibleCount_mark_lt ho hvisible)
      (yaffsVisibleCount_mark_le data m)
  · rw [if_neg hbelow]
    exact ⟨m, rfl, hcount⟩

theorem yaffsHidePass_stable (h : (yaffsHidePass data).2 = false) :
    (yaffsHidePass data).1 = data ∧ ∀ id, yaffsHiddenBelow data id = false := by
  have hkeeps : ∀ (l : List ℕ) (d : YaffsData), (l.foldl yaffsHideRound (d, true)).2 = true := by
    intro l
    induction l with
    | nil => exact fun _ => rfl
    | cons id l ih =>
      intro d
      rw [List.foldl_cons, yaffsHideRound]
      split_ifs
      · exact ih _
      · exact ih d
  have hstable : ∀ l : List ℕ, (l.foldl yaffsHideRound (data, false)).2 = false →
      (l.foldl yaffsHideRound (data, false)).1 = data
        ∧ ∀ id ∈ l, yaffsHiddenBelow data id = false := by
    intro l
    induction l with
    | nil => exact fun _ => ⟨rfl, fun _ hid => by cases hid⟩
    | cons id l ih =>
      intro hfalse
      rw [List.foldl_cons, yaffsHideRound] at hfalse ⊢
      by_cases hbelow : yaffsHiddenBelow data id = true
      · rw [if_pos hbelow, hkeeps] at hfalse
        cases hfalse
      · rw [if_neg hbelow] at hfalse ⊢
        refine ⟨(ih hfalse).1, fun id' hid' => ?_⟩
        rcases List.mem_cons.mp hid' with rfl | hid'
        · simpa using hbelow
        · exact (ih hfalse).2 id' hid'
  obtain ⟨hsame, hids⟩ := hstable data.ids h
  refine ⟨hsame, fun id => ?_⟩
  cases hbelow : yaffsHiddenBelow data id with
  | false => rfl
  | true =>
    obtain ⟨o, -, ho, -⟩ := yaffsHiddenBelow_eq_true_iff.mp hbelow
    rw [← hbelow]
    exact hids id (YaffsData.mem_ids_of_find ho)

theorem YaffsTable.hidePass (h : YaffsTable data) : YaffsTable (yaffsHidePass data).1 := by
  obtain ⟨m, hm, -⟩ := yaffsHidePass_mark h
  rw [hm]
  exact h.mark m

theorem yaffsVisibleCount_le (h : YaffsTable data) : yaffsVisibleCount data ≤ data.objectCount := by
  rw [h.count]
  exact List.countP_le_length

/-- After as many passes as there are objects, no visible object is below a hidden one. -/
theorem yaffsHidePasses_settled (h : YaffsTable data) (id : ℕ) :
    yaffsHiddenBelow (yaffsHidePasses data.objectCount data) id = false := by
  have hstable := @Forest.saturate_stable _ yaffsHidePass YaffsTable yaffsVisibleCount
    (fun _ hs => hs.hidePass) (fun _ hs => (yaffsHidePass_mark hs).choose_spec.2)
    (fun _ hs => (yaffsHidePass_stable hs).1) _ _ h (yaffsVisibleCount_le h)
  rw [yaffsHidePasses_eq]
  exact (yaffsHidePass_stable hstable).2 id

theorem yaffsHidePasses_eq_of_le (h : YaffsTable data) {n : ℕ} (hn : data.objectCount ≤ n) :
    yaffsHidePasses n data = yaffsHidePasses data.objectCount data := by
  rw [yaffsHidePasses_eq, yaffsHidePasses_eq]
  exact @Forest.saturate_eq _ yaffsHidePass YaffsTable yaffsVisibleCount
    (fun _ hs => hs.hidePass) (fun _ hs => (yaffsHidePass_mark hs).choose_spec.2)
    (fun _ hs => (yaffsHidePass_stable hs).1) _ _ _ h (yaffsVisibleCount_le h) hn

end FsRover
