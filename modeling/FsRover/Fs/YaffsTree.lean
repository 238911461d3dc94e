import FsRover.Fs.Fshelp
import FsRover.Fs.YaffsTable

/-!
# The tree of a YAFFS image

Parents are ids from the image. Headers may hide other objects, and what is below a hidden
directory is hidden too. An image is accepted only where everything else reaches the root.

## Main definitions

* `FsRover.YaffsReaches` : a way to the root through visible directories.
* `FsRover.YaffsHidden` : what hides an object.
* `FsRover.YaffsTreeExact` : what holds of an image that is accepted.

## Main results

* `FsRover.yaffs_tree_exact` : it holds of every such image.
-/

namespace FsRover

open Guards

/-! ### Links and directories -/

/-- The loop of `yaffs_resolve_hardlink`, with the rounds that are left. -/
def yaffsFollowLinks (data : YaffsData) : ℕ → YaffsObject → Option YaffsObject
  | 0, _ => none
  | n + 1, o =>
    if o.type = YAFFS_TYPE_HARDLINK then
      match data.findObject o.equivalent with
      | none => none
      | some target => yaffsFollowLinks data n target
    else if yaffsObjectVisible o then some o
    else none

/-- `yaffs_resolve_hardlink`. -/
def yaffsResolveHardlink (data : YaffsData) (o : YaffsObject) : Option YaffsObject :=
  yaffsFollowLinks data (data.objectCount + 1) o

/-- `yaffs_filetype`. -/
def yaffsFiletype (data : YaffsData) (o : YaffsObject) : FshelpType :=
  if o.type = YAFFS_TYPE_SYMLINK then .symlink
  else if (yaffsResolveHardlink data o).any (·.type = YAFFS_TYPE_DIRECTORY) then .dir
  else .reg

/-- `yaffs_iterate_directory`: what the hook is given until it stops. -/
def yaffsIterateDirectory (data : YaffsData) (directory : YaffsObject) :
    List (FshelpItem YaffsObject) :=
  if directory.type ≠ YAFFS_TYPE_DIRECTORY then []
  else
    (data.all.filter fun o => yaffsObjectVisible o && o.id ≠ YAFFS_OBJECTID_ROOT
      && o.parent = directory.id).map fun o => ⟨o.name, yaffsFiletype data o, false, o⟩

/-- Listing a directory and what is below it, down to `n` levels. -/
def yaffsListTree (data : YaffsData) : ℕ → YaffsObject → List YaffsObject
  | 0, _ => []
  | n + 1, directory => (yaffsIterateDirectory data directory).flatMap fun item =>
      item.node :: yaffsListTree data n item.node

/-- The objects that a user should find below the root. -/
def YaffsData.visible (data : YaffsData) : List YaffsObject :=
  data.all.filter fun o => yaffsObjectVisible o && o.id ≠ YAFFS_OBJECTID_ROOT

/-- Parent steps lead to the root, through visible directories. -/
inductive YaffsReaches (data : YaffsData) : YaffsObject → Prop
  | root {o : YaffsObject} (h : o.id = YAFFS_OBJECTID_ROOT) : YaffsReaches data o
  | step {o p : YaffsObject} (hp : data.findObject o.parent = some p)
      (hvisible : yaffsObjectVisible p = true) (htype : p.type = YAFFS_TYPE_DIRECTORY)
      (h : YaffsReaches data p) : YaffsReaches data o

/-- A valid header names the object, which the scan found or which is the root. -/
def YaffsShadowed (scanned data : YaffsData) (id : ℕ) : Prop :=
  (id = YAFFS_OBJECTID_ROOT ∨ (scanned.findObject id).isSome = true)
    ∧ ∃ s, data.findObject s.id = some s ∧ s.valid = true ∧ s.shadows = id

/-- An object is hidden if it is shadowed, in the unlinked or deleted directory, or below a hidden
one. -/
inductive YaffsHidden (scanned data : YaffsData) : ℕ → Prop
  | shadowed {id : ℕ} (h : YaffsShadowed scanned data id) : YaffsHidden scanned data id
  | unlinked {id : ℕ} {o : YaffsObject} (ho : data.findObject id = some o)
      (hparent : o.parent = YAFFS_OBJECTID_UNLINKED ∨ o.parent = YAFFS_OBJECTID_DELETED) :
      YaffsHidden scanned data id
  | under {id : ℕ} {o : YaffsObject} (ho : data.findObject id = some o)
      (hroot : id ≠ YAFFS_OBJECTID_ROOT) (h : YaffsHidden scanned data o.parent) :
      YaffsHidden scanned data id

/-! ### The table before the passes -/

/-- The table with a root. -/
def yaffsRooted (scanned : YaffsData) : YaffsData :=
  yaffsMakeSynthetic scanned YAFFS_OBJECTID_ROOT YAFFS_OBJECTID_ROOT YAFFS_TYPE_DIRECTORY []

/-- Whether an object is in the directory of lost files. -/
def yaffsNeedsLostFound (data : YaffsData) : Bool :=
  data.ids.any fun id => (data.findObject id).any fun o =>
    o.valid && o.parent = YAFFS_OBJECTID_LOSTNFOUND

/-- Whether the header of `s` is valid and shadows the object. -/
def yaffsShadows (s : YaffsObject) (id : ℕ) : Bool :=
  s.valid && s.shadows ≠ 0 && s.shadows ≤ YAFFS_OBJECT_MAX && id = s.shadows

/-- Whether a valid header shadows the object. -/
def yaffsNamed (data : YaffsData) (id : ℕ) : Bool :=
  data.ids.any fun k => (data.findObject k).any (yaffsShadows · id)

/-- What `yaffs_validate_tree` makes of the table before its passes. -/
def yaffsLinked (scanned : YaffsData) : YaffsData :=
  let data := yaffsRooted scanned
  let marked := data.mark (yaffsNamed data)
  if yaffsNeedsLostFound data then
    yaffsMakeSynthetic marked YAFFS_OBJECTID_LOSTNFOUND YAFFS_OBJECTID_ROOT YAFFS_TYPE_DIRECTORY
      [0x6c, 0x6f, 0x73, 0x74, 0x2b, 0x66, 0x6f, 0x75, 0x6e, 0x64]
  else marked

variable {scanned data : YaffsData} {o p : YaffsObject} {id : ℕ} {m : ℕ → Bool}

/-- The object that `yaffs_make_synthetic` leaves. -/
def yaffsSynthetic (parent type : ℕ) (name : List UInt8) (o : YaffsObject) : YaffsObject :=
  if o.valid then o
  else
    { o with
      name, parent, type, valid := true, synthetic := true
      mode := if type = YAFFS_TYPE_DIRECTORY then 0o40755 else 0o100644 }

theorem yaffsSynthetic_id (parent type : ℕ) (name : List UInt8) (o : YaffsObject) :
    (yaffsSynthetic parent type name o).id = o.id := by
  rw [yaffsSynthetic]
  split_ifs <;> rfl

theorem yaffsSynthetic_shadows (parent type : ℕ) (name : List UInt8) (o : YaffsObject) :
    (yaffsSynthetic parent type name o).shadows = o.shadows
      ∧ (yaffsSynthetic parent type name o).shadowed = o.shadowed := by
  rw [yaffsSynthetic]
  split_ifs <;> exact ⟨rfl, rfl⟩

theorem yaffsMakeSynthetic_eq (data : YaffsData) (id parent type : ℕ) (name : List UInt8) :
    yaffsMakeSynthetic data id parent type name
      = (data.getObject id).modifyObject id (yaffsSynthetic parent type name) := rfl

theorem findObject_makeSynthetic (data : YaffsData) (id parent type : ℕ) (name : List UInt8)
    (id' : ℕ) : (yaffsMakeSynthetic data id parent type name).findObject id'
      = if id' = id then some (yaffsSynthetic parent type name (data.objectAt id'))
        else data.findObject id' := by
  rw [yaffsMakeSynthetic_eq, findObject_modifyObject (yaffsSynthetic_id parent type name),
    findObject_getObject]
  split_ifs <;> rfl

theorem YaffsTable.makeSynthetic (h : YaffsTable data) (id parent type : ℕ) (name : List UInt8) :
    YaffsTable (yaffsMakeSynthetic data id parent type name) := by
  rw [yaffsMakeSynthetic_eq]
  exact (h.getObject id).modifyObject (yaffsSynthetic_id parent type name) id

/-- One round of the first loop of `yaffs_validate_tree`. -/
theorem yaffsApplyShadow_mark (h : YaffsTable data) (m : ℕ → Bool) (k : ℕ) :
    yaffsApplyShadow (data.mark m) k
      = data.mark fun id => m id || (data.findObject k).any (yaffsShadows · id) := by
  rw [yaffsApplyShadow, findObject_mark]
  cases hk : data.findObject k with
  | none => simp
  | some s =>
    simp only [Option.map_some, Option.any_some]
    by_cases hs : s.valid = true ∧ s.shadows ≠ 0 ∧ s.shadows ≤ YAFFS_OBJECT_MAX
    · rw [if_pos hs, yaffsShadow_eq_mark (h.mark m), mark_mark]
      have hshadows : ∀ id, yaffsShadows s id = decide (id = s.shadows) := fun id => by
        simp [yaffsShadows, hs]
      simp only [hshadows]
    · rw [if_neg hs]
      have hshadows : ∀ id, yaffsShadows s id = false := by
        intro id
        rw [Bool.eq_false_iff]
        intro htrue
        simp only [yaffsShadows, Bool.and_eq_true, decide_eq_true_eq] at htrue
        exact hs ⟨htrue.1.1.1, htrue.1.1.2, htrue.1.2⟩
      simp only [hshadows, Bool.or_false]

theorem foldl_yaffsApplyShadow (h : YaffsTable data) :
    data.ids.foldl yaffsApplyShadow data = data.mark (yaffsNamed data) := by
  have hfold : ∀ (l : List ℕ) (m : ℕ → Bool), l.foldl yaffsApplyShadow (data.mark m)
      = data.mark fun id => m id || l.any fun k => (data.findObject k).any (yaffsShadows · id) := by
    intro l
    induction l with
    | nil => simp
    | cons k l ih =>
      intro m
      rw [List.foldl_cons, yaffsApplyShadow_mark h, ih]
      simp only [List.any_cons, Bool.or_assoc]
  have hall := hfold data.ids fun _ => false
  rw [mark_false] at hall
  exact hall

/-- `yaffs_validate_tree` in its parts. -/
theorem yaffsValidateTree_eq_ok_iff (h : YaffsTable scanned) :
    yaffsValidateTree scanned = .ok data ↔
      (∃ root, (yaffsRooted scanned).findObject YAFFS_OBJECTID_ROOT = some root
        ∧ root.type = YAFFS_TYPE_DIRECTORY)
      ∧ data = yaffsHidePasses (yaffsLinked scanned).objectCount (yaffsLinked scanned)
      ∧ ∀ id ∈ data.ids, yaffsCheckParents data id = .ok () := by
  have hforM : ∀ (l : List ℕ) (d : YaffsData), l.forM (yaffsCheckParents d) = .ok ()
      ↔ ∀ id ∈ l, yaffsCheckParents d id = .ok () := by
    intro l d
    induction l with
    | nil => exact ⟨fun _ _ h => (by cases h), fun _ => rfl⟩
    | cons k l ih =>
      rw [List.forM_eq_forM, List.forM_cons, bind_eq_ok_iff, List.forall_mem_cons, ← ih]
      exact ⟨fun ⟨_, hk, hl⟩ => ⟨hk, hl⟩, fun ⟨hk, hl⟩ => ⟨(), hk, hl⟩⟩
  have hroot : ((yaffsRooted scanned).findObject YAFFS_OBJECTID_ROOT).all
      (·.type ≠ YAFFS_TYPE_DIRECTORY) = true ↔ ¬ ∃ root,
        (yaffsRooted scanned).findObject YAFFS_OBJECTID_ROOT = some root
          ∧ root.type = YAFFS_TYPE_DIRECTORY := by
    cases (yaffsRooted scanned).findObject YAFFS_OBJECTID_ROOT <;> simp
  have hrooted : YaffsTable (yaffsRooted scanned) := h.makeSynthetic _ _ _ _
  rw [yaffsValidateTree, refuseIf_bind_eq_ok_iff]
  simp only [← yaffsRooted.eq_1, foldl_yaffsApplyShadow hrooted, hroot, not_not]
  refine and_congr_right fun _ => ?_
  rw [bind_eq_ok_iff]
  constructor
  · rintro ⟨_, hcheck, hdata⟩
    obtain rfl := Except.ok.inj hdata
    exact ⟨rfl, (hforM _ _).mp hcheck⟩
  · rintro ⟨rfl, hcheck⟩
    exact ⟨(), (hforM _ _).mpr hcheck, rfl⟩

/-! ### What the passes start from -/

theorem YaffsFresh.synthetic {parent type : ℕ} {name : List UInt8} (h : YaffsFresh o) :
    YaffsFresh (yaffsSynthetic parent type name o) := by
  obtain ⟨hshadows, hshadowed⟩ := yaffsSynthetic_shadows parent type name o
  refine ⟨by rw [yaffsSynthetic_id]; exact h.id, hshadowed.trans h.shadowed, fun hvalid => ?_⟩
  rw [yaffsSynthetic] at hvalid
  by_cases ho : o.valid = true
  · rw [if_pos ho, ho] at hvalid
    cases hvalid
  · rw [if_neg ho] at hvalid
    cases hvalid

theorem isSome_yaffsRooted : ((yaffsRooted scanned).findObject id).isSome = true
    ↔ id = YAFFS_OBJECTID_ROOT ∨ (scanned.findObject id).isSome = true := by
  rw [yaffsRooted, findObject_makeSynthetic]
  by_cases hroot : id = YAFFS_OBJECTID_ROOT
  · simp [hroot]
  · simp [hroot]

theorem YaffsScanned.rooted (h : YaffsScanned scanned) : YaffsScanned (yaffsRooted scanned) := by
  refine ⟨h.table.makeSynthetic _ _ _ _, fun id o ho => ?_⟩
  rw [yaffsRooted, findObject_makeSynthetic] at ho
  by_cases hroot : id = YAFFS_OBJECTID_ROOT
  · rw [if_pos hroot] at ho
    obtain rfl := Option.some.inj ho
    refine YaffsFresh.synthetic ?_
    rw [YaffsData.objectAt]
    cases hfind : scanned.findObject id with
    | none => exact ⟨by rw [hroot]; decide, rfl, fun _ => rfl⟩
    | some o => exact h.fresh id o hfind
  · rw [if_neg hroot] at ho
    exact h.fresh id o ho

/-- An object is what the scan left, marked, or the directory of lost files made of that. -/
theorem findObject_yaffsLinked (scanned : YaffsData) (id : ℕ) :
    (yaffsLinked scanned).findObject id
        = ((yaffsRooted scanned).mark (yaffsNamed (yaffsRooted scanned))).findObject id
      ∨ ∃ parent type name, (yaffsLinked scanned).findObject id = some (yaffsSynthetic parent type name
        (((yaffsRooted scanned).mark (yaffsNamed (yaffsRooted scanned))).objectAt id)) := by
  simp only [yaffsLinked]
  split_ifs
  · rw [findObject_makeSynthetic]
    split_ifs
    · exact .inr ⟨_, _, _, rfl⟩
    · exact .inl rfl
  · exact .inl rfl

theorem YaffsScanned.linked (h : YaffsScanned scanned) : YaffsTable (yaffsLinked scanned) := by
  simp only [yaffsLinked]
  split_ifs
  · exact (h.rooted.table.mark _).makeSynthetic _ _ _ _
  · exact h.rooted.table.mark _

theorem yaffsLinked_shadowed (h : YaffsScanned scanned)
    (ho : (yaffsLinked scanned).findObject id = some o) : o.shadowed = true ↔
      ((yaffsRooted scanned).findObject id).isSome = true
        ∧ yaffsNamed (yaffsRooted scanned) id = true := by
  have hmarked : ∀ o, ((yaffsRooted scanned).mark (yaffsNamed (yaffsRooted scanned))).findObject id
      = some o → (o.shadowed = true ↔ ((yaffsRooted scanned).findObject id).isSome = true
        ∧ yaffsNamed (yaffsRooted scanned) id = true) := by
    intro o ho
    rw [findObject_mark] at ho
    obtain ⟨r, hr, rfl⟩ := Option.map_eq_some_iff.mp ho
    simp [hr, (h.rooted.fresh id r hr).shadowed, findObject_id hr]
  rcases findObject_yaffsLinked scanned id with hfind | ⟨parent, type, name, hfind⟩
  · exact hmarked o (hfind ▸ ho)
  · obtain rfl := Option.some.inj (hfind.symm.trans ho)
    rw [(yaffsSynthetic_shadows parent type name _).2, YaffsData.objectAt]
    cases hr : ((yaffsRooted scanned).mark (yaffsNamed (yaffsRooted scanned))).findObject id with
    | some r => exact hmarked r hr
    | none =>
      have hnone : (yaffsRooted scanned).findObject id = none := by
        rw [findObject_mark] at hr
        exact Option.map_eq_none_iff.mp hr
      simp [hnone]

/-- A header that shadows something is one that the scan found. -/
theorem yaffsLinked_shadows (h : YaffsScanned scanned) {k : ℕ} (hid : id ≠ 0) :
    (∃ s, (yaffsLinked scanned).findObject k = some s ∧ s.valid = true ∧ s.shadows = id)
      ↔ ∃ s, (yaffsRooted scanned).findObject k = some s ∧ s.valid = true ∧ s.shadows = id := by
  have hmarked : (∃ s, ((yaffsRooted scanned).mark (yaffsNamed (yaffsRooted scanned))).findObject k
      = some s ∧ s.valid = true ∧ s.shadows = id)
      ↔ ∃ s, (yaffsRooted scanned).findObject k = some s ∧ s.valid = true ∧ s.shadows = id := by
    rw [findObject_mark]
    cases (yaffsRooted scanned).findObject k <;> simp
  rcases findObject_yaffsLinked scanned k with hfind | ⟨parent, type, name, hfind⟩
  · rw [hfind]
    exact hmarked
  rw [hfind]
  constructor
  · rintro ⟨s, hs, -, hshadows⟩
    obtain rfl := Option.some.inj hs
    rw [(yaffsSynthetic_shadows parent type name _).1, YaffsData.objectAt, findObject_mark]
      at hshadows
    cases hr : (yaffsRooted scanned).findObject k with
    | none =>
      rw [hr] at hshadows
      exact absurd hshadows.symm hid
    | some r =>
      rw [hr] at hshadows
      have hr' : r.shadows = id := hshadows
      refine ⟨r, rfl, ?_, hr'⟩
      cases hvalid : r.valid with
      | true => rfl
      | false => exact absurd ((h.rooted.fresh k r hr).shadows hvalid) (hr' ▸ hid)
  · rintro ⟨r, hr, hvalid, hshadows⟩
    refine ⟨_, rfl, ?_, ?_⟩
    · rw [YaffsData.objectAt, findObject_mark, hr]
      simp [yaffsSynthetic, hvalid]
    · rw [(yaffsSynthetic_shadows parent type name _).1, YaffsData.objectAt, findObject_mark, hr]
      exact hshadows

theorem yaffsNamed_iff (hid : id ≠ 0 ∧ id ≤ YAFFS_OBJECT_MAX) : yaffsNamed data id = true ↔
    ∃ k s, data.findObject k = some s ∧ s.valid = true ∧ s.shadows = id := by
  simp only [yaffsNamed, List.any_eq_true, Option.any_eq_true, yaffsShadows, Bool.and_eq_true,
    decide_eq_true_eq]
  constructor
  · rintro ⟨k, -, s, hs, ⟨⟨hvalid, -⟩, -⟩, hshadows⟩
    exact ⟨k, s, hs, hvalid, hshadows.symm⟩
  · rintro ⟨k, s, hs, hvalid, rfl⟩
    exact ⟨k, YaffsData.mem_ids_of_find hs, s, hs, ⟨⟨hvalid, hid.1⟩, hid.2⟩, rfl⟩

/-- Before the passes the marked objects are the shadowed ones. -/
theorem yaffsLinked_shadowed_iff (h : YaffsScanned scanned)
    (ho : (yaffsLinked scanned).findObject id = some o) :
    o.shadowed = true ↔ YaffsShadowed scanned (yaffsLinked scanned) id := by
  rw [yaffsLinked_shadowed h ho, YaffsShadowed, ← isSome_yaffsRooted]
  refine and_congr_right fun hknown => ?_
  obtain ⟨r, hr⟩ := Option.isSome_iff_exists.mp hknown
  have hid := (h.rooted.fresh id r hr).id
  rw [findObject_id hr] at hid
  rw [yaffsNamed_iff ⟨Nat.ne_of_gt hid.1, hid.2⟩]
  simp only [← yaffsLinked_shadows h (Nat.ne_of_gt hid.1)]
  constructor
  · rintro ⟨k, s, hs, h⟩
    exact ⟨s, by rwa [findObject_id hs], h⟩
  · rintro ⟨s, hs, h⟩
    exact ⟨s.id, s, hs, h⟩

/-! ### The passes -/

theorem yaffsShadowed_mark : YaffsShadowed scanned (data.mark m) id
    ↔ YaffsShadowed scanned data id := by
  refine and_congr_right fun _ => ?_
  constructor
  · rintro ⟨s, hs, hvalid, hshadows⟩
    rw [findObject_mark] at hs
    obtain ⟨r, hr, rfl⟩ := Option.map_eq_some_iff.mp hs
    exact ⟨r, hr, hvalid, hshadows⟩
  · rintro ⟨s, hs, hvalid, hshadows⟩
    exact ⟨_, findObject_mark_of_some m hs, hvalid, hshadows⟩

theorem yaffsHidden_mark : YaffsHidden scanned (data.mark m) id ↔ YaffsHidden scanned data id := by
  constructor
  · intro h
    induction h with
    | shadowed h => exact .shadowed (yaffsShadowed_mark.mp h)
    | unlinked ho hparent =>
      rw [findObject_mark] at ho
      obtain ⟨r, hr, rfl⟩ := Option.map_eq_some_iff.mp ho
      exact .unlinked hr hparent
    | under ho hroot _ ih =>
      rw [findObject_mark] at ho
      obtain ⟨r, hr, rfl⟩ := Option.map_eq_some_iff.mp ho
      exact .under hr hroot ih
  · intro h
    induction h with
    | shadowed h => exact .shadowed (yaffsShadowed_mark.mpr h)
    | unlinked ho hparent =>
      exact .unlinked (findObject_mark_of_some m ho) hparent
    | under ho hroot _ ih =>
      exact .under (findObject_mark_of_some m ho) hroot ih

/-- The objects that are marked are hidden ones. -/
structure YaffsSound (scanned linked data : YaffsData) : Prop where
  marks : ∃ m, data = linked.mark m
  sound : ∀ id o, data.findObject id = some o → o.shadowed = true → YaffsHidden scanned linked id

theorem YaffsSound.hideRound {linked : YaffsData} (htable : YaffsTable linked) {changed : Bool}
    (h : YaffsSound scanned linked data) (id : ℕ) :
    YaffsSound scanned linked (yaffsHideRound (data, changed) id).1 := by
  rw [yaffsHideRound]
  by_cases hbelow : yaffsHiddenBelow data id = true
  · obtain ⟨m, rfl⟩ := h.marks
    obtain ⟨o, p, ho, hvisible, hroot, hp, hvalid, hparent⟩ :=
      yaffsHiddenBelow_eq_true_iff.mp hbelow
    have hup : YaffsHidden scanned linked o.parent := by
      rcases hparent with hshadowed | hparent
      · exact h.sound _ p hp hshadowed
      · exact yaffsHidden_mark.mp (.unlinked hp hparent)
    have hid : YaffsHidden scanned linked id :=
      yaffsHidden_mark.mp (.under ho (findObject_id ho ▸ hroot) (yaffsHidden_mark.mpr hup))
    simp only [if_pos hbelow, yaffsShadow_eq_mark (htable.mark m)]
    refine ⟨⟨_, mark_mark linked m _⟩, fun id' o' ho' hshadowed => ?_⟩
    rw [findObject_mark] at ho'
    obtain ⟨r, hr, rfl⟩ := Option.map_eq_some_iff.mp ho'
    by_cases heq : id' = id
    · exact heq ▸ hid
    · refine h.sound id' r hr ?_
      simpa [findObject_id hr, heq] using hshadowed
  · rw [if_neg hbelow]
    exact h

theorem YaffsSound.hidePass {linked : YaffsData} (htable : YaffsTable linked)
    (h : YaffsSound scanned linked data) : YaffsSound scanned linked (yaffsHidePass data).1 := by
  rw [yaffsHidePass_eq]
  exact List.foldlRecOn (motive := fun s : YaffsData × Bool => YaffsSound scanned linked s.1)
    data.ids yaffsHideRound h fun s hs id _ => hs.hideRound htable id

theorem YaffsSound.hidePasses {linked : YaffsData} (htable : YaffsTable linked) (n : ℕ)
    (h : YaffsSound scanned linked data) : YaffsSound scanned linked (yaffsHidePasses n data) := by
  induction n generalizing data with
  | zero => exact h
  | succ n ih =>
    simp only [yaffsHidePasses]
    split_ifs
    · exact ih (h.hidePass htable)
    · exact h.hidePass htable

/-- After the passes the marked objects are hidden, and what the headers shadow is marked. -/
theorem YaffsScanned.sound (h : YaffsScanned scanned) (n : ℕ) :
    YaffsSound scanned (yaffsLinked scanned) (yaffsHidePasses n (yaffsLinked scanned)) :=
  YaffsSound.hidePasses h.linked n ⟨⟨fun _ => false, (mark_false _).symm⟩, fun _ _ ho hshadowed =>
    .shadowed ((yaffsLinked_shadowed_iff h ho).mp hshadowed)⟩

/-! ### The walk up -/

/-- The parent that an object names. -/
def YaffsData.parentId (data : YaffsData) (id : ℕ) : ℕ := (data.objectAt id).parent

theorem parentId_of_find (ho : data.findObject id = some o) : data.parentId id = o.parent := by
  rw [YaffsData.parentId, YaffsData.objectAt, ho, Option.getD_some]

theorem yaffsWalkUp_reaches {n : ℕ} (ho : data.findObject id = some o)
    (h : yaffsWalkUp data n o = some true) :
    YaffsReaches data o ∧ ∃ k < n, data.parentId^[k] id = YAFFS_OBJECTID_ROOT := by
  induction n generalizing o id with
  | zero => cases h
  | succ n ih =>
    rw [yaffsWalkUp] at h
    by_cases hroot : o.id = YAFFS_OBJECTID_ROOT
    · exact ⟨.root hroot, 0, Nat.zero_lt_succ n, (findObject_id ho).symm.trans hroot⟩
    rw [if_neg hroot] at h
    cases hp : data.findObject o.parent with
    | none =>
      rw [hp] at h
      cases h
    | some p =>
      simp only [hp] at h
      split_ifs at h with hbad
      simp only [not_or, Bool.not_eq_false, not_not] at hbad
      obtain ⟨hreach, k, hk, hiterate⟩ := ih hp h
      refine ⟨.step hp hbad.1 hbad.2 hreach, k + 1, Nat.succ_lt_succ hk, ?_⟩
      rwa [Function.iterate_succ_apply, parentId_of_find ho]

/-- What the last loop of `yaffs_validate_tree` has seen of a visible object. -/
structure YaffsChecked (data : YaffsData) (o : YaffsObject) : Prop where
  reaches : YaffsReaches data o
  steps : ∃ k ≤ data.objectCount, data.parentId^[k] o.id = YAFFS_OBJECTID_ROOT
  parent : o.id ≠ YAFFS_OBJECTID_ROOT → ∃ p, data.findObject o.parent = some p
    ∧ yaffsObjectVisible p = true ∧ p.type = YAFFS_TYPE_DIRECTORY

theorem yaffsCheckParents_checked (ho : data.findObject id = some o)
    (hvisible : yaffsObjectVisible o = true) (h : yaffsCheckParents data id = .ok ()) :
    YaffsChecked data o := by
  have hid := findObject_id ho
  by_cases hroot : o.id = YAFFS_OBJECTID_ROOT
  · exact ⟨.root hroot, ⟨0, Nat.zero_le _, hroot⟩, fun hne => absurd hroot hne⟩
  rw [yaffsCheckParents, ho] at h
  simp only [hvisible, Bool.true_eq_false, hroot, or_self, if_false] at h
  split at h
  · cases h
  · cases h
  · rename_i hwalk
    obtain ⟨hreach, k, hk, hiterate⟩ := yaffsWalkUp_reaches ho hwalk
    refine ⟨hreach, ⟨k, Nat.le_of_lt_succ hk, by rwa [hid]⟩, fun _ => ?_⟩
    cases hreach with
    | root h => exact absurd h hroot
    | step hp hvisible htype _ => exact ⟨_, hp, hvisible, htype⟩

/-! ### Listings -/

theorem mem_yaffsIterateDirectory {item : FshelpItem YaffsObject} {directory : YaffsObject} :
    item ∈ yaffsIterateDirectory data directory → item.node ∈ data.visible
      ∧ item.node.parent = directory.id := by
  rw [yaffsIterateDirectory]
  split_ifs
  · exact fun h => by cases h
  · intro h
    obtain ⟨o, ho, rfl⟩ := List.mem_map.mp h
    obtain ⟨hall, hcond⟩ := List.mem_filter.mp ho
    simp only [Bool.and_eq_true, decide_eq_true_eq] at hcond
    exact ⟨List.mem_filter.mpr ⟨hall, by simpa using hcond.1⟩, hcond.2⟩

/-- The ids that a listing of the directory with this id shows. -/
def yaffsKids (data : YaffsData) (id : ℕ) : List ℕ :=
  match data.findObject id with
  | none => []
  | some o => (yaffsIterateDirectory data o).map (·.node.id)

theorem yaffsListTree_ids (h : YaffsTable data) (n : ℕ) {directory : YaffsObject}
    (hdirectory : data.findObject directory.id = some directory) :
    (yaffsListTree data n directory).map (·.id)
      = Forest.below (yaffsKids data) n directory.id := by
  induction n generalizing directory with
  | zero => rfl
  | succ n ih =>
    rw [yaffsListTree, Forest.below, yaffsKids, hdirectory, List.map_flatMap, List.flatMap_map]
    refine List.flatMap_congr fun item hitem => ?_
    obtain ⟨hnode, -⟩ := mem_yaffsIterateDirectory hitem
    rw [List.map_cons, ih (h.find (List.mem_of_mem_filter hnode))]

/-- A tree whose visible objects have all been checked. -/
structure YaffsTreeChecked (data : YaffsData) : Prop where
  table : YaffsTable data
  checked : ∀ o ∈ data.all, yaffsObjectVisible o = true → YaffsChecked data o

theorem mem_visible_iff : o ∈ data.visible
    ↔ o ∈ data.all ∧ yaffsObjectVisible o = true ∧ o.id ≠ YAFFS_OBJECTID_ROOT := by
  simp [YaffsData.visible]

theorem YaffsTreeChecked.rooted (h : YaffsTreeChecked data) : Forest.Rooted (yaffsKids data)
    data.parentId (data.visible.map (·.id)) YAFFS_OBJECTID_ROOT data.objectCount := by
  have hnode : ∀ id, id ∈ data.visible.map (·.id) ↔ ∃ o, data.findObject id = some o
      ∧ yaffsObjectVisible o = true ∧ id ≠ YAFFS_OBJECTID_ROOT := by
    intro id
    rw [List.mem_map]
    constructor
    · rintro ⟨o, ho, rfl⟩
      obtain ⟨hall, hvisible, hroot⟩ := mem_visible_iff.mp ho
      exact ⟨o, h.table.find hall, hvisible, hroot⟩
    · rintro ⟨o, ho, hvisible, hroot⟩
      have hid := findObject_id ho
      exact ⟨o, mem_visible_iff.mpr ⟨YaffsData.mem_all_of_find ho, hvisible, hid ▸ hroot⟩, hid⟩
  refine ⟨?_, ?_, fun a => ?_, fun a b => ?_, fun b hb => ?_, fun b hb => ?_⟩
  · exact h.table.ids_nodup.sublist (List.filter_sublist.map _)
  · intro hmem
    obtain ⟨o, -, -, hroot⟩ := (hnode _).mp hmem
    exact hroot rfl
  · rw [yaffsKids]
    split
    · exact List.nodup_nil
    · rw [yaffsIterateDirectory]
      split_ifs
      · exact List.nodup_nil
      · rw [List.map_map]
        exact h.table.ids_nodup.sublist (List.filter_sublist.map _)
  · rw [hnode]
    constructor
    · intro hb
      rw [yaffsKids] at hb
      cases ha : data.findObject a with
      | none =>
        rw [ha] at hb
        cases hb
      | some directory =>
        simp only [ha] at hb
        obtain ⟨item, hitem, rfl⟩ := List.mem_map.mp hb
        obtain ⟨hvisible, hparent⟩ := mem_yaffsIterateDirectory hitem
        obtain ⟨hall, hvisible, hroot⟩ := mem_visible_iff.mp hvisible
        have hfind := h.table.find hall
        refine ⟨⟨item.node, hfind, hvisible, hroot⟩, ?_⟩
        rw [parentId_of_find hfind, hparent, findObject_id ha]
    · rintro ⟨⟨o, ho, hvisible, hroot⟩, rfl⟩
      have hid := findObject_id ho
      have hall := YaffsData.mem_all_of_find ho
      obtain ⟨p, hp, -, htype⟩ := (h.checked o hall hvisible).parent (hid ▸ hroot)
      rw [parentId_of_find ho, yaffsKids, hp]
      simp only [yaffsIterateDirectory, htype, ne_eq, not_true_eq_false, if_false, List.map_map]
      refine List.mem_map.mpr ⟨o, List.mem_filter.mpr ⟨hall, ?_⟩, hid⟩
      simp [hvisible, hid, hroot, findObject_id hp]
  · obtain ⟨o, ho, hvisible, hroot⟩ := (hnode b).mp hb
    have hid := findObject_id ho
    obtain ⟨p, hp, hpvisible, -⟩ :=
      (h.checked o (YaffsData.mem_all_of_find ho) hvisible).parent (hid ▸ hroot)
    rw [parentId_of_find ho, hnode]
    by_cases hup : o.parent = YAFFS_OBJECTID_ROOT
    · exact .inl hup
    · exact .inr ⟨p, hp, hpvisible, hup⟩
  · obtain ⟨o, ho, hvisible, -⟩ := (hnode b).mp hb
    obtain ⟨k, hk, hsteps⟩ := (h.checked o (YaffsData.mem_all_of_find ho) hvisible).steps
    exact ⟨k, hk, findObject_id ho ▸ hsteps⟩

/-- Listing again and again from the root shows every visible object once. -/
theorem YaffsTreeChecked.listTree_perm (h : YaffsTreeChecked data) {root : YaffsObject}
    (hroot : data.findObject YAFFS_OBJECTID_ROOT = some root) {n : ℕ} (hn : data.objectCount ≤ n) :
    (yaffsListTree data n root).Perm data.visible := by
  have hid := findObject_id hroot
  have hperm := h.rooted.below_perm hn
  rw [← hid, ← yaffsListTree_ids h.table n (by rwa [hid])] at hperm
  -- an object is what the table has under its id
  have hback : ∀ l : List YaffsObject, (∀ o ∈ l, o ∈ data.all) →
      (l.map (·.id)).filterMap data.findObject = l := by
    intro l hl
    rw [List.filterMap_map]
    conv_rhs => rw [← List.filterMap_some (l := l)]
    exact List.filterMap_congr fun o ho => h.table.find (hl o ho)
  have hlisted : ∀ n (directory : YaffsObject), ∀ o ∈ yaffsListTree data n directory,
      o ∈ data.all := by
    intro n
    induction n with
    | zero => exact fun _ _ ho => by cases ho
    | succ n ih =>
      intro directory o ho
      obtain ⟨item, hitem, ho⟩ := List.mem_flatMap.mp ho
      rcases List.mem_cons.mp ho with rfl | ho
      · exact List.mem_of_mem_filter (mem_yaffsIterateDirectory hitem).1
      · exact ih _ o ho
  rw [← hback _ (hlisted n root), ← hback data.visible fun o ho => List.mem_of_mem_filter ho]
  exact hperm.filterMap _

/-! ### Links -/

/-- A link that resolves leads to a visible object that is no link. -/
theorem yaffsFollowLinks_spec {n : ℕ} {t : YaffsObject} (ho : o ∈ data.all)
    (h : yaffsFollowLinks data n o = some t) :
    t ∈ data.all ∧ yaffsObjectVisible t = true ∧ t.type ≠ YAFFS_TYPE_HARDLINK := by
  induction n generalizing o with
  | zero => cases h
  | succ n ih =>
    rw [yaffsFollowLinks] at h
    split_ifs at h with hlink hvisible
    · cases htarget : data.findObject o.equivalent with
      | none =>
        rw [htarget] at h
        cases h
      | some target =>
        simp only [htarget] at h
        exact ih (YaffsData.mem_all_of_find htarget) h
    · obtain rfl := Option.some.inj h
      exact ⟨ho, hvisible, hlink⟩

/-! ### The tree of an accepted image -/

/-- What holds of the tree of an image that is accepted, where `scanned` is the table after the
scan. -/
structure YaffsTreeExact (scanned data : YaffsData) : Prop where
  distinct : (data.all.map (·.id)).Nodup
  reaches : ∀ o ∈ data.all, yaffsObjectVisible o = true → YaffsReaches data o
  listed : ∃ root, data.findObject YAFFS_OBJECTID_ROOT = some root
    ∧ ∀ n, data.objectCount ≤ n → (yaffsListTree data n root).Perm data.visible
  hidden : ∀ o ∈ data.all, o.valid = true →
    (yaffsObjectVisible o = false ↔ YaffsHidden scanned data o.id)
  passes : ∀ n, (yaffsLinked scanned).objectCount ≤ n →
    yaffsHidePasses n (yaffsLinked scanned) = data
  settled : ∀ id, yaffsHiddenBelow data id = false
  links : ∀ o ∈ data.all, ∀ t, yaffsResolveHardlink data o = some t → t ∈ data.all
    ∧ yaffsObjectVisible t = true ∧ ¬ YaffsHidden scanned data t.id ∧ t.type ≠ YAFFS_TYPE_HARDLINK

theorem yaffsObjectVisible_eq_true_iff : yaffsObjectVisible o = true ↔ o.valid = true
    ∧ o.shadowed = false ∧ o.parent ≠ YAFFS_OBJECTID_UNLINKED
    ∧ o.parent ≠ YAFFS_OBJECTID_DELETED := by
  simp [yaffsObjectVisible, and_assoc]

/-- Hidden objects are not visible: the check of the parents would have failed. -/
theorem YaffsTreeChecked.not_visible {linked : YaffsData} (h : YaffsTreeChecked (linked.mark m))
    (hlinked : ∀ id o, linked.findObject id = some o →
      (o.shadowed = true ↔ YaffsShadowed scanned linked id))
    (hhidden : YaffsHidden scanned (linked.mark m) id) :
    ∀ o, (linked.mark m).findObject id = some o → yaffsObjectVisible o = false := by
  induction hhidden with
  | @shadowed id hshadowed =>
    intro o ho
    rw [findObject_mark] at ho
    obtain ⟨r, hr, rfl⟩ := Option.map_eq_some_iff.mp ho
    have hmarked := (hlinked id r hr).mpr (yaffsShadowed_mark.mp hshadowed)
    simp [yaffsObjectVisible, hmarked]
  | @unlinked id o ho hparent =>
    intro o' ho'
    obtain rfl := Option.some.inj (ho.symm.trans ho')
    rcases hparent with hparent | hparent <;> simp [yaffsObjectVisible, hparent]
  | @under id o ho hroot _ ih =>
    intro o' ho'
    obtain rfl := Option.some.inj (ho.symm.trans ho')
    rw [Bool.eq_false_iff]
    intro hvisible
    obtain ⟨p, hp, hpvisible, -⟩ := (h.checked o (YaffsData.mem_all_of_find ho) hvisible).parent
      (findObject_id ho ▸ hroot)
    rw [ih p hp] at hpvisible
    cases hpvisible

theorem yaffsValidateTree_exact (h : YaffsScanned scanned)
    (hvalidate : yaffsValidateTree scanned = .ok data) : YaffsTreeExact scanned data := by
  obtain ⟨⟨root, hroot, -⟩, hdata, hcheck⟩ := (yaffsValidateTree_eq_ok_iff h.table).mp hvalidate
  have hsound := h.sound (yaffsLinked scanned).objectCount
  rw [← hdata] at hsound
  obtain ⟨m, hm⟩ := hsound.marks
  have htable : YaffsTable data := hm ▸ h.linked.mark m
  have htree : YaffsTreeChecked data := ⟨htable, fun o ho hvisible =>
    yaffsCheckParents_checked (htable.find ho) hvisible
      (hcheck o.id (YaffsData.mem_ids_of_find (htable.find ho)))⟩
  have hhidden : ∀ o ∈ data.all, o.valid = true →
      (yaffsObjectVisible o = false ↔ YaffsHidden scanned data o.id) := by
    intro o ho hvalid
    have hfind := htable.find ho
    constructor
    · intro hvisible
      by_cases hparent : o.parent = YAFFS_OBJECTID_UNLINKED ∨ o.parent = YAFFS_OBJECTID_DELETED
      · exact .unlinked hfind hparent
      · have hshadowed : o.shadowed = true := by
          simpa [yaffsObjectVisible, hvalid, not_or.mp hparent] using hvisible
        have hlinked := hsound.sound o.id o hfind hshadowed
        rw [hm]
        exact yaffsHidden_mark.mpr hlinked
    · intro hid
      subst hm
      exact htree.not_visible (fun id o ho => yaffsLinked_shadowed_iff h ho) hid o hfind
  refine ⟨htable.ids_nodup, fun o ho hvisible => (htree.checked o ho hvisible).reaches, ?_, hhidden,
    fun n hn => ?_, ?_, ?_⟩
  · have hisSome : (data.findObject YAFFS_OBJECTID_ROOT).isSome = true := by
      rw [hm, findObject_mark, Option.isSome_map]
      rcases findObject_yaffsLinked scanned YAFFS_OBJECTID_ROOT with hfind | ⟨_, _, _, hfind⟩
      · rw [hfind, findObject_mark, hroot]
        rfl
      · rw [hfind]
        rfl
    obtain ⟨r, hr⟩ := Option.isSome_iff_exists.mp hisSome
    exact ⟨r, hr, fun n hn => htree.listTree_perm hr hn⟩
  · rw [hdata]
    exact yaffsHidePasses_eq_of_le h.linked hn
  · rw [hdata]
    exact yaffsHidePasses_settled h.linked
  · intro o ho t ht
    obtain ⟨hall, hvisible, htype⟩ := yaffsFollowLinks_spec ho ht
    refine ⟨hall, hvisible, fun hid => ?_, htype⟩
    have hvalid := (yaffsObjectVisible_eq_true_iff.mp hvisible).1
    rw [(hhidden t hall hvalid).mpr hid] at hvisible
    cases hvisible

/-- The table that the scan starts with. -/
def YaffsData.blank (data : YaffsData) : YaffsData :=
  { data with objects := fun _ => [], objectCount := 0, headerCount := 0 }

theorem yaffsScanned_blank (data : YaffsData) : YaffsScanned data.blank :=
  ⟨⟨fun _ _ ho => (by cases ho), fun _ => List.nodup_nil, by simp [YaffsData.blank, YaffsData.all]⟩,
    fun _ _ ho => by cases ho⟩

/-- An image that is accepted has a tree with nothing lost, nothing twice and nothing hidden without
a reason. -/
theorem yaffs_tree_exact {order : ℕ → List ℕ} {disk : SizedDisk}
    (h : yaffsMount order disk = .ok data) : ∃ scanned,
      yaffsScan (order data.pages) data.blank = .ok scanned ∧ YaffsTreeExact scanned data := by
  rw [yaffsMount] at h
  obtain ⟨sectors, -, h⟩ := require_bind_eq_ok_iff.mp h
  rw [refuseIf_bind_eq_ok_iff] at h
  obtain ⟨-, h⟩ := h
  obtain ⟨g, -, h⟩ := require_bind_eq_ok_iff.mp h
  rw [refuseIf_bind_eq_ok_iff] at h
  obtain ⟨-, h⟩ := h
  obtain ⟨scanned, hscan, h⟩ := bind_eq_ok_iff.mp h
  rw [refuseIf_bind_eq_ok_iff] at h
  obtain ⟨hscanned, hmedium⟩ := yaffsScan_scanned hscan
    (yaffsScanned_blank ⟨disk, 512 * sectors, 512 * sectors / g.recordSize, g, fun _ => [], 0, 0⟩)
  have hsame := hmedium.trans (yaffsValidateTree_keeps h.2).medium
  refine ⟨scanned, ?_, yaffsValidateTree_exact hscanned h.2⟩
  rw [YaffsData.blank, hsame.disk, hsame.diskSize, hsame.pages, hsame.geometry]
  exact hscan

/-- An image with one file in the root, whose header shadows the root. -/
def yaffsUnrooted : SizedDisk :=
  ⟨Buf.ofFields [(0, [1, 0, 0, 0, 1, 0, 0, 0, 0, 0, 0x61]), (488, [1]), (1008, [0, 0x10, 0, 0, 1, 1])],
    some 2⟩

theorem yaffsUnrooted_mounts : (yaffsMount List.range yaffsUnrooted).toOption.isSome = true := by
  decide +kernel

theorem yaffs_tree_exact_unrooted : ∃ data, yaffsMount List.range yaffsUnrooted = .ok data
    ∧ ∃ scanned, yaffsScan (List.range data.pages) data.blank = .ok scanned
      ∧ YaffsTreeExact scanned data :=
  ⟨_, eq_ok_get yaffsUnrooted_mounts, yaffs_tree_exact (eq_ok_get yaffsUnrooted_mounts)⟩

/-- The file is hidden although no header shadows it and nothing but the root is above it. -/
theorem yaffs_unrooted_hidden : ∃ data, yaffsMount List.range yaffsUnrooted = .ok data
    ∧ ∃ o ∈ data.all, o.id = 257 ∧ o.valid = true ∧ yaffsObjectVisible o = false
      ∧ o.parent = YAFFS_OBJECTID_ROOT ∧ ∀ s ∈ data.all, s.shadows ≠ 257 := by
  refine ⟨_, eq_ok_get yaffsUnrooted_mounts, ?_⟩
  decide +kernel

end FsRover
