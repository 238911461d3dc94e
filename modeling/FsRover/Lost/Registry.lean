import FsRover.Lost.Disk

/-!
# The devices of lost partition windows

A window may be made on a disk that is itself a window. Each device of `lostdisk.c` keeps its parent
open and counts the disks that are open on it; `rover_lost_del` releases the memory of a device.

## Main definitions

* `FsRover.LostdiskRegistry` : the devices, their counts, and the disks that others hold open.
* `FsRover.LostdiskOp`, `FsRover.LostdiskRegistry.step` : the calls from outside.

## Main results

* `FsRover.lostdiskRegistry_sound` : after any calls no open disk is on a released device.
-/

namespace FsRover

open Guards

/-- The calls from outside: a disk is closed by whoever has opened it. -/
inductive LostdiskOp
  | add (devname parent : String) (offset size : ℕ) (remap : List LostRemap)
  | del (devname : String)
  | openDisk (name : String)
  | close (n : ℕ)

/-- `lostdisk_list`. A device goes by the number that it was made under; `parent` is the open disk
that it is a window of, with the device which that one is on. -/
structure LostdiskRegistry where
  list : LostdiskList
  parent : ℕ → GrubDisk × Option ℕ
  refcnt : ℕ → ℕ
  /-- The devices of the disks that are open besides. -/
  opens : List ℕ

/-- Why `rover_lost_del` refuses. -/
inductive LostdiskDelErr
  | badDevice | stillReferenced
  deriving DecidableEq, Repr

namespace LostdiskRegistry

def empty : LostdiskRegistry := ⟨⟨[], 0⟩, fun _ => (⟨9, none⟩, none), fun _ => 0, []⟩

/-- The count of the device `on` after one of its disks is opened. -/
def hold (r : LostdiskRegistry) (on : Option ℕ) : LostdiskRegistry :=
  { r with refcnt := fun k => if on = some k then r.refcnt k + 1 else r.refcnt k }

/-- `lostdisk_close` on the device `on`. -/
def put (r : LostdiskRegistry) (on : Option ℕ) : LostdiskRegistry :=
  { r with refcnt := fun k => if on = some k then r.refcnt k - 1 else r.refcnt k }

/-- `lostdisk_open`: the disk of a device. -/
def lostdiskOpen (r : LostdiskRegistry) (dev : Lostdisk) : GrubDisk :=
  let log := (r.parent dev.id).1.logSectorSize
  ⟨log, some (dev.sectors / 2 ^ (log - 9) * 2 ^ (log - 9))⟩

/-- `rover_lost_del`. -/
def roverLostDel (r : LostdiskRegistry) (devname : String) :
    Except (LostdiskDelErr × String) LostdiskRegistry :=
  match lostdiskFind r.list devname with
  | none => .error (.badDevice, "device `" ++ devname ++ "' not found")
  | some dev =>
    if 0 < r.refcnt dev.id then
      .error (.stillReferenced, "device `" ++ devname ++ "' still in use")
    else
      .ok ⟨⟨r.list.disks.eraseP (·.devname == devname), r.list.lastId⟩, r.parent,
        (r.put (r.parent dev.id).2).refcnt, r.opens⟩

section Calls

variable (rawName : String → String) (other : String → Except GrubError GrubDisk)
  (partition : String → GrubDisk → Except GrubError (Option ℕ))

/-- The loop of `grub_disk_open` over the drivers, with the device that the disk is on. -/
def openRaw (r : LostdiskRegistry) (raw : String) : Except GrubError (GrubDisk × Option ℕ) :=
  match lostdiskFind r.list raw with
  | some dev => .ok (r.lostdiskOpen dev, some dev.id)
  | none => do
    let disk ← other raw
    .ok (disk, none)

/-- `grub_disk_open`. `rawName` is the name in front of the partition, `other` opens what is no window,
and `partition` gives the sectors of the partition. -/
def grubDiskOpen (r : LostdiskRegistry) (name : String) :
    Except GrubError (GrubDisk × Option ℕ) := do
  let (disk, on) ← r.openRaw other (rawName name)
  refuseIf (15 < disk.logSectorSize ∨ disk.logSectorSize < 9) ⟨.notImplementedYet,
    s!"sector sizes of {2 ^ disk.logSectorSize} bytes aren't supported yet"⟩
  let nativeSectors ← partition name disk
  .ok ({ disk with nativeSectors }, on)

/-- `rover_lost_add_ex`, with the disk that it has opened and keeps. -/
def addEx (r : LostdiskRegistry) (devname parent : String) (offset size : ℕ)
    (remap : List LostRemap) : Except GrubError LostdiskRegistry := do
  let disk := r.grubDiskOpen rawName other partition
  let list ← roverLostAddEx (fun name => (disk name).map Prod.fst) r.list devname parent offset size
    remap
  let parent ← disk parent
  .ok ⟨list, Function.update r.parent r.list.lastId parent, (r.hold parent.2).refcnt, r.opens⟩

/-- A call; one that fails changes nothing. -/
def step (r : LostdiskRegistry) : LostdiskOp → LostdiskRegistry
  | .add devname parent offset size remap =>
    (r.addEx rawName other partition devname parent offset size remap).toOption.getD r
  | .del devname => (r.roverLostDel devname).toOption.getD r
  | .openDisk name =>
    match r.grubDiskOpen rawName other partition name with
    | .error _ => r
    | .ok (_, on) => { r.hold on with opens := on.toList ++ r.opens }
  | .close n => if n ∈ r.opens then { r.put (some n) with opens := r.opens.erase n } else r

/-- No open disk is on a device that is released, counts are those of the open disks, windows lie
on their parents, and a parent is older than its window. -/
structure Sound (r : LostdiskRegistry) : Prop where
  numbers : (r.list.disks.map Lostdisk.id).Nodup
  fresh : ∀ dev ∈ r.list.disks, dev.id < r.list.lastId
  names : (r.list.disks.map Lostdisk.devname).Nodup
  counted : ∀ n, r.refcnt n
    = r.opens.count n + r.list.disks.countP fun dev => (r.parent dev.id).2 = some n
  opens : ∀ n ∈ r.opens, n ∈ r.list.disks.map Lostdisk.id
  parents : ∀ dev ∈ r.list.disks, ∀ n, (r.parent dev.id).2 = some n →
    n ∈ r.list.disks.map Lostdisk.id ∧ n < dev.id
  serves : ∀ dev ∈ r.list.disks, (r.parent dev.id).1.Serves (512 * dev.start) (512 * dev.sectors)
    ∧ ∀ m ∈ dev.remap, m.Inside (512 * dev.sectors)

variable {rawName other partition} {r r' : LostdiskRegistry}

theorem perm_eraseP {list : LostdiskList} {devname : String} {dev : Lostdisk}
    (h : lostdiskFind list devname = some dev) :
    list.disks.Perm (dev :: list.disks.eraseP (·.devname == devname)) := by
  obtain ⟨hname, before, after, hdisks, hbefore⟩ := List.find?_eq_some_iff_append.mp h
  have hkeep : ∀ d ∈ before, ¬ (d.devname == devname) = true := fun d hd => by
    simpa using hbefore d hd
  simp only [hdisks, List.eraseP_append_right _ hkeep, List.eraseP_cons, hname, cond_true]
  exact List.perm_middle

theorem grubDiskOpen_spec {name : String} {disk : GrubDisk} {on : Option ℕ}
    (h : r.grubDiskOpen rawName other partition name = .ok (disk, on)) :
    9 ≤ disk.logSectorSize ∧ ∀ n, on = some n → n ∈ r.list.disks.map Lostdisk.id := by
  rw [grubDiskOpen] at h
  obtain ⟨⟨disk', on'⟩, hopen, h⟩ := bind_eq_ok_iff.mp h
  obtain ⟨hlog, h⟩ := refuseIf_bind_eq_ok_iff.mp h
  obtain ⟨sectors, -, h⟩ := bind_eq_ok_iff.mp h
  obtain ⟨rfl, rfl⟩ := Prod.mk.inj (Except.ok.inj h)
  refine ⟨not_lt.mp (not_or.mp hlog).2, fun n hn => ?_⟩
  rw [openRaw] at hopen
  split at hopen
  · rename_i dev hfind
    obtain ⟨-, rfl⟩ := Prod.mk.inj (Except.ok.inj hopen)
    exact Option.some.inj hn ▸ List.mem_map_of_mem (List.mem_of_find?_eq_some hfind)
  · obtain ⟨d, -, hopen⟩ := bind_eq_ok_iff.mp hopen
    obtain ⟨-, rfl⟩ := Prod.mk.inj (Except.ok.inj hopen)
    cases hn

namespace Sound

variable (hs : r.Sound)
include hs

theorem open_ {on : Option ℕ} (hon : ∀ n, on = some n → n ∈ r.list.disks.map Lostdisk.id) :
    Sound { r.hold on with opens := on.toList ++ r.opens } :=
  { hs with
    counted := fun n => by
      have hcount := hs.counted n
      cases on with
      | none => simpa [hold] using hcount
      | some k =>
        simp only [hold, Option.some.injEq, Option.toList_some, List.singleton_append,
          List.count_cons, beq_iff_eq]
        split_ifs <;> omega
    opens := fun n hn => (List.mem_append.mp hn).elim
      (fun hn => hon n (Option.mem_toList.mp hn)) (hs.opens n) }

theorem close {n : ℕ} (hn : n ∈ r.opens) :
    Sound { r.put (some n) with opens := r.opens.erase n } :=
  { hs with
    counted := fun k => by
      have hcount := hs.counted k
      have hpos := List.count_pos_iff.mpr hn
      simp only [put, Option.some.injEq, List.count_erase, beq_iff_eq]
      split_ifs with heq
      · subst heq
        omega
      · omega
    opens := fun k hk => hs.opens k (List.mem_of_mem_erase hk) }

/-- A device that nobody holds open is no parent. -/
theorem del {devname : String} (h : r.roverLostDel devname = .ok r') : r'.Sound := by
  rw [roverLostDel] at h
  cases hfind : lostdiskFind r.list devname with
  | none =>
    rw [hfind] at h
    cases h
  | some dev =>
    rw [hfind] at h
    simp only at h
    split_ifs at h with hheld
    obtain rfl := Except.ok.inj h
    have hperm := perm_eraseP hfind
    generalize r.list.disks.eraseP (·.devname == devname) = rest at hperm
    have hmem : ∀ d, d ∈ r.list.disks ↔ d = dev ∨ d ∈ rest := fun d =>
      hperm.mem_iff.trans List.mem_cons
    have hids := hperm.map Lostdisk.id
    have hnames := hperm.map Lostdisk.devname
    have hfree := hs.counted dev.id
    have hstays : ∀ n ∈ r.list.disks.map Lostdisk.id, n ≠ dev.id → n ∈ rest.map Lostdisk.id :=
      fun n hn hne => (List.mem_cons.mp (hids.mem_iff.mp hn)).resolve_left hne
    have hnone := List.countP_eq_zero.mp (by omega :
      (r.list.disks.countP fun d => (r.parent d.id).2 = some dev.id) = 0)
    exact {
      numbers := (List.nodup_cons.mp (hids.nodup_iff.mp hs.numbers)).2
      fresh := fun d hd => hs.fresh d ((hmem d).mpr (.inr hd))
      names := (List.nodup_cons.mp (hnames.nodup_iff.mp hs.names)).2
      counted := fun n => by
        have hcount := hs.counted n
        rw [hperm.countP_eq, List.countP_cons] at hcount
        simp only [decide_eq_true_eq] at hcount
        simp only [put]
        split_ifs at hcount ⊢ <;> omega
      opens := fun n hn => hstays n (hs.opens n hn) fun heq => by
        have hpos : 0 < r.opens.count dev.id := List.count_pos_iff.mpr (heq ▸ hn)
        omega
      parents := fun d hd n hn => by
        obtain ⟨hthere, holder⟩ := hs.parents d ((hmem d).mpr (.inr hd)) n hn
        refine ⟨hstays n hthere fun heq => ?_, holder⟩
        exact hnone d ((hmem d).mpr (.inr hd)) (by simpa using heq ▸ hn)
      serves := fun d hd => hs.serves d ((hmem d).mpr (.inr hd)) }

theorem add {devname parent : String} {offset size : ℕ} {remap : List LostRemap}
    (h : r.addEx rawName other partition devname parent offset size remap = .ok r') : r'.Sound := by
  obtain ⟨list, hadd, h⟩ := bind_eq_ok_iff.mp h
  obtain ⟨⟨disk, on⟩, hopen, h⟩ := bind_eq_ok_iff.mp h
  obtain rfl := Except.ok.inj h
  obtain ⟨hlog, hon⟩ := grubDiskOpen_spec hopen
  obtain ⟨⟨-, hname⟩, hremap, disk', hdisk, hserves, rfl⟩ := roverLostAddEx_eq_ok_iff.mp hadd
  rw [hopen] at hdisk
  obtain rfl := Except.ok.inj hdisk
  have hne : ∀ d ∈ r.list.disks, d.id ≠ r.list.lastId := fun d hd => (hs.fresh d hd).ne
  have hold' : ∀ d ∈ r.list.disks,
      Function.update r.parent r.list.lastId (disk, on) d.id = r.parent d.id :=
    fun d hd => Function.update_of_ne (hne d hd) _ _
  have h512 : ∀ {x}, x % 2 ^ disk.logSectorSize = 0 → 512 * (x / 512) = x := fun hx =>
    Nat.mul_div_cancel' ((Nat.pow_dvd_pow 2 hlog).trans (Nat.dvd_of_mod_eq_zero hx))
  have hnew : ∀ {P : Lostdisk → Prop}, (∀ d ∈ r.list.disks, P d) →
      P ⟨devname, parent, offset / 512, size / 512, remap, r.list.lastId⟩ →
      ∀ d ∈ (⟨devname, parent, offset / 512, size / 512, remap, r.list.lastId⟩ :: r.list.disks), P d :=
    fun hold hnew d hd => (List.mem_cons.mp hd).elim (fun heq => heq ▸ hnew) (hold d)
  have hremaps := (lostdiskCheckRemap_eq_ok_iff.mp hremap).2
  exact {
    numbers := List.nodup_cons.mpr ⟨fun hin => by
      obtain ⟨d, hd, heq⟩ := List.mem_map.mp hin
      exact hne d hd heq, hs.numbers⟩
    fresh := hnew (fun d hd => Nat.lt_succ_of_lt (hs.fresh d hd)) (Nat.lt_succ_self _)
    names := List.nodup_cons.mpr ⟨fun hin => by
      obtain ⟨d, hd, heq⟩ := List.mem_map.mp hin
      exact List.find?_eq_none.mp hname d hd (beq_iff_eq.mpr heq), hs.names⟩
    counted := fun n => by
      have hcount := hs.counted n
      have hrest : r.list.disks.countP (fun d =>
          (Function.update r.parent r.list.lastId (disk, on) d.id).2 = some n)
          = r.list.disks.countP fun d => (r.parent d.id).2 = some n :=
        List.countP_congr fun d hd => by rw [hold' d hd]
      rw [List.countP_cons, hrest]
      simp only [hold, Function.update_self, decide_eq_true_eq]
      split_ifs <;> omega
    opens := fun n hn => List.mem_cons_of_mem _ (hs.opens n hn)
    parents := hnew (fun d hd n hn => by
      obtain ⟨hthere, holder⟩ := hs.parents d hd n (hold' d hd ▸ hn)
      exact ⟨List.mem_cons_of_mem _ hthere, holder⟩) fun n hn => by
      have hthere := hon n (by simpa using hn)
      obtain ⟨d, hd, rfl⟩ := List.mem_map.mp hthere
      exact ⟨List.mem_cons_of_mem _ hthere, hs.fresh d hd⟩
    serves := hnew (fun d hd => by simpa only [hold' d hd] using hs.serves d hd) (by
      simp only [Function.update_self]
      rw [h512 hserves.offset_mod, h512 hserves.size_mod]
      exact ⟨hserves, hremaps⟩) }

end Sound

theorem sound_empty : empty.Sound where
  numbers := .nil
  fresh := fun _ h => absurd h List.not_mem_nil
  names := .nil
  counted := fun _ => rfl
  opens := fun _ h => absurd h List.not_mem_nil
  parents := fun _ h => absurd h List.not_mem_nil
  serves := fun _ h => absurd h List.not_mem_nil

theorem step_sound (hs : r.Sound) (op : LostdiskOp) :
    (r.step rawName other partition op).Sound := by
  cases op with
  | add devname parent offset size remap =>
    rw [step]
    cases h : r.addEx rawName other partition devname parent offset size remap with
    | error e => exact hs
    | ok r' => exact hs.add h
  | del devname =>
    rw [step]
    cases h : r.roverLostDel devname with
    | error e => exact hs
    | ok r' => exact hs.del h
  | openDisk name =>
    rw [step]
    cases h : r.grubDiskOpen rawName other partition name with
    | error e => exact hs
    | ok disk => exact hs.open_ (grubDiskOpen_spec h).2
  | close n =>
    rw [step]
    split_ifs with hn
    · exact hs.close hn
    · exact hs

end Calls

end LostdiskRegistry

/-- After any calls the devices that a disk is open on are there, each with the count of these disks;
windows lie on their parents, which are older. -/
theorem lostdiskRegistry_sound (rawName : String → String)
    (other : String → Except GrubError GrubDisk)
    (partition : String → GrubDisk → Except GrubError (Option ℕ)) (ops : List LostdiskOp) :
    (ops.foldl (LostdiskRegistry.step rawName other partition) .empty).Sound := by
  suffices h : ∀ r : LostdiskRegistry, r.Sound →
      (ops.foldl (LostdiskRegistry.step rawName other partition) r).Sound from
    h _ LostdiskRegistry.sound_empty
  induction ops with
  | nil => exact fun r hs => hs
  | cons op ops ih => exact fun r hs => ih _ (LostdiskRegistry.step_sound hs op)

end FsRover
