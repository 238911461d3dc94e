import FsRover.Fs.DwarfsSkip

/-!
# The schemas that are parsed

What a schema says is a function of its fields, and the parser gives that, or gives up where the
fields say nothing.

## Main definitions

* `FsRover.dwarfsFieldOf`, `FsRover.dwarfsLayoutOf`, `FsRover.dwarfsSchemaOf` : what the fields say.

## Main results

* `FsRover.dwarfsSchemaParse_reads` : a schema is parsed as what it says.
-/

namespace FsRover

open ByteReader Compact Outcome

/-! ### What the fields say -/

def asI16 : {k : Kind} → Value k → Option ℤ
  | _, .i16 n => some n.toInt
  | _, _ => none

def asI32 : {k : Kind} → Value k → Option ℤ
  | _, .i32 n => some n.toInt
  | _, _ => none

def asStruct : {k : Kind} → Value k → Option Fields
  | _, .struct fs => some fs
  | _, _ => none

/-- A field of a layout. -/
def dwarfsFieldStep (field : DwarfsField) (id : Int16) (k : Kind) (v : Value k) :
    Option DwarfsField :=
  if id.toInt = 1 then asI16 v >>= fun n => some { field with layoutId := n }
  else if id.toInt = 2 then asI16 v >>= fun n => some { field with offset := n }
  else some field

def dwarfsFieldOf (id : ℤ) (fs : Fields) : Option DwarfsField :=
  fs.fold dwarfsFieldStep ⟨id, -1, 0⟩ >>= fun field =>
    if field.layoutId < 0 then none else some field

/-- An entry of the field map of a layout. -/
def dwarfsFieldEntry {k l : Kind} (s : DwarfsLayout × ℕ) (key : Value k) (v : Value l) :
    Option (DwarfsLayout × ℕ) :=
  asI16 key >>= fun value => asStruct v >>= fun fs => dwarfsFieldOf value fs >>= fun field =>
    if DWARFS_FROZEN_FIELD_MAX ≤ s.2 then none
    else some ({ s.1 with fields := s.1.fields ++ [field] }, s.2 + 1)

def dwarfsFieldMap (s : DwarfsLayout × ℕ) : {k : Kind} → Value k → Option (DwarfsLayout × ℕ)
  | _, .map _ _ es => es.fold dwarfsFieldEntry s
  | _, _ => none

/-- A field of the schema of a layout. -/
def dwarfsLayoutStep (s : DwarfsLayout × ℕ) (id : Int16) (k : Kind) (v : Value k) :
    Option (DwarfsLayout × ℕ) :=
  if id.toInt = 1 then asI32 v >>= fun n =>
    if n < 0 then none else some ({ s.1 with size := n.toNat }, s.2)
  else if id.toInt = 2 then asI16 v >>= fun n =>
    if n < 0 then none else some ({ s.1 with bits := n.toNat }, s.2)
  else if id.toInt = 3 then dwarfsFieldMap s v
  else some s

def dwarfsLayoutOf (s : DwarfsLayout × ℕ) (fs : Fields) : Option (DwarfsLayout × ℕ) :=
  fs.fold dwarfsLayoutStep s

/-- An entry of the layout map. -/
def dwarfsLayoutEntry {k l : Kind} (schema : DwarfsSchema) (key : Value k) (v : Value l) :
    Option DwarfsSchema :=
  asI16 key >>= fun value => asStruct v >>= fun fs =>
    if value < 0 then none
    else dwarfsLayoutOf (⟨value, 0, 0, []⟩, schema.fieldCount) fs >>= fun s =>
      if DWARFS_FROZEN_LAYOUT_MAX ≤ schema.layouts.length then none
      else some { schema with layouts := schema.layouts ++ [s.1], fieldCount := s.2 }

def dwarfsLayoutMap (schema : DwarfsSchema) : {k : Kind} → Value k → Option DwarfsSchema
  | _, .map _ _ es => if es.length = 0 then none else es.fold dwarfsLayoutEntry schema
  | _, _ => none

/-- A field of the schema. -/
def dwarfsSchemaStep (schema : DwarfsSchema) (id : Int16) (k : Kind) (v : Value k) :
    Option DwarfsSchema :=
  if id.toInt = 2 then dwarfsLayoutMap schema v
  else if id.toInt = 3 then asI16 v >>= fun n => some { schema with rootId := n }
  else if id.toInt = 4 then asI32 v >>= fun n =>
    if n < 0 then none else some { schema with fileVersion := n }
  else some schema

def dwarfsSchemaOf (fs : Fields) : Option DwarfsSchema :=
  fs.fold dwarfsSchemaStep ⟨[], 0, -1, 0⟩ >>= fun schema =>
    if schema.rootId < 0 ∨ schema.layouts = [] ∨ DWARFS_FROZEN_FILE_VERSION < schema.fileVersion
      then none
    else some schema

/-! ### The schema is parsed as what it says -/

section Parse

variable {c : DwarfsCompact}

theorem reads_asI16 {k : Kind} (v : Value k) :
    Reads c (dwarfsSchemaFieldValue c v.fieldType) (v.bytes true) (asI16 v) := by
  rw [dwarfsSchemaFieldValue]
  cases v with
  | i16 n =>
    have hlow := n.le_toInt
    have hhigh := n.toInt_lt
    rw [if_neg (show ¬(Value.i16 n).fieldType ≠ DWARFS_CT_I16 from fun h => h rfl)]
    refine (dwarfsCompactInteger_reads (by omega) (by omega)).bind_nil ?_
    rw [if_neg (by omega)]
    exact reads_pure _
  | bool b => cases b <;> exact reads_fail
  | _ => exact reads_fail

theorem reads_guarded {α : Type} {n hi : ℤ} {g : ℤ → α} (hlow : -0x8000000000000000 ≤ n) (hhi : n ≤ hi)
    (hlt : hi < 0x8000000000000000) :
    Reads c (dwarfsCompactInteger c >>= fun value =>
      if value < 0 ∨ hi < value then Reader.fail else Reader.pure (g value)) (varint (zigzag n))
      (if n < 0 then none else some (g n)) :=
  (dwarfsCompactInteger_reads hlow (by omega)).bind_nil (reads_guard _ (by omega))

theorem reads_checkedI32 {k : Kind} (v : Value k) {α : Type} {hi : ℤ} {g : ℤ → α}
    (hhi : 0x7fffffff ≤ hi) (hlt : hi < 0x8000000000000000) :
    Reads c (if v.fieldType ≠ DWARFS_CT_I32 then Reader.fail
      else dwarfsCompactInteger c >>= fun value =>
        if value < 0 ∨ hi < value then Reader.fail else Reader.pure (g value))
      (v.bytes true) (asI32 v >>= fun n => if n < 0 then none else some (g n)) := by
  cases v with
  | i32 n =>
    have hlow := n.le_toInt
    have hhigh := n.toInt_lt
    exact reads_guarded (by omega) (by omega) hlt
  | bool b => cases b <;> exact reads_fail
  | _ => exact reads_fail

theorem reads_checkedI16 {k : Kind} (v : Value k) {α : Type} {hi : ℤ} {g : ℤ → α}
    (hhi : 0x7fff ≤ hi) (hlt : hi < 0x8000000000000000) :
    Reads c (if v.fieldType ≠ DWARFS_CT_I16 then Reader.fail
      else dwarfsCompactInteger c >>= fun value =>
        if value < 0 ∨ hi < value then Reader.fail else Reader.pure (g value))
      (v.bytes true) (asI16 v >>= fun n => if n < 0 then none else some (g n)) := by
  cases v with
  | i16 n =>
    have hlow := n.le_toInt
    have hhigh := n.toInt_lt
    exact reads_guarded (by omega) (by omega) hlt
  | bool b => cases b <;> exact reads_fail
  | _ => exact reads_fail

/-- What stands in the map for a kind that is not asked for says nothing. -/
theorem asI16_eq_none {k : Kind} (hk : k ≠ .i16) (v : Value k) : asI16 v = none := by
  cases v with
  | i16 n => exact absurd rfl hk
  | _ => rfl

theorem asStruct_eq_none {k : Kind} (hk : k ≠ .struct) (v : Value k) : asStruct v = none := by
  cases v with
  | struct fs => exact absurd rfl hk
  | _ => rfl

theorem code_eq_i16 {k : Kind} : k.code = DWARFS_CT_I16 ↔ k = .i16 := by
  cases k <;> decide

theorem code_eq_struct {k : Kind} : k.code = DWARFS_CT_STRUCT ↔ k = .struct := by
  cases k <;> decide

/-- An entry of a map of other kinds than those asked for says nothing. -/
theorem asEntry_eq_none {α : Type} {k l : Kind} (hkl : ¬(k = .i16 ∧ l = .struct)) (key : Value k)
    (v : Value l) {f : ℤ → Fields → Option α} :
    (asI16 key >>= fun value => asStruct v >>= fun fs => f value fs) = none := by
  by_cases hk : k = .i16
  · rw [asStruct_eq_none (fun hl => hkl ⟨hk, hl⟩) v]
    cases asI16 key <;> rfl
  · rw [asI16_eq_none hk key]
    rfl

variable (hfin : c.fin < 2 ^ 64)
include hfin

theorem dwarfsSchemaParseField_reads {fs : Fields} (h : fs.Plain) (id : ℤ) :
    Reads c (dwarfsSchemaParseField c id) (fs.bytes 0) (dwarfsFieldOf id fs) := by
  refine (dwarfsEachField_reads
    ((Fields.plain_all h).mono fun key k v hv field => ?_)).bind_option_nil
    fun field _ => reads_guard field Iff.rfl
  rw [dwarfsFieldStep]
  split_ifs
  · exact (reads_asI16 v).bind_option_nil fun n _ => reads_pure _
  · exact (reads_asI16 v).bind_option_nil fun n _ => reads_pure _
  · exact (dwarfsCompactSkip_reads hfin v hv).bind_nil (reads_pure field)

theorem dwarfsFieldEntry_reads (s : DwarfsLayout × ℕ) (key : Value .i16) (v : Value .struct)
    (h : v.Plain) :
    Reads c (dwarfsCompactInteger c >>= fun value =>
      if value < -0x8000 ∨ 0x7fff < value then Reader.fail
      else dwarfsSchemaParseField c value >>= fun field => dwarfsSchemaAddField s field)
      (key.bytes false ++ v.bytes false) (dwarfsFieldEntry s key v) := by
  cases key with
  | i16 n =>
    cases v with
    | struct fs =>
      rw [Value.Plain] at h
      have hlow := n.le_toInt
      have hhigh := n.toInt_lt
      refine (dwarfsCompactInteger_reads (by omega) (by omega)).bind ?_
      rw [if_neg (by omega)]
      exact (dwarfsSchemaParseField_reads hfin h _).bind_option_nil fun field _ =>
        reads_guard _ Iff.rfl

theorem dwarfsSchemaParseFields_reads (s : DwarfsLayout × ℕ) {k : Kind} (v : Value k) (h : v.Plain) :
    Reads c (dwarfsSchemaParseFields c s v.fieldType) (v.bytes true) (dwarfsFieldMap s v) := by
  refine Reads.of_fits fun hfits => ?_
  rw [dwarfsSchemaParseFields]
  match k, v with
  | _, .map _ _ .nil => exact dwarfsCompactMap_empty.bind (reads_pure s)
  | _, .map k l (.cons key v es) =>
    rw [Value.Plain] at h
    rw [Value.bytes, List.length_append] at hfits
    rw [Value.bytes]
    have hcount := (Entries.cons key v es).length_le
    have hlt : (Entries.cons key v es).length < 2 ^ 64 := by omega
    rw [if_neg (show ¬(Value.map k l (.cons key v es)).fieldType ≠ DWARFS_CT_MAP from fun h => h rfl)]
    refine (dwarfsCompactMap_reads hlt (Nat.succ_ne_zero _)).bind ?_
    by_cases hkl : k = .i16 ∧ l = .struct
    · obtain ⟨rfl, rfl⟩ := hkl
      rw [if_neg (fun h => h.2.elim (fun h => h rfl) fun h => h rfl)]
      exact reads_times_entries ((Entries.plain_all h).mono fun key v hv s =>
        dwarfsFieldEntry_reads hfin s key v hv.2)
    · rw [if_pos ⟨Nat.succ_ne_zero _, not_and_or.mp fun h =>
        hkl ⟨code_eq_i16.mp h.1, code_eq_struct.mp h.2⟩⟩, dwarfsFieldMap, Entries.fold,
        dwarfsFieldEntry, asEntry_eq_none hkl]
      exact reads_fail
  | _, .bool true => exact reads_fail
  | _, .bool false => exact reads_fail
  | _, .byte _ => exact reads_fail
  | _, .i16 _ => exact reads_fail
  | _, .i32 _ => exact reads_fail
  | _, .i64 _ => exact reads_fail
  | _, .double _ _ => exact reads_fail
  | _, .float _ _ => exact reads_fail
  | _, .binary _ => exact reads_fail
  | _, .list _ _ => exact reads_fail
  | _, .set _ _ => exact reads_fail
  | _, .struct _ => exact reads_fail

theorem dwarfsSchemaParseLayout_reads (s : DwarfsLayout × ℕ) {fs : Fields} (h : fs.Plain) :
    Reads c (dwarfsSchemaParseLayout c s) (fs.bytes 0) (dwarfsLayoutOf s fs) := by
  refine dwarfsEachField_reads ((Fields.plain_all h).mono fun key k v hv s => ?_)
  rw [dwarfsLayoutStep]
  by_cases h1 : key.toInt = 1
  · rw [if_pos h1, if_pos h1]
    exact @reads_checkedI32 c k v _ (2 ^ 32 - 1) _ (by omega) (by omega)
  rw [if_neg h1, if_neg h1]
  by_cases h2 : key.toInt = 2
  · rw [if_pos h2, if_pos h2]
    exact @reads_checkedI16 c k v _ 0xffff _ (by omega) (by omega)
  rw [if_neg h2, if_neg h2]
  by_cases h3 : key.toInt = 3
  · rw [if_pos h3, if_pos h3]
    exact dwarfsSchemaParseFields_reads hfin s v hv
  rw [if_neg h3, if_neg h3]
  exact (dwarfsCompactSkip_reads hfin v hv).bind_nil (reads_pure s)

theorem dwarfsLayoutEntry_reads (schema : DwarfsSchema) (key : Value .i16) (v : Value .struct)
    (h : v.Plain) :
    Reads c (dwarfsCompactInteger c >>= fun value =>
      if value < 0 ∨ 0x7fff < value then Reader.fail
      else dwarfsSchemaParseLayout c (⟨value, 0, 0, []⟩, schema.fieldCount) >>= fun s =>
        dwarfsSchemaAddLayout schema s)
      (key.bytes false ++ v.bytes false) (dwarfsLayoutEntry schema key v) := by
  cases key with
  | i16 n =>
    cases v with
    | struct fs =>
      rw [Value.Plain] at h
      have hlow := n.le_toInt
      have hhigh := n.toInt_lt
      refine (dwarfsCompactInteger_reads (by omega) (by omega)).bind ?_
      rw [dwarfsLayoutEntry, asI16, asStruct, Option.bind_eq_bind, Option.bind_some,
        Option.bind_eq_bind, Option.bind_some]
      by_cases hneg : n.toInt < 0
      · rw [if_pos (Or.inl hneg), if_pos hneg]
        exact reads_fail
      · rw [if_neg (by omega), if_neg hneg]
        exact (dwarfsSchemaParseLayout_reads hfin _ h).bind_option_nil fun s _ =>
          reads_guard _ Iff.rfl

theorem dwarfsSchemaParseLayouts_reads (schema : DwarfsSchema) {k : Kind} (v : Value k)
    (h : v.Plain) :
    Reads c (dwarfsSchemaParseLayouts c schema v.fieldType) (v.bytes true)
      (dwarfsLayoutMap schema v) := by
  refine Reads.of_fits fun hfits => ?_
  rw [dwarfsSchemaParseLayouts]
  match k, v with
  | _, .map _ _ .nil => exact dwarfsCompactMap_empty.bind reads_fail
  | _, .map k l (.cons key v es) =>
    rw [Value.Plain] at h
    rw [Value.bytes, List.length_append] at hfits
    rw [Value.bytes]
    have hcount := (Entries.cons key v es).length_le
    have hlt : (Entries.cons key v es).length < 2 ^ 64 := by omega
    rw [if_neg (show ¬(Value.map k l (.cons key v es)).fieldType ≠ DWARFS_CT_MAP from fun h => h rfl),
      dwarfsLayoutMap, if_neg (show (Entries.cons key v es).length ≠ 0 from Nat.succ_ne_zero _)]
    refine (dwarfsCompactMap_reads hlt (Nat.succ_ne_zero _)).bind ?_
    by_cases hkl : k = .i16 ∧ l = .struct
    · obtain ⟨rfl, rfl⟩ := hkl
      rw [if_neg (fun h => h.elim (fun h => h rfl) fun h => h rfl)]
      exact reads_times_entries ((Entries.plain_all h).mono fun key v hv schema =>
        dwarfsLayoutEntry_reads hfin schema key v hv.2)
    · rw [if_pos (not_and_or.mp fun h => hkl ⟨code_eq_i16.mp h.1, code_eq_struct.mp h.2⟩),
        Entries.fold, dwarfsLayoutEntry, asEntry_eq_none hkl]
      exact reads_fail
  | _, .bool true => exact reads_fail
  | _, .bool false => exact reads_fail
  | _, .byte _ => exact reads_fail
  | _, .i16 _ => exact reads_fail
  | _, .i32 _ => exact reads_fail
  | _, .i64 _ => exact reads_fail
  | _, .double _ _ => exact reads_fail
  | _, .float _ _ => exact reads_fail
  | _, .binary _ => exact reads_fail
  | _, .list _ _ => exact reads_fail
  | _, .set _ _ => exact reads_fail
  | _, .struct _ => exact reads_fail

/-- A schema is parsed as what it says. -/
theorem dwarfsSchemaParse_reads {fs : Fields} (h : fs.Plain) :
    Reads c (dwarfsSchemaParse c) (fs.bytes 0) (dwarfsSchemaOf fs) := by
  refine (dwarfsEachField_reads
    ((Fields.plain_all h).mono fun key k v hv schema => ?_)).bind_option_nil
    fun schema _ => reads_guard schema Iff.rfl
  rw [dwarfsSchemaStep]
  by_cases h2 : key.toInt = 2
  · rw [if_pos h2, if_pos h2]
    exact dwarfsSchemaParseLayouts_reads hfin schema v hv
  rw [if_neg h2, if_neg h2]
  by_cases h3 : key.toInt = 3
  · rw [if_pos h3, if_pos h3]
    exact (reads_asI16 v).bind_option_nil fun n _ => reads_pure _
  rw [if_neg h3, if_neg h3]
  by_cases h4 : key.toInt = 4
  · rw [if_pos h4, if_pos h4]
    exact @reads_checkedI32 c k v _ 0x7fffffff _ (by omega) (by omega)
  rw [if_neg h4, if_neg h4]
  exact (dwarfsCompactSkip_reads hfin v hv).bind_nil (reads_pure schema)

end Parse

end FsRover
