import FsRover.Lib.ByteReader
import FsRover.Lib.Compact

/-!
# The Frozen schema of DwarFS

The schema of a DwarFS image is a struct in the Thrift Compact Protocol. `dwarfs_schema_parse` takes
the layouts, the root and the version from it, and `dwarfs_compact_skip` skips what it does not
know.

## Main definitions

* `FsRover.dwarfsCompactVarint`, `FsRover.dwarfsCompactInteger`, `FsRover.dwarfsCompactField`,
  `FsRover.dwarfsCompactCollection`, `FsRover.dwarfsCompactMap` : integers and headers.
* `FsRover.dwarfsCompactSkip` : skipping a value.
-/

namespace FsRover

open ByteReader Outcome

def DWARFS_FROZEN_FILE_VERSION : ℤ := 1
def DWARFS_FROZEN_LAYOUT_MAX : ℕ := 4096
def DWARFS_FROZEN_FIELD_MAX : ℕ := 16384

def DWARFS_CT_STOP : ℕ := 0
def DWARFS_CT_TRUE : ℕ := 1
def DWARFS_CT_FALSE : ℕ := 2
def DWARFS_CT_BYTE : ℕ := 3
def DWARFS_CT_I16 : ℕ := 4
def DWARFS_CT_I32 : ℕ := 5
def DWARFS_CT_I64 : ℕ := 6
def DWARFS_CT_DOUBLE : ℕ := 7
def DWARFS_CT_BINARY : ℕ := 8
def DWARFS_CT_LIST : ℕ := 9
def DWARFS_CT_SET : ℕ := 10
def DWARFS_CT_MAP : ℕ := 11
def DWARFS_CT_STRUCT : ℕ := 12
def DWARFS_CT_FLOAT : ℕ := 13

/-- `struct dwarfs_compact` is the input with the cursor of its readers. -/
abbrev DwarfsCompact := Input

variable (c : DwarfsCompact)

/-- The rounds of `dwarfs_compact_varint`, of which ten can be run. -/
def dwarfsVarintRounds : ℕ → ℕ → ℕ → Reader ℕ
  | 0, _, _ => Reader.fail
  | rounds + 1, shift, result => next c >>= fun byte =>
    -- the bits are above those of `result`
    let result := result + byte.toNat % 128 * 2 ^ shift % 2 ^ 64
    if byte.toNat < 128 then Reader.pure result
    else dwarfsVarintRounds rounds (shift + 7) result

def dwarfsCompactVarint : Reader ℕ := dwarfsVarintRounds c 10 0 0

/-- The zigzag code undone. -/
def dwarfsUnzigzag (encoded : ℕ) : ℤ :=
  if encoded % 2 = 0 then (encoded / 2 : ℕ) else -(encoded / 2 : ℕ) - 1

def dwarfsCompactInteger : Reader ℤ := dwarfsCompactVarint c >>= fun encoded =>
  Reader.pure (dwarfsUnzigzag encoded)

/-- `dwarfs_compact_field`: the id and the type, unless it is the stop. -/
def dwarfsCompactField (last : ℤ) : Reader (Option (ℤ × ℕ)) := next c >>= fun header =>
  let type := header.toNat % 16
  if type = DWARFS_CT_STOP then Reader.pure none
  else
    let delta := header.toNat / 16
    if delta ≠ 0 then Reader.pure (some ((last + delta).bmod (2 ^ 16), type))
    else dwarfsCompactInteger c >>= fun explicitId =>
      if explicitId < -0x8000 ∨ 0x7fff < explicitId then Reader.fail
      else Reader.pure (some (explicitId, type))

def dwarfsCompactCollection : Reader (ℕ × ℕ) := next c >>= fun header =>
  let count := header.toNat / 16
  let type := header.toNat % 16
  if count = 15 then dwarfsCompactVarint c >>= fun count => Reader.pure (count, type)
  else Reader.pure (count, type)

def dwarfsCompactMap : Reader (ℕ × ℕ × ℕ) := dwarfsCompactVarint c >>= fun count =>
  if count = 0 then Reader.pure (count, DWARFS_CT_STOP, DWARFS_CT_STOP)
  else next c >>= fun types => Reader.pure (count, types.toNat / 16, types.toNat % 16)

/-- The loop over the fields of a struct: `step` gets the id and the type of each. `rounds` bounds
their number. -/
def dwarfsFields {σ : Type} (step : σ → ℤ → ℕ → Reader σ) : ℕ → ℤ → σ → Reader σ
  | 0, _, _ => fun _ => deep
  | rounds + 1, last, s => dwarfsCompactField c last >>= fun field =>
    match field with
    | none => Reader.pure s
    | some (id, type) => step s id type >>= dwarfsFields step rounds id

def dwarfsEachField {σ : Type} (step : σ → ℤ → ℕ → Reader σ) (s : σ) : Reader σ :=
  dwarfsFields c step (c.fin + 1) 0 s

/-- `dwarfs_compact_skip` of a value of the type; `depth` bounds the nesting. -/
def dwarfsSkipIn : ℕ → ℕ → Reader Unit
  | 0, _ => fun _ => deep
  | depth + 1, type =>
    if type = DWARFS_CT_TRUE ∨ type = DWARFS_CT_FALSE then Reader.pure ()
    else if type = DWARFS_CT_BYTE then next c >>= fun _ => Reader.pure ()
    else if type = DWARFS_CT_I16 ∨ type = DWARFS_CT_I32 ∨ type = DWARFS_CT_I64 then
      dwarfsCompactInteger c >>= fun _ => Reader.pure ()
    else if type = DWARFS_CT_DOUBLE then advance c 8
    else if type = DWARFS_CT_FLOAT then advance c 4
    else if type = DWARFS_CT_BINARY then dwarfsCompactVarint c >>= fun length => advance c length
    else if type = DWARFS_CT_LIST ∨ type = DWARFS_CT_SET then
      dwarfsCompactCollection c >>= fun head =>
        times (fun _ => dwarfsSkipIn depth head.2) head.1 ()
    else if type = DWARFS_CT_MAP then
      dwarfsCompactMap c >>= fun head =>
        times (fun _ => dwarfsSkipIn depth head.2.1 >>= fun _ => dwarfsSkipIn depth head.2.2)
          head.1 ()
    else if type = DWARFS_CT_STRUCT then
      dwarfsEachField c (fun _ _ type => dwarfsSkipIn depth type) ()
    else Reader.fail

def dwarfsCompactSkip (type : ℕ) : Reader Unit := dwarfsSkipIn c (c.fin + 1) type

/-! ### The schema -/

/-- `struct dwarfs_field`. -/
structure DwarfsField where
  id : ℤ
  layoutId : ℤ
  offset : ℤ
  deriving DecidableEq

/-- `struct dwarfs_layout`. -/
structure DwarfsLayout where
  id : ℤ
  size : ℕ
  bits : ℕ
  fields : List DwarfsField
  deriving DecidableEq

/-- `struct dwarfs_schema`. -/
structure DwarfsSchema where
  layouts : List DwarfsLayout
  fieldCount : ℕ
  rootId : ℤ
  fileVersion : ℤ
  deriving DecidableEq

def dwarfsSchemaFieldValue (type : ℕ) : Reader ℤ :=
  if type ≠ DWARFS_CT_I16 then Reader.fail
  else dwarfsCompactInteger c >>= fun number =>
    if number < -0x8000 ∨ 0x7fff < number then Reader.fail else Reader.pure number

/-- `dwarfs_schema_parse_field`, for the id that stands before the field. -/
def dwarfsSchemaParseField (id : ℤ) : Reader DwarfsField :=
  dwarfsEachField c (fun field key type =>
      if key = 1 then dwarfsSchemaFieldValue c type >>= fun n =>
        Reader.pure { field with layoutId := n }
      else if key = 2 then dwarfsSchemaFieldValue c type >>= fun n =>
        Reader.pure { field with offset := n }
      else dwarfsCompactSkip c type >>= fun _ => Reader.pure field) ⟨id, -1, 0⟩ >>= fun field =>
    if field.layoutId < 0 then Reader.fail else Reader.pure field

/-- `dwarfs_schema_add_field`, over the layout and the number of fields in the schema. -/
def dwarfsSchemaAddField (s : DwarfsLayout × ℕ) (field : DwarfsField) :
    Reader (DwarfsLayout × ℕ) :=
  if DWARFS_FROZEN_FIELD_MAX ≤ s.2 then Reader.fail
  else Reader.pure ({ s.1 with fields := s.1.fields ++ [field] }, s.2 + 1)

/-- The field map of a layout. -/
def dwarfsSchemaParseFields (s : DwarfsLayout × ℕ) (type : ℕ) : Reader (DwarfsLayout × ℕ) :=
  if type ≠ DWARFS_CT_MAP then Reader.fail
  else dwarfsCompactMap c >>= fun head =>
    if head.1 ≠ 0 ∧ (head.2.1 ≠ DWARFS_CT_I16 ∨ head.2.2 ≠ DWARFS_CT_STRUCT) then Reader.fail
    else times (fun s => dwarfsCompactInteger c >>= fun value =>
      if value < -0x8000 ∨ 0x7fff < value then Reader.fail
      else dwarfsSchemaParseField c value >>= fun field => dwarfsSchemaAddField s field) head.1 s

/-- `dwarfs_schema_parse_layout`, over the layout and the number of fields in the schema. -/
def dwarfsSchemaParseLayout (s : DwarfsLayout × ℕ) : Reader (DwarfsLayout × ℕ) :=
  dwarfsEachField c (fun s key type =>
      if key = 1 then
        if type ≠ DWARFS_CT_I32 then Reader.fail
        else dwarfsCompactInteger c >>= fun value =>
          if value < 0 ∨ 0xffffffff < value then Reader.fail
          else Reader.pure ({ s.1 with size := value.toNat }, s.2)
      else if key = 2 then
        if type ≠ DWARFS_CT_I16 then Reader.fail
        else dwarfsCompactInteger c >>= fun value =>
          if value < 0 ∨ 0xffff < value then Reader.fail
          else Reader.pure ({ s.1 with bits := value.toNat }, s.2)
      else if key = 3 then dwarfsSchemaParseFields c s type
      else dwarfsCompactSkip c type >>= fun _ => Reader.pure s) s

/-- `dwarfs_schema_add_layout`, with the number of fields that the layouts now have. -/
def dwarfsSchemaAddLayout (schema : DwarfsSchema) (s : DwarfsLayout × ℕ) : Reader DwarfsSchema :=
  if DWARFS_FROZEN_LAYOUT_MAX ≤ schema.layouts.length then Reader.fail
  else Reader.pure { schema with layouts := schema.layouts ++ [s.1], fieldCount := s.2 }

/-- The layout map of a schema. -/
def dwarfsSchemaParseLayouts (schema : DwarfsSchema) (type : ℕ) : Reader DwarfsSchema :=
  if type ≠ DWARFS_CT_MAP then Reader.fail
  else dwarfsCompactMap c >>= fun head =>
    if head.2.1 ≠ DWARFS_CT_I16 ∨ head.2.2 ≠ DWARFS_CT_STRUCT then Reader.fail
    else times (fun schema => dwarfsCompactInteger c >>= fun value =>
      if value < 0 ∨ 0x7fff < value then Reader.fail
      else dwarfsSchemaParseLayout c (⟨value, 0, 0, []⟩, schema.fieldCount) >>= fun s =>
        dwarfsSchemaAddLayout schema s) head.1 schema

def dwarfsSchemaParse : Reader DwarfsSchema :=
  dwarfsEachField c (fun schema key type =>
      if key = 2 then dwarfsSchemaParseLayouts c schema type
      else if key = 3 then dwarfsSchemaFieldValue c type >>= fun n =>
        Reader.pure { schema with rootId := n }
      else if key = 4 then
        if type ≠ DWARFS_CT_I32 then Reader.fail
        else dwarfsCompactInteger c >>= fun value =>
          if value < 0 ∨ 0x7fffffff < value then Reader.fail
          else Reader.pure { schema with fileVersion := value }
      else dwarfsCompactSkip c type >>= fun _ => Reader.pure schema) ⟨[], 0, -1, 0⟩ >>= fun schema =>
    if schema.rootId < 0 ∨ schema.layouts = [] ∨ DWARFS_FROZEN_FILE_VERSION < schema.fileVersion then
      Reader.fail
    else Reader.pure schema

end FsRover
