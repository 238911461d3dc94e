import FsRover.Bytes
import Mathlib.Tactic.Common

/-!
# The Thrift Compact Protocol

Values of every type, and how they are written: integers as zigzag varints, short and long headers
of collections, field ids as differences or in full, and booleans in the type of their field, or as
a byte where they are elements of a collection.

## Main definitions

* `Compact.Kind`, `Compact.Value`, `Compact.Fields` : the types, and the values of each.
* `Compact.Value.bytes`, `Compact.Fields.bytes` : what is written.
* `Compact.Value.Plain` : no boolean is an element of a collection.
-/

namespace Compact

/-- The types of values. -/
inductive Kind
  | bool | byte | i16 | i32 | i64 | double | binary | list | set | map | struct | float
  deriving DecidableEq, Repr

/-- The type as it is written for the elements of a collection. -/
def Kind.code : Kind → ℕ
  | bool => 1
  | byte => 3
  | i16 => 4
  | i32 => 5
  | i64 => 6
  | double => 7
  | binary => 8
  | list => 9
  | set => 10
  | map => 11
  | struct => 12
  | float => 13

mutual

inductive Value : Kind → Type
  | bool (b : Bool) : Value .bool
  | byte (b : UInt8) : Value .byte
  | i16 (n : Int16) : Value .i16
  | i32 (n : Int32) : Value .i32
  | i64 (n : Int64) : Value .i64
  | double (bs : List UInt8) (h : bs.length = 8) : Value .double
  | float (bs : List UInt8) (h : bs.length = 4) : Value .float
  | binary (bs : List UInt8) : Value .binary
  | list (k : Kind) (vs : Values k) : Value .list
  | set (k : Kind) (vs : Values k) : Value .set
  | map (k l : Kind) (es : Entries k l) : Value .map
  | struct (fs : Fields) : Value .struct

/-- The elements of a list or a set. -/
inductive Values : Kind → Type
  | nil {k : Kind} : Values k
  | cons {k : Kind} (v : Value k) (vs : Values k) : Values k

/-- The entries of a map. -/
inductive Entries : Kind → Kind → Type
  | nil {k l : Kind} : Entries k l
  | cons {k l : Kind} (key : Value k) (v : Value l) (es : Entries k l) : Entries k l

/-- The fields of a struct. -/
inductive Fields : Type
  | nil : Fields
  | cons (id : Int16) (k : Kind) (v : Value k) (fs : Fields) : Fields

end

/-- Seven bits a byte, the lowest first; the high bit says that more follow. -/
def varint (n : ℕ) : List UInt8 :=
  if n < 128 then [UInt8.ofNat n] else UInt8.ofNat (n % 128 + 128) :: varint (n / 128)

/-- Integers by distance from zero, the negative ones odd. -/
def zigzag (n : ℤ) : ℕ := if 0 ≤ n then (2 * n).toNat else (-2 * n - 1).toNat

def Values.length {k : Kind} : Values k → ℕ
  | .nil => 0
  | .cons _ vs => vs.length + 1

def Entries.length {k l : Kind} : Entries k l → ℕ
  | .nil => 0
  | .cons _ _ es => es.length + 1

/-- The header of a list or a set. -/
def collectionHeader (n : ℕ) (k : Kind) : List UInt8 :=
  if n < 15 then [UInt8.ofNat (n * 16 + k.code)] else UInt8.ofNat (15 * 16 + k.code) :: varint n

/-- The header of a map. -/
def mapHeader (n : ℕ) (k l : Kind) : List UInt8 :=
  if n = 0 then varint 0 else varint n ++ [UInt8.ofNat (k.code * 16 + l.code)]

/-- The type as it is written for a field. -/
def Value.fieldType {k : Kind} : Value k → ℕ
  | .bool b => if b then 1 else 2
  | _ => k.code

/-- The header of a field after the one with the id `last`. -/
def fieldHeader (last id : Int16) (type : ℕ) : List UInt8 :=
  if 0 < id.toInt - last.toInt ∧ id.toInt - last.toInt ≤ 15 then
    [UInt8.ofNat ((id.toInt - last.toInt).toNat * 16 + type)]
  else UInt8.ofNat type :: varint (zigzag id.toInt)

mutual

/-- A value, in a field or as an element. -/
def Value.bytes (field : Bool) : {k : Kind} → Value k → List UInt8
  | _, .bool b => if field then [] else [if b then 1 else 2]
  | _, .byte b => [b]
  | _, .i16 n => varint (zigzag n.toInt)
  | _, .i32 n => varint (zigzag n.toInt)
  | _, .i64 n => varint (zigzag n.toInt)
  | _, .double bs _ => bs
  | _, .float bs _ => bs
  | _, .binary bs => varint bs.length ++ bs
  | _, .list k vs => collectionHeader vs.length k ++ vs.bytes
  | _, .set k vs => collectionHeader vs.length k ++ vs.bytes
  | _, .map k l es => mapHeader es.length k l ++ es.bytes
  | _, .struct fs => fs.bytes 0

def Values.bytes : {k : Kind} → Values k → List UInt8
  | _, .nil => []
  | _, .cons v vs => v.bytes false ++ vs.bytes

def Entries.bytes : {k l : Kind} → Entries k l → List UInt8
  | _, _, .nil => []
  | _, _, .cons key v es => (key.bytes false ++ v.bytes false) ++ es.bytes

/-- The fields after the one with the id `last`, and the stop. -/
def Fields.bytes (last : Int16) : Fields → List UInt8
  | .nil => [0]
  | .cons id _ v fs => fieldHeader last id v.fieldType ++ (v.bytes true ++ fs.bytes id)

end

mutual

/-- No boolean is an element of a collection. -/
def Value.Plain : {k : Kind} → Value k → Prop
  | _, .list _ vs => vs.Plain
  | _, .set _ vs => vs.Plain
  | _, .map _ _ es => es.Plain
  | _, .struct fs => fs.Plain
  | _, _ => True

def Values.Plain : {k : Kind} → Values k → Prop
  | _, .nil => True
  | k, .cons v vs => k ≠ .bool ∧ v.Plain ∧ vs.Plain

def Entries.Plain : {k l : Kind} → Entries k l → Prop
  | _, _, .nil => True
  | k, l, .cons key v es => k ≠ .bool ∧ l ≠ .bool ∧ key.Plain ∧ v.Plain ∧ es.Plain

def Fields.Plain : Fields → Prop
  | .nil => True
  | .cons _ _ v fs => v.Plain ∧ fs.Plain

end

end Compact
