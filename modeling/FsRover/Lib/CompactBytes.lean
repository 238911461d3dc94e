import FsRover.Lib.Compact

/-!
# Values of the Thrift Compact Protocol as they are written

## Main definitions

* `Compact.Fields.fold`, `Compact.Entries.fold` : going over fields and entries.
* `Compact.Fields.All`, `Compact.Entries.All` : what holds of each of them.
* `Compact.Fields.keep`, `Compact.Value.changeStructs` : fields left out, also inside of maps.

## Main results

* `Compact.Value.bytes_pos`, `Compact.Values.length_le` : an element takes a byte at least.
* `Compact.Fields.fold_keep` : fields that are passed over do not matter.
-/

namespace Compact

/-! ### Lengths -/

theorem varint_pos (n : ℕ) : 0 < (varint n).length := by
  rw [varint]
  split_ifs <;> simp

theorem collectionHeader_pos (n : ℕ) (k : Kind) : 0 < (collectionHeader n k).length := by
  rw [collectionHeader]
  split_ifs <;> simp

theorem mapHeader_pos (n : ℕ) (k l : Kind) : 0 < (mapHeader n k l).length := by
  have hpos := varint_pos
  rw [mapHeader]
  split_ifs
  · exact hpos 0
  · rw [List.length_append]
    have hn := hpos n
    omega

theorem fieldHeader_pos (last id : Int16) (type : ℕ) : 0 < (fieldHeader last id type).length := by
  rw [fieldHeader]
  split_ifs <;> simp

theorem Fields.bytes_pos (last : Int16) (fs : Fields) : 0 < (fs.bytes last).length := by
  cases fs with
  | nil => simp [Fields.bytes]
  | cons id k v fs =>
    have hpos := fieldHeader_pos last id v.fieldType
    rw [Fields.bytes, List.length_append]
    omega

/-- An element takes a byte at least. -/
theorem Value.bytes_pos {k : Kind} (v : Value k) : 0 < (v.bytes false).length := by
  cases v with
  | bool b => simp [Value.bytes]
  | byte b => simp [Value.bytes]
  | i16 n => exact varint_pos _
  | i32 n => exact varint_pos _
  | i64 n => exact varint_pos _
  | double bs h => simp [Value.bytes, h]
  | float bs h => simp [Value.bytes, h]
  | binary bs =>
    have hpos := varint_pos bs.length
    rw [Value.bytes, List.length_append]
    omega
  | list k vs =>
    have hpos := collectionHeader_pos vs.length k
    rw [Value.bytes, List.length_append]
    omega
  | set k vs =>
    have hpos := collectionHeader_pos vs.length k
    rw [Value.bytes, List.length_append]
    omega
  | map k l es =>
    have hpos := mapHeader_pos es.length k l
    rw [Value.bytes, List.length_append]
    omega
  | struct fs => exact fs.bytes_pos 0

theorem Values.length_le {k : Kind} : ∀ vs : Values k, vs.length ≤ vs.bytes.length
  | .nil => Nat.zero_le _
  | .cons v vs => by
    have hpos := v.bytes_pos
    have hle := Values.length_le vs
    rw [Values.length, Values.bytes, List.length_append]
    omega

theorem Entries.length_le {k l : Kind} : ∀ es : Entries k l, es.length ≤ es.bytes.length
  | .nil => Nat.zero_le _
  | .cons key v es => by
    have hpos := v.bytes_pos
    have hle := Entries.length_le es
    rw [Entries.length, Entries.bytes, List.length_append, List.length_append]
    omega

/-- Away from booleans a value is written the same everywhere. -/
theorem Value.bytes_eq {k : Kind} (hk : k ≠ .bool) (v : Value k) : v.bytes false = v.bytes true := by
  cases v with
  | bool b => exact absurd rfl hk
  | _ => rfl

theorem Value.fieldType_eq {k : Kind} (hk : k ≠ .bool) (v : Value k) : v.fieldType = k.code := by
  cases v with
  | bool b => exact absurd rfl hk
  | _ => rfl

theorem Kind.code_pos (k : Kind) : 0 < k.code := by
  cases k <;> decide

theorem Kind.code_lt (k : Kind) : k.code < 16 := by
  cases k <;> decide

theorem Value.fieldType_spec {k : Kind} (v : Value k) : 0 < v.fieldType ∧ v.fieldType < 16 := by
  by_cases hk : k = .bool
  · subst hk
    cases v with
    | bool b => cases b <;> decide
  · rw [v.fieldType_eq hk]
    exact ⟨k.code_pos, k.code_lt⟩

theorem zigzag_lt {n : ℤ} {m : ℕ} (hlow : -m ≤ n) (hhigh : n < m) : zigzag n < 2 * m := by
  rw [zigzag]
  split_ifs <;> omega

/-! ### Folds over fields and entries -/

variable {σ : Type}

/-- Go over the fields with a step that may fail. -/
def Fields.fold (step : σ → Int16 → (k : Kind) → Value k → Option σ) : σ → Fields → Option σ
  | s, .nil => some s
  | s, .cons id k v fs => step s id k v >>= fun s => fs.fold step s

/-- Go over the entries with a step that may fail. -/
def Entries.fold {k l : Kind} (step : σ → Value k → Value l → Option σ) :
    σ → Entries k l → Option σ
  | s, .nil => some s
  | s, .cons key v es => step s key v >>= fun s => es.fold step s

theorem Fields.fold_some : ∀ (fs : Fields) (s : σ), fs.fold (fun s _ _ _ => some s) s = some s
  | .nil, _ => rfl
  | .cons _ _ _ fs, s => Fields.fold_some fs s

/-- What holds of every field. -/
def Fields.All (P : Int16 → (k : Kind) → Value k → Prop) : Fields → Prop
  | .nil => True
  | .cons id k v fs => P id k v ∧ fs.All P

theorem Fields.All.mono {P Q : Int16 → (k : Kind) → Value k → Prop}
    (h : ∀ id k v, P id k v → Q id k v) : ∀ {fs : Fields}, fs.All P → fs.All Q
  | .nil, _ => trivial
  | .cons id k v _, hall => ⟨h id k v hall.1, Fields.All.mono h hall.2⟩

/-- What holds of every entry. -/
def Entries.All {k l : Kind} (P : Value k → Value l → Prop) : Entries k l → Prop
  | .nil => True
  | .cons key v es => P key v ∧ es.All P

theorem Fields.plain_all : ∀ {fs : Fields}, fs.Plain → fs.All fun _ _ v => v.Plain
  | .nil, _ => trivial
  | .cons _ _ _ _, h => by
    rw [Fields.Plain] at h
    exact ⟨h.1, Fields.plain_all h.2⟩

theorem Entries.plain_all {k l : Kind} :
    ∀ {es : Entries k l}, es.Plain → es.All fun key v => key.Plain ∧ v.Plain
  | .nil, _ => trivial
  | .cons _ _ _, h => by
    rw [Entries.Plain] at h
    exact ⟨⟨h.2.2.1, h.2.2.2.1⟩, Entries.plain_all h.2.2.2.2⟩

theorem Entries.All.mono {k l : Kind} {P Q : Value k → Value l → Prop}
    (h : ∀ key v, P key v → Q key v) :
    ∀ {es : Entries k l}, es.All P → es.All Q
  | .nil, _ => trivial
  | .cons key v _, hall => ⟨h key v hall.1, Entries.All.mono h hall.2⟩

/-- Keep the fields with certain ids, with their values changed. -/
def Fields.keep (known : Int16 → Bool) (f : Int16 → (k : Kind) → Value k → Value k) :
    Fields → Fields
  | .nil => .nil
  | .cons id k v fs => if known id then .cons id k (f id k v) (fs.keep known f) else fs.keep known f

/-- Change the values of the entries. -/
def Entries.change {k l : Kind} (f : Value l → Value l) : Entries k l → Entries k l
  | .nil => .nil
  | .cons key v es => .cons key (f v) (es.change f)

/-- Change the fields of a struct. -/
def Value.changeFields (f : Fields → Fields) : {k : Kind} → Value k → Value k
  | _, .struct fs => .struct (f fs)
  | _, v => v

/-- Change the fields of the structs that are the values of a map. -/
def Value.changeStructs (f : Fields → Fields) : {k : Kind} → Value k → Value k
  | _, .map k l es => .map k l (es.change (Value.changeFields f))
  | _, v => v

variable {step : σ → Int16 → (k : Kind) → Value k → Option σ} {known : Int16 → Bool}
  {f : Int16 → (k : Kind) → Value k → Value k}

/-- Fields that the step passes over, and changes that it does not see, do not matter. -/
theorem Fields.fold_keep (hunknown : ∀ s id k v, known id = false → step s id k v = some s)
    (hchange : ∀ s id k v, step s id k (f id k v) = step s id k v) :
    ∀ (fs : Fields) (s : σ), (fs.keep known f).fold step s = fs.fold step s
  | .nil, s => rfl
  | .cons id k v fs, s => by
    rw [Fields.keep]
    cases hknown : known id with
    | true =>
      rw [if_pos rfl, Fields.fold, Fields.fold, hchange]
      exact congrArg (step s id k v >>= ·) (funext fun s => Fields.fold_keep hunknown hchange fs s)
    | false =>
      rw [if_neg (by decide), Fields.fold_keep hunknown hchange fs s, Fields.fold,
        hunknown s id k v hknown]
      rfl

theorem Entries.fold_change {k l : Kind} {step : σ → Value k → Value l → Option σ}
    {f : Value l → Value l} (hchange : ∀ s key v, step s key (f v) = step s key v) :
    ∀ (es : Entries k l) (s : σ), (es.change f).fold step s = es.fold step s
  | .nil, s => rfl
  | .cons key v es, s => by
    rw [Entries.change, Entries.fold, Entries.fold, hchange]
    exact congrArg (step s key v >>= ·) (funext fun s => Entries.fold_change hchange es s)

theorem Entries.length_change {k l : Kind} {f : Value l → Value l} :
    ∀ es : Entries k l, (es.change f).length = es.length
  | .nil => rfl
  | .cons key v es => by rw [Entries.change, Entries.length, Entries.length, Entries.length_change]

theorem Fields.plain_keep (hchange : ∀ id k v, v.Plain → (f id k v).Plain) :
    ∀ {fs : Fields}, fs.Plain → (fs.keep known f).Plain
  | .nil, _ => trivial
  | .cons id k v fs, h => by
    rw [Fields.Plain] at h
    have hrest := Fields.plain_keep hchange h.2
    rw [Fields.keep]
    split_ifs
    · rw [Fields.Plain]
      exact ⟨hchange id k v h.1, hrest⟩
    · exact hrest

theorem Entries.plain_change {k l : Kind} {f : Value l → Value l} (hf : ∀ v, v.Plain → (f v).Plain) :
    ∀ {es : Entries k l}, es.Plain → (es.change f).Plain
  | .nil, _ => by rw [Entries.change, Entries.Plain]; trivial
  | .cons key v es, h => by
    rw [Entries.Plain] at h
    rw [Entries.change, Entries.Plain]
    exact ⟨h.1, h.2.1, h.2.2.1, hf v h.2.2.2.1, Entries.plain_change hf h.2.2.2.2⟩

theorem Value.plain_changeFields {f : Fields → Fields} (hf : ∀ fs, fs.Plain → (f fs).Plain) {k : Kind}
    {v : Value k} (h : v.Plain) : (v.changeFields f).Plain := by
  cases v with
  | struct fs =>
    rw [Value.Plain] at h
    rw [Value.changeFields, Value.Plain]
    exact hf fs h
  | _ => exact h

theorem Value.plain_changeStructs {f : Fields → Fields} (hf : ∀ fs, fs.Plain → (f fs).Plain)
    {k : Kind} {v : Value k} (h : v.Plain) : (v.changeStructs f).Plain := by
  cases v with
  | map k l es =>
    rw [Value.Plain] at h
    rw [Value.changeStructs, Value.Plain]
    exact Entries.plain_change (fun v hv => Value.plain_changeFields hf hv) h
  | _ => exact h

end Compact
