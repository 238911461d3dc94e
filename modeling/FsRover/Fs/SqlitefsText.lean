import FsRover.Grub

/-!
# Names and text of a database

Objects of the schema are shown under escaped names, rows as JSON. Both writers look at one byte at a
time; the name writer looks also at its place and, for the first byte, at the whole stem.

## Main definitions

* `FsRover.CString` : a string that ends at its first zero byte.
* `FsRover.percentDecode`, `FsRover.jsonDecode` : what undoes the escapes.
* `FsRover.SafeName` : a name that a path of any system can carry.

## Main results

* `FsRover.sqlitefs_text_lossless` : both writers lose nothing, and names are safe.
-/

namespace FsRover

/-- The bytes of a C string, without its terminator. -/
structure CString where
  bytes : List UInt8
  zero_notMem : 0 ∉ bytes

theorem CString.ext_bytes {a b : CString} (h : a.bytes = b.bytes) : a = b := by
  cases a
  cases b
  rw [CString.mk.injEq]
  exact h

/-! ### Buffers -/

/-- `sqlitefs_buf_append`. `room n` tells whether `sqlitefs_buf_reserve` can give `n` bytes. -/
def sqlitefsBufAppend (room : ℕ → Bool) (out data : List UInt8) : Option (List UInt8) := do
  let need ← grubAdd out.length data.length
  let need ← grubAdd need 1
  if room need then some (out ++ data) else none

/-- Appends piece after piece. -/
def sqlitefsBufPieces (room : ℕ → Bool) : List UInt8 → List (List UInt8) → Option (List UInt8)
  | out, [] => some out
  | out, piece :: pieces => do
    let out ← sqlitefsBufAppend room out piece
    sqlitefsBufPieces room out pieces

section Buffer

variable {room : ℕ → Bool} {out data text : List UInt8}

theorem sqlitefsBufAppend_eq_some (h : sqlitefsBufAppend room out data = some text) :
    text = out ++ data := by
  rw [sqlitefsBufAppend] at h
  obtain ⟨need, -, h⟩ := Option.bind_eq_some_iff.mp h
  obtain ⟨need', -, h⟩ := Option.bind_eq_some_iff.mp h
  split_ifs at h
  exact (Option.some.inj h).symm

theorem sqlitefsBufAppend_of_room (hlt : out.length + data.length + 1 < 2 ^ 64)
    (hroom : room (out.length + data.length + 1) = true) :
    sqlitefsBufAppend room out data = some (out ++ data) := by
  have hsum : grubAdd out.length data.length = some (out.length + data.length) := by
    rw [grubAdd, if_pos (by omega)]
  have hneed : grubAdd (out.length + data.length) 1 = some (out.length + data.length + 1) := by
    rw [grubAdd, if_pos hlt]
  simp only [sqlitefsBufAppend, hsum, hneed, Option.bind_eq_bind, Option.bind_some, if_pos hroom]

theorem sqlitefsBufPieces_eq_some {pieces : List (List UInt8)}
    (h : sqlitefsBufPieces room out pieces = some text) : text = out ++ pieces.flatten := by
  induction pieces generalizing out with
  | nil => rw [List.flatten_nil, List.append_nil]; exact (Option.some.inj h).symm
  | cons piece pieces ih =>
    rw [sqlitefsBufPieces] at h
    obtain ⟨next, happend, h⟩ := Option.bind_eq_some_iff.mp h
    rw [ih h, sqlitefsBufAppend_eq_some happend, List.flatten_cons, List.append_assoc]

theorem sqlitefsBufPieces_of_room {pieces : List (List UInt8)} {n : ℕ}
    (hn : out.length + pieces.flatten.length + 1 ≤ n) (hlt : n < 2 ^ 64)
    (hroom : ∀ k ≤ n, room k = true) :
    sqlitefsBufPieces room out pieces = some (out ++ pieces.flatten) := by
  induction pieces generalizing out with
  | nil => rw [sqlitefsBufPieces, List.flatten_nil, List.append_nil]
  | cons piece pieces ih =>
    rw [List.flatten_cons, List.length_append] at hn
    have happend : sqlitefsBufAppend room out piece = some (out ++ piece) :=
      sqlitefsBufAppend_of_room (by omega) (hroom _ (by omega))
    rw [sqlitefsBufPieces, happend, Option.bind_eq_bind, Option.bind_some,
      ih (by rw [List.length_append]; omega), List.flatten_cons, List.append_assoc]

end Buffer

/-! ### The writers -/

/-- The lower case letters of ASCII in upper case. -/
def asciiUpper (c : UInt8) : UInt8 := if 0x61 ≤ c ∧ c ≤ 0x7a then c - 0x20 else c

/-- The table `hex`. -/
def sqlitefsHex (d : UInt8) : UInt8 := if d < 10 then 0x30 + d else 0x41 + (d - 10)

/-- The loop of `sqlitefs_reserved_name`: at most four bytes before the first dot, in upper case. -/
def sqlitefsStem (name : List UInt8) : List UInt8 :=
  ((name.take 4).takeWhile (· ≠ 0x2e)).map asciiUpper

/-- `sqlitefs_reserved_name`. -/
def sqlitefsReservedName (name : List UInt8) : Bool :=
  let stem := sqlitefsStem name
  stem = [0x43, 0x4f, 0x4e] || stem = [0x50, 0x52, 0x4e] || stem = [0x41, 0x55, 0x58]
    || stem = [0x4e, 0x55, 0x4c]
    || (stem.length = 4 && stem.take 3 = [0x43, 0x4f, 0x4d]
      && 0x31 ≤ stem.getD 3 0 && stem.getD 3 0 ≤ 0x39)
    || (stem.length = 4 && stem.take 3 = [0x4c, 0x50, 0x54]
      && 0x31 ≤ stem.getD 3 0 && stem.getD 3 0 ≤ 0x39)

/-- The bytes that `sqlitefs_path_name` escapes wherever they stand. -/
def sqlitefsEscaped (c : UInt8) : Bool :=
  c < 0x20 || c = 0x7f || c = 0x25 || c = 0x2f || c = 0x5c || c = 0x3a || c = 0x2a || c = 0x3f
    || c = 0x22 || c = 0x3c || c = 0x3e || c = 0x7c

/-- What `sqlitefs_path_name` appends for the byte `c` at index `i`. -/
def sqlitefsPathPiece (name : List UInt8) (i : ℕ) (c : UInt8) : List UInt8 :=
  if sqlitefsEscaped c || (i + 1 = name.length && (c = 0x2e || c = 0x20))
      || (i = 0 && sqlitefsReservedName name)
      || (i = 0 && (name = [0x2e] || name = [0x2e, 0x2e])) then
    [0x25, sqlitefsHex (c >>> (4 : UInt8)), sqlitefsHex (c &&& 0xf)]
  else [c]

/-- `sqlitefs_path_name`. -/
def sqlitefsPathName (room : ℕ → Bool) (name : CString) : Option (List UInt8) := do
  let out ← sqlitefsBufPieces room []
    (name.bytes.mapIdx fun i c => sqlitefsPathPiece name.bytes i c)
  if name.bytes = [] then sqlitefsBufAppend room out [0x25, 0x30, 0x30] else some out

/-- What `sqlitefs_json_string` appends for one byte. -/
def sqlitefsJsonPiece (c : UInt8) : List UInt8 :=
  if c = 0x22 ∨ c = 0x5c then [0x5c, c]
  else if c = 0x08 ∨ c = 0x0c ∨ c = 0x0a ∨ c = 0x0d ∨ c = 0x09 then
    [0x5c, if c = 0x08 then 0x62 else if c = 0x0c then 0x66 else if c = 0x0a then 0x6e
      else if c = 0x0d then 0x72 else 0x74]
  else if c < 0x20 then
    [0x5c, 0x75, 0x30, 0x30, sqlitefsHex (c >>> (4 : UInt8)), sqlitefsHex (c &&& 0xf)]
  else [c]

/-- `sqlitefs_json_string`. -/
def sqlitefsJsonString (room : ℕ → Bool) (buf text : List UInt8) : Option (List UInt8) := do
  let out ← sqlitefsBufAppend room buf [0x22]
  let out ← sqlitefsBufPieces room out (text.map sqlitefsJsonPiece)
  sqlitefsBufAppend room out [0x22]

/-! ### Undoing the escapes -/

/-- The value of a hexadecimal digit. -/
def hexValue (c : UInt8) : Option ℕ :=
  if 0x30 ≤ c ∧ c ≤ 0x39 then some (c.toNat - 0x30)
  else if 0x41 ≤ c ∧ c ≤ 0x46 then some (c.toNat - 0x41 + 10)
  else if 0x61 ≤ c ∧ c ≤ 0x66 then some (c.toNat - 0x61 + 10)
  else none

/-- Replaces each `%XY` by the byte `XY`. -/
def percentDecode : List UInt8 → Option (List UInt8)
  | [] => some []
  | c :: rest =>
    if c = 0x25 then
      match rest with
      | high :: low :: rest => do
        let h ← hexValue high
        let l ← hexValue low
        return UInt8.ofNat (16 * h + l) :: (← percentDecode rest)
      | _ => none
    else do return c :: (← percentDecode rest)

/-- The escapes of two characters in a JSON string. -/
def jsonEscape (c : UInt8) : Option UInt8 :=
  if c = 0x22 ∨ c = 0x5c ∨ c = 0x2f then some c
  else if c = 0x62 then some 0x08
  else if c = 0x66 then some 0x0c
  else if c = 0x6e then some 0x0a
  else if c = 0x72 then some 0x0d
  else if c = 0x74 then some 0x09
  else none

/-- The four digits of an escape `\u`. -/
def jsonUnit (a b c d : UInt8) : Option ℕ := do
  return 4096 * (← hexValue a) + 256 * (← hexValue b) + 16 * (← hexValue c) + (← hexValue d)

/-- What follows the opening quote of a JSON string literal, up to the end of the text: the bytes of
the string, `\u` escapes in UTF-8 and a surrogate by the pair that it starts. -/
def jsonChars : List UInt8 → Option (List UInt8)
  | [] => none
  | c :: rest =>
    if c = 0x22 then if rest = [] then some [] else none
    else if c < 0x20 then none
    else if c ≠ 0x5c then (jsonChars rest).map (c :: ·)
    else
      match rest with
      | [] => none
      | e :: rest =>
        if e ≠ 0x75 then (jsonEscape e).bind fun byte => (jsonChars rest).map (byte :: ·)
        else
          match rest with
          | a :: b :: c :: d :: rest => (jsonUnit a b c d).bind fun unit =>
            if unit < 0xd800 ∨ 0xe000 ≤ unit then
              (jsonChars rest).map (String.utf8EncodeChar (Char.ofNat unit) ++ ·)
            else
              match rest with
              | x :: y :: a :: b :: c :: d :: rest => (jsonUnit a b c d).bind fun low =>
                if unit < 0xdc00 ∧ x = 0x5c ∧ y = 0x75 ∧ 0xdc00 ≤ low ∧ low < 0xe000 then
                  (jsonChars rest).map (String.utf8EncodeChar
                    (Char.ofNat (0x10000 + (unit - 0xd800) * 0x400 + (low - 0xdc00))) ++ ·)
                else none
              | _ => none
          | _ => none

/-- The bytes of the string that a JSON string literal stands for. -/
def jsonDecode : List UInt8 → Option (List UInt8)
  | [] => none
  | c :: rest => if c = 0x22 then jsonChars rest else none

/-! ### Names -/

/-- The byte `c` as `%XY`. -/
def percentEscape (c : UInt8) : List UInt8 :=
  [0x25, sqlitefsHex (c >>> (4 : UInt8)), sqlitefsHex (c &&& 0xf)]

/-- What may stand for the byte `c` in a name. -/
def PercentPiece (c : UInt8) (piece : List UInt8) : Prop :=
  piece = percentEscape c ∨ piece = [c] ∧ sqlitefsEscaped c = false

theorem hexDigits_spec (c : UInt8) : hexValue (sqlitefsHex (c >>> (4 : UInt8))) = some (c.toNat / 16)
    ∧ hexValue (sqlitefsHex (c &&& 0xf)) = some (c.toNat % 16)
    ∧ (∀ d ∈ percentEscape c, d = 0x25 ∨ sqlitefsEscaped d = false)
    ∧ sqlitefsHex (c &&& 0xf) ≠ 0x2e ∧ sqlitefsHex (c &&& 0xf) ≠ 0x20 := by
  have hall : ∀ n < 256, hexValue (sqlitefsHex (UInt8.ofNat n >>> (4 : UInt8))) = some (n / 16)
      ∧ hexValue (sqlitefsHex (UInt8.ofNat n &&& 0xf)) = some (n % 16)
      ∧ sqlitefsEscaped (sqlitefsHex (UInt8.ofNat n >>> (4 : UInt8))) = false
      ∧ sqlitefsEscaped (sqlitefsHex (UInt8.ofNat n &&& 0xf)) = false
      ∧ sqlitefsHex (UInt8.ofNat n &&& 0xf) ≠ 0x2e
      ∧ sqlitefsHex (UInt8.ofNat n &&& 0xf) ≠ 0x20 := by
    decide +kernel
  have h := hall c.toNat (UInt8.toNat_lt c)
  rw [UInt8.ofNat_toNat] at h
  obtain ⟨hhigh, hlow, hhighPlain, hlowPlain, hdot, hspace⟩ := h
  refine ⟨hhigh, hlow, fun d hd => ?_, hdot, hspace⟩
  rcases List.mem_cons.mp hd with rfl | hd
  · exact .inl rfl
  rcases List.mem_cons.mp hd with rfl | hd
  · exact .inr hhighPlain
  · obtain rfl := List.mem_singleton.mp hd
    exact .inr hlowPlain

theorem percentDecode_piece {c : UInt8} {piece : List UInt8} (h : PercentPiece c piece)
    (rest : List UInt8) :
    percentDecode (piece ++ rest) = (percentDecode rest).map (c :: ·) := by
  rcases h with rfl | ⟨rfl, hplain⟩
  · obtain ⟨hhigh, hlow, -⟩ := hexDigits_spec c
    have hbyte : UInt8.ofNat (16 * (c.toNat / 16) + c.toNat % 16) = c := by
      rw [Nat.div_add_mod, UInt8.ofNat_toNat]
    rw [percentEscape, List.cons_append, List.cons_append, List.cons_append, List.nil_append,
      percentDecode.eq_def]
    simp only [if_pos, hhigh, hlow, Option.bind_eq_bind, Option.bind_some, hbyte]
    cases percentDecode rest <;> rfl
  · have hne : c ≠ 0x25 := by
      rintro rfl
      exact absurd hplain (by decide)
    rw [List.singleton_append, percentDecode.eq_def]
    dsimp only
    rw [if_neg hne]
    cases percentDecode rest <;> rfl

section Pieces

variable {name : List UInt8} {pieces : List (List UInt8)}

theorem percentDecode_flatten (h : List.Forall₂ PercentPiece name pieces) :
    percentDecode pieces.flatten = some name := by
  induction h with
  | nil => rfl
  | cons hpiece _ ih => rw [List.flatten_cons, percentDecode_piece hpiece, ih, Option.map_some]

theorem plain_of_mem_flatten (h : List.Forall₂ PercentPiece name pieces) {d : UInt8}
    (hd : d ∈ pieces.flatten) : d = 0x25 ∨ sqlitefsEscaped d = false := by
  induction h with
  | nil => exact absurd hd List.not_mem_nil
  | @cons c piece _ _ hpiece _ ih =>
    rw [List.flatten_cons, List.mem_append] at hd
    rcases hd with hd | hd
    · rcases hpiece with rfl | ⟨rfl, hplain⟩
      · exact (hexDigits_spec c).2.2.1 d hd
      · rw [List.mem_singleton.mp hd]
        exact .inr hplain
    · exact ih hd

/-- The part before the first dot holds an escape, or is that of the name itself. -/
theorem takeWhile_flatten (h : List.Forall₂ PercentPiece name pieces) :
    0x25 ∈ pieces.flatten.takeWhile (· ≠ 0x2e)
      ∨ pieces.flatten.takeWhile (· ≠ 0x2e) = name.takeWhile (· ≠ 0x2e) := by
  induction h with
  | nil => exact .inr rfl
  | @cons c piece _ _ hpiece _ ih =>
    rw [List.flatten_cons]
    rcases hpiece with rfl | ⟨rfl, -⟩
    · left
      rw [percentEscape, List.cons_append, List.takeWhile_cons_of_pos (by decide)]
      exact List.mem_cons_self
    · rw [List.singleton_append]
      by_cases hc : c = 0x2e
      · right
        rw [List.takeWhile_cons_of_neg (by simp [hc]), List.takeWhile_cons_of_neg (by simp [hc])]
      · rw [List.takeWhile_cons_of_pos (by simp [hc]), List.takeWhile_cons_of_pos (by simp [hc])]
        exact ih.imp (List.mem_cons_of_mem _) (congrArg (c :: ·))

end Pieces

theorem sqlitefsPathPiece_spec (name : List UInt8) (i : ℕ) (c : UInt8) :
    PercentPiece c (sqlitefsPathPiece name i c) := by
  rw [sqlitefsPathPiece]
  split
  · exact .inl rfl
  · next h =>
    refine .inr ⟨rfl, ?_⟩
    simp only [Bool.or_eq_true, not_or] at h
    exact Bool.eq_false_iff.mpr h.1.1.1

theorem forall₂_mapIdx {α β : Type} {R : α → β → Prop} {f : ℕ → α → β} {l : List α}
    (h : ∀ i a, R a (f i a)) : List.Forall₂ R l (l.mapIdx f) := by
  induction l generalizing f with
  | nil => exact .nil
  | cons a l ih =>
    rw [List.mapIdx_cons]
    exact .cons (h 0 a) (ih fun i b => h (i + 1) b)

/-- The text that `sqlitefs_path_name` writes for a name that is not empty. -/
def sqlitefsPathText (name : List UInt8) : List UInt8 :=
  (name.mapIdx fun i c => sqlitefsPathPiece name i c).flatten

theorem sqlitefsPathText_pieces (name : List UInt8) :
    List.Forall₂ PercentPiece name (name.mapIdx fun i c => sqlitefsPathPiece name i c) :=
  forall₂_mapIdx fun i c => sqlitefsPathPiece_spec name i c

/-- The last byte of a name is escaped if it is a dot or a space. -/
theorem getLast_sqlitefsPathText {name : List UInt8} {d : UInt8}
    (h : (sqlitefsPathText name).getLast? = some d) : d ≠ 0x2e ∧ d ≠ 0x20 := by
  rcases List.eq_nil_or_concat name with rfl | ⟨init, c, rfl⟩
  · exact absurd h (by rw [sqlitefsPathText, List.mapIdx_nil]; exact Option.some_ne_none _ ∘ Eq.symm)
  · rw [List.concat_eq_append] at h
    rw [sqlitefsPathText, List.mapIdx_concat, List.flatten_append, List.flatten_singleton,
      sqlitefsPathPiece] at h
    split at h
    · rw [List.getLast?_append, List.getLast?_cons_cons, List.getLast?_cons_cons,
        List.getLast?_singleton, Option.some_or] at h
      obtain ⟨-, -, -, hdot, hspace⟩ := hexDigits_spec c
      rw [← Option.some.inj h]
      exact ⟨hdot, hspace⟩
    · next hplain =>
      rw [List.getLast?_append, List.getLast?_singleton, Option.some_or] at h
      rw [← Option.some.inj h]
      simp only [Bool.or_eq_true, not_or, Bool.and_eq_true, decide_eq_true_eq,
        List.length_append, List.length_singleton, true_and] at hplain
      exact hplain.1.1.2

/-! ### Device names -/

/-- The reserved device names, in upper case. -/
def deviceNames : List (List UInt8) :=
  [[0x43, 0x4f, 0x4e], [0x50, 0x52, 0x4e], [0x41, 0x55, 0x58], [0x4e, 0x55, 0x4c]]
    ++ (List.range' 0x31 9).map (fun d => [0x43, 0x4f, 0x4d, UInt8.ofNat d])
    ++ (List.range' 0x31 9).map (fun d => [0x4c, 0x50, 0x54, UInt8.ofNat d])

/-- What stands before the first dot, in upper case. -/
def deviceStem (name : List UInt8) : List UInt8 := (name.takeWhile (· ≠ 0x2e)).map asciiUpper

theorem takeWhile_take {α : Type} (p : α → Bool) (l : List α) (n : ℕ) :
    (l.take n).takeWhile p = (l.takeWhile p).take n := by
  induction l generalizing n with
  | nil => rw [List.take_nil, List.takeWhile_nil, List.take_nil]
  | cons a l ih =>
    cases n with
    | zero => rw [List.take_zero, List.takeWhile_nil, List.take_zero]
    | succ n =>
      rw [List.take_succ_cons]
      by_cases ha : p a = true
      · rw [List.takeWhile_cons_of_pos ha, List.takeWhile_cons_of_pos ha, List.take_succ_cons, ih]
      · rw [List.takeWhile_cons_of_neg ha, List.takeWhile_cons_of_neg ha, List.take_nil]

/-- The window of four bytes is wide enough for every device name. -/
theorem sqlitefsReservedName_of_device {name : List UInt8} (h : deviceStem name ∈ deviceNames) :
    sqlitefsReservedName name = true := by
  have hlength : ∀ s ∈ deviceNames, s.length ≤ 4 := by decide
  have hstem : sqlitefsStem name = deviceStem name := by
    have hle := hlength _ h
    rw [deviceStem, List.length_map] at hle
    rw [sqlitefsStem, deviceStem, takeWhile_take, List.take_of_length_le hle]
  have hreserved : ∀ s ∈ deviceNames, (s = [0x43, 0x4f, 0x4e] || s = [0x50, 0x52, 0x4e]
      || s = [0x41, 0x55, 0x58] || s = [0x4e, 0x55, 0x4c]
      || (s.length = 4 && s.take 3 = [0x43, 0x4f, 0x4d] && 0x31 ≤ s.getD 3 0 && s.getD 3 0 ≤ 0x39)
      || (s.length = 4 && s.take 3 = [0x4c, 0x50, 0x54]
        && 0x31 ≤ s.getD 3 0 && s.getD 3 0 ≤ 0x39)) = true := by
    decide
  rw [sqlitefsReservedName, hstem]
  exact hreserved _ h

theorem deviceStem_sqlitefsPathText {name : List UInt8} :
    deviceStem (sqlitefsPathText name) ∉ deviceNames := by
  have hplain : ∀ s ∈ deviceNames, (0x25 : UInt8) ∉ s := by decide
  intro h
  -- a device name holds no escape, so it is the stem of the name, which is then escaped
  have hescape : (0x25 : UInt8) ∉ (sqlitefsPathText name).takeWhile (· ≠ 0x2e) := fun hmem =>
    hplain _ h (List.mem_map.mpr ⟨0x25, hmem, by decide⟩)
  rcases takeWhile_flatten (sqlitefsPathText_pieces name) with hmem | hsame
  · exact hescape hmem
  · have hreserved : sqlitefsReservedName name = true := by
      refine sqlitefsReservedName_of_device ?_
      rw [deviceStem, ← hsame]
      exact h
    cases name with
    | nil => exact absurd hreserved (by decide)
    | cons c tail =>
      refine hescape ?_
      rw [sqlitefsPathText, List.mapIdx_cons, List.flatten_cons, sqlitefsPathPiece,
        if_pos (by simp [hreserved]), List.cons_append, List.takeWhile_cons_of_pos (by decide)]
      exact List.mem_cons_self

/-- A name that a path can carry: no control character, no separator or wildcard, no dot or space at
the end, and no device before the first dot. -/
structure SafeName (out : List UInt8) : Prop where
  ne_nil : out ≠ []
  printable : ∀ c ∈ out, 0x20 ≤ c ∧ c ≠ 0x7f
  notMem : ∀ c ∈ ([0x2f, 0x5c, 0x3a, 0x2a, 0x3f, 0x22, 0x3c, 0x3e, 0x7c] : List UInt8), c ∉ out
  last : ∀ c ∈ out.getLast?, c ≠ 0x2e ∧ c ≠ 0x20
  ne_dot : out ≠ [0x2e]
  ne_up : out ≠ [0x2e, 0x2e]
  device : deviceStem out ∉ deviceNames

theorem safeName_of_plain {out : List UInt8} (hne : out ≠ [])
    (hplain : ∀ d ∈ out, d = 0x25 ∨ sqlitefsEscaped d = false)
    (hlast : ∀ c ∈ out.getLast?, c ≠ 0x2e ∧ c ≠ 0x20) (hdevice : deviceStem out ∉ deviceNames) :
    SafeName out where
  ne_nil := hne
  printable c hc := by
    rcases hplain c hc with rfl | h
    · decide
    · simp only [sqlitefsEscaped, Bool.or_eq_false_iff, decide_eq_false_iff_not] at h
      exact ⟨UInt8.not_lt.mp (by tauto), by tauto⟩
  notMem c hc hmem := by
    have hescaped : ([0x2f, 0x5c, 0x3a, 0x2a, 0x3f, 0x22, 0x3c, 0x3e, 0x7c] : List UInt8).all
        (fun c => c != 0x25 && sqlitefsEscaped c) = true := by
      decide
    obtain ⟨hne, htrue⟩ := Bool.and_eq_true_iff.mp (List.all_eq_true.mp hescaped c hc)
    rcases hplain c hmem with rfl | hfalse
    · cases hne
    · rw [htrue] at hfalse
      cases hfalse
  last := hlast
  ne_dot h := (hlast 0x2e (by rw [h]; rfl)).1 rfl
  ne_up h := (hlast 0x2e (by rw [h]; rfl)).1 rfl
  device := hdevice

theorem sqlitefsPathText_safe {name : List UInt8} (h : name ≠ []) :
    SafeName (sqlitefsPathText name) := by
  refine safeName_of_plain ?_ (fun d hd => plain_of_mem_flatten (sqlitefsPathText_pieces name) hd)
    (fun c hc => getLast_sqlitefsPathText hc) deviceStem_sqlitefsPathText
  intro hnil
  have hdecode := percentDecode_flatten (sqlitefsPathText_pieces name)
  rw [← sqlitefsPathText, hnil, percentDecode] at hdecode
  exact h (Option.some.inj hdecode).symm

/-- `sqlitefs_path_name` writes the text of the name, and a zero byte for the empty one. -/
theorem sqlitefsPathName_eq_some {room : ℕ → Bool} {name : CString} {out : List UInt8}
    (h : sqlitefsPathName room name = some out) :
    out = if name.bytes = [] then [0x25, 0x30, 0x30] else sqlitefsPathText name.bytes := by
  rw [sqlitefsPathName] at h
  obtain ⟨text, htext, h⟩ := Option.bind_eq_some_iff.mp h
  have hpieces := sqlitefsBufPieces_eq_some htext
  rw [List.nil_append] at hpieces
  by_cases hnil : name.bytes = []
  · rw [if_pos hnil] at h ⊢
    rw [sqlitefsBufAppend_eq_some h, hpieces, hnil]
    rfl
  · rw [if_neg hnil] at h ⊢
    rw [← Option.some.inj h, hpieces, sqlitefsPathText]

theorem percentDecode_sqlitefsPathName {room : ℕ → Bool} {name : CString} {out : List UInt8}
    (h : sqlitefsPathName room name = some out) :
    percentDecode out = some (if name.bytes = [] then [0] else name.bytes) := by
  rw [sqlitefsPathName_eq_some h]
  by_cases hnil : name.bytes = []
  · rw [if_pos hnil, if_pos hnil]
    decide
  · rw [if_neg hnil, if_neg hnil]
    exact percentDecode_flatten (sqlitefsPathText_pieces name.bytes)

/-- Two strings of one name are the same: the zero byte of the empty one stands in no other. -/
theorem sqlitefsPathName_inj {room room' : ℕ → Bool} {a b : CString} {out : List UInt8}
    (ha : sqlitefsPathName room a = some out) (hb : sqlitefsPathName room' b = some out) :
    a = b := by
  have hbytes := Option.some.inj
    ((percentDecode_sqlitefsPathName ha).symm.trans (percentDecode_sqlitefsPathName hb))
  have hzero : ∀ c : CString, c.bytes ≠ [0] := fun c hc => c.zero_notMem (by simp [hc])
  refine CString.ext_bytes ?_
  by_cases hanil : a.bytes = []
  · by_cases hbnil : b.bytes = []
    · rw [hanil, hbnil]
    · rw [if_pos hanil, if_neg hbnil] at hbytes
      exact absurd hbytes.symm (hzero b)
  · by_cases hbnil : b.bytes = []
    · rw [if_neg hanil, if_pos hbnil] at hbytes
      exact absurd hbytes (hzero a)
    · rwa [if_neg hanil, if_neg hbnil] at hbytes

/-! ### JSON strings -/

theorem jsonUnit_control {c : UInt8} :
    jsonUnit 0x30 0x30 (sqlitefsHex (c >>> (4 : UInt8))) (sqlitefsHex (c &&& 0xf))
      = some c.toNat := by
  obtain ⟨hhigh, hlow, -⟩ := hexDigits_spec c
  have hzero : hexValue 0x30 = some 0 := by decide
  have hsum : 4096 * 0 + 256 * 0 + 16 * (c.toNat / 16) + c.toNat % 16 = c.toNat := by omega
  rw [jsonUnit, hhigh, hlow, hzero]
  exact congrArg some hsum

theorem utf8_control {n : ℕ} (h : n < 0x20) :
    String.utf8EncodeChar (Char.ofNat n) = [UInt8.ofNat n] := by
  have hall : ∀ n < 0x20, String.utf8EncodeChar (Char.ofNat n) = [UInt8.ofNat n] := by
    decide
  exact hall n h

theorem jsonChars_escape {e byte : UInt8} (he : e ≠ 0x75) (hbyte : jsonEscape e = some byte)
    (rest : List UInt8) : jsonChars (0x5c :: e :: rest) = (jsonChars rest).map (byte :: ·) := by
  rw [jsonChars.eq_def]
  dsimp only
  rw [if_neg (by decide), if_neg (by decide), if_neg (by decide), if_pos he, hbyte, Option.bind_some]

theorem jsonChars_unit {a b c d : UInt8} {unit : ℕ} (hunit : jsonUnit a b c d = some unit)
    (hlt : unit < 0xd800) (rest : List UInt8) :
    jsonChars (0x5c :: 0x75 :: a :: b :: c :: d :: rest)
      = (jsonChars rest).map (String.utf8EncodeChar (Char.ofNat unit) ++ ·) := by
  rw [jsonChars.eq_def]
  dsimp only
  rw [if_neg (by decide), if_neg (by decide), if_neg (by decide), if_neg (by decide), hunit, Option.bind_some, if_pos (.inl hlt)]

theorem jsonChars_piece (c : UInt8) (rest : List UInt8) :
    jsonChars (sqlitefsJsonPiece c ++ rest) = (jsonChars rest).map (c :: ·) := by
  rw [sqlitefsJsonPiece]
  by_cases hquote : c = 0x22 ∨ c = 0x5c
  · rw [if_pos hquote]
    rcases hquote with rfl | rfl
    · exact jsonChars_escape (by decide) rfl rest
    · exact jsonChars_escape (by decide) rfl rest
  · rw [if_neg hquote]
    by_cases hshort : c = 0x08 ∨ c = 0x0c ∨ c = 0x0a ∨ c = 0x0d ∨ c = 0x09
    · rw [if_pos hshort]
      rcases hshort with rfl | rfl | rfl | rfl | rfl
      all_goals exact jsonChars_escape (by decide) (by decide) rest
    · rw [if_neg hshort]
      by_cases hcontrol : c < 0x20
      · rw [if_pos hcontrol]
        have hlt : c.toNat < 0x20 := hcontrol
        refine (jsonChars_unit jsonUnit_control (by omega) rest).trans ?_
        rw [utf8_control hlt, UInt8.ofNat_toNat]
        rfl
      · rw [if_neg hcontrol, List.singleton_append, jsonChars.eq_def]
        dsimp only
        rw [if_neg (fun h => hquote (.inl h)), if_neg hcontrol,
          if_pos (fun h => hquote (.inr h))]

theorem jsonChars_pieces (text : List UInt8) :
    jsonChars ((text.map sqlitefsJsonPiece).flatten ++ [0x22]) = some text := by
  induction text with
  | nil => rfl
  | cons c text ih =>
    rw [List.map_cons, List.flatten_cons, List.append_assoc, jsonChars_piece, ih, Option.map_some]

/-- What `sqlitefs_json_string` appends is a literal of the text. -/
theorem sqlitefsJsonString_eq_some {room : ℕ → Bool} {buf text out : List UInt8}
    (h : sqlitefsJsonString room buf text = some out) :
    ∃ literal, out = buf ++ literal ∧ jsonDecode literal = some text := by
  rw [sqlitefsJsonString] at h
  obtain ⟨opened, hopened, h⟩ := Option.bind_eq_some_iff.mp h
  obtain ⟨written, hwritten, h⟩ := Option.bind_eq_some_iff.mp h
  refine ⟨0x22 :: ((text.map sqlitefsJsonPiece).flatten ++ [0x22]), ?_, ?_⟩
  · rw [sqlitefsBufAppend_eq_some h, sqlitefsBufPieces_eq_some hwritten,
      sqlitefsBufAppend_eq_some hopened, List.append_assoc, List.append_assoc]
    rfl
  · rw [jsonDecode, if_pos rfl]
    exact jsonChars_pieces text

/-! ### Room -/

theorem length_flatten_le {pieces : List (List UInt8)} {k : ℕ}
    (h : ∀ piece ∈ pieces, piece.length ≤ k) : pieces.flatten.length ≤ k * pieces.length := by
  induction pieces with
  | nil => exact Nat.zero_le _
  | cons piece pieces ih =>
    rw [List.flatten_cons, List.length_append, List.length_cons, Nat.mul_succ]
    have hpiece := h piece List.mem_cons_self
    have hrest := ih fun p hp => h p (List.mem_cons_of_mem _ hp)
    omega

/-- With room for three bytes for each one the name is written. -/
theorem sqlitefsPathName_of_room {room : ℕ → Bool} {name : CString} {n : ℕ}
    (hn : 3 * name.bytes.length + 4 ≤ n) (hlt : n < 2 ^ 64) (hroom : ∀ k ≤ n, room k = true) :
    ∃ out, sqlitefsPathName room name = some out := by
  have hpieces : ∀ piece ∈ name.bytes.mapIdx fun i c => sqlitefsPathPiece name.bytes i c,
      piece.length ≤ 3 := by
    intro piece hpiece
    obtain ⟨i, hi, rfl⟩ := List.mem_mapIdx.mp hpiece
    rw [sqlitefsPathPiece]
    split
    · exact Nat.le_refl 3
    · exact Nat.succ_le_succ (Nat.zero_le 2)
  have hlength := length_flatten_le hpieces
  rw [List.length_mapIdx] at hlength
  have hsize : ([] : List UInt8).length + (name.bytes.mapIdx fun i c =>
      sqlitefsPathPiece name.bytes i c).flatten.length + 1 ≤ n := by
    rw [List.length_nil]
    omega
  rw [sqlitefsPathName, sqlitefsBufPieces_of_room hsize hlt hroom, Option.bind_eq_bind,
    Option.bind_some]
  by_cases hnil : name.bytes = []
  · rw [if_pos hnil, hnil]
    exact ⟨_, sqlitefsBufAppend_of_room (by decide) (hroom _ (by exact (by omega : 4 ≤ n)))⟩
  · rw [if_neg hnil]
    exact ⟨_, rfl⟩

/-- With room for six bytes for each one the text is written. -/
theorem sqlitefsJsonString_of_room {room : ℕ → Bool} {buf text : List UInt8} {n : ℕ}
    (hn : buf.length + 6 * text.length + 3 ≤ n) (hlt : n < 2 ^ 64)
    (hroom : ∀ k ≤ n, room k = true) : ∃ out, sqlitefsJsonString room buf text = some out := by
  have hpieces : ∀ piece ∈ text.map sqlitefsJsonPiece, piece.length ≤ 6 := by
    intro piece hpiece
    obtain ⟨c, -, rfl⟩ := List.mem_map.mp hpiece
    rw [sqlitefsJsonPiece]
    split_ifs <;> simp
  have hlength := length_flatten_le hpieces
  rw [List.length_map] at hlength
  have hopen : sqlitefsBufAppend room buf [0x22] = some (buf ++ [0x22]) :=
    sqlitefsBufAppend_of_room (by rw [List.length_singleton]; omega)
      (hroom _ (by rw [List.length_singleton]; omega))
  have hwrite : sqlitefsBufPieces room (buf ++ [0x22]) (text.map sqlitefsJsonPiece)
      = some (buf ++ [0x22] ++ (text.map sqlitefsJsonPiece).flatten) :=
    sqlitefsBufPieces_of_room (by rw [List.length_append, List.length_singleton]; omega) hlt hroom
  simp only [sqlitefsJsonString, hopen, hwrite, Option.bind_eq_bind, Option.bind_some]
  refine ⟨_, sqlitefsBufAppend_of_room ?_ (hroom _ ?_)⟩
  all_goals
    rw [List.length_append, List.length_append, List.length_singleton]
    omega

/-- **SQLite names and row text are lossless.** A name that is written is a safe one, undoing its
escapes gives the string back, with a zero byte for the empty string, and two strings never share a
name. Text that is written is a JSON string literal of the text. Both writers succeed when there is
room. -/
theorem sqlitefs_text_lossless :
    (∀ room name out, sqlitefsPathName room name = some out → SafeName out
      ∧ percentDecode out = some (if name.bytes = [] then [0] else name.bytes))
    ∧ (∀ room room' a b out, sqlitefsPathName room a = some out →
      sqlitefsPathName room' b = some out → a = b)
    ∧ (∀ room buf text out, sqlitefsJsonString room buf text = some out →
      ∃ literal, out = buf ++ literal ∧ jsonDecode literal = some text)
    ∧ (∀ room (name : CString) n, 3 * name.bytes.length + 4 ≤ n → n < 2 ^ 64 →
      (∀ k ≤ n, room k = true) → ∃ out, sqlitefsPathName room name = some out)
    ∧ ∀ room (buf text : List UInt8) n, buf.length + 6 * text.length + 3 ≤ n → n < 2 ^ 64 →
      (∀ k ≤ n, room k = true) → ∃ out, sqlitefsJsonString room buf text = some out := by
  refine ⟨fun room name out h => ⟨?_, percentDecode_sqlitefsPathName h⟩,
    fun room room' a b out ha hb => sqlitefsPathName_inj ha hb,
    fun room buf text out h => sqlitefsJsonString_eq_some h,
    fun room name n hn hlt hroom => sqlitefsPathName_of_room hn hlt hroom,
    fun room buf text n hn hlt hroom => sqlitefsJsonString_of_room hn hlt hroom⟩
  rw [sqlitefsPathName_eq_some h]
  by_cases hnil : name.bytes = []
  · rw [if_pos hnil]
    refine safeName_of_plain (List.cons_ne_nil _ _) (fun d hd => ?_) (fun c hc => ?_) (by decide)
    · rcases List.mem_cons.mp hd with rfl | hd
      · exact .inl rfl
      · obtain rfl := List.eq_of_mem_replicate (show d ∈ List.replicate 2 0x30 from hd)
        exact .inr rfl
    · obtain rfl : 0x30 = c := Option.some.inj hc
      decide
  · rw [if_neg hnil]
    exact sqlitefsPathText_safe hnil

end FsRover
