import FsRover.Fs.DwarfsSchema
import FsRover.Lib.CompactBytes

/-!
# Skipping Thrift values

## Main results

* `FsRover.dwarfsCompactVarint_reads`, `FsRover.dwarfsCompactField_reads`,
  `FsRover.dwarfsCompactCollection_reads`, `FsRover.dwarfsCompactMap_reads` : integers and headers
  are read as they are written.
* `FsRover.dwarfsSkipIn_reads` : a value without boolean elements is skipped whole.
* `FsRover.dwarfsSkipIn_stays` : on any bytes the skip ends, and not past the end.
-/

namespace FsRover

open ByteReader Compact Outcome

variable {c : DwarfsCompact}

/-! ### Integers and headers -/

theorem toNat_ofNat_of_lt {n : ℕ} (h : n < 256) : (UInt8.ofNat n).toNat = n := by
  rw [UInt8.toNat_ofNat']
  exact Nat.mod_eq_of_lt h

theorem dwarfsVarintRounds_reads {rounds shift result n : ℕ} (hrounds : 0 < rounds)
    (hn : n < 2 ^ (7 * rounds)) (hshift : n * 2 ^ shift < 2 ^ 64) :
    Reads c (dwarfsVarintRounds c rounds shift result) (varint n)
      (some (result + n * 2 ^ shift)) := by
  induction rounds generalizing shift result n with
  | zero => omega
  | succ rounds ih =>
    rw [dwarfsVarintRounds, varint]
    by_cases hlt : n < 128
    · rw [if_pos hlt]
      refine (reads_next _).bind_nil ?_
      rw [toNat_ofNat_of_lt (by omega), Nat.mod_eq_of_lt hlt, Nat.mod_eq_of_lt hshift, if_pos hlt]
      exact reads_pure _
    · rw [if_neg hlt]
      refine (reads_next _).bind ?_
      rw [toNat_ofNat_of_lt (by omega)]
      dsimp only
      have hpow : 2 ^ (7 * (rounds + 1)) = 2 ^ (7 * rounds) * 128 := by
        rw [Nat.mul_add, Nat.pow_add]
      have hrounds' : 0 < rounds := by
        rcases Nat.eq_zero_or_pos rounds with rfl | hpos
        · omega
        · exact hpos
      have hsplit : n * 2 ^ shift = n % 128 * 2 ^ shift + n / 128 * 2 ^ (shift + 7) := by
        have hmod : n = n % 128 + n / 128 * 128 := by omega
        calc n * 2 ^ shift = (n % 128 + n / 128 * 128) * 2 ^ shift := by rw [← hmod]
          _ = n % 128 * 2 ^ shift + n / 128 * 2 ^ (shift + 7) := by
            rw [Nat.add_mul, Nat.pow_add, Nat.mul_assoc (n / 128), Nat.mul_comm 128]
      rw [show (n % 128 + 128) % 128 = n % 128 by omega,
        Nat.mod_eq_of_lt (show n % 128 * 2 ^ shift < 2 ^ 64 by omega), if_neg (by omega), hsplit,
        ← Nat.add_assoc]
      exact ih hrounds' (by omega) (by omega)

theorem dwarfsCompactVarint_reads {n : ℕ} (h : n < 2 ^ 64) :
    Reads c (dwarfsCompactVarint c) (varint n) (some n) := by
  have hread := @dwarfsVarintRounds_reads c 10 0 0 n (by decide) (by omega) (by omega)
  rw [Nat.zero_add, Nat.pow_zero, Nat.mul_one] at hread
  exact hread

theorem dwarfsUnzigzag_zigzag (n : ℤ) : dwarfsUnzigzag (zigzag n) = n := by
  rw [dwarfsUnzigzag, zigzag]
  split_ifs <;> omega

theorem dwarfsCompactInteger_reads {n : ℤ} (hlow : -0x8000000000000000 ≤ n) (hhigh : n < 0x8000000000000000) :
    Reads c (dwarfsCompactInteger c) (varint (zigzag n)) (some n) := by
  have hlt := @zigzag_lt n (2 ^ 63) (by simpa using hlow) (by simpa using hhigh)
  refine (dwarfsCompactVarint_reads (by omega)).bind_nil ?_
  rw [dwarfsUnzigzag_zigzag]
  exact reads_pure n

/-- A field header is read, written short or in full. -/
theorem dwarfsCompactField_reads {last id : Int16} {type : ℕ} (htype : 0 < type ∧ type < 16) :
    Reads c (dwarfsCompactField c last.toInt) (fieldHeader last id type)
      (some (some (id.toInt, type))) := by
  have hlow := id.le_toInt
  have hhigh := id.toInt_lt
  rw [dwarfsCompactField, fieldHeader]
  split_ifs with hshort
  · obtain ⟨delta, hdelta⟩ : ∃ delta : ℕ, id.toInt - last.toInt = delta :=
      ⟨(id.toInt - last.toInt).toNat, by omega⟩
    rw [hdelta] at hshort
    rw [hdelta, Int.toNat_natCast]
    refine (reads_next _).bind_nil ?_
    rw [toNat_ofNat_of_lt (by omega)]
    dsimp only
    rw [show (delta * 16 + type) % 16 = type by omega, show (delta * 16 + type) / 16 = delta by omega,
      if_neg (show type ≠ DWARFS_CT_STOP from Nat.pos_iff_ne_zero.mp htype.1), if_pos (by omega),
      show last.toInt + (delta : ℤ) = id.toInt by omega,
      Int.bmod_eq_of_le (by simpa using hlow) (by simpa using hhigh)]
    exact reads_pure _
  · refine (reads_next _).bind ?_
    rw [toNat_ofNat_of_lt (by omega)]
    dsimp only
    rw [Nat.mod_eq_of_lt htype.2, Nat.div_eq_of_lt htype.2,
      if_neg (show type ≠ DWARFS_CT_STOP from Nat.pos_iff_ne_zero.mp htype.1), if_neg (by decide)]
    refine (dwarfsCompactInteger_reads (by omega) (by omega)).bind_nil ?_
    rw [if_neg (by omega)]
    exact reads_pure _

theorem dwarfsCompactField_stop {last : ℤ} : Reads c (dwarfsCompactField c last) [0] (some none) :=
  (reads_next 0).bind_nil (reads_pure none)

theorem dwarfsCompactCollection_reads {n : ℕ} {k : Kind} (hn : n < 2 ^ 64) :
    Reads c (dwarfsCompactCollection c) (collectionHeader n k) (some (n, k.code)) := by
  have hcode := k.code_lt
  rw [dwarfsCompactCollection, collectionHeader]
  split_ifs with hshort
  · refine (reads_next _).bind_nil ?_
    rw [toNat_ofNat_of_lt (by omega)]
    dsimp only
    rw [show (n * 16 + k.code) / 16 = n by omega, show (n * 16 + k.code) % 16 = k.code by omega,
      if_neg (by omega)]
    exact reads_pure _
  · refine (reads_next _).bind ?_
    rw [toNat_ofNat_of_lt (by omega)]
    dsimp only
    rw [show (15 * 16 + k.code) / 16 = 15 by omega, show (15 * 16 + k.code) % 16 = k.code by omega,
      if_pos rfl]
    exact (dwarfsCompactVarint_reads hn).bind_nil (reads_pure _)

theorem dwarfsCompactMap_empty {k l : Kind} :
    Reads c (dwarfsCompactMap c) (mapHeader 0 k l) (some (0, DWARFS_CT_STOP, DWARFS_CT_STOP)) :=
  (dwarfsCompactVarint_reads (by decide)).bind_nil (reads_pure _)

theorem dwarfsCompactMap_reads {n : ℕ} {k l : Kind} (hn : n < 2 ^ 64) (hpos : n ≠ 0) :
    Reads c (dwarfsCompactMap c) (mapHeader n k l) (some (n, k.code, l.code)) := by
  have hk := k.code_lt
  have hl := l.code_lt
  rw [dwarfsCompactMap, mapHeader, if_neg hpos]
  refine (dwarfsCompactVarint_reads hn).bind ?_
  rw [if_neg hpos]
  refine (reads_next _).bind_nil ?_
  rw [toNat_ofNat_of_lt (by omega), show (k.code * 16 + l.code) / 16 = k.code by omega,
    show (k.code * 16 + l.code) % 16 = l.code by omega]
  exact reads_pure _

/-- The fields of a struct are gone over, each as the step does with it. -/
theorem dwarfsFields_reads {σ : Type} {step : σ → ℤ → ℕ → Reader σ}
    {meaning : σ → Int16 → (k : Kind) → Value k → Option σ} {fs : Fields} {last : Int16} {rounds : ℕ}
    (hrounds : (fs.bytes last).length ≤ rounds) {s : σ}
    (hstep : fs.All fun id k v => ∀ s,
      Reads c (step s id.toInt v.fieldType) (v.bytes true) (meaning s id k v)) :
    Reads c (dwarfsFields c step rounds last.toInt s) (fs.bytes last) (fs.fold meaning s) := by
  induction rounds generalizing fs last s with
  | zero =>
    have hpos := fs.bytes_pos last
    omega
  | succ rounds ih =>
    rw [dwarfsFields]
    cases fs with
    | nil => exact dwarfsCompactField_stop.bind_nil (reads_pure s)
    | cons id k v fs =>
      rw [Fields.bytes] at hrounds ⊢
      rw [List.length_append, List.length_append] at hrounds
      have hpos := fieldHeader_pos last id v.fieldType
      refine (dwarfsCompactField_reads v.fieldType_spec).bind ?_
      exact Reads.bind_option (hstep.1 s) fun s' _ => ih (by omega) hstep.2

theorem reads_times_entries {σ : Type} {k l : Kind} {step : σ → Reader σ}
    {meaning : σ → Value k → Value l → Option σ} : ∀ {es : Entries k l} {s : σ},
    (es.All fun key v => ∀ s,
      Reads c (step s) (key.bytes false ++ v.bytes false) (meaning s key v)) →
    Reads c (times step es.length s) es.bytes (es.fold meaning s)
  | .nil, s, _ => reads_pure s
  | .cons _ _ _, s, hstep =>
    Reads.bind_option (hstep.1 s) fun _ _ => reads_times_entries hstep.2

theorem dwarfsEachField_reads {σ : Type} {step : σ → ℤ → ℕ → Reader σ}
    {meaning : σ → Int16 → (k : Kind) → Value k → Option σ} {fs : Fields} {s : σ}
    (hstep : fs.All fun id k v => ∀ s,
      Reads c (step s id.toInt v.fieldType) (v.bytes true) (meaning s id k v)) :
    Reads c (dwarfsEachField c step s) (fs.bytes 0) (fs.fold meaning s) :=
  Reads.of_fits fun hfits => dwarfsFields_reads (by omega) hstep

/-! ### Skipping what is written -/

section Skip

variable {depth : ℕ}

theorem dwarfsSkipIn_int {type : ℕ} (h : type = DWARFS_CT_I16 ∨ type = DWARFS_CT_I32
    ∨ type = DWARFS_CT_I64) {n : ℤ} (hlow : -0x8000000000000000 ≤ n) (hhigh : n < 0x8000000000000000) :
    Reads c (dwarfsSkipIn c (depth + 1) type) (varint (zigzag n)) (some ()) := by
  have heq : dwarfsSkipIn c (depth + 1) type
      = (dwarfsCompactInteger c >>= fun _ => Reader.pure ()) := by
    rcases h with rfl | rfl | rfl <;> rfl
  rw [heq]
  exact (dwarfsCompactInteger_reads hlow hhigh).bind_nil (reads_pure ())

theorem dwarfsSkipIn_collection {type : ℕ} (h : type = DWARFS_CT_LIST ∨ type = DWARFS_CT_SET) :
    dwarfsSkipIn c (depth + 1) type = (dwarfsCompactCollection c >>= fun head =>
      times (fun _ => dwarfsSkipIn c depth head.2) head.1 ()) := by
  rcases h with rfl | rfl <;> rfl

/-- What is skipped of the elements of a collection with no elements. -/
theorem reads_times_zero {step : Unit → Reader Unit} : Reads c (times step 0 ()) [] (some ()) :=
  reads_pure ()

mutual

/-- A value without boolean elements is skipped whole. -/
theorem dwarfsSkipIn_reads (hfin : c.fin < 2 ^ 64) {k : Kind} (v : Value k) (h : v.Plain) {depth : ℕ}
    (hdepth : (v.bytes true).length < depth) :
    Reads c (dwarfsSkipIn c depth v.fieldType) (v.bytes true) (some ()) := by
  obtain ⟨depth, rfl⟩ : ∃ d, depth = d + 1 := ⟨depth - 1, by omega⟩
  refine Reads.of_fits fun hfits => ?_
  match k, v with
  | _, .bool true => exact reads_pure ()
  | _, .bool false => exact reads_pure ()
  | _, .byte b => exact (reads_next b).bind_nil (reads_pure ())
  | _, .i16 n =>
    have hlow := n.le_toInt
    have hhigh := n.toInt_lt
    exact dwarfsSkipIn_int (Or.inl rfl) (by omega) (by omega)
  | _, .i32 n =>
    have hlow := n.le_toInt
    have hhigh := n.toInt_lt
    exact dwarfsSkipIn_int (Or.inr (Or.inl rfl)) (by omega) (by omega)
  | _, .i64 n => exact dwarfsSkipIn_int (Or.inr (Or.inr rfl)) n.le_toInt n.toInt_lt
  | _, .double bs hbs =>
    have hread := @reads_advance c bs
    rw [hbs] at hread
    exact hread
  | _, .float bs hbs =>
    have hread := @reads_advance c bs
    rw [hbs] at hread
    exact hread
  | _, .binary bs =>
    rw [Value.bytes, List.length_append] at hfits
    rw [Value.bytes]
    exact (dwarfsCompactVarint_reads (by omega)).bind (reads_advance bs)
  | _, .list l vs =>
    rw [Value.Plain] at h
    rw [Value.bytes, List.length_append] at hfits hdepth
    rw [Value.bytes]
    have hpos := collectionHeader_pos vs.length l
    have hcount := vs.length_le
    exact (dwarfsSkipIn_collection (Or.inl rfl)).symm ▸
      (dwarfsCompactCollection_reads (by omega)).bind (dwarfsSkipIn_values hfin vs h (by omega))
  | _, .set l vs =>
    rw [Value.Plain] at h
    rw [Value.bytes, List.length_append] at hfits hdepth
    rw [Value.bytes]
    have hpos := collectionHeader_pos vs.length l
    have hcount := vs.length_le
    exact (dwarfsSkipIn_collection (Or.inr rfl)).symm ▸
      (dwarfsCompactCollection_reads (by omega)).bind (dwarfsSkipIn_values hfin vs h (by omega))
  | _, .map l m es =>
    rw [Value.Plain] at h
    rw [Value.bytes, List.length_append] at hfits hdepth
    rw [Value.bytes]
    have hpos := mapHeader_pos es.length l m
    have hcount := es.length_le
    match l, m, es with
    | _, _, .nil => exact dwarfsCompactMap_empty.bind reads_times_zero
    | _, _, .cons key v es =>
      have hlt : (Entries.cons key v es).length < 2 ^ 64 := by omega
      exact (dwarfsCompactMap_reads hlt (Nat.succ_ne_zero _)).bind
        (dwarfsSkipIn_entries hfin (.cons key v es) h (by omega))
  | _, .struct fs =>
    rw [Value.Plain] at h
    rw [Value.bytes] at hdepth
    rw [Value.bytes]
    have hread := @dwarfsEachField_reads c Unit (fun _ _ type => dwarfsSkipIn c depth type)
      (fun _ _ _ _ => some ()) fs () (dwarfsSkipIn_fields hfin fs h
        (show (fs.bytes 0).length ≤ depth by omega))
    rw [fs.fold_some] at hread
    exact hread

theorem dwarfsSkipIn_values (hfin : c.fin < 2 ^ 64) {k : Kind} (vs : Values k) (h : vs.Plain)
    {depth : ℕ} (hdepth : vs.bytes.length < depth) :
    Reads c (times (fun _ => dwarfsSkipIn c depth k.code) vs.length ()) vs.bytes (some ()) := by
  match vs with
  | .nil => exact reads_times_zero
  | .cons v vs =>
    rw [Values.Plain] at h
    obtain ⟨hk, hv, hvs⟩ := h
    rw [Values.bytes, v.bytes_eq hk, List.length_append] at hdepth
    have hread := dwarfsSkipIn_reads hfin v hv (by omega : (v.bytes true).length < depth)
    rw [v.fieldType_eq hk] at hread
    rw [Values.bytes, v.bytes_eq hk]
    exact hread.bind (dwarfsSkipIn_values hfin vs hvs (by omega))

theorem dwarfsSkipIn_entries (hfin : c.fin < 2 ^ 64) {k l : Kind} (es : Entries k l) (h : es.Plain)
    {depth : ℕ} (hdepth : es.bytes.length < depth) :
    Reads c (times (fun _ => dwarfsSkipIn c depth k.code >>= fun _ => dwarfsSkipIn c depth l.code)
      es.length ()) es.bytes (some ()) := by
  match es with
  | .nil => exact reads_times_zero
  | .cons key v es =>
    rw [Entries.Plain] at h
    obtain ⟨hk, hl, hkey, hv, hes⟩ := h
    rw [Entries.bytes, key.bytes_eq hk, v.bytes_eq hl, List.length_append,
      List.length_append] at hdepth
    have hfirst := dwarfsSkipIn_reads hfin key hkey (by omega : (key.bytes true).length < depth)
    have hsecond := dwarfsSkipIn_reads hfin v hv (by omega : (v.bytes true).length < depth)
    rw [key.fieldType_eq hk] at hfirst
    rw [v.fieldType_eq hl] at hsecond
    rw [Entries.bytes, key.bytes_eq hk, v.bytes_eq hl]
    exact (hfirst.bind hsecond).bind (dwarfsSkipIn_entries hfin es hes (by omega))

theorem dwarfsSkipIn_fields (hfin : c.fin < 2 ^ 64) (fs : Fields) (h : fs.Plain) {depth : ℕ}
    {last : Int16} (hdepth : (fs.bytes last).length ≤ depth) :
    fs.All fun _ _ v => ∀ _ : Unit,
      Reads c (dwarfsSkipIn c depth v.fieldType) (v.bytes true) (some ()) := by
  match fs with
  | .nil => trivial
  | .cons id k v fs =>
    rw [Fields.Plain] at h
    rw [Fields.bytes, List.length_append, List.length_append] at hdepth
    have hpos := fieldHeader_pos last id v.fieldType
    exact ⟨fun _ => dwarfsSkipIn_reads hfin v h.1 (by omega),
      dwarfsSkipIn_fields hfin fs h.2 (show (fs.bytes id).length ≤ depth by omega)⟩

end

theorem dwarfsCompactSkip_reads (hfin : c.fin < 2 ^ 64) {k : Kind} (v : Value k) (h : v.Plain) :
    Reads c (dwarfsCompactSkip c v.fieldType) (v.bytes true) (some ()) :=
  Reads.of_fits fun hfits => dwarfsSkipIn_reads hfin v h (by omega)

end Skip

/-! ### The end of the bytes -/

section Stays

variable {n : ℕ}

theorem dwarfsVarintRounds_stays {rounds shift result : ℕ} :
    Stays c n 1 (dwarfsVarintRounds c rounds shift result) := by
  induction rounds generalizing n shift result with
  | zero => exact stays_fail
  | succ rounds ih =>
    refine stays_next.bind fun byte m _ => ?_
    dsimp only
    split_ifs
    · exact stays_pure _
    · exact ih.any

theorem dwarfsCompactVarint_stays : Stays c n 1 (dwarfsCompactVarint c) := dwarfsVarintRounds_stays

theorem dwarfsCompactInteger_stays : Stays c n 1 (dwarfsCompactInteger c) :=
  dwarfsCompactVarint_stays.bind fun _ _ _ => stays_pure _

theorem dwarfsCompactField_stays {last : ℤ} : Stays c n 1 (dwarfsCompactField c last) := by
  refine stays_next.bind fun header m _ => ?_
  dsimp only
  split_ifs
  · exact stays_pure _
  · exact stays_pure _
  · refine dwarfsCompactInteger_stays.any.bind fun explicitId m _ => ?_
    split_ifs
    · exact stays_fail
    · exact stays_pure _

theorem dwarfsCompactCollection_stays : Stays c n 1 (dwarfsCompactCollection c) := by
  refine stays_next.bind fun header m _ => ?_
  dsimp only
  split_ifs
  · exact dwarfsCompactVarint_stays.any.bind fun _ _ _ => stays_pure _
  · exact stays_pure _

theorem dwarfsCompactMap_stays : Stays c n 1 (dwarfsCompactMap c) := by
  refine dwarfsCompactVarint_stays.bind fun count m _ => ?_
  split_ifs
  · exact stays_pure _
  · exact stays_next.any.bind fun _ _ _ => stays_pure _

theorem dwarfsFields_stays {σ : Type} {step : σ → ℤ → ℕ → Reader σ} {rounds : ℕ} {last : ℤ} {s : σ}
    (hrounds : n < rounds) (hstep : ∀ m < n, ∀ s id type, Stays c m 0 (step s id type)) :
    Stays c n 1 (dwarfsFields c step rounds last s) := by
  induction rounds generalizing n last s with
  | zero => omega
  | succ rounds ih =>
    refine dwarfsCompactField_stays.bind fun field m hm => ?_
    rcases field with - | ⟨id, type⟩
    · exact stays_pure s
    · exact (hstep m (by omega) s id type).bind fun s' l hl =>
        (ih (by omega) fun k hk => hstep k (by omega)).any

/-- On any bytes the skip ends: each level of nesting takes a byte. -/
theorem dwarfsSkipIn_stays {depth type : ℕ} (hdepth : n < depth) (hfin : n ≤ c.fin) :
    Stays c n 0 (dwarfsSkipIn c depth type) := by
  induction depth generalizing n type with
  | zero => omega
  | succ depth ih =>
    rw [dwarfsSkipIn]
    split_ifs
    · exact stays_pure ()
    · exact stays_next.any.bind fun _ _ _ => stays_pure ()
    · exact dwarfsCompactInteger_stays.any.bind fun _ _ _ => stays_pure ()
    · exact stays_advance
    · exact stays_advance
    · exact dwarfsCompactVarint_stays.any.bind fun _ _ _ => stays_advance
    · exact (dwarfsCompactCollection_stays.bind fun head m hm =>
        stays_times (fun l hl _ => ih (by omega) (by omega)) head.1 ()).any
    · exact (dwarfsCompactMap_stays.bind fun head m hm => stays_times (fun l hl _ =>
        (ih (by omega) (by omega)).bind fun _ k hk => ih (by omega) (by omega)) head.1 ()).any
    · exact (dwarfsFields_stays (by omega) fun m hm _ _ _ => ih (by omega) (by omega)).any
    · exact stays_fail

end Stays

end FsRover
