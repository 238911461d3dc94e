import FsRover.Fs.DwarfsMeaning

/-!
# Unknown fields of schemas

## Main definitions

* `FsRover.dwarfsKnown` : the schema without the fields that the parser does not know.

## Main results

* `FsRover.dwarfsSchemaOf_known` : unknown fields say nothing.
* `FsRover.dwarfsCompactSkip_bools` : the booleans of a list or a set are not skipped.
* `FsRover.dwarfsSchemaParse_stays` : on any bytes the parser ends, and not past the end.
* `FsRover.dwarfsSkip_exact` : what is skipped, and what is parsed.
-/

namespace FsRover

open ByteReader Compact Outcome

/-! ### Fields that the parser does not know -/

def dwarfsKnownField (fs : Fields) : Fields :=
  fs.keep (fun id => id.toInt = 1 ∨ id.toInt = 2) fun _ _ v => v

def dwarfsKnownLayout (fs : Fields) : Fields :=
  fs.keep (fun id => id.toInt = 1 ∨ id.toInt = 2 ∨ id.toInt = 3) fun id _ v =>
    if id.toInt = 3 then v.changeStructs dwarfsKnownField else v

/-- The schema without the fields that are not known, in it, in its layouts and in their fields. -/
def dwarfsKnown (fs : Fields) : Fields :=
  fs.keep (fun id => id.toInt = 2 ∨ id.toInt = 3 ∨ id.toInt = 4) fun id _ v =>
    if id.toInt = 2 then v.changeStructs dwarfsKnownLayout else v

section Known

variable {k l : Kind}

theorem asStruct_changeFields (f : Fields → Fields) (v : Value k) :
    asStruct (v.changeFields f) = (asStruct v).map f := by
  cases v <;> rfl

theorem asI16_changeStructs (f : Fields → Fields) (v : Value k) :
    asI16 (v.changeStructs f) = asI16 v := by
  cases v <;> rfl

theorem asI32_changeStructs (f : Fields → Fields) (v : Value k) :
    asI32 (v.changeStructs f) = asI32 v := by
  cases v <;> rfl

theorem dwarfsFieldOf_known (id : ℤ) (fs : Fields) :
    dwarfsFieldOf id (dwarfsKnownField fs) = dwarfsFieldOf id fs := by
  rw [dwarfsFieldOf, dwarfsFieldOf, dwarfsKnownField, Fields.fold_keep]
  · intro s id k v hunknown
    rw [decide_eq_false_iff_not, not_or] at hunknown
    rw [dwarfsFieldStep, if_neg hunknown.1, if_neg hunknown.2]
  · exact fun _ _ _ _ => rfl

theorem dwarfsFieldEntry_known (s : DwarfsLayout × ℕ) (key : Value k) (v : Value l) :
    dwarfsFieldEntry s key (v.changeFields dwarfsKnownField) = dwarfsFieldEntry s key v := by
  rw [dwarfsFieldEntry, dwarfsFieldEntry, asStruct_changeFields]
  cases asStruct v with
  | none => rfl
  | some fs =>
    simp only [Option.map_some, Option.bind_eq_bind, Option.bind_some, dwarfsFieldOf_known]

theorem dwarfsFieldMap_known (s : DwarfsLayout × ℕ) (v : Value k) :
    dwarfsFieldMap s (v.changeStructs dwarfsKnownField) = dwarfsFieldMap s v := by
  cases v with
  | map k l es => exact Entries.fold_change dwarfsFieldEntry_known es s
  | _ => rfl

theorem dwarfsLayoutOf_known (s : DwarfsLayout × ℕ) (fs : Fields) :
    dwarfsLayoutOf s (dwarfsKnownLayout fs) = dwarfsLayoutOf s fs := by
  refine Fields.fold_keep (fun s id k v hunknown => ?_) (fun s id k v => ?_) fs s
  · rw [decide_eq_false_iff_not, not_or, not_or] at hunknown
    rw [dwarfsLayoutStep, if_neg hunknown.1, if_neg hunknown.2.1, if_neg hunknown.2.2]
  · rw [dwarfsLayoutStep, dwarfsLayoutStep]
    by_cases h3 : id.toInt = 3
    · rw [if_pos h3, asI16_changeStructs, asI32_changeStructs, dwarfsFieldMap_known]
    · rw [if_neg h3]

theorem dwarfsLayoutEntry_known (schema : DwarfsSchema) (key : Value k) (v : Value l) :
    dwarfsLayoutEntry schema key (v.changeFields dwarfsKnownLayout)
      = dwarfsLayoutEntry schema key v := by
  rw [dwarfsLayoutEntry, dwarfsLayoutEntry, asStruct_changeFields]
  cases asStruct v with
  | none => rfl
  | some fs =>
    simp only [Option.map_some, Option.bind_eq_bind, Option.bind_some, dwarfsLayoutOf_known]

theorem dwarfsLayoutMap_known (schema : DwarfsSchema) (v : Value k) :
    dwarfsLayoutMap schema (v.changeStructs dwarfsKnownLayout) = dwarfsLayoutMap schema v := by
  cases v with
  | map k l es =>
    rw [Value.changeStructs, dwarfsLayoutMap, dwarfsLayoutMap, Entries.length_change,
      Entries.fold_change dwarfsLayoutEntry_known]
  | _ => rfl

/-- Unknown fields say nothing. -/
theorem dwarfsSchemaOf_known (fs : Fields) :
    dwarfsSchemaOf (dwarfsKnown fs) = dwarfsSchemaOf fs := by
  rw [dwarfsSchemaOf, dwarfsSchemaOf, dwarfsKnown, Fields.fold_keep]
  · intro s id k v hunknown
    rw [decide_eq_false_iff_not, not_or, not_or] at hunknown
    rw [dwarfsSchemaStep, if_neg hunknown.1, if_neg hunknown.2.1, if_neg hunknown.2.2]
  · intro s id k v
    rw [dwarfsSchemaStep, dwarfsSchemaStep]
    by_cases h2 : id.toInt = 2
    · simp only [if_pos h2, dwarfsLayoutMap_known]
    · simp only [if_neg h2]

theorem dwarfsKnownField_plain {fs : Fields} (h : fs.Plain) : (dwarfsKnownField fs).Plain :=
  Fields.plain_keep (fun _ _ _ hv => hv) h

theorem dwarfsKnownLayout_plain {fs : Fields} (h : fs.Plain) : (dwarfsKnownLayout fs).Plain := by
  refine Fields.plain_keep (fun id k v hv => ?_) h
  split_ifs
  · exact Value.plain_changeStructs (fun _ h => dwarfsKnownField_plain h) hv
  · exact hv

theorem dwarfsKnown_plain {fs : Fields} (h : fs.Plain) : (dwarfsKnown fs).Plain := by
  refine Fields.plain_keep (fun id k v hv => ?_) h
  split_ifs
  · exact Value.plain_changeStructs (fun _ h => dwarfsKnownLayout_plain h) hv
  · exact hv

end Known

/-! ### Skipping values -/

/-- The booleans of a list or a set are not skipped: each is a byte. -/
theorem dwarfsCompactSkip_bools {c : DwarfsCompact} {type : ℕ}
    (htype : type = DWARFS_CT_LIST ∨ type = DWARFS_CT_SET) {n : ℕ} (hn : n < 2 ^ 64)
    (hfin : 0 < c.fin) :
    Reads c (dwarfsCompactSkip c type) (collectionHeader n .bool) (some ()) := by
  rw [dwarfsCompactSkip, dwarfsSkipIn_collection htype]
  refine (dwarfsCompactCollection_reads hn).bind_nil ?_
  obtain ⟨depth, hdepth⟩ := Nat.exists_eq_succ_of_ne_zero (Nat.ne_of_gt hfin)
  rw [hdepth]
  clear hn
  induction n with
  | zero => exact reads_times_zero
  | succ n ih => exact Reads.bind (reads_pure ()) ih

section Stays

variable {c : DwarfsCompact} {n : ℕ}

theorem dwarfsCompactSkip_stays {type : ℕ} (hn : n ≤ c.fin) :
    Stays c n 0 (dwarfsCompactSkip c type) :=
  dwarfsSkipIn_stays (Nat.lt_succ_of_le hn) hn

theorem dwarfsEachField_stays {σ : Type} {step : σ → ℤ → ℕ → Reader σ} {s : σ} (hn : n ≤ c.fin)
    (hstep : ∀ m ≤ c.fin, ∀ s id type, Stays c m 0 (step s id type)) :
    Stays c n 0 (dwarfsEachField c step s) :=
  (dwarfsFields_stays (Nat.lt_succ_of_le hn) fun m _ => hstep m (by omega)).any

theorem dwarfsSchemaFieldValue_stays {type : ℕ} : Stays c n 0 (dwarfsSchemaFieldValue c type) := by
  rw [dwarfsSchemaFieldValue]
  split_ifs
  · exact stays_fail
  · refine dwarfsCompactInteger_stays.any.bind fun number m _ => ?_
    split_ifs
    · exact stays_fail
    · exact stays_pure _

theorem dwarfsSchemaParseField_stays {id : ℤ} (hn : n ≤ c.fin) :
    Stays c n 0 (dwarfsSchemaParseField c id) := by
  refine (dwarfsEachField_stays hn fun m hm field key type => ?_).bind fun field m _ => ?_
  · split_ifs
    · exact dwarfsSchemaFieldValue_stays.bind fun _ _ _ => stays_pure _
    · exact dwarfsSchemaFieldValue_stays.bind fun _ _ _ => stays_pure _
    · exact (dwarfsCompactSkip_stays hm).bind fun _ _ _ => stays_pure _
  · split_ifs
    · exact stays_fail
    · exact stays_pure _

theorem dwarfsSchemaParseFields_stays {s : DwarfsLayout × ℕ} {type : ℕ} (hn : n ≤ c.fin) :
    Stays c n 0 (dwarfsSchemaParseFields c s type) := by
  rw [dwarfsSchemaParseFields]
  split_ifs
  · exact stays_fail
  refine dwarfsCompactMap_stays.any.bind fun head m hm => ?_
  split_ifs
  · exact stays_fail
  refine stays_times (fun l hl s => ?_) _ _
  refine dwarfsCompactInteger_stays.any.bind fun value i hi => ?_
  split_ifs
  · exact stays_fail
  refine (dwarfsSchemaParseField_stays (by omega)).bind fun field j _ => ?_
  rw [dwarfsSchemaAddField]
  split_ifs
  · exact stays_fail
  · exact stays_pure _

theorem dwarfsSchemaParseLayout_stays {s : DwarfsLayout × ℕ} (hn : n ≤ c.fin) :
    Stays c n 0 (dwarfsSchemaParseLayout c s) := by
  have hinteger : ∀ {m : ℕ} {hi : ℤ} {f : ℤ → DwarfsLayout × ℕ},
      Stays c m 0 (dwarfsCompactInteger c >>= fun value =>
        if value < 0 ∨ hi < value then Reader.fail else Reader.pure (f value)) := by
    intro m hi f
    refine dwarfsCompactInteger_stays.any.bind fun value i _ => ?_
    split_ifs
    · exact stays_fail
    · exact stays_pure _
  refine dwarfsEachField_stays hn fun m hm s key type => ?_
  by_cases h1 : key = 1
  · rw [if_pos h1]
    by_cases htype : type ≠ DWARFS_CT_I32
    · rw [if_pos htype]
      exact stays_fail
    · rw [if_neg htype]
      exact hinteger
  rw [if_neg h1]
  by_cases h2 : key = 2
  · rw [if_pos h2]
    by_cases htype : type ≠ DWARFS_CT_I16
    · rw [if_pos htype]
      exact stays_fail
    · rw [if_neg htype]
      exact hinteger
  rw [if_neg h2]
  split_ifs
  · exact dwarfsSchemaParseFields_stays hm
  · exact (dwarfsCompactSkip_stays hm).bind fun _ _ _ => stays_pure _

theorem dwarfsSchemaParseLayouts_stays {schema : DwarfsSchema} {type : ℕ} (hn : n ≤ c.fin) :
    Stays c n 0 (dwarfsSchemaParseLayouts c schema type) := by
  rw [dwarfsSchemaParseLayouts]
  split_ifs
  · exact stays_fail
  refine dwarfsCompactMap_stays.any.bind fun head m hm => ?_
  split_ifs
  · exact stays_fail
  refine stays_times (fun l hl schema => ?_) _ _
  refine dwarfsCompactInteger_stays.any.bind fun value i hi => ?_
  split_ifs
  · exact stays_fail
  refine (dwarfsSchemaParseLayout_stays (by omega)).bind fun s j _ => ?_
  rw [dwarfsSchemaAddLayout]
  split_ifs
  · exact stays_fail
  · exact stays_pure _

theorem dwarfsSchemaParse_stays (hn : n ≤ c.fin) : Stays c n 0 (dwarfsSchemaParse c) := by
  refine (dwarfsEachField_stays hn fun m hm schema key type => ?_).bind fun schema m _ => ?_
  · split_ifs
    · exact dwarfsSchemaParseLayouts_stays hm
    · exact dwarfsSchemaFieldValue_stays.bind fun _ _ _ => stays_pure _
    · exact stays_fail
    · refine dwarfsCompactInteger_stays.any.bind fun value i _ => ?_
      split_ifs
      · exact stays_fail
      · exact stays_pure _
    · exact (dwarfsCompactSkip_stays hm).bind fun _ _ _ => stays_pure _
  · split_ifs
    · exact stays_fail
    · exact stays_pure _

end Stays

/-- The schema is parsed as without the fields that are not known. -/
theorem dwarfsSchemaParse_known {c c' : DwarfsCompact} {fs : Fields} (hc : c.fin < 2 ^ 64)
    (hc' : c'.fin < 2 ^ 64) (h : fs.Plain) (hfs : c.Has 0 (fs.bytes 0))
    (hknown : c'.Has 0 ((dwarfsKnown fs).bytes 0)) (schema : DwarfsSchema) :
    (∃ q, dwarfsSchemaParse c 0 = done (schema, q))
      ↔ ∃ q, dwarfsSchemaParse c' 0 = done (schema, q) := by
  rw [reads_done_iff (dwarfsSchemaParse_reads hc h) hfs,
    reads_done_iff (dwarfsSchemaParse_reads hc' (dwarfsKnown_plain h)) hknown, dwarfsSchemaOf_known]

theorem dwarfsCompactSkip_header {c : DwarfsCompact} {p type : ℕ} {vs : Values .bool}
    (htype : type = DWARFS_CT_LIST ∨ type = DWARFS_CT_SET) (hfin : c.fin < 2 ^ 64)
    (hp : c.Has p (collectionHeader vs.length .bool ++ vs.bytes)) :
    dwarfsCompactSkip c type p = done ((), p + (collectionHeader vs.length .bool).length) := by
  have hfits := hp.fits
  have hpos := collectionHeader_pos vs.length .bool
  have hcount := vs.length_le
  rw [List.length_append] at hfits
  exact dwarfsCompactSkip_bools htype (by omega) (by omega) p (Input.has_append.mp hp).1

/-- A value in whose collections no element is a boolean is skipped whole, and a schema of such
values is parsed as without the fields that are not known; a list or a set of booleans is left
behind its header. On any bytes the cursor does not pass the end. -/
theorem dwarfsSkip_exact (c : DwarfsCompact) :
    (∀ (p : ℕ) (k : Kind) (v : Value k), c.fin < 2 ^ 64 → v.Plain → c.Has p (v.bytes true) →
      dwarfsCompactSkip c v.fieldType p = done ((), p + (v.bytes true).length))
    ∧ (∀ (c' : DwarfsCompact) (fs : Fields), c.fin < 2 ^ 64 → c'.fin < 2 ^ 64 → fs.Plain →
      c.Has 0 (fs.bytes 0) → c'.Has 0 ((dwarfsKnown fs).bytes 0) → ∀ schema,
      (∃ q, dwarfsSchemaParse c 0 = done (schema, q))
        ↔ ∃ q, dwarfsSchemaParse c' 0 = done (schema, q))
    ∧ (∀ (p type : ℕ) (vs : Values .bool),
      type = DWARFS_CT_LIST ∨ type = DWARFS_CT_SET → c.fin < 2 ^ 64 →
      c.Has p (collectionHeader vs.length .bool ++ vs.bytes) →
      dwarfsCompactSkip c type p = done ((), p + (collectionHeader vs.length .bool).length))
    ∧ ∀ p type : ℕ, p ≤ c.fin →
      ((∃ a q, p ≤ q ∧ q ≤ c.fin ∧ dwarfsCompactSkip c type p = done (a, q))
        ∨ ∃ q ≤ c.fin, dwarfsCompactSkip c type p = failed q)
      ∧ ((∃ schema q, p ≤ q ∧ q ≤ c.fin ∧ dwarfsSchemaParse c p = done (schema, q))
        ∨ ∃ q ≤ c.fin, dwarfsSchemaParse c p = failed q) := by
  refine ⟨fun p k v hfin hplain hp => ?_, fun c' fs hc hc' hplain hfs hknown schema => ?_,
    fun p type vs htype hfin hp => ?_, fun p type hp => ⟨?_, ?_⟩⟩
  · exact dwarfsCompactSkip_reads hfin v hplain p hp
  · exact dwarfsSchemaParse_known hc hc' hplain hfs hknown schema
  · exact dwarfsCompactSkip_header htype hfin hp
  · exact stays_cases (dwarfsCompactSkip_stays (Nat.le_refl _)) hp
  · exact stays_cases (dwarfsSchemaParse_stays (Nat.le_refl _)) hp

/-- A list of one boolean. -/
private def oneBoolean : Value .list := .list .bool (.cons (.bool true) .nil)

/-- A schema of one layout, with a list of one boolean in a field that is not known. -/
private def schemaWithBoolean : Fields :=
  .cons 2 .map (.map .i16 .struct (.cons (.i16 0) (.struct .nil) .nil))
    (.cons 3 .i16 (.i16 0) (.cons 5 .list oneBoolean .nil))

theorem dwarfsSkip_boolean :
    (¬∀ (c : DwarfsCompact) (p : ℕ) (k : Kind) (v : Value k), c.fin < 2 ^ 64 →
      c.Has p (v.bytes true) →
      dwarfsCompactSkip c v.fieldType p = done ((), p + (v.bytes true).length))
    ∧ ¬∀ (c c' : DwarfsCompact) (fs : Fields), c.fin < 2 ^ 64 → c'.fin < 2 ^ 64 →
      c.Has 0 (fs.bytes 0) → c'.Has 0 ((dwarfsKnown fs).bytes 0) → ∀ schema,
      (∃ q, dwarfsSchemaParse c 0 = done (schema, q))
        ↔ ∃ q, dwarfsSchemaParse c' 0 = done (schema, q) := by
  constructor
  · intro h
    have hskip := h ⟨fun i => [0x11, 0x01].getD i 0, 2⟩ 0 .list oneBoolean (by decide)
      ⟨by decide, by decide⟩
    exact absurd hskip (by decide)
  · intro h
    have hbytes : schemaWithBoolean.bytes 0
        = [0x2b, 0x01, 0x4c, 0x00, 0x00, 0x14, 0x00, 0x29, 0x11, 0x01, 0x00] := by
      simp [schemaWithBoolean, oneBoolean, Fields.bytes, Value.bytes, Entries.bytes, Values.bytes,
        fieldHeader, mapHeader, collectionHeader, varint, zigzag, Entries.length, Values.length,
        Value.fieldType, Kind.code]
    have hknown : (dwarfsKnown schemaWithBoolean).bytes 0
        = [0x2b, 0x01, 0x4c, 0x00, 0x00, 0x14, 0x00, 0x00] := by
      have heq : dwarfsKnown schemaWithBoolean
          = .cons 2 .map (.map .i16 .struct (.cons (.i16 0) (.struct .nil) .nil))
            (.cons 3 .i16 (.i16 0) .nil) := rfl
      rw [heq]
      simp [Fields.bytes, Value.bytes, Entries.bytes, fieldHeader, mapHeader, varint, zigzag,
        Entries.length, Value.fieldType, Kind.code]
    have hparsed := (h ⟨fun i => [0x2b, 0x01, 0x4c, 0x00, 0x00, 0x14, 0x00, 0x29, 0x11, 0x01,
        0x00].getD i 0, 11⟩ ⟨fun i => [0x2b, 0x01, 0x4c, 0x00, 0x00, 0x14, 0x00, 0x00].getD i 0, 8⟩
      schemaWithBoolean (by decide) (by decide) ⟨by rw [hbytes]; decide, by rw [hbytes]; decide⟩
      ⟨by rw [hknown]; decide, by rw [hknown]; decide⟩ ⟨[⟨0, 0, 0, []⟩], 0, 0, 0⟩).mpr
      ⟨8, by decide +kernel⟩
    obtain ⟨q, hq⟩ := hparsed
    rw [show dwarfsSchemaParse ⟨fun i => [0x2b, 0x01, 0x4c, 0x00, 0x00, 0x14, 0x00, 0x29, 0x11, 0x01,
      0x00].getD i 0, 11⟩ 0 = failed 11 by decide +kernel] at hq
    cases hq

end FsRover
