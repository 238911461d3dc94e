import FsRover.Io.Ewf

/-!
# EWF tables are read as they were checked

## Main definitions

* `FsRover.EwfChecked` : what a round of the checks found.
* `FsRover.EwfStored` : places that lie in a file and fit a buffer.

## Main results

* `FsRover.ewfLocate_eq` : an entry alone is read as the checks read it in the order of the table.
* `FsRover.ewfCheckEntries_locate` : so it is for all entries of a table.
* `FsRover.ewfParseTable_spec`, `FsRover.ewf2ParseTable_spec` : what an accepted table adds.
-/

namespace FsRover

open Guards

/-- What a round of the checks found. -/
structure EwfChecked (t : EwfTable) (i raw : ℕ) (next : Option ℕ) (s : EwfScan) (place : EwfPlace)
    (s' : EwfScan) : Prop where
  next_gt : ∀ nextRaw, next = some nextRaw →
    ewfOffset s.overflow raw < ewfNextOffset s.overflow (ewfOffset s.overflow raw) nextRaw
  off_lt : t.baseOffset + ewfOffset s.overflow raw < 2 ^ 64
  dataEnd : next ≠ none → s'.dataEnd = s.dataEnd
  place_eq : place = ⟨t.segment, t.baseOffset + ewfOffset s.overflow raw,
    ewfStoredSize s.overflow (ewfOffset s.overflow raw) s'.dataEnd
      (t.baseOffset + ewfOffset s.overflow raw) next,
    !s.overflow && decide (2 ^ 31 ≤ raw), !(!s.overflow && decide (2 ^ 31 ≤ raw)), false, 0⟩
  size_pos : 0 < place.storedSize
  size_le : place.storedSize ≤ t.maxStored
  inside : place.off + place.storedSize ≤ t.fileSize
  overflow : s'.overflow = (s.overflow || decide (s.overflow = false
    ∧ 0x7fffffff < ewfOffset s.overflow raw + place.storedSize))
  overflowAt : s'.overflowAt = if s.overflow = false
    ∧ 0x7fffffff < ewfOffset s.overflow raw + place.storedSize then i + 1 else s.overflowAt
  capacity : s'.compCapacity = max s.compCapacity place.storedSize

section Check

variable {t : EwfTable} {i raw : ℕ} {next : Option ℕ} {s s' : EwfScan} {place : EwfPlace}

theorem ewfCheckEntry_spec (h : ewfCheckEntry t i raw next s = .ok (place, s')) :
    EwfChecked t i raw next s place s' := by
  rw [ewfCheckEntry] at h
  obtain ⟨⟨⟩, hnext, h⟩ := bind_eq_ok_iff.mp h
  obtain ⟨houtside, h⟩ := refuseIf_bind_eq_ok_iff.mp h
  obtain ⟨dataEnd, hend, h⟩ := bind_eq_ok_iff.mp h
  obtain ⟨hsize, h⟩ := refuseIf_bind_eq_ok_iff.mp h
  obtain ⟨-, h⟩ := refuseIf_bind_eq_ok_iff.mp h
  cases h
  simp only [not_or, Nat.not_lt, Nat.not_le] at houtside hsize
  refine {
    next_gt := fun nextRaw hsome => ?_
    off_lt := houtside.1
    dataEnd := fun hsome => ?_
    place_eq := rfl
    size_pos := Nat.pos_of_ne_zero hsize.1
    size_le := hsize.2.1
    inside := by dsimp only; omega
    overflow := rfl
    overflowAt := rfl
    capacity := rfl }
  · subst hsome
    exact Nat.lt_of_not_le (refuseIf_eq_ok_iff.mp hnext)
  · cases next with
    | none => exact absurd rfl hsome
    | some nextRaw =>
      cases hend
      rfl

variable {g : EwfGroup} {entries : List ℕ} {capacity : ℕ}

/-- The offset behind is read by the number of the entry as the checks read it. -/
theorem EwfChecked.next_eq (h : EwfChecked t i raw next s place s') {nextRaw : ℕ}
    (hnext : next = some nextRaw) (htrue : s.overflow = true → g.overflowAt ≤ i)
    (hcross : s.overflow = false → s'.overflow = true → g.overflowAt = i + 1)
    (hlow : s'.overflow = false → i + 1 < g.overflowAt) :
    ewfOffset (decide (g.overflowAt ≤ i + 1)) nextRaw
      = ewfNextOffset s.overflow (ewfOffset s.overflow raw) nextRaw := by
  have hgt := h.next_gt nextRaw hnext
  have hover := h.overflow
  have hsize : ewfOffset s.overflow raw + place.storedSize
      = ewfNextOffset s.overflow (ewfOffset s.overflow raw) nextRaw := by
    rw [h.place_eq, hnext]
    dsimp only [ewfStoredSize]
    omega
  rw [hsize] at hover
  cases hs : s.overflow with
  | true =>
    have hle := htrue hs
    rw [decide_eq_true (by omega), ewfNextOffset, if_neg (fun h => by cases h.1)]
  | false =>
    rw [hs] at hover hgt
    rw [ewfNextOffset] at hover hgt ⊢
    have hraw : ewfOffset false raw = raw % 2 ^ 31 := rfl
    by_cases hskip : false = false ∧ nextRaw % 2 ^ 31 < ewfOffset false raw
        ∧ ewfOffset false raw ≤ nextRaw
    · -- the bit of the entry behind is one of its offset
      rw [if_pos hskip] at hover hgt ⊢
      have hcrosses : s'.overflow = true := by
        rw [hover, Bool.false_or, decide_eq_true_iff]
        exact ⟨rfl, by omega⟩
      rw [decide_eq_true (Nat.le_of_eq (hcross hs hcrosses))]
      rfl
    · rw [if_neg hskip] at hover ⊢
      have hnot : s'.overflow = false := by
        rw [hover, Bool.false_or, decide_eq_false_iff_not]
        rintro ⟨-, hlt⟩
        have hlt : 0x7fffffff < nextRaw % 2 ^ 31 := hlt
        omega
      rw [decide_eq_false (by have hlt := hlow hnot; omega)]

/-- An entry alone is read as the checks read it in the order of the table. -/
theorem ewfLocate_eq (h : EwfChecked t i raw next s place s') (hraw : entries.getD i 0 = raw)
    (hcount : next = none ↔ g.count ≤ i + 1)
    (hnext : ∀ nextRaw, next = some nextRaw → entries.getD (i + 1) 0 = nextRaw)
    (htrue : s.overflow = true → g.overflowAt ≤ i) (hfalse : s.overflow = false → i < g.overflowAt)
    (hcross : s.overflow = false → s'.overflow = true → g.overflowAt = i + 1)
    (hlow : s'.overflow = false → next ≠ none → i + 1 < g.overflowAt)
    (hsegment : g.segment = t.segment) (hbase : g.baseOffset = t.baseOffset)
    (hend : next = none → g.dataEnd = s'.dataEnd) (hcapacity : place.storedSize ≤ capacity)
    (hmax : t.maxStored < 2 ^ 32) : ewfLocate capacity g entries i = .ok place := by
  have hover : decide (g.overflowAt ≤ i) = s.overflow := by
    cases hs : s.overflow with
    | true => exact decide_eq_true (htrue hs)
    | false => exact decide_eq_false (Nat.not_le.mpr (hfalse hs))
  have hunder : decide (i < g.overflowAt) = !s.overflow := by
    rw [← hover, ← decide_not, decide_eq_decide]
    exact Nat.not_le.symm
  have hpos := h.size_pos
  have hle := h.size_le
  have hoff := h.off_lt
  have hplace := h.place_eq
  have hsize : place.storedSize = if i + 1 < g.count then
      ewfOffset (decide (g.overflowAt ≤ i + 1)) (entries.getD (i + 1) 0) - ewfOffset s.overflow raw
    else u64 (g.dataEnd + 2 ^ 64 - (g.baseOffset + ewfOffset s.overflow raw)) := by
    cases hn : next with
    | none =>
      rw [if_neg (Nat.not_lt.mpr (hcount.mp hn)), hend hn, hbase]
      rw [hn] at hplace
      have hstored : place.storedSize = s'.dataEnd - (t.baseOffset + ewfOffset s.overflow raw) := by
        rw [hplace]
        rfl
      unfold u64
      omega
    | some nextRaw =>
      have hlt : i + 1 < g.count := by
        by_contra hge
        have hnone := hcount.mpr (Nat.le_of_not_lt hge)
        rw [hn] at hnone
        cases hnone
      rw [if_pos hlt, hnext nextRaw hn, h.next_eq hn htrue hcross
        (fun hs => hlow hs (by rw [hn]; exact fun h => by cases h)), hplace, hn]
      rfl
  have hgt : ¬(i + 1 < g.count ∧ ewfOffset (decide (g.overflowAt ≤ i + 1)) (entries.getD (i + 1) 0)
      ≤ ewfOffset s.overflow raw) := by
    rintro ⟨hlt, hge⟩
    rw [if_pos hlt] at hsize
    omega
  rw [ewfLocate, hraw, hover, hunder, hbase]
  refine refuseIf_bind_eq_ok_iff.mpr ⟨Nat.not_le.mpr hoff, ?_⟩
  refine refuseIf_bind_eq_ok_iff.mpr ⟨hgt, ?_⟩
  rw [hbase] at hsize
  rw [← hsize]
  refine refuseIf_bind_eq_ok_iff.mpr ⟨by omega, ?_⟩
  rw [u32_of_lt (by omega), hsegment]
  rw [hplace]

/-! ### All entries of a table -/

/-- What the loop keeps of the place from which on the bit is one of the offset. -/
structure EwfScan.Keeps (s : EwfScan) (i n : ℕ) : Prop where
  past : s.overflow = true → s.overflowAt ≤ i
  ahead : s.overflow = false → s.overflowAt = i + n

theorem EwfChecked.keeps (h : EwfChecked t i raw next s place s') {n : ℕ} (hs : s.Keeps i (n + 1)) :
    s'.Keeps (i + 1) n := by
  have hover := h.overflow
  have hat := h.overflowAt
  cases hso : s.overflow with
  | true =>
    have hle := hs.past hso
    rw [hso, Bool.true_or] at hover
    rw [hso, if_neg (fun h => by cases h.1)] at hat
    exact ⟨fun _ => by omega, (fun h => by rw [hover] at h; cases h)⟩
  | false =>
    have heq := hs.ahead hso
    rw [hso, Bool.false_or] at hover
    rw [hso] at hat
    split_ifs at hat with hcross
    · rw [decide_eq_true hcross] at hover
      exact ⟨fun _ => by omega, (fun h => by rw [hover] at h; cases h)⟩
    · rw [decide_eq_false hcross] at hover
      exact ⟨(fun h => by rw [hover] at h; cases h), fun _ => by omega⟩

theorem EwfChecked.overflowAt_eq (h : EwfChecked t i raw next s place s') (hs : s.overflow = false)
    (hs' : s'.overflow = true) : s'.overflowAt = i + 1 := by
  have hover := h.overflow
  rw [hs', hs, Bool.false_or] at hover
  rw [h.overflowAt, hs, if_pos (of_decide_eq_true hover.symm)]

/-- Once the bit is one of the offset it stays so; until then the entries are below the place. -/
theorem ewfCheckEntries_overflowAt {rest : List ℕ} {places : List EwfPlace}
    (h : ewfCheckEntries t i rest s = .ok (places, s')) (hs : s.Keeps i rest.length) :
    (s.overflow = true → s'.overflowAt = s.overflowAt)
      ∧ (s.overflow = false → rest ≠ [] → i < s'.overflowAt) := by
  induction rest generalizing i s places with
  | nil =>
    cases h
    exact ⟨fun _ => rfl, fun _ hne => absurd rfl hne⟩
  | cons raw rest ih =>
    obtain ⟨⟨place, s₁⟩, hcheck, h⟩ := bind_eq_ok_iff.mp h
    obtain ⟨⟨places', s₂⟩, hrest, h⟩ := bind_eq_ok_iff.mp h
    cases h
    have hchecked := ewfCheckEntry_spec hcheck
    have hkeeps := hchecked.keeps hs
    obtain ⟨htrue, hfalse⟩ := ih hrest hkeeps
    have hover := hchecked.overflow
    have hat := hchecked.overflowAt
    refine ⟨fun hso => ?_, fun hso _ => ?_⟩
    · rw [hso, Bool.true_or] at hover
      rw [hso, if_neg (fun h => by cases h.1)] at hat
      rw [htrue hover, hat]
    · cases hs₁ : s₁.overflow with
      | true =>
        rw [htrue hs₁, hchecked.overflowAt_eq hso hs₁]
        exact Nat.lt_succ_self i
      | false =>
        cases rest with
        | nil =>
          cases hrest
          have heq := hkeeps.ahead hs₁
          rw [heq]
          exact Nat.lt_succ_self i
        | cons raw' rest =>
          exact Nat.lt_of_succ_lt (hfalse hs₁ (List.cons_ne_nil _ _))

/-- A place in a file, for a buffer. -/
structure EwfStored (t : EwfTable) (capacity : ℕ) (place : EwfPlace) : Prop where
  segment : place.segment = t.segment
  size_pos : 0 < place.storedSize
  size_le : place.storedSize ≤ capacity
  inside : place.off + place.storedSize ≤ t.fileSize

/-- Every entry of a table is read as it was checked. -/
theorem ewfCheckEntries_locate (capacity : ℕ) (g : EwfGroup) {rest : List ℕ}
    {places : List EwfPlace}
    (h : ewfCheckEntries t i rest s = .ok (places, s')) (hs : s.Keeps i rest.length)
    (hdrop : entries.drop i = rest) (hcount : g.count = entries.length)
    (hsegment : g.segment = t.segment) (hbase : g.baseOffset = t.baseOffset)
    (hat : g.overflowAt = s'.overflowAt) (hend : g.dataEnd = s'.dataEnd)
    (hcapacity : s'.compCapacity ≤ capacity) (hmax : t.maxStored < 2 ^ 32) :
    places.length = rest.length ∧ s.compCapacity ≤ s'.compCapacity
      ∧ (∀ place ∈ places, EwfStored t s'.compCapacity place)
      ∧ ∀ j (hj : j < places.length), ewfLocate capacity g entries (i + j) = .ok places[j] := by
  induction rest generalizing i s places with
  | nil =>
    cases h
    refine ⟨rfl, Nat.le_refl _, ?_, fun j hj => absurd hj (Nat.not_lt_zero j)⟩
    intro _ hin
    cases hin
  | cons raw rest ih =>
    obtain ⟨htrue, hfalse⟩ := ewfCheckEntries_overflowAt h hs
    obtain ⟨⟨place, s₁⟩, hcheck, h⟩ := bind_eq_ok_iff.mp h
    obtain ⟨⟨places', s₂⟩, hrest, h⟩ := bind_eq_ok_iff.mp h
    cases h
    have hchecked := ewfCheckEntry_spec hcheck
    have hkeeps := hchecked.keeps hs
    have hlen : entries.length - i = rest.length + 1 := by
      rw [← List.length_drop, hdrop, List.length_cons]
    have hraw : entries.getD i 0 = raw := by
      have hget := congrArg (·[0]?) hdrop
      simp only [List.getElem?_drop, Nat.add_zero, List.getElem?_cons_zero] at hget
      rw [List.getD_eq_getElem?_getD, hget]
      rfl
    have hdrop' : entries.drop (i + 1) = rest := by
      rw [← List.drop_drop, hdrop, List.drop_succ_cons, List.drop_zero]
    have hhead : entries[i + 1]? = rest.head? := by
      rw [← hdrop', List.head?_drop]
    obtain ⟨hlength, hgrows, hstored, hlocate⟩ := ih hrest hkeeps hdrop'
    obtain ⟨htrue', hfalse'⟩ := ewfCheckEntries_overflowAt hrest hkeeps
    have hmore := hchecked.capacity
    have hfirst : ewfLocate capacity g entries i = .ok place := by
      refine ewfLocate_eq hchecked hraw ?_ (fun nextRaw hn => ?_) (fun hso => ?_) (fun hso => ?_)
        (fun hso hs₁ => ?_) (fun hs₁ hn => ?_) hsegment hbase (fun hn => ?_) (by omega) hmax
      · rw [List.head?_eq_none_iff, hcount]
        constructor
        · rintro rfl
          rw [List.length_nil] at hlen
          omega
        · intro hle
          exact List.eq_nil_of_length_eq_zero (by omega)
      · rw [List.getD_eq_getElem?_getD, hhead, hn]
        rfl
      · rw [hat, htrue hso]
        exact hs.past hso
      · rw [hat]
        exact hfalse hso (List.cons_ne_nil _ _)
      · rw [hat, htrue' hs₁]
        exact hchecked.overflowAt_eq hso hs₁
      · rw [hat]
        exact hfalse' hs₁ fun hnil => hn (by rw [hnil]; rfl)
      · have hnil : rest = [] := List.head?_eq_none_iff.mp hn
        subst hnil
        cases hrest
        exact hend
    refine ⟨by rw [List.length_cons, List.length_cons, hlength], by omega, fun p hp => ?_,
      fun j hj => ?_⟩
    · rcases List.mem_cons.mp hp with rfl | hp
      · exact ⟨by rw [hchecked.place_eq], hchecked.size_pos, by omega, hchecked.inside⟩
      · exact hstored p hp
    · cases j with
      | zero => exact hfirst
      | succ j =>
        rw [show i + (j + 1) = i + 1 + j by omega]
        exact hlocate j (Nat.lt_of_succ_lt_succ hj)

end Check

/-! ### What an accepted table adds -/

/-- A table with its places is added to an image. -/
structure EwfAdded (img img' : EwfImage) (g : EwfGroup) (places : List EwfPlace) : Prop where
  image : img' = { img with
    groups := img.groups ++ [g]
    indexedChunks := img.indexedChunks + g.count
    compCapacity := img'.compCapacity }
  capacity : img.compCapacity ≤ img'.compCapacity
  first : g.firstChunk = img.indexedChunks
  count_pos : 0 < g.count
  count_le : g.count ≤ img.nchunks - img.indexedChunks
  length : places.length = g.count
  locate : ∀ c, img'.compCapacity ≤ c → ∀ j (hj : j < places.length), g.locate c j = .ok places[j]

section Tables

variable {img img' : EwfImage} {file : GrubFile} {segment : ℕ} {places : List EwfPlace}

theorem ewfAddGroup_eq_ok {capacity : ℕ} {g : EwfGroup}
    (h : ewfAddGroup img capacity g = .ok img') : img' = { img with
      groups := img.groups ++ [g]
      indexedChunks := img.indexedChunks + g.count
      compCapacity := capacity } := by
  rw [ewfAddGroup] at h
  split_ifs at h
  cases h
  rfl

theorem EwfImage.maxStored_lt (hchunk : img.chunkSize ≤ EWF_MAX_CHUNK_SIZE) :
    img.maxStored < 2 ^ 32 := by
  have hmax : EWF_MAX_CHUNK_SIZE < 2 ^ 27 := by decide
  dsimp only [EwfImage.maxStored]
  omega

/-- An accepted table of version 1: its entries are read as they were checked, and the places lie
in the segment and fit the buffer. -/
theorem ewfParseTable_spec {sectionOff sectionSize : ℕ}
    (hchunk : img.chunkSize ≤ EWF_MAX_CHUNK_SIZE)
    (h : ewfParseTable img file segment sectionOff sectionSize = .ok (img', places)) :
    img.volumeSeen = true ∧ ∃ g, EwfAdded img img' g places ∧ ∀ place ∈ places,
      place.segment = segment ∧ 0 < place.storedSize ∧ place.storedSize ≤ img'.compCapacity
      ∧ place.off + place.storedSize ≤ file.size := by
  rw [ewfParseTable] at h
  obtain ⟨hseen, h⟩ := refuseIf_bind_eq_ok_iff.mp h
  obtain ⟨-, h⟩ := refuseIf_bind_eq_ok_iff.mp h
  obtain ⟨header, -, h⟩ := bind_eq_ok_iff.mp h
  obtain ⟨-, h⟩ := refuseIf_bind_eq_ok_iff.mp h
  obtain ⟨hcount, h⟩ := refuseIf_bind_eq_ok_iff.mp h
  obtain ⟨-, h⟩ := refuseIf_bind_eq_ok_iff.mp h
  obtain ⟨stored, -, h⟩ := bind_eq_ok_iff.mp h
  obtain ⟨⟨⟩, -, h⟩ := bind_eq_ok_iff.mp h
  obtain ⟨⟨checked, s⟩, hcheck, h⟩ := bind_eq_ok_iff.mp h
  obtain ⟨img₁, hadd, h⟩ := bind_eq_ok_iff.mp h
  cases h
  have himg := ewfAddGroup_eq_ok hadd
  have hlen : (ewfEntries stored (lostLe32 header 0)).length = lostLe32 header 0 := by
    rw [ewfEntries, List.length_map, List.length_range]
  have hentries := fun c (hc : s.compCapacity ≤ c) => ewfCheckEntries_locate c
    ⟨img.indexedChunks, lostLe32 header 0, s.overflowAt, segment, lostLe64 header 8, s.dataEnd,
      .v1 (ewfEntries stored (lostLe32 header 0))⟩ hcheck
    ⟨(fun h => by cases h), fun _ => by rw [hlen, Nat.zero_add]⟩ List.drop_zero hlen.symm rfl rfl
    rfl rfl hc (EwfImage.maxStored_lt hchunk)
  obtain ⟨hlength, hgrows, hstored, -⟩ := hentries _ (Nat.le_refl _)
  have hcap : img'.compCapacity = s.compCapacity := by rw [himg]
  refine ⟨by simpa using hseen, _, {
    image := by rw [hcap]; exact himg
    capacity := by rw [hcap]; exact hgrows
    first := rfl
    count_pos := by dsimp only; omega
    count_le := by dsimp only; omega
    length := by rw [hlength, hlen]
    locate := fun c hc j hj => ?_ }, fun place hin => ?_⟩
  · rw [hcap] at hc
    obtain ⟨-, -, -, hlocate⟩ := hentries c hc
    have heq := hlocate j hj
    rw [Nat.zero_add] at heq
    exact heq
  · have hplace := hstored place hin
    rw [hcap]
    exact ⟨hplace.segment, hplace.size_pos, hplace.size_le, hplace.inside⟩

/-- The capacity for stored chunks grows over the entries of version 2, to hold those compressed. -/
theorem ewf2CheckEntry_le {dataStart dataEnd capacity capacity' : ℕ} {e : Ewf2Entry}
    (h : ewf2CheckEntry img dataStart dataEnd capacity e = .ok capacity') :
    capacity ≤ capacity'
      ∧ (e.patternFill = false → e.compressed = true → e.size ≤ capacity') := by
  rw [ewf2CheckEntry] at h
  obtain ⟨-, h⟩ := refuseIf_bind_eq_ok_iff.mp h
  by_cases hpattern : e.patternFill = true
  · rw [if_pos hpattern] at h
    obtain ⟨-, h⟩ := refuseIf_bind_eq_ok_iff.mp h
    cases h
    exact ⟨Nat.le_refl _, fun hno => absurd hpattern (by rw [hno]; exact Bool.false_ne_true)⟩
  · rw [if_neg hpattern] at h
    obtain ⟨⟨⟩, -, h⟩ := bind_eq_ok_iff.mp h
    obtain ⟨-, h⟩ := refuseIf_bind_eq_ok_iff.mp h
    cases h
    refine ⟨?_, fun _ hcompressed => ?_⟩
    · split_ifs
      · exact Nat.le_max_left _ _
      · exact Nat.le_refl _
    · rw [if_pos hcompressed]
      exact Nat.le_max_right _ _

theorem ewf2CheckEntries_le {dataStart dataEnd capacity capacity' : ℕ} {entries : List Ewf2Entry}
    (h : entries.foldlM (ewf2CheckEntry img dataStart dataEnd) capacity = .ok capacity') :
    capacity ≤ capacity'
      ∧ ∀ e ∈ entries, e.patternFill = false → e.compressed = true → e.size ≤ capacity' := by
  induction entries generalizing capacity with
  | nil =>
    cases h
    refine ⟨Nat.le_refl _, ?_⟩
    intro _ hin
    cases hin
  | cons e entries ih =>
    rw [List.foldlM_cons] at h
    obtain ⟨capacity₁, hcheck, h⟩ := bind_eq_ok_iff.mp h
    obtain ⟨hle, hfits⟩ := ewf2CheckEntry_le hcheck
    obtain ⟨hle', hfits'⟩ := ih h
    refine ⟨Nat.le_trans hle hle', fun e' hin => ?_⟩
    rcases List.mem_cons.mp hin with rfl | hin
    · exact fun hpattern hcompressed => Nat.le_trans (hfits hpattern hcompressed) hle'
    · exact hfits' e' hin

/-- An accepted table of version 2. -/
theorem ewf2ParseTable_spec {integrity : Except GrubError Unit}
    {dataOffset dataSize dataStart dataEnd : ℕ}
    (h : ewf2ParseTable img file integrity segment dataOffset dataSize dataStart dataEnd
      = .ok (img', places)) :
    img.volumeSeen = true ∧ ∃ g, EwfAdded img img' g places ∧ ∀ place ∈ places,
      place.segment = segment ∧ (place.patternFill = false → place.compressed = true →
        place.storedSize ≤ img'.compCapacity) := by
  rw [ewf2ParseTable] at h
  obtain ⟨hseen, h⟩ := refuseIf_bind_eq_ok_iff.mp h
  obtain ⟨-, h⟩ := refuseIf_bind_eq_ok_iff.mp h
  obtain ⟨⟨⟩, -, h⟩ := bind_eq_ok_iff.mp h
  obtain ⟨header, -, h⟩ := bind_eq_ok_iff.mp h
  obtain ⟨-, h⟩ := refuseIf_bind_eq_ok_iff.mp h
  obtain ⟨hcount, h⟩ := refuseIf_bind_eq_ok_iff.mp h
  obtain ⟨-, h⟩ := refuseIf_bind_eq_ok_iff.mp h
  obtain ⟨-, h⟩ := refuseIf_bind_eq_ok_iff.mp h
  obtain ⟨stored, -, h⟩ := bind_eq_ok_iff.mp h
  obtain ⟨footer, -, h⟩ := bind_eq_ok_iff.mp h
  obtain ⟨-, h⟩ := refuseIf_bind_eq_ok_iff.mp h
  obtain ⟨capacity, hcheck, h⟩ := bind_eq_ok_iff.mp h
  obtain ⟨img₁, hadd, h⟩ := bind_eq_ok_iff.mp h
  cases h
  have himg := ewfAddGroup_eq_ok hadd
  obtain ⟨hle, hfits⟩ := ewf2CheckEntries_le hcheck
  have hcap : img'.compCapacity = capacity := by rw [himg]
  refine ⟨by simpa using hseen, _, {
    image := by rw [hcap]; exact himg
    capacity := by rw [hcap]; exact hle
    first := rfl
    count_pos := by dsimp only; omega
    count_le := by dsimp only; omega
    length := by rw [List.length_map, ewf2Entries, List.length_map, List.length_range]
    locate := fun c _ j hj => ?_ }, fun place hin => ?_⟩
  · rw [List.length_map] at hj
    rw [List.getElem_map, EwfGroup.locate]
    dsimp only
    rw [List.getD_eq_getElem?_getD, List.getElem?_eq_getElem hj]
    rfl
  · obtain ⟨e, he, rfl⟩ := List.mem_map.mp hin
    rw [hcap]
    exact ⟨rfl, hfits e he⟩

end Tables

end FsRover
