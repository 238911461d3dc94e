import FsRover.Common.Decimal
import FsRover.Lost.State

/-!
# Windows of lost partitions as text

A result of the search for lost partitions is shown with its window, a text from which the window
can be added again: the device, offset, size and remapped ranges, separated by colons.

## Main results

* `FsRover.parseWindow_windowText_iff` : a window comes back if its device contains no colon.
* `FsRover.parseWindow_suffix` : the numbers of an accepted suffix are numerals.
-/

namespace FsRover

/-- `struct window`. -/
structure LostWindow where
  parent : Name
  offset : ℕ
  size : ℕ
  remap : List LostRemap
  deriving DecidableEq, Repr

/-- The device starts with `(` and ends with `)`. -/
def Enclosed (device : Name) : Prop :=
  2 ≤ device.length ∧ device.head? = some 0x28 ∧ device.getLast? = some 0x29

instance (device : Name) : Decidable (Enclosed device) :=
  inferInstanceAs (Decidable (_ ∧ _ ∧ _))

/-- `strip_device`. -/
def stripDevice (device : Name) : Name :=
  if Enclosed device then (device.drop 1).take (device.length - 2) else device

/-- `parse_remap`: `TARGET=SOURCE+LENGTH`. -/
def parseRemap (text : Name) : Option LostRemap :=
  match text.idxOf? 0x3d, text.idxOf? 0x2b with
  | some equal, some plus =>
    if equal < plus then do
      let target ← parseNumber (text.take equal)
      let source ← parseNumber ((text.drop (equal + 1)).take (plus - equal - 1))
      let length ← parseNumber (text.drop (plus + 1))
      some ⟨target, source, length⟩
    else none
  | _, _ => none

/-- The remapped ranges of a window; a fourth field holds them, separated by commas. -/
def parseRemaps (suffix : Name) : Option (List LostRemap) := do
  let remap ← (suffix.splitOn 0x2c).mapM parseRemap
  if remap.length ≤ ROVER_LOST_REMAP_MAX then some remap else none

/-- `parse_window` from the fields between the colons. -/
def parseFields : List Name → Option LostWindow
  | [device, offset, size] => do
    if stripDevice device = [] then none
    let offset ← parseNumber offset
    let size ← parseNumber size
    some ⟨stripDevice device, offset, size, []⟩
  | [device, offset, size, suffix] => do
    if stripDevice device = [] then none
    let offset ← parseNumber offset
    let size ← parseNumber size
    let remap ← parseRemaps suffix
    some ⟨stripDevice device, offset, size, remap⟩
  | _ => none

/-- `parse_window`. -/
def parseWindow (text : Name) : Option LostWindow := parseFields (text.splitOn 0x3a)

/-- A remapped range of `window_text`. -/
def remapText (remap : LostRemap) : Name :=
  toText remap.target ++ 0x3d :: (toText remap.source ++ 0x2b :: toText remap.length)

/-- The remapped ranges of `window_text`: a colon before the first one, commas between them. -/
def remapsText : List LostRemap → Name
  | [] => []
  | remap :: rest => 0x3a :: remapText remap ++ rest.flatMap fun r => 0x2c :: remapText r

/-- `window_text`. -/
def windowText (device : Name) (offset size : ℕ) (remap : List LostRemap) : Name :=
  device ++ 0x3a :: (toText offset ++ 0x3a :: (toText size ++ remapsText remap))

/-! ### Fields and separators -/

theorem idxOf?_append_cons {text : Name} (rest : Name) {c : UInt8} (h : c ∉ text) :
    (text ++ c :: rest).idxOf? c = some text.length := by
  induction text with
  | nil => simp [List.idxOf?_cons]
  | cons d text ih =>
    rw [List.mem_cons, not_or] at h
    simp [List.idxOf?_cons, ih h.2, Ne.symm h.1]

theorem eq_take_cons_drop {text : Name} {c : UInt8} {i : ℕ} (h : text.idxOf? c = some i) :
    text = text.take i ++ c :: text.drop (i + 1) := by
  obtain ⟨hi, hc, -⟩ := List.idxOf?_eq_some_iff.mp h
  conv_lhs => rw [← List.take_append_drop i text]
  rw [List.drop_eq_getElem_cons hi, hc]

/-- `TARGET=SOURCE+LENGTH` is read from its numerals. -/
theorem parseRemap_eq_some {target source length : Name} {t s l : ℕ}
    (htarget : parseNumber target = some t) (hsource : parseNumber source = some s)
    (hlength : parseNumber length = some l) :
    parseRemap (target ++ 0x3d :: (source ++ 0x2b :: length)) = some ⟨t, s, l⟩ := by
  have htarget' := (parseNumber_eq_some_iff.mp htarget).1
  have hsource' := (parseNumber_eq_some_iff.mp hsource).1
  have hequal : (target ++ 0x3d :: (source ++ 0x2b :: length)).idxOf? 0x3d
      = some target.length := idxOf?_append_cons _ (htarget'.notMem (by decide))
  have hplus : (target ++ 0x3d :: (source ++ 0x2b :: length)).idxOf? 0x2b
      = some (target.length + 1 + source.length) := by
    have hbefore : 0x2b ∉ target ++ 0x3d :: source := by
      rw [List.mem_append, List.mem_cons]
      rintro (hmem | heq | hmem)
      · exact htarget'.notMem (by decide) hmem
      · exact absurd heq (by decide)
      · exact hsource'.notMem (by decide) hmem
    have hfound := idxOf?_append_cons length hbefore
    rw [List.append_assoc, List.cons_append] at hfound
    rw [hfound, List.length_append, List.length_cons]
    congr 1
    omega
  have hdrop : (target ++ 0x3d :: (source ++ 0x2b :: length)).drop (target.length + 1)
      = source ++ 0x2b :: length := by simp
  have hrest : (target ++ 0x3d :: (source ++ 0x2b :: length)).drop
      (target.length + 1 + source.length + 1) = length := by
    rw [show target.length + 1 + source.length + 1 = target.length + 1 + (source.length + 1) by
      omega, ← List.drop_drop, hdrop]
    simp
  rw [parseRemap, hequal, hplus]
  simp only
  rw [if_pos (by omega), hdrop, hrest, List.take_left,
    show target.length + 1 + source.length - target.length - 1 = source.length by omega,
    List.take_left, htarget, hsource, hlength]
  rfl

/-- A suffix item that is accepted consists of three numerals. -/
theorem parseRemap_numerals {text : Name} {remap : LostRemap} (h : parseRemap text = some remap) :
    ∃ target source length, text = target ++ 0x3d :: (source ++ 0x2b :: length)
      ∧ IsNumeral target ∧ IsNumeral source ∧ IsNumeral length := by
  rw [parseRemap] at h
  cases hequal : text.idxOf? 0x3d with
  | none =>
    rw [hequal] at h
    cases h
  | some equal =>
    cases hplus : text.idxOf? 0x2b with
    | none =>
      rw [hequal, hplus] at h
      cases h
    | some plus =>
      rw [hequal, hplus] at h
      simp only at h
      split_ifs at h with hlt
      obtain ⟨t, htarget, h⟩ := Option.bind_eq_some_iff.mp h
      obtain ⟨s, hsource, h⟩ := Option.bind_eq_some_iff.mp h
      obtain ⟨l, hlength, -⟩ := Option.bind_eq_some_iff.mp h
      refine ⟨_, _, _, ?_, (parseNumber_eq_some_iff.mp htarget).1,
        (parseNumber_eq_some_iff.mp hsource).1, (parseNumber_eq_some_iff.mp hlength).1⟩
      -- the plus sign lies behind the equals sign
      have hbehind : text.drop (equal + 1)
          = (text.drop (equal + 1)).take (plus - equal - 1) ++ 0x2b :: text.drop (plus + 1) := by
        obtain ⟨hi, hc, -⟩ := List.idxOf?_eq_some_iff.mp hplus
        conv_lhs => rw [← List.take_append_drop (plus - equal - 1) (text.drop (equal + 1))]
        rw [List.drop_drop, show equal + 1 + (plus - equal - 1) = plus by omega,
          List.drop_eq_getElem_cons hi, hc]
      conv_lhs => rw [eq_take_cons_drop hequal, hbehind]

/-- The numbers of a window fit in 64 bits. -/
structure LostRemap.Representable (remap : LostRemap) : Prop where
  target : remap.target < 2 ^ 64
  source : remap.source < 2 ^ 64
  length : remap.length < 2 ^ 64

theorem parseRemap_remapText {remap : LostRemap} (h : remap.Representable) :
    parseRemap (remapText remap) = some remap :=
  parseRemap_eq_some (parseNumber_toText h.target) (parseNumber_toText h.source)
    (parseNumber_toText h.length)

theorem notMem_remapText {remap : LostRemap} (h : remap.Representable) {c : UInt8}
    (hc : isDigit c = false) (hequal : c ≠ 0x3d) (hplus : c ≠ 0x2b) : c ∉ remapText remap := by
  rw [remapText, List.mem_append, List.mem_cons, List.mem_append, List.mem_cons]
  rintro (hmem | heq | hmem | heq | hmem)
  · exact (toText_spec h.target).1.notMem hc hmem
  · exact hequal heq
  · exact (toText_spec h.source).1.notMem hc hmem
  · exact hplus heq
  · exact (toText_spec h.length).1.notMem hc hmem

theorem splitOn_ranges {remap : LostRemap} {rest : List LostRemap}
    (h : ∀ r ∈ remap :: rest, r.Representable) :
    (remapText remap ++ rest.flatMap fun r => 0x2c :: remapText r).splitOn 0x2c
      = (remap :: rest).map remapText := by
  induction rest generalizing remap with
  | nil =>
    have hnot := notMem_remapText (h remap List.mem_cons_self) (c := 0x2c) (by decide) (by decide)
      (by decide)
    simpa using List.splitOn_eq_singleton hnot
  | cons next rest ih =>
    have hnot := notMem_remapText (h remap List.mem_cons_self) (c := 0x2c) (by decide) (by decide)
      (by decide)
    rw [List.flatMap_cons, List.cons_append, List.splitOn_append_cons_self_of_not_mem hnot,
      ih fun r hr => h r (List.mem_cons_of_mem _ hr), List.map_cons, List.map_cons, List.map_cons]

theorem mapM_remapText {remap : List LostRemap} (h : ∀ r ∈ remap, r.Representable) :
    (remap.map remapText).mapM parseRemap = some remap := by
  induction remap with
  | nil => rfl
  | cons r rest ih =>
    rw [List.map_cons, List.mapM_cons, parseRemap_remapText (h r List.mem_cons_self),
      ih fun r' hr' => h r' (List.mem_cons_of_mem _ hr')]
    rfl

/-! ### The round trip -/

/-- The fields of a window with its device. -/
def windowFields (offset size : ℕ) : List LostRemap → List Name
  | [] => [toText offset, toText size]
  | remap :: rest =>
    [toText offset, toText size, remapText remap ++ rest.flatMap fun r => 0x2c :: remapText r]

/-- What is written after the device is split into its fields again. -/
theorem splitOn_windowText (device : Name) {offset size : ℕ} {remap : List LostRemap}
    (hoffset : offset < 2 ^ 64) (hsize : size < 2 ^ 64) (hremap : ∀ r ∈ remap, r.Representable) :
    (windowText device offset size remap).splitOn 0x3a
      = device.splitOn 0x3a ++ windowFields offset size remap := by
  have hoffset' := (toText_spec hoffset).1.notMem (c := 0x3a) (by decide)
  have hsize' := (toText_spec hsize).1.notMem (c := 0x3a) (by decide)
  rw [windowText, List.splitOn_append_cons_self, List.splitOn_append_cons_self_of_not_mem hoffset']
  congr 2
  cases remap with
  | nil =>
    rw [remapsText, List.append_nil, List.splitOn_eq_singleton hsize']
    rfl
  | cons r rest =>
    have hranges : 0x3a ∉ remapText r ++ rest.flatMap fun r => 0x2c :: remapText r := by
      rw [List.mem_append, List.mem_flatMap]
      rintro (hmem | ⟨r', hr', hmem⟩)
      · exact notMem_remapText (hremap r List.mem_cons_self) (by decide) (by decide) (by decide)
          hmem
      · rcases List.mem_cons.mp hmem with heq | hmem
        · exact absurd heq (by decide)
        · exact notMem_remapText (hremap r' (List.mem_cons_of_mem _ hr')) (by decide) (by decide)
            (by decide) hmem
    rw [remapsText, List.cons_append, List.splitOn_append_cons_self_of_not_mem hsize',
      List.splitOn_eq_singleton hranges]
    rfl

/-- A window that is accepted has three or four fields, and its device is the first one. -/
theorem parseFields_eq_some {fields : List Name} {w : LostWindow} (h : parseFields fields = some w) :
    ∃ device offset size suffix, fields = [device, offset, size] ++ suffix
      ∧ w.parent = stripDevice device
      ∧ (suffix = [] ∨ ∃ ranges, suffix = [ranges] ∧ parseRemaps ranges = some w.remap) := by
  match fields with
  | [] => cases h
  | [_] => cases h
  | [_, _] => cases h
  | [device, offset, size] =>
    rw [parseFields] at h
    split_ifs at h
    · cases h
    · obtain ⟨o, -, h⟩ := Option.bind_eq_some_iff.mp h
      obtain ⟨s, -, h⟩ := Option.bind_eq_some_iff.mp h
      obtain rfl := Option.some.inj h
      exact ⟨device, offset, size, [], rfl, rfl, .inl rfl⟩
  | [device, offset, size, suffix] =>
    rw [parseFields] at h
    split_ifs at h
    · cases h
    · obtain ⟨o, -, h⟩ := Option.bind_eq_some_iff.mp h
      obtain ⟨s, -, h⟩ := Option.bind_eq_some_iff.mp h
      obtain ⟨r, hr, h⟩ := Option.bind_eq_some_iff.mp h
      obtain rfl := Option.some.inj h
      exact ⟨device, offset, size, [suffix], rfl, rfl, .inr ⟨suffix, rfl, hr⟩⟩
  | _ :: _ :: _ :: _ :: _ :: _ => cases h

theorem mem_of_mem_stripDevice {device : Name} {c : UInt8} (h : c ∈ stripDevice device) :
    c ∈ device := by
  rw [stripDevice] at h
  split_ifs at h
  · exact List.mem_of_mem_drop (List.mem_of_mem_take h)
  · exact h

theorem splitOn_colon (text : Name) : ∃ field rest, text.splitOn 0x3a = field :: rest
    ∧ 0x3a ∉ field := by
  by_cases hmem : 0x3a ∈ text
  · obtain ⟨i, hi⟩ := Option.isSome_iff_exists.mp (List.isSome_idxOf?.mpr hmem)
    obtain ⟨hlt, -, hbefore⟩ := List.idxOf?_eq_some_iff.mp hi
    have hnot : 0x3a ∉ text.take i := by
      intro h
      obtain ⟨j, hj, hc⟩ := List.mem_iff_getElem.mp h
      rw [List.length_take] at hj
      rw [List.getElem_take] at hc
      exact hbefore j (by omega) hc
    refine ⟨text.take i, (text.drop (i + 1)).splitOn 0x3a, ?_, hnot⟩
    conv_lhs => rw [eq_take_cons_drop hi]
    exact List.splitOn_append_cons_self_of_not_mem hnot _
  · exact ⟨text, [], List.splitOn_eq_singleton hmem, hmem⟩

/-- The fields of an acceptable device give the window back. -/
theorem parseFields_windowFields {device : Name} (hdevice : device ≠ [])
    (henclosed : ¬ Enclosed device) {offset size : ℕ} {remap : List LostRemap}
    (hoffset : offset < 2 ^ 64) (hsize : size < 2 ^ 64) (hremap : ∀ r ∈ remap, r.Representable)
    (hcount : remap.length ≤ ROVER_LOST_REMAP_MAX) :
    parseFields (device :: windowFields offset size remap)
      = some ⟨device, offset, size, remap⟩ := by
  have hstrip : stripDevice device = device := by rw [stripDevice, if_neg henclosed]
  cases remap with
  | nil =>
    rw [windowFields, parseFields, hstrip, if_neg hdevice, parseNumber_toText hoffset,
      parseNumber_toText hsize]
    rfl
  | cons r rest =>
    have hremaps : parseRemaps (remapText r ++ rest.flatMap fun r => 0x2c :: remapText r)
        = some (r :: rest) := by
      rw [parseRemaps, splitOn_ranges hremap, mapM_remapText hremap]
      exact if_pos hcount
    rw [windowFields, parseFields, hstrip, if_neg hdevice, parseNumber_toText hoffset,
      parseNumber_toText hsize, hremaps]
    rfl

/-- A window that is written with an acceptable device comes back if and only if the device contains
no colon. -/
theorem parseWindow_windowText_iff {device : Name} (hdevice : device ≠ [])
    (henclosed : ¬ Enclosed device) {offset size : ℕ} {remap : List LostRemap}
    (hoffset : offset < 2 ^ 64) (hsize : size < 2 ^ 64) (hremap : ∀ r ∈ remap, r.Representable)
    (hcount : remap.length ≤ ROVER_LOST_REMAP_MAX) :
    parseWindow (windowText device offset size remap) = some ⟨device, offset, size, remap⟩
      ↔ 0x3a ∉ device := by
  rw [parseWindow, splitOn_windowText device hoffset hsize hremap]
  constructor
  · intro h hcolon
    obtain ⟨field, rest, hsplit, hfield⟩ := splitOn_colon device
    rw [hsplit] at h
    obtain ⟨device', _, _, _, hfields, hparent, -⟩ := parseFields_eq_some h
    obtain rfl : field = device' := (List.cons.inj hfields).1
    have hmem : 0x3a ∈ stripDevice field := hparent ▸ hcolon
    exact hfield (mem_of_mem_stripDevice hmem)
  · intro hcolon
    rw [List.splitOn_eq_singleton hcolon]
    exact parseFields_windowFields hdevice henclosed hoffset hsize hremap hcount

theorem exists_of_mapM_eq_some {α β : Type*} {f : α → Option β} {l : List α} {l' : List β}
    (h : l.mapM f = some l') : ∀ a ∈ l, ∃ b, f a = some b := by
  induction l generalizing l' with
  | nil => simp
  | cons a l ih =>
    rw [List.mapM_cons] at h
    obtain ⟨b, hb, h⟩ := Option.bind_eq_some_iff.mp h
    obtain ⟨bs, hbs, -⟩ := Option.bind_eq_some_iff.mp h
    intro c hc
    rcases List.mem_cons.mp hc with rfl | hc
    · exact ⟨b, hb⟩
    · exact ih hbs c hc

/-- The ranges of a window that is accepted consist of numerals up to the 64-bit limit. -/
theorem parseWindow_suffix {text : Name} {w : LostWindow} (h : parseWindow text = some w)
    {suffix : Name} (hsuffix : (text.splitOn 0x3a)[3]? = some suffix) :
    ∀ item ∈ suffix.splitOn 0x2c, ∃ target source length,
      item = target ++ 0x3d :: (source ++ 0x2b :: length)
        ∧ IsNumeral target ∧ IsNumeral source ∧ IsNumeral length := by
  obtain ⟨device, offset, size, rest, hfields, -, hrest⟩ := parseFields_eq_some h
  rw [hfields] at hsuffix
  rcases hrest with rfl | ⟨ranges, rfl, hranges⟩
  · cases hsuffix
  · obtain rfl : ranges = suffix := Option.some.inj hsuffix
    obtain ⟨remap, hremap, -⟩ := Option.bind_eq_some_iff.mp hranges
    intro item hitem
    obtain ⟨r, hr⟩ := exists_of_mapM_eq_some hremap item hitem
    exact parseRemap_numerals hr

/-- The window column: what is written for a device that is not empty and not in parentheses is
read back if and only if the device contains no colon, and a suffix is accepted only if its numbers
are decimal numerals up to the 64-bit limit. -/
theorem lostWindow_text {device : Name} (hdevice : device ≠ []) (henclosed : ¬ Enclosed device)
    {offset size : ℕ} {remap : List LostRemap} (hoffset : offset < 2 ^ 64) (hsize : size < 2 ^ 64)
    (hremap : ∀ r ∈ remap, r.Representable) (hcount : remap.length ≤ ROVER_LOST_REMAP_MAX) :
    (parseWindow (windowText device offset size remap) = some ⟨device, offset, size, remap⟩
        ↔ 0x3a ∉ device)
      ∧ ∀ text w suffix, parseWindow text = some w → (text.splitOn 0x3a)[3]? = some suffix →
        ∀ item ∈ suffix.splitOn 0x2c, ∃ target source length,
          item = target ++ 0x3d :: (source ++ 0x2b :: length)
            ∧ IsNumeral target ∧ IsNumeral source ∧ IsNumeral length :=
  ⟨parseWindow_windowText_iff hdevice henclosed hoffset hsize hremap hcount,
    fun _ _ _ hw hsuffix => parseWindow_suffix hw hsuffix⟩

/-- `hd0`, with the largest offset. -/
theorem lostWindow_text_hd0 :
    parseWindow (windowText [0x68, 0x64, 0x30] (2 ^ 64 - 1) 512 [⟨0, 6, 1⟩])
      = some ⟨[0x68, 0x64, 0x30], 2 ^ 64 - 1, 512, [⟨0, 6, 1⟩]⟩ := by
  have hfits : ∀ r ∈ [LostRemap.mk 0 6 1], r.Representable := by
    intro r hr
    rw [List.mem_singleton.mp hr]
    exact ⟨by decide, by decide, by decide⟩
  exact (lostWindow_text (by decide) (by decide) (by decide) (by decide) hfits (by decide)).1.mpr
    (by decide)

/-- The device `a:b` is cut at its colon. -/
theorem lostWindow_text_colon :
    parseWindow (windowText [0x61, 0x3a, 0x62] 0 512 []) ≠ some ⟨[0x61, 0x3a, 0x62], 0, 512, []⟩ := by
  decide

end FsRover
