import FsRover.Common.Decimal
import FsRover.Lib.Utf16
import Mathlib.Data.List.DropRight

/-!
# Names on a Windows destination

`sanitize_component` makes a name of a source into one that Windows takes, and `numbered_component`
puts a number into it when the name is taken. Both cut what is longer than 255 units, and a cut can
leave a dot, a space or half a pair of surrogates at the end.

## Main definitions

* `FsRover.ValidComponent` : what Windows takes as a name.
* `FsRover.NameSafe` : the cuts leave no dot, space or half a pair at the end.

## Main results

* `FsRover.escapeComponent_spec` : before it is cut, a name is valid but for its length.
* `FsRover.validComponent_insert` : what a number in a name leaves to be checked.
-/

namespace FsRover

open Utf16

/-! ### The functions -/

/-- `MAX_COMPONENT_LENGTH`. -/
def MAX_COMPONENT_LENGTH : ℕ := 255

/-- `INT_MAX`. -/
def INT_MAX : ℕ := 2 ^ 31 - 1

/-- `widen`. -/
def widen (name : List Char) : List ℕ :=
  if name.isEmpty || INT_MAX < (name.map Char.utf8Size).sum then [] else encode name

/-- One of `<>:"/\|?*`. -/
def isForbidden (c : ℕ) : Bool :=
  [0x3c, 0x3e, 0x3a, 0x22, 0x2f, 0x5c, 0x7c, 0x3f, 0x2a].contains c

/-- The loop of `sanitize_component` over the units. -/
def replaceUnit (c : ℕ) : ℕ := if c < 32 || isForbidden c then 0x5f else c

/-- A dot or a space. -/
def isTrailing (c : ℕ) : Bool := c == 0x2e || c == 0x20

/-- The stem of a name: what is in front of the first dot, without dots and spaces at the end. -/
def hostStem (out : List ℕ) : List ℕ := (out.takeWhile (· != 0x2e)).rdropWhile isTrailing

/-- The upper case of `CompareStringOrdinal`, as far as it leads to letters of device names. -/
def ordinalUpper (c : ℕ) : ℕ := if 0x61 ≤ c ∧ c ≤ 0x7a then c - 0x20 else c

/-- A digit from 1 on, or a superscript one, two or three. -/
def isNumbered (digit : ℕ) : Bool :=
  (0x31 ≤ digit && digit ≤ 0x39) || digit == 0xb9 || digit == 0xb2 || digit == 0xb3

/-- A stem that is the name of a device: `CON`, `PRN`, `AUX`, `NUL`, or `COM` or `LPT` with a
number. -/
def isDevice (stem : List ℕ) : Bool :=
  [[0x43, 0x4f, 0x4e], [0x50, 0x52, 0x4e], [0x41, 0x55, 0x58], [0x4e, 0x55, 0x4c]].contains
      (stem.map ordinalUpper)
    || (stem.length == 4 && (stem.drop 3).all isNumbered
      && [[0x43, 0x4f, 0x4d], [0x4c, 0x50, 0x54]].contains ((stem.take 3).map ordinalUpper))

/-- `sanitize_component` as far as the dots and spaces at the end: the loop over them ends after one
round, with the unit that it writes. -/
def trimComponent (name : List Char) : List ℕ :=
  let out := (widen name).map replaceUnit
  if out.isEmpty then [0x5f]
  else if out.getLast?.any isTrailing then out.dropLast ++ [0x5f]
  else out

/-- A name with `_` in front of its first dot, or at its end. -/
def escapeDevice (out : List ℕ) : List ℕ :=
  out.takeWhile (· != 0x2e) ++ 0x5f :: out.dropWhile (· != 0x2e)

/-- `sanitize_component` as far as the device names. -/
def escapeComponent (name : List Char) : List ℕ :=
  if isDevice (hostStem (trimComponent name)) then escapeDevice (trimComponent name)
  else trimComponent name

/-- The end of `sanitize_component`. -/
def cutComponent (out : List ℕ) : List ℕ :=
  if MAX_COMPONENT_LENGTH < out.length then
    let cut := out.take MAX_COMPONENT_LENGTH
    if cut.getLast?.any (fun c => decide (IsHigh c)) then cut.dropLast else cut
  else out

/-- `sanitize_component`. -/
def sanitizeComponent (name : List Char) : List ℕ := cutComponent (escapeComponent name)

/-- The number with a space and brackets. -/
def numberSuffix (number : ℕ) : List ℕ :=
  [0x20, 0x28] ++ (toText number).map UInt8.toNat ++ [0x29]

/-- `find_last_of (L'.')`. -/
def lastDot : List ℕ → Option ℕ
  | [] => none
  | c :: base =>
    match lastDot base with
    | some dot => some (dot + 1)
    | none => if c = 0x2e then some 0 else none

/-- Where the number goes: in front of the extension of a file, or at the end. -/
def numberPosition (base : List ℕ) (isDir : Bool) : ℕ :=
  if isDir then base.length
  else
    match lastDot base with
    | some dot => if dot = 0 then base.length else dot
    | none => base.length

/-- A high surrogate in front of the number is replaced. -/
def fixBefore (out : List ℕ) (insert : ℕ) : List ℕ :=
  if insert ≠ 0 ∧ IsHigh (out.getD (insert - 1) 0) then out.set (insert - 1) 0x5f else out

/-- `out.insert (insert, suffix)`. -/
def insertUnits (out : List ℕ) (insert : ℕ) (suffix : List ℕ) : List ℕ :=
  out.take insert ++ suffix ++ out.drop insert

/-- `numbered_component`. -/
def numberedComponent (base : List ℕ) (number : ℕ) (isDir : Bool) : List ℕ :=
  let suffix := numberSuffix number
  let insert := numberPosition base isDir
  if MAX_COMPONENT_LENGTH < base.length + suffix.length then
    let overflow := base.length + suffix.length - MAX_COMPONENT_LENGTH
    if overflow < insert then
      let out := base.take (insert - overflow) ++ base.drop insert
      insertUnits (fixBefore out (insert - overflow)) (insert - overflow) suffix
    else
      let out := base.take (MAX_COMPONENT_LENGTH - suffix.length)
      let insert := min insert out.length
      insertUnits (fixBefore out insert) insert suffix
  else insertUnits base insert suffix

/-- The last component of `candidate_path`. -/
def candidateComponent (base : List ℕ) (number : ℕ) (isDir : Bool) : List ℕ :=
  if number = 0 then base else numberedComponent base number isDir

/-! ### What is asked of a name -/

/-- A name that Windows takes. -/
structure ValidComponent (out : List ℕ) : Prop where
  length_pos : 0 < out.length
  length_le : out.length ≤ MAX_COMPONENT_LENGTH
  units : ∀ c ∈ out, 32 ≤ c ∧ isForbidden c = false
  last : ∀ c ∈ out.getLast?, isTrailing c = false
  paired : Paired out
  stem : isDevice (hostStem out) = false

/-- The units of a name, with the one that is put into the name of a device. -/
def escapedUnits (name : List Char) : List ℕ :=
  if isDevice (hostStem (trimComponent name)) then escapeDevice (widen name) else widen name

/-- The last unit that a cut leaves: the 255th one, or the one in front of a pair that it would cut
apart. -/
def lastKept (out : List ℕ) : ℕ :=
  if IsHigh (out.getD 254 0) then out.getD 253 0 else out.getD 254 0

/-- The name is not cut, or not behind a dot or a space. -/
def CutSafe (name : List Char) : Prop :=
  (escapedUnits name).length ≤ MAX_COMPONENT_LENGTH
    ∨ isTrailing (lastKept (escapedUnits name)) = false

/-- The name is not cut behind a dot or a space; or a number is put at its end, or makes it no longer
than 255 units, or the part in front of the extension is cut and the extension is as it should be; or
the extension is cut, and neither behind a space nor through a pair. -/
def NameSafe (name : List Char) (number : ℕ) (isDir : Bool) : Prop :=
  let base := sanitizeComponent name
  let suffix := (numberSuffix number).length
  if number = 0 then CutSafe name
  else isDir = true ∨ base.length + suffix ≤ MAX_COMPONENT_LENGTH
    ∨ ∀ dot ∈ lastDot base, dot ≠ 0 →
      if base.length + suffix - MAX_COMPONENT_LENGTH < dot then CutSafe name
      else isTrailing (base.getD (MAX_COMPONENT_LENGTH - suffix - 1) 0) = false
        ∧ ¬ IsHigh (base.getD (MAX_COMPONENT_LENGTH - suffix - 1) 0)

/-! ### Units, stems and devices -/

theorem isForbidden_lt {c : ℕ} (h : isForbidden c = true) : c < 0x80 := by
  simp only [isForbidden, List.contains_iff_mem, List.mem_cons, List.not_mem_nil, or_false] at h
  omega

theorem replaceUnit_spec (c : ℕ) :
    (32 ≤ replaceUnit c ∧ isForbidden (replaceUnit c) = false)
      ∧ (replaceUnit c = c ∨ c < 0x80 ∧ replaceUnit c = 0x5f ∧ isTrailing c = false) := by
  rw [replaceUnit]
  by_cases hbad : (c < 32 || isForbidden c) = true
  · rw [if_pos hbad]
    refine ⟨by decide, .inr ?_⟩
    rw [Bool.or_eq_true, decide_eq_true_eq] at hbad
    rcases hbad with hlt | hforbidden
    · refine ⟨by omega, rfl, ?_⟩
      simp only [isTrailing, Bool.or_eq_false_iff, beq_eq_false_iff_ne]
      omega
    · refine ⟨isForbidden_lt hforbidden, rfl, ?_⟩
      simp only [isForbidden, List.contains_iff_mem, List.mem_cons, List.not_mem_nil, or_false]
        at hforbidden
      simp only [isTrailing, Bool.or_eq_false_iff, beq_eq_false_iff_ne]
      omega
  · rw [if_neg hbad]
    rw [Bool.or_eq_true, not_or, decide_eq_true_eq, Nat.not_lt, Bool.not_eq_true] at hbad
    exact ⟨hbad, .inl rfl⟩

theorem isHigh_replaceUnit (c : ℕ) : IsHigh (replaceUnit c) ↔ IsHigh c := by
  rcases (replaceUnit_spec c).2 with h | ⟨hlt, h, -⟩
  · rw [h]
  · rw [h]
    refine iff_of_false (by decide) fun hhigh => ?_
    have hle := hhigh.1
    omega

theorem isLow_replaceUnit (c : ℕ) : IsLow (replaceUnit c) ↔ IsLow c := by
  rcases (replaceUnit_spec c).2 with h | ⟨hlt, h, -⟩
  · rw [h]
  · rw [h]
    refine iff_of_false (by decide) fun hlow => ?_
    have hle := hlow.1
    omega

theorem isTrailing_replaceUnit (c : ℕ) : isTrailing (replaceUnit c) = isTrailing c := by
  rcases (replaceUnit_spec c).2 with h | ⟨-, h, hc⟩
  · rw [h]
  · rw [h, hc]
    rfl

theorem replaceUnit_eq_dot {c : ℕ} : replaceUnit c = 0x2e ↔ c = 0x2e := by
  rcases (replaceUnit_spec c).2 with h | ⟨-, h, hc⟩
  · rw [h]
  · rw [h]
    refine iff_of_false (by decide) ?_
    rintro rfl
    cases hc

theorem isTrailing_cases {c : ℕ} (h : isTrailing c = true) : c = 0x2e ∨ c = 0x20 := by
  simpa [isTrailing] using h

/-- The names of devices are short, and of letters and digits. -/
theorem isDevice_spec {stem : List ℕ} (h : isDevice stem = true) :
    stem.length ≤ 4 ∧ ∀ c ∈ stem, c ≠ 0x5f ∧ c ≠ 0x29 := by
  simp only [isDevice, Bool.or_eq_true, Bool.and_eq_true, List.contains_iff_mem, beq_iff_eq,
    List.all_eq_true] at h
  rcases h with hword | ⟨⟨hlength, hdigit⟩, hword⟩
  · refine ⟨?_, fun c hc => ?_⟩
    · rw [← List.length_map ordinalUpper]
      simp only [List.mem_cons, List.not_mem_nil, or_false] at hword
      rcases hword with h | h | h | h <;> rw [h] <;> decide
    · have hupper := List.mem_map_of_mem (f := ordinalUpper) hc
      constructor <;> rintro rfl <;> revert hword hupper <;>
        generalize stem.map ordinalUpper = word <;>
        simp only [List.mem_cons, List.not_mem_nil, or_false] <;>
        rintro (rfl | rfl | rfl | rfl) <;> decide
  · refine ⟨Nat.le_of_eq hlength, fun c hc => ?_⟩
    rw [← List.take_append_drop 3 stem, List.mem_append] at hc
    rcases hc with hc | hc
    · have hupper := List.mem_map_of_mem (f := ordinalUpper) hc
      constructor <;> rintro rfl <;> revert hword hupper <;>
        generalize (stem.take 3).map ordinalUpper = word <;>
        simp only [List.mem_cons, List.not_mem_nil, or_false] <;>
        rintro (rfl | rfl) <;> decide
    · have hnumber := hdigit c hc
      constructor <;> rintro rfl <;> cases hnumber

theorem hostStem_of_notMem {out : List ℕ} (hdot : 0x2e ∉ out)
    (hlast : ∀ c ∈ out.getLast?, isTrailing c = false) : hostStem out = out := by
  have hall : ∀ c ∈ out, (c != 0x2e) = true := fun c hc =>
    bne_iff_ne.mpr fun heq => hdot (heq ▸ hc)
  rw [hostStem, List.takeWhile_eq_self_iff.mpr hall, List.rdropWhile_eq_self_iff]
  intro hne htrailing
  rw [hlast _ (List.getLast?_eq_some_getLast hne)] at htrailing
  cases htrailing

theorem hostStem_append_of_mem {out : List ℕ} (hdot : 0x2e ∈ out) (more : List ℕ) :
    hostStem (out ++ more) = hostStem out := by
  have htake : (out ++ more).takeWhile (· != 0x2e) = out.takeWhile (· != 0x2e) := by
    rw [List.takeWhile_append, if_neg]
    intro hlength
    have hall := List.takeWhile_eq_self_iff.mp
      ((List.takeWhile_prefix (· != 0x2e)).eq_of_length hlength) _ hdot
    exact bne_iff_ne.mp hall rfl
  rw [hostStem, hostStem, htake]

theorem hostStem_append_dot {out more : List ℕ} (hdot : 0x2e ∉ out) :
    hostStem (out ++ 0x2e :: more) = out.rdropWhile isTrailing := by
  have hall : ∀ c ∈ out, (c != 0x2e) = true := fun c hc =>
    bne_iff_ne.mpr fun heq => hdot (heq ▸ hc)
  rw [hostStem, List.takeWhile_append_of_pos hall]
  simp

/-- A stem that ends with `_` or with a bracket is no device. -/
theorem not_isDevice_concat {stem : List ℕ} {c : ℕ} (hc : c = 0x5f ∨ c = 0x29) :
    isDevice ((stem ++ [c]).rdropWhile isTrailing) = false := by
  have hsame : (stem ++ [c]).rdropWhile isTrailing = stem ++ [c] := by
    rw [List.rdropWhile_concat_neg]
    rcases hc with rfl | rfl <;> decide
  rw [hsame, Bool.eq_false_iff]
  intro hdevice
  obtain ⟨hne, hne'⟩ := (isDevice_spec hdevice).2 c (List.mem_append_right _ List.mem_cons_self)
  exact hc.elim hne hne'

/-! ### Escaped names -/

/-- A name that is valid but for its length. -/
structure EscapedComponent (out : List ℕ) : Prop where
  ne_nil : out ≠ []
  units : ∀ c ∈ out, 32 ≤ c ∧ isForbidden c = false
  last : ∀ c ∈ out.getLast?, isTrailing c = false
  paired : Paired out

theorem paired_widen (name : List Char) : Paired (widen name) := by
  rw [widen]
  split_ifs
  · exact .nil
  · exact paired_encode name

theorem trimComponent_spec (name : List Char) : EscapedComponent (trimComponent name) := by
  have hpaired : Paired ((widen name).map replaceUnit) :=
    (paired_widen name).map isHigh_replaceUnit isLow_replaceUnit
  have hunits : ∀ c ∈ (widen name).map replaceUnit, 32 ≤ c ∧ isForbidden c = false := by
    intro c hc
    obtain ⟨d, -, rfl⟩ := List.mem_map.mp hc
    exact (replaceUnit_spec d).1
  rw [trimComponent]
  generalize (widen name).map replaceUnit = out at hpaired hunits ⊢
  have hsingle : Paired [0x5f] := .singleton (by decide) (by decide)
  have hsingleUnits : ∀ c ∈ [0x5f], 32 ≤ c ∧ isForbidden c = false := by
    intro c hc
    rw [List.mem_singleton.mp hc]
    decide
  have hsingleLast : ∀ c ∈ [0x5f].getLast?, isTrailing c = false := by
    intro c hc
    obtain rfl := Option.some.inj hc
    rfl
  split_ifs with hempty htrailing
  · exact ⟨by decide, hsingleUnits, hsingleLast, hsingle⟩
  · obtain ⟨c, hc, hunit⟩ := (Option.any_eq_true _ _).mp htrailing
    obtain ⟨front, rfl⟩ : ∃ front, out = front ++ [c] := by
      have hne : out ≠ [] := by
        rintro rfl
        cases hc
      refine ⟨out.dropLast, ?_⟩
      rw [← Option.some.inj ((List.getLast?_eq_some_getLast hne).symm.trans hc)]
      exact (List.dropLast_append_getLast hne).symm
    rw [List.dropLast_concat]
    refine ⟨by simp, fun d hd => ?_, fun d hd => ?_, ?_⟩
    · rcases List.mem_append.mp hd with hd | hd
      · exact hunits d (List.mem_append_left _ hd)
      · exact hsingleUnits d hd
    · rw [List.getLast?_concat] at hd
      exact hsingleLast d hd
    · refine (hpaired.of_append fun d hd => ?_).1.append hsingle
      obtain rfl := Option.some.inj hd
      rcases isTrailing_cases hunit with rfl | rfl <;> decide
  · refine ⟨by simpa using hempty, hunits, fun c hc => ?_, hpaired⟩
    rw [Bool.eq_false_iff]
    exact fun htrail => htrailing ((Option.any_eq_true _ _).mpr ⟨c, hc, htrail⟩)

/-- What is in front of the first dot, and the dot with the rest. -/
theorem takeWhile_dropWhile_dot (out : List ℕ) :
    0x2e ∉ out.takeWhile (· != 0x2e)
      ∧ (out.dropWhile (· != 0x2e) = [] ∨ ∃ rest, out.dropWhile (· != 0x2e) = 0x2e :: rest) := by
  induction out with
  | nil => exact ⟨List.not_mem_nil, .inl rfl⟩
  | cons c out ih =>
    by_cases hc : c = 0x2e
    · subst hc
      exact ⟨by simp, .inr ⟨out, by simp⟩⟩
    · have hne : (c != 0x2e) = true := bne_iff_ne.mpr hc
      rw [List.takeWhile_cons_of_pos (p := (· != 0x2e)) hne,
        List.dropWhile_cons_of_pos (p := (· != 0x2e)) hne]
      exact ⟨fun hmem => (List.mem_cons.mp hmem).elim (fun heq => hc heq.symm) ih.1, ih.2⟩

theorem length_escapeDevice (out : List ℕ) : (escapeDevice out).length = out.length + 1 := by
  have hsplit := congrArg List.length
    (List.takeWhile_append_dropWhile (p := (· != 0x2e)) (l := out))
  rw [List.length_append] at hsplit
  rw [escapeDevice, List.length_append, List.length_cons]
  omega

theorem EscapedComponent.escapeDevice {out : List ℕ} (h : EscapedComponent out) :
    EscapedComponent (escapeDevice out) ∧ isDevice (hostStem (FsRover.escapeDevice out)) = false := by
  obtain ⟨hfront, hrest⟩ := takeWhile_dropWhile_dot out
  have hsplit := List.takeWhile_append_dropWhile (p := (· != 0x2e)) (l := out)
  rw [FsRover.escapeDevice]
  generalize out.takeWhile (· != 0x2e) = front at hfront hsplit ⊢
  generalize out.dropWhile (· != 0x2e) = rest at hrest hsplit ⊢
  subst hsplit
  obtain ⟨hpairedFront, hpairedRest⟩ := h.paired.of_append (by
    intro c hc
    rcases hrest with rfl | ⟨rest, rfl⟩
    · cases hc
    · obtain rfl := Option.some.inj hc
      decide)
  refine ⟨⟨by simp, fun c hc => ?_, fun c hc => ?_, ?_⟩, ?_⟩
  · rcases List.mem_append.mp hc with hc | hc
    · exact h.units c (List.mem_append_left _ hc)
    · rcases List.mem_cons.mp hc with rfl | hc
      · decide
      · exact h.units c (List.mem_append_right _ hc)
  · rcases hrest with rfl | ⟨rest, rfl⟩
    · rw [List.getLast?_concat] at hc
      obtain rfl := Option.some.inj hc
      rfl
    · refine h.last c ?_
      rw [List.getLast?_append_cons] at hc ⊢
      rwa [List.getLast?_cons_cons] at hc
  · rw [← List.singleton_append]
    exact hpairedFront.append ((Paired.singleton (by decide) (by decide)).append hpairedRest)
  · have hfront' : 0x2e ∉ front ++ [0x5f] := by simpa using hfront
    rcases hrest with rfl | ⟨rest, rfl⟩
    · have hall : ∀ c ∈ front ++ [0x5f], (c != 0x2e) = true := fun c hc =>
        bne_iff_ne.mpr (by rintro rfl; exact hfront' hc)
      rw [hostStem, List.takeWhile_eq_self_iff.mpr hall]
      exact not_isDevice_concat (.inl rfl)
    · rw [show front ++ 0x5f :: 0x2e :: rest = front ++ [0x5f] ++ 0x2e :: rest by simp,
        hostStem_append_dot hfront']
      exact not_isDevice_concat (.inl rfl)

/-- Before it is cut, a name is valid but for its length. -/
theorem escapeComponent_spec (name : List Char) : EscapedComponent (escapeComponent name)
    ∧ isDevice (hostStem (escapeComponent name)) = false := by
  rw [escapeComponent]
  split_ifs with hdevice
  · exact (trimComponent_spec name).escapeDevice
  · exact ⟨trimComponent_spec name, Bool.eq_false_iff.mpr hdevice⟩

/-! ### Names that are cut -/

/-- A name that is valid but for its last unit. -/
structure CutComponent (out : List ℕ) : Prop where
  length_pos : 0 < out.length
  length_le : out.length ≤ MAX_COMPONENT_LENGTH
  units : ∀ c ∈ out, 32 ≤ c ∧ isForbidden c = false
  paired : Paired out
  stem : (0x2e ∈ out ∨ ∀ c ∈ out.getLast?, isTrailing c = false) → isDevice (hostStem out) = false

theorem CutComponent.valid_iff {out : List ℕ} (h : CutComponent out) :
    ValidComponent out ↔ ∀ c ∈ out.getLast?, isTrailing c = false :=
  ⟨fun hvalid => hvalid.last, fun hlast =>
    ⟨h.length_pos, h.length_le, h.units, hlast, h.paired, h.stem (.inr hlast)⟩⟩

theorem cutComponent_of_le {out : List ℕ} (h : out.length ≤ MAX_COMPONENT_LENGTH) :
    cutComponent out = out := if_neg (Nat.not_lt.mpr h)

/-- A name that is cut keeps its first 255 units, or 254 where a pair would be cut apart. -/
theorem cutComponent_of_gt {out : List ℕ} (h : MAX_COMPONENT_LENGTH < out.length) :
    ∃ k, cutComponent out = out.take k ∧ 254 ≤ k ∧ k ≤ MAX_COMPONENT_LENGTH
      ∧ (Paired out → Paired (out.take k)) ∧ (out.take k).getLast? = some (lastKept out) := by
  have hlen : 255 < out.length := h
  have hlast : (out.take 255).getLast? = some (out.getD 254 0) := by
    rw [List.getLast?_take, if_neg (by decide), List.getElem?_eq_getElem (by omega),
      List.getD_eq_getElem?_getD, List.getElem?_eq_getElem (by omega)]
    rfl
  have hcut : cutComponent out = if IsHigh (out.getD 254 0) then (out.take 255).dropLast
      else out.take 255 := by
    rw [cutComponent, if_pos h]
    simp only [MAX_COMPONENT_LENGTH, hlast, Option.any_some, decide_eq_true_eq]
  rw [hcut, lastKept]
  split_ifs with hhigh
  · have hdrop : (out.take 255).dropLast = out.take 254 := by
      rw [List.dropLast_take (by omega)]
    refine ⟨254, hdrop, Nat.le_refl _, by decide, fun hpaired => ?_, ?_⟩
    · rw [← hdrop]
      exact hpaired.dropLast_take hlast hhigh
    · rw [List.getLast?_take, if_neg (by decide), List.getElem?_eq_getElem (by omega),
        List.getD_eq_getElem?_getD, List.getElem?_eq_getElem (by omega)]
      rfl
  · refine ⟨255, rfl, by decide, Nat.le_refl _, fun hpaired => hpaired.take ?_, hlast⟩
    intro c hc
    rw [hlast] at hc
    exact Option.some.inj hc ▸ hhigh

theorem EscapedComponent.cut {out : List ℕ} (h : EscapedComponent out)
    (hstem : isDevice (hostStem out) = false) : CutComponent (cutComponent out) := by
  have hpos := List.length_pos_iff.mpr h.ne_nil
  rcases Nat.lt_or_ge MAX_COMPONENT_LENGTH out.length with hgt | hle
  · obtain ⟨k, hcut, hk, hkle, hpaired, -⟩ := cutComponent_of_gt hgt
    have hlen : (out.take k).length = k := by
      rw [List.length_take]
      exact Nat.min_eq_left (Nat.le_of_lt (Nat.lt_of_le_of_lt hkle hgt))
    rw [hcut]
    refine ⟨by omega, by omega, fun c hc => h.units c (List.mem_of_mem_take hc), hpaired h.paired,
      fun hor => ?_⟩
    by_cases hdot : 0x2e ∈ out.take k
    · rwa [← hostStem_append_of_mem hdot (out.drop k), List.take_append_drop]
    · rw [hostStem_of_notMem hdot (hor.resolve_left hdot), Bool.eq_false_iff]
      intro hdevice
      have hshort := (isDevice_spec hdevice).1
      omega
  · rw [cutComponent_of_le hle]
    exact ⟨hpos, hle, h.units, h.paired, fun _ => hstem⟩

theorem sanitizeComponent_spec (name : List Char) : CutComponent (sanitizeComponent name) :=
  (escapeComponent_spec name).1.cut (escapeComponent_spec name).2

/-- Escaping replaces units one by one, the last one apart. -/
theorem trimComponent_dropLast (name : List Char) (h : widen name ≠ []) :
    (trimComponent name).dropLast = (widen name).dropLast.map replaceUnit
      ∧ (trimComponent name).length = (widen name).length := by
  have hne : (widen name).map replaceUnit ≠ [] := by simpa using h
  rw [trimComponent, if_neg (by simpa using h)]
  split_ifs
  · rw [List.dropLast_concat, List.map_dropLast, List.length_append, List.length_dropLast,
      List.length_map, List.length_singleton]
    exact ⟨rfl, Nat.sub_add_cancel (List.length_pos_iff.mpr h)⟩
  · rw [List.map_dropLast, List.length_map]
    exact ⟨rfl, rfl⟩

/-- A long name is escaped where its units are, the last one apart. -/
theorem escapeComponent_dropLast (name : List Char)
    (h : MAX_COMPONENT_LENGTH < (escapedUnits name).length) :
    (escapeComponent name).dropLast = (escapedUnits name).dropLast.map replaceUnit
      ∧ (escapeComponent name).length = (escapedUnits name).length := by
  have hlong : 255 < (escapedUnits name).length := h
  have hne : widen name ≠ [] := by
    intro hnil
    rw [escapedUnits, hnil] at hlong
    split_ifs at hlong
    · exact absurd hlong (by decide)
    · exact absurd hlong (by decide)
  obtain ⟨hdropLast, hlength⟩ := trimComponent_dropLast name hne
  rw [escapedUnits] at hlong ⊢
  rw [escapeComponent]
  split_ifs at hlong ⊢ with hdevice
  · have htrim := trimComponent_spec name
    rw [length_escapeDevice] at hlong
    -- a device is short, and so the dot that ends it is not the last unit
    have hdot : 0x2e ∈ (widen name).dropLast := by
      by_contra hnot
      have htrimdot : 0x2e ∉ trimComponent name := by
        intro hmem
        rw [← List.dropLast_append_getLast htrim.ne_nil, List.mem_append, hdropLast] at hmem
        rcases hmem with hmem | hmem
        · obtain ⟨c, hc, heq⟩ := List.mem_map.mp hmem
          exact hnot (replaceUnit_eq_dot.mp heq ▸ hc)
        · have hlast := htrim.last _ (List.getLast?_eq_some_getLast htrim.ne_nil)
          rw [← List.mem_singleton.mp hmem] at hlast
          cases hlast
      rw [hostStem_of_notMem htrimdot htrim.last] at hdevice
      have hshort := (isDevice_spec hdevice).1
      omega
    obtain ⟨front, rest, hsplit, hfront⟩ := List.eq_append_cons_of_mem hdot
    have hwidenEq : widen name = front ++ 0x2e :: (rest ++ [(widen name).getLast hne]) := by
      have hlast := List.dropLast_append_getLast hne
      rw [hsplit] at hlast
      exact hlast.symm.trans (by simp)
    have htrimEq : trimComponent name = front.map replaceUnit
        ++ 0x2e :: (rest.map replaceUnit ++ [(trimComponent name).getLast htrim.ne_nil]) := by
      have hlast := List.dropLast_append_getLast htrim.ne_nil
      rw [hdropLast, hsplit] at hlast
      exact hlast.symm.trans (by simp [replaceUnit_eq_dot.mpr rfl])
    have hescape : ∀ front rest : List ℕ, 0x2e ∉ front →
        escapeDevice (front ++ 0x2e :: rest) = front ++ 0x5f :: 0x2e :: rest := by
      intro front rest hfront
      have hall : ∀ c ∈ front, (c != 0x2e) = true := fun c hc =>
        bne_iff_ne.mpr (by rintro rfl; exact hfront hc)
      rw [escapeDevice, List.takeWhile_append_of_pos hall, List.dropWhile_append_of_pos hall]
      simp
    have hfrontMap : 0x2e ∉ front.map replaceUnit := by
      intro hmem
      obtain ⟨c, hc, heq⟩ := List.mem_map.mp hmem
      exact hfront (replaceUnit_eq_dot.mp heq ▸ hc)
    rw [htrimEq, hwidenEq, hescape _ _ hfront, hescape _ _ hfrontMap]
    have hunder : replaceUnit 0x5f = 0x5f := by decide
    have hdotEq : replaceUnit 0x2e = 0x2e := by decide
    have hdrop : ∀ (front rest : List ℕ) (c : ℕ),
        (front ++ 0x5f :: 0x2e :: (rest ++ [c])).dropLast = front ++ 0x5f :: 0x2e :: rest := by
      intro front rest c
      rw [show front ++ 0x5f :: 0x2e :: (rest ++ [c]) = front ++ 0x5f :: 0x2e :: rest ++ [c] by simp,
        List.dropLast_concat]
    rw [hdrop, hdrop]
    simp [hunder, hdotEq]
  · exact ⟨hdropLast, hlength⟩

/-- The last unit of a name is no dot or space if it is not cut behind one. -/
theorem sanitizeComponent_last_iff (name : List Char) :
    (∀ c ∈ (sanitizeComponent name).getLast?, isTrailing c = false) ↔ CutSafe name := by
  rw [sanitizeComponent, CutSafe]
  rcases Nat.lt_or_ge MAX_COMPONENT_LENGTH (escapedUnits name).length with hgt | hle
  · obtain ⟨hdropLast, hlength⟩ := escapeComponent_dropLast name hgt
    have hlong : 255 < (escapedUnits name).length := hgt
    have hunit : ∀ k ≤ 254, (escapeComponent name).getD k 0
        = replaceUnit ((escapedUnits name).getD k 0) := by
      intro k hk
      have hget := congrArg (fun l : List ℕ => l[k]?) hdropLast
      simp only [List.getElem?_map, List.getElem?_dropLast, hlength] at hget
      rw [if_pos (by omega), if_pos (by omega)] at hget
      rw [List.getD_eq_getElem?_getD, List.getD_eq_getElem?_getD, hget,
        List.getElem?_eq_getElem (show k < (escapedUnits name).length by omega)]
      rfl
    obtain ⟨k, hcut, -, -, -, hlast⟩ := cutComponent_of_gt (hlength ▸ hgt)
    have hkept : lastKept (escapeComponent name) = replaceUnit (lastKept (escapedUnits name)) := by
      simp only [lastKept, hunit 254 (Nat.le_refl _), hunit 253 (by decide), isHigh_replaceUnit]
      split_ifs <;> rfl
    rw [hcut, hlast, hkept]
    simp only [Option.mem_def, Option.some.injEq, forall_eq', isTrailing_replaceUnit]
    exact ⟨.inr, fun h => h.resolve_left (Nat.not_le.mpr hgt)⟩
  · refine iff_of_true ?_ (.inl hle)
    have hshort : (escapeComponent name).length ≤ MAX_COMPONENT_LENGTH := by
      by_cases hnil : widen name = []
      · have htrim : trimComponent name = [0x5f] := by
          rw [trimComponent, hnil]
          rfl
        rw [escapeComponent, htrim]
        decide
      · obtain ⟨-, hlength⟩ := trimComponent_dropLast name hnil
        rw [escapedUnits] at hle
        rw [escapeComponent]
        split_ifs at hle ⊢
        · rwa [length_escapeDevice, hlength, ← length_escapeDevice]
        · rwa [hlength]
    rw [cutComponent_of_le hshort]
    exact (escapeComponent_spec name).1.last

/-! ### Names with a number -/

theorem length_decimalText_le (width n : ℕ) : (decimalText width n).length ≤ width := by
  induction width generalizing n with
  | zero => exact Nat.le_refl 0
  | succ width ih =>
    rw [decimalText]
    split_ifs
    · exact Nat.succ_le_succ (Nat.zero_le width)
    · rw [List.length_append, List.length_singleton]
      exact Nat.succ_le_succ (ih _)

/-- The number adds a few units, all of them valid, and ends with a bracket. -/
theorem numberSuffix_spec {number : ℕ} (hnumber : number < 2 ^ 64) :
    (numberSuffix number).length ≤ 23 ∧ 3 ≤ (numberSuffix number).length
      ∧ (∀ c ∈ numberSuffix number, 32 ≤ c ∧ c < 0x80 ∧ isForbidden c = false ∧ c ≠ 0x2e)
      ∧ ∃ front, numberSuffix number = front ++ [0x29] := by
  have hlength := length_decimalText_le 20 number
  have hdigits := (toText_spec hnumber).1.digits
  refine ⟨?_, ?_, fun c hc => ?_, _, rfl⟩
  · simp only [numberSuffix, toText, List.length_append, List.length_map, List.length_cons,
      List.length_nil]
    omega
  · simp only [numberSuffix, toText, List.length_append, List.length_map, List.length_cons,
      List.length_nil]
    omega
  · rw [numberSuffix, List.mem_append, List.mem_append] at hc
    rcases hc with (hc | hc) | hc
    · simp only [List.mem_cons, List.not_mem_nil, or_false] at hc
      rcases hc with rfl | rfl <;> decide
    · obtain ⟨d, hd, rfl⟩ := List.mem_map.mp hc
      obtain ⟨hlow, hhigh⟩ := isDigit_iff.mp (hdigits d hd)
      refine ⟨by omega, by omega, Bool.eq_false_iff.mpr fun hforbidden => ?_, by omega⟩
      simp only [isForbidden, List.contains_iff_mem, List.mem_cons, List.not_mem_nil, or_false]
        at hforbidden
      omega
    · rw [List.mem_singleton.mp hc]
      decide

theorem paired_of_lt {out : List ℕ} (h : ∀ c ∈ out, c < 0x80) : Paired out := by
  induction out with
  | nil => exact .nil
  | cons c out ih =>
    have hc := h c List.mem_cons_self
    rw [← List.singleton_append]
    refine (Paired.singleton (fun hhigh => ?_) fun hlow => ?_).append
      (ih fun d hd => h d (List.mem_cons_of_mem c hd))
    · have hle := hhigh.1
      omega
    · have hle := hlow.1
      omega

/-- What the repair in front of the number makes of the units there. -/
def fixEnd (front : List ℕ) : List ℕ :=
  if front.getLast?.any (fun c => decide (IsHigh c)) then front.dropLast ++ [0x5f] else front

theorem insertUnits_append (front rest suffix : List ℕ) :
    insertUnits (front ++ rest) front.length suffix = front ++ suffix ++ rest := by
  simp [insertUnits]

theorem insertUnits_fixBefore (front rest suffix : List ℕ) :
    insertUnits (fixBefore (front ++ rest) front.length) front.length suffix
      = fixEnd front ++ suffix ++ rest := by
  rcases List.eq_nil_or_concat front with rfl | ⟨front, c, rfl⟩
  · rfl
  · have hget : (front.concat c ++ rest).getD ((front.concat c).length - 1) 0 = c := by
      simp
    rw [fixBefore, hget, fixEnd, List.concat_eq_append, List.getLast?_concat, Option.any_some,
      List.dropLast_concat]
    by_cases hhigh : IsHigh c
    · have hset : (front ++ [c] ++ rest).set ((front ++ [c]).length - 1) 0x5f
          = front ++ [0x5f] ++ rest := by simp
      have hsame : (front ++ [c]).length = (front ++ [0x5f]).length := by simp
      rw [if_pos ⟨by simp, hhigh⟩, if_pos (decide_eq_true hhigh), hset, hsame, insertUnits_append]
    · rw [if_neg fun h => hhigh h.2, if_neg (by simpa using hhigh), insertUnits_append]

/-- Where a name is taken apart, the front needs no repair. -/
theorem fixEnd_of_paired {front : List ℕ} (h : Paired front) : fixEnd front = front := by
  rw [fixEnd, if_neg]
  intro hany
  obtain ⟨c, hc, hhigh⟩ := (Option.any_eq_true _ _).mp hany
  exact h.last c hc (of_decide_eq_true hhigh)

theorem fixEnd_spec {base front rest : List ℕ} (hbase : Paired base) (hsplit : base = front ++ rest) :
    Paired (fixEnd front) ∧ (∀ c ∈ fixEnd front, c ∈ base ∨ c = 0x5f)
      ∧ (0x2e ∈ fixEnd front ↔ 0x2e ∈ front)
      ∧ (fixEnd front).length = front.length
      ∧ (0x2e ∈ front → hostStem (fixEnd front) = hostStem base) := by
  have htake : base.take front.length = front := by rw [hsplit, List.take_left]
  rw [fixEnd]
  split_ifs with hany
  · obtain ⟨c, hc, hhigh⟩ := (Option.any_eq_true _ _).mp hany
    have hdec := of_decide_eq_true hhigh
    rw [← htake] at hc
    have hdropLast := hbase.dropLast_take hc hdec
    rw [htake] at hc hdropLast
    obtain ⟨init, rfl⟩ : ∃ init, front = init ++ [c] := by
      have hne : front ≠ [] := by
        rintro rfl
        cases hc
      refine ⟨front.dropLast, ?_⟩
      rw [← Option.some.inj ((List.getLast?_eq_some_getLast hne).symm.trans hc)]
      exact (List.dropLast_append_getLast hne).symm
    have hcdot : c ≠ 0x2e := by
      rintro rfl
      exact absurd hdec (by decide)
    rw [List.dropLast_concat] at hdropLast ⊢
    refine ⟨hdropLast.append (.singleton (by decide) (by decide)), fun d hd => ?_, ?_, by simp,
      fun hdot => ?_⟩
    · rcases List.mem_append.mp hd with hd | hd
      · exact .inl (hsplit ▸ List.mem_append_left _ (List.mem_append_left _ hd))
      · exact .inr (List.mem_singleton.mp hd)
    · simp [Ne.symm hcdot]
    · have hinit : 0x2e ∈ init := by simpa [Ne.symm hcdot] using hdot
      rw [hsplit, hostStem_append_of_mem hinit, List.append_assoc, hostStem_append_of_mem hinit]
  · refine ⟨?_, fun c hc => .inl (hsplit ▸ List.mem_append_left _ hc), Iff.rfl, rfl, fun hdot => ?_⟩
    · rw [← htake]
      refine hbase.take fun c hc hhigh => hany ?_
      rw [htake] at hc
      exact (Option.any_eq_true _ _).mpr ⟨c, hc, decide_eq_true hhigh⟩
    · rw [hsplit, hostStem_append_of_mem hdot]

/-- A number in a name leaves to be checked how the extension ends. -/
theorem validComponent_insert {base front rest ext : List ℕ} (hbase : CutComponent base)
    (hsplit : base = front ++ rest) {number : ℕ} (hnumber : number < 2 ^ 64)
    (hlength : front.length + (numberSuffix number).length + ext.length ≤ MAX_COMPONENT_LENGTH)
    (hext : ext = [] ∨ ∃ more, ext = 0x2e :: more) (hin : ext <:+: base) :
    ValidComponent (fixEnd front ++ numberSuffix number ++ ext)
      ↔ ∀ c ∈ ext.getLast?, isTrailing c = false ∧ ¬ IsHigh c := by
  obtain ⟨hmax, hmin, hunits, init, hsuffix⟩ := numberSuffix_spec hnumber
  obtain ⟨hpaired, hmem, hdot, hlen, hstem⟩ := fixEnd_spec hbase.paired hsplit
  have hsuffixLast : (numberSuffix number).getLast? = some 0x29 := by
    rw [hsuffix, List.getLast?_concat]
  have hnodot : 0x2e ∉ numberSuffix number := fun h => (hunits _ h).2.2.2 rfl
  have hlast : (fixEnd front ++ numberSuffix number ++ ext).getLast?
      = ext.getLast?.or (some 0x29) := by
    rw [List.getLast?_append, List.getLast?_append, hsuffixLast, Option.some_or]
  constructor
  · intro hvalid c hc
    have hc' : c ∈ (fixEnd front ++ numberSuffix number ++ ext).getLast? := by
      rw [hlast, Option.mem_def.mp hc]
      rfl
    exact ⟨hvalid.last c hc', hvalid.paired.last c hc'⟩
  · intro hend
    refine ⟨?_, ?_, fun c hc => ?_, fun c hc => ?_, (hpaired.append ?_).append ⟨?_, ?_, ?_⟩, ?_⟩
    · rw [List.length_append, List.length_append]
      omega
    · rwa [List.length_append, List.length_append, hlen]
    · rcases List.mem_append.mp hc with hc | hc
      · rcases List.mem_append.mp hc with hc | hc
        · rcases hmem c hc with hc | rfl
          · exact hbase.units c hc
          · decide
        · exact ⟨(hunits c hc).1, (hunits c hc).2.2.1⟩
      · exact hbase.units c (hin.mem hc)
    · rw [hlast] at hc
      cases hext' : ext.getLast? with
      | none =>
        rw [hext'] at hc
        obtain rfl := Option.some.inj hc
        rfl
      | some d =>
        rw [hext'] at hc
        obtain rfl := Option.some.inj hc
        exact (hend d hext').1
    · exact paired_of_lt fun c hc => (hunits c hc).2.1
    · exact hbase.paired.chain.infix hin
    · intro c hc
      rcases hext with rfl | ⟨more, rfl⟩
      · cases hc
      · obtain rfl := Option.some.inj hc
        decide
    · exact fun c hc => (hend c hc).2
    · by_cases hfront : 0x2e ∈ front
      · rw [List.append_assoc, hostStem_append_of_mem (hdot.mpr hfront), hstem hfront]
        exact hbase.stem (.inl (hsplit ▸ List.mem_append_left _ hfront))
      · have hnone : 0x2e ∉ fixEnd front ++ numberSuffix number := fun h =>
          (List.mem_append.mp h).elim (fun h => hfront (hdot.mp h)) hnodot
        have hbracket : isDevice ((fixEnd front ++ numberSuffix number).rdropWhile isTrailing)
            = false := by
          rw [hsuffix, ← List.append_assoc]
          exact not_isDevice_concat (.inr rfl)
        rcases hext with rfl | ⟨more, rfl⟩
        · have hall : ∀ c ∈ fixEnd front ++ numberSuffix number, (c != 0x2e) = true := fun c hc =>
            bne_iff_ne.mpr (by rintro rfl; exact hnone hc)
          rwa [List.append_nil, hostStem, List.takeWhile_eq_self_iff.mpr hall]
        · rwa [hostStem_append_dot hnone]

theorem lastDot_eq_some {base : List ℕ} {dot : ℕ} (h : lastDot base = some dot) :
    ∃ more, base.drop dot = 0x2e :: more := by
  induction base generalizing dot with
  | nil => cases h
  | cons c base ih =>
    rw [lastDot] at h
    cases hrest : lastDot base with
    | some d =>
      rw [hrest] at h
      obtain rfl := Option.some.inj h
      exact ih hrest
    | none =>
      rw [hrest] at h
      simp only at h
      split_ifs at h with hc
      obtain rfl := Option.some.inj h
      exact ⟨base, by rw [List.drop_zero, hc]⟩

section Numbered

variable {base : List ℕ} {number : ℕ} {isDir : Bool}

theorem numberedComponent_end (hbase : CutComponent base) (hnumber : number < 2 ^ 64)
    (hend : numberPosition base isDir = base.length) :
    ValidComponent (numberedComponent base number isDir) := by
  obtain ⟨hmax, hmin, -⟩ := numberSuffix_spec hnumber
  rw [numberedComponent, hend]
  by_cases hlong : MAX_COMPONENT_LENGTH < base.length + (numberSuffix number).length
  · have hlong' : 255 < base.length + (numberSuffix number).length := hlong
    have hlt : base.length + (numberSuffix number).length - MAX_COMPONENT_LENGTH < base.length := by
      rw [MAX_COMPONENT_LENGTH]
      have hpos := hbase.length_pos
      omega
    simp only [if_pos hlong, if_pos hlt]
    rw [List.drop_length]
    generalize hk : base.length - (base.length + (numberSuffix number).length
      - MAX_COMPONENT_LENGTH) = k
    rw [MAX_COMPONENT_LENGTH] at hk
    have hlen : (base.take k).length = k := by
      rw [List.length_take]
      omega
    have hinsert := insertUnits_fixBefore (base.take k) [] (numberSuffix number)
    rw [hlen] at hinsert
    rw [hinsert]
    refine (validComponent_insert hbase (List.take_append_drop k base).symm hnumber ?_ (.inl rfl)
      (List.nil_infix)).mpr fun c hc => by cases hc
    rw [hlen, MAX_COMPONENT_LENGTH, List.length_nil]
    omega
  · simp only [if_neg hlong]
    have hinsert := insertUnits_append base [] (numberSuffix number)
    rw [List.append_nil] at hinsert
    rw [hinsert]
    have hvalid : ValidComponent (fixEnd base ++ numberSuffix number ++ []) ↔ _ :=
      validComponent_insert hbase (List.append_nil base).symm hnumber
        (by rw [List.length_nil]; omega) (.inl rfl) List.nil_infix
    rw [fixEnd_of_paired hbase.paired] at hvalid
    exact hvalid.mpr fun c hc => by cases hc

/-- A number in front of an extension leaves a valid name if the extension ends as it should. -/
theorem numberedComponent_dot (hbase : CutComponent base) (hnumber : number < 2 ^ 64) {dot : ℕ}
    (hdot : lastDot base = some dot) (hpos : dot ≠ 0) :
    ValidComponent (numberedComponent base number false)
      ↔ if base.length + (numberSuffix number).length - MAX_COMPONENT_LENGTH < dot then
          ∀ c ∈ base.getLast?, isTrailing c = false
        else isTrailing (base.getD (MAX_COMPONENT_LENGTH - (numberSuffix number).length - 1) 0) = false
          ∧ ¬ IsHigh (base.getD (MAX_COMPONENT_LENGTH - (numberSuffix number).length - 1) 0) := by
  obtain ⟨hmax, hmin, -⟩ := numberSuffix_spec hnumber
  obtain ⟨more, hmore⟩ := lastDot_eq_some hdot
  have hle := hbase.length_le
  rw [MAX_COMPONENT_LENGTH] at hle
  have hdotlt : dot < base.length := by
    have hlen := congrArg List.length hmore
    rw [List.length_drop, List.length_cons] at hlen
    omega
  have hposition : numberPosition base false = dot := by
    rw [numberPosition, if_neg Bool.false_ne_true, hdot]
    exact if_neg hpos
  have hlastDrop : (base.drop dot).getLast? = base.getLast? := by
    rw [List.getLast?_drop, if_neg (by omega)]
  have hwhole : (∀ c ∈ (base.drop dot).getLast?, isTrailing c = false ∧ ¬ IsHigh c)
      ↔ ∀ c ∈ base.getLast?, isTrailing c = false := by
    rw [hlastDrop]
    exact ⟨fun h c hc => (h c hc).1, fun h c hc => ⟨h c hc, hbase.paired.last c hc⟩⟩
  rw [numberedComponent, hposition]
  by_cases hlong : MAX_COMPONENT_LENGTH < base.length + (numberSuffix number).length
  · simp only [if_pos hlong]
    rw [MAX_COMPONENT_LENGTH] at hlong
    by_cases hlt : base.length + (numberSuffix number).length - MAX_COMPONENT_LENGTH < dot
    · rw [if_pos hlt, if_pos hlt, ← hwhole]
      rw [MAX_COMPONENT_LENGTH] at hlt ⊢
      generalize hk : dot - (base.length + (numberSuffix number).length - 255) = k
      have hlen : (base.take k).length = k := by
        rw [List.length_take]
        omega
      have hinsert := insertUnits_fixBefore (base.take k) (base.drop dot) (numberSuffix number)
      rw [hlen] at hinsert
      rw [hinsert]
      refine validComponent_insert hbase (List.take_append_drop k base).symm hnumber ?_
        (.inr ⟨more, hmore⟩) (List.drop_suffix dot base).isInfix
      rw [hlen, MAX_COMPONENT_LENGTH, List.length_drop]
      omega
    · rw [if_neg hlt, if_neg hlt]
      rw [MAX_COMPONENT_LENGTH] at hlt ⊢
      -- the name is longer than what is left of it, and the dot is near its start
      have hlen : (base.take (255 - (numberSuffix number).length)).length
          = 255 - (numberSuffix number).length := by
        rw [List.length_take]
        omega
      have hmin' : min dot (255 - (numberSuffix number).length) = dot := by omega
      have hfront : ((base.take (255 - (numberSuffix number).length)).take dot).length = dot := by
        rw [List.length_take, hlen]
        omega
      have hinsert := insertUnits_fixBefore ((base.take (255 - (numberSuffix number).length)).take dot)
        ((base.take (255 - (numberSuffix number).length)).drop dot) (numberSuffix number)
      rw [hfront, List.take_append_drop] at hinsert
      rw [hlen, hmin', hinsert]
      have hext : (base.take (255 - (numberSuffix number).length)).drop dot
          = 0x2e :: more.take (255 - (numberSuffix number).length - dot - 1) := by
        rw [List.drop_take, hmore]
        obtain ⟨n, hn⟩ := Nat.exists_eq_add_of_lt
          (show 0 < 255 - (numberSuffix number).length - dot by omega)
        rw [hn, Nat.zero_add, List.take_succ_cons, Nat.add_sub_cancel]
      have hlast : ((base.take (255 - (numberSuffix number).length)).drop dot).getLast?
          = some (base.getD (255 - (numberSuffix number).length - 1) 0) := by
        rw [List.getLast?_drop, if_neg (by omega), List.getLast?_take, if_neg (by omega),
          List.getD_eq_getElem?_getD, List.getElem?_eq_getElem (by omega)]
        rfl
      rw [List.take_take, Nat.min_eq_left (by omega)]
      rw [validComponent_insert hbase (List.take_append_drop dot base).symm hnumber ?_
        (.inr ⟨_, hext⟩) ?_, hlast]
      · simp only [Option.mem_def, Option.some.injEq, forall_eq']
      · rw [List.length_take, List.length_drop, hlen, MAX_COMPONENT_LENGTH]
        omega
      · exact (List.drop_suffix _ _).isInfix.trans (List.take_prefix _ _).isInfix
  · simp only [if_neg hlong]
    have hlt : base.length + (numberSuffix number).length - MAX_COMPONENT_LENGTH < dot := by
      omega
    rw [if_pos hlt, ← hwhole]
    have hlen : (base.take dot).length = dot := by
      rw [List.length_take]
      omega
    have hinsert := insertUnits_append (base.take dot) (base.drop dot) (numberSuffix number)
    rw [hlen, List.take_append_drop] at hinsert
    have hpaired : Paired (base.take dot) := by
      have hall := hbase.paired
      rw [← List.take_append_drop dot base] at hall
      refine (hall.of_append fun c hc => ?_).1
      rw [hmore] at hc
      obtain rfl := Option.some.inj hc
      decide
    rw [hinsert, ← fixEnd_of_paired hpaired]
    refine validComponent_insert hbase (List.take_append_drop dot base).symm hnumber ?_
      (.inr ⟨more, hmore⟩) (List.drop_suffix dot base).isInfix
    rw [hlen, List.length_drop]
    omega

end Numbered

theorem cutSafe_of_short {name : List Char} {number : ℕ}
    (h : (sanitizeComponent name).length + (numberSuffix number).length ≤ MAX_COMPONENT_LENGTH)
    (hnumber : number < 2 ^ 64) : CutSafe name := by
  refine .inl (Nat.le_of_not_lt fun hgt => ?_)
  obtain ⟨-, hmin, -⟩ := numberSuffix_spec hnumber
  obtain ⟨-, hlength⟩ := escapeComponent_dropLast name hgt
  obtain ⟨k, hcut, hk, hkle, -⟩ := cutComponent_of_gt (hlength ▸ hgt)
  rw [sanitizeComponent, hcut, List.length_take, Nat.min_eq_left (by omega)] at h
  rw [MAX_COMPONENT_LENGTH] at h
  omega

/-- A name on the destination is valid if and only if the cuts leave no dot, space or half a pair at
its end. -/
theorem destination_name_valid (name : List Char) {number : ℕ} (hnumber : number < 2 ^ 64)
    (isDir : Bool) :
    ValidComponent (candidateComponent (sanitizeComponent name) number isDir)
      ↔ NameSafe name number isDir := by
  have hbase := sanitizeComponent_spec name
  have hlast := sanitizeComponent_last_iff name
  rw [candidateComponent, NameSafe]
  by_cases hzero : number = 0
  · simp only [if_pos hzero]
    rw [hbase.valid_iff, hlast]
  simp only [if_neg hzero]
  cases isDir with
  | true => exact iff_of_true (numberedComponent_end hbase hnumber rfl) (.inl rfl)
  | false =>
    cases hdot : lastDot (sanitizeComponent name) with
    | none =>
      refine iff_of_true (numberedComponent_end hbase hnumber ?_) (.inr (.inr fun d hd => by cases hd))
      rw [numberPosition, if_neg Bool.false_ne_true, hdot]
    | some dot =>
      by_cases hpos : dot = 0
      · refine iff_of_true (numberedComponent_end hbase hnumber ?_) (.inr (.inr fun d hd hne => ?_))
        · rw [numberPosition, if_neg Bool.false_ne_true, hdot]
          exact if_pos hpos
        · exact absurd ((Option.some.inj hd).symm.trans hpos) hne
      · rw [numberedComponent_dot hbase hnumber hdot hpos, hlast]
        constructor
        · intro h
          refine .inr (.inr fun d hd _ => ?_)
          obtain rfl := Option.some.inj hd
          exact h
        · rintro (h | h | h)
          · cases h
          · rw [if_pos (by omega)]
            exact cutSafe_of_short h hnumber
          · exact h dot rfl hpos

/-- A short name with a number. -/
theorem destination_name_valid_short : NameSafe ['a', '.', 'b'] 1 false ∧
    ValidComponent (candidateComponent (sanitizeComponent ['a', '.', 'b']) 1 false) := by
  have hsafe : NameSafe ['a', '.', 'b'] 1 false := .inr (.inl (by decide))
  exact ⟨hsafe, (destination_name_valid ['a', '.', 'b'] (by decide) false).mpr hsafe⟩

/-- 254 letters, a dot and a letter: the cut leaves the dot at the end. -/
theorem destination_name_invalid :
    ¬ ValidComponent (candidateComponent (sanitizeComponent (List.replicate 254 'a' ++ ['.', 'b'])) 0
      false) := by
  rw [candidateComponent, if_pos rfl]
  intro h
  have hlast : (sanitizeComponent (List.replicate 254 'a' ++ ['.', 'b'])).getLast? = some 0x2e := by
    decide +kernel
  exact absurd (h.last 0x2e hlast) (by decide)

end FsRover
