import FsRover.Common.Decimal

/-!
# Headings of a document

`mdrtf.cpp` turns the callbacks of a Markdown parser into RTF. A heading leaves an anchor with the slug
of its text. The number of a list item or of a footnote waits for the next paragraph, and is written
with it.

## Main definitions

* `FsRover.headingSlug`, `FsRover.Mdrtf.openPara`, `FsRover.Mdrtf.step` : the renderer.
* `FsRover.mdDelivered` : the text that the callbacks deliver in a heading.
* `FsRover.Mdrtf.Waiting` : a number is waiting for a paragraph.

## Main results

* `FsRover.Mdrtf.inlines_slug` : the slug of a heading, with what was waiting in front.
-/

namespace FsRover

/-- A `std::wstring`, by the values of its units. -/
abbrev Wide := List ℕ

/-- The functions of the C library, of Windows and of the table of entities that the renderer uses. -/
structure MdrtfLibrary where
  iswalnum : ℕ → Bool
  towlower : ℕ → ℕ
  towupper : ℕ → ℕ
  utf8 : List UInt8 → Wide
  entity : List UInt8 → Wide
  utf8_nil : utf8 [] = []
  digit : ∀ c, 0x30 ≤ c → c ≤ 0x39 → iswalnum c = true
  mark : ∀ c ∈ ([0x2e, 0x5b, 0x5d, 0x2022, 0x25e6, 0x25aa, 0x2610, 0x2611] : List ℕ),
    iswalnum c = false

/-! ### Callbacks -/

/-- `MD_BLOCKTYPE`, with the details that the renderer reads. -/
inductive MdBlock
  | doc
  | quote
  | ul
  | ol (start : ℕ)
  | li (isTask : Bool) (taskMark : UInt8)
  | hr
  | h (level : ℕ)
  | code
  | html
  | p
  | table (colCount : ℕ)
  | thead
  | tbody
  | tr
  | th
  | td
  | admonition (type : Wide)
  | footnoteDefSection
  | footnoteDef (id : ℕ)
  deriving DecidableEq

/-- `MD_SPANTYPE`. -/
inductive MdSpan
  | em
  | strong
  | a
  | img
  | code
  | del
  | latexmath
  | latexmathDisplay
  | wikilink
  | u
  | footnoteRef (id : ℕ)
  deriving DecidableEq

/-- `MD_TEXTTYPE`. -/
inductive MdText
  | normal
  | nullchar
  | br
  | softbr
  | entity
  | code
  | html
  | latexmath
  deriving DecidableEq

/-- The callbacks for spans and text. -/
inductive MdInline
  | enterSpan (span : MdSpan)
  | leaveSpan (span : MdSpan)
  | text (type : MdText) (p : List UInt8)
  deriving DecidableEq

inductive MdCallback
  | enterBlock (block : MdBlock)
  | leaveBlock (block : MdBlock)
  | inline (i : MdInline)
  deriving DecidableEq

/-- Blocks that hold no blocks. -/
def MdBlock.isLeaf : MdBlock → Bool
  | .hr | .h _ | .code | .html | .p | .th | .td => true
  | _ => false

/-- The blocks that are open after the callbacks, the innermost first, if they are nested. -/
def mdNesting : List MdBlock → List MdCallback → Option (List MdBlock)
  | blocks, [] => some blocks
  | blocks, .enterBlock block :: callbacks =>
    if blocks.head?.any MdBlock.isLeaf then none else mdNesting (block :: blocks) callbacks
  | [], .leaveBlock _ :: _ => none
  | block' :: blocks, .leaveBlock block :: callbacks =>
    if block = block' then mdNesting blocks callbacks else none
  | blocks, .inline _ :: callbacks => mdNesting blocks callbacks

/-! ### The renderer -/

/-- `heading_slug`. -/
def headingSlug (lib : MdrtfLibrary) : Wide → Wide
  | [] => []
  | c :: title =>
    if c = 0x20 ∨ c = 0x09 then 0x2d :: headingSlug lib title
    else if c = 0x2d ∨ c = 0x5f ∨ lib.iswalnum c then lib.towlower c :: headingSlug lib title
    else headingSlug lib title

/-- `std::to_wstring` of an `unsigned`. -/
def toWstring (n : ℕ) : Wide := (toText n).map UInt8.toNat

/-- `BULLETS`. -/
def bullet (i : ℕ) : ℕ := if i = 0 then 0x2022 else if i = 1 then 0x25e6 else 0x25aa

/-- The part of `class renderer` that places, anchors and slugs depend on. -/
structure Mdrtf where
  chars : ℕ := 0
  anchors : List (Wide × ℕ) := []
  para : Bool := false
  needPar : Bool := false
  /-- The levels, ordered or not, with the next number; the innermost first. -/
  lists : List (Bool × ℕ) := []
  marker : Wide := []
  heading : ℕ := 0
  headAt : Option ℕ := none
  headText : Wide := []
  code : Bool := false
  codeNl : ℕ := 0
  cell : ℕ := 0
  footnoteId : ℕ := 0
  footnoteAtStart : Bool := false

namespace Mdrtf

variable (lib : MdrtfLibrary)

/-- `put` of what the control shows as `n` characters. -/
def skip (s : Mdrtf) (n : ℕ) : Mdrtf := { s with chars := s.chars + n }

/-- `put_text`. -/
def putText (s : Mdrtf) (text : Wide) : Mdrtf :=
  { s with
    headText := if s.heading ≠ 0 then s.headText ++ text else s.headText
    chars := s.chars + text.length }

/-- The footnote part of `open_para`. -/
def putFootnote (s : Mdrtf) : Mdrtf :=
  if s.footnoteAtStart then
    let id := toWstring s.footnoteId
    let s := { s with anchors := s.anchors ++ [([0x66, 0x6e, 0x3a] ++ id, s.chars)] }
    { (s.putText ([0x5b] ++ id ++ [0x5d])).skip 1 with footnoteAtStart := false }
  else s

/-- The list part of `open_para`. -/
def putMarker (s : Mdrtf) : Mdrtf :=
  if s.marker ≠ [] then ({ s with marker := [] }.putText s.marker).skip 1 else s

/-- `open_para`. -/
def openPara (s : Mdrtf) : Mdrtf :=
  if s.para then s
  else
    let s := if s.needPar then { s.skip 1 with needPar := false } else s
    let s := { s with
      para := true
      headAt := if s.heading ≠ 0 ∧ s.headAt = none then some s.chars else s.headAt }
    s.putFootnote.putMarker

/-- `close_para`. -/
def closePara (s : Mdrtf) : Mdrtf :=
  if s.para then { s with para := false, needPar := true } else s

/-- `emit_rule`. -/
def emitRule (s : Mdrtf) : Mdrtf := (s.closePara.openPara.skip 1).closePara

/-- A line of a code block. -/
def putCodeLine (s : Mdrtf) (line : List UInt8) : Mdrtf :=
  if line = [] then s
  else
    let s := s.openPara
    { s.skip s.codeNl with codeNl := 0 }.putText (lib.utf8 line)

/-- `emit_code_text`. -/
def emitCodeText (s : Mdrtf) (p : List UInt8) : Mdrtf :=
  if ¬ s.code then s.openPara.putText (lib.utf8 p)
  else
    match p.splitOn 0x0a with
    | [] => s
    | line :: lines =>
      lines.foldl (fun s line => { s with codeNl := s.codeNl + 1 }.putCodeLine lib line)
        (s.putCodeLine lib line)

/-- `list_marker`, and the levels then. -/
def listMarker (s : Mdrtf) (isTask : Bool) (taskMark : UInt8) : Wide × List (Bool × ℕ) :=
  if isTask then ([if taskMark = 0x20 then 0x2610 else 0x2611], s.lists)
  else
    match s.lists with
    | [] => ([bullet 0], [])
    | (true, next) :: lists => (toWstring next ++ [0x2e], (true, u32 (next + 1)) :: lists)
    | (false, next) :: lists => ([bullet (lists.length % 3)], (false, next) :: lists)

/-- `renderer::enter_block`. -/
def enterBlock (s : Mdrtf) : MdBlock → Mdrtf
  | .quote => s.closePara
  | .ul => { s.closePara with lists := (false, 0) :: s.closePara.lists }
  | .ol start => { s.closePara with lists := (true, start) :: s.closePara.lists }
  | .li isTask taskMark =>
    let s := s.closePara
    let (marker, lists) := s.listMarker isTask taskMark
    { s with marker, lists }
  | .hr => s.emitRule
  | .h level =>
    { s.closePara with
      heading := if level < 1 ∨ 6 < level then 6 else level
      headAt := none
      headText := [] }
  | .code => { s.closePara with code := true, codeNl := 0 }
  | .admonition type =>
    let label := match type with
      | [] => []
      | c :: rest => lib.towupper c :: rest
    (s.closePara.openPara.putText label).closePara
  | .footnoteDefSection => s.emitRule
  | .footnoteDef id => { s.closePara with footnoteId := id, footnoteAtStart := true }
  | .table _ => s.closePara
  | .thead => s
  | .tr => { s.closePara with cell := 0 }
  | .th | .td =>
    let s := s.openPara
    let s := if s.cell ≠ 0 then s.skip 1 else s
    { s with cell := u32 (s.cell + 1) }
  | .doc | .html | .p | .tbody => s.closePara

/-- The anchor that is recorded when a heading is left. -/
def headAnchor (s : Mdrtf) : List (Wide × ℕ) :=
  match s.headAt with
  | none => []
  | some place =>
    if headingSlug lib s.headText = [] then [] else [(headingSlug lib s.headText, place)]

/-- `renderer::leave_block`. -/
def leaveBlock (s : Mdrtf) : MdBlock → Mdrtf
  | .quote | .admonition _ => s.closePara
  | .ul | .ol _ => { s.closePara with lists := s.closePara.lists.tail }
  | .li _ _ => (if s.marker ≠ [] then s.openPara else s).closePara
  | .h _ =>
    let s := { s.closePara with heading := 0 }
    { s with anchors := s.anchors ++ s.headAnchor lib, headAt := none, headText := [] }
  | .code => { s.closePara with code := false, codeNl := 0 }
  | .footnoteDef _ =>
    { (if s.footnoteAtStart then s.openPara else s).closePara with
      footnoteId := 0
      footnoteAtStart := false }
  | .table _ => s.closePara
  | .thead | .th | .td => s
  | .doc | .hr | .html | .p | .footnoteDefSection | .tbody | .tr => s.closePara

/-- `renderer::enter_span`. -/
def enterSpan (s : Mdrtf) : MdSpan → Mdrtf
  | .img => s.openPara.putText [0x5b]
  | .footnoteRef id => s.openPara.skip ([0x5b] ++ toWstring id ++ [0x5d]).length
  | _ => s.openPara

/-- `renderer::leave_span`. -/
def leaveSpan (s : Mdrtf) : MdSpan → Mdrtf
  | .img => s.putText [0x5d]
  | _ => s

/-- `renderer::text`. -/
def text (s : Mdrtf) (p : List UInt8) : MdText → Mdrtf
  | .nullchar => s.openPara.putText [0xfffd]
  | .br => if s.para then s.skip 1 else s
  | .softbr => if s.para then s.putText [0x20] else s
  | .entity => s.openPara.putText (lib.entity p)
  | .html => s
  | .code => s.emitCodeText lib p
  | .normal | .latexmath => s.openPara.putText (lib.utf8 p)

def inlineStep (s : Mdrtf) : MdInline → Mdrtf
  | .enterSpan span => s.enterSpan span
  | .leaveSpan span => s.leaveSpan span
  | .text type p => s.text lib p type

def step (s : Mdrtf) : MdCallback → Mdrtf
  | .enterBlock block => s.enterBlock lib block
  | .leaveBlock block => s.leaveBlock lib block
  | .inline i => s.inlineStep lib i

/-- The renderer after the callbacks. -/
def run (callbacks : List MdCallback) : Mdrtf := callbacks.foldl (step lib) {}

/-- The renderer in a heading. -/
def inHeading (s : Mdrtf) (level : ℕ) (inlines : List MdInline) : Mdrtf :=
  inlines.foldl (inlineStep lib) (s.enterBlock lib (.h level))

/-- The slugs that leaving a heading records. -/
def recorded (s : Mdrtf) (level : ℕ) : List Wide :=
  ((s.leaveBlock lib (.h level)).anchors.drop s.anchors.length).map Prod.fst

/-! ### What a heading should record -/

/-- The number of a footnote or of a list item is waiting for a paragraph. -/
def Waiting (s : Mdrtf) : Prop :=
  s.footnoteAtStart = true ∨ ∃ c ∈ s.marker, 0x30 ≤ c ∧ c ≤ 0x39

end Mdrtf

/-- The callback has its paragraph opened. -/
def MdInline.opens : MdInline → Bool
  | .enterSpan _ => true
  | .leaveSpan _ => false
  | .text .br _ | .text .softbr _ | .text .html _ => false
  | .text _ _ => true

/-- The text a callback delivers; a soft break is a space where a paragraph is open. -/
def MdInline.delivers (lib : MdrtfLibrary) (para : Bool) : MdInline → Wide
  | .text .nullchar _ => [0xfffd]
  | .text .softbr _ => if para then [0x20] else []
  | .text .entity p => lib.entity p
  | .text .code p | .text .normal p | .text .latexmath p => lib.utf8 p
  | _ => []

/-- The text that callbacks deliver. -/
def mdDelivered (lib : MdrtfLibrary) : Bool → List MdInline → Wide
  | _, [] => []
  | para, i :: inlines => i.delivers lib para ++ mdDelivered lib (para || i.opens) inlines

/-- The slugs of a heading with this content: there is none where nothing is shown. -/
def mdSlugs (lib : MdrtfLibrary) (inlines : List MdInline) : List Wide :=
  if inlines.any MdInline.opens ∧ headingSlug lib (mdDelivered lib false inlines) ≠ [] then
    [headingSlug lib (mdDelivered lib false inlines)]
  else []

/-! ### Slugs -/

section Slug

variable {lib : MdrtfLibrary} {c : ℕ} {a b : Wide}

theorem headingSlug_append : headingSlug lib (a ++ b) = headingSlug lib a ++ headingSlug lib b := by
  induction a with
  | nil => rfl
  | cons c a ih =>
    rw [List.cons_append, headingSlug, headingSlug, ih]
    split_ifs <;> rfl

/-- The characters that leave something in a slug. -/
def SlugKeeps (lib : MdrtfLibrary) (c : ℕ) : Prop :=
  c = 0x20 ∨ c = 0x09 ∨ c = 0x2d ∨ c = 0x5f ∨ lib.iswalnum c = true

theorem headingSlug_eq_nil : headingSlug lib a = [] ↔ ∀ c ∈ a, ¬ SlugKeeps lib c := by
  induction a with
  | nil => simp [headingSlug]
  | cons c a ih =>
    rw [headingSlug, List.forall_mem_cons, ← ih]
    split_ifs with hspace hword
    · exact iff_of_false id fun h => h.1 (hspace.elim .inl fun h => .inr (.inl h))
    · exact iff_of_false id fun h => h.1 (.inr (.inr hword))
    · refine (and_iff_right fun hkeeps => ?_).symm
      rcases hkeeps with h | h | h
      · exact hspace (.inl h)
      · exact hspace (.inr h)
      · exact hword h

theorem headingSlug_mark (hc : c ∈ ([0x2e, 0x5b, 0x5d, 0x2022, 0x25e6, 0x25aa, 0x2610, 0x2611] : List ℕ)) :
    ¬ SlugKeeps lib c := by
  have hmark := lib.mark c hc
  rintro (rfl | rfl | rfl | rfl | halnum)
  · revert hc
    decide
  · revert hc
    decide
  · revert hc
    decide
  · revert hc
    decide
  · rw [hmark] at halnum
    cases halnum

theorem slugKeeps_digit (hlow : 0x30 ≤ c) (hhigh : c ≤ 0x39) : SlugKeeps lib c :=
  .inr (.inr (.inr (.inr (lib.digit c hlow hhigh))))

theorem decimalText_digits {width n : ℕ} : ∀ c ∈ decimalText width n, isDigit c = true := by
  induction width generalizing n with
  | zero => exact fun c hc => by cases hc
  | succ width ih =>
    rw [decimalText]
    split_ifs with hsmall
    · exact (decimalText_digit hsmall).1
    · intro c hc
      rcases List.mem_append.mp hc with hc | hc
      · exact ih c hc
      · exact (decimalText_digit (Nat.mod_lt n (by decide))).1 c hc

theorem toWstring_digits {n : ℕ} (hc : c ∈ toWstring n) : 0x30 ≤ c ∧ c ≤ 0x39 := by
  obtain ⟨d, hd, rfl⟩ := List.mem_map.mp hc
  exact isDigit_iff.mp (decimalText_digits d hd)

theorem exists_mem_toWstring (n : ℕ) : ∃ c, c ∈ toWstring n := by
  have hne : toWstring n ≠ [] := by
    rw [toWstring, toText, decimalText]
    split_ifs <;> simp
  exact List.exists_mem_of_ne_nil _ hne

end Slug

namespace Mdrtf

variable {lib : MdrtfLibrary} {s : Mdrtf}

/-! ### What is waiting -/

/-- What is written with the next paragraph. -/
def pending (s : Mdrtf) : Wide :=
  (if s.footnoteAtStart then [0x5b] ++ toWstring s.footnoteId ++ [0x5d] else []) ++ s.marker

/-- The marker of a list item is a mark, or a number and a point. -/
def Marked (s : Mdrtf) : Prop :=
  ∀ c ∈ s.marker, c ∈ ([0x2e, 0x2022, 0x25e6, 0x25aa, 0x2610, 0x2611] : List ℕ)
    ∨ 0x30 ≤ c ∧ c ≤ 0x39

theorem pending_slug (h : s.Marked) : headingSlug lib s.pending ≠ [] ↔ s.Waiting := by
  rw [Ne, headingSlug_eq_nil, Waiting, pending]
  simp only [not_forall, not_not]
  constructor
  · rintro ⟨c, hc, hkeeps⟩
    rcases List.mem_append.mp hc with hc | hc
    · refine .inl ?_
      by_contra hstart
      rw [if_neg hstart] at hc
      cases hc
    · refine .inr ⟨c, hc, (h c hc).resolve_left fun hmark => ?_⟩
      refine headingSlug_mark ?_ hkeeps
      revert hmark
      simp only [List.mem_cons, List.not_mem_nil, or_false]
      omega
  · rintro (hstart | ⟨c, hc, hlow, hhigh⟩)
    · obtain ⟨c, hc⟩ := exists_mem_toWstring s.footnoteId
      refine ⟨c, ?_, slugKeeps_digit (toWstring_digits hc).1 (toWstring_digits hc).2⟩
      rw [if_pos hstart]
      simp [hc]
    · exact ⟨c, List.mem_append_right _ hc, slugKeeps_digit hlow hhigh⟩

/-! ### In a heading -/

/-- Inside a heading that is not a part of a code block. -/
structure InHeading (s : Mdrtf) : Prop where
  heading : s.heading ≠ 0
  code : s.code = false

theorem putText_headText (h : s.InHeading) (text : Wide) :
    (s.putText text).headText = s.headText ++ text := if_pos h.heading

theorem putFootnote_spec (h : s.InHeading) : s.putFootnote.InHeading ∧ s.putFootnote.para = s.para
    ∧ s.putFootnote.headAt = s.headAt ∧ s.putFootnote.marker = s.marker
    ∧ s.putFootnote.headText = s.headText
      ++ if s.footnoteAtStart then [0x5b] ++ toWstring s.footnoteId ++ [0x5d] else [] := by
  rw [putFootnote]
  by_cases hstart : s.footnoteAtStart = true
  · rw [if_pos hstart, if_pos hstart]
    exact ⟨⟨h.heading, h.code⟩, rfl, rfl, rfl, if_pos h.heading⟩
  · rw [if_neg hstart, if_neg hstart, List.append_nil]
    exact ⟨h, rfl, rfl, rfl, rfl⟩

theorem putMarker_spec (h : s.InHeading) : s.putMarker.InHeading ∧ s.putMarker.para = s.para
    ∧ s.putMarker.headAt = s.headAt ∧ s.putMarker.headText = s.headText ++ s.marker := by
  rw [putMarker]
  by_cases hmarker : s.marker ≠ []
  · rw [if_pos hmarker]
    exact ⟨⟨h.heading, h.code⟩, rfl, rfl, if_pos h.heading⟩
  · rw [if_neg hmarker, not_not.mp hmarker, List.append_nil]
    exact ⟨h, rfl, rfl, rfl⟩

/-- `open_para` writes what was waiting, once. -/
theorem openPara_spec (h : s.InHeading) :
    s.openPara.InHeading ∧ s.openPara.para = true
      ∧ s.openPara.headAt.isSome = (s.headAt.isSome || !s.para)
      ∧ s.openPara.headText = s.headText ++ if s.para then [] else s.pending := by
  rw [openPara]
  by_cases hpara : s.para = true
  · rw [if_pos hpara, if_pos hpara, hpara, List.append_nil, Bool.not_true, Bool.or_false]
    exact ⟨h, rfl, rfl, rfl⟩
  rw [if_neg hpara, if_neg hpara, Bool.eq_false_iff.mpr hpara, Bool.not_false, Bool.or_true]
  obtain ⟨t, ht⟩ : ∃ t : Mdrtf, t = if s.needPar then { s.skip 1 with needPar := false } else s :=
    ⟨_, rfl⟩
  have hsame : t.heading = s.heading ∧ t.code = s.code ∧ t.headText = s.headText
      ∧ t.marker = s.marker ∧ t.footnoteAtStart = s.footnoteAtStart ∧ t.footnoteId = s.footnoteId := by
    rw [ht]
    split_ifs <;> exact ⟨rfl, rfl, rfl, rfl, rfl, rfl⟩
  rw [← ht]
  dsimp only
  obtain ⟨hheading, hcode, htext, hmarker, hstart, hid⟩ := hsame
  obtain ⟨u, hu⟩ : ∃ u : Mdrtf, u = { t with
      para := true
      headAt := if t.heading ≠ 0 ∧ t.headAt = none then some t.chars else t.headAt } := ⟨_, rfl⟩
  have hin : u.InHeading := by
    rw [hu]
    exact ⟨hheading ▸ h.heading, hcode.trans h.code⟩
  obtain ⟨hin₁, hpara₁, hat₁, hmarker₁, htext₁⟩ := putFootnote_spec hin
  obtain ⟨hin₂, hpara₂, hat₂, htext₂⟩ := putMarker_spec hin₁
  rw [← hu]
  refine ⟨hin₂, ?_, ?_, ?_⟩
  · rw [hpara₂, hpara₁, hu]
  · rw [hat₂, hat₁, hu]
    dsimp only
    split_ifs with hnone
    · rfl
    · rw [Option.isSome_iff_ne_none]
      exact fun h' => hnone ⟨hheading ▸ h.heading, h'⟩
  · rw [htext₂, hmarker₁, htext₁, hu]
    dsimp only
    rw [htext, hmarker, hstart, hid, pending, List.append_assoc]

/-- What is seen of a state inside a heading, after a part with the slug `added`. -/
structure Adds (lib : MdrtfLibrary) (s t : Mdrtf) (opens : Bool) (added : Wide) : Prop where
  inHeading : t.InHeading
  para : t.para = (s.para || opens)
  headAt : t.headAt.isSome = (s.headAt.isSome || !s.para && opens)
  slug : headingSlug lib t.headText = headingSlug lib s.headText
    ++ (if !s.para && opens then headingSlug lib s.pending else []) ++ added
  pending : opens = false → t.pending = s.pending

theorem adds_openPara (h : s.InHeading) : Adds lib s s.openPara true [] := by
  obtain ⟨hin, hpara, hat, htext⟩ := openPara_spec h
  refine ⟨hin, ?_, ?_, ?_, fun hopens => by cases hopens⟩
  · rw [hpara, Bool.or_true]
  · rw [hat, Bool.and_true]
  · rw [htext, headingSlug_append, List.append_nil, Bool.and_true]
    cases s.para <;> rfl

theorem Adds.putText {t : Mdrtf} {opens : Bool} (h : Adds lib s t opens []) (text : Wide) :
    Adds lib s (t.putText text) opens (headingSlug lib text) where
  inHeading := ⟨h.inHeading.heading, h.inHeading.code⟩
  para := h.para
  headAt := h.headAt
  slug := by rw [putText_headText h.inHeading, headingSlug_append, h.slug, List.append_nil]
  pending := h.pending

theorem Adds.skip {t : Mdrtf} {opens : Bool} {added : Wide} (h : Adds lib s t opens added) (n : ℕ) :
    Adds lib s (t.skip n) opens added :=
  ⟨⟨h.inHeading.heading, h.inHeading.code⟩, h.para, h.headAt, h.slug, h.pending⟩

theorem adds_refl (h : s.InHeading) : Adds lib s s false [] := by
  refine ⟨h, ?_, ?_, ?_, fun _ => rfl⟩
  · rw [Bool.or_false]
  · rw [Bool.and_false, Bool.or_false]
  · rw [Bool.and_false, if_neg Bool.false_ne_true, List.append_nil, List.append_nil]

theorem headingSlug_bracket : headingSlug lib [0x5b] = [] ∧ headingSlug lib [0x5d] = [] := by
  refine ⟨headingSlug_eq_nil.mpr fun c hc => ?_, headingSlug_eq_nil.mpr fun c hc => ?_⟩
  · obtain rfl := List.mem_singleton.mp hc
    exact headingSlug_mark (by decide)
  · obtain rfl := List.mem_singleton.mp hc
    exact headingSlug_mark (by decide)

theorem inlineStep_adds (h : s.InHeading) (i : MdInline) :
    Adds lib s (s.inlineStep lib i) i.opens (headingSlug lib (i.delivers lib s.para)) := by
  cases i with
  | enterSpan span =>
    cases span with
    | img =>
      have hadds := (@adds_openPara lib s h).putText [0x5b]
      rw [headingSlug_bracket.1] at hadds
      exact hadds
    | footnoteRef id => exact (adds_openPara h).skip _
    | _ => exact adds_openPara h
  | leaveSpan span =>
    cases span with
    | img =>
      have hadds := (@adds_refl lib s h).putText [0x5d]
      rw [headingSlug_bracket.2] at hadds
      exact hadds
    | _ => exact adds_refl h
  | text type p =>
    cases type with
    | nullchar => exact (adds_openPara h).putText [0xfffd]
    | br =>
      show Adds lib s (if s.para then s.skip 1 else s) false []
      split_ifs
      · exact (adds_refl h).skip 1
      · exact adds_refl h
    | softbr =>
      show Adds lib s (if s.para then s.putText [0x20] else s) false
        (headingSlug lib (if s.para then [0x20] else []))
      split_ifs
      · exact (adds_refl h).putText [0x20]
      · exact adds_refl h
    | html => exact adds_refl h
    | code =>
      show Adds lib s (s.emitCodeText lib p) true (headingSlug lib (lib.utf8 p))
      rw [emitCodeText, if_pos (by simp [h.code])]
      exact (adds_openPara h).putText _
    | _ => exact (adds_openPara h).putText _

theorem delivers_eq_nil {i : MdInline} (h : i.opens = false) : i.delivers lib false = [] := by
  cases i with
  | enterSpan span => cases h
  | leaveSpan span => rfl
  | text type p => cases type <;> first | rfl | cases h

/-- The slug of a heading: what was waiting when its paragraph was opened, and what was delivered. -/
theorem inlines_slug (h : s.InHeading) (inlines : List MdInline) :
    (inlines.foldl (inlineStep lib) s).headAt.isSome
        = (s.headAt.isSome || !s.para && inlines.any MdInline.opens)
      ∧ headingSlug lib (inlines.foldl (inlineStep lib) s).headText = headingSlug lib s.headText
        ++ (if !s.para && inlines.any MdInline.opens then headingSlug lib s.pending else [])
        ++ headingSlug lib (mdDelivered lib s.para inlines) := by
  induction inlines generalizing s with
  | nil => simp [mdDelivered, headingSlug]
  | cons i inlines ih =>
    have hstep := @inlineStep_adds lib s h i
    obtain ⟨hat, hslug⟩ := ih hstep.inHeading
    rw [List.foldl_cons, hat, hslug, hstep.headAt, hstep.slug, hstep.para, mdDelivered,
      headingSlug_append, List.any_cons]
    cases hpara : s.para with
    | true => simp
    | false =>
      cases hopens : i.opens with
      | true => simp
      | false => simp [delivers_eq_nil hopens, hstep.pending hopens, headingSlug]

/-- A heading has the slug of what it delivers, with what was waiting in front of it. -/
theorem inHeading_slug {level : ℕ} (hcode : s.code = false) (inlines : List MdInline) :
    (s.inHeading lib level inlines).headAt.isSome = inlines.any MdInline.opens
      ∧ headingSlug lib (s.inHeading lib level inlines).headText
        = (if inlines.any MdInline.opens then headingSlug lib s.pending else [])
          ++ headingSlug lib (mdDelivered lib false inlines) := by
  obtain ⟨t, ht⟩ : ∃ t, t = s.enterBlock lib (.h level) := ⟨_, rfl⟩
  have hclose : s.closePara.code = s.code ∧ s.closePara.para = false
      ∧ s.closePara.pending = s.pending := by
    rw [closePara]
    cases hpara : s.para with
    | false => exact ⟨rfl, hpara, rfl⟩
    | true => exact ⟨rfl, rfl, rfl⟩
  have hin : t.InHeading := by
    rw [ht]
    refine ⟨?_, hclose.1.trans hcode⟩
    show (if level < 1 ∨ 6 < level then 6 else level) ≠ 0
    split_ifs <;> omega
  have hpara : t.para = false := ht ▸ hclose.2.1
  have hat : t.headAt = none := by rw [ht]; rfl
  have htext : t.headText = [] := by rw [ht]; rfl
  have hpending : t.pending = s.pending := ht ▸ hclose.2.2
  obtain ⟨hopens, hslug⟩ := @inlines_slug lib t hin inlines
  rw [inHeading, ← ht]
  rw [hpara, hat] at hopens
  rw [hpara, htext, hpending] at hslug
  exact ⟨by simpa using hopens, by simpa [headingSlug] using hslug⟩

theorem recorded_eq {level : ℕ} : s.recorded lib level
    = if s.headAt.isSome ∧ headingSlug lib s.headText ≠ [] then [headingSlug lib s.headText]
      else [] := by
  have hclose : s.closePara.anchors = s.anchors ∧ s.closePara.headAt = s.headAt
      ∧ s.closePara.headText = s.headText := by
    rw [closePara]
    split_ifs <;> exact ⟨rfl, rfl, rfl⟩
  have hleave : (s.leaveBlock lib (.h level)).anchors = s.anchors ++ s.headAnchor lib := by
    show s.closePara.anchors ++ _ = _
    rw [hclose.1]
    refine congrArg (s.anchors ++ ·) ?_
    show (match s.closePara.headAt with
      | none => []
      | some place => if headingSlug lib s.closePara.headText = [] then []
        else [(headingSlug lib s.closePara.headText, place)]) = _
    rw [hclose.2.1, hclose.2.2]
    rfl
  rw [recorded, hleave, List.drop_left, headAnchor]
  cases s.headAt with
  | none => simp
  | some place => by_cases hslug : headingSlug lib s.headText = [] <;> simp [hslug]

/-! ### Any run -/

/-- The marker may be gone, and the renderer is in a code block as before. -/
def Keeps (s t : Mdrtf) : Prop := t.code = s.code ∧ ∀ c ∈ t.marker, c ∈ s.marker

theorem Keeps.refl (s : Mdrtf) : s.Keeps s := ⟨rfl, fun _ hc => hc⟩

theorem Keeps.trans {t u : Mdrtf} (h : s.Keeps t) (h' : t.Keeps u) : s.Keeps u :=
  ⟨h'.1.trans h.1, fun c hc => h.2 c (h'.2 c hc)⟩

theorem keeps_putFootnote : s.Keeps s.putFootnote := by
  rw [putFootnote]
  split_ifs
  · exact ⟨rfl, fun _ hc => hc⟩
  · exact .refl s

theorem keeps_putMarker : s.Keeps s.putMarker := by
  rw [putMarker]
  split_ifs
  · exact ⟨rfl, fun _ hc => by cases hc⟩
  · exact .refl s

theorem keeps_openPara : s.Keeps s.openPara := by
  rw [openPara]
  split_ifs
  · exact .refl s
  · refine Keeps.trans (Keeps.trans ?_ keeps_putFootnote) keeps_putMarker
    exact ⟨rfl, fun _ hc => hc⟩
  · refine Keeps.trans (Keeps.trans ?_ keeps_putFootnote) keeps_putMarker
    exact ⟨rfl, fun _ hc => hc⟩

theorem keeps_closePara : s.Keeps s.closePara := by
  rw [closePara]
  split_ifs
  · exact ⟨rfl, fun _ hc => hc⟩
  · exact .refl s

theorem keeps_putText (text : Wide) : s.Keeps (s.putText text) := ⟨rfl, fun _ hc => hc⟩

theorem keeps_skip (n : ℕ) : s.Keeps (s.skip n) := ⟨rfl, fun _ hc => hc⟩

theorem keeps_emitRule : s.Keeps s.emitRule :=
  ((keeps_closePara.trans keeps_openPara).trans (keeps_skip 1)).trans keeps_closePara

theorem keeps_putCodeLine (line : List UInt8) : s.Keeps (s.putCodeLine lib line) := by
  rw [putCodeLine]
  split_ifs
  · exact .refl s
  · exact keeps_openPara.trans ⟨rfl, fun _ hc => hc⟩

theorem keeps_emitCodeText (p : List UInt8) : s.Keeps (s.emitCodeText lib p) := by
  rw [emitCodeText]
  split_ifs
  · cases p.splitOn 0x0a with
    | nil => exact .refl s
    | cons line lines =>
      refine Keeps.trans (@keeps_putCodeLine lib s line) ?_
      dsimp only
      generalize s.putCodeLine lib line = t
      induction lines generalizing t with
      | nil => exact .refl t
      | cons line lines ih =>
        rw [List.foldl_cons]
        refine Keeps.trans (Keeps.trans ?_ (keeps_putCodeLine line)) (ih _)
        exact ⟨rfl, fun _ hc => hc⟩
  · exact keeps_openPara.trans (keeps_putText _)

theorem keeps_inlineStep (i : MdInline) : s.Keeps (s.inlineStep lib i) := by
  cases i with
  | enterSpan span =>
    cases span with
    | img => exact keeps_openPara.trans (keeps_putText _)
    | footnoteRef id => exact keeps_openPara.trans (keeps_skip _)
    | _ => exact keeps_openPara
  | leaveSpan span =>
    cases span with
    | img => exact keeps_putText _
    | _ => exact .refl s
  | text type p =>
    cases type with
    | br =>
      show s.Keeps (if s.para then s.skip 1 else s)
      split_ifs
      · exact keeps_skip 1
      · exact .refl s
    | softbr =>
      show s.Keeps (if s.para then s.putText [0x20] else s)
      split_ifs
      · exact keeps_putText _
      · exact .refl s
    | html => exact .refl s
    | code => exact keeps_emitCodeText p
    | _ => exact keeps_openPara.trans (keeps_putText _)

/-- What the blocks that are open say about the renderer. -/
structure Nested (s : Mdrtf) (blocks : List MdBlock) : Prop where
  code : s.code = true → blocks.head? = some .code
  inner : ∀ block ∈ blocks.tail, block.isLeaf = false
  marked : s.Marked

theorem Nested.keeps {t : Mdrtf} {blocks blocks' : List MdBlock} (h : s.Nested blocks) (hkeeps : s.Keeps t)
    (hcode : s.code = true → blocks'.head? = some .code)
    (hinner : ∀ block ∈ blocks'.tail, block.isLeaf = false) : t.Nested blocks' :=
  ⟨fun ht => hcode (hkeeps.1 ▸ ht), hinner, fun c hc => h.marked c (hkeeps.2 c hc)⟩

theorem marked_listMarker (isTask : Bool) (taskMark : UInt8) : ∀ c ∈ (s.listMarker isTask taskMark).1,
    c ∈ ([0x2e, 0x2022, 0x25e6, 0x25aa, 0x2610, 0x2611] : List ℕ) ∨ 0x30 ≤ c ∧ c ≤ 0x39 := by
  intro c hc
  rw [listMarker] at hc
  have hbullet : ∀ i, bullet i ∈ ([0x2e, 0x2022, 0x25e6, 0x25aa, 0x2610, 0x2611] : List ℕ) := by
    intro i
    rw [bullet]
    split_ifs <;> simp
  split_ifs at hc with htask hmark
  · obtain rfl := List.mem_singleton.mp hc
    exact .inl (by simp)
  · obtain rfl := List.mem_singleton.mp hc
    exact .inl (by simp)
  · revert hc
    match s.lists with
    | [] =>
      intro hc
      obtain rfl := List.mem_singleton.mp hc
      exact .inl (hbullet 0)
    | (true, next) :: lists =>
      intro hc
      rcases List.mem_append.mp hc with hc | hc
      · exact .inr (toWstring_digits hc)
      · obtain rfl := List.mem_singleton.mp hc
        exact .inl (by simp)
    | (false, next) :: lists =>
      intro hc
      obtain rfl := List.mem_singleton.mp hc
      exact .inl (hbullet _)

theorem nested_enterBlock {blocks : List MdBlock} (h : s.Nested blocks) (block : MdBlock)
    (hopen : blocks.head?.any MdBlock.isLeaf = false) :
    (s.enterBlock lib block).Nested (block :: blocks) := by
  have hcode : s.code = true → False := fun hcode => by
    rw [h.code hcode] at hopen
    cases hopen
  have hinner : ∀ b ∈ (block :: blocks).tail, b.isLeaf = false := by
    intro b hb
    cases blocks with
    | nil => cases hb
    | cons b' blocks =>
      rcases List.mem_cons.mp hb with rfl | hb
      · exact hopen
      · exact h.inner b hb
  have hkeep : ∀ {t : Mdrtf}, s.Keeps t → t.Nested (block :: blocks) := fun hkeeps =>
    h.keeps hkeeps (fun hs => (hcode hs).elim) hinner
  have hclose := @keeps_closePara s
  cases block with
  | hr => exact hkeep keeps_emitRule
  | footnoteDefSection => exact hkeep keeps_emitRule
  | li isTask taskMark =>
    exact ⟨fun ht => (hcode (hclose.1 ▸ ht)).elim, hinner, marked_listMarker isTask taskMark⟩
  | code => exact ⟨fun _ => rfl, hinner, fun c hc => h.marked c (hclose.2 c hc)⟩
  | admonition type =>
    exact hkeep (((hclose.trans keeps_openPara).trans (keeps_putText _)).trans keeps_closePara)
  | thead => exact hkeep (.refl s)
  | th =>
    refine hkeep (keeps_openPara.trans ?_)
    show Keeps _ { (if _ then _ else _ : Mdrtf) with cell := _ }
    split_ifs <;> exact ⟨rfl, fun _ hc => hc⟩
  | td =>
    refine hkeep (keeps_openPara.trans ?_)
    show Keeps _ { (if _ then _ else _ : Mdrtf) with cell := _ }
    split_ifs <;> exact ⟨rfl, fun _ hc => hc⟩
  | ul => exact hkeep (hclose.trans ⟨rfl, fun _ hc => hc⟩)
  | ol start => exact hkeep (hclose.trans ⟨rfl, fun _ hc => hc⟩)
  | h level => exact hkeep (hclose.trans ⟨rfl, fun _ hc => hc⟩)
  | footnoteDef id => exact hkeep (hclose.trans ⟨rfl, fun _ hc => hc⟩)
  | tr => exact hkeep (hclose.trans ⟨rfl, fun _ hc => hc⟩)
  | _ => exact hkeep hclose

theorem nested_leaveBlock {blocks : List MdBlock} {block : MdBlock} (h : s.Nested (block :: blocks)) :
    (s.leaveBlock lib block).Nested blocks := by
  have hinner : ∀ b ∈ blocks.tail, b.isLeaf = false := fun b hb => h.inner b (List.mem_of_mem_tail hb)
  have hclose := @keeps_closePara s
  by_cases hblock : block = .code
  · subst hblock
    exact ⟨(fun ht => by cases ht), hinner, fun c hc => h.marked c (hclose.2 c hc)⟩
  have hkeep : ∀ {t : Mdrtf}, s.Keeps t → t.Nested blocks := fun hkeeps =>
    h.keeps hkeeps (fun hs => absurd (Option.some.inj (h.code hs)) hblock) hinner
  cases block with
  | code => exact absurd rfl hblock
  | li isTask taskMark =>
    refine hkeep (Keeps.trans ?_ keeps_closePara)
    split_ifs
    · exact keeps_openPara
    · exact .refl s
  | footnoteDef id =>
    refine hkeep (Keeps.trans (Keeps.trans ?_ keeps_closePara) ⟨rfl, fun _ hc => hc⟩)
    split_ifs
    · exact keeps_openPara
    · exact .refl s
  | ul => exact hkeep (hclose.trans ⟨rfl, fun _ hc => hc⟩)
  | ol start => exact hkeep (hclose.trans ⟨rfl, fun _ hc => hc⟩)
  | h level => exact hkeep (hclose.trans ⟨rfl, fun _ hc => hc⟩)
  | thead => exact hkeep (.refl s)
  | th => exact hkeep (.refl s)
  | td => exact hkeep (.refl s)
  | _ => exact hkeep hclose

theorem nested_run {callbacks : List MdCallback} {blocks blocks' : List MdBlock}
    (h : s.Nested blocks) (hnest : mdNesting blocks callbacks = some blocks') :
    (callbacks.foldl (step lib) s).Nested blocks' := by
  induction callbacks generalizing s blocks with
  | nil =>
    rw [mdNesting] at hnest
    exact Option.some.inj hnest ▸ h
  | cons callback callbacks ih =>
    cases callback with
    | enterBlock block =>
      rw [mdNesting] at hnest
      split_ifs at hnest with hopen
      exact ih (nested_enterBlock h block (Bool.eq_false_iff.mpr hopen)) hnest
    | leaveBlock block =>
      cases blocks with
      | nil => cases hnest
      | cons block' blocks =>
        rw [mdNesting] at hnest
        split_ifs at hnest with heq
        subst heq
        exact ih (nested_leaveBlock h) hnest
    | inline i =>
      have hkeeps := @keeps_inlineStep lib s i
      refine ih (h.keeps hkeeps (fun hs => h.code hs) h.inner) ?_
      cases blocks <;> exact hnest

end Mdrtf

theorem mdNesting_snoc {callbacks : List MdCallback} {callback : MdCallback} {blocks : List MdBlock} :
    mdNesting blocks (callbacks ++ [callback])
      = (mdNesting blocks callbacks).bind fun blocks => mdNesting blocks [callback] := by
  induction callbacks generalizing blocks with
  | nil => rw [List.nil_append, mdNesting, Option.bind_some]
  | cons c callbacks ih =>
    cases c with
    | enterBlock block =>
      rw [List.cons_append, mdNesting, mdNesting, ih]
      split_ifs <;> rfl
    | leaveBlock block =>
      cases blocks with
      | nil => rfl
      | cons block' blocks =>
        rw [List.cons_append, mdNesting, mdNesting, ih]
        split_ifs <;> rfl
    | inline i =>
      rw [List.cons_append, mdNesting.eq_def, mdNesting.eq_def blocks (_ :: _)]
      cases blocks <;> exact ih

theorem nested_of_heading {lib : MdrtfLibrary} {callbacks : List MdCallback} {level : ℕ}
    (hnest : (mdNesting [] (callbacks ++ [.enterBlock (.h level)])).isSome) :
    (Mdrtf.run lib callbacks).code = false ∧ (Mdrtf.run lib callbacks).Marked := by
  obtain ⟨blocks', hblocks'⟩ := Option.isSome_iff_exists.mp hnest
  rw [mdNesting_snoc] at hblocks'
  obtain ⟨blocks, hblocks, henter⟩ := Option.bind_eq_some_iff.mp hblocks'
  rw [mdNesting] at henter
  split_ifs at henter with hopen
  have hstart : Mdrtf.Nested {} [] :=
    ⟨(fun h => by cases h), (fun _ h => by cases h), fun _ h => by cases h⟩
  have hrun := @Mdrtf.nested_run lib {} callbacks [] blocks hstart hblocks
  refine ⟨?_, hrun.marked⟩
  by_contra hcode
  rw [Bool.not_eq_false] at hcode
  rw [hrun.code hcode] at hopen
  exact hopen rfl

/-- **A heading is found by its own text unless a number goes before it.** In any run of nested
callbacks a heading records the slug of the text delivered in it, except when something in it has a
paragraph opened while the number of a footnote or of a list item is waiting for one. -/
theorem mdrtf_heading_slug (lib : MdrtfLibrary) {callbacks : List MdCallback} {level : ℕ}
    (hnest : (mdNesting [] (callbacks ++ [.enterBlock (.h level)])).isSome)
    (inlines : List MdInline) :
    ((Mdrtf.run lib callbacks).inHeading lib level inlines).recorded lib level = mdSlugs lib inlines
      ↔ ¬ (inlines.any MdInline.opens = true ∧ (Mdrtf.run lib callbacks).Waiting) := by
  obtain ⟨hcode, hmarked⟩ := @nested_of_heading lib _ _ hnest
  obtain ⟨hat, hslug⟩ := @Mdrtf.inHeading_slug lib _ level hcode inlines
  rw [Mdrtf.recorded_eq, hat, hslug, mdSlugs, ← @Mdrtf.pending_slug lib _ hmarked]
  cases hopens : inlines.any MdInline.opens with
  | false => simp
  | true =>
    obtain ⟨before, hbefore⟩ : ∃ w, w = headingSlug lib (Mdrtf.run lib callbacks).pending := ⟨_, rfl⟩
    obtain ⟨own, hown⟩ : ∃ w, w = headingSlug lib (mdDelivered lib false inlines) := ⟨_, rfl⟩
    rw [← hbefore, ← hown]
    constructor
    · rintro h ⟨-, hne⟩
      have hlength := congrArg (fun slugs => slugs.map List.length) h
      rw [if_pos rfl, if_pos ⟨rfl, by simp [hne]⟩] at hlength
      split_ifs at hlength
      · simp at hlength
        exact hne hlength
      · simp at hlength
    · intro h
      rw [not_and, not_not] at h
      rw [h rfl, if_pos rfl, List.nil_append]

/-- The library on ASCII. -/
def asciiLibrary : MdrtfLibrary where
  iswalnum c := 0x30 ≤ c ∧ c ≤ 0x39 ∨ 0x41 ≤ c ∧ c ≤ 0x5a ∨ 0x61 ≤ c ∧ c ≤ 0x7a
  towlower c := if 0x41 ≤ c ∧ c ≤ 0x5a then c + 0x20 else c
  towupper c := if 0x61 ≤ c ∧ c ≤ 0x7a then c - 0x20 else c
  utf8 p := p.map UInt8.toNat
  entity _ := []
  utf8_nil := rfl
  digit c hlow hhigh := decide_eq_true (.inl ⟨hlow, hhigh⟩)
  mark := by decide

/-- `1. # A`: the callbacks before the heading, and in it. -/
def numberedHeading : List MdCallback :=
  [.enterBlock .doc, .enterBlock (.ol 1), .enterBlock (.li false 0x20)]

theorem mdrtf_heading_numbered :
    ((Mdrtf.run asciiLibrary numberedHeading).inHeading asciiLibrary 1 [.text .normal [0x41]]).recorded
        asciiLibrary 1 = [[0x31, 0x61]]
      ∧ mdSlugs asciiLibrary [.text .normal [0x41]] = [[0x61]] := by
  decide

theorem mdrtf_heading_slug_doc :
    ((Mdrtf.run asciiLibrary [.enterBlock .doc]).inHeading asciiLibrary 1
      [.text .normal [0x41]]).recorded asciiLibrary 1 = [[0x61]] := by
  rw [(mdrtf_heading_slug asciiLibrary (by decide) [.text .normal [0x41]]).mpr]
  · decide
  · rintro ⟨-, hstart | ⟨c, hc, -⟩⟩
    · cases hstart
    · cases hc

end FsRover
