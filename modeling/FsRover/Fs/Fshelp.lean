import FsRover.Bytes
import FsRover.Grub

/-!
# Looking a path up

`grub_fshelp_find_file` for the drivers that list a directory by a callback and have no symbolic
links to follow. A name is a list of bytes without the terminator.

## Main definitions

* `FsRover.grubTolower`, `FsRover.sameName` : names up to ASCII case.
* `FsRover.FshelpItem` : what an `iterate_dir` hands to its hook.
* `FsRover.fshelpFindFile` : the walk along a path.

## Main results

* `FsRover.fshelpWalk_append`, `FsRover.fshelpComponents_append` : a path below a directory.
-/

namespace FsRover

abbrev Name := List UInt8

/-- `grub_strcasecmp (a, b) == 0`. -/
def sameName (a b : Name) : Bool := a.map grubTolower == b.map grubTolower

theorem sameName_iff {a b : Name} : sameName a b = true ↔ a.map grubTolower = b.map grubTolower :=
  beq_iff_eq

@[simp] theorem sameName_refl (a : Name) : sameName a a = true := sameName_iff.mpr rfl

theorem sameName_comm (a b : Name) : sameName a b = sameName b a := by
  rw [sameName, sameName, Bool.eq_iff_iff, beq_iff_eq, beq_iff_eq]
  exact eq_comm

theorem sameName_trans {a b c : Name} (h : sameName a b = true) (h' : sameName b c = true) :
    sameName a c = true := sameName_iff.mpr ((sameName_iff.mp h).trans (sameName_iff.mp h'))

/-- `enum grub_fshelp_filetype` without the flag. -/
inductive FshelpType
  | unknown | reg | dir | symlink
  deriving DecidableEq, Repr

/-- The arguments of a `grub_fshelp_iterate_dir_hook_t`. -/
structure FshelpItem (ν : Type) where
  name : Name
  type : FshelpType
  caseInsensitive : Bool
  node : ν

variable {ν : Type}

/-- `find_file_iter` takes the item. -/
def FshelpItem.found (name : Name) (item : FshelpItem ν) : Bool :=
  if item.caseInsensitive then sameName name item.name
  else item.type ≠ .unknown && name == item.name

/-- The components of a path: what is between slashes, if anything is. `c` is the component read so
far. -/
def fshelpSplit : Name → Name → List Name
  | c, [] => if c = [] then [] else [c]
  | c, b :: path =>
    if b = 0x2f then (if c = [] then [] else [c]) ++ fshelpSplit [] path
    else fshelpSplit (c ++ [b]) path

def fshelpComponents (path : Name) : List Name := fshelpSplit [] path

/-- `find_file` over the components that are left, from the top of the stack. There is no
`read_symlink`. -/
def fshelpWalk (iterate : ν → List (FshelpItem ν)) :
    List Name → (ν × FshelpType) × List (ν × FshelpType) →
      Except GrubError ((ν × FshelpType) × List (ν × FshelpType))
  | [], stack => .ok stack
  | c :: rest, (current, parents) =>
    if current.2 ≠ .dir then .error ⟨.badFileType, "not a directory"⟩
    else if c = [0x2e] then fshelpWalk iterate rest (current, parents)
    else if c = [0x2e, 0x2e] then
      match parents with
      | [] => fshelpWalk iterate rest (current, [])
      | parent :: parents => fshelpWalk iterate rest (parent, parents)
    else
      match (iterate current.1).find? (FshelpItem.found c) with
      | none => .error ⟨.fileNotFound, "file not found"⟩
      | some item =>
        if item.type = .symlink then .error ⟨.badFs, "read_symlink is NULL"⟩
        else fshelpWalk iterate rest ((item.node, item.type), current :: parents)

/-- `grub_fshelp_find_file`. -/
def fshelpFindFile (iterate : ν → List (FshelpItem ν)) (root : ν) (path : Name)
    (expect : FshelpType) : Except GrubError ν :=
  if path.head? ≠ some 0x2f then .error ⟨.badFilename, "invalid file name"⟩
  else
    match fshelpWalk iterate (fshelpComponents path) ((root, .dir), []) with
    | .error e => .error e
    | .ok ((node, type), _) =>
      if expect = .reg ∧ type ≠ .reg then .error ⟨.badFileType, "not a regular file"⟩
      else if expect = .dir ∧ type ≠ .dir then .error ⟨.badFileType, "not a directory"⟩
      else .ok node

/-! ### Paths below a directory -/

theorem fshelpSplit_append (c path : Name) {name : Name} (hname : name ≠ [])
    (hslash : 0x2f ∉ name) :
    fshelpSplit c (path ++ 0x2f :: name) = fshelpSplit c path ++ [name] := by
  have hplain : ∀ c : Name, fshelpSplit c name = if c ++ name = [] then [] else [c ++ name] := by
    clear hname
    induction name with
    | nil =>
      intro c
      rw [fshelpSplit, List.append_nil]
    | cons b name ih =>
      intro c
      rw [List.mem_cons, not_or] at hslash
      rw [fshelpSplit, if_neg (Ne.symm hslash.1), ih hslash.2, List.append_assoc,
        List.singleton_append]
  induction path generalizing c with
  | nil =>
    have hstep : fshelpSplit c (0x2f :: name)
        = (if c = [] then [] else [c]) ++ fshelpSplit [] name := rfl
    rw [List.nil_append, hstep, hplain, List.nil_append, if_neg hname, fshelpSplit]
  | cons b path ih =>
    rw [List.cons_append, fshelpSplit, fshelpSplit]
    by_cases hb : b = 0x2f
    · rw [if_pos hb, if_pos hb, ih, List.append_assoc]
    · rw [if_neg hb, if_neg hb, ih]

/-- The components of a path and a name below it. -/
theorem fshelpComponents_append (path : Name) {name : Name} (hname : name ≠ [])
    (hslash : 0x2f ∉ name) :
    fshelpComponents (path ++ 0x2f :: name) = fshelpComponents path ++ [name] :=
  fshelpSplit_append [] path hname hslash

theorem fshelpWalk_append (iterate : ν → List (FshelpItem ν)) (cs ds : List Name)
    (stack : (ν × FshelpType) × List (ν × FshelpType)) :
    fshelpWalk iterate (cs ++ ds) stack
      = (fshelpWalk iterate cs stack).bind (fshelpWalk iterate ds) := by
  induction cs generalizing stack with
  | nil => rfl
  | cons c cs ih =>
    obtain ⟨current, parents⟩ := stack
    simp only [List.cons_append, fshelpWalk]
    by_cases hdir : current.2 ≠ .dir
    · rw [if_pos hdir, if_pos hdir]
      rfl
    rw [if_neg hdir, if_neg hdir]
    by_cases hdot : c = [0x2e]
    · rw [if_pos hdot, if_pos hdot, ih]
    rw [if_neg hdot, if_neg hdot]
    by_cases hup : c = [0x2e, 0x2e]
    · rw [if_pos hup, if_pos hup]
      cases parents with
      | nil => exact ih _
      | cons parent parents => exact ih _
    rw [if_neg hup, if_neg hup]
    cases (iterate current.1).find? (FshelpItem.found c) with
    | none => rfl
    | some item =>
      simp only
      by_cases hlink : item.type = .symlink
      · rw [if_pos hlink, if_pos hlink]
        rfl
      · rw [if_neg hlink, if_neg hlink, ih]

end FsRover
