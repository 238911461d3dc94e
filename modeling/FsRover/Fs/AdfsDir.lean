import FsRover.Fs.AdfsRead

/-!
# ADFS directories

Directories come in two formats. Both end in a check byte over the entries and the tail. Every access
to the buffer of a directory is checked against its length.

## Main definitions

* `FsRover.adfsFValidate`, `FsRover.adfsIterateF` : directories of 77 entries.
* `FsRover.adfsFplusValidate`, `FsRover.adfsIterateFplus` : directories of any size.

## Main results

* `FsRover.adfsIterateDir_ends` : a walk ends, and stays inside the buffer.
-/

namespace FsRover

open Outcome Memory

/-! ### Fields and check bytes -/

/-- The little-endian number in `n` bytes. -/
def adfsLe (b : ℕ → UInt8) : ℕ → ℕ
  | 0 => 0
  | n + 1 => adfsLe b n + (b n).toNat * 2 ^ (8 * n)

variable {ε σ : Type}

/-- `adfs_get_le`. -/
def adfsGetLe (m : Mem) (p len : ℕ) : Outcome ε ℕ := m.field p len >>= fun b => done (adfsLe b len)

/-- `adfs_ror13`. -/
def adfsRor13 (value : ℕ) : ℕ := value / 2 ^ 13 + value % 2 ^ 13 * 2 ^ 19

/-- A loop of the check byte over `n` words from `i` on. -/
def adfsCheckWords (m : Mem) : ℕ → ℕ → ℕ → Outcome ε ℕ
  | 0, _, check => done check
  | n + 1, i, check => adfsGetLe m i 4 >>= fun w =>
    adfsCheckWords m n (i + 4) (w ^^^ adfsRor13 check)

/-- A loop of the check byte over `n` bytes from `i` on. -/
def adfsCheckBytes (m : Mem) : ℕ → ℕ → ℕ → Outcome ε ℕ
  | 0, _, check => done check
  | n + 1, i, check => m.get i >>= fun b =>
    adfsCheckBytes m n (i + 1) (b.toNat ^^^ adfsRor13 check)

/-- The four bytes of a check sum in one. -/
def adfsFold (check : ℕ) : ℕ :=
  (check ^^^ check / 2 ^ 8 ^^^ check / 2 ^ 16 ^^^ check / 2 ^ 24) % 2 ^ 8

/-- The loop of `adfs_f_checkbyte` over the entries: where the words and the entries end. -/
def adfsCheckEntries (m : Mem) : ℕ → ℕ → ℕ → ℕ → Outcome ε (ℕ × ℕ × ℕ)
  | 0, _, _, _ => deep
  | rounds + 1, i, last, check =>
    let words := (last / 4 * 4 - i + 3) / 4
    adfsCheckWords m words i check >>= fun check =>
    m.get last >>= fun b =>
    if b = 0 then done (i + 4 * words, last, check)
    else adfsCheckEntries m rounds (i + 4 * words) (last + 26) check

/-- `adfs_f_checkbyte`. -/
def adfsFCheckbyte (m : Mem) : Outcome ε ℕ :=
  adfsCheckEntries m (m.len + 1) 0 5 0 >>= fun r =>
  adfsCheckBytes m (r.2.1 - r.1) r.1 r.2.2 >>= fun check =>
  adfsCheckWords m 9 2008 check >>= fun check =>
  done (adfsFold check)

/-- Four bytes are the name. -/
def adfsNamed (b : ℕ → UInt8) (name : List UInt8) : Bool := (List.range 4).map b = name

/-- `adfs_f_validate`. -/
def adfsFValidate (m : Mem) : Outcome ε Bool :=
  m.get 0 >>= fun first =>
  m.get 2042 >>= fun again =>
  m.field 2007 3 >>= fun tail =>
  if first ≠ again ∨ tail 0 ≠ 0 ∨ tail 1 ≠ 0 ∨ tail 2 ≠ 0 then done false
  else
    m.field 1 4 >>= fun name =>
    m.field 2043 4 >>= fun name' =>
    if ¬ (adfsNamed name [78, 105, 99, 107] ∨ adfsNamed name [72, 117, 103, 111])
        ∨ adfsNamed name ((List.range 4).map name') = false then done false
    else
      adfsFCheckbyte m >>= fun check =>
      m.get 2047 >>= fun b => done (check = b.toNat)

/-- `adfs_fplus_entry_offset`. -/
def adfsFplusEntryOffset (m : Mem) (pos : ℕ) : Outcome ε ℕ :=
  adfsGetLe m 8 4 >>= fun nameLen => done (u32 (28 + u32 (nameLen + 3) / 4 * 4 + pos * 28))

/-- `adfs_fplus_validate_header`. -/
def adfsFplusValidateHeader (m : Mem) : Outcome ε (Option ℕ) :=
  adfsGetLe m 12 4 >>= fun size =>
  adfsGetLe m 8 4 >>= fun nameLen =>
  adfsGetLe m 16 4 >>= fun entries =>
  adfsGetLe m 20 4 >>= fun namesSize =>
  m.field 1 3 >>= fun zeros =>
  adfsGetLe m 4 4 >>= fun name =>
  let entriesEnd := 28 + (nameLen + 3) / 4 * 4 + entries * 28
  if zeros 0 ≠ 0 ∨ zeros 1 ≠ 0 ∨ zeros 2 ≠ 0 ∨ name ≠ 0x72504253 ∨ size = 0 ∨ size % 2048 ≠ 0
      ∨ 4 * 1024 * 1024 < size ∨ 255 < nameLen then done none
  else if 4 * 1024 * 1024 / 28 < entries ∨ size - 8 < entriesEnd
      ∨ size - 8 - entriesEnd < namesSize then done none
  else done (some size)

/-- `adfs_fplus_checkbyte`. -/
def adfsFplusCheckbyte (m : Mem) : Outcome ε ℕ :=
  adfsGetLe m 16 4 >>= fun entries =>
  adfsFplusEntryOffset m entries >>= fun offset =>
  adfsGetLe m 20 4 >>= fun namesSize =>
  adfsGetLe m 12 4 >>= fun size =>
  adfsCheckWords m ((u32 (offset + namesSize) + 3) / 4) 0 0 >>= fun check =>
  adfsCheckWords m 1 (size - 8) check >>= fun check =>
  adfsCheckBytes m 3 (size - 4) check >>= fun check =>
  done (adfsFold check)

/-- `adfs_fplus_validate`. -/
def adfsFplusValidate (m : Mem) (size : ℕ) : Outcome ε Bool :=
  adfsGetLe m (size - 8) 4 >>= fun name =>
  m.field (size - 4) 4 >>= fun tail =>
  m.get 0 >>= fun first =>
  if name ≠ 0x6e65766f ∨ tail 0 ≠ first ∨ tail 1 ≠ 0 ∨ tail 2 ≠ 0 then done false
  else adfsFplusCheckbyte m >>= fun check => done (check = (tail 3).toNat)

/-! ### Entries -/

/-- An entry as the hook gets it. -/
structure AdfsEntry where
  name : List UInt8
  indaddr : ℕ
  loadaddr : ℕ
  execaddr : ℕ
  size : ℕ
  attr : ℕ

/-- The hook of a walk: whether it stops, and what it leaves. -/
abbrev AdfsHook (σ : Type) := AdfsEntry → σ → Bool × σ

/-- The name of `adfs_emit`: slashes are dots, and a name of dots begins with a caret. -/
def adfsEmitName (raw : List UInt8) : List UInt8 :=
  let name := raw.map fun b => if b = 47 then 46 else b
  if raw.length ≤ 2 ∧ raw.all (· = 47) then 94 :: name.drop 1 else name

/-- `adfs_emit`. -/
def adfsEmit (hook : AdfsHook σ) (e : AdfsEntry) (s : σ) : Bool × σ :=
  if e.name.length = 0 ∨ 255 < e.name.length then (false, s)
  else hook { e with name := adfsEmitName e.name } s

/-- The length of the name at `de`, of which `n` bytes from the one with the number `i` on are left. -/
def adfsNameLen (m : Mem) (de : ℕ) : ℕ → ℕ → Outcome ε ℕ
  | 0, i => done i
  | n + 1, i => m.get (de + i) >>= fun b => if b < 32 then done i else adfsNameLen m de n (i + 1)

/-- The entry at `de` of a directory of 77. -/
def adfsEntryF (m : Mem) (de : ℕ) : Outcome ε AdfsEntry :=
  adfsNameLen m de 10 0 >>= fun nameLen =>
  m.field de nameLen >>= fun name =>
  adfsGetLe m (de + 22) 3 >>= fun indaddr =>
  adfsGetLe m (de + 10) 4 >>= fun loadaddr =>
  adfsGetLe m (de + 14) 4 >>= fun execaddr =>
  adfsGetLe m (de + 18) 4 >>= fun size =>
  m.get (de + 25) >>= fun attr =>
  done ⟨(List.range nameLen).map name, indaddr, loadaddr, execaddr, size, attr.toNat⟩

/-- `adfs_iterate_f` over `n` entries from `de` on. -/
def adfsIterateF (m : Mem) (hook : AdfsHook σ) : ℕ → ℕ → σ → Outcome ε (Bool × σ)
  | 0, _, s => done (false, s)
  | n + 1, de, s => m.get de >>= fun first =>
    if first = 0 then done (false, s)
    else adfsEntryF m de >>= fun e =>
      if (adfsEmit hook e s).1 then done (adfsEmit hook e s)
      else adfsIterateF m hook n (de + 26) (adfsEmit hook e s).2

def adfsMalformed : GrubError := ⟨.badFs, "malformed ADFS F+ directory entry"⟩

/-- `adfs_iterate_fplus` over `n` entries from the one with the number `entry` on. -/
def adfsIterateFplusEntries (m : Mem) (hook : AdfsHook σ) (namesSize namesOffset : ℕ) :
    ℕ → ℕ → σ → Outcome (GrubError × σ) (Bool × σ)
  | 0, _, s => done (false, s)
  | n + 1, entry, s =>
    adfsFplusEntryOffset m entry >>= fun de =>
    adfsGetLe m (de + 20) 4 >>= fun nameLen =>
    adfsGetLe m (de + 24) 4 >>= fun namePtr =>
    if nameLen = 0 ∨ 255 < nameLen ∨ namesSize < namePtr ∨ namesSize - namePtr < nameLen then
      failed (adfsMalformed, s)
    else
      m.field (namesOffset + namePtr) nameLen >>= fun name =>
      adfsGetLe m (de + 12) 4 >>= fun indaddr =>
      adfsGetLe m de 4 >>= fun loadaddr =>
      adfsGetLe m (de + 4) 4 >>= fun execaddr =>
      adfsGetLe m (de + 8) 4 >>= fun size =>
      adfsGetLe m (de + 16) 4 >>= fun attr =>
      let e : AdfsEntry :=
        ⟨(List.range nameLen).map name, indaddr, loadaddr, execaddr, size, attr⟩
      if (adfsEmit hook e s).1 then done (adfsEmit hook e s)
      else adfsIterateFplusEntries m hook namesSize namesOffset n (entry + 1) (adfsEmit hook e s).2

/-- `adfs_iterate_fplus`. -/
def adfsIterateFplus (m : Mem) (hook : AdfsHook σ) (s : σ) : Outcome (GrubError × σ) (Bool × σ) :=
  adfsGetLe m 16 4 >>= fun entries =>
  adfsGetLe m 20 4 >>= fun namesSize =>
  adfsFplusEntryOffset m entries >>= fun namesOffset =>
  adfsIterateFplusEntries m hook namesSize namesOffset entries 0 s

/-- A read into a fresh buffer, for a walk whose hook has left `s`. -/
def adfsReadBuffer (disk : SizedDisk) (data : AdfsData) (indaddr size : ℕ) (s : σ) :
    Outcome (GrubError × σ) Mem :=
  match adfsReadObject disk data indaddr 0 size with
  | done bytes => done ⟨size, fun i => bytes.getD i 0⟩
  | failed e => failed (e, s)
  | fault => fault
  | deep => deep

/-- `adfs_iterate_dir`. -/
def adfsIterateDir (disk : SizedDisk) (data : AdfsData) (indaddr dirSize : ℕ) (hook : AdfsHook σ)
    (s : σ) : Outcome (GrubError × σ) (Bool × σ) :=
  if data.formatVersion = 0 then
    if dirSize ≠ 0 ∧ dirSize ≠ 2048 then failed (⟨.badFs, "invalid ADFS F directory size"⟩, s)
    else
      adfsReadBuffer disk data indaddr 2048 s >>= fun raw =>
      adfsFValidate raw >>= fun good =>
      if good = false then failed (⟨.badFs, "ADFS F directory checksum mismatch"⟩, s)
      else adfsIterateF raw hook 77 5 s
  else
    adfsReadBuffer disk data indaddr 28 s >>= fun header =>
    adfsFplusValidateHeader header >>= fun accepted =>
    match accepted with
    | none => failed (⟨.badFs, "malformed ADFS F+ directory header"⟩, s)
    | some size =>
      adfsReadBuffer disk data indaddr size s >>= fun raw =>
      adfsFplusValidate raw size >>= fun good =>
      if good = false then failed (⟨.badFs, "ADFS F+ directory checksum mismatch"⟩, s)
      else adfsIterateFplus raw hook s

/-! ### Accesses -/

/-- The number in `len` bytes of a buffer. -/
def adfsField (m : Mem) (p len : ℕ) : ℕ := adfsLe (fun k => m.byte (p + k)) len

section Access

variable {m : Mem}

theorem adfsGetLe_eq {p len : ℕ} (h : p + len ≤ m.len) :
    (adfsGetLe m p len : Outcome ε ℕ) = done (adfsField m p len) := by
  rw [adfsGetLe, field_of_le h, done_bind, adfsField]

theorem adfsCheckWords_done {n i check : ℕ} (h : i + 4 * n ≤ m.len) :
    ∃ check', (adfsCheckWords m n i check : Outcome ε ℕ) = done check' := by
  induction n generalizing i check with
  | zero => exact ⟨check, rfl⟩
  | succ n ih =>
    rw [adfsCheckWords, adfsGetLe_eq (by omega), done_bind]
    exact ih (by omega)

theorem adfsCheckBytes_done {n i check : ℕ} (h : i + n ≤ m.len) :
    ∃ check', (adfsCheckBytes m n i check : Outcome ε ℕ) = done check' := by
  induction n generalizing i check with
  | zero => exact ⟨check, rfl⟩
  | succ n ih =>
    rw [adfsCheckBytes, get_of_lt (by omega), done_bind]
    exact ih (by omega)

/-- The loop over the entries ends at the byte behind the last of them. -/
theorem adfsCheckEntries_done {rounds i k check : ℕ} (hlen : m.len = 2048) (hzero : m.byte 2007 = 0)
    (hk : k ≤ 77) (hi : i ≤ (5 + 26 * k) / 4 * 4) (hrounds : 77 - k < rounds) :
    ∃ r : ℕ × ℕ × ℕ, (adfsCheckEntries m rounds i (5 + 26 * k) check : Outcome ε (ℕ × ℕ × ℕ)) = done r
      ∧ r.2.1 ≤ 2007 := by
  induction rounds generalizing i k check with
  | zero => omega
  | succ rounds ih =>
    rw [adfsCheckEntries]
    obtain ⟨check', hcheck⟩ := @adfsCheckWords_done ε m (((5 + 26 * k) / 4 * 4 - i + 3) / 4) i check
      (by omega)
    rw [hcheck, done_bind, get_of_lt (by omega), done_bind]
    by_cases hlast : k = 77
    · subst hlast
      rw [if_pos hzero]
      exact ⟨_, rfl, Nat.le_refl _⟩
    · split_ifs with hb
      · exact ⟨_, rfl, by dsimp only; omega⟩
      · rw [show 5 + 26 * k + 26 = 5 + 26 * (k + 1) by omega]
        exact ih (by omega) (by omega) (by omega)

theorem adfsFCheckbyte_done (hlen : m.len = 2048) (hzero : m.byte 2007 = 0) :
    ∃ check, (adfsFCheckbyte m : Outcome ε ℕ) = done check := by
  obtain ⟨r, hr, hlast⟩ := @adfsCheckEntries_done ε m (m.len + 1) 0 0 0 hlen hzero (by omega)
    (by omega) (by omega)
  rw [adfsFCheckbyte, hr, done_bind]
  by_cases hbytes : r.1 ≤ r.2.1
  · obtain ⟨check, hcheck⟩ := @adfsCheckBytes_done ε m (r.2.1 - r.1) r.1 r.2.2 (by omega)
    obtain ⟨check', hcheck'⟩ := @adfsCheckWords_done ε m 9 2008 check (by omega)
    rw [hcheck, done_bind, hcheck', done_bind]
    exact ⟨_, rfl⟩
  · rw [Nat.sub_eq_zero_of_le (by omega), adfsCheckBytes, done_bind]
    obtain ⟨check', hcheck'⟩ := @adfsCheckWords_done ε m 9 2008 r.2.2 (by omega)
    rw [hcheck', done_bind]
    exact ⟨_, rfl⟩

theorem adfsFValidate_done (hlen : m.len = 2048) :
    ∃ good, (adfsFValidate m : Outcome ε Bool) = done good := by
  rw [adfsFValidate, get_of_lt (by omega), done_bind, get_of_lt (by omega), done_bind,
    field_of_le (by omega), done_bind]
  split_ifs with hfirst
  · exact ⟨_, rfl⟩
  rw [field_of_le (by omega), done_bind, field_of_le (by omega), done_bind]
  split_ifs
  · exact ⟨_, rfl⟩
  have hzero : m.byte 2007 = 0 := not_not.mp fun h => hfirst (Or.inr (Or.inl h))
  obtain ⟨check, hcheck⟩ := @adfsFCheckbyte_done ε m hlen hzero
  rw [hcheck, done_bind, get_of_lt (by omega), done_bind]
  exact ⟨_, rfl⟩

theorem adfsNameLen_done {de n i : ℕ} (h : de + i + n ≤ m.len) :
    ∃ nameLen, (adfsNameLen m de n i : Outcome ε ℕ) = done nameLen ∧ nameLen ≤ i + n := by
  induction n generalizing i with
  | zero => exact ⟨i, rfl, Nat.le_refl i⟩
  | succ n ih =>
    rw [adfsNameLen, get_of_lt (by omega), done_bind]
    split_ifs
    · exact ⟨i, rfl, by omega⟩
    · obtain ⟨nameLen, hname, hle⟩ := @ih (i + 1) (by omega)
      exact ⟨nameLen, hname, by omega⟩

theorem adfsEntryF_done {de : ℕ} (h : de + 26 ≤ m.len) :
    ∃ e, (adfsEntryF m de : Outcome ε AdfsEntry) = done e := by
  obtain ⟨nameLen, hname, hle⟩ := @adfsNameLen_done ε m de 10 0 (by omega)
  rw [adfsEntryF, hname, done_bind, field_of_le (by omega), done_bind, adfsGetLe_eq (by omega),
    done_bind, adfsGetLe_eq (by omega), done_bind, adfsGetLe_eq (by omega), done_bind,
    adfsGetLe_eq (by omega), done_bind, get_of_lt (by omega), done_bind]
  exact ⟨_, rfl⟩

theorem adfsIterateF_done {hook : AdfsHook σ} {n de : ℕ} {s : σ} (h : de + 26 * n ≤ m.len) :
    ∃ r, (adfsIterateF m hook n de s : Outcome ε (Bool × σ)) = done r := by
  induction n generalizing de s with
  | zero => exact ⟨_, rfl⟩
  | succ n ih =>
    rw [adfsIterateF, get_of_lt (by omega), done_bind]
    split_ifs
    · exact ⟨_, rfl⟩
    obtain ⟨e, he⟩ := @adfsEntryF_done ε m de (by omega)
    rw [he, done_bind]
    split_ifs
    · exact ⟨_, rfl⟩
    · exact ih (by omega)

/-! ### Directories of any size -/

/-- The header of a directory is accepted: what it announces fits into `size` bytes. -/
structure AdfsFplusFits (m : Mem) (size : ℕ) : Prop where
  size_eq : adfsField m 12 4 = size
  size_le : size ≤ 4 * 1024 * 1024
  name_le : adfsField m 8 4 ≤ 255
  entries_le : adfsField m 16 4 ≤ 4 * 1024 * 1024 / 28
  fits : 28 + (adfsField m 8 4 + 3) / 4 * 4 + adfsField m 16 4 * 28 + adfsField m 20 4 + 8 ≤ size

theorem adfsField_congr {m m' : Mem} {p len : ℕ}
    (h : ∀ k < len, m.byte (p + k) = m'.byte (p + k)) : adfsField m p len = adfsField m' p len := by
  rw [adfsField, adfsField]
  induction len with
  | zero => rfl
  | succ len ih =>
    rw [adfsLe, adfsLe, ih fun k hk => h k (by omega), h len (Nat.lt_succ_self len)]

theorem AdfsFplusFits.congr {m m' : Mem} {size : ℕ} (hfits : AdfsFplusFits m size)
    (h : ∀ k < 28, m.byte k = m'.byte k) : AdfsFplusFits m' size := by
  have hfield : ∀ p, p + 4 ≤ 28 → adfsField m p 4 = adfsField m' p 4 := fun p hp =>
    adfsField_congr fun k hk => h (p + k) (by omega)
  constructor
  · rw [← hfield 12 (by decide)]
    exact hfits.size_eq
  · exact hfits.size_le
  · rw [← hfield 8 (by decide)]
    exact hfits.name_le
  · rw [← hfield 16 (by decide)]
    exact hfits.entries_le
  · rw [← hfield 8 (by decide), ← hfield 16 (by decide), ← hfield 20 (by decide)]
    exact hfits.fits

theorem adfsFplusValidateHeader_spec (hlen : m.len = 28) : ∃ r,
    (adfsFplusValidateHeader m : Outcome ε (Option ℕ)) = done r
      ∧ ∀ size, r = some size → AdfsFplusFits m size := by
  rw [adfsFplusValidateHeader, adfsGetLe_eq (by omega), done_bind, adfsGetLe_eq (by omega), done_bind,
    adfsGetLe_eq (by omega), done_bind, adfsGetLe_eq (by omega), done_bind, field_of_le (by omega),
    done_bind, adfsGetLe_eq (by omega), done_bind]
  dsimp only
  split_ifs with hbad hbig
  · exact ⟨none, rfl, (fun size h => by cases h)⟩
  · exact ⟨none, rfl, (fun size h => by cases h)⟩
  · refine ⟨_, rfl, fun size h => ?_⟩
    have heq : adfsField m 12 4 = size := Option.some.inj h
    simp only [not_or, not_not, not_lt] at hbad hbig
    exact ⟨heq, by omega, by omega, by omega, by omega⟩

variable {size : ℕ} (hlen : m.len = size) (hfits : AdfsFplusFits m size)

include hlen hfits

theorem adfsFplusEntryOffset_eq {pos : ℕ} (hpos : pos ≤ adfsField m 16 4) :
    (adfsFplusEntryOffset m pos : Outcome ε ℕ)
      = done (28 + (adfsField m 8 4 + 3) / 4 * 4 + pos * 28) := by
  have hname := hfits.name_le
  have hentries := hfits.entries_le
  have hsum := hfits.fits
  have hthree : u32 (adfsField m 8 4 + 3) = adfsField m 8 4 + 3 := u32_of_lt (by omega)
  rw [adfsFplusEntryOffset, adfsGetLe_eq (by omega), done_bind, hthree, u32_of_lt (by omega)]

theorem adfsFplusCheckbyte_done : ∃ check, (adfsFplusCheckbyte m : Outcome ε ℕ) = done check := by
  have hsum := hfits.fits
  have hsize := hfits.size_le
  have hend : u32 (28 + (adfsField m 8 4 + 3) / 4 * 4 + adfsField m 16 4 * 28 + adfsField m 20 4)
      = 28 + (adfsField m 8 4 + 3) / 4 * 4 + adfsField m 16 4 * 28 + adfsField m 20 4 :=
    u32_of_lt (by omega)
  rw [adfsFplusCheckbyte, adfsGetLe_eq (by omega), done_bind,
    adfsFplusEntryOffset_eq hlen hfits (Nat.le_refl _), done_bind, adfsGetLe_eq (by omega), done_bind,
    adfsGetLe_eq (by omega), done_bind, hend, hfits.size_eq]
  obtain ⟨check, hcheck⟩ := @adfsCheckWords_done ε m ((28 + (adfsField m 8 4 + 3) / 4 * 4
    + adfsField m 16 4 * 28 + adfsField m 20 4 + 3) / 4) 0 0 (by omega)
  obtain ⟨check', hcheck'⟩ := @adfsCheckWords_done ε m 1 (size - 8) check (by omega)
  obtain ⟨check'', hcheck''⟩ := @adfsCheckBytes_done ε m 3 (size - 4) check' (by omega)
  rw [hcheck, done_bind, hcheck', done_bind, hcheck'', done_bind]
  exact ⟨_, rfl⟩

theorem adfsFplusValidate_done :
    ∃ good, (adfsFplusValidate m size : Outcome ε Bool) = done good := by
  have hsum := hfits.fits
  rw [adfsFplusValidate, adfsGetLe_eq (by omega), done_bind, field_of_le (by omega), done_bind,
    get_of_lt (by omega), done_bind]
  split_ifs
  · exact ⟨_, rfl⟩
  obtain ⟨check, hcheck⟩ := @adfsFplusCheckbyte_done ε m size hlen hfits
  rw [hcheck, done_bind]
  exact ⟨_, rfl⟩

theorem adfsIterateFplusEntries_ends {hook : AdfsHook σ} {n entry : ℕ} {s : σ}
    (hn : entry + n ≤ adfsField m 16 4) : (adfsIterateFplusEntries m hook (adfsField m 20 4)
      (28 + (adfsField m 8 4 + 3) / 4 * 4 + adfsField m 16 4 * 28) n entry s).Ends fun _ => True := by
  have hsum := hfits.fits
  induction n generalizing entry s with
  | zero => trivial
  | succ n ih =>
    rw [adfsIterateFplusEntries, adfsFplusEntryOffset_eq hlen hfits (by omega), done_bind,
      adfsGetLe_eq (by omega), done_bind, adfsGetLe_eq (by omega), done_bind]
    split_ifs with hbad
    · trivial
    simp only [not_or, not_lt] at hbad
    rw [field_of_le (by omega), done_bind, adfsGetLe_eq (by omega), done_bind, adfsGetLe_eq (by omega),
      done_bind, adfsGetLe_eq (by omega), done_bind, adfsGetLe_eq (by omega), done_bind,
      adfsGetLe_eq (by omega), done_bind]
    dsimp only
    split_ifs
    · trivial
    · exact ih (by omega)

theorem adfsIterateFplus_ends {hook : AdfsHook σ} {s : σ} :
    (adfsIterateFplus m hook s).Ends fun _ => True := by
  have hsum := hfits.fits
  rw [adfsIterateFplus, adfsGetLe_eq (by omega), done_bind, adfsGetLe_eq (by omega), done_bind,
    adfsFplusEntryOffset_eq hlen hfits (Nat.le_refl _), done_bind]
  exact adfsIterateFplusEntries_ends hlen hfits (by omega)

end Access

/-! ### Walks -/

section Walk

variable {disk : SizedDisk} {data : AdfsData} {indaddr : ℕ}

theorem adfsReadBuffer_cases {size : ℕ} {s : σ} :
    (∃ m, adfsReadBuffer disk data indaddr size s = done m ∧ m.len = size
      ∧ ∀ k < size, m.byte k = adfsByte disk data indaddr k)
    ∨ ∃ e, adfsReadBuffer disk data indaddr size s = failed (e, s) := by
  rw [adfsReadBuffer]
  rcases (@adfsReadObject_ends disk data indaddr 0 size).cases with ⟨bytes, hread, -⟩ | ⟨e, hread⟩
  · rw [hread]
    refine Or.inl ⟨_, rfl, rfl, fun k hk => ?_⟩
    rw [(adfsReadObject_iff.mp hread).2]
    dsimp only
    rw [List.getD_eq_getElem?_getD, List.getElem?_map, List.getElem?_range' hk]
    simp
  · rw [hread]
    exact Or.inr ⟨e, rfl⟩

/-- A walk over a directory ends, and stays inside the buffers, whatever is on the disc. -/
theorem adfsIterateDir_ends {dirSize : ℕ} {hook : AdfsHook σ} {s : σ} :
    (adfsIterateDir disk data indaddr dirSize hook s).Ends fun _ => True := by
  rw [adfsIterateDir]
  split_ifs with hversion hsize
  · trivial
  · rcases @adfsReadBuffer_cases σ disk data indaddr 2048 s with ⟨raw, hread, hlen, -⟩ | ⟨e, hread⟩
    · obtain ⟨good, hgood⟩ := @adfsFValidate_done (GrubError × σ) raw hlen
      rw [hread, done_bind, hgood, done_bind]
      split_ifs
      · trivial
      · obtain ⟨r, hr⟩ := @adfsIterateF_done (GrubError × σ) σ raw hook 77 5 s (by omega)
        rw [hr]
        trivial
    · rw [hread]
      trivial
  · rcases @adfsReadBuffer_cases σ disk data indaddr 28 s with
      ⟨header, hread, hlen, hbytes⟩ | ⟨e, hread⟩
    · obtain ⟨accepted, haccepted, hfits⟩ := @adfsFplusValidateHeader_spec (GrubError × σ) header hlen
      rw [hread, done_bind, haccepted, done_bind]
      cases accepted with
      | none => trivial
      | some size =>
        have hheader := hfits size rfl
        dsimp only
        rcases @adfsReadBuffer_cases σ disk data indaddr size s with
          ⟨raw, hraw, hrawlen, hrawbytes⟩ | ⟨e, hraw⟩
        · have hfits := @AdfsFplusFits.congr header raw size hheader fun k hk => by
            have hsum := hheader.fits
            rw [hbytes k hk, hrawbytes k (by omega)]
          obtain ⟨good, hgood⟩ := @adfsFplusValidate_done (GrubError × σ) raw size hrawlen hfits
          rw [hraw, done_bind, hgood, done_bind]
          split_ifs
          · trivial
          · exact adfsIterateFplus_ends hrawlen hfits
        · rw [hraw]
          trivial
    · rw [hread]
      trivial

end Walk

end FsRover
