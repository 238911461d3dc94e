import FsRover.Fs.Regfs

/-!
# Names in a key

A value that shares its name with a sub key gets a number. The number is looked for among the values
before it; a sub key, or a value behind it, may own the numbered name.

## Main definitions

* `FsRover.RegfsPlainName` : a name that is a component of a path.
* `FsRover.RegfsSettles` : the name a value gets, in terms of the values before it.
* `FsRover.RegfsClear` : no sub key and no other value owns a numbered name that is given.
* `FsRover.RegfsNamesOk` : the names of a key are unique, and each value is opened by its name.

## Main results

* `FsRover.regfsSettle_spec` : the loop ends, with the first number that is free.
* `FsRover.regfsNamesOk_iff` : when the names of a key are in order.
-/

namespace FsRover

/-! ### Numbered names -/

theorem grubTolower_decimal (n : ℕ) : (Numbered.decimal n).map grubTolower
  = Numbered.decimal n := by
  have hdigit : ∀ m < 256, 48 ≤ m → m < 58 → grubTolower (UInt8.ofNat m) = UInt8.ofNat m := by
    decide +kernel
  refine (List.map_congr_left fun b hb => ?_).trans (List.map_id _)
  obtain ⟨hle, hlt⟩ := Numbered.mem_decimal hb
  have h := hdigit b.toNat (UInt8.toNat_lt b) hle hlt
  rwa [UInt8.ofNat_toNat] at h

theorem tilde_notMem_decimal (n : ℕ) : (0x7e : UInt8) ∉ Numbered.decimal n := by
  intro h
  have hlt := (Numbered.mem_decimal h).2
  revert hlt
  decide

/-- Numbered names are the same for one name and one number only. -/
theorem sameName_numbered {a b : Name} {j k : ℕ} :
    sameName (regfsNumbered a j) (regfsNumbered b k) = true ↔ sameName a b = true ∧ j = k := by
  have htilde : grubTolower 0x7e = 0x7e := by decide
  rw [sameName_iff, sameName_iff, regfsNumbered, regfsNumbered, List.map_append, List.map_append,
    List.map_cons, List.map_cons, htilde, grubTolower_decimal, grubTolower_decimal]
  constructor
  · intro h
    obtain ⟨hname, hnumber⟩ := Numbered.split_inj (tilde_notMem_decimal j)
      (tilde_notMem_decimal k) h
    exact ⟨hname, Numbered.decimal_inj hnumber⟩
  · rintro ⟨hname, rfl⟩
    rw [hname]

theorem regfsCandidate_inj {a : Name} {j k : ℕ}
    (h : (regfsCandidate a j).map grubTolower = (regfsCandidate a k).map grubTolower) : j = k := by
  have hlength : ∀ n, a.length < (regfsNumbered a n).length := by
    intro n
    rw [regfsNumbered, List.length_append, List.length_cons]
    omega
  have hlen := congrArg List.length h
  rw [List.length_map, List.length_map] at hlen
  rw [regfsCandidate, regfsCandidate] at h hlen
  by_cases hj : j = 0
  · by_cases hk : k = 0
    · rw [hj, hk]
    · rw [if_pos hj, if_neg hk] at hlen
      have hlt := hlength k
      omega
  · by_cases hk : k = 0
    · rw [if_neg hj, if_pos hk] at hlen
      have hlt := hlength j
      omega
    · rw [if_neg hj, if_neg hk, ← sameName_iff] at h
      exact (sameName_numbered.mp h).2

/-! ### The name of a value -/

theorem pairwise_of_split {α : Type} {R : α → α → Prop} {l : List α}
    (h : ∀ xs a ys, l = xs ++ a :: ys → ∀ b ∈ ys, R a b) : l.Pairwise R := by
  induction l with
  | nil => exact List.Pairwise.nil
  | cons a l ih =>
    refine List.pairwise_cons.mpr ⟨h [] a l rfl, ih fun xs b ys hl => h (a :: xs) b ys ?_⟩
    rw [hl, List.cons_append]

/-- `name` is the name `v` gets behind the values `before`: its own, or the numbered one with the
first number that no value before it keeps as its name. -/
structure RegfsSettles (before : List RegfsValue) (v : RegfsValue) (name : Name) : Prop where
  keeps : v.collides = false → name = v.name
  numbered : v.collides = true → ∃ k, 1 ≤ k ∧ name = regfsNumbered v.name k
    ∧ (∀ j, 1 ≤ j → j < k → ∃ w ∈ before, w.collides = false
      ∧ sameName w.name (regfsNumbered v.name j) = true)
    ∧ ∀ w ∈ before, w.collides = false → sameName w.name (regfsNumbered v.name k) = false

/-- The values with the names they got. -/
def RegfsSettled : List RegfsValue → List (RegfsValue × Name) → Prop
  | _, [] => True
  | before, p :: ps => RegfsSettles before p.1 p.2 ∧ RegfsSettled (before ++ [p.1]) ps

/-- A value before keeps its name, or got a numbered one. -/
def RegfsFinal (p : RegfsValue × Name) : Prop :=
  (p.1.collides = false → p.2 = p.1.name)
    ∧ (p.1.collides = true → ∃ k, p.2 = regfsNumbered p.1.name k)

theorem RegfsSettles.final {before : List RegfsValue} {v : RegfsValue} {name : Name}
    (h : RegfsSettles before v name) : RegfsFinal (v, name) :=
  ⟨h.keeps, fun hc => (h.numbered hc).imp fun _ hk => hk.2.1⟩

/-- A numbered name of a new value is taken by a value that keeps its own. -/
theorem RegfsFinal.taken_iff {done : List (RegfsValue × Name)} (hdone : ∀ p ∈ done, RegfsFinal p)
    {v : RegfsValue} (hnew : ∀ p ∈ done, sameName p.1.name v.name = false) (k : ℕ) :
    (done.map Prod.snd).any (sameName · (regfsNumbered v.name k)) = true
      ↔ ∃ p ∈ done, p.1.collides = false ∧ sameName p.1.name (regfsNumbered v.name k) = true := by
  simp only [List.any_eq_true, List.mem_map]
  constructor
  · rintro ⟨_, ⟨p, hp, rfl⟩, hsame⟩
    cases hc : p.1.collides with
    | false =>
      rw [(hdone p hp).1 hc] at hsame
      exact ⟨p, hp, hc, hsame⟩
    | true =>
      obtain ⟨j, hj⟩ := (hdone p hp).2 hc
      rw [hj, sameName_numbered, hnew p hp] at hsame
      cases hsame.1
  · rintro ⟨p, hp, hc, hsame⟩
    exact ⟨p.2, ⟨p, hp, rfl⟩, by rwa [(hdone p hp).1 hc]⟩

theorem sameName_default_numbered (a : Name) (k : ℕ) :
    sameName (regfsNumbered a k) REGFS_DEFAULT_NAME = false := by
  rw [Bool.eq_false_iff]
  intro h
  have hmap := sameName_iff.mp h
  have hmem : (0x7e : UInt8) ∈ (regfsNumbered a k).map grubTolower := by
    refine List.mem_map.mpr ⟨0x7e, ?_, by decide⟩
    exact List.mem_append_right _ List.mem_cons_self
  rw [hmap] at hmem
  revert hmem
  decide

/-- The loop for one value ends, and settles its name. -/
theorem regfsSettle_spec {done : List (RegfsValue × Name)} (hdone : ∀ p ∈ done, RegfsFinal p)
    {v : RegfsValue} (hnew : ∀ p ∈ done, sameName p.1.name v.name = false)
    (hrecheck : v.recheck = true → sameName v.name REGFS_DEFAULT_NAME = true) :
    ∃ name, regfsSettle (done.map Prod.snd) v = some name
      ∧ RegfsSettles (done.map Prod.fst) v name := by
  have htaken := RegfsFinal.taken_iff hdone hnew
  have hends : ∀ start, ∃ n, Numbered.firstFree
      (fun k => (done.map Prod.snd).any (sameName · (regfsCandidate v.name k)))
      ((done.map Prod.snd).length + 1) start = some n := by
    intro start
    have hfree := @Numbered.firstFree_isSome (fun k => (done.map Prod.snd).any (sameName
      · (regfsCandidate v.name k))) _ (fun k => (regfsCandidate v.name k).map grubTolower)
      ((done.map Prod.snd).map (List.map grubTolower)) start (fun i j _ _ h => regfsCandidate_inj
      h) fun j hj => ?_
    · rwa [List.length_map] at hfree
    · obtain ⟨n, hn, hsame⟩ := List.any_eq_true.mp hj
      exact List.mem_map.mpr ⟨n, hn, sameName_iff.mp hsame⟩
  rw [regfsSettle]
  cases hc : v.collides with
  | true =>
    obtain ⟨n, hn⟩ := hends 1
    obtain ⟨hle, hfree, hbelow⟩ := Numbered.firstFree_spec hn
    have hcandidate : ∀ j, 1 ≤ j → regfsCandidate v.name j = regfsNumbered v.name j :=
      fun j hj => if_neg (by omega)
    simp only [Bool.true_or, if_true]
    rw [hn]
    refine ⟨_, rfl, (fun h => absurd (hc.symm.trans h) (by decide)), fun _ =>
      ⟨n, hle, hcandidate n hle, fun j hj hjn => ?_, fun w hw hkeep => ?_⟩⟩
    · have hj' := hbelow j hj hjn
      rw [hcandidate j hj] at hj'
      obtain ⟨p, hp, hkeep, hsame⟩ := (htaken j).mp hj'
      exact ⟨p.1, List.mem_map.mpr ⟨p, hp, rfl⟩, hkeep, hsame⟩
    · obtain ⟨p, hp, rfl⟩ := List.mem_map.mp hw
      rw [hcandidate n hle] at hfree
      rw [Bool.eq_false_iff]
      intro hsame
      rw [(htaken n).mpr ⟨p, hp, hkeep, hsame⟩] at hfree
      cases hfree
  | false =>
    refine ⟨v.name, ?_, ⟨fun _ => rfl, fun h => absurd (hc.symm.trans h) (by decide)⟩⟩
    cases hr : v.recheck with
    | false => rfl
    | true =>
      -- the name is free at once
      have hfree : (done.map Prod.snd).any (sameName · (regfsCandidate v.name 0)) = false := by
        rw [Bool.eq_false_iff]
        intro hany
        obtain ⟨n, hn, hsame⟩ := List.any_eq_true.mp hany
        obtain ⟨p, hp, rfl⟩ := List.mem_map.mp hn
        have hname : regfsCandidate v.name 0 = v.name := if_pos rfl
        rw [hname] at hsame
        cases hpc : p.1.collides with
        | false =>
          rw [(hdone p hp).1 hpc, hnew p hp] at hsame
          cases hsame
        | true =>
          obtain ⟨k, hk⟩ := (hdone p hp).2 hpc
          rw [hk] at hsame
          have hdefault := sameName_trans hsame (hrecheck hr)
          rw [sameName_default_numbered] at hdefault
          cases hdefault
      simp only [Bool.false_or, if_true, Numbered.firstFree, Bool.false_eq_true, if_false, hfree]
      rfl

/-! ### The names of a key -/

/-- The item of a value. -/
def regfsItem (mtime : ℤ) (p : RegfsValue × Name) : FshelpItem RegfsNode where
  name := p.2
  type := .reg
  caseInsensitive := true
  node := { cell := p.1.cell, mtime, isValue := true, isSymlink := false, size := 0 }

theorem regfsEmitValues_spec {mtime : ℤ} {values : List RegfsValue}
    (hrecheck : ∀ v ∈ values, v.recheck = true → sameName v.name REGFS_DEFAULT_NAME = true)
    {done : List (RegfsValue × Name)} (hdone : ∀ p ∈ done, RegfsFinal p)
    (hdistinct : (done.map Prod.fst ++ values).Pairwise fun v w => sameName v.name w.name = false) :
    ∃ ps, ps.map Prod.fst = values ∧ RegfsSettled (done.map Prod.fst) ps
      ∧ regfsEmitValues mtime (done.map Prod.snd) values = some (ps.map (regfsItem mtime)) := by
  induction values generalizing done with
  | nil => exact ⟨[], rfl, trivial, rfl⟩
  | cons v values ih =>
    have hnew : ∀ p ∈ done, sameName p.1.name v.name = false := fun p hp =>
      (List.pairwise_append.mp hdistinct).2.2 p.1 (List.mem_map.mpr ⟨p, hp, rfl⟩) v
        List.mem_cons_self
    obtain ⟨name, hname, hsettles⟩ := regfsSettle_spec hdone hnew (hrecheck v List.mem_cons_self)
    have hdone' : ∀ p ∈ done ++ [(v, name)], RegfsFinal p := by
      intro p hp
      rcases List.mem_append.mp hp with hp | hp
      · exact hdone p hp
      · rw [List.mem_singleton.mp hp]
        exact hsettles.final
    obtain ⟨ps, hps, hsettled, hemit⟩ := ih (fun w hw =>
      hrecheck w (List.mem_cons_of_mem v hw)) hdone'
      (by rwa [List.map_append, List.map_cons, List.map_nil, List.append_assoc,
        List.singleton_append])
    rw [List.map_append, List.map_cons, List.map_nil] at hsettled hemit
    refine ⟨(v, name) :: ps, by rw [List.map_cons, hps], ⟨hsettles, hsettled⟩, ?_⟩
    rw [regfsEmitValues, hname]
    simp only [Option.bind_eq_bind, Option.bind_some]
    rw [hemit]
    rfl

theorem RegfsSettled.of_mem {before : List RegfsValue} {ps : List (RegfsValue × Name)}
    (h : RegfsSettled before ps) {p : RegfsValue × Name} (hp : p ∈ ps) :
    ∃ mid, before ⊆ mid ∧ RegfsSettles mid p.1 p.2 := by
  induction ps generalizing before with
  | nil => cases hp
  | cons q ps ih =>
    rcases List.mem_cons.mp hp with rfl | hp
    · exact ⟨before, fun _ hv => hv, h.1⟩
    · obtain ⟨mid, hmid, hsettles⟩ := ih h.2 hp
      exact ⟨mid, fun v hv => hmid (List.mem_append_left _ hv), hsettles⟩

theorem RegfsSettled.split {before : List RegfsValue} {xs ys : List (RegfsValue × Name)}
    {p : RegfsValue × Name} (h : RegfsSettled before (xs ++ p :: ys)) :
    RegfsSettles (before ++ xs.map Prod.fst) p.1 p.2
      ∧ RegfsSettled (before ++ xs.map Prod.fst ++ [p.1]) ys := by
  induction xs generalizing before with
  | nil =>
    rw [List.map_nil, List.append_nil]
    exact h
  | cons x xs ih =>
    have hrest := ih h.2
    rwa [List.append_assoc before, List.singleton_append, ← List.map_cons] at hrest

/-- A sub key has the name of the value. -/
def RegfsClash (keys : List (FshelpItem RegfsNode)) (v : RegfsValue) : Prop :=
  ∃ key ∈ keys, sameName v.name key.name = true

/-- For each value that shares its name with a sub key, the first number that no value before it
keeps makes a name that no sub key and no other value has. -/
def RegfsClear (keys : List (FshelpItem RegfsNode)) (values : List RegfsValue) : Prop :=
  ∀ before v after, values = before ++ v :: after → RegfsClash keys v →
    ∃ k, 1 ≤ k
      ∧ (∀ j, 1 ≤ j → j < k → ∃ w ∈ before, ¬ RegfsClash keys w
        ∧ sameName w.name (regfsNumbered v.name j) = true)
      ∧ (∀ w ∈ before ++ after, ¬ RegfsClash keys w →
        sameName w.name (regfsNumbered v.name k) = false)
      ∧ ∀ key ∈ keys, sameName key.name (regfsNumbered v.name k) = false

section Unique

variable {keys : List (FshelpItem RegfsNode)} {values : List RegfsValue}
  (hclash : ∀ v ∈ values, (v.collides = true ↔ RegfsClash keys v))
include hclash

theorem RegfsClash.not_iff {v : RegfsValue} (hv : v ∈ values) :
    v.collides = false ↔ ¬ RegfsClash keys v := by
  rw [← hclash v hv, Bool.not_eq_true]

theorem RegfsSettles.name_of_clear (hclear : RegfsClear keys values)
  {before after : List RegfsValue}
    {v : RegfsValue} {name : Name} (hvalues : values = before ++ v :: after)
    (h : RegfsSettles before v name) (hc : v.collides = true) :
    (∀ w ∈ after, ¬ RegfsClash keys w → sameName w.name name = false)
      ∧ ∀ key ∈ keys, sameName key.name name = false := by
  have hmem : ∀ w ∈ before, w ∈ values := fun w hw => hvalues ▸ List.mem_append_left _ hw
  have hv : v ∈ values := hvalues ▸ List.mem_append_right _ List.mem_cons_self
  obtain ⟨k, hk, hbelow, hfree, hkeys⟩ := hclear before v after hvalues ((hclash v hv).mp hc)
  obtain ⟨n, hn, rfl, hbelow', hfree'⟩ := h.numbered hc
  rcases Nat.lt_trichotomy n k with hlt | rfl | hgt
  · obtain ⟨w, hw, hkeep, hsame⟩ := hbelow n hn hlt
    rw [hfree' w hw ((RegfsClash.not_iff hclash (hmem w hw)).mpr hkeep)] at hsame
    cases hsame
  · exact ⟨fun w hw => hfree w (List.mem_append_right _ hw), hkeys⟩
  · obtain ⟨w, hw, hkeep, hsame⟩ := hbelow' k hk hgt
    rw [hfree w (List.mem_append_left _ hw) ((RegfsClash.not_iff hclash (hmem w hw)).mp hkeep)]
      at hsame
    cases hsame

/-- The names are unique if and only if the numbered ones are clear. -/
theorem RegfsSettled.unique_iff (hkeys : keys.Pairwise fun a b => sameName a.name b.name = false)
    (hdistinct : values.Pairwise fun v w => sameName v.name w.name = false)
    {ps : List (RegfsValue × Name)} (hps : ps.map Prod.fst = values) (h : RegfsSettled [] ps) :
    (keys.map FshelpItem.name ++ ps.map Prod.snd).Pairwise (fun a b => sameName a b = false)
      ↔ RegfsClear keys values := by
  have hmem : ∀ p ∈ ps, p.1 ∈ values := fun p hp => hps ▸ List.mem_map.mpr ⟨p, hp, rfl⟩
  constructor
  · intro hunique before v after hvalues hc
    obtain ⟨xs, rest, rfl, rfl, hrest⟩ := List.map_eq_append_iff.mp (hps.trans hvalues)
    obtain ⟨p, ys, rfl, rfl, rfl⟩ := List.map_eq_cons_iff.mp hrest
    obtain ⟨-, hpairs, hkeysPairs⟩ := List.pairwise_append.mp hunique
    have hp : p ∈ xs ++ p :: ys := List.mem_append_right _ List.mem_cons_self
    have hsettles := h.split.1
    rw [List.nil_append] at hsettles
    obtain ⟨k, hk, hname, hbelow, hfree⟩ := hsettles.numbered ((hclash p.1 (hmem p hp)).mpr hc)
    have hxs : ∀ w ∈ xs.map Prod.fst, w ∈ values := fun w hw => hvalues ▸ List.mem_append_left _ hw
    refine ⟨k, hk, fun j hj hjk => ?_, fun w hw hkeep => ?_, fun key hkey => ?_⟩
    · obtain ⟨w, hw, hkeep, hsame⟩ := hbelow j hj hjk
      exact ⟨w, hw, (RegfsClash.not_iff hclash (hxs w hw)).mp hkeep, hsame⟩
    · rcases List.mem_append.mp hw with hw | hw
      · exact hfree w hw ((RegfsClash.not_iff hclash (hxs w hw)).mpr hkeep)
      · obtain ⟨q, hq, rfl⟩ := List.mem_map.mp hw
        have hq' : q ∈ xs ++ p :: ys := List.mem_append_right _ (List.mem_cons_of_mem _ hq)
        obtain ⟨mid, -, hq''⟩ := h.of_mem hq'
        have hqname := hq''.keeps ((RegfsClash.not_iff hclash (hmem q hq')).mpr hkeep)
        rw [List.map_append, List.map_cons] at hpairs
        have hpq := (List.pairwise_cons.mp (List.pairwise_append.mp hpairs).2.1).1 q.2
          (List.mem_map.mpr ⟨q, hq, rfl⟩)
        rwa [hname, hqname, sameName_comm] at hpq
    · have hkp := hkeysPairs key.name (List.mem_map.mpr ⟨key, hkey, rfl⟩) p.2
        (List.mem_map.mpr ⟨p, hp, rfl⟩)
      rwa [hname] at hkp
  · intro hclear
    refine List.pairwise_append.mpr ⟨List.pairwise_map.mpr hkeys, ?_, ?_⟩
    · rw [List.pairwise_map]
      refine pairwise_of_split fun xs p ys heq q hq => ?_
      obtain ⟨hp, hrest⟩ := (heq ▸ h).split
      rw [List.nil_append] at hp hrest
      have hvalues : values = xs.map Prod.fst ++ p.1 :: ys.map Prod.fst := by
        rw [← hps, heq, List.map_append, List.map_cons]
      have hpq : sameName p.1.name q.1.name = false := by
        rw [hvalues] at hdistinct
        exact (List.pairwise_cons.mp (List.pairwise_append.mp hdistinct).2.1).1 q.1
          (List.mem_map.mpr ⟨q, hq, rfl⟩)
      obtain ⟨mid, hmid, hq'⟩ := hrest.of_mem hq
      have hpmid : p.1 ∈ mid := hmid (List.mem_append_right _ List.mem_cons_self)
      have hqvalues : q.1 ∈ values := hmem q (heq ▸ List.mem_append_right _
        (List.mem_cons_of_mem _ hq))
      cases hpc : p.1.collides with
      | false =>
        cases hqc : q.1.collides with
        | false => rwa [hp.keeps hpc, hq'.keeps hqc]
        | true =>
          obtain ⟨k, -, hqname, -, hfree⟩ := hq'.numbered hqc
          rw [hp.keeps hpc, hqname]
          exact hfree p.1 hpmid hpc
      | true =>
        cases hqc : q.1.collides with
        | false =>
          have hlater := (hp.name_of_clear hclash hclear hvalues hpc).1 q.1
            (List.mem_map.mpr ⟨q, hq, rfl⟩) ((RegfsClash.not_iff hclash hqvalues).mp hqc)
          rwa [hq'.keeps hqc, sameName_comm]
        | true =>
          obtain ⟨j, -, hpname, -⟩ := hp.numbered hpc
          obtain ⟨k, -, hqname, -⟩ := hq'.numbered hqc
          rw [hpname, hqname, Bool.eq_false_iff]
          intro hsame
          rw [(sameName_numbered.mp hsame).1] at hpq
          cases hpq
    · intro a ha b hb
      obtain ⟨key, hkey, rfl⟩ := List.mem_map.mp ha
      obtain ⟨p, hp, rfl⟩ := List.mem_map.mp hb
      obtain ⟨xs, ys, heq⟩ := List.append_of_mem hp
      have hsettles := (heq ▸ h).split.1
      rw [List.nil_append] at hsettles
      have hvalues : values = xs.map Prod.fst ++ p.1 :: ys.map Prod.fst := by
        rw [← hps, heq, List.map_append, List.map_cons]
      cases hpc : p.1.collides with
      | false =>
        rw [hsettles.keeps hpc, Bool.eq_false_iff]
        intro hsame
        rw [sameName_comm] at hsame
        exact (RegfsClash.not_iff hclash (hmem p hp)).mp hpc ⟨key, hkey, hsame⟩
      | true => exact (hsettles.name_of_clear hclash hclear hvalues hpc).2 key hkey

end Unique

/-! ### Shown names -/

/-- A name that is a component of a path. -/
structure RegfsPlainName (name : Name) : Prop where
  ne_nil : name ≠ []
  slash_notMem : 0x2f ∉ name
  ne_dot : name ≠ [0x2e]
  ne_up : name ≠ [0x2e, 0x2e]

theorem regfsHex_ne_slash (d : UInt8) (hd : d < 16) : regfsHex d ≠ 0x2f := by
  have hall : ∀ n < 16, regfsHex (UInt8.ofNat n) ≠ 0x2f := by decide
  have h := hall d.toNat hd
  rwa [UInt8.ofNat_toNat] at h

theorem slash_notMem_escape (c : UInt8) (force : Bool) : 0x2f ∉ regfsEscape c force := by
  have hhigh : c >>> (4 : UInt8) < 16 := by
    have hall : ∀ n < 256, UInt8.ofNat n >>> (4 : UInt8) < 16 := by decide +kernel
    have h := hall c.toNat (UInt8.toNat_lt c)
    rwa [UInt8.ofNat_toNat] at h
  have hlow : c &&& 0xf < 16 := by
    have hall : ∀ n < 256, UInt8.ofNat n &&& 0xf < 16 := by decide +kernel
    have h := hall c.toNat (UInt8.toNat_lt c)
    rwa [UInt8.ofNat_toNat] at h
  rw [regfsEscape]
  by_cases hc : (regfsMustEscape c || force) = true
  · rw [if_pos hc]
    intro hmem
    simp only [List.mem_cons, List.not_mem_nil, or_false] at hmem
    rcases hmem with h | h | h
    · exact absurd h (by decide)
    · exact regfsHex_ne_slash _ hhigh h.symm
    · exact regfsHex_ne_slash _ hlow h.symm
  · rw [if_neg hc, List.mem_singleton]
    rintro rfl
    exact hc (by rw [show regfsMustEscape 0x2f = true by decide, Bool.true_or])

theorem regfsEscape_ne_nil (c : UInt8) (force : Bool) : regfsEscape c force ≠ [] := by
  rw [regfsEscape]
  split <;> exact List.cons_ne_nil _ _

theorem regfsEscape_eq_dot {c : UInt8} {force : Bool} {rest : Name}
    (h : ∃ tail, regfsEscape c force ++ rest = 0x2e :: tail) :
    c = 0x2e ∧ regfsEscape c force = [0x2e] := by
  obtain ⟨tail, h⟩ := h
  rw [regfsEscape] at h ⊢
  by_cases hc : (regfsMustEscape c || force) = true
  · rw [if_pos hc] at h
    exact absurd (List.cons.inj h).1 (by decide)
  · rw [if_neg hc] at h ⊢
    rw [(List.cons.inj h).1]
    exact ⟨rfl, rfl⟩

theorem regfsShow_plain {utf8 : List UInt8} (h : regfsShow utf8 ≠ []) :
    RegfsPlainName (regfsShow utf8) := by
  rw [regfsShow] at h ⊢
  cases hstring : utf8.takeWhile (· ≠ 0) with
  | nil =>
    rw [hstring] at h
    exact absurd rfl h
  | cons c cs =>
    simp only
    have hslash : 0x2f ∉ cs.flatMap (regfsEscape · false) := by
      intro hmem
      obtain ⟨b, -, hb⟩ := List.mem_flatMap.mp hmem
      exact slash_notMem_escape b false hb
    refine ⟨fun hnil => ?_, fun hmem => ?_, fun hdot => ?_, fun hup => ?_⟩
    · exact regfsEscape_ne_nil c _ (List.append_eq_nil_iff.mp hnil).1
    · exact (List.mem_append.mp hmem).elim (slash_notMem_escape c _) hslash
    · obtain ⟨rfl, hc⟩ := regfsEscape_eq_dot ⟨_, hdot⟩
      rw [hc] at hdot
      cases cs with
      | nil => exact absurd hc (by decide)
      | cons d ds =>
        have hrest : (d :: ds).flatMap (regfsEscape · false) = [] := (List.cons.inj hdot).2
        rw [List.flatMap_cons] at hrest
        exact regfsEscape_ne_nil d _ (List.append_eq_nil_iff.mp hrest).1
    · obtain ⟨rfl, hc⟩ := regfsEscape_eq_dot ⟨_, hup⟩
      rw [hc] at hup
      have hrest : cs.flatMap (regfsEscape · false) = [0x2e] := (List.cons.inj hup).2
      cases cs with
      | nil => exact absurd hrest (List.cons_ne_nil _ _).symm
      | cons d ds =>
        rw [List.flatMap_cons] at hrest
        obtain ⟨rfl, hd⟩ := regfsEscape_eq_dot ⟨_, hrest⟩
        rw [hd] at hrest
        cases ds with
        | nil => exact absurd hc (by decide)
        | cons e es =>
          have hnil : (e :: es).flatMap (regfsEscape · false) = [] := (List.cons.inj hrest).2
          rw [List.flatMap_cons] at hnil
          exact regfsEscape_ne_nil e _ (List.append_eq_nil_iff.mp hnil).1

theorem RegfsPlainName.numbered {name : Name} (h : RegfsPlainName name) (k : ℕ) :
    RegfsPlainName (regfsNumbered name k) := by
  have htilde : (0x7e : UInt8) ∈ regfsNumbered name k :=
    List.mem_append_right _ List.mem_cons_self
  refine ⟨List.ne_nil_of_mem htilde, fun hmem => ?_, fun heq => ?_, fun heq => ?_⟩
  · rcases List.mem_append.mp hmem with hmem | hmem
    · exact h.slash_notMem hmem
    · rcases List.mem_cons.mp hmem with heq | hmem
      · exact absurd heq (by decide)
      · have hle := (Numbered.mem_decimal hmem).1
        revert hle
        decide
  · rw [heq] at htilde
    revert htilde
    decide
  · rw [heq] at htilde
    revert htilde
    decide

theorem regfsName_plain {raw : Buf} {size : ℕ} {comp : Bool} (h : regfsName raw size comp ≠ []) :
    RegfsPlainName (regfsName raw size comp) := by
  cases comp with
  | true => exact regfsShow_plain h
  | false => exact regfsShow_plain h

theorem regfsReadValue_spec {data : RegfsData} {cell : ℕ} {v : RegfsValue}
    (h : regfsReadValue data cell = some v) :
    RegfsPlainName v.name ∧ v.recheck = sameName v.name REGFS_DEFAULT_NAME := by
  rw [regfsReadValue] at h
  split at h
  · cases h
  · next vk len _ =>
    split at h
    · cases h
    · obtain rfl := Option.some.inj h
      refine ⟨?_, rfl⟩
      simp only
      split
      · exact ⟨by decide, by decide, by decide, by decide⟩
      · next hname => exact regfsName_plain hname

theorem regfsKeyEntries_spec {data : RegfsData} {cell : ℕ} {v : RegfsValue}
    (hv : v ∈ (regfsKeyEntries data cell).2.1) :
    RegfsPlainName v.name ∧ v.recheck = sameName v.name REGFS_DEFAULT_NAME
      ∧ (v.collides = true ↔ RegfsClash (regfsKeyEntries data cell).1 v) := by
  rw [regfsKeyEntries] at hv ⊢
  split at hv
  · cases hv
  · next nk len _ =>
    split at hv
    · cases hv
    · next hnk =>
      rw [if_neg hnk]
      obtain ⟨w, hw, rfl⟩ := List.mem_map.mp hv
      have hread : ∃ c, regfsReadValue data c = some w := by
        rw [regfsReadValues] at hw
        split at hw
        · cases hw
        · split at hw
          · cases hw
          · obtain ⟨i, -, hi⟩ := List.mem_filterMap.mp hw
            exact ⟨_, hi⟩
      obtain ⟨c, hc⟩ := hread
      obtain ⟨hplain, hrecheck⟩ := regfsReadValue_spec hc
      exact ⟨hplain, hrecheck, List.any_eq_true⟩

theorem regfsWalkSubkeys_spec {data : RegfsData} {depth off : ℕ} {item : FshelpItem RegfsNode}
    (h : item ∈ regfsWalkSubkeys data depth off) :
    item.caseInsensitive = true ∧ item.node.isValue = false := by
  induction depth generalizing off with
  | zero => cases h
  | succ depth ih =>
    rw [regfsWalkSubkeys] at h
    simp only at h
    split at h
    · cases h
    · split at h
      · cases h
      · split at h
        · cases h
        · obtain ⟨i, -, hi⟩ := List.mem_flatMap.mp h
          split at hi
          · exact ih hi
          · rw [Option.mem_toList, regfsEmitKey] at hi
            split at hi
            · cases hi
            · split at hi
              · cases hi
              · obtain rfl := Option.some.inj hi
                exact ⟨rfl, rfl⟩

theorem regfsKeyEntries_keys {data : RegfsData} {cell : ℕ} {item : FshelpItem RegfsNode}
    (h : item ∈ (regfsKeyEntries data cell).1) :
    item.caseInsensitive = true ∧ item.node.isValue = false := by
  rw [regfsKeyEntries] at h
  split at h
  · cases h
  · split at h
    · cases h
    · exact regfsWalkSubkeys_spec h

/-! ### Listing and opening -/

variable {ν : Type}

theorem find_of_unique {items : List (FshelpItem ν)}
    (hunique : items.Pairwise fun a b => sameName a.name b.name = false)
    (hcase : ∀ item ∈ items, item.caseInsensitive = true) {item : FshelpItem ν}
    (hitem : item ∈ items) : items.find? (FshelpItem.found item.name) = some item := by
  induction items with
  | nil => cases hitem
  | cons head tail ih =>
    obtain ⟨hhead, htail⟩ := List.pairwise_cons.mp hunique
    rcases List.mem_cons.mp hitem with rfl | hitem
    · rw [List.find?_cons_of_pos]
      rw [FshelpItem.found, if_pos (hcase item List.mem_cons_self)]
      exact sameName_refl _
    · rw [List.find?_cons_of_neg]
      · exact ih htail (fun i hi => hcase i (List.mem_cons_of_mem _ hi)) hitem
      · rw [FshelpItem.found, if_pos (hcase head List.mem_cons_self), sameName_comm,
          hhead item hitem]
        exact Bool.false_ne_true

/-- The path leads to the key in `cell`. -/
def RegfsReaches (data : RegfsData) (path : Name) (cell : ℕ) : Prop :=
  (path = [] ∨ path.head? = some 0x2f) ∧ ∃ node parents, node.cell = cell
    ∧ fshelpWalk (regfsIterate data) (fshelpComponents path) ((regfsRootNode data, .dir), [])
      = .ok ((node, .dir), parents)

/-- What is listed for the key in `cell`: the loop ends, the names are unique, the sub keys come
with their own, the values follow, and each is opened by its name. -/
def RegfsNamesOk (data : RegfsData) (cell : ℕ) : Prop :=
  ∃ items, regfsIterateDir data cell = some ((regfsKeyEntries data cell).1 ++ items)
    ∧ ((regfsKeyEntries data cell).1 ++ items).Pairwise (fun a b => sameName a.name b.name = false)
    ∧ items.map (fun item => item.node.cell) = (regfsKeyEntries data cell).2.1.map RegfsValue.cell
    ∧ ∀ path, RegfsReaches data path cell → ∀ item ∈ items,
      fshelpFindFile (regfsIterate data) (regfsRootNode data) (path ++ 0x2f :: item.name) .reg
          = .ok item.node
        ∧ regfsOpen data (path ++ 0x2f :: item.name) = regfsOpenValue data item.node.cell

theorem regfsIterateDir_spec (data : RegfsData) (cell : ℕ)
    (hvalues : (regfsKeyEntries data cell).2.1.Pairwise fun v w => sameName v.name w.name = false) :
    ∃ ps, ps.map Prod.fst = (regfsKeyEntries data cell).2.1 ∧ RegfsSettled [] ps
      ∧ regfsIterateDir data cell = some ((regfsKeyEntries data cell).1
        ++ ps.map (regfsItem (regfsKeyEntries data cell).2.2)) := by
  obtain ⟨ps, hps, hsettled, hemit⟩ := @regfsEmitValues_spec ((regfsKeyEntries data cell).2.2) _
    (fun v hv hr => by rw [← (regfsKeyEntries_spec hv).2.1, hr]) [] (fun p hp => by cases hp)
    hvalues
  refine ⟨ps, hps, hsettled, ?_⟩
  rw [List.map_nil] at hemit
  rw [regfsIterateDir]
  simp only [hemit, Option.bind_eq_bind, Option.bind_some]

theorem RegfsSettles.plain {before : List RegfsValue} {v : RegfsValue} {name : Name}
    (h : RegfsSettles before v name) (hv : RegfsPlainName v.name) : RegfsPlainName name := by
  cases hc : v.collides with
  | false => rwa [h.keeps hc]
  | true =>
    obtain ⟨k, -, rfl, -⟩ := h.numbered hc
    exact hv.numbered k

theorem regfsFind_of_reaches {data : RegfsData} {path : Name} {cell : ℕ}
    (hpath : RegfsReaches data path cell) {items : List (FshelpItem RegfsNode)}
    (hiterate : regfsIterateDir data cell = some items) {item : FshelpItem RegfsNode}
    (hfind : items.find? (FshelpItem.found item.name) = some item)
      (hplain : RegfsPlainName item.name)
    (hreg : item.type = .reg) :
    fshelpFindFile (regfsIterate data) (regfsRootNode data) (path ++ 0x2f :: item.name) .reg
      = .ok item.node := by
  obtain ⟨hroot, node, parents, rfl, hwalk⟩ := hpath
  have hhead : (path ++ 0x2f :: item.name).head? = some 0x2f := by
    rcases hroot with rfl | hroot
    · rfl
    · rw [List.head?_append, hroot]
      rfl
  have hitems : regfsIterate data node = items := by rw [regfsIterate, hiterate, Option.getD_some]
  have hlast : fshelpWalk (regfsIterate data) [item.name] ((node, .dir), parents)
      = .ok ((item.node, .reg), (node, .dir) :: parents) := by
    simp only [fshelpWalk, ne_eq, not_true_eq_false, if_false, hplain.ne_dot, hplain.ne_up, hitems,
      hfind, hreg, reduceCtorEq]
  rw [fshelpFindFile, if_neg (not_not.mpr hhead),
    fshelpComponents_append path hplain.ne_nil hplain.slash_notMem, fshelpWalk_append, hwalk,
    Except.bind, hlast]
  rfl

/-- The names of a key whose sub keys and whose values have distinct names are in order if and only
if the numbered ones are clear of the sub keys and of all other values. -/
theorem regfsNamesOk_iff (data : RegfsData) (cell : ℕ)
    (hkeys : (regfsKeyEntries data cell).1.Pairwise fun a b => sameName a.name b.name = false)
    (hvalues : (regfsKeyEntries data cell).2.1.Pairwise fun v w => sameName v.name w.name = false) :
    RegfsNamesOk data cell
      ↔ RegfsClear (regfsKeyEntries data cell).1 (regfsKeyEntries data cell).2.1 := by
  obtain ⟨ps, hps, hsettled, hiterate⟩ := regfsIterateDir_spec data cell hvalues
  have hunique := RegfsSettled.unique_iff (fun v hv => (regfsKeyEntries_spec hv).2.2) hkeys hvalues
    hps hsettled
  have hnames : ((regfsKeyEntries data cell).1
        ++ ps.map (regfsItem (regfsKeyEntries data cell).2.2)).map FshelpItem.name
      = (regfsKeyEntries data cell).1.map FshelpItem.name ++ ps.map Prod.snd := by
    rw [List.map_append, List.map_map]
    rfl
  rw [← hunique, ← hnames, List.pairwise_map]
  constructor
  · rintro ⟨items, hitems, hpairs, -⟩
    rw [hiterate] at hitems
    rwa [Option.some.inj hitems]
  · intro hpairs
    refine ⟨_, hiterate, hpairs, ?_, fun path hpath item hitem => ?_⟩
    · rw [← hps, List.map_map, List.map_map]
      rfl
    · have hcase : ∀ i ∈ (regfsKeyEntries data cell).1
          ++ ps.map (regfsItem (regfsKeyEntries data cell).2.2), i.caseInsensitive = true := by
        intro i hi
        rcases List.mem_append.mp hi with hi | hi
        · exact (regfsKeyEntries_keys hi).1
        · obtain ⟨p, -, rfl⟩ := List.mem_map.mp hi
          rfl
      have hfind := find_of_unique hpairs hcase (List.mem_append_right _ hitem)
      obtain ⟨p, hp, rfl⟩ := List.mem_map.mp hitem
      obtain ⟨mid, -, hsettles⟩ := hsettled.of_mem hp
      have hv : p.1 ∈ (regfsKeyEntries data cell).2.1 := hps ▸ List.mem_map.mpr ⟨p, hp, rfl⟩
      have hopen := regfsFind_of_reaches hpath hiterate hfind
        (hsettles.plain (regfsKeyEntries_spec hv).1) rfl
      refine ⟨hopen, ?_⟩
      rw [regfsOpen, hopen]
      rfl

/-! ### A key whose numbered name is taken -/

/-- The fields of a cell: its size negated, and its record. -/
def regfsCellFields (cell size : ℕ) (fields : List (ℕ × List UInt8)) : List (ℕ × List UInt8) :=
  (REGFS_HBINS_BASE + cell, [UInt8.ofNat (256 - size), 0xff, 0xff, 0xff])
    :: fields.map fun field => (REGFS_HBINS_BASE + cell + 4 + field.1, field.2)

/-- A hive whose root has the sub keys "a" and "a~", with one more character, and the value "a",
which holds `len` bytes in its record. -/
def regfsClashDisk (last len : UInt8) : Buf := Buf.ofFields <|
  [(0, [0x72, 0x65, 0x67, 0x66]), (20, [1]), (24, [5]), (32, [1]), (36, [32]), (41, [0x10]),
    (0x1000, [0x68, 0x62, 0x69, 0x6e])]
  ++ regfsCellFields 32 80 [(0, [0x6e, 0x6b]), (28, [24, 1]), (36, [1]), (40, [48, 1])]
  ++ regfsCellFields 112 84 [(0, [0x6e, 0x6b, 0x20]), (28, [0xff, 0xff, 0xff, 0xff]), (72, [1]),
    (76, [0x61])]
  ++ regfsCellFields 196 84 [(0, [0x6e, 0x6b, 0x20]), (28, [0xff, 0xff, 0xff, 0xff]), (72, [3]),
    (76, [0x61, 0x7e, last])]
  ++ regfsCellFields 280 24 [(0, [0x6c, 0x66, 2, 0, 112]), (12, [196])]
  ++ regfsCellFields 304 8 [(0, [56, 1])]
  ++ regfsCellFields 312 28 [(0, [0x76, 0x6b, 1]), (4, [len, 0, 0, 0x80, 0x58]), (16, [1]),
    (20, [0x61])]

/-- The hive mounted. -/
def regfsClashHive (last len : UInt8) : RegfsData where
  disk := regfsClashDisk last len
  rootCell := 32
  hbinsSize := 0x1000
  cellExtra := 0
  mtime := -(REGFS_EPOCH_BIAS : ℤ)

/-- With the sub key "a~1" the value is listed as "a~1", too. -/
theorem regfsNamesOk_clash :
    (regfsMount (regfsClashDisk 0x31 1) none).toOption.map RegfsData.hbinsSize = some 0x1000
      ∧ ¬ ∀ (data : RegfsData) (cell : ℕ),
        (regfsKeyEntries data cell).1.Pairwise (fun a b => sameName a.name b.name = false) →
        (regfsKeyEntries data cell).2.1.Pairwise (fun v w => sameName v.name w.name = false) →
        RegfsNamesOk data cell := by
  refine ⟨by decide, fun h => ?_⟩
  obtain ⟨items, hitems, hpairs, -⟩ := h (regfsClashHive 0x31 1) 32 (by decide)
    (by decide)
  have hlisted : (regfsIterateDir (regfsClashHive 0x31 1) 32).map (List.map FshelpItem.name)
      = some [[0x61], [0x61, 0x7e, 0x31], [0x61, 0x7e, 0x31]] := by decide
  rw [hitems, Option.map_some, Option.some.injEq] at hlisted
  rw [← List.pairwise_map (f := FshelpItem.name) (R := fun a b => sameName a b = false), hlisted]
    at hpairs
  exact absurd hpairs (by decide)

/-- With the sub key "a~2" the names are unique. -/
theorem regfsNamesOk_unclashed : RegfsNamesOk (regfsClashHive 0x32 1) 32 := by
  refine (regfsNamesOk_iff _ _ (by decide) (by decide)).mpr ?_
  have hkeys : (regfsKeyEntries (regfsClashHive 0x32 1) 32).1.map FshelpItem.name
      = [[0x61], [0x61, 0x7e, 0x32]] := by decide
  have hvalues : (regfsKeyEntries (regfsClashHive 0x32 1) 32).2.1.map
    RegfsValue.name = [[0x61]] := by
    decide
  obtain ⟨v, hv, hname⟩ := List.map_eq_singleton_iff.mp hvalues
  intro before w after hsplit hclash
  rw [hv] at hsplit
  obtain ⟨rfl, rfl, rfl⟩ : before = [] ∧ w = v ∧ after = [] := by
    cases before with
    | nil =>
      obtain ⟨hw, hafter⟩ := List.cons.inj hsplit
      exact ⟨rfl, hw.symm, hafter.symm⟩
    | cons b before => exact absurd (List.cons.inj hsplit).2 (by simp)
  refine ⟨1, Nat.le_refl _, fun j hj hj' => absurd hj' (by omega), (fun u hu => by cases hu),
    fun key hkey => ?_⟩
  have hmem : key.name ∈ [[0x61], [0x61, 0x7e, 0x32]] := hkeys ▸ List.mem_map.mpr ⟨key, hkey, rfl⟩
  rw [hname]
  revert hmem
  generalize key.name = name
  revert name
  decide

end FsRover
