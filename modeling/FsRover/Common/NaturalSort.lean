import FsRover.Common.Decimal
import FsRover.Lib.Sign
import Mathlib.Data.List.Sort
import Mathlib.Data.Sum.Order

/-!
# The order of names

`natural_compare` orders the names that are listed: a run of digits is compared as a number, other
bytes without regard to the case of ASCII letters. A C string is the list of the bytes before its
end.

## Main definitions

* `FsRover.naturalTokens`, `FsRover.naturalDetails` : what is compared first, and what breaks ties.

## Main results

* `FsRover.naturalCompare_eq_sign` : the function compares tokens, then details.
* `FsRover.dirents_sorted_unique` : a directory is shown in one order.
-/

namespace FsRover

open Sign

/-! ### The function -/

/-- `digit_run`. -/
def digitRun (text : Name) : ℕ := (text.takeWhile isDigit).length

/-- The zeros in front of a run of digits; the last digit does not count. -/
def naturalZeroes : Name → ℕ
  | [] => 0
  | [_] => 0
  | c :: d :: run => if c = 0x30 then naturalZeroes (d :: run) + 1 else 0

/-- The sign of `memcmp` of two runs of one length. -/
def naturalMemcmp : Name → Name → ℤ
  | c :: left, d :: right =>
    if c = d then naturalMemcmp left right else if c < d then -1 else 1
  | _, _ => 0

/-- An ASCII letter in lower case. -/
def naturalFold (c : UInt8) : UInt8 := if 0x41 ≤ c ∧ c ≤ 0x5a then c + 0x20 else c

/-- Two runs of digits without the zeros in front: the longer one is greater. -/
def naturalRuns (left right : Name) : ℤ :=
  if left.length ≠ right.length then if left.length < right.length then -1 else 1
  else naturalMemcmp left right

theorem length_dropWhile_lt {c : UInt8} {text : Name} (h : 0 < digitRun (c :: text)) :
    ((c :: text).drop (digitRun (c :: text))).length < (c :: text).length := by
  rw [List.length_drop, List.length_cons]
  omega

/-- The loop of `natural_compare`; `tie` is the difference that is remembered. -/
def naturalLoop (tie : ℤ) (left right : Name) : ℤ :=
  match left, right with
  | [], [] => tie
  | _ :: _, [] => 1
  | [], _ :: _ => -1
  | l :: ls, r :: rs =>
    let leftDigits := digitRun (l :: ls)
    let rightDigits := digitRun (r :: rs)
    if h : 0 < leftDigits ∧ 0 < rightDigits then
      let leftRun := (l :: ls).take leftDigits
      let rightRun := (r :: rs).take rightDigits
      let leftZeroes := naturalZeroes leftRun
      let rightZeroes := naturalZeroes rightRun
      let result := naturalRuns (leftRun.drop leftZeroes) (rightRun.drop rightZeroes)
      if result ≠ 0 then result
      else
        naturalLoop
          (if tie = 0 ∧ leftZeroes ≠ rightZeroes then if leftZeroes < rightZeroes then -1 else 1
            else tie)
          ((l :: ls).drop leftDigits) ((r :: rs).drop rightDigits)
    else if leftDigits ≠ rightDigits then if leftDigits ≠ 0 then -1 else 1
    else if naturalFold l ≠ naturalFold r then if naturalFold l < naturalFold r then -1 else 1
    else naturalLoop (if tie = 0 ∧ l ≠ r then if l < r then -1 else 1 else tie) ls rs
  termination_by left.length
  decreasing_by
    · exact length_dropWhile_lt h.1
    · exact Nat.lt_succ_self _

/-- `natural_compare`. -/
def naturalCompare (left right : Name) : ℤ := naturalLoop 0 left right

/-- `natural_less`. -/
def naturalLess (left right : Name) : Bool := naturalCompare left right < 0

/-! ### Tokens -/

/-- A number, or a byte without its case; numbers come first. -/
abbrev NaturalToken := ℕ ⊕ₗ ℕ

def NaturalToken.number (value : ℕ) : NaturalToken := toLex (.inl value)

def NaturalToken.byte (c : UInt8) : NaturalToken := toLex (.inr (naturalFold c).toNat)

/-- The numbers and the bytes of a name. -/
def naturalTokens (text : Name) : List NaturalToken :=
  match text with
  | [] => []
  | c :: rest =>
    if h : 0 < digitRun (c :: rest) then
      .number (decimalValue ((c :: rest).take (digitRun (c :: rest))))
        :: naturalTokens ((c :: rest).drop (digitRun (c :: rest)))
    else .byte c :: naturalTokens rest
  termination_by text.length
  decreasing_by
    · exact length_dropWhile_lt h
    · exact Nat.lt_succ_self _

/-- What the tokens do not say: the zeros in front of a number, and a byte as it is. -/
def naturalDetails (text : Name) : List ℕ :=
  match text with
  | [] => []
  | c :: rest =>
    if h : 0 < digitRun (c :: rest) then
      naturalZeroes ((c :: rest).take (digitRun (c :: rest)))
        :: naturalDetails ((c :: rest).drop (digitRun (c :: rest)))
    else c.toNat :: naturalDetails rest
  termination_by text.length
  decreasing_by
    · exact length_dropWhile_lt h
    · exact Nat.lt_succ_self _

/-! ### Runs of digits -/

theorem digitRun_pos_iff {c : UInt8} (rest : Name) :
    0 < digitRun (c :: rest) ↔ isDigit c = true := by
  rw [digitRun, List.takeWhile_cons]
  split_ifs with h <;> simp [h]

theorem take_digitRun (text : Name) : text.take (digitRun text) = text.takeWhile isDigit :=
  (List.prefix_iff_eq_take.mp (List.takeWhile_prefix isDigit)).symm

theorem isDigit_of_mem_take {text : Name} : ∀ c ∈ text.take (digitRun text), isDigit c = true := by
  rw [take_digitRun]
  exact List.all_eq_true.mp List.all_takeWhile

theorem take_digitRun_ne_nil {c : UInt8} (rest : Name) (h : isDigit c = true) :
    (c :: rest).take (digitRun (c :: rest)) ≠ [] := by
  rw [take_digitRun, List.takeWhile_cons_of_pos h]
  exact List.cons_ne_nil _ _

/-- A run of digits without zeros in front. -/
structure Significant (run : Name) : Prop where
  digits : ∀ c ∈ run, isDigit c = true
  ne_nil : run ≠ []
  head : ∀ c d rest, run = c :: d :: rest → c ≠ 0x30

theorem significant_drop {run : Name} (hdigits : ∀ c ∈ run, isDigit c = true) (hne : run ≠ []) :
    Significant (run.drop (naturalZeroes run)) ∧
      decimalValue (run.drop (naturalZeroes run)) = decimalValue run ∧
      run = List.replicate (naturalZeroes run) 0x30 ++ run.drop (naturalZeroes run) := by
  induction run using naturalZeroes.induct with
  | case1 => exact absurd rfl hne
  | case2 c =>
    refine ⟨⟨hdigits, hne, fun _ _ _ h => ?_⟩, rfl, rfl⟩
    simp [naturalZeroes] at h
  | case3 d run ih =>
    obtain ⟨hsig, hvalue, hrun⟩ := ih (fun c hc => hdigits c (List.mem_cons_of_mem _ hc))
      (List.cons_ne_nil d run)
    rw [naturalZeroes, if_pos rfl, List.drop_succ_cons]
    refine ⟨hsig, ?_, ?_⟩
    · rw [hvalue]
      simp [decimalValue]
    · rw [List.replicate_succ, List.cons_append, ← hrun]
  | case4 c d run hc =>
    rw [naturalZeroes, if_neg hc]
    refine ⟨⟨hdigits, hne, ?_⟩, rfl, rfl⟩
    rintro c' d' rest heq
    obtain rfl := (List.cons.inj heq).1
    exact hc

theorem Significant.le_decimalValue {run : Name} (h : Significant run) (hlong : 1 < run.length) :
    10 ^ (run.length - 1) ≤ decimalValue run := by
  cases run with
  | nil => exact absurd rfl h.ne_nil
  | cons c run =>
    cases run with
    | nil => exact absurd hlong (Nat.lt_irrefl 1)
    | cons d run =>
      have hc := isDigit_iff.mp (h.digits c List.mem_cons_self)
      have hne : c.toNat ≠ 0x30 := fun heq => h.head c d run rfl (UInt8.toNat_inj.mp heq)
      have hmul : 1 * 10 ^ (d :: run).length ≤ (c.toNat - 0x30) * 10 ^ (d :: run).length :=
        Nat.mul_le_mul_right _ (by omega)
      rw [decimalValue, List.length_cons, Nat.add_sub_cancel]
      omega

/-- Runs of one length are compared by value, and differ if their values do not. -/
theorem naturalMemcmp_eq_sign {left right : Name} (hleft : ∀ c ∈ left, isDigit c = true)
    (hright : ∀ c ∈ right, isDigit c = true) (hlength : left.length = right.length) :
    naturalMemcmp left right = sign (decimalValue left) (decimalValue right)
      ∧ (naturalMemcmp left right = 0 → left = right) := by
  induction left generalizing right with
  | nil =>
    obtain rfl := List.length_eq_zero_iff.mp hlength.symm
    exact ⟨(sign_self _).symm, fun _ => rfl⟩
  | cons c left ih =>
    cases right with
    | nil => cases hlength
    | cons d right =>
      have hrest := ih (fun e he => hleft e (List.mem_cons_of_mem c he))
        (fun e he => hright e (List.mem_cons_of_mem d he)) (Nat.succ.inj hlength)
      have hc := isDigit_iff.mp (hleft c List.mem_cons_self)
      have hd := isDigit_iff.mp (hright d List.mem_cons_self)
      have hlt := decimalValue_lt fun e he => hleft e (List.mem_cons_of_mem c he)
      have hlt' := decimalValue_lt fun e he => hright e (List.mem_cons_of_mem d he)
      rw [← Nat.succ.inj hlength] at hlt'
      by_cases heq : c = d
      · subst heq
        rw [naturalMemcmp, if_pos rfl, decimalValue, decimalValue, ← Nat.succ.inj hlength]
        refine ⟨hrest.1.trans (sign_congr (by omega) (by omega)), fun h => ?_⟩
        rw [hrest.2 h]
      · rw [naturalMemcmp, if_neg heq, decimalValue, decimalValue, ← Nat.succ.inj hlength]
        have hne : c.toNat ≠ d.toNat := fun h => heq (UInt8.toNat_inj.mp h)
        by_cases hcd : c < d
        · have hcd' : c.toNat < d.toNat := UInt8.lt_iff_toNat_lt.mp hcd
          have hmul : (c.toNat - 0x30 + 1) * 10 ^ left.length
              ≤ (d.toNat - 0x30) * 10 ^ left.length := Nat.mul_le_mul_right _ (by omega)
          rw [Nat.add_mul, Nat.one_mul] at hmul
          rw [if_pos hcd]
          exact ⟨(sign_of_lt (by omega)).symm, by omega⟩
        · have hcd' : d.toNat < c.toNat := by
            have := UInt8.lt_iff_toNat_lt.not.mp hcd
            omega
          have hmul : (d.toNat - 0x30 + 1) * 10 ^ left.length
              ≤ (c.toNat - 0x30) * 10 ^ left.length := Nat.mul_le_mul_right _ (by omega)
          rw [Nat.add_mul, Nat.one_mul] at hmul
          rw [if_neg hcd]
          exact ⟨(sign_of_gt (by omega)).symm, by omega⟩

theorem naturalRuns_eq_sign {left right : Name} (hleft : Significant left)
    (hright : Significant right) :
    naturalRuns left right = sign (decimalValue left) (decimalValue right)
      ∧ (naturalRuns left right = 0 → left = right) := by
  have hpos := List.length_pos_iff.mpr hleft.ne_nil
  have hpos' := List.length_pos_iff.mpr hright.ne_nil
  have hlt := decimalValue_lt hleft.digits
  have hlt' := decimalValue_lt hright.digits
  rw [naturalRuns]
  by_cases hlength : left.length = right.length
  · rw [if_neg fun h => h hlength]
    exact naturalMemcmp_eq_sign hleft.digits hright.digits hlength
  · rw [if_pos hlength]
    by_cases hshort : left.length < right.length
    · have hle := hright.le_decimalValue (by omega)
      have hpow : 10 ^ left.length ≤ 10 ^ (right.length - 1) :=
        Nat.pow_le_pow_right (by decide) (by omega)
      rw [if_pos hshort]
      exact ⟨(sign_of_lt (by omega)).symm, by omega⟩
    · have hle := hleft.le_decimalValue (by omega)
      have hpow : 10 ^ right.length ≤ 10 ^ (left.length - 1) :=
        Nat.pow_le_pow_right (by decide) (by omega)
      rw [if_neg hshort]
      exact ⟨(sign_of_gt (by omega)).symm, by omega⟩

/-! ### Tokens first, then details -/

@[simp] theorem sign_number (v w : ℕ) :
    sign (NaturalToken.number v) (NaturalToken.number w) = sign v w :=
  sign_congr Sum.Lex.inl_lt_inl_iff Sum.Lex.inl_lt_inl_iff

theorem number_inj {v w : ℕ} : NaturalToken.number v = NaturalToken.number w ↔ v = w := by
  rw [← Sign.sign_eq_zero_iff, sign_number, Sign.sign_eq_zero_iff]

theorem number_lt_byte (v : ℕ) (c : UInt8) : NaturalToken.number v < NaturalToken.byte c :=
  Sum.Lex.inl_lt_inr v _

theorem sign_byte (c d : UInt8) : sign (NaturalToken.byte c) (NaturalToken.byte d)
    = sign (naturalFold c).toNat (naturalFold d).toNat :=
  sign_congr Sum.Lex.inr_lt_inr_iff Sum.Lex.inr_lt_inr_iff

theorem byte_inj {c d : UInt8} :
    NaturalToken.byte c = NaturalToken.byte d ↔ naturalFold c = naturalFold d := by
  rw [← Sign.sign_eq_zero_iff, sign_byte, Sign.sign_eq_zero_iff, UInt8.toNat_inj]

/-- The number and the zeros at the front of a name, and what follows. -/
theorem naturalTokens_digit {c : UInt8} {rest : Name} (h : isDigit c = true) :
    naturalTokens (c :: rest)
      = .number (decimalValue ((c :: rest).take (digitRun (c :: rest))))
        :: naturalTokens ((c :: rest).drop (digitRun (c :: rest)))
    ∧ naturalDetails (c :: rest)
      = naturalZeroes ((c :: rest).take (digitRun (c :: rest)))
        :: naturalDetails ((c :: rest).drop (digitRun (c :: rest))) := by
  rw [naturalTokens, naturalDetails, dif_pos ((digitRun_pos_iff _).mpr h),
    dif_pos ((digitRun_pos_iff _).mpr h)]
  exact ⟨rfl, rfl⟩

theorem naturalTokens_byte {c : UInt8} {rest : Name} (h : ¬ isDigit c = true) :
    naturalTokens (c :: rest) = .byte c :: naturalTokens rest
      ∧ naturalDetails (c :: rest) = c.toNat :: naturalDetails rest := by
  rw [naturalTokens, naturalDetails, dif_neg fun hpos => h ((digitRun_pos_iff _).mp hpos),
    dif_neg fun hpos => h ((digitRun_pos_iff _).mp hpos)]
  exact ⟨rfl, rfl⟩

/-- The difference that is remembered goes before those of the rest. -/
theorem tie_sign (tie : ℤ) {α : Type*} [LinearOrder α] (a b : α) (as bs : List α) :
    (if (if tie = 0 ∧ a ≠ b then sign a b else tie) = 0 then sign as bs
      else if tie = 0 ∧ a ≠ b then sign a b else tie)
      = if tie = 0 then sign (a :: as) (b :: bs) else tie := by
  by_cases htie : tie = 0
  · by_cases heq : a = b
    · simp [htie, heq, sign_cons]
    · have hne : sign a b ≠ 0 := fun h => heq (Sign.sign_eq_zero_iff.mp h)
      simp [htie, heq, sign_cons, hne]
  · simp [htie]

theorem sign_toNat (c d : UInt8) (h : c ≠ d) : (if c < d then (-1 : ℤ) else 1)
    = sign c.toNat d.toNat := by
  rw [sign_of_ne fun heq => h (UInt8.toNat_inj.mp heq)]
  simp only [UInt8.lt_iff_toNat_lt]

/-- What the loop compares: tokens, the difference that is remembered, details. -/
def naturalSign (tie : ℤ) (left right : Name) : ℤ :=
  if naturalTokens left = naturalTokens right then
    if tie = 0 then sign (naturalDetails left) (naturalDetails right) else tie
  else sign (naturalTokens left) (naturalTokens right)

/-- One token on each side: different ones decide, equal ones leave their details behind. -/
theorem naturalSign_cons {left right left' right' : Name} {t u : NaturalToken} {d e : ℕ} (tie : ℤ)
    (hleft : naturalTokens left = t :: naturalTokens left'
      ∧ naturalDetails left = d :: naturalDetails left')
    (hright : naturalTokens right = u :: naturalTokens right'
      ∧ naturalDetails right = e :: naturalDetails right') :
    naturalSign tie left right = if t = u then
      naturalSign (if tie = 0 ∧ d ≠ e then sign d e else tie) left' right' else sign t u := by
  rw [naturalSign, hleft.1, hleft.2, hright.1, hright.2, sign_cons t u]
  by_cases htu : t = u
  · subst htu
    rw [if_pos rfl, if_pos rfl, naturalSign, tie_sign]
    simp only [List.cons.injEq, true_and]
  · rw [if_neg htu, if_neg htu, if_neg fun h => htu (List.cons.inj h).1]

/-- The two runs of digits at the fronts of the names are compared. -/
theorem naturalLoop_digits {l r : UInt8} {ls rs : Name} (hl : isDigit l = true)
    (hr : isDigit r = true) (tie : ℤ) :
    let left := l :: ls
    let right := r :: rs
    let leftRun := left.take (digitRun left)
    let rightRun := right.take (digitRun right)
    naturalLoop tie left right =
      if naturalRuns (leftRun.drop (naturalZeroes leftRun))
        (rightRun.drop (naturalZeroes rightRun)) ≠ 0 then
        naturalRuns (leftRun.drop (naturalZeroes leftRun)) (rightRun.drop (naturalZeroes rightRun))
      else
        naturalLoop
          (if tie = 0 ∧ naturalZeroes leftRun ≠ naturalZeroes rightRun then
            if naturalZeroes leftRun < naturalZeroes rightRun then -1 else 1
          else tie)
          (left.drop (digitRun left)) (right.drop (digitRun right)) := by
  intro left right leftRun rightRun
  rw [naturalLoop]
  exact dif_pos ⟨(digitRun_pos_iff _).mpr hl, (digitRun_pos_iff _).mpr hr⟩

theorem digitRun_eq_zero {c : UInt8} (rest : Name) (h : ¬ isDigit c = true) :
    digitRun (c :: rest) = 0 := by
  rw [← digitRun_pos_iff rest] at h
  omega

theorem naturalSign_nil_cons (tie : ℤ) (c : UInt8) (rest : Name) :
    naturalSign tie [] (c :: rest) = -1 ∧ naturalSign tie (c :: rest) [] = 1 := by
  have hnil : naturalTokens [] = [] := by rw [naturalTokens]
  obtain ⟨t, ts, hcons⟩ : ∃ t ts, naturalTokens (c :: rest) = t :: ts := by
    by_cases hc : isDigit c = true
    · exact ⟨_, _, (naturalTokens_digit hc).1⟩
    · exact ⟨_, _, (naturalTokens_byte hc).1⟩
  rw [naturalSign, naturalSign, hnil, hcons, if_neg (List.cons_ne_nil t ts).symm,
    if_neg (List.cons_ne_nil t ts)]
  exact ⟨sign_nil_cons t ts, sign_cons_nil t ts⟩

/-- The loop compares the names token by token and remembers the first difference in a detail. -/
theorem naturalLoop_eq (tie : ℤ) (left right : Name) :
    naturalLoop tie left right = naturalSign tie left right := by
  match left, right with
  | [], [] => simp [naturalLoop, naturalSign, naturalTokens, naturalDetails]
  | l :: ls, [] => rw [naturalLoop, (naturalSign_nil_cons tie l ls).2]
  | [], r :: rs => rw [naturalLoop, (naturalSign_nil_cons tie r rs).1]
  | l :: ls, r :: rs =>
    by_cases hl : isDigit l = true
    · have hldigits : 0 < digitRun (l :: ls) := (digitRun_pos_iff _).mpr hl
      by_cases hr : isDigit r = true
      · -- two numbers
        have hleft := significant_drop isDigit_of_mem_take (take_digitRun_ne_nil ls hl)
        have hright := significant_drop isDigit_of_mem_take (take_digitRun_ne_nil rs hr)
        have hruns := (naturalRuns_eq_sign hleft.1 hright.1).1
        rw [hleft.2.1, hright.2.1] at hruns
        rw [naturalLoop_digits hl hr, naturalSign_cons tie (naturalTokens_digit hl)
          (naturalTokens_digit hr)]
        by_cases hvalue : decimalValue ((l :: ls).take (digitRun (l :: ls)))
            = decimalValue ((r :: rs).take (digitRun (r :: rs)))
        · rw [if_pos (number_inj.mpr hvalue), if_neg fun h => h (hruns.trans
            (Sign.sign_eq_zero_iff.mpr hvalue)), naturalLoop_eq]
          congr 1
          by_cases hzeroes : naturalZeroes ((l :: ls).take (digitRun (l :: ls)))
              = naturalZeroes ((r :: rs).take (digitRun (r :: rs)))
          · rw [if_neg fun h => h.2 hzeroes, if_neg fun h => h.2 hzeroes]
          · rw [sign_of_ne hzeroes]
        · have hne : sign _ _ ≠ 0 := fun h => hvalue (Sign.sign_eq_zero_iff.mp h)
          rw [if_neg fun h => hvalue (number_inj.mp h), if_pos (hruns ▸ hne), hruns, sign_number]
      · -- a number against a byte
        have hrdigits := digitRun_eq_zero rs hr
        have hlt := number_lt_byte (decimalValue ((l :: ls).take (digitRun (l :: ls)))) r
        rw [naturalSign_cons tie (naturalTokens_digit hl) (naturalTokens_byte hr), if_neg hlt.ne,
          sign_of_lt hlt, naturalLoop]
        simp only [hrdigits]
        rw [dif_neg fun h => absurd h.2 (Nat.lt_irrefl 0), if_pos hldigits.ne', if_pos hldigits.ne']
    · have hldigits := digitRun_eq_zero ls hl
      by_cases hr : isDigit r = true
      · -- a byte against a number
        have hrdigits : 0 < digitRun (r :: rs) := (digitRun_pos_iff _).mpr hr
        have hlt := number_lt_byte (decimalValue ((r :: rs).take (digitRun (r :: rs)))) l
        rw [naturalSign_cons tie (naturalTokens_byte hl) (naturalTokens_digit hr), if_neg hlt.ne',
          sign_of_gt hlt, naturalLoop]
        simp only [hldigits]
        rw [dif_neg fun h => absurd h.1 (Nat.lt_irrefl 0), if_pos hrdigits.ne,
          if_neg fun h => h rfl]
      · -- two bytes
        have hrdigits := digitRun_eq_zero rs hr
        rw [naturalSign_cons tie (naturalTokens_byte hl) (naturalTokens_byte hr), naturalLoop]
        simp only [hldigits, hrdigits]
        rw [dif_neg fun h => absurd h.1 (Nat.lt_irrefl 0), if_neg fun h => h rfl]
        by_cases hfold : naturalFold l = naturalFold r
        · rw [if_neg fun h => h hfold, if_pos (byte_inj.mpr hfold), naturalLoop_eq]
          congr 1
          by_cases heq : l = r
          · rw [if_neg fun h => h.2 heq, if_neg fun h => h.2 (congrArg UInt8.toNat heq)]
          · simp only [sign_toNat l r heq, ne_eq, heq, UInt8.toNat_inj]
        · rw [if_pos hfold, if_neg fun h => hfold (byte_inj.mp h), sign_byte, sign_toNat _ _ hfold]
  termination_by left.length
  decreasing_by
    · exact length_dropWhile_lt hldigits
    · exact Nat.lt_succ_self _

/-- A run of digits is determined by its value and the zeros in front. -/
theorem take_digitRun_inj {l r : UInt8} {ls rs : Name} (hl : isDigit l = true)
    (hr : isDigit r = true)
    (hvalue : decimalValue ((l :: ls).take (digitRun (l :: ls)))
      = decimalValue ((r :: rs).take (digitRun (r :: rs))))
    (hzeroes : naturalZeroes ((l :: ls).take (digitRun (l :: ls)))
      = naturalZeroes ((r :: rs).take (digitRun (r :: rs)))) :
    (l :: ls).take (digitRun (l :: ls)) = (r :: rs).take (digitRun (r :: rs)) := by
  obtain ⟨hleft, hleftValue, hleftRun⟩ :=
    significant_drop isDigit_of_mem_take (take_digitRun_ne_nil ls hl)
  obtain ⟨hright, hrightValue, hrightRun⟩ :=
    significant_drop isDigit_of_mem_take (take_digitRun_ne_nil rs hr)
  obtain ⟨hruns, heq⟩ := naturalRuns_eq_sign hleft hright
  rw [hleftValue, hrightValue, hvalue, sign_self] at hruns
  rw [hleftRun, hrightRun, hzeroes, ← heq hruns, hzeroes]

theorem eq_of_naturalTokens {left right : Name} (htokens : naturalTokens left = naturalTokens right)
    (hdetails : naturalDetails left = naturalDetails right) : left = right := by
  match left, right with
  | [], [] => rfl
  | l :: ls, [] =>
    have hsign := (naturalSign_nil_cons 0 l ls).2
    rw [naturalSign, if_pos htokens, if_pos rfl, hdetails, sign_self] at hsign
    cases hsign
  | [], r :: rs =>
    have hsign := (naturalSign_nil_cons 0 r rs).1
    rw [naturalSign, if_pos htokens, if_pos rfl, hdetails, sign_self] at hsign
    cases hsign
  | l :: ls, r :: rs =>
    by_cases hl : isDigit l = true
    · have hldigits : 0 < digitRun (l :: ls) := (digitRun_pos_iff _).mpr hl
      rw [(naturalTokens_digit hl).1] at htokens
      rw [(naturalTokens_digit hl).2] at hdetails
      by_cases hr : isDigit r = true
      · rw [(naturalTokens_digit hr).1] at htokens
        rw [(naturalTokens_digit hr).2] at hdetails
        obtain ⟨htoken, htokens⟩ := List.cons.inj htokens
        obtain ⟨hdetail, hdetails⟩ := List.cons.inj hdetails
        have hrest := eq_of_naturalTokens htokens hdetails
        have hrun := take_digitRun_inj hl hr (number_inj.mp htoken) hdetail
        rw [← List.take_append_drop (digitRun (l :: ls)) (l :: ls), hrun, hrest,
          List.take_append_drop]
      · rw [(naturalTokens_byte hr).1] at htokens
        exact absurd (List.cons.inj htokens).1 (number_lt_byte _ r).ne
    · rw [(naturalTokens_byte hl).1] at htokens
      rw [(naturalTokens_byte hl).2] at hdetails
      by_cases hr : isDigit r = true
      · rw [(naturalTokens_digit hr).1] at htokens
        exact absurd (List.cons.inj htokens).1 (number_lt_byte _ l).ne'
      · rw [(naturalTokens_byte hr).1] at htokens
        rw [(naturalTokens_byte hr).2] at hdetails
        rw [eq_of_naturalTokens (List.cons.inj htokens).2 (List.cons.inj hdetails).2,
          UInt8.toNat_inj.mp (List.cons.inj hdetails).1]
  termination_by left.length
  decreasing_by
    · exact length_dropWhile_lt hldigits
    · exact Nat.lt_succ_self _

/-- What two names are compared by. -/
def naturalKey (name : Name) : List NaturalToken ×ₗ List ℕ :=
  toLex (naturalTokens name, naturalDetails name)

theorem naturalKey_inj {left right : Name} : naturalKey left = naturalKey right ↔ left = right :=
  ⟨fun h => eq_of_naturalTokens (congrArg (fun key => (ofLex key).1) h)
    (congrArg (fun key => (ofLex key).2) h), congrArg naturalKey⟩

/-- The function is the comparison of the keys. -/
theorem naturalCompare_eq_sign (left right : Name) :
    naturalCompare left right = sign (naturalKey left) (naturalKey right) := by
  rw [naturalCompare, naturalLoop_eq, naturalSign, naturalKey, naturalKey, sign_lex]
  by_cases h : naturalTokens left = naturalTokens right
  · rw [if_pos h, if_pos h, if_pos rfl]
  · rw [if_neg h, if_neg h]

/-- `natural_less` is the strict order of the keys. -/
theorem naturalLess_iff (left right : Name) :
    naturalLess left right = true ↔ naturalKey left < naturalKey right := by
  rw [naturalLess, decide_eq_true_iff, naturalCompare_eq_sign, sign_neg_iff]

/-- `natural_compare` is a strict total order that compares the tokens first. -/
theorem naturalCompare_total_order (a b c : Name) :
    naturalCompare a b = -naturalCompare b a
      ∧ (naturalCompare a b = 0 ↔ a = b)
      ∧ (naturalCompare a b < 0 → naturalCompare b c < 0 → naturalCompare a c < 0)
      ∧ (naturalTokens a ≠ naturalTokens b →
        naturalCompare a b = sign (naturalTokens a) (naturalTokens b)) := by
  simp only [naturalCompare_eq_sign]
  refine ⟨sign_swap _ _, Sign.sign_eq_zero_iff.trans naturalKey_inj, sign_trans, fun hne => ?_⟩
  rw [naturalKey, naturalKey, sign_lex, if_neg hne]

/-! ### Directories -/

/-- The order of `main.cpp` and `backend.cpp` for the entries of a directory, given as whether they
are directories and their names. -/
def direntLess (a b : Bool × Name) : Bool := if a.1 ≠ b.1 then a.1 else naturalLess a.2 b.2

theorem direntLess_iff (a b : Bool × Name) :
    direntLess a b = true ↔ toLex (!a.1, naturalKey a.2) < toLex (!b.1, naturalKey b.2) := by
  rw [direntLess, Prod.Lex.toLex_lt_toLex]
  by_cases h : a.1 = b.1
  · rw [if_neg (not_not.mpr h), h, naturalLess_iff]
    exact ⟨fun hlt => .inr ⟨rfl, hlt⟩, fun hlt => (hlt.resolve_left (lt_irrefl _)).2⟩
  · rw [if_pos h]
    cases ha : a.1 <;> cases hb : b.1 <;> simp_all

/-- Whatever order a driver lists a directory in, and however the entries are sorted, their names are
shown in one order. -/
theorem dirents_sorted_unique {α : Type*} (entry : α → Bool × Name) {l l' : List α}
    (hperm : l.Perm l') (h : l.Pairwise fun a b => direntLess (entry b) (entry a) = false)
    (h' : l'.Pairwise fun a b => direntLess (entry b) (entry a) = false) :
    l.map entry = l'.map entry := by
  refine (hperm.map entry).eq_of_pairwise (fun a b _ _ hab hba => ?_)
    (List.pairwise_map (R := fun a b => direntLess b a = false) |>.mpr h) (List.pairwise_map.mpr h')
  have hle : ∀ {x y}, direntLess y x = false →
      toLex (!x.1, naturalKey x.2) ≤ toLex (!y.1, naturalKey y.2) := fun hxy =>
    not_lt.mp fun hlt => by simp [(direntLess_iff _ _).mpr hlt] at hxy
  obtain ⟨hdir, hkey⟩ := Prod.mk.inj (toLex.injective (le_antisymm (hle hab) (hle hba)))
  exact Prod.ext (Bool.not_inj hdir) (naturalKey_inj.mp hkey)

theorem dirents_sorted_unique_two :
    [(1 : ℕ), 2].map (fun _ => (false, ([97] : Name))) = [2, 1].map fun _ => (false, [97]) := by
  have hself : naturalLess [97] [97] = false := by
    simp [naturalLess, naturalCompare_eq_sign, Sign.sign_self]
  exact dirents_sorted_unique _ (.swap 2 1 []) (by simp [direntLess, hself])
    (by simp [direntLess, hself])

end FsRover
