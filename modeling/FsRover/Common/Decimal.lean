import FsRover.Fs.Fshelp

/-!
# Decimal numerals

Numbers in the texts that the front ends read and write.

## Main definitions

* `FsRover.isDigit`, `FsRover.decimalValue` : digits, and the value of a run of them.
* `FsRover.toText` : `std::to_string` of a 64-bit number.
* `FsRover.parseNumber` : `parse_number`, which is exact at the 64-bit limit.
-/

namespace FsRover

/-- `*text >= '0' && *text <= '9'`. -/
def isDigit (c : UInt8) : Bool := 0x30 ≤ c && c ≤ 0x39

theorem isDigit_iff {c : UInt8} : isDigit c = true ↔ 0x30 ≤ c.toNat ∧ c.toNat ≤ 0x39 := by
  simp [isDigit, UInt8.le_iff_toNat_le]

/-- The value of a run of digits. -/
def decimalValue : Name → ℕ
  | [] => 0
  | c :: run => (c.toNat - 0x30) * 10 ^ run.length + decimalValue run

@[simp] theorem decimalValue_nil : decimalValue [] = 0 := rfl

theorem decimalValue_concat (run : Name) (c : UInt8) :
    decimalValue (run ++ [c]) = decimalValue run * 10 + (c.toNat - 0x30) := by
  induction run with
  | nil => simp [decimalValue]
  | cons d run ih =>
    rw [List.cons_append, decimalValue, decimalValue, ih, List.length_append, List.length_singleton,
      Nat.pow_succ, Nat.add_mul, Nat.mul_assoc, Nat.add_assoc]

theorem decimalValue_lt {run : Name} (hdigits : ∀ c ∈ run, isDigit c = true) :
    decimalValue run < 10 ^ run.length := by
  induction run with
  | nil => exact Nat.one_pos
  | cons c run ih =>
    have hc := isDigit_iff.mp (hdigits c List.mem_cons_self)
    have hrun := ih fun d hd => hdigits d (List.mem_cons_of_mem c hd)
    have hmul : (c.toNat - 0x30) * 10 ^ run.length ≤ 9 * 10 ^ run.length :=
      Nat.mul_le_mul_right _ (by omega)
    rw [decimalValue, List.length_cons, Nat.pow_succ]
    omega

/-! ### Numbers as texts -/

/-- The digits of a number that has at most `width` of them. -/
def decimalText : ℕ → ℕ → Name
  | 0, _ => []
  | width + 1, n =>
    if n < 10 then [UInt8.ofNat (0x30 + n)]
    else decimalText width (n / 10) ++ [UInt8.ofNat (0x30 + n % 10)]

/-- `std::to_string` of an `unsigned long long`, which has at most 20 digits. -/
def toText (n : ℕ) : Name := decimalText 20 n

/-- A run of digits whose value fits in 64 bits. -/
structure IsNumeral (text : Name) : Prop where
  ne_nil : text ≠ []
  digits : ∀ c ∈ text, isDigit c = true
  lt : decimalValue text < 2 ^ 64

theorem toNat_digit {d : ℕ} (hd : d < 10) : (UInt8.ofNat (0x30 + d)).toNat = 0x30 + d := by
  rw [UInt8.toNat_ofNat']
  omega

theorem decimalText_digit {d : ℕ} (hd : d < 10) :
    (∀ c ∈ [UInt8.ofNat (0x30 + d)], isDigit c = true)
      ∧ decimalValue [UInt8.ofNat (0x30 + d)] = d := by
  constructor
  · intro c hc
    rw [List.mem_singleton.mp hc, isDigit_iff, toNat_digit hd]
    omega
  · rw [decimalValue, toNat_digit hd, List.length_nil, decimalValue_nil]
    omega

theorem decimalText_spec {width n : ℕ} (hn : n < 10 ^ (width + 1)) :
    decimalText (width + 1) n ≠ [] ∧ (∀ c ∈ decimalText (width + 1) n, isDigit c = true)
      ∧ decimalValue (decimalText (width + 1) n) = n := by
  induction width generalizing n with
  | zero =>
    rw [Nat.zero_add, Nat.pow_one] at hn
    rw [decimalText, if_pos hn]
    exact ⟨List.cons_ne_nil _ _, decimalText_digit hn⟩
  | succ width ih =>
    rw [decimalText]
    split_ifs with hsmall
    · exact ⟨List.cons_ne_nil _ _, decimalText_digit hsmall⟩
    · have hmod : n % 10 < 10 := Nat.mod_lt n (by decide)
      have hdiv : n / 10 < 10 ^ (width + 1) := by
        rw [Nat.pow_succ] at hn
        exact Nat.div_lt_of_lt_mul (by omega)
      obtain ⟨-, hdigits, hvalue⟩ := ih hdiv
      refine ⟨by simp, fun c hc => ?_, ?_⟩
      · rcases List.mem_append.mp hc with hc | hc
        · exact hdigits c hc
        · exact (decimalText_digit hmod).1 c hc
      · rw [decimalValue_concat, hvalue, toNat_digit hmod]
        omega

theorem toText_spec {n : ℕ} (hn : n < 2 ^ 64) :
    IsNumeral (toText n) ∧ decimalValue (toText n) = n := by
  obtain ⟨hne, hdigits, hvalue⟩ := decimalText_spec (show n < 10 ^ (19 + 1) by omega)
  exact ⟨⟨hne, hdigits, lt_of_eq_of_lt hvalue hn⟩, hvalue⟩

theorem IsNumeral.notMem {text : Name} (h : IsNumeral text) {c : UInt8}
    (hc : isDigit c = false) : c ∉ text := by
  intro hmem
  rw [h.digits c hmem] at hc
  cases hc

/-! ### Texts as numbers -/

def ULLONG_MAX : ℕ := 2 ^ 64 - 1

/-- The loop of `parse_number`. -/
def parseDigits (result : ℕ) : Name → Option ℕ
  | [] => some result
  | c :: rest =>
    if c < 0x30 ∨ 0x39 < c ∨ (ULLONG_MAX - (c.toNat - 0x30)) / 10 < result then none
    else parseDigits (result * 10 + (c.toNat - 0x30)) rest

/-- `parse_number`. -/
def parseNumber (text : Name) : Option ℕ :=
  if text = [] then none else parseDigits 0 text

/-- The loop goes on as long as there are digits and the value fits in 64 bits. -/
theorem parseDigits_eq_some_iff {result v : ℕ} {text : Name} (hresult : result < 2 ^ 64) :
    parseDigits result text = some v ↔ (∀ c ∈ text, isDigit c = true)
      ∧ result * 10 ^ text.length + decimalValue text = v ∧ v < 2 ^ 64 := by
  induction text generalizing result with
  | nil =>
    simp only [parseDigits, Option.some.injEq, List.length_nil, Nat.pow_zero, Nat.mul_one,
      decimalValue_nil, Nat.add_zero]
    exact ⟨fun h => ⟨by simp, h, h ▸ hresult⟩, fun h => h.2.1⟩
  | cons c rest ih =>
    rw [parseDigits]
    have hpos : 0 < 10 ^ rest.length := Nat.pow_pos (by decide)
    by_cases hdigit : isDigit c = true
    · have hc := isDigit_iff.mp hdigit
      have hvalue : (result * 10 + (c.toNat - 0x30)) * 10 ^ rest.length + decimalValue rest
          = result * 10 ^ (c :: rest).length + decimalValue (c :: rest) := by
        rw [decimalValue, List.length_cons, Nat.pow_succ, Nat.add_mul, Nat.add_assoc,
          Nat.mul_assoc, Nat.mul_comm 10]
      have hlow : ¬ c < 0x30 := by
        rw [UInt8.lt_iff_toNat_lt]
        exact Nat.not_lt.mpr hc.1
      have hhigh : ¬ 0x39 < c := by
        rw [UInt8.lt_iff_toNat_lt]
        exact Nat.not_lt.mpr hc.2
      by_cases hfits : (ULLONG_MAX - (c.toNat - 0x30)) / 10 < result
      · -- already the next value is too large
        rw [if_pos (.inr (.inr hfits))]
        refine iff_of_false (fun h => by cases h) ?_
        rintro ⟨-, rfl, hlt⟩
        have hmul := Nat.le_mul_of_pos_right (result * 10 + (c.toNat - 0x30)) hpos
        rw [ULLONG_MAX] at hfits
        omega
      · rw [if_neg (by simp only [hlow, hhigh, hfits, or_self, not_false_eq_true]),
          ih (by rw [ULLONG_MAX] at hfits; omega), hvalue]
        simp only [List.mem_cons, forall_eq_or_imp, hdigit, true_and]
    · rw [if_pos]
      · refine iff_of_false (fun h => by cases h) fun h => hdigit (h.1 c List.mem_cons_self)
      · rw [isDigit_iff] at hdigit
        rw [UInt8.lt_iff_toNat_lt, UInt8.lt_iff_toNat_lt]
        change c.toNat < 0x30 ∨ 0x39 < c.toNat ∨ _
        omega

/-- `parse_number` accepts the numerals up to the 64-bit limit. -/
theorem parseNumber_eq_some_iff {text : Name} {v : ℕ} :
    parseNumber text = some v ↔ IsNumeral text ∧ decimalValue text = v := by
  rw [parseNumber]
  by_cases hnil : text = []
  · rw [if_pos hnil]
    exact iff_of_false (fun h => by cases h) fun h => h.1.ne_nil hnil
  · rw [if_neg hnil, parseDigits_eq_some_iff (by decide), Nat.zero_mul, Nat.zero_add]
    constructor
    · rintro ⟨hdigits, rfl, hlt⟩
      exact ⟨⟨hnil, hdigits, hlt⟩, rfl⟩
    · rintro ⟨h, rfl⟩
      exact ⟨h.digits, rfl, h.lt⟩

theorem parseNumber_toText {n : ℕ} (hn : n < 2 ^ 64) : parseNumber (toText n) = some n :=
  parseNumber_eq_some_iff.mpr (toText_spec hn)

end FsRover
