import Mathlib.Data.List.Basic
import Mathlib.Data.List.TakeWhile

/-!
# Reading a number: `strtoull`

The function of the C library in base 10, on the characters of a string before its NUL. Blanks and
a sign may precede the digits. A number that does not fit is an error, and a minus sign negates the
number as an unsigned word. `converts_iff` says which strings are read to their end.
-/

namespace Strtoull

/-- `isspace`. -/
def isSpace (c : UInt8) : Bool := c == 32 || (9 ≤ c && c ≤ 13)

/-- The digits of base 10. -/
def isDigit (c : UInt8) : Bool := 48 ≤ c && c ≤ 57

/-- The number that digits stand for. -/
def number (digits : List UInt8) : Nat :=
  digits.foldl (fun n c => 10 * n + (c.toNat - 48)) 0

/-- Whether there is a minus sign, and what is behind the sign. -/
def splitSign : List UInt8 → Bool × List UInt8
  | [] => (false, [])
  | c :: cs =>
      if c = 45 then (true, cs)
      else if c = 43 then (false, cs)
      else (false, c :: cs)

/-- What a call says: the value, whether `errno` is `ERANGE`, and how many characters it read. -/
structure Conversion where
  value : UInt64
  outOfRange : Bool
  endOffset : Nat
  deriving DecidableEq

/-- `strtoull(s, &end, 10)`. -/
def strtoull (s : List UInt8) : Conversion :=
  let (negative, t) := splitSign (s.dropWhile isSpace)
  let digits := t.takeWhile isDigit
  if digits = [] then ⟨0, false, 0⟩
  else
    let consumed := s.length - t.length + digits.length
    if number digits ≥ 18446744073709551616 then ⟨18446744073709551615, true, consumed⟩
    else
      let value := UInt64.ofNat (number digits)
      ⟨if negative then -value else value, false, consumed⟩

/-! ## Spellings -/

/-- An optional sign. -/
inductive Sign where
  | none
  | plus
  | minus
  deriving DecidableEq

/-- How a sign is spelled. -/
def Sign.chars : Sign → List UInt8
  | none => []
  | plus => [43]
  | minus => [45]

/-- The word that a sign and a number stand for. -/
def Sign.apply : Sign → UInt64 → UInt64
  | minus, v => -v
  | _, v => v

/-- `s` spells `v`: blanks, a sign and digits of a number that fits. -/
def Spells (s : List UInt8) (v : UInt64) : Prop :=
  ∃ (blanks : List UInt8) (sign : Sign) (digits : List UInt8),
    s = blanks ++ (sign.chars ++ digits) ∧ (∀ c ∈ blanks, isSpace c = true) ∧
      digits ≠ [] ∧ (∀ c ∈ digits, isDigit c = true) ∧
      number digits < 18446744073709551616 ∧ v = sign.apply (UInt64.ofNat (number digits))

/-- A digit is neither a blank nor a sign. -/
theorem not_space_of_digit {c : UInt8} (h : isDigit c = true) :
    isSpace c = false ∧ c ≠ 45 ∧ c ≠ 43 := by
  unfold isDigit at h
  unfold isSpace
  simp only [Bool.and_eq_true, decide_eq_true_eq, UInt8.le_iff_toNat_le] at h
  have hlow : (48 : UInt8).toNat = 48 := rfl
  refine ⟨?_, ?_, ?_⟩
  · simp only [Bool.or_eq_false_iff, beq_eq_false_iff_ne, Bool.and_eq_false_imp, decide_eq_true_eq,
      decide_eq_false_iff_not]
    refine ⟨?_, fun _ hle => ?_⟩
    · rintro rfl
      exact absurd h.1 (by decide)
    · rw [UInt8.le_iff_toNat_le] at hle
      have hhigh : (13 : UInt8).toNat = 13 := rfl
      omega
  · rintro rfl
    exact absurd h.1 (by decide)
  · rintro rfl
    exact absurd h.1 (by decide)

/-- A sign is no blank. -/
theorem not_space_of_sign {sign : Sign} {c : UInt8} (h : c ∈ sign.chars) : isSpace c = false := by
  cases sign with
  | none => cases h
  | plus => rw [List.mem_singleton.mp h]; rfl
  | minus => rw [List.mem_singleton.mp h]; rfl

variable {s digits : List UInt8} {sign : Sign} {v : UInt64}

/-- The sign is split off the digits behind it. -/
theorem splitSign_chars (sign : Sign) (hne : digits ≠ [])
    (hdigits : ∀ c ∈ digits, isDigit c = true) :
    splitSign (sign.chars ++ digits) = (decide (sign = .minus), digits) := by
  cases sign with
  | plus => rfl
  | minus => rfl
  | none =>
      obtain ⟨c, cs, rfl⟩ := List.exists_cons_of_ne_nil hne
      obtain ⟨-, hminus, hplus⟩ := not_space_of_digit (hdigits c List.mem_cons_self)
      show splitSign (c :: cs) = _
      rw [splitSign, if_neg hminus, if_neg hplus]
      rfl

/-- What `splitSign` takes apart. -/
theorem exists_sign (s : List UInt8) :
    ∃ sign : Sign, s = sign.chars ++ (splitSign s).2 ∧
      (splitSign s).1 = decide (sign = .minus) := by
  cases s with
  | nil => exact ⟨.none, rfl, rfl⟩
  | cons c cs =>
      rw [splitSign]
      by_cases hminus : c = 45
      · rw [if_pos hminus, hminus]
        exact ⟨.minus, rfl, rfl⟩
      · rw [if_neg hminus]
        by_cases hplus : c = 43
        · rw [if_pos hplus, hplus]
          exact ⟨.plus, rfl, rfl⟩
        · rw [if_neg hplus]
          exact ⟨.none, rfl, rfl⟩

/-- A minus sign negates the value as an unsigned number. -/
theorem apply_sign (sign : Sign) (v : UInt64) :
    (if decide (sign = .minus) then -v else v) = sign.apply v := by
  cases sign <;> rfl

/-- The call reads the whole string as the number `v`. -/
def Reads (s : List UInt8) (v : UInt64) : Prop :=
  (strtoull s).outOfRange = false ∧ (strtoull s).endOffset ≠ 0 ∧
    (strtoull s).endOffset = s.length ∧ (strtoull s).value = v

/-- The strings that are read to their end are the spellings of numbers that fit. -/
theorem reads_iff : Reads s v ↔ Spells s v := by
  constructor
  · obtain ⟨sign, hsplit, hsign⟩ := exists_sign (s.dropWhile isSpace)
    unfold Reads strtoull
    generalize hr : splitSign (s.dropWhile isSpace) = r at hsplit hsign
    obtain ⟨negative, t⟩ := r
    simp only at hsplit hsign ⊢
    by_cases hnil : t.takeWhile isDigit = []
    · rw [if_pos hnil]
      exact fun h => absurd rfl h.2.1
    · rw [if_neg hnil]
      by_cases hfits : number (t.takeWhile isDigit) ≥ 18446744073709551616
      · rw [if_pos hfits]
        exact fun h => absurd h.1 (by simp)
      · rw [if_neg hfits]
        rintro ⟨-, -, hend, rfl⟩
        have hs : s = s.takeWhile isSpace ++ (sign.chars ++ t) := by
          rw [← hsplit, List.takeWhile_append_dropWhile]
        have hle : t.length ≤ s.length := by
          rw [hs]
          simp only [List.length_append]
          omega
        -- everything behind the sign is a digit
        have hall : t.takeWhile isDigit = t :=
          (List.takeWhile_prefix isDigit).eq_of_length (by
            have := (List.takeWhile_prefix isDigit (l := t)).length_le
            simp only at hend
            omega)
        rw [hall] at hnil hfits ⊢
        refine ⟨s.takeWhile isSpace, sign, t, hs, fun c hc => List.mem_takeWhile_imp hc, hnil,
          fun c hc => List.mem_takeWhile_imp (hall.symm ▸ hc), Nat.not_le.mp hfits, ?_⟩
        rw [hsign]
        exact apply_sign sign _
  · rintro ⟨blanks, sign, digits, rfl, hblanks, hne, hdigits, hfits, rfl⟩
    have hdrop : (blanks ++ (sign.chars ++ digits)).dropWhile isSpace = sign.chars ++ digits := by
      rw [List.dropWhile_append_of_pos hblanks]
      obtain ⟨c, cs, hc⟩ : ∃ c cs, sign.chars ++ digits = c :: cs :=
        List.exists_cons_of_ne_nil (by simp [hne])
      have hmem : c ∈ sign.chars ++ digits := hc ▸ List.mem_cons_self
      have hspace : isSpace c = false := by
        rcases List.mem_append.mp hmem with h | h
        · exact not_space_of_sign h
        · exact (not_space_of_digit (hdigits c h)).1
      rw [hc, List.dropWhile_cons_of_neg (by simp [hspace])]
    have htake : digits.takeWhile isDigit = digits :=
      List.takeWhile_eq_self_iff.mpr hdigits
    unfold Reads strtoull
    rw [hdrop, splitSign_chars sign hne hdigits]
    simp only [htake, if_neg hne, if_neg (Nat.not_le.mpr hfits)]
    have hpos := List.length_pos_iff.mpr hne
    refine ⟨trivial, ?_, ?_, apply_sign sign _⟩
    · omega
    · simp only [List.length_append]
      omega

end Strtoull
