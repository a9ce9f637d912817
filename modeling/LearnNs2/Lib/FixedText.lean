import LearnNs2.Lib.Awk
import LearnNs2.Lib.Printf
import LearnNs2.Lib.TclDouble

/-!
# `%f`

A number with a given count of digits behind the point. What is read back is the
number rounded to these digits.
-/

namespace Decimal

open Awk Binary64 Tcl

set_option autoImplicit false

def fixedText (p : ℕ) (q : ℚ) : List Char :=
  let m := (roundEven (|q| * 10 ^ p)).toNat
  (if q < 0 then ['-'] else []) ++ if p = 0 then (decimal m).toList else withPoint m p

def rounded (p : ℕ) (q : ℚ) : ℚ := roundEven (q * 10 ^ p) / 10 ^ p

section Digits

variable {m j : ℕ} {rest : List Char}

theorem isDigit_of_mem_padded {r : ℕ} {c : Char} (h : c ∈ padded j r) : c.isDigit := by
  rcases List.mem_append.mp h with hzero | hdecimal
  · rw [(List.mem_replicate.mp hzero).2]
    rfl
  · exact isDigit_of_mem_decimal hdecimal

theorem length_padded {r : ℕ} (hj : 0 < j) (hr : r < 10 ^ j) : (padded j r).length = j := by
  have hlen := (length_decimal_le_iff r hj).mpr hr
  rw [String.length_toList] at hlen
  rw [padded, List.length_append, List.length_replicate, String.length_toList]
  omega

theorem ofDigitChars_padded (j r : ℕ) : Nat.ofDigitChars 10 (padded j r) 0 = r := by
  rw [padded, Nat.ofDigitChars_append, Nat.ofDigitChars_replicate_zero, Nat.mul_zero,
    ofDigitChars_decimal]

theorem ofDigitChars_withPoint (hj : 0 < j) :
    Nat.ofDigitChars 10 ((decimal (m / 10 ^ j)).toList ++ padded j (m % 10 ^ j)) 0 = m := by
  have hlt : m % 10 ^ j < 10 ^ j := Nat.mod_lt m (by positivity)
  rw [Nat.ofDigitChars_append, ofDigitChars_decimal, Nat.ofDigitChars_eq_ofDigitChars_zero,
    ofDigitChars_padded, length_padded hj hlt]
  exact Nat.div_add_mod m (10 ^ j)

theorem withPoint_chars {c : Char} (h : c ∈ withPoint m j) : c.isDigit ∨ c = '.' := by
  rcases List.mem_append.mp h with hwhole | hrest
  · exact Or.inl (isDigit_of_mem_decimal hwhole)
  · rcases List.mem_cons.mp hrest with hpoint | hfraction
    · exact Or.inr hpoint
    · exact Or.inl (isDigit_of_mem_padded hfraction)

theorem digits_withPoint (m j : ℕ) (rest : List Char) :
    digits (withPoint m j ++ rest) =
      ((decimal (m / 10 ^ j)).toList, '.' :: (padded j (m % 10 ^ j) ++ rest)) := by
  rw [withPoint, List.append_assoc, List.cons_append]
  exact digits_append (fun c hc => isDigit_of_mem_decimal hc) rfl _

/-- The digits end where no digit follows. -/
theorem fraction_padded {r : ℕ} (h : ∀ c ∈ rest.head?, c.isDigit = false) :
    fraction ('.' :: (padded j r ++ rest)) = (padded j r, rest) := by
  have hdigit : ∀ c ∈ padded j r, c.isDigit := fun c hc => isDigit_of_mem_padded hc
  cases rest with
  | nil =>
    rw [List.append_nil]
    exact digits_of_all hdigit
  | cons c rest => exact digits_append hdigit (h c rfl) rest

theorem exists_withPoint_eq (m j : ℕ) : ∃ c cs, c.isDigit ∧ withPoint m j = c :: cs := by
  obtain ⟨c, cs, hcs⟩ := List.exists_cons_of_ne_nil (decimal_toList_ne_nil (m / 10 ^ j))
  have hc : c.isDigit := isDigit_of_mem_decimal (hcs ▸ List.mem_cons_self)
  rw [withPoint, hcs]
  exact ⟨c, _, hc, rfl⟩

theorem number_withPoint (hj : 0 < j) : number (withPoint m j) = some ((m : ℚ) / 10 ^ j, []) := by
  have hsign : sign (withPoint m j) = (1, withPoint m j) := by
    obtain ⟨c, cs, hc, hcs⟩ := exists_withPoint_eq m j
    rw [hcs]
    exact sign_of_isDigit hc
  have hdigits := digits_withPoint m j []
  have hfraction : fraction ('.' :: (padded j (m % 10 ^ j) ++ [])) = (padded j (m % 10 ^ j), []) :=
    fraction_padded (by simp)
  have hlt : m % 10 ^ j < 10 ^ j := Nat.mod_lt m (by positivity)
  rw [List.append_nil] at hdigits hfraction
  have hexponent : exponent [] = (0, []) := rfl
  unfold number
  rw [hsign]
  dsimp only
  rw [hdigits]
  dsimp only
  rw [List.append_nil, hfraction]
  dsimp only
  rw [if_neg (fun h => decimal_toList_ne_nil _ h.1), ofDigitChars_withPoint hj, hexponent,
    length_padded hj hlt]
  simp [div_eq_mul_inv]

end Digits

section Rounding

variable {p : ℕ} {q : ℚ}

theorem rounded_nonneg (hq : 0 ≤ q) : 0 ≤ rounded p q := by
  have hzero : roundEven 0 = 0 := roundEven_intCast 0
  have hround : (0 : ℤ) ≤ roundEven (q * 10 ^ p) := by
    rw [← hzero]
    apply roundEven_mono
    positivity
  have hcast : (0 : ℚ) ≤ roundEven (q * 10 ^ p) := Int.cast_nonneg hround
  unfold rounded
  positivity

theorem rounded_mul (p : ℕ) (q : ℚ) : rounded p q * 10 ^ p = roundEven (q * 10 ^ p) :=
  div_mul_cancel₀ _ (by positivity)

/-- The digits that are kept are all there are. -/
theorem rounded_rounded (p : ℕ) (q : ℚ) : rounded p (rounded p q) = rounded p q := by
  rw [rounded, rounded_mul, roundEven_intCast, rounded]

theorem rounded_add (p : ℕ) (q r : ℚ) :
    rounded p (rounded p q + rounded p r) = rounded p q + rounded p r := by
  have hsum : (rounded p q + rounded p r) * 10 ^ p =
      ((roundEven (q * 10 ^ p) + roundEven (r * 10 ^ p) : ℤ) : ℚ) := by
    rw [add_mul, rounded_mul, rounded_mul]
    push_cast
    rfl
  rw [rounded, hsum, roundEven_intCast, ← hsum]
  exact mul_div_cancel_right₀ _ (by positivity)

theorem fixedText_of_nonneg (hp : 0 < p) (hq : 0 ≤ q) :
    fixedText p q = withPoint (roundEven (q * 10 ^ p)).toNat p := by
  rw [fixedText, abs_of_nonneg hq, if_neg (not_lt.mpr hq), if_neg hp.ne', List.nil_append]

theorem cast_roundEven_toNat (hq : 0 ≤ q) :
    ((roundEven (q * 10 ^ p)).toNat : ℚ) = roundEven (q * 10 ^ p) := by
  have hround : (0 : ℤ) ≤ roundEven (q * 10 ^ p) := by
    have hnonneg := rounded_nonneg (p := p) hq
    rw [← Int.cast_nonneg_iff (R := ℚ), ← rounded_mul]
    positivity
  exact_mod_cast Int.toNat_of_nonneg hround

end Rounding

/-- One field of a line, and the number that it is. -/
structure Reads (w : String) (v : ℚ) : Prop where
  word : isWord w
  numeric : looksNumeric w
  value : atof w = v

section Reading

variable {p : ℕ} {q : ℚ}

theorem leading_fixedText (hp : 0 < p) (hq : 0 ≤ q) :
    leading (String.ofList (fixedText p q)) = some (rounded p q, []) := by
  have hskip : (withPoint (roundEven (q * 10 ^ p)).toNat p).dropWhile isSpace =
      withPoint (roundEven (q * 10 ^ p)).toNat p := by
    obtain ⟨c, cs, hc, hcs⟩ := exists_withPoint_eq (roundEven (q * 10 ^ p)).toNat p
    rw [hcs, List.dropWhile_cons_of_neg]
    rw [isSpace_of_isDigit hc]
    exact Bool.false_ne_true
  rw [leading, String.toList_ofList, fixedText_of_nonneg hp hq, hskip, number_withPoint hp,
    cast_roundEven_toNat hq, rounded]

theorem isWord_fixedText (hp : 0 < p) (hq : 0 ≤ q) : isWord (String.ofList (fixedText p q)) := by
  apply (isWord_iff _).mpr
  rw [String.toList_ofList, fixedText_of_nonneg hp hq]
  constructor
  · intro hnil
    have hlist := congrArg String.toList hnil
    rw [String.toList_ofList] at hlist
    simp [withPoint] at hlist
  · intro c hc
    rcases withPoint_chars hc with hdigit | rfl
    · apply Bool.eq_false_iff.mpr
      intro hblank
      simp only [isBlank, Bool.or_eq_true, decide_eq_true_eq] at hblank
      rcases hblank with (rfl | rfl) | rfl
      · exact absurd hdigit (by decide)
      · exact absurd hdigit (by decide)
      · exact absurd hdigit (by decide)
    · rfl

theorem reads_fixedText (hp : 0 < p) (hq : 0 ≤ q) :
    Reads (String.ofList (fixedText p q)) (rounded p q) := by
  have hleading := leading_fixedText hp hq
  refine ⟨isWord_fixedText hp hq, ?_, ?_⟩
  · rw [looksNumeric, hleading]
    rfl
  · rw [atof, hleading]
    rfl

end Reading

end Decimal
