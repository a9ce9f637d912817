import Mathlib.Algebra.Order.Field.Rat
import Mathlib.Data.Int.Log
import Mathlib.Data.List.DropRight
import Mathlib.Data.List.TakeWhile
import Mathlib.Data.Rat.Floor

/-!
# Decimal text

Numbers as programs write and read them: the decimal text of an integer, the
longest numeric prefix that `strtod` reads, and the six significant digits of
`%.6g`. Arithmetic on what is read is exact.
-/

namespace Decimal

set_option autoImplicit false

def decimal (n : Nat) : String := n.repr

/-- `isspace` in the C locale. -/
def isSpace (c : Char) : Bool := [' ', '\t', '\n', '\x0b', '\x0c', '\r'].contains c

section Reading

def sign : List Char → ℤ × List Char
  | '-' :: cs => (-1, cs)
  | '+' :: cs => (1, cs)
  | cs => (1, cs)

def digits (cs : List Char) : List Char × List Char :=
  (cs.takeWhile Char.isDigit, cs.dropWhile Char.isDigit)

def fraction : List Char → List Char × List Char
  | '.' :: cs => digits cs
  | cs => ([], cs)

/-- An exponent without digits is not read at all. -/
def exponent : List Char → ℤ × List Char
  | [] => (0, [])
  | c :: cs =>
    if c = 'e' ∨ c = 'E' then
      let s := sign cs
      let d := digits s.2
      if d.1 = [] then (0, c :: cs) else (s.1 * Nat.ofDigitChars 10 d.1 0, d.2)
    else
      (0, c :: cs)

def number (cs : List Char) : Option (ℚ × List Char) :=
  let s := sign cs
  let w := digits s.2
  let f := fraction w.2
  if w.1 = [] ∧ f.1 = [] then
    none
  else
    let e := exponent f.2
    some (s.1 * Nat.ofDigitChars 10 (w.1 ++ f.1) 0 * (10 : ℚ) ^ (e.1 - f.1.length), e.2)

def leading (s : String) : Option (ℚ × List Char) := number (s.toList.dropWhile isSpace)

/-- `atof`: zero when no prefix is a number. -/
def atof (s : String) : ℚ := ((leading s).map Prod.fst).getD 0

/-- A number with nothing but blanks around it. -/
def looksNumeric (s : String) : Bool :=
  match leading s with
  | some (_, rest) => rest.all isSpace
  | none => false

end Reading

section Writing

def roundEven (q : ℚ) : ℤ :=
  let f := ⌊q⌋
  if q - f < 1 / 2 then f
  else if q - f = 1 / 2 ∧ f % 2 = 0 then f
  else f + 1

/-- An integer part and a fraction whose trailing zeros are left out. -/
def pointed (whole frac : List Char) : List Char :=
  match frac.rdropWhile (· = '0') with
  | [] => whole
  | fs => whole ++ '.' :: fs

def exponentText (e : ℤ) : List Char :=
  'e' :: (if e < 0 then '-' else '+') ::
    (if e.natAbs < 10 then ['0'] else []) ++ (decimal e.natAbs).toList

/-- `%.6g` of a number that is not zero. -/
def formatG (q : ℚ) : String :=
  let e := Int.log 10 |q|
  let m := (roundEven (|q| / (10 : ℚ) ^ (e - 5))).toNat
  let (m, e) := if m = 1000000 then (100000, e + 1) else (m, e)
  let ds := (decimal m).toList
  let body :=
    if e < -4 ∨ 6 ≤ e then
      pointed (ds.take 1) (ds.drop 1) ++ exponentText e
    else if e < 0 then
      pointed ['0'] (List.replicate (-e - 1).toNat '0' ++ ds)
    else
      pointed (ds.take (e.toNat + 1)) (ds.drop (e.toNat + 1))
  String.ofList (if q < 0 then '-' :: body else body)

end Writing

section RoundTrip

theorem isDigit_of_mem_decimal {n : Nat} {c : Char} (h : c ∈ (decimal n).toList) :
    c.isDigit := by
  rw [decimal, Nat.toList_repr] at h
  exact Nat.isDigit_of_mem_toDigits (by decide) (by decide) h

theorem isSpace_of_isDigit {c : Char} (h : c.isDigit) : isSpace c = false := by
  apply Bool.eq_false_iff.mpr
  intro hs
  have hno : [' ', '\t', '\n', '\x0b', '\x0c', '\r'].all (fun c => !c.isDigit) := by decide
  have hc := List.all_eq_true.mp hno c (List.contains_iff_mem.mp hs)
  rw [h] at hc
  cases hc

theorem digits_of_all {ds : List Char} (h : ∀ c ∈ ds, c.isDigit) : digits ds = (ds, []) := by
  unfold digits
  rw [List.takeWhile_eq_self_iff.mpr h, List.dropWhile_eq_nil_iff.mpr h]

theorem sign_of_isDigit {c : Char} {cs : List Char} (h : c.isDigit) :
    sign (c :: cs) = (1, c :: cs) := by
  unfold sign
  split
  · rename_i heq
    obtain ⟨rfl, -⟩ := List.cons.inj heq
    exact absurd h (by decide)
  · rename_i heq
    obtain ⟨rfl, -⟩ := List.cons.inj heq
    exact absurd h (by decide)
  · rfl

theorem number_of_digits {ds : List Char} (hne : ds ≠ []) (h : ∀ c ∈ ds, c.isDigit) :
    number ds = some ((Nat.ofDigitChars 10 ds 0 : ℚ), []) := by
  obtain ⟨c, cs, rfl⟩ := List.exists_cons_of_ne_nil hne
  unfold number
  rw [sign_of_isDigit (h c List.mem_cons_self)]
  simp [digits_of_all h, fraction, exponent]

theorem decimal_toList_ne_nil (n : Nat) : (decimal n).toList ≠ [] := by
  rw [decimal, Nat.toList_repr]
  exact Nat.toDigits_ne_nil

theorem length_decimal_le_iff (n : Nat) {k : Nat} (hk : 0 < k) :
    (decimal n).toList.length ≤ k ↔ n < 10 ^ k := by
  rw [decimal, Nat.toList_repr]
  exact Nat.length_toDigits_le_iff (by decide) hk

theorem ofDigitChars_decimal (n : Nat) : Nat.ofDigitChars 10 (decimal n).toList 0 = n := by
  rw [decimal, Nat.toList_repr, Nat.ofDigitChars_ten_toDigits]

theorem leading_decimal (n : Nat) : leading (decimal n) = some ((n : ℚ), []) := by
  have hdigit : ∀ c ∈ (decimal n).toList, c.isDigit := fun c hc => isDigit_of_mem_decimal hc
  have hne := decimal_toList_ne_nil n
  have hskip : (decimal n).toList.dropWhile isSpace = (decimal n).toList := by
    obtain ⟨c, cs, hcs⟩ := List.exists_cons_of_ne_nil hne
    rw [hcs] at hdigit ⊢
    rw [List.dropWhile_cons_of_neg]
    rw [isSpace_of_isDigit (hdigit c List.mem_cons_self)]
    exact Bool.false_ne_true
  unfold leading
  rw [hskip, number_of_digits hne hdigit, ofDigitChars_decimal]

@[simp] theorem atof_decimal (n : Nat) : atof (decimal n) = n := by
  simp [atof, leading_decimal]

@[simp] theorem looksNumeric_decimal (n : Nat) : looksNumeric (decimal n) = true := by
  simp [looksNumeric, leading_decimal]

theorem decimal_injective : Function.Injective decimal := by
  intro m n h
  have := congrArg atof h
  rw [atof_decimal, atof_decimal] at this
  exact_mod_cast this

theorem decimal_ne_empty (n : Nat) : decimal n ≠ "" := Nat.repr_ne_empty

end RoundTrip

section Points

variable {ds rest : List Char} {c : Char}

theorem digits_append (h : ∀ c ∈ ds, c.isDigit) (hc : c.isDigit = false) (rest : List Char) :
    digits (ds ++ c :: rest) = (ds, c :: rest) := by
  have hstop : ¬ c.isDigit = true := Bool.eq_false_iff.mp hc
  unfold digits
  rw [List.takeWhile_append_of_pos h, List.dropWhile_append_of_pos h,
    List.takeWhile_cons_of_neg hstop, List.dropWhile_cons_of_neg hstop, List.append_nil]

/-- A point, digits, and an exponent or something that is none. -/
theorem number_of_point (hne : ds ≠ []) (h : ∀ c ∈ ds, c.isDigit) (hc : c.isDigit = false) :
    number ('.' :: (ds ++ c :: rest)) =
      some (Nat.ofDigitChars 10 ds 0 * (10 : ℚ) ^ ((exponent (c :: rest)).1 - ds.length),
        (exponent (c :: rest)).2) := by
  have hsign : sign ('.' :: (ds ++ c :: rest)) = (1, '.' :: (ds ++ c :: rest)) := rfl
  have hwhole : digits ('.' :: (ds ++ c :: rest)) = ([], '.' :: (ds ++ c :: rest)) := rfl
  unfold number
  simp only [hsign, hwhole]
  simp [fraction, digits_append h hc, hne]

theorem atof_of_point (hne : ds ≠ []) (h : ∀ c ∈ ds, c.isDigit) (hc : c.isDigit = false) :
    atof (String.ofList ('.' :: (ds ++ c :: rest))) =
      Nat.ofDigitChars 10 ds 0 * (10 : ℚ) ^ ((exponent (c :: rest)).1 - ds.length) := by
  have hskip : ('.' :: (ds ++ c :: rest)).dropWhile isSpace = '.' :: (ds ++ c :: rest) := rfl
  rw [atof, leading, String.toList_ofList, hskip, number_of_point hne h hc]
  rfl

/-- The second point ends the number. -/
theorem atof_point_point (n : Nat) (rest : List Char) :
    atof (String.ofList ('.' :: ((decimal n).toList ++ '.' :: rest))) =
      n / 10 ^ (decimal n).toList.length := by
  rw [atof_of_point (decimal_toList_ne_nil n) (fun c hc => isDigit_of_mem_decimal hc) rfl,
    ofDigitChars_decimal]
  have hnone : (exponent ('.' :: rest)).1 = 0 := rfl
  rw [hnone, zero_sub, zpow_neg, zpow_natCast, div_eq_mul_inv]

theorem atof_point_exponent (n k : Nat) :
    atof (String.ofList ('.' :: ((decimal n).toList ++ 'e' :: '-' :: (decimal k).toList))) =
      n * (10 : ℚ) ^ (-(k : ℤ) - (decimal n).toList.length) := by
  rw [atof_of_point (decimal_toList_ne_nil n) (fun c hc => isDigit_of_mem_decimal hc) rfl,
    ofDigitChars_decimal]
  have hexponent : (exponent ('e' :: '-' :: (decimal k).toList)).1 = -(k : ℤ) := by
    have hsign : sign ('-' :: (decimal k).toList) = (-1, (decimal k).toList) := rfl
    unfold exponent
    simp [hsign, digits_of_all fun c hc => isDigit_of_mem_decimal hc, decimal_ne_empty,
      ofDigitChars_decimal]
  rw [hexponent]

end Points

end Decimal
