import LearnNs2.Lib.Decimal

/-!
# Formats with `%d`

The text that `sprintf` makes of signed integers, and a reader that picks the
integers out of any text. A format is readable if its own characters cannot be
taken for a part of a number.
-/

namespace Decimal

set_option autoImplicit false

/-- What `%d` prints. -/
def decimalInt (i : ℤ) : List Char :=
  (if i < 0 then ['-'] else []) ++ (decimal i.natAbs).toList

/-- `sprintf` for formats without a conversion other than `%d`. -/
def sprintf : List Char → List ℤ → List Char
  | '%' :: 'd' :: fmt, i :: args => decimalInt i ++ sprintf fmt args
  | c :: fmt, args => c :: sprintf fmt args
  | [], _ => []

section Reading

/-- The number before the cursor, if there is one, and whether a minus sign
stands there instead. -/
structure Scan where
  minus : Bool
  current : Option (Bool × Nat)
  found : List ℤ
  deriving Repr, DecidableEq

namespace Scan

def start : Scan := ⟨false, none, []⟩

def signed (negative : Bool) (n : Nat) : ℤ := if negative then -n else n

def all (s : Scan) : List ℤ :=
  match s.current with
  | none => s.found
  | some (negative, n) => s.found ++ [signed negative n]

def next (s : Scan) (c : Char) : Scan :=
  if c.isDigit then
    match s.current with
    | none => ⟨false, some (s.minus, Nat.ofDigitChars 10 [c] 0), s.found⟩
    | some (negative, n) => ⟨false, some (negative, Nat.ofDigitChars 10 [c] n), s.found⟩
  else
    ⟨c = '-', none, s.all⟩

end Scan

/-- The integers in a text, in their order. -/
def integers (cs : List Char) : List ℤ := (cs.foldl Scan.next .start).all

end Reading

/-- No digit, no `%d` right after another or after a minus sign. The first
argument says if a number may begin here. -/
def Readable : Bool → List Char → Bool
  | free, '%' :: 'd' :: fmt => free && Readable false fmt
  | _, c :: fmt => !c.isDigit && Readable (c != '-') fmt
  | _, [] => true

def conversions : List Char → Nat
  | '%' :: 'd' :: fmt => conversions fmt + 1
  | _ :: fmt => conversions fmt
  | [] => 0

section RoundTrip

variable {ds : List Char} {c : Char}

theorem next_of_not_digit (s : Scan) (hc : c.isDigit = false) :
    s.next c = ⟨c = '-', none, s.all⟩ := by
  simp [Scan.next, hc]

theorem foldl_next_digits (h : ∀ c ∈ ds, c.isDigit) (negative : Bool) (n : Nat) (found : List ℤ) :
    ds.foldl Scan.next ⟨false, some (negative, n), found⟩ =
      ⟨false, some (negative, Nat.ofDigitChars 10 ds n), found⟩ := by
  induction ds generalizing n with
  | nil => rfl
  | cons d ds ih =>
    have hd := h d List.mem_cons_self
    rw [List.foldl_cons, Scan.next, if_pos hd, ih fun c hc => h c (List.mem_cons_of_mem d hc)]
    rfl

theorem foldl_next_decimal (n : Nat) (minus : Bool) (found : List ℤ) :
    (decimal n).toList.foldl Scan.next ⟨minus, none, found⟩ = ⟨false, some (minus, n), found⟩ := by
  have hdigit : ∀ c ∈ (decimal n).toList, c.isDigit := fun c hc => isDigit_of_mem_decimal hc
  obtain ⟨d, ds, hds⟩ := List.exists_cons_of_ne_nil (decimal_toList_ne_nil n)
  have hvalue := ofDigitChars_decimal n
  rw [hds] at hdigit hvalue ⊢
  rw [List.foldl_cons, Scan.next, if_pos (hdigit d List.mem_cons_self)]
  dsimp only
  rw [foldl_next_digits fun c hc => hdigit c (List.mem_cons_of_mem d hc), ← hvalue]
  rfl

theorem foldl_next_decimalInt (i : ℤ) (found : List ℤ) :
    (decimalInt i).foldl Scan.next ⟨false, none, found⟩ =
      ⟨false, some (decide (i < 0), i.natAbs), found⟩ := by
  unfold decimalInt
  by_cases hneg : i < 0
  · have hminus : Scan.next ⟨false, none, found⟩ '-' = ⟨true, none, found⟩ := rfl
    rw [if_pos hneg, List.foldl_append, List.foldl_cons, List.foldl_nil, hminus,
      foldl_next_decimal]
    simp [hneg]
  · rw [if_neg hneg, List.nil_append, foldl_next_decimal]
    simp [hneg]

theorem signed_natAbs (i : ℤ) : Scan.signed (decide (i < 0)) i.natAbs = i := by
  unfold Scan.signed
  by_cases hneg : i < 0
  · rw [if_pos (decide_eq_true hneg)]
    omega
  · rw [decide_eq_false hneg]
    simp
    omega

/-- Where a number may begin, the reader has none before it and no minus sign. -/
theorem all_foldl_sprintf (fmt : List Char) (args : List ℤ) (free : Bool)
    (h : Readable free fmt) (hlen : args.length = conversions fmt) (s : Scan)
    (hs : free → s.minus = false ∧ s.current = none) :
    ((sprintf fmt args).foldl Scan.next s).all = s.all ++ args := by
  induction fmt, args using sprintf.induct generalizing free s with
  | case1 fmt i args ih =>
    rw [Readable, Bool.and_eq_true] at h
    obtain ⟨hminus, hcurrent⟩ := hs h.1
    obtain ⟨minus, current, found⟩ := s
    cases hminus
    cases hcurrent
    rw [conversions, List.length_cons, Nat.add_right_cancel_iff] at hlen
    rw [sprintf, List.foldl_append, foldl_next_decimalInt, ih false h.2 hlen _ nofun]
    simp [Scan.all, signed_natAbs]
  | case2 c fmt args hno ih =>
    have hlit : ∀ fmt', c = '%' → fmt = 'd' :: fmt' → False := by
      rintro fmt' rfl rfl
      cases args with
      | nil => simp [conversions] at hlen
      | cons i args => exact hno fmt' i args rfl rfl rfl
    rw [Readable.eq_2 _ _ _ hlit, Bool.and_eq_true, Bool.not_eq_true'] at h
    rw [conversions.eq_2 _ _ hlit] at hlen
    rw [sprintf.eq_2 _ _ _ hno, List.foldl_cons, next_of_not_digit s h.1, ih _ h.2 hlen]
    · rfl
    · intro hfree
      simpa using hfree
  | case3 args =>
    rw [conversions, List.length_eq_zero_iff] at hlen
    simp [sprintf, hlen]

/-- What was printed is read back. -/
theorem integers_sprintf {fmt : List Char} {args : List ℤ} (h : Readable true fmt)
    (hlen : args.length = conversions fmt) : integers (sprintf fmt args) = args :=
  all_foldl_sprintf fmt args true h hlen .start fun _ => ⟨rfl, rfl⟩

end RoundTrip

end Decimal
