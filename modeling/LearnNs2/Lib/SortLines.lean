import LearnNs2.Lib.FixedText
import Mathlib.Data.String.Basic

/-!
# `sort -n`

Lines in the order of the numbers they begin with, which have no exponent, and
lines with one number in the order of their characters, as in the C locale.
-/

namespace Decimal

open Tcl

set_option autoImplicit false

def sortNumber (line : String) : ℚ :=
  let cs := line.toList.dropWhile fun c => c = ' ' || c = '\t'
  let s : ℤ × List Char := if cs.head? = some '-' then (-1, cs.tail) else (1, cs)
  let w := digits s.2
  let f := fraction w.2
  s.1 * (Nat.ofDigitChars 10 (w.1 ++ f.1) 0 / 10 ^ f.1.length)

def sortLe (a b : String) : Bool :=
  decide (sortNumber a < sortNumber b ∨ sortNumber a = sortNumber b ∧ a ≤ b)

def sortN (lines : List String) : List String := lines.mergeSort sortLe

variable {a b c : String}

theorem sortLe_trans (hab : sortLe a b) (hbc : sortLe b c) : sortLe a c := by
  have hab := of_decide_eq_true hab
  have hbc := of_decide_eq_true hbc
  apply decide_eq_true
  rcases hab with hab | ⟨heab, hab⟩
  · rcases hbc with hbc | ⟨hebc, -⟩
    · exact Or.inl (hab.trans hbc)
    · exact Or.inl (hab.trans_eq hebc)
  · rcases hbc with hbc | ⟨hebc, hbc⟩
    · exact Or.inl (heab.trans_lt hbc)
    · exact Or.inr ⟨heab.trans hebc, hab.trans hbc⟩

theorem sortLe_total (a b : String) : sortLe a b || sortLe b a := by
  rw [Bool.or_eq_true, sortLe, sortLe, decide_eq_true_eq, decide_eq_true_eq]
  rcases lt_trichotomy (sortNumber a) (sortNumber b) with hlt | heq | hgt
  · exact Or.inl (Or.inl hlt)
  · rcases le_total a b with hle | hle
    · exact Or.inl (Or.inr ⟨heq, hle⟩)
    · exact Or.inr (Or.inr ⟨heq.symm, hle⟩)
  · exact Or.inr (Or.inl hgt)

theorem sortNumber_le (h : sortLe a b) : sortNumber a ≤ sortNumber b := by
  rcases of_decide_eq_true h with hlt | ⟨heq, -⟩
  · exact hlt.le
  · exact heq.le

theorem sortN_perm (lines : List String) : (sortN lines).Perm lines :=
  List.mergeSort_perm lines sortLe

theorem sortN_sorted (lines : List String) :
    (sortN lines).Pairwise fun a b => sortNumber a ≤ sortNumber b := by
  have hsorted := @List.pairwise_mergeSort String sortLe (fun _ _ _ => sortLe_trans) sortLe_total
    lines
  exact hsorted.imp sortNumber_le

/-- A line that begins with blanks and a number. -/
theorem sortNumber_fixedText {p : ℕ} {q : ℚ} (hp : 0 < p) (hq : 0 ≤ q) (k : ℕ) (rest : List Char) :
    sortNumber (String.ofList (List.replicate k ' ' ++ (fixedText p q ++ ' ' :: rest))) =
      rounded p q := by
  have hvalue := cast_roundEven_toNat (p := p) hq
  rw [fixedText_of_nonneg hp hq]
  generalize (roundEven (q * 10 ^ p)).toNat = m at hvalue ⊢
  obtain ⟨c, cs, hc, hcs⟩ := exists_withPoint_eq m p
  have hskip : (List.replicate k ' ' ++ (withPoint m p ++ ' ' :: rest)).dropWhile
      (fun c => c = ' ' || c = '\t') = withPoint m p ++ ' ' :: rest := by
    have hblank : ∀ c ∈ List.replicate k ' ', (c = ' ' || c = '\t') = true := by
      intro c hc
      rw [(List.mem_replicate.mp hc).2]
      rfl
    rw [List.dropWhile_append_of_pos hblank, hcs, List.cons_append, List.dropWhile_cons_of_neg]
    intro hno
    rw [Bool.or_eq_true, decide_eq_true_eq, decide_eq_true_eq] at hno
    rcases hno with rfl | rfl
    · exact absurd hc (by decide)
    · exact absurd hc (by decide)
  have hhead : (withPoint m p ++ ' ' :: rest).head? ≠ some '-' := by
    rw [hcs]
    rintro hminus
    cases hminus
    exact absurd hc (by decide)
  have hlt : m % 10 ^ p < 10 ^ p := Nat.mod_lt m (by positivity)
  have hfraction : fraction ('.' :: (padded p (m % 10 ^ p) ++ ' ' :: rest)) =
      (padded p (m % 10 ^ p), ' ' :: rest) := fraction_padded (by simp)
  unfold sortNumber
  rw [String.toList_ofList, hskip]
  dsimp only
  rw [if_neg hhead]
  dsimp only
  rw [digits_withPoint]
  dsimp only
  rw [hfraction]
  dsimp only
  rw [ofDigitChars_withPoint hp, length_padded hp hlt, hvalue, rounded, Int.cast_one, one_mul]

end Decimal
