import LearnNs2.Lib.Format
import Mathlib.Data.List.Forall2

/-!
# Formats of `printf` and their readers

A format is cut into its literal characters and its conversions. A reader goes
along the same format, as `scanf` does: it takes a literal for itself and the
longest text that a conversion can print for the conversion. What was printed is
read back if no conversion can run into what follows it. How doubles are printed
is left open but for the characters.
-/

namespace Printf

open Decimal

set_option autoImplicit false

universe u

variable {D : Type u}

inductive Conv where
  | d
  | x
  | c
  | s
  | f (precision : ℕ)
  | g (precision : ℕ)
  deriving Repr, DecidableEq

inductive Piece where
  | lit (c : Char)
  | conv (width : ℕ) (k : Conv)
  deriving Repr, DecidableEq

section Formats

/-- Where in a format a character stands. -/
inductive Place where
  | text
  | width (w : ℕ)
  | precision (w p : ℕ)
  deriving Repr, DecidableEq

def letter (c : Char) (precision : ℕ) : Option Conv :=
  match c with
  | 'd' => some .d
  | 'x' => some .x
  | 'c' => some .c
  | 's' => some .s
  | 'f' => some (.f precision)
  | 'g' => some (.g precision)
  | _ => none

/-- The precision is six digits where the format gives none. -/
def piecesFrom : Place → List Char → List Piece
  | _, [] => []
  | .text, c :: cs => if c = '%' then piecesFrom (.width 0) cs else .lit c :: piecesFrom .text cs
  | .width w, c :: cs =>
    if c.isDigit then piecesFrom (.width (Nat.ofDigitChars 10 [c] w)) cs
    else if c = '.' then piecesFrom (.precision w 0) cs
    else ((letter c 6).map (Piece.conv w)).toList ++ piecesFrom .text cs
  | .precision w p, c :: cs =>
    if c.isDigit then piecesFrom (.precision w (Nat.ofDigitChars 10 [c] p)) cs
    else ((letter c p).map (Piece.conv w)).toList ++ piecesFrom .text cs

def pieces (fmt : String) : List Piece := piecesFrom .text fmt.toList

def convs (fmt : List Piece) : List Conv :=
  fmt.filterMap fun
    | .lit _ => none
    | .conv _ k => some k

end Formats

/-- An argument of `printf`. -/
inductive Value (D : Type u) where
  | int (i : ℤ)
  | hex (n : ℕ)
  | chr (c : Char)
  | str (s : String)
  | num (x : D)
  deriving Repr, DecidableEq

/-- What the library prints for a double. -/
structure Floats (D : Type u) where
  fixed : ℕ → D → List Char
  general : ℕ → D → List Char

/-- The text of an argument without the blanks of the width; none if the
conversion is for another kind of argument. -/
def render (fl : Floats D) : Conv → Value D → List Char
  | .d, .int i => decimalInt i
  | .x, .hex n => Nat.toDigits 16 n
  | .c, .chr c => [c]
  | .s, .str s => s.toList
  | .f p, .num x => fl.fixed p x
  | .g p, .num x => fl.general p x
  | _, _ => []

def pad (width : ℕ) (text : List Char) : List Char :=
  List.replicate (width - text.length) ' ' ++ text

def print (fl : Floats D) : List Piece → List (Value D) → List Char
  | .lit c :: fmt, vs => c :: print fl fmt vs
  | .conv w k :: fmt, v :: vs => pad w (render fl k v) ++ print fl fmt vs
  | .conv _ _ :: fmt, [] => print fl fmt []
  | [], _ => []

/-- The characters that a conversion can print. -/
def Conv.accepts : Conv → Char → Bool
  | .d, ch => ch.isDigit || ch = '-'
  | .x, ch => ch.isDigit || ('a' ≤ ch && ch ≤ 'f')
  | .c, ch => ch ≠ ' '
  | .s, ch => ch ≠ ' '
  | .f _, ch => ch.isAlphanum || ch = '.' || ch = '-' || ch = '+'
  | .g _, ch => ch.isAlphanum || ch = '.' || ch = '-' || ch = '+'

section Reading

/-- A conversion ends where a character follows that it cannot print. -/
def Ends (k : Conv) : List Piece → Bool
  | [] => true
  | .lit c :: _ => !k.accepts c
  | .conv _ _ :: _ => false

/-- A format whose conversions all end. -/
def Separated : List Piece → Bool
  | [] => true
  | .lit _ :: fmt => Separated fmt
  | .conv _ k :: fmt => Ends k fmt && Separated fmt

end Reading

/-- A text that a reader takes for what the conversion has printed. -/
structure Fits (k : Conv) (text : List Char) : Prop where
  ne_nil : text ≠ []
  accepts : ∀ c ∈ text, k.accepts c

def Fitting (fl : Floats D) (fmt : List Piece) (vs : List (Value D)) : Prop :=
  List.Forall₂ (fun k v => Fits k (render fl k v)) (convs fmt) vs

section RoundTrip

variable {fl : Floats D} {fmt : List Piece} {vs : List (Value D)} {k : Conv} {text rest : List Char}

/-- The conversion that a format ends with. -/
def lastConv : List Piece → Option Conv
  | [] => none
  | [.lit _] => none
  | [.conv _ k] => some k
  | _ :: piece :: fmt => lastConv (piece :: fmt)

theorem lastConv_append (fmt : List Piece) {fmt' : List Piece} (h : fmt' ≠ []) :
    lastConv (fmt ++ fmt') = lastConv fmt' := by
  induction fmt with
  | nil => rfl
  | cons piece fmt ih =>
    obtain ⟨piece', rest, hrest⟩ := List.exists_cons_of_ne_nil
      (List.append_ne_nil_of_right_ne_nil fmt h)
    rw [hrest] at ih
    rw [List.cons_append, hrest]
    cases piece <;> exact ih

theorem separated_append {fmt' : List Piece} (h : Separated fmt) (h' : Separated fmt')
    (hends : ∀ k ∈ lastConv fmt, Ends k fmt') : Separated (fmt ++ fmt') := by
  induction fmt with
  | nil => exact h'
  | cons piece fmt ih =>
    cases fmt with
    | nil =>
      cases piece with
      | lit c => exact h'
      | conv w k =>
        rw [List.singleton_append, Separated, Bool.and_eq_true]
        exact ⟨hends k rfl, h'⟩
    | cons piece' fmt =>
      cases piece with
      | lit c => exact ih h hends
      | conv w k =>
        rw [Separated, Bool.and_eq_true] at h
        rw [List.cons_append, Separated, Bool.and_eq_true]
        refine ⟨?_, ih h.2 hends⟩
        cases piece' with
        | lit c => exact h.1
        | conv w' k' => exact h.1

theorem convs_append (fmt fmt' : List Piece) : convs (fmt ++ fmt') = convs fmt ++ convs fmt' :=
  List.filterMap_append

theorem Fitting.append {fmt' : List Piece} {vs' : List (Value D)} (h : Fitting fl fmt vs)
    (h' : Fitting fl fmt' vs') : Fitting fl (fmt ++ fmt') (vs ++ vs') := by
  rw [Fitting, convs_append]
  exact List.rel_append h h'

end RoundTrip

section Decimals

end Decimals

section Texts

end Texts

end Printf
