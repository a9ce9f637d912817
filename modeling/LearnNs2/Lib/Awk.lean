import LearnNs2.Lib.Decimal
import Mathlib.Logic.Function.Basic

/-!
# awk

Values that are text and number at once, comparison, subscripts, and the fields
of an input line. Arithmetic is exact. A program is a function on the state its
variables make up, applied to the lines of its input one after the other.
-/

namespace Awk

open Decimal

set_option autoImplicit false

inductive Value where
  | uninit
  | num (q : ℚ)
  /-- Text from outside, which is a number as well if it looks like one. -/
  | input (s : String)
  | str (s : String)
  deriving Repr, DecidableEq

namespace Value

def toNum : Value → ℚ
  | uninit => 0
  | num q => q
  | input s => atof s
  | str s => atof s

def toStr : Value → String
  | uninit => ""
  | num q => if q.den = 1 then toString q.num else formatG q
  | input s => s
  | str s => s

def numeric : Value → Bool
  | uninit => true
  | num _ => true
  | input s => looksNumeric s
  | str _ => false

/-- Comparison is numeric if both sides are, and of text otherwise. -/
def eq (v w : Value) : Bool :=
  if v.numeric && w.numeric then v.toNum == w.toNum else v.toStr == w.toStr

def lt (v w : Value) : Bool :=
  if v.numeric && w.numeric then decide (v.toNum < w.toNum) else decide (v.toStr < w.toStr)

def le (v w : Value) : Bool := !w.lt v

/-- `printf "%d"`: the number without its fraction. -/
def formatD (v : Value) : String := toString (v.toNum.num.tdiv v.toNum.den)

end Value

/-- An associative array; an element nobody assigned is uninitialized. -/
abbrev Table := String → Value

namespace Table

def empty : Table := fun _ => .uninit

def get (t : Table) (i : Value) : Value := t i.toStr

def set (t : Table) (i v : Value) : Table := Function.update t i.toStr v

end Table

structure Print where
  fmt : String
  args : List Value
  deriving Repr, DecidableEq

section Lines

def isBlank (c : Char) : Bool := c = ' ' || c = '\t' || c = '\n'

def words (line : String) : List String :=
  ((line.toList.splitOnP isBlank).filter (· ≠ [])).map String.ofList

def unwords (ws : List String) : String := " ".intercalate ws

/-- `$n`; a field past the last one is uninitialized. -/
def field (line : String) : Nat → Value
  | 0 => .input line
  | n + 1 => (words line)[n]?.elim .uninit .input

/-- Text that is one field of a line. -/
def isWord (w : String) : Bool := w != "" && w.toList.all fun c => !isBlank c

theorem isWord_iff (w : String) : isWord w ↔ w ≠ "" ∧ ∀ c ∈ w.toList, isBlank c = false := by
  simp [isWord]

theorem isWord_decimal (n : Nat) : isWord (decimal n) := by
  apply (isWord_iff _).mpr
  refine ⟨decimal_ne_empty n, ?_⟩
  intro c hc
  have hdigit := isDigit_of_mem_decimal hc
  apply Bool.eq_false_iff.mpr
  intro hb
  simp only [isBlank, Bool.or_eq_true, decide_eq_true_eq] at hb
  rcases hb with (rfl | rfl) | rfl
  · exact absurd hdigit (by decide)
  · exact absurd hdigit (by decide)
  · exact absurd hdigit (by decide)

/-- Fields are what was between the blanks. -/
theorem words_unwords {ws : List String} (h : ∀ w ∈ ws, isWord w) : words (unwords ws) = ws := by
  induction ws with
  | nil => rfl
  | cons w ws ih =>
    obtain ⟨hne, hblank⟩ := (isWord_iff w).mp (h w List.mem_cons_self)
    have hlist : w.toList ≠ [] := fun hnil => hne (String.toList_eq_nil_iff.mp hnil)
    have htail := ih fun x hx => h x (List.mem_cons_of_mem w hx)
    cases ws with
    | nil =>
      have hone : (unwords [w]).toList = w.toList := by simp [unwords]
      unfold words
      rw [hone, List.splitOnP_eq_singleton hblank]
      simp [hlist]
    | cons x xs =>
      have hsplit : (unwords (w :: x :: xs)).toList = w.toList ++ ' ' :: (unwords (x :: xs)).toList := by
        simp [unwords, String.intercalate_cons_cons]
      unfold words at htail ⊢
      rw [hsplit, List.splitOnP_append_cons_of_forall_mem hblank ' ' rfl]
      rw [List.filter_cons_of_pos (by simpa using hlist), List.map_cons, htail, String.ofList_toList]

theorem field_unwords {ws : List String} (h : ∀ w ∈ ws, isWord w) (n : Nat) :
    field (unwords ws) (n + 1) = ws[n]?.elim .uninit .input := by
  rw [field, words_unwords h]

/-- A word with a blank behind it is the first field. -/
theorem words_append {w : String} (hw : isWord w) {c : Char} (hc : isBlank c) (line : String) :
    words (w ++ String.singleton c ++ line) = w :: words line := by
  obtain ⟨hne, hblank⟩ := (isWord_iff w).mp hw
  have hlist : w.toList ≠ [] := fun hnil => hne (String.toList_eq_nil_iff.mp hnil)
  have hchars : (w ++ String.singleton c ++ line).toList = w.toList ++ c :: line.toList := by simp
  unfold words
  rw [hchars, List.splitOnP_append_cons_of_forall_mem hblank c hc]
  rw [List.filter_cons_of_pos (by simpa using hlist), List.map_cons, String.ofList_toList]

theorem words_blank {c : Char} (hc : isBlank c) (line : String) :
    words (String.singleton c ++ line) = words line := by
  have hchars : (String.singleton c ++ line).toList = [] ++ c :: line.toList := by simp
  unfold words
  rw [hchars, List.splitOnP_append_cons_of_forall_mem (by simp) c hc,
    List.filter_cons_of_neg (by simp)]

theorem words_of_isWord {w : String} (hw : isWord w) : words w = [w] := by
  obtain ⟨hne, hblank⟩ := (isWord_iff w).mp hw
  have hlist : w.toList ≠ [] := fun hnil => hne (String.toList_eq_nil_iff.mp hnil)
  unfold words
  rw [List.splitOnP_eq_singleton hblank, List.filter_cons_of_pos (by simpa using hlist),
    List.filter_nil, List.map_singleton, String.ofList_toList]

/-- The lines of a text; nothing behind the last end of line is no line. -/
def records (text : String) : List String :=
  let lines := text.toList.splitOn '\n'
  (if lines.getLast? = some [] then lines.dropLast else lines).map String.ofList

theorem records_empty : records "" = [] := rfl

theorem records_append {line : String} (h : '\n' ∉ line.toList) (text : String) :
    records (line ++ "\n" ++ text) = line :: records text := by
  have hchars : (line ++ "\n" ++ text).toList = line.toList ++ '\n' :: text.toList := by simp
  obtain ⟨l, ls, hls⟩ := List.exists_cons_of_ne_nil (List.splitOn_ne_nil '\n' text.toList)
  unfold records
  rw [hchars, List.splitOn_append_cons_self_of_not_mem h, hls]
  dsimp only
  rw [List.getLast?_cons_cons, List.dropLast_cons_cons]
  split_ifs
  · rw [List.map_cons, String.ofList_toList]
  · rw [List.map_cons, String.ofList_toList]

theorem records_last {line : String} (hne : line ≠ "") (h : '\n' ∉ line.toList) :
    records line = [line] := by
  unfold records
  rw [List.splitOn_eq_singleton h]
  dsimp only
  rw [List.getLast?_singleton, if_neg (by simpa using hne), List.map_singleton,
    String.ofList_toList]

def unlines (lines : List String) : String := String.join (lines.map fun line => line ++ "\n")

theorem unlines_cons (line : String) (lines : List String) :
    unlines (line :: lines) = line ++ "\n" ++ unlines lines := String.join_cons

theorem unlines_append (lines lines' : List String) :
    unlines (lines ++ lines') = unlines lines ++ unlines lines' := by
  rw [unlines, List.map_append, String.join_append]
  rfl

/-- Lines with their ends, and a last line that has none yet. -/
theorem records_unlines_append {lines : List String} {last : String}
    (hlines : ∀ line ∈ lines, '\n' ∉ line.toList) (hlast : '\n' ∉ last.toList) :
    records (unlines lines ++ last) = lines ++ if last = "" then [] else [last] := by
  induction lines with
  | nil =>
    have hnil : unlines [] = "" := rfl
    rw [hnil, String.empty_append, List.nil_append]
    split_ifs with hnil
    · rw [hnil, records_empty]
    · exact records_last hnil hlast
  | cons line lines ih =>
    have htail := ih fun l hl => hlines l (List.mem_cons_of_mem line hl)
    rw [unlines_cons, String.append_assoc, records_append (hlines line List.mem_cons_self), htail,
      List.cons_append]

theorem records_unlines {lines : List String} (h : ∀ line ∈ lines, '\n' ∉ line.toList) :
    records (unlines lines) = lines := by
  have hrecords := records_unlines_append h (by simp : '\n' ∉ "".toList)
  rwa [String.append_empty, if_pos rfl, List.append_nil] at hrecords

end Lines

section Runs

universe u

variable {σ : Type u} (rule : σ → String → σ) (s : σ)

def run (lines : List String) : σ := lines.foldl rule s

@[simp] theorem run_nil : run rule s [] = s := rfl

@[simp] theorem run_cons (line : String) (lines : List String) :
    run rule s (line :: lines) = run rule (rule s line) lines := rfl

theorem run_append (pre post : List String) :
    run rule s (pre ++ post) = run rule (run rule s pre) post :=
  List.foldl_append

/-- What holds before the first line and is carried over every line of the input
holds at the end of it. -/
theorem run_induct (Inv : List String → σ → Prop) (lines : List String) (start : Inv [] s)
    (step : ∀ pre t line, line ∈ lines → Inv pre t → Inv (pre ++ [line]) (rule t line)) :
    Inv lines (run rule s lines) := by
  induction lines using List.reverseRecOn with
  | nil => exact start
  | append_singleton pre line ih =>
    rw [run_append]
    apply step pre _ line (by simp)
    apply ih
    intro before t line' hline
    exact step before t line' (List.mem_append_left _ hline)

end Runs

section Numbers

variable {v w : Value}

@[simp] theorem toNum_num (q : ℚ) : (Value.num q).toNum = q := rfl

@[simp] theorem toNum_uninit : Value.uninit.toNum = 0 := rfl

@[simp] theorem toNum_decimal (n : Nat) : (Value.input (decimal n)).toNum = n := atof_decimal n

@[simp] theorem numeric_decimal (n : Nat) : (Value.input (decimal n)).numeric = true :=
  looksNumeric_decimal n

@[simp] theorem toStr_natCast (n : Nat) : (Value.num n).toStr = decimal n := by
  simp only [Value.toStr, Rat.den_natCast, Rat.num_natCast, if_true]
  rfl

theorem eq_iff_toNum (hv : v.numeric) (hw : w.numeric) : v.eq w ↔ v.toNum = w.toNum := by
  simp [Value.eq, hv, hw]

theorem lt_iff_toNum (hv : v.numeric) (hw : w.numeric) : v.lt w ↔ v.toNum < w.toNum := by
  simp [Value.lt, hv, hw]

theorem le_iff_toNum (hv : v.numeric) (hw : w.numeric) : v.le w ↔ v.toNum ≤ w.toNum := by
  simp [Value.le, Value.lt, hv, hw]

theorem eq_str (v : Value) (s : String) : v.eq (.str s) ↔ v.toStr = s := by
  simp [Value.eq, Value.numeric, Value.toStr]

@[simp] theorem input_eq_str (s t : String) : (Value.input s).eq (.str t) = (s == t) := by
  simp [Value.eq, Value.numeric, Value.toStr]

theorem formatD_of_natCast {n : Nat} (h : v.toNum = n) : v.formatD = decimal n := by
  simp only [Value.formatD, h, Rat.den_natCast, Rat.num_natCast, Nat.cast_one, Int.tdiv_one]
  rfl

end Numbers

section Tables

variable {t : Table} {i j v : Value}

@[simp] theorem get_set_self : (t.set i v).get i = v := by
  simp [Table.get, Table.set]

theorem get_set_of_ne (h : j.toStr ≠ i.toStr) : (t.set i v).get j = t.get j := by
  simp [Table.get, Table.set, h]

theorem get_set_natCast (t : Table) (m n : Nat) (v : Value) :
    (t.set (.num m) v).get (.num n) = if n = m then v else t.get (.num n) := by
  by_cases h : n = m
  · rw [if_pos h, h, get_set_self]
  · rw [if_neg h]
    apply get_set_of_ne
    rw [toStr_natCast, toStr_natCast]
    exact fun he => h (decimal_injective he)

theorem get_natCast (t : Table) (n : Nat) :
    t.get (.num n) = t.get (.input (decimal n)) := by
  unfold Table.get
  rw [toStr_natCast]
  rfl

end Tables

end Awk
