import LearnNs2.Lib.Awk
import Mathlib.Algebra.BigOperators.Group.List.Basic
import Mathlib.Tactic.Ring

/-!
# The awk program of `append`

One function for each `if` of the program, in its order. The program stands
between braces, so Tcl leaves `$cbrs` alone and awk reads it as the field whose
number is the value of the awk variable `cbrs`.
-/

namespace LearnNs2

open Awk Decimal

set_option autoImplicit false

namespace AppendAwk

structure Vars where
  time : Value
  cbrs : Value
  size : Table
  packets : Table
  goodput : Table
  cbrFraction : Value
  cbrrate : Value
  printed : List Print

/-- The command line assigns `cbrs` and nothing else. -/
def begin (cbrs : Nat) : Vars :=
  ⟨.uninit, .input (decimal cbrs), .empty, .empty, .empty, .uninit, .uninit, []⟩

def stopRule (line : String) (s : Vars) : Vars :=
  if (field line 1).eq (.str "stop-time") then { s with time := field line 2 } else s

def sizeRule (line : String) (s : Vars) : Vars :=
  if (field line 3).eq (.str "packet-size") then
    { s with size := s.size.set (field line 2) (field line 4) }
  else
    s

/-- The rule for a count of packets, with the element of `goodput` it adds to. -/
def countRule (word : String) (i : Value) (line : String) (s : Vars) : Vars :=
  if (field line 3).eq (.str word) then
    let fid := field line 2
    let packets := s.packets.set fid (.num ((s.packets.get fid).toNum + (field line 4).toNum))
    { s with
      packets := packets
      goodput := s.goodput.set i (.num ((s.goodput.get i).toNum +
        ((packets.get fid).toNum * (s.size.get fid).toNum * 8) / 1000)) }
  else
    s

def ackedRule : String → Vars → Vars := countRule "total_packets_acked" (.num 1)

def receivedRule : String → Vars → Vars := countRule "total_packets_received" (.num 0)

def fractionRule (line : String) (s : Vars) : Vars :=
  if (field line 1).eq (.str "cbrs:") && (field line 3).eq (.str "tcps:") then
    let both := (field line 2).toNum + (field line 4).toNum
    if both = 0 then { s with cbrFraction := .num 0 }
    else { s with cbrFraction := .num ((field line 2).toNum / both) }
  else
    s

def row (s : Vars) : Print :=
  ⟨"%8.2f %8.2f %8.2f %8.2f\n", [s.cbrrate,
    .num ((s.goodput.get (.num 0)).toNum / s.time.toNum),
    .num ((s.goodput.get (.num 1)).toNum / s.time.toNum), s.cbrFraction]⟩

/-- `$cbrs`: the field, not the variable. -/
def dollarCbrs (line : String) (s : Vars) : Value := field line ⌊s.cbrs.toNum⌋₊

def rateRule (line : String) (s : Vars) : Vars :=
  if (field line 2).lt (dollarCbrs line s) then
    { s with cbrrate := .num (s.cbrrate.toNum +
        (((field line 4).toNum * (s.size.get (.num 0)).toNum * 8) / s.time.toNum) / 1000) }
  else
    s

def rowRule (line : String) (s : Vars) : Vars :=
  if (field line 2).eq (.num ((dollarCbrs line s).toNum - 1)) then
    { s with printed := s.printed ++ [row s] }
  else
    s

def arrivalRule (line : String) (s : Vars) : Vars :=
  if (field line 3).eq (.str "arriving_pkts") && (Value.num 0).lt s.time then
    rowRule line (rateRule line s)
  else
    s

def main (s : Vars) (line : String) : Vars :=
  arrivalRule line (fractionRule line (receivedRule line (ackedRule line
    (sizeRule line (stopRule line s)))))

section Lines

variable {line : String} {s : Vars}

theorem main_size (h1 : field line 1 = .input "fid") (h3 : field line 3 = .input "packet-size") :
    main s line = { s with size := s.size.set (field line 2) (field line 4) } := by
  simp [main, stopRule, sizeRule, ackedRule, receivedRule, countRule, fractionRule, arrivalRule,
    h1, h3]

theorem main_received (h1 : field line 1 = .input "fid")
    (h3 : field line 3 = .input "total_packets_received") :
    main s line = receivedRule line s := by
  simp [main, stopRule, sizeRule, ackedRule, receivedRule, countRule, fractionRule, arrivalRule,
    h1, h3]

theorem main_acked (h1 : field line 1 = .input "fid")
    (h3 : field line 3 = .input "total_packets_acked") :
    main s line = ackedRule line s := by
  simp [main, stopRule, sizeRule, ackedRule, receivedRule, countRule, fractionRule, arrivalRule,
    h1, h3]

theorem main_stop (h1 : field line 1 = .input "stop-time") (h3 : field line 3 = .uninit) :
    main s line = { s with time := field line 2 } := by
  have hno : ∀ word, word ≠ "" → (Value.uninit).eq (.str word) = false := by
    intro word hne
    apply Bool.eq_false_iff.mpr
    rw [ne_eq, eq_str]
    exact fun h => hne h.symm
  simp [main, stopRule, sizeRule, ackedRule, receivedRule, countRule, fractionRule, arrivalRule,
    h1, h3, hno]

theorem main_cbrs (h1 : field line 1 = .input "cbrs:") (h3 : field line 3 = .input "tcps:") :
    main s line = fractionRule line s := by
  simp [main, stopRule, sizeRule, ackedRule, receivedRule, countRule, fractionRule, arrivalRule,
    h1, h3]

theorem main_class (h1 : field line 1 = .input "class")
    (h3 : field line 3 = .input "arriving_pkts") (ht : (Value.num 0).lt s.time) :
    main s line = rowRule line (rateRule line s) := by
  simp [main, stopRule, sizeRule, ackedRule, receivedRule, countRule, fractionRule, arrivalRule,
    h1, h3, ht]

end Lines

def output (cbrs : Nat) (infile : List String) : List Print :=
  (run main (begin cbrs) infile).printed

end AppendAwk

end LearnNs2
