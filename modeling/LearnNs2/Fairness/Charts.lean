import LearnNs2.Fairness.Agreement
import LearnNs2.Lib.SortLines

/-!
# `append` and `finish`

The rows of all experiments are collected in one file; `finish` makes four charts
of it, sorted by arrival rate, and puts them into one file for xgraph. How `%g`
prints is left open, since no format here has one.
-/

namespace LearnNs2

open Awk Decimal

set_option autoImplicit false

namespace Charts

section Program

variable (general : ℕ → ℚ → List Char)

def floats : Printf.Floats ℚ := ⟨fixedText, general⟩

def printed (p : Print) : String :=
  String.ofList (Printf.print (floats general) (Printf.pieces p.fmt)
    (p.args.map fun v => .num v.toNum))

/-- What the program prints goes behind what the file has. -/
def append (datafile : String) (cbrs : Nat) (infile : List String) : String :=
  datafile ++ String.join ((AppendAwk.output cbrs infile).map (printed general))

/-- The calls of `run_sim`, one for each experiment. -/
def collect (datafile : String) (xs : List Experiment) : String :=
  xs.foldl (fun d x => append general d x.cbrs x.file) datafile

def point (x y : Value) : Print := ⟨"%8.2f %8.2f\n", [x, y]⟩

def awkCode1 (line : String) : List Print := [point (field line 1) (field line 1)]

/-- The points of a column that are not zero. -/
def columnCode (n : Nat) (line : String) : List Print :=
  if (field line n).eq (.num 0) then [] else [point (field line 1) (field line n)]

def awkCode2 : String → List Print := columnCode 2

def awkCode3 : String → List Print := columnCode 3

def awkCode4 (line : String) : List Print :=
  let both : Value := .num ((field line 2).toNum + (field line 3).toNum)
  if both.eq (.num 0) then [] else [point (field line 1) both]

/-- `exec awk $awkCode $datafile | sort -n` -/
def chart (awkCode : String → List Print) (datafile : String) : String :=
  let out := String.join (((records datafile).flatMap awkCode).map (printed general))
  unlines (sortN (records out))

def puts (s : String) : String := s ++ "\n"

/-- The file `temp.rands`. -/
def finish (psfile datafile : String) : String :=
  let chart1 := chart general awkCode3 datafile
  let chart2 := chart general awkCode1 datafile
  let chart3 := chart general awkCode4 datafile
  puts ("TitleText: " ++ psfile) ++ puts "Device: Postscript" ++ puts "\"UdpArrivals" ++ chart2 ++
    puts "\n\"UdpGoodput" ++ chart general awkCode2 datafile ++ puts "\n\"TcpGoodput" ++ chart1 ++
    puts "\n\"AggregateGoodput" ++ chart3

end Program

section Reader

abbrev Point := ℚ × ℚ

/-- The name of a set of points. -/
def title? (line : String) : Option String :=
  match line.toList with
  | '"' :: name => some (String.ofList name)
  | _ => none

def point? (line : String) : Option Point :=
  match words line with
  | [x, y] => if looksNumeric x && looksNumeric y then some (atof x, atof y) else none
  | _ => none

/-- Sets of points stand apart by empty lines; lines of another kind are options. -/
def readSets (text : String) : List (Option String × List Point) :=
  ((records text).splitOn "").map fun ls => (ls.findSome? title?, ls.filterMap point?)

end Reader

end Charts

end LearnNs2
