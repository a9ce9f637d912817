import LearnNs2.Lib.Awk

/-!
# Trace records

What the scripts of the first experiment ask of one line of the trace file, and
the records of one packet in a trace.
-/

namespace LearnNs2

open Awk Decimal

set_option autoImplicit false

/-- A record with a positive time and a packet number, as ns-2 writes them. -/
structure Stamped (line : String) : Prop where
  numeric : (field line 2).numeric
  positive : 0 < (field line 2).toNum
  packetId : ∃ n, field line 12 = .input (decimal n)

def timeNum (line : String) : ℚ := (field line 2).toNum

/-- The subscript under which a record is known, whatever its text. -/
def packetId (line : String) : String := (field line 12).toStr

def recordsOf (id : String) (trace : List String) : List String :=
  trace.filter fun line => packetId line = id

def hasId (n : Nat) (line : String) : Bool := field line 12 = .input (decimal n)

def flowTwo (action : String) (line : String) : Bool :=
  (field line 8).eq (.num 2) && (field line 1).eq (.str action)

def firstRecord (n : Nat) (trace : List String) : Option String := trace.find? (hasId n)

/-- The last record of flow 2 that says packet `n` was received somewhere. -/
def lastReceived (n : Nat) (trace : List String) : Option String :=
  (trace.filter fun line => hasId n line && flowTwo "r" line).getLast?

section Append

variable {n : Nat} {trace : List String} {line : String}

theorem hasId_iff : hasId n line = true ↔ field line 12 = .input (decimal n) := by
  simp [hasId]

theorem firstRecord_append (n : Nat) (trace : List String) (line : String) :
    firstRecord n (trace ++ [line]) =
      (firstRecord n trace).or (if hasId n line then some line else none) := by
  unfold firstRecord
  rw [List.find?_append]
  cases h : hasId n line <;> simp [h]

theorem lastReceived_append (n : Nat) (trace : List String) (line : String) :
    lastReceived n (trace ++ [line]) =
      if hasId n line && flowTwo "r" line then some line else lastReceived n trace := by
  unfold lastReceived
  rw [List.filter_append]
  cases h : hasId n line && flowTwo "r" line
  · simp [h]
  · simp [h]

theorem mem_of_firstRecord (h : firstRecord n trace = some line) :
    line ∈ trace ∧ hasId n line = true :=
  ⟨List.mem_of_find?_eq_some h, List.find?_some h⟩

theorem mem_of_lastReceived (h : lastReceived n trace = some line) :
    line ∈ trace ∧ hasId n line = true := by
  obtain ⟨hmem, hline⟩ := List.mem_filter.mp (List.mem_of_getLast? h)
  rw [Bool.and_eq_true] at hline
  exact ⟨hmem, hline.1⟩

end Append

end LearnNs2
