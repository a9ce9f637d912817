import LearnNs2.Trace.Records

/-!
# `measure-drop.awk`

Two counters and a rate. The rate is not computed when nothing was sent, since
awk stops at a division by zero.
-/

namespace LearnNs2

open Awk Decimal

set_option autoImplicit false

namespace MeasureDrop

structure Vars where
  fsDrops : ℚ
  numFs : ℚ

def begin : Vars := ⟨0, 0⟩

def departs (line : String) : Bool :=
  (field line 3).eq (.num 1) && (field line 4).eq (.num 2) && (field line 1).eq (.str "+")

def main (s : Vars) (line : String) : Vars :=
  let s := if departs line then { s with numFs := s.numFs + 1 } else s
  if flowTwo "d" line then { s with fsDrops := s.fsDrops + 1 } else s

/-- The lines of `END`, with `none` for a fatal error in place of the second. -/
def finish (s : Vars) : Print × Option Print :=
  (⟨"number of packet sent:%d lost:%d\n", [.num s.numFs, .num s.fsDrops]⟩,
    if s.numFs = 0 then none
    else some ⟨"the loss rate of packets is:%f\n", [.num (s.fsDrops / s.numFs)]⟩)

def output (trace : List String) : Print × Option Print := finish (run main begin trace)

/-- Each counter counts the records its test accepts. -/
theorem run_eq (trace : List String) :
    run main begin trace =
      ⟨(trace.filter (flowTwo "d")).length, (trace.filter departs).length⟩ := by
  apply run_induct main begin
    (fun pre s => s = ⟨(pre.filter (flowTwo "d")).length, (pre.filter departs).length⟩)
  · rfl
  · rintro pre t line - rfl
    unfold main
    cases hd : departs line <;> cases hl : flowTwo "d" line <;> simp [hd, hl]

end MeasureDrop

/-- A packet with a record that `measure-drop.awk` counts as lost. -/
def Lost (n : Nat) (trace : List String) : Prop :=
  ∃ line ∈ trace, hasId n line ∧ flowTwo "d" line

end LearnNs2
