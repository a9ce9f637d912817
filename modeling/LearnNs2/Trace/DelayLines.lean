import LearnNs2.Trace.LostPackets
import Mathlib.Data.List.Sort

/-!
# The delay lines of a trace

One line for each packet that is received after its first record, in the order
of the packet numbers. A line only depends on the records of its packet, so two
traces that interleave the same packets differently have the same lines.
-/

namespace LearnNs2

open Awk Decimal

set_option autoImplicit false

/-- The line of packet `n`: its first time, and how much later it was last received. -/
structure DelayLine (trace : List String) (n : Nat) (p : Print) (first last : String) : Prop where
  start : firstRecord n trace = some first
  stop : lastReceived n trace = some last
  positive : 0 < (field last 2).toNum - (field first 2).toNum
  text : p = MeasureDelay.lineOf first last

/-- The same packets with the same records each, however interleaved. -/
def SamePackets (trace trace' : List String) : Prop :=
  ∀ n, trace.filter (hasId n) = trace'.filter (hasId n)

section Packets

variable {trace trace' : List String} {n : Nat} {p : Print} {first last : String}

theorem firstRecord_eq (n : Nat) (trace : List String) :
    firstRecord n trace = (trace.filter (hasId n)).head? :=
  List.head?_filter.symm

theorem lastReceived_eq (n : Nat) (trace : List String) :
    lastReceived n trace = ((trace.filter (hasId n)).filter (flowTwo "r")).getLast? := by
  rw [List.filter_filter]
  unfold lastReceived
  congr 2
  funext line
  exact Bool.and_comm _ _

theorem SamePackets.delayLine (same : SamePackets trace trace')
    (h : DelayLine trace n p first last) : DelayLine trace' n p first last := by
  refine ⟨?_, ?_, h.positive, h.text⟩
  · rw [firstRecord_eq, ← same n, ← firstRecord_eq]
    exact h.start
  · rw [lastReceived_eq, ← same n, ← lastReceived_eq]
    exact h.stop

theorem SamePackets.symm (same : SamePackets trace trace') : SamePackets trace' trace :=
  fun n => (same n).symm

end Packets

namespace MeasureDelay

/-- Lines come in the order of the loop variable, one for each of its values at most. -/
def Ordered (out : List (Nat × Print)) : Prop := out.Pairwise fun a b => a.1 < b.1

theorem Ordered.eq_of_mem_iff {out out' : List (Nat × Print)} (h : Ordered out)
    (h' : Ordered out') (same : ∀ n p, (n, p) ∈ out ↔ (n, p) ∈ out') : out = out' := by
  have : Std.Antisymm fun a b : Nat × Print => a.1 < b.1 :=
    ⟨fun a b hab hba => absurd hab (Nat.lt_asymm hba)⟩
  have : Std.Irrefl fun a b : Nat × Print => a.1 < b.1 := ⟨fun a => Nat.lt_irrefl a.1⟩
  exact List.Pairwise.eq_of_mem_iff h h' fun a => same a.1 a.2

theorem ordered_finish {s : Vars} {h : Nat} (hnum : s.highestPacketId.numeric)
    (hval : s.highestPacketId.toNum = h) : ∀ out ∈ finish s, Ordered out := by
  intro out hout
  rw [finish_eq hnum hval, Option.mem_some] at hout
  rw [← hout]
  apply List.pairwise_flatMap.mpr
  constructor
  · intro n _
    cases delayLine s n <;> simp
  · apply List.pairwise_lt_range.imp
    intro m n hlt a ha b hb
    obtain ⟨-, -, rfl⟩ := List.mem_map.mp ha
    obtain ⟨-, -, rfl⟩ := List.mem_map.mp hb
    exact hlt

variable {trace : List String}

theorem output_lines (h : ∀ line ∈ trace, Stamped line) :
    ∃ out, output trace = some out ∧ Ordered out ∧
      ∀ n p, (n, p) ∈ out ↔ ∃ first last, DelayLine trace n p first last := by
  obtain ⟨out, hout, hmem⟩ := output_spec h
  have ht := tracks_run h
  obtain ⟨top, hval, -⟩ := ht.highest
  refine ⟨out, hout, ordered_finish ht.numeric hval out hout, ?_⟩
  intro n p
  rw [hmem]
  constructor
  · rintro ⟨first, last, hf, hl, hlt, hp⟩
    exact ⟨first, last, hf, hl, sub_pos.mpr hlt, hp⟩
  · rintro ⟨first, last, hline⟩
    exact ⟨first, last, hline.start, hline.stop, sub_pos.mp hline.positive, hline.text⟩

/-- The script prints the delay lines in the order of the packets, and prints
the same for every other interleaving of the same packets. -/
theorem delay_lines (h : ∀ line ∈ trace, Stamped line) :
    ∃ out, output trace = some out ∧ Ordered out ∧
      (∀ n p, (n, p) ∈ out ↔ ∃ first last, DelayLine trace n p first last) ∧
      ∀ trace', (∀ line ∈ trace', Stamped line) → SamePackets trace trace' →
        output trace' = some out := by
  obtain ⟨out, hout, hordered, hmem⟩ := output_lines h
  refine ⟨out, hout, hordered, hmem, ?_⟩
  intro trace' h' same
  obtain ⟨out', hout', hordered', hmem'⟩ := output_lines h'
  have heq : out' = out := by
    apply hordered'.eq_of_mem_iff hordered
    intro n p
    rw [hmem, hmem']
    constructor
    · rintro ⟨first, last, hline⟩
      exact ⟨first, last, same.symm.delayLine hline⟩
    · rintro ⟨first, last, hline⟩
      exact ⟨first, last, same.delayLine hline⟩
  rw [hout', heq]

/-- A packet that is received and then lost, and what is printed for it. -/
theorem delay_lines_second_hop :
    ∃ out, output secondHopLoss = some out ∧ ∃ p, (0, p) ∈ out := by
  obtain ⟨out, hout, -, hmem, -⟩ := delay_lines secondHopLoss_stamped
  refine ⟨out, hout, _, (hmem 0 _).mpr ⟨"+ 1.0 1 2 cbr 1000 ------- 2 1.0 3.1 0 0",
    "r 1.1 1 2 cbr 1000 ------- 2 1.0 3.1 0 0", ?_, ?_, ?_, rfl⟩⟩
  · decide
  · decide +kernel
  · decide +kernel

end MeasureDelay

end LearnNs2
