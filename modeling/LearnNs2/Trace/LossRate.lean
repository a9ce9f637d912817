import LearnNs2.Trace.MeasureDrop
import Mathlib.Algebra.Order.Field.Rat
import Mathlib.Data.Finset.Card

/-!
# The loss rate

The number of packets sent counts the records of one link, whatever the flow,
and the number of packets lost counts the records of one flow, whatever the
link. Packet numbers connect the two: what is lost was sent once.
-/

namespace LearnNs2

open Awk Decimal

set_option autoImplicit false

namespace MeasureDrop

def onFlowTwo (line : String) : Bool := (field line 8).eq (.num 2)

/-- The packets of flow 2 that have a `d` record. -/
def lostIds (trace : List String) : Finset String :=
  ((trace.filter (flowTwo "d")).map packetId).toFinset

/-- The packets that are sent from node 1 to node 2. -/
def sentIds (trace : List String) : Finset String :=
  ((trace.filter departs).map packetId).toFinset

/-- What a trace must say of the packets of flow 2. -/
structure Accountable (trace : List String) : Prop where
  some : ∃ line ∈ trace, onFlowTwo line
  sent : ∀ line ∈ trace, onFlowTwo line → packetId line ∈ sentIds trace
  once : ((trace.filter (flowTwo "d")).map packetId).Nodup

section Counts

variable {trace : List String}

theorem onFlowTwo_of_flowTwo {action line : String} (h : flowTwo action line) :
    onFlowTwo line := by
  unfold flowTwo at h
  rw [Bool.and_eq_true] at h
  exact h.1

theorem card_sentIds_le (trace : List String) :
    (sentIds trace).card ≤ (trace.filter departs).length := by
  have h := List.toFinset_card_le ((trace.filter departs).map packetId)
  rwa [List.length_map] at h

theorem Accountable.card_lostIds (h : Accountable trace) :
    (lostIds trace).card = (trace.filter (flowTwo "d")).length := by
  rw [lostIds, List.toFinset_card_of_nodup h.once, List.length_map]

/-- A lost packet was sent. -/
theorem Accountable.lostIds_subset (h : Accountable trace) : lostIds trace ⊆ sentIds trace := by
  intro id hid
  obtain ⟨line, hline, rfl⟩ := List.mem_map.mp (List.mem_toFinset.mp hid)
  obtain ⟨hmem, hflow⟩ := List.mem_filter.mp hline
  exact h.sent line hmem (onFlowTwo_of_flowTwo hflow)

theorem Accountable.lost_le_sent (h : Accountable trace) :
    (lostIds trace).card ≤ (trace.filter departs).length :=
  (Finset.card_le_card h.lostIds_subset).trans (card_sentIds_le trace)

theorem Accountable.sent_pos (h : Accountable trace) : 0 < (trace.filter departs).length := by
  obtain ⟨line, hline, hflow⟩ := h.some
  have hsent : 0 < (sentIds trace).card := Finset.card_pos.mpr ⟨_, h.sent line hline hflow⟩
  exact hsent.trans_le (card_sentIds_le trace)

end Counts

/-- The script counts every lost packet once, no more than were sent, and the
rate it prints is a proper one. -/
theorem loss_rate {trace : List String} (h : Accountable trace) :
    ∃ (sent : Nat) (rate : ℚ),
      output trace = (⟨"number of packet sent:%d lost:%d\n", [.num sent, .num (lostIds trace).card]⟩,
        some ⟨"the loss rate of packets is:%f\n", [.num rate]⟩) ∧
      (lostIds trace).card ≤ sent ∧ 0 < sent ∧ rate = (lostIds trace).card / sent ∧
      0 ≤ rate ∧ rate ≤ 1 := by
  have hle := h.lost_le_sent
  have hpos := h.sent_pos
  refine ⟨(trace.filter departs).length,
    (lostIds trace).card / (trace.filter departs).length, ?_, hle, hpos, rfl, ?_, ?_⟩
  · have hne : ((trace.filter departs).length : ℚ) ≠ 0 := Nat.cast_ne_zero.mpr hpos.ne'
    rw [output, run_eq, finish, if_neg hne, h.card_lostIds]
  · positivity
  · rw [div_le_one (Nat.cast_pos.mpr hpos)]
    exact_mod_cast hle

/-- Two packets of flow 2 and one of flow 1, and one packet of flow 2 lost. -/
theorem loss_rate_half :
    let trace := ["+ 1.0 1 2 cbr 1000 ------- 2 1.0 3.1 0 0", "+ 1.1 0 2 tcp 40 ------- 1 0.0 3.0 0 1",
      "+ 1.2 1 2 cbr 1000 ------- 2 1.0 3.1 1 2", "d 1.3 2 3 cbr 1000 ------- 2 1.0 3.1 0 0"]
    (lostIds trace).card = 1 ∧ ∃ sent : Nat, 1 ≤ sent ∧ ∃ rate : ℚ, rate = 1 / sent ∧ rate ≤ 1 := by
  intro trace
  have h : Accountable trace := by
    constructor
    · decide +kernel
    · decide +kernel
    · decide +kernel
  have hcard : (lostIds trace).card = 1 := by decide +kernel
  obtain ⟨sent, rate, -, hle, -, hrate, -, hone⟩ := loss_rate h
  rw [hcard] at hle hrate
  exact ⟨hcard, sent, hle, rate, by simpa using hrate, hone⟩

end MeasureDrop

end LearnNs2
