import LearnNs2.Trace.MeasureDelay
import LearnNs2.Trace.MeasureDrop

/-!
# Lost packets and delay lines

The script means to mark a lost packet with the end time `-1`, but stores the
mark under `packet_time`, a variable nobody sets. The mark lands on the empty
subscript, and what a packet did before it was lost still counts.
-/

namespace LearnNs2

open Awk Decimal

set_option autoImplicit false

def NoDelayLine (n : Nat) (trace : List String) : Prop :=
  ∃ out, MeasureDelay.output trace = some out ∧ ∀ p, (n, p) ∉ out

/-- Some record of flow 2 shows packet `n` received after its first record, and
the last of these is as late as that. -/
def ReceivedLater (n : Nat) (trace : List String) : Prop :=
  ∃ first last, firstRecord n trace = some first ∧ lastReceived n trace = some last ∧
    (field first 2).toNum < (field last 2).toNum

theorem noDelayLine_iff {trace : List String} (h : ∀ line ∈ trace, Stamped line) (n : Nat) :
    NoDelayLine n trace ↔ ¬ ReceivedLater n trace := by
  obtain ⟨out, hout, hmem⟩ := MeasureDelay.output_spec h
  constructor
  · rintro ⟨out', hout', hno⟩ ⟨first, last, hf, hl, hlt⟩
    obtain rfl : out = out' := Option.some.inj (hout.symm.trans hout')
    exact hno _ ((hmem n _).mpr ⟨first, last, hf, hl, hlt, rfl⟩)
  · intro hnot
    refine ⟨out, hout, ?_⟩
    intro p hp
    obtain ⟨first, last, hf, hl, hlt, -⟩ := (hmem n p).mp hp
    exact hnot ⟨first, last, hf, hl, hlt⟩

/-- The scripts agree: what one counts as lost has no delay line in the other. -/
def LossesAgree (trace : List String) : Prop := ∀ n, Lost n trace → NoDelayLine n trace

/-- The scripts agree on exactly those traces in which no lost packet had been
received, after its first record, somewhere on its way. -/
theorem lossesAgree_iff {trace : List String} (h : ∀ line ∈ trace, Stamped line) :
    LossesAgree trace ↔ ∀ n, Lost n trace → ¬ ReceivedLater n trace := by
  constructor
  · intro hagree n hlost
    exact (noDelayLine_iff h n).mp (hagree n hlost)
  · intro hcond n hlost
    exact (noDelayLine_iff h n).mpr (hcond n hlost)

/-- A packet received at node 2 and then dropped at its queue towards node 3. -/
def secondHopLoss : List String :=
  ["+ 1.0 1 2 cbr 1000 ------- 2 1.0 3.1 0 0",
   "r 1.1 1 2 cbr 1000 ------- 2 1.0 3.1 0 0",
   "d 1.2 2 3 cbr 1000 ------- 2 1.0 3.1 0 0"]

theorem secondHopLoss_stamped : ∀ line ∈ secondHopLoss, Stamped line := by
  have hnumeric : ∀ line ∈ secondHopLoss, (field line 2).numeric := by decide
  have hpositive : ∀ line ∈ secondHopLoss, 0 < (field line 2).toNum := by decide +kernel
  have hid : ∀ line ∈ secondHopLoss, field line 12 = .input (decimal 0) := by decide
  exact fun line h => ⟨hnumeric line h, hpositive line h, 0, hid line h⟩

theorem lossesAgree_fails_at_second_hop :
    (∀ line ∈ secondHopLoss, Stamped line) ∧ Lost 0 secondHopLoss ∧
      ¬ LossesAgree secondHopLoss := by
  have hlost : Lost 0 secondHopLoss := ⟨"d 1.2 2 3 cbr 1000 ------- 2 1.0 3.1 0 0", by decide +kernel⟩
  refine ⟨secondHopLoss_stamped, hlost, ?_⟩
  intro hagree
  apply (noDelayLine_iff secondHopLoss_stamped 0).mp (hagree 0 hlost)
  exact ⟨"+ 1.0 1 2 cbr 1000 ------- 2 1.0 3.1 0 0", "r 1.1 1 2 cbr 1000 ------- 2 1.0 3.1 0 0",
    by decide, by decide +kernel, by decide +kernel⟩

theorem lossesAgree_iff_second_hop :
    LossesAgree secondHopLoss ↔ ∀ n, Lost n secondHopLoss → ¬ ReceivedLater n secondHopLoss :=
  lossesAgree_iff secondHopLoss_stamped

end LearnNs2
