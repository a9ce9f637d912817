import LearnNs2.Cmu.CmuTrace

/-!
# What the text of a Simple header says

Each of the three renderings of `format_simple` names the same three numbers in
the same order, so a reader gets the header back from any of them.
-/

namespace LearnNs2

open Decimal

set_option autoImplicit false

/-- The branches of `format_simple`. -/
inductive Rendering where
  | tagged
  | newTrace
  | oldTrace
  deriving Repr, DecidableEq

namespace Rendering

def fmt : Rendering → List Char
  | tagged => "-simple:o %d -simple:s %d -simple:l %d ".toList
  | newTrace => "-P simple -Po %d -Ps %d -Pl %d ".toList
  | oldTrace => "[simple %d %d %d] ".toList

theorem readable_fmt (m : Rendering) : Readable true m.fmt ∧ conversions m.fmt = 3 := by
  cases m <;> decide

theorem take_sprintf (m : Rendering) (args : List ℤ) :
    (sprintf m.fmt args).take 2 = m.fmt.take 2 := by
  cases m <;> rfl

theorem eq_of_sprintf_eq {m n : Rendering} {xs ys : List ℤ}
    (h : sprintf m.fmt xs = sprintf n.fmt ys) : m = n := by
  have hbegin := congrArg (List.take 2) h
  rw [take_sprintf, take_sprintf] at hbegin
  cases m <;> cases n <;> first | rfl | exact absurd hbegin (by decide)

end Rendering

def CmuTrace.rendering (t : CmuTrace) : Rendering :=
  if t.tagged then .tagged else if t.newtrace ≠ 0 then .newTrace else .oldTrace

def HdrSimplePkt.numbers (ph : HdrSimplePkt) : List ℤ :=
  [ph.pktSrc.toInt, ph.pktSeqNum.toNat, ph.pktLen.toNat]

theorem HdrSimplePkt.numbers_injective : Function.Injective HdrSimplePkt.numbers := by
  rintro ⟨src, len, seq⟩ ⟨src', len', seq'⟩ h
  simp only [HdrSimplePkt.numbers, List.cons.injEq, Nat.cast_inj, and_true] at h
  obtain ⟨hsrc, hseq, hlen⟩ := h
  rw [Int32.toInt_inj] at hsrc
  rw [UInt8.toNat_inj] at hseq
  rw [UInt16.toNat_inj] at hlen
  rw [hsrc, hseq, hlen]

theorem formatSimple_eq (t : CmuTrace) (p : Packet) :
    t.formatSimple p = sprintf t.rendering.fmt p.simple.numbers := by
  unfold CmuTrace.formatSimple CmuTrace.rendering
  split_ifs <;> rfl

theorem integers_formatSimple (t : CmuTrace) (p : Packet) :
    integers (t.formatSimple p) = p.simple.numbers := by
  obtain ⟨hread, hcount⟩ := t.rendering.readable_fmt
  rw [formatSimple_eq]
  exact integers_sprintf hread (by rw [hcount]; rfl)

/-- The numbers in the text are the fields of the header, whatever the mode, and
two texts are equal only for one mode and one header. -/
theorem simple_text (t t' : CmuTrace) (p p' : Packet) :
    integers (t.formatSimple p) =
        [p.simple.pktSrc.toInt, p.simple.pktSeqNum.toNat, p.simple.pktLen.toNat] ∧
      (t.formatSimple p = t'.formatSimple p' ↔
        t.rendering = t'.rendering ∧ p.simple = p'.simple) := by
  refine ⟨integers_formatSimple t p, ?_, ?_⟩
  · intro h
    constructor
    · rw [formatSimple_eq, formatSimple_eq] at h
      exact Rendering.eq_of_sprintf_eq h
    · have hnumbers := congrArg integers h
      rw [integers_formatSimple, integers_formatSimple] at hnumbers
      exact HdrSimplePkt.numbers_injective hnumbers
  · rintro ⟨hmode, hheader⟩
    rw [formatSimple_eq, formatSimple_eq, hmode, hheader]

end LearnNs2
