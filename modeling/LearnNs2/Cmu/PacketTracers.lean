import LearnNs2.Cmu.CmuTrace

/-!
# Which packets reach the registered tracers

The tracers are for packet types that `CMUTrace` does not know. A packet of type
`PT_SIMPLE` is known, and reaches them all the same: the text of its header is
printed, and then they may print over it from the same offset.
-/

namespace LearnNs2

set_option autoImplicit false

variable {t : CmuTrace} {pktTrc : List PacketTracer} {p : Packet} {why : String}

section Chains

variable (p) (offset : Nat) (newtrace : Int)

theorem asked_formatUnknow_eq_zero_iff (pktTrc : List PacketTracer) (buffer : List Char) :
    (formatUnknow p offset newtrace pktTrc buffer).2.asked = 0 ↔ pktTrc = [] := by
  cases pktTrc with
  | nil => simp [formatUnknow]
  | cons pt next =>
    unfold formatUnknow
    dsimp only
    split_ifs <;> simp

/-- What stands before the offset is not touched. -/
theorem take_formatUnknow (pktTrc : List PacketTracer) (buffer : List Char)
    (h : offset ≤ buffer.length) :
    (formatUnknow p offset newtrace pktTrc buffer).2.buffer.take offset = buffer.take offset := by
  induction pktTrc generalizing buffer with
  | nil => rfl
  | cons pt next ih =>
    have hlen : offset = (buffer.take offset).length := by rw [List.length_take_of_le h]
    have hkeep : ∀ text, (sprintfAt buffer offset text).take offset = buffer.take offset := by
      intro text
      rw [sprintfAt, List.take_append_of_le_length hlen.le, List.take_take, min_self]
    unfold formatUnknow
    dsimp only
    split_ifs
    · exact hkeep _
    · rw [ih, hkeep]
      rw [sprintfAt, List.length_append, ← hlen]
      exact Nat.le_add_right _ _

end Chains

/-- What the record of a packet is before the text of its own formatter. -/
def CmuTrace.header (t : CmuTrace) (p : Packet) (why : String) : List Char :=
  t.formatMacCommon p why ++ t.formatIp p

theorem format_of_simple (t : CmuTrace) (pktTrc : List PacketTracer) (why : String)
    (h : p.cmn.ptype = ptSimple) :
    t.format pktTrc p why = some (t.formatDefault pktTrc p
      (t.header p why ++ t.formatSimple p) (t.header p why).length) := by
  have hswitch : innerSwitch ptSimple = .simple := by decide
  have hmac : ¬ (ptSimple = ptMac ∨ ptSimple = ptSmac) := by decide
  have harp : ¬ ptSimple = ptArp := by decide
  unfold CmuTrace.format
  simp only [h, hswitch, hmac, harp, if_false, sprintfAt_length]
  rfl

/-- The cases that end with a `break` of their own. -/
theorem format_of_ne_simple (t : CmuTrace) (pktTrc : List PacketTracer) (why : String)
    (hcase : OwnCase p.cmn.ptype) (hne : p.cmn.ptype ≠ ptSimple) :
    t.format pktTrc p why = t.format [] p why ∧ ∀ r ∈ t.format pktTrc p why, r.asked = 0 := by
  have hone : ∀ h buffer offset, ∀ r ∈ t.formatOne h p buffer offset, r.asked = 0 := by
    intro h buffer offset r hr
    obtain ⟨text, -, rfl⟩ := Option.map_eq_some_iff.mp hr
    rfl
  unfold CmuTrace.format
  dsimp only
  by_cases hmac : p.cmn.ptype = ptMac ∨ p.cmn.ptype = ptSmac
  · simp [hmac]
  by_cases harp : p.cmn.ptype = ptArp
  · simp only [if_neg hmac, if_pos harp, true_and]
    exact hone .arp _ _
  have hmem : (p.cmn.ptype, innerSwitch p.cmn.ptype) ∈ innerLabels := by
    rcases hcase with h | h | h | h
    · exact absurd (Or.inl h) hmac
    · exact absurd (Or.inr h) hmac
    · exact absurd h harp
    · exact mem_innerLabels h
  have hlabels : ∀ l ∈ innerLabels, l.2 ≠ .default ∧ (l.2 = .simple → l.1 = ptSimple) := by decide
  obtain ⟨hdefault, hsimple⟩ := hlabels _ hmem
  simp only [if_neg hmac, if_neg harp]
  cases hc : innerSwitch p.cmn.ptype with
  | header h => exact ⟨rfl, hone h _ _⟩
  | silent => simp
  | simple => exact absurd (hsimple hc) hne
  | default => exact absurd hc hdefault

/-- Tracers can print over the text of the packet's own header, not before it. -/
theorem header_prefix_of_simple (t : CmuTrace) (pktTrc : List PacketTracer) (why : String)
    (h : p.cmn.ptype = ptSimple) :
    ∃ r ∈ t.format pktTrc p why, t.header p why <+: r.buffer := by
  refine ⟨_, format_of_simple t pktTrc why h, ?_⟩
  have htake := take_formatUnknow p (t.header p why).length t.newtrace pktTrc
    (t.header p why ++ t.formatSimple p) (by simp)
  rw [List.take_left] at htake
  rw [List.prefix_iff_eq_take]
  exact htake.symm

/-- The registered tracers have nothing to do with the record of a packet, and
a record of type `PT_SIMPLE` ends with the text of its formatter. -/
structure Untraced (t : CmuTrace) (pktTrc : List PacketTracer) (p : Packet) (why : String) :
    Prop where
  same : (t.format pktTrc p why).map Record.buffer = (t.format [] p why).map Record.buffer
  none : ∀ r ∈ t.format pktTrc p why, r.asked = 0
  simple : p.cmn.ptype = ptSimple →
    ∀ r ∈ t.format pktTrc p why, ∃ pre, r.buffer = pre ++ t.formatSimple p

/-- Of the types with a case of their own, only `PT_SIMPLE` reaches a tracer,
and it reaches one whenever there is one. -/
theorem untraced_iff (hcase : OwnCase p.cmn.ptype) :
    Untraced t pktTrc p why ↔ p.cmn.ptype ≠ ptSimple ∨ pktTrc = [] := by
  constructor
  · intro h
    by_cases hs : p.cmn.ptype = ptSimple
    · right
      have hasked := h.none _ (format_of_simple t pktTrc why hs)
      exact (asked_formatUnknow_eq_zero_iff p _ _ pktTrc _).mp hasked
    · exact Or.inl hs
  · rintro (hne | rfl)
    · obtain ⟨hsame, hnone⟩ := format_of_ne_simple t pktTrc why hcase hne
      exact ⟨by rw [hsame], hnone, fun hs => absurd hs hne⟩
    · refine ⟨rfl, ?_, ?_⟩
      · by_cases hs : p.cmn.ptype = ptSimple
        · intro r hr
          rw [format_of_simple t [] why hs] at hr
          obtain rfl := Option.some.inj hr
          rfl
        · exact (format_of_ne_simple t [] why hcase hs).2
      · intro hs r hr
        rw [format_of_simple t [] why hs] at hr
        obtain rfl := Option.some.inj hr
        exact ⟨t.header p why, rfl⟩

/-- One tracer that answers for every packet takes the place of the text. -/
theorem untraced_fails_at_simple :
    let t : CmuTrace :=
      ⟨false, 0, fun _ _ => "s 0.1 _1_ RTR ".toList, fun _ => "[1:255] ".toList, fun _ _ => none⟩
    let pt : PacketTracer := ⟨fun _ _ _ _ => (1, "known".toList)⟩
    let p : Packet := { Packet.alloc with cmn.ptype := ptSimple }
    OwnCase p.cmn.ptype ∧
      (t.format [] p "---").map Record.buffer =
        some "s 0.1 _1_ RTR [1:255] [simple 0 0 0] ".toList ∧
      (t.format [pt] p "---").map Record.buffer = some "s 0.1 _1_ RTR [1:255] known".toList ∧
      ¬ Untraced t [pt] p "---" := by
  intro t pt p
  have hwith : (t.format [pt] p "---").map Record.buffer =
      some "s 0.1 _1_ RTR [1:255] known".toList := by decide
  have hwithout : (t.format [] p "---").map Record.buffer =
      some "s 0.1 _1_ RTR [1:255] [simple 0 0 0] ".toList := by decide
  refine ⟨by decide, hwithout, hwith, ?_⟩
  intro h
  have hsame := h.same
  rw [hwith, hwithout] at hsame
  exact absurd hsame (by decide)

/-- An AODV packet with a tracer, and a Simple packet without one. -/
theorem untraced_iff_two :
    let t : CmuTrace :=
      ⟨false, 0, fun _ _ => "s 0.1 _1_ RTR ".toList, fun _ => "[1:255] ".toList, fun _ _ => none⟩
    let pt : PacketTracer := ⟨fun _ _ _ _ => (1, "known".toList)⟩
    Untraced t [pt] { Packet.alloc with cmn.ptype := ptAodv } "---" ∧
      Untraced t [] { Packet.alloc with cmn.ptype := ptSimple } "---" :=
  ⟨(untraced_iff (by decide)).mpr (Or.inl (by decide)),
    (untraced_iff (by decide)).mpr (Or.inr rfl)⟩

end LearnNs2
