import LearnNs2.Simple.Network

/-!
# The IP header is counted once

Only the source adds `IP_HDR_LEN`, and it does so only while the hop count is
zero. Every hand-over raises that count, so a packet that comes back to its
source fails the loop check before anything else is looked at.
-/

namespace LearnNs2

open LabelledRuns

set_option autoImplicit false

universe u

variable {ι : Type u} {s t : Net ι} {es : List (Event ι)} {c : Call ι}

/-- A packet as an application at its source hands it over. -/
structure OwnPacket (c : Call ι) : Prop where
  data : c.packet.IsData
  source : c.packet.ip.saddr = c.agent.raAddr
  unforwarded : c.packet.cmn.numForwards = 0

structure HeaderOnce (es : List (Event ι)) (t : Net ι) (c : Call ι) : Prop where
  accepted : ∀ q, .drop q .routeLoop ∉ c.effects
  atSource : ∃ q, packets c.effects = [q] ∧ q.CopyOf c.packet ∧
    q.cmn.size = c.packet.cmn.size + ipHdrLen
  inAir : ∀ f ∈ t.air, f.id = c.id → f.packet.cmn.size = c.packet.cmn.size + ipHdrLen
  received : ∀ f c' keep, .handOver f c' keep ∈ es → c'.id = c.id →
    c'.packet.cmn.size = c.packet.cmn.size + ipHdrLen
  handled : ∀ f c' keep, .handOver f c' keep ∈ es → c'.id = c.id →
    ∀ q ∈ packets c'.effects, q.cmn.size = c.packet.cmn.size + ipHdrLen
  back : ∀ f c' keep, .handOver f c' keep ∈ es → c'.id = c.id → c'.node = c.node →
    c'.effects = [.drop c'.packet .routeLoop]

/-- What every copy of a packet with source address `src` and charged size `n`
keeps on its way. -/
def Charged (src : Nsaddr) (n : Int) (q : Packet) : Prop :=
  q.ip.saddr = src ∧ q.cmn.size = n ∧ 0 ≤ q.cmn.numForwards

theorem OwnPacket.chargedSize (h : OwnPacket c) :
    c.agent.chargedSize c.packet = c.packet.cmn.size + ipHdrLen := by
  simp [Simple.chargedSize, h.source, h.unforwarded]

theorem OwnPacket.not_loops (h : OwnPacket c) : ¬ c.agent.Loops c.packet := by
  intro hl
  have hpos := hl.2
  rw [h.unforwarded] at hpos
  omega

/-- The first call lets go of the packet once, as a copy that is not from a loop. -/
theorem OwnPacket.leaves (h : OwnPacket c) : (∀ q, .drop q .routeLoop ∉ c.effects) ∧
    ∃ q, packets c.effects = [q] ∧ q.CopyOf c.packet := by
  have ho := c.agent.recv_outcome c.packet
  unfold Call.effects
  generalize c.agent.recv c.packet = es at ho
  cases ho with
  | loop hl => exact absurd hl h.not_loops
  | badSport _ hs => exact absurd h.data hs
  | badDport _ hs => exact absurd h.data hs
  | freed _ hs => exact absurd h.data hs
  | expired => exact ⟨by simp, _, rfl, c.agent.copyOf_aged c.packet⟩
  | here => exact ⟨by simp, _, rfl, c.agent.copyOf_aged c.packet⟩
  | flood => exact ⟨by simp, _, rfl, c.agent.copyOf_directed c.packet _⟩
  | noRoute => exact ⟨by simp, _, rfl, c.agent.copyOf_aged c.packet⟩
  | routed => exact ⟨by simp, _, rfl, c.agent.copyOf_directed c.packet _⟩

theorem OwnPacket.charged_sent (h : OwnPacket c) {q : Packet} (hq : q ∈ sent c.effects) :
    Charged c.agent.raAddr (c.packet.cmn.size + ipHdrLen) q := by
  obtain ⟨-, -, -, -, next, rfl⟩ := Simple.mem_sent_recv hq
  refine ⟨h.source, h.chargedSize, ?_⟩
  have := h.unforwarded
  change 0 ≤ c.packet.cmn.numForwards
  omega

/-- A copy that comes down to an agent either is not its own or loops. -/
theorem Charged.chargedSize {src : Nsaddr} {n : Int} {q : Packet} (h : Charged src n q)
    (a : Simple) : a.chargedSize q.lower = n := by
  by_cases hs : src = a.raAddr
  · have hl : a.Loops q.lower := by
      refine ⟨h.1.trans hs, ?_⟩
      have := h.2.2
      change 0 < q.cmn.numForwards + 1
      omega
    exact (Simple.chargedSize_of_loops hl).trans h.2.1
  · have hne : q.lower.ip.saddr ≠ a.raAddr := fun he => hs (h.1.symm.trans he)
    exact (Simple.chargedSize_of_ne hne).trans h.2.1

theorem Charged.relay {src : Nsaddr} {n : Int} {q q' : Packet} (h : Charged src n q) {a : Simple}
    (hq : q' ∈ sent (a.recv q.lower)) : Charged src n q' := by
  obtain ⟨-, -, -, -, next, rfl⟩ := Simple.mem_sent_recv hq
  refine ⟨h.1, h.chargedSize a, ?_⟩
  have := h.2.2
  change 0 ≤ q.cmn.numForwards + 1
  omega

/-- The source is the only node of its address, so all the header accounting of
an own packet happens in its first call. -/
theorem headerOnce [DecidableEq ι] (run : Run Step s es t) (start : s.Start) (hc : .inject c ∈ es)
    (own : OwnPacket c) : HeaderOnce es t c := by
  have hfits := run_fits run
  obtain ⟨hair, hflight⟩ := run_follow run start.quiet hc (n := c.id) rfl
    (Charged c.agent.raAddr (c.packet.cmn.size + ipHdrLen))
    (fun g hg => own.charged_sent (Call.mem_flights hg).2.1)
    (fun _ _ _ _ _ hq hsent => hq.relay hsent)
  refine ⟨own.leaves.1, ?_, fun f hf hid => (hair f hf hid).2.1, ?_, ?_, ?_⟩
  · obtain ⟨q, hq, hcopy⟩ := own.leaves.2
    have hsize := Simple.size_of_mem_packets (hq ▸ List.mem_singleton_self q)
    exact ⟨q, hq, hcopy, hsize.trans own.chargedSize⟩
  · intro f c' keep hmem hid
    obtain ⟨hq, hp⟩ := hflight f c' keep hmem hid
    rw [hp]
    exact hq.2.1
  · intro f c' keep hmem hid q hq
    obtain ⟨hf, hp⟩ := hflight f c' keep hmem hid
    rw [Simple.size_of_mem_packets hq, hp]
    exact hf.chargedSize c'.agent
  · intro f c' keep hmem hid hnode
    obtain ⟨hf, hp⟩ := hflight f c' keep hmem hid
    have hsame : c.agent.raAddr = c'.agent.raAddr := by
      have h1 : c.agent.raAddr = s.addr c.node := hfits _ hc
      have h2 : c'.agent.raAddr = s.addr c'.node := (hfits _ hmem).2.2
      rw [h1, h2, hnode]
    refine Simple.recv_of_loops ⟨?_, ?_⟩
    · rw [hp, ← hsame]
      exact hf.1
    · have := hf.2.2
      rw [hp]
      change 0 < f.packet.cmn.numForwards + 1
      omega

/-- A packet whose table entry leads it straight back to its source. -/
theorem headerOnce_returned :
    let a := Simple.wired 1 [(9, 2)]
    let c : Call Unit := ⟨0, (), a, .fresh 1 9 5⟩
    let f : Flight Unit := ⟨0, a.directed (.fresh 1 9 5) 2, [c]⟩
    HeaderOnce [.inject c, .handOver f ⟨0, (), a, f.packet.lower⟩ false]
      ⟨fun _ => a, [], 1⟩ c := by
  intro a c f
  have h1 := step_inject_one (fun _ : Unit => a) 0 () (p := .fresh 1 9 5) (q := f.packet) (by decide)
  have h2 := step_handOver_last (fun _ => a) 1 () f (by decide)
  exact headerOnce (.cons h1 (.single h2)) ⟨fun _ _ _ => rfl, rfl⟩ (by simp)
    ⟨by decide, rfl, rfl⟩

end LearnNs2
