import LearnNs2.Simple.Network

/-!
# Control packets

Only `send_simple_pkt` makes packets of type `PT_SIMPLE`, and `recv` never sends
one on. So a control packet in the air is still what its maker filled in, and
the assertions of `recv_simple_pkt` find the ports they ask for.
-/

namespace LearnNs2

open LabelledRuns

set_option autoImplicit false

universe u

variable {ι : Type u} {s t : Net ι} {es : List (Event ι)}

/-- The fields of a control packet that an agent of address `src` made. -/
structure ControlFields (src : Nsaddr) (q : Packet) : Prop where
  sport : q.ip.sport = rtPort
  dport : q.ip.dport = rtPort
  dest : q.ip.daddr = ipBroadcast.toInt32
  ttl : q.ip.ttl = ipDefTtl
  size : q.cmn.size = ipHdrLen + q.simple.pktLen.toNat
  origin : q.simple.pktSrc = q.ip.saddr
  source : q.ip.saddr = src

theorem controlFields_simplePkt (a : Simple) (p : Packet) :
    ControlFields a.raAddr (a.simplePkt p) :=
  ⟨rfl, rfl, rfl, rfl, rfl, rfl, rfl⟩

/-- A timer of the run made flight `f`, and its packet is as it was made. -/
def MadeByTimer (s : Net ι) (es : List (Event ι)) (f : Flight ι) : Prop :=
  ∃ i a p uniform, .expire i f.id a p uniform ∈ es ∧ a.raAddr = s.addr i ∧ Allocated p ∧
    f.packet = a.simplePkt p

theorem MadeByTimer.fields {f : Flight ι} (h : MadeByTimer s es f) :
    ∃ i a p uniform, .expire i f.id a p uniform ∈ es ∧ f.packet = a.simplePkt p ∧
      ControlFields (s.addr i) f.packet := by
  obtain ⟨i, a, p, uniform, he, haddr, -, hp⟩ := h
  refine ⟨i, a, p, uniform, he, hp, ?_⟩
  rw [hp, ← haddr]
  exact controlFields_simplePkt a p

theorem isData_of_mem_sent {c : Call ι} {q : Packet} (h : q ∈ sent c.effects) : q.IsData := by
  obtain ⟨-, hd, -, -, next, rfl⟩ := Simple.mem_sent_recv h
  exact hd

/-- What an agent does with a control packet: nothing but give it up. -/
def GivesUp (c : Call ι) : Prop :=
  c.effects = [.free c.packet] ∨ c.effects = [.drop c.packet .routeLoop]

theorem GivesUp.silent {c : Call ι} (h : GivesUp c) :
    sent c.effects = [] ∧ delivered c.effects = [] := by
  rcases h with h | h
  · simp [h]
  · simp [h]

/-- A control packet that comes down to its maker loops; the others free it. -/
theorem givesUp_simplePkt {c : Call ι} {a : Simple} {p : Packet} (hp : Allocated p)
    (hc : c.packet = (a.simplePkt p).lower) : GivesUp c := by
  by_cases hl : c.agent.Loops c.packet
  · exact Or.inr (Simple.recv_of_loops hl)
  · left
    have hforwards : 0 < c.packet.cmn.numForwards := by
      rw [hc]
      change 0 < p.cmn.numForwards + 1
      rw [hp]
      decide
    have hne : c.packet.ip.saddr ≠ c.agent.raAddr := fun he => hl ⟨he, hforwards⟩
    have hs : ¬ c.packet.IsData := by
      rw [hc]
      exact fun h => h rfl
    apply Simple.recv_control hs hne
    · rw [hc]
      rfl
    · rw [hc]
      rfl

theorem not_assertFail_of_isData {c : Call ι} (hd : c.packet.IsData) (cond : String) :
    .assertFail cond ∉ c.effects := by
  intro h
  have ho := c.agent.recv_outcome c.packet
  unfold Call.effects at h
  generalize c.agent.recv c.packet = es at h ho
  cases ho with
  | badSport _ hs => exact hs hd
  | badDport _ hs => exact hs hd
  | _ => simp at h

section Runs

variable [DecidableEq ι]

theorem run_madeByTimer (run : Run Step s es t) (start : s.Start) :
    (∀ f ∈ t.air, ¬ f.packet.IsData → MadeByTimer s es f) ∧
      ∀ f c keep, .handOver f c keep ∈ es → ¬ f.packet.IsData → MadeByTimer s es f := by
  apply run_flights (fun f => ¬ f.packet.IsData → MadeByTimer s es f) run start.quiet
  intro e he _ g hg hs
  cases launches_of_mem hg with
  | inject _ hsent => exact absurd (isData_of_mem_sent hsent) hs
  | handOver _ hsent => exact absurd (isData_of_mem_sent hsent) hs
  | expire i id a p uniform =>
    obtain ⟨haddr, hp⟩ := run_fits run _ he
    exact ⟨i, a, p, uniform, he, haddr, hp, rfl⟩

/-- Applications hand over data only: all control packets come from timers. -/
def OnlyData (es : List (Event ι)) : Prop := ∀ c, .inject c ∈ es → c.packet.IsData

theorem givesUp_of_control (run : Run Step s es t) (start : s.Start) (hdata : OnlyData es)
    {c : Call ι} (hc : c ∈ calls es) (hs : ¬ c.packet.IsData) : GivesUp c := by
  rcases mem_calls.mp hc with hc | ⟨f, keep, hc⟩
  · exact absurd (hdata c hc) hs
  · have hp := (run_fits run _ hc).2.1
    have hf : ¬ f.packet.IsData := by
      rwa [hp] at hs
    obtain ⟨_, a, p, _, -, -, halloc, hmade⟩ := (run_madeByTimer run start).2 f c keep hc hf
    exact givesUp_simplePkt halloc (hmade ▸ hp)

/-- Control packets in the air are as their makers filled them in, agents only
give them up, and no assertion fails. -/
theorem control_packets_intact (run : Run Step s es t) (start : s.Start) (hdata : OnlyData es) :
    (∀ f ∈ t.air, ¬ f.packet.IsData →
      ∃ i a p uniform, .expire i f.id a p uniform ∈ es ∧ f.packet = a.simplePkt p ∧
        ControlFields (s.addr i) f.packet) ∧
    (∀ c ∈ calls es, ¬ c.packet.IsData →
      GivesUp c ∧ sent c.effects = [] ∧ delivered c.effects = []) ∧
    ∀ c ∈ calls es, ∀ cond, .assertFail cond ∉ c.effects := by
  refine ⟨?_, ?_, ?_⟩
  · intro f hf hs
    exact ((run_madeByTimer run start).1 f hf hs).fields
  · intro c hc hs
    have h := givesUp_of_control run start hdata hc hs
    exact ⟨h, h.silent⟩
  · intro c hc cond hfail
    by_cases hd : c.packet.IsData
    · exact not_assertFail_of_isData hd cond hfail
    · rcases givesUp_of_control run start hdata hc hd with h | h
      · rw [h] at hfail
        simp at hfail
      · rw [h] at hfail
        simp at hfail

/-- Node `false` makes a control packet, and node `true` gets it. -/
theorem control_packets_intact_pair :
    let agent : Bool → Simple := fun i => Simple.wired (if i then 2 else 1) []
    let f : Flight Bool := ⟨0, (agent false).simplePkt .alloc, []⟩
    let c : Call Bool := ⟨0, true, agent true, f.packet.lower⟩
    GivesUp c ∧ ∀ cond, .assertFail cond ∉ c.effects := by
  intro agent f c
  let s : Net Bool := ⟨agent, [], 0⟩
  have hstart : s.Start := .pair (by decide) 0
  let u : Net Bool := ({ s with fresh := 1 }.setAgent false ((agent false).expire .alloc 0).1).launch
    (controlFlights 0 (agent false) .alloc 0)
  have hmade : Step s (.expire false 0 (agent false) .alloc 0) u := .expire s false rfl 0
  have hair : u.air = [] ++ f :: [] := rfl
  have hheard : Step u (.handOver f c false) _ := .handOver u true false hair
  have hdata : OnlyData [.expire false 0 (agent false) .alloc 0, .handOver f c false] := by
    simp [OnlyData]
  have h := control_packets_intact (.cons hmade (.single hheard)) hstart hdata
  have hc : c ∈ calls [.expire false 0 (agent false) .alloc 0, .handOver f c false] := by
    simp [calls, Event.call?]
  exact ⟨(h.2.1 c hc (by decide)).1, h.2.2 c hc⟩

end Runs

end LearnNs2
