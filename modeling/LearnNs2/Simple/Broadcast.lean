import LearnNs2.Simple.Network

/-!
# No broadcast storm

The layers below turn a packet's direction up, and `forward_data` looks at the
direction before it looks at the destination. So a broadcast copy never gets to
the branch that schedules it, whatever the tables hold.
-/

namespace LearnNs2

open LabelledRuns

set_option autoImplicit false

universe u

variable {ι : Type u} {s t : Net ι} {es : List (Event ι)}

/-- A broadcast as an application at its source hands it over. -/
structure OwnBroadcast (c : Call ι) : Prop where
  data : c.packet.IsData
  source : c.packet.ip.saddr = c.agent.raAddr
  broadcast : c.packet.IsBroadcast

/-- What becomes of the copies of packet number `n`, made at node `i`, over a
run: `heard c` says what a call at another node does with its copy. -/
structure Quiet (es : List (Event ι)) (n : Nat) (i : ι) (heard : Call ι → Prop) : Prop where
  silent : ∀ f c keep, .handOver f c keep ∈ es → c.id = n → sent c.effects = []
  receivers : ∀ f c keep, .handOver f c keep ∈ es → c.id = n → c.node ≠ i → heard c
  noLookup : ∀ f c keep, .handOver f c keep ∈ es → c.id = n → ∀ d, .lookup d ∉ c.effects

def HeardData (c : Call ι) : Prop :=
  c.effects = [.dmuxRecv c.agent.dmux (c.agent.aged c.packet)] ∨
    c.effects = [.drop (c.agent.aged c.packet) .ttl]

def HeardControl (c : Call ι) : Prop := c.effects = [.free c.packet]

def Flooded (src : Nsaddr) (q : Packet) : Prop :=
  q.IsData ∧ q.IsBroadcast ∧ q.ip.saddr = src

theorem not_flooded_sent {src : Nsaddr} {a : Simple} {q q' : Packet} (h : Flooded src q) :
    q' ∉ sent (a.recv q.lower) := by
  intro hq
  obtain ⟨-, -, -, hh, -⟩ := Simple.mem_sent_recv hq
  exact hh ⟨rfl, Or.inl h.2.1⟩

theorem OwnBroadcast.flooded {c : Call ι} (h : OwnBroadcast c) {q : Packet}
    (hq : q ∈ sent c.effects) : Flooded c.agent.raAddr q := by
  obtain ⟨-, -, -, -, next, rfl⟩ := Simple.mem_sent_recv hq
  exact ⟨h.data, h.broadcast, h.source⟩

def Control (src : Nsaddr) (q : Packet) : Prop :=
  ¬ q.IsData ∧ q.IsBroadcast ∧ q.ip.saddr = src ∧ q.ip.sport = rtPort ∧ q.ip.dport = rtPort

theorem control_simplePkt (a : Simple) (p : Packet) : Control a.raAddr (a.simplePkt p) :=
  ⟨fun h => h rfl, rfl, rfl, rfl, rfl⟩

theorem not_control_sent {src : Nsaddr} {a : Simple} {q q' : Packet} (h : Control src q) :
    q' ∉ sent (a.recv q.lower) := by
  intro hq
  exact h.1 (Simple.mem_sent_recv hq).2.1

section Runs

variable [DecidableEq ι]

theorem saddr_ne_of_node_ne (run : Run Step s es t) (start : s.Start) {f : Flight ι} {c : Call ι}
    {keep : Bool} (hmem : .handOver f c keep ∈ es) {i : ι} (hne : c.node ≠ i) :
    s.addr i ≠ c.agent.raAddr := by
  intro he
  have haddr := (run_fits run _ hmem).2.2
  exact hne (start.distinct (haddr.symm.trans he.symm))

/-- If all copies of a packet carry `P`, and `P` keeps `recv` from sending, then
only its maker ever sends it. -/
theorem quiet_of_follow (run : Run Step s es t) (start : s.Start) {e₀ : Event ι} {n : Nat} {i : ι}
    (he₀ : e₀ ∈ es) (hn : e₀.newId? = some n) {P : Packet → Prop} {heard : Call ι → Prop}
    (first : ∀ g ∈ e₀.launched, P g.packet)
    (mute : ∀ (a : Simple) (q q' : Packet), P q → q' ∉ sent (a.recv q.lower))
    (broadcast : ∀ q, P q → q.IsBroadcast)
    (hears : ∀ (c : Call ι) (q : Packet), P q → c.packet = q.lower → s.addr i ≠ c.agent.raAddr →
      heard c) : Quiet es n i heard := by
  have hcopy := (run_follow run start.quiet he₀ hn P first
    (fun _ a q q' _ hq hsent => absurd hsent (mute a q q' hq))).2
  refine ⟨?_, ?_, ?_⟩
  · intro f c keep hmem hid
    obtain ⟨hq, hp⟩ := hcopy f c keep hmem hid
    apply List.eq_nil_iff_forall_not_mem.mpr
    intro q hsent
    rw [Call.effects, hp] at hsent
    exact mute c.agent f.packet q hq hsent
  · intro f c keep hmem hid hne
    obtain ⟨hq, hp⟩ := hcopy f c keep hmem hid
    exact hears c f.packet hq hp (saddr_ne_of_node_ne run start hmem hne)
  · intro f c keep hmem hid d hlookup
    obtain ⟨hq, hp⟩ := hcopy f c keep hmem hid
    apply Simple.not_broadcast_of_lookup hlookup
    rw [hp]
    exact broadcast f.packet hq

theorem quiet_data (run : Run Step s es t) (start : s.Start) {c : Call ι}
    (hc : .inject c ∈ es) (own : OwnBroadcast c) : Quiet es c.id c.node HeardData := by
  have hsrc : c.agent.raAddr = s.addr c.node := run_fits run _ hc
  apply quiet_of_follow run start hc rfl (P := Flooded c.agent.raAddr)
  · exact fun g hg => own.flooded (Call.mem_flights hg).2.1
  · exact fun a q q' hq => not_flooded_sent hq
  · exact fun q hq => hq.2.1
  · intro c' q hq hp hstranger
    have hl : ¬ c'.agent.Loops c'.packet := by
      intro hl
      apply hstranger
      rw [← hsrc, ← hq.2.2, ← hl.1, hp]
      rfl
    refine Simple.recv_broadcast_up hl (hp ▸ hq.1) (hp ▸ hq.2.1) ?_
    rw [hp]
    rfl

theorem quiet_control (run : Run Step s es t) (start : s.Start) {i : ι} {n : Nat} {a : Simple}
    {p : Packet} {uniform : ℚ} (he : .expire i n a p uniform ∈ es) : Quiet es n i HeardControl := by
  have hsrc : a.raAddr = s.addr i := (run_fits run _ he).1
  apply quiet_of_follow run start he rfl (P := Control a.raAddr)
  · intro g hg
    obtain rfl := mem_controlFlights hg
    exact control_simplePkt a p
  · exact fun a q q' hq => not_control_sent hq
  · exact fun q hq => hq.2.1
  · rintro c q ⟨hs, -, hsaddr, hsport, hdport⟩ hp hstranger
    refine Simple.recv_control (hp ▸ hs) ?_ (hp ▸ hsport) (hp ▸ hdport)
    intro hown
    apply hstranger
    rw [← hsrc, ← hsaddr, ← hown, hp]
    rfl

/-- A broadcast is put on `target_` at most once, by its source; the others only
listen, and nobody asks the table about it. -/
theorem no_broadcast_storm (run : Run Step s es t) (start : s.Start) :
    (∀ c, .inject c ∈ es → OwnBroadcast c →
      (sent c.effects).length ≤ 1 ∧ (∀ d, .lookup d ∉ c.effects) ∧
        Quiet es c.id c.node HeardData) ∧
    (∀ i n a p uniform, .expire i n a p uniform ∈ es →
      (sent (a.expire p uniform).2).length = 1 ∧ (∀ d, .lookup d ∉ (a.expire p uniform).2) ∧
        Quiet es n i HeardControl) := by
  constructor
  · intro c hc own
    refine ⟨c.agent.length_sent_recv_le c.packet, ?_, quiet_data run start hc own⟩
    intro d hlookup
    exact Simple.not_broadcast_of_lookup hlookup own.broadcast
  · intro i n a p uniform he
    refine ⟨by simp, ?_, quiet_control run start he⟩
    intro d hlookup
    simp [Simple.expire, Simple.sendSimplePkt, Simple.resetSimplePktTimer] at hlookup

end Runs

/-- Node `false` floods, node `true` hears it; its table has a route for `-1`. -/
theorem no_broadcast_storm_pair :
    let agent : Bool → Simple := fun i => Simple.wired (if i then 2 else 1) [(-1, 7)]
    let c : Call Bool := ⟨0, false, agent false, .fresh 1 (-1) 9⟩
    let f : Flight Bool := ⟨0, (agent false).directed (.fresh 1 (-1) 9) (-1), [c]⟩
    let c' : Call Bool := ⟨0, true, agent true, f.packet.lower⟩
    sent c'.effects = [] ∧ HeardData c' := by
  intro agent c f c'
  have h1 := step_inject_one agent 0 false (p := .fresh 1 (-1) 9) (q := f.packet) (by decide)
  have h2 := step_handOver_last agent 1 true f (by decide)
  have hstart : (⟨agent, [], 0⟩ : Net Bool).Start := .pair (by decide) 0
  have hquiet := ((no_broadcast_storm (.cons h1 (.single h2)) hstart).1 c List.mem_cons_self
    ⟨by decide, rfl, by decide⟩).2.2
  have hmem : Event.handOver f c' false ∈ [.inject c, .handOver f c' false] := by simp
  exact ⟨hquiet.silent f c' false hmem rfl, hquiet.receivers f c' false hmem rfl (by decide)⟩

end LearnNs2
