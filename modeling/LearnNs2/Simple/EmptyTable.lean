import LearnNs2.Simple.Turns

/-!
# The shipped agent never learns a route

No entry point of the agent calls `add_entry`, so the table stays as the
constructor left it and the branch that forwards a unicast packet is dead.
-/

namespace LearnNs2

open LabelledRuns

set_option autoImplicit false

variable {a b : Simple} {x : Turn} {es : List Turn} {p : Packet}

theorem respond_rtable (a : Simple) (r : Request) : (a.respond r).agent.rtable = a.rtable := by
  cases r with
  | command env argv => exact Simple.command_rtable env a argv
  | recv p => rfl
  | expire p uniform => rfl

theorem turnStep_rtable (h : TurnStep a x b) : b.rtable = a.rtable := by
  obtain ⟨rfl, rfl⟩ := h
  exact respond_rtable x.agent x.request

inductive Transmits (x : Turn) (q : Packet) : Prop where
  | control (p : Packet) (uniform : ℚ) (h : x.request = .expire p uniform)
      (hq : q = x.agent.simplePkt p)
  | flood (p : Packet) (h : x.request = .recv p) (hd : p.IsData) (hb : p.IsBroadcast)
      (hdir : p.cmn.direction ≠ .up) (hq : q = x.agent.directed p ipBroadcast.toInt32)

/-- Why an agent without routes drops a unicast packet that is not for it. -/
def Simple.dropReason (a : Simple) (p : Packet) : DropReason :=
  if a.Loops p then .routeLoop else if p.ip.ttl - 1 = 0 then .ttl else .noRoute

/-- All that becomes of `p` in the turn is that it is dropped, once. -/
def Discards (x : Turn) (p : Packet) : Prop :=
  ∃ q, dropped x.reply.effects = [(q, x.agent.dropReason p)] ∧ packets x.reply.effects = [q] ∧
    q.CopyOf p

structure Routeless (x : Turn) : Prop where
  transmits : ∀ q ∈ sent x.reply.effects, Transmits x q
  discards : ∀ p, x.request = .recv p → p.IsData → ¬ p.IsBroadcast →
    ¬ (p.cmn.direction = .up ∧ p.ip.daddr = x.agent.raAddr) → Discards x p

theorem transmits_recv (ht : a.rtable = .new) {q : Packet} (h : q ∈ sent (a.recv p)) :
    Transmits ⟨a, .recv p⟩ q := by
  have ho := a.recv_outcome p
  generalize a.recv p = es at h ho
  cases ho with
  | flood hl hd _ hh hb =>
    have hq : q = a.directed p ipBroadcast.toInt32 := by simpa using h
    exact .flood p rfl hd hb (fun hup => hh ⟨hup, Or.inl hb⟩) hq
  | routed _ _ _ _ _ hr =>
    rw [ht, SimpleRtable.lookup_new] at hr
    exact absurd rfl hr
  | _ => simp at h

theorem discards_recv (ht : a.rtable = .new) (hd : p.IsData) (hb : ¬ p.IsBroadcast)
    (hnot : ¬ (p.cmn.direction = .up ∧ p.ip.daddr = a.raAddr)) : Discards ⟨a, .recv p⟩ p := by
  have hh : ¬ a.Here p := by
    rintro ⟨hup, hb' | hmine⟩
    · exact hb hb'
    · exact hnot ⟨hup, hmine⟩
  have ho := a.recv_outcome p
  unfold Discards Turn.reply Simple.respond Simple.dropReason
  simp only
  generalize a.recv p = es at ho
  cases ho with
  | loop hl =>
    rw [if_pos hl]
    exact ⟨p, rfl, rfl, rfl, rfl, rfl, rfl⟩
  | expired hl _ ht =>
    rw [if_neg hl, if_pos ht]
    exact ⟨_, rfl, rfl, a.copyOf_aged p⟩
  | noRoute hl _ ht =>
    rw [if_neg hl, if_neg ht]
    exact ⟨_, rfl, rfl, a.copyOf_aged p⟩
  | badSport _ hs => exact absurd hd hs
  | badDport _ hs => exact absurd hd hs
  | freed _ hs => exact absurd hd hs
  | here _ _ _ h => exact absurd h hh
  | flood _ _ _ _ h => exact absurd h hb
  | routed _ _ _ _ _ hr =>
    rw [ht, SimpleRtable.lookup_new] at hr
    exact absurd rfl hr

theorem routeless_of_new (ht : x.agent.rtable = .new) : Routeless x := by
  obtain ⟨a, r⟩ := x
  constructor
  · intro q hq
    cases r with
    | command env argv =>
      rw [Turn.reply, Simple.respond, sent_command] at hq
      cases hq
    | recv p => exact transmits_recv ht hq
    | expire p uniform =>
      have hq' : q ∈ sent (a.expire p uniform).2 := hq
      rw [Simple.sent_expire, List.mem_singleton] at hq'
      exact .control p uniform rfl hq'
  · rintro p hr hd hb hnot
    cases hr
    exact discards_recv ht hd hb hnot

/-- From construction on the table is empty, and every turn is that of an agent
without routes, whatever has been received. -/
theorem routeless_run {id : Nsaddr} {memory : Simple}
    (run : Run TurnStep (.new id memory) es b) :
    b.rtable = .new ∧ (∀ x ∈ es, x.agent.rtable = .new) ∧ ∀ x ∈ es, Routeless x := by
  have hstep : ∀ {u : Simple} {x : Turn} {v : Simple}, x ∈ es → u.rtable = .new →
      TurnStep u x v → v.rtable = .new := fun _ hu h => (turnStep_rtable h).trans hu
  have htables : ∀ x ∈ es, x.agent.rtable = .new := by
    apply run.labels (fun u => u.rtable = .new) (Q := fun x => x.agent.rtable = .new) rfl hstep
    intro u x v hu h
    exact h.1 ▸ hu
  refine ⟨run.invariant (fun u => u.rtable = .new) rfl hstep, htables, ?_⟩
  intro x hx
  exact routeless_of_new (htables x hx)

theorem routeless_run_two :
    let a := Simple.new 1 (Simple.wired 0 [])
    let control : Turn := ⟨a, .recv ((Simple.wired 2 []).simplePkt .alloc).lower⟩
    let unicast : Turn := ⟨a, .recv (.fresh 1 2 9)⟩
    (∀ x ∈ [control, unicast], Routeless x) ∧ Discards unicast (.fresh 1 2 9) := by
  intro a control unicast
  have hcontrol : TurnStep a control a := turnStep_respond a control.request
  have hunicast : TurnStep a unicast a := turnStep_respond a unicast.request
  have hrun := Run.cons hcontrol (.single hunicast)
  have h := (routeless_run hrun).2.2
  refine ⟨h, ?_⟩
  exact (h unicast (by simp)).discards _ rfl (by decide) (by decide) (by decide)

end LearnNs2
