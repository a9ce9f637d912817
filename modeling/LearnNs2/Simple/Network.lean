import LearnNs2.Lib.Runs
import LearnNs2.Simple.Command
import LearnNs2.Simple.Recv
import Mathlib.Data.List.Nodup
import Mathlib.Logic.Function.Basic

/-!
# A network of Simple agents

The nodes are the values of `ι`. Packets scheduled on `target_` are in the air
until the layers below hand them to some node or lose them; these layers may
copy, delay and reorder as they like, and tables may be rewritten at any time.
Restrictions on the layers below are put on the labels of a run.

A packet keeps the number it got when it was made, and a flight remembers the
calls of `recv` its copy has been through. The agents see neither. A failed
assertion does not end a run, so what holds of runs holds without asserts too.
-/

namespace LearnNs2

open LabelledRuns

set_option autoImplicit false

universe u

/-- One call of `recv`: the node, its agent at that time, the packet it gets. -/
structure Call (ι : Type u) where
  id : Nat
  node : ι
  agent : Simple
  packet : Packet

structure Flight (ι : Type u) where
  id : Nat
  packet : Packet
  /-- The calls behind this copy, oldest first. -/
  trail : List (Call ι)

structure Net (ι : Type u) where
  agent : ι → Simple
  air : List (Flight ι)
  fresh : Nat

inductive Event (ι : Type u) where
  | inject (c : Call ι)
  /-- The layers below hand `f` to a node, keeping a copy in the air or not. -/
  | handOver (f : Flight ι) (c : Call ι) (keep : Bool)
  | lose (f : Flight ι)
  | expire (i : ι) (id : Nat) (agent : Simple) (p : Packet) (uniform : ℚ)
  | command (i : ι) (env : TclEnv) (argv : List String)
  | reroute (i : ι) (t : SimpleRtable)

variable {ι : Type u}

namespace Call

def effects (c : Call ι) : List Effect := c.agent.recv c.packet

def flights (c : Call ι) (trail : List (Call ι)) : List (Flight ι) :=
  (sent c.effects).map fun q => ⟨c.id, q, trail ++ [c]⟩

/-- `c'` gets what `c` scheduled, after the layers below have had it. -/
def HandOver (c c' : Call ι) : Prop := ∃ q ∈ sent c.effects, c'.packet = q.lower

theorem mem_flights {c : Call ι} {trail : List (Call ι)} {g : Flight ι}
    (h : g ∈ c.flights trail) :
    g.id = c.id ∧ g.packet ∈ sent c.effects ∧ g.trail = trail ++ [c] := by
  obtain ⟨q, hq, rfl⟩ := List.mem_map.mp h
  exact ⟨rfl, hq, rfl⟩

end Call

/-- `allocpkt` starts from `Packet::alloc` and does not set the hop count. -/
def Allocated (p : Packet) : Prop := p.cmn.numForwards = Packet.alloc.cmn.numForwards

namespace Net

def launch (s : Net ι) (fs : List (Flight ι)) : Net ι := { s with air := s.air ++ fs }

def addr (s : Net ι) (i : ι) : Nsaddr := (s.agent i).raAddr

@[simp] theorem launch_air (s : Net ι) (fs : List (Flight ι)) :
    (s.launch fs).air = s.air ++ fs := rfl

/-- Where a run begins: agents with distinct addresses and nothing in the air. -/
structure Start (s : Net ι) : Prop where
  distinct : Function.Injective s.addr
  quiet : s.air = []

theorem Start.pair {agent : Bool → Simple} (h : (agent false).raAddr ≠ (agent true).raAddr)
    (fresh : Nat) : (⟨agent, [], fresh⟩ : Net Bool).Start := by
  refine ⟨?_, rfl⟩
  intro i j hij
  cases i with
  | false =>
    cases j with
    | false => rfl
    | true => exact absurd hij h
  | true =>
    cases j with
    | false => exact absurd hij.symm h
    | true => rfl

variable [DecidableEq ι]

def setAgent (s : Net ι) (i : ι) (a : Simple) : Net ι :=
  { s with agent := Function.update s.agent i a }

theorem setAgent_addr (s : Net ι) {i : ι} {a : Simple} (h : a.raAddr = s.addr i) :
    (s.setAgent i a).addr = s.addr := by
  funext j
  by_cases hj : j = i
  · subst j
    simp [setAgent, addr, h]
  · simp [setAgent, addr, hj]

@[simp] theorem setAgent_air (s : Net ι) (i : ι) (a : Simple) :
    (s.setAgent i a).air = s.air := rfl

end Net

def Event.call? : Event ι → Option (Call ι)
  | .inject c => some c
  | .handOver _ c _ => some c
  | _ => none

def calls (es : List (Event ι)) : List (Call ι) := es.filterMap Event.call?

theorem mem_calls {es : List (Event ι)} {c : Call ι} :
    c ∈ calls es ↔ .inject c ∈ es ∨ ∃ f keep, .handOver f c keep ∈ es := by
  constructor
  · intro h
    obtain ⟨e, he, hc⟩ := List.mem_filterMap.mp h
    cases e with
    | inject c' =>
      obtain rfl : c' = c := by simpa [Event.call?] using hc
      exact Or.inl he
    | handOver f c' keep =>
      obtain rfl : c' = c := by simpa [Event.call?] using hc
      exact Or.inr ⟨f, keep, he⟩
    | _ => simp [Event.call?] at hc
  · rintro (h | ⟨f, keep, h⟩)
    · exact List.mem_filterMap.mpr ⟨_, h, rfl⟩
    · exact List.mem_filterMap.mpr ⟨_, h, rfl⟩

def controlFlights (id : Nat) (a : Simple) (p : Packet) (uniform : ℚ) : List (Flight ι) :=
  (sent (a.expire p uniform).2).map fun q => ⟨id, q, []⟩

def Event.Fits (addr : ι → Nsaddr) : Event ι → Prop
  | .inject c => c.agent.raAddr = addr c.node
  | .handOver f c _ =>
    c.id = f.id ∧ c.packet = f.packet.lower ∧ c.agent.raAddr = addr c.node
  | .expire i _ a p _ => a.raAddr = addr i ∧ Allocated p
  | _ => True

/-- The number a label gives to the packet it brings into the network. -/
def Event.newId? : Event ι → Option Nat
  | .inject c => some c.id
  | .expire _ id _ _ _ => some id
  | _ => none

def Event.launched : Event ι → List (Flight ι)
  | .inject c => c.flights []
  | .handOver f c _ => c.flights f.trail
  | .expire _ id a p uniform => controlFlights id a p uniform
  | _ => []

/-- The three labels that launch a flight, with what the flight then is. -/
inductive Launches : Event ι → Flight ι → Prop where
  | inject {c : Call ι} {g : Flight ι} (hid : g.id = c.id) (hsent : g.packet ∈ sent c.effects)
      (htrail : g.trail = [c]) : Launches (.inject c) g
  | handOver {f : Flight ι} {c : Call ι} {keep : Bool} {g : Flight ι} (hid : g.id = c.id)
      (hsent : g.packet ∈ sent c.effects) (htrail : g.trail = f.trail ++ [c]) :
      Launches (.handOver f c keep) g
  | expire (i : ι) (id : Nat) (a : Simple) (p : Packet) (uniform : ℚ) :
      Launches (.expire i id a p uniform) ⟨id, a.simplePkt p, []⟩

theorem mem_controlFlights {id : Nat} {a : Simple} {p : Packet} {uniform : ℚ} {g : Flight ι}
    (h : g ∈ controlFlights id a p uniform) : g = ⟨id, a.simplePkt p, []⟩ := by
  obtain ⟨q, hq, rfl⟩ := List.mem_map.mp h
  rw [Simple.sent_expire, List.mem_singleton] at hq
  rw [hq]

theorem launches_of_mem {e : Event ι} {g : Flight ι} (h : g ∈ e.launched) : Launches e g := by
  cases e with
  | inject c =>
    obtain ⟨hid, hsent, htrail⟩ := Call.mem_flights h
    exact .inject hid hsent htrail
  | handOver f c keep =>
    obtain ⟨hid, hsent, htrail⟩ := Call.mem_flights h
    exact .handOver hid hsent htrail
  | expire i id a p uniform =>
    obtain rfl := mem_controlFlights h
    exact .expire i id a p uniform
  | _ => simp [Event.launched] at h

section Steps

variable [DecidableEq ι]

inductive Step : Net ι → Event ι → Net ι → Prop where
  | inject (s : Net ι) (i : ι) (p : Packet) :
      Step s (.inject ⟨s.fresh, i, s.agent i, p⟩)
        ({ s with fresh := s.fresh + 1 }.launch
          (Call.flights ⟨s.fresh, i, s.agent i, p⟩ []))
  | handOver (s : Net ι) (i : ι) (keep : Bool) {pre post : List (Flight ι)} {f : Flight ι}
      (h : s.air = pre ++ f :: post) :
      Step s (.handOver f ⟨f.id, i, s.agent i, f.packet.lower⟩ keep)
        ({ s with air := if keep then s.air else pre ++ post }.launch
          (Call.flights ⟨f.id, i, s.agent i, f.packet.lower⟩ f.trail))
  | lose (s : Net ι) {pre post : List (Flight ι)} {f : Flight ι} (h : s.air = pre ++ f :: post) :
      Step s (.lose f) { s with air := pre ++ post }
  | expire (s : Net ι) (i : ι) {p : Packet} (hp : Allocated p) (uniform : ℚ) :
      Step s (.expire i s.fresh (s.agent i) p uniform)
        (({ s with fresh := s.fresh + 1 }.setAgent i ((s.agent i).expire p uniform).1).launch
          (controlFlights s.fresh (s.agent i) p uniform))
  | command (s : Net ι) (i : ι) (env : TclEnv) (argv : List String) :
      Step s (.command i env argv) (s.setAgent i ((s.agent i).command env argv).agent)
  | reroute (s : Net ι) (i : ι) (t : SimpleRtable) :
      Step s (.reroute i t) (s.setAgent i { s.agent i with rtable := t })

theorem step_inject_quiet (agent : ι → Simple) (n : Nat) (i : ι) {p : Packet} {qs : List Packet}
    (h : sent ((agent i).recv p) = qs) :
    Step ⟨agent, [], n⟩ (.inject ⟨n, i, agent i, p⟩)
      ⟨agent, qs.map fun q => ⟨n, q, [⟨n, i, agent i, p⟩]⟩, n + 1⟩ := by
  have hstep := Step.inject ⟨agent, [], n⟩ i p
  simpa only [Net.launch, Call.flights, Call.effects, h, List.nil_append] using hstep

theorem step_inject_one (agent : ι → Simple) (n : Nat) (i : ι) {p q : Packet}
    (h : sent ((agent i).recv p) = [q]) :
    Step ⟨agent, [], n⟩ (.inject ⟨n, i, agent i, p⟩)
      ⟨agent, [⟨n, q, [⟨n, i, agent i, p⟩]⟩], n + 1⟩ :=
  step_inject_quiet agent n i h

theorem step_handOver_last (agent : ι → Simple) (n : Nat) (i : ι) (f : Flight ι)
    (h : sent ((agent i).recv f.packet.lower) = []) :
    Step ⟨agent, [f], n⟩ (.handOver f ⟨f.id, i, agent i, f.packet.lower⟩ false)
      ⟨agent, [], n⟩ := by
  have hair : (⟨agent, [f], n⟩ : Net ι).air = [] ++ f :: [] := rfl
  have hstep := Step.handOver _ i false hair
  simpa only [Net.launch, Call.flights, Call.effects, h, List.map_nil, List.nil_append,
    List.append_nil, Bool.false_eq_true, if_false] using hstep

theorem step_addr {s t : Net ι} {e : Event ι} (h : Step s e t) : t.addr = s.addr := by
  cases h with
  | inject => rfl
  | handOver => rfl
  | lose => rfl
  | expire i hp uniform => exact Net.setAgent_addr _ rfl
  | command i env argv => exact Net.setAgent_addr _ (Simple.command_raAddr _ _ _)
  | reroute i t => exact Net.setAgent_addr _ rfl

theorem step_fits {s t : Net ι} {e : Event ι} (h : Step s e t) : e.Fits s.addr := by
  cases h with
  | inject => rfl
  | handOver => exact ⟨rfl, rfl, rfl⟩
  | expire i hp uniform => exact ⟨rfl, hp⟩
  | _ => trivial

theorem mem_air_step {s t : Net ι} {e : Event ι} (h : Step s e t) {g : Flight ι}
    (hg : g ∈ t.air) : g ∈ s.air ∨ g ∈ e.launched := by
  cases h with
  | inject i p => simpa [Event.launched] using hg
  | @handOver i keep pre post f hair =>
    rcases List.mem_append.mp hg with hg | hg
    · left
      rw [hair]
      cases keep with
      | true => rwa [if_pos rfl, hair] at hg
      | false =>
        rw [if_neg Bool.false_ne_true] at hg
        simp only [List.mem_append, List.mem_cons] at hg ⊢
        tauto
    · exact Or.inr hg
  | lose hair =>
    left
    rw [hair]
    simp only [List.mem_append, List.mem_cons] at hg ⊢
    tauto
  | expire i hp uniform => simpa [Event.launched] using hg
  | command i env argv => exact Or.inl hg
  | reroute i t => exact Or.inl hg

theorem handOver_mem_air {s t : Net ι} {f : Flight ι} {c : Call ι} {keep : Bool}
    (h : Step s (.handOver f c keep) t) : f ∈ s.air := by
  cases h with
  | handOver i keep hair =>
    rw [hair]
    simp

section RunLemmas

variable {s t : Net ι} {es : List (Event ι)}

theorem run_fits (run : Run Step s es t) : ∀ e ∈ es, e.Fits s.addr := by
  refine run.labels (fun u => u.addr = s.addr) rfl ?_ ?_
  · intro u e v _ hu hstep
    exact (step_addr hstep).trans hu
  · intro u e v hu hstep
    exact hu ▸ step_fits hstep

/-- A property of flights that every launch of the run establishes, hand-overs
under the assumption that the packet handed over has it, holds of the whole air. -/
theorem run_flights (P : Flight ι → Prop) (run : Run Step s es t) (start : s.air = [])
    (launched : ∀ e ∈ es, (∀ f c keep, e = .handOver f c keep → P f) → ∀ g ∈ e.launched, P g) :
    (∀ f ∈ t.air, P f) ∧ ∀ f c keep, .handOver f c keep ∈ es → P f := by
  have hstep : ∀ {u e v}, e ∈ es → (∀ f ∈ u.air, P f) → Step u e v → ∀ f ∈ v.air, P f := by
    intro u e v he hu hs g hg
    rcases mem_air_step hs hg with hg | hg
    · exact hu g hg
    · refine launched e he ?_ g hg
      rintro f c keep rfl
      exact hu f (handOver_mem_air hs)
  have hstart : ∀ f ∈ s.air, P f := by simp [start]
  refine ⟨run.invariant (fun u => ∀ f ∈ u.air, P f) hstart hstep, ?_⟩
  intro f c keep hmem
  have hlabel := run.labels (fun u => ∀ f ∈ u.air, P f)
    (Q := fun e => ∀ f c keep, e = .handOver f c keep → P f) hstart hstep
  refine hlabel ?_ _ hmem f c keep rfl
  rintro u e v hu hs f c keep rfl
  exact hu f (handOver_mem_air hs)

theorem step_newId {s t : Net ι} {e : Event ι} (h : Step s e t) :
    (e.newId? = none ∧ t.fresh = s.fresh) ∨ (e.newId? = some s.fresh ∧ t.fresh = s.fresh + 1) := by
  cases h with
  | inject => exact Or.inr ⟨rfl, rfl⟩
  | expire => exact Or.inr ⟨rfl, rfl⟩
  | _ => exact Or.inl ⟨rfl, rfl⟩

theorem run_newIds_nodup (run : Run Step s es t) : (es.filterMap Event.newId?).Nodup := by
  have h : (es.filterMap Event.newId?).Nodup ∧ ∀ n ∈ es.filterMap Event.newId?, n < t.fresh := by
    refine run.induct (fun pre u => (pre.filterMap Event.newId?).Nodup ∧
      ∀ n ∈ pre.filterMap Event.newId?, n < u.fresh) (by simp) ?_
    rintro pre u e v - ⟨hnodup, hlt⟩ hstep
    rw [List.filterMap_append]
    rcases step_newId hstep with ⟨he, hv⟩ | ⟨he, hv⟩
    · rw [List.filterMap_cons_none he, List.filterMap_nil, List.append_nil, hv]
      exact ⟨hnodup, hlt⟩
    · rw [List.filterMap_cons_some he, List.filterMap_nil, hv]
      refine ⟨hnodup.append (List.nodup_singleton _) ?_, ?_⟩
      · intro n hn hn'
        have := hlt n hn
        rw [List.mem_singleton] at hn'
        omega
      · intro n hn
        rcases List.mem_append.mp hn with hn | hn
        · exact Nat.lt_succ_of_lt (hlt n hn)
        · rw [List.mem_singleton.mp hn]
          exact Nat.lt_succ_self _
  exact h.1

theorem run_newId_unique (run : Run Step s es t) {e e' : Event ι} (he : e ∈ es) (he' : e' ∈ es)
    {n : Nat} (hn : e.newId? = some n) (hn' : e'.newId? = some n) : e = e' := by
  have hpair := List.pairwise_filterMap.mp (run_newIds_nodup run)
  have hall : es.Pairwise fun a b => ¬ (a.newId? = some n ∧ b.newId? = some n) :=
    hpair.imp fun h hab => h n hab.1 n hab.2 rfl
  have hsymm : Std.Symm fun a b : Event ι => ¬ (a.newId? = some n ∧ b.newId? = some n) :=
    ⟨fun _ _ h hab => h hab.symm⟩
  by_contra hne
  exact hall.forall he he' hne ⟨hn, hn'⟩

/-- Following one packet: what its first launch establishes and every relay by an
agent of the network keeps is true of all its copies, wherever they are. -/
theorem run_follow (run : Run Step s es t) (start : s.air = []) {e₀ : Event ι} {n : Nat}
    (he₀ : e₀ ∈ es) (hn : e₀.newId? = some n) (P : Packet → Prop)
    (first : ∀ g ∈ e₀.launched, P g.packet)
    (relay : ∀ (i : ι) (a : Simple) (q q' : Packet), a.raAddr = s.addr i → P q →
      q' ∈ sent (a.recv q.lower) → P q') :
    (∀ f ∈ t.air, f.id = n → P f.packet) ∧
      ∀ f c keep, .handOver f c keep ∈ es → c.id = n →
        P f.packet ∧ c.packet = f.packet.lower := by
  have hfits := run_fits run
  have hflights := run_flights (fun f => f.id = n → P f.packet) run start ?_
  · refine ⟨hflights.1, ?_⟩
    intro f c keep hmem hid
    obtain ⟨hcid, hp, -⟩ := hfits _ hmem
    exact ⟨hflights.2 f c keep hmem (hcid.symm.trans hid), hp⟩
  intro e he hprev g hg hid
  cases launches_of_mem hg with
  | @inject c _ hgid =>
    have hc : c.id = n := hgid.symm.trans hid
    obtain rfl := run_newId_unique run he he₀ (congrArg some hc) hn
    exact first g hg
  | @handOver f c keep _ hgid hsent =>
    obtain ⟨hcid, hp, haddr⟩ := hfits _ he
    have hf : P f.packet := hprev f c keep rfl (by rw [← hcid, ← hgid, hid])
    apply relay c.node c.agent f.packet g.packet haddr hf
    rw [← hp]
    exact hsent
  | expire i id a p uniform =>
    obtain rfl := run_newId_unique run he he₀ (congrArg some hid) hn
    exact first _ hg

end RunLemmas

end Steps

end LearnNs2
