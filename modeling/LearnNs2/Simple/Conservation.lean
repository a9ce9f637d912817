import LearnNs2.Simple.Network
import Mathlib.Algebra.Order.Group.Multiset

/-!
# Packet conservation

One call of `recv` lets go of its packet exactly once. Over a run this is a
balance: what applications put in is what has come out plus what is in the air.
-/

namespace LearnNs2

open LabelledRuns

set_option autoImplicit false

universe u

inductive Fate (a : Simple) (p : Packet) : Effect → Prop where
  | dropped (q : Packet) (why : DropReason) (h : q.cmn.uid = p.cmn.uid) : Fate a p (.drop q why)
  | freed (q : Packet) (h : q.cmn.uid = p.cmn.uid) : Fate a p (.free q)
  | delivered (d : TclObject) (q : Packet) (hd : a.dmux = some d) (h : q.cmn.uid = p.cmn.uid) :
      Fate a p (.dmuxRecv (some d) q)
  | scheduled (o : TclObject) (q : Packet) (ho : a.target = some o) (h : q.cmn.uid = p.cmn.uid) :
      Fate a p (.schedule (some o) q 0)

/-- The effects by which an agent lets go of a packet. -/
def disposals (es : List Effect) : List Effect := es.filter fun e => e.packet?.isSome

def Simple.IsWired (a : Simple) : Prop := a.dmux.isSome ∧ a.target.isSome

def Packet.PortsOk (p : Packet) : Prop := ¬ p.IsData → p.ip.sport = rtPort ∧ p.ip.dport = rtPort

theorem recv_disposes_once {a : Simple} (ha : a.IsWired) {p : Packet} (hp : p.PortsOk) :
    ∃ e, disposals (a.recv p) = [e] ∧ Fate a p e := by
  obtain ⟨hmux, htarget⟩ := ha
  obtain ⟨d, hd⟩ := Option.isSome_iff_exists.mp hmux
  obtain ⟨o, ho⟩ := Option.isSome_iff_exists.mp htarget
  have hout := a.recv_outcome p
  generalize a.recv p = es at hout
  cases hout with
  | loop => exact ⟨_, rfl, .dropped _ _ rfl⟩
  | badSport _ hs hport => exact absurd (hp hs).1 hport
  | badDport _ hs hport => exact absurd (hp hs).2 hport
  | freed => exact ⟨_, rfl, .freed _ rfl⟩
  | expired => exact ⟨_, rfl, .dropped _ _ rfl⟩
  | here => exact ⟨_, rfl, hd ▸ .delivered d _ hd rfl⟩
  | flood => exact ⟨_, rfl, ho ▸ .scheduled o _ ho rfl⟩
  | noRoute => exact ⟨_, rfl, .dropped _ _ rfl⟩
  | routed => exact ⟨_, rfl, ho ▸ .scheduled o _ ho rfl⟩

def Packet.IsUnicast (p : Packet) : Prop := p.IsData ∧ ¬ p.IsBroadcast

instance (p : Packet) : Decidable p.IsUnicast := inferInstanceAs (Decidable (_ ∧ _))

theorem Packet.SameRoute.isUnicast {p q : Packet} (h : p.SameRoute q) :
    q.IsUnicast ↔ p.IsUnicast := and_congr h.isData (not_congr h.isBroadcast)

variable {ι : Type u} {s t : Net ι} {es : List (Event ι)}

def unicastIds (fs : List (Flight ι)) : Multiset Nat :=
  (fs.filter fun f => f.packet.IsUnicast).map Flight.id

theorem unicastIds_append (fs gs : List (Flight ι)) :
    unicastIds (fs ++ gs) = unicastIds fs + unicastIds gs := by
  simp [unicastIds]

theorem unicastIds_cons (f : Flight ι) (fs : List (Flight ι)) :
    unicastIds (f :: fs) = (if f.packet.IsUnicast then {f.id} else 0) + unicastIds fs := by
  by_cases h : f.packet.IsUnicast
  · simp [unicastIds, h]
  · simp [unicastIds, h]

theorem unicastIds_eq_zero {fs : List (Flight ι)} (h : ∀ f ∈ fs, ¬ f.packet.IsUnicast) :
    unicastIds fs = 0 := by
  simpa [unicastIds] using h

/-- The number of the packet, once for each delivery through a real pointer. -/
def Call.deliveredIds (c : Call ι) : Multiset Nat :=
  if c.packet.IsUnicast then
    (delivered c.effects).filterMap fun x => x.1.map fun _ => c.id
  else 0

def Call.droppedIds (c : Call ι) : Multiset Nat :=
  if c.packet.IsUnicast then (dropped c.effects).map fun _ => c.id else 0

def Event.injectedIds : Event ι → Multiset Nat
  | .inject c => if c.packet.IsUnicast then {c.id} else 0
  | _ => 0

def Event.deliveredIds (e : Event ι) : Multiset Nat := (e.call?.map Call.deliveredIds).getD 0

def Event.droppedIds (e : Event ι) : Multiset Nat := (e.call?.map Call.droppedIds).getD 0

def injectedIds (es : List (Event ι)) : Multiset Nat := (es.map Event.injectedIds).sum

def deliveredIds (es : List (Event ι)) : Multiset Nat := (es.map Event.deliveredIds).sum

def droppedIds (es : List (Event ι)) : Multiset Nat := (es.map Event.droppedIds).sum

/-- Layers below that neither copy nor lose unicast packets. -/
def Event.Conserves : Event ι → Prop
  | .handOver f _ keep => keep = false ∨ f.packet.IsBroadcast
  | .lose f => f.packet.IsBroadcast
  | _ => True

theorem Call.settle (c : Call ι) (trail : List (Call ι)) (hwired : c.agent.IsWired) :
    (if c.packet.IsUnicast then {c.id} else 0) =
      unicastIds (c.flights trail) + (c.deliveredIds + c.droppedIds) := by
  by_cases hu : c.packet.IsUnicast
  · obtain ⟨d, hd⟩ := Option.isSome_iff_exists.mp hwired.1
    have hdirected : ∀ next, (c.agent.directed c.packet next).IsUnicast := fun next =>
      (Simple.sameRoute_directed c.agent c.packet next).isUnicast.mpr hu
    have hout := c.agent.recv_outcome c.packet
    simp only [Call.deliveredIds, Call.droppedIds, Call.flights, Call.effects, if_pos hu]
    generalize c.agent.recv c.packet = es at hout
    cases hout with
    | badSport _ hs => exact absurd hu.1 hs
    | badDport _ hs => exact absurd hu.1 hs
    | freed _ hs => exact absurd hu.1 hs
    | flood _ _ _ _ hb => exact absurd hb hu.2
    | loop => simp [unicastIds]
    | expired => simp [unicastIds]
    | here => simp [unicastIds, hd]
    | noRoute => simp [unicastIds]
    | routed => simp [unicastIds, hdirected]
  · have hflights : unicastIds (c.flights trail) = 0 := by
      apply unicastIds_eq_zero
      intro f hf
      obtain ⟨-, hsent, -⟩ := Call.mem_flights hf
      obtain ⟨-, -, -, -, next, hq⟩ := Simple.mem_sent_recv hsent
      rw [hq, (Simple.sameRoute_directed c.agent c.packet next).isUnicast]
      exact hu
    simp [Call.deliveredIds, Call.droppedIds, hu, hflights]

theorem injectedIds_le_newIds (es : List (Event ι)) :
    injectedIds es ≤ (es.filterMap Event.newId? : Multiset Nat) := by
  induction es with
  | nil => exact le_refl _
  | cons e es ih =>
    have he : e.injectedIds ≤ (e.newId?.toList : Multiset Nat) := by
      cases e with
      | inject c => by_cases hu : c.packet.IsUnicast <;> simp [Event.injectedIds, Event.newId?, hu]
      | _ => exact Multiset.zero_le _
    rw [filterMap_cons_eq, ← Multiset.coe_add]
    simpa only [injectedIds, List.map_cons, List.sum_cons] using add_le_add he ih

section Runs

variable [DecidableEq ι]

theorem step_balance {u v : Net ι} {e : Event ι} (h : Step u e v) (hcons : e.Conserves)
    (hwired : ∀ c, e.call? = some c → c.agent.IsWired) :
    unicastIds u.air + e.injectedIds =
      unicastIds v.air + (e.deliveredIds + e.droppedIds) := by
  cases h with
  | inject i p =>
    have hsettle := Call.settle ⟨u.fresh, i, u.agent i, p⟩ [] (hwired _ rfl)
    simp only [Net.launch_air, unicastIds_append, add_assoc]
    exact congrArg _ hsettle
  | @handOver i keep pre post f hair =>
    have hsettle := Call.settle ⟨f.id, i, u.agent i, f.packet.lower⟩ f.trail (hwired _ rfl)
    simp only [(Packet.sameRoute_lower f.packet).isUnicast] at hsettle
    have hrest : unicastIds u.air = unicastIds (if keep then u.air else pre ++ post) +
        (if f.packet.IsUnicast then {f.id} else 0) := by
      rcases hcons with rfl | hb
      · rw [hair, unicastIds_append, unicastIds_cons, if_neg Bool.false_ne_true,
          unicastIds_append, add_assoc, add_comm (unicastIds post)]
      · have hu : ¬ f.packet.IsUnicast := fun hu => hu.2 hb
        rw [if_neg hu, add_zero]
        cases keep with
        | true => rfl
        | false => simp [hair, unicastIds_append, unicastIds_cons, hu]
    simp only [Net.launch_air, unicastIds_append, Event.injectedIds, add_zero]
    rw [hrest, hsettle, add_assoc]
    rfl
  | @lose pre post f hair =>
    have hu : ¬ f.packet.IsUnicast := fun hu => hu.2 hcons
    simp [hair, unicastIds_append, unicastIds_cons, hu, Event.injectedIds, Event.deliveredIds,
      Event.droppedIds, Event.call?]
  | @expire i p hp uniform =>
    have hcontrol : unicastIds (controlFlights u.fresh (u.agent i) p uniform : List (Flight ι)) = 0 := by
      apply unicastIds_eq_zero
      intro f hf
      obtain rfl := mem_controlFlights hf
      exact fun hu => hu.1 rfl
    simp [unicastIds_append, hcontrol, Event.injectedIds, Event.deliveredIds, Event.droppedIds,
      Event.call?]
  | command i env argv => rfl
  | reroute i t => rfl

theorem injectedIds_nodup (run : Run Step s es t) : (injectedIds es).Nodup :=
  Multiset.nodup_of_le (injectedIds_le_newIds es) (run_newIds_nodup run)

theorem run_balance (run : Run Step s es t) (start : s.Start) (hcons : ∀ e ∈ es, e.Conserves)
    (hwired : ∀ c ∈ calls es, c.agent.IsWired) :
    injectedIds es = deliveredIds es + droppedIds es + unicastIds t.air := by
  have hstep : ∀ {u e v}, e ∈ es → Step u e v →
      unicastIds u.air + e.injectedIds = unicastIds v.air + (e.deliveredIds + e.droppedIds) := by
    intro u e v he h
    apply step_balance h (hcons e he)
    intro c hc
    apply hwired c
    exact List.mem_filterMap.mpr ⟨e, he, hc⟩
  have hrun := run.balance hstep
  rw [start.quiet, List.sum_map_add] at hrun
  calc injectedIds es = unicastIds ([] : List (Flight ι)) + injectedIds es := by simp [unicastIds]
    _ = unicastIds t.air + (deliveredIds es + droppedIds es) := hrun
    _ = deliveredIds es + droppedIds es + unicastIds t.air := add_comm _ _

/-- Each call disposes of its packet once, and over layers that keep unicast
packets every injected one is delivered, dropped or in the air, exactly one of
these. -/
theorem packet_conservation :
    (∀ (a : Simple) (p : Packet), a.IsWired → p.PortsOk →
      ∃ e, disposals (a.recv p) = [e] ∧ Fate a p e) ∧
    ∀ (s t : Net ι) (es : List (Event ι)), Run Step s es t → s.Start →
      (∀ e ∈ es, e.Conserves) → (∀ c ∈ calls es, c.agent.IsWired) →
      injectedIds es = deliveredIds es + droppedIds es + unicastIds t.air ∧
        (deliveredIds es + droppedIds es + unicastIds t.air).Nodup := by
  refine ⟨fun a p ha hp => recv_disposes_once ha hp, ?_⟩
  intro s t es run start hcons hwired
  have hbalance := run_balance run start hcons hwired
  exact ⟨hbalance, hbalance ▸ injectedIds_nodup run⟩

/-- A packet that is handed over and delivered, and one that has no route. -/
theorem packet_conservation_two :
    let agent : Bool → Simple := fun i => if i then .wired 2 [] else .wired 1 [(2, 2)]
    let c : Call Bool := ⟨0, false, agent false, .fresh 1 2 5⟩
    let f : Flight Bool := ⟨0, (agent false).directed c.packet 2, [c]⟩
    let d : Call Bool := ⟨0, true, agent true, f.packet.lower⟩
    let lost : Call Bool := ⟨1, false, agent false, .fresh 1 3 5⟩
    let es : List (Event Bool) := [.inject c, .handOver f d false, .inject lost]
    (∃ e, disposals d.effects = [e] ∧ Fate d.agent d.packet e) ∧
      injectedIds es = deliveredIds es + droppedIds es + unicastIds ([] : List (Flight Bool)) ∧
      deliveredIds es = {0} ∧ droppedIds es = {1} := by
  intro agent c f d lost es
  have hstart : (⟨agent, [], 0⟩ : Net Bool).Start := .pair (by decide) 0
  have h1 := step_inject_one agent 0 false (p := c.packet) (q := f.packet) (by decide)
  have h2 := step_handOver_last agent 1 true f (by decide)
  have hsilent : sent ((agent false).recv lost.packet) = [] := by decide
  have h3 := step_inject_quiet agent 1 false hsilent
  refine ⟨(packet_conservation (ι := Bool)).1 d.agent d.packet ⟨rfl, rfl⟩ (fun hs => absurd ?_ hs),
    (packet_conservation.2 _ _ es (.cons h1 (.cons h2 (.single h3))) hstart ?_ ?_).1, ?_, ?_⟩
  · decide
  · simp [es, Event.Conserves]
  · intro c' hc'
    have hmem : c' = c ∨ c' = d ∨ c' = lost := by simpa [es, calls, Event.call?] using hc'
    rcases hmem with rfl | rfl | rfl
    · exact ⟨rfl, rfl⟩
    · exact ⟨rfl, rfl⟩
    · exact ⟨rfl, rfl⟩
  · decide
  · decide

end Runs

end LearnNs2
