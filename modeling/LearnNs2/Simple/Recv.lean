import LearnNs2.Simple.Agent

/-!
# What one call of `recv` can do

`Outcome a p es` lists the ways through `recv`, `recv_simple_pkt` and
`forward_data`, each with its guard. Every later fact about `recv` is read off
this list; the function bodies are unfolded here only.
-/

namespace LearnNs2

set_option autoImplicit false

universe u v

namespace Effect

@[simp] def sent? : Effect → Option Packet
  | .schedule _ p _ => some p
  | _ => none

/-- The packet passed to `dmux_`, with the pointer it went through. -/
@[simp] def delivered? : Effect → Option (Option TclObject × Packet)
  | .dmuxRecv d p => some (d, p)
  | _ => none

@[simp] def dropped? : Effect → Option (Packet × DropReason)
  | .drop p why => some (p, why)
  | _ => none

/-- The packet an agent lets go of by one of the four calls that do so. -/
@[simp] def packet? : Effect → Option Packet
  | .drop p _ => some p
  | .free p => some p
  | .dmuxRecv _ p => some p
  | .schedule _ p _ => some p
  | _ => none

end Effect

def sent (es : List Effect) : List Packet := es.filterMap Effect.sent?

def delivered (es : List Effect) : List (Option TclObject × Packet) :=
  es.filterMap Effect.delivered?

def dropped (es : List Effect) : List (Packet × DropReason) := es.filterMap Effect.dropped?

def packets (es : List Effect) : List Packet := es.filterMap Effect.packet?

section Filters

theorem filterMap_cons_eq {α : Type u} {β : Type v} (f : α → Option β) (x : α) (xs : List α) :
    (x :: xs).filterMap f = (f x).toList ++ xs.filterMap f := by
  cases h : f x with
  | none => exact List.filterMap_cons_none h
  | some y => exact List.filterMap_cons_some h

variable (e : Effect) (es : List Effect)

@[simp] theorem sent_nil : sent [] = [] := rfl

@[simp] theorem sent_cons : sent (e :: es) = e.sent?.toList ++ sent es :=
  filterMap_cons_eq _ e es

@[simp] theorem delivered_nil : delivered [] = [] := rfl

@[simp] theorem delivered_cons : delivered (e :: es) = e.delivered?.toList ++ delivered es :=
  filterMap_cons_eq _ e es

@[simp] theorem dropped_nil : dropped [] = [] := rfl

@[simp] theorem dropped_cons : dropped (e :: es) = e.dropped?.toList ++ dropped es :=
  filterMap_cons_eq _ e es

@[simp] theorem packets_nil : packets [] = [] := rfl

@[simp] theorem packets_cons : packets (e :: es) = e.packet?.toList ++ packets es :=
  filterMap_cons_eq _ e es

end Filters

namespace Simple

variable {a : Simple} {p q : Packet} {es : List Effect}

/-- The loop check: an own packet that has been forwarded before. -/
def Loops (a : Simple) (p : Packet) : Prop := p.ip.saddr = a.raAddr ∧ 0 < p.cmn.numForwards

instance (a : Simple) (p : Packet) : Decidable (a.Loops p) := inferInstanceAs (Decidable (_ ∧ _))

/-- The size an accepted packet leaves the first part of `recv` with. -/
def chargedSize (a : Simple) (p : Packet) : Int :=
  if p.ip.saddr = a.raAddr ∧ p.cmn.numForwards = 0 then p.cmn.size + ipHdrLen else p.cmn.size

/-- An accepted packet after the size and the TTL are adjusted. -/
def aged (a : Simple) (p : Packet) : Packet :=
  { p with cmn.size := a.chargedSize p, ip.ttl := p.ip.ttl - 1 }

def directed (a : Simple) (p : Packet) (next : Nsaddr) : Packet :=
  { a.aged p with
    cmn.direction := .down
    cmn.addrType := nsAfInet
    cmn.nextHop := next }

/-- A packet from below that is for this node. -/
def Here (a : Simple) (p : Packet) : Prop :=
  p.cmn.direction = .up ∧ (p.IsBroadcast ∨ p.ip.daddr = a.raAddr)

instance (a : Simple) (p : Packet) : Decidable (a.Here p) := inferInstanceAs (Decidable (_ ∧ _))

def noRouteText (a : Simple) (p : Packet) : Printf :=
  ⟨"%f: Agent %d can not forward a packet destined to %d\n",
    [.clock, .int a.raAddr.toInt, .int p.ip.daddr.toInt]⟩

inductive Outcome (a : Simple) (p : Packet) : List Effect → Prop where
  | loop (h : a.Loops p) : Outcome a p [.drop p .routeLoop]
  | badSport (h : ¬ a.Loops p) (hs : ¬ p.IsData) (hport : p.ip.sport ≠ rtPort) :
      Outcome a p [.assertFail "ih->sport() == RT_PORT"]
  | badDport (h : ¬ a.Loops p) (hs : ¬ p.IsData) (hport : p.ip.dport ≠ rtPort) :
      Outcome a p [.assertFail "ih->dport() == RT_PORT"]
  | freed (h : ¬ a.Loops p) (hs : ¬ p.IsData) (hsport : p.ip.sport = rtPort)
      (hdport : p.ip.dport = rtPort) :
      Outcome a p [.free { p with cmn.size := a.chargedSize p }]
  | expired (h : ¬ a.Loops p) (hd : p.IsData) (ht : p.ip.ttl - 1 = 0) :
      Outcome a p [.drop (a.aged p) .ttl]
  | here (h : ¬ a.Loops p) (hd : p.IsData) (ht : p.ip.ttl - 1 ≠ 0) (hh : a.Here p) :
      Outcome a p [.dmuxRecv a.dmux (a.aged p)]
  | flood (h : ¬ a.Loops p) (hd : p.IsData) (ht : p.ip.ttl - 1 ≠ 0) (hh : ¬ a.Here p)
      (hb : p.IsBroadcast) :
      Outcome a p [.schedule a.target (a.directed p ipBroadcast.toInt32) 0]
  | noRoute (h : ¬ a.Loops p) (hd : p.IsData) (ht : p.ip.ttl - 1 ≠ 0) (hh : ¬ a.Here p)
      (hb : ¬ p.IsBroadcast) (hl : a.rtable.lookup p.ip.daddr = ipBroadcast.toInt32) :
      Outcome a p [.lookup p.ip.daddr, .debug (a.noRouteText p),
        .drop { a.aged p with cmn.direction := .down, cmn.addrType := nsAfInet } .noRoute]
  | routed (h : ¬ a.Loops p) (hd : p.IsData) (ht : p.ip.ttl - 1 ≠ 0) (hh : ¬ a.Here p)
      (hb : ¬ p.IsBroadcast) (hl : a.rtable.lookup p.ip.daddr ≠ ipBroadcast.toInt32) :
      Outcome a p [.lookup p.ip.daddr,
        .schedule a.target (a.directed p (a.rtable.lookup p.ip.daddr)) 0]

/-- The size of an accepted packet is settled before its type is looked at. -/
theorem recv_eq (a : Simple) (p : Packet) :
    a.recv p = if a.Loops p then [.drop p .routeLoop]
      else a.recvAccepted { p with cmn.size := a.chargedSize p } := by
  unfold recv Loops chargedSize
  by_cases hs : p.ip.saddr = a.raAddr
  · by_cases hlt : 0 < p.cmn.numForwards
    · simp [hs, hlt]
    · by_cases h0 : p.cmn.numForwards = 0 <;> simp [hs, hlt, h0]
  · simp [hs]

theorem recv_of_data (h : ¬ a.Loops p) (hd : p.IsData) :
    a.recv p = if p.ip.ttl - 1 = 0 then [.drop (a.aged p) .ttl]
      else a.forwardData (a.aged p) := by
  rw [recv_eq, if_neg h]
  unfold recvAccepted
  rw [if_neg (show ¬ _ = ptSimple from hd)]
  rfl

theorem forwardData_of_here (hh : a.Here p) :
    a.forwardData (a.aged p) = [.dmuxRecv a.dmux (a.aged p)] := by
  unfold forwardData
  exact if_pos hh

theorem forwardData_of_broadcast (hh : ¬ a.Here p) (hb : p.IsBroadcast) :
    a.forwardData (a.aged p) = [.schedule a.target (a.directed p ipBroadcast.toInt32) 0] := by
  unfold forwardData
  exact (if_neg hh).trans (if_pos hb)

theorem forwardData_of_unicast (hh : ¬ a.Here p) (hb : ¬ p.IsBroadcast) :
    a.forwardData (a.aged p) =
      if a.rtable.lookup p.ip.daddr = ipBroadcast.toInt32 then
        [.lookup p.ip.daddr, .debug (a.noRouteText p),
          .drop { a.aged p with cmn.direction := .down, cmn.addrType := nsAfInet } .noRoute]
      else
        [.lookup p.ip.daddr, .schedule a.target (a.directed p (a.rtable.lookup p.ip.daddr)) 0] := by
  unfold forwardData
  refine (if_neg hh).trans ((if_neg hb).trans ?_)
  simp only [toUInt32_eq_ipBroadcast_iff]
  rfl

theorem forwardData_outcome (h : ¬ a.Loops p) (hd : p.IsData) (ht : p.ip.ttl - 1 ≠ 0) :
    a.Outcome p (a.forwardData (a.aged p)) := by
  by_cases hh : a.Here p
  · rw [forwardData_of_here hh]
    exact .here h hd ht hh
  by_cases hb : p.IsBroadcast
  · rw [forwardData_of_broadcast hh hb]
    exact .flood h hd ht hh hb
  rw [forwardData_of_unicast hh hb]
  by_cases hl : a.rtable.lookup p.ip.daddr = ipBroadcast.toInt32
  · rw [if_pos hl]
    exact .noRoute h hd ht hh hb hl
  · rw [if_neg hl]
    exact .routed h hd ht hh hb hl

theorem recv_outcome (a : Simple) (p : Packet) : a.Outcome p (a.recv p) := by
  by_cases h : a.Loops p
  · rw [recv_eq, if_pos h]
    exact .loop h
  by_cases hd : p.IsData
  · rw [recv_of_data h hd]
    by_cases ht : p.ip.ttl - 1 = 0
    · rw [if_pos ht]
      exact .expired h hd ht
    · rw [if_neg ht]
      exact forwardData_outcome h hd ht
  rw [recv_eq, if_neg h]
  unfold recvAccepted
  rw [if_pos (not_not.mp hd : p.cmn.ptype = ptSimple)]
  unfold recvSimplePkt
  by_cases hsport : p.ip.sport = rtPort
  · by_cases hdport : p.ip.dport = rtPort
    · simp only [hsport, hdport, ne_eq, not_true, if_false]
      exact .freed h hd hsport hdport
    · simp only [hsport, hdport, ne_eq, not_true, not_false_eq_true, if_false, if_true]
      exact .badDport h hd hdport
  · simp only [hsport, ne_eq, not_false_eq_true, if_true]
    exact .badSport h hd hsport

/-- The only packets `recv` puts on `target_`: data that passed both checks and
is not for this node, one hop older. -/
theorem mem_sent_recv (h : q ∈ sent (a.recv p)) :
    ¬ a.Loops p ∧ p.IsData ∧ p.ip.ttl - 1 ≠ 0 ∧ ¬ a.Here p ∧ ∃ next, q = a.directed p next := by
  have ho := a.recv_outcome p
  generalize a.recv p = es at h ho
  cases ho with
  | flood hl hd ht hh hb =>
    have hq : q = a.directed p ipBroadcast.toInt32 := by simpa using h
    exact ⟨hl, hd, ht, hh, _, hq⟩
  | routed hl hd ht hh hb hr =>
    have hq : q = a.directed p (a.rtable.lookup p.ip.daddr) := by simpa using h
    exact ⟨hl, hd, ht, hh, _, hq⟩
  | _ => simp at h

theorem length_sent_recv_le (a : Simple) (p : Packet) : (sent (a.recv p)).length ≤ 1 := by
  have ho := a.recv_outcome p
  generalize a.recv p = es at ho
  cases ho <;> simp

theorem sameRoute_directed (a : Simple) (p : Packet) (next : Nsaddr) :
    p.SameRoute (a.directed p next) := ⟨rfl, rfl, rfl⟩

theorem copyOf_aged (a : Simple) (p : Packet) : (a.aged p).CopyOf p := ⟨rfl, rfl, rfl, rfl⟩

theorem copyOf_directed (a : Simple) (p : Packet) (next : Nsaddr) :
    (a.directed p next).CopyOf p := ⟨rfl, sameRoute_directed a p next⟩

@[simp] theorem directed_ttl (a : Simple) (p : Packet) (next : Nsaddr) :
    (a.directed p next).ip.ttl = p.ip.ttl - 1 := rfl

theorem mem_delivered_recv {d : Option TclObject} (h : (d, q) ∈ delivered (a.recv p)) :
    ¬ a.Loops p ∧ p.IsData ∧ p.ip.ttl - 1 ≠ 0 ∧ a.Here p ∧ d = a.dmux ∧ q = a.aged p := by
  have ho := a.recv_outcome p
  generalize a.recv p = es at h ho
  cases ho with
  | here hl hd ht hh =>
    obtain ⟨rfl, rfl⟩ : d = a.dmux ∧ q = a.aged p := by simpa using h
    exact ⟨hl, hd, ht, hh, rfl, rfl⟩
  | _ => simp at h

theorem recv_expired (h : ¬ a.Loops p) (hd : p.IsData) (ht : p.ip.ttl - 1 = 0) :
    a.recv p = [.drop (a.aged p) .ttl] := by
  rw [recv_of_data h hd, if_pos ht]

theorem recv_here (h : ¬ a.Loops p) (hd : p.IsData) (ht : p.ip.ttl - 1 ≠ 0) (hh : a.Here p) :
    a.recv p = [.dmuxRecv a.dmux (a.aged p)] := by
  rw [recv_of_data h hd, if_neg ht, forwardData_of_here hh]

theorem recv_routed (h : ¬ a.Loops p) (hd : p.IsData) (ht : p.ip.ttl - 1 ≠ 0) (hh : ¬ a.Here p)
    (hb : ¬ p.IsBroadcast) (hl : a.rtable.lookup p.ip.daddr ≠ ipBroadcast.toInt32) :
    a.recv p = [.lookup p.ip.daddr,
      .schedule a.target (a.directed p (a.rtable.lookup p.ip.daddr)) 0] := by
  rw [recv_of_data h hd, if_neg ht, forwardData_of_unicast hh hb, if_neg hl]

theorem recv_eq_drop_ttl_iff (h : ¬ a.Loops p) (hd : p.IsData) :
    a.recv p = [.drop (a.aged p) .ttl] ↔ p.ip.ttl - 1 = 0 := by
  refine ⟨fun he => ?_, recv_expired h hd⟩
  by_contra ht
  rw [recv_of_data h hd, if_neg ht] at he
  by_cases hh : a.Here p
  · simp [forwardData_of_here hh] at he
  by_cases hb : p.IsBroadcast
  · simp [forwardData_of_broadcast hh hb] at he
  rw [forwardData_of_unicast hh hb] at he
  split at he <;> simp at he

theorem ttl_kept_recv (hd : p.IsData) (h : ¬ a.Loops p → 0 ≤ p.ip.ttl - 1) :
    (∀ q ∈ sent (a.recv p), 1 ≤ q.ip.ttl) ∧ (∀ x ∈ delivered (a.recv p), 1 ≤ x.2.ip.ttl) ∧
      (¬ a.Loops p → p.ip.ttl - 1 ≤ 0 → a.recv p = [.drop (a.aged p) .ttl]) := by
  refine ⟨?_, ?_, ?_⟩
  · intro q hq
    obtain ⟨hl, -, ht, -, next, rfl⟩ := mem_sent_recv hq
    exact one_le_of_nonneg_of_ne_zero (h hl) ht
  · rintro ⟨d, q⟩ hq
    obtain ⟨hl, -, ht, -, -, rfl⟩ := mem_delivered_recv hq
    exact one_le_of_nonneg_of_ne_zero (h hl) ht
  · intro hl hle
    exact (recv_eq_drop_ttl_iff hl hd).mpr (Int32.le_antisymm hle (h hl))

theorem chargedSize_of_loops (h : a.Loops p) : a.chargedSize p = p.cmn.size := by
  have hne : p.cmn.numForwards ≠ 0 := Int.ne_of_gt h.2
  simp [chargedSize, hne]

theorem chargedSize_of_ne (h : p.ip.saddr ≠ a.raAddr) : a.chargedSize p = p.cmn.size := by
  simp [chargedSize, h]

theorem size_of_mem_packets (h : q ∈ packets (a.recv p)) : q.cmn.size = a.chargedSize p := by
  have ho := a.recv_outcome p
  generalize a.recv p = es at h ho
  cases ho with
  | loop hl =>
    obtain rfl : q = p := by simpa using h
    exact (chargedSize_of_loops hl).symm
  | badSport => simp at h
  | badDport => simp at h
  | _ =>
    simp only [packets_cons, packets_nil, Effect.packet?, Option.toList_some, Option.toList_none,
      List.append_nil, List.nil_append, List.mem_singleton] at h
    exact congrArg (fun r : Packet => r.cmn.size) h

theorem recv_of_loops (h : a.Loops p) : a.recv p = [.drop p .routeLoop] := by
  rw [recv_eq, if_pos h]

theorem not_broadcast_of_lookup {d : Nsaddr} (h : .lookup d ∈ a.recv p) : ¬ p.IsBroadcast := by
  have ho := a.recv_outcome p
  generalize a.recv p = es at h ho
  cases ho with
  | noRoute _ _ _ _ hb => exact hb
  | routed _ _ _ _ hb => exact hb
  | _ => simp at h

theorem recv_broadcast_up (hl : ¬ a.Loops p) (hd : p.IsData) (hb : p.IsBroadcast)
    (hup : p.cmn.direction = .up) :
    a.recv p = [.dmuxRecv a.dmux (a.aged p)] ∨ a.recv p = [.drop (a.aged p) .ttl] := by
  by_cases ht : p.ip.ttl - 1 = 0
  · exact Or.inr (recv_expired hl hd ht)
  · exact Or.inl (recv_here hl hd ht ⟨hup, Or.inl hb⟩)

theorem recv_control (hs : ¬ p.IsData) (hne : p.ip.saddr ≠ a.raAddr)
    (hsport : p.ip.sport = rtPort) (hdport : p.ip.dport = rtPort) : a.recv p = [.free p] := by
  have hl : ¬ a.Loops p := fun h => hne h.1
  have ho := a.recv_outcome p
  generalize a.recv p = es at ho
  cases ho with
  | freed => rw [chargedSize_of_ne hne]
  | loop h => exact absurd h hl
  | badSport _ _ h => exact absurd hsport h
  | badDport _ _ h => exact absurd hdport h
  | expired _ hd => exact absurd hd hs
  | here _ hd => exact absurd hd hs
  | flood _ hd => exact absurd hd hs
  | noRoute _ hd => exact absurd hd hs
  | routed _ hd => exact absurd hd hs

@[simp] theorem sent_expire (a : Simple) (p : Packet) (uniform : ℚ) :
    sent (a.expire p uniform).2 = [a.simplePkt p] := rfl

end Simple

end LearnNs2
