import LearnNs2.Lib.LastWriter
import LearnNs2.Simple.Recv

/-!
# When a packet is refused for lack of a route

A history of table operations says which next hop a destination has, if any.
`lookup` answers "none" with the address `IP_BROADCAST`, so an entry whose next
hop is that address is refused like a missing one.
-/

namespace LearnNs2

open LastWriter

set_option autoImplicit false

abbrev RouteOp := Op Nsaddr Nsaddr

namespace SimpleRtable

def apply (t : SimpleRtable) : RouteOp → SimpleRtable
  | .put dest next => t.addEntry dest next
  | .remove dest => t.rmEntry dest
  | .clear => t.clear

/-- The table after a history of updates since it was constructed. -/
def after (ops : List RouteOp) : SimpleRtable := ops.foldl apply .new

theorem laws : Laws apply fun t d => t.rt[d]? := by
  constructor
  · intro t dest next d
    simp only [apply, addEntry, Std.TreeMap.getElem?_insert, Std.LawfulEqCmp.compare_eq_iff_eq]
  · intro t dest d
    simp only [apply, rmEntry, Std.TreeMap.getElem?_erase, Std.LawfulEqCmp.compare_eq_iff_eq]
  · intro t d
    simp [apply, clear]

theorem getElem?_after (ops : List RouteOp) (d next : Nsaddr) :
    (after ops).rt[d]? = some next ↔ Live ops d next :=
  get_foldl_eq_some_iff laws (fun d => by simp [new]) ops d next

theorem getElem?_after_eq_none (ops : List RouteOp) (d : Nsaddr) :
    (after ops).rt[d]? = none ↔ ∀ next, ¬ Live ops d next :=
  get_foldl_eq_none_iff laws (fun d => by simp [new]) ops d

theorem lookup_after_of_live {ops : List RouteOp} {d next : Nsaddr} (h : Live ops d next) :
    (after ops).lookup d = next :=
  lookup_of_entry ((getElem?_after ops d next).mpr h)

/-- The two meanings of the answer `IP_BROADCAST`. -/
theorem lookup_after_eq_broadcast_iff (ops : List RouteOp) (d : Nsaddr) :
    (after ops).lookup d = ipBroadcast.toInt32 ↔
      (∀ next, ¬ Live ops d next) ∨ Live ops d ipBroadcast.toInt32 := by
  cases h : (after ops).rt[d]? with
  | none =>
    have hno := (getElem?_after_eq_none ops d).mp h
    simp [lookup, h, hno]
  | some next =>
    have hlive := (getElem?_after ops d next).mp h
    have hhas : ¬ ∀ next, ¬ Live ops d next := fun hno => hno next hlive
    have hunique : Live ops d ipBroadcast.toInt32 ↔ next = ipBroadcast.toInt32 := by
      rw [← getElem?_after, h, Option.some.injEq]
    simp [lookup, h, hhas, hunique]

end SimpleRtable

variable {a : Simple} {p : Packet} {ops : List RouteOp}

/-- A unicast data packet that `recv` accepts, with hops left, for another node. -/
structure Onward (a : Simple) (p : Packet) : Prop where
  accepted : ¬ a.Loops p
  data : p.IsData
  unicast : ¬ p.IsBroadcast
  hops : 2 ≤ p.ip.ttl
  onward : ¬ (p.cmn.direction = .up ∧ p.ip.daddr = a.raAddr)

theorem Onward.recv_eq (h : Onward a p) : a.recv p =
    if a.rtable.lookup p.ip.daddr = ipBroadcast.toInt32 then
      [.lookup p.ip.daddr, .debug (a.noRouteText p),
        .drop { a.aged p with cmn.direction := .down, cmn.addrType := nsAfInet } .noRoute]
    else
      [.lookup p.ip.daddr, .schedule a.target (a.directed p (a.rtable.lookup p.ip.daddr)) 0] := by
  have hh : ¬ a.Here p := by
    rintro ⟨hup, hb | hd⟩
    · exact h.unicast hb
    · exact h.onward ⟨hup, hd⟩
  have ht : p.ip.ttl - 1 ≠ 0 := by
    have := h.hops
    grind
  rw [Simple.recv_of_data h.accepted h.data, if_neg ht,
    Simple.forwardData_of_unicast hh h.unicast]

theorem Onward.refused_iff (h : Onward a p) :
    (∃ q, .drop q .noRoute ∈ a.recv p) ↔ a.rtable.lookup p.ip.daddr = ipBroadcast.toInt32 := by
  rw [h.recv_eq]
  by_cases hl : a.rtable.lookup p.ip.daddr = ipBroadcast.toInt32
  · simp [hl]
  · simp [hl]

/-- A refused packet is the received one, and nothing else becomes of it. -/
theorem Onward.refused_eq (h : Onward a p) {q : Packet} (hq : .drop q .noRoute ∈ a.recv p) :
    packets (a.recv p) = [q] ∧ q.CopyOf p := by
  rw [h.recv_eq] at hq ⊢
  split_ifs at hq ⊢ with hl
  · have heq : q = { a.aged p with cmn.direction := .down, cmn.addrType := nsAfInet } := by
      simpa using hq
    subst heq
    exact ⟨rfl, a.copyOf_aged p⟩
  · simp at hq

/-- A packet is refused for lack of a route if there is no entry, or one that
names `IP_BROADCAST` as the next hop; every other entry is followed. -/
theorem noRoute_iff (ht : a.rtable = .after ops) (h : Onward a p) :
    ((∃ q, .drop q .noRoute ∈ a.recv p) ↔
      (∀ next, ¬ Live ops p.ip.daddr next) ∨ Live ops p.ip.daddr ipBroadcast.toInt32) ∧
    (∀ q, .drop q .noRoute ∈ a.recv p → packets (a.recv p) = [q] ∧ q.CopyOf p) ∧
    ∀ next, Live ops p.ip.daddr next → next ≠ ipBroadcast.toInt32 →
      ∃ q, packets (a.recv p) = [q] ∧ .schedule a.target q 0 ∈ a.recv p ∧
        q = a.directed p next ∧ q.cmn.direction = .down ∧ q.cmn.nextHop = next := by
  refine ⟨?_, fun q hq => h.refused_eq hq, ?_⟩
  · rw [h.refused_iff, ht]
    exact SimpleRtable.lookup_after_eq_broadcast_iff ops p.ip.daddr
  · intro next hlive hnext
    rw [h.recv_eq, ht, SimpleRtable.lookup_after_of_live hlive, if_neg hnext]
    exact ⟨_, rfl, by simp, rfl, rfl, rfl⟩

/-- The entry for 9 has the next hop `-1`, and the packet is refused. -/
theorem noRoute_iff_fails_at_broadcast_hop :
    let ops : List RouteOp := [.put 9 (-1)]
    let a : Simple := { Simple.wired 1 [] with rtable := .after ops }
    let p := Packet.fresh 1 9 5
    Onward a p ∧ Live ops 9 (-1) ∧ (∃ q, .drop q .noRoute ∈ a.recv p) ∧
      ¬ ((∃ q, .drop q .noRoute ∈ a.recv p) ↔ ∀ next, ¬ Live ops 9 next) := by
  intro ops a p
  have h : Onward a p := ⟨by decide, by decide, by decide, by decide, by decide⟩
  have hlive : Live ops 9 (-1) := ⟨[], [], rfl, by simp⟩
  have hdrop : ∃ q, .drop q .noRoute ∈ a.recv p :=
    h.refused_iff.mpr (SimpleRtable.lookup_after_of_live hlive)
  refine ⟨h, hlive, hdrop, ?_⟩
  intro hiff
  exact hiff.mp hdrop _ hlive

/-- An entry that was removed, and one that is there. -/
theorem noRoute_iff_two :
    let ops : List RouteOp := [.put 8 2, .put 9 2, .remove 8]
    let a : Simple := { Simple.wired 1 [] with rtable := .after ops }
    (∃ q, .drop q .noRoute ∈ a.recv (.fresh 1 8 5) ∧ packets (a.recv (.fresh 1 8 5)) = [q]) ∧
      ∃ q, packets (a.recv (.fresh 1 9 5)) = [q] ∧ q.cmn.nextHop = 2 := by
  intro ops a
  have h8 : Onward a (.fresh 1 8 5) := ⟨by decide, by decide, by decide, by decide, by decide⟩
  have h9 : Onward a (.fresh 1 9 5) := ⟨by decide, by decide, by decide, by decide, by decide⟩
  have hgone : ∀ next, ¬ Live ops 8 next :=
    (SimpleRtable.getElem?_after_eq_none ops 8).mp (by decide)
  have hlive : Live ops 9 2 := ⟨[.put 8 2], [.remove 8], rfl, by simp [Op.Touches]⟩
  obtain ⟨q, hq, -, -, -, hnext⟩ := (noRoute_iff rfl h9).2.2 2 hlive (by decide)
  obtain ⟨q', hq'⟩ := (noRoute_iff rfl h8).1.mpr (Or.inl hgone)
  exact ⟨⟨q', hq', ((noRoute_iff rfl h8).2.1 q' hq').1⟩, q, hq, hnext⟩

end LearnNs2
