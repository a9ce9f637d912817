import LearnNs2.Simple.Ttl

/-!
# The delivery horizon

Along a path whose tables agree on a destination, a packet with TTL `t` gets as
far as its `t`-th agent. The layers below hand every packet to the node of its
next hop and lose nothing, so what happens to one packet is a function of the
network. `carry_run` says that this function follows a run of the network.
-/

namespace LearnNs2

open LabelledRuns Call

set_option autoImplicit false

universe u

variable {ι : Type u}

/-- The call that follows `c` when `layer` finds the node of an address. -/
def next? (s : Net ι) (layer : Nsaddr → Option ι) (c : Call ι) : Option (Call ι) :=
  match sent c.effects with
  | [] => none
  | q :: _ => (layer q.cmn.nextHop).map fun i => ⟨c.id, i, s.agent i, q.lower⟩

/-- The calls of `recv` that a packet goes through, `fuel` of them at most. -/
def carry (s : Net ι) (layer : Nsaddr → Option ι) : Nat → Call ι → List (Call ι)
  | 0, _ => []
  | fuel + 1, c =>
    c :: match next? s layer c with
      | none => []
      | some c' => carry s layer fuel c'

def deliveries (cs : List (Call ι)) : List (ι × Option TclObject × Packet) :=
  cs.flatMap fun c => (delivered c.effects).map fun x => (c.node, x)

def drops (cs : List (Call ι)) : List (ι × Packet × DropReason) :=
  cs.flatMap fun c => (dropped c.effects).map fun x => (c.node, x)

/-- Nodes with distinct addresses whose tables lead along the list to the node
of address `d`, over layers that reach each of them. -/
structure Route (s : Net ι) (layer : Nsaddr → Option ι) (d : Nsaddr) (path : List ι) : Prop where
  distinct : (path.map s.addr).Nodup
  last : path.getLast?.map s.addr = some d
  unicast : d ≠ ipBroadcast.toInt32
  entries : path.IsChain fun i j => (s.agent i).rtable.rt[d]? = some (s.addr j)
  lossless : ∀ i ∈ path, layer (s.addr i) = some i

/-- The packet reaches the last node of `path` and is passed up there, once. -/
structure Arrives (s : Net ι) (path : List ι) (t : Nat) (p : Packet) (cs : List (Call ι)) :
    Prop where
  visits : cs.map Call.node = path
  sends : (transmissions cs).length = path.length - 1
  arrives : ∃ n q, path.getLast? = some n ∧ deliveries cs = [(n, (s.agent n).dmux, q)] ∧
    q.CopyOf p ∧ q.ip.ttl.toInt = t - path.length
  undropped : drops cs = []

structure Expires (path : List ι) (t : Nat) (p : Packet) (cs : List (Call ι)) : Prop where
  visits : cs.map Call.node = path.take t
  sends : (transmissions cs).length = t - 1
  undelivered : deliveries cs = []
  expires : ∃ n q, path[t - 1]? = some n ∧ drops cs = [(n, q, .ttl)] ∧ q.CopyOf p

/-- With `k + 1` nodes on the path, a TTL of `k + 2` suffices and no less does. -/
def Horizon (s : Net ι) (path : List ι) (t : Nat) (p : Packet) (cs : List (Call ι)) : Prop :=
  (path.length + 1 ≤ t → Arrives s path t p cs) ∧ (t ≤ path.length → Expires path t p cs)

section Carry

variable {s : Net ι} {layer : Nsaddr → Option ι} {c : Call ι} {cs : List (Call ι)} {fuel : Nat}

theorem carry_stop (h : sent c.effects = []) : carry s layer (fuel + 1) c = [c] := by
  simp [carry, next?, h]

theorem carry_next {q : Packet} {j : ι} (h : sent c.effects = [q])
    (hj : layer q.cmn.nextHop = some j) :
    carry s layer (fuel + 1) c = c :: carry s layer fuel ⟨c.id, j, s.agent j, q.lower⟩ := by
  simp [carry, next?, h, hj]

theorem transmissions_cons (c : Call ι) (cs : List (Call ι)) :
    (transmissions (c :: cs)).length = (sent c.effects).length + (transmissions cs).length := by
  simp [transmissions]

theorem deliveries_cons_of_silent (h : delivered c.effects = []) :
    deliveries (c :: cs) = deliveries cs := by
  simp [deliveries, h]

theorem drops_cons_of_silent (h : dropped c.effects = []) : drops (c :: cs) = drops cs := by
  simp [drops, h]

end Carry

namespace Route

variable {s : Net ι} {layer : Nsaddr → Option ι} {d : Nsaddr} {i j : ι} {path : List ι}

theorem tail (h : Route s layer d (i :: j :: path)) : Route s layer d (j :: path) := by
  refine ⟨?_, ?_, h.unicast, (List.isChain_cons_cons.mp h.entries).2, ?_⟩
  · exact (List.nodup_cons.mp h.distinct).2
  · simpa only [List.getLast?_cons_cons] using h.last
  · exact fun n hn => h.lossless n (List.mem_cons_of_mem i hn)

theorem addr_eq_iff (h : Route s layer d (i :: path)) : s.addr i = d ↔ path = [] := by
  constructor
  · intro hd
    cases path with
    | nil => rfl
    | cons j path =>
      obtain ⟨n, hn, hnd⟩ := Option.map_eq_some_iff.mp h.tail.last
      have hi := (List.nodup_cons.mp h.distinct).1
      refine absurd (List.mem_map.mpr ⟨n, List.mem_of_getLast? hn, ?_⟩) hi
      rw [hnd, hd]
  · rintro rfl
    simpa using h.last

end Route

/-- A call on the path, at the head of what is left of it. -/
structure OnPath (s : Net ι) (d : Nsaddr) (i : ι) (path : List ι) (c : Call ι) : Prop where
  node : c.node = i
  agent : c.agent = s.agent i
  data : c.packet.IsData
  dest : c.packet.ip.daddr = d
  source : c.packet.ip.saddr ∉ path.map s.addr
  accepted : ¬ c.agent.Loops c.packet
  here : c.agent.Here c.packet ↔ path = []

namespace OnPath

variable {s : Net ι} {layer : Nsaddr → Option ι} {d : Nsaddr} {i j : ι} {path : List ι}
  {c : Call ι} {t : Nat}

theorem lookup (h : OnPath s d i (j :: path) c) (route : Route s layer d (i :: j :: path)) :
    c.agent.rtable.lookup c.packet.ip.daddr = s.addr j := by
  rw [h.agent, h.dest]
  exact SimpleRtable.lookup_of_entry (List.isChain_cons_cons.mp route.entries).1

theorem not_isBroadcast (h : OnPath s d i path c) (hd : d ≠ ipBroadcast.toInt32) :
    ¬ c.packet.IsBroadcast := by
  intro hb
  apply hd
  rw [← h.dest]
  exact (toUInt32_eq_ipBroadcast_iff _).mp hb

theorem relay (h : OnPath s d i (j :: path) c) (route : Route s layer d (i :: j :: path))
    (hj : s.addr j ≠ ipBroadcast.toInt32) (ht : c.packet.ip.ttl - 1 ≠ 0) :
    c.effects = [.lookup d, .schedule c.agent.target (c.agent.directed c.packet (s.addr j)) 0] := by
  have hl := h.lookup route
  have hh : ¬ c.agent.Here c.packet := by simp [h.here]
  have hr := Simple.recv_routed h.accepted h.data ht hh (h.not_isBroadcast route.unicast)
    (by rwa [hl])
  rwa [hl, h.dest] at hr

theorem next (h : OnPath s d i (j :: path) c) (route : Route s layer d (i :: j :: path)) :
    OnPath s d j path ⟨c.id, j, s.agent j, (c.agent.directed c.packet (s.addr j)).lower⟩ := by
  have hsource := h.source
  rw [List.map_cons, List.mem_cons, not_or] at hsource
  refine ⟨rfl, rfl, h.data, h.dest, hsource.2, fun hl => hsource.1 hl.1, ?_⟩
  rw [← route.tail.addr_eq_iff]
  constructor
  · rintro ⟨-, hb | hd⟩
    · exact absurd hb (h.not_isBroadcast route.unicast)
    · exact hd.symm.trans h.dest
  · intro hd
    exact ⟨rfl, Or.inr (h.dest.trans hd.symm)⟩

theorem expires (h : OnPath s d i path c) (ht : c.packet.ip.ttl.toInt = 1) (fuel : Nat) :
    Expires (i :: path) 1 c.packet (carry s layer (fuel + 1) c) := by
  have he : c.effects = [.drop (c.agent.aged c.packet) .ttl] :=
    Simple.recv_expired h.accepted h.data (sub_one_eq_zero_iff.mpr ht)
  have hs : sent c.effects = [] := by simp [he]
  rw [carry_stop hs]
  refine ⟨by simp [h.node], by simp [transmissions, hs], by simp [deliveries, he], ?_⟩
  exact ⟨i, c.agent.aged c.packet, rfl, by simp [drops, he, h.node],
    c.agent.copyOf_aged c.packet⟩

theorem arrives (h : OnPath s d i [] c) (ht : c.packet.ip.ttl.toInt = t) (hlt : 1 < t)
    (fuel : Nat) : Arrives s [i] t c.packet (carry s layer (fuel + 1) c) := by
  have hne : c.packet.ip.ttl - 1 ≠ 0 := by
    rw [Ne, sub_one_eq_zero_iff]
    omega
  have he : c.effects = [.dmuxRecv c.agent.dmux (c.agent.aged c.packet)] :=
    Simple.recv_here h.accepted h.data hne (h.here.mpr rfl)
  have hs : sent c.effects = [] := by simp [he]
  rw [carry_stop hs]
  refine ⟨by simp [h.node], by simp [transmissions, hs], ?_, by simp [drops, he]⟩
  refine ⟨i, c.agent.aged c.packet, rfl, by simp [deliveries, he, h.node, h.agent],
    c.agent.copyOf_aged c.packet, ?_⟩
  change (c.packet.ip.ttl - 1).toInt = _
  rw [toInt_sub_one_of_pos (by omega), ht]
  rfl

end OnPath

section Relay

variable {s : Net ι} {i : ι} {path : List ι} {t : Nat} {c : Call ι} {cs : List (Call ι)}
  {q p' : Packet}

theorem Arrives.cons (h : Arrives s path t p' cs) (hp : p'.CopyOf c.packet) (hne : path ≠ [])
    (hc : c.node = i) (hs : sent c.effects = [q]) (hd : delivered c.effects = [])
    (hr : dropped c.effects = []) : Arrives s (i :: path) (t + 1) c.packet (c :: cs) := by
  obtain ⟨n, r, hn, hdel, hcopy, httl⟩ := h.arrives
  have hlen := List.length_pos_iff.mpr hne
  refine ⟨?_, ?_, ⟨n, r, ?_, ?_, hcopy.trans hp, ?_⟩, ?_⟩
  · rw [List.map_cons, h.visits, hc]
  · rw [transmissions_cons, hs, h.sends]
    simp only [List.length_cons, List.length_nil]
    omega
  · rw [List.getLast?_cons, hn]
    rfl
  · rw [deliveries_cons_of_silent hd, hdel]
  · rw [httl, List.length_cons]
    omega
  · rw [drops_cons_of_silent hr, h.undropped]

theorem Expires.cons (h : Expires path t p' cs) (hp : p'.CopyOf c.packet) (ht : 1 ≤ t)
    (hc : c.node = i) (hs : sent c.effects = [q]) (hd : delivered c.effects = [])
    (hr : dropped c.effects = []) : Expires (i :: path) (t + 1) c.packet (c :: cs) := by
  obtain ⟨n, r, hn, hdrop, hcopy⟩ := h.expires
  refine ⟨?_, ?_, ?_, ⟨n, r, ?_, ?_, hcopy.trans hp⟩⟩
  · rw [List.map_cons, h.visits, hc, List.take_succ_cons]
  · rw [transmissions_cons, hs, h.sends]
    simp only [List.length_cons, List.length_nil]
    omega
  · rw [deliveries_cons_of_silent hd, h.undelivered]
  · cases t with
    | zero => omega
    | succ t => exact hn
  · rw [drops_cons_of_silent hr, hdrop]

end Relay

variable {s : Net ι} {layer : Nsaddr → Option ι} {d : Nsaddr} {i j : ι} {path : List ι}

theorem OnPath.horizon : ∀ {path : List ι} {i : ι} {c : Call ι} {t fuel : Nat},
    OnPath s d i path c → Route s layer d (i :: path) →
    (∀ j ∈ path, s.addr j ≠ ipBroadcast.toInt32) →
    c.packet.ip.ttl.toInt = t → 1 ≤ t → t ≤ fuel →
    Horizon s (i :: path) t c.packet (carry s layer fuel c) := by
  intro path
  induction path with
  | nil =>
    intro i c t fuel hc route _ ht h1 hfuel
    obtain ⟨fuel, rfl⟩ : ∃ n, fuel = n + 1 := ⟨fuel - 1, by omega⟩
    constructor
    · intro hlt
      exact hc.arrives ht hlt fuel
    · intro hle
      obtain rfl : t = 1 := by simp only [List.length_cons, List.length_nil] at hle; omega
      exact hc.expires ht fuel
  | cons j path ih =>
    intro i c t fuel hc route hclear ht h1 hfuel
    obtain ⟨fuel, rfl⟩ : ∃ n, fuel = n + 1 := ⟨fuel - 1, by omega⟩
    by_cases hone : t = 1
    · subst t
      refine ⟨fun hlt => ?_, fun _ => hc.expires ht fuel⟩
      simp only [List.length_cons] at hlt
      omega
    obtain ⟨t, rfl⟩ : ∃ n, t = n + 1 := ⟨t - 1, by omega⟩
    have hne : c.packet.ip.ttl - 1 ≠ 0 := by
      rw [Ne, sub_one_eq_zero_iff]
      omega
    have he := hc.relay route (hclear j List.mem_cons_self) hne
    have hs : sent c.effects = [c.agent.directed c.packet (s.addr j)] := by simp [he]
    have hd : delivered c.effects = [] := by simp [he]
    have hr : dropped c.effects = [] := by simp [he]
    have hlayer : layer (c.agent.directed c.packet (s.addr j)).cmn.nextHop = some j :=
      route.lossless j (by simp)
    have httl : (c.agent.directed c.packet (s.addr j)).lower.ip.ttl.toInt = t := by
      change (c.packet.ip.ttl - 1).toInt = t
      rw [toInt_sub_one_of_pos (by omega)]
      omega
    have hcopy : (c.agent.directed c.packet (s.addr j)).lower.CopyOf c.packet :=
      (Packet.copyOf_lower _).trans (c.agent.copyOf_directed c.packet _)
    have hrest : Horizon s (j :: path) t _ (carry s layer fuel _) := ih (hc.next route) route.tail
      (fun n hn => hclear n (List.mem_cons_of_mem j hn)) httl (by omega) (by omega)
    rw [carry_next hs hlayer]
    constructor
    · intro hlt
      exact (hrest.1 (by simpa using hlt)).cons hcopy (List.cons_ne_nil j path) hc.node hs hd hr
    · intro hle
      exact (hrest.2 (by simpa using hle)).cons hcopy (by omega) hc.node hs hd hr

/-- A packet for `d` as its source at node `i` hands it over. -/
structure Sends (s : Net ι) (d : Nsaddr) (i : ι) (c : Call ι) : Prop where
  node : c.node = i
  agent : c.agent = s.agent i
  data : c.packet.IsData
  source : c.packet.ip.saddr = s.addr i
  dest : c.packet.ip.daddr = d
  down : c.packet.cmn.direction = .down
  unforwarded : c.packet.cmn.numForwards = 0

theorem Sends.onPath {c : Call ι} (h : Sends s d i c) (route : Route s layer d (i :: j :: path)) :
    OnPath s d i (j :: path) c := by
  refine ⟨h.node, h.agent, h.data, h.dest, ?_, ?_, ?_⟩
  · rw [h.source]
    exact (List.nodup_cons.mp route.distinct).1
  · intro hl
    have := hl.2
    rw [h.unforwarded] at this
    omega
  · constructor
    · intro hh
      have := hh.1
      rw [h.down] at this
      cases this
    · intro hnil
      cases hnil

/-- The horizon of a path on which no node has the address that means "no entry". -/
theorem delivery_horizon (route : Route s layer d (i :: j :: path))
    (hclear : ∀ n ∈ j :: path, s.addr n ≠ ipBroadcast.toInt32) {c : Call ι} (hc : Sends s d i c)
    {t fuel : Nat} (ht : c.packet.ip.ttl.toInt = t) (h1 : 1 ≤ t) (hfuel : t ≤ fuel) :
    Horizon s (i :: j :: path) t c.packet (carry s layer fuel c) :=
  (hc.onPath route).horizon route hclear ht h1 hfuel

def lineNet (src mid : Nsaddr) : Net (Fin 3) where
  agent i := match i with
    | 0 => .wired src [(9, mid)]
    | 1 => .wired mid [(9, 9)]
    | 2 => .wired 9 []
  air := []
  fresh := 0

def lineLayer (s : Net (Fin 3)) (x : Nsaddr) : Option (Fin 3) := [0, 1, 2].find? (s.addr · = x)

theorem lineNet_route {src mid : Nsaddr} (h : [src, mid, 9].Nodup)
    (hl : ∀ i ∈ [0, 1, 2], lineLayer (lineNet src mid) ((lineNet src mid).addr i) = some i) :
    Route (lineNet src mid) (lineLayer (lineNet src mid)) 9 [0, 1, 2] := by
  refine ⟨h, rfl, by decide, ?_, hl⟩
  rw [List.isChain_cons_cons, List.isChain_cons_cons]
  refine ⟨?_, ?_, List.isChain_singleton _⟩
  · exact SimpleRtable.getElem?_addEntry _ 9 mid
  · exact SimpleRtable.getElem?_addEntry _ 9 9

/-- A middle node of address `-1`: its predecessor reads the entry as "no route". -/
theorem delivery_horizon_fails_at_broadcast_address :
    let s := lineNet 1 (-1)
    let c : Call (Fin 3) := ⟨0, 0, s.agent 0, .fresh 1 9 10⟩
    Route s (lineLayer s) 9 [0, 1, 2] ∧ Sends s 9 0 c ∧ c.packet.ip.ttl = 10 ∧
      ¬ Horizon s [0, 1, 2] 10 c.packet (carry s (lineLayer s) 10 c) := by
  intro s c
  refine ⟨lineNet_route (by decide) (by decide), ⟨rfl, rfl, by decide, rfl, rfl, rfl, rfl⟩, rfl, ?_⟩
  intro h
  exact absurd (h.1 (by decide)).undropped (by decide)

theorem delivery_horizon_line :
    let s := lineNet 1 2
    let c (ttl : Int32) : Call (Fin 3) := ⟨0, 0, s.agent 0, .fresh 1 9 ttl⟩
    Horizon s [0, 1, 2] 4 (.fresh 1 9 4) (carry s (lineLayer s) 4 (c 4)) ∧
      Horizon s [0, 1, 2] 2 (.fresh 1 9 2) (carry s (lineLayer s) 2 (c 2)) := by
  intro s c
  have route : Route s (lineLayer s) 9 [0, 1, 2] := lineNet_route (by decide) (by decide)
  have hclear : ∀ n ∈ [1, 2], s.addr n ≠ ipBroadcast.toInt32 := by decide
  have hsends : ∀ ttl, Sends s 9 0 (c ttl) :=
    fun ttl => ⟨rfl, rfl, show ptCbr ≠ ptSimple by decide, rfl, rfl, rfl, rfl⟩
  constructor
  · exact delivery_horizon route hclear (hsends 4) (t := 4) rfl (by decide) (le_refl 4)
  · exact delivery_horizon route hclear (hsends 2) (t := 2) rfl (by decide) (le_refl 2)

theorem next?_eq_some {c c' : Call ι} (h : next? s layer c = some c') :
    ∃ q, sent c.effects = [q] ∧ c'.id = c.id ∧ c'.agent = s.agent c'.node ∧ c'.packet = q.lower := by
  have hlen := c.agent.length_sent_recv_le c.packet
  unfold next? at h
  unfold effects at h ⊢
  cases hs : sent (c.agent.recv c.packet) with
  | nil => simp [hs] at h
  | cons q qs =>
    rw [hs, List.length_cons] at hlen
    obtain rfl : qs = [] := List.length_eq_zero_iff.mp (by omega)
    rw [hs] at h
    obtain ⟨n, -, rfl⟩ := Option.map_eq_some_iff.mp h
    exact ⟨q, rfl, rfl, rfl, rfl⟩

/-- What `carry` follows is a run of the network. -/
theorem carry_run [DecidableEq ι] (s : Net ι) (layer : Nsaddr → Option ι) (fuel : Nat) :
    ∀ (u : Net ι) (c : Call ι) (trail : List (Call ι)), u.agent = s.agent →
      u.air = c.flights trail →
      ∃ es t, Run Step u es t ∧ calls es = (carry s layer fuel c).tail := by
  induction fuel with
  | zero => exact fun u c trail _ _ => ⟨[], u, .nil u, rfl⟩
  | succ fuel ih =>
    intro u c trail hagent hair
    cases hnext : next? s layer c with
    | none => exact ⟨[], u, .nil u, by simp [carry, hnext, calls]⟩
    | some c' =>
      cases fuel with
      | zero => exact ⟨[], u, .nil u, by simp [carry, hnext, calls]⟩
      | succ fuel =>
        obtain ⟨q, hs, hid, hnode, hp⟩ := next?_eq_some hnext
        have hone : u.air = [] ++ ⟨c.id, q, trail ++ [c]⟩ :: [] := by
          simp [hair, flights, hs]
        have hstep := Step.handOver u c'.node false hone
        have hc' : (⟨c.id, c'.node, u.agent c'.node, q.lower⟩ : Call ι) = c' := by
          rw [hagent, ← hid, ← hnode, ← hp]
        rw [hc'] at hstep
        obtain ⟨es, t, hrun, hcalls⟩ := ih ({ u with air := [] }.launch
          (c'.flights (trail ++ [c]))) c' (trail ++ [c]) hagent rfl
        refine ⟨_, t, .cons hstep hrun, ?_⟩
        have htail : (carry s layer (fuel + 2) c).tail =
            c' :: (carry s layer (fuel + 1) c').tail := by
          simp [carry, hnext]
        rw [htail, ← hcalls]
        rfl

end LearnNs2
