import LearnNs2.Simple.Network

/-!
# The life of a packet is bounded by its TTL

Along a chain of hand-overs the TTL falls by one and the equality test of `recv`
keeps it away from zero. Started above zero, it therefore never gets below one;
started at zero or below, it is not stopped by that test and goes on below zero.
The least value is the exception: its decrement wraps to the greatest one.
-/

namespace LearnNs2

open LabelledRuns

set_option autoImplicit false

universe u

variable {ι : Type u}

namespace Call

theorem HandOver.ttl {c c' : Call ι} (h : HandOver c c') (hpos : 0 < c.packet.ip.ttl.toInt) :
    c'.packet.ip.ttl.toInt = c.packet.ip.ttl.toInt - 1 ∧ 0 < c'.packet.ip.ttl.toInt := by
  obtain ⟨q, hq, hc'⟩ := h
  obtain ⟨-, -, ht, -, next, rfl⟩ := Simple.mem_sent_recv hq
  have httl : c'.packet.ip.ttl = c.packet.ip.ttl - 1 := by rw [hc']; rfl
  have hne : c.packet.ip.ttl.toInt ≠ 1 := fun h1 => ht (sub_one_eq_zero_iff.mpr h1)
  rw [httl, toInt_sub_one_of_pos hpos]
  exact ⟨rfl, by omega⟩

def transmissions (cs : List (Call ι)) : List Packet := cs.flatMap fun c => sent c.effects

/-- One transmission too many would need one reception more. -/
theorem length_transmissions_lt {c : Call ι} {l : List (Call ι)}
    (chain : (c :: l).IsChain HandOver) (ttl : 0 < c.packet.ip.ttl.toInt) :
    ((transmissions (c :: l)).length : Int) < c.packet.ip.ttl.toInt := by
  induction l generalizing c with
  | nil =>
    have hlen := c.agent.length_sent_recv_le c.packet
    cases hs : sent (c.agent.recv c.packet) with
    | nil => simpa [transmissions, effects, hs] using ttl
    | cons q qs =>
      obtain ⟨-, -, ht, -⟩ := Simple.mem_sent_recv (q := q) (by rw [hs]; simp)
      have hne : c.packet.ip.ttl.toInt ≠ 1 := fun h1 => ht (sub_one_eq_zero_iff.mpr h1)
      rw [hs] at hlen
      simp only [transmissions, List.flatMap_cons, List.flatMap_nil, List.append_nil, effects, hs]
      omega
  | cons b l ih =>
    rw [List.isChain_cons_cons] at chain
    obtain ⟨hm, hb⟩ := chain.1.ttl ttl
    have hrest := ih chain.2 hb
    have hc := c.agent.length_sent_recv_le c.packet
    simp only [transmissions, List.flatMap_cons, List.length_append, effects] at hrest ⊢
    omega

/-- Whatever the tables hold, and however they change under the packet, `recv`
runs on it at most as often as its TTL says and sends it on one time less. -/
theorem recv_count_le_ttl {c : Call ι} {l : List (Call ι)}
    (chain : (c :: l).IsChain HandOver) (ttl : 1 ≤ c.packet.ip.ttl) :
    ((c :: l).length : Int) ≤ c.packet.ip.ttl.toInt ∧
      ((transmissions (c :: l)).length : Int) ≤ c.packet.ip.ttl.toInt - 1 := by
  have hpos : 0 < c.packet.ip.ttl.toInt := one_le_iff_toInt.mp ttl
  have hrecv := isChain_length_lt (m := fun c : Call ι => c.packet.ip.ttl.toInt)
    (fun h => HandOver.ttl h) chain hpos
  have hsend := length_transmissions_lt chain hpos
  rw [List.length_cons]
  exact ⟨by omega, by omega⟩

/-- Two nodes that route to each other: the third reception is the last. -/
theorem recv_count_le_ttl_two_nodes :
    let a := Simple.wired 1 [(9, 2)]
    let b := Simple.wired 2 [(9, 1)]
    let c : Call Nat := ⟨0, 0, a, .fresh 5 9 3⟩
    let c' : Call Nat := ⟨0, 1, b, (a.directed (.fresh 5 9 3) 2).lower⟩
    let l : List (Call Nat) := [c', ⟨0, 0, a, (b.directed c'.packet 1).lower⟩]
    ((c :: l).length : Int) ≤ 3 ∧ ((transmissions (c :: l)).length : Int) ≤ 3 - 1 := by
  intro a b c c' l
  have hc : HandOver c c' := ⟨_, by decide, rfl⟩
  have hl : HandOver c' ⟨0, 0, a, (b.directed c'.packet 1).lower⟩ := ⟨_, by decide, rfl⟩
  exact recv_count_le_ttl (c := c) (l := l) (by simp [l, hc, hl]) (by decide)

end Call

namespace Flight

/-- The trail of a flight is a chain of hand-overs that ends in its sender. -/
def Traced (f : Flight ι) : Prop :=
  f.trail.IsChain Call.HandOver ∧ ∀ c ∈ f.trail.getLast?, f.packet ∈ sent c.effects

theorem Traced.next {f : Flight ι} (h : f.Traced) {c : Call ι} (hc : c.packet = f.packet.lower) :
    (f.trail ++ [c]).IsChain Call.HandOver := by
  rw [List.isChain_append]
  refine ⟨h.1, List.isChain_singleton _, ?_⟩
  intro x hx y hy
  obtain rfl : y = c := by simpa using hy.symm
  exact ⟨f.packet, h.2 x hx, hc⟩

end Flight

section Runs

variable [DecidableEq ι] {s t : Net ι} {es : List (Event ι)}

theorem run_trail_isChain (run : Run Step s es t) (start : s.Start) :
    ∀ f c keep, .handOver f c keep ∈ es → (f.trail ++ [c]).IsChain Call.HandOver := by
  have hfits := run_fits run
  have h := run_flights Flight.Traced run start.quiet ?_
  · intro f c keep hmem
    exact (h.2 f c keep hmem).next (hfits _ hmem).2.1
  intro e he hprev g hg
  have hlast : ∀ {l : List (Call ι)} {c : Call ι}, (l ++ [c]).IsChain Call.HandOver →
      g.packet ∈ sent c.effects → g.trail = l ++ [c] → g.Traced := by
    intro l c hchain hsent htrail
    refine ⟨htrail ▸ hchain, ?_⟩
    rw [htrail]
    intro x hx
    obtain rfl : x = c := by simpa using hx.symm
    exact hsent
  cases launches_of_mem hg with
  | inject _ hsent htrail => exact hlast (l := []) (List.isChain_singleton _) hsent htrail
  | @handOver f c keep _ _ hsent htrail =>
    exact hlast ((hprev f c keep rfl).next (hfits _ he).2.1) hsent htrail
  | expire => exact ⟨List.isChain_nil, by simp⟩

/-- In a run no copy of a packet outlives the TTL its first agent saw. -/
theorem run_recv_count_le_ttl (run : Run Step s es t) (start : s.Start) {f : Flight ι}
    {c : Call ι} {keep : Bool} (hmem : .handOver f c keep ∈ es) {c₀ : Call ι}
    (hfirst : f.trail.head? = some c₀) (ttl : 1 ≤ c₀.packet.ip.ttl) :
    ((f.trail ++ [c]).length : Int) ≤ c₀.packet.ip.ttl.toInt := by
  have hchain := run_trail_isChain run start f c keep hmem
  obtain ⟨l, hl⟩ : ∃ l, f.trail = c₀ :: l := by
    cases htrail : f.trail with
    | nil => simp [htrail] at hfirst
    | cons x l =>
      obtain rfl : x = c₀ := by simpa [htrail] using hfirst
      exact ⟨l, rfl⟩
  rw [hl] at hchain ⊢
  exact (Call.recv_count_le_ttl hchain ttl).1

/-- What the TTL is meant to do in a run: data leaves an agent, up or down, with
at least one hop left, and an exhausted packet is dropped for it. -/
structure TtlKept (es : List (Event ι)) : Prop where
  sends : ∀ c ∈ calls es, c.packet.IsData → ∀ q ∈ sent c.effects, 1 ≤ q.ip.ttl
  delivers : ∀ c ∈ calls es, c.packet.IsData → ∀ x ∈ delivered c.effects, 1 ≤ x.2.ip.ttl
  drops : ∀ c ∈ calls es, c.packet.IsData → ¬ c.agent.Loops c.packet →
    c.packet.ip.ttl - 1 ≤ 0 → c.effects = [.drop (c.agent.aged c.packet) .ttl]

/-- A TTL that the test for equality with zero is enough for: one hop or more,
or the least value, which the decrement turns into the greatest. -/
def Guarded (ttl : Int32) : Prop := 1 ≤ ttl ∨ ttl = Int32.minValue

def GuardedSources (es : List (Event ι)) : Prop :=
  ∀ c, .inject c ∈ es → c.packet.IsData → ¬ c.agent.Loops c.packet → Guarded c.packet.ip.ttl

theorem run_flights_ttl (run : Run Step s es t) (start : s.Start) (hsrc : GuardedSources es) :
    ∀ f c keep, .handOver f c keep ∈ es → f.packet.IsData → 1 ≤ f.packet.ip.ttl := by
  have hfits := run_fits run
  refine (run_flights (fun f => f.packet.IsData → 1 ≤ f.packet.ip.ttl) run start.quiet ?_).2
  intro e he hprev g hg hd
  cases launches_of_mem hg with
  | @inject c _ _ hsent =>
    have hdc := (Simple.mem_sent_recv hsent).2.1
    have hnonneg := fun hl => sub_one_nonneg_iff.mpr (hsrc c he hdc hl)
    exact (Simple.ttl_kept_recv hdc hnonneg).1 _ hsent
  | @handOver f c keep _ _ hsent =>
    have hdc := (Simple.mem_sent_recv hsent).2.1
    have hp := (hfits _ he).2.1
    have hf : 1 ≤ c.packet.ip.ttl := by
      rw [hp] at hdc ⊢
      exact hprev f c keep rfl hdc
    exact (Simple.ttl_kept_recv hdc fun _ => sub_one_nonneg_iff.mpr (Or.inl hf)).1 _ hsent
  | expire => exact absurd rfl hd

/-- The TTL does its work in exactly those runs whose sources keep to guarded
values: the test of `recv` is for equality with zero and lets any other start at
zero or below slip past. -/
theorem ttlKept_iff_guardedSources (run : Run Step s es t) (start : s.Start) :
    TtlKept es ↔ GuardedSources es := by
  constructor
  · intro h c hc hd hl
    rw [Guarded, ← sub_one_nonneg_iff]
    by_contra hneg
    have hlow : c.packet.ip.ttl - 1 < 0 := Int32.not_le.mp hneg
    have hcall := mem_calls.mpr (Or.inl hc)
    have hdrop := h.drops c hcall hd hl (Int32.le_of_lt hlow)
    have hzero := (Simple.recv_eq_drop_ttl_iff hl hd).mp hdrop
    exact hneg (hzero ▸ Int32.le_refl 0)
  · intro hsrc
    have hcall : ∀ c ∈ calls es, c.packet.IsData → ¬ c.agent.Loops c.packet →
        0 ≤ c.packet.ip.ttl - 1 := by
      intro c hc hd hl
      rw [sub_one_nonneg_iff]
      rcases mem_calls.mp hc with hc | ⟨f, keep, hc⟩
      · exact hsrc c hc hd hl
      · have hp := (run_fits run _ hc).2.1
        rw [hp] at hd ⊢
        exact Or.inl (run_flights_ttl run start hsrc f c keep hc hd)
    exact ⟨fun c hc hd => (Simple.ttl_kept_recv hd (hcall c hc hd)).1,
      fun c hc hd => (Simple.ttl_kept_recv hd (hcall c hc hd)).2.1,
      fun c hc hd => (Simple.ttl_kept_recv hd (hcall c hc hd)).2.2⟩

end Runs

/-- A source that sends with TTL 0: the packet goes out with TTL -1. -/
theorem ttlKept_fails_at_zero :
    ∃ (s t : Net Unit) (es : List (Event Unit)), s.Start ∧ Run Step s es t ∧ ¬ TtlKept es := by
  let a := Simple.wired 1 [(9, 2)]
  let s : Net Unit := ⟨fun _ => a, [], 0⟩
  have hrun := Run.single (Step.inject s () (.fresh 1 9 0))
  refine ⟨s, _, _, ⟨fun _ _ _ => rfl, rfl⟩, hrun, ?_⟩
  intro h
  have hsent : a.directed (.fresh 1 9 0) 2 ∈ sent (a.recv (.fresh 1 9 0)) := by decide
  have := h.sends ⟨0, (), a, .fresh 1 9 0⟩ (mem_calls.mpr (Or.inl (by simp [s]))) (by decide) _
    hsent
  exact absurd this (by decide)

/-- A packet that spends its last hop at the second node, and one whose TTL of
`-2 ^ 31` wraps on its way to the same node. -/
theorem ttlKept_iff_guardedSources_pair :
    let agent : Bool → Simple := fun i => if i then .wired 2 [] else .wired 1 [(2, 2)]
    let c (ttl : Int32) : Call Bool := ⟨0, false, agent false, .fresh 1 2 ttl⟩
    let f (ttl : Int32) : Flight Bool := ⟨0, (agent false).directed (c ttl).packet 2, [c ttl]⟩
    let es (ttl : Int32) : List (Event Bool) :=
      [.inject (c ttl), .handOver (f ttl) ⟨0, true, agent true, (f ttl).packet.lower⟩ false]
    TtlKept (es 2) ∧ TtlKept (es Int32.minValue) := by
  intro agent c f es
  have hstart : (⟨agent, [], 0⟩ : Net Bool).Start := .pair (by decide) 0
  have hguarded : ∀ {ttl}, Guarded ttl → GuardedSources (es ttl) := by
    intro ttl h c' hc' _ _
    obtain rfl : c' = c ttl := by simpa [es] using hc'
    exact h
  constructor
  · have h1 := step_inject_one agent 0 false (p := (c 2).packet) (q := (f 2).packet) (by decide)
    have h2 := step_handOver_last agent 1 true (f 2) (by decide)
    exact (ttlKept_iff_guardedSources (.cons h1 (.single h2)) hstart).mpr
      (hguarded (Or.inl (by decide)))
  · have h1 := step_inject_one agent 0 false (p := (c Int32.minValue).packet)
      (q := (f Int32.minValue).packet) (by decide)
    have h2 := step_handOver_last agent 1 true (f Int32.minValue) (by decide)
    exact (ttlKept_iff_guardedSources (.cons h1 (.single h2)) hstart).mpr
      (hguarded (Or.inr rfl))

end LearnNs2
