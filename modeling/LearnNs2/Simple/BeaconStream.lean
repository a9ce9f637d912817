import LearnNs2.Simple.Clock
import Mathlib.Data.List.Indexes
import Mathlib.Data.UInt
import Mathlib.Tactic.Ring

/-!
# The stream of control packets

An agent that is started once, at time `T`, makes its `n`-th control packet at
`T + 5n`, and the jitter is shorter than what would let a packet overtake the
next. The counter wraps at 256, and by then the older packet is long gone.
-/

namespace LearnNs2

open LabelledRuns

set_option autoImplicit false

/-- A control packet with the times it is made at and leaves at. -/
structure Beacon where
  made : ℚ
  leaves : ℚ
  seqNum : UInt8

def Effect.beacon? (time : ℚ) : Effect → Option Beacon
  | .schedule _ p delay =>
    if p.cmn.ptype = ptSimple then some ⟨time, time + delay, p.simple.pktSeqNum⟩ else none
  | _ => none

def Tick.beacons (x : Tick) : List Beacon :=
  x.turn.reply.effects.filterMap (Effect.beacon? x.time)

def beacons (es : List Tick) : List Beacon := es.flatMap Tick.beacons

/-- `JITTER`: the draw times one half. -/
def Tick.jitter? (x : Tick) : Option ℚ :=
  match x.turn.request with
  | .expire _ uniform => some (uniform * (1 / 2))
  | _ => none

def jitters (es : List Tick) : List ℚ := es.filterMap Tick.jitter?

/-- The only start command of the run is given at time `T`. -/
def StartedOnce (T : ℚ) (es : List Tick) : Prop :=
  ∃ pre x post, es = pre ++ x :: post ∧ x.isStart ∧ x.time = T ∧ ∀ y ∈ pre ++ post, ¬ y.isStart

section Steps

variable {u v : Clocked} {x : Tick} {es : List Tick}

theorem beacons_of_data {fx : List Effect} (h : ∀ q ∈ sent fx, q.IsData) (time : ℚ) :
    fx.filterMap (Effect.beacon? time) = [] := by
  apply List.filterMap_eq_nil_iff.mpr
  intro e he
  cases e with
  | schedule target q delay =>
    have hq : q.IsData := h q (List.mem_filterMap.mpr ⟨_, he, rfl⟩)
    exact if_neg hq
  | _ => rfl

theorem clockStep_silent (h : ClockStep u x v) (he : ¬ x.isExpiry) :
    x.beacons = [] ∧ x.jitter? = none := by
  cases h with
  | command _ env argv =>
    refine ⟨beacons_of_data ?_ _, rfl⟩
    intro q hq
    change q ∈ sent (u.agent.command env argv).effects at hq
    rw [sent_command] at hq
    cases hq
  | recv _ p =>
    refine ⟨beacons_of_data ?_ _, rfl⟩
    intro q hq
    obtain ⟨-, hd, -, -, next, rfl⟩ := Simple.mem_sent_recv hq
    exact hd
  | expire => exact absurd rfl he

theorem clockStep_beacon (h : ClockStep u x v) (he : x.isExpiry) :
    ∃ j, x.jitter? = some j ∧ 0 ≤ j ∧ j < 1 / 2 ∧
      x.beacons = [⟨x.time, x.time + j, u.agent.seqNum⟩] := by
  cases h with
  | command => cases he
  | recv => cases he
  | @expire time _ pre post _ p uniform h0 h1 =>
    refine ⟨uniform * (1 / 2), rfl, by positivity, by linarith, ?_⟩
    rfl

/-- Packet number `n` of an agent started at `T` with the counter at `first`. -/
def nth (T : ℚ) (first : UInt8) (n : Nat) (j : ℚ) : Beacon :=
  ⟨T + 5 * n, T + 5 * n + j, first + UInt8.ofNat n⟩

/-- The state of a stream after as many packets as there are jitters in `es`. -/
structure Streaming (T : ℚ) (first : UInt8) (es : List Tick) (u : Clocked) : Prop where
  pending : u.pending = [T + 5 * (jitters es).length]
  seqNum : u.agent.seqNum = first + UInt8.ofNat (jitters es).length
  stream : beacons es = (jitters es).mapIdx (nth T first)
  small : ∀ j ∈ jitters es, 0 ≤ j ∧ j < 1 / 2

theorem beacons_append (es : List Tick) (x : Tick) :
    beacons (es ++ [x]) = beacons es ++ x.beacons := by
  simp [beacons]

theorem jitters_append (es : List Tick) (x : Tick) :
    jitters (es ++ [x]) = jitters es ++ x.jitter?.toList := by
  rw [jitters, List.filterMap_append]
  cases h : x.jitter? with
  | none => simp [jitters, h]
  | some j => simp [jitters, h]

theorem streaming_expiry {T : ℚ} {first : UInt8} (h : ClockStep u x v)
    (hu : Streaming T first es u) (he : x.isExpiry) {pre post : List ℚ}
    (hdue : u.pending = pre ++ x.time :: post) (hp : v.pending = resched x.time (pre ++ post) 5)
    (hn : v.agent.seqNum = u.agent.seqNum + 1) : Streaming T first (es ++ [x]) v := by
  obtain ⟨j, hj, h0, h1, hbeacon⟩ := clockStep_beacon h he
  rw [hu.pending] at hdue
  obtain ⟨rfl, htime, rfl⟩ := singleton_eq_append_cons hdue
  have hjitters : jitters (es ++ [x]) = jitters es ++ [j] := by
    rw [jitters_append, hj]
    rfl
  refine ⟨?_, ?_, ?_, ?_⟩
  · rw [hp, hjitters, List.length_append, List.length_singleton, ← htime]
    simp only [resched, List.append_nil, List.drop_nil, Nat.cast_add, Nat.cast_one]
    congr 1
    ring
  · rw [hn, hu.seqNum, hjitters, List.length_append, List.length_singleton, UInt8.ofNat_add]
    exact add_assoc _ _ _
  · rw [beacons_append, hu.stream, hbeacon, hjitters, List.mapIdx_concat, hu.seqNum, ← htime]
    rfl
  · intro k hk
    rw [hjitters] at hk
    rcases List.mem_append.mp hk with hk | hk
    · exact hu.small k hk
    · rw [List.mem_singleton.mp hk]
      exact ⟨h0, h1⟩

theorem streaming_step {T : ℚ} {first : UInt8} (h : ClockStep u x v) (hu : Streaming T first es u)
    (hs : ¬ x.isStart) : Streaming T first (es ++ [x]) v := by
  cases clockStep_outcome h with
  | start hs' => exact absurd hs' hs
  | expiry _ he pre post hdue hp hn => exact streaming_expiry h hu he hdue hp hn
  | other _ he hp hn =>
    obtain ⟨hbeacons, hjitter⟩ := clockStep_silent h he
    have hjitters : jitters (es ++ [x]) = jitters es := by
      rw [jitters_append, hjitter, Option.toList_none, List.append_nil]
    refine ⟨?_, ?_, ?_, ?_⟩
    · rw [hp, hjitters]
      exact hu.pending
    · rw [hn, hjitters]
      exact hu.seqNum
    · rw [beacons_append, hbeacons, List.append_nil, hjitters]
      exact hu.stream
    · rw [hjitters]
      exact hu.small

end Steps

section Runs

variable {s t u v : Clocked} {x : Tick} {es : List Tick} {T : ℚ}

/-- Until the first start the counter stays where it is. -/
theorem run_before_start (run : Run ClockStep s es t) (idle : s.pending = [])
    (h : ∀ x ∈ es, ¬ x.isStart) :
    t.pending = [] ∧ t.agent.seqNum = s.agent.seqNum ∧ beacons es = [] ∧ jitters es = [] := by
  apply run.induct (fun pre u => u.pending = [] ∧ u.agent.seqNum = s.agent.seqNum ∧
    beacons pre = [] ∧ jitters pre = [])
  · exact ⟨idle, rfl, rfl, rfl⟩
  · rintro pre u x v hx ⟨hu, hn, hb, hj⟩ hstep
    cases clockStep_outcome hstep with
    | start hs => exact absurd hs (h x hx)
    | expiry _ _ pre post hdue =>
      rw [hu] at hdue
      simp at hdue
    | other _ he hp hn' =>
      obtain ⟨hbeacons, hjitter⟩ := clockStep_silent hstep he
      refine ⟨hp.trans hu, hn'.trans hn, ?_, ?_⟩
      · rw [beacons_append, hb, hbeacons, List.append_nil]
      · rw [jitters_append, hj, hjitter]
        rfl

theorem run_streaming {post : List Tick} {first : UInt8} (run : Run ClockStep u post t)
    (hu : Streaming T first [] u) (h : ∀ y ∈ post, ¬ y.isStart) : Streaming T first post t :=
  run.induct (Streaming T first) hu fun hx hpre hstep => streaming_step hstep hpre (h _ hx)

theorem streaming_start (h : ClockStep u x v) (hs : x.isStart) (hp : u.pending = []) :
    Streaming x.time u.agent.seqNum [] v ∧ x.beacons = [] ∧ x.jitter? = none := by
  cases clockStep_outcome h with
  | start _ he hp' hn =>
    refine ⟨⟨?_, ?_, rfl, by simp [jitters]⟩, clockStep_silent h he⟩
    · rw [hp', hp]
      simp [resched, jitters]
    · rw [hn]
      simp [jitters]
  | expiry hs' => exact absurd hs hs'
  | other hs' => exact absurd hs hs'

theorem run_started_once (run : Run ClockStep s es t) (idle : s.pending = [])
    (once : StartedOnce T es) : Streaming T s.agent.seqNum es t := by
  obtain ⟨pre, x, post, rfl, hs, rfl, hno⟩ := once
  obtain ⟨u, hpre, hrest⟩ := run.split
  obtain ⟨v, hstep, hpost⟩ := hrest.of_cons
  obtain ⟨hpending, hn, hb, hj⟩ := run_before_start hpre idle fun y hy => hno y (by simp [hy])
  obtain ⟨hv, hbx, hjx⟩ := streaming_start hstep hs hpending
  have ht := run_streaming hpost hv fun y hy => hno y (by simp [hy])
  have hbeacons : beacons (pre ++ x :: post) = beacons post := by
    simp only [beacons, List.flatMap_append, List.flatMap_cons] at hb ⊢
    rw [hb, hbx, List.nil_append, List.nil_append]
  have hjitters : jitters (pre ++ x :: post) = jitters post := by
    simp only [jitters, List.filterMap_append] at hj ⊢
    rw [hj, List.filterMap_cons_none hjx, List.nil_append]
  rw [hn] at ht
  constructor
  · rw [hjitters]
    exact ht.pending
  · rw [hjitters]
    exact ht.seqNum
  · rw [hbeacons, hjitters]
    exact ht.stream
  · rw [hjitters]
    exact ht.small

/-- A packet has been made once the clock has passed its time. -/
theorem Streaming.made {first : UInt8} (h : Streaming T first es u)
    (hnow : ∀ d ∈ u.pending, u.now ≤ d) {n : Nat} (hn : T + 5 * n < u.now) :
    n < (beacons es).length := by
  have hdue := hnow (T + 5 * (jitters es).length) (by rw [h.pending]; simp)
  have hlt : (n : ℚ) < (jitters es).length := by linarith
  rw [h.stream, List.length_mapIdx]
  exact_mod_cast hlt

end Runs

/-- Packet `n`, with jitter `j`, of a stream that starts at `T` with the counter
at `first`. -/
structure InStream (T : ℚ) (first : UInt8) (n : Nat) (j : ℚ) (b : Beacon) : Prop where
  nonneg : 0 ≤ j
  small : j < 1 / 2
  made : b.made = T + 5 * n
  leaves : b.leaves = T + 5 * n + j
  seqNum : b.seqNum.toNat = (first.toNat + n) % 256

/-- How packet `m` of a stream and a later packet `n` are apart. -/
structure Apart (m n : Nat) (b b' : Beacon) : Prop where
  ordered : b.leaves < b'.leaves
  consecutive : n = m + 1 → 9 / 2 < b'.leaves - b.leaves ∧ b'.leaves - b.leaves < 11 / 2
  distinct : n < m + 256 → b.seqNum ≠ b'.seqNum
  reused : b.seqNum = b'.seqNum → 2559 / 2 < b'.leaves - b.leaves

section Streams

variable {T : ℚ} {first : UInt8} {m n : Nat} {j j' : ℚ} {b b' : Beacon}

theorem inStream_nth (h0 : 0 ≤ j) (h1 : j < 1 / 2) :
    InStream T first n j (nth T first n j) := by
  refine ⟨h0, h1, rfl, rfl, ?_⟩
  change (first + UInt8.ofNat n).toNat = _
  rw [UInt8.toNat_add, UInt8.toNat_ofNat', Nat.add_mod_mod]

/-- A jitter may cost half a second of the distance, not more. -/
theorem InStream.gap (hb : InStream T first m j b) (hb' : InStream T first n j' b') (k : Nat)
    (hk : m + k ≤ n) : 5 * (k : ℚ) - 1 / 2 < b'.leaves - b.leaves := by
  have hcast : (m : ℚ) + k ≤ n := by exact_mod_cast hk
  rw [hb.leaves, hb'.leaves]
  linarith [hb.small, hb'.nonneg]

theorem InStream.wraps (hb : InStream T first m j b) (hb' : InStream T first n j' b')
    (hlt : m < n) (he : b.seqNum = b'.seqNum) : m + 256 ≤ n := by
  have hm := hb.seqNum
  have hn := hb'.seqNum
  rw [he] at hm
  omega

theorem InStream.apart (hb : InStream T first m j b) (hb' : InStream T first n j' b')
    (hlt : m < n) : Apart m n b b' := by
  refine ⟨?_, ?_, ?_, ?_⟩
  · have hgap := hb.gap hb' 1 hlt
    norm_num at hgap
    linarith
  · rintro rfl
    rw [hb.leaves, hb'.leaves, Nat.cast_add, Nat.cast_one]
    constructor
    · linarith [hb.small, hb'.nonneg]
    · linarith [hb'.small, hb.nonneg]
  · intro hn he
    have hwraps := hb.wraps hb' hlt he
    omega
  · intro he
    have hgap := hb.gap hb' 256 (hb.wraps hb' hlt he)
    norm_num at hgap
    linarith

end Streams

section Runs

variable {s t : Clocked} {es : List Tick} {T : ℚ}

theorem Streaming.inStream {first : UInt8} (h : Streaming T first es t) {n : Nat} {b : Beacon}
    (hb : (beacons es)[n]? = some b) :
    ∃ j, (jitters es)[n]? = some j ∧ InStream T first n j b := by
  rw [h.stream, List.getElem?_mapIdx] at hb
  obtain ⟨j, hj, rfl⟩ := Option.map_eq_some_iff.mp hb
  obtain ⟨h0, h1⟩ := h.small j (List.mem_of_getElem? hj)
  exact ⟨j, hj, inStream_nth h0 h1⟩

/-- One start gives one stream: packet `n` is made at `T + 5n` and leaves after
its jitter, and no packet can be taken for another one. -/
theorem control_stream (run : Run ClockStep s es t) (idle : s.pending = [])
    (once : StartedOnce T es) :
    (∀ n : Nat, T + 5 * n < t.now → n < (beacons es).length) ∧
    (∀ n b, (beacons es)[n]? = some b →
      ∃ j, (jitters es)[n]? = some j ∧ InStream T s.agent.seqNum n j b) ∧
    ∀ m n b b', m < n → (beacons es)[m]? = some b → (beacons es)[n]? = some b' →
      Apart m n b b' := by
  have h := run_started_once run idle once
  refine ⟨?_, fun n b hb => h.inStream hb, ?_⟩
  · intro n hn
    refine h.made ?_ hn
    obtain ⟨pre, x, post, rfl, hs, -⟩ := once
    rcases run_timer run idle with ht | ⟨⟨d, hd, hle, -⟩, -⟩
    · exact absurd hs (ht.2 x (by simp)).1
    · simpa [hd] using hle
  · intro m n b b' hlt hb hb'
    obtain ⟨j, -, hm⟩ := h.inStream hb
    obtain ⟨j', -, hn⟩ := h.inStream hb'
    exact hm.apart hn hlt

/-- The next expiry of a ticking agent, with a given jitter. -/
theorem Ticking.expire {u : Clocked} (hu : Ticking u) (p : Packet) {j : ℚ} (h0 : 0 ≤ j)
    (h1 : j < 1 / 2) : ∃ x v, ClockStep u x v ∧ ¬ x.isStart ∧ x.jitter? = some j := by
  obtain ⟨d, hd, hle, -⟩ := hu
  have hreach : u.Reaches d := ⟨hle, by simp [hd]⟩
  have hone : u.pending = [] ++ d :: [] := hd
  have hdraw0 : 0 ≤ 2 * j := by linarith
  have hdraw1 : 2 * j < 1 := by linarith
  refine ⟨_, _, .expire u hreach hone p hdraw0 hdraw1, Bool.false_ne_true, ?_⟩
  change some (2 * j * (1 / 2)) = some j
  congr 1
  ring

/-- Every sequence of jitters has its run. -/
theorem control_stream_exists (a : Simple) (T : ℚ) {js : List ℚ}
    (small : ∀ j ∈ js, 0 ≤ j ∧ j < 1 / 2) :
    ∃ es t, Run ClockStep ⟨a, T, []⟩ es t ∧ StartedOnce T es ∧ jitters es = js := by
  have hfirst := clockStep_startAt (u := ⟨a, T, []⟩) (reaches_now_of_idle rfl) (by simp)
  have hticking : Ticking ⟨a, T, [T]⟩ := ⟨T, rfl, le_refl _, by simp⟩
  have h : ∃ es t, Run ClockStep ⟨a, T, [T]⟩ es t ∧ (∀ y ∈ es, ¬ y.isStart) ∧ Ticking t ∧
      jitters es = js := by
    induction js using List.reverseRecOn with
    | nil => exact ⟨[], _, .nil _, by simp, hticking, rfl⟩
    | append_singleton js j ih =>
      obtain ⟨es, t, hrun, hno, ht, hjs⟩ := ih fun k hk => small k (List.mem_append_left _ hk)
      obtain ⟨h0, h1⟩ := small j (by simp)
      obtain ⟨x, v, hstep, hs, hj⟩ := ht.expire .alloc h0 h1
      refine ⟨es ++ [x], v, hrun.snoc hstep, ?_, ticking_step hstep ht, ?_⟩
      · intro y hy
        rcases List.mem_append.mp hy with hy | hy
        · exact hno y hy
        · rwa [List.mem_singleton.mp hy]
      · rw [jitters_append, hjs, hj]
        rfl
  obtain ⟨es, t, hrun, hno, -, hjs⟩ := h
  have once : StartedOnce T (startAt a T :: es) :=
    ⟨[], startAt a T, es, rfl, isStart_startAt a T, rfl, hno⟩
  refine ⟨startAt a T :: es, t, .cons hfirst hrun, once, ?_⟩
  rw [← hjs]
  exact List.filterMap_cons_none rfl

/-- The first two packets of an agent started at time 0. -/
theorem control_stream_two :
    let a := Simple.wired 1 []
    let b := (a.expire .alloc (1 / 2)).1
    let es : List Tick :=
      [startAt a 0, ⟨0, a, .expire .alloc (1 / 2)⟩, ⟨5, b, .expire .alloc (4 / 5)⟩]
    beacons es = [⟨0, 1 / 4, 0⟩, ⟨5, 27 / 5, 1⟩] ∧
      (∀ n b, (beacons es)[n]? = some b → ∃ j, (jitters es)[n]? = some j ∧ InStream 0 0 n j b) ∧
      Apart 0 1 ⟨0, 1 / 4, 0⟩ ⟨5, 27 / 5, 1⟩ := by
  intro a b es
  have hstart := clockStep_startAt (u := ⟨a, 0, []⟩) (reaches_now_of_idle rfl) (by simp)
  have hdue : [(0 : ℚ)] = [] ++ 0 :: [] := rfl
  have hdue' : [(0 + 5 : ℚ)] = [] ++ 5 :: [] := by simp
  have hfirst : ClockStep ⟨a, 0, [0]⟩ ⟨0, a, .expire .alloc (1 / 2)⟩ ⟨b, 0, [0 + 5]⟩ :=
    .expire ⟨a, 0, [0]⟩ ⟨le_refl _, by simp⟩ hdue .alloc (by norm_num) (by norm_num)
  have hsecond : ClockStep ⟨b, 0, [0 + 5]⟩ ⟨5, b, .expire .alloc (4 / 5)⟩
      ⟨(b.expire .alloc (4 / 5)).1, 5, [5 + 5]⟩ :=
    .expire ⟨b, 0, [0 + 5]⟩ ⟨by norm_num, by simp⟩ hdue' .alloc (by norm_num) (by norm_num)
  have once : StartedOnce 0 es :=
    ⟨[], startAt a 0, _, rfl, isStart_startAt a 0, rfl, by simp [Tick.isStart, Request.isStart]⟩
  obtain ⟨-, hstream, happart⟩ :=
    control_stream (.cons hstart (.cons hfirst (.single hsecond))) rfl once
  have hsilent : (startAt a 0).beacons = [] :=
    (clockStep_silent hstart (fun he => Bool.false_ne_true he)).1
  have hbeacons : beacons es = [⟨0, 1 / 4, 0⟩, ⟨5, 27 / 5, 1⟩] := by
    have h1 : Tick.beacons ⟨0, a, .expire .alloc (1 / 2)⟩ = [⟨0, 0 + 1 / 2 * (1 / 2), 0⟩] := rfl
    have h2 : Tick.beacons ⟨5, b, .expire .alloc (4 / 5)⟩ = [⟨5, 5 + 4 / 5 * (1 / 2), 1⟩] := rfl
    rw [beacons, List.flatMap_cons, List.flatMap_cons, List.flatMap_singleton, hsilent, h1, h2]
    norm_num
  refine ⟨hbeacons, hstream, happart 0 1 _ _ Nat.zero_lt_one ?_ ?_⟩
  · rw [hbeacons]
    rfl
  · rw [hbeacons]
    rfl

end Runs

end LearnNs2
