import LearnNs2.Chapter4.Sessions
import Mathlib.Algebra.BigOperators.Group.List.Basic
import Mathlib.Algebra.Order.Field.Rat
import Mathlib.Data.Finset.Card
import Mathlib.Order.Interval.Finset.Nat
import Mathlib.Tactic.NormNum

/-!
# The counters of `countFlows`

A counter moves when the script is told of a start or an end, one session at a
time. That it is right at any moment needs that no session is started twice,
which the agenda says, and that `done` is called as ns-2 calls it.
-/

namespace LearnNs2

open EventQueue LabelledRuns

set_option autoImplicit false

variable {τ : Type}

/-- The session has been started and has not ended. -/
def Underway (es : List (SimLabel τ)) (x : Session) : Prop := x ∈ started es ∧ x ∉ completed es

instance (es : List (SimLabel τ)) (x : Session) : Decidable (Underway es x) :=
  inferInstanceAs (Decidable (_ ∧ _))

/-- The sessions of the node `i` that are underway after a history. -/
def liveCount (c : Setup τ) (es : List (SimLabel τ)) (i : Nat) : Nat :=
  ((Finset.Icc 1 c.numberFlows).filter fun j => Underway es ⟨i, j⟩).card

/-- A row of `$Conn`: the time, the numbers of the nodes, and their sum. -/
def sampleRow (c : Setup τ) (t : τ) (es : List (SimLabel τ)) : List (Column τ) :=
  .time t :: ((List.range' 1 c.nodeNb).map fun i => .int (liveCount c es i)) ++
    [.int ((List.range' 1 c.nodeNb).map fun i => (liveCount c es i : ℤ)).sum]

/-- What a label adds to `$Conn` after the history `es`. -/
def rowsAt (c : Setup τ) (es : List (SimLabel τ)) : SimLabel τ → List (List (Column τ))
  | .script t .sample => [sampleRow c t es, []]
  | _ => []

/-- The whole of `$Conn`: for each sample its row and an empty line. -/
def rows (c : Setup τ) (es : List (SimLabel τ)) : List (List (Column τ)) :=
  (List.range es.length).flatMap fun n => (es[n]?.map (rowsAt c (es.take n))).getD []

section Histories

variable {es pre post : List (SimLabel τ)} {e : SimLabel τ} {t : τ} {x y : Session}
  {stats : TcpStats} {c : Setup τ}

theorem rows_append (c : Setup τ) (es : List (SimLabel τ)) (e : SimLabel τ) :
    rows c (es ++ [e]) = rows c es ++ rowsAt c es e := by
  unfold rows
  rw [List.length_append, List.length_singleton, List.range_succ, List.flatMap_append,
    List.flatMap_singleton]
  congr 1
  · apply List.flatMap_congr
    intro n hn
    have hlt := List.mem_range.mp hn
    rw [List.getElem?_append_left hlt, List.take_append_of_le_length hlt.le]
  · simp

theorem completed_append (es : List (SimLabel τ)) (e : SimLabel τ) :
    completed (es ++ [e]) = completed es ++ (e.done?.map Prod.fst).toList := by
  rw [completed, completions_append, List.map_append]
  cases e.done? <;> rfl

theorem orderly_nil : Orderly ([] : List (SimLabel τ)) := by
  intro pre t x stats post h
  simp at h

theorem orderly_append_iff (es : List (SimLabel τ)) (e : SimLabel τ) : Orderly (es ++ [e]) ↔
    Orderly es ∧ ∀ t x stats, e = .done t x stats → Underway es x := by
  constructor
  · intro h
    constructor
    · intro pre t x stats post heq
      exact h pre t x stats (post ++ [e]) (by rw [heq]; simp)
    · rintro t x stats rfl
      exact h es t x stats [] rfl
  · rintro ⟨hes, hlast⟩ pre t x stats post heq
    rcases List.eq_nil_or_concat' post with rfl | ⟨post, last, rfl⟩
    · obtain ⟨rfl, he⟩ := List.append_inj' heq rfl
      exact hlast t x stats (List.singleton_inj.mp he)
    · rw [← List.cons_append, ← List.append_assoc] at heq
      exact hes pre t x stats post (List.append_inj' heq rfl).1

theorem Orderly.of_append (h : Orderly (es ++ [e])) : Orderly es :=
  ((orderly_append_iff es e).mp h).1

theorem Orderly.last (h : Orderly (es ++ [.done t x stats])) : Underway es x :=
  ((orderly_append_iff es _).mp h).2 t x stats rfl

theorem mem_completions_iff {d : Session × τ} : d ∈ completions es ↔ ∃ stats, .done d.2 d.1 stats ∈ es := by
  simp only [completions, List.mem_filterMap]
  constructor
  · rintro ⟨e, he, hd⟩
    cases e with
    | script => cases hd
    | done t x stats =>
      cases hd
      exact ⟨stats, he⟩
  · rintro ⟨stats, h⟩
    exact ⟨_, h, rfl⟩

theorem mem_completed_iff : x ∈ completed es ↔ ∃ t stats, .done t x stats ∈ es := by
  rw [completed, List.mem_map]
  constructor
  · rintro ⟨d, hd, rfl⟩
    exact ⟨d.2, mem_completions_iff.mp hd⟩
  · rintro ⟨t, h⟩
    exact ⟨(x, t), mem_completions_iff.mpr h, rfl⟩

theorem Orderly.started_of_completed (h : Orderly es) (hx : x ∈ completed es) : x ∈ started es := by
  obtain ⟨t, stats, hmem⟩ := mem_completed_iff.mp hx
  obtain ⟨pre, post, rfl⟩ := List.append_of_mem hmem
  have hstart := (h pre t x stats post rfl).1
  rw [started, List.filterMap_append]
  exact List.mem_append_left _ hstart

section Counts

theorem underway_append (es : List (SimLabel τ)) (e : SimLabel τ) (y : Session) :
    Underway (es ++ [e]) y ↔ (y ∈ started es ∨ e.start? = some y) ∧
      y ∉ completed es ∧ e.done?.map Prod.fst ≠ some y := by
  unfold Underway
  rw [started_append, completed_append]
  simp [not_or]

theorem liveCount_of_one_more {es es' : List (SimLabel τ)}
    (hiff : ∀ y, Underway es' y ↔ y = x ∨ Underway es y) (hnew : ¬ Underway es x)
    (hx : 1 ≤ x.sess ∧ x.sess ≤ c.numberFlows) (i : Nat) :
    liveCount c es' i = liveCount c es i + if i = x.node then 1 else 0 := by
  unfold liveCount
  by_cases hi : i = x.node
  · subst hi
    have hset : (Finset.Icc 1 c.numberFlows).filter (fun j => Underway es' ⟨x.node, j⟩) =
        insert x.sess ((Finset.Icc 1 c.numberFlows).filter fun j => Underway es ⟨x.node, j⟩) := by
      ext j
      rw [Finset.mem_filter, Finset.mem_insert, Finset.mem_filter, hiff, Finset.mem_Icc]
      constructor
      · rintro ⟨hj, heq | hunder⟩
        · exact Or.inl (congrArg Session.sess heq)
        · exact Or.inr ⟨hj, hunder⟩
      · rintro (rfl | ⟨hj, hunder⟩)
        · exact ⟨hx, Or.inl rfl⟩
        · exact ⟨hj, Or.inr hunder⟩
    rw [hset, Finset.card_insert_of_notMem, if_pos rfl]
    intro hmem
    exact hnew (Finset.mem_filter.mp hmem).2
  · rw [if_neg hi, Nat.add_zero]
    congr 1
    apply Finset.filter_congr
    intro j _
    rw [hiff]
    constructor
    · rintro (heq | h)
      · exact absurd (congrArg Session.node heq) hi
      · exact h
    · exact Or.inr

theorem liveCount_of_other (hs : e.start? = none) (hd : e.done? = none) (i : Nat) :
    liveCount c (es ++ [e]) i = liveCount c es i := by
  unfold liveCount
  congr 1
  apply Finset.filter_congr
  intro j _
  rw [underway_append, hs, hd]
  simp [Underway]

theorem liveCount_of_start (hs : e.start? = some x) (hd : e.done? = none) (hnew : x ∉ started es)
    (hcompleted : x ∉ completed es) (hx : 1 ≤ x.sess ∧ x.sess ≤ c.numberFlows) (i : Nat) :
    liveCount c (es ++ [e]) i = liveCount c es i + if i = x.node then 1 else 0 := by
  refine liveCount_of_one_more ?_ (fun h => hnew h.1) hx i
  intro y
  rw [underway_append, hs, hd]
  constructor
  · rintro ⟨hy | heq, hno, -⟩
    · exact Or.inr ⟨hy, hno⟩
    · exact Or.inl (Option.some.inj heq).symm
  · rintro (rfl | ⟨hy, hno⟩)
    · exact ⟨Or.inr rfl, hcompleted, nofun⟩
    · exact ⟨Or.inl hy, hno, nofun⟩

theorem liveCount_of_done (hs : e.start? = none) (hd : e.done? = some (x, t)) (h : Underway es x)
    (hx : 1 ≤ x.sess ∧ x.sess ≤ c.numberFlows) (i : Nat) :
    liveCount c es i = liveCount c (es ++ [e]) i + if i = x.node then 1 else 0 := by
  have happend : ∀ y, Underway (es ++ [e]) y ↔ Underway es y ∧ y ≠ x := by
    intro y
    rw [underway_append, hs, hd]
    simp [Underway, and_assoc, eq_comm]
  refine liveCount_of_one_more ?_ (fun hx => ((happend x).mp hx).2 rfl) hx i
  intro y
  rw [happend]
  by_cases hy : y = x
  · simp [hy, h]
  · simp [hy]

end Counts

end Histories

section Agenda

def pending (agenda : List (τ × Script)) : List Session := agenda.filterMap fun a => a.2.start?

theorem pending_append (agenda more : List (τ × Script)) :
    pending (agenda ++ more) = pending agenda ++ pending more :=
  List.filterMap_append

theorem pending_init [Zero τ] [OfScientific τ] (c : Setup τ) :
    pending c.init.agenda = c.sessions := by
  have hstarts : ∀ xs : List Session, pending (xs.flatMap fun x =>
      [(c.starts x, Script.send x), (c.starts x, .start x)]) = xs := by
    intro xs
    induction xs with
    | nil => rfl
    | cons x xs ih =>
      rw [List.flatMap_cons, pending_append, ih]
      rfl
  rw [Setup.init, pending_append, hstarts]
  exact List.append_nil _

theorem pending_of_due [LinearOrder τ] {agenda rest : List (τ × Script)} {t : τ} {e : Script}
    (h : Due agenda t e rest) : (pending agenda).Perm (e.start?.toList ++ pending rest) := by
  have hperm := h.perm.filterMap fun a => a.2.start?
  rw [List.filterMap_cons] at hperm
  dsimp only at hperm
  cases hs : e.start? <;> simpa [pending, hs] using hperm

/-- What is due is no longer pending, and every session stays accounted for. -/
theorem accounted_of_due [LinearOrder τ] {agenda rest : List (τ × Script)} {t : τ} {e : Script}
    {es : List (SimLabel τ)} {xs : List Session} (h : Due agenda t e rest)
    (hxs : (pending agenda ++ started es).Perm xs) :
    (pending rest ++ started (es ++ [.script t e])).Perm xs := by
  refine List.Perm.trans ?_ hxs
  have hhead := (pending_of_due h).symm.append_right (started es)
  refine List.Perm.trans ?_ hhead
  rw [started_append, ← List.append_assoc, List.append_assoc e.start?.toList]
  exact List.perm_append_comm

theorem foldl_row (cnts : Nat → ℤ) (js : List Nat) (row : List (Column τ)) (sum : ℤ) :
    js.foldl (fun (r : List (Column τ) × ℤ) j => (r.1 ++ [.int (cnts j)], r.2 + cnts j))
      (row, sum) = (row ++ js.map fun j => .int (cnts j), sum + (js.map cnts).sum) := by
  induction js generalizing row sum with
  | nil => simp
  | cons j js ih =>
    rw [List.foldl_cons, ih, List.map_cons, List.map_cons, List.sum_cons, List.append_assoc,
      add_assoc]
    rfl

end Agenda

section Tracks

variable {c : Setup τ} {es : List (SimLabel τ)} {s : Sim τ} {x : Session}

/-- The state of the script against the history of the sessions. -/
structure Tracks (c : Setup τ) (es : List (SimLabel τ)) (s : Sim τ) : Prop where
  once : (pending s.agenda ++ started es).Perm c.sessions
  times : ∀ t x, (t, .start x) ∈ s.agenda → t = c.starts x
  begun : ∀ t x, .script t (.start x) ∈ es → t = c.starts x
  counts : ∀ i, s.cnts i = liveCount c es i
  conn : s.conn = rows c es

theorem tracks_init [Zero τ] [OfScientific τ] (c : Setup τ) : Tracks c [] c.init where
  once := by
    rw [pending_init, started, List.filterMap_nil, List.append_nil]
  times := by
    intro t x h
    simp only [Setup.init, List.mem_append, List.mem_flatMap, List.mem_cons, Prod.mk.injEq,
      List.not_mem_nil, reduceCtorEq, and_false, or_false, false_or] at h
    obtain ⟨y, -, rfl, heq⟩ := h
    rw [Script.start.inj heq]
  begun := by
    intro t x h
    cases h
  counts := by
    intro i
    simp [Setup.init, liveCount, Underway, started]
  conn := rfl

theorem Tracks.not_started (h : Tracks c es s) (hx : x ∈ pending s.agenda) :
    x ∉ started es := by
  have hnodup := h.once.nodup_iff.mpr c.nodup_sessions
  exact fun hs => (List.nodup_append.mp hnodup).2.2 x hx x hs rfl

theorem Tracks.mem_sessions_of_started (h : Tracks c es s) (hx : x ∈ started es) :
    x ∈ c.sessions :=
  h.once.mem_iff.mp (List.mem_append_right _ hx)

theorem Tracks.conn_append (h : Tracks c es s) {e : SimLabel τ} (he : rowsAt c es e = []) :
    s.conn = rows c (es ++ [e]) := by
  rw [rows_append, he, List.append_nil, h.conn]

theorem countFlows_sample [Add τ] [OfScientific τ] (c : Setup τ) (s : Sim τ) : c.countFlows s 1 3 =
    { s with
      conn := s.conn ++ [.time s.now :: ((List.range' 1 c.nodeNb).map fun j => .int (s.cnts j)) ++
        [.int ((List.range' 1 c.nodeNb).map s.cnts).sum], []]
      agenda := s.agenda ++ [(s.now + 0.2, .sample)] } := by
  simp [Setup.countFlows, foldl_row]

end Tracks

section Runs

variable [Add τ] [OfScientific τ] {c : Setup τ} {es : List (SimLabel τ)}
  {s u : Sim τ}

theorem tracks_script [LinearOrder τ] {t : τ} {e : Script} {rest : List (τ × Script)}
    (ht : Tracks c es s) (ho : Orderly es) (hdue : Due s.agenda t e rest)
    (hrun : c.dispatch { s with now := t, agenda := rest } e = some u) :
    Tracks c (es ++ [.script t e]) u := by
  have honce := accounted_of_due hdue ht.once
  have htimes : ∀ t' x, (t', .start x) ∈ rest → t' = c.starts x :=
    fun t' x hx => ht.times t' x (hdue.mem_of_mem hx)
  have hbegun : ∀ t' x, .script t' (.start x) ∈ es ++ [.script t e] → t' = c.starts x := by
    intro t' x hx
    rcases List.mem_append.mp hx with hx | hx
    · exact ht.begun t' x hx
    · cases List.mem_singleton.mp hx
      exact ht.times t x hdue.mem
  cases e with
  | send x =>
    obtain rfl := Option.some.inj hrun
    refine ⟨honce, htimes, hbegun, ?_, ht.conn_append rfl⟩
    intro i
    rw [liveCount_of_other rfl rfl]
    exact ht.counts i
  | start x =>
    obtain rfl := Option.some.inj hrun
    have hpending : x ∈ pending s.agenda := List.mem_filterMap.mpr ⟨_, hdue.mem, rfl⟩
    have hnew := ht.not_started hpending
    have hsess := (c.mem_sessions_iff x).mp (ht.once.mem_iff.mp (List.mem_append_left _ hpending))
    refine ⟨honce, htimes, hbegun, ?_, ht.conn_append rfl⟩
    intro i
    rw [liveCount_of_start rfl rfl hnew (fun h => hnew (ho.started_of_completed h)) hsess.2]
    change Function.update s.cnts x.node (s.cnts x.node + 1) i = _
    by_cases hi : i = x.node
    · rw [hi, Function.update_self, ht.counts, if_pos rfl]
      omega
    · rw [Function.update_of_ne hi, ht.counts, if_neg hi, Nat.add_zero]
  | sample =>
    obtain rfl := Option.some.inj hrun
    have hcnts : s.cnts = fun i => (liveCount c es i : ℤ) := funext ht.counts
    rw [countFlows_sample]
    refine ⟨?_, ?_, hbegun, ?_, ?_⟩
    · rw [pending_append]
      change (pending rest ++ [] ++ _).Perm _
      rwa [List.append_nil]
    · intro t' x hx
      rcases List.mem_append.mp hx with hx | hx
      · exact htimes t' x hx
      · cases List.mem_singleton.mp hx
    · intro i
      rw [liveCount_of_other rfl rfl]
      exact ht.counts i
    · rw [rows_append, ← ht.conn]
      simp only [rowsAt, sampleRow, hcnts]
  | finish => cases hrun

theorem tracks_done [Sub τ] {t : τ} {x : Session} {stats : TcpStats} (ht : Tracks c es s)
    (ho : Orderly (es ++ [.done t x stats])) (hrun : c.done { s with now := t } x stats = some u) :
    Tracks c (es ++ [.done t x stats]) u := by
  have hunder := ho.last
  have hsess := (c.mem_sessions_iff x).mp (ht.mem_sessions_of_started hunder.1)
  obtain ⟨rate, -, rfl⟩ := Option.map_eq_some_iff.mp hrun
  refine ⟨?_, ht.times, ?_, ?_, ht.conn_append rfl⟩
  · rw [started_append]
    change (pending s.agenda ++ (started es ++ [])).Perm _
    rw [List.append_nil]
    exact ht.once
  · intro t' y hy
    rcases List.mem_append.mp hy with hy | hy
    · exact ht.begun t' y hy
    · cases List.mem_singleton.mp hy
  · intro i
    have hcount := liveCount_of_done (e := .done t x stats) rfl rfl hunder hsess.2 i
    change Function.update s.cnts x.node (s.cnts x.node - 1) i = _
    by_cases hi : i = x.node
    · rw [if_pos hi] at hcount
      rw [hi] at hcount ⊢
      rw [Function.update_self, ht.counts, hcount]
      omega
    · rw [if_neg hi, Nat.add_zero] at hcount
      rw [Function.update_of_ne hi, ht.counts, hcount]

variable [LinearOrder τ] [Sub τ] [Zero τ]

theorem tracks_run (run : SimRun c es s) (ho : Orderly es) : Tracks c es s := by
  refine run.induct (fun es s => Orderly es → Tracks c es s) (fun _ => tracks_init c) ?_ ho
  intro es s e u _ ih hstep ho
  have ht := ih ho.of_append
  cases hstep with
  | script _ hdue hrun => exact tracks_script ht ho.of_append hdue hrun
  | done _ _ hrun => exact tracks_done ht ho hrun

/-- In every state the counters are the numbers of sessions underway, and every
sample shows these numbers for all nodes and their sum. -/
theorem connection_counts (run : SimRun c es s) (ho : Orderly es) :
    (∀ i, 1 ≤ i → i ≤ c.nodeNb → s.cnts i = liveCount c es i ∧ 0 ≤ s.cnts i) ∧
      s.conn = rows c es := by
  have ht := tracks_run run ho
  refine ⟨fun i _ _ => ?_, ht.conn⟩
  rw [ht.counts]
  exact ⟨rfl, Int.natCast_nonneg _⟩

end Runs

/-- One session from 0.1 on, with the quotient as `expr` gives it for 10000 bytes
in half a second. -/
def oneSession : Setup ℚ :=
  ⟨1, 1, fun _ => 0.1, 25, fun _ duration => if duration = 0 then none else some "20000.0"⟩

/-- A sample at 0.5, and the end of the session at 0.6. -/
def oneSessionHistory : List (SimLabel ℚ) :=
  [.script 0.1 (.send ⟨1, 1⟩), .script 0.1 (.start ⟨1, 1⟩), .script 0.5 .sample,
    .done 0.6 ⟨1, 1⟩ ⟨10, 10000, 0⟩]

theorem orderly_oneSession : Orderly oneSessionHistory := by
  have hsplit : oneSessionHistory = ((([] ++ [.script 0.1 (.send ⟨1, 1⟩)]) ++
    [.script 0.1 (.start ⟨1, 1⟩)]) ++ [.script 0.5 .sample]) ++
    [.done 0.6 ⟨1, 1⟩ ⟨10, 10000, 0⟩] := rfl
  rw [hsplit]
  simp only [orderly_append_iff, orderly_nil, reduceCtorEq, false_implies, implies_true, true_and]
  intro t x stats h
  cases h
  decide

def oneSessionLine : List (Column ℚ) :=
  [.int 1, .int 1, .time 0.6, .time 0.6, .time (0.6 - 0.1), .int 10, .int 10000, .int 0,
    .text "20000.0"]

theorem exists_run_oneSession : ∃ s, SimRun oneSession oneSessionHistory s ∧
    s.conn = [[.time 0.5, .int 1, .int 1], []] ∧ s.out = [oneSessionLine] := by
  have hsend : Due oneSession.init.agenda 0.1 (.send ⟨1, 1⟩)
      [(0.1, .start ⟨1, 1⟩), (0.5, .sample), (25, .finish)] := ⟨.refl _, by norm_num⟩
  have hstart : Due (τ := ℚ) (ε := Script) [(0.1, .start ⟨1, 1⟩), (0.5, .sample), (25, .finish)]
      0.1 (.start ⟨1, 1⟩) [(0.5, .sample), (25, .finish)] := ⟨.refl _, by norm_num⟩
  have hsample : Due (τ := ℚ) (ε := Script) [(0.5, .sample), (25, .finish)] 0.5 .sample
      [(25, .finish)] := ⟨.refl _, by norm_num⟩
  have hnext : ∀ a ∈ [((25 : ℚ), Script.finish), (0.5 + 0.2, .sample)], 0.6 ≤ a.1 := by norm_num
  have hrate : oneSession.quotient 10000 (0.6 - 0.1) = some "20000.0" := if_neg (by norm_num)
  have h0 : oneSession.init.now ≤ 0.1 := by
    change (0 : ℚ) ≤ 0.1
    norm_num
  let s₁ : Sim ℚ := { oneSession.init with
    now := 0.1, agenda := [(0.1, .start ⟨1, 1⟩), (0.5, .sample), (25, .finish)] }
  let s₂ := oneSession.countFlows { s₁ with agenda := [(0.5, .sample), (25, .finish)] } 1 1
  let s₃ := oneSession.countFlows { s₂ with now := 0.5, agenda := [(25, .finish)] } 1 3
  have h1 : SimStep oneSession oneSession.init (.script 0.1 (.send ⟨1, 1⟩)) s₁ :=
    .script h0 hsend rfl
  have h2 : SimStep oneSession s₁ (.script 0.1 (.start ⟨1, 1⟩)) s₂ := .script le_rfl hstart rfl
  have h3 : SimStep oneSession s₂ (.script 0.5 .sample) s₃ := by
    refine .script ?_ hsample rfl
    change (0.1 : ℚ) ≤ 0.5
    norm_num
  let s₄ := oneSession.countFlows { s₃ with now := 0.6, out := [oneSessionLine] } 1 0
  have h4 : SimStep oneSession s₃ (.done 0.6 ⟨1, 1⟩ ⟨10, 10000, 0⟩) s₄ := by
    refine .done ?_ hnext (congrArg (Option.map _) hrate)
    change (0.5 : ℚ) ≤ 0.6
    norm_num
  exact ⟨s₄, ((((Run.nil _).snoc h1).snoc h2).snoc h3).snoc h4, rfl, rfl⟩

theorem connection_counts_oneSession : ∃ s, SimRun oneSession oneSessionHistory s ∧
    (∀ i, 1 ≤ i → i ≤ oneSession.nodeNb →
      s.cnts i = liveCount oneSession oneSessionHistory i ∧ 0 ≤ s.cnts i) ∧
    s.conn = rows oneSession oneSessionHistory ∧ s.conn = [[.time 0.5, .int 1, .int 1], []] := by
  obtain ⟨s, hrun, hconn, -⟩ := exists_run_oneSession
  obtain ⟨hcounts, hrows⟩ := connection_counts hrun orderly_oneSession
  exact ⟨s, hrun, hcounts, hrows, hconn⟩

end LearnNs2
