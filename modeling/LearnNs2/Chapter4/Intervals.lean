import LearnNs2.Chapter4.LiveCounts
import Mathlib.Data.List.Forall2

/-!
# What `Out` and `Conn` tell of the same sessions

A sample between starts and ends counts the sessions whose time span it falls
into. The line of a session has the time of its end in the column for its start,
so the lines of `Out` tell the same only of sessions that end as they start.
-/

namespace LearnNs2

open EventQueue LabelledRuns

set_option autoImplicit false

section Pairs

variable {α β : Type} {R S : α → β → Prop} {l : List α} {m : List β}

theorem forall₂_iff_forall {p : α → Prop} (h : List.Forall₂ R l m)
    (hiff : ∀ a ∈ l, ∀ b, R a b → (S a b ↔ p a)) : List.Forall₂ S l m ↔ ∀ a ∈ l, p a := by
  induction h with
  | nil => simp
  | @cons a b l m hab _ ih =>
    have htail := ih fun x hx => hiff x (List.mem_cons_of_mem a hx)
    rw [List.forall₂_cons, htail, hiff a List.mem_cons_self b hab, List.forall_mem_cons]

theorem countP_eq_of_forall₂ {p : α → Bool} {q : β → Bool} (h : List.Forall₂ R l m)
    (heq : ∀ a ∈ l, ∀ b, R a b → p a = q b) : l.countP p = m.countP q := by
  induction h with
  | nil => rfl
  | @cons a b l m hab _ ih =>
    have htail := ih fun x hx => heq x (List.mem_cons_of_mem a hx)
    rw [List.countP_cons, List.countP_cons, htail, heq a List.mem_cons_self b hab]

end Pairs

variable {τ : Type}

/-- The first five columns of a line that is about the session, its start and its end. -/
def lineOf [Sub τ] (x : Session) (start stop : τ) : List (Column τ) :=
  [.int x.node, .int x.sess, .time start, .time stop, .time (stop - start)]

/-- What `done` puts into `$Out`, up to the counters of the agent. -/
def Wrote [Sub τ] (c : Setup τ) (d : Session × τ) (line : List (Column τ)) : Prop :=
  ∃ more, line = [.int d.1.node, .int d.1.sess, .time d.2, .time d.2,
    .time (d.2 - c.starts d.1)] ++ more

/-- No session starts or ends at `t`. -/
def Between (es : List (SimLabel τ)) (t : τ) : Prop :=
  (∀ x, .script t (.start x) ∉ es) ∧ ∀ x stats, .done t x stats ∉ es

/-- A line about the node whose interval, by its third and fourth column,
contains the time. -/
def covers [LE τ] [DecidableLE τ] (i : Nat) (t : τ) : List (Column τ) → Bool
  | .int n :: _ :: .time start :: .time stop :: _ =>
    decide (n = i) && (decide (start ≤ t) && decide (t ≤ stop))
  | _ => false

/-- What both files say of a run, by the comment in `done`. -/
structure SameStory [LinearOrder τ] [Sub τ] (c : Setup τ) (es : List (SimLabel τ)) (s : Sim τ) :
    Prop where
  lines : List.Forall₂ (fun d line => ∃ start, .script start (.start d.1) ∈ es ∧
    line.take 5 = lineOf d.1 start d.2) (completions es) s.out
  samples : (∀ x ∈ c.sessions, x ∈ completed es) → ∀ row ∈ s.conn, ∀ t,
    row.head? = some (.time t) → Between es t → ∀ i, 1 ≤ i → i ≤ c.nodeNb →
      row[i]? = some (.int (s.out.countP (covers i t)))

section Steps

variable [Add τ] [OfScientific τ] {c : Setup τ} {s u : Sim τ} {x : Session}

theorem dispatch_out {e : Script} (h : c.dispatch s e = some u) :
    u.out = s.out ∧ u.now = s.now := by
  cases e with
  | send =>
    obtain rfl := Option.some.inj h
    exact ⟨rfl, rfl⟩
  | start x =>
    obtain rfl := Option.some.inj h
    exact ⟨rfl, rfl⟩
  | sample =>
    obtain rfl := Option.some.inj h
    rw [countFlows_sample]
    exact ⟨rfl, rfl⟩
  | finish => cases h

theorem done_out [Sub τ] {stats : TcpStats} (h : c.done s x stats = some u) :
    ∃ line, u.out = s.out ++ [line] ∧ Wrote c (x, s.now) line ∧ u.now = s.now := by
  obtain ⟨rate, -, rfl⟩ := Option.map_eq_some_iff.mp h
  exact ⟨_, rfl, ⟨_, rfl⟩, rfl⟩

end Steps

section Runs

variable [LinearOrder τ] [Add τ] [Sub τ] [Zero τ] [OfScientific τ] {c : Setup τ}
  {es : List (SimLabel τ)} {s : Sim τ}

/-- A line is written for every session that ends, as it ends. -/
theorem wrote_run (run : SimRun c es s) : List.Forall₂ (Wrote c) (completions es) s.out := by
  refine run.induct (fun es s => List.Forall₂ (Wrote c) (completions es) s.out) List.Forall₂.nil ?_
  intro es s e u _ ih hstep
  rw [completions_append]
  cases hstep with
  | script _ _ hrun =>
    rw [(dispatch_out hrun).1]
    change List.Forall₂ _ (completions es ++ []) s.out
    rwa [List.append_nil]
  | done _ _ hrun =>
    obtain ⟨line, hout, hline, -⟩ := done_out hrun
    rw [hout]
    exact List.rel_append ih (List.Forall₂.cons hline List.Forall₂.nil)

/-- Labels come in the order of their times, none after the clock. -/
structure InTime (es : List (SimLabel τ)) (s : Sim τ) : Prop where
  sorted : es.Pairwise fun a b => a.time ≤ b.time
  past : ∀ a ∈ es, a.time ≤ s.now

theorem inTime_run (run : SimRun c es s) : InTime es s := by
  refine run.induct InTime ⟨List.Pairwise.nil, by simp⟩ ?_
  intro es s e u _ ih hstep
  have hclock : s.now ≤ e.time ∧ u.now = e.time := by
    cases hstep with
    | script hnow _ hrun => exact ⟨hnow, (dispatch_out hrun).2⟩
    | done hnow _ hrun =>
      obtain ⟨line, -, -, hu⟩ := done_out hrun
      exact ⟨hnow, hu⟩
  have hbefore : ∀ a ∈ es, a.time ≤ e.time := fun a ha => (ih.past a ha).trans hclock.1
  constructor
  · apply List.pairwise_append.mpr
    refine ⟨ih.sorted, List.pairwise_singleton _ _, ?_⟩
    intro a ha b hb
    rw [List.mem_singleton.mp hb]
    exact hbefore a ha
  · intro a ha
    rw [hclock.2]
    rcases List.mem_append.mp ha with ha | ha
    · exact hbefore a ha
    · rw [List.mem_singleton.mp ha]

end Runs

section Histories

variable {es pre post : List (SimLabel τ)} {x : Session} {t : τ} {c : Setup τ} {d : Session × τ}

theorem mem_started_iff : x ∈ started es ↔ ∃ t, .script t (.start x) ∈ es := by
  simp only [started, List.mem_filterMap]
  constructor
  · rintro ⟨e, he, hs⟩
    cases e with
    | script t e =>
      cases e with
      | start y =>
        cases hs
        exact ⟨t, he⟩
      | _ => cases hs
    | done => cases hs
  · rintro ⟨t, h⟩
    exact ⟨_, h, rfl⟩

theorem Orderly.nodup_completed (h : Orderly es) : (completed es).Nodup := by
  induction es using List.reverseRecOn with
  | nil => exact List.nodup_nil
  | append_singleton es e ih =>
    have hes := ih h.of_append
    rw [completed_append]
    cases e with
    | script => simpa [SimLabel.done?] using hes
    | done t x stats =>
      change (completed es ++ [x]).Nodup
      rw [List.nodup_append_comm, List.singleton_append, List.nodup_cons]
      exact ⟨h.last.2, hes⟩

theorem Orderly.eq_of_completions (h : Orderly es) {d' : Session × τ} (hd : d ∈ completions es)
    (hd' : d' ∈ completions es) (heq : d.1 = d'.1) : d = d' :=
  List.inj_on_of_nodup_map h.nodup_completed hd hd' heq

theorem sample_of_mem_rows {row : List (Column τ)} (h : row ∈ rows c es) :
    row = [] ∨ ∃ pre t post, es = pre ++ .script t .sample :: post ∧ row = sampleRow c t pre := by
  induction es using List.reverseRecOn with
  | nil => cases h
  | append_singleton es e ih =>
    rw [rows_append, List.mem_append] at h
    rcases h with h | h
    · rcases ih h with hnil | ⟨pre, t, post, rfl, hrow⟩
      · exact Or.inl hnil
      · exact Or.inr ⟨pre, t, post ++ [e], by simp, hrow⟩
    · unfold rowsAt at h
      split at h
      · rename_i t
        rcases List.mem_pair.mp h with hrow | hnil
        · exact Or.inr ⟨es, t, [], rfl, hrow⟩
        · exact Or.inl hnil
      · cases h

theorem getElem?_sampleRow (c : Setup τ) (t : τ) (es : List (SimLabel τ)) {i : Nat} (h1 : 1 ≤ i)
    (hi : i ≤ c.nodeNb) : (sampleRow c t es)[i]? = some (.int (liveCount c es i)) := by
  obtain ⟨j, rfl⟩ : ∃ j, i = j + 1 := ⟨i - 1, by omega⟩
  have hrange : (List.range' 1 c.nodeNb)[j]? = some (j + 1) := by
    rw [List.getElem?_range' (by omega)]
    congr 1
    omega
  have hlen : j < ((List.range' 1 c.nodeNb).map fun i =>
      (.int (liveCount c es i) : Column τ)).length := by
    rw [List.length_map, List.length_range']
    omega
  rw [sampleRow, List.cons_append, List.getElem?_cons_succ, List.getElem?_append_left hlen,
    List.getElem?_map, hrange]
  rfl

/-- The line of a session is right if the session ends at the time it starts. -/
theorem story_iff [Sub τ] {d : Session × τ} {line : List (Column τ)} (hw : Wrote c d line)
    (hstart : .script (c.starts d.1) (.start d.1) ∈ es)
    (hbegun : ∀ u, .script u (.start d.1) ∈ es → u = c.starts d.1) :
    (∃ start, .script start (.start d.1) ∈ es ∧ line.take 5 = lineOf d.1 start d.2) ↔
      d.2 = c.starts d.1 := by
  obtain ⟨more, rfl⟩ := hw
  constructor
  · rintro ⟨start, hs, heq⟩
    have hcolumn := congrArg (fun l => l[2]?) heq
    have htime : d.2 = start := by simpa [lineOf] using hcolumn
    rw [htime]
    exact hbegun start hs
  · intro heq
    refine ⟨c.starts d.1, hstart, ?_⟩
    simp [lineOf, ← heq]

theorem covers_of_wrote [LinearOrder τ] [Sub τ] {d : Session × τ} {line : List (Column τ)}
    (hw : Wrote c d line) (i : Nat) (t : τ) :
    covers i t line = (decide (d.1.node = i) && (decide (d.2 ≤ t) && decide (t ≤ d.2))) := by
  obtain ⟨more, rfl⟩ := hw
  simp only [covers, List.cons_append, Int.natCast_inj]

end Histories

section Spans

variable [LinearOrder τ] {c : Setup τ} {es pre post : List (SimLabel τ)} {s : Sim τ} {t u : τ}
  {x : Session}

/-- What is known of a sample in the middle of a run. -/
structure Sampled (c : Setup τ) (es pre post : List (SimLabel τ)) (t : τ) : Prop where
  split : es = pre ++ .script t .sample :: post
  before : ∀ a ∈ pre, a.time ≤ t
  after : ∀ a ∈ post, t ≤ a.time
  orderly : Orderly es
  begun : ∀ u x, .script u (.start x) ∈ es → u = c.starts x
  sessions : ∀ x ∈ started es, x ∈ c.sessions
  between : Between es t

namespace Sampled

theorem mem_of_mem_pre (h : Sampled c es pre post t) {a : SimLabel τ} (ha : a ∈ pre) : a ∈ es := by
  rw [h.split]
  exact List.mem_append_left _ ha

theorem mem_pre_of_lt (h : Sampled c es pre post t) {a : SimLabel τ} (ha : a ∈ es)
    (hlt : a.time < t) : a ∈ pre := by
  rw [h.split, List.mem_append, List.mem_cons] at ha
  rcases ha with ha | rfl | ha
  · exact ha
  · exact absurd hlt (lt_irrefl t)
  · exact absurd hlt (not_lt.mpr (h.after a ha))

/-- A session that ends is underway at the sample if its span contains it. -/
theorem underway_iff (h : Sampled c es pre post t) (hd : (x, u) ∈ completions es) :
    Underway pre x ↔ c.starts x ≤ t ∧ t ≤ u := by
  obtain ⟨stats, hdone⟩ := mem_completions_iff.mp hd
  constructor
  · rintro ⟨hs, hc⟩
    obtain ⟨v, hv⟩ := mem_started_iff.mp hs
    have hstart := h.begun v x (h.mem_of_mem_pre hv)
    refine ⟨hstart ▸ h.before _ hv, ?_⟩
    by_contra hlt
    have hpre := h.mem_pre_of_lt hdone (not_le.mp hlt)
    exact hc (mem_completed_iff.mpr ⟨u, stats, hpre⟩)
  · rintro ⟨hle, hge⟩
    have hcomp : x ∈ completed es := List.mem_map.mpr ⟨_, hd, rfl⟩
    obtain ⟨v, hv⟩ := mem_started_iff.mp (h.orderly.started_of_completed hcomp)
    have hstart := h.begun v x hv
    have hlt : v < t := by
      apply lt_of_le_of_ne (hstart ▸ hle)
      rintro rfl
      exact h.between.1 x hv
    refine ⟨mem_started_iff.mpr ⟨v, h.mem_pre_of_lt hv hlt⟩, ?_⟩
    intro hc
    -- it would have ended both before the sample and not before it
    obtain ⟨w, stats', hw⟩ := mem_completed_iff.mp hc
    have hmem : (x, w) ∈ completions es :=
      mem_completions_iff.mpr ⟨stats', h.mem_of_mem_pre hw⟩
    cases h.orderly.eq_of_completions hd hmem rfl
    have hut : u = t := le_antisymm (h.before _ hw) hge
    rw [hut] at hdone
    exact h.between.2 x stats hdone

/-- A sample between starts and ends counts the sessions whose time span it
falls into, if all of them end. -/
theorem liveCount_eq (h : Sampled c es pre post t) (hall : ∀ x ∈ c.sessions, x ∈ completed es)
    (i : Nat) : liveCount c pre i = (completions es).countP
      fun d => decide (d.1.node = i) && (decide (c.starts d.1 ≤ t) && decide (t ≤ d.2)) := by
  rw [List.countP_eq_length_filter]
  generalize hp : (fun d : Session × τ =>
    decide (d.1.node = i) && (decide (c.starts d.1 ≤ t) && decide (t ≤ d.2))) = p
  have hspec : ∀ d, p d ↔ d.1.node = i ∧ c.starts d.1 ≤ t ∧ t ≤ d.2 := fun d => by simp [← hp]
  have hnodup : (((completions es).filter p).map fun d => d.1.sess).Nodup := by
    apply List.Nodup.map_on
    · intro d hd d' hd' heq
      obtain ⟨hd, hpd⟩ := List.mem_filter.mp hd
      obtain ⟨hd', hpd'⟩ := List.mem_filter.mp hd'
      have hnode := ((hspec d).mp hpd).1.trans ((hspec d').mp hpd').1.symm
      exact h.orderly.eq_of_completions hd hd' (Session.ext hnode heq)
    · exact (List.Nodup.of_map _ h.orderly.nodup_completed).filter p
  rw [← List.length_map (fun d : Session × τ => d.1.sess), ← List.toFinset_card_of_nodup hnodup]
  unfold liveCount
  congr 1
  ext j
  rw [Finset.mem_filter, Finset.mem_Icc, List.mem_toFinset, List.mem_map]
  constructor
  · rintro ⟨hj, hunder⟩
    have hstarted : (⟨i, j⟩ : Session) ∈ started es := by
      rw [h.split, started, List.filterMap_append]
      exact List.mem_append_left _ hunder.1
    obtain ⟨d, hd, heq⟩ := List.mem_map.mp (hall _ (h.sessions _ hstarted))
    obtain ⟨y, u⟩ := d
    obtain rfl : y = ⟨i, j⟩ := heq
    have hspan := (h.underway_iff hd).mp hunder
    exact ⟨_, List.mem_filter.mpr ⟨hd, (hspec _).mpr ⟨rfl, hspan⟩⟩, rfl⟩
  · rintro ⟨⟨y, u⟩, hd, rfl⟩
    obtain ⟨hd, hpd⟩ := List.mem_filter.mp hd
    obtain ⟨rfl, hspan⟩ := (hspec _).mp hpd
    have hunder := (h.underway_iff hd).mpr hspan
    have hstarted := h.orderly.started_of_completed (List.mem_map.mpr ⟨_, hd, rfl⟩)
    exact ⟨((c.mem_sessions_iff y).mp (h.sessions y hstarted)).2, hunder⟩

end Sampled

end Spans

section Files

variable [LinearOrder τ] [Add τ] [Sub τ] [Zero τ] [OfScientific τ] {c : Setup τ}
  {es pre post : List (SimLabel τ)} {s : Sim τ} {t : τ}

theorem sampled_of_run (run : SimRun c es s) (ho : Orderly es)
    (hes : es = pre ++ .script t .sample :: post) (hb : Between es t) :
    Sampled c es pre post t := by
  have htrack := tracks_run run ho
  have hsorted := (inTime_run run).sorted
  rw [hes] at hsorted
  obtain ⟨-, htail, hcross⟩ := List.pairwise_append.mp hsorted
  refine ⟨hes, ?_, ?_, ho, htrack.begun, fun x hx => htrack.mem_sessions_of_started hx, hb⟩
  · exact fun a ha => hcross a ha _ List.mem_cons_self
  · exact (List.pairwise_cons.mp htail).1

/-- The files tell the same story in just the runs in which no session ends
later than it starts. -/
theorem sameStory_iff (run : SimRun c es s) (ho : Orderly es) :
    SameStory c es s ↔ ∀ d ∈ completions es, d.2 = c.starts d.1 := by
  have hwrote := wrote_run run
  have htrack := tracks_run run ho
  have hlines := forall₂_iff_forall (p := fun d : Session × τ => d.2 = c.starts d.1) hwrote
    fun d hd line hline => by
      have hstarted := ho.started_of_completed (List.mem_map.mpr ⟨d, hd, rfl⟩)
      obtain ⟨u, hu⟩ := mem_started_iff.mp hstarted
      exact story_iff hline (htrack.begun u d.1 hu ▸ hu) fun v hv => htrack.begun v d.1 hv
  constructor
  · intro h
    exact hlines.mp h.lines
  · intro hends
    refine ⟨hlines.mpr hends, ?_⟩
    intro hall row hrow t hhead hb i h1 hi
    rw [htrack.conn] at hrow
    rcases sample_of_mem_rows hrow with rfl | ⟨pre, t', post, hes, rfl⟩
    · cases hhead
    obtain rfl : t' = t := by simpa [sampleRow] using hhead
    rw [getElem?_sampleRow c t' pre h1 hi, (sampled_of_run run ho hes hb).liveCount_eq hall i]
    congr 3
    apply countP_eq_of_forall₂ hwrote
    intro d hd line hline
    rw [covers_of_wrote hline, ← hends d hd]

end Files

/-- The session is counted at 0.5, and no line of `$Out` spans that time. -/
theorem sameStory_fails_oneSession : ∃ s, SimRun oneSession oneSessionHistory s ∧
    Orderly oneSessionHistory ∧ (∀ x ∈ oneSession.sessions, x ∈ completed oneSessionHistory) ∧
    Between oneSessionHistory 0.5 ∧ s.conn = [[.time 0.5, .int 1, .int 1], []] ∧
    s.out = [oneSessionLine] ∧ s.out.countP (covers 1 0.5) = 0 ∧
    ¬ SameStory oneSession oneSessionHistory s := by
  obtain ⟨s, hrun, hconn, hout⟩ := exists_run_oneSession
  refine ⟨s, hrun, orderly_oneSession, by decide, ?_, hconn, hout, ?_, ?_⟩
  · constructor
    · have hne : (0.5 : ℚ) ≠ 0.1 := by norm_num
      simpa [oneSessionHistory] using hne
    · have hne : (0.5 : ℚ) ≠ 0.6 := by norm_num
      simp [oneSessionHistory, hne]
  · rw [hout]
    norm_num [oneSessionLine, covers]
  · intro h
    have hlines := h.lines
    rw [hout] at hlines
    obtain ⟨start, hstart, hline⟩ := (List.forall₂_cons.mp hlines).1
    have hbegun : start = 0.1 := by simpa [oneSessionHistory] using hstart
    have hcolumn := congrArg (fun l => l[2]?) hline
    subst hbegun
    norm_num [oneSessionLine, lineOf] at hcolumn

/-- A session that ends as it starts, where a division by zero is no error. -/
def instantSession : Setup ℚ := { oneSession with quotient := fun _ _ => some "Inf" }

def instantHistory : List (SimLabel ℚ) :=
  [.script 0.1 (.send ⟨1, 1⟩), .script 0.1 (.start ⟨1, 1⟩), .done 0.1 ⟨1, 1⟩ ⟨10, 10000, 0⟩]

theorem orderly_instant : Orderly instantHistory := by
  have hsplit : instantHistory = (([] ++ [.script 0.1 (.send ⟨1, 1⟩)]) ++
    [.script 0.1 (.start ⟨1, 1⟩)]) ++ [.done 0.1 ⟨1, 1⟩ ⟨10, 10000, 0⟩] := rfl
  rw [hsplit]
  simp only [orderly_append_iff, orderly_nil, reduceCtorEq, false_implies, implies_true, true_and]
  intro t x stats h
  cases h
  decide

theorem exists_run_instant : ∃ s, SimRun instantSession instantHistory s := by
  let s₁ : Sim ℚ := { instantSession.init with
    now := 0.1, agenda := [(0.1, .start ⟨1, 1⟩), (0.5, .sample), (25, .finish)] }
  let s₂ := instantSession.countFlows { s₁ with agenda := [(0.5, .sample), (25, .finish)] } 1 1
  have hsend : Due instantSession.init.agenda 0.1 (.send ⟨1, 1⟩)
      [(0.1, .start ⟨1, 1⟩), (0.5, .sample), (25, .finish)] := ⟨.refl _, by norm_num⟩
  have hstart : Due (τ := ℚ) (ε := Script) [(0.1, .start ⟨1, 1⟩), (0.5, .sample), (25, .finish)]
      0.1 (.start ⟨1, 1⟩) [(0.5, .sample), (25, .finish)] := ⟨.refl _, by norm_num⟩
  have h0 : instantSession.init.now ≤ 0.1 := by
    change (0 : ℚ) ≤ 0.1
    norm_num
  have hnext : ∀ a ∈ s₂.agenda, 0.1 ≤ a.1 := by
    change ∀ a ∈ [((0.5 : ℚ), Script.sample), (25, .finish)], 0.1 ≤ a.1
    norm_num
  have h1 : SimStep instantSession instantSession.init (.script 0.1 (.send ⟨1, 1⟩)) s₁ :=
    .script h0 hsend rfl
  have h2 : SimStep instantSession s₁ (.script 0.1 (.start ⟨1, 1⟩)) s₂ := .script le_rfl hstart rfl
  have h3 : ∃ s₃, SimStep instantSession s₂ (.done 0.1 ⟨1, 1⟩ ⟨10, 10000, 0⟩) s₃ :=
    ⟨_, .done le_rfl hnext rfl⟩
  obtain ⟨s₃, h3⟩ := h3
  exact ⟨s₃, (((Run.nil _).snoc h1).snoc h2).snoc h3⟩

/-- The files agree on a session without a duration, and not on one that lasts. -/
theorem sameStory_oneSession :
    (∃ s, SimRun instantSession instantHistory s ∧ completed instantHistory = [⟨1, 1⟩] ∧
      SameStory instantSession instantHistory s) ∧
    ∃ s, SimRun oneSession oneSessionHistory s ∧ completed oneSessionHistory = [⟨1, 1⟩] ∧
      ¬ SameStory oneSession oneSessionHistory s := by
  obtain ⟨s, hrun⟩ := exists_run_instant
  obtain ⟨u, hrun', -⟩ := exists_run_oneSession
  refine ⟨⟨s, hrun, rfl, (sameStory_iff hrun orderly_instant).mpr ?_⟩, u, hrun', rfl, ?_⟩
  · have hends : completions instantHistory = [(⟨1, 1⟩, 0.1)] := rfl
    rw [hends]
    intro d hd
    rw [List.mem_singleton.mp hd]
    rfl
  · intro h
    have hend := (sameStory_iff hrun' orderly_oneSession).mp h (⟨1, 1⟩, 0.6) List.mem_cons_self
    have hlate : (0.6 : ℚ) ≠ 0.1 := by norm_num
    exact hlate hend

end LearnNs2
