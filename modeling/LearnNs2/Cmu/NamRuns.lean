import LearnNs2.Cmu.NamColors
import LearnNs2.Lib.Watchers

/-!
# The colours of the nodes

Each trace object of a node keeps its own account of the colour that nam shows,
so they repeat each other's lines. The colours are right all the same while no
node gains energy, but a node that has run out of it never turns black.
-/

namespace LearnNs2.Nam

open LabelledRuns Watchers

set_option autoImplicit false

variable {ι : Type} {tables : Tables} {s t u : State ι} {ev : Event ι} {i : ι} {n : ℕ}
  {em : EnergyModel}

/-- An object as its constructor leaves it, but for what Tcl sets. -/
def CmuTrace.Made (t : CmuTrace) : Prop :=
  ∃ name op t₀, CmuTrace.create name op = some t₀ ∧
    t = { t₀ with src := t.src, initialized := t.initialized, target := t.target,
                  namchannel := t.namchannel }

theorem CmuTrace.Made.nodeColor {t : CmuTrace} (h : t.Made) (n : ℕ) : t.nodeColor n = 3 := by
  obtain ⟨name, op, t₀, hcreate, heq⟩ := h
  unfold create at hcreate
  dsimp only at hcreate
  rw [heq]
  split at hcreate
  · cases hcreate
  · split_ifs at hcreate
    cases hcreate
    rfl

/-- The objects as they are made and no line in the file. -/
structure Fresh (s : State ι) : Prop where
  made : ∀ i, (s.traces i).Made
  file : s.file = []
  wellSet : ∀ n em, s.nodes n = some em → em.WellSet

/-- A step in which no node gains energy. -/
def FallingStep [DecidableEq ι] (tables : Tables) (s : State ι) (ev : Event ι) (t : State ι) : Prop :=
  Step tables s ev t ∧ ∀ n e em, ev = .energy n e → s.nodes n = some em → e ≤ em.energy

namespace State

/-- What the objects and the file say about one node. -/
def watch (s : State ι) (n : ℕ) : Watch ι ℕ String :=
  ⟨fun i => (s.traces i).nodeColor n, colorLines n s.file⟩

/-- The colour that nam shows for a node, green until a line says otherwise. -/
def shownColor (s : State ι) (n : ℕ) : String := (s.watch n).shown (colors 3)

/-- The level of a node, the highest one for a node without an energy model. -/
def level (s : State ι) (n : ℕ) : ℕ :=
  match s.nodes n with
  | none => 3
  | some em => em.level

theorem level_le (s : State ι) (n : ℕ) : s.level n ≤ 3 := by
  unfold level
  cases s.nodes n with
  | none => exact le_refl 3
  | some em => exact em.level_le

end State

/-- The packet of a call. -/
def Event.packet : Event ι → Option Packet
  | .recv _ _ p => some p
  | .recvWhy _ _ p => some p
  | .energy _ _ => none

theorem State.call_effect {r : Outcome} {o : CmuTrace} (h : s.call tables ev = some (i, r))
    (ho : r.trace = some o) : ∃ p, ev.packet = some p ∧
      Effect tables (s.traces i) p (s.nodes (s.traces i).src) r.lines o := by
  cases ev with
  | recv j clock p =>
    cases h
    exact ⟨p, rfl, CmuTrace.recv_effect ho⟩
  | recvWhy j clock p =>
    cases h
    exact ⟨p, rfl, CmuTrace.recvWhy_effect ho⟩
  | energy m e => cases h

theorem Effect.src {t o : CmuTrace} {p : Packet} {node : Option EnergyModel} {lines : List Line}
    (h : Effect tables t p node lines o) : o.src = t.src := by
  by_cases hc : ∃ em, t.Checks tables p node em
  · obtain ⟨em, hc⟩ := hc
    rw [(h.checked em hc).1]
    rfl
  · rw [(h.unchecked (not_exists.mp hc)).1]

section Watching

variable [DecidableEq ι] {p : Packet} {lines : List Line} {o : CmuTrace}

theorem State.traces_afterCall_self (s : State ι) (i : ι) (lines : List Line) (o : CmuTrace) :
    (s.afterCall i lines o).traces i = o := by
  simp only [afterCall, Function.update_self]

theorem State.traces_afterCall_of_ne {j : ι} (h : j ≠ i) (lines : List Line) (o : CmuTrace) :
    (s.afterCall i lines o).traces j = s.traces j := by
  simp only [afterCall, Function.update_of_ne h]

theorem State.seen_afterCall (s : State ι) (i j : ι) (lines : List Line) (o : CmuTrace) (n : ℕ) :
    ((s.afterCall i lines o).watch n).seen j =
      if j = i then o.nodeColor n else (s.traces j).nodeColor n := by
  by_cases hj : j = i
  · subst hj
    rw [if_pos rfl]
    exact congrArg (·.nodeColor n) (s.traces_afterCall_self j lines o)
  · rw [if_neg hj]
    exact congrArg (·.nodeColor n) (traces_afterCall_of_ne hj lines o)

theorem State.log_afterCall (s : State ι) (i : ι) (lines : List Line) (o : CmuTrace) (n : ℕ) :
    ((s.afterCall i lines o).watch n).log = (s.watch n).log ++ colorLines n lines :=
  colorLines_append n s.file lines

/-- A call that tests the colour of its node observes the level of that node. -/
theorem State.watch_checked (h : Effect tables (s.traces i) p (s.nodes (s.traces i).src) lines o)
    (hc : (s.traces i).Checks tables p (s.nodes (s.traces i).src) em) :
    (s.afterCall i lines o).watch (s.traces i).src =
      (s.watch (s.traces i).src).observe colors i em.energyLevel := by
  obtain ⟨rfl, hlines⟩ := h.checked em hc
  have hlog := hlines (s.traces i).src
  have hself : ((s.traces i).recolored em.energyLevel).nodeColor (s.traces i).src =
      em.energyLevel := Function.update_self _ _ _
  apply Watch.ext
  · funext j
    rw [seen_afterCall]
    by_cases hj : j = i
    · rw [if_pos hj, hj, Watch.seen_observe_self, hself]
    · rw [if_neg hj, Watch.seen_observe_of_ne hj]
      rfl
  · rw [log_afterCall, hlog]
    by_cases hcolor : (s.traces i).nodeColor (s.traces i).src = em.energyLevel
    · rw [if_neg fun hand => hand.2 hcolor, List.append_nil, Watch.observe_of_eq hcolor]
    · rw [if_pos ⟨rfl, hcolor⟩, Watch.observe_of_ne hcolor]

/-- Other nodes are not observed, and without the test none is. -/
theorem State.watch_unchecked
    (h : Effect tables (s.traces i) p (s.nodes (s.traces i).src) lines o)
    (hn : (s.traces i).src = n → ∀ em,
      ¬ (s.traces i).Checks tables p (s.nodes (s.traces i).src) em) :
    (s.afterCall i lines o).watch n = s.watch n := by
  by_cases hc : ∃ em, (s.traces i).Checks tables p (s.nodes (s.traces i).src) em
  · obtain ⟨em, hc⟩ := hc
    have hne : (s.traces i).src ≠ n := fun heq => hn heq em hc
    obtain ⟨rfl, hlines⟩ := h.checked em hc
    apply Watch.ext
    · funext j
      rw [seen_afterCall]
      by_cases hj : j = i
      · rw [if_pos hj, hj]
        exact Function.update_of_ne hne.symm _ _
      · rw [if_neg hj]
        rfl
    · rw [log_afterCall, hlines n, if_neg fun hand => hne hand.1, List.append_nil]
  · obtain ⟨rfl, hlines⟩ := h.unchecked (not_exists.mp hc)
    apply Watch.ext
    · funext j
      rw [seen_afterCall]
      by_cases hj : j = i
      · rw [if_pos hj, hj]
        rfl
      · rw [if_neg hj]
        rfl
    · rw [log_afterCall, hlines n, List.append_nil]

theorem Effect.others (heff : Effect tables (s.traces i) p (s.nodes (s.traces i).src) lines o)
    (hn : (s.traces i).src ≠ n) : o.nodeColor n = (s.traces i).nodeColor n := by
  have hwatch := State.watch_unchecked heff fun heq => absurd heq hn
  have hseen := congrArg (fun w => w.seen i) hwatch
  rwa [State.seen_afterCall, if_pos rfl] at hseen

end Watching

theorem FallingStep.call [DecidableEq ι] {r : Outcome} {o : CmuTrace}
    (h : s.call tables ev = some (i, r)) (ho : r.trace = some o) :
    FallingStep tables s ev (s.afterCall i r.lines o) := by
  refine ⟨.call h ho, ?_⟩
  rintro n e em rfl
  cases h

section Runs

variable [Fintype ι] {P : ℚ → Prop} {es : List (Event ι)} {values : List ℕ}

/-- What the energy model of a node may be in a run from `s` whose energies for
the node all have `P`. -/
structure Possible (s : State ι) (n : ℕ) (P : ℚ → Prop) (em : EnergyModel) : Prop where
  wellSet : em.WellSet
  energy : P em.energy
  initial : ∃ em₀, s.nodes n = some em₀ ∧ em.initialenergy = em₀.initialenergy

/-- The invariant of the runs from `s`, for one node: the levels reported so far,
where they come from, and that only the objects of the node have to do with it. -/
structure Tracked (s : State ι) (n : ℕ) (P : ℚ → Prop) (t : State ι) (values : List ℕ) :
    Prop where
  fallen : Watch.Fallen colors 3 (t.watch n) values (t.level n)
  reported : ∀ x ∈ values, ∃ em, Possible s n P em ∧ 0 < em.energy ∧ x = em.energyLevel
  node : ∀ em, t.nodes n = some em → Possible s n P em
  src : ∀ i, (t.traces i).src = (s.traces i).src
  others : ∀ i, (s.traces i).src ≠ n → (t.traces i).nodeColor n = 3

theorem Fresh.tracked (hfresh : Fresh s) (hstart : ∀ em, s.nodes n = some em → P em.energy) :
    Tracked s n P s [] where
  fallen := by
    have hwatch : s.watch n = ⟨fun i => (s.traces i).nodeColor n, []⟩ := by
      rw [State.watch, hfresh.file]
      rfl
    rw [hwatch]
    exact Watch.Fallen.start (fun i => (hfresh.made i).nodeColor n) (s.level_le n)
  reported := by simp
  node em hem := ⟨hfresh.wellSet n em hem, hstart em hem, em, hem, rfl⟩
  src i := rfl
  others i _ := (hfresh.made i).nodeColor n

theorem Tracked.energy {m : ℕ} {e : ℚ} (h : Tracked s n P t values) (hm : t.nodes m = some em)
    (hle : e ≤ em.energy) (hP : m = n → P e) :
    Tracked s n P (t.setEnergy m { em with energy := e }) values := by
  have hself : (t.setEnergy m { em with energy := e }).nodes m =
      some { em with energy := e } := Function.update_self m _ t.nodes
  by_cases hmn : m = n
  · subst hmn
    have hpossible := h.node em hm
    refine ⟨?_, h.reported, ?_, h.src, h.others⟩
    · refine h.fallen.fall ?_
      rw [State.level, State.level, hself, hm]
      exact EnergyModel.level_mono hpossible.wellSet hle
    · intro em' hem'
      rw [hself] at hem'
      cases hem'
      exact ⟨hpossible.wellSet.fall hle, hP rfl, hpossible.initial⟩
  · have hsame : (t.setEnergy m { em with energy := e }).nodes n = t.nodes n :=
      Function.update_of_ne (Ne.symm hmn) _ t.nodes
    refine ⟨?_, h.reported, ?_, h.src, h.others⟩
    · have hlevel : (t.setEnergy m { em with energy := e }).level n = t.level n := by
        rw [State.level, State.level, hsame]
      rw [hlevel]
      exact h.fallen
    · rw [hsame]
      exact h.node

variable [DecidableEq ι]

theorem Tracked.call {p : Packet} {lines : List Line} {o : CmuTrace} (h : Tracked s n P t values)
    (heff : Effect tables (t.traces i) p (t.nodes (t.traces i).src) lines o) :
    ∃ values', Tracked s n P (t.afterCall i lines o) values' := by
  have hsrc : ∀ j, ((t.afterCall i lines o).traces j).src = (s.traces j).src := by
    intro j
    rw [← h.src j]
    by_cases hj : j = i
    · subst hj
      rw [State.traces_afterCall_self, heff.src]
    · rw [State.traces_afterCall_of_ne hj]
  have hothers : ∀ j, (s.traces j).src ≠ n → ((t.afterCall i lines o).traces j).nodeColor n = 3 := by
    intro j hj
    have hseen : ((t.afterCall i lines o).traces j).nodeColor n =
        if j = i then o.nodeColor n else (t.traces j).nodeColor n :=
      t.seen_afterCall i j lines o n
    rw [hseen]
    split_ifs with hji
    · subst hji
      rw [heff.others (by rwa [h.src j])]
      exact h.others j hj
    · exact h.others j hj
  by_cases hc : (t.traces i).src = n ∧
      ∃ em, (t.traces i).Checks tables p (t.nodes (t.traces i).src) em
  · obtain ⟨rfl, em, hc⟩ := hc
    have hlevel : t.level (t.traces i).src = em.energyLevel := by
      rw [State.level, hc.node]
      exact if_pos hc.energy
    have hfallen := h.fallen
    rw [hlevel] at hfallen
    obtain ⟨values', hobserve, -, hmem⟩ := hfallen.observe i
    refine ⟨values', ?_, ?_, h.node, hsrc, hothers⟩
    · rw [State.watch_checked heff hc]
      have hsame : (t.afterCall i lines o).level (t.traces i).src = em.energyLevel := hlevel
      rw [hsame]
      exact hobserve
    · intro x hx
      rcases hmem x hx with rfl | hx
      · exact ⟨em, h.node em hc.node, hc.energy, rfl⟩
      · exact h.reported x hx
  · refine ⟨values, ?_, h.reported, h.node, hsrc, hothers⟩
    have hwatch := State.watch_unchecked heff fun heq em hchecks => hc ⟨heq, em, hchecks⟩
    rw [hwatch]
    exact h.fallen

/-- Every step keeps the invariant, and so does a run. -/
theorem tracked_run (hfresh : Fresh s) (hstart : ∀ em, s.nodes n = some em → P em.energy)
    (hes : ∀ e, Event.energy n e ∈ es → P e) (run : Run (FallingStep tables) s es t) :
    ∃ values, Tracked s n P t values := by
  refine run.invariant (fun t => ∃ values, Tracked s n P t values) ⟨[], hfresh.tracked hstart⟩ ?_
  rintro a ev b hev ⟨values, h⟩ ⟨hstep, hfall⟩
  cases hstep with
  | call hcall htrace =>
    obtain ⟨p, -, heff⟩ := State.call_effect hcall htrace
    exact h.call heff
  | energy e hm =>
    refine ⟨values, h.energy hm (hfall _ e _ rfl hm) ?_⟩
    intro hmn
    subst hmn
    exact hes e hev

end Runs

section TwoObjects

/-- The tables of a simulator with one node that sends control traffic. -/
def plainTables : Tables := ⟨fun _ => "cbr", fun _ => false, fun _ => none, fun _ => -1⟩

/-- The agent's and the MAC's object of node 0, and the node with its full energy. -/
def twoObjects : State Bool where
  traces i := if i then ⟨"MAC", .mac, .recv, 0, true, true, true, fun _ => 3⟩
    else ⟨"AGT", .agent, .send, 0, true, true, true, fun _ => 3⟩
  nodes n := if n = 0 then some ⟨1, 1, 1 / 2, 1 / 5⟩ else none
  file := []

def quarter : EnergyModel := ⟨1 / 4, 1, 1 / 2, 1 / 5⟩

theorem wellSet_quarter : quarter.WellSet := ⟨by norm_num [quarter], by norm_num [quarter],
  by norm_num [quarter]⟩

theorem energyLevel_quarter : quarter.energyLevel = 2 := by
  have hround : Binary64.nearest (1 / 4) = 1 / 4 := by
    have h := Binary64.nearest_eq_self (k := 1) (j := -2) (by norm_num) (by norm_num)
    norm_num at h
    norm_num [h]
  have hleft : quarter.energyLeft = some (1 / 4) := by
    rw [EnergyModel.energyLeft_of_pos wellSet_quarter (by norm_num [quarter])]
    norm_num [quarter, hround]
  rw [EnergyModel.energyLevel, hleft]
  norm_num [EnergyModel.levelAt, quarter]

theorem fresh_twoObjects : Fresh twoObjects where
  made i := by
    cases i with
    | false => exact ⟨"AGT", .send, _, rfl, rfl⟩
    | true => exact ⟨"MAC", .recv, _, rfl, rfl⟩
  file := rfl
  wellSet n em hem := by
    unfold twoObjects at hem
    dsimp only at hem
    split_ifs at hem
    cases hem
    exact ⟨by norm_num, by norm_num, by norm_num⟩

theorem run_quarter (tables : Tables) : Run (FallingStep tables) twoObjects
    [.energy 0 (1 / 4)] (twoObjects.setEnergy 0 quarter) := by
  have hfull : twoObjects.nodes 0 = some ⟨1, 1, 1 / 2, 1 / 5⟩ := rfl
  refine Run.single ⟨.energy (1 / 4) hfull, ?_⟩
  intro n e em hev hem
  cases hev
  cases hem
  norm_num

theorem checks_quarter (i : Bool) : (twoObjects.traces i).Checks plainTables Packet.alloc
    (some quarter) quarter := by
  refine ⟨rfl, by norm_num [quarter], ?_, ?_⟩
  · cases i <;> rfl
  · cases i <;> decide

end TwoObjects

section Colors

variable [Fintype ι] [DecidableEq ι] {es : List (Event ι)}

/-- While no node gains energy, every call that tests the colour of a node leaves
the one of its level as the last that nam is told, or the green of the beginning. -/
theorem node_color_follows_energy {r : Outcome} {o : CmuTrace} {p : Packet} (hfresh : Fresh s)
    (run : Run (FallingStep tables) s es t) (hcall : t.call tables ev = some (i, r))
    (ho : r.trace = some o) (hp : ev.packet = some p)
    (hc : (t.traces i).Checks tables p (t.nodes (t.traces i).src) em) :
    (t.afterCall i r.lines o).shownColor (t.traces i).src = colors em.energyLevel := by
  obtain ⟨values, h⟩ := tracked_run (n := (t.traces i).src) (P := fun _ => True) hfresh
    (fun _ _ => trivial) (fun _ _ => trivial) run
  obtain ⟨q, hq, heff⟩ := State.call_effect hcall ho
  obtain rfl : p = q := Option.some.inj (hp.symm.trans hq)
  have hlevel : t.level (t.traces i).src = em.energyLevel := by
    rw [State.level, hc.node]
    exact if_pos hc.energy
  have hfallen := h.fallen
  rw [hlevel] at hfallen
  obtain ⟨values', hobserve, hlast, -⟩ := hfallen.observe i
  rw [State.shownColor, State.watch_checked heff hc, hobserve.shown, hlast]

/-- The energy of a node with two objects falls to a quarter, and the MAC's object is the
first to be called. -/
theorem node_color_follows_energy_quarter :
    let t := twoObjects.setEnergy 0 quarter
    ∃ r o, t.call plainTables (.recv true 2 Packet.alloc) = some (true, r) ∧ r.trace = some o ∧
      (t.afterCall true r.lines o).shownColor 0 = "-c yellow -o green" := by
  intro t
  have hready : (t.traces true).Ready := ⟨rfl, by decide, by decide⟩
  obtain ⟨o, ho⟩ := hready.exists_trace plainTables 2 Packet.alloc (t.nodes 0)
  have hcall : t.call plainTables (.recv true 2 Packet.alloc) =
      some (true, (t.traces true).recv plainTables 2 Packet.alloc (t.nodes 0)) := rfl
  have hpacket : (Event.recv true 2 Packet.alloc).packet = some Packet.alloc := rfl
  have hchecks : (t.traces true).Checks plainTables Packet.alloc (t.nodes 0) quarter :=
    checks_quarter true
  have hcolor := node_color_follows_energy fresh_twoObjects (run_quarter plainTables) hcall ho
    hpacket hchecks
  rw [energyLevel_quarter] at hcolor
  exact ⟨_, o, hcall, ho, hcolor⟩

theorem eq_replicate_of_down {values : List ℕ} (hdown : values.Pairwise fun x y => y ≤ x)
    (h : ∀ x ∈ values, x = 2 ∨ x = 1) :
    values = List.replicate (values.count 2) 2 ++ List.replicate (values.count 1) 1 := by
  induction values with
  | nil => rfl
  | cons x values ih =>
    have hrest := ih (List.pairwise_cons.mp hdown).2 fun y hy => h y (List.mem_cons_of_mem x hy)
    rcases h x List.mem_cons_self with rfl | rfl
    · rw [List.count_cons_self, List.count_cons_of_ne (by decide), List.replicate_succ,
        List.cons_append, ← hrest]
    · have hno : (1 :: values).count 2 = 0 := by
        rw [List.count_eq_zero]
        intro hmem
        rcases List.mem_cons.mp hmem with h2 | h2
        · omega
        · have hle := (List.pairwise_cons.mp hdown).1 2 h2
          omega
      have hzero : values.count 2 = 0 := by
        rw [List.count_cons_of_ne (by decide)] at hno
        exact hno
      rw [hzero, List.replicate_zero, List.nil_append] at hrest
      rw [hno, List.count_cons_self, List.replicate_zero, List.nil_append, List.replicate_succ,
        ← hrest]

/-- The energies that are as good as nothing to a division of doubles do not
occur. -/
def Ample (s : State ι) (n : ℕ) (e : ℚ) : Prop :=
  ∀ em, s.nodes n = some em → 0 < e → 2 ^ (-1022 : ℤ) ≤ e / em.initialenergy

/-- Each object of a node tells nam at most once that it is yellow and at most once
that it is red, all the yellow lines come first, and there is no other line: the
black of a depleted node never appears. -/
theorem node_color_lines (hfresh : Fresh s) (run : Run (FallingStep tables) s es t)
    (hstart : ∀ em, s.nodes n = some em → Ample s n em.energy)
    (hes : ∀ e, Event.energy n e ∈ es → Ample s n e) :
    ∃ yellow red, yellow ≤ (Finset.univ.filter fun i => (s.traces i).src = n).card ∧
      red ≤ (Finset.univ.filter fun i => (s.traces i).src = n).card ∧
      colorLines n t.file = List.replicate yellow "-c yellow -o green" ++
        List.replicate red "-c red -o yellow" := by
  obtain ⟨values, h⟩ := tracked_run hfresh hstart hes run
  have hcount : ∀ x < 3, values.count x ≤
      (Finset.univ.filter fun i => (s.traces i).src = n).card := by
    intro x hx
    refine (h.fallen.count x hx).trans (Finset.card_le_card ?_)
    intro i hi
    rw [Finset.mem_filter] at hi ⊢
    refine ⟨hi.1, ?_⟩
    by_contra hne
    have hthree : (t.watch n).seen i = 3 := h.others i hne
    have hle := hi.2
    omega
  have hvalues : ∀ x ∈ values, x = 2 ∨ x = 1 := by
    intro x hx
    obtain ⟨em, hpossible, hpos, heq⟩ := h.reported x hx
    obtain ⟨em₀, hem₀, hinit⟩ := hpossible.initial
    have hnormal := hpossible.energy em₀ hem₀ hpos
    rw [← hinit] at hnormal
    have hlevel := EnergyModel.energyLevel_pos hpossible.wellSet hpos hnormal
    have hbelow := h.fallen.below x hx
    omega
  refine ⟨values.count 2, values.count 1, hcount 2 (by omega), hcount 1 (by omega), ?_⟩
  calc colorLines n t.file
      = values.map colors := h.fallen.log
    _ = (List.replicate (values.count 2) 2 ++ List.replicate (values.count 1) 1).map colors := by
        rw [← eq_replicate_of_down h.fallen.down hvalues]
    _ = List.replicate (values.count 2) "-c yellow -o green" ++
          List.replicate (values.count 1) "-c red -o yellow" := by
        rw [List.map_append, List.map_replicate, List.map_replicate]
        rfl

theorem node_color_lines_quarter : ∃ t, Run (FallingStep plainTables) twoObjects
    [.energy 0 (1 / 4), .recv false 1 Packet.alloc] t ∧
    ∃ yellow red, yellow ≤ 2 ∧ red ≤ 2 ∧ colorLines 0 t.file =
      List.replicate yellow "-c yellow -o green" ++ List.replicate red "-c red -o yellow" := by
  let t := twoObjects.setEnergy 0 quarter
  have hready : (t.traces false).Ready := ⟨rfl, by decide, by decide⟩
  obtain ⟨o, ho⟩ := hready.exists_trace plainTables 1 Packet.alloc (t.nodes 0)
  have hcall : t.call plainTables (.recv false 1 Packet.alloc) =
      some (false, (t.traces false).recv plainTables 1 Packet.alloc (t.nodes 0)) := rfl
  have run := (run_quarter plainTables).snoc (FallingStep.call hcall ho)
  have hlarge : ∀ e : ℚ, 1 / 4 ≤ e → Ample twoObjects 0 e := by
    intro e he em hem _
    cases hem
    rw [div_one]
    calc (2 : ℚ) ^ (-1022 : ℤ) ≤ 2 ^ (-2 : ℤ) :=
          zpow_le_zpow_right₀ (by norm_num) (by norm_num)
      _ = 1 / 4 := by norm_num
      _ ≤ e := he
  have hstart : ∀ em, twoObjects.nodes 0 = some em → Ample twoObjects 0 em.energy := by
    intro em hem
    refine hlarge em.energy ?_
    cases hem
    norm_num
  refine ⟨_, run, node_color_lines fresh_twoObjects run hstart ?_⟩
  intro e he
  have heq : e = 1 / 4 := by simpa using he
  exact hlarge e heq.ge

end Colors

end LearnNs2.Nam
