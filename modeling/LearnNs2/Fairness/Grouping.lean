import LearnNs2.Lib.Groups
import LearnNs2.Fairness.Flowstats

/-!
# The groups of `finish_flowstats`

The sums of the program are those of the run of records it is in, and every
earlier run has been printed. So nothing is lost between two runs, and a flow
whose records stand together is printed once.
-/

namespace LearnNs2

open Awk Decimal Groups

set_option autoImplicit false

/-- A line of the flow monitor, with what it says. -/
structure FlowRecord where
  line : String
  fid : Nat
  pktA : Nat
  pktD : Nat
  isFlow : IsFlow line fid pktA pktD

namespace Flowstats

def arrivalsOf (records : List FlowRecord) : Nat := (records.map FlowRecord.pktA).sum

def dropsOf (records : List FlowRecord) : Nat := (records.map FlowRecord.pktD).sum

/-- The class line of a flow with the sums over some of its records. -/
def summary (fid : Nat) (records : List FlowRecord) : String :=
  classLine (decimal fid) (decimal (arrivalsOf records)) (decimal (dropsOf records))

/-- The state in the run `g` of the flow `fid`, with the runs `gs` behind it. -/
structure InRun (l : List FlowRecord) (gs : List (Nat × List FlowRecord)) (fid : Nat)
    (g : List FlowRecord) (s : Vars) : Prop where
  cut : Cut FlowRecord.fid l (gs ++ [(fid, g)])
  prev : s.prev = .input (decimal fid)
  arrivals : s.arrivals.toNum = arrivalsOf g
  drops : s.drops.toNum = dropsOf g
  printed : s.printed = gs.map fun r => summary r.1 r.2

section Steps

variable {l g : List FlowRecord} {gs : List (Nat × List FlowRecord)} {fid : Nat} {s : Vars}
  {r : FlowRecord}

theorem InRun.report (h : InRun l gs fid g s) : report s = summary fid g := by
  have hfid : (Value.input (decimal fid)).toNum = fid := toNum_decimal fid
  rw [Flowstats.report, h.prev, formatD_of_natCast hfid, formatD_of_natCast h.arrivals,
    formatD_of_natCast h.drops, summary]

theorem inRun_first (r : FlowRecord) : InRun [r] [] r.fid [r] (main begin r.line) := by
  rw [main_first r.isFlow]
  refine ⟨cut_singleton r, rfl, ?_, ?_, rfl⟩
  · simp [arrivalsOf]
  · simp [dropsOf]

theorem InRun.same (h : InRun l gs fid g s) (hr : r.fid = fid) :
    InRun (l ++ [r]) gs fid (g ++ [r]) (main s r.line) := by
  have hprev : s.prev = .input (decimal r.fid) := by rw [h.prev, hr]
  rw [main_same r.isFlow hprev]
  refine ⟨h.cut.extend hr, h.prev, ?_, ?_, h.printed⟩
  · simp [arrivalsOf, h.arrivals]
  · simp [dropsOf, h.drops]

theorem InRun.other (h : InRun l gs fid g s) (hr : r.fid ≠ fid) :
    InRun (l ++ [r]) (gs ++ [(fid, g)]) r.fid [r] (main s r.line) := by
  rw [main_other r.isFlow h.prev hr]
  refine ⟨h.cut.start hr, rfl, ?_, ?_, ?_⟩
  · rw [toNum_decimal]
    simp [arrivalsOf]
  · rw [toNum_decimal]
    simp [dropsOf]
  · change s.printed ++ [Flowstats.report s] = _
    rw [h.printed, h.report, List.map_append]
    rfl

theorem exists_inRun (hne : l ≠ []) :
    ∃ gs fid g, InRun l gs fid g (run main begin (l.map FlowRecord.line)) := by
  induction l using List.reverseRecOn with
  | nil => exact absurd rfl hne
  | append_singleton l r ih =>
    rw [List.map_append, run_append]
    by_cases hnil : l = []
    · subst l
      exact ⟨[], r.fid, [r], inRun_first r⟩
    · obtain ⟨gs, fid, g, h⟩ := ih hnil
      by_cases hr : r.fid = fid
      · exact ⟨gs, fid, g ++ [r], h.same hr⟩
      · exact ⟨gs ++ [(fid, g)], r.fid, [r], h.other hr⟩

/-- One class line for each run, the last one printed at the end. -/
theorem output_runs (hne : l ≠ []) : ∃ runs, Cut FlowRecord.fid l runs ∧
    output (l.map FlowRecord.line) = runs.map fun r => summary r.1 r.2 := by
  obtain ⟨gs, fid, g, h⟩ := exists_inRun hne
  refine ⟨gs ++ [(fid, g)], h.cut, ?_⟩
  unfold output
  dsimp only
  rw [h.printed, h.report, List.map_append]
  rfl

end Steps

section Totals

variable {l : List FlowRecord} {runs : List (Nat × List FlowRecord)}

theorem sum_arrivals (h : Cut FlowRecord.fid l runs) :
    (runs.map fun r => arrivalsOf r.2).sum = arrivalsOf l :=
  h.sum_eq FlowRecord.pktA

theorem sum_drops (h : Cut FlowRecord.fid l runs) :
    (runs.map fun r => dropsOf r.2).sum = dropsOf l :=
  h.sum_eq FlowRecord.pktD

/-- The lines of runs that hold all the records of their flows. -/
theorem summaries_eq (h : Cut FlowRecord.fid l runs) (hc : Contiguous FlowRecord.fid l) :
    (runs.map fun r => summary r.1 r.2) =
      (runs.map Prod.fst).map fun f => summary f (l.filter fun r => r.fid = f) := by
  rw [List.map_map]
  apply List.map_congr_left
  intro r hr
  have hfilter := h.filter_eq (h.nodup_keys hc) hr
  rw [Function.comp_apply, hfilter]

end Totals

/-- The program prints one line for each maximal run of records of one flow,
with the sums over that run, and no count is lost or counted twice. -/
theorem flowstats_groups {l : List FlowRecord} (hne : l ≠ []) :
    ∃ runs, (∀ gs, Cut FlowRecord.fid l gs ↔ gs = runs) ∧
      output (l.map FlowRecord.line) = (runs.map fun r => summary r.1 r.2) ∧
      (runs.map fun r => arrivalsOf r.2).sum = arrivalsOf l ∧
      (runs.map fun r => dropsOf r.2).sum = dropsOf l ∧
      (Contiguous FlowRecord.fid l → ∃ fids : List Nat, fids.Nodup ∧
        (∀ f, f ∈ fids ↔ ∃ r ∈ l, r.fid = f) ∧
        output (l.map FlowRecord.line) =
          fids.map fun f => summary f (l.filter fun r => r.fid = f)) := by
  obtain ⟨runs, hcut, hout⟩ := output_runs hne
  refine ⟨runs, ?_, hout, sum_arrivals hcut, sum_drops hcut, ?_⟩
  · intro gs
    constructor
    · exact fun h => h.unique hcut
    · rintro rfl
      exact hcut
  · intro hc
    refine ⟨runs.map Prod.fst, hcut.nodup_keys hc, fun f => hcut.mem_keys_iff, ?_⟩
    rw [hout]
    exact summaries_eq hcut hc

/-- A record of the monitor of the link from node 2 to node 4. -/
def monitored (fid pktA pktD : Nat) : FlowRecord where
  line := unwords ["100.0", decimal fid, "0", "0", "0", "2", "4", decimal pktA, "0", "0", "0",
    "0", "0", "0", "0", "0", "0", decimal pktD, "0"]
  fid := fid
  pktA := pktA
  pktD := pktD
  isFlow := by
    have htime : isWord "100.0" := by decide
    have hzero : isWord "0" ∧ isWord "2" ∧ isWord "4" := by decide
    have hwords : ∀ w ∈ ["100.0", decimal fid, "0", "0", "0", "2", "4", decimal pktA, "0", "0",
        "0", "0", "0", "0", "0", "0", "0", decimal pktD, "0"], isWord w := by
      simp [htime, hzero, isWord_decimal]
    exact ⟨field_unwords hwords 1, field_unwords hwords 7, field_unwords hwords 17⟩

/-- Flow 0 has two runs, and both count. -/
theorem flowstats_groups_three :
    let l := [monitored 0 60 10, monitored 1 7 2, monitored 0 5 1]
    ∃ runs : List (Nat × List FlowRecord),
      output (l.map FlowRecord.line) = (runs.map fun r => summary r.1 r.2) ∧
      (runs.map fun r => arrivalsOf r.2).sum = 72 ∧ (runs.map fun r => dropsOf r.2).sum = 13 := by
  intro l
  have hne : l ≠ [] := List.cons_ne_nil _ _
  obtain ⟨runs, -, hout, harrivals, hdrops, -⟩ := flowstats_groups hne
  exact ⟨runs, hout, harrivals, hdrops⟩

end Flowstats

end LearnNs2
