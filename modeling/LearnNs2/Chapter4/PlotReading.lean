import LearnNs2.Chapter4.PlotTable
import LearnNs2.Lib.Awk

/-!
# Reading the file of `plotWindow`

A line of the file is a round: its time and the windows of the sources. A reader
that takes the words of the lines finds every window again, with its source and
its time, whenever it looks.
-/

namespace LearnNs2

open EventQueue LabelledRuns

set_option autoImplicit false

/-- The firings that a file tells of. -/
def readPlot {τ : Type} [Add τ] [OfScientific τ] (file : String) : List (Firing τ) :=
  ((Awk.records file).map Awk.words).zipIdx.flatMap fun r => rowFirings (roundTime r.2) r.1.tail

section Words

variable {now w : String} {ws : List String}

theorem newline_notMem (h : Awk.isWord w) : '\n' ∉ w.toList := by
  intro hmem
  have hblank := ((Awk.isWord_iff w).mp h).2 '\n' hmem
  exact absurd hblank (by decide)

theorem newline_notMem_columns (h : ∀ w ∈ ws, Awk.isWord w) : '\n' ∉ (columns ws).toList := by
  induction ws with
  | nil => simp [columns]
  | cons w ws ih =>
    have hw := newline_notMem (h w List.mem_cons_self)
    have htail := ih fun x hx => h x (List.mem_cons_of_mem w hx)
    simpa [columns, String.join_cons, hw] using htail

/-- The words of a row, whatever blank it ends with. -/
theorem words_row (hnow : Awk.isWord now) (h : ∀ w ∈ ws, Awk.isWord w) {c : Char}
    (hc : Awk.isBlank c) : Awk.words (now ++ columns ws ++ String.singleton c) = now :: ws := by
  induction ws generalizing now with
  | nil =>
    have hnil : Awk.words "" = [] := rfl
    have hlast := Awk.words_append hnow hc ""
    rw [String.append_empty, hnil] at hlast
    rw [columns, List.map_nil, String.join_nil, String.append_empty, hlast]
  | cons w ws ih =>
    have htail := ih (h w List.mem_cons_self) fun x hx => h x (List.mem_cons_of_mem w hx)
    have hrow : now ++ columns (w :: ws) ++ String.singleton c =
        now ++ String.singleton '\t' ++ (w ++ columns ws ++ String.singleton c) := by
      rw [columns, List.map_cons, String.join_cons]
      simp only [String.append_assoc]
      rfl
    rw [hrow, Awk.words_append hnow rfl, htail]

theorem newline_notMem_row (hnow : Awk.isWord now) (h : ∀ w ∈ ws, Awk.isWord w) {c : Char}
    (hc : c ≠ '\n') : '\n' ∉ (now ++ columns ws ++ String.singleton c).toList := by
  have hw := newline_notMem hnow
  have hcolumns := newline_notMem_columns h
  simp [hw, hcolumns, hc.symm]

theorem rowText_eq (now : String) (ws : List String) :
    rowText now ws = now ++ columns ws ++ String.singleton ' ' ++ "\n" := by
  have hend : " \n" = String.singleton ' ' ++ "\n" := rfl
  rw [rowText, hend]
  simp only [String.append_assoc]

theorem words_rowFirings {τ : Type} (t : τ) (ws : List String) :
    (rowFirings t ws).map Firing.cwnd = ws := by
  rw [rowFirings, List.map_map]
  exact List.zipIdx_map_fst 1 ws

end Words

namespace PlotTable

variable {τ : Type} {n : Nat} [Add τ] [OfScientific τ] {timeText : τ → String} {T : PlotTable n}

/-- The words that are in the lines of a table. -/
def lines (timeText : τ → String) (T : PlotTable n) : List (List String) :=
  (T.complete.zipIdx.map fun r => timeText (roundTime r.2) :: r.1.toList) ++
    if T.current = [] then [] else [timeText T.time :: T.current]

def windows (T : PlotTable n) : List String :=
  (T.complete.flatMap List.Vector.toList) ++ T.current

theorem windows_eq (T : PlotTable n) : (T.firings (τ := τ)).map Firing.cwnd = T.windows := by
  have hrows : (T.complete.zipIdx.flatMap fun r =>
      rowFirings (roundTime r.2 : τ) r.1.toList).map Firing.cwnd =
        T.complete.flatMap List.Vector.toList := by
    rw [List.map_flatMap]
    simp only [words_rowFirings]
    rw [← List.flatMap_map Prod.fst, List.zipIdx_map_fst]
  rw [firings, List.map_append, hrows, words_rowFirings, windows]

/-- A reader of the text finds the lines. -/
theorem words_text (htime : ∀ t, Awk.isWord (timeText t)) (h : ∀ w ∈ T.windows, Awk.isWord w) :
    (Awk.records (T.text timeText)).map Awk.words = T.lines timeText := by
  have hcurrent : ∀ w ∈ T.current, Awk.isWord w := fun w hw =>
    h w (List.mem_append_right _ hw)
  have hcomplete : ∀ r ∈ T.complete.zipIdx, ∀ w ∈ r.1.toList, Awk.isWord w := by
    intro r hr w hw
    apply h
    apply List.mem_append_left
    exact List.mem_flatMap.mpr ⟨r.1, List.fst_mem_of_mem_zipIdx hr, hw⟩
  have hrows : (T.complete.zipIdx.map fun r => rowText (timeText (roundTime r.2)) r.1.toList) =
      (T.complete.zipIdx.map fun r =>
        timeText (roundTime r.2) ++ columns r.1.toList ++ String.singleton ' ').map
          fun line => line ++ "\n" := by
    rw [List.map_map]
    apply List.map_congr_left
    intro r _
    exact rowText_eq _ _
  have hnew : ∀ line ∈ T.complete.zipIdx.map fun r =>
      timeText (roundTime r.2) ++ columns r.1.toList ++ String.singleton ' ',
      '\n' ∉ line.toList := by
    intro line hline
    obtain ⟨r, hr, rfl⟩ := List.mem_map.mp hline
    exact newline_notMem_row (htime _) (hcomplete r hr) (by decide)
  have hwords : (T.complete.zipIdx.map fun r =>
      timeText (roundTime r.2) ++ columns r.1.toList ++ String.singleton ' ').map Awk.words =
        T.complete.zipIdx.map fun r => timeText (roundTime r.2) :: r.1.toList := by
    rw [List.map_map]
    apply List.map_congr_left
    intro r hr
    exact words_row (htime _) (hcomplete r hr) rfl
  have hlast := newline_notMem_row (htime T.time) hcurrent (c := '\t') (by decide)
  have hlastWords := words_row (htime T.time) hcurrent (c := '\t') rfl
  have htab : "\t" = String.singleton '\t' := rfl
  rw [text, hrows, lines, currentText, htab]
  split_ifs with hnil
  · have hrecords := Awk.records_unlines_append hnew (by simp : '\n' ∉ "".toList)
    unfold Awk.unlines at hrecords
    rw [hrecords, List.map_append, hwords]
    rfl
  · have hrecords := Awk.records_unlines_append hnew hlast
    unfold Awk.unlines at hrecords
    rw [hrecords, List.map_append, hwords, if_neg (by simp)]
    exact congrArg _ (congrArg (fun l => [l]) hlastWords)

theorem readRows (timeText : τ → String) (rows : List (List.Vector String n)) (k : Nat) :
    (((rows.zipIdx k).map fun r => timeText (roundTime r.2) :: r.1.toList).zipIdx k).flatMap
      (fun r => rowFirings (roundTime r.2 : τ) r.1.tail) =
        (rows.zipIdx k).flatMap fun r => rowFirings (roundTime r.2) r.1.toList := by
  induction rows generalizing k with
  | nil => rfl
  | cons row rows ih =>
    rw [List.zipIdx_cons, List.map_cons, List.zipIdx_cons, List.flatMap_cons, List.flatMap_cons,
      ih (k + 1)]
    rfl

theorem readPlot_text (htime : ∀ t, Awk.isWord (timeText t)) (h : ∀ w ∈ T.windows, Awk.isWord w) :
    readPlot (T.text timeText) = (T.firings : List (Firing τ)) := by
  have hrows := readRows timeText T.complete 0
  rw [readPlot, words_text htime h, lines, List.zipIdx_append, List.flatMap_append, hrows, firings]
  apply congrArg
  split_ifs with hnil
  · rw [hnil]
    rfl
  · rw [List.length_map, List.length_zipIdx, Nat.zero_add, List.zipIdx_singleton,
      List.flatMap_singleton]
    rfl

/-- Every line but the last has all the windows. -/
theorem lines_shape {i : Nat} {line : List String} (h : (T.lines timeText)[i]? = some line) :
    ∃ ws, line = timeText (roundTime i) :: ws ∧ ws ≠ [] ∧ ws.length ≤ n ∧
      (i + 1 < (T.lines timeText).length → ws.length = n) := by
  have hn := T.short
  have hlen : (T.complete.zipIdx.map fun r => timeText (roundTime r.2) :: r.1.toList).length =
      T.complete.length := by simp
  rcases Nat.lt_or_ge i T.complete.length with hlt | hge
  · rw [lines, List.getElem?_append_left (hlen.symm ▸ hlt), List.getElem?_map,
      List.getElem?_zipIdx, List.getElem?_eq_getElem hlt] at h
    cases h
    have hrow := T.complete[i].toList_length
    refine ⟨T.complete[i].toList, ?_, ?_, hrow.le, fun _ => hrow⟩
    · simp
    · intro hnil
      rw [hnil, List.length_nil] at hrow
      omega
  · have hlast : (T.lines timeText).length ≤ T.complete.length + 1 := by
      rw [lines, List.length_append, hlen]
      split_ifs
      · exact Nat.le_succ _
      · exact le_rfl
    rw [lines, List.getElem?_append_right (hlen.symm ▸ hge), hlen] at h
    split_ifs at h with hnil
    · cases h
    · obtain ⟨hi, hline⟩ := List.getElem?_eq_some_iff.mp h
      have heq : i = T.complete.length := by
        rw [List.length_singleton] at hi
        omega
      rw [List.getElem_singleton] at hline
      refine ⟨T.current, ?_, hnil, hn.le, ?_⟩
      · rw [← hline, heq, time]
      · intro hlt
        omega

end PlotTable

section Runs

variable {τ σ X : Type} [LinearOrder τ] [Add τ] [OfScientific τ] {c : PlotSetup τ σ X}
  {net : σ} {before after : List (τ × X)} {es : List (PlotLabel τ X)} {s : PlotSim τ σ X}

theorem cwnd_of_next {e : PlotLabel τ X} {u : PlotSim τ σ X} {f : Firing τ}
    (h : c.next s = some (e, u)) (hf : e.firing? = some f) : ∃ net j, f.cwnd = c.cwnd net j := by
  rcases next_cases h with ⟨t, j, k, rest, -, rfl, -⟩ | ⟨t, x, rest, net, more, -, rfl, -⟩
  · cases hf
    exact ⟨s.net, j, rfl⟩
  · cases hf

variable [Zero τ]

theorem cwnd_of_run (run : c.PlotRun net before after es s) :
    ∀ f ∈ firings es, ∃ net j, f.cwnd = c.cwnd net j := by
  apply run.induct (fun es _ => ∀ f ∈ firings es, ∃ net j, f.cwnd = c.cwnd net j)
  · intro f hf
    cases hf
  · intro es s e u _ ih hstep f hf
    rw [firings, List.filterMap_append] at hf
    rcases List.mem_append.mp hf with hold | hnew
    · exact ih f hold
    · obtain ⟨x, hx, hfx⟩ := List.mem_filterMap.mp hnew
      rw [List.mem_singleton.mp hx] at hfx
      exact cwnd_of_next hstep hfx

/-- If times and windows are words, the file tells every window that was found, by
which source and when, and its lines are rounds with their time in front. -/
theorem plotWindow_reads_back (two : 2 ≤ c.numbSrc) (grows : ∀ t : τ, t ≤ t + 0.03)
    (htime : ∀ t, Awk.isWord (c.timeText t)) (hcwnd : ∀ net j, Awk.isWord (c.cwnd net j))
    (run : c.PlotRun net before after es s) :
    readPlot s.file = firings es ∧
      ∀ i line, (Awk.records s.file)[i]? = some line →
        ∃ ws, Awk.words line = c.timeText (roundTime i) :: ws ∧ ws ≠ [] ∧
          ws.length ≤ c.numbSrc ∧
          (i + 1 < (Awk.records s.file).length → ws.length = c.numbSrc) := by
  obtain ⟨T, hT⟩ := plotted_run two grows run
  have hwords : ∀ w ∈ T.windows, Awk.isWord w := by
    intro w hw
    rw [← T.windows_eq (τ := τ), ← hT.fired] at hw
    obtain ⟨f, hf, rfl⟩ := List.mem_map.mp hw
    obtain ⟨net, j, heq⟩ := cwnd_of_run run f hf
    rw [heq]
    exact hcwnd net j
  have hlines := PlotTable.words_text htime hwords
  constructor
  · rw [hT.text, hT.fired, PlotTable.readPlot_text htime hwords]
  · intro i line hline
    rw [← hT.text] at hlines
    have hi : (T.lines c.timeText)[i]? = some (Awk.words line) := by
      rw [← hlines, List.getElem?_map, hline]
      rfl
    have hshape := PlotTable.lines_shape hi
    rwa [← hlines, List.length_map] at hshape

end Runs

theorem plotWindow_reads_back_twoSources : ∃ s, twoSources.PlotRun () [] [] twoSourcesHistory s ∧
    readPlot s.file = firings twoSourcesHistory ∧
      ∀ i line, (Awk.records s.file)[i]? = some line →
        ∃ ws, Awk.words line = twoSources.timeText (roundTime i) :: ws ∧ ws ≠ [] ∧
          ws.length ≤ twoSources.numbSrc ∧
          (i + 1 < (Awk.records s.file).length → ws.length = twoSources.numbSrc) := by
  obtain ⟨s, hrun, -⟩ := exists_run_twoSources
  have grows : ∀ t : ℚ, t ≤ t + 0.03 := by
    intro t
    norm_num
  have htime : ∀ t, Awk.isWord (twoSources.timeText t) := by
    intro t
    unfold twoSources
    dsimp only
    split_ifs <;> rfl
  have hcwnd : ∀ net j, Awk.isWord (twoSources.cwnd net j) := by
    intro net j
    unfold twoSources
    dsimp only
    split_ifs <;> rfl
  exact ⟨s, hrun, plotWindow_reads_back le_rfl grows htime hcwnd hrun⟩

end LearnNs2
