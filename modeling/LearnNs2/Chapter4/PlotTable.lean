import LearnNs2.Chapter4.PlotWindow
import Mathlib.Algebra.Order.Field.Rat
import Mathlib.Data.Vector.Defs
import Mathlib.Tactic.NormNum

/-!
# The table of `plotWindow`

The file is a table that takes one window after the other. Of the processes, those
that have run in a round wait behind those that have not, and `finish` is never
between two that have yet to run.
-/

namespace LearnNs2

open EventQueue LabelledRuns

set_option autoImplicit false

/-- Rows of `n` windows, and the windows of a row that is not complete. -/
structure PlotTable (n : Nat) where
  complete : List (List.Vector String n)
  current : List String
  short : current.length < n

def roundTime {τ : Type} [Add τ] [OfScientific τ] : Nat → τ
  | 0 => 0.1
  | n + 1 => roundTime n + 0.03

/-- The sources from the first on, each with its window, at one time. -/
def rowFirings {τ : Type} (t : τ) (ws : List String) : List (Firing τ) :=
  (ws.zipIdx 1).map fun w => ⟨t, w.2, w.1⟩

def columns (ws : List String) : String := String.join (ws.map fun w => "\t" ++ w)

def rowText (now : String) (ws : List String) : String := now ++ columns ws ++ " \n"

def currentText (now : String) (ws : List String) : String :=
  if ws = [] then "" else now ++ columns ws ++ "\t"

namespace PlotTable

variable {τ : Type} {n : Nat}

def empty (h : 0 < n) : PlotTable n := ⟨[], [], h⟩

def record (T : PlotTable n) (w : String) : PlotTable n :=
  if h : (T.current ++ [w]).length < n then
    ⟨T.complete, T.current ++ [w], h⟩
  else
    have hlen : (T.current ++ [w]).length = n := by
      have := T.short
      rw [List.length_append, List.length_singleton] at h ⊢
      omega
    ⟨T.complete ++ [⟨T.current ++ [w], hlen⟩], [], Nat.zero_lt_of_lt T.short⟩

section Times

variable [Add τ] [OfScientific τ]

def time (T : PlotTable n) : τ := roundTime T.complete.length

def firings (T : PlotTable n) : List (Firing τ) :=
  (T.complete.zipIdx.flatMap fun r => rowFirings (roundTime r.2) r.1.toList) ++
    rowFirings T.time T.current

def text (timeText : τ → String) (T : PlotTable n) : String :=
  String.join (T.complete.zipIdx.map fun r => rowText (timeText (roundTime r.2)) r.1.toList) ++
    currentText (timeText T.time) T.current

end Times

end PlotTable

section Records

variable {τ : Type} {n : Nat} {T : PlotTable n} {w now : String} {ws : List String}

theorem rowFirings_append (t : τ) (ws : List String) (w : String) :
    rowFirings t (ws ++ [w]) = rowFirings t ws ++ [⟨t, ws.length + 1, w⟩] := by
  rw [rowFirings, List.zipIdx_append, List.map_append, Nat.add_comm]
  rfl

theorem columns_append (ws : List String) (w : String) :
    columns (ws ++ [w]) = columns ws ++ "\t" ++ w := by
  rw [columns, List.map_append, String.join_append, String.append_assoc]
  simp [columns]

theorem currentText_append (h : ws.length + 1 < n) (now w : String) :
    currentText now (ws ++ [w]) = currentText now ws ++ plotText n (ws.length + 1) now w := by
  have hnew : currentText now (ws ++ [w]) = now ++ columns ws ++ "\t" ++ w ++ "\t" := by
    rw [currentText, if_neg (by simp), columns_append]
    simp only [String.append_assoc]
  rw [hnew, plotText, if_neg (by omega : ¬ ws.length + 1 = n), String.append_empty]
  cases ws with
  | nil => simp [currentText, columns]
  | cons v ws =>
    rw [if_neg (by simp), if_pos h, currentText, if_neg (by simp)]
    simp only [String.append_assoc]

theorem rowText_append (two : 2 ≤ n) (h : ws.length + 1 = n) (now w : String) :
    rowText now (ws ++ [w]) = currentText now ws ++ plotText n (ws.length + 1) now w := by
  have hne : ws ≠ [] := by
    rintro rfl
    rw [List.length_nil] at h
    omega
  have hpos := List.length_pos_of_ne_nil hne
  rw [rowText, columns_append, plotText, if_neg (by omega), if_neg (by omega), if_pos h,
    String.empty_append, currentText, if_neg hne]
  simp only [String.append_assoc]

theorem PlotTable.lt_or_last (T : PlotTable n) :
    T.current.length + 1 < n ∨ T.current.length + 1 = n :=
  Nat.lt_or_eq_of_le T.short

theorem PlotTable.record_of_lt (h : T.current.length + 1 < n) :
    (T.record w).complete = T.complete ∧ (T.record w).current = T.current ++ [w] := by
  have hlt : (T.current ++ [w]).length < n := by simpa using h
  rw [PlotTable.record, dif_pos hlt]
  exact ⟨rfl, rfl⟩

theorem PlotTable.record_of_eq (h : T.current.length + 1 = n) :
    ∃ row : List.Vector String n, row.toList = T.current ++ [w] ∧
      (T.record w).complete = T.complete ++ [row] ∧ (T.record w).current = [] := by
  have hge : ¬ (T.current ++ [w]).length < n := by simp [h]
  rw [PlotTable.record, dif_neg hge]
  exact ⟨_, rfl, rfl, rfl⟩

variable [Add τ] [OfScientific τ]

theorem PlotTable.firings_record (T : PlotTable n) (w : String) :
    (T.record w).firings = T.firings ++ [(⟨T.time, T.current.length + 1, w⟩ : Firing τ)] := by
  have hlast := rowFirings_append (T.time : τ) T.current w
  rcases T.lt_or_last with hlt | heq
  · obtain ⟨hcomplete, hcurrent⟩ := T.record_of_lt (w := w) hlt
    rw [PlotTable.firings, PlotTable.firings, PlotTable.time, hcomplete, hcurrent,
      List.append_assoc]
    exact congrArg _ hlast
  · obtain ⟨row, hrow, hcomplete, hcurrent⟩ := T.record_of_eq (w := w) heq
    rw [PlotTable.firings, PlotTable.firings, hcomplete, hcurrent, List.zipIdx_append,
      List.flatMap_append, List.append_assoc, List.append_assoc, ← hlast, ← hrow]
    simp [PlotTable.time, rowFirings]

/-- What a process writes continues the table. -/
theorem PlotTable.text_record (two : 2 ≤ n) (timeText : τ → String) (T : PlotTable n) (w : String) :
    (T.record w).text timeText =
      T.text timeText ++ plotText n (T.current.length + 1) (timeText T.time) w := by
  rcases T.lt_or_last with hlt | heq
  · obtain ⟨hcomplete, hcurrent⟩ := T.record_of_lt (w := w) hlt
    have hrow := currentText_append hlt (timeText T.time) w
    rw [PlotTable.text, PlotTable.text, PlotTable.time, hcomplete, hcurrent, String.append_assoc]
    exact congrArg _ hrow
  · obtain ⟨row, hws, hcomplete, hcurrent⟩ := T.record_of_eq (w := w) heq
    have hrow := rowText_append two heq (timeText T.time) w
    rw [PlotTable.text, PlotTable.text, hcomplete, hcurrent, List.zipIdx_append, List.map_append,
      String.join_append, String.append_assoc, String.append_assoc, ← hrow, ← hws]
    simp [PlotTable.time, currentText]

end Records

section Waiting

variable {τ X : Type} [Add τ] [OfScientific τ] {n : Nat} {T : PlotTable n} {w : String}

/-- The processes that have yet to run in this round, and those that have run. -/
def PlotTable.due (T : PlotTable n) : List (τ × PlotEvent X) :=
  (List.range' (T.current.length + 1) (n - T.current.length)).map fun k =>
    (T.time, .plotWindow k k)

def PlotTable.again (T : PlotTable n) : List (τ × PlotEvent X) :=
  (List.range' 1 T.current.length).map fun k => (T.time + 0.03, .plotWindow k k)

def PlotTable.rest (T : PlotTable n) : List (τ × PlotEvent X) :=
  (List.range' (T.current.length + 2) (n - (T.current.length + 1))).map fun k =>
    (T.time, .plotWindow k k)

theorem PlotTable.due_eq (T : PlotTable n) : T.due (X := X) =
    ((T.time : τ), .plotWindow (T.current.length + 1) (T.current.length + 1)) :: T.rest := by
  have hlen : n - T.current.length = n - (T.current.length + 1) + 1 := by
    have := T.short
    omega
  rw [PlotTable.due, hlen, List.range'_succ]
  rfl

theorem PlotTable.again_append (T : PlotTable n) : T.again (X := X) ++
    [((T.time : τ) + 0.03, .plotWindow (T.current.length + 1) (T.current.length + 1))] =
      (List.range' 1 (T.current.length + 1)).map fun k => (T.time + 0.03, .plotWindow k k) := by
  rw [List.range'_1_concat, List.map_append, Nat.add_comm]
  rfl

theorem PlotTable.due_record (h : T.current.length + 1 < n) :
    (T.record w).time = (T.time : τ) ∧ (T.record w).due = T.rest (τ := τ) (X := X) ∧
      (T.record w).again = T.again (X := X) ++
        [((T.time : τ) + 0.03, .plotWindow (T.current.length + 1) (T.current.length + 1))] := by
  obtain ⟨hcomplete, hcurrent⟩ := T.record_of_lt (w := w) h
  have htime : (T.record w).time = (T.time : τ) := by rw [PlotTable.time, hcomplete, PlotTable.time]
  refine ⟨htime, ?_, ?_⟩
  · rw [PlotTable.due, htime, hcurrent, List.length_append, List.length_singleton]
    rfl
  · rw [T.again_append, PlotTable.again, htime, hcurrent, List.length_append, List.length_singleton]

/-- When the last process has run, all of them are due again. -/
theorem PlotTable.due_record_last (h : T.current.length + 1 = n) :
    T.rest (τ := τ) (X := X) = [] ∧ (T.record w).current = [] ∧
      (T.record w).due = T.again (X := X) ++
        [((T.time : τ) + 0.03, .plotWindow (T.current.length + 1) (T.current.length + 1))] := by
  obtain ⟨row, -, hcomplete, hcurrent⟩ := T.record_of_eq (w := w) h
  have htime : (T.record w).time = (T.time : τ) + 0.03 := by
    rw [PlotTable.time, hcomplete, List.length_append, List.length_singleton]
    rfl
  refine ⟨?_, hcurrent, ?_⟩
  · rw [PlotTable.rest, h, Nat.sub_self]
    rfl
  · rw [T.again_append, PlotTable.due, htime, hcurrent, h]
    rfl

theorem PlotTable.again_of_nil (h : T.current = []) : T.again (τ := τ) (X := X) = [] := by
  rw [PlotTable.again, h]
  rfl

variable [LinearOrder τ]

/-- What is in the queue besides the events of others. -/
inductive Waiting (duration : τ) (T : PlotTable n) : List (τ × PlotEvent X) → Prop where
  | first (h : T.current = []) : Waiting duration T ((duration, .finish) :: T.due)
  | between (h : duration ≤ T.time + 0.03) :
      Waiting duration T (T.due ++ (duration, .finish) :: T.again)
  | last (h : T.time + 0.03 < duration) :
      Waiting duration T (T.due ++ (T.again ++ [(duration, .finish)]))

variable {duration t : τ} {j k : Nat} {q : List (τ × PlotEvent X)}

theorem PlotTable.rest_le (grows : ∀ t : τ, t ≤ t + 0.03) (T : PlotTable n) :
    ∀ x ∈ T.rest (X := X), x.1 ≤ (T.time : τ) + 0.03 := by
  intro x hx
  obtain ⟨k, -, rfl⟩ := List.mem_map.mp hx
  exact grows T.time

theorem PlotTable.again_le (T : PlotTable n) :
    ∀ x ∈ T.again (X := X), x.1 ≤ (T.time : τ) + 0.03 := by
  intro x hx
  obtain ⟨k, -, rfl⟩ := List.mem_map.mp hx
  exact le_rfl

theorem waiting_of_nil (h : T.current = []) :
    Waiting duration T (T.due ++ [(duration, PlotEvent.finish (X := X))]) := by
  have hagain := T.again_of_nil (τ := τ) (X := X) h
  rcases le_or_gt duration (T.time + 0.03) with hle | hlt
  · have hwait := Waiting.between (X := X) hle
    rwa [hagain] at hwait
  · have hwait := Waiting.last (X := X) hlt
    rwa [hagain] at hwait

/-- `finish` is ahead of the processes of the next round. -/
theorem waiting_between (grows : ∀ t : τ, t ≤ t + 0.03) (hle : duration ≤ T.time + 0.03)
    (w : String) : Waiting duration (T.record w) (enqueue (T.time + 0.03)
      (.plotWindow (T.current.length + 1) (T.current.length + 1))
      (T.rest ++ (duration, PlotEvent.finish (X := X)) :: T.again)) := by
  have hall : ∀ x ∈ T.rest ++ (duration, PlotEvent.finish (X := X)) :: T.again,
      x.1 ≤ T.time + 0.03 := by
    intro x hx
    rcases List.mem_append.mp hx with hx | hx
    · exact T.rest_le grows x hx
    · rcases List.mem_cons.mp hx with rfl | hx
      · exact hle
      · exact T.again_le x hx
  rw [enqueue_of_le hall, List.append_assoc, List.cons_append]
  rcases T.lt_or_last with hlt | heq
  · obtain ⟨htime, hdue, hagain⟩ := T.due_record (τ := τ) (X := X) (w := w) hlt
    rw [← hdue, ← hagain]
    exact .between (htime ▸ hle)
  · -- the last process of the round leaves `finish` at the head of the queue
    obtain ⟨hrest, hcurrent, hdue⟩ := T.due_record_last (τ := τ) (X := X) (w := w) heq
    rw [hrest, List.nil_append, ← hdue]
    exact .first hcurrent

/-- `finish` stays behind all of them. -/
theorem waiting_last (grows : ∀ t : τ, t ≤ t + 0.03) (hlate : T.time + 0.03 < duration)
    (w : String) : Waiting duration (T.record w) (enqueue (T.time + 0.03)
      (.plotWindow (T.current.length + 1) (T.current.length + 1))
      (T.rest ++ (T.again ++ [(duration, PlotEvent.finish (X := X))]))) := by
  have hfinish : ∀ x ∈ [(duration, PlotEvent.finish (X := X))], T.time + 0.03 < x.1 := by
    intro x hx
    rwa [List.mem_singleton.mp hx]
  rw [enqueue_append (T.rest_le grows), enqueue_append T.again_le, enqueue_of_lt hfinish,
    List.append_cons T.again]
  rcases T.lt_or_last with hlt | heq
  · obtain ⟨htime, hdue, hagain⟩ := T.due_record (τ := τ) (X := X) (w := w) hlt
    rw [← hdue, ← hagain]
    exact .last (htime ▸ hlate)
  · obtain ⟨hrest, hcurrent, hdue⟩ := T.due_record_last (τ := τ) (X := X) (w := w) heq
    rw [hrest, List.nil_append, ← hdue]
    exact waiting_of_nil hcurrent

/-- A process of the queue is the next one of the round, and goes behind the others. -/
theorem Waiting.step (grows : ∀ t : τ, t ≤ t + 0.03) (w : String)
    (h : Waiting duration T ((t, .plotWindow j k) :: q)) :
    t = T.time ∧ j = T.current.length + 1 ∧ k = T.current.length + 1 ∧
      Waiting duration (T.record w) (enqueue (t + 0.03) (.plotWindow j k) q) := by
  -- in each shape of the queue where a process is at the head, it is the head of `due`
  generalize hl : (t, PlotEvent.plotWindow j k) :: q = l at h
  cases h with
  | first => cases hl
  | between hle =>
    rw [T.due_eq, List.cons_append] at hl
    obtain ⟨hhead, rfl⟩ := List.cons.inj hl
    cases hhead
    exact ⟨rfl, rfl, rfl, waiting_between grows hle w⟩
  | last hlate =>
    rw [T.due_eq, List.cons_append] at hl
    obtain ⟨hhead, rfl⟩ := List.cons.inj hl
    cases hhead
    exact ⟨rfl, rfl, rfl, waiting_last grows hlate w⟩

theorem Waiting.current_of_finish (h : Waiting duration T ((t, .finish) :: q)) :
    T.current = [] := by
  generalize hl : (t, PlotEvent.finish) :: q = l at h
  cases h with
  | first hnil => exact hnil
  | between =>
    rw [T.due_eq] at hl
    cases hl
  | last =>
    rw [T.due_eq] at hl
    cases hl

end Waiting

section Scripts

variable {τ σ X : Type}

def PlotEvent.scripted : PlotEvent X → Bool
  | other _ => false
  | _ => true

theorem scripted_others (xs : List (τ × X)) :
    ∀ x ∈ PlotSetup.others xs, x.2.scripted = false := by
  intro x hx
  obtain ⟨y, -, rfl⟩ := List.mem_map.mp hx
  rfl

variable [LinearOrder τ]

def PlotSim.scripts (s : PlotSim τ σ X) : List (τ × PlotEvent X) :=
  s.queue.entries.filter fun x => x.2.scripted

variable [OfScientific τ] {c : PlotSetup τ σ X}

theorem next_cases [Add τ] {s u : PlotSim τ σ X} {e : PlotLabel τ X} (h : c.next s = some (e, u)) :
    (∃ t j k rest, s.queue.entries = (t, .plotWindow j k) :: rest ∧
      e = .plotWindow ⟨t, j, c.cwnd s.net j⟩ ∧
      u = c.plotWindow { s with now := t, queue := s.queue.tail } j k) ∨
    ∃ t x rest net more, s.queue.entries = (t, .other x) :: rest ∧ e = .other t x ∧
      u = { s with
        now := t, net := net, queue := s.queue.tail.insertAll (PlotSetup.others more) } := by
  unfold PlotSetup.next at h
  split at h
  · cases h
  · rename_i t event rest hentries
    cases event with
    | plotWindow j k =>
      cases h
      exact Or.inl ⟨t, j, k, rest, hentries, rfl, rfl⟩
    | finish => cases h
    | other x =>
      obtain ⟨r, -, hr⟩ := Option.map_eq_some_iff.mp h
      cases hr
      exact Or.inr ⟨t, x, rest, r.1, r.2, hentries, rfl, rfl⟩

theorem next_of_plotWindow [Add τ] {s : PlotSim τ σ X} {t : τ} {j k : Nat}
    {rest : List (τ × PlotEvent X)} (h : s.queue.entries = (t, .plotWindow j k) :: rest) :
    c.next s = some (.plotWindow ⟨t, j, c.cwnd s.net j⟩,
      c.plotWindow { s with now := t, queue := s.queue.tail } j k) := by
  rw [PlotSetup.next, h]

theorem scripts_init [Zero τ] (c : PlotSetup τ σ X) (net : σ) (before after : List (τ × X)) :
    (c.init net before after).scripts = enqueue c.duration .finish c.plots := by
  have hplots : c.plots.filter (fun x => x.2.scripted) = c.plots := by
    rw [List.filter_eq_self]
    intro x hx
    obtain ⟨k, -, rfl⟩ := List.mem_map.mp hx
    rfl
  have hsorted : InOrder ([] ++ c.plots) := by
    rw [List.nil_append, InOrder, PlotSetup.plots, List.pairwise_map]
    exact List.pairwise_of_forall fun _ _ => le_rfl
  have hbefore : (((Fifo.empty.insertAll (PlotSetup.others before)).insertAll c.plots).insertAll
      (PlotSetup.others after)).entries.filter (fun x => x.2.scripted) = c.plots := by
    rw [Fifo.filter_insertAll_of_neg (scripted_others after), Fifo.filter_insertAll, hplots,
      Fifo.filter_insertAll_of_neg (scripted_others before)]
    exact foldl_enqueue hsorted
  have hfinish := filter_enqueue (t := c.duration) (e := PlotEvent.finish (X := X))
    (p := fun x => x.2.scripted) rfl (((Fifo.empty.insertAll
      (PlotSetup.others before)).insertAll c.plots).insertAll (PlotSetup.others after)).inOrder
  rw [hbefore] at hfinish
  exact hfinish

end Scripts

section Runs

variable {τ σ X : Type} [LinearOrder τ] [Add τ] [OfScientific τ] {c : PlotSetup τ σ X}
  {net : σ} {before after : List (τ × X)} {es : List (PlotLabel τ X)} {e : PlotLabel τ X}
  {s u : PlotSim τ σ X}

/-- The simulator against the table of what has been written. -/
structure Plotted (c : PlotSetup τ σ X) (T : PlotTable c.numbSrc) (es : List (PlotLabel τ X))
    (s : PlotSim τ σ X) : Prop where
  fired : firings es = T.firings
  text : s.file = T.text c.timeText
  waiting : Waiting c.duration T s.scripts

theorem plotted_step (two : 2 ≤ c.numbSrc) (grows : ∀ t : τ, t ≤ t + 0.03) {T : PlotTable c.numbSrc}
    (h : Plotted c T es s) (hstep : c.next s = some (e, u)) :
    ∃ T' : PlotTable c.numbSrc, Plotted c T' (es ++ [e]) u := by
  have hwait := h.waiting
  rcases next_cases hstep with ⟨t, j, k, rest, hentries, rfl, rfl⟩ |
    ⟨t, x, rest, net, more, hentries, rfl, rfl⟩
  · rw [PlotSim.scripts, hentries, List.filter_cons_of_pos rfl] at hwait
    obtain ⟨rfl, rfl, rfl, hnext⟩ := hwait.step grows (c.cwnd s.net j)
    refine ⟨T.record (c.cwnd s.net (T.current.length + 1)), ?_, ?_, ?_⟩
    · rw [T.firings_record, ← h.fired, firings, List.filterMap_append]
      rfl
    · rw [T.text_record two, ← h.text]
      rfl
    · rw [← Fifo.entries_tail hentries,
        ← filter_enqueue (p := fun x => x.2.scripted) rfl s.queue.tail.inOrder] at hnext
      exact hnext
  · refine ⟨T, ?_, h.text, ?_⟩
    · rw [← h.fired, firings, List.filterMap_append]
      exact List.append_nil _
    · have hscripts : (s.queue.tail.insertAll (PlotSetup.others more)).entries.filter
          (fun x => x.2.scripted) = s.scripts := by
        rw [Fifo.filter_insertAll_of_neg (scripted_others more), Fifo.entries_tail hentries,
          PlotSim.scripts, hentries, List.filter_cons_of_neg Bool.false_ne_true]
      rw [PlotSim.scripts, hscripts]
      exact hwait

variable [Zero τ]

theorem plotted_init (h : 0 < c.numbSrc) (net : σ) (before after : List (τ × X)) :
    Plotted c (PlotTable.empty h) [] (c.init net before after) where
  fired := rfl
  text := rfl
  waiting := by
    have hdue : c.plots = (PlotTable.empty h).due := rfl
    have hstart : ∀ x ∈ (PlotTable.empty h).due (X := X), x.1 = (0.1 : τ) := by
      intro x hx
      obtain ⟨k, -, rfl⟩ := List.mem_map.mp hx
      rfl
    rw [scripts_init, hdue]
    rcases lt_or_ge c.duration 0.1 with hlt | hle
    · rw [enqueue_of_lt fun x hx => hlt.trans_eq (hstart x hx).symm]
      exact .first rfl
    · rw [enqueue_of_le fun x hx => (hstart x hx).trans_le hle]
      exact waiting_of_nil rfl

theorem plotted_run (two : 2 ≤ c.numbSrc) (grows : ∀ t : τ, t ≤ t + 0.03)
    (run : c.PlotRun net before after es s) : ∃ T : PlotTable c.numbSrc, Plotted c T es s := by
  apply run.induct (fun es s => ∃ T : PlotTable c.numbSrc, Plotted c T es s)
  · exact ⟨_, plotted_init (by omega) net before after⟩
  · intro es s e u _ ih hstep
    obtain ⟨T, hT⟩ := ih
    exact plotted_step two grows hT hstep

/-- The file is always a table of complete rows and a row of which the first
processes have written, and `finish` finds complete rows only. -/
theorem plotWindow_rows (two : 2 ≤ c.numbSrc) (grows : ∀ t : τ, t ≤ t + 0.03)
    (run : c.PlotRun net before after es s) :
    ∃ T : PlotTable c.numbSrc, firings es = T.firings ∧ s.file = T.text c.timeText ∧
      ∀ t rest, s.queue.entries = (t, .finish) :: rest → T.current = [] := by
  obtain ⟨T, hT⟩ := plotted_run two grows run
  refine ⟨T, hT.fired, hT.text, ?_⟩
  intro t rest hentries
  have hwait := hT.waiting
  rw [PlotSim.scripts, hentries, List.filter_cons_of_pos rfl] at hwait
  exact hwait.current_of_finish

end Runs

/-- Two sources with windows 1 and 2, and nothing else. -/
def twoSources : PlotSetup ℚ Unit Empty where
  numbSrc := 2
  duration := 50
  timeText t := if t = 0.1 then "0.1" else "0.13"
  cwnd _ j := if j = 1 then "1" else "2"
  act x := nomatch x

def twoSourcesHistory : List (PlotLabel ℚ Empty) :=
  [.plotWindow ⟨0.1, 1, "1"⟩, .plotWindow ⟨0.1, 2, "2"⟩, .plotWindow ⟨0.13, 1, "1"⟩]

theorem exists_run_twoSources : ∃ s, twoSources.PlotRun () [] [] twoSourcesHistory s ∧
    s.file = "0.1\t1\t2 \n0.13\t1\t" := by
  let s₀ := twoSources.init () [] []
  let s₁ := twoSources.plotWindow { s₀ with now := 0.1, queue := s₀.queue.tail } 1 1
  let s₂ := twoSources.plotWindow { s₁ with now := 0.1, queue := s₁.queue.tail } 2 2
  let s₃ := twoSources.plotWindow { s₂ with now := 0.13, queue := s₂.queue.tail } 1 1
  have h0 : s₀.queue.entries =
      [(0.1, .plotWindow 1 1), (0.1, .plotWindow 2 2), (50, .finish)] := by
    norm_num [s₀, PlotSetup.init, PlotSetup.others, PlotSetup.plots, twoSources, Fifo.insertAll,
      Fifo.insert, Fifo.empty, enqueue, List.range']
  have h1 : s₁.queue.entries =
      [(0.1, .plotWindow 2 2), (0.13, .plotWindow 1 1), (50, .finish)] := by
    change enqueue (0.1 + 0.03) _ s₀.queue.entries.tail = _
    norm_num [h0, enqueue]
  have h2 : s₂.queue.entries =
      [(0.13, .plotWindow 1 1), (0.13, .plotWindow 2 2), (50, .finish)] := by
    change enqueue (0.1 + 0.03) _ s₁.queue.entries.tail = _
    norm_num [h1, enqueue]
  have hfile : s₃.file = "0.1\t1\t2 \n0.13\t1\t" := by
    norm_num [s₃, s₂, s₁, s₀, PlotSetup.plotWindow, PlotSetup.init, plotText, twoSources]
    rfl
  have h01 : twoSources.next s₀ = some (.plotWindow ⟨0.1, 1, "1"⟩, s₁) := next_of_plotWindow h0
  have h12 : twoSources.next s₁ = some (.plotWindow ⟨0.1, 2, "2"⟩, s₂) := next_of_plotWindow h1
  have h23 : twoSources.next s₂ = some (.plotWindow ⟨0.13, 1, "1"⟩, s₃) := next_of_plotWindow h2
  exact ⟨s₃, (((Run.nil s₀).snoc h01).snoc h12).snoc h23, hfile⟩

theorem plotWindow_rows_twoSources : ∃ s, twoSources.PlotRun () [] [] twoSourcesHistory s ∧
    s.file = "0.1\t1\t2 \n0.13\t1\t" ∧ ∃ T : PlotTable twoSources.numbSrc,
      firings twoSourcesHistory = T.firings ∧ s.file = T.text twoSources.timeText ∧
        ∀ t rest, s.queue.entries = (t, .finish) :: rest → T.current = [] := by
  obtain ⟨s, hrun, hfile⟩ := exists_run_twoSources
  have grows : ∀ t : ℚ, t ≤ t + 0.03 := by
    intro t
    norm_num
  exact ⟨s, hrun, hfile, plotWindow_rows le_rfl grows hrun⟩

end LearnNs2
