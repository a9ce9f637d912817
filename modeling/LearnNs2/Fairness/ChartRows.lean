import LearnNs2.Fairness.Charts

/-!
# The rows that are collected

A line of the collected file is four numbers of two digits behind the point, and
none of them is negative. The words of a line are its numbers.
-/

namespace LearnNs2.Charts

open Awk Decimal

set_option autoImplicit false

/-- A row that `append` has printed. -/
structure DataRow where
  rate : ℚ
  udp : ℚ
  tcp : ℚ
  fraction : ℚ
  rate_nonneg : 0 ≤ rate
  udp_nonneg : 0 ≤ udp
  tcp_nonneg : 0 ≤ tcp
  fraction_nonneg : 0 ≤ fraction

def DataRow.numbers (r : DataRow) : List ℚ := [r.rate, r.udp, r.tcp, r.fraction]

def DataRow.print (r : DataRow) : Print :=
  ⟨"%8.2f %8.2f %8.2f %8.2f\n", [.num r.rate, .num r.udp, .num r.tcp, .num r.fraction]⟩

/-- `%8.2f` without the blanks in front. -/
def cell (q : ℚ) : List Char := fixedText 2 q

def line : List ℚ → List Char
  | [] => []
  | [q] => Printf.pad 8 (cell q)
  | q :: qs => Printf.pad 8 (cell q) ++ ' ' :: line qs

section Lines

variable {general : ℕ → ℚ → List Char} {q : ℚ} {qs : List ℚ}

theorem reads_cell (hq : 0 ≤ q) : Reads (String.ofList (cell q)) (rounded 2 q) :=
  reads_fixedText (by decide) hq

theorem words_padded (k : ℕ) (cs : List Char) :
    words (String.ofList (List.replicate k ' ' ++ cs)) = words (String.ofList cs) := by
  induction k with
  | zero => rfl
  | succ k ih =>
    rw [List.replicate_succ, List.cons_append, String.ofList_cons, words_blank rfl, ih]

/-- The words of a line are its numbers. -/
theorem words_line (h : ∀ q ∈ qs, 0 ≤ q) :
    words (String.ofList (line qs)) = qs.map fun q => String.ofList (cell q) := by
  induction qs using line.induct with
  | case1 => rfl
  | case2 q =>
    rw [line, Printf.pad, words_padded, words_of_isWord (reads_cell (h q List.mem_cons_self)).word]
    rfl
  | case3 q qs hne ih =>
    have hword := (reads_cell (h q List.mem_cons_self)).word
    have htail := ih fun x hx => h x (List.mem_cons_of_mem q hx)
    rw [line.eq_3 q qs hne, Printf.pad, List.append_assoc, words_padded, String.ofList_append,
      String.ofList_cons, ← String.append_assoc, words_append hword rfl, htail, List.map_cons]

theorem cell_chars (hq : 0 ≤ q) {c : Char} (hc : c ∈ cell q) : c.isDigit ∨ c = '.' := by
  rw [cell, fixedText_of_nonneg (by decide) hq] at hc
  exact withPoint_chars hc

theorem pad_chars (hq : 0 ≤ q) {c : Char} (hc : c ∈ Printf.pad 8 (cell q)) :
    c.isDigit ∨ c = '.' ∨ c = ' ' := by
  rcases List.mem_append.mp hc with hblank | hcell
  · exact Or.inr (Or.inr (List.mem_replicate.mp hblank).2)
  · rcases cell_chars hq hcell with hdigit | hpoint
    · exact Or.inl hdigit
    · exact Or.inr (Or.inl hpoint)

theorem line_chars (h : ∀ q ∈ qs, 0 ≤ q) {c : Char} (hc : c ∈ line qs) :
    c.isDigit ∨ c = '.' ∨ c = ' ' := by
  induction qs using line.induct with
  | case1 => cases hc
  | case2 q => exact pad_chars (h q List.mem_cons_self) hc
  | case3 q qs hne ih =>
    rw [line.eq_3 q qs hne] at hc
    rcases List.mem_append.mp hc with hpad | hrest
    · exact pad_chars (h q List.mem_cons_self) hpad
    · rcases List.mem_cons.mp hrest with hblank | htail
      · exact Or.inr (Or.inr hblank)
      · exact ih (fun x hx => h x (List.mem_cons_of_mem q hx)) htail

theorem notMem_line (h : ∀ q ∈ qs, 0 ≤ q) {c : Char} (hdigit : c.isDigit = false) (hpoint : c ≠ '.')
    (hblank : c ≠ ' ') : c ∉ (String.ofList (line qs)).toList := by
  rw [String.toList_ofList]
  intro hc
  rcases line_chars h hc with hd | hp | hb
  · rw [hdigit] at hd
    cases hd
  · exact hpoint hp
  · exact hblank hb

theorem field_line (h : ∀ q ∈ qs, 0 ≤ q) (n : ℕ) :
    field (String.ofList (line qs)) (n + 1) =
      (qs.map fun q => String.ofList (cell q))[n]?.elim .uninit .input := by
  rw [field, words_line h]

theorem sortNumber_line (hq : 0 ≤ q) (q' : ℚ) (qs : List ℚ) :
    sortNumber (String.ofList (line (q :: q' :: qs))) = rounded 2 q := by
  have hnumber := sortNumber_fixedText (p := 2) (by decide) hq (8 - (cell q).length)
    (line (q' :: qs))
  rw [line.eq_3 q (q' :: qs) (by simp), Printf.pad, List.append_assoc]
  exact hnumber

end Lines

section Printing

variable (general : ℕ → ℚ → List Char)

theorem printed_point (x y : Value) :
    printed general (point x y) = String.ofList (line [x.toNum, y.toNum]) ++ "\n" := by
  have hpieces : Printf.pieces "%8.2f %8.2f\n" =
      [.conv 8 (.f 2), .lit ' ', .conv 8 (.f 2), .lit '\n'] := by rfl
  have hend : "\n" = String.ofList ['\n'] := rfl
  rw [printed, point, hpieces, hend, ← String.ofList_append]
  simp [Printf.print, Printf.render, floats, line, cell]

theorem printed_print (r : DataRow) :
    printed general r.print =
      String.ofList (line r.numbers) ++ "\n" := by
  have hpieces : Printf.pieces "%8.2f %8.2f %8.2f %8.2f\n" =
      [.conv 8 (.f 2), .lit ' ', .conv 8 (.f 2), .lit ' ', .conv 8 (.f 2), .lit ' ',
        .conv 8 (.f 2), .lit '\n'] := by rfl
  have hend : "\n" = String.ofList ['\n'] := rfl
  rw [printed, DataRow.print, hpieces, hend, ← String.ofList_append]
  simp [Printf.print, Printf.render, floats, line, cell, DataRow.numbers]

end Printing

section Rows

variable {x : Experiment}

theorem exists_rate_of_mem (c : Nat → Nat) {l : List Nat} {r : ℚ} (hr : 0 ≤ r) {p : Print}
    (hp : p ∈ x.rowsFrom c r l) : ∃ rate, 0 ≤ rate ∧ p = x.rowWith rate := by
  induction l generalizing r with
  | nil => cases hp
  | cons f l ih =>
    have hstop := x.stop_pos
    have hshare : 0 ≤ x.share f := by
      unfold Experiment.share
      positivity
    rw [Experiment.rowsFrom] at hp
    split_ifs at hp with hlt hrow
    · rcases List.mem_append.mp hp with hfirst | hrest
      · exact ⟨_, add_nonneg hr hshare, List.mem_singleton.mp hfirst⟩
      · exact ih (add_nonneg hr hshare) hrest
    · exact ih (add_nonneg hr hshare) hp
    · exact ih hr hp

theorem exists_rate (x : Experiment) {p : Print} (hp : p ∈ x.rows) :
    ∃ rate, 0 ≤ rate ∧ p = x.rowWith rate := by
  obtain ⟨s, hs, hrate, hprinted, hrows⟩ := x.rows_eq
  have hlimits : ∀ c : Nat → Nat, (∀ f, x.limit f = some (c f)) →
      ∃ rate, 0 ≤ rate ∧ p = x.rowWith rate := by
    intro c hc
    rw [hrows, Experiment.run_with_limits (fun f _ => hc f) hs, hprinted, hrate,
      List.nil_append] at hp
    exact exists_rate_of_mem c le_rfl hp
  by_cases h4 : x.cbrs = 4
  · exact hlimits x.pktA fun f => by simp [Experiment.limit, AppendAwk.column, h4]
  · by_cases h6 : x.cbrs = 6
    · exact hlimits x.pktD fun f => by simp [Experiment.limit, AppendAwk.column, h6]
    · rw [x.rows_eq_nil fun f => by simp [Experiment.limit, AppendAwk.column, h4, h6]] at hp
      cases hp

theorem exists_dataRow (x : Experiment) {p : Print} (hp : p ∈ x.rows) :
    ∃ r : DataRow, r.print = p := by
  obtain ⟨rate, hrate, rfl⟩ := exists_rate x hp
  have hstop := x.stop_pos
  have hudp : 0 ≤ ((List.range x.cbrs).map fun f =>
      (x.received f * x.cbrSize * 8 / 1000 : ℚ)).sum / atof x.stop := by
    apply div_nonneg _ hstop.le
    apply List.sum_nonneg
    intro q hq
    obtain ⟨f, -, rfl⟩ := List.mem_map.mp hq
    positivity
  have htcp : 0 ≤ (x.tcpFids.map fun f =>
      (x.acked f * x.packetSize f * 8 / 1000 : ℚ)).sum / atof x.stop := by
    apply div_nonneg _ hstop.le
    apply List.sum_nonneg
    intro q hq
    obtain ⟨f, -, rfl⟩ := List.mem_map.mp hq
    positivity
  exact ⟨⟨rate, _, _, _, hrate, hudp, htcp, by positivity⟩, rfl⟩

/-- What is collected is the rows of all the experiments. -/
theorem exists_dataRows (xs : List Experiment) :
    ∃ rows : List DataRow, rows.map DataRow.print = xs.flatMap Experiment.rows := by
  have hrange : xs.flatMap Experiment.rows ∈ Set.range (List.map DataRow.print) := by
    rw [Set.range_list_map]
    intro p hp
    obtain ⟨x, -, hx⟩ := List.mem_flatMap.mp hp
    exact exists_dataRow x hx
  exact hrange

theorem collect_eq (general : ℕ → ℚ → List Char) (datafile : String) (xs : List Experiment) :
    collect general datafile xs =
      datafile ++ String.join ((xs.flatMap Experiment.rows).map (printed general)) := by
  induction xs generalizing datafile with
  | nil => simp [collect]
  | cons x xs ih =>
    have hstep : collect general datafile (x :: xs) =
        collect general (append general datafile x.cbrs x.file) xs := rfl
    rw [hstep, ih, append, List.flatMap_cons, List.map_append, String.join_append,
      String.append_assoc]
    rfl

end Rows

end LearnNs2.Charts
