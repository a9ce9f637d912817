import LearnNs2.Fairness.ChartRows

/-!
# The points that xgraph gets

The numbers of a row have two digits behind the point when they are read again, and
two digits are what the charts print, so nothing more is lost on the way to xgraph.
-/

namespace LearnNs2.Charts

open Awk Decimal

set_option autoImplicit false

namespace DataRow

variable (r : DataRow)

def udpArrivals : Option Point := some (rounded 2 r.rate, rounded 2 r.rate)

/-- A value that is zero gives no point. -/
def goodput (y : ℚ) : Option Point := if y = 0 then none else some (rounded 2 r.rate, y)

def udpGoodput : Option Point := r.goodput (rounded 2 r.udp)

def tcpGoodput : Option Point := r.goodput (rounded 2 r.tcp)

def aggregateGoodput : Option Point := r.goodput (rounded 2 r.udp + rounded 2 r.tcp)

end DataRow

/-- A chart has a point for each row that gives one, and goes from left to right. -/
structure Shows (rows : List DataRow) (pick : DataRow → Option Point) (c : List Point) :
    Prop where
  perm : c.Perm (rows.filterMap pick)
  sorted : c.Pairwise fun a b => a.1 ≤ b.1

section Points

/-- A point that a chart prints as it is. -/
structure Placed (a : Point) : Prop where
  x_nonneg : 0 ≤ a.1
  y_nonneg : 0 ≤ a.2
  x_kept : rounded 2 a.1 = a.1
  y_kept : rounded 2 a.2 = a.2

def pointLine (a : Point) : String := String.ofList (line [a.1, a.2])

variable {a : Point}

theorem Placed.nonneg (h : Placed a) : ∀ q ∈ [a.1, a.2], 0 ≤ q := by
  intro q hq
  rcases List.mem_cons.mp hq with rfl | hq
  · exact h.x_nonneg
  · rw [List.mem_singleton.mp hq]
    exact h.y_nonneg

theorem point?_pointLine (h : Placed a) : point? (pointLine a) = some a := by
  have hx := reads_cell h.x_nonneg
  have hy := reads_cell h.y_nonneg
  rw [point?, pointLine, words_line h.nonneg]
  simp [hx.numeric, hy.numeric, hx.value, hy.value, h.x_kept, h.y_kept]

theorem sortNumber_pointLine (h : Placed a) : sortNumber (pointLine a) = a.1 := by
  rw [pointLine, sortNumber_line h.x_nonneg, h.x_kept]

theorem newline_notMem_pointLine (h : Placed a) : '\n' ∉ (pointLine a).toList :=
  notMem_line h.nonneg rfl (by decide) (by decide)

theorem pointLine_ne_empty (h : Placed a) : pointLine a ≠ "" := by
  intro hnil
  have hpoint := point?_pointLine h
  rw [hnil] at hpoint
  cases hpoint

theorem title?_pointLine (h : Placed a) : title? (pointLine a) = none := by
  have hquote : '"' ∉ (pointLine a).toList := notMem_line h.nonneg rfl (by decide) (by decide)
  unfold title?
  split
  · rename_i name hname
    rw [hname] at hquote
    exact absurd List.mem_cons_self hquote
  · rfl

/-- Sorting the lines of a chart sorts its points. -/
theorem exists_sorted {pts : List Point} (h : ∀ a ∈ pts, Placed a) :
    ∃ c : List Point, sortN (pts.map pointLine) = c.map pointLine ∧ c.Perm pts ∧
      c.Pairwise fun a b => a.1 ≤ b.1 := by
  have hcomp := congrFun₂ (List.eq_map_comp_perm pointLine) (sortN (pts.map pointLine)) pts
  obtain ⟨c, hc, hpts⟩ := hcomp.mpr (sortN_perm (pts.map pointLine))
  have hsorted := sortN_sorted (pts.map pointLine)
  rw [hc, List.pairwise_map] at hsorted
  refine ⟨c, hc, hpts, hsorted.imp_of_mem ?_⟩
  intro a b ha hb hle
  rwa [sortNumber_pointLine (h a (hpts.mem_iff.mp ha)),
    sortNumber_pointLine (h b (hpts.mem_iff.mp hb))] at hle

end Points

section Programs

variable {general : ℕ → ℚ → List Char} {r : DataRow}

theorem DataRow.numbers_nonneg (r : DataRow) : ∀ q ∈ r.numbers, 0 ≤ q := by
  simp [numbers, r.rate_nonneg, r.udp_nonneg, r.tcp_nonneg, r.fraction_nonneg]

def DataRow.text (r : DataRow) : String := String.ofList (line r.numbers)

theorem field_text (r : DataRow) (n : ℕ) :
    field r.text (n + 1) = (r.numbers.map fun q => String.ofList (cell q))[n]?.elim .uninit .input :=
  field_line r.numbers_nonneg n

theorem toNum_cell {q : ℚ} (hq : 0 ≤ q) :
    (Value.input (String.ofList (cell q))).toNum = rounded 2 q := (reads_cell hq).value

theorem eq_zero_cell {q : ℚ} (hq : 0 ≤ q) :
    (Value.input (String.ofList (cell q))).eq (.num 0) ↔ rounded 2 q = 0 := by
  have hnumeric : (Value.input (String.ofList (cell q))).numeric := (reads_cell hq).numeric
  rw [eq_iff_toNum hnumeric rfl, toNum_cell hq, toNum_num]

/-- What a program prints for a row is the point of the row. -/
def Draws (general : ℕ → ℚ → List Char) (awkCode : String → List Print)
    (pick : DataRow → Option Point) : Prop :=
  ∀ r : DataRow, (∀ a ∈ pick r, Placed a) ∧
    (awkCode r.text).map (printed general) = (pick r).toList.map fun a => pointLine a ++ "\n"

theorem placed_of_kept {x y : ℚ} (hx : 0 ≤ x) (hy : 0 ≤ y) (hkept : rounded 2 y = y) :
    Placed (rounded 2 x, y) :=
  ⟨rounded_nonneg hx, hy, rounded_rounded 2 x, hkept⟩

theorem placed_goodput {y : ℚ} (hy : 0 ≤ y) (hkept : rounded 2 y = y) :
    ∀ a ∈ r.goodput y, Placed a := by
  intro a ha
  rw [DataRow.goodput, Option.mem_def] at ha
  split_ifs at ha
  cases ha
  exact placed_of_kept r.rate_nonneg hy hkept

theorem draws_awkCode1 : Draws general awkCode1 DataRow.udpArrivals := by
  intro r
  have hfield : field r.text 1 = .input (String.ofList (cell r.rate)) := field_text r 0
  have hrate := rounded_nonneg (p := 2) r.rate_nonneg
  constructor
  · rintro a ⟨⟩
    exact placed_of_kept r.rate_nonneg hrate (rounded_rounded 2 r.rate)
  · rw [awkCode1, hfield, List.map_singleton, printed_point, toNum_cell r.rate_nonneg]
    rfl

theorem draws_columnCode {n : ℕ} {y : DataRow → ℚ} (hy : ∀ r, 0 ≤ y r)
    (hfield : ∀ r, field r.text n = .input (String.ofList (cell (y r)))) :
    Draws general (columnCode n) fun r => r.goodput (rounded 2 (y r)) := by
  intro r
  have hfirst : field r.text 1 = .input (String.ofList (cell r.rate)) := field_text r 0
  refine ⟨placed_goodput (rounded_nonneg (hy r)) (rounded_rounded 2 (y r)), ?_⟩
  dsimp only
  rw [columnCode, hfirst, hfield, DataRow.goodput]
  by_cases hzero : rounded 2 (y r) = 0
  · rw [if_pos hzero, if_pos ((eq_zero_cell (hy r)).mpr hzero)]
    rfl
  · rw [if_neg hzero, if_neg fun h => hzero ((eq_zero_cell (hy r)).mp h), List.map_singleton,
      printed_point, toNum_cell r.rate_nonneg, toNum_cell (hy r)]
    rfl

theorem draws_awkCode2 : Draws general awkCode2 DataRow.udpGoodput :=
  draws_columnCode (fun r => r.udp_nonneg) fun r => field_text r 1

theorem draws_awkCode3 : Draws general awkCode3 DataRow.tcpGoodput :=
  draws_columnCode (fun r => r.tcp_nonneg) fun r => field_text r 2

theorem draws_awkCode4 : Draws general awkCode4 DataRow.aggregateGoodput := by
  intro r
  have hfirst : field r.text 1 = .input (String.ofList (cell r.rate)) := field_text r 0
  have hudp : (field r.text 2).toNum = rounded 2 r.udp := by
    rw [field_text r 1]
    exact toNum_cell r.udp_nonneg
  have htcp : (field r.text 3).toNum = rounded 2 r.tcp := by
    rw [field_text r 2]
    exact toNum_cell r.tcp_nonneg
  have hnonneg : 0 ≤ rounded 2 r.udp + rounded 2 r.tcp :=
    add_nonneg (rounded_nonneg r.udp_nonneg) (rounded_nonneg r.tcp_nonneg)
  refine ⟨placed_goodput hnonneg (rounded_add 2 r.udp r.tcp), ?_⟩
  have heq : ∀ q : ℚ, (Value.num q).eq (.num 0) ↔ q = 0 := by
    intro q
    rw [eq_iff_toNum rfl rfl, toNum_num, toNum_num]
  rw [awkCode4, hfirst, hudp, htcp, DataRow.aggregateGoodput, DataRow.goodput]
  by_cases hzero : rounded 2 r.udp + rounded 2 r.tcp = 0
  · rw [if_pos hzero, if_pos ((heq _).mpr hzero)]
    rfl
  · rw [if_neg hzero, if_neg fun h => hzero ((heq _).mp h), List.map_singleton, printed_point,
      toNum_cell r.rate_nonneg]
    rfl

end Programs

section Files

variable {general : ℕ → ℚ → List Char} {awkCode : String → List Print}
  {pick : DataRow → Option Point}

theorem drawn_eq (h : Draws general awkCode pick) (rows : List DataRow) :
    ((rows.map DataRow.text).flatMap awkCode).map (printed general) =
      ((rows.filterMap pick).map pointLine).map fun line => line ++ "\n" := by
  induction rows with
  | nil => rfl
  | cons r rows ih =>
    have hr := (h r).2
    rw [List.map_cons, List.flatMap_cons, List.map_append, ih, hr, List.filterMap_cons]
    cases pick r with
    | none => rfl
    | some a => rfl

theorem records_rows (rows : List DataRow) :
    records (unlines (rows.map DataRow.text)) = rows.map DataRow.text := by
  apply records_unlines
  intro l hl
  obtain ⟨r, -, rfl⟩ := List.mem_map.mp hl
  exact notMem_line r.numbers_nonneg rfl (by decide) (by decide)

theorem exists_chart_eq (h : Draws general awkCode pick) (rows : List DataRow) :
    ∃ c, chart general awkCode (unlines (rows.map DataRow.text)) = unlines (c.map pointLine) ∧
      Shows rows pick c ∧ ∀ a ∈ c, Placed a := by
  have hplaced : ∀ a ∈ rows.filterMap pick, Placed a := by
    intro a ha
    obtain ⟨r, -, hr⟩ := List.mem_filterMap.mp ha
    exact (h r).1 a hr
  have hout : records (unlines ((rows.filterMap pick).map pointLine)) =
      (rows.filterMap pick).map pointLine := by
    apply records_unlines
    intro l hl
    obtain ⟨a, ha, rfl⟩ := List.mem_map.mp hl
    exact newline_notMem_pointLine (hplaced a ha)
  obtain ⟨c, hc, hperm, hsorted⟩ := exists_sorted hplaced
  refine ⟨c, ?_, ⟨hperm, hsorted⟩, fun a ha => hplaced a (hperm.mem_iff.mp ha)⟩
  have hdrawn := drawn_eq h rows
  unfold unlines at hout
  rw [chart, records_rows, hdrawn, hout, hc]

theorem collect_rows {xs : List Experiment} {rows : List DataRow}
    (h : rows.map DataRow.print = xs.flatMap Experiment.rows) :
    collect general "" xs = unlines (rows.map DataRow.text) := by
  rw [collect_eq, ← h, String.empty_append, unlines, List.map_map, List.map_map]
  apply congrArg
  apply List.map_congr_left
  intro r _
  exact printed_print general r

/-- The lines of a set. -/
def setLines (name : String) (c : List Point) : List String := ("\"" ++ name) :: c.map pointLine

variable {name : String} {c : List Point}

theorem read_points (h : ∀ a ∈ c, Placed a) :
    (c.map pointLine).findSome? title? = none ∧ (c.map pointLine).filterMap point? = c := by
  induction c with
  | nil => exact ⟨rfl, rfl⟩
  | cons a c ih =>
    obtain ⟨htitle, hpoints⟩ := ih fun b hb => h b (List.mem_cons_of_mem a hb)
    have ha := h a List.mem_cons_self
    constructor
    · rw [List.map_cons, List.findSome?_cons, title?_pointLine ha]
      exact htitle
    · rw [List.map_cons, List.filterMap_cons, point?_pointLine ha, hpoints]

theorem read_setLines (name : String) (h : ∀ a ∈ c, Placed a) (hname : point? ("\"" ++ name) = none) :
    (setLines name c).findSome? title? = some name ∧ (setLines name c).filterMap point? = c := by
  have htitle : title? ("\"" ++ name) = some name := by
    have hchars : ("\"" ++ name).toList = '"' :: name.toList := String.toList_append
    rw [title?, hchars]
    exact congrArg some String.ofList_toList
  constructor
  · rw [setLines, List.findSome?_cons, htitle]
  · rw [setLines, List.filterMap_cons, hname, (read_points h).2]

theorem newline_notMem_intercalate {gs : List (List String)}
    (h : ∀ ls ∈ gs, ∀ l ∈ ls, '\n' ∉ l.toList) : ∀ l ∈ [""].intercalate gs, '\n' ∉ l.toList := by
  induction gs with
  | nil => nofun
  | cons ls gs ih =>
    have htail := ih fun ls' hls => h ls' (List.mem_cons_of_mem ls hls)
    cases gs with
    | nil =>
      rw [List.intercalate_singleton]
      exact h ls List.mem_cons_self
    | cons ls' gs =>
      intro l hl
      rw [List.intercalate_cons_cons, List.append_assoc] at hl
      rcases List.mem_append.mp hl with hfirst | hrest
      · exact h ls List.mem_cons_self l hfirst
      · rcases List.mem_append.mp hrest with hempty | hlater
        · rw [List.mem_singleton.mp hempty]
          simp
        · exact htail l hlater

/-- Sets that stand apart are read as they are. -/
theorem readSets_unlines {gs : List (List String)} (hne : gs ≠ [])
    (h : ∀ ls ∈ gs, ∀ l ∈ ls, l ≠ "" ∧ '\n' ∉ l.toList) :
    readSets (unlines ([""].intercalate gs)) =
      gs.map fun ls => (ls.findSome? title?, ls.filterMap point?) := by
  have hnew := newline_notMem_intercalate fun ls hls l hl => (h ls hls l hl).2
  have hempty : ∀ ls ∈ gs, "" ∉ ls := by
    intro ls hls hmem
    exact (h ls hls "" hmem).1 rfl
  rw [readSets, records_unlines hnew, List.splitOn_intercalate "" hempty hne]

theorem setLines_line (h : ∀ a ∈ c, Placed a) (hname : '\n' ∉ name.toList) :
    ∀ l ∈ setLines name c, l ≠ "" ∧ '\n' ∉ l.toList := by
  intro l hl
  rcases List.mem_cons.mp hl with rfl | hl
  · constructor
    · simp
    · simpa using hname
  · obtain ⟨a, ha, rfl⟩ := List.mem_map.mp hl
    exact ⟨pointLine_ne_empty (h a ha), newline_notMem_pointLine (h a ha)⟩

end Files

section Main

variable {general : ℕ → ℚ → List Char} {psfile : String}

def options (psfile : String) : List String := ["TitleText: " ++ psfile, "Device: Postscript"]

theorem read_options (psfile : String) :
    (options psfile).findSome? title? = none ∧ (options psfile).filterMap point? = [] := by
  have hchars : ("TitleText: " ++ psfile).toList = "TitleText: ".toList ++ psfile.toList :=
    String.toList_append
  have htitle : title? ("TitleText: " ++ psfile) = none := by
    rw [title?, hchars]
    rfl
  have hword : isWord "TitleText:" := by decide
  have hsplit : "TitleText: " ++ psfile = "TitleText:" ++ String.singleton ' ' ++ psfile := rfl
  have hpoint : point? ("TitleText: " ++ psfile) = none := by
    rw [point?, hsplit, words_append hword rfl]
    split
    · rename_i x y hwords
      obtain ⟨rfl, -⟩ := List.cons.inj hwords
      rfl
    · rfl
  have hdevice : point? "Device: Postscript" = none := by decide +kernel
  constructor
  · rw [options, List.findSome?_cons, htitle]
    rfl
  · rw [options, List.filterMap_cons, hpoint]
    simp [hdevice]

theorem options_line (h : '\n' ∉ psfile.toList) :
    ∀ l ∈ options psfile, l ≠ "" ∧ '\n' ∉ l.toList := by
  intro l hl
  rcases List.mem_cons.mp hl with rfl | hl
  · constructor
    · simp
    · simpa using h
  · rw [List.mem_singleton.mp hl]
    exact ⟨by decide, by decide⟩

theorem finish_eq {datafile : String} {c1 c2 c3 c4 : List Point}
    (h1 : chart general awkCode1 datafile = unlines (c1.map pointLine))
    (h2 : chart general awkCode2 datafile = unlines (c2.map pointLine))
    (h3 : chart general awkCode3 datafile = unlines (c3.map pointLine))
    (h4 : chart general awkCode4 datafile = unlines (c4.map pointLine)) :
    finish general psfile datafile = unlines ([""].intercalate
      [options psfile ++ setLines "UdpArrivals" c1, setLines "UdpGoodput" c2,
        setLines "TcpGoodput" c3, setLines "AggregateGoodput" c4]) := by
  have hoptions : puts ("TitleText: " ++ psfile) ++ puts "Device: Postscript" =
      unlines (options psfile) := by simp [options, puts, unlines]
  have hfirst : unlines (setLines "UdpArrivals" c1) =
      puts "\"UdpArrivals" ++ unlines (c1.map pointLine) := unlines_cons _ _
  have hlater : ∀ name c, unlines ("" :: setLines name c) =
      puts ("\n" ++ ("\"" ++ name)) ++ unlines (c.map pointLine) := by
    intro name c
    rw [setLines, unlines_cons, unlines_cons, puts, String.empty_append]
    simp only [String.append_assoc]
  rw [finish, h1, h2, h3, h4, hoptions]
  rw [List.intercalate_cons_cons, List.intercalate_cons_cons, List.intercalate_cons_cons,
    List.intercalate_singleton]
  simp only [List.append_assoc, List.singleton_append, unlines_append, hfirst]
  rw [← List.cons_append, unlines_append, hlater, ← List.cons_append, unlines_append, hlater,
    hlater]
  simp only [String.append_assoc]
  rfl

/-- Whatever experiments `append` has collected, xgraph gets four sets of points, and
these are the points of the rows as they stand in the collected file. -/
theorem charts_show_rows (general : ℕ → ℚ → List Char) {psfile : String}
    (h : '\n' ∉ psfile.toList) (xs : List Experiment) :
    ∃ rows : List DataRow, rows.map DataRow.print = xs.flatMap Experiment.rows ∧
      ∃ c1 c2 c3 c4,
        readSets (finish general psfile (collect general "" xs)) =
          [(some "UdpArrivals", c1), (some "UdpGoodput", c2), (some "TcpGoodput", c3),
            (some "AggregateGoodput", c4)] ∧
        Shows rows DataRow.udpArrivals c1 ∧ Shows rows DataRow.udpGoodput c2 ∧
        Shows rows DataRow.tcpGoodput c3 ∧ Shows rows DataRow.aggregateGoodput c4 := by
  obtain ⟨rows, hrows⟩ := exists_dataRows xs
  obtain ⟨c1, h1, shows1, placed1⟩ := exists_chart_eq draws_awkCode1 rows
  obtain ⟨c2, h2, shows2, placed2⟩ := exists_chart_eq draws_awkCode2 rows
  obtain ⟨c3, h3, shows3, placed3⟩ := exists_chart_eq draws_awkCode3 rows
  obtain ⟨c4, h4, shows4, placed4⟩ := exists_chart_eq draws_awkCode4 rows
  refine ⟨rows, hrows, c1, c2, c3, c4, ?_, shows1, shows2, shows3, shows4⟩
  obtain ⟨htitle, hpoints⟩ := read_options psfile
  obtain ⟨title1, points1⟩ := read_setLines "UdpArrivals" placed1 (by decide +kernel)
  obtain ⟨title2, points2⟩ := read_setLines "UdpGoodput" placed2 (by decide +kernel)
  obtain ⟨title3, points3⟩ := read_setLines "TcpGoodput" placed3 (by decide +kernel)
  obtain ⟨title4, points4⟩ := read_setLines "AggregateGoodput" placed4 (by decide +kernel)
  have hline : ∀ ls ∈ [options psfile ++ setLines "UdpArrivals" c1, setLines "UdpGoodput" c2,
      setLines "TcpGoodput" c3, setLines "AggregateGoodput" c4],
      ∀ l ∈ ls, l ≠ "" ∧ '\n' ∉ l.toList := by
    intro ls hls
    simp only [List.mem_cons, List.not_mem_nil, or_false] at hls
    rcases hls with rfl | rfl | rfl | rfl
    · intro l hl
      rcases List.mem_append.mp hl with hl | hl
      · exact options_line h l hl
      · exact setLines_line placed1 (by decide) l hl
    · exact setLines_line placed2 (by decide)
    · exact setLines_line placed3 (by decide)
    · exact setLines_line placed4 (by decide)
  rw [collect_rows hrows, finish_eq h1 h2 h3 h4, readSets_unlines (by simp) hline]
  simp only [List.map_cons, List.map_nil, List.findSome?_append, List.filterMap_append, htitle,
    hpoints, title1, points1, title2, points2, title3, points3, title4, points4,
    Option.none_or, List.nil_append]

/-- Six CBR flows; the drops of the last flow are its number plus one. -/
def tenFlows : Experiment :=
  { Experiment.oneEach with
    cbrs := 6
    tcps := 4
    order := List.range 10
    cbrs_pos := Nat.one_le_ofNat
    order_perm := List.Perm.refl _
    record_flow := fun f _ => Experiment.monitorLine_isFlow f }

theorem tenFlows_rows_ne_nil : tenFlows.rows ≠ [] := by
  obtain ⟨s, hs, -, hprinted, hrows⟩ := tenFlows.rows_eq
  rw [hrows, Experiment.run_with_limits (c := fun _ => 10) (fun f _ => rfl) hs, hprinted,
    List.nil_append]
  intro hnil
  have hno := (Experiment.rowsFrom_eq_nil_iff tenFlows (fun _ => 10) _ _).mp hnil
  exact hno 9 (by decide) rfl

theorem charts_show_rows_tenFlows : tenFlows.rows ≠ [] ∧
    ∃ rows : List DataRow, rows.map DataRow.print = [tenFlows].flatMap Experiment.rows ∧
      ∃ c1 c2 c3 c4,
        readSets (finish (fun _ _ => []) "Fairness.ps"
            (collect (fun _ _ => []) "" [tenFlows])) =
          [(some "UdpArrivals", c1), (some "UdpGoodput", c2), (some "TcpGoodput", c3),
            (some "AggregateGoodput", c4)] ∧
        Shows rows DataRow.udpArrivals c1 ∧ Shows rows DataRow.udpGoodput c2 ∧
        Shows rows DataRow.tcpGoodput c3 ∧ Shows rows DataRow.aggregateGoodput c4 :=
  ⟨tenFlows_rows_ne_nil, charts_show_rows _ (by decide) [tenFlows]⟩

end Main

end LearnNs2.Charts
