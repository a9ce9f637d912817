import LearnNs2.Fairness.Rows

/-!
# Do the writer and the reader agree?

Between Tcl braces `$cbrs` is a field of the class line: with four CBR flows the
count of arriving packets, with six that of dropped ones, and otherwise a word,
the flow number itself or nothing. A row comes out when that count happens to
be the flow number plus one, and never for any other number of flows.
-/

namespace LearnNs2

open Awk Decimal

set_option autoImplicit false

namespace AppendAwk

section Class

variable (f a d : Nat)

theorem class_words : ∀ w ∈ ["class", decimal f, "arriving_pkts", decimal a, "dropped_pkts",
    decimal d], isWord w := by
  have h1 : isWord "class" := by decide
  have h3 : isWord "arriving_pkts" := by decide
  have h5 : isWord "dropped_pkts" := by decide
  simp [h1, h3, h5, isWord_decimal]

theorem class_field (k : Nat) :
    field (classLine (decimal f) (decimal a) (decimal d)) (k + 1) =
      ["class", decimal f, "arriving_pkts", decimal a, "dropped_pkts", decimal d][k]?.elim
        .uninit .input :=
  field_unwords (class_words f a d) k

/-- The count that `$cbrs` names on a class line, if it names one. -/
def column (k a d : Nat) : Option Nat :=
  if k = 4 then some a else if k = 6 then some d else none

/-- On a class line `$cbrs` is a count, or reads as the number of the flow or zero. -/
theorem class_dollar {k : Nat} (hk : 1 ≤ k) :
    let v := field (classLine (decimal f) (decimal a) (decimal d)) k
    (∃ c, column k a d = some c ∧ v = .input (decimal c)) ∨
      (column k a d = none ∧ (v.toNum = 0 ∨ v.toNum = f)) := by
  obtain ⟨j, rfl⟩ : ∃ j, k = j + 1 := ⟨k - 1, by omega⟩
  have h1 : atof "class" = 0 := by decide +kernel
  have h3 : atof "arriving_pkts" = 0 := by decide +kernel
  have h5 : atof "dropped_pkts" = 0 := by decide +kernel
  dsimp only
  rw [class_field]
  match j with
  | 0 => exact Or.inr ⟨rfl, Or.inl h1⟩
  | 1 => exact Or.inr ⟨rfl, Or.inr (toNum_decimal f)⟩
  | 2 => exact Or.inr ⟨rfl, Or.inl h3⟩
  | 3 => exact Or.inl ⟨a, rfl, rfl⟩
  | 4 => exact Or.inr ⟨rfl, Or.inl h5⟩
  | 5 => exact Or.inl ⟨d, rfl, rfl⟩
  | n + 6 => exact Or.inr ⟨by simp [column], Or.inl rfl⟩

end Class

end AppendAwk

namespace Experiment

open AppendAwk

variable (x : Experiment)

def share (f : Nat) : ℚ := x.pktA f * x.cbrSize * 8 / atof x.stop / 1000

/-- The row with the given arrival rate and the other columns as they should be. -/
def rowWith (rate : ℚ) : Print :=
  ⟨"%8.2f %8.2f %8.2f %8.2f\n", [.num rate,
    .num (((List.range x.cbrs).map fun f => (x.received f * x.cbrSize * 8 / 1000 : ℚ)).sum /
      atof x.stop),
    .num ((x.tcpFids.map fun f => (x.acked f * x.packetSize f * 8 / 1000 : ℚ)).sum / atof x.stop),
    .num (x.cbrs / (x.cbrs + x.tcps))]⟩

/-- The one row that `append` is meant to add. -/
def expectedRow : Print := x.rowWith ((List.range x.cbrs).map x.share).sum

def rows : List Print := AppendAwk.output x.cbrs x.file

def classText (f : Nat) : String :=
  classLine (decimal f) (decimal (x.pktA f)) (decimal (x.pktD f))

/-- The variables that class lines read and do not change. -/
structure Holding (s : Vars) : Prop where
  time : s.time = .input x.stop
  cbrs : s.cbrs = .input (decimal x.cbrs)
  size : (s.size.get (.num 0)).toNum = x.cbrSize
  row : ∀ rate, row { s with cbrrate := .num rate } = x.rowWith rate

/-- The number a class needs to be counted and to be the last one counted. -/
def limit (f : Nat) : Option Nat := column x.cbrs (x.pktA f) (x.pktD f)

variable {x} {s : Vars}

theorem class_fid (f : Nat) : field (x.classText f) 2 = .input (decimal f) := class_field f _ _ 1

theorem class_arrivals (f : Nat) : field (x.classText f) 4 = .input (decimal (x.pktA f)) :=
  class_field f _ _ 3

theorem class_dollarCbrs (h : s.cbrs = .input (decimal x.cbrs)) (f : Nat) :
    dollarCbrs (x.classText f) s = field (x.classText f) x.cbrs := by
  rw [dollarCbrs, h, toNum_decimal, Nat.floor_natCast]

theorem rowRule_class (h : s.cbrs = .input (decimal x.cbrs)) (f : Nat) :
    rowRule (x.classText f) s =
      if (Value.input (decimal f)).eq (.num ((field (x.classText f) x.cbrs).toNum - 1)) then
        { s with printed := s.printed ++ [row s] }
      else
        s := by
  unfold rowRule
  rw [class_dollarCbrs h, class_fid]

def counting (x : Experiment) (s : Vars) (f : Nat) : Vars :=
  { s with cbrrate := .num (s.cbrrate.toNum + x.share f) }

theorem rateRule_class (h : x.Holding s) (f : Nat) :
    rateRule (x.classText f) s =
      if (Value.input (decimal f)).lt (field (x.classText f) x.cbrs) then x.counting s f
      else s := by
  have htime : s.time.toNum = atof x.stop := by
    rw [h.time]
    rfl
  unfold rateRule
  rw [class_dollarCbrs h.cbrs, class_fid, class_arrivals, h.size, htime, toNum_decimal]
  rfl

theorem main_class_holding (h : x.Holding s) (f : Nat) :
    main s (x.classText f) = rowRule (x.classText f) (rateRule (x.classText f) s) := by
  have hstop : (Value.input x.stop).numeric := x.stop_numeric
  have hzero : (Value.num 0).numeric := rfl
  have hpos : (Value.num 0).lt s.time := by
    rw [h.time, lt_iff_toNum hzero hstop]
    exact x.stop_pos
  exact main_class (class_field f _ _ 0) (class_field f _ _ 2) hpos

theorem class_no_row {f : Nat} (hf : x.limit f = none) :
    (Value.input (decimal f)).eq (.num ((field (x.classText f) x.cbrs).toNum - 1)) = false := by
  apply Bool.eq_false_iff.mpr
  rw [ne_eq, eq_iff_toNum (numeric_decimal f) rfl, toNum_decimal, toNum_num]
  have hnonneg : (0 : ℚ) ≤ f := Nat.cast_nonneg f
  have hv := class_dollar f (x.pktA f) (x.pktD f) x.cbrs_pos
  change (∃ c, x.limit f = some c ∧ _) ∨ _ ∧ ((field (x.classText f) x.cbrs).toNum = 0 ∨
    (field (x.classText f) x.cbrs).toNum = f) at hv
  rcases hv with ⟨c, hc, -⟩ | ⟨-, hv | hv⟩
  · rw [hf] at hc
    cases hc
  · rw [hv]
    intro he
    linarith
  · rw [hv]
    intro he
    linarith

theorem main_of_no_limit (h : x.Holding s) {f : Nat} (hf : x.limit f = none) :
    ∃ rate, main s (x.classText f) = { s with cbrrate := rate } := by
  rw [main_class_holding h, rateRule_class h]
  by_cases hlt : (Value.input (decimal f)).lt (field (x.classText f) x.cbrs) = true
  · have hcbrs : (x.counting s f).cbrs = .input (decimal x.cbrs) := h.cbrs
    rw [if_pos hlt, rowRule_class hcbrs, class_no_row hf, if_neg Bool.false_ne_true]
    exact ⟨_, rfl⟩
  · rw [if_neg hlt, rowRule_class h.cbrs, class_no_row hf, if_neg Bool.false_ne_true]
    exact ⟨s.cbrrate, rfl⟩

/-- A class line with a count: it is counted below its count, and printed at it. -/
theorem main_of_limit (h : x.Holding s) {f c : Nat} (hf : x.limit f = some c) :
    main s (x.classText f) =
      if f < c then
        { x.counting s f with
          printed := s.printed ++
            if c = f + 1 then [x.rowWith (s.cbrrate.toNum + x.share f)] else [] }
      else
        s := by
  have hv : field (x.classText f) x.cbrs = .input (decimal c) := by
    rcases class_dollar f (x.pktA f) (x.pktD f) x.cbrs_pos with ⟨c', hc, hv⟩ | ⟨hc, -⟩
    · obtain rfl : c' = c := Option.some.inj (hc.symm.trans hf)
      exact hv
    · cases hc.symm.trans hf
  have hlt : (Value.input (decimal f)).lt (.input (decimal c)) ↔ f < c := by
    rw [lt_iff_toNum (numeric_decimal f) (numeric_decimal c), toNum_decimal, toNum_decimal,
      Nat.cast_lt]
  have heq : (Value.input (decimal f)).eq (.num ((Value.input (decimal c)).toNum - 1)) ↔
      c = f + 1 := by
    rw [eq_iff_toNum (numeric_decimal f) rfl, toNum_decimal, toNum_num, toNum_decimal,
      eq_sub_iff_add_eq, eq_comm]
    exact_mod_cast Iff.rfl
  rw [main_class_holding h, rateRule_class h, hv]
  by_cases hc : f < c
  · have hcbrs : (x.counting s f).cbrs = .input (decimal x.cbrs) := h.cbrs
    rw [if_pos (hlt.mpr hc), if_pos hc, rowRule_class hcbrs, hv]
    by_cases hrow : c = f + 1
    · rw [if_pos (heq.mpr hrow), if_pos hrow, counting, h.row]
    · rw [if_neg (fun he => hrow (heq.mp he)), if_neg hrow, List.append_nil]
      rfl
  · rw [if_neg (fun he => hc (hlt.mp he)), if_neg hc, rowRule_class h.cbrs, hv,
      if_neg (fun he => hc (by have := heq.mp he; omega))]

/-- The rows for a list of classes whose counts are `c`, with `cbrrate` at `r`. -/
def rowsFrom (x : Experiment) (c : Nat → Nat) : ℚ → List Nat → List Print
  | _, [] => []
  | r, f :: fs =>
    if f < c f then
      (if c f = f + 1 then [x.rowWith (r + x.share f)] else []) ++ x.rowsFrom c (r + x.share f) fs
    else
      x.rowsFrom c r fs

def counted (x : Experiment) (c : Nat → Nat) (l : List Nat) : ℚ :=
  ((l.filter fun f => f < c f).map x.share).sum

theorem holding_update (h : x.Holding s) (rate : Value) (printed : List Print) :
    x.Holding { s with cbrrate := rate, printed := printed } :=
  ⟨h.time, h.cbrs, h.size, h.row⟩

theorem run_without_limits {l : List Nat} (hl : ∀ f ∈ l, x.limit f = none) (h : x.Holding s) :
    (run main s (l.map x.classText)).printed = s.printed := by
  induction l generalizing s with
  | nil => rfl
  | cons f l ih =>
    obtain ⟨rate, hstep⟩ := main_of_no_limit h (hl f List.mem_cons_self)
    rw [List.map_cons, run_cons, hstep]
    exact ih (fun g hg => hl g (List.mem_cons_of_mem f hg)) (holding_update h rate s.printed)

theorem run_with_limits {c : Nat → Nat} {l : List Nat} (hl : ∀ f ∈ l, x.limit f = some (c f))
    (h : x.Holding s) :
    (run main s (l.map x.classText)).printed = s.printed ++ x.rowsFrom c s.cbrrate.toNum l := by
  induction l generalizing s with
  | nil => simp [rowsFrom]
  | cons f l ih =>
    have hrest := fun g hg => hl g (List.mem_cons_of_mem f hg)
    rw [List.map_cons, run_cons, main_of_limit h (hl f List.mem_cons_self), rowsFrom]
    by_cases hf : f < c f
    · rw [if_pos hf, if_pos hf]
      exact (ih hrest (holding_update h _ _)).trans (List.append_assoc _ _ _)
    · rw [if_neg hf, if_neg hf, ih hrest h]

theorem rowsFrom_append (x : Experiment) (c : Nat → Nat) (r : ℚ) (l m : List Nat) :
    x.rowsFrom c r (l ++ m) = x.rowsFrom c r l ++ x.rowsFrom c (r + x.counted c l) m := by
  induction l generalizing r with
  | nil => simp [rowsFrom, counted]
  | cons f l ih =>
    rw [List.cons_append, rowsFrom, rowsFrom]
    by_cases hf : f < c f
    · have hcounted : x.counted c (f :: l) = x.share f + x.counted c l := by
        simp [counted, hf]
      rw [if_pos hf, if_pos hf, ih, hcounted, List.append_assoc, add_assoc]
    · have hcounted : x.counted c (f :: l) = x.counted c l := by
        simp [counted, hf]
      rw [if_neg hf, if_neg hf, ih, hcounted]

theorem rowsFrom_eq_nil_iff (x : Experiment) (c : Nat → Nat) (r : ℚ) (l : List Nat) :
    x.rowsFrom c r l = [] ↔ ∀ f ∈ l, c f ≠ f + 1 := by
  induction l generalizing r with
  | nil => simp [rowsFrom]
  | cons f l ih =>
    rw [rowsFrom, List.forall_mem_cons]
    by_cases hf : f < c f
    · by_cases hrow : c f = f + 1
      · simp [hrow]
      · rw [if_pos hf, if_neg hrow, List.nil_append, ih]
        exact ⟨fun h => ⟨hrow, h⟩, And.right⟩
    · rw [if_neg hf, ih]
      exact ⟨fun h => ⟨by omega, h⟩, And.right⟩

theorem rowWith_injective (x : Experiment) : Function.Injective x.rowWith := by
  intro q r h
  simpa [rowWith] using h

theorem rowsFrom_eq_singleton_iff (c : Nat → Nat) (r e : ℚ) (l : List Nat) :
    x.rowsFrom c r l = [x.rowWith e] ↔
      ∃ pre f post, l = pre ++ f :: post ∧ c f = f + 1 ∧ (∀ g ∈ pre ++ post, c g ≠ g + 1) ∧
        r + x.counted c (pre ++ [f]) = e := by
  have hsplit : ∀ pre f post, c f = f + 1 → x.rowsFrom c r (pre ++ f :: post) =
      x.rowsFrom c r pre ++ x.rowWith (r + x.counted c (pre ++ [f])) ::
        x.rowsFrom c (r + x.counted c (pre ++ [f])) post := by
    intro pre f post hf
    have hlt : f < c f := by omega
    have hcounted : x.counted c (pre ++ [f]) = x.counted c pre + x.share f := by
      simp [counted, hlt]
    rw [rowsFrom_append, rowsFrom, if_pos hlt, if_pos hf, hcounted, ← add_assoc]
    rfl
  constructor
  · intro h
    have hhit : ∃ f ∈ l, c f = f + 1 := by
      by_contra hno
      have hnil := (x.rowsFrom_eq_nil_iff c r l).mpr fun f hf he => hno ⟨f, hf, he⟩
      rw [hnil] at h
      cases h
    obtain ⟨f, hmem, hf⟩ := hhit
    obtain ⟨pre, post, rfl⟩ := List.append_of_mem hmem
    rw [hsplit pre f post hf, List.append_eq_singleton_iff] at h
    rcases h with ⟨hpre, hrow⟩ | ⟨-, hnil⟩
    · obtain ⟨hrate, hpost⟩ := List.cons.inj hrow
      refine ⟨pre, f, post, rfl, hf, ?_, x.rowWith_injective hrate⟩
      intro g hg
      rcases List.mem_append.mp hg with hg | hg
      · exact (x.rowsFrom_eq_nil_iff c _ pre).mp hpre g hg
      · exact (x.rowsFrom_eq_nil_iff c _ post).mp hpost g hg
    · cases hnil
  · rintro ⟨pre, f, post, rfl, hf, hother, rfl⟩
    have hpre : x.rowsFrom c r pre = [] := by
      apply (x.rowsFrom_eq_nil_iff c r pre).mpr
      exact fun g hg => hother g (List.mem_append_left _ hg)
    have hpost : x.rowsFrom c (r + x.counted c (pre ++ [f])) post = [] := by
      apply (x.rowsFrom_eq_nil_iff c _ post).mpr
      exact fun g hg => hother g (List.mem_append_right _ hg)
    rw [hsplit pre f post hf, hpre, hpost]
    rfl

/-- Exactly one class has the count `fid + 1`, and up to it the classes below
their counts have sent as many bytes as all CBR flows. -/
def Coincides (x : Experiment) (c : Nat → Nat) : Prop :=
  ∃ pre f post, x.order = pre ++ f :: post ∧ c f = f + 1 ∧ (∀ g ∈ pre ++ post, c g ≠ g + 1) ∧
    (((pre ++ [f]).filter fun g => g < c g).map x.pktA).sum * x.cbrSize =
      ((List.range x.cbrs).map x.pktA).sum * x.cbrSize

theorem share_sum (x : Experiment) (l : List Nat) :
    (l.map x.share).sum = ((l.map x.pktA).sum * x.cbrSize : Nat) * (8 / atof x.stop / 1000) := by
  induction l with
  | nil => simp
  | cons f l ih =>
    rw [List.map_cons, List.sum_cons, ih, List.map_cons, List.sum_cons, share]
    push_cast
    ring

theorem share_sum_eq_iff (x : Experiment) (l m : List Nat) :
    (l.map x.share).sum = (m.map x.share).sum ↔
      (l.map x.pktA).sum * x.cbrSize = (m.map x.pktA).sum * x.cbrSize := by
  have hne : 8 / atof x.stop / 1000 ≠ 0 := by
    have := x.stop_pos
    positivity
  rw [share_sum, share_sum, mul_left_inj' hne, Nat.cast_inj]

theorem rows_eq (x : Experiment) :
    ∃ s, x.Holding s ∧ s.cbrrate = .uninit ∧ s.printed = [] ∧
      x.rows = (run main s (x.order.map x.classText)).printed := by
  have h := x.ready
  refine ⟨_, ⟨h.time, h.cbrs, h.size, ?_⟩, h.rate, h.printed, ?_⟩
  · intro rate
    unfold row
    rw [h.time, h.cbrGoodput, h.tcpGoodput, h.fraction]
    rfl
  · rw [rows, AppendAwk.output, file_eq, run_append]
    rfl

theorem rows_eq_singleton_iff (x : Experiment) {c : Nat → Nat}
    (hc : ∀ f, x.limit f = some (c f)) : x.rows = [x.expectedRow] ↔ x.Coincides c := by
  obtain ⟨s, hs, hrate, hprinted, hrows⟩ := x.rows_eq
  rw [hrows, run_with_limits (fun f _ => hc f) hs, hprinted, hrate, List.nil_append, expectedRow,
    rowsFrom_eq_singleton_iff]
  simp only [toNum_uninit, zero_add, counted, share_sum_eq_iff, Coincides]

theorem rows_eq_nil (x : Experiment) (hx : ∀ f, x.limit f = none) : x.rows = [] := by
  obtain ⟨s, hs, -, hprinted, hrows⟩ := x.rows_eq
  rw [hrows, run_without_limits (fun f _ => hx f) hs, hprinted]

/-- `append` finds the one row it should find in exactly these experiments: four
CBR flows and a coincidence among the arrivals, or six and one among the drops. -/
theorem oneRow_iff (x : Experiment) :
    x.rows = [x.expectedRow] ↔
      (x.cbrs = 4 ∧ x.Coincides x.pktA) ∨ (x.cbrs = 6 ∧ x.Coincides x.pktD) := by
  by_cases h4 : x.cbrs = 4
  · have hlimit : ∀ f, x.limit f = some (x.pktA f) := fun f => by simp [limit, column, h4]
    simp [rows_eq_singleton_iff x hlimit, h4]
  · by_cases h6 : x.cbrs = 6
    · have hlimit : ∀ f, x.limit f = some (x.pktD f) := fun f => by simp [limit, column, h6]
      simp [rows_eq_singleton_iff x hlimit, h6]
    · have hlimit : ∀ f, x.limit f = none := fun f => by simp [limit, column, h4, h6]
      simp [rows_eq_nil x hlimit, h4, h6]

def monitorLine (f : Nat) : String := unwords ("100.0" :: decimal f :: monitorTail)
where
  monitorTail : List String := ["0", "0", "0", "2", "4", "60", "6000", "0", "0", "60", "6000", "0",
    "0", "10", "1000", "10", "1000"]

theorem monitorLine_isFlow (f : Nat) : IsFlow (monitorLine f) f 60 10 := by
  have htail : monitorLine.monitorTail.all isWord = true := by decide
  have hwords : ∀ w ∈ "100.0" :: decimal f :: monitorLine.monitorTail, isWord w := by
    intro w hw
    rcases List.mem_cons.mp hw with rfl | hw
    · decide
    rcases List.mem_cons.mp hw with rfl | hw
    · exact isWord_decimal f
    · exact List.all_eq_true.mp htail w hw
  exact ⟨field_unwords hwords 1, field_unwords hwords 7, field_unwords hwords 17⟩

def oneEach : Experiment where
  cbrs := 1
  tcps := 1
  cbrSize := 100
  tcpDefault := 1000
  tcpSize _ := 1000
  received _ := 50
  acked _ := 40
  stop := "100.0"
  pktA _ := 60
  pktD _ := 10
  order := [0, 1]
  record := monitorLine
  cbrs_pos := by decide
  stop_word := by decide
  stop_numeric := by decide
  stop_pos := by decide +kernel
  order_perm := by decide
  record_flow f _ := monitorLine_isFlow f

/-- With one CBR flow `$cbrs` is the word `class`, and no row comes out. -/
theorem oneRow_fails_for_one_each : oneEach.rows = [] ∧ oneEach.rows ≠ [oneEach.expectedRow] := by
  have hnil : oneEach.rows = [] := oneEach.rows_eq_nil fun f => rfl
  exact ⟨hnil, by simp [hnil]⟩

end Experiment

end LearnNs2
