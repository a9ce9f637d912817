import LearnNs2.Trace.Records

/-!
# `measure-throughput.awk`

Element `j` of `pkt_byte_sum` is stored when packet `j - 1` is received, and
element `j` of `end_time` when packet `j` is. A sample that combines the two
leaves out the packet it is taken at.
-/

namespace LearnNs2

open Awk Decimal

set_option autoImplicit false

namespace MeasureThroughput

structure Vars where
  init : Value
  i : Nat
  pktByteSum : Table
  endTime : Table
  startTime : Value

def begin : Vars := ⟨.num 0, 0, .empty, .empty, .uninit⟩

/-- A packet of flow 2 that node 3 receives from node 2. -/
def arrives (line : String) : Bool :=
  (field line 1).eq (.str "r") && (field line 3).eq (.num 2) && (field line 4).eq (.num 3) &&
    (field line 8).eq (.num 2)

def size (line : String) : ℚ := (field line 6).toNum

def receive (s : Vars) (line : String) : Vars :=
  let time := field line 2
  let sum := Value.num ((s.pktByteSum.get (.num s.i)).toNum + size line)
  let s := { s with pktByteSum := s.pktByteSum.set (.num (s.i + 1 : Nat)) sum }
  let s := if s.init.eq (.num 0) then { s with startTime := time, init := .num 1 } else s
  { s with endTime := s.endTime.set (.num s.i) time, i := s.i + 1 }

def main (s : Vars) (line : String) : Vars := if arrives line then receive s line else s

/-- What is printed, and whether awk then stops at a division by zero. -/
structure Report where
  lines : List Print
  fatal : Bool
  deriving DecidableEq

def row (time : Value) (th : ℚ) : Print := ⟨"%.6f\t%.6f\n", [time, .num th]⟩

def elapsed (s : Vars) (j : Nat) : ℚ := (s.endTime.get (.num j)).toNum - s.startTime.toNum

def sample (s : Vars) (j : Nat) : Print :=
  row (s.endTime.get (.num j)) ((s.pktByteSum.get (.num j)).toNum / elapsed s j * 8 / 1000)

/-- The loop of `END` over the given values of `j`. -/
def samples (s : Vars) : List Nat → Report
  | [] => ⟨[], false⟩
  | j :: js =>
    if elapsed s j = 0 then ⟨[], true⟩
    else ⟨sample s j :: (samples s js).lines, (samples s js).fatal⟩

def finish (s : Vars) : Report :=
  let first := row (s.endTime.get (.num 0)) 0
  let r := samples s (List.range' 1 (s.i - 1))
  if r.fatal then ⟨first :: r.lines, true⟩
  else ⟨first :: r.lines ++ [row (s.endTime.get (.num (s.i - 1))) 0], false⟩

def output (trace : List String) : Report := finish (run main begin trace)

section Run

variable {s : Vars} {js : List Nat} {rs trace : List String} {line : String}

theorem run_main (trace : List String) :
    run main begin trace = run receive begin (trace.filter arrives) := by
  unfold run
  rw [List.foldl_filter]
  rfl

theorem samples_eq (h : ∀ j ∈ js, elapsed s j ≠ 0) : samples s js = ⟨js.map (sample s), false⟩ := by
  induction js with
  | nil => rfl
  | cons j js ih =>
    have hj := h j List.mem_cons_self
    rw [samples, if_neg hj, ih fun k hk => h k (List.mem_cons_of_mem j hk), List.map_cons]

def timeAt (rs : List String) (j : Nat) : Value := rs[j]?.elim .uninit fun line => field line 2

/-- The bytes of the first `j` records. -/
def bytes (rs : List String) (j : Nat) : ℚ := ((rs.take j).map size).sum

/-- What the variables are once the records `rs` were received. -/
structure Tracks (rs : List String) (s : Vars) : Prop where
  count : s.i = rs.length
  time : ∀ j : Nat, s.endTime.get (.num j) = timeAt rs j
  sum : ∀ j : Nat, j ≤ rs.length → (s.pktByteSum.get (.num j)).toNum = bytes rs j
  start : s.startTime = timeAt rs 0
  init : s.init.eq (.num 0) ↔ rs = []

theorem tracks_begin : Tracks [] begin := by
  refine ⟨rfl, fun j => rfl, ?_, rfl, by decide⟩
  intro j _
  simp [begin, bytes, Table.get, Table.empty]

theorem timeAt_append (rs : List String) (line : String) (j : Nat) :
    timeAt (rs ++ [line]) j = if j = rs.length then field line 2 else timeAt rs j := by
  unfold timeAt
  rw [List.getElem?_append]
  by_cases hlt : j < rs.length
  · rw [if_pos hlt, if_neg hlt.ne]
  · rw [if_neg hlt]
    by_cases hj : j = rs.length
    · simp [hj]
    · have hout : rs.length ≤ j ∧ ¬ j - rs.length < 1 := by omega
      simp [hj, hout.1, hout.2]

theorem bytes_append (rs : List String) (line : String) {j : Nat} (h : j ≤ rs.length) :
    bytes (rs ++ [line]) j = bytes rs j := by
  rw [bytes, List.take_append_of_le_length h, bytes]

theorem bytes_length (rs : List String) (line : String) :
    bytes (rs ++ [line]) (rs.length + 1) = bytes rs rs.length + size line := by
  simp [bytes]

theorem receive_sums (s : Vars) (line : String) :
    (receive s line).i = s.i + 1 ∧
      (receive s line).endTime = s.endTime.set (.num s.i) (field line 2) ∧
      (receive s line).pktByteSum = s.pktByteSum.set (.num (s.i + 1 : Nat))
        (.num ((s.pktByteSum.get (.num s.i)).toNum + size line)) := by
  unfold receive
  dsimp only
  split <;> exact ⟨rfl, rfl, rfl⟩

theorem receive_start (s : Vars) (line : String) :
    (receive s line).startTime = (if s.init.eq (.num 0) then field line 2 else s.startTime) ∧
      (receive s line).init = if s.init.eq (.num 0) then .num 1 else s.init := by
  unfold receive
  dsimp only
  split <;> exact ⟨rfl, rfl⟩

theorem tracks_receive (h : Tracks rs s) (line : String) :
    Tracks (rs ++ [line]) (receive s line) := by
  obtain ⟨hcount, htime, hsum⟩ := receive_sums s line
  obtain ⟨hstart, hinit⟩ := receive_start s line
  refine ⟨?_, ?_, ?_, ?_, ?_⟩
  · rw [hcount, h.count, List.length_append, List.length_singleton]
  · intro j
    rw [htime, get_set_natCast, h.count, timeAt_append, h.time]
  · intro j hj
    rw [List.length_append, List.length_singleton] at hj
    rw [hsum, get_set_natCast, h.count]
    by_cases hlast : j = rs.length + 1
    · rw [if_pos hlast, hlast, bytes_length, ← h.sum rs.length (le_refl _), toNum_num]
    · have hle : j ≤ rs.length := by omega
      rw [if_neg hlast, h.sum j hle, bytes_append rs line hle]
  · rw [hstart, timeAt_append, h.start]
    by_cases hnil : rs = []
    · rw [if_pos (h.init.mpr hnil), hnil]
      rfl
    · have hlength : 0 ≠ rs.length := fun he => hnil (List.length_eq_zero_iff.mp he.symm)
      rw [if_neg (fun he => hnil (h.init.mp he)), if_neg hlength]
  · rw [hinit]
    by_cases hnil : rs = []
    · rw [if_pos (h.init.mpr hnil)]
      simp [Value.eq, Value.numeric]
    · rw [if_neg (fun he => hnil (h.init.mp he)), h.init]
      simp [hnil]

theorem tracks_run (rs : List String) : Tracks rs (run receive begin rs) := by
  apply run_induct receive begin Tracks rs tracks_begin
  intro pre t line _ ht
  exact tracks_receive ht line

end Run

/-- The report on the records `rs` that credits sample `j` with `total j` bytes. -/
def report (total : Nat → ℚ) (rs : List String) : Report :=
  let th j := total j / ((timeAt rs j).toNum - (timeAt rs 0).toNum) * 8 / 1000
  ⟨row (timeAt rs 0) 0 :: (List.range' 1 (rs.length - 1)).map (fun j => row (timeAt rs j) (th j)) ++
    [row (timeAt rs (rs.length - 1)) 0], false⟩

section Report

variable {rs trace : List String} {f g : Nat → ℚ}

theorem elapsed_pos (increasing : rs.Pairwise fun l l' => timeNum l < timeNum l') {j : Nat}
    (h0 : 0 < j) (hj : j < rs.length) : 0 < (timeAt rs j).toNum - (timeAt rs 0).toNum := by
  have hlength : 0 < rs.length := h0.trans hj
  have hlt := List.pairwise_iff_getElem.mp increasing 0 j hlength hj h0
  have hfirst : timeAt rs 0 = field rs[0] 2 := by
    simp [timeAt, List.getElem?_eq_getElem hlength]
  have hthis : timeAt rs j = field rs[j] 2 := by
    simp [timeAt, List.getElem?_eq_getElem hj]
  rw [hfirst, hthis]
  exact sub_pos.mpr hlt

/-- The script credits a sample with the packets before it. -/
theorem output_eq (two : 2 ≤ (trace.filter arrives).length)
    (increasing : (trace.filter arrives).Pairwise fun l l' => timeNum l < timeNum l') :
    output trace = report (bytes (trace.filter arrives)) (trace.filter arrives) := by
  rw [output, run_main]
  generalize trace.filter arrives = rs at two increasing
  have ht := tracks_run rs
  have helapsed : ∀ j, elapsed (run receive begin rs) j =
      (timeAt rs j).toNum - (timeAt rs 0).toNum := by
    intro j
    rw [elapsed, ht.time, ht.start]
  have hsamples : samples (run receive begin rs) (List.range' 1 (rs.length - 1)) =
      ⟨(List.range' 1 (rs.length - 1)).map (sample (run receive begin rs)), false⟩ := by
    apply samples_eq
    intro j hj
    obtain ⟨h1, h2⟩ := List.mem_range'_1.mp hj
    rw [helapsed]
    exact ne_of_gt (elapsed_pos increasing (by omega) (by omega))
  have hlast : (rs.length : ℚ) - 1 = (rs.length - 1 : Nat) := by
    rw [Nat.cast_sub (by omega), Nat.cast_one]
  have hfirst := ht.time 0
  rw [Nat.cast_zero] at hfirst
  rw [finish, ht.count, hsamples, if_neg Bool.false_ne_true, hlast, ht.time, hfirst, report]
  congr 3
  apply List.map_congr_left
  intro j hj
  obtain ⟨h1, h2⟩ := List.mem_range'_1.mp hj
  rw [sample, ht.time, ht.sum j (by omega), helapsed]

/-- Reports agree if they credit every sample with the same bytes. -/
theorem report_eq_iff (increasing : rs.Pairwise fun l l' => timeNum l < timeNum l') :
    report f rs = report g rs ↔ ∀ j, 1 ≤ j → j < rs.length → f j = g j := by
  constructor
  · intro h j h1 hj
    have hlines := congrArg Report.lines h
    simp only [report, List.cons_append, List.cons.injEq, List.append_cancel_right_eq,
      true_and] at hlines
    have hrow := List.map_inj_left.mp hlines j (List.mem_range'_1.mpr (by omega))
    have hpos := elapsed_pos increasing h1 hj
    simp only [row, Print.mk.injEq, List.cons.injEq, Value.num.injEq, true_and, and_true] at hrow
    have hdiv : f j / ((timeAt rs j).toNum - (timeAt rs 0).toNum) =
        g j / ((timeAt rs j).toNum - (timeAt rs 0).toNum) := by linarith
    exact (div_left_inj' (ne_of_gt hpos)).mp hdiv
  · intro h
    unfold report
    dsimp only
    congr 3
    apply List.map_congr_left
    intro j hj
    obtain ⟨h1, h2⟩ := List.mem_range'_1.mp hj
    rw [h j h1 (by omega)]

theorem bytes_succ {j : Nat} (hj : j < rs.length) : bytes rs (j + 1) = bytes rs j + size rs[j] := by
  rw [bytes, bytes, List.take_add_one, List.getElem?_eq_getElem hj, List.map_append, List.sum_append]
  simp

end Report

/-- Every sample counts what was received up to and including its time. -/
def AccountsForAll (trace : List String) : Prop :=
  let rs := trace.filter arrives
  output trace = report (fun j => bytes rs (j + 1)) rs

/-- The samples count every byte on exactly those traces in which no packet after
the first has any. -/
theorem accountsForAll_iff {trace : List String} (two : 2 ≤ (trace.filter arrives).length)
    (increasing : (trace.filter arrives).Pairwise fun l l' => timeNum l < timeNum l') :
    AccountsForAll trace ↔ ∀ line ∈ (trace.filter arrives).tail, size line = 0 := by
  unfold AccountsForAll
  dsimp only
  rw [output_eq two increasing, report_eq_iff increasing]
  generalize trace.filter arrives = rs
  constructor
  · intro h line hline
    obtain ⟨j, hj, rfl⟩ := List.getElem_of_mem hline
    rw [List.length_tail] at hj
    have hlt : j + 1 < rs.length := by omega
    have hsum := h (j + 1) (by omega) hlt
    rw [bytes_succ hlt, left_eq_add] at hsum
    rw [List.getElem_tail]
    exact hsum
  · intro h j h1 hj
    have hmem : rs[j] ∈ rs.tail := by
      apply List.mem_iff_getElem.mpr
      refine ⟨j - 1, by rw [List.length_tail]; omega, ?_⟩
      rw [List.getElem_tail]
      congr 1
      omega
    rw [bytes_succ hj, h _ hmem, add_zero]

def twoArrivals (size : String) : List String :=
  ["r 1.0 2 3 cbr 1000 ------- 2 1.0 3.1 0 0",
   "r 1.5 2 3 cbr " ++ size ++ " ------- 2 1.0 3.1 1 1"]

/-- At 1.5 s the script has 1000 bytes of the 2000 received. -/
theorem accountsForAll_fails_at_equal_sizes :
    2 ≤ ((twoArrivals "1000").filter arrives).length ∧
      ((twoArrivals "1000").filter arrives).Pairwise (fun l l' => timeNum l < timeNum l') ∧
      ¬ AccountsForAll (twoArrivals "1000") := by
  unfold AccountsForAll
  decide +kernel

theorem accountsForAll_iff_empty_packet : AccountsForAll (twoArrivals "0") := by
  apply (accountsForAll_iff (by decide +kernel) (by decide +kernel)).mpr
  decide +kernel

end MeasureThroughput

end LearnNs2
