import LearnNs2.Trace.MeasureDelay

/-!
# Start times

The script takes a start time of zero for one that was not stored yet, and
stores again. What remains is the first time of the packet that is not zero.
-/

namespace LearnNs2

open Awk Decimal

set_option autoImplicit false

namespace MeasureDelay

/-- An element of `start_time` at a record of its packet. -/
def latch (v : Value) (line : String) : Value := if v.eq (.num 0) then field line 2 else v

def startTimeOf (id : String) (trace : List String) : Value :=
  (run main begin trace).startTime.get (.str id)

section Latch

variable {v : Value} {line : String} {records trace : List String}

theorem noteStart_get (line : String) (s : Vars) (id : String) :
    (noteStart line s).startTime.get (.str id) =
      if packetId line = id then latch (s.startTime.get (.str id)) line
      else s.startTime.get (.str id) := by
  unfold noteStart
  dsimp only
  by_cases hid : packetId line = id
  · have hget : s.startTime.get (field line 12) = s.startTime.get (.str id) := by
      rw [Table.get, ← packetId, hid]
      rfl
    rw [if_pos hid, hget, latch]
    split
    · rw [Table.get, Table.set, ← packetId, hid]
      exact Function.update_self ..
    · rfl
  · rw [if_neg hid]
    split
    · exact get_set_of_ne (Ne.symm hid)
    · rfl

theorem main_get (line : String) (s : Vars) (id : String) :
    (main s line).startTime.get (.str id) =
      if packetId line = id then latch (s.startTime.get (.str id)) line
      else s.startTime.get (.str id) := by
  obtain ⟨hstart, -, -⟩ := noteId_frame s line
  obtain ⟨-, hend, -⟩ := noteEnd_frame (noteStart line (noteId line s)) line
  rw [main, hend, noteStart_get, hstart]

/-- Other packets leave the start time of a packet alone. -/
theorem startTimeOf_eq (id : String) (trace : List String) :
    startTimeOf id trace = (recordsOf id trace).foldl latch .uninit := by
  apply run_induct main begin
    (fun pre s => s.startTime.get (.str id) = (recordsOf id pre).foldl latch .uninit)
  · rfl
  · intro pre s line _ hs
    rw [main_get, hs, recordsOf, recordsOf, List.filter_append, List.foldl_append]
    by_cases hid : packetId line = id
    · simp [hid]
    · simp [hid]

theorem toNum_foldl_latch (hv : v.numeric) (h : ∀ line ∈ records, (field line 2).numeric) :
    (records.foldl latch v).toNum = ((v.toNum :: records.map timeNum).find? (· ≠ 0)).getD 0 := by
  induction records generalizing v with
  | nil =>
    by_cases hz : v.toNum = 0
    · simp [hz]
    · simp [hz]
  | cons line records ih =>
    have hline := h line List.mem_cons_self
    have hrest : ∀ l ∈ records, (field l 2).numeric := fun l hl => h l (List.mem_cons_of_mem line hl)
    have hzero : v.eq (.num 0) ↔ v.toNum = 0 := eq_iff_toNum hv rfl
    rw [List.foldl_cons, latch]
    by_cases hz : v.toNum = 0
    · rw [if_pos (hzero.mpr hz), ih hline hrest]
      simp [hz, timeNum]
    · rw [if_neg (fun he => hz (hzero.mp he)), ih hv hrest]
      simp [hz]

/-- A start time is the first time of the packet that is not zero, if there is one. -/
theorem toNum_startTimeOf (h : ∀ line ∈ trace, (field line 2).numeric) (id : String) :
    (startTimeOf id trace).toNum =
      (((recordsOf id trace).map timeNum).find? (· ≠ 0)).getD 0 := by
  have hrecords : ∀ line ∈ recordsOf id trace, (field line 2).numeric :=
    fun line hl => h line (List.mem_of_mem_filter hl)
  rw [startTimeOf_eq, toNum_foldl_latch rfl hrecords]
  rfl

end Latch

/-- The start time of every packet is the time of its first record. -/
def StartTimesRight (trace : List String) : Prop :=
  ∀ id first, (recordsOf id trace).head? = some first →
    (startTimeOf id trace).toNum = timeNum first

theorem find?_ne_zero_eq_head_iff (t : ℚ) (ts : List ℚ) :
    ((t :: ts).find? (· ≠ 0)).getD 0 = t ↔ (t = 0 → ∀ x ∈ ts, x = 0) := by
  by_cases ht : t = 0
  · subst t
    rw [List.find?_cons_of_neg (by simp), imp_iff_right rfl]
    cases hf : ts.find? (· ≠ 0) with
    | none => simpa using hf
    | some x =>
      have hx : x ≠ 0 := by simpa using List.find?_some hf
      constructor
      · exact fun h => absurd h hx
      · exact fun h => absurd (h x (List.mem_of_find?_eq_some hf)) hx
  · simp [ht]

/-- Start times are right on exactly those traces in which a packet that begins
at time zero has no record at another time. -/
theorem startTimesRight_iff {trace : List String} (h : ∀ line ∈ trace, (field line 2).numeric) :
    StartTimesRight trace ↔ ∀ id first, (recordsOf id trace).head? = some first →
      timeNum first = 0 → ∀ line ∈ recordsOf id trace, timeNum line = 0 := by
  apply forall_congr'
  intro id
  apply forall_congr'
  intro first
  apply imp_congr_right
  intro hfirst
  obtain ⟨rest, hrecords⟩ := List.head?_eq_some_iff.mp hfirst
  rw [toNum_startTimeOf h, hrecords, List.map_cons, find?_ne_zero_eq_head_iff]
  apply imp_congr_right
  intro hzero
  simp [hzero]

/-- A packet that is queued and sent at time zero, and received later. -/
def startsAtZero : List String :=
  ["+ 0 1 2 cbr 1000 ------- 2 1.0 3.1 0 0",
   "- 0 1 2 cbr 1000 ------- 2 1.0 3.1 0 0",
   "r 0.018 1 2 cbr 1000 ------- 2 1.0 3.1 0 0"]

theorem times_startsAtZero : startsAtZero.map timeNum = [0, 0, 0.018] := by decide +kernel

theorem startTimesRight_fails_at_zero :
    (∀ line ∈ startsAtZero, (field line 2).numeric ∧ 0 ≤ timeNum line) ∧
      startsAtZero.Pairwise (fun l l' => timeNum l ≤ timeNum l') ∧
      ¬ StartTimesRight startsAtZero := by
  have hnumeric : ∀ line ∈ startsAtZero, (field line 2).numeric := by decide
  have hpositive : ∀ t ∈ [(0 : ℚ), 0, 0.018], 0 ≤ t := by norm_num
  have hsorted : [(0 : ℚ), 0, 0.018].Pairwise fun t t' => t ≤ t' := by norm_num
  rw [← times_startsAtZero] at hpositive hsorted
  refine ⟨?_, List.pairwise_map.mp hsorted, ?_⟩
  · intro line hline
    exact ⟨hnumeric line hline, hpositive _ (List.mem_map_of_mem hline)⟩
  · intro h
    have hrecords : recordsOf "0" startsAtZero = startsAtZero := by decide +kernel
    have hstart := h "0" "+ 0 1 2 cbr 1000 ------- 2 1.0 3.1 0 0" (by rw [hrecords]; rfl)
    have hzero := (List.cons.inj times_startsAtZero).1
    rw [toNum_startTimeOf hnumeric, hrecords, times_startsAtZero, hzero] at hstart
    norm_num at hstart

/-- The same packet, a tenth of a second later. -/
theorem startTimesRight_iff_later :
    StartTimesRight ["+ 0.1 1 2 cbr 1000 ------- 2 1.0 3.1 0 0",
      "r 0.118 1 2 cbr 1000 ------- 2 1.0 3.1 0 0"] := by
  apply (startTimesRight_iff (by decide)).mpr
  intro id first hfirst hzero
  have hpositive : ∀ line ∈ ["+ 0.1 1 2 cbr 1000 ------- 2 1.0 3.1 0 0",
      "r 0.118 1 2 cbr 1000 ------- 2 1.0 3.1 0 0"], timeNum line ≠ 0 := by decide +kernel
  exact absurd hzero (hpositive first (List.mem_of_mem_filter (List.mem_of_head? hfirst)))

end MeasureDelay

end LearnNs2
