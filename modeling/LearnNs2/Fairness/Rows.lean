import LearnNs2.Fairness.Append
import LearnNs2.Fairness.Collapse

/-!
# The rows that `append` finds in a data file

The lines before the class lines leave `append` with everything it needs. What
it makes of a class line depends on the field that `$cbrs` names there.
-/

namespace LearnNs2

open Awk Decimal

set_option autoImplicit false

namespace AppendAwk

section Segments

variable {s : Vars} {l : List Nat} {word : String} {i : Value}

theorem fid_fields (hword : isWord word) (f n : Nat) :
    let line := unwords ["fid", decimal f, word, decimal n]
    field line 1 = .input "fid" ∧ field line 2 = .input (decimal f) ∧
      field line 3 = .input word ∧ field line 4 = .input (decimal n) := by
  have hfid : isWord "fid" := by decide
  have hwords : ∀ w ∈ ["fid", decimal f, word, decimal n], isWord w := by
    simp [hfid, hword, isWord_decimal]
  exact ⟨field_unwords hwords 0, field_unwords hwords 1, field_unwords hwords 2,
    field_unwords hwords 3⟩

def fillSizes (b : Nat → Nat) (l : List Nat) (t : Table) : Table :=
  l.foldl (fun t f => t.set (.input (decimal f)) (.input (decimal (b f)))) t

theorem get_fillSizes (b : Nat → Nat) (l : List Nat) (t : Table) (j : Nat) :
    (fillSizes b l t).get (.input (decimal j)) =
      if j ∈ l then .input (decimal (b j)) else t.get (.input (decimal j)) := by
  induction l generalizing t with
  | nil => simp [fillSizes]
  | cons f l ih =>
    have hstep : fillSizes b (f :: l) t =
        fillSizes b l (t.set (.input (decimal f)) (.input (decimal (b f)))) := rfl
    rw [hstep, ih]
    by_cases hl : j ∈ l
    · simp [hl]
    · by_cases hf : j = f
      · subst j
        simp [hl]
      · have hkey : (Value.input (decimal j)).toStr ≠ (Value.input (decimal f)).toStr :=
          fun he => hf (decimal_injective he)
        simp [hl, hf, get_set_of_ne hkey]

theorem run_sizes (b : Nat → Nat) (l : List Nat) (s : Vars) :
    run main s (l.map fun f => unwords ["fid", decimal f, "packet-size", decimal (b f)]) =
      { s with size := fillSizes b l s.size } := by
  have hword : isWord "packet-size" := by decide
  induction l generalizing s with
  | nil => rfl
  | cons f l ih =>
    obtain ⟨h1, h2, h3, h4⟩ := fid_fields hword f (b f)
    rw [List.map_cons, run_cons, main_size h1 h3, h2, h4, ih]
    rfl

theorem countRule_eq {line : String} {f n : Nat} (h2 : field line 2 = .input (decimal f))
    (h3 : field line 3 = .input word) (h4 : field line 4 = .input (decimal n))
    (hzero : (s.packets.get (.input (decimal f))).toNum = 0) :
    countRule word i line s =
      { s with
        packets := s.packets.set (.input (decimal f)) (.num n)
        goodput := s.goodput.set i (.num ((s.goodput.get i).toNum +
          n * (s.size.get (.input (decimal f))).toNum * 8 / 1000)) } := by
  unfold countRule
  rw [h2, h3, h4, input_eq_str, if_pos (beq_self_eq_true word)]
  simp [hzero]

/-- What a group of counting lines changes, when it has no flow twice. -/
structure Counted (n : Nat → Nat) (i : Value) (l : List Nat) (s s' : Vars) : Prop where
  rest : s' = { s with packets := s'.packets, goodput := s'.goodput }
  total : (s'.goodput.get i).toNum = (s.goodput.get i).toNum +
    (l.map fun f => n f * (s.size.get (.input (decimal f))).toNum * 8 / 1000).sum
  others : ∀ j : Value, j.toStr ≠ i.toStr → s'.goodput.get j = s.goodput.get j
  uncounted : ∀ f ∉ l, s'.packets.get (.input (decimal f)) = s.packets.get (.input (decimal f))

theorem run_counts {n : Nat → Nat} (hword : isWord word)
    (hrule : ∀ s f, main s (unwords ["fid", decimal f, word, decimal (n f)]) =
      countRule word i (unwords ["fid", decimal f, word, decimal (n f)]) s)
    (hdistinct : l.Nodup) (hzero : ∀ f ∈ l, (s.packets.get (.input (decimal f))).toNum = 0) :
    Counted n i l s (run main s (l.map fun f => unwords ["fid", decimal f, word, decimal (n f)])) := by
  induction l generalizing s with
  | nil => exact ⟨rfl, by simp, fun _ _ => rfl, fun _ _ => rfl⟩
  | cons f l ih =>
    obtain ⟨hf, hl⟩ := List.nodup_cons.mp hdistinct
    obtain ⟨h1, h2, h3, h4⟩ := fid_fields hword f (n f)
    rw [List.map_cons, run_cons, hrule, countRule_eq h2 h3 h4 (hzero f List.mem_cons_self)]
    have hkey : ∀ g, g ≠ f → (Value.input (decimal g)).toStr ≠ (Value.input (decimal f)).toStr :=
      fun g hg he => hg (decimal_injective he)
    have hrest := ih (s := { s with
        packets := s.packets.set (.input (decimal f)) (.num (n f))
        goodput := s.goodput.set i (.num ((s.goodput.get i).toNum +
          n f * (s.size.get (.input (decimal f))).toNum * 8 / 1000)) }) hl ?_
    · refine ⟨hrest.rest, ?_, ?_, ?_⟩
      · rw [hrest.total, get_set_self, List.map_cons, List.sum_cons]
        exact add_assoc _ _ _
      · intro j hj
        rw [hrest.others j hj]
        exact get_set_of_ne hj
      · intro g hg
        rw [List.mem_cons, not_or] at hg
        rw [hrest.uncounted g hg.2]
        exact get_set_of_ne (hkey g hg.1)
    · intro g hg
      have hne : g ≠ f := by
        rintro rfl
        exact hf hg
      change (Table.get (s.packets.set _ _) _).toNum = 0
      rw [get_set_of_ne (hkey g hne)]
      exact hzero g (List.mem_cons_of_mem f hg)

theorem run_received {n : Nat → Nat} (hdistinct : l.Nodup)
    (hzero : ∀ f ∈ l, (s.packets.get (.input (decimal f))).toNum = 0) :
    Counted n (.num 0) l s (run main s (l.map fun f => printCbrPkts (n f) f)) := by
  have hword : isWord "total_packets_received" := by decide
  apply run_counts hword _ hdistinct hzero
  intro s f
  obtain ⟨h1, -, h3, -⟩ := fid_fields hword f (n f)
  exact main_received h1 h3

theorem run_acked {n : Nat → Nat} (hdistinct : l.Nodup)
    (hzero : ∀ f ∈ l, (s.packets.get (.input (decimal f))).toNum = 0) :
    Counted n (.num 1) l s (run main s (l.map fun f => printTcpPkts (n f) f)) := by
  have hword : isWord "total_packets_acked" := by decide
  apply run_counts hword _ hdistinct hzero
  intro s f
  obtain ⟨h1, -, h3, -⟩ := fid_fields hword f (n f)
  exact main_acked h1 h3

theorem run_printstop {stop : String} (h : isWord stop) (s : Vars) :
    main s (printstop stop) = { s with time := .input stop } := by
  have hword : isWord "stop-time" := by decide
  have hwords : ∀ w ∈ ["stop-time", stop], isWord w := by simp [hword, h]
  have h1 : field (printstop stop) 1 = .input "stop-time" := field_unwords hwords 0
  have h2 : field (printstop stop) 2 = .input stop := field_unwords hwords 1
  have h3 : field (printstop stop) 3 = .uninit := field_unwords hwords 2
  rw [main_stop h1 h3, h2]

theorem run_cbrs_line {cbrs tcps : Nat} (h : 1 ≤ cbrs) (s : Vars) :
    main s (unwords ["cbrs:", decimal cbrs, "tcps:", decimal tcps]) =
      { s with cbrFraction := .num (cbrs / (cbrs + tcps)) } := by
  have hcbrs : isWord "cbrs:" := by decide
  have htcps : isWord "tcps:" := by decide
  have hwords : ∀ w ∈ ["cbrs:", decimal cbrs, "tcps:", decimal tcps], isWord w := by
    simp [hcbrs, htcps, isWord_decimal]
  have h1 : field (unwords ["cbrs:", decimal cbrs, "tcps:", decimal tcps]) 1 = .input "cbrs:" :=
    field_unwords hwords 0
  have h2 : field (unwords ["cbrs:", decimal cbrs, "tcps:", decimal tcps]) 2 =
      .input (decimal cbrs) := field_unwords hwords 1
  have h3 : field (unwords ["cbrs:", decimal cbrs, "tcps:", decimal tcps]) 3 = .input "tcps:" :=
    field_unwords hwords 2
  have h4 : field (unwords ["cbrs:", decimal cbrs, "tcps:", decimal tcps]) 4 =
      .input (decimal tcps) := field_unwords hwords 3
  have hne : (cbrs + tcps : ℚ) ≠ 0 := by
    rw [← Nat.cast_add, Nat.cast_ne_zero]
    omega
  rw [main_cbrs h1 h3]
  unfold fractionRule
  simp [h1, h2, h3, h4, hne]

end Segments

structure Ready (x : Experiment) (s : Vars) : Prop where
  time : s.time = .input x.stop
  cbrs : s.cbrs = .input (decimal x.cbrs)
  size : (s.size.get (.num 0)).toNum = x.cbrSize
  cbrGoodput : (s.goodput.get (.num 0)).toNum =
    ((List.range x.cbrs).map fun f => (x.received f * x.cbrSize * 8 / 1000 : ℚ)).sum
  tcpGoodput : (s.goodput.get (.num 1)).toNum =
    (x.tcpFids.map fun f => (x.acked f * x.packetSize f * 8 / 1000 : ℚ)).sum
  fraction : s.cbrFraction = .num (x.cbrs / (x.cbrs + x.tcps))
  rate : s.cbrrate = .uninit
  printed : s.printed = []

end AppendAwk

namespace Experiment

variable (x : Experiment)

def preamble : List String :=
  (List.range x.cbrs).map (fun i => unwords ["fid", decimal i, "packet-size", decimal x.cbrSize]) ++
    x.tcpFids.map (fun i => unwords ["fid", decimal i, "packet-size", decimal (x.packetSize i)]) ++
    (List.range x.cbrs).map (fun i => printCbrPkts (x.received i) i) ++
    x.tcpFids.map (fun i => printTcpPkts (x.acked i) i) ++
    [printstop x.stop, unwords ["cbrs:", decimal x.cbrs, "tcps:", decimal x.tcps]]

theorem file_eq :
    x.file = x.preamble ++
      x.order.map fun f => classLine (decimal f) (decimal (x.pktA f)) (decimal (x.pktD f)) := by
  simp only [file, preamble, newCbr, newTcp, finishFlowstats, x.statistics, packetSize, if_true,
    ← List.map_eq_flatMap, List.append_assoc, List.cons_append, List.nil_append]

def sizes : Table :=
  AppendAwk.fillSizes x.packetSize x.tcpFids
    (AppendAwk.fillSizes (fun _ => x.cbrSize) (List.range x.cbrs) .empty)

theorem not_mem_tcpFids {f : Nat} (h : f < x.cbrs) : f ∉ x.tcpFids := by
  rw [tcpFids, List.mem_range'_1]
  omega

theorem sizes_cbr {f : Nat} (h : f < x.cbrs) :
    (x.sizes.get (.input (decimal f))).toNum = x.cbrSize := by
  rw [sizes, AppendAwk.get_fillSizes, if_neg (x.not_mem_tcpFids h), AppendAwk.get_fillSizes,
    if_pos (List.mem_range.mpr h), toNum_decimal]

theorem sizes_tcp {f : Nat} (h : f ∈ x.tcpFids) :
    (x.sizes.get (.input (decimal f))).toNum = x.packetSize f := by
  rw [sizes, AppendAwk.get_fillSizes, if_pos h, toNum_decimal]

def received₁ : AppendAwk.Vars :=
  run AppendAwk.main { AppendAwk.begin x.cbrs with size := x.sizes }
    ((List.range x.cbrs).map fun f => printCbrPkts (x.received f) f)

def acked₁ : AppendAwk.Vars :=
  run AppendAwk.main x.received₁ (x.tcpFids.map fun f => printTcpPkts (x.acked f) f)

theorem received₁_counted :
    AppendAwk.Counted x.received (.num 0) (List.range x.cbrs)
      { AppendAwk.begin x.cbrs with size := x.sizes } x.received₁ :=
  AppendAwk.run_received List.nodup_range fun _ _ => rfl

theorem acked₁_counted : AppendAwk.Counted x.acked (.num 1) x.tcpFids x.received₁ x.acked₁ := by
  apply AppendAwk.run_acked List.nodup_range'
  intro f hf
  have hcbr : f ∉ List.range x.cbrs := by
    intro h
    exact x.not_mem_tcpFids (List.mem_range.mp h) hf
  rw [x.received₁_counted.uncounted f hcbr]
  rfl

theorem run_preamble :
    run AppendAwk.main (AppendAwk.begin x.cbrs) x.preamble =
      { x.acked₁ with
        time := .input x.stop
        cbrFraction := .num (x.cbrs / (x.cbrs + x.tcps)) } := by
  unfold preamble
  rw [run_append, run_append, run_append, run_append, AppendAwk.run_sizes, AppendAwk.run_sizes, run_cons,
    run_cons, run_nil, AppendAwk.run_printstop x.stop_word, AppendAwk.run_cbrs_line x.cbrs_pos]
  rfl

theorem received₁_size : x.received₁.size = x.sizes := by
  rw [x.received₁_counted.rest]

theorem zero_key_ne_one : (Value.num 0).toStr ≠ (Value.num 1).toStr := by decide +kernel

theorem ready : AppendAwk.Ready x (run AppendAwk.main (AppendAwk.begin x.cbrs) x.preamble) := by
  have h₁ := x.received₁_counted
  have h₂ := x.acked₁_counted
  rw [run_preamble]
  refine ⟨rfl, ?_, ?_, ?_, ?_, rfl, ?_, ?_⟩
  · change x.acked₁.cbrs = _
    rw [h₂.rest, h₁.rest]
    rfl
  · change (x.acked₁.size.get (.num 0)).toNum = _
    rw [h₂.rest]
    change (x.received₁.size.get (.num 0)).toNum = _
    rw [received₁_size, ← Nat.cast_zero, get_natCast]
    exact x.sizes_cbr x.cbrs_pos
  · change (x.acked₁.goodput.get (.num 0)).toNum = _
    rw [h₂.others _ zero_key_ne_one, h₁.total]
    refine (zero_add _).trans (congrArg List.sum (List.map_congr_left fun f hf => ?_))
    change x.received f * (x.sizes.get (.input (decimal f))).toNum * 8 / 1000 = _
    rw [x.sizes_cbr (List.mem_range.mp hf)]
  · change (x.acked₁.goodput.get (.num 1)).toNum = _
    rw [h₂.total, h₁.others _ zero_key_ne_one.symm]
    refine (zero_add _).trans (congrArg List.sum (List.map_congr_left fun f hf => ?_))
    rw [received₁_size, x.sizes_tcp hf]
  · change x.acked₁.cbrrate = _
    rw [h₂.rest, h₁.rest]
    rfl
  · change x.acked₁.printed = _
    rw [h₂.rest, h₁.rest]
    rfl

end Experiment

end LearnNs2
