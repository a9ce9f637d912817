import LearnNs2.Trace.Records

/-!
# `measure-delay.awk`

The main rule in the three parts its comments give, and the loop of `END`. A
delay line is listed with the value the loop variable has when it is printed.
-/

namespace LearnNs2

open Awk Decimal

set_option autoImplicit false

namespace MeasureDelay

/-- The variables that outlive a record. No statement assigns `packetTime`. -/
structure Vars where
  highestPacketId : Value
  startTime : Table
  endTime : Table
  packetTime : Value

def begin : Vars := ⟨.num 0, .empty, .empty, .uninit⟩

def noteId (line : String) (s : Vars) : Vars :=
  let packetId := field line 12
  if s.highestPacketId.lt packetId then { s with highestPacketId := packetId } else s

def noteStart (line : String) (s : Vars) : Vars :=
  let time := field line 2
  let packetId := field line 12
  if (s.startTime.get packetId).eq (.num 0) then
    { s with startTime := s.startTime.set packetId time }
  else
    s

def noteEnd (line : String) (s : Vars) : Vars :=
  let action := field line 1
  let time := field line 2
  let flowId := field line 8
  let packetId := field line 12
  if flowId.eq (.num 2) && !action.eq (.str "d") then
    if action.eq (.str "r") then
      { s with endTime := s.endTime.set packetId time }
    else
      s
  else
    -- `packet_time`, not `packet_id`
    { s with endTime := s.endTime.set s.packetTime (.num (-1)) }

def main (s : Vars) (line : String) : Vars := noteEnd line (noteStart line (noteId line s))

def delayLine (s : Vars) (n : Nat) : Option Print :=
  let start := s.startTime.get (.num n)
  let stop := s.endTime.get (.num n)
  let packetDuration := Value.num (stop.toNum - start.toNum)
  if start.lt stop then some ⟨"%f %f\n", [start, packetDuration]⟩ else none

section Frame

variable (s : Vars) (line : String)

theorem noteId_frame : (noteId line s).startTime = s.startTime ∧
    (noteId line s).endTime = s.endTime ∧ (noteId line s).packetTime = s.packetTime := by
  unfold noteId
  dsimp only
  split <;> exact ⟨rfl, rfl, rfl⟩

theorem noteStart_frame : (noteStart line s).highestPacketId = s.highestPacketId ∧
    (noteStart line s).endTime = s.endTime ∧ (noteStart line s).packetTime = s.packetTime := by
  unfold noteStart
  dsimp only
  split <;> exact ⟨rfl, rfl, rfl⟩

theorem noteEnd_frame : (noteEnd line s).highestPacketId = s.highestPacketId ∧
    (noteEnd line s).startTime = s.startTime ∧ (noteEnd line s).packetTime = s.packetTime := by
  unfold noteEnd
  dsimp only
  split_ifs <;> exact ⟨rfl, rfl, rfl⟩

end Frame

/-- The loop of `END` from `packet_id = n` on, with as many tests as `fuel` says. -/
def delayLoop (s : Vars) : Nat → Nat → Option (List (Nat × Print))
  | 0, _ => none
  | fuel + 1, n =>
    if (Value.num n).le s.highestPacketId then
      (delayLoop s fuel (n + 1)).map fun out => ((delayLine s n).toList.map fun p => (n, p)) ++ out
    else
      some []

/-- A loop up to the number `h` makes `h + 2` tests. -/
def finish (s : Vars) : Option (List (Nat × Print)) :=
  delayLoop s (⌊s.highestPacketId.toNum⌋₊ + 2) 0

def output (trace : List String) : Option (List (Nat × Print)) := finish (run main begin trace)

section Loop

variable {s : Vars} {h : Nat}

theorem delayLoop_eq (hnum : s.highestPacketId.numeric) (hval : s.highestPacketId.toNum = h) :
    ∀ {d n : Nat}, n + d = h + 1 → delayLoop s (d + 1) n =
      some ((List.range' n d).flatMap fun n => (delayLine s n).toList.map fun p => (n, p)) := by
  intro d
  induction d with
  | zero =>
    intro n hn
    have hlast : (Value.num n).le s.highestPacketId = false := by
      apply Bool.eq_false_iff.mpr
      rw [ne_eq, le_iff_toNum rfl hnum, hval]
      change ¬ (n : ℚ) ≤ h
      rw [Nat.cast_le]
      omega
    simp [delayLoop, hlast]
  | succ d ih =>
    intro n hn
    have hmore : (Value.num n).le s.highestPacketId = true := by
      rw [le_iff_toNum rfl hnum, hval]
      change (n : ℚ) ≤ h
      rw [Nat.cast_le]
      omega
    rw [delayLoop, if_pos hmore, ih (by omega), List.range'_succ, List.flatMap_cons]
    rfl

theorem finish_eq (hnum : s.highestPacketId.numeric) (hval : s.highestPacketId.toNum = h) :
    finish s =
      some ((List.range (h + 1)).flatMap fun n => (delayLine s n).toList.map fun p => (n, p)) := by
  unfold finish
  rw [hval, Nat.floor_natCast, List.range_eq_range']
  exact delayLoop_eq hnum hval (by omega)

theorem mem_finish (hnum : s.highestPacketId.numeric) (hval : s.highestPacketId.toNum = h) :
    ∃ out, finish s = some out ∧ ∀ n p, (n, p) ∈ out ↔ n ≤ h ∧ delayLine s n = some p := by
  refine ⟨_, finish_eq hnum hval, ?_⟩
  intro n p
  simp only [List.mem_flatMap, List.mem_range, List.mem_map, Option.mem_toList, Prod.mk.injEq]
  constructor
  · rintro ⟨m, hm, q, hq, rfl, rfl⟩
    exact ⟨Nat.lt_succ_iff.mp hm, hq⟩
  · rintro ⟨hn, hp⟩
    exact ⟨n, Nat.lt_succ_iff.mpr hn, p, hp, rfl, rfl⟩

end Loop

section Invariant

/-- The time of a record; an absent one leaves the variable uninitialized. -/
def timeOf (record : Option String) : Value := record.elim .uninit fun line => field line 2

structure Tracks (trace : List String) (s : Vars) : Prop where
  stamped : ∀ line ∈ trace, Stamped line
  start : ∀ n, s.startTime.get (.input (decimal n)) = timeOf (firstRecord n trace)
  stop : ∀ n, s.endTime.get (.input (decimal n)) = timeOf (lastReceived n trace)
  unset : s.packetTime = .uninit
  numeric : s.highestPacketId.numeric
  highest : ∃ h : Nat, s.highestPacketId.toNum = h ∧ ∀ line ∈ trace, ∀ n, hasId n line → n ≤ h

variable {trace : List String} {line : String} {s : Vars} {n : Nat}

theorem timeOf_eq_zero_iff (h : ∀ line ∈ trace, Stamped line) (n : Nat) :
    (timeOf (firstRecord n trace)).eq (.num 0) ↔ firstRecord n trace = none := by
  cases hf : firstRecord n trace with
  | none => decide
  | some line =>
    have hline := h line (mem_of_firstRecord hf).1
    have hne : (field line 2).toNum ≠ 0 := ne_of_gt hline.positive
    simp only [timeOf, Option.elim_some, reduceCtorEq, iff_false]
    rw [eq_iff_toNum hline.numeric rfl]
    exact hne

theorem decimal_key_ne {m : Nat} (h : n ≠ m) :
    (Value.input (decimal n)).toStr ≠ (Value.input (decimal m)).toStr :=
  fun he => h (decimal_injective he)

theorem noteEnd_eq (line : String) (s : Vars) :
    (noteEnd line s).endTime =
      if flowTwo "r" line then s.endTime.set (field line 12) (field line 2)
      else if (field line 8).eq (.num 2) && !(field line 1).eq (.str "d") then s.endTime
      else s.endTime.set s.packetTime (.num (-1)) := by
  unfold noteEnd flowTwo
  by_cases hr : (field line 1).eq (.str "r") = true
  · have hd : (field line 1).eq (.str "d") = false := by
      apply Bool.eq_false_iff.mpr
      rw [ne_eq, eq_str, (eq_str _ _).mp hr]
      decide
    cases hf : (field line 8).eq (.num 2) <;> simp [hr, hd, hf]
  · rw [Bool.not_eq_true] at hr
    cases hf : (field line 8).eq (.num 2) <;> cases hd : (field line 1).eq (.str "d") <;>
      simp [hr, hd, hf]

theorem tracks_begin : Tracks [] begin := by
  refine ⟨by simp, fun n => rfl, fun n => rfl, rfl, rfl, 0, ?_, by simp⟩
  rfl

theorem noteId_tracks {m : Nat} (hid : field line 12 = .input (decimal m)) {h : Nat}
    (hnum : s.highestPacketId.numeric) (hval : s.highestPacketId.toNum = h) :
    (noteId line s).highestPacketId.numeric ∧
      (noteId line s).highestPacketId.toNum = (max h m : Nat) := by
  have hlt : s.highestPacketId.lt (.input (decimal m)) ↔ h < m := by
    rw [lt_iff_toNum hnum (numeric_decimal m), hval, toNum_decimal, Nat.cast_lt]
  unfold noteId
  simp only [hid]
  by_cases hc : h < m
  · rw [if_pos (hlt.mpr hc), max_eq_right hc.le]
    exact ⟨numeric_decimal m, toNum_decimal m⟩
  · rw [if_neg (fun hl => hc (hlt.mp hl)), max_eq_left (by omega)]
    exact ⟨hnum, hval⟩

theorem noteStart_tracks {m : Nat} (hid : field line 12 = .input (decimal m))
    (h : Tracks trace s) {s' : Vars} (hs : s'.startTime = s.startTime) (n : Nat) :
    (noteStart line s').startTime.get (.input (decimal n)) =
      timeOf (firstRecord n (trace ++ [line])) := by
  have hzero := timeOf_eq_zero_iff h.stamped m
  rw [← h.start m] at hzero
  have hasId_eq : hasId n line = decide (m = n) := by
    simp [hasId, hid, decimal_injective.eq_iff]
  rw [firstRecord_append, hasId_eq]
  unfold noteStart
  simp only [hid, hs]
  by_cases hn : m = n
  · subst m
    by_cases hf : firstRecord n trace = none
    · rw [if_pos (hzero.mpr hf)]
      simp [hf, timeOf]
    · rw [if_neg (fun hz => hf (hzero.mp hz)), hs, h.start n]
      obtain ⟨first, hfirst⟩ := Option.ne_none_iff_exists'.mp hf
      rw [hfirst]
      rfl
  · have hsame : (firstRecord n trace).or (if decide (m = n) then some line else none) =
        firstRecord n trace := by
      simp [hn]
    rw [hsame, ← h.start n]
    split
    · exact get_set_of_ne (decimal_key_ne (Ne.symm hn))
    · rw [hs]

theorem noteEnd_tracks {m : Nat} (hid : field line 12 = .input (decimal m))
    (h : Tracks trace s) {s' : Vars} (hs : s'.endTime = s.endTime)
    (hunset : s'.packetTime = s.packetTime) (n : Nat) :
    (noteEnd line s').endTime.get (.input (decimal n)) =
      timeOf (lastReceived n (trace ++ [line])) := by
  have hasId_eq : hasId n line = decide (m = n) := by
    simp [hasId, hid, decimal_injective.eq_iff]
  rw [lastReceived_append, hasId_eq, noteEnd_eq, hid, hunset, h.unset, hs]
  by_cases hr : flowTwo "r" line = true
  · rw [if_pos hr, hr, Bool.and_true]
    by_cases hn : m = n
    · subst m
      rw [get_set_self, if_pos (decide_eq_true rfl)]
      rfl
    · rw [get_set_of_ne (decimal_key_ne (Ne.symm hn)), h.stop n]
      simp [hn]
  · rw [Bool.not_eq_true] at hr
    rw [hr, Bool.and_false, if_neg Bool.false_ne_true, if_neg Bool.false_ne_true, ← h.stop n]
    split
    · rfl
    · exact get_set_of_ne (decimal_ne_empty n)

theorem tracks_main (h : Tracks trace s) (hline : Stamped line) :
    Tracks (trace ++ [line]) (main s line) := by
  obtain ⟨m, hid⟩ := hline.packetId
  obtain ⟨top, hval, hle⟩ := h.highest
  obtain ⟨hnum, hmax⟩ := noteId_tracks hid h.numeric hval
  obtain ⟨hstart₁, hend₁, hunset₁⟩ := noteId_frame s line
  obtain ⟨hhigh₂, hend₂, hunset₂⟩ := noteStart_frame (noteId line s) line
  obtain ⟨hhigh₃, hstart₃, hunset₃⟩ := noteEnd_frame (noteStart line (noteId line s)) line
  unfold main
  refine ⟨?_, fun n => ?_, fun n => ?_, ?_, ?_, max top m, ?_, ?_⟩
  · intro l hl
    rcases List.mem_append.mp hl with hl | hl
    · exact h.stamped l hl
    · exact List.mem_singleton.mp hl ▸ hline
  · rw [hstart₃]
    exact noteStart_tracks hid h hstart₁ n
  · exact noteEnd_tracks hid h (hend₂.trans hend₁) (hunset₂.trans hunset₁) n
  · rw [hunset₃, hunset₂, hunset₁, h.unset]
  · rwa [hhigh₃, hhigh₂]
  · rwa [hhigh₃, hhigh₂]
  · intro l hl n hn
    rcases List.mem_append.mp hl with hl | hl
    · exact (hle l hl n hn).trans (le_max_left top m)
    · rw [List.mem_singleton.mp hl, hasId_iff, hid] at hn
      obtain rfl := decimal_injective (Value.input.inj hn)
      exact le_max_right top m

theorem tracks_run (h : ∀ line ∈ trace, Stamped line) : Tracks trace (run main begin trace) := by
  apply run_induct main begin Tracks trace tracks_begin
  intro pre t line hline ht
  exact tracks_main ht (h line hline)

def lineOf (first last : String) : Print :=
  ⟨"%f %f\n", [field first 2, .num ((field last 2).toNum - (field first 2).toNum)]⟩

theorem delayLine_run (h : ∀ line ∈ trace, Stamped line) (n : Nat) (p : Print) :
    delayLine (run main begin trace) n = some p ↔
      ∃ first last, firstRecord n trace = some first ∧ lastReceived n trace = some last ∧
        (field first 2).toNum < (field last 2).toNum ∧ p = lineOf first last := by
  have ht := tracks_run h
  unfold delayLine
  rw [get_natCast, get_natCast, ht.start n, ht.stop n]
  cases hl : lastReceived n trace with
  | none =>
    have hno : (timeOf (firstRecord n trace)).lt .uninit = false := by
      cases hf : firstRecord n trace with
      | none => rfl
      | some first =>
        have hfirst := h first (mem_of_firstRecord hf).1
        apply Bool.eq_false_iff.mpr
        change ¬ (field first 2).lt .uninit = true
        rw [lt_iff_toNum hfirst.numeric rfl]
        exact not_lt.mpr hfirst.positive.le
    change (if (timeOf (firstRecord n trace)).lt .uninit then _ else none) = some p ↔ _
    rw [hno]
    simp
  | some last =>
    obtain ⟨hmem, hid⟩ := mem_of_lastReceived hl
    obtain ⟨first, hf⟩ : ∃ first, firstRecord n trace = some first :=
      Option.isSome_iff_exists.mp (List.find?_isSome.mpr ⟨last, hmem, hid⟩)
    have hlt := lt_iff_toNum (h first (mem_of_firstRecord hf).1).numeric (h last hmem).numeric
    simp only [hf, timeOf, Option.elim_some, Option.some.injEq, lineOf]
    by_cases hc : (field first 2).toNum < (field last 2).toNum
    · simp [hlt.mpr hc, hc, eq_comm]
    · simp [hlt, hc]

/-- The script terminates with one line for each packet with a later reception. -/
theorem output_spec (h : ∀ line ∈ trace, Stamped line) :
    ∃ out, output trace = some out ∧ ∀ n p, (n, p) ∈ out ↔
      ∃ first last, firstRecord n trace = some first ∧ lastReceived n trace = some last ∧
        (field first 2).toNum < (field last 2).toNum ∧ p = lineOf first last := by
  have ht := tracks_run h
  obtain ⟨top, hval, hle⟩ := ht.highest
  obtain ⟨out, hout, hmem⟩ := mem_finish ht.numeric hval
  refine ⟨out, hout, ?_⟩
  intro n p
  rw [hmem, delayLine_run h]
  constructor
  · exact And.right
  · rintro ⟨first, last, hf, hrest⟩
    obtain ⟨hfirst, hid⟩ := mem_of_firstRecord hf
    exact ⟨hle first hfirst n hid, first, last, hf, hrest⟩

end Invariant

end MeasureDelay

end LearnNs2
