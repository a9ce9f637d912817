import LearnNs2.Lib.Awk

/-!
# The awk program of `finish_flowstats`

It sums the arrivals and drops of consecutive records of one flow and prints a
class line whenever the flow changes, and once more at the end.
-/

namespace LearnNs2

open Awk Decimal

set_option autoImplicit false

def classLine (fid arrivals drops : String) : String :=
  unwords ["class", fid, "arriving_pkts", arrivals, "dropped_pkts", drops]

namespace Flowstats

structure Vars where
  arrivals : Value
  drops : Value
  prev : Value
  printed : List String

def begin : Vars := ⟨.num 0, .num 0, .num (-1), []⟩

/-- The `printf` of the program: three times `%d`. -/
def report (s : Vars) : String := classLine s.prev.formatD s.arrivals.formatD s.drops.formatD

def count (s : Vars) (line : String) : Vars :=
  { s with
    arrivals := .num (s.arrivals.toNum + (field line 8).toNum)
    drops := .num (s.drops.toNum + (field line 18).toNum) }

def main (s : Vars) (line : String) : Vars :=
  if s.prev.eq (.num (-1)) then
    { count s line with prev := field line 2 }
  else if (field line 2).eq s.prev then
    count s line
  else
    { arrivals := field line 8
      drops := field line 18
      prev := field line 2
      printed := s.printed ++ [report s] }

def output (infile : List String) : List String :=
  let s := run main begin infile
  s.printed ++ [report s]

end Flowstats

/-- A record of the flow monitor with its flow, arrivals and drops. -/
structure IsFlow (line : String) (fid pktA pktD : Nat) : Prop where
  fid : field line 2 = .input (decimal fid)
  arrivals : field line 8 = .input (decimal pktA)
  drops : field line 18 = .input (decimal pktD)

namespace Flowstats

section Steps

variable {line : String} {s : Vars} {fid f a d : Nat}

theorem main_first (h : IsFlow line fid a d) :
    main begin line = ⟨.num a, .num d, .input (decimal fid), []⟩ := by
  have hfirst : begin.prev.eq (.num (-1)) = true := by decide +kernel
  rw [main, if_pos hfirst, count, h.fid, h.arrivals, h.drops]
  simp [begin]

/-- Once there is a flow, the program does not take it for none. -/
theorem prev_ne_none (hp : s.prev = .input (decimal f)) : ¬ s.prev.eq (.num (-1)) := by
  rw [hp, eq_iff_toNum (numeric_decimal f) rfl, toNum_decimal]
  change ¬ (f : ℚ) = -1
  have : (0 : ℚ) ≤ f := Nat.cast_nonneg f
  linarith

theorem main_same (h : IsFlow line fid a d) (hp : s.prev = .input (decimal fid)) :
    main s line = { s with
      arrivals := .num (s.arrivals.toNum + a)
      drops := .num (s.drops.toNum + d) } := by
  have hsame : (field line 2).eq s.prev := by
    rw [hp, h.fid, eq_iff_toNum (numeric_decimal fid) (numeric_decimal fid)]
  rw [main, if_neg (prev_ne_none hp), if_pos hsame, count, h.arrivals, h.drops, toNum_decimal,
    toNum_decimal]

theorem main_other (h : IsFlow line fid a d) (hp : s.prev = .input (decimal f)) (hne : fid ≠ f) :
    main s line = ⟨.input (decimal a), .input (decimal d), .input (decimal fid),
      s.printed ++ [report s]⟩ := by
  have hother : ¬ (field line 2).eq s.prev := by
    rw [hp, h.fid, eq_iff_toNum (numeric_decimal fid) (numeric_decimal f), toNum_decimal,
      toNum_decimal, Nat.cast_inj]
    exact hne
  rw [main, if_neg (prev_ne_none hp), if_neg hother, h.fid, h.arrivals, h.drops]

end Steps

variable {record : Nat → String} {pktA pktD : Nat → Nat}

structure Holds (pktA pktD : Nat → Nat) (fs : List Nat) (fid : Nat) (s : Vars) : Prop where
  prev : s.prev = .input (decimal fid)
  arrivals : s.arrivals.toNum = pktA fid
  drops : s.drops.toNum = pktD fid
  printed : s.printed =
    fs.map fun f => classLine (decimal f) (decimal (pktA f)) (decimal (pktD f))

theorem Holds.report {fs : List Nat} {fid : Nat} {s : Vars} (h : Holds pktA pktD fs fid s) :
    report s = classLine (decimal fid) (decimal (pktA fid)) (decimal (pktD fid)) := by
  have hfid : (Value.input (decimal fid)).toNum = fid := toNum_decimal fid
  rw [Flowstats.report, h.prev, formatD_of_natCast hfid, formatD_of_natCast h.arrivals,
    formatD_of_natCast h.drops]

theorem holds_first {fid : Nat} (h : IsFlow (record fid) fid (pktA fid) (pktD fid)) :
    Holds pktA pktD [] fid (main begin (record fid)) := by
  rw [main_first h]
  exact ⟨rfl, rfl, rfl, rfl⟩

theorem holds_next {fs : List Nat} {f fid : Nat} {s : Vars} (hs : Holds pktA pktD fs f s)
    (h : IsFlow (record fid) fid (pktA fid) (pktD fid)) (hne : fid ≠ f) :
    Holds pktA pktD (fs ++ [f]) fid (main s (record fid)) := by
  rw [main_other h hs.prev hne]
  refine ⟨rfl, toNum_decimal _, toNum_decimal _, ?_⟩
  change s.printed ++ [Flowstats.report s] = _
  rw [hs.printed, hs.report, List.map_append]
  rfl

/-- Over flows that are listed one by one the program prints one line for each. -/
theorem holds_run {fs : List Nat} {fid : Nat} (hdistinct : (fs ++ [fid]).Nodup)
    (h : ∀ f ∈ fs ++ [fid], IsFlow (record f) f (pktA f) (pktD f)) :
    Holds pktA pktD fs fid (run main begin ((fs ++ [fid]).map record)) := by
  induction fs using List.reverseRecOn generalizing fid with
  | nil => exact holds_first (h fid (by simp))
  | append_singleton fs f ih =>
    rw [List.map_append, run_append]
    apply holds_next
    · apply ih
      · exact (List.nodup_append.mp hdistinct).1
      · intro g hg
        exact h g (List.mem_append_left _ hg)
    · exact h fid (by simp)
    · rintro rfl
      simp [List.nodup_append] at hdistinct

theorem output_eq {order : List Nat} (hne : order ≠ []) (hdistinct : order.Nodup)
    (h : ∀ f ∈ order, IsFlow (record f) f (pktA f) (pktD f)) :
    output (order.map record) =
      order.map fun f => classLine (decimal f) (decimal (pktA f)) (decimal (pktD f)) := by
  obtain ⟨fs, fid, rfl⟩ := (List.eq_nil_or_concat' order).resolve_left hne
  have hs := holds_run hdistinct h
  unfold output
  dsimp only
  rw [hs.printed, hs.report, List.map_append]
  rfl

end Flowstats

end LearnNs2
