import LearnNs2.Lib.Binary64
import Mathlib.Algebra.Order.Floor.Semifield

/-!
# Doubles as text in Tcl

With `tcl_precision` at its default of zero a double is written with the fewest
digits that read back as the same double, in fixed or in scientific notation
according to its exponent.
-/

namespace Tcl

open Binary64 Decimal

set_option autoImplicit false

section Digits

/-- A multiple of `10 ^ e` next to the double `v` that reads back as `v`, and of
two the nearer one, or the larger one in the middle between them. -/
def candidate (v : ℚ) (e : ℤ) : Option ℕ :=
  let m := ⌊v / 10 ^ e⌋₊
  let below := decide (m ≠ 0) && decide (nearest (m * 10 ^ e) = v)
  let above := decide (nearest ((m + 1 : ℕ) * 10 ^ e) = v)
  if below && (!above || decide (2 * (v - m * 10 ^ e) < 10 ^ e)) then some m
  else if above then some (m + 1)
  else none

/-- The last decimal places of doubles, the coarsest first. -/
def places : List ℤ := (List.range 1383).map fun k : ℕ => 308 - (k : ℤ)

/-- The digits of a positive double and the place of the last one. -/
def shortest (v : ℚ) : ℕ × ℤ :=
  (places.findSome? fun e => (candidate v e).map fun m => (m, e)).getD (0, 0)

/-- What is true of the digits that are found: they read back, and the number
they stand for is next to `v`. -/
structure ReadsBack (v : ℚ) (m : ℕ) (e : ℤ) : Prop where
  pos : 0 < m
  same : nearest (m * 10 ^ e) = v
  near : m = ⌊v / 10 ^ e⌋₊ ∨ m = ⌊v / 10 ^ e⌋₊ + 1

variable {v q : ℚ} {m k : ℕ} {e : ℤ}

theorem ten_zpow_pos (e : ℤ) : (0 : ℚ) < 10 ^ e := zpow_pos (by norm_num) e

theorem mul_ten_zpow_of_nonneg (m : ℕ) (he : 0 ≤ e) :
    (m : ℚ) * 10 ^ e = ((m * 10 ^ e.toNat : ℕ) : ℚ) := by
  have hexp : (e.toNat : ℤ) = e := Int.toNat_of_nonneg he
  push_cast
  rw [← zpow_natCast, hexp]

theorem ten_zpow_of_neg (he : e < 0) : (10 : ℚ) ^ e = (((10 ^ (-e).toNat : ℕ) : ℚ))⁻¹ := by
  have hexp : ((-e).toNat : ℤ) = -e := Int.toNat_of_nonneg (by omega)
  push_cast
  rw [← zpow_natCast, hexp, zpow_neg, inv_inv]

theorem readsBack_of_candidate (h : candidate v e = some m) : ReadsBack v m e := by
  unfold candidate at h
  dsimp only at h
  split_ifs at h with hbelow habove
  · simp only [Bool.and_eq_true, decide_eq_true_eq] at hbelow
    obtain rfl := Option.some.inj h
    exact ⟨Nat.pos_of_ne_zero hbelow.1.1, hbelow.1.2, Or.inl rfl⟩
  · obtain rfl := Option.some.inj h
    exact ⟨Nat.succ_pos _, of_decide_eq_true habove, Or.inr rfl⟩

theorem candidate_of_exact (hk : 0 < k) (hv : v = k * 10 ^ e) (hdouble : nearest v = v) :
    candidate v e = some k := by
  have hpos := ten_zpow_pos e
  have hfloor : ⌊v / 10 ^ e⌋₊ = k := by
    rw [hv, mul_div_cancel_right₀ _ hpos.ne', Nat.floor_natCast]
  have hexact : nearest (k * 10 ^ e) = v := by rw [← hv, hdouble]
  have hclose : 2 * (v - k * 10 ^ e) < 10 ^ e := by
    rw [hv, sub_self, mul_zero]
    exact hpos
  unfold candidate
  rw [hfloor]
  simp [hk.ne', hexact, hclose]

/-- A binary fraction is a decimal fraction with as many places. -/
theorem exists_eq_mul_ten_zpow (k N : ℕ) {j : ℤ} (hj : -(N : ℤ) ≤ j) :
    ∃ m : ℕ, (k : ℚ) * 2 ^ j = m * 10 ^ (-(N : ℤ)) := by
  have hexp : ((j + N).toNat : ℤ) = j + N := Int.toNat_of_nonneg (by omega)
  have hten : (10 : ℚ) ^ N = 2 ^ N * 5 ^ N := by
    rw [← mul_pow]
    norm_num
  refine ⟨k * 2 ^ (j + N).toNat * 5 ^ N, ?_⟩
  rw [zpow_neg, ← div_eq_mul_inv, eq_div_iff (ten_zpow_pos _).ne', zpow_natCast, hten]
  push_cast
  rw [← zpow_natCast 2 (j + N).toNat, hexp, zpow_add₀ (by norm_num), zpow_natCast]
  ring

/-- The finest place is fine enough for every double. -/
theorem exists_exact (hq : 0 < q) (hpos : 0 < nearest q) :
    ∃ k : ℕ, 0 < k ∧ nearest q = k * 10 ^ (-1074 : ℤ) := by
  obtain ⟨k, j, -, hj, heq⟩ := exists_nearest_eq hq
  obtain ⟨m, hm⟩ := exists_eq_mul_ten_zpow k 1074 (by omega)
  rw [← heq, Nat.cast_ofNat] at hm
  refine ⟨m, Nat.pos_of_ne_zero ?_, hm⟩
  rintro rfl
  rw [Nat.cast_zero, zero_mul] at hm
  exact hpos.ne' hm

theorem readsBack_shortest (hq : 0 < q) (hpos : 0 < nearest q) :
    ReadsBack (nearest q) (shortest (nearest q)).1 (shortest (nearest q)).2 := by
  obtain ⟨k, hk, heq⟩ := exists_exact hq hpos
  have hmem : (-1074 : ℤ) ∈ places := by
    simp only [places, List.mem_map, List.mem_range]
    exact ⟨1382, by norm_num, by norm_num⟩
  have hlast := candidate_of_exact hk heq (nearest_nearest hq)
  cases hfind : places.findSome? fun e => (candidate (nearest q) e).map fun m => (m, e) with
  | none =>
    have hnone := List.findSome?_eq_none_iff.mp hfind _ hmem
    rw [hlast] at hnone
    cases hnone
  | some p =>
    obtain ⟨e, -, hp⟩ := List.exists_of_findSome?_eq_some hfind
    obtain ⟨m, hm, rfl⟩ := Option.map_eq_some_iff.mp hp
    rw [shortest, hfind]
    exact readsBack_of_candidate hm

/-- Both neighbours of `v` are within a factor of two, since zero is not one. -/
theorem ReadsBack.lt_two_mul (h : ReadsBack v m e) : v < 2 * (m * 10 ^ e) := by
  have hpos := ten_zpow_pos e
  have hstep : v < (⌊v / 10 ^ e⌋₊ + 1) * 10 ^ e := by
    rw [← div_lt_iff₀ hpos]
    exact Nat.lt_floor_add_one _
  have hone : (1 : ℚ) ≤ m := Nat.one_le_cast.mpr h.pos
  have hunit : (10 : ℚ) ^ e ≤ m * 10 ^ e := le_mul_of_one_le_left hpos.le hone
  rcases h.near with hm | hm
  · rw [← hm] at hstep
    linarith
  · have hcast : (m : ℚ) = ⌊v / 10 ^ e⌋₊ + 1 := by
      rw [hm]
      push_cast
      rfl
    rw [← hcast] at hstep
    linarith

/-- Reading back keeps the order with respect to a double. -/
theorem ReadsBack.le_of_le (h : ReadsBack v m e) {r : ℚ} (hr : 0 < r)
    (hle : r ≤ m * 10 ^ e) : nearest r ≤ v := by
  rw [← h.same]
  exact nearest_mono hr hle

/-- Numbers with no finer places than the digits keep the order as well. -/
theorem ReadsBack.mul_le_of_le (h : ReadsBack v m e) (hle : k * 10 ^ e ≤ v) :
    k * 10 ^ e ≤ (m : ℚ) * 10 ^ e := by
  have hpos := ten_zpow_pos e
  have hfloor : k ≤ ⌊v / 10 ^ e⌋₊ := Nat.le_floor ((le_div_iff₀ hpos).mpr hle)
  have hkm : k ≤ m := by
    rcases h.near with hm | hm
    · omega
    · omega
  exact mul_le_mul_of_nonneg_right (Nat.cast_le.mpr hkm) hpos.le

theorem ReadsBack.zpow_le (h : ReadsBack v m e) {x : ℤ} (hle : 10 ^ x ≤ v) :
    (10 : ℚ) ^ x ≤ m * 10 ^ e := by
  rcases le_or_gt e x with hex | hxe
  · have hexp : ((x - e).toNat : ℤ) = x - e := Int.toNat_of_nonneg (by omega)
    have heq : (10 : ℚ) ^ x = ((10 ^ (x - e).toNat : ℕ) : ℚ) * 10 ^ e := by
      push_cast
      rw [← zpow_natCast, hexp, ← zpow_add₀ (by norm_num), sub_add_cancel]
    rw [heq] at hle ⊢
    exact h.mul_le_of_le hle
  · have hone : (1 : ℚ) ≤ m := Nat.one_le_cast.mpr h.pos
    calc (10 : ℚ) ^ x ≤ 10 ^ e := zpow_le_zpow_right₀ (by norm_num) hxe.le
      _ ≤ m * 10 ^ e := le_mul_of_one_le_left (ten_zpow_pos e).le hone

/-- The digits in front of the point are those of the double. -/
theorem ReadsBack.floor_eq (h : ReadsBack v m e) (hv : 0 ≤ v) (hle : v < 1000) :
    ⌊(m : ℚ) * 10 ^ e⌋₊ = ⌊v⌋₊ := by
  have hpos := ten_zpow_pos e
  have hnonneg : (0 : ℚ) ≤ m * 10 ^ e := mul_nonneg (Nat.cast_nonneg m) hpos.le
  have hsmall : ⌊v⌋₊ < 1000 := (Nat.floor_lt hv).mpr hle
  apply le_antisymm
  · -- the next integer is a double that `v` is below
    by_contra hlt
    have hnext : ((⌊v⌋₊ + 1 : ℕ) : ℚ) ≤ m * 10 ^ e :=
      (Nat.le_floor_iff hnonneg).mp (not_le.mp hlt)
    have hread := h.le_of_le (Nat.cast_pos.mpr (Nat.succ_pos _)) hnext
    rw [nearest_natCast (by omega)] at hread
    push_cast at hread
    linarith [Nat.lt_floor_add_one v]
  · rcases le_or_gt 0 e with hint | hfrac
    · -- without places after the point the digits are the double itself
      have hcast := mul_ten_zpow_of_nonneg m hint
      have hbound : m * 10 ^ e.toNat < 1000 := by
        by_contra hge
        have hthousand : ((1000 : ℕ) : ℚ) ≤ m * 10 ^ e := by
          rw [hcast]
          exact Nat.cast_le.mpr (not_lt.mp hge)
        have hread := h.le_of_le (by norm_num) hthousand
        rw [nearest_natCast (by norm_num)] at hread
        exact absurd hle (not_lt.mpr hread)
      have hsame := h.same
      rw [hcast, nearest_natCast (by omega)] at hsame
      rw [hcast, hsame]
    · have hcast : ((⌊v⌋₊ * 10 ^ (-e).toNat : ℕ) : ℚ) * 10 ^ e = ⌊v⌋₊ := by
        have hne : ((10 ^ (-e).toNat : ℕ) : ℚ) ≠ 0 := by positivity
        rw [ten_zpow_of_neg hfrac, Nat.cast_mul, mul_inv_cancel_right₀ hne]
      have hkeep : ((⌊v⌋₊ * 10 ^ (-e).toNat : ℕ) : ℚ) * 10 ^ e ≤ m * 10 ^ e := by
        apply h.mul_le_of_le
        rw [hcast]
        exact Nat.floor_le hv
      rw [hcast] at hkeep
      exact Nat.le_floor hkeep

end Digits

section Text

/-- The last `j` digits of a number, with zeros in front where there are fewer. -/
def padded (j r : ℕ) : List Char :=
  List.replicate (j - (decimal r).length) '0' ++ (decimal r).toList

/-- The digits of `m` with a point before the last `j`. -/
def withPoint (m j : ℕ) : List Char :=
  (decimal (m / 10 ^ j)).toList ++ '.' :: padded j (m % 10 ^ j)

def fixed (m : ℕ) (e : ℤ) : List Char :=
  if e < 0 then withPoint m (-e).toNat else (decimal (m * 10 ^ e.toNat)).toList ++ ['.', '0']

/-- The exponent of the first digit of `m * 10 ^ e`. -/
def exponent (m : ℕ) (e : ℤ) : ℤ := e + Nat.log 10 m

def scientific (m : ℕ) (e : ℤ) : List Char :=
  let x := exponent m e
  (if m < 10 then (decimal m).toList else withPoint m (Nat.log 10 m)) ++
    'e' :: (if x < 0 then '-' else '+') :: (decimal x.natAbs).toList

/-- `Tcl_PrintDouble` of a double that is not negative. -/
def printDouble : Option ℚ → String
  | none => "Inf"
  | some v =>
    if v = 0 then "0.0"
    else
      let (m, e) := shortest v
      String.ofList (if exponent m e < -4 ∨ 16 < exponent m e then scientific m e else fixed m e)

variable {m : ℕ} {e : ℤ}

theorem zpow_exponent_le (hm : 0 < m) : (10 : ℚ) ^ exponent m e ≤ m * 10 ^ e := by
  have hlog : ((10 ^ Nat.log 10 m : ℕ) : ℚ) ≤ m := Nat.cast_le.mpr (Nat.pow_log_le_self 10 hm.ne')
  rw [exponent, add_comm, zpow_add₀ (by norm_num), zpow_natCast]
  push_cast at hlog
  exact mul_le_mul_of_nonneg_right hlog (ten_zpow_pos e).le

theorem lt_zpow_exponent (m : ℕ) (e : ℤ) : (m : ℚ) * 10 ^ e < 10 ^ (exponent m e + 1) := by
  have hlog : (m : ℚ) < ((10 ^ (Nat.log 10 m + 1) : ℕ) : ℚ) :=
    Nat.cast_lt.mpr (Nat.lt_pow_succ_log_self (by norm_num) m)
  have hsplit : exponent m e + 1 = ((Nat.log 10 m + 1 : ℕ) : ℤ) + e := by
    unfold exponent
    push_cast
    ring
  rw [hsplit, zpow_add₀ (by norm_num), zpow_natCast]
  push_cast at hlog
  exact mul_lt_mul_of_pos_right hlog (ten_zpow_pos e)

/-- In front of the point stands the whole part. -/
theorem exists_fixed_eq (m : ℕ) (e : ℤ) :
    ∃ rest, fixed m e = (decimal ⌊(m : ℚ) * 10 ^ e⌋₊).toList ++ '.' :: rest := by
  unfold fixed
  by_cases he : e < 0
  · have hfloor : ⌊(m : ℚ) * 10 ^ e⌋₊ = m / 10 ^ (-e).toNat := by
      rw [ten_zpow_of_neg he, ← div_eq_mul_inv, Nat.floor_div_natCast, Nat.floor_natCast]
    rw [if_pos he, hfloor]
    exact ⟨_, rfl⟩
  · have hfloor : ⌊(m : ℚ) * 10 ^ e⌋₊ = m * 10 ^ e.toNat := by
      rw [mul_ten_zpow_of_nonneg m (not_lt.mp he), Nat.floor_natCast]
    rw [if_neg he, hfloor]
    exact ⟨_, rfl⟩

end Text

end Tcl
