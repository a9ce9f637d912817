import LearnNs2.Lib.Decimal
import Mathlib.Tactic.Linarith
import Mathlib.Tactic.NormNum
import Mathlib.Tactic.Positivity
import Mathlib.Tactic.Ring

/-!
# Double precision

The doubles that are not negative, as the rational numbers they are: rounding to
the nearest one with ties to even, in the normal range and below it, and the
overflow to infinity above it.
-/

namespace Binary64

open Decimal

set_option autoImplicit false

/-- The exponent of the last binary digit of the doubles around `q`. -/
def lastPlace (q : ℚ) : ℤ := max (Int.log 2 q - 52) (-1074)

def ulp (q : ℚ) : ℚ := 2 ^ lastPlace q

/-- The nearest double, if doubles had no largest one. -/
def nearest (q : ℚ) : ℚ := roundEven (q / ulp q) * ulp q

/-- The spacing of the largest doubles. -/
def topUlp : ℚ := 2 ^ 971

/-- The double for a number, with `none` for infinity from `2 ^ 1024` on. -/
def double (q : ℚ) : Option ℚ := if nearest q < 2 ^ 53 * topUlp then some (nearest q) else none

/-- Division of a finite double by a positive double. -/
def divide (x : ℚ) : Option ℚ → Option ℚ
  | none => some 0
  | some y => double (x / y)

section RoundEven

variable {x y : ℚ}

@[simp] theorem roundEven_intCast (k : ℤ) : roundEven (k : ℚ) = k := by
  simp [roundEven]

theorem roundEven_error (x : ℚ) : |(roundEven x : ℚ) - x| ≤ 1 / 2 := by
  have hlo := Int.floor_le x
  have hhi := Int.lt_floor_add_one x
  unfold roundEven
  dsimp only
  split_ifs with hlt heven
  · rw [abs_le]
    constructor <;> linarith
  · rw [abs_le]
    constructor <;> linarith
  · rw [abs_le, Int.cast_add, Int.cast_one]
    constructor <;> linarith

/-- Numbers that are rounded across each other are both the middle. -/
theorem roundEven_mono (h : x ≤ y) : roundEven x ≤ roundEven y := by
  by_contra hlt
  have hstep : (roundEven y : ℚ) + 1 ≤ roundEven x := by
    exact_mod_cast not_le.mp hlt
  have hx := (abs_le.mp (roundEven_error x)).2
  have hy := (abs_le.mp (roundEven_error y)).1
  have heq : x = y := by linarith
  exact hlt (by rw [heq])

end RoundEven

section Places

variable {q r : ℚ}

theorem ulp_pos (q : ℚ) : 0 < ulp q := zpow_pos (by norm_num) _

theorem lastPlace_mono (hq : 0 < q) (h : q ≤ r) : lastPlace q ≤ lastPlace r := by
  have hlog := Int.log_mono_right (b := 2) hq h
  unfold lastPlace
  omega

theorem lastPlace_le {k : ℕ} {j : ℤ} (h0 : 0 < k) (hk : k < 2 ^ 53) (hj : -1074 ≤ j) :
    lastPlace (k * 2 ^ j) ≤ j := by
  have hpos : (0 : ℚ) < k * 2 ^ j := mul_pos (Nat.cast_pos.mpr h0) (zpow_pos (by norm_num) _)
  have hlt : (k : ℚ) * 2 ^ j < ((2 : ℕ) : ℚ) ^ (53 + j) := by
    rw [Nat.cast_ofNat, zpow_add₀ (by norm_num)]
    apply mul_lt_mul_of_pos_right _ (zpow_pos (by norm_num) _)
    exact_mod_cast hk
  have hlog := (Int.lt_zpow_iff_log_lt (by norm_num) hpos).mp hlt
  unfold lastPlace
  omega

/-- No more than 53 binary digits above the last place. -/
theorem lt_mul_ulp (q : ℚ) : q < 2 ^ 53 * ulp q := by
  have hlog := Int.lt_zpow_succ_log_self (b := 2) (by norm_num) q
  have hle : (2 : ℚ) ^ (Int.log 2 q + 1) ≤ 2 ^ (53 + lastPlace q) := by
    apply zpow_le_zpow_right₀ (by norm_num)
    unfold lastPlace
    omega
  rw [zpow_add₀ (by norm_num) 53] at hle
  rw [Nat.cast_ofNat] at hlog
  exact lt_of_lt_of_le hlog hle

/-- And no fewer in the normal range. -/
theorem mul_ulp_le (hq : 0 < q) (h : lastPlace q = Int.log 2 q - 52) : 2 ^ 52 * ulp q ≤ q := by
  have hlog := Int.zpow_log_le_self (b := 2) (by norm_num) hq
  rw [Nat.cast_ofNat] at hlog
  have heq : (2 : ℚ) ^ 52 * ulp q = 2 ^ Int.log 2 q := by
    rw [ulp, h, zpow_sub₀ (by norm_num)]
    norm_num
    ring
  rw [heq]
  exact hlog

end Places

section Round

variable {q r : ℚ}

theorem nearest_eq_self {k : ℕ} {j : ℤ} (hk : k < 2 ^ 53) (hj : -1074 ≤ j) :
    nearest (k * 2 ^ j) = k * 2 ^ j := by
  rcases Nat.eq_zero_or_pos k with rfl | h0
  · simp [nearest, roundEven]
  have hle := lastPlace_le h0 hk hj
  have hint : (k : ℚ) * 2 ^ j / ulp (k * 2 ^ j) =
      ((k * 2 ^ (j - lastPlace (k * 2 ^ j)).toNat : ℤ) : ℚ) := by
    have hexp : ((j - lastPlace (k * 2 ^ j)).toNat : ℤ) = j - lastPlace (k * 2 ^ j) :=
      Int.toNat_of_nonneg (by omega)
    rw [ulp, mul_div_assoc, ← zpow_sub₀ (by norm_num)]
    push_cast
    rw [← zpow_natCast, hexp]
  rw [nearest, hint, roundEven_intCast, ← hint]
  exact div_mul_cancel₀ _ (ulp_pos _).ne'

theorem nearest_natCast {k : ℕ} (hk : k < 2 ^ 53) : nearest k = k := by
  have h := nearest_eq_self (j := 0) hk (by norm_num)
  rwa [zpow_zero, mul_one] at h

theorem nearest_le_mul_ulp (q : ℚ) : nearest q ≤ 2 ^ 53 * ulp q := by
  apply mul_le_mul_of_nonneg_right _ (ulp_pos q).le
  have hle : q / ulp q ≤ ((2 ^ 53 : ℤ) : ℚ) := by
    rw [div_le_iff₀ (ulp_pos q)]
    push_cast
    exact (lt_mul_ulp q).le
  have h := roundEven_mono hle
  rw [roundEven_intCast] at h
  exact_mod_cast h

theorem mul_ulp_le_nearest (hq : 0 < q) (h : lastPlace q = Int.log 2 q - 52) :
    2 ^ 52 * ulp q ≤ nearest q := by
  apply mul_le_mul_of_nonneg_right _ (ulp_pos q).le
  have hle : ((2 ^ 52 : ℤ) : ℚ) ≤ q / ulp q := by
    rw [le_div_iff₀ (ulp_pos q)]
    push_cast
    exact mul_ulp_le hq h
  have h := roundEven_mono hle
  rw [roundEven_intCast] at h
  exact_mod_cast h

/-- Within one binade by the rounding of integers, and between two by the power
of two that separates them. -/
theorem nearest_mono (hq : 0 < q) (h : q ≤ r) : nearest q ≤ nearest r := by
  rcases (lastPlace_mono hq h).lt_or_eq with hlt | heq
  · have hnormal : lastPlace r = Int.log 2 r - 52 := by
      unfold lastPlace at hlt ⊢
      omega
    have hulp : 2 * ulp q ≤ ulp r := by
      have hle : (2 : ℚ) ^ (1 + lastPlace q) ≤ 2 ^ lastPlace r :=
        zpow_le_zpow_right₀ (by norm_num) (by omega)
      rwa [zpow_add₀ (by norm_num), zpow_one] at hle
    calc nearest q ≤ 2 ^ 53 * ulp q := nearest_le_mul_ulp q
      _ = 2 ^ 52 * (2 * ulp q) := by ring
      _ ≤ 2 ^ 52 * ulp r := by linarith
      _ ≤ nearest r := mul_ulp_le_nearest (hq.trans_le h) hnormal
  · have hulp : ulp q = ulp r := by rw [ulp, ulp, heq]
    rw [nearest, nearest, hulp]
    apply mul_le_mul_of_nonneg_right _ (ulp_pos r).le
    exact_mod_cast roundEven_mono (div_le_div_of_nonneg_right h (ulp_pos r).le)

theorem nearest_error (q : ℚ) : |nearest q - q| ≤ ulp q / 2 := by
  have hpos := ulp_pos q
  have heq : nearest q - q = (roundEven (q / ulp q) - q / ulp q) * ulp q := by
    rw [sub_mul, div_mul_cancel₀ _ hpos.ne', nearest]
  rw [heq, abs_mul, abs_of_pos hpos]
  linarith [mul_le_mul_of_nonneg_right (roundEven_error (q / ulp q)) hpos.le]

/-- The relative error in the normal range. -/
theorem nearest_relative (h : 2 ^ (-1022 : ℤ) ≤ q) : |nearest q - q| ≤ q / 2 ^ 53 := by
  have hq : 0 < q := lt_of_lt_of_le (zpow_pos (by norm_num) _) h
  have hlog : (-1022 : ℤ) ≤ Int.log 2 q := by
    apply (Int.zpow_le_iff_le_log (by norm_num) hq).mp
    exact_mod_cast h
  have hnormal : lastPlace q = Int.log 2 q - 52 := by
    unfold lastPlace
    omega
  have hulp := mul_ulp_le hq hnormal
  have herror := nearest_error q
  rw [le_div_iff₀ (by norm_num)]
  linarith

theorem nearest_pos (h : 2 ^ (-1022 : ℤ) ≤ q) : 0 < nearest q := by
  have hq : 0 < q := lt_of_lt_of_le (zpow_pos (by norm_num) _) h
  have herror := (abs_le.mp (nearest_relative h)).1
  have hhalf : q / 2 ^ 53 < q := div_lt_self hq (by norm_num)
  linarith

/-- What is rounded has 53 binary digits at most. -/
theorem exists_nearest_eq (hq : 0 < q) :
    ∃ (k : ℕ) (j : ℤ), k < 2 ^ 53 ∧ -1074 ≤ j ∧ nearest q = k * 2 ^ j := by
  have hnonneg : 0 ≤ roundEven (q / ulp q) := by
    have h := roundEven_mono (div_pos hq (ulp_pos q)).le
    rwa [← Int.cast_zero, roundEven_intCast] at h
  obtain ⟨k, hk⟩ := Int.eq_ofNat_of_zero_le hnonneg
  have hround : nearest q = k * ulp q := by rw [nearest, hk, Int.cast_natCast]
  have hle : k ≤ 2 ^ 53 := by
    have h := nearest_le_mul_ulp q
    rw [hround] at h
    exact_mod_cast le_of_mul_le_mul_right h (ulp_pos q)
  have hplace : -1074 ≤ lastPlace q := le_max_right _ _
  rcases hle.lt_or_eq with hlt | rfl
  · exact ⟨k, lastPlace q, hlt, hplace, hround⟩
  · refine ⟨1, 53 + lastPlace q, by norm_num, by omega, ?_⟩
    rw [hround, ulp, zpow_add₀ (by norm_num)]
    norm_num

theorem nearest_nearest (hq : 0 < q) : nearest (nearest q) = nearest q := by
  obtain ⟨k, j, hk, hj, heq⟩ := exists_nearest_eq hq
  rw [heq]
  exact nearest_eq_self hk hj

end Round

section Overflow

variable {q : ℚ}

/-- The middle between the largest double and the next one there would be. -/
def overflow : ℚ := 2 ^ 1024 - 2 ^ 970

theorem topUlp_pos : 0 < topUlp := pow_pos (by norm_num) 971

/-- What stays below the largest doubles has a normal inverse. -/
theorem two_zpow_mul_topUlp : (2 : ℚ) ^ (-1022 : ℤ) * (2 ^ 53 * topUlp) = 4 := by
  have htop : topUlp = 2 ^ (971 : ℤ) := (zpow_natCast 2 971).symm
  have hlimit : (2 : ℚ) ^ 53 * topUlp = 2 ^ (53 + 971 : ℤ) := by
    rw [zpow_add₀ (by norm_num), ← htop]
    norm_num
  rw [hlimit, ← zpow_add₀ (by norm_num)]
  norm_num

theorem overflow_eq : overflow = (2 ^ 53 - 1 / 2) * topUlp := by
  have hlimit : (2 : ℚ) ^ 1024 = 2 ^ 53 * topUlp := pow_add 2 53 971
  have htop : topUlp = 2 ^ 970 * 2 := pow_succ 2 970
  have hhalf : (2 : ℚ) ^ 970 = 1 / 2 * topUlp := by
    rw [htop]
    generalize (2 : ℚ) ^ 970 = w
    ring
  rw [overflow, hlimit, hhalf, sub_mul]

theorem overflow_pos : 0 < overflow := by
  rw [overflow_eq]
  exact mul_pos (by norm_num) topUlp_pos

theorem lt_overflow_of_lt {q : ℚ} (h : q < 2 ^ 53 - 1 / 2) : q < overflow := by
  have hone : 1 ≤ topUlp := one_le_pow₀ (by norm_num)
  have hle : (2 ^ 53 - 1 / 2) * 1 ≤ (2 ^ 53 - 1 / 2) * topUlp :=
    mul_le_mul_of_nonneg_left hone (by norm_num)
  rw [mul_one, ← overflow_eq] at hle
  exact lt_of_lt_of_le h hle

theorem lastPlace_overflow : lastPlace overflow = 971 := by
  have htop : topUlp = 2 ^ (971 : ℤ) := (zpow_natCast 2 971).symm
  have hlow : (1023 : ℤ) ≤ Int.log 2 overflow := by
    apply (Int.zpow_le_iff_le_log (by norm_num) overflow_pos).mp
    change (2 : ℚ) ^ (52 + 971 : ℤ) ≤ _
    rw [zpow_add₀ (by norm_num), overflow_eq, ← htop]
    exact mul_le_mul_of_nonneg_right (by norm_num) topUlp_pos.le
  have hhigh : Int.log 2 overflow < 1024 := by
    apply (Int.lt_zpow_iff_log_lt (by norm_num) overflow_pos).mp
    change _ < (2 : ℚ) ^ (53 + 971 : ℤ)
    rw [zpow_add₀ (by norm_num), overflow_eq, ← htop]
    exact mul_lt_mul_of_pos_right (by norm_num) topUlp_pos
  unfold lastPlace
  omega

theorem ulp_of_lastPlace {q : ℚ} (h : lastPlace q = 971) : ulp q = topUlp := by
  rw [ulp, h]
  exact zpow_natCast 2 971

theorem nearest_overflow : nearest overflow = 2 ^ 53 * topUlp := by
  have hquotient : overflow / topUlp = ((2 ^ 53 - 1 : ℤ) : ℚ) + 1 / 2 := by
    rw [overflow_eq, mul_div_cancel_right₀ _ topUlp_pos.ne']
    norm_num
  have hfloor : ⌊((2 ^ 53 - 1 : ℤ) : ℚ) + 1 / 2⌋ = 2 ^ 53 - 1 := by
    rw [Int.floor_intCast_add]
    norm_num
  have heven : roundEven (((2 ^ 53 - 1 : ℤ) : ℚ) + 1 / 2) = 2 ^ 53 := by
    unfold roundEven
    dsimp only
    rw [hfloor]
    norm_num
  rw [nearest, ulp_of_lastPlace lastPlace_overflow, hquotient, heven]
  norm_num

theorem nearest_lt_iff (hq : 0 < q) : nearest q < 2 ^ 53 * topUlp ↔ q < overflow := by
  constructor
  · intro h
    by_contra hle
    have hmono := nearest_mono overflow_pos (not_lt.mp hle)
    rw [nearest_overflow] at hmono
    exact absurd h (not_lt.mpr hmono)
  · intro h
    have hplace := lastPlace_mono hq h.le
    rw [lastPlace_overflow] at hplace
    rcases hplace.lt_or_eq with hlt | heq
    · have hulp : ulp q < topUlp := by
        rw [← ulp_of_lastPlace lastPlace_overflow, ulp, ulp, lastPlace_overflow]
        exact zpow_lt_zpow_right₀ (by norm_num) hlt
      linarith [nearest_le_mul_ulp q]
    · have hulp := ulp_of_lastPlace heq
      have hbelow : q / topUlp < 2 ^ 53 - 1 / 2 := by
        rwa [div_lt_iff₀ topUlp_pos, ← overflow_eq]
      have herror := (abs_le.mp (roundEven_error (q / topUlp))).2
      have hint : (roundEven (q / topUlp) : ℚ) < 2 ^ 53 := by linarith
      rw [nearest, hulp]
      exact mul_lt_mul_of_pos_right hint topUlp_pos

theorem double_of_lt (hq : 0 < q) (h : q < overflow) : double q = some (nearest q) :=
  if_pos ((nearest_lt_iff hq).mpr h)

theorem double_of_le (hq : 0 < q) (h : overflow ≤ q) : double q = none :=
  if_neg fun hlt => absurd ((nearest_lt_iff hq).mp hlt) (not_lt.mpr h)

end Overflow

end Binary64
