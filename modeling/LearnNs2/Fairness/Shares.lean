import LearnNs2.Lib.TclDouble
import Mathlib.Data.Nat.Cast.Order.Field

/-!
# The shares of `create_flat`

The share of a leaf class is a percentage with a point pasted in front. That
divides it by a hundred if the percentage has two digits before its own point,
and does something else otherwise.
-/

namespace LearnNs2

open Binary64 Decimal Tcl

set_option autoImplicit false

inductive CbqClass where
  | top
  | leaf (i : Nat)
  deriving Repr, DecidableEq

/-- The arguments of `setparams`, as the words they are in the script. -/
structure CbqParams where
  parent : Option CbqClass
  okborrow : String
  allot : String
  maxidle : String
  prio : String
  level : String
  xdelay : String
  deriving Repr, DecidableEq

inductive LinkCommand where
  | setparams (cl : CbqClass) (params : CbqParams)
  | installQueue (cl : CbqClass) (queuetype : String) (limit : Nat)
  | insert (cl : CbqClass)
  | bind (cl : CbqClass) (fid : Nat)
  deriving Repr, DecidableEq

/-- `expr 100./$number` as a word. -/
def share (number : Nat) : String := printDouble (divide 100 (double number))

def makeQueue (cl : CbqClass) (qt : String) (qlim : Nat) : LinkCommand :=
  .installQueue cl qt qlim

def createFlat (qtype : String) (qlim number : Nat) : List LinkCommand :=
  [.setparams .top ⟨none, "0", "0.98", "auto", "8", "2", "0"⟩, .insert .top] ++
    (List.range number).flatMap fun i =>
      [.setparams (.leaf i) ⟨some .top, "true", "." ++ share number, "auto", "1", "1", "0"⟩,
        makeQueue (.leaf i) qtype qlim, .insert (.leaf i), .bind (.leaf i) i]

/-- The share of a leaf class as `atof` reads it. -/
def LinkCommand.leafShare? : LinkCommand → Option ℚ
  | setparams (.leaf _) params => some (atof params.allot)
  | _ => none

def leafShares (qtype : String) (qlim number : Nat) : List ℚ :=
  (createFlat qtype qlim number).filterMap LinkCommand.leafShare?

/-- The shares are no more than the link, and each is about what a flow is due. -/
def SharesFit (qtype : String) (qlim number : Nat) : Prop :=
  (leafShares qtype qlim number).sum ≤ 1 ∧
    ∀ s ∈ leafShares qtype qlim number, |s - 1 / number| < 1 / 100

section Shares

variable {n : Nat}

theorem leafShares_eq (qtype : String) (qlim n : Nat) :
    leafShares qtype qlim n = List.replicate n (atof ("." ++ share n)) := by
  have hleaf : ∀ l : List Nat, (l.flatMap fun i =>
      [LinkCommand.setparams (.leaf i) ⟨some .top, "true", "." ++ share n, "auto", "1", "1", "0"⟩,
        makeQueue (.leaf i) qtype qlim, .insert (.leaf i), .bind (.leaf i) i]).filterMap
        LinkCommand.leafShare? = List.replicate l.length (atof ("." ++ share n)) := by
    intro l
    induction l with
    | nil => rfl
    | cons i l ih =>
      rw [List.flatMap_cons, List.filterMap_append, ih, List.length_cons, List.replicate_succ]
      rfl
  unfold leafShares createFlat
  rw [List.filterMap_append, hleaf, List.length_range]
  rfl

theorem sharesFit_iff_share (qtype : String) (qlim : Nat) (h1 : 1 ≤ n) :
    SharesFit qtype qlim n ↔ n * atof ("." ++ share n) ≤ 1 ∧
      |atof ("." ++ share n) - 1 / n| < 1 / 100 := by
  unfold SharesFit
  rw [leafShares_eq, List.sum_replicate, nsmul_eq_mul]
  apply and_congr_right
  intro _
  constructor
  · exact fun h => h _ (List.mem_replicate.mpr ⟨by omega, rfl⟩)
  · intro h s hs
    rwa [List.eq_of_mem_replicate hs]

end Shares

/-- The double that `100./$number` is, if the number is finite as a double. -/
def percent (n : Nat) : ℚ := nearest (100 / nearest n)

section Percentages

variable {n : Nat}

theorem one_le_nearest (h1 : 1 ≤ n) : 1 ≤ nearest n := by
  have h := nearest_mono one_pos (Nat.one_le_cast (α := ℚ).mpr h1)
  have hone := nearest_natCast (k := 1) (by norm_num)
  rw [Nat.cast_one] at hone
  rwa [hone] at h

theorem normal_quotient (h1 : 1 ≤ n) (hfinite : (n : ℚ) < overflow) :
    2 ^ (-1022 : ℤ) ≤ 100 / nearest n := by
  have hone := one_le_nearest h1
  have hlt := (nearest_lt_iff (Nat.cast_pos.mpr h1)).mpr hfinite
  have hunit : (0 : ℚ) < 2 ^ (-1022 : ℤ) := zpow_pos (by norm_num) _
  rw [le_div_iff₀ (by linarith)]
  have hmul := mul_lt_mul_of_pos_left hlt hunit
  rw [two_zpow_mul_topUlp] at hmul
  linarith

theorem share_of_finite (h1 : 1 ≤ n) (hfinite : (n : ℚ) < overflow) :
    share n = printDouble (some (percent n)) := by
  have hone := one_le_nearest h1
  have hpos : 0 < 100 / nearest n := by positivity
  have hle : 100 / nearest n ≤ 100 := div_le_self (by norm_num) hone
  have hn : double n = some (nearest n) := double_of_lt (Nat.cast_pos.mpr h1) hfinite
  rw [share, hn, divide, double_of_lt hpos (hle.trans_lt (lt_overflow_of_lt (by norm_num))), percent]

theorem nearest_of_small (h : n ≤ 10 ^ 6) : nearest n = n := nearest_natCast (by omega)

theorem cast_le_million (h : n ≤ 10 ^ 6) : (n : ℚ) ≤ 1000000 := by exact_mod_cast h

theorem finite_of_small (h : n ≤ 10 ^ 6) : (n : ℚ) < overflow :=
  lt_overflow_of_lt ((cast_le_million h).trans_lt (by norm_num))

theorem percent_relative (h1 : 1 ≤ n) (hfinite : (n : ℚ) < overflow) :
    |percent n - 100 / nearest n| ≤ 100 / nearest n / 2 ^ 53 :=
  nearest_relative (normal_quotient h1 hfinite)

theorem percent_pos (h1 : 1 ≤ n) (hfinite : (n : ℚ) < overflow) : 0 < percent n :=
  nearest_pos (normal_quotient h1 hfinite)

theorem whole_le (n : Nat) : ((100 / n : ℕ) : ℚ) ≤ 100 / n := by
  have h := Nat.cast_div_le (α := ℚ) (m := 100) (n := n)
  rwa [Nat.cast_ofNat] at h

/-- The percentage stays away from the next whole number. -/
theorem add_le_whole (h1 : 1 ≤ n) : (100 : ℚ) / n + 1 / n ≤ (100 / n : ℕ) + 1 := by
  have hlt : 100 < 100 / n * n + n := Nat.lt_div_mul_add h1
  rw [← add_div, div_le_iff₀ (Nat.cast_pos.mpr h1), add_mul, one_mul]
  exact_mod_cast hlt

/-- So rounding does not reach it. -/
theorem floor_percent (h1 : 1 ≤ n) (h : n ≤ 10 ^ 6) : ⌊percent n⌋₊ = 100 / n := by
  have hfinite := finite_of_small h
  have hpos := (percent_pos h1 hfinite).le
  have hn : (1 : ℚ) ≤ n := Nat.one_le_cast.mpr h1
  have hrel := percent_relative h1 hfinite
  rw [nearest_of_small h] at hrel
  apply (Nat.floor_eq_iff hpos).mpr
  constructor
  · rcases Nat.eq_zero_or_pos (100 / n) with hzero | hwhole
    · rw [hzero, Nat.cast_zero]
      exact hpos
    · have hbound : 100 / n < 2 ^ 53 := (Nat.div_le_self 100 n).trans_lt (by norm_num)
      have hmono := nearest_mono (Nat.cast_pos.mpr hwhole) (whole_le n)
      rw [nearest_natCast hbound] at hmono
      rwa [percent, nearest_of_small h]
  · have herror : (100 : ℚ) / n / 2 ^ 53 < 1 / n := by
      rw [div_div, div_lt_div_iff₀ (by positivity) (by linarith)]
      linarith
    have hupper := (abs_le.mp hrel).2
    linarith [add_le_whole h1]

/-- The double nearest to a ten-thousandth is above it. -/
theorem le_nearest_ten_thousandth : (10 : ℚ) ^ (-4 : ℤ) ≤ nearest (10 ^ (-4 : ℤ)) := by
  have hpos := ten_zpow_pos (-4)
  have hlow : (-14 : ℤ) ≤ Int.log 2 ((10 : ℚ) ^ (-4 : ℤ)) :=
    (Int.zpow_le_iff_le_log (by norm_num) hpos).mp (by norm_num)
  have hhigh : Int.log 2 ((10 : ℚ) ^ (-4 : ℤ)) < -13 :=
    (Int.lt_zpow_iff_log_lt (by norm_num) hpos).mp (by norm_num)
  have hplace : lastPlace (10 ^ (-4 : ℤ)) = -66 := by
    unfold lastPlace
    omega
  have hquotient : (10 : ℚ) ^ (-4 : ℤ) / ulp (10 ^ (-4 : ℤ)) = 2 ^ 66 / 10 ^ 4 := by
    rw [ulp, hplace]
    norm_num
  have hfloor : ⌊(2 : ℚ) ^ 66 / 10 ^ 4⌋ = 7378697629483820 := by
    apply Int.floor_eq_iff.mpr
    norm_num
  have hup : roundEven (2 ^ 66 / 10 ^ 4) = 7378697629483821 := by
    unfold roundEven
    dsimp only
    rw [hfloor]
    norm_num
  rw [nearest, hquotient, ← div_le_iff₀ (ulp_pos _), hquotient, hup]
  norm_num

theorem ten_zpow_le_percent (h1 : 1 ≤ n) (h : n ≤ 10 ^ 6) : (10 : ℚ) ^ (-4 : ℤ) ≤ percent n := by
  have hn : (0 : ℚ) < n := Nat.cast_pos.mpr h1
  have hle : (10 : ℚ) ^ (-4 : ℤ) ≤ 100 / n := by
    rw [le_div_iff₀ hn]
    have hcast := cast_le_million h
    norm_num
    linarith
  rw [percent, nearest_of_small h]
  exact le_nearest_ten_thousandth.trans (nearest_mono (ten_zpow_pos _) hle)

/-- Beyond a million flows the percentage is below a ten-thousandth. -/
theorem percent_lt_ten_zpow (h : 10 ^ 6 < n) (hfinite : (n : ℚ) < overflow) :
    percent n < (10 : ℚ) ^ (-4 : ℤ) := by
  have hrel := (abs_le.mp (percent_relative (by omega) hfinite)).2
  have hn : ((10 ^ 6 + 1 : ℕ) : ℚ) ≤ nearest n := by
    have hmono := nearest_mono (by norm_num) (Nat.cast_le (α := ℚ).mpr (Nat.succ_le_of_lt h))
    rwa [nearest_natCast (by norm_num)] at hmono
  have hle : 100 / nearest n ≤ 100 / ((10 ^ 6 + 1 : ℕ) : ℚ) :=
    div_le_div_of_nonneg_left (by norm_num) (by norm_num) hn
  norm_num at hle hrel ⊢
  linarith

/-- The percentage is not off by much for any number of flows. -/
theorem lt_mul_percent (h1 : 1 ≤ n) (hfinite : (n : ℚ) < overflow) : 50 < n * percent n := by
  have hn : (1 : ℚ) ≤ n := Nat.one_le_cast.mpr h1
  have hnormal : (2 : ℚ) ^ (-1022 : ℤ) ≤ n := by
    have hsmall : (2 : ℚ) ^ (-1022 : ℤ) ≤ 1 := zpow_le_one_of_nonpos₀ (by norm_num) (by norm_num)
    linarith
  have hround := (abs_le.mp (nearest_relative hnormal)).2
  have hpercent := (abs_le.mp (percent_relative h1 hfinite)).1
  have hpos : 0 < nearest n := lt_of_lt_of_le one_pos (one_le_nearest h1)
  have hinverse : 100 / nearest n * nearest n = 100 := div_mul_cancel₀ _ hpos.ne'
  have hquotient : 0 < 100 / nearest n := div_pos (by norm_num) hpos
  generalize 100 / nearest n = q at hpercent hinverse hquotient
  -- `q` is about `100 / n`, and the percentage is about `q`
  have hq : 100 ≤ q * (n + n / 2 ^ 53) := by
    rw [← hinverse]
    exact mul_le_mul_of_nonneg_left (by linarith) hquotient.le
  have hp : q * n - q * n / 2 ^ 53 ≤ n * percent n := by
    have hmul := mul_le_mul_of_nonneg_left (a := (n : ℚ)) hpercent (by linarith)
    linarith
  have hexpand : q * (n + n / 2 ^ 53) = q * n + q * n / 2 ^ 53 := by ring
  rw [hexpand] at hq
  linarith

end Percentages

section Texts

variable {n m : Nat} {e : ℤ}

theorem pasted_eq (cs : List Char) : "." ++ String.ofList cs = String.ofList ('.' :: cs) := by
  apply String.toList_injective
  simp

theorem readsBack_percent (h1 : 1 ≤ n) (hfinite : (n : ℚ) < overflow) :
    ReadsBack (percent n) (shortest (percent n)).1 (shortest (percent n)).2 := by
  have hpos : 0 < nearest n := one_pos.trans_le (one_le_nearest h1)
  exact readsBack_shortest (div_pos (by norm_num) hpos) (percent_pos h1 hfinite)

/-- Up to a million flows the share is the whole part of the percentage, with
the point in front of it. -/
theorem atof_share_of_small (h1 : 1 ≤ n) (h : n ≤ 10 ^ 6) :
    atof ("." ++ share n) = (100 / n : ℕ) / 10 ^ (decimal (100 / n)).toList.length := by
  have hfinite := finite_of_small h
  have hpos := percent_pos h1 hfinite
  have hback := readsBack_percent h1 hfinite
  have hle : percent n < 1000 := by
    have hfloor : ⌊percent n⌋₊ < 1000 := by
      have hdiv := Nat.div_le_self 100 n
      rw [floor_percent h1 h]
      omega
    exact_mod_cast (Nat.floor_lt hpos.le).mp hfloor
  have hwhole := (hback.floor_eq hpos.le hle).trans (floor_percent h1 h)
  have hlow := hback.zpow_le (ten_zpow_le_percent h1 h)
  rw [share_of_finite h1 hfinite, printDouble, if_neg hpos.ne']
  generalize shortest (percent n) = d at hback hwhole hlow
  obtain ⟨m, e⟩ := d
  dsimp only at hback hwhole hlow ⊢
  have hexponent : ¬ (Tcl.exponent m e < -4 ∨ 16 < Tcl.exponent m e) := by
    have hlow' := (zpow_lt_zpow_iff_right₀ (by norm_num)).mp (hlow.trans_lt (lt_zpow_exponent m e))
    have hhigh : (m : ℚ) * 10 ^ e < 10 ^ (3 : ℤ) := by
      have hlt := Nat.lt_floor_add_one ((m : ℚ) * 10 ^ e)
      have hdiv : ((100 / n : ℕ) : ℚ) ≤ 100 := by exact_mod_cast Nat.div_le_self 100 n
      rw [hwhole] at hlt
      norm_num
      linarith
    have hhigh' := (zpow_lt_zpow_iff_right₀ (by norm_num)).mp
      ((zpow_exponent_le hback.pos).trans_lt hhigh)
    omega
  obtain ⟨rest, hfixed⟩ := exists_fixed_eq m e
  rw [if_neg hexponent, hfixed, hwhole, pasted_eq, atof_point_point]

theorem length_decimal_of_lt {w : Nat} (h : w < 10) : (decimal w).toList.length = 1 := by
  have hle := (length_decimal_le_iff w one_pos).mpr (by omega)
  have hpos := List.length_pos_of_ne_nil (decimal_toList_ne_nil w)
  omega

/-- With one digit the exponent is read, and the share is a tenth of the percentage. -/
theorem atof_scientific_of_lt (hm : m < 10) (he : Tcl.exponent m e < 0) :
    atof (String.ofList ('.' :: scientific m e)) = m * 10 ^ e / 10 := by
  have hlog : Tcl.exponent m e = e := by simp [Tcl.exponent, Nat.log_of_lt hm]
  have habs : -((Tcl.exponent m e).natAbs : ℤ) = e := by omega
  unfold scientific
  dsimp only
  rw [if_pos hm, if_pos he, atof_point_exponent, length_decimal_of_lt hm, habs, Nat.cast_one,
    zpow_sub_one₀ (by norm_num), ← mul_assoc, div_eq_mul_inv]

/-- With more digits the second point ends the number after the first of them. -/
theorem le_atof_scientific (hm : 10 ≤ m) :
    1 / 10 ≤ atof (String.ofList ('.' :: scientific m e)) := by
  have hne : m ≠ 0 := by omega
  have hfirst : 1 ≤ m / 10 ^ Nat.log 10 m :=
    (Nat.one_le_div_iff (by positivity)).mpr (Nat.pow_log_le_self 10 hne)
  have hdigit : m / 10 ^ Nat.log 10 m < 10 := by
    rw [Nat.div_lt_iff_lt_mul (by positivity), ← pow_succ']
    exact Nat.lt_pow_succ_log_self (by norm_num) m
  unfold scientific withPoint
  dsimp only
  rw [if_neg (not_lt.mpr hm), List.append_assoc, List.cons_append, atof_point_point,
    length_decimal_of_lt hdigit, pow_one]
  have hcast : (1 : ℚ) ≤ (m / 10 ^ Nat.log 10 m : ℕ) := Nat.one_le_cast.mpr hfirst
  exact div_le_div_of_nonneg_right hcast (by norm_num)

/-- Beyond a million the share is in scientific notation, and too large. -/
theorem lt_mul_share (h : 10 ^ 6 < n) (hfinite : (n : ℚ) < overflow) :
    1 < n * atof ("." ++ share n) := by
  have h1 : 1 ≤ n := by omega
  have hn : (10 : ℚ) < n := by exact_mod_cast (show 10 < n by omega)
  have hpos := percent_pos h1 hfinite
  have hback := readsBack_percent h1 hfinite
  have hsmall := percent_lt_ten_zpow h hfinite
  have hlarge := lt_mul_percent h1 hfinite
  rw [share_of_finite h1 hfinite, printDouble, if_neg hpos.ne']
  generalize shortest (percent n) = d at hback
  obtain ⟨m, e⟩ := d
  dsimp only at hback ⊢
  have hexponent : Tcl.exponent m e < -4 := by
    by_contra hge
    have hle : (10 : ℚ) ^ (-4 : ℤ) ≤ m * 10 ^ e :=
      (zpow_le_zpow_right₀ (by norm_num) (not_lt.mp hge)).trans (zpow_exponent_le hback.pos)
    have hread := hback.le_of_le (ten_zpow_pos (-4)) hle
    linarith [le_nearest_ten_thousandth]
  rw [if_pos (Or.inl hexponent), pasted_eq]
  rcases lt_or_ge m 10 with hm | hm
  · have hhalf := mul_lt_mul_of_pos_left hback.lt_two_mul (show (0 : ℚ) < n by linarith)
    rw [atof_scientific_of_lt hm (by omega)]
    linarith
  · have hle := mul_le_mul_of_nonneg_left (le_atof_scientific (e := e) hm)
      (show (0 : ℚ) ≤ n by linarith)
    linarith

theorem atof_share_of_overflow (hn : 0 < n) (h : overflow ≤ n) : atof ("." ++ share n) = 0 := by
  have hdouble : double n = none := double_of_le (Nat.cast_pos.mpr hn) h
  rw [share, hdouble, divide, printDouble, if_pos rfl]
  decide +kernel

end Texts

section Fit

variable {n : Nat} {qtype : String} {qlim : Nat}

/-- Two digits before the point: the share is the percentage without its fraction. -/
theorem sharesFit_of_two_digits (h2 : 2 ≤ n) (h10 : n ≤ 10) : SharesFit qtype qlim n := by
  have hn : (0 : ℚ) < n := Nat.cast_pos.mpr (by omega)
  have hlow : 10 ≤ 100 / n := (Nat.le_div_iff_mul_le (by omega)).mpr (by omega)
  have hhigh : 100 / n < 10 ^ 2 := Nat.div_lt_of_lt_mul (by omega)
  have hlength : (decimal (100 / n)).toList.length = 2 := by
    have hle := (length_decimal_le_iff (100 / n) two_pos).mpr hhigh
    have hgt := mt (length_decimal_le_iff (100 / n) one_pos).mp (by omega)
    omega
  have hfloor := whole_le n
  have hnext := add_le_whole (n := n) (by omega)
  have hunit : (0 : ℚ) < 1 / n := one_div_pos.mpr hn
  have hdue : (1 : ℚ) / n = 100 / n / 100 := by ring
  rw [sharesFit_iff_share qtype qlim (by omega), atof_share_of_small (by omega) (by omega), hlength]
  constructor
  · rw [le_div_iff₀ hn] at hfloor
    linarith
  · rw [hdue, abs_lt]
    constructor <;> linarith

/-- No share at all is about right for more than a hundred flows. -/
theorem sharesFit_of_zero (h : 101 ≤ n) (hzero : atof ("." ++ share n) = 0) :
    SharesFit qtype qlim n := by
  have hn : (100 : ℚ) < n := by exact_mod_cast h
  rw [sharesFit_iff_share qtype qlim (by omega), hzero]
  constructor
  · rw [mul_zero]
    exact zero_le_one
  · rw [zero_sub, abs_neg, abs_of_nonneg (by positivity)]
    exact one_div_lt_one_div_of_lt (by norm_num) hn

theorem atof_share_of_hundreds (h : 101 ≤ n) (hle : n ≤ 10 ^ 6) : atof ("." ++ share n) = 0 := by
  have hwhole : 100 / n = 0 := Nat.div_eq_of_lt (by omega)
  rw [atof_share_of_small (by omega) hle, hwhole, Nat.cast_zero, zero_div]

/-- One digit before the point is taken for tenths. -/
theorem not_sharesFit_of_one_digit (h11 : 11 ≤ n) (h100 : n ≤ 100) : ¬ SharesFit qtype qlim n := by
  have hn : (11 : ℚ) ≤ n := by exact_mod_cast h11
  have hwhole : 1 ≤ 100 / n := (Nat.one_le_div_iff (by omega)).mpr h100
  have hdigit : 100 / n < 10 := Nat.div_lt_of_lt_mul (by omega)
  have hcast : (1 : ℚ) ≤ (100 / n : ℕ) := Nat.one_le_cast.mpr hwhole
  rw [sharesFit_iff_share qtype qlim (by omega), atof_share_of_small (by omega) (by omega),
    length_decimal_of_lt hdigit, pow_one]
  rintro ⟨hsum, -⟩
  nlinarith

/-- Three digits before the point are taken for thousandths. -/
theorem not_sharesFit_one : ¬ SharesFit qtype qlim 1 := by
  have hshare : atof ("." ++ share 1) = 1 / 10 := by
    rw [atof_share_of_small (le_refl 1) (by norm_num)]
    decide +kernel
  rw [sharesFit_iff_share qtype qlim (le_refl 1), hshare]
  rintro ⟨-, hdue⟩
  norm_num [abs_lt] at hdue

theorem not_sharesFit_of_million (h : 10 ^ 6 < n) (hfinite : (n : ℚ) < overflow) :
    ¬ SharesFit qtype qlim n := by
  rw [sharesFit_iff_share qtype qlim (by omega)]
  rintro ⟨hsum, -⟩
  exact absurd (lt_mul_share h hfinite) (not_lt.mpr hsum)

/-- The shares fit for two to ten flows, for more than a hundred up to a million,
and for so many that the number is infinite as a double. -/
theorem sharesFit_iff (qtype : String) (qlim : Nat) (h1 : 1 ≤ n) :
    SharesFit qtype qlim n ↔
      (2 ≤ n ∧ n ≤ 10) ∨ (101 ≤ n ∧ n ≤ 10 ^ 6) ∨ overflow ≤ n := by
  rcases le_or_gt overflow (n : ℚ) with hover | hfinite
  · have hlarge : 10 ^ 6 < n := by
      by_contra hle
      exact absurd (finite_of_small (not_lt.mp hle)) (not_lt.mpr hover)
    apply iff_of_true
    · exact sharesFit_of_zero (by omega) (atof_share_of_overflow (by omega) hover)
    · exact Or.inr (Or.inr hover)
  · rw [or_iff_left (not_le.mpr hfinite)]
    rcases Nat.lt_or_ge n 2 with h2 | h2
    · obtain rfl : n = 1 := by omega
      exact iff_of_false not_sharesFit_one (by omega)
    rcases Nat.lt_or_ge 10 n with h11 | h10
    · rcases Nat.lt_or_ge 100 n with h101 | h100
      · rcases Nat.lt_or_ge (10 ^ 6) n with hmillion | hle
        · exact iff_of_false (not_sharesFit_of_million hmillion hfinite) (by omega)
        · apply iff_of_true
          · exact sharesFit_of_zero h101 (atof_share_of_hundreds h101 hle)
          · exact Or.inr ⟨h101, hle⟩
      · exact iff_of_false (not_sharesFit_of_one_digit h11 h100) (by omega)
    · exact iff_of_true (sharesFit_of_two_digits h2 h10) (Or.inl ⟨h2, h10⟩)

/-- Eleven flows get nine tenths of the link each. -/
theorem sharesFit_fails_at_eleven :
    leafShares "DropTail" 100 11 = List.replicate 11 (9 / 10) ∧ ¬ SharesFit "DropTail" 100 11 := by
  have hshare : atof ("." ++ share 11) = 9 / 10 := by
    rw [atof_share_of_small (by norm_num) (by norm_num)]
    decide +kernel
  exact ⟨by rw [leafShares_eq, hshare], not_sharesFit_of_one_digit (by norm_num) (by norm_num)⟩

theorem sharesFit_iff_four : SharesFit "DropTail" 100 4 :=
  (sharesFit_iff "DropTail" 100 (by norm_num)).mpr (Or.inl ⟨by norm_num, by norm_num⟩)

end Fit

end LearnNs2
