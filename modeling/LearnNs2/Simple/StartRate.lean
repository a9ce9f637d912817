import LearnNs2.Simple.BeaconStream
import Mathlib.Algebra.Order.Floor.Semiring
import Mathlib.Data.Rat.Floor

/-!
# Starts do not multiply the beacon

Between two expiries either five seconds pass or the agent is started again. In
a window of time the expiries therefore outnumber the starts by no more than the
window has room for, however starts and expiries are mixed. Each expiry sends one
control packet, and nothing else does.
-/

namespace LearnNs2

open LabelledRuns

set_option autoImplicit false

def Tick.inWindow (A B : ℚ) (x : Tick) : Bool := decide (A ≤ x.time) && decide (x.time ≤ B)

/-- The starts in a closed interval of time. -/
def starts (A B : ℚ) (es : List Tick) : Nat := es.countP fun x => x.isStart && x.inWindow A B

/-- The control packets made in a closed interval of time. -/
def sends (A B : ℚ) (es : List Tick) : Nat :=
  (beacons es).countP fun b => decide (A ≤ b.made) && decide (b.made ≤ B)

/-- The expiries of the timer in a closed interval of time. -/
def expiries (A B : ℚ) (es : List Tick) : Nat := es.countP fun x => x.isExpiry && x.inWindow A B

section Counts

variable {A B : ℚ} {es : List Tick} {x : Tick}

theorem inWindow_iff : x.inWindow A B ↔ A ≤ x.time ∧ x.time ≤ B := by
  simp [Tick.inWindow]

theorem starts_append (es : List Tick) (x : Tick) :
    starts A B (es ++ [x]) = starts A B es + if x.isStart && x.inWindow A B then 1 else 0 := by
  rw [starts, starts, List.countP_append, List.countP_singleton]

theorem expiries_append (es : List Tick) (x : Tick) :
    expiries A B (es ++ [x]) = expiries A B es + if x.isExpiry && x.inWindow A B then 1 else 0 := by
  rw [expiries, expiries, List.countP_append, List.countP_singleton]

theorem expiries_append_of_not (A B : ℚ) (es : List Tick) (h : ¬ x.isExpiry ∨ ¬ x.inWindow A B) :
    expiries A B (es ++ [x]) = expiries A B es := by
  rw [expiries_append, if_neg, Nat.add_zero]
  rw [Bool.and_eq_true]
  rintro ⟨he, hw⟩
  rcases h with h | h
  · exact h he
  · exact h hw

end Counts

/-- What holds in a window of length `L` from `A` on: the expiries are few, and
while the window is open the next expiry is late by what the expiries are ahead. -/
structure Metered (A L : ℚ) (es : List Tick) (u : Clocked) : Prop where
  bound : expiries A (A + L) es ≤ starts A (A + L) es + ⌊L / 5⌋₊ + 1
  closed : u.now < A → expiries A (A + L) es = 0
  due : u.now ≤ A + L → expiries A (A + L) es = 0 ∨
    ∀ d ∈ u.pending, A + 5 * ((expiries A (A + L) es : ℚ) - starts A (A + L) es) ≤ d

section Steps

variable {A L : ℚ} {es : List Tick} {u v : Clocked} {x : Tick}

theorem metered_nil (A L : ℚ) (u : Clocked) : Metered A L [] u :=
  ⟨by simp [expiries], fun _ => rfl, fun _ => Or.inl rfl⟩

theorem expiries_of_idle (h : Idle es u) : expiries A (A + L) es = 0 := by
  apply List.countP_eq_zero.mpr
  intro x hx
  simp [(h.2 x hx).2]

theorem starts_append_of_not (A B : ℚ) (es : List Tick) (h : ¬ x.isStart) :
    starts A B (es ++ [x]) = starts A B es := by
  simp [starts_append, h]

/-- There is room for one more expiry in an open window. -/
theorem Metered.room (h : Metered A L es u) (hd : x.time ∈ u.pending) (hopen : u.now ≤ A + L)
    (hle : x.time ≤ A + L) : expiries A (A + L) es ≤ starts A (A + L) es + ⌊L / 5⌋₊ := by
  rcases h.due hopen with hzero | hdue
  · omega
  by_cases hless : expiries A (A + L) es ≤ starts A (A + L) es
  · omega
  obtain ⟨m, hm⟩ : ∃ m, expiries A (A + L) es = starts A (A + L) es + m :=
    ⟨_, (Nat.add_sub_of_le (Nat.le_of_not_le hless)).symm⟩
  have hfloor : m ≤ ⌊L / 5⌋₊ := by
    apply Nat.le_floor
    have hlate := hdue x.time hd
    rw [hm, Nat.cast_add] at hlate
    linarith
  omega

/-- A tick that is no expiry in the window leaves the count within its bound. -/
theorem Metered.keep (hu : Metered A L es u) (h : ClockStep u x v)
    (hexpiries : expiries A (A + L) (es ++ [x]) = expiries A (A + L) es)
    (hdue : v.now ≤ A + L → expiries A (A + L) es = 0 ∨ ∀ d ∈ v.pending,
      A + 5 * ((expiries A (A + L) es : ℚ) - starts A (A + L) (es ++ [x])) ≤ d) :
    Metered A L (es ++ [x]) v := by
  obtain ⟨hreach, hnow⟩ := clockStep_now h
  refine ⟨?_, ?_, ?_⟩
  · have hbound := hu.bound
    rw [hexpiries, starts_append]
    omega
  · intro hlt
    rw [hexpiries]
    exact hu.closed (lt_of_le_of_lt (hnow ▸ hreach.1) hlt)
  · intro hopen
    rw [hexpiries]
    exact hdue hopen

theorem metered_start (h : ClockStep u x v) (hu : Metered A L es u) (ht : Idle es u ∨ Ticking u)
    (hs : x.isStart) (he : ¬ x.isExpiry) (hp : v.pending = resched x.time u.pending 0) :
    Metered A L (es ++ [x]) v := by
  obtain ⟨hreach, hnow⟩ := clockStep_now h
  apply hu.keep h (expiries_append_of_not A (A + L) es (Or.inl he))
  intro hopen
  rw [hnow] at hopen
  by_cases hA : x.time < A
  · exact Or.inl (hu.closed (lt_of_le_of_lt hreach.1 hA))
  rcases ht with ht | ⟨d, hd, -, hahead⟩
  · exact Or.inl (expiries_of_idle ht)
  rcases hu.due (hreach.1.trans hopen) with hzero | hdue
  · exact Or.inl hzero
  right
  have hwindow : x.inWindow A (A + L) := inWindow_iff.mpr ⟨not_lt.mp hA, hopen⟩
  have hstarts : starts A (A + L) (es ++ [x]) = starts A (A + L) es + 1 := by
    simp [starts_append, hs, hwindow]
  intro d' hd'
  rw [hp, hd, resched, List.drop_one, List.tail_cons, List.mem_singleton] at hd'
  have hlate := hdue d (by rw [hd]; simp)
  rw [hd', hstarts, Nat.cast_add, Nat.cast_one]
  linarith [hreach.1]

theorem metered_expiry (h : ClockStep u x v) (hu : Metered A L es u) (ht : Idle es u ∨ Ticking u)
    (hs : ¬ x.isStart) (he : x.isExpiry) {pre post : List ℚ}
    (hdue : u.pending = pre ++ x.time :: post) (hp : v.pending = resched x.time (pre ++ post) 5) :
    Metered A L (es ++ [x]) v := by
  obtain ⟨hreach, hnow⟩ := clockStep_now h
  have hmem : x.time ∈ u.pending := by
    rw [hdue]
    simp
  have hstarts := starts_append_of_not A (A + L) es hs
  by_cases hwindow : x.inWindow A (A + L)
  · obtain ⟨hA, hB⟩ := inWindow_iff.mp hwindow
    have hexpiries : expiries A (A + L) (es ++ [x]) = expiries A (A + L) es + 1 := by
      simp [expiries_append, he, hwindow]
    have hroom := hu.room hmem (hreach.1.trans hB) hB
    refine ⟨?_, ?_, ?_⟩
    · rw [hexpiries, hstarts]
      omega
    · intro hlt
      rw [hnow] at hlt
      exact absurd hA (not_le.mpr hlt)
    · intro _
      right
      intro d hd
      have hpending : v.pending = [x.time + 5] := by
        rcases ht with ht | ⟨d', hd', -⟩
        · rw [ht.1] at hdue
          simp at hdue
        · rw [hd'] at hdue
          obtain ⟨rfl, -, rfl⟩ := singleton_eq_append_cons hdue
          exact hp
      rw [hpending, List.mem_singleton] at hd
      rw [hd, hexpiries, hstarts, Nat.cast_add, Nat.cast_one]
      rcases hu.due (hreach.1.trans hB) with hzero | hlate
      · have hnonneg : (0 : ℚ) ≤ starts A (A + L) es := Nat.cast_nonneg _
        rw [hzero, Nat.cast_zero]
        linarith
      · have := hlate x.time hmem
        linarith
  · apply hu.keep h (expiries_append_of_not A (A + L) es (Or.inr hwindow))
    intro hopen
    left
    rw [hnow] at hopen
    have hA : x.time < A := by
      by_contra hA
      exact hwindow (inWindow_iff.mpr ⟨not_lt.mp hA, hopen⟩)
    exact hu.closed (lt_of_le_of_lt hreach.1 hA)

theorem metered_step (h : ClockStep u x v) (hu : Metered A L es u) (ht : Idle es u ∨ Ticking u) :
    Metered A L (es ++ [x]) v := by
  cases clockStep_outcome h with
  | start hs he hp => exact metered_start h hu ht hs he hp
  | expiry hs he pre post hdue hp => exact metered_expiry h hu ht hs he hdue hp
  | other hs he hp =>
    obtain ⟨hreach, hnow⟩ := clockStep_now h
    apply hu.keep h (expiries_append_of_not A (A + L) es (Or.inl he))
    intro hopen
    rw [starts_append_of_not A (A + L) es hs, hp]
    exact hu.due (hreach.1.trans (hnow ▸ hopen))

end Steps

section Runs

variable {s t : Clocked} {es : List Tick}

theorem run_metered (run : Run ClockStep s es t) (idle : s.pending = []) (A L : ℚ) :
    Metered A L es t := by
  have h : Run ClockStep s es t ∧ Metered A L es t := by
    apply run.induct (fun pre u => Run ClockStep s pre u ∧ Metered A L pre u)
    · exact ⟨.nil s, metered_nil A L s⟩
    · rintro pre u x v - ⟨hrun, hu⟩ h
      have htimer := run_timer hrun idle
      exact ⟨hrun.snoc h, metered_step h hu (htimer.imp_right And.left)⟩
  exact h.2

theorem sends_eq_expiries (run : Run ClockStep s es t) (A B : ℚ) :
    sends A B es = expiries A B es := by
  apply run.induct (fun pre _ => sends A B pre = expiries A B pre) rfl
  rintro pre u x v - hpre h
  rw [sends, beacons_append, List.countP_append, ← sends, hpre, expiries_append]
  by_cases he : x.isExpiry
  · obtain ⟨j, -, -, -, hbeacon⟩ := clockStep_beacon h he
    rw [hbeacon, List.countP_singleton]
    simp [he, Tick.inWindow]
  · rw [(clockStep_silent h he).1]
    simp [he]

/-- From the first start on exactly one expiry is pending, and a window of
length `L` sees at most one control packet for each start, one for every five
seconds and one more. -/
theorem beacon_rate (run : Run ClockStep s es t) (idle : s.pending = []) :
    ((∃ x ∈ es, x.isStart) → Ticking t) ∧
      ∀ A L : ℚ, sends A (A + L) es ≤ starts A (A + L) es + ⌊L / 5⌋₊ + 1 := by
  constructor
  · rintro ⟨x, hx, hs⟩
    rcases run_timer run idle with ht | ⟨ht, -⟩
    · exact absurd hs (ht.2 x hx).1
    · exact ht
  · intro A L
    rw [sends_eq_expiries run]
    exact (run_metered run idle A L).bound

/-- Two starts at one instant, and the one control packet they lead to. -/
theorem beacon_rate_two_starts :
    let a := Simple.wired 1 []
    let es : List Tick := [startAt a 0, startAt a 0, ⟨0, a, .expire .alloc 0⟩]
    beacons es = [⟨0, 0, 0⟩] ∧
      ∀ A L : ℚ, sends A (A + L) es ≤ starts A (A + L) es + ⌊L / 5⌋₊ + 1 := by
  intro a es
  have hagain : Clocked.Reaches ⟨a, 0, [0]⟩ 0 := ⟨le_refl _, by simp⟩
  have hone : [(0 : ℚ)] = [] ++ 0 :: [] := rfl
  have h1 := clockStep_startAt (u := ⟨a, 0, []⟩) (reaches_now_of_idle rfl) (by simp)
  have h2 := clockStep_startAt (u := ⟨a, 0, [0]⟩) hagain (by simp)
  have h3 := ClockStep.expire ⟨a, 0, [0]⟩ hagain hone .alloc (le_refl (0 : ℚ)) one_pos
  refine ⟨?_, (beacon_rate (.cons h1 (.cons h2 (.single h3))) rfl).2⟩
  have hsilent : (startAt a 0).beacons = [] :=
    (clockStep_silent h1 (fun he => Bool.false_ne_true he)).1
  have hbeacon : Tick.beacons ⟨0, a, .expire .alloc 0⟩ = [⟨0, 0 + 0 * (1 / 2), 0⟩] := rfl
  rw [beacons, List.flatMap_cons, List.flatMap_cons, List.flatMap_singleton, hsilent, hbeacon]
  norm_num

end Runs

end LearnNs2
