import Mathlib.Data.Fintype.Card
import Mathlib.Order.Basic

/-!
# Watchers of one quantity

Several watchers look at a quantity at times of their own. Each remembers the
value it saw last and reports a value that it has not just seen, all of them to
one log. Who reads the log takes its last entry for the value of the quantity.
That is right if the quantity never goes up, for then nobody remembers less than
the log says.
-/

namespace Watchers

set_option autoImplicit false

universe u v w

variable {ι : Type u} {α : Type v} {β : Type w}

@[ext] structure Watch (ι : Type u) (α : Type v) (β : Type w) where
  seen : ι → α
  /-- The reports, oldest first. -/
  log : List β

namespace Watch

/-- What a reader takes the value for who took it for `b` before any report. -/
def shown (b : β) (w : Watch ι α β) : β := w.log.getLastD b

def observe [DecidableEq ι] [DecidableEq α] (render : α → β) (w : Watch ι α β) (i : ι) (v : α) :
    Watch ι α β :=
  if w.seen i = v then w else ⟨Function.update w.seen i v, w.log ++ [render v]⟩

section Rules

variable [DecidableEq ι] [DecidableEq α] {render : α → β} {w : Watch ι α β} {i : ι} {v : α}

theorem observe_of_eq (h : w.seen i = v) : w.observe render i v = w := if_pos h

theorem observe_of_ne (h : w.seen i ≠ v) :
    w.observe render i v = ⟨Function.update w.seen i v, w.log ++ [render v]⟩ := if_neg h

theorem seen_observe_self : (w.observe render i v).seen i = v := by
  by_cases h : w.seen i = v
  · rw [observe_of_eq h, h]
  · rw [observe_of_ne h]
    exact Function.update_self i v w.seen

theorem seen_observe_of_ne {j : ι} (h : j ≠ i) : (w.observe render i v).seen j = w.seen j := by
  by_cases hv : w.seen i = v
  · rw [observe_of_eq hv]
  · rw [observe_of_ne hv]
    exact Function.update_of_ne h v w.seen

end Rules

/-- The values reported so far, when the quantity has only come down from `top`:
they came down, the last of them is between the quantity and what anybody
remembers, and nobody has reported one twice. -/
structure Fallen [PartialOrder α] [DecidableLE α] [DecidableEq α] [Fintype ι] (render : α → β)
    (top : α) (w : Watch ι α β) (values : List α) (v : α) : Prop where
  log : w.log = values.map render
  down : values.Pairwise fun x y => y ≤ x
  below : ∀ x ∈ values, x < top
  le : v ≤ values.getLastD top
  seen : ∀ i, values.getLastD top ≤ w.seen i
  seen_le : ∀ i, w.seen i ≤ top
  count : ∀ x < top, values.count x ≤ (Finset.univ.filter fun i => w.seen i ≤ x).card

namespace Fallen

variable [PartialOrder α] [DecidableLE α] [DecidableEq α] [Fintype ι] {render : α → β} {top : α}
  {w : Watch ι α β} {values : List α} {v v' : α}

theorem start {seen : ι → α} (h : ∀ i, seen i = top) (hv : v ≤ top) :
    Fallen render top (⟨seen, []⟩ : Watch ι α β) [] v where
  log := rfl
  down := .nil
  below := by simp
  le := hv
  seen i := (h i).ge
  seen_le i := (h i).le
  count x hx := Nat.zero_le _

theorem fall (h : Fallen render top w values v) (hv : v' ≤ v) : Fallen render top w values v' :=
  { h with le := hv.trans h.le }

theorem shown (h : Fallen render top w values v) :
    w.shown (render top) = render (values.getLastD top) := by
  rw [Watch.shown, h.log, List.getLastD_eq_getLast?, List.getLast?_map, List.getLastD_eq_getLast?]
  cases values.getLast? <;> rfl

theorem le_of_mem (h : Fallen render top w values v) {x : α} (hx : x ∈ values) : v ≤ x := by
  rcases List.eq_nil_or_concat' values with rfl | ⟨pre, y, rfl⟩
  · simp at hx
  · have hv : v ≤ y := by simpa using h.le
    rcases List.mem_append.mp hx with hx | hx
    · exact hv.trans ((List.pairwise_append.mp h.down).2.2 x hx y List.mem_cons_self)
    · rw [List.mem_singleton.mp hx]
      exact hv

/-- A watcher that remembers the value need not report it: the value reported last
is between the two. -/
theorem last_of_seen (h : Fallen render top w values v) {i : ι} (hi : w.seen i = v) :
    values.getLastD top = v :=
  le_antisymm (hi ▸ h.seen i) h.le

variable [DecidableEq ι]

theorem report (h : Fallen render top w values v) {i : ι} (hi : w.seen i ≠ v) :
    Fallen render top (w.observe render i v) (values ++ [v]) v := by
  have hlt : v < w.seen i := lt_of_le_of_ne (h.le.trans (h.seen i)) hi.symm
  have hle : ∀ j, (w.observe render i v).seen j ≤ w.seen j := by
    intro j
    by_cases hj : j = i
    · rw [hj, seen_observe_self]
      exact hlt.le
    · rw [seen_observe_of_ne hj]
  have hsub : ∀ x, (Finset.univ.filter fun j => w.seen j ≤ x) ⊆
      Finset.univ.filter fun j => (w.observe render i v).seen j ≤ x := by
    intro x j hj
    rw [Finset.mem_filter] at hj ⊢
    exact ⟨hj.1, (hle j).trans hj.2⟩
  refine ⟨?_, ?_, ?_, ?_, ?_, fun j => (hle j).trans (h.seen_le j), ?_⟩
  · rw [observe_of_ne hi, h.log, List.map_append]
    rfl
  · rw [List.pairwise_append]
    refine ⟨h.down, List.pairwise_singleton _ v, ?_⟩
    intro x hx y hy
    rw [List.mem_singleton.mp hy]
    exact h.le_of_mem hx
  · intro x hx
    rcases List.mem_append.mp hx with hx | hx
    · exact h.below x hx
    · rw [List.mem_singleton.mp hx]
      exact lt_of_lt_of_le hlt (h.seen_le i)
  · rw [List.getLastD_concat]
  · intro j
    rw [List.getLastD_concat]
    by_cases hj : j = i
    · rw [hj, seen_observe_self]
    · rw [seen_observe_of_ne hj]
      exact h.le.trans (h.seen j)
  · intro x hx
    by_cases hxv : v = x
    · subst hxv
      have hnew : i ∈ Finset.univ.filter fun j => (w.observe render i v).seen j ≤ v := by
        rw [Finset.mem_filter, seen_observe_self]
        exact ⟨Finset.mem_univ i, le_refl v⟩
      have hold : i ∉ Finset.univ.filter fun j => w.seen j ≤ v := by
        rw [Finset.mem_filter]
        exact fun hmem => hlt.not_ge hmem.2
      have hcard := Finset.card_lt_card
        (Finset.ssubset_iff_subset_ne.mpr ⟨hsub v, fun heq => hold (heq ▸ hnew)⟩)
      have hcount := h.count v hx
      rw [List.count_append, List.count_singleton_self]
      omega
    · have hcard := Finset.card_le_card (hsub x)
      rw [List.count_append, List.count_singleton, if_neg (by simpa using hxv), Nat.add_zero]
      exact (h.count x hx).trans hcard

/-- What an observation of the quantity leaves, with no new value but that one. -/
theorem observe (h : Fallen render top w values v) (i : ι) :
    ∃ values', Fallen render top (w.observe render i v) values' v ∧
      values'.getLastD top = v ∧ ∀ x ∈ values', x = v ∨ x ∈ values := by
  by_cases hi : w.seen i = v
  · refine ⟨values, ?_, h.last_of_seen hi, fun x hx => Or.inr hx⟩
    rw [observe_of_eq hi]
    exact h
  · refine ⟨values ++ [v], h.report hi, List.getLastD_concat .., ?_⟩
    intro x hx
    rcases List.mem_append.mp hx with hx | hx
    · exact Or.inr hx
    · exact Or.inl (List.mem_singleton.mp hx)

end Fallen

end Watch

end Watchers
